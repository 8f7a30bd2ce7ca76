import OpenVino.Vpu.Model.Graph

/-!
# Editing a VPU model

The operations of `Model` that add, move and remove edges: adding and duplicating stages, adding and
replacing their inputs and outputs, injecting a stage into a HW stage and reverting it, disconnecting and
removing a stage. Each is written statement by statement: a graph is built, and the stage order helpers
are carried along by the functions of `Graph`.

`EditOp` lists the operations and `editSystem` is their transition system, from the empty model; an
operation that throws ends the run.
-/

namespace OpenVino.Vpu

namespace Model

variable {m : Model}

/-- `addInputData`, `addNewData` and the like, by the usage of the new data. -/
def addData (m : Model) (usage : DataUsage) : Model := { m with graph := m.graph.addData usage }

/-- The edges that share allocation with other datas, after any call of `connectDatas` and the like. -/
def setDataEdges (m : Model) (d : DataId) (parent : Option SharedDataOrder) (children : List SharedDataOrder) :
    Model :=
  { m with
    graph := { m.graph with
      data := Function.update m.graph.data d
        ((m.graph.data d).map fun n => { n with parentDataEdge := parent, childDataEdges := children }) } }

/-! ### Adding edges -/

def addStageInput (m : Model) (s : StageId) (d : DataId) : Result (Model × EdgeId) := do
  let _ ← m.graph.getStage s
  let data ← m.graph.getData d
  ieAssert "data->_usage != DataUsage::Temp" (data.usage ≠ .Temp)
  let edge := m.graph.inputs.nextEdge
  let graph := m.graph.addInput s d
  let order ← graph.linkInput s d m.order.reset
  return (⟨graph, order.updateInitial s⟩, edge)

/-- The `data` is free: nothing writes it. -/
def checkFree (g : Graph) (d : DataId) : Result Unit := do
  let data ← g.getData d
  ieAssert "data->_producerEdge == nullptr" (g.producer? d = none)
  ieAssert "data->_parentDataEdge->_order != SharedDataOrder::ParentWritesToChild"
    (data.parentDataEdge ≠ some .ParentWritesToChild)
  ieAssert "childDataEdge->_order != SharedDataOrder::ChildWritesToParent"
    (.ChildWritesToParent ∉ data.childDataEdges)
  ieAssert "data->_usage == Output || data->_usage == Intermediate || data->_usage == Fake"
    (data.usage = .Output ∨ data.usage = .Intermediate ∨ data.usage = .Fake)

def addStageOutput (m : Model) (s : StageId) (d : DataId) : Result (Model × EdgeId) := do
  let _ ← m.graph.getStage s
  checkFree m.graph d
  let edge := m.graph.outputs.nextEdge
  let graph := m.graph.addOutput s d
  let order ← graph.linkConsumers s d .eraseInitial m.order.reset
  return (⟨graph, order⟩, edge)

def addTempBuffer (m : Model) (s : StageId) : Result Model := do
  let _ ← m.graph.getStage s
  return { m with graph := (m.graph.addData .Temp).addTempBuffer s m.graph.nextData }

/-! ### Replacing the data of an edge -/

def replaceStageInput (m : Model) (e : EdgeId) (newInput : DataId) : Result Model := do
  let edge ← m.graph.inputs.getEdge e
  let newData ← m.graph.getData newInput
  (m.graph.outputs.ports edge.stage).forM fun o => do
    let output ← m.graph.outputs.getEdge o
    ieAssert "newInput != output" (newInput ≠ output.data)
  ieAssert "newInput->_usage != DataUsage::Temp" (newData.usage ≠ .Temp)
  ieAssert "edge->_parentEdge == nullptr" (m.graph.inputs.deref edge.parentEdge = none)
  ieAssert "edge->_childEdge == nullptr" (m.graph.inputs.deref edge.childEdge = none)
  let graph := m.graph.eraseConsumer edge.data e
  let order ← graph.unlinkInput edge.stage edge.data m.order.reset
  let graph := { graph with inputs := graph.inputs.setData e newInput }.pushConsumer newInput e
  let order ← graph.linkInput edge.stage newInput order
  return ⟨graph, order.updateInitial edge.stage⟩

def replaceStageOutput (m : Model) (e : EdgeId) (newOutput : DataId) : Result Model := do
  let edge ← m.graph.outputs.getEdge e
  let _ ← m.graph.getData newOutput
  (m.graph.inputs.ports edge.stage).forM fun i => do
    let input ← m.graph.inputs.getEdge i
    ieAssert "newOutput != input" (newOutput ≠ input.data)
  checkFree m.graph newOutput
  ieAssert "edge->_parentEdge == nullptr" (m.graph.outputs.deref edge.parentEdge = none)
  ieAssert "edge->_childEdge == nullptr" (m.graph.outputs.deref edge.childEdge = none)
  let graph := m.graph.setProducer edge.data none
  let order ← graph.unlinkConsumers edge.stage edge.data .updateInitial m.order.reset
  let graph := { graph with outputs := graph.outputs.setData e newOutput }.setProducer newOutput (some e)
  let order ← graph.linkConsumers edge.stage newOutput .eraseInitial order
  return ⟨graph, order⟩

/-! ### Adding stages -/

/-- `for (const auto& input : inputs) addStageInput(stage, input);` and the same for the outputs. -/
def addEdges (m : Model) (s : StageId) (inputs outputs : List DataId) : Result Model := do
  let m ← inputs.foldlM (fun m d => Prod.fst <$> m.addStageInput s d) m
  outputs.foldlM (fun m d => Prod.fst <$> m.addStageOutput s d) m

def checkEdges (g : Graph) (inputs outputs : List DataId) : Result Unit := do
  ieAssert "!inputs.empty()" (inputs ≠ [])
  ieAssert "!outputs.empty()" (outputs ≠ [])
  inputs.forM fun d => do let _ ← g.getData d
  outputs.forM fun d => do let _ ← g.getData d
  ieAssert "input != output" (∀ output ∈ outputs, ∀ input ∈ inputs, input ≠ output)

/-- The stage enters the list of the model. -/
def listStage (m : Model) (s : StageId) : Model :=
  { m with graph := { m.graph with stagePtrList := m.graph.stagePtrList ++ [s] } }

/-- `creator()`, or `origStage->cloneImpl()`: a stage without edges. -/
def createStage (m : Model) (category : StageCategory) : Model :=
  ⟨m.graph.addStage category, m.order.reset.addStage m.graph.nextStage⟩

def addNewStage (m : Model) (category : StageCategory) (inputs outputs : List DataId) : Result Model := do
  checkEdges m.graph inputs outputs
  let stage := m.graph.nextStage
  let m ← (m.createStage category).addEdges stage inputs outputs
  return m.listStage stage

def duplicateStage (m : Model) (origStage : StageId) (inputs outputs : List DataId) : Result Model := do
  let orig ← m.graph.getStage origStage
  checkEdges m.graph inputs outputs
  let stage := m.graph.nextStage
  let m := m.createStage orig.category
  let m := { m with order := { m.order with initialStages := insert stage m.order.initialStages } }
  let m ← m.addEdges stage inputs outputs
  let m ← (m.graph.tempBuffers.ports origStage).foldlM (fun m e => do
    let _ ← m.graph.tempBuffers.getEdge e
    m.addTempBuffer stage) m
  return m.listStage stage

/-! ### Injecting a stage -/

def redirectInput (parent : StageId) (m : Model) (e : EdgeId) : Result Model := do
  let childInEdge ← m.graph.inputs.getEdge e
  let order ← m.graph.unlinkInput childInEdge.stage childInEdge.data m.order
  let graph := m.graph.eraseConsumer childInEdge.data e
  let (m, parentInEdge) ← addStageInput ⟨graph, order⟩ parent childInEdge.data
  return { m with graph := { m.graph with inputs := m.graph.inputs.tie e parentInEdge } }

def redirectOutput (parent : StageId) (m : Model) (e : EdgeId) : Result Model := do
  let childOutEdge ← m.graph.outputs.getEdge e
  let order ← m.graph.unlinkConsumers childOutEdge.stage childOutEdge.data (fun o _ => o) m.order
  let graph := m.graph.setProducer childOutEdge.data none
  let (m, parentOutEdge) ← addStageOutput ⟨graph, order⟩ parent childOutEdge.data
  return { m with graph := { m.graph with outputs := m.graph.outputs.tie e parentOutEdge } }

def redirectTempBuffer (parent : StageId) (m : Model) (e : EdgeId) : Result Model := do
  let childEdge ← m.graph.tempBuffers.getEdge e
  let parentEdge := m.graph.tempBuffers.nextEdge
  let graph := (m.graph.setTempBuffer childEdge.data none).addTempBuffer parent childEdge.data
  return { m with graph := { graph with tempBuffers := graph.tempBuffers.tie e parentEdge } }

/-- `injectStage().parentHW(parent).childSW(child).done()` -/
def injectStage (m : Model) (parent child : StageId) : Result Model := do
  let parentNode ← m.graph.getStage parent
  ieAssert "parent->category() == StageCategory::HW" (parentNode.category = .HW)
  let childNode ← m.graph.getStage child
  ieAssert "child->category() == StageCategory::DMA || child->category() == StageCategory::SHAVE"
    (childNode.category = .DMA ∨ childNode.category = .SHAVE)
  m.graph.checkNotInjected parent
  m.graph.checkNotInjected child
  ieAssert "child->_injectedStageEdges.empty()" (childNode.injectedStageEdges = [])
  let m : Model := ⟨m.graph.addStageEdge parent child, m.order.reset⟩
  let m ← (m.graph.inputs.ports child).foldlM (redirectInput parent) m
  let m ← (m.graph.outputs.ports child).foldlM (redirectOutput parent) m
  let m ← (m.graph.tempBuffers.ports child).foldlM (redirectTempBuffer parent) m
  ieAssert "child->_ptrPosInModel != _stagePtrList.end()" (child ∈ m.graph.stagePtrList)
  let graph := { m.graph with stagePtrList := m.graph.stagePtrList.erase child }
  return ⟨graph, (m.order.eraseInitial child).updateInitial parent⟩

/-! ### Reverting an injection -/

/-- What the three loops of `revertInjection` have in common: they find the edges of the parent that are
tied to edges of `child`, from `startInd` to `endInd`, and take each of them back. -/
def revertEdges (ports : Model → Ports) (revertEdge : EdgeId → PortEdge → EdgeId → PortEdge → Model → Result Model)
    (child : StageId) (size : Nat) : List EdgeId → Int → Int → Model → Result (Int × Int × Model)
  | [], startInd, endInd, m => .ok (startInd, endInd, m)
  | q :: edges, startInd, endInd, m => do
    let edge ← (ports m).getEdge q
    match edge.childEdge, (ports m).deref edge.childEdge with
    | some e, some childEdge =>
      ieAssert "edge->_childEdge->_stage != childStage"
        (0 ≤ startInd ∧ 0 ≤ endInd → childEdge.stage ≠ child)
      if childEdge.stage ≠ child then
        let endInd := if 0 ≤ startInd ∧ endInd < 0 then (edge.portInd : Int) else endInd
        revertEdges ports revertEdge child size edges startInd endInd m
      else
        let startInd := if startInd < 0 then (edge.portInd : Int) else startInd
        let endInd := if edge.portInd = size - 1 then (edge.portInd : Int) + 1 else endInd
        let m ← revertEdge q edge e childEdge m
        revertEdges ports revertEdge child size edges startInd endInd m
    | _, _ =>
      ieAssert "startInd < 0" (startInd < 0)
      revertEdges ports revertEdge child size edges startInd endInd m

/-- `edges.erase(edges.begin() + startInd, edges.begin() + endInd)` -/
def eraseRange (edges : List EdgeId) (startInd endInd : Int) : List EdgeId :=
  edges.take startInd.toNat ++ edges.drop endInd.toNat

def revertInput (q : EdgeId) (inEdge : PortEdge) (e : EdgeId) (childEdge : PortEdge) (m : Model) :
    Result Model := do
  let order ← m.graph.unlinkInput inEdge.stage inEdge.data m.order
  let order ← m.graph.linkInput childEdge.stage childEdge.data order
  let graph := (m.graph.eraseConsumer inEdge.data q).pushConsumer inEdge.data e
  return ⟨{ graph with inputs := graph.inputs.release q e }, order⟩

def revertOutput (q : EdgeId) (outEdge : PortEdge) (e : EdgeId) (childEdge : PortEdge) (m : Model) :
    Result Model := do
  let order ← m.graph.unlinkConsumers outEdge.stage outEdge.data (fun o _ => o) m.order
  let order ← m.graph.linkConsumers childEdge.stage childEdge.data (fun o _ => o) order
  let graph := m.graph.setProducer outEdge.data (some e)
  return ⟨{ graph with outputs := graph.outputs.release q e }, order⟩

def revertTempBuffer (q : EdgeId) (edge : PortEdge) (e : EdgeId) (_childEdge : PortEdge) (m : Model) :
    Result Model :=
  let graph := m.graph.setTempBuffer edge.data (some e)
  .ok { m with graph := { graph with tempBuffers := graph.tempBuffers.release q e } }

def revertInputs (m : Model) (parent child : StageId) : Result Model := do
  let edges := m.graph.inputs.ports parent
  let (startInd, endInd, m) ← revertEdges (·.graph.inputs) revertInput child edges.length edges (-1) (-1) m
  ieAssert "startInd >= 0 && endInd > startInd && startInd <= parentStage->_inputEdges.size()"
    (0 ≤ startInd ∧ startInd < endInd ∧ startInd ≤ edges.length)
  return { m with graph := { m.graph with
    inputs := m.graph.inputs.close parent (eraseRange edges startInd endInd) } }

def revertOutputs (m : Model) (parent child : StageId) : Result Model := do
  let edges := m.graph.outputs.ports parent
  let (startInd, endInd, m) ← revertEdges (·.graph.outputs) revertOutput child edges.length edges (-1) (-1) m
  ieAssert "startInd >= 0 && endInd > startInd && startInd <= parentStage->_outputEdges.size()"
    (0 ≤ startInd ∧ startInd < endInd ∧ startInd ≤ edges.length)
  return { m with graph := { m.graph with
    outputs := m.graph.outputs.close parent (eraseRange edges startInd endInd) } }

def revertTempBuffers (m : Model) (parent child : StageId) : Result Model := do
  let edges := m.graph.tempBuffers.ports parent
  let (startInd, endInd, m) ←
    revertEdges (·.graph.tempBuffers) revertTempBuffer child edges.length edges (-1) (-1) m
  if 0 ≤ startInd then
    ieAssert "endInd > startInd && startInd <= parentStage->_tempBufferEdges.size()"
      (startInd < endInd ∧ startInd ≤ edges.length)
    return { m with graph := { m.graph with
      tempBuffers := m.graph.tempBuffers.close parent (eraseRange edges startInd endInd) } }
  else
    return m

def revertInjection (m : Model) (i : StageEdgeId) : Result Model := do
  let edge ← m.graph.getStageEdge i
  let _ ← m.graph.getStage edge.parent
  let childNode ← m.graph.getStage edge.child
  ieAssert "childStage->_parentStageEdge == edge" (childNode.parentStageEdge = some i)
  let m : Model := ⟨m.graph, m.order.reset⟩
  let m := m.listStage edge.child
  let m := { m with graph := m.graph.unlinkStageEdge i edge.parent edge.child }
  let m ← m.revertInputs edge.parent edge.child
  let m ← m.revertOutputs edge.parent edge.child
  let m ← m.revertTempBuffers edge.parent edge.child
  let order := (m.order.updateInitial edge.parent).updateInitial edge.child
  return ⟨m.graph.eraseStageEdge i, order⟩

/-! ### Taking a stage out -/

def disconnectInput (m : Model) (e : EdgeId) : Result Model := do
  let inEdge ← m.graph.inputs.getEdge e
  let order ← m.graph.unlinkInput inEdge.stage inEdge.data m.order
  let graph := m.graph.eraseConsumer inEdge.data e
  return ⟨{ graph with inputs := graph.inputs.erase e }, order⟩

def disconnectOutput (m : Model) (e : EdgeId) : Result Model := do
  let outEdge ← m.graph.outputs.getEdge e
  let order ← m.graph.unlinkConsumers outEdge.stage outEdge.data (fun o _ => o) m.order
  let graph := m.graph.setProducer outEdge.data none
  return ⟨{ graph with outputs := graph.outputs.erase e }, order⟩

def disconnectTempBuffer (m : Model) (e : EdgeId) : Result Model := do
  let edge ← m.graph.tempBuffers.getEdge e
  let graph := m.graph.setTempBuffer edge.data none
  return { m with graph := { graph with tempBuffers := graph.tempBuffers.erase e } }

def disconnectStage (m : Model) (s : StageId) : Result Model := do
  let _ ← m.graph.getStage s
  let m : Model := { m with order := m.order.reset }
  let m ← (m.graph.inputs.ports s).foldlM disconnectInput m
  let m := { m with graph := { m.graph with inputs := m.graph.inputs.setPorts s [] } }
  let m ← (m.graph.outputs.ports s).foldlM disconnectOutput m
  let m := { m with graph := { m.graph with outputs := m.graph.outputs.setPorts s [] } }
  let m ← (m.graph.tempBuffers.ports s).foldlM disconnectTempBuffer m
  return { m with graph := { m.graph with tempBuffers := m.graph.tempBuffers.setPorts s [] } }

def removeStage (m : Model) (s : StageId) : Result Model := do
  let m ← m.disconnectStage s
  let order := m.order.eraseInitial s
  ieAssert "stage->_ptrPosInModel != _stagePtrList.end()" (s ∈ m.graph.stagePtrList)
  return ⟨m.graph.eraseStage s, order⟩

end Model

/-! ### Runs -/

inductive EditOp
  | addData (usage : DataUsage)
  | setDataEdges (d : DataId) (parent : Option SharedDataOrder) (children : List SharedDataOrder)
  | addNewStage (category : StageCategory) (inputs outputs : List DataId)
  | duplicateStage (s : StageId) (inputs outputs : List DataId)
  | addStageInput (s : StageId) (d : DataId)
  | addStageOutput (s : StageId) (d : DataId)
  | addTempBuffer (s : StageId)
  | replaceStageInput (e : EdgeId) (d : DataId)
  | replaceStageOutput (e : EdgeId) (d : DataId)
  | injectStage (parent child : StageId)
  | revertInjection (i : StageEdgeId)
  | disconnectStage (s : StageId)
  | removeStage (s : StageId)

def EditOp.exec (m : Model) : EditOp → Result Model
  | .addData usage => .ok (m.addData usage)
  | .setDataEdges d parent children => .ok (m.setDataEdges d parent children)
  | .addNewStage category inputs outputs => m.addNewStage category inputs outputs
  | .duplicateStage s inputs outputs => m.duplicateStage s inputs outputs
  | .addStageInput s d => Prod.fst <$> m.addStageInput s d
  | .addStageOutput s d => Prod.fst <$> m.addStageOutput s d
  | .addTempBuffer s => m.addTempBuffer s
  | .replaceStageInput e d => m.replaceStageInput e d
  | .replaceStageOutput e d => m.replaceStageOutput e d
  | .injectStage parent child => m.injectStage parent child
  | .revertInjection i => m.revertInjection i
  | .disconnectStage s => m.disconnectStage s
  | .removeStage s => m.removeStage s

end OpenVino.Vpu
