import OpenVino.Base.Counter
import OpenVino.Base.Exception
import OpenVino.Vpu.Model.Ports
import Mathlib.Data.Finset.Erase
import Mathlib.Data.Finset.Insert

/-!
# The stage graph of a VPU model

`Graph` holds the nodes and edges that the lists of `Model` own, by number. A number that is not in its
list is a handle that has expired: it compares equal to `nullptr`, and `operator->` throws. The lists
that a `DataNode` or a `StageNode` keeps (`_consumerEdges`, `_inputEdges`, …) are functions of its number.

`StageOrder` holds what the source calls the stage order helpers: for each stage the counters
`_nextStages` and `_prevStages`, and the roots `_initialStages`. A `Model` is a graph with these helpers.
-/

namespace OpenVino.Vpu

inductive StageCategory
  | SHAVE
  | HW
  | DMA
  | Special
deriving DecidableEq

inductive DataUsage
  | Input
  | Output
  | Const
  | Intermediate
  | Temp
  | Fake
deriving DecidableEq

inductive SharedDataOrder
  | ParentWritesToChild
  | ChildWritesToParent
deriving DecidableEq

abbrev StageEdgeId := Nat

structure StageNode where
  category : StageCategory
  parentStageEdge : Option StageEdgeId := none
  injectedStageEdges : List StageEdgeId := []

/-- Of the edges that share allocation only the order is kept. -/
structure DataNode where
  usage : DataUsage
  parentDataEdge : Option SharedDataOrder := none
  childDataEdges : List SharedDataOrder := []

structure InjectedStageEdge where
  parent : StageId
  child : StageId

structure Graph where
  stage : StageId → Option StageNode := fun _ => none
  nextStage : StageId := 0
  data : DataId → Option DataNode := fun _ => none
  nextData : DataId := 0
  inputs : Ports := {}
  outputs : Ports := {}
  tempBuffers : Ports := {}
  consumerEdges : DataId → List EdgeId := fun _ => []
  producerEdge : DataId → Option EdgeId := fun _ => none
  tempBufferEdge : DataId → Option EdgeId := fun _ => none
  stageEdge : StageEdgeId → Option InjectedStageEdge := fun _ => none
  nextStageEdge : StageEdgeId := 0
  stagePtrList : List StageId := []

def expired : IEException := .assertionFailed "!_weak.expired()"

def Ports.getEdge (p : Ports) (e : EdgeId) : Result PortEdge :=
  match p.edge e with
  | some r => .ok r
  | none => .error expired

namespace Graph

variable {g : Graph} {s : StageId} {d : DataId} {e : EdgeId}

def getStage (g : Graph) (s : StageId) : Result StageNode :=
  match g.stage s with
  | some n => .ok n
  | none => .error expired

def getData (g : Graph) (d : DataId) : Result DataNode :=
  match g.data d with
  | some n => .ok n
  | none => .error expired

def getStageEdge (g : Graph) (i : StageEdgeId) : Result InjectedStageEdge :=
  match g.stageEdge i with
  | some r => .ok r
  | none => .error expired

/-- `data->_producerEdge`, when it is not null. -/
def producer? (g : Graph) (d : DataId) : Option PortEdge := g.outputs.deref (g.producerEdge d)

/-- The stage that writes `d`. -/
def producer (g : Graph) (d : DataId) : Option StageId := (g.producer? d).map PortEdge.stage

/-- The stage that an injected stage is a part of. -/
def parentStage (g : Graph) (s : StageId) : Option StageId :=
  ((g.stage s).bind fun n => n.parentStageEdge.bind g.stageEdge).map InjectedStageEdge.parent

/-- `IE_ASSERT(stage->_parentStageEdge == nullptr)` -/
def checkNotInjected (g : Graph) (s : StageId) : Result Unit := do
  let _ ← g.getStage s
  ieAssert "stage->_parentStageEdge == nullptr" (g.parentStage s = none)

/-! ### Changes of the graph -/

def pushAt (f : DataId → List EdgeId) (d : DataId) (e : EdgeId) : DataId → List EdgeId :=
  Function.update f d (f d ++ [e])

def eraseAt (f : DataId → List EdgeId) (d : DataId) (e : EdgeId) : DataId → List EdgeId :=
  Function.update f d ((f d).erase e)

def addData (g : Graph) (usage : DataUsage) : Graph :=
  { g with data := Function.update g.data g.nextData (some { usage := usage }), nextData := g.nextData + 1 }

def addStage (g : Graph) (category : StageCategory) : Graph :=
  { g with
    stage := Function.update g.stage g.nextStage (some { category := category })
    nextStage := g.nextStage + 1 }

def addInput (g : Graph) (s : StageId) (d : DataId) : Graph :=
  { g with
    inputs := g.inputs.add s d
    consumerEdges := pushAt g.consumerEdges d g.inputs.nextEdge }

def addOutput (g : Graph) (s : StageId) (d : DataId) : Graph :=
  { g with
    outputs := g.outputs.add s d
    producerEdge := Function.update g.producerEdge d (some g.outputs.nextEdge) }

def addTempBuffer (g : Graph) (s : StageId) (d : DataId) : Graph :=
  { g with
    tempBuffers := g.tempBuffers.add s d
    tempBufferEdge := Function.update g.tempBufferEdge d (some g.tempBuffers.nextEdge) }

/-- `data->_consumerEdges.erase(edge)` -/
def eraseConsumer (g : Graph) (d : DataId) (e : EdgeId) : Graph :=
  { g with consumerEdges := eraseAt g.consumerEdges d e }

/-- `data->_consumerEdges.push_back(edge)` -/
def pushConsumer (g : Graph) (d : DataId) (e : EdgeId) : Graph :=
  { g with consumerEdges := pushAt g.consumerEdges d e }

/-- `data->_producerEdge = edge` -/
def setProducer (g : Graph) (d : DataId) (e : Option EdgeId) : Graph :=
  { g with producerEdge := Function.update g.producerEdge d e }

def setTempBuffer (g : Graph) (d : DataId) (e : Option EdgeId) : Graph :=
  { g with tempBufferEdge := Function.update g.tempBufferEdge d e }

/-- `child` becomes a part of `parent`. -/
def addStageEdge (g : Graph) (parent child : StageId) : Graph :=
  let stage := Function.update g.stage parent
    ((g.stage parent).map fun n => { n with injectedStageEdges := n.injectedStageEdges ++ [g.nextStageEdge] })
  { g with
    stageEdge := Function.update g.stageEdge g.nextStageEdge (some ⟨parent, child⟩)
    nextStageEdge := g.nextStageEdge + 1
    stage := Function.update stage child
      ((stage child).map fun n => { n with parentStageEdge := some g.nextStageEdge }) }

/-- The two ends of the injection `i` forget it. -/
def unlinkStageEdge (g : Graph) (i : StageEdgeId) (parent child : StageId) : Graph :=
  let stage := Function.update g.stage parent
    ((g.stage parent).map fun n => { n with injectedStageEdges := n.injectedStageEdges.erase i })
  { g with stage := Function.update stage child ((stage child).map fun n => { n with parentStageEdge := none }) }

def eraseStageEdge (g : Graph) (i : StageEdgeId) : Graph :=
  { g with stageEdge := Function.update g.stageEdge i none }

/-- A stage leaves the list that owns it. -/
def eraseStage (g : Graph) (s : StageId) : Graph :=
  { g with stage := Function.update g.stage s none, stagePtrList := g.stagePtrList.erase s }

end Graph

/-! ### Stage order helpers -/

structure StageOrder where
  nextStages : StageId → Counter StageId := fun _ => .empty
  prevStages : StageId → Counter StageId := fun _ => .empty
  initialStages : Finset StageId := ∅
  resetStageOrder : Bool := true

namespace StageOrder

def reset (o : StageOrder) : StageOrder := { o with resetStageOrder := true }

/-- `++p->_nextStages[c]; ++c->_prevStages[p];` -/
def link (o : StageOrder) (p c : StageId) : StageOrder :=
  { o with
    nextStages := Function.update o.nextStages p ((o.nextStages p).incr c)
    prevStages := Function.update o.prevStages c ((o.prevStages c).incr p) }

/-- Both entries are found, lowered, and erased when they are no longer positive. -/
def unlink (o : StageOrder) (p c : StageId) : Result StageOrder :=
  match (o.nextStages p).decr c, (o.prevStages c).decr p with
  | some next, some prev =>
    .ok { o with
      nextStages := Function.update o.nextStages p next
      prevStages := Function.update o.prevStages c prev }
  | none, _ => .error (.assertionFailed "it1 != _nextStages.end()")
  | some _, none => .error (.assertionFailed "it2 != _prevStages.end()")

def eraseInitial (o : StageOrder) (s : StageId) : StageOrder :=
  { o with initialStages := o.initialStages.erase s }

/-- `if (stage->_prevStages.empty()) _initialStages.emplace(stage); else _initialStages.erase(stage);` -/
def updateInitial (o : StageOrder) (s : StageId) : StageOrder :=
  { o with
    initialStages := if (o.prevStages s).isEmpty then insert s o.initialStages else o.initialStages.erase s }

/-- The maps of a new stage are empty. -/
def addStage (o : StageOrder) (s : StageId) : StageOrder :=
  { o with
    nextStages := Function.update o.nextStages s .empty
    prevStages := Function.update o.prevStages s .empty }

end StageOrder

structure Model where
  graph : Graph := {}
  order : StageOrder := {}

namespace Graph

/-- The helpers for an edge by which `s` reads `d`. -/
def linkInput (g : Graph) (s : StageId) (d : DataId) (o : StageOrder) : Result StageOrder :=
  match g.producer d with
  | none => .ok o
  | some p => do
    g.checkNotInjected s
    g.checkNotInjected p
    return o.link p s

def unlinkInput (g : Graph) (s : StageId) (d : DataId) (o : StageOrder) : Result StageOrder :=
  match g.producer d with
  | none => .ok o
  | some p => do
    let _ ← g.getStage p
    let _ ← g.getStage s
    o.unlink p s

/-- One round of the loop over the edges that read a data which `s` begins to write; `after` is what is done
about the roots at the consumer. -/
def linkConsumer (g : Graph) (s : StageId) (after : StageOrder → StageId → StageOrder) (o : StageOrder)
    (e : EdgeId) : Result StageOrder := do
  let consumerEdge ← g.inputs.getEdge e
  g.checkNotInjected s
  g.checkNotInjected consumerEdge.stage
  return after (o.link s consumerEdge.stage) consumerEdge.stage

def linkConsumers (g : Graph) (s : StageId) (d : DataId) (after : StageOrder → StageId → StageOrder)
    (o : StageOrder) : Result StageOrder :=
  (g.consumerEdges d).foldlM (g.linkConsumer s after) o

/-- One round of the loop over the edges that read a data which `s` ceases to write. -/
def unlinkConsumer (g : Graph) (s : StageId) (after : StageOrder → StageId → StageOrder) (o : StageOrder)
    (e : EdgeId) : Result StageOrder := do
  let consumerEdge ← g.inputs.getEdge e
  let _ ← g.getStage consumerEdge.stage
  let _ ← g.getStage s
  let o ← o.unlink s consumerEdge.stage
  return after o consumerEdge.stage

def unlinkConsumers (g : Graph) (s : StageId) (d : DataId) (after : StageOrder → StageId → StageOrder)
    (o : StageOrder) : Result StageOrder :=
  (g.consumerEdges d).foldlM (g.unlinkConsumer s after) o

end Graph

end OpenVino.Vpu
