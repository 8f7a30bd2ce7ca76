import OpenVino.InferenceEngine.BatchSize
import OpenVino.InferenceEngine.GraphEdit.Heap
import OpenVino.InferenceEngine.VisitBefore

/-!
# `CNNNetCopy`

The first traversal copies every layer with its output `Data` (`createNode`), the second one replaces what
the copies still point to (`createEdges`); then the inputs, the outputs and the batch size are transferred.
A new layer or `Data` is the next pointer of the heap.
-/

namespace OpenVino.InferenceEngine.Heap

/-- A network with the layers it consists of; pointers from `nextLayer` and `nextData` on are free. -/
structure Network where
  graph : Graph
  layers : Finset CNNLayerPtr
  isConst : CNNLayerPtr → Bool
  inputsInfo : StdMap String DataPtr
  outputsInfo : StdMap String DataPtr
  nextLayer : Nat
  nextData : Nat
  layers_lt : ∀ l ∈ layers, l < nextLayer
  consumer_mem : ∀ d, ∀ l ∈ graph.consumers d, l ∈ layers
  creator_mem : ∀ d l, (graph.data d).creatorLayer = some l → l ∈ layers
  insData_lt : ∀ l, ∀ d ∈ (graph.layer l).insData, d < nextData
  outData_lt : ∀ l, ∀ d ∈ (graph.layer l).outData, d < nextData

/-- What the traversals see of a network. -/
def Network.toICNNNetwork (n : Network) : ICNNNetwork where
  layers := n.layers
  name l := (n.graph.layer l).name
  insData l := (n.graph.layer l).insData.map some
  outData l := (n.graph.layer l).outData
  getInputTo d := (n.graph.consumers d).map some
  getCreatorLayer d := (n.graph.data d).creatorLayer
  getInputsInfo := n.inputsInfo.values
  inputTo_mem d l h := by
    obtain ⟨m, hm, heq⟩ := List.mem_map.mp h
    exact Option.some_inj.mp heq ▸ n.consumer_mem d m hm
  creator_mem := n.creator_mem

/-- The maps of the new network. -/
structure CNNNetworkImpl where
  layers : StdMap String CNNLayerPtr := .empty
  data : StdMap String DataPtr := .empty
  inputData : StdMap String DataPtr := .empty
  outputData : StdMap String DataPtr := .empty

structure CopyState where
  graph : Graph
  isConst : CNNLayerPtr → Bool
  nextLayer : Nat
  nextData : Nat
  oldToNewLayers : CNNLayerPtr → Option CNNLayerPtr := fun _ => none
  net : CNNNetworkImpl := {}

/-- Copies of `sources` at the pointers from `base` on. -/
def Graph.copyDatas (g : Graph) (sources : List DataPtr) (base : DataPtr) : Graph :=
  { g with data := fun d => if base ≤ d then ((sources[d - base]?).map g.data).getD (g.data d) else g.data d }

/-- `getBatchSize` by the first input. -/
def getBatchSize (g : Graph) (inputData : StdMap String DataPtr) : Result Nat :=
  match inputData.entries with
  | [] => pure 0
  | (_, data) :: _ =>
    match (g.data data).dims with
    | [] => .error (.undefinedBehaviour "dims.at(0)")
    | first :: rest => if rest.length = 0 ∨ rest.length = 2 then pure 1 else pure first

namespace CopyState

variable (s : CopyState)

/-- The copier: a copy of the layer with copies of its output `Data`. -/
def injectData (sourceLayer : CNNLayerPtr) : CNNLayerPtr × CopyState :=
  let source := s.graph.layer sourceLayer
  let outData := List.range' s.nextData source.outData.length
  let g := s.graph.copyDatas source.outData s.nextData
  (s.nextLayer, { s with
    graph := { g with layer := Function.update g.layer s.nextLayer { source with outData } }
    isConst := Function.update s.isConst s.nextLayer (s.isConst sourceLayer)
    nextLayer := s.nextLayer + 1
    nextData := s.nextData + source.outData.length })

/-- The visit of the first pass. -/
def createNode (current : CNNLayerPtr) : Result CopyState :=
  let newLayer := (s.injectData current).1
  let s := (s.injectData current).2
  pure { s with
    oldToNewLayers := Function.update s.oldToNewLayers current (some newLayer)
    net := { s.net with layers := s.net.layers.set (s.graph.layer newLayer).name newLayer } }

def findOutDataIdx (sourceData : DataPtr) : Result Nat :=
  match (s.graph.data sourceData).creatorLayer with
  | none => throwException ("Data " ++ (s.graph.data sourceData).name ++ " has no creator layer")
  | some sourceLayer =>
    match (s.graph.layer sourceLayer).outData.findIdx? (· = sourceData) with
    | none => .error (.assertionFailed "dataIdx != -1")
    | some dataIdx => pure dataIdx

/-- The last port of `layer` with a `Data` that counts as `sourceData`. -/
def findInsDataIdx (sourceData : DataPtr) (layer : CNNLayerPtr) : Result Nat :=
  let insData := (s.graph.layer layer).insData
  let ports := (List.range insData.length).filter fun j => insData[j]?.any fun d => s.graph.areEqualDatas d sourceData
  match if layer ∈ s.graph.consumers sourceData then ports.getLast? else none with
  | none => .error (.assertionFailed "dataIdx != -1")
  | some dataIdx => pure dataIdx

/-- `oldToNewLayers[layer]`, for a use that needs a layer. -/
def newLayer (layer : CNNLayerPtr) : Result CNNLayerPtr :=
  match s.oldToNewLayers layer with
  | none => .error (.undefinedBehaviour "oldToNewLayers[layer] is null")
  | some newLayer => pure newLayer

/-- One output `Data` of a new layer. -/
def remapOutput (newLayer : CNNLayerPtr) (s : CopyState) (outData : DataPtr) : Result CopyState := do
  let inputTo := (s.graph.data outData).inputTo
  let g := s.graph.setCreatorLayer outData (some newLayer)
  let data := s.net.data.set (s.graph.data outData).name outData
  -- every layer that the copy is mapped to has been traversed
  if ∀ l ∈ inputTo.values, (s.oldToNewLayers l).isSome then
    let g := g.setInputTo outData (inputTo.mapValues fun l => (s.oldToNewLayers l).getD l)
    pure { s with graph := g, net := { s.net with data } }
  else .error (.undefinedBehaviour "a null layer in getInputTo()")

/-- The new `Data` for one input of a layer. -/
def remapInput (sourceData : DataPtr) : Result DataPtr :=
  match (s.graph.data sourceData).creatorLayer with
  | none => throwException ("Data " ++ (s.graph.data sourceData).name ++ " has no creator layer")
  | some sourceLayer => do
    let newLayer ← s.newLayer sourceLayer
    let dataIdx ← s.findOutDataIdx sourceData
    elemAt "outData[dataIdx]" (s.graph.layer newLayer).outData dataIdx

/-- The visit of the second pass. -/
def createEdges (current : CNNLayerPtr) : Result CopyState := do
  let newLayer ← s.newLayer current
  let s ← (s.graph.layer newLayer).outData.foldlM (remapOutput newLayer) s
  let insData ← (s.graph.layer current).insData.mapM s.remapInput
  pure { s with graph := s.graph.setInsData newLayer insData }

/-- One reader of one network input. -/
def transferInput (inputData : DataPtr) (s : CopyState) (secondLayer : CNNLayerPtr) : Result CopyState := do
  let secondLayerNew ← s.newLayer secondLayer
  let dataIdx ← s.findInsDataIdx inputData secondLayer
  let data ← elemAt "insData[dataIdx]" (s.graph.layer secondLayerNew).insData dataIdx
  pure { s with net := { s.net with inputData := s.net.inputData.set (s.graph.data data).name data } }

def transferInputs (info : String × DataPtr) : Result CopyState :=
  (s.graph.consumers info.2).foldlM (transferInput info.2) s

/-- `addOutput` of the new network. -/
def addOutput (layerName : String) (outputIndex : Nat) : Result CopyState :=
  match s.net.layers.find? layerName with
  | none => throwException ("Layer " ++ layerName ++ " not found in network")
  | some outLayer =>
    match (s.graph.layer outLayer).outData[outputIndex]? with
    | none =>
      throwException ("port index " ++ toString outputIndex ++ " exceeds layer's outputs which is " ++
        toString (s.graph.layer outLayer).outData.length)
    | some outData =>
      pure { s with
        net := { s.net with outputData := s.net.outputData.set (s.graph.data outData).name outData } }

def transferOutput (output : String × DataPtr) : Result CopyState :=
  match (s.graph.data output.2).creatorLayer with
  | none => .error (.undefinedBehaviour "getCreatorLayer().lock()->name")
  | some creatorLayer => do
    let dataIdx ← s.findOutDataIdx output.2
    s.addOutput (s.graph.layer creatorLayer).name dataIdx

/-- One `Data` of the loop in `setBatchSize`; the layers of type `Const` keep their dims. -/
def rescale (size originalBatchSize : Nat) (s : CopyState) (layer : String × DataPtr) : Result CopyState :=
  if (s.graph.data layer.2).creatorLayer.any s.isConst then pure s
  else
    match (s.graph.data layer.2).dims with
    | [] => throwException "vector::_M_range_check"
    | first :: rest =>
      if originalBatchSize = 0 ∨ 2 ^ 64 ≤ scaled size originalBatchSize first then
        .error (.undefinedBehaviour "static_cast<size_t>(std::ceil(size * diff))")
      else pure { s with graph := s.graph.setDims layer.2 (scaled size originalBatchSize first :: rest) }

def setBatchSize (size : Nat) : Result CopyState := do
  let originalBatchSize ← getBatchSize s.graph s.net.inputData
  if originalBatchSize = size then pure s
  else
    match s.net.inputData.entries with
    | [] => .error (.undefinedBehaviour "_inputData.cbegin()->second")
    | (_, data) :: _ =>
      if (s.graph.data data).dims.length = 3 ∨ (s.graph.data data).dims.length = 1 then
        throwException "Cannot set batch for 1D/3D input"
      else s.net.data.entries.foldlM (rescale size originalBatchSize) s

end CopyState

def Network.startCopy (n : Network) : CopyState where
  graph := n.graph
  isConst := n.isConst
  nextLayer := n.nextLayer
  nextData := n.nextData

/-- The heap after the call, with the new network. -/
def CNNNetCopy (input : Network) : Result CopyState := do
  let n := input.toICNNNetwork
  let starters ← n.CNNNetGetAllInputLayers
  let (res, s) ← n.CNNNetForestDFSBefore CopyState.createNode (n.layers.card + 1) starters
    ⟨fun _ => none, input.startCopy⟩
  if ¬res then throwException "Copying of network not possible, due to existed loop."
  else do
    let (_, s) ← n.CNNNetForestDFSBefore CopyState.createEdges (n.layers.card + 1) starters ⟨fun _ => none, s.state⟩
    let s ← input.inputsInfo.entries.foldlM CopyState.transferInputs s.state
    let s ← input.outputsInfo.entries.foldlM CopyState.transferOutput s
    let batchSize ← getBatchSize input.graph input.inputsInfo
    s.setBatchSize batchSize

end OpenVino.InferenceEngine.Heap
