import OpenVino.Base.Outcome
import OpenVino.MKLDNNPlugin.Graph.BaseEdge
import OpenVino.MKLDNNPlugin.MemoryDesc

/-!
# The descriptors of an edge

`getInputDesc` and `getOutputDesc` of an edge are what the selected configurations of its parent and its child
have at its ports. Where the layout there is still `ANY`, the formats of the neighbours are counted, neighbours
without a format being asked in the same way, and the format that wins is written into the configuration.

A static counter of either function stops the questions: it is 1 in a call that is not nested in one of the same
function and 2 in a nested one, which asks no further. The calls that a call may nest are therefore a parameter
(`Nested`), and `getInputDesc` and `getOutputDesc` put the levels together.
-/

namespace OpenVino.MKLDNNPlugin

open InferenceEngine (SizeVector toSizeT TensorDesc Precision Layout)

abbrev MKLDNNDims := List Int

/-- The dimensions of the ports of the nodes. -/
structure NodeDims where
  inDims : NodeId → List MKLDNNDims
  outDims : NodeId → List MKLDNNDims

/-- What a call does other than return: an index of a configuration array may be beyond its size. -/
inductive EdgeError
  | indexOutOfRange
  | other (e : IEException)
deriving DecidableEq

abbrev Checked := Except EdgeError

def asChecked {α : Type} (x : Result α) : Checked α := x.mapError .other

def throwEdge {α : Type} (message : String) : Checked α := .error (.other (.exception message))

/-- The configurations, and the descriptors that the edges have found (of layout `ANY` before). -/
structure EdgeDescs where
  configs : Configs TensorDesc
  inputDesc : EdgeId → TensorDesc
  outputDesc : EdgeId → TensorDesc

/-! ### Configuration arrays -/

/-- `confs[idx]` -/
def confAt (confs : List (DataConfig TensorDesc)) (idx : Int) : Checked (DataConfig TensorDesc) :=
  if 0 ≤ idx then
    match confs[idx.toNat]? with
    | some conf => .ok conf
    | none => .error .indexOutOfRange
  else .error .indexOutOfRange

/-- The port, or 0 when there are fewer. -/
def clampPort (confs : List (DataConfig TensorDesc)) (port : Int) : Int := if confs.length ≤ port then 0 else port

def setDesc (confs : List (DataConfig TensorDesc)) (idx : Int) (desc : TensorDesc) : List (DataConfig TensorDesc) :=
  confs.modify idx.toNat ({ · with desc })

def selected (s : EdgeDescs) (n : NodeId) : Checked (LayerConfig TensorDesc) :=
  match s.configs n with
  | some config => .ok config
  | none => throwEdge "Primitive descriptor for node is not selected."

/-- `node->getSelectedPrimitiveDescriptor()->getConfig().inConfs[idx].desc = desc` -/
def writeIn (s : EdgeDescs) (n : NodeId) (idx : Int) (desc : TensorDesc) : Checked EdgeDescs := do
  let config ← selected s n
  let _ ← confAt config.inConfs idx
  return { s with configs := Function.update s.configs n (some { config with inConfs := setDesc config.inConfs idx desc }) }

/-- `node->getSelectedPrimitiveDescriptor()->getConfig().outConfs[idx].desc = desc` -/
def writeOut (s : EdgeDescs) (n : NodeId) (idx : Int) (desc : TensorDesc) : Checked EdgeDescs := do
  let config ← selected s n
  let _ ← confAt config.outConfs idx
  return { s with configs := Function.update s.configs n (some { config with outConfs := setDesc config.outConfs idx desc }) }

/-! ### Formats -/

/-- `MKLDNNMemoryDesc(desc).getFormat()` -/
def getFormat (desc : TensorDesc) : Checked Format := do
  let desc ← asChecked (MKLDNNMemoryDesc.ofTensorDesc desc)
  return desc.format

/-- `MKLDNNMemoryDesc(dims, dataType, format)` as a `TensorDesc`. -/
def memoryTensorDesc (dims : MKLDNNDims) (dataType : DataType) (format : Format) : Result TensorDesc := do
  let desc ← MKLDNNMemoryDesc.ofFormat dims dataType format
  MKLDNNMemoryDesc.toTensorDesc desc

/-- `std::numeric_limits<size_t>::max()` -/
def notInit : Nat := 2 ^ 64 - 1

def getUninitTensorDesc (desc : TensorDesc) : Result TensorDesc := do
  let blockDims := desc.blockingDesc.blockedDims
  if desc.layout = .ANY then return desc
  else
    let blocking ← InferenceEngine.BlockingDesc.ofStrides blockDims desc.blockingDesc.order notInit
      (blockDims.map fun _ => 0) (blockDims.map fun _ => notInit)
    TensorDesc.ofBlocking desc.precision desc.dims blocking

/-- The place of a format in the enumeration of the library, by which the map orders them. -/
def Format.value : Format → Nat
  | .format_undef => 0
  | .any => 1
  | .blocked => 2
  | .x => 3
  | .nc => 4
  | .nchw => 7
  | .nhwc => 8
  | .ncdhw => 10
  | .ndhwc => 11
  | .oi => 12
  | .oihw => 17
  | .ntc => 29
  | .tnc => 30
  | .nChw8c => 39
  | .nChw16c => 40
  | .nCdhw8c => 42
  | .nCdhw16c => 43
  | .oIhw8i => 61

/-- `std::map<memory::format, size_t>`, in its order. -/
abbrev Formats := List (Format × Nat)

def countFormat : Formats → Format → Formats
  | [], format => [(format, 1)]
  | (f, n) :: formats, format =>
    if f = format then (f, n + 1) :: formats
    else if format.value < f.value then (format, 1) :: (f, n) :: formats
    else (f, n) :: countFormat formats format

def isSpecified (format : Format) : Bool := format ≠ .any && format ≠ .format_undef

def GetPlainFormat (dims : MKLDNNDims) : Format :=
  match dims.length with
  | 0 | 1 => .x
  | 2 => .nc
  | 3 => .tnc
  | 4 => .nchw
  | 5 => .ncdhw
  | _ => .blocked

def isConsistant (dims : MKLDNNDims) (format : Format) : Bool :=
  match format with
  | .x => dims.length = 1
  | .nc | .oi => dims.length = 2
  | .ntc | .tnc => dims.length = 3
  | .nchw | .nhwc | .nChw8c | .nChw16c | .oihw => dims.length = 4
  | .ncdhw | .ndhwc | .nCdhw8c | .nCdhw16c => dims.length = 5
  | .format_undef => dims.length = 0
  | .any | .blocked => true
  | .oIhw8i => false

/-- The format that was counted most often, the first of them; the plain one where none was. -/
def chooseFormat (dims : MKLDNNDims) (formats : Formats) : Format :=
  (formats.foldl (fun (best : Nat × Format) it =>
    if best.1 < it.2 ∧ isConsistant dims it.1 then (it.2, it.1) else best) (0, GetPlainFormat dims)).2

namespace MKLDNNGraph

variable (g : MKLDNNGraph) (nd : NodeDims)

/-- `edge->getDims()` -/
def getDims (e : EdgeId) : Checked MKLDNNDims := do
  let inNum := (g.edge e).getOutputNum
  if inNum < 0 then throwEdge "Error cannot find input data"
  let outDims := ((nd.inDims (g.childOf e))[inNum.toNat]?).getD []
  let outNum := (g.edge e).getInputNum
  if outNum < 0 then throwEdge "Error cannot find output data"
  let outNum := if (nd.outDims (g.parentOf e)).length ≤ outNum then 0 else outNum
  let inDims := ((nd.outDims (g.parentOf e))[outNum.toNat]?).getD []
  if inDims ≠ [] ∧ outDims ≠ [] ∧ inDims.length ≠ outDims.length ∧ inDims.prod ≠ outDims.prod then
    throwEdge "Nodes have incompatible dimensions!"
  return if outDims ≠ [] then outDims else inDims

/-- The loops of `nodeCanChangeDesc` over the edges of a node: are there different ranks? -/
def ranksDiffer : MKLDNNDims → List EdgeId → Checked Bool
  | _, [] => .ok false
  | inputDims, e :: edges => do
    let dims ← g.getDims nd e
    if inputDims = [] then ranksDiffer dims edges
    else if inputDims.length ≠ dims.length then return true
    else ranksDiffer inputDims edges

def nodeCanChangeDesc (s : EdgeDescs) (node : NodeId) : Checked Bool := do
  let config ← selected s node
  if config.inConfs.any (·.desc.layout ≠ .ANY) then return true
  if config.outConfs.any (·.desc.layout ≠ .ANY) then return true
  g.ranksDiffer nd [] (g.parentEdges node ++ g.childEdges node)

/-! ### The votes -/

abbrev Asker := EdgeId → Formats → EdgeDescs → Checked (TensorDesc × EdgeDescs)

/-- The calls that a call nests, `none` from the second level on. -/
structure Nested where
  getSpecifiedInputDesc : Asker
  getSpecifiedOutputDesc : Asker

/-- The end of a round: the neighbour's format, or what it answers. -/
def vote (formats : Formats) (s : EdgeDescs) (desc : TensorDesc) (neighbour : NodeId) (ask : Option (Checked (TensorDesc × EdgeDescs))) :
    Checked (Formats × EdgeDescs) := do
  let format ← getFormat desc
  if isSpecified format then return (countFormat formats format, s)
  if ← g.nodeCanChangeDesc nd s neighbour then return (formats, s)
  match ask with
  | none => return (formats, s)
  | some answer =>
    let (desc, s) ← answer
    let format ← getFormat desc
    return (if isSpecified format then countFormat formats format else formats, s)

/-- A round of the loop over the consumers of a node. -/
def voteChild (nested : Option Nested) (e : EdgeId) (fs : Formats × EdgeDescs) (childEdge : EdgeId) :
    Checked (Formats × EdgeDescs) := do
  let (formats, s) := fs
  let child := g.childOf childEdge
  let childIdx := (g.edge childEdge).getOutputNum
  match s.configs child with
  | none => return (formats, s)
  | some config =>
    if childIdx < 0 then return (formats, s)
    if (← g.getDims nd childEdge).length ≠ (← g.getDims nd e).length then return (formats, s)
    let conf ← confAt config.inConfs (clampPort config.inConfs childIdx)
    g.vote nd formats s conf.desc child (nested.map fun nested => nested.getSpecifiedOutputDesc childEdge formats s)

/-- A round of the loop over the producers of a node. -/
def voteParent (nested : Option Nested) (e : EdgeId) (fs : Formats × EdgeDescs) (parentEdge : EdgeId) :
    Checked (Formats × EdgeDescs) := do
  let (formats, s) := fs
  let parent := g.parentOf parentEdge
  let parentIdx := (g.edge parentEdge).getInputNum
  match s.configs parent with
  | none => return (formats, s)
  | some config =>
    if parentIdx < 0 then return (formats, s)
    if (← g.getDims nd parentEdge).length ≠ (← g.getDims nd e).length then return (formats, s)
    let conf ← confAt config.outConfs (clampPort config.outConfs parentIdx)
    g.vote nd formats s conf.desc parent (nested.map fun nested => nested.getSpecifiedInputDesc parentEdge formats s)

/-! ### The two functions -/

def getSpecifiedInputDesc (nested : Option Nested) (e : EdgeId) (formats : Formats) (s : EdgeDescs) :
    Checked (TensorDesc × EdgeDescs) := do
  if (s.inputDesc e).layout ≠ .ANY then return (s.inputDesc e, s)
  let parent := g.parentOf e
  let config ← selected s parent
  let inputIdx := (g.edge e).getInputNum
  if inputIdx < 0 then throwEdge "Edge cannot be found for node."
  let inputIdx := clampPort config.outConfs inputIdx
  let conf ← confAt config.outConfs inputIdx
  if conf.desc.layout ≠ .ANY then return (conf.desc, s)
  let isFormatChanging ← g.nodeCanChangeDesc nd s parent
  if isFormatChanging = false ∧ ∃ conf ∈ config.inConfs[inputIdx.toNat]?, conf.desc.layout ≠ .ANY then
    let conf ← confAt config.inConfs inputIdx
    let s ← writeOut s parent inputIdx conf.desc
    return (conf.desc, s)
  let fs ← (g.childEdges parent).foldlM (g.voteChild nd nested e) (formats, s)
  let (formats, s) ← (
    if isFormatChanging then pure fs else (g.parentEdges parent).foldlM (g.voteParent nd nested e) fs)
  let dims ← g.getDims nd e
  let desc := chooseFormat dims formats
  let config ← selected s parent
  let conf ← confAt config.outConfs inputIdx
  let memoryDesc ← asChecked (MKLDNNMemoryDesc.ofTensorDesc conf.desc)
  let result ← asChecked (memoryTensorDesc dims memoryDesc.data_type desc)
  let s ← writeOut s parent inputIdx result
  let s ← (
    if isFormatChanging = false ∧ ∃ conf ∈ config.inConfs[inputIdx.toNat]?, conf.desc.layout = .ANY then do
      writeIn s parent inputIdx (← asChecked (getUninitTensorDesc result))
    else pure s)
  return (result, s)

def getSpecifiedOutputDesc (nested : Option Nested) (e : EdgeId) (formats : Formats) (s : EdgeDescs) :
    Checked (TensorDesc × EdgeDescs) := do
  if (s.outputDesc e).layout ≠ .ANY then return (s.outputDesc e, s)
  let child := g.childOf e
  let parent := g.parentOf e
  let config ← selected s child
  if (g.edge e).getOutputNum < 0 then throwEdge "Edge cannot be found for node."
  let outputIdx := clampPort config.inConfs (g.edge e).getOutputNum
  let conf ← confAt config.inConfs outputIdx
  if conf.desc.layout ≠ .ANY then return (conf.desc, s)
  let parentConfig ← asChecked (selectedConfig s.configs parent)
  -- the comparison with the size is one of `size_t`, so a negative port is beyond it
  let inputIdx := if (g.edge e).getInputNum < 0 then 0 else clampPort parentConfig.outConfs (g.edge e).getInputNum
  let isFormatChanging ← g.nodeCanChangeDesc nd s child
  let known : Option TensorDesc ← (
    if isFormatChanging then do
      let conf ← confAt parentConfig.outConfs inputIdx
      return if conf.desc.layout ≠ .ANY then some conf.desc else none
    else return (config.outConfs[outputIdx.toNat]?).bind fun conf =>
      if conf.desc.layout ≠ .ANY then some conf.desc else none)
  match known with
  | some outDesc =>
    let dims ← g.getDims nd e
    let blocking ← asChecked (InferenceEngine.BlockingDesc.ofOrder outDesc.blockingDesc.blockedDims outDesc.blockingDesc.order)
    let desc ← asChecked (TensorDesc.ofBlocking conf.desc.precision (dims.map toSizeT) blocking)
    let s ← writeIn s child outputIdx desc
    return (desc, s)
  | none =>
    let fs ← (g.parentEdges child).foldlM (g.voteParent nd nested e) (formats, s)
    let (formats, s) ← (
      if isFormatChanging then pure fs else (g.childEdges child).foldlM (g.voteChild nd nested e) fs)
    let dims ← g.getDims nd e
    let format := chooseFormat dims formats
    let config ← selected s child
    let conf ← confAt config.inConfs (g.edge e).getOutputNum
    let memoryDesc ← asChecked (MKLDNNMemoryDesc.ofTensorDesc conf.desc)
    let result ← asChecked (memoryTensorDesc dims memoryDesc.data_type format)
    let s ← writeIn s child outputIdx result
    let s ← (
      if isFormatChanging = false ∧ ∃ conf ∈ config.outConfs[outputIdx.toNat]?, conf.desc.layout = .ANY then do
        writeOut s child outputIdx (← asChecked (getUninitTensorDesc result))
      else pure s)
    let config ← selected s child
    let conf ← confAt config.outConfs outputIdx
    return (conf.desc, s)

/-- The calls at the second level, which ask no further. -/
def lastNested : Nested where
  getSpecifiedInputDesc := g.getSpecifiedInputDesc nd none
  getSpecifiedOutputDesc := g.getSpecifiedOutputDesc nd none

/-- The calls that the outer `getSpecifiedInputDesc` nests: the first of `getSpecifiedOutputDesc`, the second of
its own. -/
def nestedInInput : Nested :=
  { g.lastNested nd with getSpecifiedOutputDesc := g.getSpecifiedOutputDesc nd (some (g.lastNested nd)) }

def nestedInOutput : Nested :=
  { g.lastNested nd with getSpecifiedInputDesc := g.getSpecifiedInputDesc nd (some (g.lastNested nd)) }

def getInputDesc (e : EdgeId) (s : EdgeDescs) : Checked (TensorDesc × EdgeDescs) := do
  if (s.inputDesc e).layout = .ANY then
    let (desc, s) ← g.getSpecifiedInputDesc nd (some (g.nestedInInput nd)) e [] s
    return (desc, { s with inputDesc := Function.update s.inputDesc e desc })
  else return (s.inputDesc e, s)

def getOutputDesc (e : EdgeId) (s : EdgeDescs) : Checked (TensorDesc × EdgeDescs) := do
  if (s.outputDesc e).layout = .ANY then
    let (desc, s) ← g.getSpecifiedOutputDesc nd (some (g.nestedInOutput nd)) e [] s
    return (desc, { s with outputDesc := Function.update s.outputDesc e desc })
  else return (s.outputDesc e, s)

end MKLDNNGraph

end OpenVino.MKLDNNPlugin
