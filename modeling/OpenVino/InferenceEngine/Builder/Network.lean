import OpenVino.Base.Method
import OpenVino.InferenceEngine.Layouts

/-!
# The network builder

A `Builder.Network` holds two lists, its layers and its connections, and a connection names its two layers by
id. `addLayer` finds an id and a name that no layer has; `connect` merges the data of the two ports, which can
reach the ports of other layers, and stores the connection; `disconnect` and `removeLayer` erase. A
`PortData.Ptr` and a `Blob.Ptr` are the value with the address it has: the four methods never write to the
object behind one, they only exchange pointers.
-/

namespace OpenVino.InferenceEngine

abbrev IdxT := Nat

structure PortInfo where
  layer : IdxT
  port : IdxT
deriving DecidableEq

structure Connection where
  input : PortInfo
  output : PortInfo
deriving DecidableEq

namespace Builder

/-- The memory of a blob once it is allocated. -/
structure Buffer where
  address : Nat
  bytes : List UInt8

structure Blob where
  address : Nat
  tensorDesc : TensorDesc
  element_size : Nat
  cbuffer : Option Buffer

namespace Blob

def product (dims : SizeVector) : Nat := if dims = [] then 0 else toSizeT (dims.prod : Nat)

def size (b : Blob) : Nat := if b.tensorDesc.layout = .SCALAR then 1 else product b.tensorDesc.dims

def byteSize (b : Blob) : Nat := toSizeT (b.size * b.element_size : Nat)

/-- `!memcmp(a->cbuffer(), b->cbuffer(), n)`. -/
def memcmp (a b : Blob) (n : Nat) : Result Bool :=
  let bytes (x : Blob) := (x.cbuffer.map Buffer.bytes).getD []
  if n ≤ (bytes a).length ∧ n ≤ (bytes b).length then return (bytes a).take n = (bytes b).take n
  else .error (.undefinedBehaviour "memcmp")

def sameBuffer (a b : Blob) : Bool := a.cbuffer.map Buffer.address = b.cbuffer.map Buffer.address

def blobEqualOrEmpty (ref test : Blob) : Result Bool :=
  if ref.size = test.size ∨ test.size = 0 then do
    let same ← memcmp ref test test.byteSize
    return same &&
      (ref.tensorDesc.precision = test.tensorDesc.precision || test.tensorDesc.precision = .UNSPECIFIED) &&
      (ref.tensorDesc.layout = test.tensorDesc.layout || test.tensorDesc.layout = .ANY) &&
      (ref.tensorDesc.dims = test.tensorDesc.dims || test.tensorDesc.dims = []) &&
      (sameBuffer ref test || test.cbuffer = none)
  else return false

/-- The test for equal blobs of `connect`. -/
def sameContent (src dst : Blob) : Result Bool :=
  if src.size = dst.size ∧ src.tensorDesc = dst.tensorDesc then
    if sameBuffer src dst then return true
    else if src.cbuffer = none ∨ dst.cbuffer = none then return false
    else memcmp src dst dst.byteSize
  else return false

end Blob

structure PortData (Parameter : Type) where
  address : Nat
  data : Option Blob
  parameters : List (String × Parameter) := []

/-- `PortData()`, at the addresses where the allocator puts it and its blob. -/
def PortData.create (Parameter : Type) (address blobAddress : Nat) : PortData Parameter where
  address := address
  data := some {
    address := blobAddress
    tensorDesc := { layout := .ANY, precision := .UNSPECIFIED }
    element_size := 1
    cbuffer := none }

structure Port (Parameter : Type) where
  parameters : List (String × Parameter) := []
  data : PortData Parameter

structure Layer (Parameter : Type) where
  id : IdxT := 2 ^ 64 - 1
  type : String
  name : String
  inPorts : List (Port Parameter) := []
  outPorts : List (Port Parameter) := []
  params : List (String × Parameter) := []

structure Network (Parameter : Type) where
  layers : List (Layer Parameter) := []
  connections : List Connection := []

variable {Parameter : Type}

namespace Network

/-! ### Ids and names -/

/-- The search of `getAvailableId`: it starts again after each collision. -/
def availableId (layers : List (Layer Parameter)) : Nat → IdxT → Result IdxT
  | 0, _ => .error .outOfFuel
  | fuel + 1, defaultId =>
    if ∃ layer ∈ layers, layer.id = defaultId then availableId layers fuel ((defaultId + 1) % 2 ^ 64)
    else return defaultId

def getAvailableId (layers : List (Layer Parameter)) (defaultId : IdxT) : Result IdxT :=
  availableId layers (layers.length + 1) (if defaultId = 2 ^ 64 - 1 then 0 else defaultId)

def idName (id : IdxT) : String := "id" ++ toString id

/-- One scan of `generateAvailableName`: the name after it, and whether it met no layer of that name. -/
def scanNames (id : IdxT) : List (Layer Parameter) → String → String × Bool
  | [], generatedName => (generatedName, true)
  | layer :: layers, generatedName =>
    if generatedName = layer.name then
      ((scanNames id layers (generatedName ++ ("_" ++ idName id))).1, false)
    else scanNames id layers generatedName

def availableName (layers : List (Layer Parameter)) (id : IdxT) : Nat → String → Result String
  | 0, _ => .error .outOfFuel
  | fuel + 1, generatedName =>
    match scanNames id layers generatedName with
    | (generatedName, true) => return generatedName
    | (generatedName, false) => availableName layers id fuel generatedName

def generateAvailableName (layers : List (Layer Parameter)) (name : String) (id : IdxT) : Result String :=
  availableName layers id (layers.length + 1) (if name = "" then idName id else name)

def addLayer (layer : Layer Parameter) : Method (Network Parameter) IdxT := do
  let n ← get
  let generatedId ← getAvailableId n.layers layer.id
  let name ← generateAvailableName n.layers layer.name generatedId
  modify fun n => { n with layers := n.layers ++ [{ layer with id := generatedId, name }] }
  return generatedId

/-! ### Ports -/

def getLayer (layerId : IdxT) : Method (Network Parameter) (Layer Parameter) := do
  let n ← get
  match n.layers.find? (·.id = layerId) with
  | some layer => return layer
  | none => throw (.exception ("Cannot find layer with id: " ++ toString layerId))

def getLayerConnections (n : Network Parameter) (layerId : IdxT) : List Connection :=
  n.connections.filter fun connection => connection.input.layer = layerId || connection.output.layer = layerId

/-- `operator[]` of a vector of ports. -/
def portAt (ports : List (Port Parameter)) (port : IdxT) : Result (Port Parameter) :=
  elemAt "getPorts()[portId]" ports port

/-- Writes to the layer that `getLayer` finds. -/
def modifyLayer (layerId : IdxT) (write : Layer Parameter → Layer Parameter) : Method (Network Parameter) Unit :=
  modify fun n => { n with layers := n.layers.modify (n.layers.findIdx (·.id = layerId)) write }

/-- `getLayer(info.layerId())->getInputPorts()[info.portId()].setData(data)`. -/
def setInputData (info : PortInfo) (data : PortData Parameter) : Method (Network Parameter) Unit := do
  let layer ← getLayer info.layer
  let port ← portAt layer.inPorts info.port
  modifyLayer info.layer fun layer => { layer with inPorts := layer.inPorts.set info.port { port with data } }

/-- `getLayer(info.layerId())->getOutputPorts()[info.portId()].setData(data)`. -/
def setOutputData (info : PortInfo) (data : PortData Parameter) : Method (Network Parameter) Unit := do
  let layer ← getLayer info.layer
  let port ← portAt layer.outPorts info.port
  modifyLayer info.layer fun layer => { layer with outPorts := layer.outPorts.set info.port { port with data } }

/-! ### Connections -/

/-- What `connect` counts on both sides of two ports, `none` when their blobs differ. -/
def dataCounts [DecidableEq Parameter] (src dst : PortData Parameter) : Result (Option (Nat × Nat)) := do
  let srcDataCount := if src.parameters ≠ [] then 1 else 0
  let dstDataCount := if dst.parameters ≠ [] then 1 else 0
  if src.data.map Blob.address = dst.data.map Blob.address then return some (srcDataCount + 1, dstDataCount + 1)
  else
    match src.data, dst.data with
    | some srcBlb, some dstBlb =>
      if ← Blob.sameContent srcBlb dstBlb then return some (srcDataCount + 1, dstDataCount + 1)
      else if ← Blob.blobEqualOrEmpty srcBlb dstBlb then return some (srcDataCount + 1, dstDataCount)
      else if ← Blob.blobEqualOrEmpty dstBlb srcBlb then return some (srcDataCount, dstDataCount + 1)
      else return none
    | _, _ => .error (.undefinedBehaviour "srcBlb->size()")

variable [DecidableEq Parameter]

def mergePortData (input output : PortInfo) : Method (Network Parameter) Bool := do
  let srcLayer ← getLayer input.layer
  let srcPort ← portAt srcLayer.outPorts input.port
  let dstLayer ← getLayer output.layer
  let dstPort ← portAt dstLayer.inPorts output.port
  let srcPortData := srcPort.data
  let dstPortData := dstPort.data
  if srcPortData.address = dstPortData.address then return true
  else if srcPortData.parameters ≠ dstPortData.parameters ∧ srcPortData.parameters ≠ [] ∧
      dstPortData.parameters ≠ [] then return false
  else
    match ← dataCounts srcPortData dstPortData with
    | none => return false
    | some (srcDataCount, dstDataCount) =>
      if dstDataCount > srcDataCount then do
        -- change the source and all that it feeds
        let n ← get
        (n.getLayerConnections input.layer).forM fun connection =>
          if connection.input ≠ input then pure () else setInputData connection.output dstPortData
        setOutputData input dstPortData
        return true
      else do
        setInputData output srcPortData
        return true

def connect (input output : PortInfo) : Method (Network Parameter) Unit := do
  let merged ← mergePortData input output
  if ¬merged then throw (.exception "Cannot connect two ports with different data!")
  else modify fun n => { n with connections := n.connections ++ [⟨input, output⟩] }

/-- `catch (InferenceEngineException& ex) {}`. -/
def swallow : IEException → Method (Network Parameter) Unit
  | .exception _ => pure ()
  | e => throw e

/-- `disconnect`; `fresh` is the `PortData` it makes. -/
def disconnect (connection : Connection) (fresh : PortData Parameter) : Method (Network Parameter) Unit := do
  modify fun n => { n with connections := n.connections.erase connection }
  tryCatch (setInputData connection.output fresh) swallow

def removeLayer (layerId : IdxT) : Method (Network Parameter) Unit :=
  modify fun n => { n with layers := n.layers.eraseP (·.id = layerId) }

/-- `addLayer(inputs, layer)`. -/
def addLayerTo (inputs : List PortInfo) (layer : Layer Parameter) : Method (Network Parameter) IdxT := do
  let layer_id ← addLayer layer
  inputs.zipIdx.forM fun (input, i) => connect input ⟨layer_id, i⟩
  return layer_id

end Network

end Builder

end OpenVino.InferenceEngine
