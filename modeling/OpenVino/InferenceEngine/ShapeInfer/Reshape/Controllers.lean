import OpenVino.InferenceEngine.GraphTools
import OpenVino.InferenceEngine.Layouts

/-!
# The controllers of a reshaped layer

A launcher keeps the shapes of its layer in an `InputController` for the inputs and one for the outputs, apart
from the network: `applyChanges` alone writes them into the `Data`. A `Port` is one entry of the vectors that
have an entry for each `Data`; `shapes` can get another length. The contents of a blob are of any type `β`.
-/

namespace OpenVino.InferenceEngine

/-- `Precision::name`. -/
def Precision.name : Precision → String
  | UNSPECIFIED => "UNSPECIFIED"
  | MIXED => "MIXED"
  | FP32 => "FP32"
  | FP16 => "FP16"
  | Q78 => "Q78"
  | I16 => "I16"
  | U8 => "U8"
  | I8 => "I8"
  | U16 => "U16"
  | I32 => "I32"
  | I64 => "I64"
  | BIN => "BIN"
  | CUSTOM => "CUSTOM"

namespace ShapeInfer

/-- What a `Data` knows about its shape, twice: `dims` are the dimensions in the reversed order. -/
structure Data where
  dims : SizeVector
  layout : Layout
  precision : Precision
  tensorDesc : TensorDesc
deriving DecidableEq

def Data.getTensorDesc (data : Data) : Result TensorDesc :=
  let desc := data.tensorDesc
  if desc.dims = [] ∧ data.dims ≠ [] ∧ data.dims.head? ≠ some 1 ∨ desc.layout = .ANY ∧ data.layout ≠ .ANY ∨
      desc.precision = .UNSPECIFIED ∧ data.precision ≠ .UNSPECIFIED then
    throwException "Tensor descriptor is empty!"
  else if data.precision = .UNSPECIFIED then return desc
  else return { desc with precision := data.precision }

/-- A blob, with what is in its memory once it is allocated. -/
structure Blob (β : Type) where
  tensorDesc : TensorDesc
  buffer : Option β := none

variable {β : Type}

def make_blob_with_precision (desc : TensorDesc) : Result (Blob β) :=
  match desc.precision with
  | .UNSPECIFIED | .MIXED | .CUSTOM =>
    throwException ("cannot locate blob for precision: " ++ desc.precision.name)
  | _ => return { tensorDesc := desc }

/-- `data && data->cbuffer() != nullptr`. -/
def hasBuffer : Option (Blob β) → Bool
  | some blob => blob.buffer.isSome
  | none => false

structure Port (β : Type) where
  data : DataPtr
  dataName : String
  irShape : SizeVector
  inferedData : Option (Blob β) := none

structure InputController (β : Type) where
  layerName : String
  ports : List (Port β)
  shapes : List SizeVector

/-- `DefaultChecker::run`; the pointers that it lets pass. -/
def DefaultChecker.run (dataVec : List (Option DataPtr)) (layerName : String) : Result (List DataPtr) := do
  let errorBase := "Failed to init controller for reshaping layer `" ++ layerName ++ "`"
  if dataVec = [] then throwException (errorBase ++ ": vector of data is empty")
  dataVec.mapM fun
    | some data => return data
    | none => throwException (errorBase ++ ": pointer to the data is null")

namespace InputController

/-- The constructor, of the input and of the output controller. -/
def create (getName : DataPtr → String) (data : DataPtr → Data) (dataVec : List (Option DataPtr))
    (layerName : String) : Result (InputController β) := do
  let dataVec ← DefaultChecker.run dataVec layerName
  let ports ← dataVec.mapM fun d => do
    let desc ← (data d).getTensorDesc
    return { data := d, dataName := getName d, irShape := desc.dims : Port β }
  return { layerName, ports, shapes := ports.map (·.irShape) }

variable (c : InputController β)

def getPositionByName (dataName : String) : Result Nat :=
  let pos := c.ports.findIdx (·.dataName == dataName)
  if pos < c.ports.length then return pos
  else throwException ("Failed to find shape that corresponds Data name=" ++ dataName)

def setShapeByName (shape : SizeVector) (dataName : String) : Result (InputController β) := do
  let pos ← c.getPositionByName dataName
  if pos < c.shapes.length then return { c with shapes := c.shapes.set pos shape }
  else .error (.undefinedBehaviour "_shapes[pos]")

def getIRShapeByName (dataName : String) : Result SizeVector := do
  let pos ← c.getPositionByName dataName
  elemAt "_irShapes[pos]" (c.ports.map (·.irShape)) pos

def getIRShapes : List SizeVector := c.ports.map (·.irShape)

def setBlobByName (blob : Option (Blob β)) (dataName : String) : Result (InputController β) := do
  let pos ← c.getPositionByName dataName
  return { c with ports := c.ports.modify pos fun port => { port with inferedData := blob } }

def checkCorrespondence : Result Unit :=
  if c.shapes.length ≠ c.ports.length then
    throwException ("ReshapeLauncher: Number of data(" ++ toString c.ports.length ++
      ") doesn't match with number of shapes(" ++ toString c.shapes.length ++ ") for layer '" ++ c.layerName ++ "'!")
  else return ()

def getShapes (check : Bool) : Result (List SizeVector) := do
  if check then c.checkCorrespondence
  return c.shapes

def reset : InputController β := { c with shapes := c.getIRShapes }

def isDataAvailable : Bool := !c.ports.isEmpty && c.ports.all fun port => hasBuffer port.inferedData

/-- A blob without memory for the shape, in the layout and the precision of the `Data`. -/
def makeBlob (data : DataPtr → Data) (d : DataPtr) (shape : SizeVector) : Result (Blob β) := do
  let desc ← (data d).getTensorDesc
  let desc ← desc.setDims shape
  make_blob_with_precision desc

/-- A round of the loop in `getBlobs`. -/
def fillPort (data : DataPtr → Data) (port : Port β) (i : Nat) : Result (Port β) :=
  if hasBuffer port.inferedData then return port
  else do
    let shape ← elemAt "_shapes[i]" c.shapes i
    let blob ← makeBlob data port.data shape
    return { port with inferedData := some blob }

/-- `getBlobs`; what it returns is the `inferedData` of the ports. -/
def getBlobs (data : DataPtr → Data) (check : Bool) : Result (InputController β) := do
  if check then c.checkCorrespondence
  let ports ← c.ports.zipIdx.mapM fun (port, i) => c.fillPort data port i
  return { c with ports }

def blobs : List (Option (Blob β)) := c.ports.map (·.inferedData)

/-! ### The output controller -/

def setShapes (shapes : List SizeVector) : InputController β := { c with shapes }

/-- `createBlobs`; the memory of the blobs is not written yet, and only their descriptors count. -/
def createBlobs (data : DataPtr → Data) : Result (List TensorDesc) :=
  c.ports.zipIdx.mapM fun (port, i) => do
    let shape ← elemAt "_shapes[i]" c.shapes i
    let blob : Blob β ← makeBlob data port.data shape
    return blob.tensorDesc

/-- `setBlobs`, of a blob for each `Data`. -/
def setBlobs (blobs : List (Blob β)) : InputController β :=
  { c with ports := c.ports.zipWith (fun port blob => { port with inferedData := some blob }) blobs }

end InputController

end ShapeInfer

end OpenVino.InferenceEngine
