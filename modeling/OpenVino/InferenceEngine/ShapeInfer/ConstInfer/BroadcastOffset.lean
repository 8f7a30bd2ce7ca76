import OpenVino.InferenceEngine.InferRequestInternal
import OpenVino.InferenceEngine.ShapeInfer.Reshape.Launchers

/-!
# Element-wise layers

`EltWiseShapeProp` takes the larger of the two input shapes as vectors, and its axes from the left. Constant
inference aligns the axes from the right: a `BroadcastOffset` has a stride for each axis of the output, and zero
where the input is broadcast. The strides are multiplied up in an `int`.
-/

namespace OpenVino.InferenceEngine

namespace ShapeInfer

/-! ### Shapes -/

/-- The operations that `parseParams` knows. -/
def EltwiseValidator.operations : List String :=
  ["sum", "", "mul", "prod", "max", "sub", "div", "min", "squared_diff", "equal", "not_equal", "less", "less_equal",
    "greater", "greater_equal", "logical_not", "logical_and", "logical_or", "logical_xor", "floor_mod", "pow", "mean"]

/-- The validator of the type; the types other than `Eltwise` have one that lets everything pass. -/
def EltWiseShapeProp.validate (_type operation : String) (inShapes : List SizeVector) : Result Unit :=
  if details.equal _type "Eltwise" then
    if operation ∉ EltwiseValidator.operations then
      throwException ("Unsupported element wise operation: " ++ operation)
    else if inShapes = [] then throwException "Number of inputs (0) of Eltwise layer is zero"
    else return ()
  else return ()

/-- `std::max` of two vectors, which compares them lexicographically. -/
def stdMax (a b : SizeVector) : SizeVector := if a < b then b else a

def EltWiseShapeProp.inferShapesImpl (_type operation : String) (inShapes : List SizeVector) :
    Result (List SizeVector) := do
  validate _type operation inShapes
  match inShapes with
  | [] => .error (.undefinedBehaviour "inShapes[0]")
  | [shape] => return [shape]
  | shape0 :: shape1 :: _ =>
    let outShape ← (List.range (stdMax shape0 shape1).length).mapM fun ind =>
      if ind < shape0.length ∧ ind < shape1.length then return max (shape0.getD ind 0) (shape1.getD ind 0)
      else if shape0.length ≤ ind then elemAt "inShapes[1][ind]" shape1 ind
      else elemAt "inShapes[0][ind]" shape0 ind
    return [outShape]

/-! ### Offsets -/

structure BroadcastOffset where
  dims : SizeVector
  offset_v : SizeVector

namespace BroadcastOffset

/-- The assignments of `getDims`, to `d` from the back. -/
def overwrite : SizeVector → SizeVector → Result SizeVector
  | d, [] => return d
  | [], _ :: _ => .error (.undefinedBehaviour "d[d.size() - 1 - i]")
  | _ :: d, originDim :: originDims => (originDim :: ·) <$> overwrite d originDims

def getDims (originDims outputDims : SizeVector) : Result SizeVector := do
  let d ← overwrite (List.replicate outputDims.length 1) originDims.reverse
  return d.reverse

/-- The loop of `getOffset`, with the `int k` after it. -/
def offsets : SizeVector → SizeVector → SizeVector × Int
  | originDim :: originDims, outDim :: outDims =>
    let (o, k) := offsets originDims outDims
    ((if originDim = outDim then toSizeT k else 0) :: o, toInt (toSizeT (k * originDim)))
  | _, _ => ([], 1)

def getOffset (originDims outDims : SizeVector) : Result SizeVector :=
  if originDims.length ≠ outDims.length then
    throwException "Cannot calculate offsets! Incorrect patameters for eltwise broadcast!"
  else return (offsets originDims outDims).1

/-- The constructor. -/
def create (originDims outputDims : SizeVector) : Result BroadcastOffset := do
  let dims ← getDims originDims outputDims
  let offset_v ← getOffset dims outputDims
  return { dims, offset_v }

variable (b : BroadcastOffset)

def offset (v : SizeVector) : Result Nat :=
  if v.length ≠ b.offset_v.length then
    throwException "Cannot calculate offsets! Incorrect patameters for eltwise broadcast!"
  else return toSizeT ((v.zipWith (· * ·) b.offset_v).sum : Nat)

/-- The loop of `offset_dims`, with the `l` after it. -/
def positions : SizeVector → Nat → Result (Nat × SizeVector)
  | [], l => return (l, [])
  | cur_dim :: dims, l => do
    let (l, pos) ← positions dims l
    if cur_dim = 0 then .error (.undefinedBehaviour "l % cur_dim") else return (l / cur_dim, l % cur_dim :: pos)

def offset_dims (l : Nat) : Result SizeVector := Prod.snd <$> positions b.dims l

end BroadcastOffset

/-! ### Constant inference -/

def Blob.size {β : Type} (blob : Blob β) : Nat :=
  if blob.tensorDesc.layout = .SCALAR then 1 else product blob.tensorDesc.dims

/-- `vector[i] = a`. -/
def assign {α : Type} (expression : String) (vector : List α) (i : Nat) (a : α) : Result (List α) :=
  if i < vector.length then return vector.set i a else .error (.undefinedBehaviour expression)

namespace AddConstInfer

variable {inDatatype1 inDatatype2 outDatatype : Type}

/-- The buffer of the blob, which is not null. -/
def bufferOf {α : Type} (message : String) (blob : Blob (List α)) : Result (List α) :=
  match blob.buffer with
  | some buffer => return buffer
  | none => throwException message

/-- `sum` converts the two elements, adds them and converts the sum; the elements of the output are returned. -/
def add (sum : inDatatype1 → inDatatype2 → outDatatype) (first : Blob (List inDatatype1))
    (second : Blob (List inDatatype2)) (outBlob : Blob (List outDatatype)) : Result (List outDatatype) := do
  let firstBlobBuffer ← bufferOf "empty input data" first
  let secondBlobBuffer ← bufferOf "empty input data" second
  let outBuffer ← bufferOf "empty output data" outBlob
  let outOff ← BroadcastOffset.create outBlob.tensorDesc.dims outBlob.tensorDesc.dims
  let inOff1 ← BroadcastOffset.create first.tensorDesc.dims outBlob.tensorDesc.dims
  let inOff2 ← BroadcastOffset.create second.tensorDesc.dims outBlob.tensorDesc.dims
  (List.range outBlob.size).foldlM (fun outBuffer i => do
    let offsetDims ← outOff.offset_dims i
    let out ← outOff.offset offsetDims
    let in1 ← inOff1.offset offsetDims
    let x ← elemAt "firstBlobBuffer[inOff1.offset(offsetDims)]" firstBlobBuffer in1
    let in2 ← inOff2.offset offsetDims
    let y ← elemAt "secondBlobBuffer[inOff2.offset(offsetDims)]" secondBlobBuffer in2
    assign "outBuffer[outOff.offset(offsetDims)]" outBuffer out (sum x y)) outBuffer

/-- The `switch` of `inferImpl` at the integer precisions: the sum in the type of the output. -/
def integerSum : Precision → Precision → Precision → Option (Int → Int → Int)
  | .U8, .U8, .U8 => some fun x y => (x + y) % 2 ^ 8
  | .U8, .I32, .I32 | .I32, .U8, .I32 | .I32, .I32, .I32 => some fun x y => (x + y).bmod (2 ^ 32)
  | .U8, .I64, .I64 | .I32, .I64, .I64 | .I64, .U8, .I64 | .I64, .I32, .I64 | .I64, .I64, .I64 =>
    some fun x y => (x + y).bmod (2 ^ 64)
  | _, _, _ => none

/-- `inferImpl`, of blobs of integers. -/
def inferImpl (inData outData : List (Blob (List Int))) : Result (List Int) :=
  match inData, outData with
  | [first, second], outBlob :: _ =>
    match integerSum first.tensorDesc.precision second.tensorDesc.precision outBlob.tensorDesc.precision with
    | some sum => add sum first second outBlob
    | none => throwException "Unsupported precision!"
  | [_, _], [] => .error (.undefinedBehaviour "outData[0]")
  | _, _ => throwException ("Unsupported number of inputs: " ++ toString inData.length ++ ". 2 inputs is supported")

end AddConstInfer

end ShapeInfer

end OpenVino.InferenceEngine
