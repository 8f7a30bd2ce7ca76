import OpenVino.Base.SingleFloat
import OpenVino.InferenceEngine.ShapeInfer.ConstInfer.Broadcast

/-!
# Strided slice of constants

`StridedSliceHelper` normalises the bounds of a slice axis by axis and walks over the selected elements: `create` is its
constructor, and `strided_slice`, `strided_slice_p` and `strided_slice_vp` say which element of the input each element,
or row, of the output is copied from.
-/

namespace OpenVino.InferenceEngine.ShapeInfer

/-- One of the inputs `begin`, `end` and `strides`: its dimensions, and what the pointer to it points to. A helper that
does not have the input has no dimensions of it. -/
structure Bound where
  dims : SizeVector := []
  elements : List Int := []

/-- There is an element with this number. -/
def Bound.has (b : Bound) (n : Nat) : Bool := b.dims.head?.any (n < ·)

/-- What `begin_dms`, `end_dms` and `stride_dms` have for one axis. -/
structure Dms where
  begin_dms : Int
  end_dms : Int
  stride_dms : Int
deriving DecidableEq

structure StridedSliceHelper where
  src_dims : SizeVector
  srcStrides : SizeVector
  max_dims : Nat
  shrink_axis : Nat
  new_axis_mask : List Nat
  dms : List Dms
  out_dims : SizeVector
  our_dims : SizeVector
deriving DecidableEq

/-- `clipping(&idx, min, max)`. -/
def clipping (idx min max : Int) : Result Int :=
  let idx := if idx > min then idx else min
  if idx < max then return idx else intArith "max - 1" (max - 1)

namespace StridedSliceHelper

/-! ### The inputs -/

/-- The checks of an input. -/
def boundDims (input vector : String) (blob : Blob (List Int)) : Result SizeVector :=
  let precision := blob.tensorDesc.precision
  let dims := blob.tensorDesc.dims
  if precision ≠ .I32 then
    throwException ("StridedSlice constant inference error: Incorrect '" ++ input ++
      "' input precision. Only I32 is supported! Current precision: " ++ precision.name)
  else if 1 < dims.length then
    throwException ("StridedSlice constant inference error: " ++ vector ++ " vector should be 1 dimension, got: " ++
      toString dims.length ++ " dimensions")
  else return dims

/-- `begin_dims` and `bounds_size`. -/
def readBeginDims : Option (Blob (List Int)) → Result (SizeVector × Nat)
  | some blob => do
    let begin_dims ← boundDims "begin" "Begin" blob
    let bounds_size ← elemAt "begin_dims[0]" begin_dims 0
    return (begin_dims, bounds_size)
  | none => return ([], 0)

/-- `end_dims` or `stride_dims`: there are as many elements as in `begin`. -/
def readDims (input message : String) (begin_dims : SizeVector) : Option (Blob (List Int)) → Result SizeVector
  | some blob => do
    let dims ← boundDims input "End" blob
    let begin_size ← elemAt "begin_dims[0]" begin_dims 0
    let size ← elemAt "dims[0]" dims 0
    if begin_size ≠ size then throwException ("StridedSlice constant inference error: " ++ message) else return dims
  | none => return []

/-- The pointer to an input. -/
def bound (dims : SizeVector) (blob : Option (Blob (List Int))) : Bound where
  dims
  elements := match blob with
    | some blob => (blob.buffer.getD []).drop blob.tensorDesc.blockingDesc.offsetPadding
    | none => []

/-- The bits of a mask, filled up for the axes of the input. Other characters are left out, and counted. -/
def readMask (mask_str : String) (rank fill : Nat) : List Nat :=
  (mask_str.toList.filterMap fun c => if c = '1' then some 1 else if c = '0' then some 0 else none) ++
    List.replicate (rank - mask_str.length) fill

structure Masks where
  begin_mask : List Nat
  end_mask : List Nat
  ellipsis_mask : List Nat
  new_axis_mask : List Nat
  shrink_axis_mask : List Nat

def readMasks (params : String → Option String) (rank : Nat) : Masks where
  begin_mask := readMask ((params "begin_mask").getD "") rank 1
  end_mask := readMask ((params "end_mask").getD "") rank 1
  ellipsis_mask := readMask ((params "ellipsis_mask").getD "") rank 0
  new_axis_mask := readMask ((params "new_axis_mask").getD "") rank 0
  shrink_axis_mask := readMask ((params "shrink_axis_mask").getD "") rank 0

/-- `ellipsis_pos1` and `ellipsis_pos2`. -/
def ellipsis (ellipsis_mask : List Nat) (max_dims bounds_size : Nat) : Nat × Nat :=
  let ellipsis_pos1 := (ellipsis_mask.findIdx? (0 < ·)).getD max_dims
  let bounds_size := toSizeT (bounds_size - ellipsis_pos1)
  let rest := toSizeT (max_dims - bounds_size)
  (ellipsis_pos1, if 0 < bounds_size ∧ ellipsis_pos1 < rest then rest else max_dims)

/-! ### The axes -/

/-- What the loop over the axes has computed. -/
structure Axes where
  dms : List Dms := []
  out_dims : SizeVector := []
  our_dims : SizeVector := []
  j : Nat := 0
  k : Nat := 0
  bj : Nat := 0
  ej : Nat := 0
  sj : Nat := 0

/-- `src_dims[j] + x`, a `size_t`, as the `int` it is stored in. -/
def addDim (dim : Nat) (x : Int) : Int := toInt (toSizeT (dim + x))

/-- `ceil(float(abs(end - begin) + 1) / float(abs(stride)))`, as an `int`. -/
def axisLength (dms : Dms) : Result Nat := do
  let distance ← intArith "abs(end_dms[i] - begin_dms[i]) + 1" (|dms.end_dms - dms.begin_dms| + 1)
  let stride ← intArith "abs(stride_dms[i])" |dms.stride_dms|
  match (Single.div (.ofInt distance) (.ofInt stride)).ceil with
  | .finite q => return toSizeT (← intArith "static_cast<int>(ceil(..))" ⌊q⌋)
  | .notFinite => .error (.undefinedBehaviour "static_cast<int>(ceil(..))")

/-- Where an axis starts when nothing else is said. -/
def openBegin (stride : Int) : Int := if stride > 0 then 0 else -1

/-- Where an axis ends, inclusively, when nothing else is said. -/
def openEnd (stride : Int) : Int := if stride > 0 then -1 else 0

/-- `begin_dms[i]`, `end_dms[i]` or `stride_dms[i]` before it is normalised. -/
def readBegin (begin_ : Bound) (begin_mask : List Nat) (stride : Int) (j bj : Nat) : Result Int :=
  if begin_mask[j]? = some 0 then return openBegin stride
  else if begin_.has bj then elemAt "begin[bj]" begin_.elements bj
  else return openBegin stride

def readEnd (end_ : Bound) (end_mask : List Nat) (stride : Int) (j ej : Nat) : Result Int :=
  if end_mask[j]? = some 0 then return openEnd stride
  else if end_.has ej then do
    let e ← elemAt "end[ej]" end_.elements ej
    if stride > 0 then intArith "end[ej] - 1" (e - 1) else intArith "end[ej] + 1" (e + 1)
  else return openEnd stride

def readStride (stride : Bound) (sj : Nat) : Result (Int × Nat) :=
  if stride.has sj then do
    let s ← elemAt "stride[sj]" stride.elements sj
    return if s ≠ 0 then (s, sj + 1) else (1, sj)
  else return (1, sj)

/-- A negative bound is counted from the end, and clipped. -/
def normalise (dim : Nat) (x : Int) : Result Int := clipping (if x ≥ 0 then x else addDim dim x) 0 (toInt dim)

/-- A round of the loop at an axis of the ellipsis. -/
def ellipsisAxis (src_dims : SizeVector) (masks : Masks) (ellipsis_pos1 i : Nat) (a : Axes) : Result Axes := do
  let (end_, j) ← (if masks.new_axis_mask[i]? = some 1 then return (0, a.j)
    else do
      let dim ← elemAt "src_dims[j++]" src_dims a.j
      return (addDim dim (-1), a.j + 1) : Result (Int × Nat))
  let dms := { begin_dms := 0, end_dms := end_, stride_dms := 1 }
  let length ← axisLength dms
  return { a with
    dms := a.dms ++ [dms], out_dims := a.out_dims ++ [length], our_dims := a.our_dims ++ [length], j
    k := ellipsis_pos1 }

/-- A round of the loop at another axis. -/
def sliceAxis (src_dims : SizeVector) (begin_ end_ stride : Bound) (masks : Masks) (max_dims i : Nat) (a : Axes) :
    Result Axes := do
  let (s, sj) ← readStride stride a.sj
  let b ← readBegin begin_ masks.begin_mask s a.j a.bj
  let dim ← elemAt "src_dims[j]" src_dims a.j
  let b ← normalise dim b
  let e ← readEnd end_ masks.end_mask s a.j a.ej
  let e ← normalise dim e
  let (e, j) := if masks.new_axis_mask[i]? = some 1 then (0, a.j) else (e, a.j + 1)
  let shrink := masks.shrink_axis_mask[a.k]? = some 1
  let dms := { begin_dms := b, end_dms := if shrink then b else e, stride_dms := s }
  let length ← axisLength dms
  let out_dims := if shrink ∧ max_dims ≠ 1 then a.out_dims else a.out_dims ++ [length]
  return {
    dms := a.dms ++ [dms], out_dims, our_dims := a.our_dims ++ [length], j, k := a.k + 1, bj := a.bj + 1,
    ej := a.ej + 1, sj }

/-- A round of the loop. -/
def axis (src_dims : SizeVector) (begin_ end_ stride : Bound) (masks : Masks) (max_dims : Nat)
    (ellipsis_pos : Nat × Nat) (a : Axes) (i : Nat) : Result Axes :=
  if ellipsis_pos.1 ≤ i ∧ i < ellipsis_pos.2 then ellipsisAxis src_dims masks ellipsis_pos.1 i a
  else sliceAxis src_dims begin_ end_ stride masks max_dims i a

/-- `StridedSliceHelper(inData, params)`; `data` and `bounds` are the inputs. -/
def create (data : TensorDesc) (bounds : List (Blob (List Int))) (params : String → Option String) :
    Result StridedSliceHelper :=
  if 3 < bounds.length then
    throwException "StridedSlice constant inference error: Incorrect number of input edges!"
  else do
    let src_dims := data.dims
    let (begin_dims, bounds_size) ← readBeginDims bounds[0]?
    let end_dims ← readDims "end" "Begin vector size should be equal end vector size" begin_dims bounds[1]?
    let stride_dims ← readDims "strides" "Stride vector size should be equal begin vector size" begin_dims bounds[2]?
    if 1 < (((params "ellipsis_mask").getD "").toList.count '1') then
      throwException " 'Ellipsis_mask' must be a power of two (only one ellipsis)!"
    else
      let masks := readMasks params src_dims.length
      let max_dims := src_dims.length + masks.new_axis_mask.sum
      let axes ← (List.range max_dims).foldlM (axis src_dims (bound begin_dims bounds[0]?) (bound end_dims bounds[1]?)
        (bound stride_dims bounds[2]?) masks max_dims (ellipsis masks.ellipsis_mask max_dims bounds_size)) {}
      return {
        src_dims, srcStrides := data.blockingDesc.strides, max_dims, shrink_axis := masks.shrink_axis_mask.sum
        new_axis_mask := masks.new_axis_mask, dms := axes.dms, out_dims := axes.out_dims, our_dims := axes.our_dims }

def getOutputShape (h : StridedSliceHelper) : SizeVector := h.out_dims

/-! ### The copies -/

/-- `src_idx += (begin_dms[i] + counters[i] * stride_dms[i]) * srcStrides[j]`, in `size_t` and stored in an `int`. -/
def addAxis (src_idx : Int) (dms : Dms) (counter srcStride : Nat) : Int :=
  toInt (toSizeT (src_idx + (dms.begin_dms + counter * dms.stride_dms) * srcStride))

/-- The loop over the axes in `strided_slice`; `i` and `j` are its indices. -/
def sourceIndex (new_axis_mask : List Nat) (srcStrides : SizeVector) (i j : Nat) (src_idx : Int) :
    List (Dms × Nat) → Result Int
  | [] => return src_idx
  | (dms, counter) :: axes => do
    let srcStride ← elemAt "srcStrides[j]" srcStrides j
    sourceIndex new_axis_mask srcStrides (i + 1) (if new_axis_mask[i]? = some 1 then j else j + 1)
      (addAxis src_idx dms counter srcStride) axes

/-- The next counters in `strided_slice`, and whether an axis has not come to its end. -/
def nextCounters : List (Nat × Nat) → Bool × SizeVector
  | [] => (false, [])
  | (counter, dim) :: axes =>
    let (done, counters) := nextCounters axes
    if done then (true, counter :: counters)
    else if counter + 1 < dim then (true, (counter + 1) :: counters) else (false, 0 :: counters)

/-- The elements of the output from `iwork` on, with the elements of the input that they are copied from. -/
def sliceFrom (h : StridedSliceHelper) (dims : SizeVector) : Nat → Nat → SizeVector → Result (List (Nat × Int))
  | 0, _, _ => return []
  | n + 1, iwork, counters => do
    let src_idx ← sourceIndex h.new_axis_mask h.srcStrides 0 0 0 (h.dms.zip counters)
    let rest ← sliceFrom h dims n (iwork + 1) (nextCounters (counters.zip dims)).2
    return (iwork, src_idx) :: rest

/-- `strided_slice(src_data, dst_data, our_dims)`. -/
def strided_slice (h : StridedSliceHelper) (dst_dims dstStrides : SizeVector) : Result (List (Nat × Int)) := do
  let work_amount_dst ← (if dstStrides = [] ∧ dst_dims = [] then return 1
    else do
      let stride ← elemAt "dstStrides[0]" dstStrides 0
      let dim ← elemAt "dst_dims[0]" dst_dims 0
      return toSizeT (stride * dim : Nat) : Result Nat)
  sliceFrom h h.our_dims work_amount_dst 0 (List.replicate h.max_dims 0)

/-- An axis of the threads' loops: what the helper has for it, its size in the output and its stride in the input. -/
structure SliceAxis where
  dms : Dms
  dst_dim : Nat
  srcStride : Nat

/-- The axes that the loops of a thread read. -/
def threadAxes (h : StridedSliceHelper) (dst_dims : SizeVector) (n : Nat) : Result (List SliceAxis) :=
  (List.range n).mapM fun (j : Nat) => do
    let dst_dim ← elemAt "dst_dims[j]" dst_dims j
    let dms ← elemAt "begin_dms[j]" h.dms j
    let srcStride ← elemAt "srcStrides[j]" h.srcStrides j
    return { dms, dst_dim, srcStride }

/-- The source index of the counters, from a start on. It wraps, so the order of the axes does not matter. -/
def indexOf (src_idx : Int) (axes : List SliceAxis) (counters : SizeVector) : Int :=
  (axes.zip counters).foldl (fun src_idx a => addAxis src_idx a.1.dms a.2 a.1.srcStride) src_idx

/-- The loop that goes to the next element: whether it has found an axis that does not come to its end, whether it has
passed one that does, the counters, and the source index. -/
def advance (src_idx : Int) : List (SliceAxis × Nat) → Bool × Bool × SizeVector × Int
  | [] => (false, false, [], src_idx)
  | (axis, counter) :: axes =>
    let (done, wrapped, counters, src_idx) := advance src_idx axes
    if done then (true, wrapped, counter :: counters, src_idx)
    else if counter + 1 < axis.dst_dim then
      (true, wrapped, (counter + 1) :: counters, toInt (toSizeT (src_idx + axis.dms.stride_dms * axis.srcStride)))
    else (false, true, 0 :: counters, src_idx)

/-- The next counters of a thread and their source index, computed anew after an axis has come to its end. -/
def nextIndex (start : Int) (axes : List SliceAxis) (counters : SizeVector) (src_idx : Int) : SizeVector × Int :=
  let (_, wrapped, counters, src_idx) := advance src_idx (axes.zip counters)
  (counters, if wrapped then indexOf start axes counters else src_idx)

/-- The copies of a thread: `dst_idx` is `step` farther in each round. -/
def threadFrom (start : Int) (axes : List SliceAxis) (step : Nat) :
    Nat → Nat → SizeVector → Int → List (Nat × Int)
  | 0, _, _, _ => []
  | n + 1, dst_idx, counters, src_idx =>
    let (counters, next) := nextIndex start axes counters src_idx
    (dst_idx, src_idx) :: threadFrom start axes step n (toSizeT (dst_idx + step : Nat)) counters next

/-- What the threads of the two fast loops do: `start` is the source index of the axes that are not counted. -/
def threadCopies (start : Int) (axes : List SliceAxis) (step work_amount_dst nthr ithr : Nat) :
    Result (List (Nat × Int)) :=
  let (first, end_) := splitter work_amount_dst nthr ithr
  if 0 ∈ axes.map SliceAxis.dst_dim then .error (.undefinedBehaviour "i % dst_dims[j]")
  else
    let counters := (BroadcastConstInfer.startCounters (axes.map SliceAxis.dst_dim) (toInt first)).2
    return threadFrom start axes step (end_ - first) (toSizeT (first * step : Nat)) counters
      (indexOf start axes counters)

/-- `strided_slice_p`, thread by thread. -/
def strided_slice_p (h : StridedSliceHelper) (nthr : Nat) (dst_dims dstStrides : SizeVector) :
    Result (List (List (Nat × Int))) := do
  let stride ← elemAt "dstStrides[0]" dstStrides 0
  let dim ← elemAt "dst_dims[0]" dst_dims 0
  let axes ← threadAxes h dst_dims dst_dims.length
  (List.range nthr).mapM fun (ithr : Nat) => threadCopies 0 axes 1 (toSizeT (stride * dim : Nat)) nthr ithr

/-- `strided_slice_vp`, thread by thread: the rows that are copied, and the length of a row. -/
def strided_slice_vp (h : StridedSliceHelper) (nthr : Nat) (dst_dims dstStrides : SizeVector) :
    Result (Nat × List (List (Nat × Int))) := do
  -- an output without dimensions has no last one to read, so the difference is one of natural numbers
  let dims_size_1 := dst_dims.length - 1
  let dataLength ← elemAt "dst_dims[dims_size_1]" dst_dims (dims_size_1 : Nat)
  let stride ← elemAt "dstStrides[0]" dstStrides 0
  let dim ← elemAt "dst_dims[0]" dst_dims 0
  if dataLength = 0 then .error (.undefinedBehaviour "/ dst_dims[dims_size_1]")
  else
    let last ← elemAt "begin_dms[dims_size_1]" h.dms (dims_size_1 : Nat)
    let axes ← threadAxes h dst_dims dims_size_1
    let rows ← (List.range nthr).mapM fun (ithr : Nat) =>
      threadCopies last.begin_dms axes dataLength (toSizeT (stride * dim : Nat) / dataLength) nthr ithr
    return (dataLength, rows)

/-! ### The bytes -/

/-- The types of an input and an output element: `convert` is the conversion, as bytes from the lowest on. -/
structure Conversion where
  size : Nat
  convert : List (BitVec 8) → List (BitVec 8)

/-- The four bytes of an `int`, extended by its sign to those of an `int64_t`. -/
def signExtend (bytes : List (BitVec 8)) : List (BitVec 8) :=
  bytes ++ List.replicate 4 (if (bytes.getLastD 0).msb then 255 else 0)

/-- The pairs of precisions that `infer` knows. -/
def conversion : Precision → Precision → Option Conversion
  | .FP32, .FP32 => some { size := 4, convert := id }
  | .I32, .I32 => some { size := 4, convert := id }
  | .I32, .I64 => some { size := 8, convert := signExtend }
  | _, _ => none

/-- `n` bytes at an address, which may be in front of the memory. -/
def readBytes (src : List (BitVec 8)) (i : Int) (n : Nat) : Result (List (BitVec 8)) :=
  if 0 ≤ i ∧ i + n ≤ src.length then return (src.drop i.toNat).take n
  else .error (.undefinedBehaviour "src_data[src_idx]")

def writeBytes (dst : List (BitVec 8)) (i : Nat) (bytes : List (BitVec 8)) : Result (List (BitVec 8)) :=
  if i + bytes.length ≤ dst.length then return overlay dst i bytes
  else .error (.undefinedBehaviour "dst_data[dst_idx]")

/-- `dst_data[dst_idx] = src_data[src_idx]`, of pointers that are that many elements behind the start of the memory. -/
def assignElement (c : Conversion) (srcPad dstPad : Nat) (src dst : List (BitVec 8)) (copy : Nat × Int) :
    Result (List (BitVec 8)) := do
  let bytes ← readBytes src ((srcPad + copy.2) * 4) 4
  writeBytes dst ((dstPad + copy.1) * c.size) (c.convert bytes)

/-- `memcpy(&dst_data[dst_idx], &src_data[src_idx], sizeof(float) * dataLength)`. -/
def copyRowOf (c : Conversion) (dataLength srcPad dstPad : Nat) (src dst : List (BitVec 8)) (copy : Nat × Int) :
    Result (List (BitVec 8)) := do
  let bytes ← readBytes src ((srcPad + copy.2) * 4) (4 * dataLength)
  writeBytes dst ((dstPad + copy.1) * c.size) bytes

/-- What `strided_slice` writes. -/
def writeSlice (h : StridedSliceHelper) (c : Conversion) (srcPad dstPad : Nat) (dst_dims dstStrides : SizeVector)
    (src dst : List (BitVec 8)) : Result (List (BitVec 8)) := do
  let copies ← h.strided_slice dst_dims dstStrides
  copies.foldlM (assignElement c srcPad dstPad src) dst

/-- Which of the loops is taken. -/
inductive Loop
  | vp
  | p
  | plain
deriving DecidableEq

def selectLoop (h : StridedSliceHelper) : Result Loop :=
  if h.src_dims.length = h.max_dims ∧ h.shrink_axis = 0 then do
    let last ← elemAt "stride_dms[stride_dms.size() - 1]" h.dms (h.dms.length - 1)
    return if last.stride_dms = 1 ∧ 1 < h.dms.length then .vp else .p
  else return .plain

/-- `exec_strided_slice`; `schedule` is the order in which the copies of the threads are made. -/
def exec_strided_slice (h : StridedSliceHelper) (nthr : Nat)
    (schedule : List (List (Nat × Int)) → List (Nat × Int)) (c : Conversion) (srcPad dstPad : Nat)
    (dst_dims dstStrides : SizeVector) (src dst : List (BitVec 8)) : Result (List (BitVec 8)) := do
  match ← h.selectLoop with
  | .vp =>
    let (dataLength, rows) ← h.strided_slice_vp nthr dst_dims dstStrides
    (schedule rows).foldlM (copyRowOf c dataLength srcPad dstPad src) dst
  | .p =>
    let copies ← h.strided_slice_p nthr dst_dims dstStrides
    (schedule copies).foldlM (assignElement c srcPad dstPad src) dst
  | .plain => h.writeSlice c srcPad dstPad dst_dims dstStrides src dst

/-- `infer(inData, outData)`. -/
def infer (h : StridedSliceHelper) (nthr : Nat) (schedule : List (List (Nat × Int)) → List (Nat × Int))
    (inBlob : ByteBlob) (outData : List ByteBlob) : Result (List ByteBlob) := do
  let outBlob ← elemAt "outData[0]" outData 0
  let dst_dims := outBlob.tensorDesc.dims
  if (h.out_dims.zip dst_dims).any fun d => d.1 ≠ d.2 then
    throwException "StridedSlice constant inference error: parameter mismatch"
  else
    let dstStrides := outBlob.tensorDesc.blockingDesc.strides ++ if dst_dims = [1] then [1] else []
    if outData.length ≠ 1 then
      throwException "StridedSlice constant inference error: Incorrect number of output edges!"
    else
      match conversion inBlob.tensorDesc.precision outBlob.tensorDesc.precision with
      | none =>
        throwException ("StridedSlice constant inference error: Unsupported precision configuration:" ++
          " input precision: " ++ inBlob.tensorDesc.precision.name ++
          " output precision: " ++ outBlob.tensorDesc.precision.name)
      | some c =>
        let dst_data ← h.exec_strided_slice nthr schedule c inBlob.tensorDesc.blockingDesc.offsetPadding
          outBlob.tensorDesc.blockingDesc.offsetPadding dst_dims dstStrides inBlob.memory outBlob.memory
        return [{ outBlob with buffer := some dst_data }]

end StridedSliceHelper

end OpenVino.InferenceEngine.ShapeInfer
