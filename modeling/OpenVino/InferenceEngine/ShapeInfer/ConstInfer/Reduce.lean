import OpenVino.InferenceEngine.Parallel
import OpenVino.InferenceEngine.ShapeInfer.ConstInfer.BroadcastOffset

/-!
# Reductions

`ReduceConstInfer` reduces a tensor along some of its axes. With few threads each thread computes a part of the
outputs, and walks for each of them over the elements that go into it (`outputPart`); with more threads than outputs
each one walks over a part of the elements and has its own partial results (`wholePart`, `inputPart`), which are
combined at the end. A `Cursor` has the counters of such a walk and the index that belongs to them, which is moved
along while it can be.

The elements are `I32`, and the outputs have `w` bits: 32 for `I32` and 64 for `I64`. The modes with floating point
functions are left out, and the arithmetic wraps.
-/

namespace OpenVino.InferenceEngine.ShapeInfer

inductive ReduceType
  | ReduceAnd | ReduceL1 | ReduceMax | ReduceMin | ReduceOr | ReduceProd | ReduceSum | ReduceSumSquare

namespace ReduceConstInfer

section Functions

variable {w : Nat}

def func1 (reduceType : ReduceType) (x : BitVec w) (y : BitVec 32) : BitVec w :=
  match reduceType with
  | .ReduceAnd => if x ≠ 0 ∧ y ≠ 0 then 1 else 0
  | .ReduceL1 => x + y.abs.signExtend w
  | .ReduceMax => if (y.signExtend w).slt x then x else y.signExtend w
  | .ReduceMin => if x.slt (y.signExtend w) then x else y.signExtend w
  | .ReduceOr => if x ≠ 0 ∨ y ≠ 0 then 1 else 0
  | .ReduceProd => x * y.signExtend w
  | .ReduceSum => x + y.signExtend w
  | .ReduceSumSquare => x + (y * y).signExtend w

def func2 (reduceType : ReduceType) (x : BitVec w) (y : BitVec 32) : BitVec w :=
  match reduceType with
  | .ReduceAnd => if x ≠ 0 ∧ y ≠ 0 then 1 else 0
  | .ReduceL1 | .ReduceSum | .ReduceSumSquare => x + y.signExtend w
  | .ReduceMax => if (y.signExtend w).slt x then x else y.signExtend w
  | .ReduceMin => if x.slt (y.signExtend w) then x else y.signExtend w
  | .ReduceOr => if x ≠ 0 ∨ y ≠ 0 then 1 else 0
  | .ReduceProd => x * y.signExtend w

/-- The `init_value` that `exec_reduce` passes. -/
def init_value (reduceType : ReduceType) : BitVec w :=
  match reduceType with
  | .ReduceAnd | .ReduceProd => 1
  | .ReduceMax => BitVec.intMin w
  | .ReduceMin => BitVec.intMax w
  | .ReduceL1 | .ReduceOr | .ReduceSum | .ReduceSumSquare => 0

end Functions

/-! ### Walks -/

/-- The loop that takes an index apart. -/
def unravel (expression : String) (dims : SizeVector) (start : Nat) : Result SizeVector :=
  if 0 ∈ dims then .error (.undefinedBehaviour expression) else return (parallel_it_init start dims).2

/-- The loop that puts an index together. -/
def index (dims strides counters : SizeVector) : Result Nat :=
  (List.range dims.length).foldlM (fun idx (j : Nat) => do
    let counter ← elemAt "src_counters[j]" counters j
    let dim ← elemAt "dims[j]" dims j
    let stride ← elemAt "strides[j]" strides j
    if dim = 0 then .error (.undefinedBehaviour "src_counters[j] % dims[j]")
    else return toSizeT (idx + counter % dim * stride : Nat)) 0

/-- The loop that advances the counters, with the axes in its order: where it breaks, and whether it has reset a
counter before. -/
def carry (dims : SizeVector) : List Nat → SizeVector → Result (Option Nat × Bool × SizeVector)
  | [], counters => return (none, false, counters)
  | axis :: axes, counters => do
    let counter ← elemAt "counters[axis]" counters axis
    let dim ← elemAt "dims[axis]" dims axis
    if counter + 1 < dim then return (some axis, false, counters.set axis (counter + 1))
    else
      let next ← carry dims axes (counters.set axis 0)
      return (next.1, true, next.2.2)

structure Cursor where
  counters : SizeVector
  idx : Nat := 0
  update_idx : Bool := true

namespace Cursor

variable (c : Cursor)

def refresh (dims strides : SizeVector) : Result Cursor :=
  if c.update_idx then do
    let idx ← index dims strides c.counters
    return { c with idx, update_idx := false }
  else return c

/-- `move` is the change of the index where the loop breaks. -/
def advance (dims axes : SizeVector) (move : Nat → Nat → Result Nat) : Result Cursor := do
  let next ← carry dims axes.reverse c.counters
  let idx ← (
    match next.1 with
    | some axis => move c.idx axis
    | none => return c.idx)
  return { counters := next.2.2, idx, update_idx := next.2.1 }

end Cursor

/-! ### `reduce` -/

section Reduce

variable {w : Nat} (nthr : Nat) (src_dims srcStrides : SizeVector) (src_data : List (BitVec 32))
  (work_amount_dst reduced_dims_work_amount : Nat) (axes_for_reduction dst_dims : SizeVector) (init_value : BitVec w)
  (reduceType : ReduceType)

/-- The state of a walk over elements. -/
structure Walk (w : Nat) where
  cursor : Cursor
  reduce_prod : List (BitVec w)

/-- The state of a walk over outputs. -/
structure Outputs (w : Nat) where
  dst_counters : SizeVector
  dst_data : List (BitVec w)

/-- `src_idx += srcStrides[axis]`. -/
def moveSource (src_idx axis : Nat) : Result Nat := do
  let stride ← elemAt "srcStrides[axes_for_reduction[j]]" srcStrides axis
  return toSizeT (src_idx + stride : Nat)

/-- The loop over the elements that go into one output. -/
def reduceElement (dst_counters : SizeVector) : Result (BitVec w) := do
  let s ← (List.range reduced_dims_work_amount).foldlM (fun s _ => do
    let cursor ← s.1.refresh src_dims srcStrides
    let y ← elemAt "src_data[src_idx]" src_data cursor.idx
    let cursor ← cursor.advance src_dims axes_for_reduction (moveSource srcStrides)
    return (cursor, func1 reduceType s.2 y)) (({ counters := dst_counters } : Cursor), init_value)
  return s.2

/-- What the thread `ithr` does when the outputs are split. -/
def outputPart (ithr : Nat) (dst_data : List (BitVec w)) : Result (List (BitVec w)) := do
  let part := splitter work_amount_dst nthr ithr
  let dst_counters ← unravel "i % dst_dims[j]" dst_dims part.1
  let s ← (List.range' part.1 (part.2 - part.1)).foldlM (fun (s : Outputs w) dst_idx => do
    let reduce_prod ← reduceElement src_dims srcStrides src_data reduced_dims_work_amount axes_for_reduction init_value
      reduceType s.dst_counters
    let dst_data ← assign "dst_data[dst_idx]" s.dst_data dst_idx reduce_prod
    let next ← carry dst_dims (List.range dst_dims.length).reverse s.dst_counters
    return { dst_counters := next.2.2, dst_data }) { dst_counters, dst_data }
  return s.dst_data

/-- `reduce_prod[i] = func1(reduce_prod[i], src_data[src_idx])`. -/
def accumulate (reduce_prod : List (BitVec w)) (i src_idx : Nat) : Result (List (BitVec w)) := do
  let x ← elemAt "reduce_prod[i]" reduce_prod i
  let y ← elemAt "src_data[src_idx]" src_data src_idx
  assign "reduce_prod[i]" reduce_prod i (func1 reduceType x y)

/-- `srcStrides[0] * src_dims[0]`. -/
def sourceSize : Result Nat := do
  let stride ← elemAt "srcStrides[0]" srcStrides 0
  let dim ← elemAt "src_dims[0]" src_dims 0
  return toSizeT (stride * dim : Nat)

/-- What the thread `ithr` does when the elements are split and there is one output. -/
def wholePart (ithr : Nat) (reduce_prod : List (BitVec w)) : Result (List (BitVec w)) := do
  let n ← sourceSize src_dims srcStrides
  let part := splitter n nthr ithr
  (List.range' part.1 (part.2 - part.1)).foldlM (fun reduce_prod i =>
    accumulate src_data reduceType reduce_prod ithr i) reduce_prod

/-- `if (dst_dims[j] > 1) dst_idx += dstStrides[j]`. -/
def moveTarget (dstStrides : SizeVector) (dst_idx axis : Nat) : Result Nat := do
  let dim ← elemAt "dst_dims[j]" dst_dims axis
  if dim ≤ 1 then return dst_idx
  else
    let stride ← elemAt "dstStrides[j]" dstStrides axis
    return toSizeT (dst_idx + stride : Nat)

/-- What the thread `ithr` does when the elements are split. -/
def inputPart (ithr : Nat) (reduce_prod : List (BitVec w)) : Result (List (BitVec w)) := do
  let dstStrides := BlockingDesc.fillStrides dst_dims
  let n ← sourceSize src_dims srcStrides
  let part := splitter n nthr ithr
  let counters ← unravel "src_idx % src_dims[j]" src_dims part.1
  let s ← (List.range' part.1 (part.2 - part.1)).foldlM (fun (s : Walk w) src_idx => do
    let cursor ← s.cursor.refresh dst_dims dstStrides
    let reduce_prod ← accumulate src_data reduceType s.reduce_prod (ithr * work_amount_dst + cursor.idx) src_idx
    let cursor ← cursor.advance src_dims (List.range src_dims.length) (moveTarget dst_dims dstStrides)
    return { cursor, reduce_prod }) { cursor := { counters }, reduce_prod }
  return s.reduce_prod

/-- The loop over the partial results of one output. -/
def combine (dst_idx : Nat) (reduce_prod : List (BitVec w)) : Result (List (BitVec w)) :=
  (List.range' 1 (nthr - 1)).foldlM (fun reduce_prod (ithr : Nat) => do
    let x ← elemAt "reduce_prod[dst_idx]" reduce_prod dst_idx
    let y ← elemAt "reduce_prod[dst_idx + ithr]" reduce_prod (dst_idx + ithr * work_amount_dst : Nat)
    -- The second parameter of `func2` is a `src_t`.
    assign "reduce_prod[dst_idx]" reduce_prod dst_idx (func2 reduceType x (y.setWidth 32))) reduce_prod

/-- The branch in which the elements are split. -/
def reducePartials (dst_data : List (BitVec w)) : Result (List (BitVec w)) := do
  let reduce_prod ← (List.range nthr).foldlM (fun reduce_prod ithr =>
    if work_amount_dst = 1 then wholePart nthr src_dims srcStrides src_data reduceType ithr reduce_prod
    else inputPart nthr src_dims srcStrides src_data work_amount_dst dst_dims reduceType ithr reduce_prod)
    (List.replicate (nthr * work_amount_dst) init_value)
  let s ← (List.range work_amount_dst).foldlM (fun s (dst_idx : Nat) => do
    let reduce_prod ← combine nthr work_amount_dst reduceType dst_idx s.1
    let x ← elemAt "reduce_prod[dst_idx]" reduce_prod dst_idx
    let dst_data ← assign "dst_data[dst_idx]" s.2 dst_idx x
    return (reduce_prod, dst_data)) (reduce_prod, dst_data)
  return s.2

/-- `nthr` is what `parallel_get_max_threads` returns; a team runs its threads one after the other, since they write
different elements. -/
def reduce (dst_data : List (BitVec w)) : Result (List (BitVec w)) :=
  if nthr ≤ toSizeT (work_amount_dst + 1 : Nat) then
    (List.range nthr).foldlM (fun dst_data ithr =>
      outputPart nthr src_dims srcStrides src_data work_amount_dst reduced_dims_work_amount axes_for_reduction dst_dims
        init_value reduceType ithr dst_data) dst_data
  else reducePartials nthr src_dims srcStrides src_data work_amount_dst dst_dims init_value reduceType dst_data

end Reduce

/-! ### `inferImpl` -/

/-- The axes that the index blob names. -/
def readAxes (expression message : String) (rank : Nat) (idx_dims : SizeVector) (idx_data : List (BitVec 32)) :
    Result (List Nat) := do
  let n ← elemAt "idx_dims[0]" idx_dims 0
  (List.range n).mapM fun (i : Nat) => do
    let axis ← elemAt expression idx_data i
    let axis := if axis.toInt < 0 then toInt (toSizeT (axis.toInt + rank)) else axis.toInt
    if rank < toSizeT axis then throwException message else return toSizeT axis

/-- The part of a buffer behind the padding. -/
def dataOf {α : Type} (blob : Blob (List α)) : Result (List α) := do
  let buffer ← deref "cbuffer()" blob.buffer
  return buffer.drop blob.tensorDesc.blockingDesc.offsetPadding

/-- The precisions of the `switch`: elements of `I32` and outputs of `w` bits. -/
def supported (w : Nat) (data out : Precision) : Bool :=
  data = .I32 && (out = .I32 && w = 32 || out = .I64 && w = 64)

/-- `inferImpl`, of `I32` elements and an output without padding; what is in the output afterwards. -/
def inferImpl {w : Nat} (nthr : Nat) (reduce_mode : ReduceType) (keep_dims : Bool)
    (insData : List (Blob (List (BitVec 32)))) (outData : List (Blob (List (BitVec w)))) :
    Result (List (BitVec w)) :=
  match insData, outData with
  | [data, indexes], out :: _ => do
    let idx_dims := indexes.tensorDesc.dims
    if 1 < idx_dims.length then
      throwException (" Reduce constant inference error: Index vector should be 1 dimension, got " ++
        toString idx_dims.length ++ " dimensions")
    if indexes.tensorDesc.precision ≠ .I32 then
      throwException (" Reduce constant inference error: Incorrect 'axes_to_reduction' input precision. Only I32 is " ++
        "supported! Current precision: " ++ indexes.tensorDesc.precision.name)
    let src_dims := data.tensorDesc.dims
    let dst_dims := out.tensorDesc.dims
    if keep_dims ∧ src_dims.length ≠ dst_dims.length ∨ ¬keep_dims ∧ src_dims.length ≤ dst_dims.length then
      throwException " Reduce constant inference error: Incorrect number of input/output dimensions!"
    let srcStrides := data.tensorDesc.blockingDesc.strides
    let idx_data ← dataOf indexes
    let axes ← readAxes "idx_data[i]" " Reduce constant inference error: Index to reduce exceeds data tensor dimension"
      src_dims.length idx_dims idx_data
    let axes_for_reduction := (List.range src_dims.length).filter (· ∈ axes)
    let reduced_dims_work_amount := toSizeT (axes_for_reduction.map (src_dims.getD · 0)).prod
    let out_dims := (List.range src_dims.length).flatMap fun i =>
      if i ∈ axes then if keep_dims then [1] else [] else [src_dims.getD i 0]
    if (out_dims.zip dst_dims).any fun p => p.1 ≠ p.2 then
      throwException " Reduce constant inference error: Incorrect number of output dimensions!"
    let work_amount_dst ← (
      if dst_dims = [] then return 1
      else do
        let stride ← elemAt "getStrides()[0]" out.tensorDesc.blockingDesc.strides 0
        let dim ← elemAt "dst_dims[0]" dst_dims 0
        return toSizeT (stride * dim : Nat))
    if supported w data.tensorDesc.precision out.tensorDesc.precision then
      let src_data ← dataOf data
      let dst_data ← dataOf out
      reduce nthr src_dims srcStrides src_data work_amount_dst reduced_dims_work_amount axes_for_reduction dst_dims
        (init_value reduce_mode) reduce_mode dst_data
    else
      throwException ("Reduce constant inference error: Incorrect data tensor precisions. REDUCE_DATA precision: " ++
        data.tensorDesc.precision.name ++ " Output precision: " ++ out.tensorDesc.precision.name)
  | [], _ | _, [] => throwException " Reduce constant inference error: empty input or output data!"
  | insData, _ =>
    throwException (" Reduce constant inference error: Incorrect number of input edges! Should be 2 edges, got " ++
      toString insData.length)

end ReduceConstInfer

/-! ### Shape inference -/

/-- `inferShapesImpl`; the validator asks for at most two inputs. -/
def ReduceShapeProp.inferShapesImpl (keep_dims : Bool) (inBlobs : List (Blob (List (BitVec 32)))) :
    Result (List SizeVector) :=
  match inBlobs with
  | [data, indexes] => do
    let idx_dims := indexes.tensorDesc.dims
    if 1 < idx_dims.length then throwException " Index vector should be 1 dimension"
    if indexes.tensorDesc.precision ≠ .I32 then
      throwException " Incorrect 'axes_to_reduction' input precision. Only I32 is supported!"
    let src_dims := data.tensorDesc.dims
    let idx_data ← ReduceConstInfer.dataOf indexes
    let axes ← ReduceConstInfer.readAxes "idx_data[i]" " Index to reduce exceeds data tensor dimension" src_dims.length
      idx_dims idx_data
    return [(List.range src_dims.length).flatMap fun i =>
      if i ∈ axes then if keep_dims then [1] else [] else [src_dims.getD i 0]]
  | _ :: _ :: _ :: _ =>
    throwException (" Reduce can take up to 2 inputs, but actually it has: " ++ toString inBlobs.length)
  | _ => .error (.undefinedBehaviour "inBlobs[REDUCE_INDEXES]")

end OpenVino.InferenceEngine.ShapeInfer
