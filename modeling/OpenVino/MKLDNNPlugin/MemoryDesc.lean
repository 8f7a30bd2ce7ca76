import OpenVino.InferenceEngine.Layouts

/-!
# Memory descriptors

The descriptor of MKL-DNN has one stride for each dimension, whatever the order of the dimensions in memory, and
a format that names the order. `memory_desc_init` fills the strides of a packed tensor; `MKLDNNMemoryDesc` is made
from a `TensorDesc`, whose strides follow the order, and is converted back.
-/

namespace OpenVino.MKLDNNPlugin

open InferenceEngine (SizeVector toSizeT elemAt TensorDesc Precision Layout)

/-- `static_cast<ptrdiff_t>`. -/
def toPtrdiff (n : Nat) : Int := (n : Int).bmod (2 ^ 64)

/-- The value is one of `ptrdiff_t`. -/
def FitsPtrdiff (i : Int) : Prop := -2 ^ 63 ≤ i ∧ i < 2 ^ 63

instance (i : Int) : Decidable (FitsPtrdiff i) := inferInstanceAs (Decidable (_ ∧ _))

def ptrdiffArith (expression : String) (i : Int) : Result Int :=
  if FitsPtrdiff i then .ok i else .error (.undefinedBehaviour expression)

theorem ptrdiffArith_ok_iff {e : String} {i r : Int} : ptrdiffArith e i = .ok r ↔ FitsPtrdiff i ∧ i = r := by
  unfold ptrdiffArith
  split_ifs with h
  · simp [h]
  · simp [h]

/-! ### The descriptor of MKL-DNN -/

inductive DataType
  | data_undef | f32 | s32 | bf16 | s16 | s8 | u8 | bin
deriving DecidableEq

inductive Format
  | format_undef | any | blocked | x | nc | oi | tnc | ntc | nchw | oihw | nhwc | ncdhw | ndhwc
  | oIhw8i | nChw8c | nChw16c | nCdhw8c | nCdhw16c
deriving DecidableEq

/-- `mkldnn_memory_desc_t` with the fields of its blocking descriptor that the plugin reads; `strides` are the
strides between blocks. -/
structure MemoryDesc where
  dims : List Int := []
  data_type : DataType := .data_undef
  format : Format := .format_undef
  block_dims : List Int := []
  strides : List Int := []
  offset_padding_to_data : List Int := []
  offset_padding : Int := 0

def TENSOR_MAX_DIMS : Nat := 12

/-- The loop of `set_default_strides`, for the dimensions in their order in memory. -/
def defaultStrides : List Int → Result (List Int)
  | [] => return []
  | [_] => return [1]
  | dim :: prev :: dims => do
    let strides ← defaultStrides (prev :: dims)
    let stride ← if dim = 0 then pure 1 else
      ptrdiffArith "strides[prev_idx] * nstl::max((ptrdiff_t)1, dims[prev_idx])" (strides.headD 0 * max 1 prev)
    return stride :: strides

/-- `strides[perm[d]] = ...` for each `d`. -/
def scatter (perm : List Nat) (strides : List Int) : List Int :=
  (List.range perm.length).map fun i => strides.getD (perm.idxOf i) 0

def set_default_strides (dims : List Int) (perm : List Nat) : Result (List Int) := do
  let strides ← defaultStrides (perm.map (dims.getD · 0))
  return scatter perm strides

/-- `rnd_up(a, b)`. -/
def rnd_up (a b : Int) : Result Int := do
  let c ← ptrdiffArith "a + b - 1" (a + b - 1)
  return c / b * b

namespace MemoryDesc

variable (md : MemoryDesc)

def fill_nonblocked (perm : List Nat) : Result MemoryDesc := do
  let padding_dims ← (
    if md.format = .nhwc ∧ md.data_type = .bin then
      (md.dims.zip [1, 8, 1, 1]).mapM fun (dim, block) => rnd_up dim block
    else pure md.dims)
  let strides ← set_default_strides padding_dims perm
  return { md with
    block_dims := md.dims.map fun _ => 1
    strides
    offset_padding_to_data := md.dims.map fun _ => 0
    offset_padding := 0 }

def fill_contiguous_blocked (block_dims : List Int) : Result MemoryDesc := do
  let outer ← (md.dims.zip block_dims).mapM fun (dim, block) => do
    let c ← ptrdiffArith "a + b - 1" (dim + block - 1)
    return c / block
  let strides ← set_default_strides (outer ++ block_dims) (List.range (outer ++ block_dims).length)
  return { md with
    block_dims
    strides := strides.take md.dims.length
    offset_padding_to_data := md.dims.map fun _ => 0
    offset_padding := 0 }

/-- `memory_desc_wrapper::compute_blocking`. -/
def compute_blocking : Result MemoryDesc :=
  let invalid_arguments := throwException "could not initialize a memory descriptor"
  match md.format, md.dims.length with
  | .x, 1 => md.fill_nonblocked [0]
  | .nc, 2 | .oi, 2 => md.fill_nonblocked [0, 1]
  | .tnc, 3 => md.fill_nonblocked [0, 1, 2]
  | .ntc, 3 => md.fill_nonblocked [1, 0, 2]
  | .nchw, 4 | .oihw, 4 => md.fill_nonblocked [0, 1, 2, 3]
  | .nhwc, 4 => md.fill_nonblocked [0, 2, 3, 1]
  | .ncdhw, 5 => md.fill_nonblocked [0, 1, 2, 3, 4]
  | .ndhwc, 5 => md.fill_nonblocked [0, 2, 3, 4, 1]
  | .nChw8c, 4 | .oIhw8i, 4 => md.fill_contiguous_blocked [1, 8, 1, 1]
  | .nChw16c, 4 => md.fill_contiguous_blocked [1, 16, 1, 1]
  | .nCdhw8c, 5 => md.fill_contiguous_blocked [1, 8, 1, 1, 1]
  | .nCdhw16c, 5 => md.fill_contiguous_blocked [1, 16, 1, 1, 1]
  | _, _ => invalid_arguments

end MemoryDesc

/-- `mkldnn_memory_desc_init`; of the format `any` nothing but the dimensions is filled. -/
def memory_desc_init (dims : List Int) (data_type : DataType) (format : Format) : Result MemoryDesc :=
  let invalid_arguments := throwException "could not initialize a memory descriptor"
  if dims = [] ∨ format = .format_undef then return {}
  else if TENSOR_MAX_DIMS < dims.length ∨ data_type = .data_undef ∨ (∃ dim ∈ dims, dim < 0) ∨ format = .blocked then
    invalid_arguments
  else
    let md : MemoryDesc := { dims, data_type, format }
    if format = .any then return md else md.compute_blocking

/-! ### The descriptor of the plugin -/

namespace MKLDNNMemoryDesc

/-- `MKLDNNMemory::CreateBlockingDesc`. -/
def CreateBlockingDesc (desc : MemoryDesc) : Result MemoryDesc :=
  if desc.dims = [] then .error (.undefinedBehaviour "blk.strides[0][perm[ndims - 1]]")
  else do
    let strides ← set_default_strides desc.dims (List.range desc.dims.length)
    return { desc with
      format := .blocked
      block_dims := desc.dims.map fun _ => 1
      strides
      offset_padding_to_data := desc.dims.map fun _ => 0
      offset_padding := 0 }

/-- `MKLDNNMemoryDesc(dims, dataType, format)`. -/
def ofFormat (dims : List Int) (dataType : DataType) (format : Format) : Result MemoryDesc := do
  let desc ← memory_desc_init dims dataType .any
  if format ≠ .blocked then
    if format = .x ∧ dims = [] then CreateBlockingDesc (← memory_desc_init [1] dataType format)
    else memory_desc_init dims dataType format
  else CreateBlockingDesc desc

def dataTypeOf : Precision → Result DataType
  | .FP32 => return .f32
  | .U8 => return .u8
  | .I8 => return .s8
  | .I16 => return .s16
  | .I32 => return .s32
  | .BIN => return .bin
  | _ => throwException "Cannot create MKLDNNMemoryDesc from TensorDesc. Unsupported precision!"

/-- The format for a tensor. -/
def formatOf (tDesc : TensorDesc) : Format :=
  let order := tDesc.blockingDesc.order
  let blkdDims := tDesc.blockingDesc.blockedDims
  match tDesc.layout with
  | .ANY => .any
  | .NCHW => .nchw
  | .NCDHW => .ncdhw
  | .NHWC => .nhwc
  | .NDHWC => .ndhwc
  | .OIHW => .oihw
  | .SCALAR | .C => .x
  | .CHW => if order = [0, 1, 2] then .tnc else if order = [1, 0, 2] then .ntc else .blocked
  | .HW | .NC => .nc
  | .BLOCKED =>
    match tDesc.dims.length with
    | 1 => .x
    | 2 => .nc
    | 4 =>
      if order = [0, 1, 2, 3, 1] then
        if blkdDims.getD 4 0 = 8 then .nChw8c else if blkdDims.getD 4 0 = 16 then .nChw16c else .blocked
      else if order = [0, 1, 2, 3] then .nchw
      else if order = [0, 2, 3, 1] then .nhwc
      else .blocked
    | 5 =>
      if order = [0, 1, 2, 3, 4, 1] then
        if blkdDims.getD 5 0 = 8 then .nCdhw8c else if blkdDims.getD 5 0 = 16 then .nCdhw16c else .blocked
      else if order = [0, 1, 2, 3, 4] then .ncdhw
      else if order = [0, 2, 3, 4, 1] then .ndhwc
      else .blocked
    | _ => .blocked
  | .CN => .blocked

/-- The loop that looks for a stride or an offset of a tensor that is not packed; the list has the offsets, and
the strides and blocks from the innermost on. -/
def notDefaultLoop (currentStride : Nat) : List (Nat × Nat × Nat) → Bool
  | [] => false
  | (offset, stride, dim) :: rest =>
    if offset ≠ 0 then true
    else if stride ≠ currentStride then true
    else notDefaultLoop (toSizeT (currentStride * dim)) rest

def notDefault (desc : InferenceEngine.BlockingDesc) : Bool :=
  notDefaultLoop 1 (desc.offsetPaddingToData.zip (desc.strides.reverse.zip desc.blockedDims.reverse))

/-- `MKLDNNMemoryDesc(tDesc)`. -/
def ofTensorDesc (tDesc : TensorDesc) : Result MemoryDesc := do
  let data_type ← dataTypeOf tDesc.precision
  let mkldnnFormat := formatOf tDesc
  let blocking := tDesc.blockingDesc
  let realDims := tDesc.dims.map toPtrdiff
  if notDefault blocking ∧ mkldnnFormat = .blocked ∧ ¬ blocking.order.Nodup then
    throwException "Currently MKLDNNPlugin supports only packaged memory for unknown blocked format"
  else
    let desc ← (
      if mkldnnFormat = .blocked then do CreateBlockingDesc (← ofFormat realDims data_type .any)
      else ofFormat realDims data_type mkldnnFormat)
    let offsets := (blocking.offsetPaddingToData.map toPtrdiff).take TENSOR_MAX_DIMS
    let desc := { desc with
      offset_padding := toPtrdiff blocking.offsetPadding
      offset_padding_to_data := offsets ++ desc.offset_padding_to_data.drop offsets.length }
    if notDefault blocking then
      let strides ← ((blocking.order.take blocking.strides.length).take desc.dims.length).mapM fun (o : Nat) =>
        elemAt "strides[order[i]]" blocking.strides o
      return { desc with strides := strides.map toPtrdiff ++ desc.strides.drop strides.length }
    else return desc

def precisionOf : DataType → Result Precision
  | .f32 => return .FP32
  | .u8 => return .U8
  | .s8 => return .I8
  | .s16 => return .I16
  | .s32 => return .I32
  | .bin => return .BIN
  | _ => throwException "Cannot cast to TensorDesc. Unsupported precision!"

/-- `blkDims[1] = blkDims[1] / c + (blkDims[1] % c ? 1 : 0)`, and `c` at the end. -/
def channelBlocks (dims : SizeVector) (c : Nat) : SizeVector :=
  dims.set 1 (dims.getD 1 0 / c + if dims.getD 1 0 % c = 0 then 0 else 1) ++ [c]

/-- `layout`, `order` and `blkDims` for a format. -/
def blocksOf (desc : MemoryDesc) (precision : Precision) (dims : SizeVector) :
    Result (Layout × SizeVector × SizeVector) :=
  let dim := (dims.getD · 0)
  match desc.format with
  | .format_undef => throwException "Cannot cast to tensor desc. Format is undefined!"
  | .any => return (.ANY, [], [])
  | .x => return (.C, [0], dims)
  | .oi | .nc => return (.NC, [0, 1], dims)
  | .tnc => return (.CHW, [0, 1, 2], dims)
  | .ntc => return (.CHW, [1, 0, 2], [dim 1, dim 0, dim 2])
  | .oihw | .nchw => return (.NCHW, [0, 1, 2, 3], dims)
  | .ncdhw => return (.NCDHW, [0, 1, 2, 3, 4], dims)
  | .nhwc =>
    let channels := if precision = .BIN then toSizeT (dim 1 + 7) / 8 * 8 else dim 1
    return (.NHWC, [0, 2, 3, 1], [dim 0, dim 2, dim 3, channels])
  | .ndhwc => return (.NDHWC, [0, 2, 3, 4, 1], [dim 0, dim 2, dim 3, dim 4, dim 1])
  | .oIhw8i | .nChw8c => return (.BLOCKED, [0, 1, 2, 3, 1], channelBlocks dims 8)
  | .nCdhw8c => return (.BLOCKED, [0, 1, 2, 3, 4, 1], channelBlocks dims 8)
  | .nChw16c => return (.BLOCKED, [0, 1, 2, 3, 1], channelBlocks dims 16)
  | .nCdhw16c => return (.BLOCKED, [0, 1, 2, 3, 4, 1], channelBlocks dims 16)
  | .blocked =>
    if ∃ i < dims.length,
        (i ≠ 0 ∧ desc.strides.getD (i - 1) 0 < desc.strides.getD i 0) ∨ desc.block_dims.getD i 0 ≠ 1 then
      throwException "Cannot cast to tensor desc. Unsupported blocked format."
    else return (if dims.length = 3 then .CHW else .BLOCKED, List.range dims.length, dims)

/-- The strides that are read for the layouts other than NHWC, NDHWC and CHW: the innermost is 1, and beyond the
dimensions of the tensor they are packed. The list has the order and the size of the blocks from position `i` on. -/
def innerStrides (desc : MemoryDesc) (ndims : Nat) : Nat → List (Nat × Nat) → SizeVector
  | _, [] => []
  | _, [_] => [1]
  | i, (o, _) :: (o', blkDim) :: rest =>
    let strides := innerStrides desc ndims (i + 1) ((o', blkDim) :: rest)
    (if i < ndims then toSizeT (desc.strides.getD o 0) else toSizeT (strides.headD 0 * blkDim)) :: strides

/-- `operator TensorDesc`. -/
def toTensorDesc (desc : MemoryDesc) : Result TensorDesc := do
  let precision ← precisionOf desc.data_type
  let dims := desc.dims.map toSizeT
  let (layout, order, blkDims) ← blocksOf desc precision dims
  if desc.format = .any then TensorDesc.ofLayout precision dims layout
  else
    let strides :=
      if layout = .NHWC ∨ layout = .NDHWC ∨ layout = .CHW then
        order.map fun o => toSizeT (desc.strides.getD o 0)
      else innerStrides desc dims.length 0 (order.zip blkDims)
    let offsetsForDims := ((List.range blkDims.length).take TENSOR_MAX_DIMS).map fun i =>
      if i < dims.length then toSizeT (desc.offset_padding_to_data.getD i 0) else 0
    let blockingDesc ← InferenceEngine.BlockingDesc.ofStrides blkDims order (toSizeT desc.offset_padding)
      offsetsForDims strides
    let tensorDesc ← TensorDesc.ofBlocking precision dims blockingDesc
    tensorDesc.setLayout layout

end MKLDNNMemoryDesc

end OpenVino.MKLDNNPlugin
