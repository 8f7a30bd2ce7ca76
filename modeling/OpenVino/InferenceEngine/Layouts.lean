import OpenVino.Base.MixedRadix
import OpenVino.InferenceEngine.SizeT

/-!
# Tensor descriptors

A `TensorDesc` says where the elements of a tensor are: `blockingDesc` cuts the dimensions into blocks, in an
`order` that may name a dimension several times, and gives a stride for each block. `TensorDesc.offset` is the
address of a coordinate vector.
-/

namespace OpenVino.InferenceEngine

inductive Precision
  | UNSPECIFIED | MIXED | FP32 | FP16 | Q78 | I16 | U8 | I8 | U16 | I32 | I64 | BIN | CUSTOM
deriving DecidableEq

inductive Layout
  | ANY | NCHW | NHWC | NCDHW | NDHWC | OIHW | SCALAR | C | CHW | HW | NC | CN | BLOCKED
deriving DecidableEq

/-- `operator <<`. -/
def Layout.print : Layout → String
  | ANY => "ANY"
  | NCHW => "NCHW"
  | NHWC => "NHWC"
  | NCDHW => "NCDHW"
  | NDHWC => "NDHWC"
  | OIHW => "OIHW"
  | SCALAR => "95"
  | C => "C"
  | CHW => "CHW"
  | HW => "192"
  | NC => "NC"
  | CN => "CN"
  | BLOCKED => "BLOCKED"

structure BlockingDesc where
  blockedDims : SizeVector := []
  strides : SizeVector := []
  order : SizeVector := []
  offsetPaddingToData : SizeVector := []
  offsetPadding : Nat := 0
deriving DecidableEq

namespace BlockingDesc

/-- The strides that `fillDesc` computes, from the innermost block outwards. -/
def fillStrides : SizeVector → SizeVector
  | [] => []
  | _ :: blocked_dims =>
    match fillStrides blocked_dims, blocked_dims with
    | stride :: strides, dim :: _ => toSizeT (stride * dim) :: stride :: strides
    | _, _ => [1]

def fillDesc (blocked_dims order : SizeVector) : Result BlockingDesc :=
  if order.length ≠ blocked_dims.length then
    throwException "Cannot fill descriptor. Size of dimensions and order vector don't match."
  else if blocked_dims = [] ∨ order = [] then
    throwException "Cannot fill descriptor. Dimensions and order vector are empty."
  else
    return {
      blockedDims := blocked_dims
      strides := fillStrides blocked_dims
      order
      offsetPaddingToData := List.replicate order.length 0
      offsetPadding := 0 }

/-- `BlockingDesc(block_dims, order)`. -/
def ofOrder (block_dims order : SizeVector) : Result BlockingDesc :=
  if block_dims = [] ∨ order = [] then return { order } else fillDesc block_dims order

/-- `BlockingDesc(blocked_dims, order, offset)`. -/
def ofOffset (blocked_dims order : SizeVector) (offset : Nat) : Result BlockingDesc := do
  let d ← ofOrder blocked_dims order
  return { d with offsetPadding := offset }

/-- `BlockingDesc(blocked_dims, order, offset, dimOffsets)`. -/
def ofDimOffsets (blocked_dims order : SizeVector) (offset : Nat) (dimOffsets : SizeVector) :
    Result BlockingDesc := do
  let d ← ofOrder blocked_dims order
  if blocked_dims.length ≠ dimOffsets.length then throwException "Offsets are not initialized for all dimensions."
  else return { d with offsetPadding := offset, offsetPaddingToData := dimOffsets }

/-- `BlockingDesc(blocked_dims, order, offset, dimOffsets, strides)`. -/
def ofStrides (blocked_dims order : SizeVector) (offset : Nat) (dimOffsets strides : SizeVector) :
    Result BlockingDesc := do
  let d ← ofOrder blocked_dims order
  if blocked_dims.length ≠ strides.length then throwException "Strides are not initialized for all dimensions."
  else if blocked_dims.length ≠ dimOffsets.length then
    throwException "Offsets are not initialized for all dimensions."
  else return { d with offsetPadding := offset, strides, offsetPaddingToData := dimOffsets }

/-- `BlockingDesc(dims, layout)`. -/
def ofLayout (dims : SizeVector) (layout : Layout) : Result BlockingDesc :=
  if dims = [] then return {}
  else
    let inconsistent := throwException "Dims and format are inconsistent."
    match layout, dims with
    | .SCALAR, _ | .ANY, _ => return {}
    | .C, [_] => fillDesc dims [0]
    | .OIHW, [_, _, _, _] | .NCHW, [_, _, _, _] => fillDesc dims [0, 1, 2, 3]
    | .NCDHW, [_, _, _, _, _] => fillDesc dims [0, 1, 2, 3, 4]
    | .NHWC, [d0, d1, d2, d3] => fillDesc [d0, d2, d3, d1] [0, 2, 3, 1]
    | .NDHWC, [d0, d1, d2, d3, d4] => fillDesc [d0, d2, d3, d4, d1] [0, 2, 3, 4, 1]
    | .CHW, [_, _, _] => fillDesc dims [0, 1, 2]
    | .CN, [d0, d1] => fillDesc [d1, d0] [1, 0]
    | .NC, [_, _] | .HW, [_, _] => fillDesc dims [0, 1]
    | .BLOCKED, _ => fillDesc dims (List.range dims.length)
    | _, _ => inconsistent

/-- What the constructors build. -/
inductive Constructed : BlockingDesc → Prop
  | default : Constructed {}
  | ofLayout {dims layout d} : ofLayout dims layout = .ok d → Constructed d
  | ofOrder {block_dims order d} : ofOrder block_dims order = .ok d → Constructed d
  | ofOffset {blocked_dims order offset d} : ofOffset blocked_dims order offset = .ok d → Constructed d
  | ofDimOffsets {blocked_dims order offset dimOffsets d} :
      ofDimOffsets blocked_dims order offset dimOffsets = .ok d → Constructed d
  | ofStrides {blocked_dims order offset dimOffsets strides d} :
      ofStrides blocked_dims order offset dimOffsets strides = .ok d → Constructed d

end BlockingDesc

structure TensorDesc where
  precision : Precision := .FP32
  dims : SizeVector := []
  layout : Layout := .NCHW
  blockingDesc : BlockingDesc := {}
deriving DecidableEq

namespace TensorDesc

/-- `TensorDesc(precision, dims, layout)`. -/
def ofLayout (precision : Precision) (dims : SizeVector) (layout : Layout) : Result TensorDesc := do
  let blockingDesc ← BlockingDesc.ofLayout dims layout
  return { layout, dims, precision, blockingDesc }

/-- The layout that `TensorDesc(precision, dims, blockDesc)` finds for its descriptor. -/
def detectLayout (dims : SizeVector) (blockDesc : BlockingDesc) : Layout :=
  if dims.length = blockDesc.blockedDims.length then
    match dims.length with
    | 1 => .C
    | 2 => if blockDesc.order = [0, 1] then .NC else .CN
    | 3 => if blockDesc.order = [0, 1, 2] then .CHW else .BLOCKED
    | 4 =>
      if blockDesc.order = [0, 1, 2, 3] then .NCHW
      else if blockDesc.order = [0, 2, 3, 1] then .NHWC
      else .BLOCKED
    | 5 =>
      if blockDesc.order = [0, 1, 2, 3, 4] then .NCDHW
      else if blockDesc.order = [0, 2, 3, 4, 1] then .NDHWC
      else .BLOCKED
    | _ => .BLOCKED
  else .BLOCKED

/-- `TensorDesc(precision, dims, blockDesc)`. -/
def ofBlocking (precision : Precision) (dims : SizeVector) (blockDesc : BlockingDesc) : Result TensorDesc :=
  if dims = [] ∨ blockDesc.blockedDims = [] then
    return { layout := .SCALAR, dims, precision, blockingDesc := blockDesc }
  else
    match blockDesc.order.max? with
    | none => .error (.undefinedBehaviour "*std::max_element(order.begin(), order.end())")
    | some m =>
      if dims.length ≠ m + 1 then
        throwException "Cannot create TensorDesc! Blocked dims are inconsistent with original dims."
      else return { layout := detectLayout dims blockDesc, dims, precision, blockingDesc := blockDesc }

inductive Constructed : TensorDesc → Prop
  | ofLayout {precision dims layout t} : ofLayout precision dims layout = .ok t → Constructed t
  | ofPrecision {precision layout} : Constructed { layout, precision }
  | ofBlocking {precision dims blockDesc t} : blockDesc.Constructed →
      ofBlocking precision dims blockDesc = .ok t → Constructed t
  | default : Constructed { layout := .ANY, precision := .UNSPECIFIED }

variable (t : TensorDesc)

def setDims (dims : SizeVector) : Result TensorDesc := do
  let blockingDesc ← (
    if t.layout = .BLOCKED then
      let newDims := if t.blockingDesc.blockedDims = [] then dims else t.blockingDesc.blockedDims
      let newOrder := if t.blockingDesc.order = [] then List.range newDims.length else t.blockingDesc.order
      BlockingDesc.ofOrder newDims newOrder
    else if t.layout = .SCALAR ∧ (dims.length > 1 ∨ dims.length = 1 ∧ dims ≠ [1]) then
      throwException "Cannot set dimensions for SCALAR layout!"
    else BlockingDesc.ofLayout dims t.layout)
  return { t with blockingDesc, dims := if t.layout = .SCALAR then t.dims else dims }

/-- The numbers of dimensions that `setLayout` takes for a layout. -/
def consistentLayout (l : Layout) (n : Nat) : Bool :=
  match l with
  | .SCALAR => n == 0
  | .C => n == 1
  | .BLOCKED | .ANY => true
  | .NCDHW | .NDHWC => n == 5
  | .OIHW | .NCHW | .NHWC => n == 4
  | .CHW => n == 3
  | .CN | .NC | .HW => n == 2

def setLayout (l : Layout) : Result TensorDesc :=
  if consistentLayout l t.dims.length then return { t with layout := l }
  else throwException
    ("Size of dims(" ++ toString t.dims.length ++ ") and format(" ++ l.print ++ ") are inconsistent.")

/-- The first loop of `offset`: `blockedShift`, and what is left of `off_v`. The list has the order and the size
of the blocks, and the loop takes them from its end on. -/
def blockedShift : List (Nat × Nat) → SizeVector → Result (SizeVector × SizeVector)
  | [], off_v => return ([], off_v)
  | (order, dim) :: blocks, off_v => do
    let (shift, off_v) ← blockedShift blocks off_v
    let x ← elemAt "off_v[order[n_blocked_dims - i]]" off_v order
    if dim = 0 then .error (.undefinedBehaviour "off_v[order[n_blocked_dims - i]] % blockedDims[n_blocked_dims - i]")
    else return (x % dim :: shift, off_v.set order (x / dim))

/-- The second loop: an entry of the list has the digit, the offset and the stride of a block. -/
def addShifts (offset : Nat) (blocks : List (Nat × Nat × Nat)) : Nat :=
  blocks.foldl (fun offset (shift, pad, stride) => toSizeT (offset + (shift + pad) * stride)) offset

def offset (v : SizeVector) : Result Nat :=
  let desc := t.blockingDesc
  if t.layout = .ANY then throwException "Cannot calculate offset for any format!"
  else if t.layout = .SCALAR then return desc.offsetPadding
  else if desc.blockedDims.length ≠ desc.order.length ∨ desc.strides.length ≠ desc.order.length then
    throwException "Cannot calculate offset. Incorrect primitive descriptor!"
  else do
    let (shift, _) ← blockedShift (desc.order.zip desc.blockedDims) v
    if desc.offsetPaddingToData.length < desc.order.length then
      .error (.undefinedBehaviour "blockingDesc.getOffsetPaddingToData()[d]")
    else return addShifts desc.offsetPadding (shift.zip (desc.offsetPaddingToData.zip desc.strides))

/-- The loop of `offset(l)`: `pos`, and what is left of `l`. -/
def position : SizeVector → Nat → Result (SizeVector × Nat)
  | [], l => return ([], l)
  | cur_dim :: dims, l => do
    let (pos, l) ← position dims l
    if cur_dim = 0 then .error (.undefinedBehaviour "l % cur_dim")
    else return (l % cur_dim :: pos, l / cur_dim)

/-- `offset(l)`. -/
def offsetAt (l : Nat) : Result Nat := do
  let (pos, _) ← position t.dims l
  t.offset pos

end TensorDesc

/-! ### What the constructors return -/

section Constructors

variable {precision : Precision} {dims block_dims blocked_dims order dimOffsets strides : SizeVector} {offset : Nat}
  {d : BlockingDesc} {t : TensorDesc} {layout : Layout}

/-- The descriptor that `fillDesc` fills. -/
def BlockingDesc.filled (blocked_dims order : SizeVector) : BlockingDesc where
  blockedDims := blocked_dims
  strides := fillStrides blocked_dims
  order := order
  offsetPaddingToData := List.replicate order.length 0

theorem BlockingDesc.fillDesc_ok (h : fillDesc blocked_dims order = .ok d) :
    order.length = blocked_dims.length ∧ blocked_dims ≠ [] ∧ d = filled blocked_dims order := by
  unfold fillDesc at h
  split_ifs at h with hlen hnil
  · exact absurd h throwException_ne_ok
  · exact absurd h throwException_ne_ok
  · rw [not_or] at hnil
    exact ⟨by omega, hnil.1, (pure_ok_iff.mp h).symm⟩

theorem BlockingDesc.ofOrder_ok (h : ofOrder block_dims order = .ok d) :
    (block_dims = [] ∨ order = []) ∧ d = { order } ∨
      order.length = block_dims.length ∧ block_dims ≠ [] ∧ d = filled block_dims order := by
  unfold ofOrder at h
  split_ifs at h with hnil
  · exact .inl ⟨hnil, (pure_ok_iff.mp h).symm⟩
  · exact .inr (fillDesc_ok h)

/-- The two constructors that take an offset and leave the strides alone. -/
theorem BlockingDesc.ofOrder_of_ofOffset (h : ofOffset blocked_dims order offset = .ok d ∨
    ofDimOffsets blocked_dims order offset dimOffsets = .ok d) :
    ∃ d₀, ofOrder blocked_dims order = .ok d₀ ∧
      d = { d₀ with offsetPadding := offset, offsetPaddingToData := d.offsetPaddingToData } ∧
      (d₀.offsetPaddingToData.length = blocked_dims.length →
        d.offsetPaddingToData.length = blocked_dims.length) := by
  rcases h with h | h
  · unfold ofOffset at h
    obtain ⟨d₀, hd₀, h⟩ := bind_ok_iff.mp h
    obtain rfl := pure_ok_iff.mp h
    exact ⟨d₀, hd₀, rfl, id⟩
  · unfold ofDimOffsets at h
    obtain ⟨d₀, hd₀, h⟩ := bind_ok_iff.mp h
    split_ifs at h with hlen
    · exact absurd h throwException_ne_ok
    · obtain rfl := pure_ok_iff.mp h
      exact ⟨d₀, hd₀, rfl, fun _ => (not_not.mp hlen).symm⟩

theorem TensorDesc.detectLayout_ne : detectLayout dims d ≠ .ANY ∧ detectLayout dims d ≠ .SCALAR := by
  unfold detectLayout
  split
  · split <;> (try split_ifs) <;> simp
  · simp

theorem TensorDesc.ofBlocking_ok (h : ofBlocking precision dims d = .ok t) :
    (dims = [] ∨ d.blockedDims = []) ∧ t = { layout := .SCALAR, dims, precision, blockingDesc := d } ∨
      (dims ≠ [] ∧ d.blockedDims ≠ []) ∧ d.order.max? = some (dims.length - 1) ∧
        t = { layout := detectLayout dims d, dims, precision, blockingDesc := d } := by
  unfold ofBlocking at h
  split_ifs at h with hnil
  · exact .inl ⟨hnil, (pure_ok_iff.mp h).symm⟩
  · rw [not_or] at hnil
    cases hmax : d.order.max? with
    | none => simp [hmax] at h
    | some m =>
      simp only [hmax] at h
      split_ifs at h with hlen
      · exact absurd h throwException_ne_ok
      · exact .inr ⟨hnil, by rw [not_not.mp hlen]; rfl, (pure_ok_iff.mp h).symm⟩

/-- The order of a descriptor names dimensions only. -/
theorem TensorDesc.lt_of_max (h : order.max? = some (dims.length - 1)) (hdims : dims ≠ []) :
    ∀ o ∈ order, o < dims.length := by
  intro o ho
  have hle := (List.max?_eq_some_iff.mp h).2 o ho
  have hlen := List.length_pos_of_ne_nil hdims
  omega

end Constructors

end OpenVino.InferenceEngine
