import OpenVino.Base.NestedStrides
import OpenVino.Vpu.Model.DimsOrder
import OpenVino.Vpu.Numeric

/-!
# Strides of a `DataDesc`

`calcStrides`, `checkStrides`, `calcTotalByteSize` and `StridesRequirement::fixed` of `data_desc.cpp`, and
`DataNode::elemOffset`. The strides of a description, innermost first, are a chain (`chain`): each is the
stride below times its dim, rounded up where the requirement aligns it. The chain is nested
(`nested_chain`), and so are fixed strides, because `fixed` asserts it (`fixed_spec`); elements then lie
apart and inside the total size by the library of nested strides.

An `int` that does not fit is undefined behaviour (`intArith`).
-/

namespace OpenVino.Vpu

open InferenceEngine (FitsInt intArith elemAt intArith_ok_iff)

inductive DataType
  | FP16
  | U8
  | S32
  | FP32
  | I8

/-- `DimValues`: what is set for a dim. -/
abbrev DimValues := Dim → Option Int

namespace DimValues

def size (values : DimValues) : Nat := ((List.range MAX_DIMS_64).filter fun ind : Nat => (values ind).isSome).length

def empty (values : DimValues) : Bool := values.size = 0

/-- `operator[]` -/
def get (values : DimValues) (d : Dim) : Result Int := do
  ieAssert "ind >= 0 && ind < MAX_DIMS_64" (0 ≤ d ∧ d < MAX_DIMS_64)
  match values d with
  | some val => pure val
  | none => .error (.assertionFailed "_flags[static_cast<size_t>(ind)]")

def set (values : DimValues) (d : Dim) (val : Int) : Result DimValues := do
  ieAssert "ind >= 0 && ind < MAX_DIMS_64" (0 ≤ d ∧ d < MAX_DIMS_64)
  pure (Function.update values d (some val))

/-- The value of a dim that is set. -/
def val (values : DimValues) (d : Dim) : Int := (values d).getD 0

end DimValues

/-- A description has a dim value for the dims of its order and for no others: the constructors, `setDim`
and `reorder` assert it. -/
structure DataDesc where
  type : DataType
  dimsOrder : DimsOrder
  dims : DimValues
  nodup : dimsOrder.toPermutation.Nodup
  isSome_iff : ∀ d, (dims d).isSome ↔ d ∈ dimsOrder.toPermutation

namespace DataDesc

def elemSize (desc : DataDesc) : Int :=
  match desc.type with
  | .U8 => 1
  | .I8 => 1
  | .FP16 => 2
  | .FP32 => 4
  | .S32 => 4

def perm (desc : DataDesc) : List Dim := desc.dimsOrder.toPermutation

def dim (desc : DataDesc) (d : Dim) : Result Int := desc.dims.get d

end DataDesc

/-! ### Requirements -/

inductive DimStride
  | Any
  | Compact
  | Aligned
  | Fixed
deriving DecidableEq

def STRIDE_ALIGNMENT : Int := 16

/-- A requirement for each position in memory, and the strides that are fixed for each dim. -/
structure StridesRequirement where
  map : Nat → DimStride
  fixedStrides : DimValues := fun _ => none

def StridesRequirement.get (reqs : StridesRequirement) (index : Nat) : Result DimStride := do
  ieAssert "index >= 0 && index < MAX_DIMS_64" (index < MAX_DIMS_64)
  pure (reqs.map index)

def applyStrideRequirement (origStride : Int) (index : Nat) (reqs : StridesRequirement) : Result Int := do
  let req ← reqs.get index
  match req with
  | .Any => pure origStride
  | .Compact => pure origStride
  | .Aligned => alignVal origStride STRIDE_ALIGNMENT
  | .Fixed => throwException "Unknown stride requirement : Fixed"

/-! ### Strides -/

/-- The loop of `calcStrides` from position `i`; `prev` is `perm[i - 1]`. -/
def calcStridesLoop (desc : DataDesc) (reqs : StridesRequirement) :
    List Dim → Dim → Nat → DimValues → Result DimValues
  | [], _, _, strides => pure strides
  | d :: rest, prev, i, strides => do
    let stride ← intArith "strides[perm[i - 1]] * desc.dim(perm[i - 1])"
      ((← strides.get prev) * (← desc.dim prev))
    let strides ← strides.set d stride
    let strides ← strides.set d (← applyStrideRequirement (← strides.get d) i reqs)
    calcStridesLoop desc reqs rest d (i + 1) strides

def calcStrides (desc : DataDesc) (reqs : StridesRequirement) : Result DimValues := do
  ieAssert "!perm.empty()" (desc.perm ≠ [])
  if reqs.fixedStrides.empty then
    match desc.perm with
    | [] => pure reqs.fixedStrides
    | first :: rest => do
      let strides ← reqs.fixedStrides.set first desc.elemSize
      let strides ← strides.set first (← applyStrideRequirement (← strides.get first) 0 reqs)
      calcStridesLoop desc reqs rest first 1 strides
  else pure reqs.fixedStrides

/-- `perm[ind]` -/
def DataDesc.permAt (desc : DataDesc) (ind : Nat) : Result Dim := elemAt "perm[ind]" desc.perm ind

def checkStride (strides : DimValues) (desc : DataDesc) (ind : Nat) (reqs : StridesRequirement) :
    Result Bool := do
  let req ← reqs.get ind
  if req = .Any then pure true
  else do
    ieAssert "!perm.empty()" (desc.perm ≠ [])
    let d ← desc.permAt ind
    let strideVal ← strides.get d
    match req with
    | .Any => pure true
    | .Compact =>
      if ind = 0 then pure (strideVal = desc.elemSize : Bool)
      else do
        let prev ← desc.permAt (ind - 1)
        let compact ← intArith "strides[perm[ind - 1]] * desc.dim(perm[ind - 1])"
          ((← strides.get prev) * (← desc.dim prev))
        pure (strideVal = compact : Bool)
    | .Aligned => pure (strideVal.tmod STRIDE_ALIGNMENT = 0 : Bool)
    | .Fixed => do
      let fixed ← reqs.fixedStrides.get d
      pure (strideVal = fixed : Bool)

/-- The loop of `checkStrides` over the positions that are left. -/
def checkStridesLoop (desc : DataDesc) (strides : DimValues) (reqs : StridesRequirement) :
    List Nat → Result Bool
  | [] => pure true
  | i :: rest => do
    if ← checkStride strides desc i reqs then checkStridesLoop desc strides reqs rest else pure false

def checkStrides (desc : DataDesc) (strides : DimValues) (reqs : StridesRequirement) : Result Bool := do
  ieAssert "!perm.empty()" (desc.perm ≠ [])
  checkStridesLoop desc strides reqs (List.range desc.perm.length)

def calcTotalByteSize (desc : DataDesc) (strides : DimValues) : Result Int := do
  match desc.perm.getLast? with
  | none => .error (.undefinedBehaviour "perm.back()")
  | some last =>
    intArith "strides[perm.back()] * desc.dim(perm.back())" ((← strides.get last) * (← desc.dim last))

/-! ### Fixed strides -/

def dimToIeInd (dim : Dim) (numDims : Nat) : Result Int := do
  ieAssert "1 <= numDims && numDims <= 8" (1 ≤ numDims ∧ numDims ≤ 8)
  let dimsOrder ← DimsOrder.fromNumDims numDims
  let dimInd ← dimsOrder.dimInd dim
  pure (((numDims : Int) - 1) - dimInd)

namespace StridesRequirement

/-- `minStrideVal` of `fixed` -/
def minStrideVal (desc : DataDesc) (fixedStrides : DimValues) (idx : Nat) : Result Int :=
  if idx = 0 then pure desc.elemSize
  else do
    let prev ← desc.permAt (idx - 1)
    intArith "reqs._fixedStrides[perm[idx - 1]] * dims[perm[idx - 1]]"
      ((← fixedStrides.get prev) * (← desc.dim prev))

/-- `setStride` of `fixed` -/
def setStride (desc : DataDesc) (fixedStrides : DimValues) (d : Dim) (val : Int) : Result DimValues := do
  ieAssert "dimsOrder.hasDim(d)" (desc.dimsOrder.hasDim d)
  let idx ← desc.dimsOrder.dimInd d
  let minStrideVal ← minStrideVal desc fixedStrides idx
  ieAssert "val >= minStrideVal" (val ≥ minStrideVal)
  fixedStrides.set d val

def fixedLoop (strides : List Int) (desc : DataDesc) : List Dim → DimValues → Result DimValues
  | [], fixedStrides => pure fixedStrides
  | dim :: rest, fixedStrides => do
    let idx ← dimToIeInd dim desc.dims.size
    let val ← elemAt "strides[idx]" strides idx
    let fixedStrides ← setStride desc fixedStrides dim val
    fixedLoop strides desc rest fixedStrides

/-- `StridesRequirement::fixed` -/
def fixed (strides : List Int) (desc : DataDesc) : Result StridesRequirement := do
  let fixedStrides ← fixedLoop strides desc desc.perm fun _ => none
  pure { map := fun _ => .Fixed, fixedStrides }

end StridesRequirement

/-! ### Elements -/

/-- One pass of the loop of `DataNode::elemOffset`. -/
def elemOffsetStep (desc : DataDesc) (strides coord : DimValues) (res : Int) (ind : Nat) : Result Int :=
  match coord ind with
  | none => pure res
  | some pos => do
    ieAssert "_desc.dimsOrder().hasDim(p.first)" (desc.dimsOrder.hasDim ind)
    let dim ← desc.dim ind
    ieAssert "p.second < _desc.dim(p.first)" (pos < dim)
    let bytes ← intArith "p.second * strides[p.first]" (pos * (← strides.get ind))
    intArith "res += p.second * strides[p.first]" (res + bytes)

/-- `DataNode::elemOffset`: the coordinates in the order of their dims. -/
def elemOffset (desc : DataDesc) (strides coord : DimValues) : Result Int :=
  (List.range MAX_DIMS_64).foldlM (elemOffsetStep desc strides coord) 0

/-! ### Values -/

section

variable {values : DimValues} {d v : Int}

theorem DimValues.val_of_some (h : values d = some v) : values.val d = v := by
  rw [DimValues.val, h, Option.getD_some]

theorem DimValues.some_val (h : (values d).isSome) : values d = some (values.val d) := by
  obtain ⟨v, hv⟩ := Option.isSome_iff_exists.mp h
  rw [DimValues.val_of_some hv, hv]

theorem DimValues.get_ok (hd : 0 ≤ d ∧ d < MAX_DIMS_64) (h : values d = some v) : values.get d = .ok v := by
  refine ieAssert_bind_ok_iff.mpr ⟨hd, ?_⟩
  rw [h]
  rfl

theorem DimValues.set_ok (hd : 0 ≤ d ∧ d < MAX_DIMS_64) :
    values.set d v = .ok (Function.update values d (some v)) :=
  ieAssert_bind_ok_iff.mpr ⟨hd, rfl⟩

theorem DimValues.set_ok_iff {values' : DimValues} (h : values.set d v = .ok values') :
    values' = Function.update values d (some v) :=
  (pure_ok_iff.mp (ieAssert_bind_ok_iff.mp h).2).symm

theorem DimValues.get_ok_iff (h : values.get d = .ok v) : values d = some v := by
  obtain ⟨-, h⟩ := ieAssert_bind_ok_iff.mp h
  split at h
  · rename_i w hw
    rw [hw, pure_ok_iff.mp h]
  · cases h

theorem DimValues.empty_eq_false (hd : 0 ≤ d ∧ d < MAX_DIMS_64) (h : (values d).isSome) :
    values.empty = false := by
  unfold DimValues.empty DimValues.size
  rw [decide_eq_false_iff_not, List.length_eq_zero_iff, List.filter_eq_nil_iff]
  intro hnone
  have hlt : d < 15 := hd.2
  have hmem : d.toNat ∈ List.range 15 := List.mem_range.mpr (by omega)
  refine hnone d.toNat hmem ?_
  rwa [Int.toNat_of_nonneg hd.1]

end

theorem intArith_ok {e : String} {i : Int} (h : FitsInt i) : intArith e i = .ok i :=
  intArith_ok_iff.mpr ⟨h, rfl⟩

namespace DataDesc

variable {desc : DataDesc} {d : Dim} {i : Nat}

theorem mem_perm_range (h : d ∈ desc.perm) : 0 ≤ d ∧ d < MAX_DIMS_64 := by
  rw [perm, DimsOrder.toPermutation_eq, dimsOf] at h
  obtain ⟨digit, hdigit, rfl⟩ := List.mem_map.mp h
  obtain ⟨hpos, hlt⟩ := DimsOrder.lowDigits_code_lt hdigit
  have hrange : (0 : Int) ≤ digit - 1 ∧ (digit : Int) - 1 < 15 := by omega
  exact hrange

theorem length_perm_le (desc : DataDesc) : desc.perm.length ≤ MAX_DIMS_64 :=
  (DimsOrder.fromPermutation_toPermutation desc.dimsOrder).1

theorem dim_ok (h : d ∈ desc.perm) : desc.dim d = .ok (desc.dims.val d) :=
  DimValues.get_ok (mem_perm_range h) (DimValues.some_val ((desc.isSome_iff d).mpr h))

theorem permAt_ok (h : desc.perm[i]? = some d) : desc.permAt i = .ok d := by
  unfold permAt elemAt
  rw [if_pos (by omega), Int.toNat_natCast, h]

theorem elemSize_pos (desc : DataDesc) : 0 < desc.elemSize := by
  unfold elemSize
  split <;> omega

theorem fitsInt_elemSize (desc : DataDesc) : FitsInt desc.elemSize := by
  unfold elemSize FitsInt
  split <;> omega

/-- The strides with the dims, innermost first. -/
def layout (desc : DataDesc) (strides : DimValues) (dims : List Dim) : List (Int × Int) :=
  dims.map fun d => (strides.val d, desc.dims.val d)

theorem layout_congr {strides strides' : DimValues} {dims : List Dim} (h : ∀ d ∈ dims, strides' d = strides d) :
    desc.layout strides' dims = desc.layout strides dims :=
  List.map_congr_left fun d hd => by simp only [DimValues.val, h d hd]

end DataDesc

/-! ### The chain of strides -/

def alignUp (stride : Int) : Int := stride + 15 - (stride + 15) % 16

/-- A stride as the requirement at its position has it. -/
def strideAt (reqs : StridesRequirement) (index : Nat) (stride : Int) : Int :=
  if reqs.map index = .Aligned then alignUp stride else stride

/-- The strides that `calcStrides` aims at, in numbers that cannot overflow, with their dims. -/
def chain (reqs : StridesRequirement) : Nat → Int → List Int → List (Int × Int)
  | _, _, [] => []
  | i, stride, dim :: dims =>
    (strideAt reqs i stride, dim) :: chain reqs (i + 1) (strideAt reqs i stride * dim) dims

/-- Every stride and every stride times its dim is an `int`. -/
def AllFit (layout : List (Int × Int)) : Prop := ∀ p ∈ layout, FitsInt p.1 ∧ FitsInt (p.1 * p.2)

section

variable {reqs : StridesRequirement} {desc : DataDesc} {i : Nat} {stride : Int}

theorem le_strideAt (reqs : StridesRequirement) (i : Nat) (stride : Int) : stride ≤ strideAt reqs i stride := by
  unfold strideAt alignUp
  split_ifs <;> omega

theorem nested_chain (reqs : StridesRequirement) (i : Nat) (stride : Int) (dims : List Int) :
    Strides.Nested stride (chain reqs i stride dims) := by
  induction dims generalizing i stride with
  | nil => trivial
  | cons dim dims ih => exact ⟨le_strideAt reqs i stride, ih (i + 1) _⟩

theorem applyStrideRequirement_ok (hi : i < MAX_DIMS_64) (hreq : reqs.map i ≠ .Fixed) (hfit : FitsInt stride)
    (hfit' : FitsInt (strideAt reqs i stride)) :
    applyStrideRequirement stride i reqs = .ok (strideAt reqs i stride) := by
  unfold applyStrideRequirement
  have hget : reqs.get i = .ok (reqs.map i) := ieAssert_bind_ok_iff.mpr ⟨hi, rfl⟩
  rw [hget, ok_bind]
  unfold strideAt at hfit' ⊢
  cases hmap : reqs.map i with
  | Any => simp; rfl
  | Compact => simp; rfl
  | Fixed => exact absurd hmap hreq
  | Aligned =>
    rw [if_pos hmap] at hfit'
    rw [if_pos rfl]
    have hsum : FitsInt (stride + (STRIDE_ALIGNMENT - 1)) := by
      unfold FitsInt STRIDE_ALIGNMENT alignUp at *
      omega
    unfold alignVal
    exact ieAssert_bind_ok_iff.mpr ⟨by decide, bind_ok_iff.mpr ⟨_, intArith_ok hsum, rfl⟩⟩

/-- The loop of `calcStrides` extends the chain: induction on the dims that are left. -/
theorem calcStridesLoop_ok {rest : List Dim} {prev : Dim} {strides : DimValues} {s : Int}
    (hfree : ∀ i, reqs.map i ≠ .Fixed) (hprev : strides prev = some s) (hfitPrev : FitsInt (s * desc.dims.val prev))
    (hmem : ∀ d ∈ prev :: rest, d ∈ desc.perm) (hnodup : (prev :: rest).Nodup)
    (hi : i + rest.length ≤ MAX_DIMS_64)
    (hfit : AllFit (chain reqs i (s * desc.dims.val prev) (rest.map desc.dims.val))) :
    ∃ strides', calcStridesLoop desc reqs rest prev i strides = .ok strides' ∧
      (∀ d, d ∉ rest → strides' d = strides d) ∧ (∀ d ∈ rest, (strides' d).isSome) ∧
      desc.layout strides' rest = chain reqs i (s * desc.dims.val prev) (rest.map desc.dims.val) := by
  induction rest generalizing prev strides s i with
  | nil => exact ⟨strides, rfl, fun _ _ => rfl, by simp, rfl⟩
  | cons d rest ih =>
    rw [List.map_cons, chain] at hfit
    have hd := DataDesc.mem_perm_range (hmem d (by simp))
    have hprevMem := hmem prev List.mem_cons_self
    obtain ⟨hfitStride, hfitDim⟩ := hfit _ List.mem_cons_self
    rw [List.length_cons] at hi
    have hget := DimValues.get_ok (DataDesc.mem_perm_range hprevMem) hprev
    have happly := applyStrideRequirement_ok (i := i) (by omega) (hfree i) hfitPrev hfitStride
    obtain ⟨hprevNot, hnodup'⟩ := List.nodup_cons.mp hnodup
    have hdNot := (List.nodup_cons.mp hnodup').1
    have hset : strides.set d (s * desc.dims.val prev) =
        .ok (Function.update strides d (some (s * desc.dims.val prev))) := DimValues.set_ok hd
    have hgetSet := DimValues.get_ok hd (Function.update_self d (some (s * desc.dims.val prev)) strides)
    have hself := Function.update_self d (some (strideAt reqs i (s * desc.dims.val prev))) strides
    obtain ⟨strides', hloop, hframe, hsome, hlayout⟩ :=
      ih (i := i + 1) hself hfitDim (fun e he => hmem e (List.mem_cons_of_mem _ he)) hnodup' (by omega)
        fun p hp => hfit p (List.mem_cons_of_mem _ hp)
    have hthis : strides' d = some (strideAt reqs i (s * desc.dims.val prev)) := by
      rw [hframe d hdNot, Function.update_self]
    refine ⟨strides', ?_, fun e he => ?_, fun e he => ?_, ?_⟩
    · rw [calcStridesLoop, hget, ok_bind, DataDesc.dim_ok hprevMem, ok_bind, intArith_ok hfitPrev, ok_bind, hset,
        ok_bind, hgetSet, ok_bind, happly, ok_bind, DimValues.set_ok hd, ok_bind, Function.update_idem, hloop]
    · rw [List.mem_cons, not_or] at he
      rw [hframe e he.2, Function.update_of_ne he.1]
    · rcases List.mem_cons.mp he with rfl | he
      · rw [hthis]
        rfl
      · exact hsome e he
    · rw [DataDesc.layout, List.map_cons, List.map_cons, chain, DimValues.val_of_some hthis]
      exact congrArg _ hlayout

theorem calcStrides_chain (hfree : ∀ i, reqs.map i ≠ .Fixed) (hempty : reqs.fixedStrides.empty = true)
    (hperm : desc.perm ≠ []) (hfit : AllFit (chain reqs 0 desc.elemSize (desc.perm.map desc.dims.val))) :
    ∃ strides, calcStrides desc reqs = .ok strides ∧ (∀ d ∈ desc.perm, (strides d).isSome) ∧
      desc.layout strides desc.perm = chain reqs 0 desc.elemSize (desc.perm.map desc.dims.val) := by
  obtain ⟨first, rest, hcons⟩ := List.exists_cons_of_ne_nil hperm
  have hmem : ∀ d ∈ first :: rest, d ∈ desc.perm := fun d hd => hcons ▸ hd
  have hnodup : (first :: rest).Nodup := hcons ▸ desc.nodup
  have hlen : rest.length + 1 ≤ MAX_DIMS_64 := by
    have := desc.length_perm_le
    rwa [hcons] at this
  have hfirst := DataDesc.mem_perm_range (hmem first List.mem_cons_self)
  rw [hcons, List.map_cons, chain] at hfit
  obtain ⟨hfitStride, hfitDim⟩ := hfit _ List.mem_cons_self
  have hset : reqs.fixedStrides.set first desc.elemSize =
      .ok (Function.update reqs.fixedStrides first (some desc.elemSize)) := DimValues.set_ok hfirst
  have hgetSet := DimValues.get_ok hfirst (Function.update_self first (some desc.elemSize) reqs.fixedStrides)
  have happly := applyStrideRequirement_ok (i := 0) (by decide) (hfree 0) desc.fitsInt_elemSize hfitStride
  have hself := Function.update_self first (some (strideAt reqs 0 desc.elemSize)) reqs.fixedStrides
  obtain ⟨strides, hloop, hframe, hsome, hlayout⟩ :=
    calcStridesLoop_ok (i := 1) hfree hself hfitDim hmem hnodup (by omega)
      fun p hp => hfit p (List.mem_cons_of_mem _ hp)
  have hthis : strides first = some (strideAt reqs 0 desc.elemSize) := by
    rw [hframe first (List.nodup_cons.mp hnodup).1, Function.update_self]
  refine ⟨strides, ?_, fun d hd => ?_, ?_⟩
  · rw [calcStrides, if_pos hempty]
    refine ieAssert_bind_ok_iff.mpr ⟨hperm, ?_⟩
    simp only [hcons]
    rw [hset, ok_bind, hgetSet, ok_bind, happly, ok_bind, DimValues.set_ok hfirst, ok_bind,
      Function.update_idem, hloop]
  · rw [hcons] at hd
    rcases List.mem_cons.mp hd with rfl | hd
    · rw [hthis]
      rfl
    · exact hsome d hd
  · rw [hcons, DataDesc.layout, List.map_cons, List.map_cons, chain, DimValues.val_of_some hthis]
    exact congrArg _ hlayout

/-! ### The check -/

/-- What lies below a position of a layout: an element, or the dimension below. -/
def below (e : Int) (layout : List (Int × Int)) : Nat → Int
  | 0 => e
  | k + 1 => ((layout[k]?).map fun p => p.1 * p.2).getD 0

theorem below_cons (e : Int) (p : Int × Int) (layout : List (Int × Int)) (k : Nat) :
    below e (p :: layout) (k + 1) = below (p.1 * p.2) layout k := by
  cases k <;> rfl

theorem chain_getElem? {dims : List Int} {k : Nat} {p : Int × Int}
    (h : (chain reqs i stride dims)[k]? = some p) :
    p.1 = strideAt reqs (i + k) (below stride (chain reqs i stride dims) k) := by
  induction dims generalizing i stride k with
  | nil => simp [chain] at h
  | cons dim dims ih =>
    rw [chain] at h ⊢
    cases k with
    | zero =>
      rw [List.getElem?_cons_zero, Option.some.injEq] at h
      rw [← h]
      rfl
    | succ k =>
      rw [List.getElem?_cons_succ] at h
      rw [below_cons, ih h]
      congr 1
      omega

/-- **What `checkStride` accepts**: a stride that is what its requirement asks for. -/
theorem checkStride_ok {strides : DimValues} {d : Dim} (hperm : desc.perm[i]? = some d)
    (hsome : ∀ d ∈ desc.perm, (strides d).isSome)
    (hfit : FitsInt (below desc.elemSize (desc.layout strides desc.perm) i))
    (hcompact : reqs.map i = .Compact → strides.val d = below desc.elemSize (desc.layout strides desc.perm) i)
    (haligned : reqs.map i = .Aligned → strides.val d % 16 = 0)
    (hfixed : reqs.map i = .Fixed → reqs.fixedStrides d = some (strides.val d)) :
    checkStride strides desc i reqs = .ok true := by
  obtain ⟨hlt, -⟩ := List.getElem?_eq_some_iff.mp hperm
  have hmax := desc.length_perm_le
  have hmem := List.mem_of_getElem? hperm
  have hgetReq : reqs.get i = .ok (reqs.map i) := ieAssert_bind_ok_iff.mpr ⟨by omega, rfl⟩
  have hget : strides.get d = .ok (strides.val d) :=
    DimValues.get_ok (DataDesc.mem_perm_range hmem) (DimValues.some_val (hsome d hmem))
  rw [checkStride, hgetReq, ok_bind]
  by_cases hany : reqs.map i = .Any
  · rw [if_pos hany]
    rfl
  · rw [if_neg hany]
    refine ieAssert_bind_ok_iff.mpr ⟨List.ne_nil_of_mem hmem, ?_⟩
    rw [DataDesc.permAt_ok hperm, ok_bind, hget, ok_bind]
    cases hreq : reqs.map i with
    | Any => exact absurd hreq hany
    | Compact =>
      have hval := hcompact hreq
      cases i with
      | zero =>
        simp only [below] at hval
        simp [hval]
        rfl
      | succ i =>
        have hprev : desc.perm[i]? = some desc.perm[i] := List.getElem?_eq_getElem (by omega)
        have hprevMem := List.mem_of_getElem? hprev
        have hbelow : below desc.elemSize (desc.layout strides desc.perm) (i + 1) =
            strides.val desc.perm[i] * desc.dims.val desc.perm[i] := by
          rw [below, DataDesc.layout, List.getElem?_map, hprev]
          rfl
        rw [hbelow] at hval hfit
        have hgetPrev : strides.get desc.perm[i] = .ok (strides.val desc.perm[i]) :=
          DimValues.get_ok (DataDesc.mem_perm_range hprevMem) (DimValues.some_val (hsome _ hprevMem))
        rw [if_neg (Nat.succ_ne_zero i), Nat.add_sub_cancel, DataDesc.permAt_ok hprev, ok_bind, hgetPrev,
          ok_bind, DataDesc.dim_ok hprevMem, ok_bind, intArith_ok hfit, ok_bind, hval]
        simp
        rfl
    | Aligned =>
      have hval := haligned hreq
      have hmod : (strides.val d).tmod STRIDE_ALIGNMENT = 0 :=
        Int.tmod_eq_zero_of_dvd (Int.dvd_of_emod_eq_zero hval)
      simp [hmod]
      rfl
    | Fixed =>
      have hgetFixed := DimValues.get_ok (DataDesc.mem_perm_range hmem) (hfixed hreq)
      simp only [hgetFixed, ok_bind, decide_true]
      rfl

theorem checkStridesLoop_ok {strides : DimValues} {l : List Nat}
    (h : ∀ i ∈ l, checkStride strides desc i reqs = .ok true) : checkStridesLoop desc strides reqs l = .ok true := by
  induction l with
  | nil => rfl
  | cons i l ih =>
    rw [checkStridesLoop, h i List.mem_cons_self, ok_bind, if_pos rfl]
    exact ih fun j hj => h j (List.mem_cons_of_mem _ hj)

theorem checkStrides_ok {strides : DimValues} (hperm : desc.perm ≠ [])
    (h : ∀ i < desc.perm.length, checkStride strides desc i reqs = .ok true) :
    checkStrides desc strides reqs = .ok true :=
  ieAssert_bind_ok_iff.mpr ⟨hperm, checkStridesLoop_ok fun i hi => h i (List.mem_range.mp hi)⟩

theorem fitsInt_below {layout : List (Int × Int)} (hfit : AllFit layout) (hi : i ≤ layout.length) :
    FitsInt (below desc.elemSize layout i) := by
  cases i with
  | zero => exact desc.fitsInt_elemSize
  | succ i =>
    have hget : layout[i]? = some layout[i] := List.getElem?_eq_getElem (by omega)
    rw [below, hget]
    exact (hfit _ (List.getElem_mem _)).2

theorem checkStrides_chain {strides : DimValues} (hfree : ∀ i, reqs.map i ≠ .Fixed) (hperm : desc.perm ≠ [])
    (hsome : ∀ d ∈ desc.perm, (strides d).isSome)
    (hlayout : desc.layout strides desc.perm = chain reqs 0 desc.elemSize (desc.perm.map desc.dims.val))
    (hfit : AllFit (desc.layout strides desc.perm)) : checkStrides desc strides reqs = .ok true := by
  refine checkStrides_ok hperm fun i hi => ?_
  have hd : desc.perm[i]? = some desc.perm[i] := List.getElem?_eq_getElem hi
  have hstride : strides.val desc.perm[i] =
      strideAt reqs i (below desc.elemSize (desc.layout strides desc.perm) i) := by
    have hget : (desc.layout strides desc.perm)[i]? =
        some (strides.val desc.perm[i], desc.dims.val desc.perm[i]) := by
      rw [DataDesc.layout, List.getElem?_map, hd]
      rfl
    rw [hlayout] at hget ⊢
    have hchain := chain_getElem? hget
    rwa [Nat.zero_add] at hchain
  have hlen : i ≤ (desc.layout strides desc.perm).length := by
    rw [DataDesc.layout, List.length_map]
    omega
  refine checkStride_ok hd hsome (fitsInt_below hfit hlen) (fun hcompact => ?_) (fun haligned => ?_)
    fun hfixed => absurd hfixed (hfree i)
  · rw [hstride, strideAt, if_neg (by rw [hcompact]; decide)]
  · rw [hstride, strideAt, if_pos haligned, alignUp]
    omega

theorem calcTotalByteSize_ok {strides : DimValues} (hperm : desc.perm ≠ [])
    (hsome : ∀ d ∈ desc.perm, (strides d).isSome) (hfit : AllFit (desc.layout strides desc.perm)) :
    calcTotalByteSize desc strides =
      .ok (Strides.extent desc.elemSize (desc.layout strides desc.perm)) := by
  have hlast := List.getLast?_eq_some_getLast hperm
  have hmem := List.getLast_mem hperm
  have hlayout : (desc.layout strides desc.perm).getLast? =
      some (strides.val (desc.perm.getLast hperm), desc.dims.val (desc.perm.getLast hperm)) := by
    rw [DataDesc.layout, List.getLast?_map, hlast]
    rfl
  have hfitLast := (hfit _ (List.mem_of_getLast? hlayout)).2
  have hget : strides.get (desc.perm.getLast hperm) = .ok (strides.val (desc.perm.getLast hperm)) :=
    DimValues.get_ok (DataDesc.mem_perm_range hmem) (DimValues.some_val (hsome _ hmem))
  rw [calcTotalByteSize, hlast, Strides.extent_getLast? hlayout]
  simp only [hget, ok_bind, DataDesc.dim_ok hmem]
  exact intArith_ok hfitLast

end

/-! ### Fixed strides nest -/

namespace StridesRequirement

variable {desc : DataDesc} {reqs : StridesRequirement} {fixedStrides fixedStrides' : DimValues} {d : Dim}
  {strides : List Int} {done rest : List Dim} {val : Int}

theorem permAt_ok_iff {i : Nat} (h : desc.permAt i = .ok d) : desc.perm[i]? = some d := by
  unfold DataDesc.permAt elemAt at h
  rw [if_pos (by omega), Int.toNat_natCast] at h
  split at h
  · rename_i d' hd'
    rw [hd', Except.ok.inj h]
  · cases h

theorem dim_ok_iff {n : Int} (h : desc.dim d = .ok n) : desc.dims.val d = n :=
  DimValues.val_of_some (DimValues.get_ok_iff h)

/-- `minStrideVal` of the next dim is the extent of the dims that have their strides. -/
theorem minStrideVal_eq (h : minStrideVal desc fixedStrides done.length = .ok val)
    (hperm : desc.perm = done ++ d :: rest) :
    val = Strides.extent desc.elemSize (desc.layout fixedStrides done) := by
  rcases List.eq_nil_or_concat done with rfl | ⟨init, prev, rfl⟩
  · exact (pure_ok_iff.mp h).symm
  · rw [minStrideVal, if_neg (by simp)] at h
    obtain ⟨e, he, hrest⟩ := bind_ok_iff.mp h
    obtain ⟨s, hs, hrest⟩ := bind_ok_iff.mp hrest
    obtain ⟨n, hn, hmul⟩ := bind_ok_iff.mp hrest
    have hprev : e = prev := by
      have hget := permAt_ok_iff he
      rw [hperm] at hget
      simpa using hget.symm
    subst hprev
    obtain ⟨-, hval⟩ := intArith_ok_iff.mp hmul
    rw [List.concat_eq_append, DataDesc.layout, List.map_append, List.map_singleton, Strides.extent_append,
      DimValues.val_of_some (DimValues.get_ok_iff hs), dim_ok_iff hn, hval]

/-- `fixed` gives every dim a stride that is at least what lies below it: induction on the dims that are
left, `done` have theirs. -/
theorem fixedLoop_nested (h : fixedLoop strides desc rest fixedStrides = .ok fixedStrides')
    (hperm : desc.perm = done ++ rest) (hsome : ∀ d ∈ done, (fixedStrides d).isSome)
    (hnested : Strides.Nested desc.elemSize (desc.layout fixedStrides done)) :
    (∀ d ∈ desc.perm, (fixedStrides' d).isSome) ∧
      Strides.Nested desc.elemSize (desc.layout fixedStrides' desc.perm) := by
  induction rest generalizing done fixedStrides with
  | nil =>
    rw [List.append_nil] at hperm
    obtain rfl := pure_ok_iff.mp h
    rw [hperm]
    exact ⟨hsome, hnested⟩
  | cons d rest ih =>
    rw [fixedLoop] at h
    obtain ⟨idx, -, h⟩ := bind_ok_iff.mp h
    obtain ⟨val, -, h⟩ := bind_ok_iff.mp h
    obtain ⟨next, hset, h⟩ := bind_ok_iff.mp h
    obtain ⟨-, hset⟩ := ieAssert_bind_ok_iff.mp hset
    obtain ⟨pos, hpos, hset⟩ := bind_ok_iff.mp hset
    obtain ⟨min, hmin, hset⟩ := bind_ok_iff.mp hset
    obtain ⟨hle, hset⟩ := ieAssert_bind_ok_iff.mp hset
    obtain rfl := DimValues.set_ok_iff hset
    have hnot : d ∉ done := by
      have hnodup : (done ++ d :: rest).Nodup := hperm ▸ desc.nodup
      exact fun hd => (List.nodup_append.mp hnodup).2.2 d hd d List.mem_cons_self rfl
    have hidx : pos = done.length := by
      have hget := (DimsOrder.dimInd_ok_iff_getElem? desc.nodup).mp hpos
      have hthis : desc.perm[done.length]? = some d := by
        rw [hperm]
        simp
      have hlen : done.length < desc.perm.length := (List.getElem?_eq_some_iff.mp hthis).1
      exact ((List.getElem?_inj hlen desc.nodup).mp (hthis.trans hget.symm)).symm
    rw [hidx] at hmin
    have hextent := minStrideVal_eq hmin hperm
    have hsame : ∀ e ∈ done, Function.update fixedStrides d (some val) e = fixedStrides e := by
      intro e he
      refine Function.update_of_ne (fun heq => hnot ?_) ..
      rwa [← heq]
    have hlayout : desc.layout _ done = desc.layout fixedStrides done := DataDesc.layout_congr hsame
    have hperm' : desc.perm = (done ++ [d]) ++ rest := by
      rw [hperm, List.append_assoc, List.singleton_append]
    refine ih h hperm' (fun e he => ?_) ?_
    · rcases List.mem_append.mp he with he | he
      · rw [hsame e he]
        exact hsome e he
      · rw [List.mem_singleton.mp he, Function.update_self]
        rfl
    · have hval : DimValues.val (Function.update fixedStrides d (some val)) d = val :=
        DimValues.val_of_some (Function.update_self ..)
      have happ : desc.layout (Function.update fixedStrides d (some val)) (done ++ [d]) =
          desc.layout fixedStrides done ++ [(val, desc.dims.val d)] := by
        rw [← hlayout, DataDesc.layout, List.map_append, List.map_singleton, hval, DataDesc.layout]
      rw [happ]
      refine hnested.append ?_
      rw [← hextent]
      exact hle

theorem fixed_spec (h : fixed strides desc = .ok reqs) :
    (∀ i, reqs.map i = .Fixed) ∧ (∀ d ∈ desc.perm, (reqs.fixedStrides d).isSome) ∧
      Strides.Nested desc.elemSize (desc.layout reqs.fixedStrides desc.perm) := by
  obtain ⟨fixedStrides, hloop, h⟩ := bind_ok_iff.mp h
  obtain rfl := pure_ok_iff.mp h
  have hnil : desc.perm = [] ++ desc.perm := rfl
  have hspec := fixedLoop_nested hloop hnil (by simp) trivial
  exact ⟨fun _ => rfl, hspec.1, hspec.2⟩

end StridesRequirement

section

variable {desc : DataDesc} {reqs : StridesRequirement} {strides coord : DimValues}

theorem checkStrides_fixed (hfixed : ∀ i, reqs.map i = .Fixed) (hperm : desc.perm ≠ [])
    (hsome : ∀ d ∈ desc.perm, (reqs.fixedStrides d).isSome)
    (hfit : AllFit (desc.layout reqs.fixedStrides desc.perm)) :
    checkStrides desc reqs.fixedStrides reqs = .ok true := by
  refine checkStrides_ok hperm fun i hi => ?_
  have hd : desc.perm[i]? = some desc.perm[i] := List.getElem?_eq_getElem hi
  have hlen : i ≤ (desc.layout reqs.fixedStrides desc.perm).length := by
    rw [DataDesc.layout, List.length_map]
    omega
  refine checkStride_ok hd hsome (fitsInt_below hfit hlen) (fun h => ?_) (fun h => ?_)
    fun _ => DimValues.some_val (hsome _ (List.getElem_mem hi))
  · rw [hfixed i] at h
    cases h
  · rw [hfixed i] at h
    cases h

/-! ### Elements lie apart -/

/-- A coordinate of an element: a position inside the dim for every dim of the description. -/
structure DataDesc.Inside (desc : DataDesc) (coord : DimValues) : Prop where
  isSome_iff : ∀ d, (coord d).isSome ↔ d ∈ desc.perm
  inside : ∀ d ∈ desc.perm, 0 ≤ coord.val d ∧ coord.val d < desc.dims.val d

/-- The bytes in front of an element. -/
def DataDesc.byteOffset (desc : DataDesc) (strides coord : DimValues) : Int :=
  Strides.offset (desc.layout strides desc.perm) (desc.perm.map coord.val)

theorem DataDesc.Inside.forall₂ (h : desc.Inside coord) :
    Strides.Inside (desc.layout strides desc.perm) (desc.perm.map coord.val) := by
  unfold Strides.Inside DataDesc.layout
  rw [List.forall₂_map_left_iff, List.forall₂_map_right_iff, List.forall₂_same]
  exact h.inside

theorem DataDesc.Inside.map_ne {coord' : DimValues} (h : desc.Inside coord) (h' : desc.Inside coord')
    (hne : coord ≠ coord') : desc.perm.map coord.val ≠ desc.perm.map coord'.val := by
  intro hmap
  refine hne (funext fun d => ?_)
  by_cases hd : d ∈ desc.perm
  · have hval : coord.val d = coord'.val d := List.map_inj_left.mp hmap d hd
    rw [DimValues.some_val ((h.isSome_iff d).mpr hd), DimValues.some_val ((h'.isSome_iff d).mpr hd), hval]
  · have hnone := mt (h.isSome_iff d).mp hd
    have hnone' := mt (h'.isSome_iff d).mp hd
    rw [Option.not_isSome_iff_eq_none] at hnone hnone'
    rw [hnone, hnone']

theorem DataDesc.byteOffset_eq_sum (desc : DataDesc) (strides coord : DimValues) :
    desc.byteOffset strides coord = (desc.perm.map fun d => coord.val d * strides.val d).sum :=
  Strides.offset_eq_sum _ _ _ _

/-- The dims in the order in which `elemOffset` visits them add up to the same bytes. -/
theorem DataDesc.Inside.sum_range (h : desc.Inside coord) (strides : DimValues) :
    ((List.range MAX_DIMS_64).map fun ind : Nat => coord.val ind * strides.val ind).sum =
      desc.byteOffset strides coord := by
  have hsub : desc.perm ⊆ (List.range MAX_DIMS_64).map fun ind : Nat => (ind : Int) := by
    intro d hd
    obtain ⟨hnonneg, hlt⟩ : (0 : Int) ≤ d ∧ d < (15 : Int) := DataDesc.mem_perm_range hd
    exact List.mem_map.mpr ⟨d.toNat, List.mem_range.mpr ((Int.toNat_lt hnonneg).mpr hlt), Int.toNat_of_nonneg hnonneg⟩
  have hnodup : ((List.range MAX_DIMS_64).map fun ind : Nat => (ind : Int)).Nodup :=
    (List.nodup_map_iff fun a b hab => Int.natCast_inj.mp hab).mpr List.nodup_range
  obtain ⟨dims, hdims, hsublist⟩ := desc.nodup.subperm hsub
  obtain ⟨rest, hrest⟩ := hsublist.exists_perm_append
  have hperm := hrest.trans (hdims.append_right rest)
  have hzero : ∀ d ∈ rest, coord.val d * strides.val d = 0 := by
    intro d hd
    have happ := (hperm.nodup_iff.mp hnodup)
    have hnot : d ∉ desc.perm := fun hmem => (List.nodup_append.mp happ).2.2 d hmem d hd rfl
    have hnone := mt (h.isSome_iff d).mp hnot
    rw [Option.not_isSome_iff_eq_none] at hnone
    rw [DimValues.val, hnone, Option.getD_none, zero_mul]
  have hsum := (hperm.map fun d => coord.val d * strides.val d).sum_eq
  rw [List.map_map, List.map_append, List.sum_append,
    List.sum_eq_zero (l := rest.map fun d => coord.val d * strides.val d) (by simpa using hzero),
    add_zero] at hsum
  rw [DataDesc.byteOffset_eq_sum]
  exact hsum

theorem elemOffsetStep_ok {res : Int} {ind : Nat} (h : desc.Inside coord)
    (hsome : ∀ d ∈ desc.perm, (strides d).isSome) (hfit : FitsInt (coord.val ind * strides.val ind))
    (hfit' : FitsInt (res + coord.val ind * strides.val ind)) :
    elemOffsetStep desc strides coord res ind = .ok (res + coord.val ind * strides.val ind) := by
  unfold elemOffsetStep
  split
  · rename_i hnone
    rw [DimValues.val, hnone, Option.getD_none, zero_mul, add_zero]
    rfl
  · rename_i pos hpos
    have hmem : (ind : Int) ∈ desc.perm := (h.isSome_iff ind).mp (by rw [hpos]; rfl)
    have hval : coord.val ind = pos := DimValues.val_of_some hpos
    have hget : strides.get ind = .ok (strides.val ind) :=
      DimValues.get_ok (DataDesc.mem_perm_range hmem) (DimValues.some_val (hsome _ hmem))
    rw [hval] at hfit hfit' ⊢
    refine ieAssert_bind_ok_iff.mpr ⟨DimsOrder.hasDim_iff.mpr hmem, ?_⟩
    rw [DataDesc.dim_ok hmem, ok_bind]
    refine ieAssert_bind_ok_iff.mpr ⟨hval ▸ (h.inside _ hmem).2, ?_⟩
    rw [hget, ok_bind, intArith_ok hfit, ok_bind, intArith_ok hfit']

/-- The loop of `elemOffset`: nothing is negative, so no sum on the way is larger than the last one. -/
theorem foldlM_elemOffsetStep {l : List Nat} {res : Int} (h : desc.Inside coord)
    (hsome : ∀ d ∈ desc.perm, (strides d).isSome) (hpos : ∀ ind : Nat, 0 ≤ coord.val ind * strides.val ind)
    (hres : 0 ≤ res) (hmax : FitsInt (res + (l.map fun ind : Nat => coord.val ind * strides.val ind).sum)) :
    l.foldlM (elemOffsetStep desc strides coord) res =
      .ok (res + (l.map fun ind : Nat => coord.val ind * strides.val ind).sum) := by
  induction l generalizing res with
  | nil =>
    rw [List.map_nil, List.sum_nil, add_zero]
    rfl
  | cons ind l ih =>
    rw [List.map_cons, List.sum_cons] at hmax ⊢
    have hterm := hpos ind
    have hrest : 0 ≤ (l.map fun ind : Nat => coord.val ind * strides.val ind).sum :=
      List.sum_nonneg (by simpa using fun ind _ => hpos ind)
    have hstep : elemOffsetStep desc strides coord res ind = .ok (res + coord.val ind * strides.val ind) := by
      refine elemOffsetStep_ok h hsome ?_ ?_ <;> unfold FitsInt at * <;> omega
    rw [List.foldlM_cons, hstep, ok_bind, ih (by omega) (by rwa [add_assoc]), add_assoc]

theorem elemOffset_ok (h : desc.Inside coord) (hsome : ∀ d ∈ desc.perm, (strides d).isSome)
    (hnested : Strides.Nested desc.elemSize (desc.layout strides desc.perm))
    (hfit : FitsInt (desc.byteOffset strides coord)) :
    elemOffset desc strides coord = .ok (desc.byteOffset strides coord) := by
  have hpos : ∀ ind : Nat, 0 ≤ coord.val ind * strides.val ind := by
    intro ind
    by_cases hmem : (ind : Int) ∈ desc.perm
    · have hstride := Strides.stride_pos desc.elemSize_pos hnested h.forall₂ (strides.val ind, desc.dims.val ind)
        (List.mem_map_of_mem (f := fun d => (strides.val d, desc.dims.val d)) hmem)
      exact mul_nonneg (h.inside _ hmem).1 hstride.le
    · have hnone := mt (h.isSome_iff ind).mp hmem
      rw [Option.not_isSome_iff_eq_none] at hnone
      rw [DimValues.val, hnone, Option.getD_none, zero_mul]
  have hmax : FitsInt (0 + ((List.range MAX_DIMS_64).map fun ind : Nat => coord.val ind * strides.val ind).sum) := by
    rwa [zero_add, h.sum_range strides]
  have hfold := foldlM_elemOffsetStep h hsome hpos le_rfl hmax
  rwa [zero_add, h.sum_range strides] at hfold

/-! ### What strides are for -/

/-- The requirements that are used: entries other than `Fixed`, or what `fixed` makes for the description. -/
def StridesRequirement.Of (desc : DataDesc) (reqs : StridesRequirement) : Prop :=
  (∀ i, reqs.map i ≠ .Fixed) ∧ reqs.fixedStrides.empty = true ∨
    ∃ strides, StridesRequirement.fixed strides desc = .ok reqs

/-- The strides that `calcStrides` aims at, in numbers that cannot overflow, with the dims. -/
def DataDesc.exactLayout (desc : DataDesc) (reqs : StridesRequirement) : List (Int × Int) :=
  if reqs.fixedStrides.empty then chain reqs 0 desc.elemSize (desc.perm.map desc.dims.val)
  else desc.layout reqs.fixedStrides desc.perm

theorem calcStrides_layout (hreqs : reqs.Of desc) (hperm : desc.perm ≠ [])
    (hfit : AllFit (desc.exactLayout reqs)) :
    ∃ strides, calcStrides desc reqs = .ok strides ∧ checkStrides desc strides reqs = .ok true ∧
      (∀ d ∈ desc.perm, (strides d).isSome) ∧ AllFit (desc.layout strides desc.perm) ∧
      Strides.Nested desc.elemSize (desc.layout strides desc.perm) := by
  rcases hreqs with ⟨hfree, hempty⟩ | ⟨fixedStrides, hfixed⟩
  · rw [DataDesc.exactLayout, if_pos hempty] at hfit
    obtain ⟨strides, hcalc, hsome, hlayout⟩ := calcStrides_chain hfree hempty hperm hfit
    rw [← hlayout] at hfit
    exact ⟨strides, hcalc, checkStrides_chain hfree hperm hsome hlayout hfit, hsome, hfit,
      hlayout ▸ nested_chain reqs 0 desc.elemSize _⟩
  · obtain ⟨hall, hsome, hnested⟩ := StridesRequirement.fixed_spec hfixed
    obtain ⟨d, rest, hcons⟩ := List.exists_cons_of_ne_nil hperm
    have hd : d ∈ desc.perm := hcons ▸ List.mem_cons_self
    have hempty := DimValues.empty_eq_false (DataDesc.mem_perm_range hd) (hsome d hd)
    rw [DataDesc.exactLayout, if_neg (by rw [hempty]; decide)] at hfit
    refine ⟨reqs.fixedStrides, ?_, checkStrides_fixed hall hperm hsome hfit, hsome, hfit, hnested⟩
    rw [calcStrides, if_neg (by rw [hempty]; decide)]
    exact ieAssert_bind_ok_iff.mpr ⟨hperm, rfl⟩

/-- **Strides**: what `calcStrides` computes passes `checkStrides`, and under it the elements of the
description lie apart and inside `calcTotalByteSize`, if every stride and every stride times its dim is an
`int`. -/
theorem calcStrides_meetsRequirement (desc : DataDesc) (reqs : StridesRequirement) (hreqs : reqs.Of desc)
    (hperm : desc.perm ≠ []) (hfit : AllFit (desc.exactLayout reqs)) :
    ∃ strides total, calcStrides desc reqs = .ok strides ∧ checkStrides desc strides reqs = .ok true ∧
      calcTotalByteSize desc strides = .ok total ∧
      (∀ coord, desc.Inside coord → ∃ byte, elemOffset desc strides coord = .ok byte ∧
        0 ≤ byte ∧ byte + desc.elemSize ≤ total) ∧
      ∀ coord coord' byte byte', desc.Inside coord → desc.Inside coord' → coord ≠ coord' →
        elemOffset desc strides coord = .ok byte → elemOffset desc strides coord' = .ok byte' →
        byte + desc.elemSize ≤ byte' ∨ byte' + desc.elemSize ≤ byte := by
  obtain ⟨strides, hcalc, hcheck, hsome, hfit', hnested⟩ := calcStrides_layout hreqs hperm hfit
  have htotal := calcTotalByteSize_ok hperm hsome hfit'
  have hfitTotal : FitsInt (Strides.extent desc.elemSize (desc.layout strides desc.perm)) := by
    unfold calcTotalByteSize at htotal
    rw [List.getLast?_eq_some_getLast hperm] at htotal
    obtain ⟨s, -, htotal⟩ := bind_ok_iff.mp htotal
    obtain ⟨n, -, htotal⟩ := bind_ok_iff.mp htotal
    obtain ⟨hfits, heq⟩ := intArith_ok_iff.mp htotal
    rwa [heq] at hfits
  have hbyte : ∀ coord, desc.Inside coord →
      elemOffset desc strides coord = .ok (desc.byteOffset strides coord) ∧
        0 ≤ desc.byteOffset strides coord ∧ desc.byteOffset strides coord + desc.elemSize ≤
          Strides.extent desc.elemSize (desc.layout strides desc.perm) := by
    intro coord hcoord
    obtain ⟨hnonneg, hend⟩ := Strides.offset_extent desc.elemSize_pos hnested hcoord.forall₂
    have hpos := desc.elemSize_pos
    refine ⟨elemOffset_ok hcoord hsome hnested ?_, hnonneg, hend⟩
    unfold DataDesc.byteOffset FitsInt at *
    omega
  refine ⟨strides, _, hcalc, hcheck, htotal, fun coord hcoord => ⟨_, hbyte coord hcoord⟩, ?_⟩
  intro coord coord' byte byte' hcoord hcoord' hne hcoordByte hcoordByte'
  rw [(hbyte coord hcoord).1] at hcoordByte
  rw [(hbyte coord' hcoord').1] at hcoordByte'
  obtain rfl := Except.ok.inj hcoordByte
  obtain rfl := Except.ok.inj hcoordByte'
  exact Strides.offset_apart desc.elemSize_pos hnested hcoord.forall₂ hcoord'.forall₂
    (hcoord.map_ne hcoord' hne)

end

/-- An order of three dims with their sizes. -/
def chw (w h c : Int) : DataDesc where
  type := .FP16
  dimsOrder := ⟨0x321⟩
  dims d := if d = 0 then some w else if d = 1 then some h else if d = 2 then some c else none
  nodup := by decide
  isSome_iff d := by
    have hperm : DimsOrder.toPermutation ⟨0x321⟩ = [0, 1, 2] := by decide
    rw [hperm, List.mem_cons, List.mem_cons, List.mem_singleton]
    split_ifs <;> simp_all

/-- Rows start at multiples of sixteen bytes, all else is packed. -/
def alignedRows : StridesRequirement where
  map i := if i = 1 then .Aligned else .Compact

/-- A plane of 3 by 5 elements in two channels; its strides can be fixed. -/
theorem calcStrides_meetsRequirement_alignedRows :
    (∃ strides, calcStrides (chw 5 3 2) alignedRows = .ok strides ∧
      checkStrides (chw 5 3 2) strides alignedRows = .ok true) ∧
      (StridesRequirement.fixed [48, 16, 2] (chw 5 3 2)).toOption.isSome = true := by
  have hfree : ∀ i, alignedRows.map i ≠ .Fixed := by
    intro i
    unfold alignedRows
    simp only
    split_ifs <;> decide
  have hfit : AllFit ((chw 5 3 2).exactLayout alignedRows) := by
    unfold AllFit
    decide
  obtain ⟨strides, total, hcalc, hcheck, -⟩ :=
    calcStrides_meetsRequirement (chw 5 3 2) alignedRows (.inl ⟨hfree, by decide⟩) (by decide) hfit
  exact ⟨⟨strides, hcalc, hcheck⟩, by decide⟩

/-- The default description. -/
def noDims : DataDesc where
  type := .FP16
  dimsOrder := ⟨0⟩
  dims _ := none
  nodup := by decide
  isSome_iff d := by
    have hperm : DimsOrder.toPermutation ⟨0⟩ = [] := by decide
    rw [hperm]
    simp

/-- Without dims there is nothing to compute, and the planes of large rows are not counted by an `int`. -/
theorem calcStrides_throws :
    calcStrides noDims alignedRows = .error (.assertionFailed "!perm.empty()") ∧
      calcStrides (chw 65536 65536 2) alignedRows =
        .error (.undefinedBehaviour "strides[perm[i - 1]] * desc.dim(perm[i - 1])") :=
  ⟨rfl, rfl⟩

end OpenVino.Vpu
