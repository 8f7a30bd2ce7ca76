import OpenVino.InferenceEngine.ShapeInfer.ConstInfer.StridedSliceAgree

/-!
# The usual slice

`Slice` is the slice `begin : end : stride` of one axis: bounds below zero are counted from the end, bounds out of range
are clipped, and a bound that is not there is open. Without ellipsis, new and shrunk axes the constructor of
`StridedSliceHelper` and the plain loop select these elements exactly if the lengths survive their computation in `float`
and the indices fit in an `int` (`sliced_iff`).
-/

namespace OpenVino.InferenceEngine.ShapeInfer.StridedSliceHelper

open BroadcastConstInfer

/-! ### Slices -/

structure Slice where
  dim : Nat
  begin_ : Option Int
  end_ : Option Int
  stride : Int
deriving DecidableEq

namespace Slice

variable {s : Slice} {k : Nat}

/-- A bound below zero is counted from the end. -/
def counted (s : Slice) (x : Int) : Int := if x < 0 then s.dim + x else x

/-- The first position. -/
def first (s : Slice) : Int :=
  if 0 < s.stride then s.begin_.elim 0 fun x => max 0 (min (s.counted x) s.dim)
  else s.begin_.elim (s.dim - 1) fun x => max (-1) (min (s.counted x) (s.dim - 1))

/-- The position in front of which the slice ends. -/
def stop (s : Slice) : Int :=
  if 0 < s.stride then s.end_.elim s.dim fun x => max 0 (min (s.counted x) s.dim)
  else s.end_.elim (-1) fun x => max (-1) (min (s.counted x) (s.dim - 1))

/-- The number of positions. -/
def count (s : Slice) : Nat :=
  if 0 < s.stride then ((s.stop - s.first + s.stride - 1) / s.stride).toNat
  else ((s.first - s.stop - s.stride - 1) / -s.stride).toNat

def position (s : Slice) (k : Nat) : Int := s.first + k * s.stride

/-- The farthest position that may be selected. -/
def last (s : Slice) : Int := if 0 < s.stride then s.stop - 1 else s.stop + 1

theorem elim_mem {o : Option Int} {low high d : Int} {f : Int → Int} (hd : low ≤ d ∧ d ≤ high)
    (hf : ∀ x, low ≤ f x ∧ f x ≤ high) : low ≤ o.elim d f ∧ o.elim d f ≤ high := by
  cases o with
  | none => exact hd
  | some x => exact hf x

theorem forward_mem (hs : 0 < s.stride) : (0 ≤ s.first ∧ s.first ≤ s.dim) ∧ 0 ≤ s.stop ∧ s.stop ≤ s.dim := by
  rw [first, stop, if_pos hs, if_pos hs]
  exact ⟨elim_mem (by omega) fun x => by omega, elim_mem (by omega) fun x => by omega⟩

theorem backward_mem (hs : ¬0 < s.stride) :
    (-1 ≤ s.first ∧ s.first ≤ s.dim - 1) ∧ -1 ≤ s.stop ∧ s.stop ≤ s.dim - 1 := by
  rw [first, stop, if_neg hs, if_neg hs]
  exact ⟨elim_mem (by omega) fun x => by omega, elim_mem (by omega) fun x => by omega⟩

/-- A slice that is not empty has its ends in the axis, in the order of its stride. -/
structure Spans (s : Slice) : Prop where
  first : 0 ≤ s.first ∧ s.first < s.dim
  last : 0 ≤ s.last ∧ s.last < s.dim
  order : (0 < s.stride ∧ s.first ≤ s.last) ∨ (s.stride < 0 ∧ s.last ≤ s.first)

theorem spans_of_count_pos (hs : s.stride ≠ 0) (hcount : 0 < s.count) : s.Spans := by
  by_cases hsign : 0 < s.stride
  · obtain ⟨hfirst, hstop⟩ := forward_mem hsign
    rw [count, if_pos hsign] at hcount
    have hlt : s.first < s.stop := by
      by_contra hle
      have hdiv := Int.ediv_lt_of_lt_mul (a := s.stop - s.first + s.stride - 1) (b := 1) hsign (by omega)
      omega
    have hlast : s.last = s.stop - 1 := if_pos hsign
    exact ⟨by omega, by omega, .inl ⟨hsign, by omega⟩⟩
  · obtain ⟨hfirst, hstop⟩ := backward_mem hsign
    rw [count, if_neg hsign] at hcount
    have hlt : s.stop < s.first := by
      by_contra hle
      have hdiv := Int.ediv_lt_of_lt_mul (a := s.first - s.stop - s.stride - 1) (b := 1) (c := -s.stride) (by omega)
        (by omega)
      omega
    have hlast : s.last = s.stop + 1 := if_neg hsign
    exact ⟨by omega, by omega, .inr ⟨by omega, by omega⟩⟩

/-- The distance between the ends, divided by the length of the stride and rounded up. -/
theorem Spans.count_eq (h : s.Spans) :
    s.count = ((s.last - s.first).natAbs + 1 + s.stride.natAbs - 1) / s.stride.natAbs := by
  obtain ⟨hsign, horder⟩ | ⟨hsign, horder⟩ := h.order
  · have hlast : s.last = s.stop - 1 := if_pos hsign
    rw [count, if_pos hsign]
    zify
    rw [Int.toNat_of_nonneg (Int.ediv_nonneg (by omega) hsign.le), Nat.cast_sub (by omega)]
    push_cast
    rw [abs_of_pos hsign, abs_of_nonneg (by omega)]
    congr 1
    omega
  · have hlast : s.last = s.stop + 1 := if_neg (by omega)
    rw [count, if_neg (by omega)]
    zify
    rw [Int.toNat_of_nonneg (Int.ediv_nonneg (by omega) (by omega)), Nat.cast_sub (by omega)]
    push_cast
    rw [abs_of_neg hsign, abs_of_nonpos (by omega)]
    congr 1
    omega

/-- Every selected position lies in the axis. -/
theorem Spans.position_mem (h : s.Spans) (hk : k < s.count) : 0 ≤ s.position k ∧ s.position k < s.dim := by
  have hstride : 0 < s.stride.natAbs := by
    rcases h.order with ⟨hsign, -⟩ | ⟨hsign, -⟩ <;> omega
  have hle : k * s.stride.natAbs ≤ (s.last - s.first).natAbs := by
    rw [h.count_eq, Nat.lt_div_iff_mul_lt hstride] at hk
    omega
  obtain ⟨hfirst, hfirst'⟩ := h.first
  obtain ⟨hlast, hlast'⟩ := h.last
  zify at hle
  rw [position]
  obtain ⟨hsign, horder⟩ | ⟨hsign, horder⟩ := h.order
  · rw [abs_of_pos hsign, abs_of_nonneg (by omega)] at hle
    have hnonneg : 0 ≤ (k : Int) * s.stride := mul_nonneg (Nat.cast_nonneg k) hsign.le
    omega
  · rw [abs_of_neg hsign, abs_of_nonpos (by omega), mul_neg] at hle
    have hnonpos : (k : Int) * s.stride ≤ 0 := mul_nonpos_of_nonneg_of_nonpos (Nat.cast_nonneg k) hsign.le
    omega

end Slice

/-! ### The bounds of the constructor -/

/-- A bound, counted from the end and clipped, of an axis whose size is an `int`. -/
def clipped (size x : Int) : Int := min (max (if x < 0 then size + x else x) 0) (size - 1)

theorem normalise_ok_iff {dim : Nat} {x y : Int} (hx : FitsInt x) :
    normalise dim x = .ok y ↔ toInt dim ≠ -2 ^ 31 ∧ clipped (toInt dim) x = y := by
  obtain ⟨hlow, hhigh⟩ := hx
  obtain ⟨hdim, hdim'⟩ := fitsInt_toInt dim
  have hadd : addDim dim x = wrapInt (toInt dim + x) := by
    unfold addDim toInt wrapInt
    rw [Int.bmod_add_bmod]
    exact toInt_toSizeT_eq
  unfold normalise clipping clipped
  by_cases hsize : 0 < toInt dim
  · have hidx : (if x ≥ 0 then x else addDim dim x) = if x < 0 then toInt dim + x else x := by
      split_ifs with hpos hneg hneg
      · omega
      · rfl
      · rw [hadd, wrapInt_of_fits ⟨by omega, by omega⟩]
      · omega
    have hlast : FitsInt (toInt dim - 1) := ⟨by omega, by omega⟩
    rw [hidx]
    generalize hz : (if x < 0 then toInt dim + x else x) = z
    dsimp only
    have hmax : (if z > 0 then z else 0) = max z 0 := by
      split_ifs <;> omega
    rw [hmax]
    by_cases hlt : max z 0 < toInt dim
    · rw [if_pos hlt, pure_ok_iff, min_eq_left (by omega)]
      exact ⟨fun h => ⟨by omega, h⟩, And.right⟩
    · rw [if_neg hlt, intArith_ok_iff, min_eq_right (by omega)]
      exact ⟨fun h => ⟨by omega, h.2⟩, fun h => ⟨hlast, h.2⟩⟩
  · generalize (if x ≥ 0 then x else addDim dim x) = z
    generalize (if x < 0 then toInt dim + x else x) = z'
    have hpos : ¬(if z > 0 then z else 0) < toInt dim := by
      split_ifs <;> omega
    dsimp only
    rw [if_neg hpos, intArith_ok_iff, min_eq_right (by omega)]
    constructor
    · rintro ⟨⟨hfits, -⟩, rfl⟩
      exact ⟨by omega, rfl⟩
    · rintro ⟨hne, rfl⟩
      exact ⟨⟨by omega, by omega⟩, rfl⟩

namespace Slice

variable {s : Slice} {n : Nat}

/-- The bounds that the constructor normalises: the end as the last position. -/
def rawBegin (s : Slice) : Int := s.begin_.getD (openBegin s.stride)

def rawEnd (s : Slice) : Int := s.end_.elim (openEnd s.stride) fun e => if 0 < s.stride then e - 1 else e + 1

/-- What it makes of them. -/
def dms (s : Slice) : Dms where
  begin_dms := clipped (toInt s.dim) s.rawBegin
  end_dms := clipped (toInt s.dim) s.rawEnd
  stride_dms := s.stride

theorem Spans.clipped_rawBegin (h : s.Spans) : clipped s.dim s.rawBegin = s.first := by
  have hfirst := h.first
  have horder := h.order
  unfold clipped rawBegin openBegin
  rw [Slice.first] at hfirst ⊢
  simp only [counted] at hfirst ⊢
  cases hbegin : s.begin_ with
  | none =>
    simp only [hbegin, Option.getD_none, Option.elim_none] at hfirst ⊢
    split_ifs at hfirst ⊢ <;> omega
  | some b =>
    simp only [hbegin, Option.getD_some, Option.elim_some] at hfirst ⊢
    split_ifs at hfirst ⊢ <;> omega

theorem Spans.clipped_rawEnd (h : s.Spans) : clipped s.dim s.rawEnd = s.last := by
  have hfirst := h.first
  have hlast := h.last
  have horder := h.order
  unfold clipped rawEnd openEnd
  rw [Slice.last, stop] at hlast horder ⊢
  simp only [counted] at hlast horder ⊢
  cases hend : s.end_ with
  | none =>
    simp only [hend, Option.elim_none] at hlast horder ⊢
    split_ifs at hlast horder ⊢ <;> omega
  | some e =>
    simp only [hend, Option.elim_some] at hlast horder ⊢
    split_ifs at hlast horder ⊢ <;> omega

/-- With a size below `2 ^ 31` these are the ends of the usual slice. -/
theorem Spans.dms_eq (h : s.Spans) (hdim : s.dim < 2 ^ 31) : s.dms = ⟨s.first, s.last, s.stride⟩ := by
  rw [dms, toInt_of_lt hdim, h.clipped_rawBegin, h.clipped_rawEnd]

end Slice

/-! ### The axes -/

/-- What the inputs and masks say about the axes. -/
def slicesOf (dims : SizeVector) (begin_ end_ strides : List Int) (masks : Masks) : List Slice :=
  dims.mapIdx fun j dim => {
    dim
    begin_ := if masks.begin_mask[j]? = some 0 then none else begin_[j]?
    end_ := if masks.end_mask[j]? = some 0 then none else end_[j]?
    stride := (strides[j]?).getD 1 }

/-- The pointer points to these numbers. -/
structure Points (b : Bound) (xs : List Int) : Prop where
  has : ∀ n, b.has n = true ↔ n < xs.length
  element : ∀ {n : Nat} {x : Int}, xs[n]? = some x → b.elements[n]? = some x
  fits : ∀ x ∈ xs, FitsInt x

section Reads

variable {b : Bound} {xs : List Int} {mask : List Nat} {s : Int} {e : String} {i : Nat}

theorem Points.elemAt_eq (h : Points b xs) (hi : i < xs.length) : elemAt e b.elements i = .ok xs[i] :=
  elemAt_ok_iff.mpr ⟨Nat.cast_nonneg i, h.element (List.getElem?_eq_getElem hi)⟩

theorem Points.readBegin_eq (h : Points b xs) : readBegin b mask s i i =
    .ok ((if mask[i]? = some 0 then none else xs[i]?).getD (openBegin s)) := by
  unfold readBegin
  by_cases hmask : mask[i]? = some 0
  · rw [if_pos hmask, if_pos hmask]
    rfl
  · rw [if_neg hmask, if_neg hmask]
    by_cases hi : i < xs.length
    · rw [if_pos ((h.has i).mpr hi), h.elemAt_eq hi, List.getElem?_eq_getElem hi, Option.getD_some]
    · rw [if_neg fun hhas => hi ((h.has i).mp hhas), List.getElem?_eq_none (by omega), Option.getD_none]
      rfl

theorem Points.readEnd_ok_iff (h : Points b xs) {x : Int} : readEnd b mask s i i = .ok x ↔
    FitsInt x ∧ (if mask[i]? = some 0 then none else xs[i]?).elim (openEnd s)
      (fun e => if 0 < s then e - 1 else e + 1) = x := by
  have hopen : ∀ {x : Int}, (pure (openEnd s) : Result Int) = .ok x ↔ FitsInt x ∧ openEnd s = x := by
    intro x
    have hfits : FitsInt (openEnd s) := by
      unfold openEnd
      split_ifs <;> decide
    rw [pure_ok_iff]
    exact ⟨fun heq => ⟨heq ▸ hfits, heq⟩, And.right⟩
  unfold readEnd
  by_cases hmask : mask[i]? = some 0
  · rw [if_pos hmask, if_pos hmask]
    exact hopen
  · rw [if_neg hmask, if_neg hmask]
    by_cases hi : i < xs.length
    · rw [if_pos ((h.has i).mpr hi), h.elemAt_eq hi, ok_bind, List.getElem?_eq_getElem hi, Option.elim_some]
      split_ifs
      · rw [intArith_ok_iff]
        exact and_congr_left fun heq => heq ▸ Iff.rfl
      · rw [intArith_ok_iff]
        exact and_congr_left fun heq => heq ▸ Iff.rfl
    · rw [if_neg fun hhas => hi ((h.has i).mp hhas), List.getElem?_eq_none (by omega), Option.elim_none]
      exact hopen

theorem Points.readStride_eq (h : Points b xs) (hzero : 0 ∉ xs) : readStride b (min i xs.length) =
    .ok ((xs[i]?).getD 1, min (i + 1) xs.length) := by
  unfold readStride
  by_cases hi : i < xs.length
  · have hne : xs[i] ≠ 0 := fun heq => hzero (heq ▸ List.getElem_mem hi)
    rw [min_eq_left hi.le, if_pos ((h.has i).mpr hi), h.elemAt_eq hi, ok_bind, if_pos hne,
      List.getElem?_eq_getElem hi, Option.getD_some, min_eq_left (by omega)]
    rfl
  · rw [min_eq_right (by omega), if_neg fun hhas => lt_irrefl _ ((h.has _).mp hhas),
      List.getElem?_eq_none (by omega), Option.getD_none, min_eq_right (by omega)]
    rfl

end Reads

/-- A round of the constructor that returns, and the length it computes. -/
structure Rounds (s : Slice) (n : Nat) : Prop where
  dim : toInt s.dim ≠ -2 ^ 31
  bound : FitsInt s.rawEnd
  length : axisLength s.dms = .ok n

/-- What the rounds of these slices leave behind. -/
def stateOf (strides : List Int) (ss : List Slice) (ns : List Nat) : Axes where
  dms := ss.map Slice.dms
  out_dims := ns
  our_dims := ns
  j := ss.length
  k := ss.length
  bj := ss.length
  ej := ss.length
  sj := min ss.length strides.length

/-- No ellipsis, and no new or shrunk axis. -/
structure Plain (masks : Masks) : Prop where
  ellipsis_mask : ∀ x ∈ masks.ellipsis_mask, x = 0
  new_axis_mask : ∀ x ∈ masks.new_axis_mask, x = 0
  shrink_axis_mask : ∀ x ∈ masks.shrink_axis_mask, x = 0

theorem ne_one_of_zero {mask : List Nat} (h : ∀ x ∈ mask, x = 0) (i : Nat) : mask[i]? ≠ some 1 :=
  fun hone => one_ne_zero (h 1 (List.mem_of_getElem? hone))

theorem fitsInt_openBegin {x : Int} : FitsInt (openBegin x) := by
  unfold openBegin
  split_ifs <;> decide

section Rounds

variable {begin_ end_ stride : Bound} {dims : SizeVector} {bs es ts : List Int} {masks : Masks} {max_dims n : Nat}
  {s : Slice} {ss : List Slice} {ns : List Nat} {a : Axes} (hmasks : Plain masks) (hb : Points begin_ bs)
  (he : Points end_ es) (ht : Points stride ts) (hzero : 0 ∉ ts)

theorem slicesOf_getElem? {i : Nat} (hs : (slicesOf dims bs es ts masks)[i]? = some s) :
    dims[i]? = some s.dim ∧ s.begin_ = (if masks.begin_mask[i]? = some 0 then none else bs[i]?) ∧
      s.end_ = (if masks.end_mask[i]? = some 0 then none else es[i]?) ∧ s.stride = (ts[i]?).getD 1 := by
  rw [slicesOf, List.getElem?_mapIdx, Option.map_eq_some_iff] at hs
  obtain ⟨dim, hdim, rfl⟩ := hs
  exact ⟨hdim, rfl, rfl, rfl⟩

include hmasks hb he ht hzero

theorem sliceAxis_ok_iff {i : Nat} (hi : ss.length = i) (hs : (slicesOf dims bs es ts masks)[i]? = some s) :
    sliceAxis dims begin_ end_ stride masks max_dims i (stateOf ts ss ns) = .ok a ↔
      ∃ n, Rounds s n ∧ a = stateOf ts (ss ++ [s]) (ns ++ [n]) := by
  obtain ⟨hdim, hbegin, hend, hstride⟩ := slicesOf_getElem? hs
  have hdim : elemAt "src_dims[j]" dims (i : Nat) = .ok s.dim := elemAt_ok_iff.mpr ⟨Nat.cast_nonneg i, hdim⟩
  have hfits : FitsInt s.rawBegin := by
    rw [Slice.rawBegin, hbegin]
    cases hx : (if masks.begin_mask[i]? = some 0 then none else bs[i]?) with
    | none => exact fitsInt_openBegin
    | some x =>
      obtain ⟨-, hx⟩ := Option.ite_none_left_eq_some.mp hx
      exact hb.fits x (List.mem_of_getElem? hx)
  have hread : readBegin begin_ masks.begin_mask s.stride i i = .ok s.rawBegin := by
    rw [hb.readBegin_eq, Slice.rawBegin, hbegin]
  have hreadEnd : ∀ {x}, readEnd end_ masks.end_mask s.stride i i = .ok x ↔ FitsInt x ∧ s.rawEnd = x := by
    intro x
    rw [he.readEnd_ok_iff, Slice.rawEnd, hend]
  have hreadStride : readStride stride (stateOf ts ss ns).sj = .ok (s.stride, min (i + 1) ts.length) := by
    rw [hstride, stateOf, hi]
    exact ht.readStride_eq hzero
  obtain ⟨hj, hk, hbj, hej⟩ : (stateOf ts ss ns).j = i ∧ (stateOf ts ss ns).k = i ∧ (stateOf ts ss ns).bj = i ∧
      (stateOf ts ss ns).ej = i := ⟨hi, hi, hi, hi⟩
  unfold sliceAxis
  rw [hreadStride, ok_bind]
  dsimp only
  rw [hj, hbj, hread, ok_bind, hdim, ok_bind]
  simp only [hk, hej, if_neg (ne_one_of_zero hmasks.new_axis_mask i), ne_one_of_zero hmasks.shrink_axis_mask i,
    false_and, if_false]
  simp only [bind_ok_iff, hreadEnd, normalise_ok_iff hfits, pure_ok_iff]
  constructor
  · rintro ⟨b, ⟨hdim, rfl⟩, e, ⟨hfits, rfl⟩, e', hend, n, hn, rfl⟩
    obtain ⟨-, rfl⟩ := (normalise_ok_iff hfits).mp hend
    refine ⟨n, ⟨hdim, hfits, hn⟩, ?_⟩
    rw [stateOf, stateOf, List.map_append, List.length_append, List.length_singleton, hi]
    rfl
  · rintro ⟨n, ⟨hdim, hfits, hn⟩, rfl⟩
    refine ⟨_, ⟨hdim, rfl⟩, _, ⟨hfits, rfl⟩, _, (normalise_ok_iff hfits).mpr ⟨hdim, rfl⟩, n, hn, ?_⟩
    rw [stateOf, stateOf, List.map_append, List.length_append, List.length_singleton, hi]
    rfl

/-- A round is one of `sliceAxis`. -/
theorem axis_ok_iff {bounds_size i : Nat} (hi : ss.length = i) (hlt : i < max_dims)
    (hs : (slicesOf dims bs es ts masks)[i]? = some s) :
    axis dims begin_ end_ stride masks max_dims (ellipsis masks.ellipsis_mask max_dims bounds_size) (stateOf ts ss ns) i =
      .ok a ↔ ∃ n, Rounds s n ∧ a = stateOf ts (ss ++ [s]) (ns ++ [n]) := by
  have hnone : masks.ellipsis_mask.findIdx? (0 < ·) = none := by
    rw [List.findIdx?_eq_none_iff]
    intro x hx
    rw [hmasks.ellipsis_mask x hx]
    rfl
  have hpos : ¬((ellipsis masks.ellipsis_mask max_dims bounds_size).1 ≤ i ∧
      i < (ellipsis masks.ellipsis_mask max_dims bounds_size).2) := by
    rw [ellipsis, hnone, Option.getD_none]
    exact fun hcon => absurd hcon.1 (by omega)
  rw [axis, if_neg hpos, sliceAxis_ok_iff hmasks hb he ht hzero hi hs]

theorem axes_ok_iff {bounds_size : Nat} (hn : n ≤ dims.length) (hmax : dims.length = max_dims) :
    (List.range n).foldlM (axis dims begin_ end_ stride masks max_dims
      (ellipsis masks.ellipsis_mask max_dims bounds_size)) {} = .ok a ↔
        ∃ ns, List.Forall₂ Rounds ((slicesOf dims bs es ts masks).take n) ns ∧
          a = stateOf ts ((slicesOf dims bs es ts masks).take n) ns := by
  have hlength : (slicesOf dims bs es ts masks).length = dims.length := List.length_mapIdx
  induction n generalizing a with
  | zero =>
    rw [List.range_zero, List.foldlM_nil, pure_ok_iff, List.take_zero]
    constructor
    · rintro rfl
      exact ⟨[], .nil, by rw [stateOf, List.length_nil, Nat.zero_min]; rfl⟩
    · rintro ⟨ns, hns, rfl⟩
      obtain rfl := List.forall₂_nil_left_iff.mp hns
      rw [stateOf, List.length_nil, Nat.zero_min]
      rfl
  | succ n ih =>
    have hlt : n < (slicesOf dims bs es ts masks).length := by omega
    have htake : ((slicesOf dims bs es ts masks).take n).length = n := by
      rw [List.length_take]
      omega
    have hround : ∀ {ns a}, axis dims begin_ end_ stride masks max_dims
        (ellipsis masks.ellipsis_mask max_dims bounds_size) (stateOf ts ((slicesOf dims bs es ts masks).take n) ns) n =
          .ok a ↔ ∃ m, Rounds (slicesOf dims bs es ts masks)[n] m ∧
            a = stateOf ts ((slicesOf dims bs es ts masks).take n ++ [(slicesOf dims bs es ts masks)[n]]) (ns ++ [m]) :=
      axis_ok_iff hmasks hb he ht hzero htake (by omega) (List.getElem?_eq_getElem hlt)
    rw [List.range_succ, List.foldlM_append]
    simp only [bind_ok_iff, ih (by omega), List.foldlM_cons, List.foldlM_nil, pure_ok_iff, exists_eq_right]
    rw [List.take_succ_eq_append_getElem hlt]
    constructor
    · rintro ⟨b, ⟨ns, hns, rfl⟩, hlast⟩
      obtain ⟨m, hm, rfl⟩ := hround.mp hlast
      exact ⟨ns ++ [m], List.rel_append hns (.cons hm .nil), rfl⟩
    · rintro ⟨ns, hns, rfl⟩
      have hinit := List.forall₂_take n hns
      have hlast := List.forall₂_drop n hns
      rw [List.take_left' htake] at hinit
      rw [List.drop_left' htake] at hlast
      obtain ⟨m, ms, hm, hms, hdrop⟩ := List.forall₂_cons_left_iff.mp hlast
      obtain rfl := List.forall₂_nil_left_iff.mp hms
      refine ⟨_, ⟨ns.take n, hinit, rfl⟩, hround.mpr ⟨m, hm, ?_⟩⟩
      rw [← hdrop, List.take_append_drop]

end Rounds

/-! ### The constructor -/

/-- The input is the vector of these numbers; an input that is not there has none. -/
structure GivenBy (blob : Option (Blob (List Int))) (xs : List Int) : Prop where
  absent : blob = none → xs = []
  precision : ∀ b ∈ blob, b.tensorDesc.precision = .I32
  dims : ∀ b ∈ blob, b.tensorDesc.dims = [xs.length]
  elements : ∀ b ∈ blob, xs <+: (b.buffer.getD []).drop b.tensorDesc.blockingDesc.offsetPadding
  fits : ∀ x ∈ xs, FitsInt x

/-- The inputs are the vectors of these bounds and strides, which are as long as each other. -/
structure Vectors (bounds : List (Blob (List Int))) (bs es ts : List Int) : Prop where
  edges : bounds.length ≤ 3
  begin_ : GivenBy bounds[0]? bs
  end_ : GivenBy bounds[1]? es
  strides : GivenBy bounds[2]? ts
  end_length : 1 < bounds.length → es.length = bs.length
  strides_length : 2 < bounds.length → ts.length = bs.length
  zero : 0 ∉ ts

/-- The masks without a bit for an ellipsis, a new or a shrunk axis. -/
structure NoBits (params : String → Option String) : Prop where
  ellipsis_mask : '1' ∉ ((params "ellipsis_mask").getD "").toList
  new_axis_mask : '1' ∉ ((params "new_axis_mask").getD "").toList
  shrink_axis_mask : '1' ∉ ((params "shrink_axis_mask").getD "").toList

/-- The dimensions of such an input. -/
def dimsOf (blob : Option (Blob (List Int))) (xs : List Int) : SizeVector := if blob.isSome then [xs.length] else []

section Inputs

variable {blob : Option (Blob (List Int))} {xs bs : List Int} {params : String → Option String}

theorem points_bound (h : GivenBy blob xs) : Points (bound (dimsOf blob xs) blob) xs := by
  cases blob with
  | none =>
    obtain rfl := h.absent rfl
    exact ⟨fun n => ⟨fun hhas => absurd hhas Bool.false_ne_true, fun hlt => absurd hlt n.not_lt_zero⟩,
      fun hget => absurd hget (by simp), h.fits⟩
  | some b =>
    refine ⟨fun n => ?_, fun {n x} hget => ?_, h.fits⟩
    · rw [Bound.has, bound, dimsOf]
      simp
    · obtain ⟨rest, hrest⟩ := h.elements b rfl
      have hlt := (List.getElem?_eq_some_iff.mp hget).1
      rw [bound]
      dsimp only
      rw [← hrest, List.getElem?_append_left hlt, hget]

theorem boundDims_eq (h : GivenBy blob xs) {b : Blob (List Int)} {input vector : String} (hb : b ∈ blob) :
    boundDims input vector b = .ok (dimsOf blob xs) := by
  obtain rfl := Option.mem_def.mp hb
  unfold boundDims
  rw [if_neg (not_not_intro (h.precision b rfl)), h.dims b rfl, if_neg (by simp)]
  rfl

theorem readBeginDims_eq (h : GivenBy blob bs) : readBeginDims blob = .ok (dimsOf blob bs, bs.length) := by
  cases hblob : blob with
  | none =>
    obtain rfl := h.absent hblob
    rfl
  | some b =>
    rw [readBeginDims, ← hblob, boundDims_eq h (Option.mem_def.mpr hblob), ok_bind, dimsOf, hblob]
    rfl

theorem readDims_eq {input message : String} {begin_dims : SizeVector} (h : GivenBy blob xs)
    (hbegin : blob.isSome → begin_dims = [xs.length]) : readDims input message begin_dims blob = .ok (dimsOf blob xs) := by
  cases hblob : blob with
  | none => rfl
  | some b =>
    have hzero : ∀ e : String, elemAt e [xs.length] 0 = .ok xs.length := fun e => rfl
    rw [readDims, ← hblob, boundDims_eq h (Option.mem_def.mpr hblob), ok_bind, hbegin (by rw [hblob]; rfl), dimsOf,
      hblob, Option.isSome_some, if_pos rfl, hzero, ok_bind, hzero, ok_bind, if_neg (not_not_intro rfl)]
    rfl

theorem readMask_zero {mask_str : String} {rank : Nat} (h : '1' ∉ mask_str.toList) :
    ∀ x ∈ readMask mask_str rank 0, x = 0 := by
  intro x hx
  rcases List.mem_append.mp hx with hx | hx
  · obtain ⟨c, hc, hx⟩ := List.mem_filterMap.mp hx
    have hne : c ≠ '1' := fun heq => h (heq ▸ hc)
    rw [if_neg hne] at hx
    split_ifs at hx
    exact (Option.some.inj hx).symm
  · exact (List.mem_replicate.mp hx).2

theorem plain_masksOf (h : NoBits params) (data : TensorDesc) : Plain (masksOf data params) :=
  ⟨readMask_zero h.ellipsis_mask, readMask_zero h.new_axis_mask, readMask_zero h.shrink_axis_mask⟩

end Inputs

section Create

variable {data : TensorDesc} {bounds : List (Blob (List Int))} {params : String → Option String} {bs es ts : List Int}
  {h : StridedSliceHelper}

/-- The constructor is the loop over the axes of the slices. -/
theorem create_ok_iff (hv : Vectors bounds bs es ts) (hbits : NoBits params) : create data bounds params = .ok h ↔
    ∃ ns, List.Forall₂ Rounds (slicesOf data.dims bs es ts (masksOf data params)) ns ∧
      h = helperOf data params (stateOf ts (slicesOf data.dims bs es ts (masksOf data params)) ns) := by
  have hmasks := plain_masksOf hbits data
  have hrank : data.dims.length = rankOf data params := by
    rw [rankOf, List.sum_eq_zero_iff.mpr hmasks.new_axis_mask, Nat.add_zero]
  have hcount : ¬1 < ((params "ellipsis_mask").getD "").toList.count '1' := by
    rw [List.count_eq_zero_of_not_mem hbits.ellipsis_mask]
    decide
  have hbegin : ∀ {k : Nat}, 0 < k → (bounds[k]?).isSome → dimsOf bounds[0]? bs = [bs.length] := by
    intro k hk hsome
    have hlt : k < bounds.length := by
      by_contra hle
      rw [List.getElem?_eq_none (by omega)] at hsome
      cases hsome
    rw [dimsOf, List.getElem?_eq_getElem (show 0 < bounds.length by omega), Option.isSome_some, if_pos rfl]
  have hend : (bounds[1]?).isSome → dimsOf bounds[0]? bs = [es.length] := fun hsome => by
    rw [hbegin one_pos hsome, hv.end_length (by simpa using hsome)]
  have hstrides : (bounds[2]?).isSome → dimsOf bounds[0]? bs = [ts.length] := fun hsome => by
    rw [hbegin two_pos hsome, hv.strides_length (by simpa using hsome)]
  have hloop : ∀ {a}, (List.range (rankOf data params)).foldlM (axis data.dims (bound (dimsOf bounds[0]? bs) bounds[0]?)
      (bound (dimsOf bounds[1]? es) bounds[1]?) (bound (dimsOf bounds[2]? ts) bounds[2]?) (masksOf data params)
      (rankOf data params) (ellipsis (masksOf data params).ellipsis_mask (rankOf data params) bs.length)) {} = .ok a ↔
        ∃ ns, List.Forall₂ Rounds (slicesOf data.dims bs es ts (masksOf data params)) ns ∧
          a = stateOf ts (slicesOf data.dims bs es ts (masksOf data params)) ns := by
    intro a
    have htake : (slicesOf data.dims bs es ts (masksOf data params)).take (rankOf data params) =
        slicesOf data.dims bs es ts (masksOf data params) := by
      apply List.take_of_length_le
      rw [slicesOf, List.length_mapIdx, hrank]
    rw [axes_ok_iff hmasks (points_bound hv.begin_) (points_bound hv.end_) (points_bound hv.strides) hv.zero
      hrank.ge hrank, htake]
  unfold create
  rw [if_neg (by have := hv.edges; omega), readBeginDims_eq hv.begin_, ok_bind]
  dsimp only
  rw [readDims_eq hv.end_ hend, ok_bind, readDims_eq hv.strides hstrides, ok_bind, if_neg hcount, bind_ok_iff]
  constructor
  · rintro ⟨a, ha, hh⟩
    obtain ⟨ns, hns, rfl⟩ := hloop.mp ha
    exact ⟨ns, hns, (pure_ok_iff.mp hh).symm⟩
  · rintro ⟨ns, hns, rfl⟩
    exact ⟨_, hloop.mpr ⟨ns, hns, rfl⟩, rfl⟩

end Create

/-! ### The selected elements -/

/-- The number of the input element at the positions that these counters stand for. -/
def sourceOf (ss : List Slice) (v : SizeVector) : Nat :=
  encode (ss.map Slice.dim) (List.zipWith (fun s k => (s.position k).toNat) ss v)

/-- The output has the shape of the usual slice, and each of its elements is copied from the selected one. -/
def Sliced (data : TensorDesc) (bounds : List (Blob (List Int))) (params : String → Option String) (ss : List Slice) :
    Prop :=
  ∃ h, create data bounds params = .ok h ∧ h.getOutputShape = ss.map Slice.count ∧
    h.strided_slice (ss.map Slice.count) (BlockingDesc.fillStrides (ss.map Slice.count) ++
      if ss.map Slice.count = [1] then [1] else []) =
        .ok ((List.range (ss.map Slice.count).prod).map fun k => (k, (sourceOf ss (decode (ss.map Slice.count) k) : Int)))

/-- How far the first element moves when the sizes are cut to `int`. -/
def shift : List Slice → Int
  | [] => 0
  | s :: ss => (s.dms.begin_dms - s.first) * (ss.map Slice.dim).prod + shift ss

namespace Slice

variable {s : Slice}

/-- The length survives its computation in `int` and `float`. -/
structure Exact (s : Slice) : Prop where
  dim : toInt s.dim ≠ -2 ^ 31
  bound : FitsInt s.rawEnd
  stride : s.stride.natAbs < 2 ^ 31
  count : s.count < 2 ^ 31
  length : floatLength ((s.dms.end_dms - s.dms.begin_dms).natAbs + 1) s.stride.natAbs = s.count

theorem distance_lt : (s.dms.end_dms - s.dms.begin_dms).natAbs + 1 < 2 ^ 31 := by
  obtain ⟨hlow, hhigh⟩ := fitsInt_toInt s.dim
  rw [dms]
  unfold clipped
  dsimp only
  generalize (if s.rawEnd < 0 then toInt s.dim + s.rawEnd else s.rawEnd) = e
  generalize (if s.rawBegin < 0 then toInt s.dim + s.rawBegin else s.rawBegin) = b
  omega

theorem rounds_count_iff (hs : s.stride ≠ 0) : Rounds s s.count ↔ s.Exact := by
  have hlength : axisLength s.dms = .ok s.count ↔ _ := axisLength_ok_iff (d := s.dms) hs
  constructor
  · rintro ⟨hdim, hbound, hround⟩
    obtain ⟨-, hstride, hlt, heq⟩ := hlength.mp hround
    rw [heq] at hlt
    exact ⟨hdim, hbound, hstride, by exact_mod_cast hlt, heq⟩
  · rintro ⟨hdim, hbound, hstride, hcount, heq⟩
    have hlt : floatLength ((s.dms.end_dms - s.dms.begin_dms).natAbs + 1) s.stride.natAbs < 2 ^ 31 := by
      rw [heq]
      exact_mod_cast hcount
    exact ⟨hdim, hbound, hlength.mpr ⟨distance_lt, hstride, hlt, heq⟩⟩

theorem Spans.count_le (h : s.Spans) : s.count ≤ s.dim := by
  obtain ⟨hfirst, hfirst'⟩ := h.first
  obtain ⟨hlast, hlast'⟩ := h.last
  have hstride : 0 < s.stride.natAbs := by
    rcases h.order with ⟨hsign, -⟩ | ⟨hsign, -⟩ <;> omega
  have hle : s.count ≤ (s.last - s.first).natAbs + 1 := by
    rw [h.count_eq]
    apply Nat.div_le_of_le_mul
    have hmul : (s.last - s.first).natAbs ≤ s.stride.natAbs * (s.last - s.first).natAbs :=
      Nat.le_mul_of_pos_left _ hstride
    rw [Nat.mul_add]
    omega
  omega

end Slice

section Places

variable {ss : List Slice} {v : SizeVector} (hspans : ∀ s ∈ ss, s.Spans)

include hspans

theorem place_slices (hsmall : (ss.map Slice.dim).prod < 2 ^ 64) (hv : List.Forall₂ (· < ·) v (ss.map Slice.count)) :
    place (ss.map Slice.dms) (BlockingDesc.fillStrides (ss.map Slice.dim)) v = sourceOf ss v + shift ss := by
  induction ss generalizing v with
  | nil => rfl
  | cons s ss ih =>
    rw [List.map_cons] at hv hsmall
    obtain ⟨k, w, hk, hw, rfl⟩ := List.forall₂_cons_right_iff.mp hv
    obtain ⟨hs, hspans⟩ := List.forall_mem_cons.mp hspans
    have hpos : 0 < s.dim := by have := hs.first; omega
    have hle : (ss.map Slice.dim).prod ≤ s.dim * (ss.map Slice.dim).prod := Nat.le_mul_of_pos_left _ hpos
    rw [List.prod_cons] at hsmall
    obtain ⟨stride, hstrides, hmod, hlt⟩ := BlockingDesc.fillStrides_cons (D := ss.map Slice.dim) s.dim
    obtain rfl := Nat.ModEq.eq_of_lt_of_lt hmod hlt (by omega)
    have hposition : ((s.position k).toNat : Int) = s.first + k * s.stride := Int.toNat_of_nonneg (hs.position_mem hk).1
    rw [List.map_cons, List.map_cons, hstrides, place, ih hspans (by omega) hw, axisPlace, sourceOf, sourceOf,
      List.map_cons, List.zipWith_cons_cons, encode, shift, Nat.cast_add, Nat.cast_mul, hposition]
    have hstride : s.dms.stride_dms = s.stride := rfl
    rw [hstride]
    ring

theorem prod_count_le : (ss.map Slice.count).prod ≤ (ss.map Slice.dim).prod := by
  induction ss with
  | nil => exact le_refl _
  | cons s ss ih =>
    obtain ⟨hs, hspans⟩ := List.forall_mem_cons.mp hspans
    rw [List.map_cons, List.map_cons, List.prod_cons, List.prod_cons]
    exact Nat.mul_le_mul hs.count_le (ih hspans)

end Places

/-- What an `int` keeps of a number that has moved. -/
theorem wrapInt_add_eq_iff {n : Nat} {y : Int} : wrapInt (n + y) = n ↔ n < 2 ^ 31 ∧ (2 ^ 32 : Int) ∣ y := by
  constructor
  · intro heq
    have hfits := @fitsInt_wrapInt (n + y)
    have hdvd : ((2 ^ 32 : Nat) : Int) ∣ (n + y) - wrapInt (n + y) := Int.dvd_self_sub_bmod
    rw [heq] at hfits hdvd
    obtain ⟨-, hlt⟩ := hfits
    rw [add_sub_cancel_left] at hdvd
    exact ⟨by exact_mod_cast hlt, by exact_mod_cast hdvd⟩
  · rintro ⟨hlt, hdvd⟩
    have hzero : wrapInt y = 0 := Int.bmod_eq_zero_of_dvd (by exact_mod_cast hdvd)
    rw [add_comm, ← wrapInt_add, hzero, zero_add, wrapInt_of_fits ⟨by omega, by exact_mod_cast hlt⟩]

section Main

variable {data : TensorDesc} {bounds : List (Blob (List Int))} {params : String → Option String} {bs es ts : List Int}
  {ss : List Slice}

/-- The plain loop of a helper that the constructor has built from the slices. -/
theorem strided_slice_slices (hdata : RowMajor data data.dims) (hbits : NoBits params)
    (hsmall : data.dims.prod < 2 ^ 62) (hss : ss.map Slice.dim = data.dims) (hspans : ∀ s ∈ ss, s.Spans)
    (hpos : ∀ s ∈ ss, 0 < s.count) :
    (helperOf data params (stateOf ts ss (ss.map Slice.count))).strided_slice (ss.map Slice.count)
      (BlockingDesc.fillStrides (ss.map Slice.count) ++ if ss.map Slice.count = [1] then [1] else []) =
        .ok ((List.range (ss.map Slice.count).prod).map fun k =>
          (k, wrapInt (sourceOf ss (decode (ss.map Slice.count) k) + shift ss))) := by
  set h := helperOf data params (stateOf ts ss (ss.map Slice.count))
  have hrank : rankOf data params = ss.length := by
    rw [rankOf, List.sum_eq_zero_iff.mpr (plain_masksOf hbits data).new_axis_mask, Nat.add_zero, ← hss, List.length_map]
  have hzero : 0 ∉ ss.map Slice.count := by
    rintro hmem
    obtain ⟨s, hs, hcount⟩ := List.mem_map.mp hmem
    exact (hpos s hs).ne' hcount
  have hstraight : h.Straight := by
    refine ⟨ne_one_of_zero (plain_masksOf hbits data).new_axis_mask, ?_, ?_, hzero, ?_⟩
    · exact (List.length_map _).trans hrank.symm
    · exact (List.length_map _).trans hrank.symm
    · rw [show h.srcStrides = BlockingDesc.fillStrides data.dims from hdata.strides, BlockingDesc.length_fillStrides,
        ← hss, List.length_map]
      exact hrank.symm
  have hprod : (ss.map Slice.count).prod < 2 ^ 62 := (prod_count_le hspans).trans_lt (by rwa [hss])
  have hplaces : ∀ k, place h.dms h.srcStrides (decode h.our_dims k) =
      sourceOf ss (decode (ss.map Slice.count) k) + shift ss := by
    intro k
    rw [show h.srcStrides = BlockingDesc.fillStrides data.dims from hdata.strides, ← hss]
    exact place_slices hspans (by rw [hss]; omega) (decode_forall hzero)
  by_cases hnil : ss = []
  · subst hnil
    have hrun := @sliceFrom_eq h 0 0 1 hstraight
    rw [decode_zero, hstraight.our_dims] at hrun
    simp only [hplaces] at hrun
    exact hrun
  · have hne : ss.map Slice.count ≠ [] := fun hcon => hnil (List.map_eq_nil_iff.mp hcon)
    obtain ⟨stride, dim, hstride, hdim, hwork⟩ := exists_fillStrides hne (by omega) hzero
    have hlt := (List.getElem?_eq_some_iff.mp hstride).1
    rw [strided_slice_eq hstraight hne ⟨stride, dim, by rwa [List.getElem?_append_left hlt], hdim, hwork⟩ (by omega)]
    simp only [hplaces]

theorem forall_wrapInt_iff (hpos : 0 < (ss.map Slice.count).prod) (hzero : 0 ∉ ss.map Slice.count) :
    (∀ k < (ss.map Slice.count).prod, wrapInt (sourceOf ss (decode (ss.map Slice.count) k) + shift ss) =
      sourceOf ss (decode (ss.map Slice.count) k)) ↔
        (2 ^ 32 : Int) ∣ shift ss ∧ ∀ v ∈ box (ss.map Slice.count), sourceOf ss v < 2 ^ 31 := by
  simp only [wrapInt_add_eq_iff]
  constructor
  · intro hall
    refine ⟨(hall 0 hpos).2, fun v hv => ?_⟩
    rw [box_eq_map_decode, List.mem_map] at hv
    obtain ⟨k, hk, rfl⟩ := hv
    exact (hall k (List.mem_range.mp hk)).1
  · rintro ⟨hshift, hbox⟩ k hk
    exact ⟨hbox _ (decode_mem hzero), hshift⟩

/-! ### Sizes below `2 ^ 31` -/

theorem Slice.Spans.exact_iff {s : Slice} (h : s.Spans) (hdim : s.dim < 2 ^ 31) (hend : ∀ e ∈ s.end_, FitsInt e) :
    s.Exact ↔ s.stride.natAbs < 2 ^ 31 ∧
      floatLength ((s.last - s.first).natAbs + 1) s.stride.natAbs = s.count := by
  have hcount := h.count_le
  have hsize : toInt s.dim ≠ -2 ^ 31 := by
    rw [toInt_of_lt hdim]
    omega
  have hbound : FitsInt s.rawEnd := by
    have hlast := h.last
    rw [Slice.last, Slice.stop] at hlast
    unfold Slice.rawEnd openEnd
    cases he : s.end_ with
    | none =>
      rw [Option.elim_none]
      split_ifs <;> decide
    | some e =>
      obtain ⟨hlow, hhigh⟩ := hend e (Option.mem_def.mpr he)
      rw [he, Option.elim_some, Option.elim_some, Slice.counted] at hlast
      rw [Option.elim_some]
      split_ifs at hlast ⊢
      all_goals exact ⟨by omega, by omega⟩
  constructor
  · rintro ⟨-, -, hstride, -, hlength⟩
    rw [h.dms_eq hdim] at hlength
    exact ⟨hstride, hlength⟩
  · rintro ⟨hstride, hlength⟩
    refine ⟨hsize, hbound, hstride, by omega, ?_⟩
    rw [h.dms_eq hdim]
    exact hlength

/-- Fewer than `2 ^ 24` positions between the ends are counted without an error. -/
theorem Slice.Spans.exact_of_few {s : Slice} (h : s.Spans) (hdim : s.dim < 2 ^ 31) (hend : ∀ e ∈ s.end_, FitsInt e)
    (hstride : s.stride.natAbs < 2 ^ 31) (hfew : (s.last - s.first).natAbs + 1 < 2 ^ 24) : s.Exact := by
  have hpos : 0 < s.stride.natAbs := by
    rcases h.order with ⟨hsign, -⟩ | ⟨hsign, -⟩ <;> omega
  refine (h.exact_iff hdim hend).mpr ⟨hstride, ?_⟩
  rw [floatLength, nearest_natCast hfew.le, ceil_nearest_div hfew hpos, ceil_natCast_div _ hpos, h.count_eq]

theorem shift_eq_zero (hspans : ∀ s ∈ ss, s.Spans) (hdims : ∀ s ∈ ss, s.dim < 2 ^ 31) : shift ss = 0 := by
  induction ss with
  | nil => rfl
  | cons s ss ih =>
    obtain ⟨hs, hspans⟩ := List.forall_mem_cons.mp hspans
    obtain ⟨hdim, hdims⟩ := List.forall_mem_cons.mp hdims
    rw [shift, ih hspans hdims, hs.dms_eq hdim, sub_self, zero_mul, zero_add]

/-! ### The result -/

/-- **The usual slice.** Where no axis is empty, the helper selects the usual slice exactly if the length of each axis
survives its computation in `float`, cutting the sizes to `int` does not move the first element, and the selected
indices fit in an `int`. -/
theorem sliced_iff (hdata : RowMajor data data.dims) (hsmall : data.dims.prod < 2 ^ 62) (hv : Vectors bounds bs es ts)
    (hbits : NoBits params) (hss : ss = slicesOf data.dims bs es ts (masksOf data params))
    (hpos : ∀ s ∈ ss, 0 < s.count) :
    Sliced data bounds params ss ↔ (∀ s ∈ ss, s.Exact) ∧ (2 ^ 32 : Int) ∣ shift ss ∧
      ∀ v ∈ box (ss.map Slice.count), sourceOf ss v < 2 ^ 31 := by
  have hstride : ∀ s ∈ ss, s.stride ≠ 0 := by
    intro s hs hcon
    obtain ⟨i, hi⟩ := List.mem_iff_getElem?.mp (hss ▸ hs)
    obtain ⟨-, -, -, hstride⟩ := slicesOf_getElem? hi
    rw [hstride] at hcon
    cases hget : ts[i]? with
    | none => simp [hget] at hcon
    | some t =>
      rw [hget, Option.getD_some] at hcon
      exact hv.zero (hcon ▸ List.mem_of_getElem? hget)
  have hspans : ∀ s ∈ ss, s.Spans := fun s hs => Slice.spans_of_count_pos (hstride s hs) (hpos s hs)
  have hzero : 0 ∉ ss.map Slice.count := by
    intro hmem
    obtain ⟨s, hs, hcount⟩ := List.mem_map.mp hmem
    exact (hpos s hs).ne' hcount
  have hdims : ss.map Slice.dim = data.dims := by
    rw [hss, slicesOf]
    apply List.ext_getElem
    · rw [List.length_map, List.length_mapIdx]
    · intro i hi hi'
      rw [List.getElem_map, List.getElem_mapIdx]
  have hrounds : List.Forall₂ Rounds ss (ss.map Slice.count) ↔ ∀ s ∈ ss, s.Exact := by
    rw [List.forall₂_map_right_iff, List.forall₂_same]
    exact forall₂_congr fun s hs => Slice.rounds_count_iff (hstride s hs)
  have hrun := @strided_slice_slices data params ts ss hdata hbits hsmall hdims hspans hpos
  have hplaces := forall_wrapInt_iff (Nat.pos_of_ne_zero (List.prod_ne_zero hzero)) hzero
  rw [← hplaces]
  constructor
  · rintro ⟨h, hcreate, hshape, hcopies⟩
    obtain ⟨ns, hns, rfl⟩ := (create_ok_iff hv hbits).mp hcreate
    rw [← hss] at hns hshape hcopies
    obtain rfl : ns = ss.map Slice.count := hshape
    refine ⟨hrounds.mp hns, fun k hk => ?_⟩
    rw [hrun] at hcopies
    have hentry := List.map_inj_left.mp (Except.ok.inj hcopies) k (List.mem_range.mpr hk)
    exact (Prod.mk.inj hentry).2
  · rintro ⟨hexact, hwrapped⟩
    refine ⟨helperOf data params (stateOf ts ss (ss.map Slice.count)), ?_, rfl, hrun.trans ?_⟩
    · exact (create_ok_iff hv hbits).mpr ⟨_, hss ▸ hrounds.mpr hexact, by rw [← hss]⟩
    · refine congrArg Except.ok (List.map_congr_left fun k hk => ?_)
      rw [hwrapped k (List.mem_range.mp hk)]

end Main

/-- The positions 1 and 3 of five. -/
theorem sliced_iff_oddPositions : Sliced (plainBlob .FP32 [5]).tensorDesc
    [i32Blob [1] [-4], i32Blob [1] [100], i32Blob [1] [2]] (fun _ => none) [⟨5, some (-4), some 100, 2⟩] := by
  have hgiven : ∀ x : Int, FitsInt x → GivenBy (some (i32Blob [1] [x])) [x] := by
    intro x hx
    have hall : ∀ P : Blob (List Int) → Prop, P (i32Blob [1] [x]) → ∀ b ∈ some (i32Blob [1] [x]), P b := by
      intro P hP b hb
      rwa [← Option.mem_some.mp hb]
    exact ⟨fun hnone => absurd hnone (Option.some_ne_none _), hall _ rfl, hall _ rfl, hall _ (List.prefix_refl [x]),
      List.forall_mem_singleton.mpr hx⟩
  have hv : Vectors [i32Blob [1] [-4], i32Blob [1] [100], i32Blob [1] [2]] [-4] [100] [2] :=
    ⟨by decide, hgiven (-4) (by decide), hgiven 100 (by decide), hgiven 2 (by decide), fun _ => rfl, fun _ => rfl, by decide⟩
  have hspans : (⟨5, some (-4), some 100, 2⟩ : Slice).Spans := Slice.spans_of_count_pos (by decide) (by decide)
  refine (sliced_iff rowMajor_plainBlob (by decide) hv ⟨by decide, by decide, by decide⟩ rfl ?_).mpr ⟨?_, by decide, ?_⟩
  · exact List.forall_mem_singleton.mpr (by decide)
  · exact List.forall_mem_singleton.mpr (hspans.exact_of_few (by decide) (by decide) (by decide) (by decide))
  · decide

/-- A slice without bounds that loses its last element. -/
theorem last_element_lost : ((⟨2 ^ 24 + 1, none, none, 1⟩ : Slice).count = 2 ^ 24 + 1) ∧
    slicesOf [2 ^ 24 + 1] [] [] [] (masksOf (plainBlob .FP32 [2 ^ 24 + 1]).tensorDesc fun _ => none) =
      [⟨2 ^ 24 + 1, none, none, 1⟩] ∧
    ¬Sliced (plainBlob .FP32 [2 ^ 24 + 1]).tensorDesc [] (fun _ => none) [⟨2 ^ 24 + 1, none, none, 1⟩] := by
  refine ⟨by decide, by decide, ?_⟩
  rintro ⟨h, hcreate, hshape, -⟩
  have hlength : (create (plainBlob .FP32 [2 ^ 24 + 1]).tensorDesc [] (fun _ => none)).map getOutputShape =
      .ok [2 ^ 24] := by decide +kernel
  rw [hcreate] at hlength
  have hout : h.getOutputShape = [2 ^ 24] := Except.ok.inj hlength
  rw [hout] at hshape
  exact absurd hshape (by decide)

end OpenVino.InferenceEngine.ShapeInfer.StridedSliceHelper
