import OpenVino.InferenceEngine.ShapeInfer.ConstInfer.StridedSliceLoops

/-!
# The axes of a strided slice

What the constructor of `StridedSliceHelper` leaves behind: an entry of each list for each axis, and lengths that are
not zero (`Built`). A helper without new axes and shrunk ones slices the axes of its input one by one
(`Built.straight`).
-/

namespace OpenVino.InferenceEngine.ShapeInfer.StridedSliceHelper

variable {h : StridedSliceHelper} {data : TensorDesc} {bounds : List (Blob (List Int))} {params : String → Option String}
  {src_dims : SizeVector} {begin_ end_ stride : Bound} {masks : Masks} {max_dims i j k n : Nat} {a a' : Axes} {d : Dms}

/-! ### Lengths -/

/-- The quotient in `float`, rounded up. -/
def floatLength (n s : Nat) : Int := ⌈nearest (nearest n / nearest s)⌉

theorem axisLength_ok_iff (hs : d.stride_dms ≠ 0) : axisLength d = .ok n ↔
    (d.end_dms - d.begin_dms).natAbs + 1 < 2 ^ 31 ∧ d.stride_dms.natAbs < 2 ^ 31 ∧
      floatLength ((d.end_dms - d.begin_dms).natAbs + 1) d.stride_dms.natAbs < 2 ^ 31 ∧
      floatLength ((d.end_dms - d.begin_dms).natAbs + 1) d.stride_dms.natAbs = n := by
  have hspos : 0 < d.stride_dms.natAbs := Int.natAbs_pos.mpr hs
  have hdistance : |d.end_dms - d.begin_dms| + 1 = (((d.end_dms - d.begin_dms).natAbs + 1 : Nat) : Int) := by
    rw [Int.abs_eq_natAbs]
    rfl
  have hstride : |d.stride_dms| = (d.stride_dms.natAbs : Int) := Int.abs_eq_natAbs _
  have hceil : 0 ≤ floatLength ((d.end_dms - d.begin_dms).natAbs + 1) d.stride_dms.natAbs := by
    apply Int.ceil_nonneg
    exact nearest_nonneg (div_nonneg (nearest_nonneg (Nat.cast_nonneg _)) (nearest_nonneg (Nat.cast_nonneg _)))
  have hquotient : ((Single.ofInt (((d.end_dms - d.begin_dms).natAbs + 1 : Nat) : Int)).div
      (Single.ofInt (d.stride_dms.natAbs : Int))).ceil =
        .finite (floatLength ((d.end_dms - d.begin_dms).natAbs + 1) d.stride_dms.natAbs) := by
    rw [Single.ofInt, Single.ofInt, Int.cast_natCast, Int.cast_natCast, Single.div_finite _ (nearest_pos hspos).ne',
      Single.ceil_finite, floatLength]
  have hcast : ∀ {z : Int}, (do
      let z ← intArith "static_cast<int>(ceil(..))" ⌊(z : ℚ)⌋
      return toSizeT z) = (.ok n : Result Nat) ↔ FitsInt z ∧ toSizeT z = n := by
    intro z
    rw [Int.floor_intCast]
    simp only [bind_ok_iff, intArith_ok_iff, pure_ok_iff]
    constructor
    · rintro ⟨_, ⟨hz, rfl⟩, hn⟩
      exact ⟨hz, hn⟩
    · rintro ⟨hz, hn⟩
      exact ⟨z, ⟨hz, rfl⟩, hn⟩
  unfold axisLength
  rw [hdistance, hstride]
  simp only [bind_ok_iff, intArith_ok_iff]
  constructor
  · rintro ⟨_, ⟨⟨-, hfits⟩, rfl⟩, _, ⟨⟨-, hfits'⟩, rfl⟩, hn⟩
    rw [hquotient] at hn
    obtain ⟨⟨-, hlt⟩, hn⟩ := hcast.mp hn
    unfold toSizeT at hn
    refine ⟨by omega, by omega, by omega, by omega⟩
  · rintro ⟨hfits, hfits', hlt, hn⟩
    refine ⟨_, ⟨⟨by omega, by omega⟩, rfl⟩, _, ⟨⟨by omega, by omega⟩, rfl⟩, ?_⟩
    rw [hquotient]
    refine hcast.mpr ⟨⟨by omega, by omega⟩, ?_⟩
    unfold toSizeT
    omega

theorem floatLength_pos {s : Nat} (hn : 0 < n) (hs : 0 < s) (hs' : s < 2 ^ 31) : 0 < floatLength n s := by
  have hone : (1 : ℚ) ≤ nearest n := by
    have hle := @natCast_le_nearest n 1 (by norm_num) (by exact_mod_cast hn)
    exact_mod_cast hle
  have hstride : nearest s ≤ 2 ^ 31 :=
    nearest_le (representable_two_pow 31) (Nat.cast_nonneg s) (by exact_mod_cast hs'.le)
  have hpos : 0 < nearest s := nearest_pos hs
  have hquotient : (2 : ℚ) ^ (-31 : ℤ) ≤ nearest n / nearest s := by
    rw [le_div_iff₀ hpos]
    have hprod : (2 : ℚ) ^ (-31 : ℤ) * nearest s ≤ 1 := by
      have := mul_le_mul_of_nonneg_left hstride (show (0 : ℚ) ≤ 2 ^ (-31 : ℤ) by positivity)
      norm_num at this ⊢
      linarith
    linarith
  have hle := le_nearest ⟨1, -31, by norm_num, by simp⟩ (by positivity) hquotient
  exact Int.ceil_pos.mpr ((show (0 : ℚ) < 2 ^ (-31 : ℤ) by positivity).trans_le hle)

theorem axisLength_pos (hs : d.stride_dms ≠ 0) (hn : axisLength d = .ok n) : 0 < n := by
  obtain ⟨-, hstride, -, hn⟩ := (axisLength_ok_iff hs).mp hn
  have hpos := @floatLength_pos ((d.end_dms - d.begin_dms).natAbs + 1) d.stride_dms.natAbs (Nat.succ_pos _)
    (Int.natAbs_pos.mpr hs) hstride
  omega

/-! ### The rounds -/

theorem readStride_ne {s : Int} {sj sj' : Nat} (h : readStride stride sj = .ok (s, sj')) : s ≠ 0 := by
  unfold readStride at h
  split_ifs at h with hhas
  · obtain ⟨x, -, h⟩ := bind_ok_iff.mp h
    rw [pure_ok_iff] at h
    split_ifs at h with hx
    · obtain ⟨rfl, -⟩ := Prod.mk.inj h
      exact hx
    · obtain ⟨rfl, -⟩ := Prod.mk.inj h
      decide
  · rw [pure_ok_iff] at h
    obtain ⟨rfl, -⟩ := Prod.mk.inj h
    decide

theorem fitsInt_clipping {x y low high : Int} (hlow : FitsInt low) (hhigh : FitsInt high)
    (h : clipping x low high = .ok y) : FitsInt y := by
  obtain ⟨hlow, hlow'⟩ := hlow
  obtain ⟨hhigh, hhigh'⟩ := hhigh
  unfold clipping at h
  dsimp only at h
  by_cases hlt : (if x > low then x else low) < high
  · rw [if_pos hlt, pure_ok_iff] at h
    subst h
    split_ifs at hlt ⊢ with hx
    · exact ⟨by omega, by omega⟩
    · exact ⟨hlow, hlow'⟩
  · rw [if_neg hlt, intArith_ok_iff] at h
    rw [← h.2]
    exact h.1

theorem fitsInt_normalise {dim : Nat} {x y : Int} (h : normalise dim x = .ok y) : FitsInt y :=
  fitsInt_clipping (by decide) (fitsInt_toInt dim) h

/-- What one axis adds to the lists. -/
structure Added (a a' : Axes) (d : Dms) (n : Nat) : Prop where
  dms : a'.dms = a.dms ++ [d]
  our_dims : a'.our_dims = a.our_dims ++ [n]
  length : axisLength d = .ok n
  start : FitsInt d.begin_dms
  stride : d.stride_dms ≠ 0

theorem ellipsisAxis_added {ellipsis_pos1 : Nat} (h : ellipsisAxis src_dims masks ellipsis_pos1 i a = .ok a') :
    ∃ d n, Added a a' d n ∧ a'.out_dims = a.out_dims ++ [n] := by
  unfold ellipsisAxis at h
  obtain ⟨e, -, h⟩ := bind_ok_iff.mp h
  obtain ⟨n, hn, h⟩ := bind_ok_iff.mp h
  rw [pure_ok_iff] at h
  subst h
  exact ⟨_, n, ⟨rfl, rfl, hn, show FitsInt 0 by decide, one_ne_zero⟩, rfl⟩

theorem sliceAxis_added (h : sliceAxis src_dims begin_ end_ stride masks max_dims i a = .ok a') :
    ∃ d n, Added a a' d n ∧ (masks.shrink_axis_mask[a.k]? ≠ some 1 → a'.out_dims = a.out_dims ++ [n]) := by
  unfold sliceAxis at h
  obtain ⟨⟨s, sj⟩, hs, h⟩ := bind_ok_iff.mp h
  obtain ⟨b, -, h⟩ := bind_ok_iff.mp h
  obtain ⟨dim, -, h⟩ := bind_ok_iff.mp h
  obtain ⟨b', hb', h⟩ := bind_ok_iff.mp h
  obtain ⟨e, -, h⟩ := bind_ok_iff.mp h
  obtain ⟨e', -, h⟩ := bind_ok_iff.mp h
  dsimp only at h
  obtain ⟨n, hn, h⟩ := bind_ok_iff.mp h
  rw [pure_ok_iff] at h
  subst h
  refine ⟨_, n, ⟨rfl, rfl, hn, fitsInt_normalise hb', readStride_ne hs⟩, fun hshrink => ?_⟩
  dsimp only
  rw [if_neg fun hcon => hshrink hcon.1]

/-- The masks of the helper for this input. -/
def masksOf (data : TensorDesc) (params : String → Option String) : Masks := readMasks params data.dims.length

/-- The number of axes of the helper for this input. -/
def rankOf (data : TensorDesc) (params : String → Option String) : Nat :=
  data.dims.length + (masksOf data params).new_axis_mask.sum

/-- What the constructor returns, from what the loop over the axes computed. -/
def helperOf (data : TensorDesc) (params : String → Option String) (axes : Axes) : StridedSliceHelper where
  src_dims := data.dims
  srcStrides := data.blockingDesc.strides
  max_dims := rankOf data params
  shrink_axis := (masksOf data params).shrink_axis_mask.sum
  new_axis_mask := (masksOf data params).new_axis_mask
  dms := axes.dms
  out_dims := axes.out_dims
  our_dims := axes.our_dims

theorem create_ok (hcreate : create data bounds params = .ok h) :
    ∃ begin_dims bounds_size end_dims stride_dims axes, readBeginDims bounds[0]? = .ok (begin_dims, bounds_size) ∧
      (List.range (rankOf data params)).foldlM (axis data.dims (bound begin_dims bounds[0]?) (bound end_dims bounds[1]?)
        (bound stride_dims bounds[2]?) (masksOf data params) (rankOf data params)
        (ellipsis (masksOf data params).ellipsis_mask (rankOf data params) bounds_size)) {} = .ok axes ∧
      h = helperOf data params axes := by
  unfold create at hcreate
  by_cases hedges : 3 < bounds.length
  · rw [if_pos hedges] at hcreate
    exact (throwException_ne_ok hcreate).elim
  · rw [if_neg hedges] at hcreate
    obtain ⟨⟨begin_dims, bounds_size⟩, hbegin, hcreate⟩ := bind_ok_iff.mp hcreate
    obtain ⟨end_dims, -, hcreate⟩ := bind_ok_iff.mp hcreate
    obtain ⟨stride_dims, -, hcreate⟩ := bind_ok_iff.mp hcreate
    by_cases hmask : 1 < (((params "ellipsis_mask").getD "").toList.count '1')
    · rw [if_pos hmask] at hcreate
      exact (throwException_ne_ok hcreate).elim
    · rw [if_neg hmask] at hcreate
      obtain ⟨axes, haxes, hcreate⟩ := bind_ok_iff.mp hcreate
      exact ⟨begin_dims, bounds_size, end_dims, stride_dims, axes, hbegin, haxes, (pure_ok_iff.mp hcreate).symm⟩

/-- What the constructor leaves behind. -/
structure Built (h : StridedSliceHelper) : Prop where
  dms : h.dms.length = h.max_dims
  our_dims : h.our_dims.length = h.max_dims
  pos : 0 ∉ h.our_dims
  start : ∀ d ∈ h.dms, FitsInt d.begin_dms
  stride : ∀ d ∈ h.dms, d.stride_dms ≠ 0
  max_dims : h.max_dims = h.src_dims.length + h.new_axis_mask.sum
  out_dims : h.shrink_axis = 0 → h.out_dims = h.our_dims

theorem built_of_create (hcreate : create data bounds params = .ok h) : h.Built := by
  obtain ⟨begin_dims, bounds_size, end_dims, stride_dims, axes, -, hloop, rfl⟩ := create_ok hcreate
  have hinv := range_ok_induct (I := fun i (a : Axes) => a.dms.length = i ∧ a.our_dims.length = i ∧ 0 ∉ a.our_dims ∧
      (∀ d ∈ a.dms, FitsInt d.begin_dms) ∧ (∀ d ∈ a.dms, d.stride_dms ≠ 0) ∧
      ((masksOf data params).shrink_axis_mask.sum = 0 → a.out_dims = a.our_dims)) hloop
    ⟨rfl, rfl, List.not_mem_nil, fun d hd => absurd hd List.not_mem_nil, fun d hd => absurd hd List.not_mem_nil,
      fun _ => rfl⟩ ?_
  · obtain ⟨hdms, hour, hpos, hstart, hstride, hout⟩ := hinv
    exact ⟨hdms, hour, hpos, hstart, hstride, rfl, hout⟩
  · rintro i - a a' ⟨hdms, hour, hpos, hstart, hstride, hout⟩ hround
    have hkept : ∀ {d n}, Added a a' d n → ((masksOf data params).shrink_axis_mask.sum = 0 →
        a'.out_dims = a.out_dims ++ [n]) → a'.dms.length = i + 1 ∧ a'.our_dims.length = i + 1 ∧ 0 ∉ a'.our_dims ∧
          (∀ d ∈ a'.dms, FitsInt d.begin_dms) ∧ (∀ d ∈ a'.dms, d.stride_dms ≠ 0) ∧
          ((masksOf data params).shrink_axis_mask.sum = 0 → a'.out_dims = a'.our_dims) := by
      intro d n hadded hout'
      have hn := axisLength_pos hadded.stride hadded.length
      rw [hadded.dms, hadded.our_dims]
      refine ⟨by rw [List.length_append, hdms, List.length_singleton],
        by rw [List.length_append, hour, List.length_singleton], ?_, ?_, ?_, fun hshrink => ?_⟩
      · rw [List.mem_append, List.mem_singleton, not_or]
        exact ⟨hpos, hn.ne⟩
      · rw [List.forall_mem_append, List.forall_mem_singleton]
        exact ⟨hstart, hadded.start⟩
      · rw [List.forall_mem_append, List.forall_mem_singleton]
        exact ⟨hstride, hadded.stride⟩
      · rw [hout' hshrink, hout hshrink]
    unfold axis at hround
    split_ifs at hround with hellipsis
    · obtain ⟨d, n, hadded, hout'⟩ := ellipsisAxis_added hround
      exact hkept hadded fun _ => hout'
    · obtain ⟨d, n, hadded, hout'⟩ := sliceAxis_added hround
      refine hkept hadded fun hshrink => hout' fun hone => ?_
      have hzero := List.sum_eq_zero_iff.mp hshrink 1 (List.mem_of_getElem? hone)
      exact absurd hzero one_ne_zero

/-- A helper with as many axes as the input has no new ones. -/
theorem Built.straight (hh : h.Built) (hrank : h.src_dims.length = h.max_dims)
    (hstrides : h.srcStrides.length = h.max_dims) : h.Straight := by
  refine ⟨fun i hone => ?_, hh.dms, hh.our_dims, hh.pos, hstrides⟩
  have hmax := hh.max_dims
  have hzero := List.sum_eq_zero_iff.mp (show h.new_axis_mask.sum = 0 by omega) 1 (List.mem_of_getElem? hone)
  exact absurd hzero one_ne_zero

end OpenVino.InferenceEngine.ShapeInfer.StridedSliceHelper
