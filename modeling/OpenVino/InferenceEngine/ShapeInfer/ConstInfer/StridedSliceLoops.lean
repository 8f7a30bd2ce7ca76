import OpenVino.InferenceEngine.ShapeInfer.ConstInfer.StridedSlice

/-!
# The loops of the strided slice

`place` is the sum that a source index stands for. The plain loop goes through the numbers of the output elements and
takes the wrapped place of each (`strided_slice_eq`); a thread of a fast loop does so from its start on
(`threadCopies_eq`), with the place updated from element to element (`nextIndex_eq`).
-/

namespace OpenVino.InferenceEngine.ShapeInfer.StridedSliceHelper

open BroadcastConstInfer

variable {h : StridedSliceHelper} {dms : List Dms} {srcStrides D v new_axis_mask : SizeVector} {axes : List SliceAxis}
  {x start : Int} {i j k n step : Nat}

/-! ### Places -/

/-- What one axis adds. -/
def axisPlace (d : Dms) (stride c : Nat) : Int := (d.begin_dms + c * d.stride_dms) * stride

/-- The sum of the axes. -/
def place : List Dms → SizeVector → SizeVector → Int
  | d :: dms, stride :: srcStrides, c :: v => axisPlace d stride c + place dms srcStrides v
  | _, _, _ => 0

/-- The value that an `int` has after the arithmetic in `size_t`. -/
def wrapInt (x : Int) : Int := x.bmod (2 ^ 32)

theorem wrapInt_add {y : Int} : wrapInt (wrapInt x + y) = wrapInt (x + y) := by
  unfold wrapInt
  exact Int.bmod_add_bmod

theorem toInt_toSizeT_eq : toInt (toSizeT x) = wrapInt x := toInt_toSizeT x

theorem wrapInt_of_fits (hx : FitsInt x) : wrapInt x = x := by
  obtain ⟨hle, hlt⟩ := hx
  unfold wrapInt
  apply Int.bmod_eq_of_le <;> omega

theorem fitsInt_wrapInt : FitsInt (wrapInt x) := by
  have hlt := @Int.bmod_lt x (2 ^ 32) (by norm_num)
  have hle := @Int.le_bmod x (2 ^ 32) (by norm_num)
  unfold FitsInt wrapInt
  omega

theorem wrapInt_wrapInt : wrapInt (wrapInt x) = wrapInt x := wrapInt_of_fits fitsInt_wrapInt

theorem addAxis_eq {d : Dms} {c stride : Nat} : addAxis x d c stride = wrapInt (x + axisPlace d stride c) :=
  toInt_toSizeT_eq

/-- Without new axes the plain loop adds up the axes. -/
theorem sourceIndex_eq (hmask : ∀ i : Nat, new_axis_mask[i]? ≠ some 1) (hlength : j + dms.length ≤ srcStrides.length)
    (hv : v.length = dms.length) (hx : FitsInt x) :
    sourceIndex new_axis_mask srcStrides i j x (dms.zip v) = .ok (wrapInt (x + place dms (srcStrides.drop j) v)) := by
  induction dms generalizing v i j x with
  | nil =>
    rw [List.zip_nil_left, sourceIndex, place, add_zero, wrapInt_of_fits hx]
    · rfl
    · exact fun _ _ _ _ _ _ hnil => absurd hnil (by simp)
  | cons d dms ih =>
    obtain ⟨c, v, rfl⟩ := List.exists_cons_of_length_eq_add_one hv
    rw [List.length_cons] at hlength
    rw [List.zip_cons_cons, sourceIndex, elemAt_eq (by omega), ok_bind, if_neg (hmask i),
      ih (by omega) (Nat.succ.inj hv) (by rw [addAxis_eq]; exact fitsInt_wrapInt), addAxis_eq, wrapInt_add,
      List.drop_eq_getElem_cons (show j < srcStrides.length by omega), place, add_assoc]

/-! ### The counters -/

theorem nextCounters_eq (hv : List.Forall₂ (· < ·) v D) :
    nextCounters (v.zip D) = (!(parallel_it_step v D).1, (parallel_it_step v D).2) := by
  induction hv with
  | nil => rfl
  | @cons c d v D hc _ ih =>
    rw [List.zip_cons_cons, nextCounters, ih, parallel_it_step]
    by_cases hcarry : (parallel_it_step v D).1 = true
    · by_cases hlast : c + 1 < d
      · simp [hcarry, hlast, Nat.mod_eq_of_lt hlast]
      · obtain rfl : d = c + 1 := by omega
        simp [hcarry]
    · simp [Bool.not_eq_true _ ▸ hcarry]

theorem decode_forall (hD : 0 ∉ D) : List.Forall₂ (· < ·) (decode D k) D := mem_box.mp (decode_mem hD)

theorem nextCounters_decode (hD : 0 ∉ D) : (nextCounters ((decode D k).zip D)).2 = decode D (k + 1) := by
  rw [nextCounters_eq (decode_forall hD), parallel_it_step_decode (Nat.pos_of_ne_zero (List.prod_ne_zero hD))]

/-! ### The plain loop -/

/-- The helper has no new axis, and as many axes as the input. -/
structure Straight (h : StridedSliceHelper) : Prop where
  mask : ∀ i : Nat, h.new_axis_mask[i]? ≠ some 1
  dms : h.dms.length = h.max_dims
  our_dims : h.our_dims.length = h.max_dims
  pos : 0 ∉ h.our_dims
  srcStrides : h.srcStrides.length = h.max_dims

theorem sliceFrom_eq (hh : h.Straight) : h.sliceFrom h.our_dims n i (decode h.our_dims k) =
    .ok ((List.range n).map fun j => (i + j, wrapInt (place h.dms h.srcStrides (decode h.our_dims (k + j))))) := by
  induction n generalizing i k with
  | zero => rfl
  | succ n ih =>
    have hindex := @sourceIndex_eq h.dms h.srcStrides (decode h.our_dims k) h.new_axis_mask 0 0 0 hh.mask
      (by rw [hh.dms, hh.srcStrides, Nat.zero_add]) (by rw [length_decode, hh.our_dims, hh.dms]) (by decide)
    rw [List.drop_zero, zero_add] at hindex
    rw [sliceFrom, hindex, ok_bind, nextCounters_decode hh.pos, ih, ok_bind, List.range_succ_eq_map, List.map_cons,
      List.map_map]
    refine congrArg Except.ok (congrArg₂ List.cons rfl (List.map_congr_left fun j _ => ?_))
    rw [Function.comp_apply, Nat.succ_eq_add_one, Nat.add_assoc, Nat.add_assoc, Nat.add_comm 1 j]

/-- The plain loop copies to each element from its place. -/
theorem strided_slice_eq (hh : h.Straight) {dstStrides : SizeVector} (hne : D ≠ [])
    (hstrides : ∃ stride dim, dstStrides[0]? = some stride ∧ D[0]? = some dim ∧ stride * dim = D.prod)
    (hsmall : D.prod < 2 ^ 64) : h.strided_slice D dstStrides =
      .ok ((List.range D.prod).map fun k => (k, wrapInt (place h.dms h.srcStrides (decode h.our_dims k)))) := by
  obtain ⟨stride, dim, hstride, hdim, hwork⟩ := hstrides
  unfold strided_slice
  rw [if_neg (fun hnil => hne hnil.2),
    show elemAt "dstStrides[0]" dstStrides 0 = .ok stride from elemAt_ok_iff.mpr ⟨le_refl _, hstride⟩, ok_bind,
    show elemAt "dst_dims[0]" D 0 = .ok dim from elemAt_ok_iff.mpr ⟨le_refl _, hdim⟩, ok_bind, hwork,
    toSizeT_natCast hsmall, pure_bind, ← hh.our_dims, ← decode_zero, sliceFrom_eq hh]
  simp only [Nat.zero_add]

/-! ### The fast loops -/

/-- The sizes of the output along the axes of a thread. -/
def threadDims (axes : List SliceAxis) : SizeVector := axes.map SliceAxis.dst_dim

/-- The sum of the axes of a thread. -/
def threadPlace (axes : List SliceAxis) (v : SizeVector) : Int :=
  place (axes.map SliceAxis.dms) (axes.map SliceAxis.srcStride) v

theorem threadPlace_cons {a : SliceAxis} {c : Nat} :
    threadPlace (a :: axes) (c :: v) = axisPlace a.dms a.srcStride c + threadPlace axes v := rfl

theorem indexOf_eq (hv : v.length = axes.length) (hx : FitsInt x) :
    indexOf x axes v = wrapInt (x + threadPlace axes v) := by
  induction axes generalizing v x with
  | nil =>
    obtain rfl := List.length_eq_zero_iff.mp hv
    rw [threadPlace, List.map_nil, place, add_zero, wrapInt_of_fits hx]
    · rfl
    · exact fun _ _ _ _ _ _ hnil => absurd hnil (by simp)
  | cons a axes ih =>
    obtain ⟨c, v, rfl⟩ := List.exists_cons_of_length_eq_add_one hv
    have hrest := @ih v (addAxis x a.dms c a.srcStride) (Nat.succ.inj hv) (by rw [addAxis_eq]; exact fitsInt_wrapInt)
    rw [addAxis_eq, wrapInt_add, add_assoc] at hrest
    rw [threadPlace_cons, ← hrest, ← addAxis_eq, indexOf, List.zip_cons_cons, List.foldl_cons, indexOf]

/-- What the loop to the next element does: it takes a carry as far as it goes, and as long as there is none the source
index goes along. -/
theorem advance_spec (hv : List.Forall₂ (· < ·) v (threadDims axes)) :
    (advance x (axes.zip v)).1 = !(parallel_it_step v (threadDims axes)).1 ∧
      (advance x (axes.zip v)).2.2.1 = (parallel_it_step v (threadDims axes)).2 ∧
      ((advance x (axes.zip v)).2.1 = false → (axes = [] ∨ (advance x (axes.zip v)).1 = true) ∧
        wrapInt (advance x (axes.zip v)).2.2.2 =
          wrapInt (x + (threadPlace axes (parallel_it_step v (threadDims axes)).2 - threadPlace axes v))) := by
  induction axes generalizing v with
  | nil =>
    obtain rfl := List.forall₂_nil_right_iff.mp hv
    refine ⟨rfl, rfl, fun _ => ⟨.inl rfl, ?_⟩⟩
    simp [threadPlace, place, advance, parallel_it_step]
  | cons a axes ih =>
    rw [threadDims, List.map_cons, ← threadDims] at hv ⊢
    obtain ⟨c, w, hc, hw, rfl⟩ := List.forall₂_cons_right_iff.mp hv
    obtain ⟨hdone, hcounters, hindex⟩ := ih hw
    rw [List.zip_cons_cons, advance, parallel_it_step]
    by_cases hcarry : (parallel_it_step w (threadDims axes)).1 = true
    · have hdone : (advance x (axes.zip w)).1 = false := by rw [hdone, hcarry]; rfl
      by_cases hlast : c + 1 < a.dst_dim
      · have hstep : (c + 1) % a.dst_dim = c + 1 := Nat.mod_eq_of_lt hlast
        simp only [hdone, hcarry, hlast, hstep, hcounters, if_true, Bool.false_eq_true, if_false, true_and, or_true]
        refine ⟨rfl, fun hwrapped => ?_⟩
        obtain ⟨hnil, hindex⟩ := hindex hwrapped
        have hnil : axes = [] := by
          rcases hnil with hnil | htrue
          · exact hnil
          · rw [hdone] at htrue
            cases htrue
        subst hnil
        obtain rfl := List.forall₂_nil_right_iff.mp hw
        have hstart : (advance x ([].zip [])).2.2.2 = x := rfl
        have hzero : ∀ u, threadPlace [] u = 0 := fun _ => rfl
        rw [threadPlace_cons, threadPlace_cons, toInt_toSizeT_eq, wrapInt_wrapInt, hstart, hzero, hzero, axisPlace,
          axisPlace]
        congr 1
        push_cast
        ring
      · obtain heq : a.dst_dim = c + 1 := by omega
        simp only [hdone, hcarry, heq, lt_irrefl, Nat.mod_self, hcounters, if_true, Bool.false_eq_true, if_false]
        exact ⟨rfl, trivial, fun hfalse => absurd hfalse (by decide)⟩
    · have hcarry : (parallel_it_step w (threadDims axes)).1 = false := Bool.not_eq_true _ ▸ hcarry
      have hdone : (advance x (axes.zip w)).1 = true := by rw [hdone, hcarry]; rfl
      simp only [hdone, hcarry, hcounters, if_true, Bool.false_eq_true, if_false, Bool.not_false, true_and, or_true]
      intro hwrapped
      rw [threadPlace_cons, threadPlace_cons, (hindex hwrapped).2]
      congr 1
      ring

theorem fitsInt_advance : ∀ (axes : List (SliceAxis × Nat)), FitsInt x → FitsInt (advance x axes).2.2.2 := by
  intro axes hx
  induction axes with
  | nil => exact hx
  | cons a axes ih =>
    obtain ⟨axis, counter⟩ := a
    rw [advance]
    dsimp only
    split_ifs
    · exact ih
    · dsimp only
      rw [toInt_toSizeT_eq]
      exact fitsInt_wrapInt
    · exact ih

section Thread

variable (hstart : FitsInt start) (hpos : 0 ∉ threadDims axes)

include hstart hpos

/-- The source index is that of the counters, whether it has gone along or is computed anew. -/
theorem nextIndex_eq :
    nextIndex start axes (decode (threadDims axes) k) (wrapInt (start + threadPlace axes (decode (threadDims axes) k))) =
      (decode (threadDims axes) (k + 1), wrapInt (start + threadPlace axes (decode (threadDims axes) (k + 1)))) := by
  have hprod : 0 < (threadDims axes).prod := Nat.pos_of_ne_zero (List.prod_ne_zero hpos)
  have hlength : ∀ {k}, (decode (threadDims axes) k).length = axes.length := by
    intro k
    rw [length_decode, threadDims, List.length_map]
  set src_idx := wrapInt (start + threadPlace axes (decode (threadDims axes) k)) with hsrc_idx
  obtain ⟨-, hcounters, hindex⟩ := @advance_spec _ axes src_idx (decode_forall hpos)
  rw [parallel_it_step_decode hprod] at hcounters hindex
  dsimp only at hcounters hindex
  unfold nextIndex
  dsimp only
  rw [hcounters]
  by_cases hwrapped : (advance src_idx (axes.zip (decode (threadDims axes) k))).2.1 = true
  · rw [if_pos hwrapped, indexOf_eq hlength hstart]
  · rw [if_neg hwrapped]
    obtain ⟨hdone, hindex⟩ := hindex (Bool.not_eq_true _ ▸ hwrapped)
    rw [hsrc_idx, wrapInt_add, ← hsrc_idx] at hindex
    have hgoal : start + threadPlace axes (decode (threadDims axes) k) + (threadPlace axes (decode (threadDims axes)
        (k + 1)) - threadPlace axes (decode (threadDims axes) k)) =
          start + threadPlace axes (decode (threadDims axes) (k + 1)) := by ring
    rw [hgoal] at hindex
    rw [← hindex, wrapInt_of_fits (fitsInt_advance _ (by rw [hsrc_idx]; exact fitsInt_wrapInt))]

theorem threadFrom_eq (hsmall : (i + n) * step < 2 ^ 64) :
    threadFrom start axes step n (i * step) (decode (threadDims axes) k)
      (wrapInt (start + threadPlace axes (decode (threadDims axes) k))) =
      (List.range n).map fun j =>
        ((i + j) * step, wrapInt (start + threadPlace axes (decode (threadDims axes) (k + j)))) := by
  induction n generalizing i k with
  | zero => rfl
  | succ n ih =>
    have hrest : (i + 1 + n) * step < 2 ^ 64 := by rwa [Nat.add_assoc, Nat.add_comm 1 n]
    have hle : (i + 1) * step ≤ (i + 1 + n) * step := Nat.mul_le_mul_right step (Nat.le_add_right _ _)
    have hidx : i * step + step = (i + 1) * step := (Nat.succ_mul i step).symm
    rw [threadFrom, nextIndex_eq hstart hpos, hidx, toSizeT_natCast (by omega)]
    dsimp only
    rw [ih hrest, List.range_succ_eq_map, List.map_cons, List.map_map]
    refine congrArg₂ List.cons rfl (List.map_congr_left fun j _ => ?_)
    rw [Function.comp_apply, Nat.succ_eq_add_one, Nat.add_assoc, Nat.add_assoc, Nat.add_comm 1 j]

end Thread

/-- What a thread copies in its part: the truncated start goes along. -/
def threadPlaces (start : Int) (axes : List SliceAxis) (step : Nat) (part : Nat × Nat) : List (Nat × Int) :=
  (List.range (part.2 - part.1)).map fun j => ((part.1 + j) * step,
    wrapInt (start + threadPlace axes (decode (threadDims axes) (startNumber (threadDims axes) part.1 + j))))

theorem threadCopies_eq (hstart : FitsInt start) (hpos : 0 ∉ threadDims axes) {work nthr ithr : Nat}
    (hpart : (splitter work nthr ithr).1 ≤ (splitter work nthr ithr).2)
    (hend : (splitter work nthr ithr).2 * step < 2 ^ 64) :
    threadCopies start axes step work nthr ithr = .ok (threadPlaces start axes step (splitter work nthr ithr)) := by
  set part := splitter work nthr ithr with hsplit
  have hle : part.1 * step ≤ part.2 * step := Nat.mul_le_mul_right step hpart
  have hcounters : (startCounters (threadDims axes) (toInt part.1)).2 =
      decode (threadDims axes) (startNumber (threadDims axes) part.1) := (decode_encode (startCounters_lt hpos)).symm
  have hlength : (decode (threadDims axes) (startNumber (threadDims axes) part.1)).length = axes.length := by
    rw [length_decode, threadDims, List.length_map]
  unfold threadCopies
  rw [← hsplit]
  dsimp only
  rw [← threadDims, if_neg hpos, toSizeT_natCast (by omega), hcounters, indexOf_eq hlength hstart,
    threadFrom_eq hstart hpos (by rwa [Nat.add_sub_cancel' hpart])]
  rfl

/-! ### All threads -/

/-- What all threads copy. -/
def allThreadPlaces (start : Int) (axes : List SliceAxis) (step nthr : Nat) : List (Nat × Int) :=
  (List.range nthr).flatMap fun (ithr : Nat) =>
    threadPlaces start axes step (splitter (threadDims axes).prod nthr ithr)

/-- What they are to copy. -/
def rightPlaces (start : Int) (axes : List SliceAxis) (step : Nat) : List (Nat × Int) :=
  (List.range (threadDims axes).prod).map fun r =>
    (r * step, wrapInt (start + threadPlace axes (decode (threadDims axes) r)))

/-- A thread starts below `2 ^ 31`, or its truncated start stands for the same places as its start. -/
def StartsAgree (start : Int) (axes : List SliceAxis) (nthr : Nat) : Prop :=
  ∀ ithr < nthr, (splitter (threadDims axes).prod nthr ithr).1 < 2 ^ 31 ∨
    ∀ j < (splitter (threadDims axes).prod nthr ithr).2 - (splitter (threadDims axes).prod nthr ithr).1,
      wrapInt (start + threadPlace axes (decode (threadDims axes)
        (startNumber (threadDims axes) (splitter (threadDims axes).prod nthr ithr).1 + j))) =
      wrapInt (start + threadPlace axes (decode (threadDims axes)
        ((splitter (threadDims axes).prod nthr ithr).1 + j)))

section AllThreads

variable {nthr : Nat}

theorem threads_mapM (hstart : FitsInt start) (hpos : 0 ∉ threadDims axes) (hnthr : 1 ≤ nthr)
    (hfits : (threadDims axes).prod + nthr ≤ 2 ^ 64) (hsmall : (threadDims axes).prod * step < 2 ^ 64) :
    (List.range nthr).mapM (fun (ithr : Nat) => threadCopies start axes step (threadDims axes).prod nthr ithr) =
      .ok ((List.range nthr).map fun (ithr : Nat) =>
        threadPlaces start axes step (splitter (threadDims axes).prod nthr ithr)) := by
  obtain ⟨f, -, hend, hmono, hsplit⟩ := @exists_parts (threadDims axes).prod nthr hnthr hfits
  have hle : ∀ i ≤ nthr, f i ≤ f nthr := fun i hi => part_mono hmono hi le_rfl
  rw [hend] at hle
  refine mapM_eq_map fun ithr hithr => ?_
  have hithr := List.mem_range.mp hithr
  have hstep : f (ithr + 1) * step ≤ (threadDims axes).prod * step := Nat.mul_le_mul_right step (hle (ithr + 1) hithr)
  refine threadCopies_eq hstart hpos ?_ ?_
  · rw [hsplit ithr hithr]
    exact hmono ithr hithr
  · rw [hsplit ithr hithr]
    exact hstep.trans_lt hsmall

theorem map_fst_allThreadPlaces (hnthr : 1 ≤ nthr) (hfits : (threadDims axes).prod + nthr ≤ 2 ^ 64) :
    (allThreadPlaces start axes step nthr).map Prod.fst = (List.range (threadDims axes).prod).map (· * step) := by
  obtain ⟨f, hzero, hend, hmono, hsplit⟩ := @exists_parts (threadDims axes).prod nthr hnthr hfits
  rw [allThreadPlaces, List.map_flatMap, ← hend, ← flatMap_range' hzero hmono, List.map_flatMap]
  refine List.flatMap_congr fun ithr hithr => ?_
  rw [hend, hsplit ithr (List.mem_range.mp hithr), threadPlaces, List.map_map, List.range'_eq_map_range, List.map_map]
  rfl

/-- When the starts stand for the same places, the threads copy what they are to copy. -/
theorem allThreadPlaces_eq (hnthr : 1 ≤ nthr) (hfits : (threadDims axes).prod + nthr ≤ 2 ^ 64)
    (hstarts : StartsAgree start axes nthr) : allThreadPlaces start axes step nthr = rightPlaces start axes step := by
  obtain ⟨f, hzero, hend, hmono, hsplit⟩ := @exists_parts (threadDims axes).prod nthr hnthr hfits
  have hle : ∀ i ≤ nthr, f i ≤ f nthr := fun i hi => part_mono hmono hi le_rfl
  rw [hend] at hle
  rw [allThreadPlaces, rightPlaces, ← hend, ← flatMap_range' hzero hmono, List.map_flatMap]
  refine List.flatMap_congr fun ithr hithr => ?_
  have hithr := List.mem_range.mp hithr
  have hstart := hstarts ithr hithr
  rw [hsplit ithr hithr] at hstart
  rw [hend, hsplit ithr hithr, threadPlaces, List.range'_eq_map_range, List.map_map]
  refine List.map_congr_left fun j hj => ?_
  have hj := List.mem_range.mp hj
  rw [Function.comp_apply]
  refine congrArg (Prod.mk _) ?_
  rcases hstart with hlt | hsame
  · have hinside := hle (ithr + 1) hithr
    dsimp only at hlt hj ⊢
    rw [startNumber_eq hlt, Nat.mod_eq_of_lt (by omega)]
  · exact hsame j hj

theorem mem_allThreadPlaces {ithr j : Nat} (hithr : ithr < nthr)
    (hj : j < (splitter (threadDims axes).prod nthr ithr).2 - (splitter (threadDims axes).prod nthr ithr).1) :
    (((splitter (threadDims axes).prod nthr ithr).1 + j) * step,
      wrapInt (start + threadPlace axes (decode (threadDims axes)
        (startNumber (threadDims axes) (splitter (threadDims axes).prod nthr ithr).1 + j)))) ∈
      allThreadPlaces start axes step nthr := by
  rw [allThreadPlaces, List.mem_flatMap]
  exact ⟨ithr, List.mem_range.mpr hithr, List.mem_map.mpr ⟨j, List.mem_range.mpr hj, rfl⟩⟩

end AllThreads

end OpenVino.InferenceEngine.ShapeInfer.StridedSliceHelper
