import OpenVino.InferenceEngine.ShapeInfer.ConstInfer.ReduceInfer

/-!
# What a reduction gives

`Reduces` says what each mode makes of the elements that go into an output, without an order or an initial value;
`reduces_folded` is that the fold of the code does. `reducesCorrectly_iff`: on every machine the inference gives this
for every output exactly with `keep_dims` and an input that is no scalar. Without `keep_dims` the code walks
over counters with as many axes as the output has (`reduce_without`), and the axes with ones in the place of the reduced
ones that it has put together as well are not used.
-/

namespace OpenVino.InferenceEngine.ShapeInfer

namespace ReduceConstInfer

open Axes

variable {nthr : Nat} {L : Axes} {shape dims : SizeVector} {xs idx ys : List (BitVec 32)} {t : ReduceType}

/-! ### The modes -/

/-- `r` is the reduction of the elements `ys`. -/
def Reduces (t : ReduceType) (ys : List (BitVec 32)) (r : BitVec 32) : Prop :=
  match t with
  | .ReduceAnd => r = if ∀ y ∈ ys, y ≠ 0 then 1 else 0
  | .ReduceOr => r = if ∃ y ∈ ys, y ≠ 0 then 1 else 0
  | .ReduceSum => r = ys.sum
  | .ReduceL1 => r = (ys.map BitVec.abs).sum
  | .ReduceProd => r = ys.prod
  | .ReduceSumSquare => r = (ys.map fun y => y * y).sum
  | .ReduceMax => r ∈ ys ∧ ∀ y ∈ ys, y.toInt ≤ r.toInt
  | .ReduceMin => r ∈ ys ∧ ∀ y ∈ ys, r.toInt ≤ y.toInt

theorem folded_sum : folded 32 .ReduceSum ys = ys.sum := by
  induction ys using List.reverseRecOn with
  | nil => rfl
  | append_singleton ys y ih =>
    rw [folded_append, ih, func1, BitVec.signExtend_eq, List.sum_append, List.sum_singleton]

theorem folded_l1 : folded 32 .ReduceL1 ys = (ys.map BitVec.abs).sum := by
  induction ys using List.reverseRecOn with
  | nil => rfl
  | append_singleton ys y ih =>
    rw [folded_append, ih, func1, BitVec.signExtend_eq, List.map_append, List.sum_append, List.map_singleton,
      List.sum_singleton]

theorem folded_sumSquare : folded 32 .ReduceSumSquare ys = (ys.map fun y => y * y).sum := by
  induction ys using List.reverseRecOn with
  | nil => rfl
  | append_singleton ys y ih =>
    rw [folded_append, ih, func1, BitVec.signExtend_eq, List.map_append, List.sum_append, List.map_singleton,
      List.sum_singleton]

theorem folded_prod : folded 32 .ReduceProd ys = ys.prod := by
  induction ys using List.reverseRecOn with
  | nil => rfl
  | append_singleton ys y ih =>
    rw [folded_append, ih, func1, BitVec.signExtend_eq, List.prod_append, List.prod_singleton]

theorem folded_and : folded 32 .ReduceAnd ys = if ∀ y ∈ ys, y ≠ 0 then 1 else 0 := by
  induction ys using List.reverseRecOn with
  | nil =>
    rw [if_pos (by simp)]
    rfl
  | append_singleton ys y ih =>
    have hone : (1 : BitVec 32) ≠ 0 := by decide
    rw [folded_append, ih, func1]
    by_cases hall : ∀ z ∈ ys, z ≠ 0
    · rw [if_pos hall]
      refine if_congr ?_ rfl rfl
      rw [and_iff_right hone, List.forall_mem_append, and_iff_right hall, List.forall_mem_singleton]
    · rw [if_neg hall, if_neg fun h => h.1 rfl, if_neg]
      exact fun h => hall fun z hz => h z (List.mem_append_left _ hz)

theorem folded_or : folded 32 .ReduceOr ys = if ∃ y ∈ ys, y ≠ 0 then 1 else 0 := by
  induction ys using List.reverseRecOn with
  | nil =>
    rw [if_neg (by simp)]
    rfl
  | append_singleton ys y ih =>
    have hone : (1 : BitVec 32) ≠ 0 := by decide
    rw [folded_append, ih, func1]
    by_cases hsome : ∃ z ∈ ys, z ≠ 0
    · rw [if_pos hsome, if_pos (.inl hone), if_pos]
      obtain ⟨z, hz, hne⟩ := hsome
      exact ⟨z, List.mem_append_left _ hz, hne⟩
    · rw [if_neg hsome]
      refine if_congr ⟨fun h => ?_, ?_⟩ rfl rfl
      · exact ⟨y, List.mem_append_right _ List.mem_cons_self, h.resolve_left fun h => h rfl⟩
      · rintro ⟨z, hz, hne⟩
        rcases List.mem_append.mp hz with hz | hz
        · exact absurd ⟨z, hz, hne⟩ hsome
        · rw [List.mem_singleton.mp hz] at hne
          exact .inr hne

/-- A fold that chooses gives the best element, or the value before them. -/
theorem foldl_choice (ys : List (BitVec 32)) {f : BitVec 32 → BitVec 32 → BitVec 32} {R : BitVec 32 → BitVec 32 → Prop}
    (hrefl : ∀ a, R a a) (htrans : ∀ {a b c}, R a b → R b c → R a c)
    (hf : ∀ a y, (f a y = a ∨ f a y = y) ∧ R a (f a y) ∧ R y (f a y)) (a : BitVec 32) :
    (ys.foldl f a = a ∨ ys.foldl f a ∈ ys) ∧ R a (ys.foldl f a) ∧ ∀ y ∈ ys, R y (ys.foldl f a) := by
  induction ys generalizing a with
  | nil => exact ⟨.inl rfl, hrefl a, by simp⟩
  | cons y ys ih =>
    obtain ⟨hmem, hbest, hall⟩ := ih (f a y)
    obtain ⟨hchoice, hleft, hright⟩ := hf a y
    rw [List.foldl_cons]
    refine ⟨?_, htrans hleft hbest, ?_⟩
    · rcases hmem with heq | hmem
      · rw [heq]
        rcases hchoice with h | h
        · exact .inl h
        · rw [h]
          exact .inr List.mem_cons_self
      · exact .inr (List.mem_cons_of_mem y hmem)
    · intro z hz
      rcases List.mem_cons.mp hz with rfl | hz
      · exact htrans hright hbest
      · exact hall z hz

theorem func1_max (a y : BitVec 32) : (func1 .ReduceMax a y = a ∨ func1 .ReduceMax a y = y) ∧
    a.toInt ≤ (func1 .ReduceMax a y).toInt ∧ y.toInt ≤ (func1 .ReduceMax a y).toInt := by
  simp only [func1, BitVec.signExtend_eq]
  split_ifs with hlt
  · exact ⟨.inl rfl, le_refl _, (slt_iff.mp hlt).le⟩
  · exact ⟨.inr rfl, not_lt.mp fun h => hlt (slt_iff.mpr h), le_refl _⟩

theorem func1_min (a y : BitVec 32) : (func1 .ReduceMin a y = a ∨ func1 .ReduceMin a y = y) ∧
    (func1 .ReduceMin a y).toInt ≤ a.toInt ∧ (func1 .ReduceMin a y).toInt ≤ y.toInt := by
  simp only [func1, BitVec.signExtend_eq]
  split_ifs with hlt
  · exact ⟨.inl rfl, le_refl _, (slt_iff.mp hlt).le⟩
  · exact ⟨.inr rfl, not_lt.mp fun h => hlt (slt_iff.mpr h), le_refl _⟩

/-- **The fold** of the code is the reduction. -/
theorem reduces_folded (hne : ys ≠ []) : Reduces t ys (folded 32 t ys) := by
  cases t with
  | ReduceAnd => exact folded_and
  | ReduceOr => exact folded_or
  | ReduceSum => exact folded_sum
  | ReduceL1 => exact folded_l1
  | ReduceProd => exact folded_prod
  | ReduceSumSquare => exact folded_sumSquare
  | ReduceMax =>
    obtain ⟨hmem, -, hall⟩ := foldl_choice ys (R := fun a b => a.toInt ≤ b.toInt) (fun a => le_refl a.toInt)
      le_trans func1_max (init_value .ReduceMax)
    refine ⟨?_, hall⟩
    rcases hmem with heq | hmem
    · -- Nothing is greater than the initial value, so all elements are equal to it.
      obtain ⟨y, hy⟩ := List.exists_mem_of_ne_nil ys hne
      have hle := hall y hy
      have hlow : (init_value .ReduceMax : BitVec 32).toInt ≤ y.toInt := by
        rw [init_value, BitVec.toInt_intMin]
        exact BitVec.le_toInt y
      rw [heq] at hle
      rw [folded, heq, BitVec.eq_of_toInt_eq (le_antisymm hlow hle)]
      exact hy
    · exact hmem
  | ReduceMin =>
    obtain ⟨hmem, -, hall⟩ := foldl_choice ys (R := fun a b => b.toInt ≤ a.toInt) (fun a => le_refl a.toInt)
      (fun h h' => le_trans h' h) func1_min (init_value .ReduceMin)
    refine ⟨?_, hall⟩
    rcases hmem with heq | hmem
    · obtain ⟨y, hy⟩ := List.exists_mem_of_ne_nil ys hne
      have hle := hall y hy
      rw [heq] at hle
      rw [folded, heq, BitVec.eq_of_toInt_eq (le_antisymm hle (toInt_le_intMax y))]
      exact hy
    · exact hmem

/-! ### Shapes -/

/-- The shape of the output. -/
def outDims (keep_dims : Bool) (shape : SizeVector) (idx : List (BitVec 32)) : SizeVector :=
  (List.range shape.length).flatMap fun i =>
    if i ∈ idx.map (axisOf shape.length) then if keep_dims then [1] else [] else [shape.getD i 0]

theorem outDims_keep : outDims true shape idx = kept (axesOf shape idx) := by
  rw [kept_axesOf]
  rfl

theorem inferShapes_eq (keep_dims : Bool) {data indexes : Blob (List (BitVec 32))} (hrank : shape.length < 2 ^ 31)
    (hidx : InRange shape idx) (hdata : Dense data .I32 shape xs) (hindexes : Dense indexes .I32 [idx.length] idx) :
    ReduceShapeProp.inferShapesImpl keep_dims [data, indexes] = .ok [outDims keep_dims shape idx] := by
  have haxes : ∀ e message, readAxes e message shape.length [idx.length] idx = .ok (idx.map (axisOf shape.length)) :=
    fun e message => readAxes_eq hrank hidx
  unfold ReduceShapeProp.inferShapesImpl
  dsimp only
  rw [hindexes.dims, hindexes.precision, hdata.dims, dataOf_dense hindexes]
  simp only [List.length_singleton, lt_irrefl, if_false, ne_eq, not_true_eq_false, ok_bind, haxes]
  rfl

theorem prod_outDims {keep_dims : Bool} : (outDims keep_dims shape idx).prod = (kept (axesOf shape idx)).prod := by
  rw [← outDims_keep, outDims, outDims]
  induction List.range shape.length with
  | nil => rfl
  | cons i l ih =>
    rw [List.flatMap_cons, List.flatMap_cons, List.prod_append, List.prod_append, ih]
    cases keep_dims
    · by_cases hi : i ∈ idx.map (axisOf shape.length)
      · rw [if_pos hi, if_pos hi]
        rfl
      · rw [if_neg hi, if_neg hi]
    · rfl

theorem kept_pos (idx : List (BitVec 32)) (hpos : 0 ∉ shape) : 0 ∉ kept (axesOf shape idx) :=
  not_mem_kept (sizes_axesOf.symm ▸ hpos)

theorem kept_le (idx : List (BitVec 32)) (hpos : 0 ∉ shape) : (kept (axesOf shape idx)).prod ≤ shape.prod := by
  have hle := kept_prod_le (L := axesOf shape idx) (sizes_axesOf.symm ▸ hpos)
  rwa [sizes_axesOf] at hle

theorem reduced_pos (idx : List (BitVec 32)) (hpos : 0 ∉ shape) : 0 < (reduced (axesOf shape idx)).prod := by
  have hprod := prod_sizes (L := axesOf shape idx)
  rw [sizes_axesOf] at hprod
  refine Nat.pos_of_ne_zero fun h => ?_
  rw [h, Nat.mul_zero] at hprod
  exact hpos (List.prod_eq_zero_iff.mp hprod)

/-! ### Without `keep_dims` -/

/-- The counters of the output have no place for the last axes of the input. -/
theorem index_short {strides counters : SizeVector} {r : Nat} (h : counters.length < shape.length) :
    index shape strides counters ≠ .ok r := by
  intro hrun
  obtain ⟨k, hk⟩ := Nat.exists_eq_add_of_lt h
  have hsplit : List.range shape.length =
      List.range counters.length ++ counters.length :: (List.range k).map (counters.length + 1 + ·) := by
    rw [hk, Nat.add_assoc, Nat.add_comm k 1, List.range_add, List.range_add, List.map_append, List.map_map]
    simp [Nat.add_assoc, Function.comp_def]
  rw [index, hsplit, List.foldlM_append] at hrun
  obtain ⟨s, -, hrun⟩ := bind_ok_iff.mp hrun
  rw [List.foldlM_cons] at hrun
  obtain ⟨s', hs', -⟩ := bind_ok_iff.mp hrun
  obtain ⟨counter, hcounter, -⟩ := bind_ok_iff.mp hs'
  obtain ⟨-, hget⟩ := elemAt_ok_iff.mp hcounter
  rw [Int.toNat_natCast, List.getElem?_eq_none (le_refl _)] at hget
  cases hget

theorem reduce_without {strides : SizeVector} {work m : Nat} {axes : List Nat} {zs r : List (BitVec 32)}
    (hlength : dims.length < shape.length) (hwork : 0 < work) (hsmall : work < 2 ^ 62) (hm : 0 < m) :
    reduce 1 shape strides xs work m axes dims (init_value t) t zs ≠ .ok r := by
  intro hrun
  have hteam : 1 ≤ toSizeT (work + 1 : Nat) := by
    rw [toSizeT_natCast (by omega)]
    omega
  rw [reduce, if_pos hteam, List.range_one, List.foldlM_cons] at hrun
  obtain ⟨s, hs, -⟩ := bind_ok_iff.mp hrun
  obtain ⟨work, rfl⟩ := Nat.exists_eq_succ_of_ne_zero hwork.ne'
  obtain ⟨m, rfl⟩ := Nat.exists_eq_succ_of_ne_zero hm.ne'
  have hpart : splitter work.succ (1 : Nat) (0 : Nat) = (0, work.succ) := rfl
  rw [outputPart, hpart] at hs
  obtain ⟨counters, hcounters, hs⟩ := bind_ok_iff.mp hs
  have hcount : counters.length = dims.length := by
    rw [unravel] at hcounters
    split_ifs at hcounters
    rw [← Except.ok.inj hcounters, parallel_it_init_eq, length_decode]
  rw [Nat.sub_zero, List.range'_succ, List.foldlM_cons] at hs
  obtain ⟨s', hs', -⟩ := bind_ok_iff.mp hs
  obtain ⟨s'', hs'', -⟩ := bind_ok_iff.mp hs'
  obtain ⟨x, hx, -⟩ := bind_ok_iff.mp hs''
  rw [reduceElement, List.range_succ_eq_map, List.foldlM_cons] at hx
  obtain ⟨y, hy, -⟩ := bind_ok_iff.mp hx
  obtain ⟨z, hz, -⟩ := bind_ok_iff.mp hy
  obtain ⟨cursor, hcursor, -⟩ := bind_ok_iff.mp hz
  rw [Cursor.refresh, if_pos rfl] at hcursor
  obtain ⟨i, hi, -⟩ := bind_ok_iff.mp hcursor
  exact index_short (by rw [hcount]; exact hlength) hi

theorem inferImpl_without {data indexes out : Blob (List (BitVec 32))} {zs r : List (BitVec 32)} (hpos : 0 ∉ shape)
    (hshape : InMemory shape) (hidx : InRange shape idx) (hdata : Dense data .I32 shape xs)
    (hindexes : Dense indexes .I32 [idx.length] idx) (hout : Dense out .I32 (outDims false shape idx) zs) :
    inferImpl 1 t false [data, indexes] [out] ≠ .ok r := by
  have haxes : ∀ e message, readAxes e message shape.length [idx.length] idx = .ok (idx.map (axisOf shape.length)) :=
    fun e message => readAxes_eq hshape.rank hidx
  have hwork : (outDims false shape idx).prod < 2 ^ 62 := by
    rw [prod_outDims]
    exact (kept_le idx hpos).trans_lt hshape.prod
  have hdims : ¬(((outDims false shape idx).zip (outDims false shape idx)).any fun p => decide ¬p.1 = p.2) = true := by
    rw [List.any_eq_true]
    rintro ⟨⟨a, b⟩, hab, hne⟩
    exact of_decide_eq_true hne (zip_self hab)
  intro hrun
  unfold inferImpl at hrun
  dsimp only at hrun
  rw [hindexes.dims, hindexes.precision, hdata.dims, hout.dims, hdata.strides, hdata.precision, hout.precision,
    dataOf_dense hindexes, dataOf_dense hdata, dataOf_dense hout] at hrun
  simp only [List.length_singleton, lt_irrefl, if_false, ne_eq, not_true_eq_false, ok_bind, haxes,
    Bool.false_eq_true, not_false_eq_true, true_and, false_and, false_or] at hrun
  have hout_dims : ((List.range shape.length).flatMap fun i =>
      if i ∈ idx.map (axisOf shape.length) then [] else [shape.getD i 0]) = outDims false shape idx := rfl
  rw [hout_dims] at hrun
  by_cases hrank : shape.length ≤ (outDims false shape idx).length
  · rw [if_pos hrank] at hrun
    cases hrun
  · rw [if_neg hrank, if_neg hdims, workAmount_eq hout (by omega), ok_bind] at hrun
    have hreduced : (reduced (axesOf shape idx)).prod < 2 ^ 62 :=
      reduced_prod_lt (kept_pos idx hpos) (sizes_axesOf.symm ▸ hshape.prod)
    rw [if_pos (by decide), ← reducedFrom_axesOf, prod_reducedFrom, toSizeT_natCast (by omega)] at hrun
    refine reduce_without (by omega) ?_ hwork (reduced_pos idx hpos) hrun
    rw [prod_outDims]
    exact prod_pos_of_not_mem (kept_pos idx hpos)

/-! ### With `keep_dims` -/

/-- The elements that go into output `j`. -/
def elementsOf (shape : SizeVector) (idx : List (BitVec 32)) (xs : List (BitVec 32)) (j : Nat) : List (BitVec 32) :=
  (elements (axesOf shape idx) (decode (kept (axesOf shape idx)) j)).map fun v => xs.getD (encode shape v) 0

theorem reducedValue_elementsOf {j : Nat} : reducedValue t (init_value t : BitVec 32) (axesOf shape idx) xs
    (decode (kept (axesOf shape idx)) j) = folded 32 t (elementsOf shape idx xs j) := by
  rw [reducedValue, sizes_axesOf]
  rfl

/-- Some element goes into each output. -/
theorem elementsOf_ne_nil (hpos : 0 ∉ shape) {j : Nat} (hj : j < (kept (axesOf shape idx)).prod) :
    elementsOf shape idx xs j ≠ [] := by
  have hd : decode (kept (axesOf shape idx)) j ∈ box (kept (axesOf shape idx)) := by
    rw [box_eq_map_decode]
    exact List.mem_map_of_mem (List.mem_range.mpr hj)
  have hreduced := reduced_pos idx hpos
  rw [elementsOf, elements, filter_box hd, box_eq_map_decode, Ne, List.map_eq_nil_iff, List.map_eq_nil_iff,
    List.map_eq_nil_iff, List.range_eq_nil]
  exact hreduced.ne'

theorem inferImpl_keep_folded {data indexes out : Blob (List (BitVec 32))} {zs : List (BitVec 32)} (hpos : 0 ∉ shape)
    (hscalar : shape ≠ []) (hshape : InMemory shape) (hidx : InRange shape idx) (hnthr : 1 ≤ nthr)
    (hthreads : nthr < 2 ^ 31) (hdata : Dense data .I32 shape xs) (hindexes : Dense indexes .I32 [idx.length] idx)
    (hout : Dense out .I32 (kept (axesOf shape idx)) zs) :
    inferImpl nthr t true [data, indexes] [out] =
      .ok ((List.range (kept (axesOf shape idx)).prod).map fun j => folded 32 t (elementsOf shape idx xs j)) := by
  have hK := kept_pos idx hpos
  have hsizes : sizes (axesOf shape idx) = shape := sizes_axesOf
  have hsmall : (sizes (axesOf shape idx)).prod < 2 ^ 62 := hsizes.symm ▸ hshape.prod
  have hkept := (kept_le idx hpos).trans_lt hshape.prod
  have hxs : xs.length = (sizes (axesOf shape idx)).prod := hsizes.symm ▸ hdata.length
  have hvalues : ((List.range (kept (axesOf shape idx)).prod).map fun j => folded 32 t (elementsOf shape idx xs j)) =
      (List.range (kept (axesOf shape idx)).prod).map fun j =>
        reducedValue t (init_value t : BitVec 32) (axesOf shape idx) xs (decode (kept (axesOf shape idx)) j) :=
    List.map_congr_left fun j _ => reducedValue_elementsOf.symm
  have hrun : inferImpl nthr t true [data, indexes] [out] = reduceAxes t (axesOf shape idx) nthr xs zs := by
    rw [reduceAxes, hsizes]
    exact inferImpl_keep (by decide) hshape hkept hidx hdata hindexes hout
  rw [hrun, hvalues]
  by_cases hteam : nthr ≤ (kept (axesOf shape idx)).prod + 1
  · exact reduce_one hK hsmall hkept hxs hout.length hnthr hthreads hteam
  · rw [reduceAxes_team (hsizes.symm ▸ hscalar) hK (.inr (hsizes.symm ▸ hpos)) hsmall hkept hxs hout.length hthreads
      (Nat.lt_of_not_le hteam)]
    refine congrArg _ (List.map_congr_left fun j hj => ?_)
    rw [combinedValue_eq hnthr fun ithr _ _ => merges_same _, flatMap_owned hnthr (by omega),
      reducedValue_eq hK (List.mem_range.mp hj)]

theorem inferImpl_scalar {data indexes out : Blob (List (BitVec 32))} {zs r : List (BitVec 32)}
    (hidx : InRange [] idx) (hdata : Dense data .I32 [] xs) (hindexes : Dense indexes .I32 [idx.length] idx)
    (hout : Dense out .I32 (kept (axesOf [] idx)) zs) :
    inferImpl 3 t true [data, indexes] [out] ≠ .ok r := by
  have hsizes : sizes (axesOf [] idx) = [] := sizes_axesOf
  have hkept : (kept (axesOf [] idx)).prod < 2 ^ 62 := by
    show 1 < 2 ^ 62
    decide
  have hteam : (kept (axesOf [] idx)).prod + 1 < 3 := by
    show 1 + 1 < 3
    decide
  have herror : reducePartials 3 (sizes (axesOf [] idx)) (BlockingDesc.fillStrides (sizes (axesOf [] idx))) xs
      (kept (axesOf [] idx)).prod (kept (axesOf [] idx)) (init_value t : BitVec 32) t zs ≠ .ok r :=
    reducePartials_scalar (by decide) hsizes
  intro hrun
  rw [inferImpl_keep (by decide) ⟨by decide, by decide⟩ hkept hidx hdata hindexes hout] at hrun
  apply herror
  rw [← reduce_team hkept hteam, hsizes]
  exact hrun

/-! ### All machines -/

/-- With any number of threads, each output is the reduction of the elements that go into it. -/
def ReducesCorrectly (t : ReduceType) (keep_dims : Bool) (shape : SizeVector) (idx : List (BitVec 32)) : Prop :=
  ∀ (nthr : Nat) (data indexes out : Blob (List (BitVec 32))) (dims : SizeVector) (xs zs : List (BitVec 32)),
    1 ≤ nthr → nthr < 2 ^ 31 → Dense data .I32 shape xs → Dense indexes .I32 [idx.length] idx →
      ReduceShapeProp.inferShapesImpl keep_dims [data, indexes] = .ok [dims] → Dense out .I32 dims zs →
        ∃ r, inferImpl nthr t keep_dims [data, indexes] [out] = .ok r ∧ r.length = dims.prod ∧
          ∀ (j : Nat) (y : BitVec 32), r[j]? = some y → Reduces t (elementsOf shape idx xs j) y

/-- **Reductions** are correct on every machine exactly with `keep_dims` and an input that is no scalar. -/
theorem reducesCorrectly_iff {keep_dims : Bool} (hpos : 0 ∉ shape) (hshape : InMemory shape)
    (hidx : InRange shape idx) : ReducesCorrectly t keep_dims shape idx ↔ keep_dims = true ∧ shape ≠ [] := by
  constructor
  · intro h
    obtain ⟨data, hdata⟩ := exists_dense .I32 (List.length_replicate (n := shape.prod) (a := (0 : BitVec 32)))
    obtain ⟨indexes, hindexes⟩ := exists_dense .I32 (show idx.length = [idx.length].prod by simp)
    obtain ⟨out, hout⟩ := exists_dense .I32
      (List.length_replicate (n := (outDims keep_dims shape idx).prod) (a := (0 : BitVec 32)))
    have hdims := inferShapes_eq keep_dims hshape.rank hidx hdata hindexes
    cases keep_dims
    · obtain ⟨r, hr, -⟩ := h 1 data indexes out _ _ _ (le_refl 1) (by decide) hdata hindexes hdims hout
      exact absurd hr (inferImpl_without hpos hshape hidx hdata hindexes hout)
    · refine ⟨rfl, fun hscalar => ?_⟩
      subst hscalar
      obtain ⟨r, hr, -⟩ := h 3 data indexes out _ _ _ (by decide) (by decide) hdata hindexes hdims hout
      rw [outDims_keep] at hout
      exact inferImpl_scalar hidx hdata hindexes hout hr
  · rintro ⟨rfl, hscalar⟩ nthr data indexes out dims xs zs hnthr hthreads hdata hindexes hdims hout
    rw [inferShapes_eq true hshape.rank hidx hdata hindexes, outDims_keep] at hdims
    cases hdims
    refine ⟨_, inferImpl_keep_folded hpos hscalar hshape hidx hnthr hthreads hdata hindexes hout, by simp, ?_⟩
    intro j y hy
    rw [List.getElem?_map, Option.map_eq_some_iff] at hy
    obtain ⟨k, hk, rfl⟩ := hy
    obtain ⟨hlt, rfl⟩ := List.getElem?_eq_some_iff.mp hk
    rw [List.getElem_range]
    exact reduces_folded (elementsOf_ne_nil hpos (by simpa using hlt))

theorem reducesCorrectly_rows : ReducesCorrectly .ReduceMax true [2, 3] [-1] ↔ true = true ∧ [2, 3] ≠ [] :=
  reducesCorrectly_iff (by decide) ⟨by decide, by decide⟩ fun axis haxis => by
    obtain rfl := List.mem_singleton.mp haxis
    exact ⟨by decide, by decide⟩

/-- One row of two elements, reduced to a scalar. -/
theorem not_reducesCorrectly_row : ¬ReducesCorrectly .ReduceSum false [1, 2] [1] := by
  intro h
  obtain ⟨data, hdata⟩ := exists_dense .I32 (show [(5 : BitVec 32), 7].length = [1, 2].prod by rfl)
  obtain ⟨indexes, hindexes⟩ := exists_dense .I32 (show [(1 : BitVec 32)].length = [1].prod by rfl)
  obtain ⟨out, hout⟩ := exists_dense .I32 (show [(0 : BitVec 32)].length = [1].prod by rfl)
  have hidx : InRange [1, 2] [1] := fun axis haxis => by
    obtain rfl := List.mem_singleton.mp haxis
    exact ⟨by decide, by decide⟩
  have hdims := inferShapes_eq false (by decide) hidx hdata hindexes
  obtain ⟨r, hr, -⟩ := h 1 data indexes out _ _ _ (le_refl 1) (by decide) hdata hindexes hdims hout
  exact inferImpl_without (by decide) ⟨by decide, by decide⟩ hidx hdata hindexes hout hr

end ReduceConstInfer

end OpenVino.InferenceEngine.ShapeInfer
