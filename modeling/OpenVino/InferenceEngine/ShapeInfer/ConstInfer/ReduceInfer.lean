import OpenVino.InferenceEngine.ShapeInfer.ConstInfer.ReduceAgreement

/-!
# What a reduction is called with

On blobs whose elements stand one after the other (`Dense`) and with `keep_dims`, `inferImpl` calls `reduce` with what
belongs to the axes (`inferImpl_keep`). `reduceAgrees_iff` is the comparison of the team that splits the elements with
the one thread that goes through the outputs.
-/

namespace OpenVino.InferenceEngine.ShapeInfer

namespace ReduceConstInfer

open Axes

variable {w nthr : Nat} {L : Axes} {shape : SizeVector} {xs idx : List (BitVec 32)} {zs : List (BitVec w)}
  {t : ReduceType} {p : Precision}

/-- The blob has this precision and shape, and these elements one after the other. -/
structure Dense {α : Type} (blob : Blob (List α)) (precision : Precision) (shape : SizeVector) (elements : List α) :
    Prop where
  precision : blob.tensorDesc.precision = precision
  dims : blob.tensorDesc.dims = shape
  strides : blob.tensorDesc.blockingDesc.strides = BlockingDesc.fillStrides shape
  offsetPadding : blob.tensorDesc.blockingDesc.offsetPadding = 0
  buffer : blob.buffer = some elements
  length : elements.length = shape.prod

/-- The number of an axis that is counted from the end if it is negative. -/
def axisOf (rank : Nat) (axis : BitVec 32) : Nat := (if axis.toInt < 0 then axis.toInt + rank else axis.toInt).toNat

/-- The axes of a shape, with the ones that the indexes name reduced. -/
def axesOf (shape : SizeVector) (idx : List (BitVec 32)) : Axes :=
  (List.range shape.length).map fun i => (decide (i ∈ idx.map (axisOf shape.length)), shape.getD i 0)

/-- A shape whose elements have room in the memory. -/
structure InMemory (shape : SizeVector) : Prop where
  rank : shape.length < 2 ^ 31
  prod : shape.prod < 2 ^ 62

def InRange (shape : SizeVector) (idx : List (BitVec 32)) : Prop :=
  ∀ axis ∈ idx, -(shape.length : Int) ≤ axis.toInt ∧ axis.toInt < shape.length

/-! ### The axes -/

theorem sizes_axesOf : sizes (axesOf shape idx) = shape := by
  rw [sizes, axesOf, List.map_map]
  apply List.ext_getElem?
  intro i
  rw [List.getElem?_map]
  by_cases hi : i < shape.length
  · rw [List.getElem?_range hi, List.getElem?_eq_getElem hi]
    exact congrArg some (List.getD_eq_getElem _ _ hi)
  · rw [List.getElem?_eq_none (by simpa using hi), List.getElem?_eq_none (by simpa using hi)]
    rfl

theorem reducedFrom_map {f : Nat → Bool × Nat} {k n : Nat} :
    reducedFrom k ((List.range' k n).map f) = (List.range' k n).filter fun i => (f i).1 := by
  induction n generalizing k with
  | zero => rfl
  | succ n ih =>
    rw [List.range'_succ, List.map_cons, reducedFrom, ih, List.filter_cons]

theorem reducedFrom_axesOf :
    reducedFrom 0 (axesOf shape idx) = (List.range shape.length).filter (· ∈ idx.map (axisOf shape.length)) := by
  rw [axesOf, List.range_eq_range']
  exact reducedFrom_map

theorem prod_filter_map {l : List Nat} {q : Nat → Prop} [DecidablePred q] {f : Nat → Nat} :
    ((l.filter q).map f).prod = (l.map fun i => if q i then f i else 1).prod := by
  induction l with
  | nil => rfl
  | cons i l ih =>
    rw [List.filter_cons, List.map_cons, List.prod_cons]
    by_cases hi : q i
    · rw [if_pos (decide_eq_true hi), List.map_cons, List.prod_cons, ih, if_pos hi]
    · rw [if_neg (by simpa using hi), ih, if_neg hi, Nat.one_mul]

theorem prod_reducedFrom :
    ((reducedFrom 0 (axesOf shape idx)).map (shape.getD · 0)).prod = (reduced (axesOf shape idx)).prod := by
  rw [reducedFrom_axesOf, prod_filter_map, reduced, axesOf, List.map_map]
  simp only [Function.comp_def, decide_eq_true_eq]

theorem kept_axesOf : kept (axesOf shape idx) =
    (List.range shape.length).flatMap fun i => if i ∈ idx.map (axisOf shape.length) then [1] else [shape.getD i 0] := by
  rw [kept, axesOf, List.map_map, ← List.flatMap_pure_eq_map]
  refine List.flatMap_congr fun i _ => ?_
  show [if decide (i ∈ idx.map (axisOf shape.length)) = true then 1 else shape.getD i 0] = _
  simp only [decide_eq_true_eq]
  split_ifs
  · rfl
  · rfl

theorem readAxes_eq {e message : String} (hrank : shape.length < 2 ^ 31) (hidx : InRange shape idx) :
    readAxes e message shape.length [idx.length] idx = .ok (idx.map (axisOf shape.length)) := by
  have hsame : ∀ axis : BitVec 32, -(shape.length : Int) ≤ axis.toInt → axis.toInt < shape.length →
      toSizeT (if axis.toInt < 0 then toInt (toSizeT (axis.toInt + shape.length)) else axis.toInt) =
        axisOf shape.length axis ∧ axisOf shape.length axis < shape.length := by
    intro axis hlow hhigh
    unfold axisOf
    split_ifs with hneg
    · have hsum : (toSizeT (axis.toInt + shape.length) : Int) = axis.toInt + shape.length := by
        unfold toSizeT
        omega
      rw [toInt_of_lt (by omega), hsum]
      unfold toSizeT
      omega
    · unfold toSizeT
      omega
  have hround : ∀ i ∈ List.range idx.length, (do
      let axis ← elemAt e idx (i : Nat)
      let axis := if axis.toInt < 0 then toInt (toSizeT (axis.toInt + shape.length)) else axis.toInt
      if shape.length < toSizeT axis then throwException message else return toSizeT axis) =
        (.ok (axisOf shape.length (idx.getD i 0)) : Result Nat) := by
    intro i hi
    have hi := List.mem_range.mp hi
    have hget := List.getD_eq_getElem idx 0 hi
    obtain ⟨hlow, hhigh⟩ := hidx _ (List.getElem_mem hi)
    obtain ⟨hvalue, hlt⟩ := hsame idx[i] hlow hhigh
    rw [elemAt_ok (List.getElem?_eq_getElem hi), ok_bind, hget]
    dsimp only
    rw [hvalue, if_neg (by omega)]
    rfl
  have hdim : elemAt "idx_dims[0]" [idx.length] 0 = .ok idx.length := rfl
  unfold readAxes
  rw [hdim, ok_bind]
  refine (mapM_eq_map hround).trans (congrArg _ ?_)
  apply List.ext_getElem?
  intro i
  rw [List.getElem?_map, List.getElem?_map]
  by_cases hi : i < idx.length
  · rw [List.getElem?_range hi, List.getElem?_eq_getElem hi]
    exact congrArg some (congrArg _ (List.getD_eq_getElem _ _ hi))
  · rw [List.getElem?_eq_none (by simpa using hi), List.getElem?_eq_none (by simpa using hi)]
    rfl

/-! ### `inferImpl` -/

theorem dataOf_dense {α : Type} {blob : Blob (List α)} {elements : List α} (h : Dense blob p shape elements) :
    dataOf blob = .ok elements := by
  unfold dataOf
  rw [h.buffer, h.offsetPadding]
  rfl

theorem workAmount_eq {blob : Blob (List (BitVec w))} (h : Dense blob p shape zs) (hsmall : shape.prod < 2 ^ 64) :
    (if shape = [] then return 1
      else do
        let stride ← elemAt "getStrides()[0]" blob.tensorDesc.blockingDesc.strides 0
        let dim ← elemAt "dst_dims[0]" shape 0
        return toSizeT (stride * dim : Nat) : Result Nat) = .ok shape.prod := by
  rw [h.strides]
  split_ifs with hshape
  · rw [hshape]
    rfl
  · obtain ⟨X, D, rfl⟩ := List.exists_cons_of_ne_nil hshape
    obtain ⟨stride, hstrides, hmod, -⟩ := BlockingDesc.fillStrides_cons (D := D) X
    have hsize : toSizeT (stride * X : Nat) = (X :: D).prod := by
      refine toSizeT_eq_of_modEq ?_ hsmall
      rw [List.prod_cons, Nat.mul_comm X]
      exact hmod.mul_right X
    rw [hstrides, ← hsize]
    rfl

theorem zip_self {α : Type} {l : List α} {a b : α} (h : (a, b) ∈ l.zip l) : a = b := by
  induction l with
  | nil => exact absurd h List.not_mem_nil
  | cons x l ih =>
    rcases List.mem_cons.mp h with heq | h
    · exact (Prod.mk.inj heq).1.trans (Prod.mk.inj heq).2.symm
    · exact ih h

/-- With `keep_dims`, the walk of `reduce` belongs to the axes. -/
theorem inferImpl_keep {data indexes : Blob (List (BitVec 32))} {out : Blob (List (BitVec w))}
    (hsupported : supported w .I32 p = true) (hshape : InMemory shape) (hkept : (kept (axesOf shape idx)).prod < 2 ^ 62)
    (hidx : InRange shape idx) (hdata : Dense data .I32 shape xs) (hindexes : Dense indexes .I32 [idx.length] idx)
    (hout : Dense out p (kept (axesOf shape idx)) zs) :
    inferImpl nthr t true [data, indexes] [out] =
      reduce nthr shape (BlockingDesc.fillStrides shape) xs (kept (axesOf shape idx)).prod
        (toSizeT (reduced (axesOf shape idx)).prod) (reducedFrom 0 (axesOf shape idx)) (kept (axesOf shape idx))
        (init_value t) t zs := by
  have hlength : (kept (axesOf shape idx)).length = shape.length := by
    rw [length_kept, ← length_sizes, sizes_axesOf]
  have haxes : ∀ e message, readAxes e message shape.length [idx.length] idx = .ok (idx.map (axisOf shape.length)) :=
    fun e message => readAxes_eq hshape.rank hidx
  unfold inferImpl
  dsimp only
  rw [hindexes.dims, hindexes.precision, hdata.dims, hout.dims, hdata.strides, hdata.precision, hout.precision,
    dataOf_dense hindexes, dataOf_dense hdata, dataOf_dense hout]
  simp only [List.length_singleton, lt_irrefl, if_false, ne_eq, not_true_eq_false, ok_bind, haxes, if_true]
  have hranks : ¬(True ∧ ¬shape.length = (kept (axesOf shape idx)).length ∨
      False ∧ shape.length ≤ (kept (axesOf shape idx)).length) := by
    rw [hlength]
    simp
  have hdims : ¬(((kept (axesOf shape idx)).zip (kept (axesOf shape idx))).any fun p => decide ¬p.1 = p.2) = true := by
    rw [List.any_eq_true]
    rintro ⟨⟨a, b⟩, hab, hne⟩
    exact of_decide_eq_true hne (zip_self hab)
  rw [if_neg hranks, ← kept_axesOf, if_neg hdims, workAmount_eq hout (by omega), ok_bind, if_pos hsupported,
    ← reducedFrom_axesOf, prod_reducedFrom]

/-! ### Threads -/

theorem reduced_prod_lt (hK : 0 ∉ kept L) (hsmall : (sizes L).prod < 2 ^ 62) : (reduced L).prod < 2 ^ 62 := by
  rw [prod_sizes] at hsmall
  exact (Nat.le_mul_of_pos_left _ (prod_pos_of_not_mem hK)).trans_lt hsmall

theorem error_ne_ok {α ε : Type} {e : ε} {a : α} : (Except.error e : Except ε α) ≠ .ok a := nofun

theorem foldlM_range_error {α ε : Type} {f : α → Nat → Except ε α} {a : α} {e : ε} (hnthr : 1 ≤ nthr) (h : f a 0 = .error e) :
    (List.range nthr).foldlM f a = .error e := by
  rw [show nthr = nthr - 1 + 1 by omega, List.range_succ_eq_map, List.foldlM_cons, h]
  rfl

/-- The numbers of an output without elements cannot be computed. -/
theorem reduce_empty {init : BitVec w} {m : Nat} {axes : List Nat} {r : List (BitVec w)} (hK : 0 ∈ kept L) :
    reduce 1 (sizes L) (BlockingDesc.fillStrides (sizes L)) xs (kept L).prod m axes (kept L) init t zs ≠ .ok r := by
  have hwork : (kept L).prod = 0 := List.prod_eq_zero_iff.mpr hK
  have hthread : outputPart 1 (sizes L) (BlockingDesc.fillStrides (sizes L)) xs (kept L).prod m axes (kept L) init t 0 zs =
      .error (.undefinedBehaviour "i % dst_dims[j]") := by
    unfold outputPart unravel
    dsimp only
    rw [if_pos hK]
    rfl
  unfold reduce
  rw [if_pos (by rw [hwork]; decide), foldlM_range_error le_rfl hthread]
  exact error_ne_ok

/-- One thread goes through the outputs. -/
theorem reduce_one {init : BitVec w} (hK : 0 ∉ kept L) (hsmall : (sizes L).prod < 2 ^ 62) (hkept : (kept L).prod < 2 ^ 62)
    (hxs : xs.length = (sizes L).prod) (hzs : zs.length = (kept L).prod) (hnthr : 1 ≤ nthr) (hthreads : nthr < 2 ^ 31)
    (hteam : nthr ≤ (kept L).prod + 1) :
    reduce nthr (sizes L) (BlockingDesc.fillStrides (sizes L)) xs (kept L).prod (toSizeT (reduced L).prod)
      (reducedFrom 0 L) (kept L) init t zs =
        .ok ((List.range (kept L).prod).map fun j => reducedValue t init L xs (decode (kept L) j)) := by
  have hreduced := reduced_prod_lt hK hsmall
  unfold reduce
  rw [if_pos (by rw [toSizeT_natCast (by omega)]; exact hteam), toSizeT_natCast (by omega)]
  exact reduceOutputs_eq hK (by omega) hxs hzs hnthr (by omega)

/-- With more threads than outputs, the elements are split. -/
theorem reduce_team {init : BitVec w} {m : Nat} {axes : List Nat} (hkept : (kept L).prod < 2 ^ 62)
    (hteam : (kept L).prod + 1 < nthr) :
    reduce nthr (sizes L) (BlockingDesc.fillStrides (sizes L)) xs (kept L).prod m axes (kept L) init t zs =
      reducePartials nthr (sizes L) (BlockingDesc.fillStrides (sizes L)) xs (kept L).prod (kept L) init t zs := by
  unfold reduce
  rw [if_neg (by rw [toSizeT_natCast (by omega)]; omega)]

/-- The size of the tensor is computed from its first axis. -/
theorem reducePartials_scalar {init : BitVec w} {r : List (BitVec w)} (hnthr : 1 ≤ nthr) (hL : sizes L = []) :
    reducePartials nthr (sizes L) (BlockingDesc.fillStrides (sizes L)) xs (kept L).prod (kept L) init t zs ≠ .ok r := by
  have hlength : (kept L).length = 0 := by rw [length_kept, ← length_sizes, hL, List.length_nil]
  have hwork : (kept L).prod = 1 := by rw [List.eq_nil_of_length_eq_zero hlength, List.prod_nil]
  unfold reducePartials
  rw [foldlM_range_error hnthr (e := .undefinedBehaviour "srcStrides[0]") (by
    rw [if_pos hwork, hL]
    rfl)]
  exact error_ne_ok

/-- The counters of a tensor without elements cannot be computed. -/
theorem reducePartials_empty {init : BitVec w} {r : List (BitVec w)} (hnthr : 1 ≤ nthr) (hsmall : (sizes L).prod < 2 ^ 64)
    (hwork : (kept L).prod ≠ 1) (hD : 0 ∈ sizes L) :
    reducePartials nthr (sizes L) (BlockingDesc.fillStrides (sizes L)) xs (kept L).prod (kept L) init t zs ≠ .ok r := by
  have hsource : sourceSize (sizes L) (BlockingDesc.fillStrides (sizes L)) = .ok (sizes L).prod := by
    obtain ⟨X, D, hsizes⟩ := List.exists_cons_of_ne_nil (List.ne_nil_of_mem hD)
    rw [hsizes]
    exact sourceSize_eq (hsizes ▸ hsmall)
  unfold reducePartials
  rw [foldlM_range_error hnthr (e := .undefinedBehaviour "src_idx % src_dims[j]") (by
    unfold inputPart unravel
    dsimp only
    rw [if_neg hwork, hsource, ok_bind, if_pos hD]
    rfl)]
  exact error_ne_ok

/-! ### The agreement -/

/-- `reduce`, with what belongs to the axes. -/
def reduceAxes (t : ReduceType) (L : Axes) (nthr : Nat) (xs : List (BitVec 32)) (zs : List (BitVec w)) :
    Result (List (BitVec w)) :=
  reduce nthr (sizes L) (BlockingDesc.fillStrides (sizes L)) xs (kept L).prod (toSizeT (reduced L).prod) (reducedFrom 0 L)
    (kept L) (init_value t) t zs

/-- For all elements, a team gives what one thread gives. -/
def Agrees (w : Nat) (p : Precision) (t : ReduceType) (shape : SizeVector) (idx : List (BitVec 32)) (nthr : Nat) : Prop :=
  ∀ {data indexes : Blob (List (BitVec 32))} {out : Blob (List (BitVec w))} {xs : List (BitVec 32)} {zs : List (BitVec w)},
    Dense data .I32 shape xs → Dense indexes .I32 [idx.length] idx → Dense out p (kept (axesOf shape idx)) zs →
      ∃ r, inferImpl 1 t true [data, indexes] [out] = .ok r ∧ inferImpl nthr t true [data, indexes] [out] = .ok r

/-- The team goes through the outputs, or it goes through the elements and its partial results can be combined. -/
def SameValues (w : Nat) (t : ReduceType) (L : Axes) (nthr : Nat) : Prop :=
  nthr ≤ (kept L).prod + 1 ∨ sizes L ≠ [] ∧ ((kept L).prod = 1 ∨ 0 ∉ sizes L) ∧
    (w = 32 ∨ ∀ ithr, 1 ≤ ithr → ithr < nthr → ∀ j < (kept L).prod, Keeps t (owned L nthr ithr j).length)

theorem exists_dense {α : Type} (precision : Precision) {elements : List α} (h : elements.length = shape.prod) :
    ∃ blob, Dense blob precision shape elements :=
  ⟨{ tensorDesc := { precision, dims := shape, blockingDesc := { strides := BlockingDesc.fillStrides shape } },
     buffer := some elements }, rfl, rfl, rfl, rfl, rfl, h⟩

/-- The value of a team that goes through the elements. -/
theorem reduceAxes_team (hL : sizes L ≠ []) (hK : 0 ∉ kept L) (hD : (kept L).prod = 1 ∨ 0 ∉ sizes L)
    (hsmall : (sizes L).prod < 2 ^ 62) (hkept : (kept L).prod < 2 ^ 62) (hxs : xs.length = (sizes L).prod)
    (hzs : zs.length = (kept L).prod) (hthreads : nthr < 2 ^ 31) (hteam : (kept L).prod + 1 < nthr) :
    reduceAxes t L nthr xs zs = .ok ((List.range (kept L).prod).map (combinedValue t (init_value t) L xs nthr)) := by
  rw [reduceAxes, reduce_team hkept hteam]
  exact reducePartials_eq hL hK hD (by omega) hxs hzs (by omega) (by omega)

theorem reduceAxes_agrees_iff (hw : w = 32 ∨ w = 64) (hsmall : (sizes L).prod < 2 ^ 62) (hkept : (kept L).prod < 2 ^ 62)
    (hnthr : 1 ≤ nthr) (hthreads : nthr < 2 ^ 31) :
    (∀ {xs : List (BitVec 32)} {zs : List (BitVec w)}, xs.length = (sizes L).prod → zs.length = (kept L).prod →
      ∃ r, reduceAxes t L 1 xs zs = .ok r ∧ reduceAxes t L nthr xs zs = .ok r) ↔ 0 ∉ kept L ∧ SameValues w t L nthr := by
  have hone : ∀ {xs : List (BitVec 32)} {zs : List (BitVec w)}, 0 ∉ kept L → xs.length = (sizes L).prod →
      zs.length = (kept L).prod → reduceAxes t L 1 xs zs =
        .ok ((List.range (kept L).prod).map fun j => reducedValue t (init_value t) L xs (decode (kept L) j)) :=
    fun hK hxs hzs => reduce_one hK hsmall hkept hxs hzs le_rfl (by decide) (Nat.le_add_left 1 _)
  have hxs₀ : (List.replicate (sizes L).prod (0 : BitVec 32)).length = (sizes L).prod := List.length_replicate
  have hzs₀ : (List.replicate (kept L).prod (0 : BitVec w)).length = (kept L).prod := List.length_replicate
  constructor
  · intro h
    obtain ⟨r₀, hr₀, hteam₀⟩ := h hxs₀ hzs₀
    have hK : 0 ∉ kept L := fun hK => reduce_empty hK hr₀
    refine ⟨hK, ?_⟩
    by_cases hteam : nthr ≤ (kept L).prod + 1
    · exact .inl hteam
    · have hteam := Nat.lt_of_not_le hteam
      rw [reduceAxes, reduce_team hkept hteam] at hteam₀
      have hL : sizes L ≠ [] := fun hL => reducePartials_scalar hnthr hL hteam₀
      have hD : (kept L).prod = 1 ∨ 0 ∉ sizes L := by
        by_contra hcon
        obtain ⟨hwork, hD⟩ := not_or.mp hcon
        exact reducePartials_empty hnthr (by omega) hwork (not_not.mp hD) hteam₀
      refine .inr ⟨hL, hD, hw.imp_right fun hw ithr hithr hlt j hj => ?_⟩
      subst hw
      refine (keeps_iff hK hj hnthr (by omega)).mp (fun xs hxs => ?_) ithr hithr hlt
      obtain ⟨r, hr, hrteam⟩ := h hxs hzs₀
      have heq := (hone hK hxs hzs₀).symm.trans hr
      rw [reduceAxes_team hL hK hD hsmall hkept hxs hzs₀ hthreads hteam, ← heq] at hrteam
      have hvalues := List.map_inj_left.mp (Except.ok.inj hrteam)
      exact hvalues j (List.mem_range.mpr hj)
  · rintro ⟨hK, hsame⟩ xs zs hxs hzs
    refine ⟨_, hone hK hxs hzs, ?_⟩
    by_cases hteam : nthr ≤ (kept L).prod + 1
    · exact reduce_one hK hsmall hkept hxs hzs hnthr hthreads hteam
    · obtain ⟨hL, hD, hkeeps⟩ := hsame.resolve_left hteam
      rw [reduceAxes_team hL hK hD hsmall hkept hxs hzs hthreads (Nat.lt_of_not_le hteam)]
      refine congrArg _ (List.map_congr_left fun j hj => ?_)
      have hj := List.mem_range.mp hj
      rcases hkeeps with rfl | hkeeps
      · rw [combinedValue_eq hnthr fun ithr _ _ => merges_same _, flatMap_owned hnthr (by omega), reducedValue_eq hK hj]
      · rcases hw with rfl | rfl
        · rw [combinedValue_eq hnthr fun ithr _ _ => merges_same _, flatMap_owned hnthr (by omega), reducedValue_eq hK hj]
        · exact (keeps_iff hK hj hnthr (by omega)).mpr (fun ithr hithr hlt => hkeeps ithr hithr hlt j hj) xs hxs

theorem width_of_supported (h : supported w .I32 p = true) : w = 32 ∨ w = 64 := by
  simp only [supported, decide_true, Bool.true_and, Bool.or_eq_true, Bool.and_eq_true, decide_eq_true_eq] at h
  exact h.imp And.right And.right

/-- **Threads.** Reductions with `keep_dims` do not depend on the number of threads exactly if every output has
elements of the kept axes and the partial results can be combined. -/
theorem reduceAgrees_iff (hsupported : supported w .I32 p = true) (hshape : InMemory shape)
    (hkept : (kept (axesOf shape idx)).prod < 2 ^ 62) (hidx : InRange shape idx) (hnthr : 1 ≤ nthr)
    (hthreads : nthr < 2 ^ 31) :
    Agrees w p t shape idx nthr ↔ 0 ∉ kept (axesOf shape idx) ∧ SameValues w t (axesOf shape idx) nthr := by
  have hsizes : sizes (axesOf shape idx) = shape := sizes_axesOf
  have hsmall : (sizes (axesOf shape idx)).prod < 2 ^ 62 := by
    rw [hsizes]
    exact hshape.prod
  have hinfer : ∀ {data indexes : Blob (List (BitVec 32))} {out : Blob (List (BitVec w))} {xs : List (BitVec 32)}
      {zs : List (BitVec w)}, Dense data .I32 shape xs → Dense indexes .I32 [idx.length] idx →
      Dense out p (kept (axesOf shape idx)) zs → ∀ n,
        inferImpl n t true [data, indexes] [out] = reduceAxes t (axesOf shape idx) n xs zs := by
    intro data indexes out xs zs hdata hindexes hout n
    rw [reduceAxes, hsizes]
    exact inferImpl_keep hsupported hshape hkept hidx hdata hindexes hout
  rw [← reduceAxes_agrees_iff (width_of_supported hsupported) hsmall hkept hnthr hthreads, hsizes]
  constructor
  · intro h xs zs hxs hzs
    obtain ⟨data, hdata⟩ := exists_dense .I32 hxs
    obtain ⟨indexes, hindexes⟩ := exists_dense .I32 (show idx.length = [idx.length].prod by simp)
    obtain ⟨out, hout⟩ := exists_dense p hzs
    have hrun := h hdata hindexes hout
    rwa [hinfer hdata hindexes hout, hinfer hdata hindexes hout] at hrun
  · intro h data indexes out xs zs hdata hindexes hout
    rw [hinfer hdata hindexes hout, hinfer hdata hindexes hout]
    exact h hdata.length hout.length

theorem reduceAgrees_rows : Agrees 64 .I64 .ReduceSum [2, 3] [-1] 4 ↔
    0 ∉ kept (axesOf [2, 3] [-1]) ∧ SameValues 64 .ReduceSum (axesOf [2, 3] [-1]) 4 :=
  reduceAgrees_iff (by decide) ⟨by decide, by decide⟩ (by decide)
    (fun axis haxis => by
      obtain rfl := List.mem_singleton.mp haxis
      exact ⟨by decide, by decide⟩) (by decide) (by decide)

/-- The third of three threads has none of the two elements, and its `INT64_MIN` is cut to zero. -/
theorem empty_part_chosen : ¬Agrees 64 .I64 .ReduceMax [2] [0] 3 := by
  intro h
  let data : Blob (List (BitVec 32)) := {
    tensorDesc := { precision := .I32, dims := [2], layout := .C, blockingDesc := { blockedDims := [2], strides := [1] } }
    buffer := some [-1, -2] }
  let indexes : Blob (List (BitVec 32)) := {
    tensorDesc := { precision := .I32, dims := [1], layout := .C, blockingDesc := { blockedDims := [1], strides := [1] } }
    buffer := some [0] }
  let out : Blob (List (BitVec 64)) := {
    tensorDesc := { precision := .I64, dims := [1], layout := .C, blockingDesc := { blockedDims := [1], strides := [1] } }
    buffer := some [0] }
  obtain ⟨r, hone, hteam⟩ := @h data indexes out _ _ ⟨rfl, rfl, rfl, rfl, rfl, rfl⟩
    ⟨rfl, rfl, rfl, rfl, rfl, rfl⟩ ⟨rfl, rfl, rfl, rfl, rfl, rfl⟩
  have hvalue : inferImpl 1 .ReduceMax true [data, indexes] [out] = .ok [-1] := by rfl
  have hcut : inferImpl 3 .ReduceMax true [data, indexes] [out] = .ok [0] := by rfl
  have heq := Except.ok.inj ((hvalue.symm.trans hone).trans (hteam.symm.trans hcut))
  exact absurd heq (by decide)

end ReduceConstInfer

end OpenVino.InferenceEngine.ShapeInfer
