import OpenVino.InferenceEngine.ShapeInfer.ConstInfer.ReducePartials

/-!
# Partial results

The second parameter of `func2` has the type of the elements, so a partial result of 64 bits is cut to 32 when it is
combined. `merges_of_keeps`: what is combined is the fold over all elements, always for outputs of 32 bits and for the
logical modes, and otherwise when every thread but the first has few enough elements of the output, or some of them for
a maximum or a minimum (`Keeps`). `exists_difference`: in every other case there are elements for which it is not.
-/

namespace OpenVino.InferenceEngine.ShapeInfer

namespace ReduceConstInfer

open Axes

variable {w : Nat} {L : Axes} {D K v d : SizeVector} {xs : List (BitVec 32)} {t : ReduceType} {nthr : Nat}

/-! ### One partial result -/

/-- The fold over some elements. -/
def folded (w : Nat) (t : ReduceType) (l : List (BitVec 32)) : BitVec w := l.foldl (func1 t) (init_value t)

theorem folded_append (l : List (BitVec 32)) (y : BitVec 32) : folded w t (l ++ [y]) = func1 t (folded w t l) y := by
  rw [folded, List.foldl_append, List.foldl_cons, List.foldl_nil, folded]

/-- A partial result of these elements can be combined with any other. -/
def Merges (w : Nat) (t : ReduceType) (l : List (BitVec 32)) : Prop :=
  ∀ l₀, func2 t (folded w t l₀) ((folded w t l).setWidth 32) = folded w t (l₀ ++ l)

/-- The logical modes only have zero and one. -/
theorem folded_logical (ht : t = .ReduceAnd ∨ t = .ReduceOr) (l : List (BitVec 32)) :
    folded w t l = 0 ∨ folded w t l = 1 := by
  induction l using List.reverseRecOn with
  | nil =>
    rcases ht with rfl | rfl
    · exact .inr rfl
    · exact .inl rfl
  | append_singleton l y _ =>
    rw [folded_append]
    rcases ht with rfl | rfl
    · simp only [func1]
      split_ifs
      · exact .inr rfl
      · exact .inl rfl
    · simp only [func1]
      split_ifs
      · exact .inr rfl
      · exact .inl rfl

theorem slt_iff {x y : BitVec w} : x.slt y = true ↔ x.toInt < y.toInt := BitVec.slt_iff_toInt_lt

theorem toInt_le_intMax (x : BitVec w) : x.toInt ≤ (BitVec.intMax w).toInt := by
  rw [BitVec.toInt_intMax]
  exact BitVec.toInt_le

/-- The initial value is neutral for a partial result of 32 bits. -/
theorem func2_init_same (l : List (BitVec 32)) : func2 t (folded 32 t l) ((init_value t : BitVec 32).setWidth 32) = folded 32 t l := by
  rw [BitVec.setWidth_eq]
  cases t
  case ReduceAnd =>
    rcases folded_logical (w := 32) (.inl rfl) l with h | h
    · rw [h]
      rfl
    · rw [h]
      rfl
  case ReduceOr =>
    rcases folded_logical (w := 32) (.inr rfl) l with h | h
    · rw [h]
      rfl
    · rw [h]
      rfl
  case ReduceMax =>
    simp only [func2, init_value, BitVec.signExtend_eq]
    split_ifs with h
    · rfl
    · rw [slt_iff] at h
      have hle := BitVec.toInt_intMin_le (folded 32 .ReduceMax l)
      exact BitVec.eq_of_toInt_eq (by omega)
  case ReduceMin =>
    simp only [func2, init_value, BitVec.signExtend_eq]
    split_ifs with h
    · rfl
    · rw [slt_iff] at h
      have hle := toInt_le_intMax (folded 32 .ReduceMin l)
      exact BitVec.eq_of_toInt_eq (by omega)
  all_goals
    simp [func2, init_value]

theorem func2_func1_same (x p : BitVec 32) (y : BitVec 32) :
    func2 t x ((func1 t p y).setWidth 32) = func1 t (func2 t x (p.setWidth 32)) y := by
  cases t
  case ReduceMax =>
    simp only [func1, func2, BitVec.setWidth_eq, BitVec.signExtend_eq, slt_iff]
    split_ifs <;> first | rfl | (apply BitVec.eq_of_toInt_eq; omega)
  case ReduceMin =>
    simp only [func1, func2, BitVec.setWidth_eq, BitVec.signExtend_eq, slt_iff]
    split_ifs <;> first | rfl | (apply BitVec.eq_of_toInt_eq; omega)
  case ReduceAnd =>
    simp only [func1, func2, BitVec.setWidth_eq]
    split_ifs <;> simp_all
  case ReduceOr =>
    simp only [func1, func2, BitVec.setWidth_eq]
    split_ifs <;> simp_all
  all_goals
    simp only [func1, func2, BitVec.setWidth_eq, BitVec.signExtend_eq, BitVec.add_assoc, BitVec.mul_assoc]

theorem merges_same (l : List (BitVec 32)) : Merges 32 t l := by
  intro l₀
  induction l using List.reverseRecOn with
  | nil =>
    rw [List.append_nil]
    exact func2_init_same l₀
  | append_singleton l y ih => rw [folded_append, func2_func1_same, ih, ← List.append_assoc, folded_append]

/-! ### Outputs of 64 bits -/

theorem setWidth_signExtend (y : BitVec 32) : (y.signExtend 64).setWidth 32 = y := by
  apply BitVec.eq_of_getElem_eq
  intro i hi
  rw [BitVec.getElem_setWidth, BitVec.getLsbD_signExtend, if_pos hi, decide_eq_true (show i < 64 by omega), Bool.true_and]
  exact BitVec.getLsbD_eq_getElem hi

theorem merges_logical (ht : t = .ReduceAnd ∨ t = .ReduceOr) (l : List (BitVec 32)) : Merges 64 t l := by
  intro l₀
  induction l using List.reverseRecOn with
  | nil =>
    rw [List.append_nil]
    rcases ht with rfl | rfl
    · rcases folded_logical (w := 64) (.inl rfl) l₀ with h | h
      · rw [h]
        rfl
      · rw [h]
        rfl
    · rcases folded_logical (w := 64) (.inr rfl) l₀ with h | h
      · rw [h]
        rfl
      · rw [h]
        rfl
  | append_singleton l y ih =>
    rw [folded_append, ← List.append_assoc, folded_append, ← ih]
    rcases ht with rfl | rfl
    · rcases folded_logical (w := 64) (.inl rfl) l with h | h
      · rw [h]
        simp [func1, func2]
      · rw [h]
        simp only [func1, func2]
        split_ifs <;> simp_all
    · rcases folded_logical (w := 64) (.inr rfl) l with h | h
      · rw [h]
        simp only [func1, func2]
        split_ifs <;> simp_all
      · rw [h]
        simp [func1, func2]

/-- The modes that add or multiply up. -/
def Additive (t : ReduceType) : Prop := t = .ReduceL1 ∨ t = .ReduceProd ∨ t = .ReduceSum ∨ t = .ReduceSumSquare

theorem merges_additive (ht : Additive t) {l : List (BitVec 32)} (hl : l.length ≤ 1) : Merges 64 t l := by
  intro l₀
  have hcases : l = [] ∨ ∃ y, l = [y] := by
    rcases l with _ | ⟨y, _ | ⟨z, l⟩⟩
    · exact .inl rfl
    · exact .inr ⟨y, rfl⟩
    · simp at hl
  rcases hcases with rfl | ⟨y, rfl⟩
  · rw [List.append_nil]
    rcases ht with rfl | rfl | rfl | rfl
    all_goals simp [func2, folded, init_value]
  · rw [folded_append]
    rcases ht with rfl | rfl | rfl | rfl
    all_goals simp [func1, func2, folded, init_value, setWidth_signExtend]

/-- The modes that choose one of the elements. -/
def Choosing (t : ReduceType) : Prop := t = .ReduceMax ∨ t = .ReduceMin

theorem folded_single (ht : Choosing t) (y : BitVec 32) : folded 64 t [y] = y.signExtend 64 := by
  rcases ht with rfl | rfl
  · simp only [folded, List.foldl_cons, List.foldl_nil, func1, init_value, slt_iff]
    rw [if_neg (Int.not_lt.mpr (BitVec.toInt_intMin_le _))]
  · simp only [folded, List.foldl_cons, List.foldl_nil, func1, init_value, slt_iff]
    rw [if_neg (Int.not_lt.mpr (toInt_le_intMax _))]

/-- A maximum or a minimum of elements is one of them. -/
theorem folded_choosing (ht : Choosing t) {l : List (BitVec 32)} (hl : l ≠ []) : ∃ z : BitVec 32, folded 64 t l = z.signExtend 64 := by
  induction l using List.reverseRecOn with
  | nil => exact absurd rfl hl
  | append_singleton l y ih =>
    by_cases hnil : l = []
    · subst hnil
      exact ⟨y, folded_single ht y⟩
    · obtain ⟨z, hz⟩ := ih hnil
      rw [folded_append, hz]
      rcases ht with rfl | rfl
      · simp only [func1]
        split_ifs
        · exact ⟨z, rfl⟩
        · exact ⟨y, rfl⟩
      · simp only [func1]
        split_ifs
        · exact ⟨z, rfl⟩
        · exact ⟨y, rfl⟩

/-- Choosing between a choice of two and a third. -/
theorem func2_func1_choosing (ht : Choosing t) (x : BitVec 64) (z y : BitVec 32) :
    func2 t x ((func1 t (z.signExtend 64) y).setWidth 32) = func1 t (func2 t x z) y := by
  rcases ht with rfl | rfl
  · simp only [func1, func2, slt_iff]
    split_ifs <;> rw [setWidth_signExtend] at * <;> first | rfl | (apply BitVec.eq_of_toInt_eq; omega)
  · simp only [func1, func2, slt_iff]
    split_ifs <;> rw [setWidth_signExtend] at * <;> first | rfl | (apply BitVec.eq_of_toInt_eq; omega)

theorem merges_choosing (ht : Choosing t) {l : List (BitVec 32)} (hl : l ≠ []) : Merges 64 t l := by
  intro l₀
  induction l using List.reverseRecOn with
  | nil => exact absurd rfl hl
  | append_singleton l y ih =>
    by_cases hnil : l = []
    · subst hnil
      rw [List.nil_append, folded_single ht, setWidth_signExtend, folded_append]
      rcases ht with rfl | rfl
      · rfl
      · rfl
    · obtain ⟨z, hz⟩ := folded_choosing ht hnil
      have hl₀ := ih hnil
      rw [hz, setWidth_signExtend] at hl₀
      rw [folded_append, hz, func2_func1_choosing ht, hl₀, ← List.append_assoc, folded_append]

/-- The numbers of elements of an output for which a partial result of 64 bits can be combined. -/
def Keeps (t : ReduceType) (count : Nat) : Prop :=
  match t with
  | .ReduceAnd | .ReduceOr => True
  | .ReduceMax | .ReduceMin => 1 ≤ count
  | .ReduceL1 | .ReduceProd | .ReduceSum | .ReduceSumSquare => count ≤ 1

theorem merges_of_keeps {l : List (BitVec 32)} (h : Keeps t l.length) : Merges 64 t l := by
  cases t
  case ReduceAnd => exact merges_logical (.inl rfl) l
  case ReduceOr => exact merges_logical (.inr rfl) l
  case ReduceMax => exact merges_choosing (.inl rfl) (List.ne_nil_of_length_pos h)
  case ReduceMin => exact merges_choosing (.inr rfl) (List.ne_nil_of_length_pos h)
  case ReduceL1 => exact merges_additive (.inl rfl) h
  case ReduceProd => exact merges_additive (.inr (.inl rfl)) h
  case ReduceSum => exact merges_additive (.inr (.inr (.inl rfl))) h
  case ReduceSumSquare => exact merges_additive (.inr (.inr (.inr rfl))) h

/-! ### All partial results -/

/-- The elements of an output that a thread has. -/
def owned (L : Axes) (nthr ithr j : Nat) : List Nat := (part (sizes L).prod nthr ithr).filter (outputOf L · = j)

theorem partialValue_eq {ithr j : Nat} : partialValue t (init_value t : BitVec w) L xs nthr ithr j =
    folded w t ((owned L nthr ithr j).map (xs.getD · 0)) := rfl

/-- The elements of an output, by numbers. -/
theorem reducedValue_eq {j : Nat} (hK : 0 ∉ kept L) (hj : j < (kept L).prod) :
    reducedValue t (init_value t : BitVec w) L xs (decode (kept L) j) =
      folded w t (((List.range (sizes L).prod).filter (outputOf L · = j)).map (xs.getD · 0)) := by
  have hsame : ∀ e, project (kept L) (decode (sizes L) e) = decode (kept L) j ↔ outputOf L e = j := by
    intro e
    constructor
    · intro h
      rw [outputOf, h, encode_decode, Nat.mod_eq_of_lt hj]
    · intro h
      rw [← h, outputOf, decode_encode (project_lt hK length_projected)]
  have helements : elements L (decode (kept L) j) =
      ((List.range (sizes L).prod).filter (outputOf L · = j)).map (decode (sizes L)) := by
    rw [elements, box_eq_map_decode, List.filter_map]
    simp only [Function.comp_def, hsame]
  rw [reducedValue, helements, List.map_map, folded]
  refine congrArg _ (List.map_congr_left fun e he => ?_)
  have he := List.mem_range.mp (List.mem_filter.mp he).1
  rw [Function.comp_apply, encode_decode, Nat.mod_eq_of_lt he]

theorem flatMap_owned {j : Nat} (hnthr : 1 ≤ nthr) (hfits : (sizes L).prod + nthr ≤ 2 ^ 64) :
    (List.range nthr).flatMap (owned L nthr · j) = (List.range (sizes L).prod).filter (outputOf L · = j) := by
  rw [← (exists_thread_parts hnthr hfits).2, List.filter_flatMap]
  rfl

/-- With partial results that can be combined, the combination is the fold over all of them. -/
theorem combinedValue_eq {j : Nat} (hnthr : 1 ≤ nthr)
    (hmerges : ∀ ithr, 1 ≤ ithr → ithr < nthr → Merges w t ((owned L nthr ithr j).map (xs.getD · 0))) :
    combinedValue t (init_value t : BitVec w) L xs nthr j =
      folded w t (((List.range nthr).flatMap (owned L nthr · j)).map (xs.getD · 0)) := by
  have hsome : ∀ k, k + 1 ≤ nthr → (List.range' 1 k).foldl
      (fun x ithr => func2 t x ((partialValue t (init_value t : BitVec w) L xs nthr ithr j).setWidth 32))
      (partialValue t (init_value t : BitVec w) L xs nthr 0 j) =
        folded w t (((List.range (k + 1)).flatMap (owned L nthr · j)).map (xs.getD · 0)) := by
    intro k hk
    induction k with
    | zero =>
      rw [List.range_one, List.flatMap_singleton]
      rfl
    | succ k ih =>
      rw [List.range'_1_concat, List.foldl_append, ih (by omega), List.foldl_cons, List.foldl_nil, partialValue_eq,
        hmerges (1 + k) (by omega) (by omega), Nat.add_comm 1 k, List.range_succ (n := k + 1), List.flatMap_append,
        List.flatMap_singleton, List.map_append]
  rw [combinedValue, hsome (nthr - 1) (by omega), Nat.sub_add_cancel hnthr]

/-! ### Partial results that are cut -/

/-- Rounds that change nothing can be left out. -/
theorem foldl_filter_of_neutral {α β : Type} {f : α → β → α} {p : β → Prop} [DecidablePred p] {l : List β} {a : α}
    (h : ∀ a b, ¬p b → f a b = a) : l.foldl f a = (l.filter p).foldl f a := by
  rw [List.foldl_filter]
  apply List.foldl_ext
  intro a b _
  by_cases hb : p b
  · rw [if_pos (decide_eq_true hb)]
  · rw [if_neg (by simpa using hb), h a b hb]

/-- Only the elements `e₁` and `e₂` are not neutral. -/
def twoElements (y₀ z : BitVec 32) (n e₁ e₂ : Nat) : List (BitVec 32) :=
  (List.range n).map fun e => if e = e₁ ∨ e = e₂ then y₀ else z

theorem getD_twoElements {y₀ z : BitVec 32} {n e₁ e₂ e : Nat} (he : e < n) :
    (twoElements y₀ z n e₁ e₂).getD e 0 = if e = e₁ ∨ e = e₂ then y₀ else z := by
  rw [twoElements, List.getD_eq_getElem?_getD, List.getElem?_map, List.getElem?_range he]
  rfl

theorem folded_twoElements {y₀ z : BitVec 32} {n e₁ e₂ : Nat} {l : List Nat} (hz : ∀ x : BitVec w, func1 t x z = x)
    (hl : ∀ e ∈ l, e < n) : folded w t (l.map ((twoElements y₀ z n e₁ e₂).getD · 0)) =
      folded w t (List.replicate (l.filter fun e => e = e₁ ∨ e = e₂).length y₀) := by
  have hmap : l.map ((twoElements y₀ z n e₁ e₂).getD · 0) = l.map fun e => if e = e₁ ∨ e = e₂ then y₀ else z :=
    List.map_congr_left fun e he => getD_twoElements (hl e he)
  rw [hmap, folded, List.foldl_map, foldl_filter_of_neutral (p := fun e => e = e₁ ∨ e = e₂) fun x e he => by
    rw [if_neg he, hz], folded]
  generalize (init_value t : BitVec w) = x
  have hall : ∀ e ∈ l.filter fun e => e = e₁ ∨ e = e₂, e = e₁ ∨ e = e₂ := fun e he => by
    simpa using (List.mem_filter.mp he).2
  revert hall
  generalize (l.filter fun e => e = e₁ ∨ e = e₂) = picked
  intro hall
  induction picked generalizing x with
  | nil => rfl
  | cons e picked ih =>
    rw [List.foldl_cons, if_pos (hall e List.mem_cons_self), List.length_cons, List.replicate_succ, List.foldl_cons,
      ih _ fun e' he' => hall e' (List.mem_cons_of_mem e he')]

theorem length_filter_two {l : List Nat} {e₁ e₂ : Nat} (hl : l.Nodup) (h₁ : e₁ ∈ l) (h₂ : e₂ ∈ l) (hne : e₁ ≠ e₂) :
    (l.filter fun e => e = e₁ ∨ e = e₂).length = 2 := by
  have hperm : List.Perm (l.filter fun e => e = e₁ ∨ e = e₂) [e₁, e₂] := by
    refine (List.perm_ext_iff_of_nodup (hl.filter _) (by simpa using hne)).mpr fun e => ?_
    rw [List.mem_filter]
    simp only [decide_eq_true_eq, List.mem_cons, List.not_mem_nil, or_false]
    refine ⟨fun h => h.2, fun h => ⟨?_, h⟩⟩
    rcases h with rfl | rfl
    · exact h₁
    · exact h₂
  exact hperm.length_eq

theorem part_disjoint {n ithr ithr' e : Nat} (hnthr : 1 ≤ nthr) (hfits : n + nthr ≤ 2 ^ 64) (hithr : ithr < nthr)
    (hithr' : ithr' < nthr) (he : e ∈ part n nthr ithr) (he' : e ∈ part n nthr ithr') : ithr = ithr' := by
  by_contra hne
  have hnodup : ((List.range nthr).flatMap (part n nthr)).Nodup := by
    rw [(exists_thread_parts hnthr hfits).2]
    exact List.nodup_range
  have hpairwise := (List.nodup_flatMap.mp hnodup).2
  have : Std.Symm (Function.onFun List.Disjoint (part n nthr)) := ⟨fun _ _ h => List.Disjoint.symm h⟩
  have hdisjoint := hpairwise.forall (List.mem_range.mpr hithr) (List.mem_range.mpr hithr') hne
  exact hdisjoint he he'

/-- A mode that adds or multiplies up, and elements on which it does not fit 32 bits. -/
structure Overflows (t : ReduceType) (y₀ z : BitVec 32) : Prop where
  neutral : ∀ x : BitVec 64, func1 t x z = x
  initial : ∀ x : BitVec 64, func2 t x ((init_value t : BitVec 64).setWidth 32) = x
  differs : func2 t (init_value t) ((folded 64 t [y₀, y₀]).setWidth 32) ≠ folded 64 t [y₀, y₀]

theorem exists_overflows (ht : Additive t) : ∃ y₀ z, Overflows t y₀ z := by
  rcases ht with rfl | rfl | rfl | rfl
  · exact ⟨2 ^ 30, 0, fun x => by simp [func1], fun x => by simp [func2, init_value], by decide⟩
  · exact ⟨2 ^ 16, 1, fun x => by simp [func1], fun x => by simp [func2, init_value], by decide⟩
  · exact ⟨2 ^ 30, 0, fun x => by simp [func1], fun x => by simp [func2, init_value], by decide⟩
  · exact ⟨2 ^ 15, 0, fun x => by simp [func1], fun x => by simp [func2, init_value], by decide⟩

theorem owned_nodup {ithr j : Nat} : (owned L nthr ithr j).Nodup := List.Nodup.filter _ List.nodup_range'

theorem differs_additive {ithr j : Nat} (ht : Additive t) (hK : 0 ∉ kept L) (hj : j < (kept L).prod)
    (hfits : (sizes L).prod + nthr ≤ 2 ^ 64) (hone : 1 ≤ ithr) (hithr : ithr < nthr) (hcount : 2 ≤ (owned L nthr ithr j).length) :
    ∃ xs : List (BitVec 32), xs.length = (sizes L).prod ∧
      combinedValue t (init_value t : BitVec 64) L xs nthr j ≠ reducedValue t (init_value t : BitVec 64) L xs (decode (kept L) j) := by
  obtain ⟨y₀, z, hoverflows⟩ := exists_overflows ht
  obtain ⟨e₁, e₂, hne, h₁, h₂⟩ : ∃ e₁ e₂, e₁ ≠ e₂ ∧ e₁ ∈ owned L nthr ithr j ∧ e₂ ∈ owned L nthr ithr j := by
    have hpos : 0 < (owned L nthr ithr j).length := by omega
    have hpos' : 1 < (owned L nthr ithr j).length := by omega
    refine ⟨(owned L nthr ithr j)[0], (owned L nthr ithr j)[1], ?_, List.getElem_mem hpos, List.getElem_mem hpos'⟩
    intro h
    exact absurd ((owned_nodup.getElem_inj_iff).mp h) (by decide)
  have hnthr : 1 ≤ nthr := by omega
  obtain ⟨hin, hall⟩ := exists_thread_parts hnthr hfits
  refine ⟨twoElements y₀ z (sizes L).prod e₁ e₂, by rw [twoElements, List.length_map, List.length_range], ?_⟩
  have hreduced : reducedValue t (init_value t : BitVec 64) L (twoElements y₀ z (sizes L).prod e₁ e₂) (decode (kept L) j) =
      folded 64 t [y₀, y₀] := by
    have hmem : ∀ {e}, e ∈ owned L nthr ithr j → e ∈ (List.range (sizes L).prod).filter (outputOf L · = j) := by
      intro e he
      rw [← flatMap_owned hnthr hfits]
      exact List.mem_flatMap.mpr ⟨ithr, List.mem_range.mpr hithr, he⟩
    rw [reducedValue_eq hK hj, folded_twoElements hoverflows.neutral fun e he =>
      List.mem_range.mp (List.mem_filter.mp he).1, length_filter_two (List.nodup_range.filter _) (hmem h₁) (hmem h₂) hne]
    rfl
  have hvalue : ∀ ithr' < nthr, partialValue t (init_value t : BitVec 64) L (twoElements y₀ z (sizes L).prod e₁ e₂) nthr ithr' j =
      if ithr' = ithr then folded 64 t [y₀, y₀] else init_value t := by
    intro ithr' hithr'
    have hlt : ∀ e ∈ owned L nthr ithr' j, e < (sizes L).prod := fun e he =>
      hin ithr' hithr' e (List.mem_filter.mp he).1
    rw [partialValue_eq, folded_twoElements hoverflows.neutral hlt]
    split_ifs with heq
    · subst heq
      rw [length_filter_two owned_nodup h₁ h₂ hne]
      rfl
    · have hnil : (owned L nthr ithr' j).filter (fun e => e = e₁ ∨ e = e₂) = [] := by
        rw [List.filter_eq_nil_iff]
        intro e he hpick
        have he' : e ∈ owned L nthr ithr j := by
          rcases of_decide_eq_true hpick with rfl | rfl
          · exact h₁
          · exact h₂
        exact heq (part_disjoint hnthr hfits hithr' hithr (List.mem_filter.mp he).1 (List.mem_filter.mp he').1)
      rw [hnil]
      rfl
  have hcombined : combinedValue t (init_value t : BitVec 64) L (twoElements y₀ z (sizes L).prod e₁ e₂) nthr j =
      func2 t (init_value t) ((folded 64 t [y₀, y₀]).setWidth 32) := by
    have hround : ∀ (x : BitVec 64), ∀ ithr' ∈ List.range' 1 (nthr - 1),
        func2 t x ((partialValue t (init_value t : BitVec 64) L (twoElements y₀ z (sizes L).prod e₁ e₂) nthr ithr' j).setWidth 32) =
          func2 t x ((if ithr' = ithr then folded 64 t [y₀, y₀] else init_value t).setWidth 32) := by
      intro x ithr' hithr'
      rw [hvalue ithr' (by have := List.mem_range'_1.mp hithr'; omega)]
    have hpicked : (List.range' 1 (nthr - 1)).filter (· = ithr) = [ithr] := by
      refine List.perm_singleton.mp ((List.perm_ext_iff_of_nodup (List.Nodup.filter _ List.nodup_range') (List.nodup_singleton _)).mpr
        fun i => ?_)
      rw [List.mem_filter, List.mem_range'_1, List.mem_singleton, decide_eq_true_eq]
      omega
    rw [combinedValue, hvalue 0 (by omega), if_neg (by omega : ¬0 = ithr), List.foldl_ext _ _ _ hround,
      foldl_filter_of_neutral (p := (· = ithr)) fun x i hi => by rw [if_neg hi, hoverflows.initial], hpicked,
      List.foldl_cons, List.foldl_nil, if_pos rfl]
  rw [hreduced, hcombined]
  exact hoverflows.differs

/-- A mode that chooses, and elements for which the initial value, cut to 32 bits, is the wrong choice. -/
structure Misleads (t : ReduceType) (y : BitVec 32) (P : BitVec 64 → Prop) : Prop where
  start : ∀ x : BitVec 64, P (func2 t x ((init_value t : BitVec 64).setWidth 32))
  keep : ∀ x y', P x → P (func2 t x y')
  initial : ¬P (init_value t)
  stay : ∀ x, ¬P x → ¬P (func1 t x y)

theorem exists_misleads (ht : Choosing t) : ∃ y P, Misleads t y P := by
  rcases ht with rfl | rfl
  · refine ⟨-1, fun x => 0 ≤ x.toInt, fun x => ?_, fun x y' hx => ?_, by decide, fun x hx => ?_⟩
    · simp only [func2, slt_iff]
      split_ifs with h
      · exact (show (0 : Int) ≤ (((init_value .ReduceMax : BitVec 64).setWidth 32).signExtend 64).toInt by decide).trans h.le
      · decide
    · simp only [func2, slt_iff]
      split_ifs with h
      · exact hx
      · exact hx.trans (Int.not_lt.mp h)
    · simp only [func1]
      split_ifs
      · exact hx
      · decide
  · refine ⟨0, fun x => x.toInt < 0, fun x => ?_, fun x y' hx => ?_, by decide, fun x hx => ?_⟩
    · simp only [func2, slt_iff]
      split_ifs with h
      · exact h.trans (show (((init_value .ReduceMin : BitVec 64).setWidth 32).signExtend 64).toInt < 0 by decide)
      · decide
    · simp only [func2, slt_iff]
      split_ifs with h
      · exact hx
      · exact (Int.not_lt.mp h).trans_lt hx
    · simp only [func1]
      split_ifs
      · exact hx
      · decide

theorem differs_choosing {ithr j : Nat} (ht : Choosing t) (hK : 0 ∉ kept L) (hj : j < (kept L).prod) (hone : 1 ≤ ithr)
    (hithr : ithr < nthr) (hcount : owned L nthr ithr j = []) :
    ∃ xs : List (BitVec 32), xs.length = (sizes L).prod ∧
      combinedValue t (init_value t : BitVec 64) L xs nthr j ≠ reducedValue t (init_value t : BitVec 64) L xs (decode (kept L) j) := by
  obtain ⟨y, P, hmisleads⟩ := exists_misleads ht
  refine ⟨List.replicate (sizes L).prod y, List.length_replicate, ?_⟩
  have hreduced : ¬P (reducedValue t (init_value t) L (List.replicate (sizes L).prod y) (decode (kept L) j)) := by
    rw [reducedValue_eq hK hj, folded, List.foldl_map]
    refine List.foldlRecOn (motive := fun x => ¬P x) _ _ hmisleads.initial fun x hx e he => ?_
    have he := List.mem_range.mp (List.mem_filter.mp he).1
    rw [List.getD_replicate _ he]
    exact hmisleads.stay x hx
  have hcombined : P (combinedValue t (init_value t) L (List.replicate (sizes L).prod y) nthr j) := by
    obtain ⟨pre, post, hsplit⟩ := List.append_of_mem (List.mem_range'_1.mpr ⟨hone, by omega⟩ : ithr ∈ List.range' 1 (nthr - 1))
    have hvalue : partialValue t (init_value t : BitVec 64) L (List.replicate (sizes L).prod y) nthr ithr j = init_value t := by
      rw [partialValue_eq, hcount]
      rfl
    rw [combinedValue, hsplit, List.foldl_append, List.foldl_cons, hvalue]
    exact List.foldlRecOn _ _ (hmisleads.start _) fun x hx i _ => hmisleads.keep x _ hx
  intro heq
  exact hreduced (heq ▸ hcombined)

theorem not_keeps {n : Nat} (h : ¬Keeps t n) : Additive t ∧ 2 ≤ n ∨ Choosing t ∧ n = 0 := by
  cases t
  case ReduceAnd => exact absurd trivial h
  case ReduceOr => exact absurd trivial h
  case ReduceMax => exact .inr ⟨.inl rfl, Nat.eq_zero_of_not_pos h⟩
  case ReduceMin => exact .inr ⟨.inr rfl, Nat.eq_zero_of_not_pos h⟩
  case ReduceL1 => exact .inl ⟨.inl rfl, Nat.lt_of_not_le h⟩
  case ReduceProd => exact .inl ⟨.inr (.inl rfl), Nat.lt_of_not_le h⟩
  case ReduceSum => exact .inl ⟨.inr (.inr (.inl rfl)), Nat.lt_of_not_le h⟩
  case ReduceSumSquare => exact .inl ⟨.inr (.inr (.inr rfl)), Nat.lt_of_not_le h⟩

/-- **Partial results of 64 bits.** They can be combined for all elements only if every thread but the first has a number
of elements that keeps them. -/
theorem keeps_iff {j : Nat} (hK : 0 ∉ kept L) (hj : j < (kept L).prod) (hnthr : 1 ≤ nthr)
    (hfits : (sizes L).prod + nthr ≤ 2 ^ 64) :
    (∀ xs : List (BitVec 32), xs.length = (sizes L).prod →
      combinedValue t (init_value t : BitVec 64) L xs nthr j = reducedValue t (init_value t : BitVec 64) L xs (decode (kept L) j)) ↔
      ∀ ithr, 1 ≤ ithr → ithr < nthr → Keeps t (owned L nthr ithr j).length := by
  constructor
  · intro h ithr hone hithr
    by_contra hkeeps
    rcases not_keeps hkeeps with ⟨ht, hcount⟩ | ⟨ht, hcount⟩
    · obtain ⟨xs, hxs, hne⟩ := differs_additive ht hK hj hfits hone hithr hcount
      exact hne (h xs hxs)
    · obtain ⟨xs, hxs, hne⟩ := differs_choosing ht hK hj hone hithr (List.eq_nil_of_length_eq_zero hcount)
      exact hne (h xs hxs)
  · intro hkeeps xs hxs
    rw [combinedValue_eq hnthr fun ithr hone hithr => merges_of_keeps (by rw [List.length_map]; exact hkeeps ithr hone hithr),
      flatMap_owned hnthr hfits, reducedValue_eq hK hj]

end ReduceConstInfer

end OpenVino.InferenceEngine.ShapeInfer
