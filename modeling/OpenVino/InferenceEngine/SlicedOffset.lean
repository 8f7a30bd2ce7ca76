import OpenVino.InferenceEngine.TensorOffset

/-!
# Slices of a tensor

Two descriptors with the same strides give a pair of coordinate vectors the same offset when the digits of one
vector are those of the other moved along one block, and the first offsets make up for it
(`Laid.offset_shifted`). With one block for each dimension in order the digits are the coordinates
(`digits_range`); a further block at the end takes the remainders of one dimension (`splitDigits_concat`).
-/

namespace OpenVino

section Digits

variable {ι : Type} [DecidableEq ι] {l : List (ι × Nat)} {i : ι} {b : Nat} {v : ι → Nat}

/-- The last block takes its digit first. -/
theorem splitDigits_concat : (splitDigits (l ++ [(i, b)]) v).1 =
    (splitDigits l (Function.update v i (v i / b))).1 ++ [v i % b] := by
  have hboth : splitDigits (l ++ [(i, b)]) v = ((splitDigits l (Function.update v i (v i / b))).1 ++ [v i % b],
      (splitDigits l (Function.update v i (v i / b))).2) := by
    induction l with
    | nil => rfl
    | cons p l ih =>
      obtain ⟨j, c⟩ := p
      rw [List.cons_append, splitDigits, ih]
      rfl
  rw [hboth]

theorem digits_range {dims : List Nat} {v : Nat → Nat} (hlt : ∀ i < dims.length, v i < dims.getD i 0) :
    (splitDigits ((List.range dims.length).zip dims) v).1 = (List.range dims.length).map v := by
  have hfst : ((List.range dims.length).zip dims).map Prod.fst = List.range dims.length :=
    List.map_fst_zip (by simp)
  have hroom : ∀ p ∈ (List.range dims.length).zip dims, v p.1 < p.2 := by
    intro p hp
    obtain ⟨i, hi, rfl⟩ := List.mem_iff_getElem.mp hp
    have hi' : i < dims.length := by simpa using hi
    have := hlt i hi'
    rw [List.getD_eq_getElem _ _ hi'] at this
    simpa using this
  have hnodup : (((List.range dims.length).zip dims).map Prod.fst).Nodup := by
    rw [hfst]
    exact List.nodup_range
  have hmap := List.map_map (f := Prod.fst) (g := v) (l := (List.range dims.length).zip dims)
  rw [hfst] at hmap
  rw [splitDigits_of_nodup hnodup hroom, hmap]
  rfl

/-- One member of a family is moved. -/
theorem map_update_range {n k p : Nat} {v : Nat → Nat} :
    (List.range n).map (Function.update v k (v k + p)) = ((List.range n).map v).modify k (· + p) := by
  apply List.ext_getElem
  · simp
  · intro i hi _
    rw [List.getElem_modify]
    by_cases hik : k = i
    · subst hik
      simp
    · simp [hik, Function.update_of_ne (Ne.symm hik)]

end Digits

namespace InferenceEngine.TensorDesc

variable {t u : TensorDesc} {v w : SizeVector} {k p : Nat}

theorem sum_zip_modify {digits pads strides : List Nat} (hd : k < digits.length) (hp : k < pads.length)
    (hs : k < strides.length) :
    (((digits.modify k (· + p)).zip (pads.zip strides)).map fun b => (b.1 + b.2.1) * b.2.2).sum =
      ((digits.zip (pads.zip strides)).map fun b => (b.1 + b.2.1) * b.2.2).sum + p * strides.getD k 0 := by
  induction k generalizing digits pads strides with
  | zero =>
    obtain ⟨d, digits, rfl⟩ := List.exists_cons_of_length_pos hd
    obtain ⟨q, pads, rfl⟩ := List.exists_cons_of_length_pos hp
    obtain ⟨s, strides, rfl⟩ := List.exists_cons_of_length_pos hs
    simp only [List.modify_zero_cons, List.zip_cons_cons, List.map_cons, List.sum_cons, List.getD_cons_zero]
    ring
  | succ k ih =>
    obtain ⟨d, digits, rfl⟩ := List.exists_cons_of_length_pos (Nat.zero_lt_of_lt hd)
    obtain ⟨q, pads, rfl⟩ := List.exists_cons_of_length_pos (Nat.zero_lt_of_lt hp)
    obtain ⟨s, strides, rfl⟩ := List.exists_cons_of_length_pos (Nat.zero_lt_of_lt hs)
    have := ih (Nat.lt_of_succ_lt_succ hd) (Nat.lt_of_succ_lt_succ hp) (Nat.lt_of_succ_lt_succ hs)
    simp only [List.modify_succ_cons, List.zip_cons_cons, List.map_cons, List.sum_cons, List.getD_cons_succ, this]
    omega

/-- There is an entry of each list for each block. -/
structure Laid (t : TensorDesc) : Prop where
  layout : t.layout ≠ .ANY ∧ t.layout ≠ .SCALAR
  blocks : t.blockingDesc.blockedDims.length = t.blockingDesc.order.length
  strides : t.blockingDesc.strides.length = t.blockingDesc.order.length
  offsets : t.blockingDesc.offsetPaddingToData.length = t.blockingDesc.order.length

theorem Laid.length_digits (ht : t.Laid) : (t.digits v).length = t.blockingDesc.order.length := by
  have hlen : ∀ (l : List (Nat × Nat)) (g : Nat → Nat), (splitDigits l g).1.length = l.length := by
    intro l g
    induction l with
    | nil => rfl
    | cons b l ih =>
      obtain ⟨i, b⟩ := b
      rw [splitDigits, List.length_cons, ih, List.length_cons]
  rw [digits, hlen, radices, List.length_zip, ht.blocks, min_self]

theorem Laid.offset_eq (ht : t.Laid) (hpos : ∀ b ∈ t.radices, 0 < b.2) (hdims : ∀ b ∈ t.radices, b.1 < v.length) :
    t.offset v = .ok (addShifts t.blockingDesc.offsetPadding
      ((t.digits v).zip (t.blockingDesc.offsetPaddingToData.zip t.blockingDesc.strides))) := by
  obtain ⟨off_v, hrun, -, -⟩ := blockedShift_ok hpos hdims
  have hrun : blockedShift (t.blockingDesc.order.zip t.blockingDesc.blockedDims) v = .ok (t.digits v, off_v) := hrun
  rw [offset, if_neg ht.layout.1, if_neg ht.layout.2, if_neg (by simp [ht.blocks, ht.strides]), hrun]
  simp [bind, Except.bind, ht.offsets, pure, Except.pure]

/-- **A shift along one block.** -/
theorem Laid.offset_shifted (ht : t.Laid) (hu : u.Laid) (htpos : ∀ b ∈ t.radices, 0 < b.2)
    (hupos : ∀ b ∈ u.radices, 0 < b.2) (htdims : ∀ b ∈ t.radices, b.1 < w.length)
    (hudims : ∀ b ∈ u.radices, b.1 < v.length) (hk : k < t.blockingDesc.order.length)
    (hstrides : u.blockingDesc.strides = t.blockingDesc.strides)
    (hoffsets : u.blockingDesc.offsetPaddingToData = t.blockingDesc.offsetPaddingToData)
    (hdigits : t.digits w = (u.digits v).modify k (· + p))
    (hpadding : u.blockingDesc.offsetPadding ≡
      t.blockingDesc.offsetPadding + p * t.blockingDesc.strides.getD k 0 [MOD 2 ^ 64]) :
    ∃ a, u.offset v = .ok a ∧ t.offset w = .ok a := by
  have horder : u.blockingDesc.order.length = t.blockingDesc.order.length := by
    rw [← hu.strides, hstrides, ht.strides]
  have hlen : (u.digits v).length = t.blockingDesc.order.length := hu.length_digits.trans horder
  have hne : ∀ {digits : List Nat}, digits.length = t.blockingDesc.order.length →
      digits.zip (t.blockingDesc.offsetPaddingToData.zip t.blockingDesc.strides) ≠ [] := by
    intro digits hdigits hnil
    have := congrArg List.length hnil
    simp only [List.length_zip, hdigits, ht.offsets, ht.strides, min_self, List.length_nil] at this
    omega
  refine ⟨_, hu.offset_eq hupos hudims, ?_⟩
  rw [ht.offset_eq htpos htdims, hstrides, hoffsets, Except.ok.injEq]
  apply Nat.ModEq.eq_of_lt_of_lt ?_ (addShifts_lt (.inl (hne ht.length_digits))) (addShifts_lt (.inl (hne hlen)))
  refine addShifts_modEq.trans ?_
  refine Nat.ModEq.trans ?_ addShifts_modEq.symm
  rw [hdigits, sum_zip_modify (hlen ▸ hk) (ht.offsets ▸ hk) (ht.strides ▸ hk), Nat.add_comm (List.sum _),
    ← Nat.add_assoc]
  exact (hpadding.symm.add_right _)

end InferenceEngine.TensorDesc

end OpenVino
