import OpenVino.InferenceEngine.TensorOffset

/-!
# Tensors with a stride for each dimension

When the order names every dimension once, the offset of a coordinate vector is the sum of its coordinates times
the strides of their dimensions (`Plain.offset_eq`). So two such tensors give the same offsets exactly when the
strides of the dimensions longer than one agree (`sameOffsets_iff`).
-/

namespace OpenVino.InferenceEngine

namespace TensorDesc

variable {t t' : TensorDesc} {v : SizeVector} {i : Nat}

/-- Every dimension is one block, with room for it, and there are no offsets of the dimensions. -/
structure Plain (t : TensorDesc) : Prop where
  layout : t.layout ≠ .ANY ∧ t.layout ≠ .SCALAR
  order : t.blockingDesc.order.Perm (List.range t.dims.length)
  blocks : t.blockingDesc.blockedDims.length = t.blockingDesc.order.length
  strides : t.blockingDesc.strides.length = t.blockingDesc.order.length
  offsets : t.blockingDesc.offsetPaddingToData = List.replicate t.blockingDesc.order.length 0
  room : ∀ b ∈ t.radices, t.dims.getD b.1 0 ≤ b.2

/-- The stride of a dimension. -/
def strideOf (t : TensorDesc) (i : Nat) : Nat := t.blockingDesc.strides.getD (t.blockingDesc.order.idxOf i) 0

/-- The offset without `offsetPadding` and without wrapping. -/
def sumOfStrides (t : TensorDesc) (v : SizeVector) : Nat :=
  ∑ i ∈ Finset.range t.dims.length, v.getD i 0 * t.strideOf i

namespace Plain

variable (ht : t.Plain)

include ht

theorem nodup : t.blockingDesc.order.Nodup := ht.order.nodup_iff.mpr List.nodup_range

theorem map_fst_radices : t.radices.map Prod.fst = t.blockingDesc.order :=
  List.map_fst_zip ht.blocks.ge

theorem zip_strides : t.blockingDesc.order.zip t.blockingDesc.strides =
    t.blockingDesc.order.map fun o => (o, t.strideOf o) := by
  apply List.ext_getElem
  · simp [ht.strides]
  · intro j hj _
    simp only [List.length_zip, ht.strides, min_self] at hj
    simp [strideOf, ht.nodup.idxOf_getElem, List.getElem?_eq_getElem (ht.strides ▸ hj)]

/-- The coordinates are their own digits. -/
theorem digits_eq (hv : v ∈ box t.dims) : t.digits v = t.blockingDesc.order.map (v.getD · 0) := by
  have hlt : ∀ b ∈ t.radices, v.getD b.1 0 < b.2 := by
    intro b hb
    have hmem : b.1 ∈ t.blockingDesc.order := (List.of_mem_zip hb).1
    have hin := coord_lt hv b.1 (List.mem_range.mp (ht.order.mem_iff.mp hmem))
    exact hin.trans_le (ht.room b hb)
  have hnodup : (t.radices.map Prod.fst).Nodup := ht.map_fst_radices ▸ ht.nodup
  rw [digits, splitDigits_of_nodup hnodup hlt, ← ht.map_fst_radices, List.map_map]
  rfl

theorem offset_eq (hv : v ∈ box t.dims) : ∃ a, t.offset v = .ok a ∧
    a ≡ t.blockingDesc.offsetPadding + t.sumOfStrides v [MOD 2 ^ 64] ∧
      (t.blockingDesc.offsetPadding < 2 ^ 64 → a < 2 ^ 64) := by
  have hpos : ∀ b ∈ t.radices, 0 < b.2 := by
    intro b hb
    have hmem : b.1 ∈ t.blockingDesc.order := (List.of_mem_zip hb).1
    have hin := coord_lt hv b.1 (List.mem_range.mp (ht.order.mem_iff.mp hmem))
    have hroom := ht.room b hb
    omega
  have hdims : ∀ b ∈ t.radices, b.1 < v.length := by
    intro b hb
    have hmem : b.1 ∈ t.blockingDesc.order := (List.of_mem_zip hb).1
    rw [(mem_box.mp hv).length_eq]
    exact List.mem_range.mp (ht.order.mem_iff.mp hmem)
  obtain ⟨off_v, hrun, -, -⟩ := blockedShift_ok hpos hdims
  have hrun : blockedShift (t.blockingDesc.order.zip t.blockingDesc.blockedDims) v = .ok (t.digits v, off_v) := hrun
  refine ⟨addShifts t.blockingDesc.offsetPadding
    ((t.digits v).zip (t.blockingDesc.offsetPaddingToData.zip t.blockingDesc.strides)), ?_, ?_, ?_⟩
  · rw [offset, if_neg ht.layout.1, if_neg ht.layout.2, if_neg (by simp [ht.blocks, ht.strides]), hrun]
    simp [bind, Except.bind, ht.offsets, pure, Except.pure]
  · refine addShifts_modEq.trans ?_
    have hzip : (t.digits v).zip (t.blockingDesc.offsetPaddingToData.zip t.blockingDesc.strides) =
        (t.blockingDesc.order.zip t.blockingDesc.strides).map fun p => (v.getD p.1 0, 0, p.2) := by
      rw [ht.digits_eq hv, ht.offsets]
      apply List.ext_getElem
      · simp [ht.strides]
      · intro j _ _
        simp
    have hsum : t.sumOfStrides v = (t.blockingDesc.order.map fun o => v.getD o 0 * t.strideOf o).sum := by
      rw [(ht.order.map _).sum_eq]
      rfl
    rw [hzip, ht.zip_strides, List.map_map, List.map_map, hsum]
    rfl
  · intro h
    exact addShifts_lt (.inr h)

end Plain

/-- The tensors give a coordinate vector the same offset. -/
def SameOffsets (t t' : TensorDesc) : Prop := ∀ v ∈ box t.dims, t'.offset v = t.offset v

theorem sumOfStrides_axis (hi : i < t.dims.length) :
    t.sumOfStrides ((List.replicate t.dims.length 0).set i 1) = t.strideOf i := by
  unfold sumOfStrides
  rw [Finset.sum_eq_single i]
  · simp [hi]
  · intro j hj hij
    rw [Finset.mem_range] at hj
    simp [Ne.symm hij, hj]
  · intro h
    exact absurd (Finset.mem_range.mpr hi) h

theorem sameOffsets_iff (ht : t.Plain) (ht' : t'.Plain) (hdims : t'.dims = t.dims)
    (hpadding : t'.blockingDesc.offsetPadding = t.blockingDesc.offsetPadding)
    (hpad : t.blockingDesc.offsetPadding < 2 ^ 64) (hpos : ∀ X ∈ t.dims, 0 < X)
    (hlt : ∀ i, t.strideOf i < 2 ^ 64) (hlt' : ∀ i, t'.strideOf i < 2 ^ 64) :
    t.SameOffsets t' ↔ ∀ i, 1 < t.dims.getD i 0 → t'.strideOf i = t.strideOf i := by
  have hiff : ∀ v ∈ box t.dims, t'.offset v = t.offset v ↔ t'.sumOfStrides v ≡ t.sumOfStrides v [MOD 2 ^ 64] := by
    intro v hv
    obtain ⟨a, ha, hmod, halt⟩ := ht.offset_eq hv
    obtain ⟨a', ha', hmod', halt'⟩ := ht'.offset_eq (hdims ▸ hv)
    rw [ha, ha', Except.ok.injEq]
    rw [hpadding] at hmod' halt'
    constructor
    · rintro rfl
      exact (hmod'.symm.trans hmod).add_left_cancel' _
    · intro h
      have := (hmod'.trans (h.add_left _)).trans hmod.symm
      exact Nat.ModEq.eq_of_lt_of_lt this (halt' hpad) (halt hpad)
  constructor
  · intro h i hi
    have hi' : i < t.dims.length := by
      by_contra hge
      rw [List.getD_eq_default _ _ (by omega)] at hi
      omega
    have haxis := axis_mem_box hpos hi
    have hmod := (hiff _ haxis).mp (h _ haxis)
    rw [sumOfStrides_axis hi', ← hdims, sumOfStrides_axis (hdims ▸ hi')] at hmod
    exact Nat.ModEq.eq_of_lt_of_lt hmod (hlt' i) (hlt i)
  · intro h v hv
    have hsum : t'.sumOfStrides v = t.sumOfStrides v := by
      unfold sumOfStrides
      rw [hdims]
      apply Finset.sum_congr rfl
      intro i hi
      by_cases hone : 1 < t.dims.getD i 0
      · rw [h i hone]
      · have hlt := coord_lt hv i (Finset.mem_range.mp hi)
        have hzero : v.getD i 0 = 0 := by omega
        rw [hzero, Nat.zero_mul, Nat.zero_mul]
    exact (hiff v hv).mpr (hsum ▸ rfl)

end TensorDesc

end OpenVino.InferenceEngine
