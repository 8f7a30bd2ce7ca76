import Mathlib

/-!
# Matrices that shift a vector

A matrix stands in a list row by row. `IsShift W rows cols r₀ c₀ n`: it has ones at the places `(r₀ + i, c₀ + i)` for
`i < n` and zeros elsewhere, so that it copies the elements from `c₀` on to the rows from `r₀` on and makes the other
rows zero (`IsShift.sum_mul`). Such a matrix is written by a strided index (`isShift_of_strided`).
-/

namespace OpenVino

variable {R : Type*} [Semiring R] {W : List R} {rows cols r₀ c₀ n : ℕ}

theorem row_col_inj {r r' c c' : ℕ} (hc : c < cols) (hc' : c' < cols) (h : r * cols + c = r' * cols + c') :
    r = r' ∧ c = c' := by
  have hpos : 0 < cols := by omega
  have hr : (r * cols + c) / cols = r := by
    rw [Nat.mul_comm, Nat.mul_add_div hpos, Nat.div_eq_of_lt hc, Nat.add_zero]
  have hr' : (r' * cols + c') / cols = r' := by
    rw [Nat.mul_comm, Nat.mul_add_div hpos, Nat.div_eq_of_lt hc', Nat.add_zero]
  have heq : r = r' := by rw [← hr, ← hr', h]
  subst heq
  exact ⟨rfl, Nat.add_left_cancel h⟩

structure IsShift (W : List R) (rows cols r₀ c₀ n : ℕ) : Prop where
  length : W.length = rows * cols
  entry : ∀ r < rows, ∀ c < cols, W.getD (r * cols + c) 0 = if r₀ ≤ r ∧ r < r₀ + n ∧ c = c₀ + (r - r₀) then 1 else 0

/-- The product with a vector. -/
theorem IsShift.sum_mul (h : IsShift W rows cols r₀ c₀ n) (hcols : c₀ + n ≤ cols) (x : ℕ → R) {r : ℕ} (hr : r < rows) :
    ∑ c ∈ Finset.range cols, W.getD (r * cols + c) 0 * x c =
      if r₀ ≤ r ∧ r < r₀ + n then x (c₀ + (r - r₀)) else 0 := by
  have hentry : ∀ c ∈ Finset.range cols, W.getD (r * cols + c) 0 * x c =
      if c = c₀ + (r - r₀) then (if r₀ ≤ r ∧ r < r₀ + n then x c else 0) else 0 := by
    intro c hc
    rw [h.entry r hr c (Finset.mem_range.mp hc)]
    by_cases hrow : r₀ ≤ r ∧ r < r₀ + n
    · by_cases hcol : c = c₀ + (r - r₀)
      · rw [if_pos ⟨hrow.1, hrow.2, hcol⟩, if_pos hcol, if_pos hrow, one_mul]
      · rw [if_neg fun h' => hcol h'.2.2, if_neg hcol, zero_mul]
    · rw [if_neg fun h' => hrow ⟨h'.1, h'.2.1⟩, zero_mul, if_neg hrow, ite_self]
  rw [Finset.sum_congr rfl hentry, Finset.sum_ite_eq']
  by_cases hrow : r₀ ≤ r ∧ r < r₀ + n
  · rw [if_pos hrow, if_pos (Finset.mem_range.mpr (by omega))]
  · rw [if_neg hrow, ite_self]

/-- The places that a strided index visits, row by row. -/
theorem strided_eq (i : ℕ) : r₀ * cols + c₀ + i * (cols + 1) = (r₀ + i) * cols + (c₀ + i) := by ring

theorem strided_lt (hcols : c₀ + n ≤ cols) (hrows : r₀ + n ≤ rows) {i : ℕ} (hi : i < n) :
    r₀ * cols + c₀ + i * (cols + 1) < rows * cols := by
  rw [strided_eq]
  calc (r₀ + i) * cols + (c₀ + i) < (r₀ + i) * cols + cols := by omega
    _ = (r₀ + i + 1) * cols := by ring
    _ ≤ rows * cols := Nat.mul_le_mul_right _ (by omega)

theorem isShift_of_strided (hlength : W.length = rows * cols) (hcols : c₀ + n ≤ cols)
    (hone : ∀ i < n, W.getD (r₀ * cols + c₀ + i * (cols + 1)) 0 = 1)
    (hzero : ∀ j, (∀ i < n, j ≠ r₀ * cols + c₀ + i * (cols + 1)) → W.getD j 0 = 0) :
    IsShift W rows cols r₀ c₀ n := by
  refine ⟨hlength, fun r hr c hc => ?_⟩
  by_cases h : r₀ ≤ r ∧ r < r₀ + n ∧ c = c₀ + (r - r₀)
  · obtain ⟨hlow, hhigh, rfl⟩ := h
    have hplace : r * cols + (c₀ + (r - r₀)) = r₀ * cols + c₀ + (r - r₀) * (cols + 1) := by
      rw [strided_eq, Nat.add_sub_cancel' hlow]
    rw [if_pos ⟨hlow, hhigh, rfl⟩, hplace]
    exact hone _ (by omega)
  · rw [if_neg h]
    apply hzero
    intro i hi heq
    rw [strided_eq] at heq
    obtain ⟨rfl, rfl⟩ := row_col_inj hc (by omega) heq
    exact h ⟨Nat.le_add_right _ _, by omega, by omega⟩

end OpenVino
