import Mathlib.Algebra.Order.Ring.Int
import Mathlib.Data.List.Forall2
import Mathlib.Tactic.Linarith
import Mathlib.Tactic.Ring

/-!
# Nested strides

A layout is a list of strides with the sizes of their dimensions, the innermost first. It is `Nested` in
elements of `e` bytes when every stride is at least what lies below it, an element or a whole dimension.
Then an element inside the dimensions lies inside the extent of the layout (`offset_extent`), and two
elements at distinct coordinates do not overlap (`offset_apart`).
-/

namespace OpenVino.Strides

def Nested : Int → List (Int × Int) → Prop
  | _, [] => True
  | e, (stride, dim) :: layout => e ≤ stride ∧ Nested (stride * dim) layout

def extent : Int → List (Int × Int) → Int
  | e, [] => e
  | _, (stride, dim) :: layout => extent (stride * dim) layout

def offset : List (Int × Int) → List Int → Int
  | (stride, _) :: layout, c :: coord => c * stride + offset layout coord
  | _, _ => 0

def Inside : List (Int × Int) → List Int → Prop := List.Forall₂ fun p c => 0 ≤ c ∧ c < p.2

variable {e : Int} {layout : List (Int × Int)} {coord coord' : List Int}

/-- The elements of one dimension fit into it, each with the bytes that the dimension below takes. -/
theorem step_le {c stride dim : Int} (he : 0 < e) (hstride : e ≤ stride) (hc : 0 ≤ c ∧ c < dim) :
    0 ≤ c * stride ∧ c * stride + e ≤ stride * dim := by
  have hle : c * stride + stride ≤ stride * dim := by nlinarith
  exact ⟨mul_nonneg hc.1 (by omega), by omega⟩

theorem mul_pos_of_inside {c stride dim : Int} (he : 0 < e) (hstride : e ≤ stride) (hc : 0 ≤ c ∧ c < dim) :
    0 < stride * dim := mul_pos (by omega) (by omega)

theorem stride_pos (he : 0 < e) (hnested : Nested e layout) (hc : Inside layout coord) :
    ∀ p ∈ layout, 0 < p.1 := by
  induction hc generalizing e with
  | nil => simp
  | @cons p c layout coord hpc hrest ih =>
    obtain ⟨stride, dim⟩ := p
    obtain ⟨hstride, hnested⟩ := hnested
    have hpos : 0 < stride * dim := mul_pos_of_inside he hstride hpc
    intro q hq
    rcases List.mem_cons.mp hq with rfl | hq
    · exact he.trans_le hstride
    · exact ih hpos hnested q hq

/-- **An element lies inside the extent.** -/
theorem offset_extent (he : 0 < e) (hnested : Nested e layout) (hc : Inside layout coord) :
    0 ≤ offset layout coord ∧ offset layout coord + e ≤ extent e layout := by
  induction hc generalizing e with
  | nil => simp [offset, extent]
  | @cons p c layout coord hpc hrest ih =>
    obtain ⟨stride, dim⟩ := p
    simp only at hpc
    obtain ⟨hstride, hnested⟩ := hnested
    obtain ⟨hnonneg, hend⟩ := step_le he hstride hpc
    have hpos : 0 < stride * dim := mul_pos_of_inside he hstride hpc
    obtain ⟨hrest₀, hrest₁⟩ := ih hpos hnested
    rw [offset, extent]
    omega

/-- **Distinct coordinates do not overlap**: they differ in the outer dimensions, which are a whole inner
dimension apart, or in the innermost one only. -/
theorem offset_apart (he : 0 < e) (hnested : Nested e layout) (hc : Inside layout coord)
    (hc' : Inside layout coord') (hne : coord ≠ coord') :
    offset layout coord + e ≤ offset layout coord' ∨ offset layout coord' + e ≤ offset layout coord := by
  induction hc generalizing e coord' with
  | nil =>
    cases hc'
    exact absurd rfl hne
  | @cons p c layout coord hpc hrest ih =>
    obtain ⟨stride, dim⟩ := p
    cases hc' with
    | @cons _ c' _ coord' hpc' hrest' =>
      simp only at hpc hpc'
      obtain ⟨hstride, hnested⟩ := hnested
      obtain ⟨hnonneg, hend⟩ := step_le he hstride hpc
      obtain ⟨hnonneg', hend'⟩ := step_le he hstride hpc'
      rw [offset, offset]
      by_cases hsame : coord = coord'
      · subst hsame
        have hcc : c ≠ c' := fun h => hne (by rw [h])
        rcases lt_or_gt_of_ne hcc with hlt | hlt
        · have hle : c * stride + stride ≤ c' * stride := by nlinarith
          omega
        · have hle : c' * stride + stride ≤ c * stride := by nlinarith
          omega
      · have hpos : 0 < stride * dim := mul_pos_of_inside he hstride hpc
        rcases ih hpos hnested hrest' hsame with hle | hle
        · omega
        · omega

theorem extent_append (e : Int) (layout : List (Int × Int)) (p : Int × Int) :
    extent e (layout ++ [p]) = p.1 * p.2 := by
  induction layout generalizing e with
  | nil => rfl
  | cons q layout ih => exact ih (q.1 * q.2)

theorem extent_getLast? {p : Int × Int} (h : layout.getLast? = some p) : extent e layout = p.1 * p.2 := by
  obtain ⟨layout, rfl⟩ := List.getLast?_eq_some_iff.mp h
  exact extent_append e layout p

/-- A dimension that starts at the extent of the others nests around them. -/
theorem Nested.append {p : Int × Int} (h : Nested e layout) (hp : extent e layout ≤ p.1) :
    Nested e (layout ++ [p]) := by
  induction layout generalizing e with
  | nil => exact ⟨hp, trivial⟩
  | cons q layout ih => exact ⟨h.1, ih h.2 hp⟩

theorem offset_eq_sum {α : Type*} (f g : α → Int) (c : α → Int) (l : List α) :
    offset (l.map fun d => (f d, g d)) (l.map c) = (l.map fun d => c d * f d).sum := by
  induction l with
  | nil => rfl
  | cons d l ih => simp only [List.map_cons, offset, List.sum_cons, ih]

end OpenVino.Strides
