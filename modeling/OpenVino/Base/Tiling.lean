import Mathlib

/-!
# Tilings of an interval

`Tiling l a b`: the half-open segments `[s.1, s.2)` of the list `l` are pairwise disjoint and cover
exactly `[a, b)`. Everything is over an arbitrary linear order, and empty segments are allowed.

The edits a tiling survives are the ones an allocator or a tiler makes: `extend` puts a segment behind
the end, `split` cuts one in two, `merge` joins two that touch, `dropLast` gives back the segment that
ends at `b`, and `perm` reorders the list. `exists_ends` finds the segment that ends where a nonempty
interval ends; it is what makes a tiling by segments none of which ends at `b` empty.
-/

namespace OpenVino

variable {α : Type*} [LinearOrder α]

structure Tiling (l : List (α × α)) (a b : α) : Prop where
  disjoint : l.Pairwise fun s t => Disjoint (Set.Ico s.1 s.2) (Set.Ico t.1 t.2)
  cover : ∀ x, (∃ s ∈ l, x ∈ Set.Ico s.1 s.2) ↔ x ∈ Set.Ico a b

namespace Tiling

variable {l l' : List (α × α)} {a b c p q r : α}

theorem perm (h : Tiling l a b) (hp : l.Perm l') : Tiling l' a b := by
  refine ⟨(hp.pairwise_iff fun hst => hst.symm).mp h.disjoint, fun x => ?_⟩
  rw [← h.cover x]
  simp only [hp.mem_iff]

theorem nil (a : α) : Tiling [] a a :=
  ⟨List.Pairwise.nil, fun x => by simp⟩

theorem mem_cons_iff (x : α) :
    (∃ s ∈ (p, q) :: l, x ∈ Set.Ico s.1 s.2) ↔ x ∈ Set.Ico p q ∨ ∃ s ∈ l, x ∈ Set.Ico s.1 s.2 := by
  simp

/-- A segment lies inside the tiled interval. -/
theorem subset (h : Tiling l a b) {s : α × α} (hs : s ∈ l) : Set.Ico s.1 s.2 ⊆ Set.Ico a b :=
  fun x hx => (h.cover x).mp ⟨s, hs, hx⟩

theorem le_of_mem (h : Tiling l a b) {s : α × α} (hs : s ∈ l) (hne : s.1 < s.2) : a ≤ s.1 ∧ s.2 ≤ b := by
  refine ⟨(h.subset hs ⟨le_refl _, hne⟩).1, ?_⟩
  by_contra hlt
  have hx : max s.1 b ∈ Set.Ico s.1 s.2 := ⟨le_max_left _ _, max_lt hne (not_le.mp hlt)⟩
  exact absurd (h.subset hs hx).2 (not_lt.mpr (le_max_right _ _))

theorem extend (h : Tiling l a b) (hab : a ≤ b) (hbc : b ≤ c) : Tiling ((b, c) :: l) a c := by
  refine ⟨List.pairwise_cons.mpr ⟨fun s hs => ?_, h.disjoint⟩, fun x => ?_⟩
  · rw [Set.disjoint_left]
    intro x hx hxs
    exact absurd (h.subset hs hxs).2 (not_lt.mpr hx.1)
  · rw [mem_cons_iff, h.cover x, or_comm, ← Set.mem_union, Set.Ico_union_Ico_eq_Ico hab hbc]

theorem split (h : Tiling ((p, r) :: l) a b) (hpq : p ≤ q) (hqr : q ≤ r) :
    Tiling ((p, q) :: (q, r) :: l) a b := by
  obtain ⟨hd, hl⟩ := List.pairwise_cons.mp h.disjoint
  refine ⟨List.pairwise_cons.mpr ⟨?_, List.pairwise_cons.mpr ⟨?_, hl⟩⟩, fun x => ?_⟩
  · intro s hs
    rcases List.mem_cons.mp hs with rfl | hs
    · exact Set.Ico_disjoint_Ico_same
    · exact (hd s hs).mono_left (Set.Ico_subset_Ico_right hqr)
  · exact fun s hs => (hd s hs).mono_left (Set.Ico_subset_Ico_left hpq)
  · rw [← h.cover x, mem_cons_iff, mem_cons_iff, mem_cons_iff, ← or_assoc, ← Set.mem_union,
      Set.Ico_union_Ico_eq_Ico hpq hqr]

theorem merge (h : Tiling ((p, q) :: (q, r) :: l) a b) (hpq : p ≤ q) (hqr : q ≤ r) :
    Tiling ((p, r) :: l) a b := by
  obtain ⟨hp, hl⟩ := List.pairwise_cons.mp h.disjoint
  obtain ⟨hq, hl⟩ := List.pairwise_cons.mp hl
  refine ⟨List.pairwise_cons.mpr ⟨fun s hs => ?_, hl⟩, fun x => ?_⟩
  · rw [← Set.Ico_union_Ico_eq_Ico hpq hqr, Set.disjoint_union_left]
    exact ⟨hp s (List.mem_cons_of_mem _ hs), hq s hs⟩
  · rw [← h.cover x, mem_cons_iff, mem_cons_iff, mem_cons_iff, ← or_assoc, ← Set.mem_union,
      Set.Ico_union_Ico_eq_Ico hpq hqr]

theorem dropEmpty (h : Tiling ((p, p) :: l) a b) : Tiling l a b := by
  refine ⟨(List.pairwise_cons.mp h.disjoint).2, fun x => ?_⟩
  rw [← h.cover x, mem_cons_iff]
  simp

/-- Giving back the last segment shortens the interval. -/
theorem dropLast (h : Tiling ((p, b) :: l) a b) (hpb : p ≤ b) : Tiling l a p := by
  obtain ⟨hd, hl⟩ := List.pairwise_cons.mp h.disjoint
  refine ⟨hl, fun x => ⟨?_, fun hx => ?_⟩⟩
  · rintro ⟨s, hs, hx⟩
    have hab := h.subset (List.mem_cons_of_mem _ hs) hx
    refine ⟨hab.1, ?_⟩
    by_contra hpx
    exact Set.disjoint_left.mp (hd s hs) ⟨not_lt.mp hpx, hab.2⟩ hx
  · have hab : x ∈ Set.Ico a b := ⟨hx.1, lt_of_lt_of_le hx.2 hpb⟩
    rcases (mem_cons_iff x).mp ((h.cover x).mpr hab) with hxp | hxl
    · exact absurd hx.2 (not_lt.mpr hxp.1)
    · exact hxl

theorem ne_of_mem (h : Tiling ((p, q) :: l) a b) {s : α × α} (hs : s ∈ l) (hpq : p < q)
    (hne : s.1 < s.2) : p ≠ s.1 := by
  intro he
  have hd := (List.pairwise_cons.mp h.disjoint).1 s hs
  exact Set.disjoint_left.mp hd ⟨le_refl _, hpq⟩ ⟨he.ge, he ▸ hne⟩

/-- The ends of finitely many segments that all stay below `b` have an upper bound below `b`. -/
theorem exists_bound (hab : a < b) (hl : ∀ s ∈ l, s.1 < s.2 → s.2 < b) :
    ∃ m, a ≤ m ∧ m < b ∧ ∀ s ∈ l, s.1 < s.2 → s.2 ≤ m := by
  induction l with
  | nil => exact ⟨a, le_refl _, hab, by simp⟩
  | cons s l ih =>
    obtain ⟨m, ham, hmb, hm⟩ := ih fun t ht => hl t (List.mem_cons_of_mem _ ht)
    by_cases hs : s.1 < s.2
    · refine ⟨max m s.2, (ham.trans (le_max_left _ _)), max_lt hmb (hl s List.mem_cons_self hs), ?_⟩
      intro t ht htne
      rcases List.mem_cons.mp ht with rfl | ht
      · exact le_max_right _ _
      · exact (hm t ht htne).trans (le_max_left _ _)
    · refine ⟨m, ham, hmb, fun t ht htne => ?_⟩
      rcases List.mem_cons.mp ht with rfl | ht
      · exact absurd htne hs
      · exact hm t ht htne

/-- A nonempty interval is tiled by a segment that ends where the interval ends. -/
theorem exists_ends (h : Tiling l a b) (hab : a < b) : ∃ s ∈ l, s.1 < s.2 ∧ s.2 = b := by
  by_contra hno
  push Not at hno
  obtain ⟨m, ham, hmb, hm⟩ := exists_bound hab fun s hs hne =>
    lt_of_le_of_ne (h.le_of_mem hs hne).2 (hno s hs hne)
  obtain ⟨s, hs, hx⟩ := (h.cover m).mpr ⟨ham, hmb⟩
  exact absurd (hm s hs (lt_of_le_of_lt hx.1 hx.2)) (not_le.mpr hx.2)

end Tiling

end OpenVino
