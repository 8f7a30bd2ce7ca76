import Mathlib.Data.List.Basic

/-!
# Counting maps

A `Counter κ` is a map from keys to positive counts, as programs keep one by hand: `incr` is `++map[k]`,
`decr` finds the entry, lowers it and erases it when it is no longer positive. The entries carry the
proofs that a key has one entry and that no entry is kept at zero, so `get` (0 for a missing key) says
everything about a counter: `find?_eq`.
-/

namespace OpenVino

variable {κ : Type} [DecidableEq κ]

namespace Counter

def incrEntries (k : κ) : List (κ × Int) → List (κ × Int)
  | [] => [(k, 1)]
  | (k', n) :: rest => if k' = k then (k', n + 1) :: rest else (k', n) :: incrEntries k rest

def decrEntries (k : κ) : List (κ × Int) → List (κ × Int)
  | [] => []
  | (k', n) :: rest =>
    if k' = k then if n - 1 ≤ 0 then rest else (k', n - 1) :: rest else (k', n) :: decrEntries k rest

theorem mem_keys_incrEntries {k x : κ} {l : List (κ × Int)} :
    x ∈ (incrEntries k l).map Prod.fst ↔ x = k ∨ x ∈ l.map Prod.fst := by
  induction l with
  | nil => simp [incrEntries]
  | cons e l ih =>
    obtain ⟨k', n⟩ := e
    unfold incrEntries
    split_ifs with h
    · subst h
      simp
    · rw [List.map_cons, List.mem_cons, ih, List.map_cons, List.mem_cons]
      tauto

theorem mem_keys_decrEntries {k x : κ} {l : List (κ × Int)} (h : x ∈ (decrEntries k l).map Prod.fst) :
    x ∈ l.map Prod.fst := by
  induction l with
  | nil => exact h
  | cons e l ih =>
    obtain ⟨k', n⟩ := e
    unfold decrEntries at h
    split_ifs at h
    · exact List.mem_cons_of_mem _ h
    · exact h
    · rw [List.map_cons, List.mem_cons] at h ⊢
      exact h.imp_right ih

theorem nodup_incrEntries {k : κ} {l : List (κ × Int)} (h : (l.map Prod.fst).Nodup) :
    ((incrEntries k l).map Prod.fst).Nodup := by
  induction l with
  | nil => simp [incrEntries]
  | cons e l ih =>
    obtain ⟨k', n⟩ := e
    rw [List.map_cons, List.nodup_cons] at h
    unfold incrEntries
    split_ifs with hk
    · exact List.nodup_cons.mpr h
    · rw [List.map_cons, List.nodup_cons, mem_keys_incrEntries, not_or]
      exact ⟨⟨hk, h.1⟩, ih h.2⟩

theorem nodup_decrEntries {k : κ} {l : List (κ × Int)} (h : (l.map Prod.fst).Nodup) :
    ((decrEntries k l).map Prod.fst).Nodup := by
  induction l with
  | nil => exact h
  | cons e l ih =>
    obtain ⟨k', n⟩ := e
    have hcons := h
    rw [List.map_cons, List.nodup_cons] at h
    unfold decrEntries
    split_ifs
    · exact h.2
    · exact hcons
    · rw [List.map_cons, List.nodup_cons]
      exact ⟨fun hmem => h.1 (mem_keys_decrEntries hmem), ih h.2⟩

theorem pos_incrEntries {k : κ} {l : List (κ × Int)} (h : ∀ e ∈ l, 0 < e.2) : ∀ e ∈ incrEntries k l, 0 < e.2 := by
  induction l with
  | nil => simp [incrEntries]
  | cons e l ih =>
    obtain ⟨k', n⟩ := e
    obtain ⟨hn, hl⟩ := List.forall_mem_cons.mp h
    simp only at hn
    unfold incrEntries
    split_ifs
    · exact List.forall_mem_cons.mpr ⟨by simp only; omega, hl⟩
    · exact List.forall_mem_cons.mpr ⟨hn, ih hl⟩

theorem pos_decrEntries {k : κ} {l : List (κ × Int)} (h : ∀ e ∈ l, 0 < e.2) : ∀ e ∈ decrEntries k l, 0 < e.2 := by
  induction l with
  | nil => exact h
  | cons e l ih =>
    obtain ⟨k', n⟩ := e
    obtain ⟨hn, hl⟩ := List.forall_mem_cons.mp h
    simp only at hn
    unfold decrEntries
    split_ifs with hk hzero
    · exact hl
    · exact List.forall_mem_cons.mpr ⟨by simp only; omega, hl⟩
    · exact List.forall_mem_cons.mpr ⟨hn, ih hl⟩

end Counter

structure Counter (κ : Type) where
  entries : List (κ × Int)
  nodup : (entries.map Prod.fst).Nodup
  pos : ∀ e ∈ entries, 0 < e.2

namespace Counter

variable {m : Counter κ} {k k' : κ}

def empty : Counter κ := ⟨[], .nil, by simp⟩

def isEmpty (m : Counter κ) : Bool := m.entries.isEmpty

def find? (m : Counter κ) (k : κ) : Option Int := m.entries.lookup k

/-- The count of a key, 0 if it has no entry. -/
def get (m : Counter κ) (k : κ) : Int := (m.find? k).getD 0

def incr (m : Counter κ) (k : κ) : Counter κ :=
  ⟨incrEntries k m.entries, nodup_incrEntries m.nodup, pos_incrEntries m.pos⟩

/-- `none` when the key has no entry. -/
def decr (m : Counter κ) (k : κ) : Option (Counter κ) :=
  if (m.find? k).isSome then
    some ⟨decrEntries k m.entries, nodup_decrEntries m.nodup, pos_decrEntries m.pos⟩
  else none

theorem lookup_pos {l : List (κ × Int)} (h : ∀ e ∈ l, 0 < e.2) {n : Int} (hn : l.lookup k = some n) : 0 < n := by
  induction l with
  | nil => simp at hn
  | cons e l ih =>
    obtain ⟨k', x⟩ := e
    obtain ⟨hx, hl⟩ := List.forall_mem_cons.mp h
    rw [List.lookup_cons] at hn
    split at hn
    · cases hn
      exact hx
    · exact ih hl hn

theorem get_nonneg (m : Counter κ) (k : κ) : 0 ≤ m.get k := by
  unfold get
  cases h : m.find? k with
  | none => exact Int.le_refl 0
  | some n => exact Int.le_of_lt (lookup_pos m.pos h)

/-- The entries of a counter, from its counts. -/
theorem find?_eq (m : Counter κ) (k : κ) : m.find? k = if m.get k = 0 then none else some (m.get k) := by
  unfold get
  cases h : m.find? k with
  | none => simp
  | some n =>
    have hn : 0 < n := lookup_pos m.pos h
    have hne : n ≠ 0 := by omega
    rw [Option.getD_some, if_neg hne]

theorem mem_keys_iff_isSome_find? : k ∈ m.entries.map Prod.fst ↔ (m.find? k).isSome := by
  unfold find?
  induction m.entries with
  | nil => simp
  | cons e entries ih =>
    obtain ⟨k', n⟩ := e
    rw [List.map_cons, List.mem_cons, ih, List.lookup_cons]
    by_cases hk : k = k'
    · simp [hk]
    · simp [hk, beq_false_of_ne hk]

theorem isSome_find?_iff : (m.find? k).isSome ↔ 0 < m.get k := by
  have := get_nonneg m k
  rw [find?_eq]
  split_ifs with h <;> simp <;> omega

theorem get_empty : (empty : Counter κ).get k = 0 := rfl

theorem isEmpty_iff : m.isEmpty ↔ ∀ k, m.get k = 0 := by
  unfold isEmpty
  constructor
  · intro h k
    rw [List.isEmpty_iff] at h
    simp [get, find?, h]
  · intro h
    rw [List.isEmpty_iff]
    cases he : m.entries with
    | nil => rfl
    | cons e rest =>
      obtain ⟨k, n⟩ := e
      have hn : 0 < n := m.pos (k, n) (he ▸ List.mem_cons_self)
      have hk := h k
      simp only [get, find?, he, List.lookup_cons, beq_self_eq_true, Option.getD_some] at hk
      omega

theorem lookup_incrEntries (l : List (κ × Int)) :
    ((incrEntries k l).lookup k').getD 0 = (l.lookup k').getD 0 + if k' = k then 1 else 0 := by
  induction l with
  | nil =>
    rw [incrEntries, List.lookup_cons]
    by_cases h : k' = k
    · simp [h]
    · simp [h, beq_false_of_ne h]
  | cons e l ih =>
    obtain ⟨x, n⟩ := e
    unfold incrEntries
    by_cases hx : x = k
    · subst hx
      rw [if_pos rfl, List.lookup_cons, List.lookup_cons]
      by_cases h : k' = x
      · simp [h]
      · simp [h, beq_false_of_ne h]
    · rw [if_neg hx, List.lookup_cons, List.lookup_cons]
      by_cases h : k' = x
      · subst h
        simp [hx]
      · simp only [beq_false_of_ne h, ih]

theorem get_incr : (m.incr k).get k' = m.get k' + if k' = k then 1 else 0 := lookup_incrEntries _

theorem lookup_decrEntries {l : List (κ × Int)} (hnd : (l.map Prod.fst).Nodup) (hpos : ∀ e ∈ l, 0 < e.2)
    (hk : (l.lookup k).isSome) :
    ((decrEntries k l).lookup k').getD 0 = (l.lookup k').getD 0 - if k' = k then 1 else 0 := by
  induction l with
  | nil => simp at hk
  | cons e l ih =>
    obtain ⟨x, n⟩ := e
    rw [List.map_cons, List.nodup_cons] at hnd
    obtain ⟨hn, hl⟩ := List.forall_mem_cons.mp hpos
    simp only at hn
    unfold decrEntries
    by_cases hx : x = k
    · subst hx
      rw [if_pos rfl, List.lookup_cons]
      -- the key has no entry behind its first one
      have hlast : l.lookup x = none := by
        rw [List.lookup_eq_none_iff]
        intro p hp
        have hne : x ≠ p.1 := by
          rintro rfl
          exact hnd.1 (List.mem_map.mpr ⟨p, hp, rfl⟩)
        simp [hne]
      by_cases hzero : n - 1 ≤ 0
      · rw [if_pos hzero]
        by_cases h : k' = x
        · subst h
          simp only [hlast, beq_self_eq_true, Option.getD_none, Option.getD_some, if_true]
          omega
        · simp [h, beq_false_of_ne h]
      · rw [if_neg hzero, List.lookup_cons]
        by_cases h : k' = x
        · simp [h]
        · simp [h, beq_false_of_ne h]
    · have hne : k ≠ x := fun h => hx h.symm
      rw [if_neg hx, List.lookup_cons, List.lookup_cons]
      rw [List.lookup_cons, beq_false_of_ne hne] at hk
      by_cases h : k' = x
      · subst h
        simp [hx]
      · simp only [beq_false_of_ne h, ih hnd.2 hl hk]

theorem decr_eq_some_iff {m' : Counter κ} :
    m.decr k = some m' ↔ 0 < m.get k ∧ m' = ⟨decrEntries k m.entries, nodup_decrEntries m.nodup,
      pos_decrEntries m.pos⟩ := by
  unfold decr
  rw [← isSome_find?_iff]
  split_ifs with h
  · simp [h, eq_comm]
  · simp [h]

theorem get_decr {m' : Counter κ} (h : m.decr k = some m') : m'.get k' = m.get k' - if k' = k then 1 else 0 := by
  obtain ⟨hpos, rfl⟩ := decr_eq_some_iff.mp h
  exact lookup_decrEntries m.nodup m.pos (isSome_find?_iff.mpr hpos)

end Counter

end OpenVino
