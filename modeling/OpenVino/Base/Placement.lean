import Mathlib

/-!
# Ranges laid one behind the other, and disjoint intervals

`roundUp m p` is the least multiple of `p` from `m` on. `startOf size p i` is where the range of `i` starts
when the ranges of the indices that `p` selects are laid one behind the other in the order of the indices:
a range ends before the next one starts (`startOf_add_le`) and before the whole length (`startOf_add_le_lengthOf`).
`sum_before` reads the start off a loop that has run through the indices before `i`.

Pairwise disjoint half-open intervals inside `[a, b)` have together at most the length of `[a, b)`
(`sum_length_le`): their union has as many points as the lengths add up to (`card_cover`).
-/

/-! ### Disjoint intervals -/

namespace OpenVino.Intervals

/-- The points of the intervals of a list. -/
noncomputable def cover (l : List (Int × Int)) : Finset Int := l.foldr (fun s c => Finset.Ico s.1 s.2 ∪ c) ∅

theorem mem_cover {l : List (Int × Int)} {x : Int} : x ∈ cover l ↔ ∃ s ∈ l, s.1 ≤ x ∧ x < s.2 := by
  induction l with
  | nil => simp [cover]
  | cons s l ih => simp [cover, ← ih]

theorem card_cover {l : List (Int × Int)} (hle : ∀ s ∈ l, s.1 ≤ s.2)
    (hd : l.Pairwise fun s t => Disjoint (Set.Ico s.1 s.2) (Set.Ico t.1 t.2)) :
    ((cover l).card : Int) = (l.map fun s => s.2 - s.1).sum := by
  induction l with
  | nil => rfl
  | cons s l ih =>
    obtain ⟨hfirst, hrest⟩ := List.pairwise_cons.mp hd
    have hdisj : Disjoint (Finset.Ico s.1 s.2) (cover l) := by
      rw [Finset.disjoint_left]
      intro x hx hcover
      obtain ⟨t, ht, hxt⟩ := mem_cover.mp hcover
      exact Set.disjoint_left.mp (hfirst t ht) (Finset.mem_Ico.mp hx) hxt
    have hlen := hle s List.mem_cons_self
    have hunion : cover (s :: l) = Finset.Ico s.1 s.2 ∪ cover l := rfl
    rw [hunion, Finset.card_union_of_disjoint hdisj, Nat.cast_add,
      ih (fun t ht => hle t (List.mem_cons_of_mem _ ht)) hrest, Int.card_Ico]
    simp only [List.map_cons, List.sum_cons]
    omega

theorem sum_length_le {l : List (Int × Int)} {a b : Int} (hab : a ≤ b) (hle : ∀ s ∈ l, s.1 ≤ s.2)
    (hin : ∀ s ∈ l, a ≤ s.1 ∧ s.2 ≤ b)
    (hd : l.Pairwise fun s t => Disjoint (Set.Ico s.1 s.2) (Set.Ico t.1 t.2)) :
    (l.map fun s => s.2 - s.1).sum ≤ b - a := by
  have hsub : cover l ⊆ Finset.Ico a b := by
    intro x hx
    obtain ⟨s, hs, hx⟩ := mem_cover.mp hx
    have := hin s hs
    exact Finset.mem_Ico.mpr (by omega)
  have hcard := Finset.card_le_card hsub
  rw [Int.card_Ico] at hcard
  rw [← card_cover hle hd]
  omega

end OpenVino.Intervals

/-! ### Ranges -/

namespace OpenVino

/-! ### Rounding up to a multiple -/

def roundUp (m p : ℕ) : ℕ := m ⌈/⌉ p * p

section RoundUp

variable {m k p : ℕ}

theorem roundUp_le_iff (hp : 0 < p) (h : p ∣ k) : roundUp m p ≤ k ↔ m ≤ k := by
  obtain ⟨c, rfl⟩ := h
  rw [roundUp, mul_comm, Nat.mul_le_mul_left_iff hp]
  exact ceilDiv_le_iff_le_mul hp

theorem dvd_roundUp (m p : ℕ) : p ∣ roundUp m p := Dvd.intro_left _ rfl

theorem le_roundUp (hp : 0 < p) : m ≤ roundUp m p := (roundUp_le_iff hp (dvd_roundUp m p)).mp le_rfl

theorem roundUp_mono (hp : 0 < p) (h : m ≤ k) : roundUp m p ≤ roundUp k p :=
  (roundUp_le_iff hp (dvd_roundUp k p)).mpr (h.trans (le_roundUp hp))

theorem roundUp_of_dvd (hp : 0 < p) (h : p ∣ m) : roundUp m p = m :=
  le_antisymm ((roundUp_le_iff hp h).mpr le_rfl) (le_roundUp hp)

theorem roundUp_lt (hp : 0 < p) : roundUp m p < m + p := by
  have hle := Nat.div_mul_le_self (m + p - 1) p
  rw [roundUp, Nat.ceilDiv_eq_add_pred_div]
  omega

theorem roundUp_max (hp : 0 < p) : roundUp (max m k) p = max (roundUp m p) (roundUp k p) := by
  rcases le_total m k with h | h
  · rw [max_eq_right h, max_eq_right (roundUp_mono hp h)]
  · rw [max_eq_left h, max_eq_left (roundUp_mono hp h)]

/-- What is missing to a multiple may be taken off a larger multiple. -/
theorem roundUp_add_sub (hp : 0 < p) (hk : p ∣ k) (h : roundUp m p ≤ k) :
    roundUp (m + (k - roundUp m p)) p = k := by
  have hle := le_roundUp (m := m) hp
  have hlt := roundUp_lt (m := m) hp
  apply le_antisymm
  · rw [roundUp_le_iff hp hk]
    omega
  · have hdvd := dvd_roundUp (m + (k - roundUp m p)) p
    have hself := le_roundUp (m := m + (k - roundUp m p)) hp
    by_contra hno
    -- two multiples less than `p` apart are one
    have happart : p ≤ k - roundUp (m + (k - roundUp m p)) p :=
      Nat.le_of_dvd (by omega) (Nat.dvd_sub hk hdvd)
    omega

end RoundUp

/-! ### Running sums -/

variable {n : ℕ}

def startOf (size : Fin n → ℕ) (p : Fin n → Prop) [DecidablePred p] (i : Fin n) : ℕ := ∑ j with j < i ∧ p j, size j

def lengthOf (size : Fin n → ℕ) (p : Fin n → Prop) [DecidablePred p] : ℕ := ∑ j with p j, size j

section RunningSums

variable {size : Fin n → ℕ} {p : Fin n → Prop} [DecidablePred p] {i k : Fin n}

theorem sum_add_le_sum {s t : Finset (Fin n)} (hi : i ∉ s) (hs : s ⊆ t) (hit : i ∈ t) :
    ∑ j ∈ s, size j + size i ≤ ∑ j ∈ t, size j := by
  rw [add_comm, ← Finset.sum_insert hi]
  exact Finset.sum_le_sum_of_subset (Finset.insert_subset hit hs)

theorem startOf_add_le (hi : p i) (hik : i < k) : startOf size p i + size i ≤ startOf size p k := by
  apply sum_add_le_sum
  · simp
  · intro j hj
    simp only [Finset.mem_filter, Finset.mem_univ, true_and] at hj ⊢
    exact ⟨hj.1.trans hik, hj.2⟩
  · simp [hi, hik]

theorem startOf_add_le_lengthOf (hi : p i) : startOf size p i + size i ≤ lengthOf size p := by
  apply sum_add_le_sum
  · simp
  · intro j hj
    simp only [Finset.mem_filter, Finset.mem_univ, true_and] at hj ⊢
    exact hj.2
  · simp [hi]

theorem mem_before_iff {pre post : List (Fin n)} (h : List.finRange n = pre ++ i :: post) (j : Fin n) :
    j ∈ pre ↔ j < i := by
  have hsorted := List.pairwise_lt_finRange n
  rw [h] at hsorted
  obtain ⟨-, hpost, hpre⟩ := List.pairwise_append.mp hsorted
  refine ⟨fun hj => hpre j hj i List.mem_cons_self, fun hji => ?_⟩
  have hmem : j ∈ pre ++ i :: post := h ▸ List.mem_finRange j
  rcases List.mem_append.mp hmem with hj | hj
  · exact hj
  · rcases List.mem_cons.mp hj with rfl | hj
    · exact absurd hji (lt_irrefl _)
    · exact absurd hji (lt_asymm ((List.pairwise_cons.mp hpost).1 j hj))

theorem sum_before {pre post : List (Fin n)} (h : List.finRange n = pre ++ i :: post) :
    (pre.map fun j => if p j then size j else 0).sum = startOf size p i := by
  have hnodup : pre.Nodup := by
    have hall := List.nodup_finRange n
    rw [h] at hall
    exact hall.of_append_left
  rw [← List.sum_toFinset _ hnodup, ← Finset.sum_filter, startOf]
  apply Finset.sum_congr _ fun _ _ => rfl
  ext j
  simp [mem_before_iff h]

theorem sum_finRange : ((List.finRange n).map fun j => if p j then size j else 0).sum = lengthOf size p := by
  rw [← Fin.sum_univ_def, lengthOf, Finset.sum_filter]

theorem startOf_congr {size' : Fin n → ℕ} (h : ∀ j, p j → size j = size' j) :
    startOf size p i = startOf size' p i :=
  Finset.sum_congr rfl fun j hj => h j (Finset.mem_filter.mp hj).2.2

theorem lengthOf_congr {size' : Fin n → ℕ} (h : ∀ j, p j → size j = size' j) : lengthOf size p = lengthOf size' p :=
  Finset.sum_congr rfl fun j hj => h j (Finset.mem_filter.mp hj).2

/-- The ranges before `i` in two parts. -/
theorem startOf_split (q : Fin n → Prop) [DecidablePred q] :
    startOf size p i = startOf size (fun j => p j ∧ q j) i + startOf size (fun j => p j ∧ ¬ q j) i := by
  unfold startOf
  rw [← Finset.sum_filter_add_sum_filter_not _ q, Finset.filter_filter, Finset.filter_filter]
  simp only [and_assoc]

theorem dvd_startOf {d : ℕ} (h : ∀ j, p j → d ∣ size j) : d ∣ startOf size p i :=
  Finset.dvd_sum fun j hj => h j (Finset.mem_filter.mp hj).2.2

end RunningSums

end OpenVino
