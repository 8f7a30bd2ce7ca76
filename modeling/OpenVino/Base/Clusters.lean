import Mathlib.Data.List.Count
import Mathlib.Logic.Relation

/-!
# Clusters

A family of lists that gathers the elements which a relation connects (`Gathers`). As long as an element may
be in several of them, the family says less than the relation; `together_iff`: once every element is in one
only, two elements are in one cluster exactly if they are connected. `mergeAt x u` puts the list `u` in the
place of the clusters that hold `x`: with `u` their union, no element gets into more clusters than before
(`number_mergeAt_le`) and `x` is in one (`number_mergeAt_self`).
-/

namespace OpenVino

open Relation

variable {α : Type*} {R : α → α → Prop} {cs cs' : List (List α)} {c u : List α} {a b x : α}

/-- `a` and `b` are in one cluster. -/
def Together (cs : List (List α)) (a b : α) : Prop := ∃ c ∈ cs, a ∈ c ∧ b ∈ c

theorem Together.symm (h : Together cs a b) : Together cs b a := by
  obtain ⟨c, hc, ha, hb⟩ := h
  exact ⟨c, hc, hb, ha⟩

theorem together_cons : Together (c :: cs) a b ↔ a ∈ c ∧ b ∈ c ∨ Together cs a b := by
  simp [Together]

theorem Together.mono (h : Together cs a b) (hsub : ∀ c ∈ cs, ∃ c' ∈ cs', c ⊆ c') : Together cs' a b := by
  obtain ⟨c, hc, ha, hb⟩ := h
  obtain ⟨c', hc', hsub⟩ := hsub c hc
  exact ⟨c', hc', hsub ha, hsub hb⟩

/-- Elements of one cluster are connected by `R`, and those that `R` relates are in one cluster. -/
structure Gathers (R : α → α → Prop) (cs : List (List α)) : Prop where
  sound : ∀ a b, Together cs a b → EqvGen R a b
  linked : ∀ a b, R a b → Together cs a b

section Number

variable [DecidableEq α]

/-- How many clusters hold `a`. -/
def number (cs : List (List α)) (a : α) : Nat := cs.countP (a ∈ ·)

theorem number_cons : number (c :: cs) a = number cs a + if a ∈ c then 1 else 0 := by
  simp [number, List.countP_cons]

theorem eq_of_number_eq_one (hone : number cs a = 1) {c c' : List α} (hc : c ∈ cs) (ha : a ∈ c) (hc' : c' ∈ cs)
    (ha' : a ∈ c') : c = c' := by
  rw [number, List.countP_eq_length_filter, List.length_eq_one_iff] at hone
  obtain ⟨d, hd⟩ := hone
  have hmem : ∀ c ∈ cs, a ∈ c → c = d := by
    intro c hc ha
    rw [← List.mem_singleton, ← hd, List.mem_filter]
    exact ⟨hc, decide_eq_true ha⟩
  rw [hmem c hc ha, hmem c' hc' ha']

/-- **Clusters that do not overlap are the connected components.** -/
theorem Gathers.together_iff (h : Gathers R cs) (hone : ∀ a b, Together cs a b → number cs a = 1)
    (ha : Together cs a a) : Together cs a b ↔ EqvGen R a b := by
  refine ⟨h.sound a b, fun hab => ?_⟩
  suffices a = b ∨ Together cs a b by
    rcases this with rfl | hab
    · exact ha
    · exact hab
  clear ha
  induction hab with
  | rel a b hab => exact .inr (h.linked a b hab)
  | refl a => exact .inl rfl
  | symm a b _ ih =>
    rcases ih with rfl | ih
    · exact .inl rfl
    · exact .inr ih.symm
  | trans a b d _ _ ihab ihbd =>
    rcases ihab with rfl | hab
    · exact ihbd
    rcases ihbd with rfl | hbd
    · exact .inr hab
    obtain ⟨c, hc, hac, hbc⟩ := hab
    obtain ⟨c', hc', hbc', hdc'⟩ := hbd
    have heq := eq_of_number_eq_one (hone b d ⟨c', hc', hbc', hdc'⟩) hc hbc hc' hbc'
    exact .inr ⟨c, hc, hac, heq ▸ hdc'⟩

/-! ### Merging -/

/-- The first cluster that holds `x` becomes `u`, the others that do are emptied. -/
def mergeAt (x : α) (u : List α) : List (List α) → List (List α)
  | [] => []
  | c :: cs => if x ∈ c then u :: cs.map fun c => if x ∈ c then [] else c else c :: mergeAt x u cs

theorem number_clear (cs : List (List α)) (a : α) :
    number (cs.map fun c => if x ∈ c then [] else c) a = cs.countP fun c => a ∈ c ∧ x ∉ c := by
  rw [number, List.countP_map]
  apply List.countP_congr
  intro c _
  by_cases hx : x ∈ c <;> simp [hx]

/-- The clusters of `a` that hold `x` too are emptied. -/
theorem number_clear_add_le (h : Together cs x a) : (cs.countP fun c => a ∈ c ∧ x ∉ c) + 1 ≤ number cs a := by
  induction cs with
  | nil =>
    obtain ⟨c, hc, -⟩ := h
    exact absurd hc List.not_mem_nil
  | cons c cs ih =>
    rw [number_cons, List.countP_cons]
    rcases together_cons.mp h with ⟨hx, ha⟩ | h
    · have hle : (cs.countP fun c => a ∈ c ∧ x ∉ c) ≤ number cs a :=
        List.countP_mono_left fun d _ hd => decide_eq_true (of_decide_eq_true hd).1
      rw [if_neg (by simp [hx]), if_pos ha]
      omega
    · have := ih h
      by_cases ha : a ∈ c
      · rw [if_pos ha]
        split_ifs <;> omega
      · rw [if_neg (by simp [ha]), if_neg ha]
        omega

theorem number_mergeAt_self (h : Together cs x x) (hx : x ∈ u) : number (mergeAt x u cs) x = 1 := by
  induction cs with
  | nil =>
    obtain ⟨c, hc, -⟩ := h
    exact absurd hc List.not_mem_nil
  | cons c cs ih =>
    by_cases hxc : x ∈ c
    · rw [mergeAt, if_pos hxc, number_cons, number_clear, if_pos hx]
      simp
    · rw [mergeAt, if_neg hxc, number_cons, if_neg hxc]
      exact ih ((together_cons.mp h).resolve_left fun h => hxc h.1)

theorem number_mergeAt_le (hu : ∀ a ∈ u, Together cs x a) (a : α) : number (mergeAt x u cs) a ≤ number cs a := by
  induction cs with
  | nil => exact Nat.le_refl _
  | cons c cs ih =>
    by_cases hxc : x ∈ c
    · rw [mergeAt, if_pos hxc, number_cons, number_clear, number_cons]
      have hle : (cs.countP fun c => a ∈ c ∧ x ∉ c) ≤ number cs a :=
        List.countP_mono_left fun d _ hd => decide_eq_true (of_decide_eq_true hd).1
      by_cases hau : a ∈ u
      · rcases together_cons.mp (hu a hau) with ⟨-, hac⟩ | hxa
        · rw [if_pos hau, if_pos hac]
          omega
        · have := number_clear_add_le hxa
          rw [if_pos hau]
          omega
      · rw [if_neg hau]
        omega
    · rw [mergeAt, if_neg hxc, number_cons, number_cons]
      have := ih fun a ha => (together_cons.mp (hu a ha)).resolve_left fun h => hxc h.1
      omega

/-- The clusters after the merge: those without `x`, and `u`. -/
theorem together_mergeAt_iff : Together (mergeAt x u cs) a b ↔
    (∃ c ∈ cs, x ∉ c ∧ a ∈ c ∧ b ∈ c) ∨ Together cs x x ∧ a ∈ u ∧ b ∈ u := by
  induction cs with
  | nil => simp [mergeAt, Together]
  | cons c cs ih =>
    by_cases hxc : x ∈ c
    · have hclear : Together (cs.map fun c => if x ∈ c then [] else c) a b ↔ ∃ c ∈ cs, x ∉ c ∧ a ∈ c ∧ b ∈ c := by
        constructor
        · rintro ⟨d, hd, ha, hb⟩
          obtain ⟨d', hd', rfl⟩ := List.mem_map.mp hd
          by_cases hxd : x ∈ d'
          · simp [hxd] at ha
          · rw [if_neg hxd] at ha hb
            exact ⟨d', hd', hxd, ha, hb⟩
        · rintro ⟨d, hd, hxd, ha, hb⟩
          exact ⟨d, List.mem_map.mpr ⟨d, hd, if_neg hxd⟩, ha, hb⟩
      rw [mergeAt, if_pos hxc, together_cons, hclear, together_cons]
      simp [hxc, or_comm]
    · rw [mergeAt, if_neg hxc, together_cons, ih, together_cons]
      simp [hxc, or_assoc]

/-- **What is together after the merge**: what was before, and what was together with `x`. -/
theorem together_mergeAt (hu : ∀ a, a ∈ u ↔ Together cs x a) :
    Together (mergeAt x u cs) a b ↔ Together cs a b ∨ Together cs x a ∧ Together cs x b := by
  rw [together_mergeAt_iff, hu, hu]
  constructor
  · rintro (⟨c, hc, -, ha, hb⟩ | ⟨-, h⟩)
    · exact .inl ⟨c, hc, ha, hb⟩
    · exact .inr h
  · rintro (⟨c, hc, ha, hb⟩ | ⟨hxa, hxb⟩)
    · by_cases hx : x ∈ c
      · exact .inr ⟨⟨c, hc, hx, hx⟩, ⟨c, hc, hx, ha⟩, c, hc, hx, hb⟩
      · exact .inl ⟨c, hc, hx, ha, hb⟩
    · obtain ⟨c, hc, hx, ha⟩ := hxa
      exact .inr ⟨⟨c, hc, hx, hx⟩, ⟨c, hc, hx, ha⟩, hxb⟩

end Number

end OpenVino
