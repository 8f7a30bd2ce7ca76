import Mathlib.Data.List.Basic
import Mathlib.Data.List.Induction
import Mathlib.Logic.Function.Iterate

/-!
# Erasing and appending

Replacing an element `a` of a list by erasing it and appending `b` instead of replacing it in place: for as
many passes as there are `a`s the two agree exactly if nothing but `a` and `b` follows an `a`
(`iterate_erase_append_replicate_iff`).
-/

namespace OpenVino

variable {α : Type*} {a b : α}

/-- Only `a` and `b` follow an `a`. -/
def Trailing (a b : α) (l : List α) : Prop := ∀ pre post, l = pre ++ a :: post → ∀ x ∈ post, x = a ∨ x = b

theorem trailing_append_singleton (l : List α) (x : α) :
    Trailing a b (l ++ [x]) ↔ Trailing a b l ∧ (a ∈ l → x = a ∨ x = b) := by
  constructor
  · intro h
    refine ⟨fun pre post hl y hy => ?_, fun ha => ?_⟩
    · exact h pre (post ++ [x]) (by rw [hl]; simp) y (List.mem_append_left _ hy)
    · obtain ⟨pre, post, rfl⟩ := List.append_of_mem ha
      exact h pre (post ++ [x]) (by simp) x (by simp)
  · rintro ⟨hl, hx⟩ pre post heq y hy
    rcases List.eq_nil_or_concat post with rfl | ⟨init, z, rfl⟩
    · cases hy
    · rw [List.concat_eq_append] at heq hy
      have hsplit : l ++ [x] = (pre ++ a :: init) ++ [z] := by rw [heq]; simp
      obtain ⟨rfl, hxz⟩ := List.append_inj' hsplit rfl
      obtain rfl := List.singleton_inj.mp hxz
      rcases List.mem_append.mp hy with hy | hy
      · exact hl pre init rfl y hy
      · rw [List.mem_singleton.mp hy]
        exact hx (by simp)

theorem trailing_of_not_mem {l : List α} (h : a ∉ l) : Trailing a b l := by
  rintro pre post rfl
  simp at h

variable [DecidableEq α]

theorem iterate_erase_cons_of_ne {x : α} (hx : x ≠ a) (n : Nat) (l : List α) :
    (fun s : List α => s.erase a)^[n] (x :: l) = x :: (fun s : List α => s.erase a)^[n] l := by
  induction n generalizing l with
  | zero => rfl
  | succ n ih =>
    have htail : (x :: l).erase a = x :: l.erase a := List.erase_cons_tail (by simpa using hx)
    rw [Function.iterate_succ_apply, Function.iterate_succ_apply, htail, ih]

theorem iterate_erase_count (a : α) (l : List α) :
    (fun s : List α => s.erase a)^[l.count a] l = l.filter (· ≠ a) := by
  induction l with
  | nil => rfl
  | cons x l ih =>
    by_cases hx : x = a
    · subst hx
      rw [List.count_cons_self, Function.iterate_succ_apply, List.erase_cons_head, ih]
      simp
    · rw [List.count_cons_of_ne hx, iterate_erase_cons_of_ne hx, ih]
      simp [hx]

theorem count_iterate_erase (a : α) (n : Nat) (l : List α) :
    ((fun s : List α => s.erase a)^[n] l).count a = l.count a - n := by
  induction n generalizing l with
  | zero => rfl
  | succ n ih =>
    rw [Function.iterate_succ_apply, ih, List.count_erase_self]
    omega

theorem length_iterate_erase (a : α) (n : Nat) (l : List α) :
    ((fun s : List α => s.erase a)^[n] l).length = l.length - min n (l.count a) := by
  induction n generalizing l with
  | zero => simp
  | succ n ih =>
    rw [Function.iterate_succ_apply, ih, List.count_erase_self, List.length_erase]
    have hle := List.count_le_length (a := a) (l := l)
    split_ifs with hmem
    · have hpos := List.count_pos_iff.mpr hmem
      omega
    · rw [List.count_eq_zero_of_not_mem hmem]
      omega

/-- Moving what replaces the `a`s to the end is replacing them in place, if nothing else follows the first:
induction from the end of the list. -/
theorem filter_append_replicate_iff (l : List α) :
    l.filter (· ≠ a) ++ List.replicate (l.count a) b = l.map (fun x => if x = a then b else x) ↔
      Trailing a b l := by
  induction l using List.reverseRecOn with
  | nil => simp [Trailing]
  | append_singleton l x ih =>
    rw [trailing_append_singleton, ← ih, List.filter_append, List.count_append, List.map_append]
    by_cases hxa : x = a
    · subst hxa
      have hcount : List.count x [x] = 1 := by simp
      rw [hcount, List.replicate_succ']
      simp [← List.append_assoc]
    · have hcount : List.count a [x] = 0 := by simp [hxa]
      have hfilter : [x].filter (· ≠ a) = [x] := by simp [hxa]
      have hmap : [x].map (fun x => if x = a then b else x) = [x] := by simp [hxa]
      rw [hcount, Nat.add_zero, hfilter, hmap]
      by_cases hxb : x = b
      · subst hxb
        have hswap : [x] ++ List.replicate (l.count a) x = List.replicate (l.count a) x ++ [x] := by
          rw [← List.replicate_succ', List.replicate_succ, List.singleton_append]
        rw [List.append_assoc, hswap, ← List.append_assoc, List.append_left_inj]
        simp
      · by_cases hmem : a ∈ l
        · -- the appended `b` stands where `x` should
          refine iff_of_false (fun h => hxb ?_) fun h => (h.2 hmem).elim hxa hxb
          obtain ⟨n, hn⟩ := Nat.exists_eq_add_one.mpr (List.count_pos_iff.mpr hmem)
          rw [hn, List.replicate_succ', ← List.append_assoc] at h
          exact (List.singleton_inj.mp (List.append_inj' h rfl).2).symm
        · have hnone : l.count a = 0 := List.count_eq_zero_of_not_mem hmem
          have hne : ∀ y ∈ l, y ≠ a := fun y hy hya => hmem (hya ▸ hy)
          have hfilter : l.filter (· ≠ a) = l := List.filter_eq_self.mpr fun y hy => by simpa using hne y hy
          have hmap : l.map (fun x => if x = a then b else x) = l :=
            (List.map_congr_left fun y hy => if_neg (hne y hy)).trans (List.map_id l)
          rw [hnone, hfilter, hmap]
          simp [hmem]

/-- Erasing `n` times and appending `n` times replaces in place exactly if `n` counts the `a`s and only `a`
and `b` follow an `a`. -/
theorem iterate_erase_append_replicate_iff (hab : a ≠ b) (n : Nat) (l : List α) :
    (fun s : List α => s.erase a)^[n] l ++ List.replicate n b = l.map (fun x => if x = a then b else x) ↔
      n = l.count a ∧ Trailing a b l := by
  constructor
  · intro h
    have hle := List.count_le_length (a := a) (l := l)
    have hlength := congrArg List.length h
    rw [List.length_append, length_iterate_erase, List.length_replicate, List.length_map] at hlength
    have hcount := congrArg (List.count a) h
    have hrepl : List.count a (List.replicate n b) = 0 :=
      List.count_eq_zero_of_not_mem fun hmem => hab (List.eq_of_mem_replicate hmem)
    have hmap : List.count a (l.map fun x => if x = a then b else x) = 0 := by
      refine List.count_eq_zero_of_not_mem fun hmem => ?_
      obtain ⟨x, -, hx⟩ := List.mem_map.mp hmem
      split_ifs at hx with hxa
      · exact hab hx.symm
      · exact hxa hx
    rw [List.count_append, count_iterate_erase, hrepl, hmap] at hcount
    have hn : n = l.count a := by omega
    refine ⟨hn, ?_⟩
    rwa [hn, iterate_erase_count, filter_append_replicate_iff] at h
  · rintro ⟨rfl, htrailing⟩
    rw [iterate_erase_count]
    exact (filter_append_replicate_iff l).mpr htrailing

end OpenVino
