import Mathlib.Data.List.Nodup
import Mathlib.Data.List.Lemmas

/-!
# The neighbours in a list

`nextIn l x` is the element behind `x` in `l`, and `prevIn l x` the one in front of it: what the links of a doubly linked
list are. In a list without duplicates they are inverse to one another (`nextIn_eq_some_iff`). A push at an end and the
removal of an element change the links of its neighbours only (`nextIn_concat`, `nextIn_erase`), and whoever follows the
links from the head comes through the list (`follow_nextIn`).
-/

namespace OpenVino

variable {α : Type*} [DecidableEq α] {l : List α} {x y z : α} {n : Nat}

/-- The element behind `x`. -/
def nextIn : List α → α → Option α
  | [], _ => none
  | y :: l, x => if y = x then l.head? else nextIn l x

/-- The element in front of `x`. -/
def prevIn (l : List α) (x : α) : Option α := nextIn l.reverse x

theorem nextIn_of_notMem (h : x ∉ l) : nextIn l x = none := by
  induction l with
  | nil => rfl
  | cons y l ih =>
    rw [List.mem_cons, not_or] at h
    rw [nextIn, if_neg (Ne.symm h.1), ih h.2]

theorem prevIn_of_notMem (h : x ∉ l) : prevIn l x = none :=
  nextIn_of_notMem fun hx => h (List.mem_reverse.mp hx)

theorem nextIn_mem (h : nextIn l x = some y) : y ∈ l := by
  induction l with
  | nil => cases h
  | cons z l ih =>
    rw [nextIn] at h
    split_ifs at h
    · exact List.mem_cons_of_mem z (List.mem_of_head? h)
    · exact List.mem_cons_of_mem z (ih h)

theorem mem_of_nextIn (h : nextIn l x = some y) : x ∈ l := by
  by_contra hx
  rw [nextIn_of_notMem hx] at h
  cases h

/-- No element is behind itself. -/
theorem nextIn_ne (hl : l.Nodup) (h : nextIn l x = some y) : y ≠ x := by
  induction l with
  | nil => cases h
  | cons z l ih =>
    obtain ⟨hz, hl⟩ := List.nodup_cons.mp hl
    rw [nextIn] at h
    split_ifs at h with hzx
    · rintro rfl
      exact hz (hzx ▸ List.mem_of_head? h)
    · exact ih hl h

theorem nextIn_append (h : x ∉ l) (k : List α) : nextIn (l ++ k) x = nextIn k x := by
  induction l with
  | nil => rfl
  | cons y l ih =>
    rw [List.mem_cons, not_or] at h
    rw [List.cons_append, nextIn, if_neg (Ne.symm h.1), ih h.2]

theorem nextIn_self (h : x ∉ l) (k : List α) : nextIn (l ++ x :: k) x = k.head? := by
  rw [nextIn_append h, nextIn, if_pos rfl]

/-- What is behind `x` is what `x` is in front of. -/
theorem nextIn_eq_some_iff (hl : l.Nodup) : nextIn l x = some y ↔ prevIn l y = some x := by
  have hforward : ∀ {l : List α} {x y : α}, l.Nodup → nextIn l x = some y → nextIn l.reverse y = some x := by
    intro l x y hl h
    obtain ⟨a, b, rfl⟩ := List.append_of_mem (mem_of_nextIn h)
    obtain ⟨hab, -⟩ := List.nodup_middle.mp hl |> List.nodup_cons.mp
    rw [List.mem_append, not_or] at hab
    rw [nextIn_self hab.1] at h
    obtain ⟨c, rfl⟩ : ∃ c, b = y :: c := by
      cases b with
      | nil => cases h
      | cons z c => exact ⟨c, by rw [Option.some_inj.mp h]⟩
    have hy : y ∉ c.reverse := by
      rw [List.mem_reverse]
      exact (List.nodup_cons.mp (List.nodup_cons.mp (List.nodup_append.mp hl).2.1).2).1
    rw [List.reverse_append, List.reverse_cons, List.reverse_cons, List.append_assoc, List.append_assoc,
      List.singleton_append, List.singleton_append, nextIn_self hy]
    rfl
  refine ⟨hforward hl, fun h => ?_⟩
  have hback := hforward (List.nodup_reverse.mpr hl) h
  rwa [List.reverse_reverse] at hback

theorem prevIn_eq_some_iff (hl : l.Nodup) : prevIn l x = some y ↔ nextIn l y = some x :=
  (nextIn_eq_some_iff hl).symm

/-! ### A push -/

/-- A push at the end links the last element with the new one. -/
theorem nextIn_concat (hl : l.Nodup) (hy : y ∉ l) :
    nextIn (l ++ [y]) x = if l.getLast? = some x then some y else nextIn l x := by
  induction l with
  | nil =>
    rw [List.nil_append, nextIn_of_notMem (l := []) List.not_mem_nil, List.getLast?_nil,
      if_neg (Option.some_ne_none x).symm, nextIn]
    split_ifs <;> rfl
  | cons z l ih =>
    obtain ⟨hz, hl⟩ := List.nodup_cons.mp hl
    rw [List.mem_cons, not_or] at hy
    rw [List.cons_append, nextIn, nextIn, ih hl hy.2]
    cases l with
    | nil =>
      by_cases hzx : z = x
      · simp [hzx]
      · simp [hzx]
    | cons w l =>
      rw [List.getLast?_cons_cons, List.cons_append, List.head?_cons, List.head?_cons]
      by_cases hzx : z = x
      · rw [if_pos hzx, if_pos hzx, if_neg fun hlast => hz (hzx ▸ List.mem_of_getLast? hlast)]
      · rw [if_neg hzx, if_neg hzx]

theorem prevIn_concat : prevIn (l ++ [y]) x = if y = x then l.getLast? else prevIn l x := by
  rw [prevIn, prevIn, List.reverse_concat, nextIn, List.head?_reverse]

/-- A push at the front links the new element with the first one. -/
theorem prevIn_cons (hl : l.Nodup) (hy : y ∉ l) :
    prevIn (y :: l) x = if l.head? = some x then some y else prevIn l x := by
  rw [prevIn, prevIn, List.reverse_cons, nextIn_concat (List.nodup_reverse.mpr hl) (by rwa [List.mem_reverse]),
    List.getLast?_reverse]

/-! ### A removal -/

theorem reverse_erase (hl : l.Nodup) : (l.erase z).reverse = l.reverse.erase z := by
  rw [hl.erase_eq_filter, (List.nodup_reverse.mpr hl).erase_eq_filter, List.filter_reverse]

theorem head?_erase : (l.erase z).head? = if l.head? = some z then nextIn l z else l.head? := by
  cases l with
  | nil => rfl
  | cons y l =>
    simp only [List.head?_cons, Option.some_inj, nextIn]
    by_cases hyz : y = z
    · rw [if_pos hyz, if_pos hyz, hyz, List.erase_cons_head]
    · rw [if_neg hyz, List.erase_cons_tail (by rw [beq_iff_eq]; exact hyz), List.head?_cons]

theorem getLast?_erase (hl : l.Nodup) :
    (l.erase z).getLast? = if l.getLast? = some z then prevIn l z else l.getLast? := by
  rw [← List.head?_reverse, reverse_erase hl, head?_erase, List.head?_reverse, prevIn]

/-- A removal links the two neighbours. -/
theorem nextIn_erase (hl : l.Nodup) (hx : x ≠ z) :
    nextIn (l.erase z) x = if nextIn l x = some z then nextIn l z else nextIn l x := by
  induction l with
  | nil => rfl
  | cons y l ih =>
    obtain ⟨hy, hl⟩ := List.nodup_cons.mp hl
    by_cases hyz : y = z
    · subst hyz
      have hne : nextIn l x ≠ some y := fun h => hy (nextIn_mem h)
      rw [List.erase_cons_head, nextIn, if_neg (Ne.symm hx), if_neg hne]
    · rw [List.erase_cons_tail (by rw [beq_iff_eq]; exact hyz), nextIn, nextIn, nextIn, if_neg hyz]
      by_cases hyx : y = x
      · rw [if_pos hyx, if_pos hyx, head?_erase]
      · rw [if_neg hyx, if_neg hyx, ih hl]

theorem prevIn_erase (hl : l.Nodup) (hx : x ≠ z) :
    prevIn (l.erase z) x = if prevIn l x = some z then prevIn l z else prevIn l x := by
  rw [prevIn, reverse_erase hl, nextIn_erase (List.nodup_reverse.mpr hl) hx]
  rfl

/-! ### The way through the list -/

/-- Up to `n` elements, from the first one on. -/
def follow (next : α → Option α) : Nat → Option α → List α
  | 0, _ => []
  | _, none => []
  | n + 1, some x => x :: follow next n (next x)

omit [DecidableEq α] in
theorem follow_none (next : α → Option α) : ∀ n, follow next n none = []
  | 0 => rfl
  | _ + 1 => rfl

/-- Whoever follows the links from the head comes through the list and finds its end. -/
theorem follow_nextIn {next : α → Option α} (hl : l.Nodup) (hnext : ∀ x ∈ l, next x = nextIn l x)
    (hn : l.length ≤ n) : follow next n l.head? = l := by
  have hfrom : ∀ {k a : List α} {n : Nat}, l = a ++ k → k.length ≤ n → follow next n k.head? = k := by
    intro k
    induction k with
    | nil => exact fun {a n} _ _ => follow_none next n
    | cons x k ih =>
      intro a n ha hn
      have hx : x ∉ a := by
        rw [ha] at hl
        exact fun hx => (List.nodup_append.mp hl).2.2 x hx x List.mem_cons_self rfl
      have hmem : x ∈ l := by
        rw [ha]
        exact List.mem_append_right a List.mem_cons_self
      obtain ⟨n, rfl⟩ : ∃ m, n = m + 1 := Nat.exists_eq_add_one.mpr (Nat.lt_of_lt_of_le (Nat.succ_pos _) hn)
      rw [List.head?_cons, follow, hnext x hmem, ha, nextIn_self hx,
        ih (a := a ++ [x]) (by rw [ha, List.append_assoc]; rfl) (Nat.le_of_succ_le_succ hn)]
  exact hfrom (a := []) rfl hn

theorem follow_prevIn {prev : α → Option α} (hl : l.Nodup) (hprev : ∀ x ∈ l, prev x = prevIn l x)
    (hn : l.length ≤ n) : follow prev n l.getLast? = l.reverse := by
  rw [← List.head?_reverse]
  exact follow_nextIn (List.nodup_reverse.mpr hl) (fun x hx => hprev x (List.mem_reverse.mp hx))
    (by rwa [List.length_reverse])

end OpenVino
