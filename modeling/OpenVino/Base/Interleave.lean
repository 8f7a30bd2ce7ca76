import Mathlib

/-!
# Lists that are laid over others, and lists of rows

`overlay l i xs` is `l` with `xs` over the places from `i` on: what a copy into a buffer does. A list of `n * w` elements
is `n` rows of width `w`. `interleave n parts` takes the first row of each part, then the second of each, and so on; the
parts have their own widths. Parts with as many rows are determined by it (`interleave_injective`).
-/

namespace OpenVino

variable {α : Type} {l xs ys : List α} {i n w : Nat}

/-! ### Overlays -/

def overlay (l : List α) (i : Nat) (xs : List α) : List α := l.take i ++ xs ++ l.drop (i + xs.length)

theorem length_overlay (h : i + xs.length ≤ l.length) : (overlay l i xs).length = l.length := by
  rw [overlay, List.length_append, List.length_append, List.length_take, List.length_drop]
  omega

theorem overlay_nil : overlay l i [] = l := by
  rw [overlay, List.append_nil, List.length_nil, Nat.add_zero, List.take_append_drop]

theorem overlay_all (h : xs.length = l.length) : overlay l 0 xs = xs := by
  rw [overlay, List.take_zero, List.nil_append, Nat.zero_add, List.drop_of_length_le (le_of_eq h.symm), List.append_nil]

theorem take_overlay (h : i ≤ l.length) : (overlay l i xs).take i = l.take i := by
  rw [overlay, List.append_assoc, List.take_append_of_le_length (by rw [List.length_take]; omega), List.take_take,
    min_self]

theorem drop_overlay (h : i ≤ l.length) : (overlay l i xs).drop i = xs ++ l.drop (i + xs.length) := by
  have hlength : (l.take i).length = i := List.length_take_of_le h
  rw [overlay, List.append_assoc, List.drop_append_of_le_length (le_of_eq hlength.symm),
    List.drop_of_length_le (le_of_eq hlength), List.nil_append]

/-- A second list behind the first. -/
theorem overlay_overlay (h : i + xs.length ≤ l.length) :
    overlay (overlay l i xs) (i + xs.length) ys = overlay l i (xs ++ ys) := by
  have htake : (overlay l i xs).take (i + xs.length) = l.take i ++ xs := by
    have hlength : (l.take i ++ xs).length = i + xs.length := by
      rw [List.length_append, List.length_take_of_le (by omega)]
    rw [overlay, List.take_append_of_le_length (le_of_eq hlength.symm), List.take_of_length_le (le_of_eq hlength)]
  have hdrop : (overlay l i xs).drop (i + xs.length + ys.length) = l.drop (i + (xs ++ ys).length) := by
    rw [Nat.add_assoc, ← List.drop_drop, drop_overlay (by omega), List.drop_append, List.drop_of_length_le (by omega),
      List.nil_append, List.drop_drop, List.length_append]
    congr 1
    omega
  rw [overlay, htake, hdrop, List.append_assoc (l.take i)]
  rfl

/-- What is behind the piece stays. -/
theorem getElem?_overlay_of_le {k : Nat} (hi : i ≤ l.length) (hk : i + xs.length ≤ k) : (overlay l i xs)[k]? = l[k]? := by
  have hlength : (l.take i ++ xs).length = i + xs.length := by
    rw [List.length_append, List.length_take_of_le hi]
  rw [overlay, List.getElem?_append_right (by omega), hlength, List.getElem?_drop]
  congr 1
  omega

/-! ### Rows -/

def rowAt (w : Nat) (l : List α) (i : Nat) : List α := (l.drop (i * w)).take w

theorem length_rowAt (h : (i + 1) * w ≤ l.length) : (rowAt w l i).length = w := by
  rw [Nat.succ_mul] at h
  rw [rowAt, List.length_take_of_le]
  rw [List.length_drop]
  omega

theorem flatMap_rowAt : (List.range n).flatMap (rowAt w l) = l.take (n * w) := by
  induction n with
  | zero => rw [Nat.zero_mul, List.take_zero]; rfl
  | succ n ih => rw [List.range_succ, List.flatMap_append, ih, List.flatMap_singleton, Nat.succ_mul, List.take_add, rowAt]

/-- The rows of a piece. -/
theorem rowAt_take_drop {k : Nat} (hk : k < n) : rowAt w ((l.drop (i * w)).take (n * w)) k = rowAt w l (i + k) := by
  have hle : k * w + w ≤ n * w := by
    rw [← Nat.succ_mul]
    exact Nat.mul_le_mul_right w hk
  rw [rowAt, rowAt, List.drop_take, List.take_take, List.drop_drop, Nat.add_mul, min_eq_left (by omega)]

/-- The rows are the list. -/
theorem eq_of_rows_eq {l' : List α} (h : l.length = n * w) (h' : l'.length = n * w)
    (hrows : ∀ i < n, rowAt w l i = rowAt w l' i) : l = l' := by
  have hl : (List.range n).flatMap (rowAt w l) = (List.range n).flatMap (rowAt w l') :=
    List.flatMap_congr fun i hi => hrows i (List.mem_range.mp hi)
  rwa [flatMap_rowAt, flatMap_rowAt, List.take_of_length_le (le_of_eq h), List.take_of_length_le (le_of_eq h')] at hl

/-- What is laid over a row becomes the row. -/
theorem rowAt_overlay_self (h : i * w ≤ l.length) (hxs : xs.length = w) : rowAt w (overlay l (i * w) xs) i = xs := by
  rw [rowAt, drop_overlay h, List.take_append_of_le_length (le_of_eq hxs.symm), List.take_of_length_le (le_of_eq hxs)]

/-- The rows before are not touched. -/
theorem rowAt_overlay_of_lt {j : Nat} (h : i * w ≤ l.length) (hj : j < i) :
    rowAt w (overlay l (i * w) xs) j = rowAt w l j := by
  have hle : j * w + w ≤ i * w := by
    rw [← Nat.succ_mul]
    exact Nat.mul_le_mul_right w hj
  have hrow : ∀ l' : List α, rowAt w l' j = ((l'.take (i * w)).drop (j * w)).take w := by
    intro l'
    rw [rowAt, List.drop_take, List.take_take, min_eq_left (by omega)]
  rw [hrow, hrow, take_overlay h]

/-- The rows behind are not touched either. -/
theorem rowAt_overlay_of_ne {j : Nat} (h : i * w + w ≤ l.length) (hxs : xs.length = w) (hj : j ≠ i) :
    rowAt w (overlay l (i * w) xs) j = rowAt w l j := by
  rcases Nat.lt_or_gt_of_ne hj with hlt | hgt
  · exact rowAt_overlay_of_lt (by omega) hlt
  · have hle : i * w + w ≤ j * w := by
      rw [← Nat.succ_mul]
      exact Nat.mul_le_mul_right w hgt
    have hdrop : (overlay l (i * w) xs).drop (i * w + w) = l.drop (i * w + w) := by
      rw [← List.drop_drop, drop_overlay (by omega), List.drop_append, List.drop_of_length_le (le_of_eq hxs),
        List.nil_append, List.drop_drop, hxs]
      congr 1
      omega
    obtain ⟨k, hk⟩ := Nat.exists_eq_add_of_le hle
    rw [rowAt, rowAt, hk, ← List.drop_drop, hdrop, List.drop_drop]

/-! ### Parts with rows of their own widths -/

/-- The rows number `i` of the parts. -/
def rowsOf (parts : List (Nat × List α)) (i : Nat) : List α := parts.flatMap fun p => rowAt p.1 p.2 i

def interleave (n : Nat) (parts : List (Nat × List α)) : List α := (List.range n).flatMap (rowsOf parts)

/-- Each part is `n` rows. -/
def HaveRows (n : Nat) (parts : List (Nat × List α)) : Prop := ∀ p ∈ parts, p.2.length = n * p.1

variable {parts parts' : List (Nat × List α)}

theorem length_rowsOf (h : HaveRows n parts) (hi : i < n) : (rowsOf parts i).length = (parts.map Prod.fst).sum := by
  induction parts with
  | nil => rfl
  | cons p parts ih =>
    obtain ⟨hp, hparts⟩ := List.forall_mem_cons.mp h
    have hlength : (i + 1) * p.1 ≤ p.2.length := by
      rw [hp]
      exact Nat.mul_le_mul_right _ hi
    have hcons : rowsOf (p :: parts) i = rowAt p.1 p.2 i ++ rowsOf parts i := rfl
    rw [hcons, List.length_append, length_rowAt hlength, ih hparts, List.map_cons, List.sum_cons]

theorem interleave_succ : interleave (n + 1) parts = interleave n parts ++ rowsOf parts n := by
  rw [interleave, List.range_succ, List.flatMap_append, List.flatMap_singleton]
  rfl

theorem length_interleave {m : Nat} (h : HaveRows n parts) (hm : m ≤ n) :
    (interleave m parts).length = m * (parts.map Prod.fst).sum := by
  induction m with
  | zero => rw [Nat.zero_mul]; rfl
  | succ m ih => rw [interleave_succ, List.length_append, ih (by omega), length_rowsOf h hm, Nat.succ_mul]

theorem flatMap_injective {f g : Nat → List α} (h : (List.range n).flatMap f = (List.range n).flatMap g)
    (hlength : ∀ i < n, (f i).length = (g i).length) : ∀ i < n, f i = g i := by
  induction n with
  | zero => exact fun i hi => absurd hi (Nat.not_lt_zero i)
  | succ n ih =>
    rw [List.range_succ, List.flatMap_append, List.flatMap_append, List.flatMap_singleton, List.flatMap_singleton] at h
    obtain ⟨hbefore, hlast⟩ := List.append_inj' h (hlength n (Nat.lt_succ_self n))
    intro i hi
    rcases (Nat.lt_succ_iff_lt_or_eq.mp hi) with hlt | rfl
    · exact ih hbefore (fun j hj => hlength j (Nat.lt_succ_of_lt hj)) i hlt
    · exact hlast

theorem rowsOf_injective (h : HaveRows n parts) (h' : HaveRows n parts')
    (hwidths : parts.map Prod.fst = parts'.map Prod.fst) (hi : i < n) (hrows : rowsOf parts i = rowsOf parts' i) :
    List.Forall₂ (fun p q => p.1 = q.1 ∧ rowAt p.1 p.2 i = rowAt q.1 q.2 i) parts parts' := by
  induction parts generalizing parts' with
  | nil =>
    obtain rfl := List.map_eq_nil_iff.mp hwidths.symm
    exact .nil
  | cons p parts ih =>
    obtain ⟨q, qs, rfl, hpq, hrest⟩ := List.map_eq_cons_iff.mp hwidths.symm
    obtain ⟨hp, hparts⟩ := List.forall_mem_cons.mp h
    obtain ⟨hq, hqs⟩ := List.forall_mem_cons.mp h'
    have hlengths : (rowAt p.1 p.2 i).length = (rowAt q.1 q.2 i).length := by
      rw [length_rowAt (by rw [hp]; exact Nat.mul_le_mul_right _ hi),
        length_rowAt (by rw [hq]; exact Nat.mul_le_mul_right _ hi), hpq]
    obtain ⟨hhead, htail⟩ := List.append_inj hrows hlengths
    exact .cons ⟨hpq.symm, hhead⟩ (ih hparts hqs hrest.symm htail)

/-- Parts with these widths and numbers of rows are read back from the interleaved rows. -/
theorem interleave_injective (h : HaveRows n parts) (h' : HaveRows n parts')
    (hwidths : parts.map Prod.fst = parts'.map Prod.fst) (heq : interleave n parts = interleave n parts') :
    parts = parts' := by
  have hlengths : ∀ i < n, (rowsOf parts i).length = (rowsOf parts' i).length := by
    intro i hi
    rw [length_rowsOf h hi, length_rowsOf h' hi, hwidths]
  have hrows := flatMap_injective heq hlengths
  have hpairs := fun i hi => List.forall₂_iff_get.mp (rowsOf_injective h h' hwidths hi (hrows i hi))
  have hlength : parts.length = parts'.length := by
    have := congrArg List.length hwidths
    rwa [List.length_map, List.length_map] at this
  apply List.ext_getElem hlength
  intro k hk hk'
  have hwidth : parts[k].1 = parts'[k].1 := by
    have hget : (parts.map Prod.fst)[k]? = (parts'.map Prod.fst)[k]? := by rw [hwidths]
    rw [List.getElem?_map, List.getElem?_map, List.getElem?_eq_getElem hk, List.getElem?_eq_getElem hk'] at hget
    exact Option.some_inj.mp hget
  refine Prod.ext hwidth (eq_of_rows_eq (h _ (List.getElem_mem hk)) ?_ fun i hi => ?_)
  · rw [hwidth]
    exact h' _ (List.getElem_mem hk')
  · have hget := ((hpairs i hi).2 k hk hk').2
    rw [List.get_eq_getElem, List.get_eq_getElem, ← hwidth] at hget
    exact hget

end OpenVino
