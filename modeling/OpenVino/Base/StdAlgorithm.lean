import Mathlib.Data.List.Sort
import Mathlib.Logic.Equiv.Basic
import OpenVino.Base.Exception

/-!
# The sort and the heaps of the standard library

The order in which `std::sort` leaves elements that the comparator does not separate is not specified.
`StdSort` is any function with the guarantees of the standard: a permutation of the range, without an
inversion when the comparator is a strict weak order. `StdSort.insertion` is one such function; a model
that sorts takes a `StdSort`, so its theorems hold for every implementation of the library.

`IsHeap` is `std::is_heap`. How `std::push_heap`, `std::pop_heap` and `std::sort_heap` arrange a range is not
specified beyond their guarantees, and these hold for a range that is a heap only. `StdHeap` is any three
functions with the guarantees; `pushHeap`, `popHeap` and `sortHeap` are the calls, for which a range of another
shape is undefined behaviour. `StdHeap.binary` shows that the guarantees can be met: it swaps along one path
of the tree, upwards (`siftUp_isHeap`) or downwards (`siftDown_isHeap`).
-/

namespace OpenVino

/-! ### Sorting -/

section

variable {α : Type*}

/-- A strict weak order, by its complement `fun a b => lt b a = false`. -/
structure StrictWeakOrder (lt : α → α → Bool) : Prop where
  total : ∀ a b, lt b a = false ∨ lt a b = false
  trans : ∀ a b c, lt b a = false → lt c b = false → lt c a = false

theorem StrictWeakOrder.of_key {κ : Type*} [LinearOrder κ] (key : α → κ) :
    StrictWeakOrder fun a b => decide (key a < key b) where
  total a b := by
    simp only [decide_eq_false_iff_not, not_lt]
    exact le_total (key a) (key b)
  trans a b c hab hbc := by
    simp only [decide_eq_false_iff_not, not_lt] at hab hbc ⊢
    exact hab.trans hbc

structure StdSort (α : Type*) where
  sort : (α → α → Bool) → List α → List α
  perm : ∀ lt l, (sort lt l).Perm l
  sorted : ∀ lt l, StrictWeakOrder lt → (sort lt l).Pairwise fun a b => lt b a = false

namespace StdSort

theorem mem_sort (std : StdSort α) {lt : α → α → Bool} {l : List α} {a : α} :
    a ∈ std.sort lt l ↔ a ∈ l :=
  (std.perm lt l).mem_iff

def insertion : StdSort α where
  sort lt := List.insertionSort fun a b => lt b a = false
  perm lt l := List.perm_insertionSort _ l
  sorted lt l h := by
    have : Std.Total fun a b => lt b a = false := ⟨h.total⟩
    have : IsTrans α fun a b => lt b a = false := ⟨h.trans⟩
    exact List.pairwise_insertionSort _ l

end StdSort

end

/-! ### Heaps -/

variable {α : Type}

/-! ### Heaps -/

/-- `v[i] < v[j]`, for two elements of the range. -/
def lessAt (lt : α → α → Bool) (v : List α) (i j : Nat) : Bool :=
  match v[i]?, v[j]? with
  | some a, some b => lt a b
  | _, _ => false

def IsHeap (lt : α → α → Bool) (v : List α) : Prop :=
  ∀ i < v.length, 0 < i → lessAt lt v ((i - 1) / 2) i = false

instance (lt : α → α → Bool) (v : List α) : Decidable (IsHeap lt v) :=
  inferInstanceAs (Decidable (∀ i < v.length, 0 < i → _))

section LessAt

variable {lt : α → α → Bool} {v w : List α} {a b : α} {i j k : Nat}

theorem lessAt_of_some (hi : v[i]? = some a) (hj : v[j]? = some b) : lessAt lt v i j = lt a b := by
  simp only [lessAt, hi, hj]

theorem lessAt_of_none_left (h : v.length ≤ i) : lessAt lt v i j = false := by
  simp only [lessAt, List.getElem?_eq_none h]

theorem lessAt_of_none_right (h : v.length ≤ j) : lessAt lt v i j = false := by
  unfold lessAt
  rw [List.getElem?_eq_none h]
  cases v[i]? <;> rfl

theorem lessAt_congr (hi : w[i]? = v[i]?) (hj : w[j]? = v[j]?) : lessAt lt w i j = lessAt lt v i j := by
  simp only [lessAt, hi, hj]

theorem lt_length_of_lessAt (h : lessAt lt v i j = true) : i < v.length ∧ j < v.length := by
  constructor
  · by_contra hi
    rw [lessAt_of_none_left (Nat.le_of_not_lt hi)] at h
    cases h
  · by_contra hj
    rw [lessAt_of_none_right (Nat.le_of_not_lt hj)] at h
    cases h

theorem lessAt_asymm (hlt : StrictWeakOrder lt) (h : lessAt lt v i j = true) : lessAt lt v j i = false := by
  obtain ⟨hi, hj⟩ := lt_length_of_lessAt h
  rw [lessAt_of_some (List.getElem?_eq_getElem hi) (List.getElem?_eq_getElem hj)] at h
  rw [lessAt_of_some (List.getElem?_eq_getElem hj) (List.getElem?_eq_getElem hi)]
  rcases hlt.total v[i] v[j] with h' | h'
  · exact h'
  · rw [h'] at h
    cases h

theorem lessAt_trans (hlt : StrictWeakOrder lt) (hj : j < v.length) (hij : lessAt lt v i j = false)
    (hjk : lessAt lt v j k = false) : lessAt lt v i k = false := by
  by_cases hi : i < v.length
  · by_cases hk : k < v.length
    · rw [lessAt_of_some (List.getElem?_eq_getElem hi) (List.getElem?_eq_getElem hj)] at hij
      rw [lessAt_of_some (List.getElem?_eq_getElem hj) (List.getElem?_eq_getElem hk)] at hjk
      rw [lessAt_of_some (List.getElem?_eq_getElem hi) (List.getElem?_eq_getElem hk)]
      exact hlt.trans _ _ _ hjk hij
    · exact lessAt_of_none_right (Nat.le_of_not_lt hk)
  · exact lessAt_of_none_left (Nat.le_of_not_lt hi)

theorem lessAt_self (hlt : StrictWeakOrder lt) : lessAt lt v i i = false := by
  by_contra h
  have htrue : lessAt lt v i i = true := by simpa using h
  exact h (lessAt_asymm hlt htrue)

/-- The first element of a heap is as large as any. -/
theorem IsHeap.lessAt_zero (hlt : StrictWeakOrder lt) (h : IsHeap lt v) : lessAt lt v 0 i = false := by
  induction i using Nat.strongRecOn with
  | ind i ih =>
    by_cases hi : i < v.length
    · by_cases h0 : i = 0
      · rw [h0]
        exact lessAt_self hlt
      · have hparent : (i - 1) / 2 < i := by omega
        exact lessAt_trans hlt (by omega) (ih _ hparent) (h i hi (by omega))
    · exact lessAt_of_none_right (Nat.le_of_not_lt hi)

theorem IsHeap.front_max (hlt : StrictWeakOrder lt) (h : IsHeap lt (a :: v)) (hb : b ∈ a :: v) : lt a b = false := by
  obtain ⟨i, hi⟩ := List.mem_iff_getElem?.mp hb
  have hfirst : (a :: v)[0]? = some a := List.getElem?_cons_zero
  have hless : lessAt lt (a :: v) 0 i = lt a b := lessAt_of_some hfirst hi
  rw [← hless]
  exact h.lessAt_zero hlt

end LessAt

/-! ### The guarantees -/

structure StdHeap (α : Type) where
  push_heap : (α → α → Bool) → List α → List α
  pop_heap : (α → α → Bool) → List α → List α
  sort_heap : (α → α → Bool) → List α → List α
  push_perm : ∀ lt v a, StrictWeakOrder lt → IsHeap lt v → (push_heap lt (v ++ [a])).Perm (v ++ [a])
  push_isHeap : ∀ lt v a, StrictWeakOrder lt → IsHeap lt v → IsHeap lt (push_heap lt (v ++ [a]))
  /-- The first element becomes the last one, and what stands before it is a heap again. -/
  pop_spec : ∀ lt a v, StrictWeakOrder lt → IsHeap lt (a :: v) →
    ∃ w, pop_heap lt (a :: v) = w ++ [a] ∧ w.Perm v ∧ IsHeap lt w
  sort_perm : ∀ lt v, StrictWeakOrder lt → IsHeap lt v → (sort_heap lt v).Perm v
  sort_sorted : ∀ lt v, StrictWeakOrder lt → IsHeap lt v → (sort_heap lt v).Pairwise fun a b => lt b a = false

namespace StdHeap

variable (std : StdHeap α) (lt : α → α → Bool)

/-- `std::push_heap(v.begin(), v.end())` -/
def pushHeap (v : List α) : Result (List α) :=
  if v ≠ [] ∧ IsHeap lt v.dropLast then .ok (std.push_heap lt v) else .error (.undefinedBehaviour "std::push_heap")

/-- `std::pop_heap(v.begin(), v.end())` -/
def popHeap (v : List α) : Result (List α) :=
  if v ≠ [] ∧ IsHeap lt v then .ok (std.pop_heap lt v) else .error (.undefinedBehaviour "std::pop_heap")

/-- `std::sort_heap(v.begin(), v.end())` -/
def sortHeap (v : List α) : Result (List α) :=
  if IsHeap lt v then .ok (std.sort_heap lt v) else .error (.undefinedBehaviour "std::sort_heap")

variable {lt} {v : List α} {a : α}

theorem pushHeap_ok (a : α) (hlt : StrictWeakOrder lt) (h : IsHeap lt v) :
    ∃ w, std.pushHeap lt (v ++ [a]) = .ok w ∧ w.Perm (v ++ [a]) ∧ IsHeap lt w := by
  refine ⟨_, if_pos ⟨by simp, ?_⟩, std.push_perm lt v a hlt h, std.push_isHeap lt v a hlt h⟩
  rw [List.dropLast_concat]
  exact h

theorem popHeap_ok (hlt : StrictWeakOrder lt) (h : IsHeap lt (a :: v)) :
    ∃ w, std.popHeap lt (a :: v) = .ok (w ++ [a]) ∧ w.Perm v ∧ IsHeap lt w := by
  obtain ⟨w, hpop, hperm, hheap⟩ := std.pop_spec lt a v hlt h
  refine ⟨w, ?_, hperm, hheap⟩
  rw [popHeap, if_pos ⟨List.cons_ne_nil a v, h⟩, hpop]

theorem sortHeap_ok (hlt : StrictWeakOrder lt) (h : IsHeap lt v) :
    ∃ s, std.sortHeap lt v = .ok s ∧ s.Perm v ∧ s.Pairwise fun a b => lt b a = false :=
  ⟨_, if_pos h, std.sort_perm lt v hlt h, std.sort_sorted lt v hlt h⟩

end StdHeap

/-! ### A binary heap -/

def swapAt (v : List α) (i j : Nat) : List α :=
  match v[i]?, v[j]? with
  | some a, some b => (v.set i b).set j a
  | _, _ => v

def siftUp (lt : α → α → Bool) : Nat → List α → Nat → List α
  | 0, v, _ => v
  | fuel + 1, v, i =>
    if 0 < i ∧ lessAt lt v ((i - 1) / 2) i then siftUp lt fuel (swapAt v ((i - 1) / 2) i) ((i - 1) / 2) else v

/-- The larger child, the left one when neither is. -/
def largerChild (lt : α → α → Bool) (v : List α) (i : Nat) : Nat :=
  if lessAt lt v (2 * i + 1) (2 * i + 2) then 2 * i + 2 else 2 * i + 1

def siftDown (lt : α → α → Bool) : Nat → List α → Nat → List α
  | 0, v, _ => v
  | fuel + 1, v, i =>
    if lessAt lt v i (largerChild lt v i) then
      siftDown lt fuel (swapAt v i (largerChild lt v i)) (largerChild lt v i)
    else v

section Sift

variable {lt : α → α → Bool} {v : List α} {i j k fuel : Nat}

theorem swapAt_of_lt (hi : i < v.length) (hj : j < v.length) : swapAt v i j = (v.set i v[j]).set j v[i] := by
  simp only [swapAt, List.getElem?_eq_getElem hi, List.getElem?_eq_getElem hj]

theorem perm_swapAt (hi : i < v.length) (hj : j < v.length) : (swapAt v i j).Perm v := by
  rw [swapAt_of_lt hi hj]
  exact List.set_set_perm hi hj

theorem getElem?_swapAt (hi : i < v.length) (hj : j < v.length) (k : Nat) :
    (swapAt v i j)[k]? = v[Equiv.swap i j k]? := by
  rw [swapAt_of_lt hi hj, Equiv.swap_apply_def]
  by_cases hkj : k = j
  · subst hkj
    rw [List.getElem?_set_self (by simpa using hj)]
    by_cases hki : k = i
    · subst hki
      rw [if_pos rfl, List.getElem?_eq_getElem]
    · rw [if_neg hki, if_pos rfl, List.getElem?_eq_getElem hi]
  · rw [List.getElem?_set_ne (Ne.symm hkj), if_neg hkj]
    by_cases hki : k = i
    · subst hki
      rw [List.getElem?_set_self hi, if_pos rfl, List.getElem?_eq_getElem hj]
    · rw [List.getElem?_set_ne (Ne.symm hki), if_neg hki]

theorem lessAt_swapAt (hi : i < v.length) (hj : j < v.length) (a b : Nat) :
    lessAt lt (swapAt v i j) a b = lessAt lt v (Equiv.swap i j a) (Equiv.swap i j b) := by
  simp only [lessAt, getElem?_swapAt hi hj]

/-- Only the element at `i` may be larger than its parent. -/
structure UpReady (lt : α → α → Bool) (v : List α) (i : Nat) : Prop where
  others : ∀ j, 0 < j → j ≠ i → lessAt lt v ((j - 1) / 2) j = false
  children : 0 < i → ∀ j, 0 < j → (j - 1) / 2 = i → lessAt lt v ((i - 1) / 2) j = false

/-- Only the element at `i` may be smaller than its children. -/
structure DownReady (lt : α → α → Bool) (v : List α) (i : Nat) : Prop where
  others : ∀ j, 0 < j → (j - 1) / 2 ≠ i → lessAt lt v ((j - 1) / 2) j = false
  children : 0 < i → ∀ j, 0 < j → (j - 1) / 2 = i → lessAt lt v ((i - 1) / 2) j = false

theorem UpReady.swap (hlt : StrictWeakOrder lt) (h : UpReady lt v i) (hi : 0 < i)
    (hless : lessAt lt v ((i - 1) / 2) i = true) : UpReady lt (swapAt v ((i - 1) / 2) i) ((i - 1) / 2) := by
  obtain ⟨hp, hlen⟩ := lt_length_of_lessAt hless
  have hback := lessAt_asymm hlt hless
  refine ⟨fun j hj hjp => ?_, fun hp0 j hj hjp => ?_⟩
  · rw [lessAt_swapAt hp hlen]
    by_cases hji : j = i
    · rw [hji, Equiv.swap_apply_left, Equiv.swap_apply_right]
      exact hback
    · rw [Equiv.swap_apply_of_ne_of_ne hjp hji]
      by_cases hchild : (j - 1) / 2 = (i - 1) / 2
      · -- the sibling of `i` is not larger than the old parent
        rw [hchild, Equiv.swap_apply_left]
        refine lessAt_trans hlt hp hback ?_
        rw [← hchild]
        exact h.others j hj hji
      · by_cases hgrand : (j - 1) / 2 = i
        · rw [hgrand, Equiv.swap_apply_right]
          exact h.children hi j hj hgrand
        · rw [Equiv.swap_apply_of_ne_of_ne hchild hgrand]
          exact h.others j hj hji
  · have hne : ((i - 1) / 2 - 1) / 2 ≠ (i - 1) / 2 ∧ ((i - 1) / 2 - 1) / 2 ≠ i := by omega
    rw [lessAt_swapAt hp hlen, Equiv.swap_apply_of_ne_of_ne hne.1 hne.2]
    have hparent := h.others ((i - 1) / 2) hp0 (by omega)
    by_cases hji : j = i
    · rw [hji, Equiv.swap_apply_right]
      exact hparent
    · rw [Equiv.swap_apply_of_ne_of_ne (by omega) hji]
      refine lessAt_trans hlt hp hparent ?_
      have hsibling := h.others j hj hji
      rw [hjp] at hsibling
      exact hsibling

theorem siftUp_isHeap (hlt : StrictWeakOrder lt) (hfuel : i < fuel) (h : UpReady lt v i) :
    IsHeap lt (siftUp lt fuel v i) := by
  induction fuel generalizing v i with
  | zero => omega
  | succ fuel ih =>
    rw [siftUp]
    split_ifs with hless
    · exact ih (by omega) (h.swap hlt hless.1 hless.2)
    · intro j _ hj
      by_cases hji : j = i
      · subst hji
        simpa [hj] using hless
      · exact h.others j hj hji

theorem siftUp_perm : (siftUp lt fuel v i).Perm v := by
  induction fuel generalizing v i with
  | zero => exact .refl v
  | succ fuel ih =>
    rw [siftUp]
    split_ifs with hless
    · obtain ⟨hp, hlen⟩ := lt_length_of_lessAt hless.2
      exact ih.trans (perm_swapAt hp hlen)
    · exact .refl v

theorem largerChild_parent (lt : α → α → Bool) (v : List α) (i : Nat) :
    i < largerChild lt v i ∧ (largerChild lt v i - 1) / 2 = i := by
  unfold largerChild
  split_ifs <;> omega

/-- No child is larger. -/
theorem lessAt_largerChild (hlt : StrictWeakOrder lt) (hj : 0 < j) (hji : (j - 1) / 2 = i) :
    lessAt lt v (largerChild lt v i) j = false := by
  have hcases : j = 2 * i + 1 ∨ j = 2 * i + 2 := by omega
  unfold largerChild
  split_ifs with hless
  · rcases hcases with rfl | rfl
    · exact lessAt_asymm hlt hless
    · exact lessAt_self hlt
  · rcases hcases with rfl | rfl
    · exact lessAt_self hlt
    · simpa using hless

theorem DownReady.swap (hlt : StrictWeakOrder lt) (h : DownReady lt v i)
    (hless : lessAt lt v i (largerChild lt v i) = true) :
    DownReady lt (swapAt v i (largerChild lt v i)) (largerChild lt v i) := by
  obtain ⟨hi, hc⟩ := lt_length_of_lessAt hless
  obtain ⟨hlt_c, hparent⟩ := largerChild_parent lt v i
  have hback := lessAt_asymm hlt hless
  have hchildren : ∀ j, 0 < j → (j - 1) / 2 = i → lessAt lt v (largerChild lt v i) j = false :=
    fun j hj hji => lessAt_largerChild hlt hj hji
  generalize largerChild lt v i = c at hless hi hc hlt_c hparent hback hchildren
  refine ⟨fun j hj hjc => ?_, fun hc0 j hj hjc => ?_⟩
  · rw [lessAt_swapAt hi hc]
    by_cases hj_eq : j = c
    · rw [hj_eq, hparent, Equiv.swap_apply_left, Equiv.swap_apply_right]
      exact hback
    · by_cases hji : (j - 1) / 2 = i
      · rw [hji, Equiv.swap_apply_left, Equiv.swap_apply_of_ne_of_ne (by omega) hj_eq]
        exact hchildren j hj hji
      · rw [Equiv.swap_apply_of_ne_of_ne hji hjc]
        by_cases hself : j = i
        · rw [hself, Equiv.swap_apply_left]
          exact h.children (by omega) c (by omega) hparent
        · rw [Equiv.swap_apply_of_ne_of_ne hself hj_eq]
          exact h.others j hj hji
  · rw [lessAt_swapAt hi hc, hparent, Equiv.swap_apply_left, Equiv.swap_apply_of_ne_of_ne (by omega) (by omega)]
    have hbelow := h.others j hj (by omega)
    rw [hjc] at hbelow
    exact hbelow

theorem siftDown_isHeap (hlt : StrictWeakOrder lt) (hfuel : v.length ≤ fuel + i) (h : DownReady lt v i) :
    IsHeap lt (siftDown lt fuel v i) := by
  induction fuel generalizing v i with
  | zero =>
    intro j _ hj
    by_cases hji : (j - 1) / 2 = i
    · rw [hji]
      exact lessAt_of_none_left (v := v) (by omega)
    · exact h.others j hj hji
  | succ fuel ih =>
    obtain ⟨hlt_c, hparent⟩ := largerChild_parent lt v i
    rw [siftDown]
    split_ifs with hless
    · refine ih ?_ (h.swap hlt hless)
      obtain ⟨hi, hc⟩ := lt_length_of_lessAt hless
      rw [(perm_swapAt hi hc).length_eq]
      omega
    · intro j hjlen hj
      by_cases hji : (j - 1) / 2 = i
      · have hchild := lessAt_largerChild (v := v) hlt hj hji
        have hstop : lessAt lt v i (largerChild lt v i) = false := by simpa using hless
        rw [hji]
        by_cases hc : largerChild lt v i < v.length
        · exact lessAt_trans hlt hc hstop hchild
        · -- the left child is the first to be missing
          refine lessAt_of_none_right ?_
          unfold largerChild at hc
          split_ifs at hc with hpair
          · exact absurd (lt_length_of_lessAt hpair).2 hc
          · omega
      · exact h.others j hj hji

theorem siftDown_perm : (siftDown lt fuel v i).Perm v := by
  induction fuel generalizing v i with
  | zero => exact .refl v
  | succ fuel ih =>
    rw [siftDown]
    split_ifs with hless
    · obtain ⟨hi, hc⟩ := lt_length_of_lessAt hless
      exact ih.trans (perm_swapAt hi hc)
    · exact .refl v

end Sift

namespace StdHeap

def binaryPop (lt : α → α → Bool) : List α → List α
  | [] => []
  | a :: v =>
    match v.getLast? with
    | none => [a]
    | some b => siftDown lt v.length (b :: v.dropLast) 0 ++ [a]

/-- The largest of the first `n` elements goes to their end, for one `n` after the other. -/
def binarySort (lt : α → α → Bool) : Nat → List α → List α
  | 0, v => v
  | n + 1, v => binarySort lt n (binaryPop lt v).dropLast ++ (binaryPop lt v).getLast?.toList

variable {lt : α → α → Bool} {v : List α} {a b : α}

theorem upReady_concat (h : IsHeap lt v) : UpReady lt (v ++ [a]) v.length := by
  refine ⟨fun j hj hne => ?_, fun _ j _ hjv => lessAt_of_none_right ?_⟩
  · by_cases hlen : j < v.length
    · rw [← h j hlen hj]
      exact lessAt_congr (List.getElem?_append_left (by omega)) (List.getElem?_append_left hlen)
    · refine lessAt_of_none_right ?_
      rw [List.length_append, List.length_singleton]
      omega
  · rw [List.length_append, List.length_singleton]
    omega

theorem downReady_cons (h : IsHeap lt (a :: (v ++ [b]))) : DownReady lt (b :: v) 0 := by
  refine ⟨fun j hj hne => ?_, fun h0 => absurd h0 (Nat.lt_irrefl 0)⟩
  by_cases hlen : j < (b :: v).length
  · rw [List.length_cons] at hlen
    have hsame : ∀ k, 0 < k → k ≤ j → (b :: v)[k]? = (a :: (v ++ [b]))[k]? := by
      intro k hk hkj
      obtain ⟨m, rfl⟩ := Nat.exists_eq_succ_of_ne_zero (Nat.pos_iff_ne_zero.mp hk)
      rw [List.getElem?_cons_succ, List.getElem?_cons_succ, List.getElem?_append_left (by omega)]
    rw [lessAt_congr (hsame _ (Nat.pos_iff_ne_zero.mpr hne) (by omega)) (hsame j hj le_rfl)]
    refine h j ?_ hj
    rw [List.length_cons, List.length_append]
    omega
  · exact lessAt_of_none_right (Nat.le_of_not_lt hlen)

theorem binaryPop_spec (hlt : StrictWeakOrder lt) (h : IsHeap lt (a :: v)) :
    ∃ w, binaryPop lt (a :: v) = w ++ [a] ∧ w.Perm v ∧ IsHeap lt w := by
  rcases List.eq_nil_or_concat' v with rfl | ⟨init, b, rfl⟩
  · exact ⟨[], rfl, .refl [], fun i hi => absurd hi (Nat.not_lt_zero i)⟩
  · refine ⟨siftDown lt (init ++ [b]).length (b :: init) 0, ?_, ?_, ?_⟩
    · rw [binaryPop, List.getLast?_concat, List.dropLast_concat]
    · exact siftDown_perm.trans (List.perm_append_singleton b init).symm
    · refine siftDown_isHeap hlt (Nat.le_of_eq ?_) (downReady_cons h)
      rw [List.length_cons, List.length_append, List.length_singleton]

theorem binarySort_spec (hlt : StrictWeakOrder lt) {n : Nat} (hn : v.length = n) (h : IsHeap lt v) :
    (binarySort lt n v).Perm v ∧ (binarySort lt n v).Pairwise fun a b => lt b a = false := by
  induction n generalizing v with
  | zero =>
    rw [List.eq_nil_of_length_eq_zero hn]
    exact ⟨.refl [], .nil⟩
  | succ n ih =>
    obtain ⟨a, rest, rfl⟩ := List.exists_cons_of_length_eq_add_one hn
    obtain ⟨w, hpop, hperm, hheap⟩ := binaryPop_spec hlt h
    have hlen : w.length = n := by
      rw [hperm.length_eq]
      exact Nat.succ.inj hn
    obtain ⟨hsort, hsorted⟩ := ih hlen hheap
    rw [binarySort, hpop, List.dropLast_concat, List.getLast?_concat, Option.toList_some]
    refine ⟨?_, List.pairwise_append.mpr ⟨hsorted, List.pairwise_singleton _ a, fun x hx y hy => ?_⟩⟩
    · exact (List.perm_append_singleton a _).trans ((hsort.trans hperm).cons a)
    · rw [List.mem_singleton.mp hy]
      exact h.front_max hlt (List.mem_cons_of_mem a (hperm.mem_iff.mp (hsort.mem_iff.mp hx)))

def binary : StdHeap α where
  push_heap lt v := siftUp lt v.length v (v.length - 1)
  pop_heap := binaryPop
  sort_heap lt v := binarySort lt v.length v
  push_perm lt v a _ _ := siftUp_perm
  push_isHeap lt v a hlt h := by
    rw [List.length_append, List.length_singleton, Nat.add_sub_cancel]
    exact siftUp_isHeap hlt (Nat.lt_succ_self _) (upReady_concat h)
  pop_spec lt a v hlt h := binaryPop_spec hlt h
  sort_perm lt v hlt h := (binarySort_spec hlt rfl h).1
  sort_sorted lt v hlt h := (binarySort_spec hlt rfl h).2

end StdHeap

end OpenVino
