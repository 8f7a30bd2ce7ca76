import Mathlib

/-!
# Mixed radix numbers

`decode D k` is the number `k` in the radices `D`, the last digit varying fastest, and `box D` is the list of
all tuples below `D` in row-major order: it lists the numbers below `D.prod` in their order
(`box_eq_map_decode`). `encode D` is the way back (`decode_encode`).

A family of numbers can share one list of radices: each entry of the list takes the next digit of one member,
and `splitDigits` gives the digits and what is left of the members. The two together determine the family
(`splitDigits_injective`), and a member below the product of its own radices leaves nothing
(`splitDigits_rest`).
-/

namespace OpenVino

variable {D ds : List Nat} {k m : Nat}

def decode : List Nat → Nat → List Nat
  | [], _ => []
  | X :: D, k => k / D.prod % X :: decode D k

/-- The index tuples of a box, in row-major order. -/
def box : List Nat → List (List Nat)
  | [] => [[]]
  | X :: D => (List.range X).flatMap fun x => (box D).map (x :: ·)

/-- The digits of `k` do not depend on what is above them. -/
theorem decode_mul_add : decode D (m * D.prod + k) = decode D k := by
  induction D generalizing m with
  | nil => rfl
  | cons X D ih =>
    rw [decode, decode, List.prod_cons]
    congr 1
    · by_cases hD : D.prod = 0
      · simp [hD]
      · rw [← Nat.mul_assoc, Nat.add_comm, Nat.add_mul_div_right _ _ (Nat.pos_of_ne_zero hD), Nat.add_mul_mod_self_right]
    · rw [← Nat.mul_assoc]
      exact ih

theorem length_decode : (decode D k).length = D.length := by
  induction D with
  | nil => rfl
  | cons X D ih => rw [decode, List.length_cons, List.length_cons, ih]

theorem decode_zero : decode D 0 = List.replicate D.length 0 := by
  induction D with
  | nil => rfl
  | cons X D ih => rw [decode, ih, Nat.zero_div, Nat.zero_mod, List.length_cons, List.replicate_succ]

/-- The last digit is split off. -/
theorem decode_append {X : Nat} : decode (D ++ [X]) k = decode D (k / X) ++ [k % X] := by
  induction D with
  | nil => rw [List.nil_append, decode, decode, decode, List.prod_nil, Nat.div_one, List.nil_append]
  | cons Y D ih =>
    rw [List.cons_append, decode, decode, ih, List.cons_append, List.prod_append, List.prod_singleton, Nat.mul_comm,
      ← Nat.div_div_eq_div_mul]

theorem range_mul {n p : Nat} : List.range (n * p) = (List.range n).flatMap fun x => (List.range p).map (x * p + ·) := by
  induction n with
  | zero => simp
  | succ n ih =>
    rw [Nat.succ_mul, List.range_add, List.range_succ, List.flatMap_append, ih]
    simp

theorem box_eq_map_decode : box D = (List.range D.prod).map (decode D) := by
  induction D with
  | nil => rfl
  | cons X D ih =>
    rw [box, ih, List.prod_cons, range_mul, List.map_flatMap]
    apply List.flatMap_congr
    intro x hx
    rw [List.map_map, List.map_map]
    apply List.map_congr_left
    intro j hj
    have hj := List.mem_range.mp hj
    have hdiv : (x * D.prod + j) / D.prod = x := by
      rw [Nat.add_comm, Nat.add_mul_div_right _ _ (by omega), Nat.div_eq_of_lt hj, Nat.zero_add]
    change x :: decode D j = (x * D.prod + j) / D.prod % X :: decode D (x * D.prod + j)
    rw [hdiv, Nat.mod_eq_of_lt (List.mem_range.mp hx), decode_mul_add]

theorem length_box : (box D).length = D.prod := by
  rw [box_eq_map_decode, List.length_map, List.length_range]

theorem mem_box : ds ∈ box D ↔ List.Forall₂ (· < ·) ds D := by
  induction D generalizing ds with
  | nil => simp [box]
  | cons X D ih => cases ds <;> simp [box, ih]

theorem nodup_box : (box D).Nodup := by
  induction D with
  | nil => simp [box]
  | cons X D ih =>
    rw [box, List.nodup_flatMap]
    refine ⟨fun x _ => ih.map fun _ _ h => (List.cons.inj h).2, ?_⟩
    refine List.nodup_range.imp fun {x y} hxy => ?_
    rw [Function.onFun, List.disjoint_left]
    intro ds hx hy
    obtain ⟨_, -, rfl⟩ := List.mem_map.mp hx
    obtain ⟨_, -, h⟩ := List.mem_map.mp hy
    exact hxy (List.cons.inj h).1.symm

theorem decode_mem_box (h : k < D.prod) : decode D k ∈ box D := by
  rw [box_eq_map_decode]
  exact List.mem_map_of_mem (List.mem_range.mpr h)

theorem origin_mem_box (h : ∀ X ∈ D, 0 < X) : List.replicate D.length 0 ∈ box D := by
  rw [mem_box, List.forall₂_iff_get]
  refine ⟨List.length_replicate, fun i _ hi => ?_⟩
  rw [List.get_eq_getElem, List.getElem_replicate]
  exact h _ (List.get_mem D ⟨i, hi⟩)

theorem axis_mem_box {i x : Nat} (h : ∀ X ∈ D, 0 < X) (hx : x < D.getD i 0) :
    (List.replicate D.length 0).set i x ∈ box D := by
  rw [mem_box, List.forall₂_iff_get]
  refine ⟨by simp, fun j hj hjd => ?_⟩
  rw [List.get_eq_getElem, List.get_eq_getElem, List.getElem_set]
  split_ifs with hij
  · subst hij
    rwa [List.getD_eq_getElem _ _ hjd] at hx
  · rw [List.getElem_replicate]
    exact h _ (List.getElem_mem hjd)

/-! ### The number of a tuple -/

def encode : List Nat → List Nat → Nat
  | _ :: D, d :: ds => d * D.prod + encode D ds
  | _, _ => 0

theorem encode_lt (h : List.Forall₂ (· < ·) ds D) : encode D ds < D.prod := by
  induction h with
  | nil => simp [encode]
  | @cons d X ds D hd _ ih =>
    have hmul : (d + 1) * D.prod ≤ X * D.prod := Nat.mul_le_mul_right _ hd
    rw [Nat.succ_mul] at hmul
    rw [encode, List.prod_cons]
    omega

theorem prod_pos_of_lt (h : List.Forall₂ (· < ·) ds D) : 0 < D.prod := (Nat.zero_le _).trans_lt (encode_lt h)

/-- The digits give the number back, up to what does not fit in them. -/
theorem encode_decode : encode D (decode D k) = k % D.prod := by
  induction D with
  | nil => rw [List.prod_nil, Nat.mod_one]; rfl
  | cons X D ih => rw [decode, encode, ih, List.prod_cons, Nat.mul_comm X, Nat.mod_mul, Nat.add_comm, Nat.mul_comm]

theorem decode_encode (h : List.Forall₂ (· < ·) ds D) : decode D (encode D ds) = ds := by
  induction h with
  | nil => rfl
  | @cons d X ds D hd hds ih =>
    have hlt := encode_lt hds
    have hdiv : (d * D.prod + encode D ds) / D.prod = d := by
      rw [Nat.add_comm, Nat.add_mul_div_right _ _ (by omega), Nat.div_eq_of_lt hlt, Nat.zero_add]
    rw [encode, decode, hdiv, Nat.mod_eq_of_lt hd, decode_mul_add, ih]

/-! ### Digits of several numbers -/

section Split

variable {ι : Type} [DecidableEq ι] {l : List (ι × Nat)} {v w : ι → Nat}

/-- The digits are taken from the end of the list on. -/
def splitDigits : List (ι × Nat) → (ι → Nat) → List Nat × (ι → Nat)
  | [], v => ([], v)
  | (i, b) :: l, v =>
    let r := splitDigits l v
    (r.2 i % b :: r.1, Function.update r.2 i (r.2 i / b))

/-- The product of the radices of one member. -/
def blockSize (l : List (ι × Nat)) (i : ι) : Nat := ((l.filter (·.1 = i)).map Prod.snd).prod

theorem blockSize_cons_self {i : ι} {b : Nat} : blockSize ((i, b) :: l) i = b * blockSize l i := by
  simp [blockSize]

theorem blockSize_cons_of_ne {i j : ι} {b : Nat} (h : i ≠ j) : blockSize ((i, b) :: l) j = blockSize l j := by
  simp [blockSize, h]

theorem blockSize_pos {i : ι} (hpos : ∀ p ∈ l, 0 < p.2) : 0 < blockSize l i := by
  apply Nat.pos_of_ne_zero
  apply List.prod_ne_zero
  intro h
  obtain ⟨p, hp, hp0⟩ := List.mem_map.mp h
  exact (hpos p (List.mem_of_mem_filter hp)).ne' hp0

theorem splitDigits_rest (i : ι) : (splitDigits l v).2 i = v i / blockSize l i := by
  induction l with
  | nil => simp [splitDigits, blockSize]
  | cons p l ih =>
    obtain ⟨j, b⟩ := p
    simp only [splitDigits]
    by_cases hij : j = i
    · subst hij
      rw [Function.update_self, ih, blockSize_cons_self, Nat.div_div_eq_div_mul, Nat.mul_comm]
    · rw [Function.update_of_ne (Ne.symm hij), ih, blockSize_cons_of_ne hij]

theorem splitDigits_lt (hpos : ∀ p ∈ l, 0 < p.2) :
    List.Forall₂ (· < ·) (splitDigits l v).1 (l.map Prod.snd) := by
  induction l with
  | nil => exact .nil
  | cons p l ih =>
    obtain ⟨i, b⟩ := p
    rw [splitDigits, List.map_cons]
    exact .cons (Nat.mod_lt _ (hpos (i, b) List.mem_cons_self)) (ih fun q hq => hpos q (List.mem_cons_of_mem _ hq))

/-- Each step can be undone: a digit and the quotient give the number back. -/
theorem splitDigits_injective (h : splitDigits l v = splitDigits l w) : v = w := by
  induction l with
  | nil => exact (Prod.mk.inj h).2
  | cons p l ih =>
    obtain ⟨i, b⟩ := p
    rw [splitDigits, splitDigits, Prod.mk.injEq, List.cons.injEq] at h
    obtain ⟨⟨hmod, hdigits⟩, hrest⟩ := h
    apply ih
    refine Prod.ext hdigits ?_
    funext j
    have hj := congrFun hrest j
    by_cases hij : j = i
    · subst hij
      rw [Function.update_self, Function.update_self] at hj
      rw [← Nat.div_add_mod ((splitDigits l v).2 j) b, hj, hmod, Nat.div_add_mod]
    · rw [Function.update_of_ne hij, Function.update_of_ne hij] at hj
      exact hj

/-- What is below its own radices is read back from the digits. -/
theorem eq_of_digits_eq (hv : ∀ i, v i < blockSize l i) (hw : ∀ i, w i < blockSize l i)
    (h : (splitDigits l v).1 = (splitDigits l w).1) : v = w := by
  apply splitDigits_injective (l := l)
  refine Prod.ext h ?_
  funext i
  rw [splitDigits_rest, splitDigits_rest, Nat.div_eq_of_lt (hv i), Nat.div_eq_of_lt (hw i)]

theorem blockSize_of_not_mem {i : ι} (h : i ∉ l.map Prod.fst) : blockSize l i = 1 := by
  have hnil : l.filter (·.1 = i) = [] := by
    rw [List.filter_eq_nil_iff]
    intro p hp hpi
    exact h (List.mem_map.mpr ⟨p, hp, of_decide_eq_true hpi⟩)
  rw [blockSize, hnil, List.map_nil, List.prod_nil]

/-- When each member has one radix, above it, the digits are the members. -/
theorem splitDigits_of_nodup (hnodup : (l.map Prod.fst).Nodup) (hlt : ∀ p ∈ l, v p.1 < p.2) :
    (splitDigits l v).1 = l.map fun p => v p.1 := by
  induction l with
  | nil => rfl
  | cons p l ih =>
    obtain ⟨i, b⟩ := p
    obtain ⟨hi, hnodup⟩ := List.nodup_cons.mp hnodup
    have hib : v i < b := hlt (i, b) List.mem_cons_self
    rw [splitDigits, ih hnodup fun q hq => hlt q (List.mem_cons_of_mem _ hq), splitDigits_rest,
      blockSize_of_not_mem hi, Nat.div_one, Nat.mod_eq_of_lt hib, List.map_cons]

theorem splitDigits_zero : (splitDigits l (0 : ι → Nat)).1 = List.replicate l.length 0 := by
  induction l with
  | nil => rfl
  | cons p l ih =>
    rw [splitDigits, ih, splitDigits_rest, Pi.zero_apply, Nat.zero_div, Nat.zero_mod, List.length_cons,
      List.replicate_succ]

/-- A multiple of the radices of a member has the digits of zero. -/
theorem splitDigits_mul_blockSize {i : ι} {m : Nat} (hpos : ∀ p ∈ l, 0 < p.2) :
    (splitDigits l (Function.update 0 i (m * blockSize l i))).1 = List.replicate l.length 0 := by
  induction l generalizing m with
  | nil => rfl
  | cons p l ih =>
    obtain ⟨j, b⟩ := p
    have hposl : ∀ q ∈ l, 0 < q.2 := fun q hq => hpos q (List.mem_cons_of_mem _ hq)
    rw [splitDigits, splitDigits_rest, List.length_cons, List.replicate_succ]
    by_cases hij : j = i
    · subst hij
      rw [blockSize_cons_self, ← Nat.mul_assoc, ih hposl, Function.update_self,
        Nat.mul_div_cancel _ (blockSize_pos hposl), Nat.mul_mod_left]
    · rw [blockSize_cons_of_ne hij, ih hposl, Function.update_of_ne hij, Pi.zero_apply, Nat.zero_div, Nat.zero_mod]

end Split

end OpenVino
