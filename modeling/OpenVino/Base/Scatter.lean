import Mathlib
import OpenVino.Base.Exception

/-!
# Loops that place elements

A relayout writes `val i` at the place `tgt i` for each index `i` of its loops. Where the places of different indices
differ, each of them holds its own element afterwards, and every other place what was there (`Scattered.foldlM`). The
places are mixed radix numbers, which `digits_inj` takes apart.
-/

namespace OpenVino

variable {α ι : Type}

/-- `dst[i] = x`, through a pointer to the elements `dst`. -/
def writeAt (expression : String) (dst : List α) (i : Nat) (x : α) : Result (List α) :=
  if i < dst.length then .ok (dst.set i x) else .error (.undefinedBehaviour expression)

theorem writeAt_ok {e : String} {dst : List α} {i : Nat} (h : i < dst.length) (x : α) :
    writeAt e dst i x = .ok (dst.set i x) := if_pos h

/-- The elements of `done` are at their places, and the rest is that of `zs`. -/
structure Scattered (zs : List α) (tgt : ι → Nat) (val : ι → α) (done : List ι) (out : List α) : Prop where
  length : out.length = zs.length
  placed : ∀ i ∈ done, out[tgt i]? = some (val i)
  kept : ∀ j, (∀ i ∈ done, tgt i ≠ j) → out[j]? = zs[j]?

namespace Scattered

variable {zs out : List α} {tgt : ι → Nat} {val : ι → α} {done l : List ι}

theorem start (zs : List α) (tgt : ι → Nat) (val : ι → α) : Scattered zs tgt val [] zs :=
  ⟨rfl, fun _ h => absurd h List.not_mem_nil, fun _ _ => rfl⟩

theorem set {i : ι} (h : Scattered zs tgt val done out) (hlt : tgt i < zs.length)
    (hinj : ∀ j ∈ done, tgt j = tgt i → j = i) :
    Scattered zs tgt val (done ++ [i]) (out.set (tgt i) (val i)) := by
  refine ⟨by rw [List.length_set, h.length], fun j hj => ?_, fun k hk => ?_⟩
  · rcases List.mem_append.mp hj with hj | hj
    · by_cases heq : tgt j = tgt i
      · rw [hinj j hj heq, List.getElem?_set_self (by rwa [h.length])]
      · rw [List.getElem?_set_ne (Ne.symm heq), h.placed j hj]
    · rw [List.mem_singleton.mp hj, List.getElem?_set_self (by rwa [h.length])]
  · have hne : tgt i ≠ k := hk i (List.mem_append_right _ (List.mem_singleton_self i))
    rw [List.getElem?_set_ne hne, h.kept k fun j hj => hk j (List.mem_append_left _ hj)]

/-- A loop each of whose rounds writes the element of its index. -/
theorem foldlM {f : List α → ι → Result (List α)} (hinj : ∀ i ∈ l, ∀ j ∈ l, tgt i = tgt j → i = j)
    (hlt : ∀ i ∈ l, tgt i < zs.length)
    (hf : ∀ i ∈ l, ∀ dst, dst.length = zs.length → f dst i = .ok (dst.set (tgt i) (val i))) :
    ∃ out, l.foldlM f zs = .ok out ∧ Scattered zs tgt val l out := by
  refine exists_foldlM_ok (start zs tgt val) fun pre i post dst hl hpre => ?_
  have hi : i ∈ l := by
    rw [hl]
    exact List.mem_append_right _ List.mem_cons_self
  refine ⟨_, hf i hi dst hpre.length, hpre.set (hlt i hi) fun j hj => hinj j ?_ i hi⟩
  rw [hl]
  exact List.mem_append_left _ hj

end Scattered

/-! ### Four nested loops -/

/-- The indices of four nested loops, in their order. -/
def loopIndices (a b c d : Nat) : List (Nat × Nat × Nat × Nat) :=
  (List.range a).flatMap fun i => (List.range b).flatMap fun j =>
    (List.range c).flatMap fun k => (List.range d).map fun l => (i, j, k, l)

theorem mem_loopIndices {a b c d : Nat} {i : Nat × Nat × Nat × Nat} :
    i ∈ loopIndices a b c d ↔ i.1 < a ∧ i.2.1 < b ∧ i.2.2.1 < c ∧ i.2.2.2 < d := by
  obtain ⟨i, j, k, l⟩ := i
  simp only [loopIndices, List.mem_flatMap, List.mem_map, List.mem_range, Prod.mk.injEq]
  constructor
  · rintro ⟨i', hi, j', hj, k', hk, l', hl, rfl, rfl, rfl, rfl⟩
    exact ⟨hi, hj, hk, hl⟩
  · rintro ⟨hi, hj, hk, hl⟩
    exact ⟨i, hi, j, hj, k, hk, l, hl, rfl, rfl, rfl, rfl⟩

theorem foldlM_loopIndices {σ : Type} (f : Nat → Nat → Nat → σ → Nat → Result σ) (a b c d : Nat) (s : σ) :
    (loopIndices a b c d).foldlM (fun s i => f i.1 i.2.1 i.2.2.1 s i.2.2.2) s =
      (List.range a).foldlM (fun s i => (List.range b).foldlM (fun s j => (List.range c).foldlM (fun s k =>
        (List.range d).foldlM (f i j k) s) s) s) s := by
  simp only [loopIndices, foldlM_flatMap, List.foldlM_map]

/-! ### Digits -/

theorem digits_inj {n a a' b b' : Nat} (ha : a < n) (ha' : a' < n) (h : a + n * b = a' + n * b') : a = a' ∧ b = b' := by
  have hpos : 0 < n := by omega
  have hmod := congrArg (· % n) h
  have hdiv := congrArg (· / n) h
  simp only [Nat.add_mul_mod_self_left, Nat.mod_eq_of_lt ha, Nat.mod_eq_of_lt ha'] at hmod
  simp only [Nat.add_mul_div_left _ _ hpos, Nat.div_eq_of_lt ha, Nat.div_eq_of_lt ha', Nat.zero_add] at hdiv
  exact ⟨hmod, hdiv⟩

theorem digits_lt {n m a b : Nat} (ha : a < n) (hb : b < m) : a + n * b < n * m := by
  have hle : n * (b + 1) ≤ n * m := Nat.mul_le_mul_left n hb
  rw [Nat.mul_succ] at hle
  omega

end OpenVino
