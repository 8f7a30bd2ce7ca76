import Mathlib.Data.List.Nodup
import Mathlib.Data.Nat.Digits.Defs
import Mathlib.Tactic.Ring

/-!
# The low digits of a number

`digitAt b n i` is the digit of `n` at position `i` in base `b`. `lowDigits b left n` reads the digits from
position zero up; it stops before the first zero digit (`digitAt_length_lowDigits`) and after at most `left`
of them. The rest of the number is what these digits leave over (`ofDigits_lowDigits`), so they are the
whole number exactly if no digit above them is set (`ofDigits_lowDigits_eq_iff`).
-/

namespace OpenVino

def digitAt (b n i : Nat) : Nat := n / b ^ i % b

def lowDigits (b : Nat) : Nat → Nat → List Nat
  | 0, _ => []
  | left + 1, n => if n % b = 0 then [] else n % b :: lowDigits b left (n / b)

variable {b left n i j : Nat}

theorem digitAt_zero (b n : Nat) : digitAt b n 0 = n % b := by simp [digitAt]

theorem digitAt_succ (b n i : Nat) : digitAt b n (i + 1) = digitAt b (n / b) i := by
  unfold digitAt
  rw [Nat.div_div_eq_div_mul, ← pow_succ']

theorem digitAt_div_pow (b n i j : Nat) : digitAt b (n / b ^ i) j = digitAt b n (i + j) := by
  unfold digitAt
  rw [Nat.div_div_eq_div_mul, ← pow_add]

theorem eq_zero_of_digitAt (hb : 1 < b) (h : ∀ i, digitAt b n i = 0) : n = 0 := by
  induction n using Nat.strong_induction_on with
  | h n ih =>
    by_contra hne
    have hlow : n % b = 0 := digitAt_zero b n ▸ h 0
    have hhigh : n / b = 0 :=
      ih (n / b) (Nat.div_lt_self (Nat.pos_of_ne_zero hne) hb) fun i => digitAt_succ b n i ▸ h (i + 1)
    have hn := Nat.div_add_mod n b
    rw [hlow, hhigh] at hn
    exact hne (by simpa using hn.symm)

theorem length_lowDigits_le (b left n : Nat) : (lowDigits b left n).length ≤ left := by
  induction left generalizing n with
  | zero => simp [lowDigits]
  | succ left ih =>
    rw [lowDigits]
    split_ifs
    · simp
    · simpa using ih (n / b)

theorem getElem?_lowDigits (h : i < (lowDigits b left n).length) :
    (lowDigits b left n)[i]? = some (digitAt b n i) ∧ digitAt b n i ≠ 0 := by
  induction left generalizing n i with
  | zero => simp [lowDigits] at h
  | succ left ih =>
    rw [lowDigits] at h ⊢
    split_ifs at h ⊢ with hzero
    · simp at h
    · cases i with
      | zero => exact ⟨by simp [digitAt_zero], by rwa [digitAt_zero]⟩
      | succ i =>
        rw [digitAt_succ, List.getElem?_cons_succ]
        exact ih (by simpa using h)

theorem digitAt_length_lowDigits (h : (lowDigits b left n).length < left) :
    digitAt b n (lowDigits b left n).length = 0 := by
  induction left generalizing n with
  | zero => omega
  | succ left ih =>
    rw [lowDigits] at h ⊢
    split_ifs at h ⊢ with hzero
    · rwa [List.length_nil, digitAt_zero]
    · rw [List.length_cons, digitAt_succ]
      exact ih (by simpa using h)

theorem mem_lowDigits_iff {d : Nat} :
    d ∈ lowDigits b left n ↔ ∃ i < (lowDigits b left n).length, digitAt b n i = d := by
  rw [List.mem_iff_getElem?]
  constructor
  · rintro ⟨i, hi⟩
    obtain ⟨hlt, -⟩ := List.getElem?_eq_some_iff.mp hi
    rw [(getElem?_lowDigits hlt).1, Option.some.injEq] at hi
    exact ⟨i, hlt, hi⟩
  · rintro ⟨i, hi, rfl⟩
    exact ⟨i, (getElem?_lowDigits hi).1⟩

theorem nodup_lowDigits_iff :
    (lowDigits b left n).Nodup ↔
      ∀ i j, i < j → j < (lowDigits b left n).length → digitAt b n i ≠ digitAt b n j := by
  rw [List.nodup_iff_getElem?_ne_getElem?]
  refine forall₄_congr fun i j hij hj => ?_
  rw [(getElem?_lowDigits (hij.trans hj)).1, (getElem?_lowDigits hj).1, ne_eq, Option.some.injEq]

theorem ofDigits_lowDigits (b left n : Nat) :
    Nat.ofDigits b (lowDigits b left n) +
      b ^ (lowDigits b left n).length * (n / b ^ (lowDigits b left n).length) = n := by
  induction left generalizing n with
  | zero => simp [lowDigits]
  | succ left ih =>
    rw [lowDigits]
    split_ifs
    · simp
    · rw [Nat.ofDigits_cons, List.length_cons, pow_succ', ← Nat.div_div_eq_div_mul]
      have hn := Nat.mod_add_div n b
      have hrest := ih (n / b)
      calc _ = n % b + b * (Nat.ofDigits b (lowDigits b left (n / b)) +
            b ^ (lowDigits b left (n / b)).length * (n / b / b ^ (lowDigits b left (n / b)).length)) := by
              ring
        _ = n := by rw [hrest, hn]

/-- **The low digits are the number** exactly if no digit above them is set. -/
theorem ofDigits_lowDigits_eq_iff (hb : 1 < b) :
    Nat.ofDigits b (lowDigits b left n) = n ↔ ∀ i, (lowDigits b left n).length ≤ i → digitAt b n i = 0 := by
  have hsum := ofDigits_lowDigits b left n
  have hpow : 0 < b ^ (lowDigits b left n).length := Nat.pow_pos (by omega)
  constructor
  · intro h i hi
    have hrest : n / b ^ (lowDigits b left n).length = 0 := by
      rw [h] at hsum
      have hzero : b ^ (lowDigits b left n).length * (n / b ^ (lowDigits b left n).length) = 0 := by omega
      exact (Nat.mul_eq_zero.mp hzero).resolve_left hpow.ne'
    have hdigit := digitAt_div_pow b n (lowDigits b left n).length (i - (lowDigits b left n).length)
    rw [hrest, Nat.add_sub_cancel' hi] at hdigit
    rw [← hdigit]
    simp [digitAt]
  · intro h
    have hrest : n / b ^ (lowDigits b left n).length = 0 := by
      refine eq_zero_of_digitAt hb fun i => ?_
      rw [digitAt_div_pow]
      exact h _ (Nat.le_add_right _ _)
    rw [hrest] at hsum
    simpa using hsum

end OpenVino
