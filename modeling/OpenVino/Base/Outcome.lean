import Mathlib.Tactic.Basic

/-!
# What a call may end with

`Ends bad x P` says of a call that may throw: it does not throw an error of `bad`, and what it returns satisfies
`P`. Other errors are allowed. There is one rule for each way to put calls together; `Ends.foldlM` is the
rule of loops.
-/

namespace OpenVino

variable {ε α β : Type} {bad : ε → Prop} {x : Except ε α} {f : α → Except ε β} {P Q : α → Prop} {R : β → Prop}

def Ends (bad : ε → Prop) : Except ε α → (α → Prop) → Prop
  | .ok a, P => P a
  | .error e, _ => ¬ bad e

theorem Ends.pure {a : α} (h : P a) : Ends bad (pure a) P := h

theorem Ends.of_ok {a : α} (h : Ends bad x P) (hx : x = .ok a) : P a := by
  rw [hx] at h
  exact h

theorem Ends.ne_error {e : ε} (h : Ends bad x P) (he : bad e) : x ≠ .error e := by
  intro hx
  rw [hx] at h
  exact h he

theorem Ends.mono (h : Ends bad x P) (hPQ : ∀ a, P a → Q a) : Ends bad x Q := by
  cases x with
  | ok a => exact hPQ a h
  | error e => exact h

theorem Ends.bind (h : Ends bad x P) (hf : ∀ a, P a → Ends bad (f a) R) : Ends bad (x >>= f) R := by
  cases x with
  | ok a => exact hf a h
  | error e => exact h

/-- What is known of the value besides what the call says of it. -/
theorem Ends.and_eq (h : Ends bad x P) : Ends bad x fun a => P a ∧ x = .ok a := by
  cases x with
  | ok a => exact ⟨h, rfl⟩
  | error e => exact h

theorem Ends.ite {c : Prop} [Decidable c] {y : Except ε α} (hx : c → Ends bad x P) (hy : ¬ c → Ends bad y P) :
    Ends bad (if c then x else y) P := by
  by_cases hc : c
  · rw [if_pos hc]
    exact hx hc
  · rw [if_neg hc]
    exact hy hc

theorem Ends.foldlM {I : β → Prop} {g : β → α → Except ε β} {l : List α} {b : β} (h₀ : I b)
    (hstep : ∀ b, ∀ a ∈ l, I b → Ends bad (g b a) I) : Ends bad (l.foldlM g b) I := by
  induction l generalizing b with
  | nil => exact h₀
  | cons a l ih =>
    rw [List.foldlM_cons]
    refine (hstep b a List.mem_cons_self h₀).bind fun b' hb' => ih hb' ?_
    exact fun b a ha => hstep b a (List.mem_cons_of_mem _ ha)

end OpenVino
