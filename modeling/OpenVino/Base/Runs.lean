import Mathlib.Logic.Relation

/-!
# Runs of a transition system

A `System` is a set of initial states and a step relation; a state is `Reachable` when a run of steps
leads to it. `Reachable.induct` is the one induction over runs: a property that holds initially and that
every step from a reachable state keeps holds of every reachable state.
`System.ofActions` takes its steps from a function on actions, and `System.perform` runs a list of them.
-/

namespace OpenVino

open Relation

structure System (σ : Type*) where
  init : σ → Prop
  step : σ → σ → Prop

namespace System

variable {σ : Type*} {S : System σ} {I : σ → Prop} {s t : σ}

def Reachable (S : System σ) (s : σ) : Prop := ∃ s₀, S.init s₀ ∧ ReflTransGen S.step s₀ s

theorem Reachable.init (h : S.init s) : S.Reachable s := ⟨s, h, .refl⟩

theorem Reachable.step (h : S.Reachable s) (hst : S.step s t) : S.Reachable t := by
  obtain ⟨s₀, h₀, hrun⟩ := h
  exact ⟨s₀, h₀, hrun.tail hst⟩

theorem Reachable.induct (h₀ : ∀ s, S.init s → I s)
    (hstep : ∀ s t, S.Reachable s → I s → S.step s t → I t) (h : S.Reachable s) : I s := by
  obtain ⟨s₀, hinit, hrun⟩ := h
  induction hrun with
  | refl => exact h₀ _ hinit
  | tail hpre hst ih => exact hstep _ _ ⟨s₀, hinit, hpre⟩ ih hst

variable {α : Type*} {next : σ → α → Option σ} {allowed : σ → α → Prop} {s₀ : σ}

/-- The runs that start at `s₀` and take only the actions that `allowed` lets pass. -/
def ofActions (next : σ → α → Option σ) (allowed : σ → α → Prop) (s₀ : σ) : System σ where
  init s := s = s₀
  step s t := ∃ a, allowed s a ∧ next s a = some t

/-- The state after the actions `as`, if each of them is allowed and can be taken. -/
def perform (next : σ → α → Option σ) (allowed : σ → α → Prop) [∀ s a, Decidable (allowed s a)] (s : σ) :
    List α → Option σ
  | [] => some s
  | a :: as => if allowed s a then (next s a).bind (perform next allowed · as) else none

theorem reachable_of_perform [∀ s a, Decidable (allowed s a)] {as : List α}
    (hs : (ofActions next allowed s₀).Reachable s) (h : perform next allowed s as = some t) :
    (ofActions next allowed s₀).Reachable t := by
  induction as generalizing s with
  | nil =>
    rw [← Option.some_inj.mp h]
    exact hs
  | cons a as ih =>
    rw [perform] at h
    by_cases ha : allowed s a
    · rw [if_pos ha] at h
      obtain ⟨s', hnext, hrest⟩ := Option.bind_eq_some_iff.mp h
      exact ih (hs.step ⟨a, ha, hnext⟩) hrest
    · rw [if_neg ha] at h
      cases h

end System

end OpenVino
