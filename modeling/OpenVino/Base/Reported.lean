import OpenVino.Base.Exception

/-!
# Calls that return something good or throw

`ReportedOr Q x` says that the call returned a value with `Q` or threw an exception; what is undefined is neither.
A call that does nothing worse than throw can be peeled off in front of such a statement
(`OnlyThrows.reportedOr_bind_iff`).
-/

namespace OpenVino

variable {α β : Type} {Q : α → Prop}

def ReportedOr (Q : α → Prop) : Result α → Prop
  | .ok a => Q a
  | .error (.exception _) => True
  | .error _ => False

def OnlyThrows (x : Result α) : Prop := ReportedOr (fun _ => True) x

@[simp] theorem reportedOr_ok {a : α} : ReportedOr Q (.ok a) ↔ Q a := Iff.rfl

@[simp] theorem reportedOr_pure {a : α} : ReportedOr Q (pure a) ↔ Q a := Iff.rfl

@[simp] theorem reportedOr_throwException {m : String} : ReportedOr Q (throwException m) := trivial

theorem OnlyThrows.reportedOr_bind_iff {x : Result β} {f : β → Result α} (hx : OnlyThrows x) :
    ReportedOr Q (x >>= f) ↔ ∀ b, x = .ok b → ReportedOr Q (f b) := by
  cases x with
  | ok b => simp [bind, Except.bind]
  | error e =>
    cases e with
    | exception m => simp [bind, Except.bind, ReportedOr]
    | assertionFailed m => exact hx.elim
    | undefinedBehaviour m => exact hx.elim
    | outOfFuel => exact hx.elim

theorem OnlyThrows.bind {x : Result β} {f : β → Result α} (hx : OnlyThrows x) (hf : ∀ b, OnlyThrows (f b)) :
    OnlyThrows (x >>= f) :=
  hx.reportedOr_bind_iff.mpr fun b _ => hf b

theorem OnlyThrows.mapM {f : β → Result α} {l : List β} (hf : ∀ b, OnlyThrows (f b)) : OnlyThrows (l.mapM f) := by
  induction l with
  | nil => exact trivial
  | cons b l ih =>
    rw [List.mapM_cons]
    exact (hf b).bind fun a => ih.bind fun as => trivial

theorem exists_of_mapM_error {f : β → Result α} {l : List β} {e : IEException} (h : l.mapM f = .error e) :
    ∃ b ∈ l, f b = .error e := by
  by_contra hno
  push Not at hno
  induction l with
  | nil => cases h
  | cons b l ih =>
    rw [List.mapM_cons] at h
    cases hb : f b with
    | error e' =>
      rw [hb] at h
      exact hno b List.mem_cons_self (hb.trans (by simpa [bind, Except.bind] using h))
    | ok a =>
      rw [hb] at h
      cases hl : l.mapM f with
      | error e' =>
        rw [hl] at h
        exact ih (hl.trans (by simpa [bind, Except.bind] using h)) fun b' hb' => hno b' (List.mem_cons_of_mem b hb')
      | ok as =>
        rw [hl] at h
        cases h

/-- A loop with a round that always throws, in which no other round throws anything else. -/
theorem foldlM_error_of_mem {f : β → α → Result β} {l : List α} {b : β} {x : α} {e : IEException}
    (hround : ∀ y ∈ l, (∀ s, f s y = .error e) ∨ ∀ s, ∃ s', f s y = .ok s') (hx : x ∈ l)
    (hthrow : ∀ s, f s x = .error e) : l.foldlM f b = .error e := by
  induction l generalizing b with
  | nil => exact absurd hx List.not_mem_nil
  | cons y l ih =>
    rw [List.foldlM_cons]
    rcases hround y List.mem_cons_self with hy | hy
    · rw [hy]
      rfl
    · obtain ⟨s, hs⟩ := hy b
      have hmem : x ∈ l := by
        rcases List.mem_cons.mp hx with rfl | hmem
        · exact absurd ((hthrow b).symm.trans hs) (by simp)
        · exact hmem
      rw [hs, ok_bind, ih (fun z hz => hround z (List.mem_cons_of_mem y hz)) hmem]

end OpenVino
