import OpenVino.InferenceEngine.AsyncRequest.FlightCalls

/-!
# The busy flag

`busyFlag_safe`: in every run whose steps meet `FlagCondition`, the flag is set as long as a task is queued
for its Infer stage or inside it, so that every call that looks at the flag is refused. Without the
condition it is not (`busyFlag_cleared`): a `Wait` that times out clears the flag of the task it has waited
for in vain.
-/

namespace OpenVino.InferenceEngine

namespace AsyncRequest

variable {ι : Type} {s t : AsyncRequest ι} {T : Nat}

/-- In the run of a task, up to the end of the Infer stage of `T`. -/
def ToInfer (T : Nat) : Thread → Prop
  | .running task .front => task = T
  | .running task .entered => task = T
  | .running _ (.switch copy) => copy = T
  | .running _ (.infer copy) => copy = T
  | .running _ (.inferred copy) => copy = T
  | _ => False

/-- `T` is queued for its stage 2, or inside it. -/
def InStage2 (s : AsyncRequest ι) (T : Nat) : Prop :=
  (s.task (.staged T)).stage = 2 ∧ ∃ e, T ∈ s.waiting e ∨ ToInfer T (s.thread e)

/-- Calls that look at the flag end with REQUEST_BUSY and change nothing. -/
def Refuses [DecidableEq ι] (s : AsyncRequest ι) : Prop :=
  ∀ c o (op : Operation), s.call c = op.entry → (∀ millis_timeout, op ≠ .wait millis_timeout) →
    s.next (.call c o) = some (s.goto c (.finished (.threw requestBusy)))

theorem refuses_of_busy [DecidableEq ι] (h : s.isRequestBusy = true) : s.Refuses := by
  intro c o op hc hwait
  cases op with
  | wait millis_timeout => exact absurd rfl (hwait millis_timeout)
  | startAsync => simp [next, callStep, hc, Operation.entry, startAsync, h]
  | infer => simp [next, callStep, hc, Operation.entry, infer, h]
  | setCompletionCallback callback => simp [next, callStep, hc, Operation.entry, setCompletionCallback, h]
  | access a => simp [next, callStep, hc, Operation.entry, access, h]

theorem Lands.not_toInfer {e : Executor} {th : Thread} (hl : s.Lands e th) : ¬ ToInfer T th := by
  intro h
  cases th with
  | idle => exact h
  | running task pt => cases pt <;> first | exact h.elim | exact hl.elim

theorem Quiet.not_inStage2 (hq : s.Quiet) : ¬ s.InStage2 T := by
  rintro ⟨-, e, h⟩
  obtain ⟨th, hr, hl⟩ := hq e
  rw [hr.waiting, hr.1] at h
  exact h.elim (by simp) hl.not_toInfer

/-- In flight, a task in stage 2 has not left its Infer stage. -/
theorem Flying.busy {T' : Nat} (hf : s.Flying T') (h : s.InStage2 T) : s.isRequestBusy = true := by
  obtain ⟨hstage, e, h⟩ := h
  have hends : ∀ {th}, s.Ends T' th → ¬ ToInfer T th := by
    intro th he
    rcases he with hl | rfl
    · exact hl.not_toInfer
    · exact id
  cases hf.place with
  | queued th th' busy has request lands callback lands' => exact busy
  | onRequest pt th' request at_ callback lands' =>
    cases e with
    | request =>
      rw [request.waiting, request.1] at h
      have hto := h.resolve_left (by simp)
      cases pt <;> first | exact hto.elim | exact at_.2 | exact at_.2.2
    | callback =>
      rw [callback.waiting, callback.1] at h
      exact h.elim (by simp) fun hto => absurd hto lands'.not_toInfer
  | landed th th' has request ends callback lands' =>
    cases e with
    | request =>
      rw [request.waiting, request.1] at h
      exact h.elim (by simp) fun hto => absurd hto (hends ends)
    | callback =>
      rw [callback.waiting, callback.1] at h
      rcases h with hmem | hto
      · rw [List.mem_singleton.mp hmem, has.1] at hstage
        cases hstage
      · exact absurd hto lands'.not_toInfer
  | onCallback pt th request ends callback at_ =>
    cases e with
    | request =>
      rw [request.waiting, request.1] at h
      exact h.elim (by simp) fun hto => absurd hto (hends ends)
    | callback =>
      rw [callback.waiting, callback.1] at h
      have hto := h.resolve_left (by simp)
      have hT : T = T' := by
        cases pt <;> first | exact hto.elim | exact at_.elim | exact hto.symm | exact hto.symm.trans at_.1
      rw [hT, at_.stage] at hstage
      cases hstage

theorem Inv.busy (hs : s.Inv) (h : s.InStage2 T) : s.isRequestBusy = true := by
  rcases hs.phase with ha | ⟨c, hh⟩ | ⟨T', hf⟩
  · exact absurd h ha.quiet.not_inStage2
  · exact hh.busy
  · exact hf.busy h

/-- **Busy-flag safety.** In every run whose steps meet `FlagCondition` the flag is set while a task is
queued for its Infer stage or inside it, and calls are refused. -/
theorem busyFlag_safe [DecidableEq ι] {m : CallbackManager}
    (hs : (requestSystem (created m) FlagCondition).Reachable s) (hT : s.InStage2 T) :
    s.isRequestBusy = true ∧ s.Refuses := by
  have hbusy := (reachable_inv (fun _ _ => id) hs).busy hT
  exact ⟨hbusy, refuses_of_busy hbusy⟩

/-- A callback is set. -/
def withCallback : CallbackManager := { callback := true, enabled := true, publicInterface := true }

/-- The call `op` of `c`, begun and taken `n` steps on. -/
def calls (c : Caller Unit) (op : Operation) (n : Nat) : List (Action Unit) :=
  .begin c op :: List.replicate n (.call c .returns)

def steps (e : Executor) (n : Nat) : List (Action Unit) := List.replicate n (.exec e .returns)

/-- The Infer of the first start throws, and the callback that is told so starts the request again. -/
def restartAfterError : List (Action Unit) :=
  calls (.client ()) .startAsync 7 ++ steps .request 4 ++ [.exec .request (.throws ⟨none, "Infer"⟩)] ++
    steps .request 10 ++ steps .callback 7 ++ calls (.callback .callback) .startAsync 7

theorem busyFlag_safe_restartAfterError : ∃ s : AsyncRequest Unit,
    perform FlagCondition (created withCallback) restartAfterError = some s ∧
      s.InStage2 1 ∧ s.isRequestBusy = true ∧ s.Refuses := by
  have hsome : (perform FlagCondition (created withCallback) restartAfterError).isSome := by decide
  obtain ⟨s, hs⟩ := Option.isSome_iff_exists.mp hsome
  have hT : s.InStage2 1 := by
    obtain rfl : _ = s := Option.some_inj.mp hs
    exact ⟨by decide, .request, .inl (by decide)⟩
  exact ⟨s, hs, hT, busyFlag_safe (reachable_of_perform (.init rfl) hs) hT⟩

/-- The client waits one millisecond for the task it has started, and the wait times out. -/
def waitTimesOut : List (Action Unit) :=
  calls (.client ()) .startAsync 7 ++ calls (.client ()) (.wait 1) 2 ++
    [.call (.client ()) .timesOut, .call (.client ()) .returns]

theorem busyFlag_cleared : ∃ s : AsyncRequest Unit,
    (requestSystem (created withCallback) fun _ _ => True).Reachable s ∧ s.InStage2 0 ∧ s.isRequestBusy = false := by
  have hsome : (perform (fun _ _ => True) (created withCallback) waitTimesOut).isSome := by decide
  obtain ⟨s, hs⟩ := Option.isSome_iff_exists.mp hsome
  refine ⟨s, reachable_of_perform (.init rfl) hs, ?_⟩
  obtain rfl : _ = s := Option.some_inj.mp hs
  exact ⟨⟨by decide, .request, .inl (by decide)⟩, by decide⟩

end AsyncRequest

end OpenVino.InferenceEngine
