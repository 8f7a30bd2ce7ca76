import OpenVino.HeteroPlugin.ChainCallbacks

/-!
# What the chain has told the user

`outcome log run` is the status of the first sub-request that has failed in a run, or `OK`. `Log` is kept by
every step that meets `ChainCondition` (`next_log`): a sub-request is started when the one before it has
completed with `OK`, and the calls of the user's callback, with those still owed, are the outcomes of the
runs that are over, in their order.
-/

namespace OpenVino.HeteroPlugin

open InferenceEngine (StatusCode Ending requestBusy)

/-! ### Outcomes -/

def failureOf (run : Nat) : Event → Option StatusCode
  | .completed run' _ sts => if run' = run ∧ sts ≠ .OK then some sts else none
  | .started _ _ => none

/-- The status of the first sub-request that has failed in the run, or `OK`. -/
def outcome (log : List Event) (run : Nat) : StatusCode := ((log.filterMap (failureOf run)).head?).getD .OK

/-- The outcomes of the first `k` runs. -/
def results (log : List Event) (k : Nat) : List (Nat × StatusCode) := (List.range k).map fun run => (run, outcome log run)

/-- A sub-request is started when the one before it has completed with `OK` in the same run. -/
def Ordered (log : List Event) : Prop :=
  ∀ l₁ l₂ run i, log = l₁ ++ .started run (i + 1) :: l₂ → .completed run i .OK ∈ l₁

section Outcome

variable {log : List Event} {run k i : Nat} {sts : StatusCode} {e : Event}

theorem results_succ : results log (k + 1) = results log k ++ [(k, outcome log k)] := by
  simp [results, List.range_succ]

theorem outcome_append (h : failureOf run e = none) : outcome (log ++ [e]) run = outcome log run := by
  simp [outcome, List.filterMap_append, h]

theorem results_append (h : ∀ run, run < k → failureOf run e = none) : results (log ++ [e]) k = results log k := by
  apply List.map_congr_left
  intro run hrun
  rw [outcome_append (h run (List.mem_range.mp hrun))]

theorem failureOf_started : failureOf run (.started k i) = none := rfl

theorem failureOf_completed_ne (h : k ≠ run) : failureOf run (.completed k i sts) = none := by
  simp [failureOf, h]

theorem no_failure_of_outcome (h : outcome log run = .OK) : log.filterMap (failureOf run) = [] := by
  cases hlist : log.filterMap (failureOf run) with
  | nil => rfl
  | cons sts rest =>
    -- what is in the list has failed
    have hmem : sts ∈ log.filterMap (failureOf run) := by simp [hlist]
    obtain ⟨e, -, he⟩ := List.mem_filterMap.mp hmem
    rw [outcome, hlist, List.head?_cons, Option.getD_some] at h
    cases e with
    | started k i => cases he
    | completed k i sts' =>
      simp only [failureOf] at he
      split_ifs at he with hfail
      exact absurd ((Option.some_inj.mp he).trans h) hfail.2

theorem outcome_completed (h : outcome log run = .OK) : outcome (log ++ [.completed run i sts]) run = sts := by
  rw [outcome, List.filterMap_append, no_failure_of_outcome h]
  by_cases hok : sts = .OK
  · simp [failureOf, hok]
  · simp [failureOf, hok]

theorem outcome_of_none (h : ∀ i sts, .completed run i sts ∉ log) : outcome log run = .OK := by
  have hnone : log.filterMap (failureOf run) = [] := by
    rw [List.filterMap_eq_nil_iff]
    intro e he
    cases e with
    | started k i => rfl
    | completed k i sts =>
      apply failureOf_completed_ne
      rintro rfl
      exact h i sts he
  rw [outcome, hnone]
  rfl

theorem Ordered.append (h : Ordered log) (he : ∀ run i, e = .started run (i + 1) → .completed run i .OK ∈ log) :
    Ordered (log ++ [e]) := by
  intro l₁ l₂ run i heq
  rcases List.append_eq_append_iff.mp heq with ⟨m, rfl, hm⟩ | ⟨m, rfl, hm⟩
  · cases m with
    | nil =>
      rw [List.append_nil]
      exact he run i (List.cons.inj hm).1
    | cons e' m => simp at hm
  · cases m with
    | nil =>
      rw [List.append_nil] at he
      exact he run i (List.cons.inj hm).1.symm
    | cons e' m => exact h l₁ m run i (by rw [(List.cons.inj hm).1])

end Outcome

/-- The status that the callback of a sub-request has not looked at yet. -/
def SubRequest.pending (r : SubRequest) : StatusCode :=
  match r.thread with
  | some ⟨_, sts, .entry⟩ => sts
  | _ => .OK

theorem SubRequest.pending_eq_ok {r : SubRequest} (h : ∀ th, r.thread = some th → th.at_ ≠ .entry) :
    r.pending = .OK := by
  unfold pending
  split
  · rename_i heq
    exact absurd rfl (h _ heq)
  · rfl

namespace HeteroAsyncInferRequest

variable {ι : Type} {s t : HeteroAsyncInferRequest ι} {c : Caller ι} {i j run : Nat} {o : Choice}
  {sts : StatusCode} {th : CallbackThread}

/-- The calls of the user's callback that the last callback has yet to make. -/
def owed (s : HeteroAsyncInferRequest ι) : List (Nat × StatusCode) :=
  match (s.request (s.size - 1)).thread with
  | some ⟨run, sts, .set_requestStatus⟩ => [(run, sts)]
  | some ⟨run, _, .runCallback⟩ => [(run, s.requestStatus)]
  | _ => []

/-- `k` runs are over, and the next one, if there is one, is at a sub-request. -/
def Landed (s : HeteroAsyncInferRequest ι) (k : Nat) : Prop :=
  (k = s.started ∧ ∀ j, (s.request j).Rests) ∨
    (k + 1 = s.started ∧ ∃ i, (s.request i).InFlight k ∧ outcome s.log k = (s.request i).pending)

structure Log (s : HeteroAsyncInferRequest ι) : Prop where
  callback : s.callback = true
  ordered : Ordered s.log
  seen : ∀ i th, (s.request i).thread = some th → th.at_ = .entry → .completed th.run i th.sts ∈ s.log
  below : ∀ run i sts, .completed run i sts ∈ s.log → run < s.started
  calls : ∃ k, s.Landed k ∧ s.callbacks ++ s.owed = results s.log k

/-- The fields that `Log` does not speak of. -/
theorem Log.of_eq (hl : s.Log) (hcallback : t.callback = s.callback) (hsize : t.size = s.size)
    (hreq : t.request = s.request) (hstatus : t.requestStatus = s.requestStatus) (hstarted : t.started = s.started)
    (hlog : t.log = s.log) (hcalls : t.callbacks = s.callbacks) : t.Log := by
  obtain ⟨k, hk, hresults⟩ := hl.calls
  refine ⟨hcallback ▸ hl.callback, hlog ▸ hl.ordered, ?_, ?_, k, ?_, ?_⟩
  · rw [hreq, hlog]
    exact hl.seen
  · rw [hlog, hstarted]
    exact hl.below
  · unfold Landed
    rw [hreq, hlog, hstarted]
    exact hk
  · unfold owed
    rw [hreq, hlog, hsize, hstatus, hcalls]
    exact hresults

/-- A `StartAsync` is accepted: there is one run more. -/
theorem startFirst_log {r : SubRequest} (hl : s.Log) (hrests : ∀ j, (s.request j).Rests)
    (hr : r = { s.request 0 with inference := .running s.started })
    (ht : t = { (s.note (.started s.started 0)).setRequest 0 r with started := s.started + 1, call := t.call }) :
    t.Log := by
  obtain ⟨k, hk, hresults⟩ := hl.calls
  have hk : k = s.started := by
    rcases hk with ⟨hk, -⟩ | ⟨-, i, hf, -⟩
    · exact hk
    · exact absurd (hrests i) hf.not_rests
  have hthread : ∀ j, (t.request j).thread = (s.request j).thread := by
    intro j
    rw [ht]
    change ((s.setRequest 0 r).request j).thread = _
    by_cases hj : j = 0
    · rw [hj, request_setRequest, hr]
    · rw [request_setRequest_ne hj]
  have hzero : t.request 0 = r := by
    rw [ht]
    change (s.setRequest 0 r).request 0 = r
    exact request_setRequest
  have hlog : t.log = s.log ++ [.started s.started 0] := by
    rw [ht]
    rfl
  have hstarted : t.started = s.started + 1 := by rw [ht]
  have hsize : t.size = s.size := by
    rw [ht]
    rfl
  refine ⟨?_, ?_, fun j th h hat => ?_, fun run j sts h => ?_, k, .inr ⟨?_, 0, ?_, ?_⟩, ?_⟩
  · rw [ht]
    exact hl.callback
  · rw [hlog]
    exact hl.ordered.append fun run i h => nomatch h
  · rw [hlog]
    exact List.mem_append_left _ (hl.seen j th (hthread j ▸ h) hat)
  · rw [hlog] at h
    rw [hstarted]
    rcases List.mem_append.mp h with h | h
    · exact Nat.lt_succ_of_lt (hl.below run j sts h)
    · simp at h
  · rw [hstarted, hk]
  · rw [hzero, hr, hk]
    exact .running rfl (hrests 0).thread
  · rw [SubRequest.pending_eq_ok (hthread 0 ▸ (hrests 0).thread), hlog, outcome_append failureOf_started]
    exact outcome_of_none fun i sts h => absurd (hl.below k i sts h) (by omega)
  · have hcalls : t.callbacks = s.callbacks := by
      rw [ht]
      rfl
    have hstatus : t.requestStatus = s.requestStatus := by
      rw [ht]
      rfl
    unfold owed
    rw [hthread, hsize, hcalls, hstatus, hlog, results_append fun run _ => failureOf_started]
    exact hresults

theorem owed_eq_nil (h : ∀ th, (s.request (s.size - 1)).thread = some th → th.at_ = .entry) : s.owed = [] := by
  unfold owed
  split
  · rename_i heq
    cases h _ heq
  · rename_i heq
    cases h _ heq
  · rfl

/-- Threads of sub-requests that are not the last owe nothing. -/
theorem owed_setRequest {r : SubRequest} (h : i = s.size - 1 → r.thread = (s.request i).thread) :
    (s.setRequest i r).owed = s.owed := by
  have hthread : ((s.setRequest i r).request (s.size - 1)).thread = (s.request (s.size - 1)).thread := by
    by_cases hi : s.size - 1 = i
    · rw [hi, request_setRequest]
      exact h hi.symm
    · rw [request_setRequest_ne hi]
  unfold owed
  rw [show (s.setRequest i r).size = s.size from rfl, hthread]
  rfl

/-- The run in flight, as the log has it. -/
theorem Log.landed_of_flies (hl : s.Log) (hf : s.Flies run i) :
    outcome s.log run = (s.request i).pending ∧ s.callbacks ++ s.owed = results s.log run := by
  obtain ⟨k, hk, hresults⟩ := hl.calls
  rcases hk with ⟨-, hrests⟩ | ⟨hk, j, hj, hout⟩
  · exact absurd (hrests i) hf.inFlight.not_rests
  · obtain rfl : k = run := by
      have := hf.last
      omega
    obtain rfl : j = i := by
      by_contra hne
      exact hj.not_rests (hf.others j hne)
    exact ⟨hout, hresults⟩

theorem complete_log (hs : s.Inv) (hl : s.Log) (h : s.complete i sts = some t) : t.Log := by
  unfold complete at h
  cases hinf : (s.request i).inference with
  | running run =>
    cases hth : (s.request i).thread with
    | none =>
      simp only [hinf, hth, Option.some_inj] at h
      have hnot : ¬ (s.request i).Rests := fun hr => hr.running (by simp [SubRequest.Running, hinf])
      obtain ⟨run', hf⟩ := hs.flies_of_not_rests hnot
      obtain rfl : run' = run := by
        cases hf.inFlight with
        | running h' _ => simpa using h'.symm.trans hinf
        | inCallback _ h' _ => exact nomatch h'.symm.trans hinf
      obtain ⟨hout, hresults⟩ := hl.landed_of_flies hf
      rw [SubRequest.pending_eq_ok (by simp [hth])] at hout
      have hlast := hf.last
      rw [← h]
      refine ⟨hl.callback, ?_, fun j th hj hat => ?_, fun run j sts' h' => ?_, run', .inr ⟨hlast, i, ?_, ?_⟩, ?_⟩
      · exact hl.ordered.append fun run i h => nomatch h
      · by_cases hji : j = i
        · rw [hji, request_setRequest] at hj
          rw [← Option.some_inj.mp hj, hji]
          exact List.mem_append_right _ (List.mem_singleton.mpr rfl)
        · rw [request_setRequest_ne hji] at hj
          exact List.mem_append_left _ (hl.seen j th hj hat)
      · rcases List.mem_append.mp h' with h' | h'
        · exact hl.below run j sts' h'
        · simp only [List.mem_singleton, Event.completed.injEq] at h'
          rw [h'.1]
          change run' < s.started
          omega
      · rw [request_setRequest]
        exact .inCallback sts rfl rfl
      · rw [request_setRequest]
        exact outcome_completed hout
      · have hnew : ((s.note (.completed run' i sts)).setRequest i ⟨.inCallback, some ⟨run', sts, .entry⟩⟩).owed = s.owed := by
          by_cases hi : i = s.size - 1
          · rw [owed_eq_nil (s := s) (by simp [← hi, hth])]
            apply owed_eq_nil
            change ∀ th, ((s.setRequest i _).request (s.size - 1)).thread = some th → _
            rw [← hi, request_setRequest]
            intro th h
            rw [← Option.some_inj.mp h]
          · exact owed_setRequest fun h => absurd h hi
        rw [hnew]
        change s.callbacks ++ s.owed = results (s.log ++ [.completed run' i sts]) run'
        rw [results_append fun run hlt => failureOf_completed_ne (by omega)]
        exact hresults
    | some th => simp [hinf, hth] at h
  | _ => simp [hinf] at h

theorem startNext_log (hs : s.Inv) (hl : s.Log) (hth : (s.request i).thread = some th) (hat : th.at_ = .entry)
    (hlt : i + 1 < s.size) (ho : o.Returns) : (s.startNext i th o).Log := by
  obtain ⟨hf, hcall⟩ := hs.flies_of_entry hth hat
  have hsts := ((hs.calm i).thread th hth hlt).1
  have hnext := hf.others (i + 1) (by omega)
  obtain ⟨hout, hresults⟩ := hl.landed_of_flies hf
  have hpending : (s.request i).pending = .OK := by
    obtain ⟨run, sts, at_⟩ := th
    obtain rfl : at_ = .entry := hat
    simpa [SubRequest.pending, hth] using hsts
  simp only [startNext, hsts, if_true, SubRequest.StartAsync_of_rests hnext ho]
  generalize hr : ({ s.request (i + 1) with inference := .running th.run } : SubRequest) = r
  have hone : (((s.note (.started th.run (i + 1))).setRequest (i + 1) r).moveTo i th .returned).request (i + 1) = r := by
    rw [moveTo, request_setRequest_ne (by omega), request_setRequest]
  have hthread : ∀ j, j ≠ i →
      ((((s.note (.started th.run (i + 1))).setRequest (i + 1) r).moveTo i th .returned).request j).thread =
        (s.request j).thread := by
    intro j hj
    by_cases hj' : j = i + 1
    · rw [hj', hone, ← hr]
    · rw [moveTo, request_setRequest_ne hj, request_setRequest_ne hj']
      rfl
  refine ⟨hl.callback, ?_, fun j th' hj hat' => ?_, fun run j sts h => ?_, th.run, .inr ⟨hf.last, i + 1, ?_, ?_⟩, ?_⟩
  · apply hl.ordered.append
    intro run k h
    -- the one before it has completed
    obtain ⟨rfl, hk⟩ := Event.started.inj h
    obtain rfl : i = k := by omega
    exact hsts ▸ hl.seen i th hth hat
  · apply List.mem_append_left
    by_cases hji : j = i
    · rw [hji, moveTo, request_setRequest] at hj
      rw [← Option.some_inj.mp hj] at hat'
      cases hat'
    · exact hl.seen j th' (hthread j hji ▸ hj) hat'
  · rcases List.mem_append.mp h with h | h
    · exact hl.below run j sts h
    · simp at h
  · rw [hone, ← hr]
    exact .running rfl hnext.thread
  · rw [hone, SubRequest.pending_eq_ok (by rw [← hr]; exact hnext.thread)]
    change outcome (s.log ++ [.started th.run (i + 1)]) th.run = .OK
    rw [outcome_append failureOf_started, hout, hpending]
  · change s.callbacks ++ owed _ = results (s.log ++ [.started th.run (i + 1)]) th.run
    rw [results_append fun run _ => failureOf_started]
    rw [moveTo, owed_setRequest fun h => absurd h (by change i ≠ s.size - 1; omega), owed_setRequest fun _ => by rw [← hr]; rfl]
    exact hresults

/-- The last callback frees the flag: the run is over, and the user's callback is owed to it. -/
theorem freeFlag_log (hs : s.Inv) (hl : s.Log) (hth : (s.request i).thread = some th) (hat : th.at_ = .entry)
    (hlast : ¬ i + 1 < s.size) : ((s.setIsRequestBusy false).moveTo i th .set_requestStatus).Log := by
  obtain ⟨hf, hcall⟩ := hs.flies_of_entry hth hat
  obtain ⟨hout, hresults⟩ := hl.landed_of_flies hf
  have hi : i = s.size - 1 := by
    have := hf.lt
    omega
  have hrests : ∀ j, (((s.setIsRequestBusy false).moveTo i th .set_requestStatus).request j).Rests := by
    intro j
    by_cases hji : j = i
    · rw [hji]
      exact rests_moveTo hcall (by simp)
    · rw [moveTo, request_setRequest_ne hji]
      exact hf.others j hji
  have hpending : (s.request i).pending = th.sts := by
    obtain ⟨run, sts, at_⟩ := th
    obtain rfl : at_ = .entry := hat
    simp [SubRequest.pending, hth]
  have howed : ((s.setIsRequestBusy false).moveTo i th .set_requestStatus).owed = [(th.run, th.sts)] := by
    have hthread : (((s.setIsRequestBusy false).moveTo i th .set_requestStatus).request
        (((s.setIsRequestBusy false).moveTo i th .set_requestStatus).size - 1)).thread =
          some { th with at_ := .set_requestStatus } := by
      change (((s.setIsRequestBusy false).moveTo i th .set_requestStatus).request (s.size - 1)).thread = _
      rw [← hi, moveTo, request_setRequest]
    unfold owed
    rw [hthread]
  rw [owed_eq_nil fun th' h => by rw [← hi, hth] at h; rw [← Option.some_inj.mp h]; exact hat, List.append_nil] at hresults
  refine ⟨hl.callback, hl.ordered, fun j th' hj hat' => absurd hat' ((hrests j).thread th' hj), hl.below, th.run + 1,
    .inl ⟨hf.last, hrests⟩, ?_⟩
  rw [howed]
  change s.callbacks ++ _ = results s.log (th.run + 1)
  rw [results_succ, hout, hpending, hresults]

/-- A callback that has looked at the status goes on. -/
theorem Log.setRequest {r : SubRequest} (hl : s.Log) (hquiet : (s.request i).Quiet r)
    (hreq : t.request = (s.setRequest i r).request) (hcallback : t.callback = s.callback) (hlog : t.log = s.log)
    (hstarted : t.started = s.started) (hcalls : t.callbacks ++ t.owed = s.callbacks ++ s.owed) : t.Log := by
  obtain ⟨k, hk, hresults⟩ := hl.calls
  have hone : t.request i = r := by
    rw [hreq]
    exact request_setRequest
  have hother : ∀ j, j ≠ i → t.request j = s.request j := by
    intro j hj
    rw [hreq]
    exact request_setRequest_ne hj
  refine ⟨hcallback ▸ hl.callback, hlog ▸ hl.ordered, fun j th hj hat => ?_, ?_, k, ?_, ?_⟩
  · by_cases hji : j = i
    · rw [hji, hone] at hj
      exact absurd hat (hquiet.new th hj)
    · rw [hlog]
      exact hl.seen j th (hother j hji ▸ hj) hat
  · rw [hlog, hstarted]
    exact hl.below
  · rcases hk with ⟨hk, hall⟩ | ⟨hk, j, hj, hout⟩
    · refine .inl ⟨hstarted ▸ hk, fun j => ?_⟩
      by_cases hji : j = i
      · rw [hji, hone]
        exact hquiet.rests (hall i)
      · rw [hother j hji]
        exact hall j
    · refine .inr ⟨hstarted ▸ hk, j, ?_⟩
      rw [hlog]
      by_cases hji : j = i
      · rw [hji, hone, SubRequest.pending_eq_ok hquiet.new, hout, hji, SubRequest.pending_eq_ok hquiet.old]
        exact ⟨hquiet.inFlight (hji ▸ hj), rfl⟩
      · rw [hother j hji]
        exact ⟨hj, hout⟩
  · rw [hlog, hcalls]
    exact hresults

theorem exec_log (hs : s.Inv) (hl : s.Log) (hcond : s.ChainCondition (.exec i o)) (h : s.exec i o = some t) : t.Log := by
  obtain ⟨th, hth, h⟩ := Option.bind_eq_some_iff.mp h
  -- only the last callback calls the user's
  have hlast : th.at_ ≠ .entry → th.at_ ≠ .returned → i = s.size - 1 := by
    intro hentry hreturned
    have hin := (hs.calm i).inside (by simp [hth])
    by_contra hne
    exact ((hs.calm i).thread th hth (by omega)).2.elim hentry hreturned
  obtain ⟨run, sts, at_⟩ := th
  simp only at h hlast
  cases at_ with
  | entry =>
    unfold callbackStep at h
    by_cases hlt : i + 1 < s.size
    · rw [if_pos hlt] at h
      rw [← Option.some_inj.mp h]
      exact startNext_log hs hl hth rfl hlt (hcond hlt (by simp [hth]))
    · rw [if_neg hlt, hl.callback, if_pos rfl] at h
      rw [← Option.some_inj.mp h]
      exact freeFlag_log hs hl hth rfl hlt
  | set_requestStatus =>
    have hi := hlast (by simp) (by simp)
    rw [← Option.some_inj.mp h]
    refine hl.setRequest (SubRequest.quiet_moveTo hth (by simp) (by simp)) rfl rfl rfl rfl ?_
    rw [owed, owed, ← hi, hth]
    simp [moveTo, setRequest, ← hi]
  | runCallback =>
    have hi := hlast (by simp) (by simp)
    rw [← Option.some_inj.mp h]
    refine hl.setRequest (SubRequest.quiet_moveTo hth (by simp) (by simp)) rfl rfl rfl rfl ?_
    rw [owed, owed, ← hi, hth]
    simp [moveTo, setRequest, ← hi]
  | callback =>
    have hi := hlast (by simp) (by simp)
    simp only [callbackStep] at h
    split_ifs at h
    rw [← Option.some_inj.mp h]
    refine hl.setRequest (SubRequest.quiet_moveTo hth (by simp) (by simp)) rfl rfl rfl rfl ?_
    rw [owed, owed, ← hi, hth]
    simp [moveTo, setRequest, ← hi]
  | returned =>
    rw [← Option.some_inj.mp h]
    refine hl.setRequest (SubRequest.quiet_returned hth (by simp)) rfl rfl rfl rfl ?_
    by_cases hi : i = s.size - 1
    · rw [owed, owed, ← hi, hth]
      simp [setRequest, ← hi]
    · rw [owed_setRequest fun h => absurd h hi]
      rfl

end HeteroAsyncInferRequest

end OpenVino.HeteroPlugin
