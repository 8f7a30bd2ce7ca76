import OpenVino.HeteroPlugin.ChainLog

/-!
# The chain over whole runs

`chain_correct`: in every run whose steps meet `ChainCondition` the sub-requests are started one after the
other, every accepted `StartAsync` leads to exactly one call of the user's callback, and a chain that no run is
at is free to be started again. Without the condition it is not (`chain_fails`): when a sub-request in the
middle fails the callback is never called, and a `StartAsync` that throws leaves the flag set.
-/

namespace OpenVino.HeteroPlugin

open InferenceEngine (StatusCode Thrown Ending requestBusy)
open InferenceEngine.AsyncRequest (RESULT_READY STATUS_ONLY)

namespace HeteroAsyncInferRequest

variable {ι : Type} {s t : HeteroAsyncInferRequest ι} {c : Caller ι} {i j run : Nat} {o : Choice}
  {sts : StatusCode} {th : CallbackThread}

section Log

variable [DecidableEq ι]

theorem startAsync_log {pt : StartPoint} (hs : s.Inv) (hl : s.Log) (hc : s.call c = .startAsync pt)
    (hcond : s.ChainCondition (.call c o)) (h : s.startAsync c o pt = some t) : t.Log := by
  simp only [ChainCondition, hc] at hcond
  cases pt with
  | entry =>
    simp only [startAsync] at h
    split_ifs at h
    · rw [← Option.some_inj.mp h]
      exact hl.of_eq rfl rfl rfl rfl rfl rfl rfl
    · rw [← Option.some_inj.mp h]
      exact hl.of_eq rfl rfl rfl rfl rfl rfl rfl
  | setIsRequestBusy =>
    rw [← Option.some_inj.mp h]
    exact hl.of_eq rfl rfl rfl rfl rfl rfl rfl
  | updateInOutIfNeeded =>
    cases o with
    | returns ms =>
      rw [← Option.some_inj.mp h]
      exact hl.of_eq rfl rfl rfl rfl rfl rfl rfl
    | throws x => exact hcond.elim
    | timesOut => exact hcond.elim
  | startFirstAsyncRequest =>
    have hh : s.Held c := hs.held_of_starting (by simp [hc, Call.Starting])
    simp only [startAsync, SubRequest.StartAsync_of_rests (hh.rests 0) hcond] at h
    apply startFirst_log hl hh.rests rfl
    rw [← Option.some_inj.mp h]
    rfl

theorem wait_log {pt : WaitPoint} (hl : s.Log) (h : s.wait c o pt = some t) : t.Log := by
  cases pt with
  | request k millis_timeout share =>
    obtain ⟨status, -, h⟩ := Option.bind_eq_some_iff.mp h
    rw [← Option.some_inj.mp h]
    exact hl.of_eq rfl rfl rfl rfl rfl rfl rfl
  | status sts =>
    simp only [wait] at h
    split_ifs at h
    · rw [← Option.some_inj.mp h]
      exact hl.of_eq rfl rfl rfl rfl rfl rfl rfl
    · rw [← Option.some_inj.mp h]
      exact hl.of_eq rfl rfl rfl rfl rfl rfl rfl

/-- Every step that meets the condition keeps the log in order. -/
theorem next_log {a : Action ι} (hs : s.Inv) (hl : s.Log) (hcond : s.ChainCondition a) (h : s.next a = some t) :
    t.Log := by
  simp only [next, hs.alive, Bool.false_eq_true, if_false] at h
  cases a with
  | begin c op =>
    simp only at h
    split_ifs at h
    rw [← Option.some_inj.mp h]
    exact hl.of_eq rfl rfl rfl rfl rfl rfl rfl
  | call c o =>
    simp only [callStep] at h
    cases hc : s.call c with
    | startAsync pt => exact startAsync_log hs hl hc hcond (by simpa [hc] using h)
    | wait pt =>
      simp only [hc] at h
      exact wait_log hl h
    | idle => simp [hc] at h
    | finished ending => simp [hc] at h
  | complete i sts => exact complete_log hs hl h
  | exec i o => exact exec_log hs hl hcond h

end Log

theorem created_log {size : Nat} : (created size true : HeteroAsyncInferRequest ι).Log where
  callback := rfl
  ordered l₁ l₂ run i h := by simp [created] at h
  seen _ _ h := nomatch h
  below _ _ _ h := by simp [created] at h
  calls := ⟨0, .inl ⟨rfl, fun _ => ⟨id, (fun _ h => nomatch h)⟩⟩, rfl⟩

/-! ### The sub-requests get on -/

/-- No sub-request runs, and no callback is being called. -/
def AtRest (s : HeteroAsyncInferRequest ι) : Prop :=
  ∀ i, i < s.size → ¬ (s.request i).Running ∧ (s.request i).thread = none

instance (s : HeteroAsyncInferRequest ι) : Decidable s.AtRest := inferInstanceAs (Decidable (∀ i, i < s.size → _))

/-- How far a callback is from its end, with `n` sub-requests behind its own. -/
def pointLeft (n : Nat) : CallbackPoint → Nat
  | .entry => 5 + 3 * n
  | .set_requestStatus => 4
  | .runCallback => 3
  | .callback => 2
  | .returned => 1

def left (n : Nat) (r : SubRequest) : Nat :=
  (if r.Running then 6 + 3 * n else 0) + (r.thread.map fun th => pointLeft n th.at_).getD 0

theorem left_running {n : Nat} {r : SubRequest} (h : ¬ r.Running) :
    left n { r with inference := .running run } = left n r + (6 + 3 * n) := by
  have hrun : SubRequest.Running { r with inference := .running run } := trivial
  rw [left, left, if_neg h, if_pos hrun, Nat.zero_add]
  exact Nat.add_comm ..

def work (s : HeteroAsyncInferRequest ι) : Nat := ∑ i ∈ Finset.range s.size, left (s.size - 1 - i) (s.request i)

theorem work_setRequest {r : SubRequest} (hi : i < s.size) :
    (s.setRequest i r).work + left (s.size - 1 - i) (s.request i) = s.work + left (s.size - 1 - i) r := by
  have hmem : i ∈ Finset.range s.size := Finset.mem_range.mpr hi
  have hnew := Finset.add_sum_erase _ (fun j => left (s.size - 1 - j) ((s.setRequest i r).request j)) hmem
  have hold := Finset.add_sum_erase _ (fun j => left (s.size - 1 - j) (s.request j)) hmem
  have hsame : ∑ j ∈ (Finset.range s.size).erase i, left (s.size - 1 - j) ((s.setRequest i r).request j) =
      ∑ j ∈ (Finset.range s.size).erase i, left (s.size - 1 - j) (s.request j) := by
    apply Finset.sum_congr rfl
    intro j hj
    rw [request_setRequest_ne (Finset.ne_of_mem_erase hj)]
  simp only [request_setRequest] at hnew
  change (∑ j ∈ Finset.range s.size, left (s.size - 1 - j) ((s.setRequest i r).request j)) + _ =
    (∑ j ∈ Finset.range s.size, left (s.size - 1 - j) (s.request j)) + _
  omega

theorem complete_work (hs : s.Inv) (h : s.complete i sts = some t) : t.work < s.work := by
  unfold complete at h
  cases hinf : (s.request i).inference with
  | running run =>
    cases hth : (s.request i).thread with
    | none =>
      simp only [hinf, hth, Option.some_inj] at h
      have hlt := hs.size_le (i := i) fun hr => hr.running (by simp [SubRequest.Running, hinf])
      have hwork := work_setRequest (s := s.note (.completed run i sts)) (r := ⟨.inCallback, some ⟨run, sts, .entry⟩⟩) hlt
      have hsame : (s.note (.completed run i sts)).work = s.work := rfl
      have hold : left (s.size - 1 - i) (s.request i) = 6 + 3 * (s.size - 1 - i) := by
        simp [left, SubRequest.Running, hinf, hth]
      have hnew : left (s.size - 1 - i) ⟨.inCallback, some ⟨run, sts, .entry⟩⟩ = 5 + 3 * (s.size - 1 - i) := by
        simp [left, SubRequest.Running, pointLeft]
      change _ + left (s.size - 1 - i) (s.request i) = _ + left (s.size - 1 - i) _ at hwork
      rw [← h]
      omega
    | some th => simp [hinf, hth] at h
  | _ => simp [hinf] at h

theorem moveTo_work {at_ : CallbackPoint} (hi : i < s.size) (hth : (s.request i).thread = some th)
    (hlt : pointLeft (s.size - 1 - i) at_ < pointLeft (s.size - 1 - i) th.at_) : (s.moveTo i th at_).work < s.work := by
  have hwork := work_setRequest (r := { s.request i with thread := some { th with at_ := at_ } }) hi
  have hleft : left (s.size - 1 - i) { s.request i with thread := some { th with at_ := at_ } } <
      left (s.size - 1 - i) (s.request i) := by
    rw [left, left, hth]
    exact Nat.add_lt_add_left hlt _
  change (s.moveTo i th at_).work + _ = _ at hwork
  omega

theorem startNext_work (hs : s.Inv) (hth : (s.request i).thread = some th) (hat : th.at_ = .entry)
    (hlt : i + 1 < s.size) (ho : o.Returns) : (s.startNext i th o).work < s.work := by
  obtain ⟨hf, hcall⟩ := hs.flies_of_entry hth hat
  have hsts := ((hs.calm i).thread th hth hlt).1
  have hnext := hf.others (i + 1) (by omega)
  simp only [startNext, hsts, if_true, SubRequest.StartAsync_of_rests hnext ho]
  generalize hr : ({ s.request (i + 1) with inference := .running th.run } : SubRequest) = r
  have hstart := work_setRequest (s := s.note (.started th.run (i + 1))) (r := r) hlt
  have hmove := work_setRequest (s := (s.note (.started th.run (i + 1))).setRequest (i + 1) r)
    (r := { s.request i with thread := some { th with at_ := .returned } }) (i := i) hf.lt
  rw [request_setRequest_ne (by omega)] at hmove
  change _ + left (s.size - 1 - (i + 1)) (s.request (i + 1)) = s.work + left (s.size - 1 - (i + 1)) r at hstart
  change _ + left (s.size - 1 - i) (s.request i) = _ + left (s.size - 1 - i) _ at hmove
  have hstarted : left (s.size - 1 - (i + 1)) r = left (s.size - 1 - (i + 1)) (s.request (i + 1)) + (6 + 3 * (s.size - 1 - (i + 1))) := by
    rw [← hr]
    exact left_running hnext.running
  have hold : left (s.size - 1 - i) (s.request i) = 5 + 3 * (s.size - 1 - i) := by
    simp [left, SubRequest.Running, hcall, hth, hat, pointLeft]
  have hnew : left (s.size - 1 - i) { s.request i with thread := some { th with at_ := .returned } } = 1 := by
    simp [left, SubRequest.Running, hcall, pointLeft]
  have hmoved : (((s.note (.started th.run (i + 1))).setRequest (i + 1) r).moveTo i th .returned) =
      ((s.note (.started th.run (i + 1))).setRequest (i + 1) r).setRequest i
        { s.request i with thread := some { th with at_ := .returned } } := by
    rw [moveTo, request_setRequest_ne (by omega)]
    rfl
  rw [hmoved]
  omega

theorem exec_work (hs : s.Inv) (hcond : s.ChainCondition (.exec i o)) (h : s.exec i o = some t) : t.work < s.work := by
  obtain ⟨th, hth, h⟩ := Option.bind_eq_some_iff.mp h
  have hin := (hs.calm i).inside (by simp [hth])
  obtain ⟨run, sts, at_⟩ := th
  cases at_ with
  | entry =>
    simp only [callbackStep] at h
    by_cases hlt : i + 1 < s.size
    · rw [if_pos hlt] at h
      rw [← Option.some_inj.mp h]
      exact startNext_work hs hth rfl hlt (hcond hlt (by simp [hth]))
    · rw [if_neg hlt] at h
      rw [← Option.some_inj.mp h]
      apply moveTo_work (s := s.setIsRequestBusy false) hin hth
      split_ifs <;> simp only [pointLeft] <;> omega
  | set_requestStatus =>
    rw [← Option.some_inj.mp h]
    exact moveTo_work (s := { s with requestStatus := sts }) hin hth (by simp [pointLeft])
  | runCallback =>
    rw [← Option.some_inj.mp h]
    exact moveTo_work (s := { s with callbacks := s.callbacks ++ [(run, s.requestStatus)] }) hin hth (by simp [pointLeft])
  | callback =>
    simp only [callbackStep] at h
    split_ifs at h
    rw [← Option.some_inj.mp h]
    exact moveTo_work hin hth (by simp [pointLeft])
  | returned =>
    have hwork := work_setRequest (r := ⟨if (s.request i).inference = .inCallback then .completed sts
      else (s.request i).inference, none⟩) hin
    rw [← Option.some_inj.mp h]
    have hlt : left (s.size - 1 - i) ⟨if (s.request i).inference = .inCallback then .completed sts
        else (s.request i).inference, none⟩ < left (s.size - 1 - i) (s.request i) := by
      by_cases hcall : (s.request i).inference = .inCallback
      · simp [left, SubRequest.Running, hcall, hth, pointLeft]
      · rw [if_neg hcall, left, left, hth]
        exact Nat.add_lt_add_left (by simp [pointLeft]) _
    change (s.setRequest i ⟨if (s.request i).inference = .inCallback then .completed sts
      else (s.request i).inference, none⟩).work < s.work
    omega

/-- A chain that is not at rest gets on, or the call that the user's callback makes. -/
theorem Inv.moves [DecidableEq ι] (hs : s.Inv) (hrest : ¬ s.AtRest) :
    (∃ i sts, (s.next (.complete i sts)).isSome) ∨ (∃ i, (s.next (.exec i (.returns 0))).isSome) ∨
      (s.next (.call .callback (.returns 0))).isSome := by
  simp only [next, hs.alive, Bool.false_eq_true, if_false]
  by_cases hthread : ∃ i th, (s.request i).thread = some th
  · obtain ⟨i, ⟨run, sts, at_⟩, hth⟩ := hthread
    cases at_ with
    | entry =>
      refine .inr (.inl ⟨i, ?_⟩)
      simp only [exec, hth, Option.bind_eq_bind, Option.bind_some, callbackStep]
      split_ifs <;> rfl
    | callback =>
      rcases hs.callback with hover | ⟨pt, hc⟩
      · exact .inr (.inl ⟨i, by simp [exec, hth, callbackStep, hover]⟩)
      · refine .inr (.inr ?_)
        simp only [callStep, hc]
        cases pt with
        | entry =>
          simp only [startAsync]
          split_ifs <;> rfl
        | startFirstAsyncRequest =>
          simp only [startAsync]
          split <;> rfl
        | _ => rfl
    | _ => exact .inr (.inl ⟨i, by simp [exec, hth, callbackStep]⟩)
  · -- no callback is being called: a sub-request runs, and may complete
    have hnone : ∀ i, (s.request i).thread = none := by
      intro i
      by_contra hth
      exact hthread ⟨i, Option.ne_none_iff_exists'.mp hth⟩
    obtain ⟨i, hi⟩ := not_forall.mp hrest
    have hrun : (s.request i).Running := by
      by_contra hrun
      exact hi fun _ => ⟨hrun, hnone i⟩
    refine .inl ⟨i, .OK, ?_⟩
    cases hinf : (s.request i).inference with
    | running run => simp [complete, hinf, hnone i]
    | _ => simp [SubRequest.Running, hinf] at hrun

/-! ### The chain is correct -/

/-- A `StartAsync` of `c`, begun and taken to its end. -/
def startActions (c : Caller ι) : List (Action ι) := .begin c .startAsync :: List.replicate 4 (.call c (.returns 0))

/-- `outcome` is what the user is told about a run. -/
structure ChainCorrect [DecidableEq ι] (s : HeteroAsyncInferRequest ι) : Prop where
  /-- A sub-request is started when the one before it has completed with `OK` in the same run. -/
  ordered : Ordered s.log
  /-- The callbacks are called for the runs in their order, each at most once. -/
  called : s.callbacks <+: results s.log s.started
  /-- At rest the callback of each accepted start has been called. -/
  all : s.AtRest → s.callbacks = results s.log s.started
  /-- Until then the chain gets on. -/
  moves : ¬ s.AtRest → (∃ i sts, (s.next (.complete i sts)).isSome) ∨ (∃ i, (s.next (.exec i (.returns 0))).isSome) ∨
    (s.next (.call .callback (.returns 0))).isSome
  descends : ∀ {a t}, (∃ i sts, a = .complete i sts) ∨ (∃ i o, a = .exec i o) → s.ChainCondition a →
    s.next a = some t → t.work < s.work
  /-- When the last run is over and no `StartAsync` is under way the flag is free. -/
  free : (∀ i, (s.request i).Rests) → (∀ c, ¬ (s.call c).Starting) → s.isRequestBusy = false
  /-- Then whoever may call starts the request again. -/
  again : (∀ i, (s.request i).Rests) → (∀ c, ¬ (s.call c).Starting) → ∀ c, (s.call c).Over → s.MayBegin c →
    ∃ t, System.perform next (fun _ _ => True) s (startActions c) = some t ∧ t.started = s.started + 1 ∧
      t.call c = .finished (.returned .OK)

theorem Log.all (hs : s.Inv) (hl : s.Log) (hrest : s.AtRest) : s.callbacks = results s.log s.started := by
  have hrests : ∀ i, (s.request i).Rests := by
    intro i
    by_contra hi
    obtain ⟨hrun, hth⟩ := hrest i (hs.size_le hi)
    exact hi ⟨hrun, by simp [hth]⟩
  obtain ⟨k, hk, hresults⟩ := hl.calls
  have hlast := (hrest (s.size - 1) (by have := hs.pos; omega)).2
  rw [owed_eq_nil (by simp [hlast]), List.append_nil] at hresults
  rcases hk with ⟨hk, -⟩ | ⟨-, i, hi, -⟩
  · rw [hresults, hk]
  · exact absurd (hrests i) hi.not_rests

theorem Log.called (hl : s.Log) : s.callbacks <+: results s.log s.started := by
  obtain ⟨k, hk, hresults⟩ := hl.calls
  have hle : k ≤ s.started := by
    rcases hk with ⟨hk, -⟩ | ⟨hk, -⟩
    · omega
    · omega
  obtain ⟨d, hd⟩ := Nat.exists_eq_add_of_le hle
  have hprefix : results s.log k <+: results s.log s.started := by
    rw [results, results, hd, List.range_add, List.map_append]
    exact List.prefix_append ..
  exact (List.prefix_append ..).trans (hresults ▸ hprefix)

theorem Inv.free (hs : s.Inv) (hrests : ∀ i, (s.request i).Rests) (hnone : ∀ c, ¬ (s.call c).Starting) :
    s.isRequestBusy = false := by
  rcases hs.phase with hg | ⟨c, hh⟩ | ⟨run, i, hf⟩
  · exact hg.free
  · exact absurd hh.starting (hnone c)
  · exact absurd (hrests i) hf.inFlight.not_rests

theorem Inv.again [DecidableEq ι] (hs : s.Inv) (hrests : ∀ i, (s.request i).Rests)
    (hnone : ∀ c, ¬ (s.call c).Starting) (hover : (s.call c).Over) (hmay : s.MayBegin c) :
    ∃ t, System.perform next (fun _ _ => True) s (startActions c) = some t ∧ t.started = s.started + 1 ∧
      t.call c = .finished (.returned .OK) := by
  have hfree := hs.free hrests hnone
  have hstart : (s.request 0).StartAsync s.started (.returns 0) =
      .ok { s.request 0 with inference := .running s.started } := SubRequest.StartAsync_of_rests (hrests 0) trivial
  simp [System.perform, startActions, next, hs.alive, hover, hmay, Operation.entry, callStep, startAsync, hfree, hstart, note,
    HeteroAsyncInferRequest.goto, setIsRequestBusy, HeteroAsyncInferRequest.setRequest]

variable [DecidableEq ι]

/-- **The chain of the sub-requests is correct** in every run all of whose steps meet `ChainCondition`. -/
theorem chain_correct {size : Nat} (hsize : 0 < size)
    (hs : (System.ofActions next ChainCondition (created size true)).Reachable s) : s.ChainCorrect := by
  have hboth : s.Inv ∧ s.Log := by
    refine hs.induct (I := fun s => s.Inv ∧ s.Log) (fun s₀ h₀ => ?_) fun s t _ ih hst => ?_
    · rw [show s₀ = created size true from h₀]
      exact ⟨created_inv hsize, created_log⟩
    · obtain ⟨a, hcond, hnext⟩ := hst
      exact ⟨next_inv ih.1 hcond hnext, next_log ih.1 ih.2 hcond hnext⟩
  obtain ⟨hs, hl⟩ := hboth
  refine ⟨hl.ordered, hl.called, hl.all hs, hs.moves, ?_, hs.free, fun hrests hnone c => hs.again hrests hnone⟩
  intro a t ha hcond h
  simp only [next, hs.alive, Bool.false_eq_true, if_false] at h
  rcases ha with ⟨i, sts, rfl⟩ | ⟨i, o, rfl⟩
  · exact complete_work hs h
  · exact exec_work hs hcond h

/-- Two sub-requests: the first completes with `OK` and starts the second, a `Wait` asks for the status, the second
fails, and the callback that is told so starts the chain again. -/
def lastFails : List (Action Unit) :=
  startActions (.client ()) ++ [.complete 0 .OK, .exec 0 (.returns 0), .exec 0 (.returns 0)] ++
    .begin (.client ()) (.wait STATUS_ONLY) :: List.replicate 3 (.call (.client ()) (.returns 0)) ++
    .complete 1 .GENERAL_ERROR :: List.replicate 3 (.exec 1 (.returns 0)) ++ startActions .callback

theorem chain_correct_lastFails : ∃ s : HeteroAsyncInferRequest Unit,
    System.perform next ChainCondition (created 2 true) lastFails = some s ∧ s.callbacks = [(0, .GENERAL_ERROR)] ∧
      s.started = 2 ∧ s.ChainCorrect := by
  have hsome : (System.perform next ChainCondition (created 2 true) lastFails).isSome := by decide
  obtain ⟨s, hs⟩ := Option.isSome_iff_exists.mp hsome
  have hcalls : s.callbacks = [(0, .GENERAL_ERROR)] ∧ s.started = 2 := by
    obtain rfl : _ = s := Option.some_inj.mp hs
    decide
  exact ⟨s, hs, hcalls.1, hcalls.2, chain_correct (by decide) (System.reachable_of_perform (.init rfl) hs)⟩

/-- The first of two sub-requests fails, and its callback stops the chain. -/
def firstFails : List (Action Unit) :=
  startActions (.client ()) ++ [.complete 0 .GENERAL_ERROR, .exec 0 (.returns 0), .exec 0 (.returns 0)]

/-- The `StartAsync` of the first sub-request throws. -/
def firstThrows : List (Action Unit) :=
  .begin (.client ()) .startAsync :: List.replicate 3 (.call (.client ()) (.returns 0)) ++
    [.call (.client ()) (.throws ⟨none, "StartAsync"⟩)]

/-- The user is never told of a failure in the middle of the chain, and a `StartAsync` that throws leaves the chain
busy though nothing is under way. -/
theorem chain_fails :
    (∃ s : HeteroAsyncInferRequest Unit,
      (System.ofActions next (fun _ _ => True) (created 2 true)).Reachable s ∧ s.AtRest ∧ s.started = 1 ∧
        outcome s.log 0 = .GENERAL_ERROR ∧ s.callbacks = []) ∧
    ∃ s : HeteroAsyncInferRequest Unit,
      (System.ofActions next (fun _ _ => True) (created 2 true)).Reachable s ∧ s.AtRest ∧
        s.call (.client ()) = .finished (.threw ⟨none, "StartAsync"⟩) ∧ s.isRequestBusy = true := by
  constructor
  · have hsome : (System.perform next (fun _ _ => True) (created 2 true) firstFails).isSome := by decide
    obtain ⟨s, hs⟩ := Option.isSome_iff_exists.mp hsome
    refine ⟨s, System.reachable_of_perform (.init rfl) hs, ?_⟩
    obtain rfl : _ = s := Option.some_inj.mp hs
    decide
  · have hsome : (System.perform next (fun _ _ => True) (created 2 true) firstThrows).isSome := by decide
    obtain ⟨s, hs⟩ := Option.isSome_iff_exists.mp hsome
    refine ⟨s, System.reachable_of_perform (.init rfl) hs, ?_⟩
    obtain rfl : _ = s := Option.some_inj.mp hs
    decide

end HeteroAsyncInferRequest

end OpenVino.HeteroPlugin
