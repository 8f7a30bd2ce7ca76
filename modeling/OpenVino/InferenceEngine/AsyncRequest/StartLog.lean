import OpenVino.InferenceEngine.AsyncRequest.FlightCalls

/-!
# The log of the starts

When a callback is set and only `StartAsync` is called, the history of a run and the places of its tasks
tell the same story (`Log`): the starts that have not been inferred yet are `uninferred`, those whose
callback has not been called yet are `uncalled` and `handing`, and everything else is written in the
history, in the order of the starts. `log_next` keeps it through every step that meets `CallbackCondition`.
-/

namespace OpenVino.InferenceEngine.AsyncRequest

variable {ι : Type} {s t : AsyncRequest ι} {e : Executor} {th : Thread} {o : Choice} {T n : Nat}
  {c : Caller ι} {pt : Point}

/-! ### The condition on the steps -/

/-- The callback stage has given the flag back and has not called the callback yet. -/
def BeforeCall : Thread → Prop
  | .running _ (.leaveStage _) => True
  | .running _ (.runCallback _) => True
  | _ => False

instance (th : Thread) : Decidable (BeforeCall th) := by
  unfold BeforeCall
  split <;> exact inferInstance

/-- **The condition on the starts.** A `StartAsync` that finds the flag free does not come while a callback
is still to be called, and a callback stage that ends with an exception finds the flag free. -/
def CallbackCondition (s : AsyncRequest ι) : Action ι → Prop
  | .begin _ _ => True
  | .call c _ =>
    s.call c = .startAsync .entry → s.isRequestBusy = false →
      ¬ s.CallbackAhead ∧ ¬ BeforeCall (s.thread .callback)
  | .exec e _ =>
    match s.thread e with
    | .running _ (.failure copy _) => (s.task (.staged copy)).stage = 0 → s.isRequestBusy = false
    | _ => True

instance (s : AsyncRequest ι) (a : Action ι) : Decidable (s.CallbackCondition a) :=
  match a with
  | .begin _ _ => .isTrue trivial
  | .call _ _ => inferInstanceAs (Decidable (_ → _ → _))
  | .exec e o => decidable_of_iff' _ (flagCondition_exec_iff (s := s) (e := e) (o := o))

/-- The only calls that begin are `StartAsync`. -/
def StartsOnly : Action ι → Prop
  | .begin _ op => op = .startAsync
  | _ => True

instance (a : Action ι) : Decidable (StartsOnly a) :=
  match a with
  | .begin _ op => inferInstanceAs (Decidable (op = .startAsync))
  | .call _ _ => .isTrue trivial
  | .exec _ _ => .isTrue trivial

def OnlyStarts (s : AsyncRequest ι) : Prop := ∀ c, (s.call c).Over ∨ ∃ pt, s.call c = .startAsync pt

theorem OnlyStarts.flagCondition (hs : s.OnlyStarts) {a : Action ι} (h : s.CallbackCondition a) :
    s.FlagCondition a := by
  cases a with
  | begin c op => trivial
  | exec e o => exact h
  | call c o =>
    simp only [FlagCondition]
    rcases hs c with hover | ⟨pt, hpt⟩
    · cases hc : s.call c <;> first | trivial | (rw [hc] at hover; exact hover.elim)
    · rw [hpt]
      cases pt <;> first | trivial | exact fun hbusy => (h hpt hbusy).1

/-! ### The log -/

/-- What the thread of the request executor has yet to infer. -/
def beforeInfer : Thread → List Nat
  | .running task .front => [task]
  | .running task .entered => [task]
  | .running _ (.switch copy) => [copy]
  | .running _ (.infer copy) => [copy]
  | _ => []

/-- What it has inferred and not handed over yet, with the status that the callback will be given. -/
def handing (status : StatusCode) : Thread → List (Nat × StatusCode)
  | .running _ (.inferred copy) => [(copy, status)]
  | .running _ (.migrate copy) => [(copy, status)]
  | .running _ (.failure copy _) => [(copy, .GENERAL_ERROR)]
  | .running _ (.failed copy _) => [(copy, .GENERAL_ERROR)]
  | .running _ (.jump copy _) => [(copy, .GENERAL_ERROR)]
  | .running _ (.setStatus copy _) => [(copy, .GENERAL_ERROR)]
  | .running _ (.setException copy _) => [(copy, status)]
  | .running _ (.startTask copy) => [(copy, status)]
  | .running _ (.push copy) => [(copy, status)]
  | _ => []

/-- What the thread of the callback executor has yet to call. -/
def beforeCall : Thread → List Nat
  | .running task .front => [task]
  | .running task .entered => [task]
  | .running _ (.switch copy) => [copy]
  | .running _ (.freeFlag copy) => [copy]
  | .running _ (.leaveStage copy) => [copy]
  | .running _ (.runCallback copy) => [copy]
  | _ => []

def uninferred (s : AsyncRequest ι) : List Nat := beforeInfer (s.thread .request) ++ s.waiting .request

def uncalled (s : AsyncRequest ι) : List Nat := beforeCall (s.thread .callback) ++ s.waiting .callback

/-- The callbacks that are still to be called, with the status that each will be given. -/
def owed (s : AsyncRequest ι) : List (Nat × StatusCode) :=
  s.uncalled.map (·, s.callbackManager.requestStatus) ++
    handing s.callbackManager.requestStatus (s.thread .request)

/-- What the callback has to be told about an Infer. -/
def report (p : Nat × Option Thrown) : Nat × StatusCode :=
  (p.1, if p.2.isSome then .GENERAL_ERROR else .OK)

/-- After `_callbackManager.reset()`. -/
def AfterReset : StartPoint → Prop
  | .initNextAsyncTask => True
  | .resetStages => True
  | .startAsyncTask => True
  | .push _ => True
  | _ => False

structure Log (s : AsyncRequest ι) : Prop where
  onlyStarts : s.OnlyStarts
  enabled : s.callbackManager.isCallbackEnabled = true ∧ s.callbackManager.publicInterface = true
  started : s.history.infers.length + s.uninferred.length = s.history.started
  tickets : s.history.infers.map Prod.fst = List.range s.history.infers.length
  calls : s.history.callbacks ++ s.owed.map (fun p => (s.history.ticket p.1, p.2)) = s.history.infers.map report
  next : ∀ n ∈ s.uninferred, s.history.ticket n = s.history.infers.length ∧
    s.callbackManager.requestStatus = .OK
  single : s.uninferred ≠ [] ∨ handing .OK (s.thread .request) ≠ [] → s.uncalled = []
  held : ∀ c, (s.call c).Holding → s.uncalled = [] ∧ handing .OK (s.thread .request) = []
  reset : ∀ c pt, s.call c = .startAsync pt → AfterReset pt → s.callbackManager.requestStatus = .OK
  migrates : ∀ task copy, s.thread .request ≠ .running task (.lastStage copy)

/-! ### Where the threads can be -/

/-- Outside the flight, the request executor is at most leaving a function. -/
theorem Inv.request_at (hs : s.Inv) (hth : s.thread .request = .running T pt) :
    (s.Flying T ∧ s.OnRequest T pt ∧ s.waiting .request = [] ∧ ∃ th, s.Runs .callback th []) ∨
      (pt = .returned ∨ (∃ x, pt = .thrown x) ∨ pt = .unlock ∨ pt = .pop) := by
  have hlands : s.Lands .request (.running T pt) →
      pt = .returned ∨ (∃ x, pt = .thrown x) ∨ pt = .unlock ∨ pt = .pop := by
    intro hl
    cases pt <;> simp_all [Lands, LandsAt]
  have hquiet : s.Quiet → pt = .returned ∨ (∃ x, pt = .thrown x) ∨ pt = .unlock ∨ pt = .pop := by
    intro hq
    obtain ⟨th, hr, hl⟩ := hq .request
    exact hlands (hr.1.symm.trans hth ▸ hl)
  rcases hs.phase with ha | ⟨c, hh⟩ | ⟨T', hf⟩
  · exact .inr (hquiet ha.quiet)
  · exact .inr (hquiet hh.quiet)
  · have hends : ∀ {th}, s.thread .request = th → s.Ends T' th →
        pt = .returned ∨ (∃ x, pt = .thrown x) ∨ pt = .unlock ∨ pt = .pop := by
      intro th hr he
      obtain rfl := hr.symm.trans hth
      rcases he with hl | heq
      · exact hlands hl
      · cases heq
        exact .inl rfl
    cases hf.place with
    | queued th th' busy has request lands callback lands' => exact .inr (hends request.1 (.inl lands))
    | onRequest pt' th' request at_ callback lands' =>
      have hwait := request.waiting
      cases request.1.symm.trans hth
      exact .inl ⟨hf, at_, hwait, th', callback⟩
    | landed th th' has request ends callback lands' => exact .inr (hends request.1 ends)
    | onCallback pt' th request ends callback at_ => exact .inr (hends request.1 ends)

theorem Inv.callback_at (hs : s.Inv) (hth : s.thread .callback = .running T pt) :
    s.Flying T ∧ s.OnCallback T pt ∨ s.LandsAt .callback T pt := by
  have hquiet : s.Quiet → s.LandsAt .callback T pt := by
    intro hq
    obtain ⟨th, hr, hl⟩ := hq .callback
    obtain rfl := hr.1.symm.trans hth
    exact hl
  rcases hs.phase with ha | ⟨c, hh⟩ | ⟨T', hf⟩
  · exact .inr (hquiet ha.quiet)
  · exact .inr (hquiet hh.quiet)
  · cases hf.place with
    | queued th th' busy has request lands callback lands' =>
      obtain rfl := callback.1.symm.trans hth
      exact .inr lands'
    | onRequest pt' th' request at_ callback lands' =>
      obtain rfl := callback.1.symm.trans hth
      exact .inr lands'
    | landed th th' has request ends callback lands' =>
      obtain rfl := callback.1.symm.trans hth
      exact .inr lands'
    | onCallback pt' th request ends callback at_ =>
      cases callback.1.symm.trans hth
      exact .inl ⟨hf, at_⟩

/-! ### Steps that the log does not see -/

theorem Log.of_same (hl : s.Log) (hcall : t.call = s.call) (hhist : t.history = s.history)
    (hman : ∃ x, t.callbackManager = { s.callbackManager with requestException := x }) (hinf : t.uninferred = s.uninferred)
    (huncalled : t.uncalled = s.uncalled)
    (hhand : ∀ status, handing status (t.thread .request) = handing status (s.thread .request))
    (hmig : ∀ task copy, t.thread .request ≠ .running task (.lastStage copy)) : t.Log where
  onlyStarts := by
    rw [OnlyStarts, hcall]
    exact hl.onlyStarts
  enabled := by
    obtain ⟨x, hman⟩ := hman
    rw [hman]
    exact hl.enabled
  started := by
    rw [hhist, hinf]
    exact hl.started
  tickets := hhist ▸ hl.tickets
  calls := by
    obtain ⟨x, hman⟩ := hman
    rw [owed, huncalled, hman, hhand, hhist]
    exact hl.calls
  next := by
    obtain ⟨x, hman⟩ := hman
    rw [hinf, hhist, hman]
    exact hl.next
  single := by
    rw [hinf, hhand, huncalled]
    exact hl.single
  held := by
    rw [hcall, huncalled, hhand]
    exact hl.held
  reset := by
    obtain ⟨x, hman⟩ := hman
    rw [hcall, hman]
    exact hl.reset
  migrates := hmig

theorem waiting_moveTo (hth : s.thread e = .running T pt) {pt' : Point} {e' : Executor} :
    (s.moveTo e (.running T pt')).waiting e' = s.waiting e' := by
  by_cases he : e' = e
  · simp [waiting, moveTo, he, hth]
  · simp [waiting, moveTo, he]

/-- The request executor goes on, and the task it runs stays where the log has it. -/
theorem Log.request_move (hl : s.Log) (hth : s.thread .request = .running T pt) {pt' : Point}
    (hinf : beforeInfer (.running T pt') = beforeInfer (.running T pt))
    (hhand : ∀ status, handing status (.running T pt') = handing status (.running T pt))
    (hmig : ∀ copy, pt' ≠ .lastStage copy) : (s.moveTo .request (.running T pt')).Log := by
  have hself : (s.moveTo .request (.running T pt')).thread .request = .running T pt' := thread_moveTo
  have hother : (s.moveTo .request (.running T pt')).thread .callback = s.thread .callback :=
    thread_moveTo_ne (by simp)
  refine hl.of_same rfl rfl ⟨_, rfl⟩ ?_ ?_ ?_ ?_
  · rw [uninferred, uninferred, waiting_moveTo hth, hself, hth, hinf]
  · rw [uncalled, uncalled, waiting_moveTo hth, hother]
  · intro status
    rw [hself, hth, hhand]
  · intro task copy h
    rw [hself] at h
    exact hmig copy (Thread.running.inj h).2

/-- The callback executor goes on, and the task it runs stays where the log has it. -/
theorem Log.callback_move (hl : s.Log) (hth : s.thread .callback = .running T pt) {pt' : Point}
    (hcall : beforeCall (.running T pt') = beforeCall (.running T pt)) :
    (s.moveTo .callback (.running T pt')).Log := by
  have hself : (s.moveTo .callback (.running T pt')).thread .callback = .running T pt' := thread_moveTo
  have hother : (s.moveTo .callback (.running T pt')).thread .request = s.thread .request :=
    thread_moveTo_ne (by simp)
  refine hl.of_same rfl rfl ⟨_, rfl⟩ ?_ ?_ ?_ ?_
  · rw [uninferred, uninferred, waiting_moveTo hth, hother]
  · rw [uncalled, uncalled, waiting_moveTo hth, hself, hth, hcall]
  · intro status
    rw [hother]
  · intro task copy
    rw [hother]
    exact hl.migrates task copy

theorem Log.setTask (hl : s.Log) (p : TaskPtr) (v : Task) : (s.setTask p v).Log :=
  hl.of_same rfl rfl ⟨_, rfl⟩ rfl rfl (fun _ => rfl) hl.migrates

theorem Log.setIsRequestBusy (hl : s.Log) (b : Bool) : (s.setIsRequestBusy b).Log :=
  hl.of_same rfl rfl ⟨_, rfl⟩ rfl rfl (fun _ => rfl) hl.migrates

/-- A thread takes the first task of its queue. -/
theorem Log.take (hl : s.Log) (hidle : s.thread e = .idle) {w : List Nat} (hqueue : s.taskQueue e = n :: w) :
    (s.moveTo e (.running n .front)).Log := by
  cases e with
  | request =>
    refine hl.of_same rfl rfl ⟨_, rfl⟩ ?_ ?_ ?_ ?_
    · simp [uninferred, waiting, moveTo, hidle, hqueue, beforeInfer]
    · simp [uncalled, waiting, moveTo]
    · simp [moveTo, hidle, handing]
    · simp [moveTo]
  | callback =>
    refine hl.of_same rfl rfl ⟨_, rfl⟩ ?_ ?_ ?_ ?_
    · simp [uninferred, waiting, moveTo]
    · simp [uncalled, waiting, moveTo, hidle, hqueue, beforeCall]
    · simp [moveTo]
    · simpa [moveTo] using hl.migrates

/-- A thread drops the task it has run. -/
theorem Log.pop (hl : s.Log) (hth : s.thread e = .running T .pop) :
    ({ s with taskQueue := Function.update s.taskQueue e (s.taskQueue e).tail }.moveTo e .idle).Log := by
  cases e with
  | request =>
    refine hl.of_same rfl rfl ⟨_, rfl⟩ ?_ ?_ ?_ ?_
    · simp [uninferred, waiting, moveTo, hth, beforeInfer]
    · simp [uncalled, waiting, moveTo]
    · simp [moveTo, hth, handing]
    · simp [moveTo]
  | callback =>
    refine hl.of_same rfl rfl ⟨_, rfl⟩ ?_ ?_ ?_ ?_
    · simp [uninferred, waiting, moveTo]
    · simp [uncalled, waiting, moveTo, hth, beforeCall]
    · simp [moveTo]
    · simpa [moveTo] using hl.migrates

/-! ### The steps of the executors -/

theorem Log.not_afterReset (hf : s.Flying T) {pt : StartPoint} (hc : s.call c = .startAsync pt) :
    ¬ AfterReset pt := by
  intro hpt
  refine hf.free c ?_
  rw [hc]
  cases pt <;> first | exact hpt.elim | trivial

/-- `Infer` has ended. -/
theorem Log.infer (hl : s.Log) (hth : s.thread .request = .running T (.infer T)) (hf : s.Flying T)
    (hwait : s.waiting .request = []) {x : Option Thrown} {pt' : Point}
    (hpt : ∀ status, handing status (.running T pt') = [(T, if x.isSome then .GENERAL_ERROR else status)])
    (hinf : beforeInfer (.running T pt') = []) (hmig : ∀ copy, pt' ≠ .lastStage copy) :
    ((s.noteInfer T x).moveTo .request (.running T pt')).Log := by
  have hold : s.uninferred = [T] := by rw [uninferred, hth, hwait, beforeInfer, List.append_nil]
  have hnew : ((s.noteInfer T x).moveTo .request (.running T pt')).uninferred = [] := by
    rw [uninferred, thread_moveTo, hinf, waiting_moveTo (s := s.noteInfer T x) hth]
    exact hwait
  obtain ⟨hticket, hstatus⟩ := hl.next T (by simp [hold])
  have huncalled : s.uncalled = [] := hl.single (.inl (by simp [hold]))
  have hnone : ((s.noteInfer T x).moveTo .request (.running T pt')).uncalled = [] := by
    rw [uncalled, thread_moveTo_ne (by simp), waiting_moveTo (s := s.noteInfer T x) hth]
    exact huncalled
  have howed : s.owed = [] := by rw [owed, huncalled, hth]; rfl
  have hstarted := hl.started
  have hcalls := hl.calls
  rw [hold, List.length_singleton] at hstarted
  rw [howed, List.map_nil, List.append_nil] at hcalls
  refine ⟨hl.onlyStarts, hl.enabled, ?_, ?_, ?_, ?_, fun _ => hnone, fun c hc => absurd hc (hf.free c), hl.reset, ?_⟩
  · rw [hnew]
    have hlen : (s.history.infers ++ [(s.history.ticket T, x)]).length = s.history.infers.length + 1 :=
      List.length_append
    exact hlen.trans hstarted
  · rw [show ((s.noteInfer T x).moveTo .request (.running T pt')).history.infers =
      s.history.infers ++ [(s.history.ticket T, x)] from rfl]
    rw [List.map_append, hl.tickets, List.length_append, List.length_singleton, List.range_succ, hticket]
    rfl
  · rw [owed, hnone, thread_moveTo, hpt, List.map_nil, List.nil_append, List.map_singleton,
      show ((s.noteInfer T x).moveTo .request (.running T pt')).history.infers =
        s.history.infers ++ [(s.history.ticket T, x)] from rfl, List.map_append, ← hcalls, List.map_singleton,
      report, show ((s.noteInfer T x).moveTo .request (.running T pt')).callbackManager.requestStatus = .OK from
        hstatus]
    rfl
  · rw [hnew]
    simp
  · intro task copy h
    rw [thread_moveTo] at h
    exact hmig copy (Thread.running.inj h).2

/-- The error is written into the manager. -/
theorem Log.setStatus (hl : s.Log) {x : Thrown} (hth : s.thread .request = .running T (.setStatus T x))
    (hf : s.Flying T) (hwait : s.waiting .request = []) :
    ((s.modifyManager fun m => { m with requestStatus := .GENERAL_ERROR }).moveTo .request
      (.running T (.setException T x))).Log := by
  have huncalled : s.uncalled = [] := hl.single (.inr (by simp [hth, handing]))
  have hnone : ((s.modifyManager fun m => { m with requestStatus := .GENERAL_ERROR }).moveTo .request
      (.running T (.setException T x))).uncalled = [] := by
    rw [uncalled, thread_moveTo_ne (by simp), waiting_moveTo (s := s.modifyManager _) hth]
    exact huncalled
  have hold : s.uninferred = [] := by rw [uninferred, hth, hwait]; rfl
  have hnew : ((s.modifyManager fun m => { m with requestStatus := .GENERAL_ERROR }).moveTo .request
      (.running T (.setException T x))).uninferred = [] := by
    rw [uninferred, thread_moveTo, waiting_moveTo (s := s.modifyManager _) hth]
    exact hwait
  refine ⟨hl.onlyStarts, hl.enabled, ?_, hl.tickets, ?_, ?_, fun _ => hnone, fun c hc => absurd hc (hf.free c),
    fun c pt hc hpt => absurd hpt (Log.not_afterReset hf hc), ?_⟩
  · have hstarted := hl.started
    rw [hold] at hstarted
    rwa [hnew]
  · have hcalls := hl.calls
    rw [owed, huncalled, hth] at hcalls
    rw [owed, hnone, thread_moveTo]
    exact hcalls
  · rw [hnew]
    simp
  · simp [moveTo]

/-- The task is queued for the callback executor. -/
theorem Log.push (hl : s.Log) (hth : s.thread .request = .running T (.push T)) (hf : s.Flying T)
    (hwait : s.waiting .request = []) (hr : s.Runs .callback th []) :
    ((s.pushCallback T).moveTo .request (.running T .returned)).Log := by
  have huncalled : s.uncalled = [] := hl.single (.inr (by simp [hth, handing]))
  have hnone : ((s.pushCallback T).moveTo .request (.running T .returned)).uncalled = [T] := by
    have hbefore : beforeCall (s.thread .callback) = [] := (List.append_eq_nil_iff.mp huncalled).1
    have hqueue : (s.pushCallback T).waiting .callback = [T] := by
      cases th with
      | idle => simp [waiting, pushCallback, hr.1, hr.2, Thread.tasks]
      | running T' pt' => simp [waiting, pushCallback, hr.1, hr.2, Thread.tasks]
    rw [uncalled, thread_moveTo_ne (by simp), waiting_moveTo (s := s.pushCallback T) hth, hqueue]
    exact congrArg (· ++ [T]) hbefore
  have hqueue : (s.pushCallback T).waiting .request = s.waiting .request := by simp [waiting, pushCallback]
  have hold : s.uninferred = [] := by rw [uninferred, hth, hwait]; rfl
  have hnew : ((s.pushCallback T).moveTo .request (.running T .returned)).uninferred = [] := by
    rw [uninferred, thread_moveTo, waiting_moveTo (s := s.pushCallback T) hth, hqueue, hwait]
    rfl
  refine ⟨hl.onlyStarts, hl.enabled, ?_, hl.tickets, ?_, ?_, ?_, fun c hc => absurd hc (hf.free c),
    fun c pt hc hpt => absurd hpt (Log.not_afterReset hf hc), ?_⟩
  · have hstarted := hl.started
    rw [hold] at hstarted
    rwa [hnew]
  · have hcalls := hl.calls
    rw [owed, huncalled, hth] at hcalls
    rw [owed, hnone, thread_moveTo]
    exact hcalls
  · rw [hnew]
    simp
  · rw [hnew, thread_moveTo]
    exact fun h => absurd h (by simp [handing])
  · simp [moveTo]

/-- The callback is called. -/
theorem Log.runCallback (hl : s.Log) (hth : s.thread .callback = .running T (.runCallback T)) :
    ((s.noteCallback T).moveTo .callback (.running T (.callback T))).Log := by
  have hold : s.uncalled = T :: s.waiting .callback := by rw [uncalled, hth]; rfl
  have hidle : ¬ (s.uninferred ≠ [] ∨ handing .OK (s.thread .request) ≠ []) := by
    intro h
    exact absurd (hold.symm.trans (hl.single h)) (by simp)
  have hrequest : ((s.noteCallback T).moveTo .callback (.running T (.callback T))).thread .request =
      s.thread .request := thread_moveTo_ne (by simp)
  have hnew : ((s.noteCallback T).moveTo .callback (.running T (.callback T))).uninferred = s.uninferred := by
    rw [uninferred, hrequest, waiting_moveTo (s := s.noteCallback T) hth]
    rfl
  have hnone : ((s.noteCallback T).moveTo .callback (.running T (.callback T))).uncalled = s.waiting .callback := by
    rw [uncalled, thread_moveTo, waiting_moveTo (s := s.noteCallback T) hth]
    rfl
  refine ⟨hl.onlyStarts, hl.enabled, ?_, hl.tickets, ?_, ?_, ?_, fun c hc => ?_, hl.reset, ?_⟩
  · rw [hnew]
    exact hl.started
  · have hcalls := hl.calls
    rw [owed, hold] at hcalls
    rw [owed, hnone, hrequest]
    refine Eq.trans ?_ hcalls
    exact List.append_assoc ..
  · rw [hnew]
    exact hl.next
  · rw [hnew, hrequest]
    exact fun h => absurd h hidle
  · exact absurd (hold.symm.trans (hl.held c hc).1) (by simp)
  · rw [hrequest]
    exact hl.migrates

/-- A step of the request executor in the run of the task in flight. -/
theorem request_log (hl : s.Log) (hth : s.thread .request = .running T pt) (hf : s.Flying T)
    (hat : s.OnRequest T pt) (hwait : s.waiting .request = []) (hr : s.Runs .callback th [])
    (h : s.runStep .request o T pt = some t) : t.Log := by
  have hmove : ∀ {u : AsyncRequest ι} {pt' : Point}, u.Log → u.thread = s.thread →
      beforeInfer (.running T pt') = beforeInfer (.running T pt) →
      (∀ status, handing status (.running T pt') = handing status (.running T pt)) →
      (∀ copy, pt' ≠ .lastStage copy) → (u.moveTo .request (.running T pt')).Log := by
    intro u pt' hu hthread hinf hhand hmig
    exact hu.request_move (by rw [hthread, hth]) hinf hhand hmig
  cases pt with
  | front =>
    simp only [runStep] at h
    split_ifs at h
    rw [← Option.some_inj.mp h]
    exact hmove (hl.setTask _ _) rfl rfl (fun _ => rfl) (by simp)
  | entered =>
    obtain ⟨m, hm, h⟩ := Option.bind_eq_some_iff.mp h
    cases hf.async.symm.trans hm
    rw [← Option.some_inj.mp h]
    exact hmove hl rfl rfl (fun _ => rfl) (by simp)
  | switch c =>
    obtain ⟨rfl, hhas, -⟩ := hat
    simp only [runStep, hhas.1, Option.some_inj] at h
    rw [← h]
    exact hmove hl rfl rfl (fun _ => rfl) (by simp)
  | infer c =>
    obtain ⟨rfl, -⟩ := hat
    cases o with
    | returns =>
      rw [← Option.some_inj.mp h]
      exact hl.infer hth hf hwait (fun _ => rfl) rfl (by simp)
    | throws x =>
      rw [← Option.some_inj.mp h]
      exact hl.infer hth hf hwait (fun _ => rfl) rfl (by simp)
    | timesOut => exact absurd h (by simp [runStep])
  | inferred c =>
    obtain ⟨rfl, hhas, -⟩ := hat
    rw [runStep, stageDone_eq hhas.1, Option.some_inj] at h
    rw [← h]
    exact hmove (hl.setTask _ _) rfl rfl (fun _ => rfl) (by simp)
  | migrate c =>
    rw [runStep, if_pos hl.enabled.1, Option.some_inj] at h
    rw [← h]
    exact hmove hl rfl rfl (fun _ => rfl) (by simp)
  | lastStage c => exact absurd hth (hl.migrates T c)
  | failure c x =>
    rw [← Option.some_inj.mp h]
    exact hmove (hl.setIsRequestBusy _) rfl rfl (fun _ => rfl) (by simp)
  | failed c x =>
    obtain ⟨rfl, hhas⟩ := hat
    rw [runStep, if_pos ⟨hl.enabled.1, by rw [hhas.1]; omega⟩, Option.some_inj] at h
    rw [← h]
    exact hmove hl rfl rfl (fun _ => rfl) (by simp)
  | jump c x =>
    obtain ⟨rfl, hhas⟩ := hat
    rcases hhas with hhas | hhas
    · have hdone : (s.task (.staged c)).stageDone = .ok { s.task (.staged c) with stage := 1 } := by
        simp [Task.stageDone, hhas.1]
      rw [runStep, if_neg (by rw [hhas.1]; omega), hdone, Option.some_inj] at h
      rw [← h]
      exact hl.setTask _ _
    · rw [runStep, if_pos hhas.1, Option.some_inj] at h
      rw [← h]
      exact hmove hl rfl rfl (fun _ => rfl) (by simp)
  | setStatus c x =>
    obtain ⟨rfl, -⟩ := hat
    rw [← Option.some_inj.mp h]
    exact hl.setStatus hth hf hwait
  | setException c x =>
    rw [← Option.some_inj.mp h]
    have hu : (s.modifyManager fun m => { m with requestException := some x }).Log :=
      hl.of_same rfl rfl ⟨_, rfl⟩ rfl rfl (fun _ => rfl) hl.migrates
    exact hmove hu rfl rfl (fun _ => rfl) (by simp)
  | startTask c =>
    obtain ⟨rfl, hhas⟩ := hat
    simp only [runStep, Task.occupy, hhas.2, reduceCtorEq, if_false, if_true, Option.some_inj] at h
    rw [← h]
    exact hmove (hl.setTask _ _) rfl rfl (fun _ => rfl) (by simp)
  | push c =>
    obtain ⟨rfl, -⟩ := hat
    rw [← Option.some_inj.mp h]
    exact hl.push hth hf hwait hr
  | _ => exact hat.elim

/-- A step of the request executor at the end of a run. -/
theorem request_end_log (hl : s.Log) (hth : s.thread .request = .running T pt)
    (hend : pt = .returned ∨ (∃ x, pt = .thrown x) ∨ pt = .unlock ∨ pt = .pop)
    (h : s.runStep .request o T pt = some t) : t.Log := by
  rcases hend with rfl | ⟨x, rfl⟩ | rfl | rfl
  · rw [← Option.some_inj.mp h]
    exact (hl.setTask _ _).request_move hth rfl (fun _ => rfl) (by simp)
  · rw [← Option.some_inj.mp h]
    exact (hl.setTask _ _).request_move hth rfl (fun _ => rfl) (by simp)
  · rw [← Option.some_inj.mp h]
    exact hl.request_move hth rfl (fun _ => rfl) (by simp)
  · rw [← Option.some_inj.mp h]
    exact hl.pop hth

/-- A step of the callback executor. -/
theorem callback_log (hl : s.Log) (hth : s.thread .callback = .running T pt)
    (hat : s.Flying T ∧ s.OnCallback T pt ∨ s.LandsAt .callback T pt)
    (h : s.runStep .callback o T pt = some t) : t.Log := by
  cases pt with
  | front =>
    simp only [runStep] at h
    split_ifs at h
    rw [← Option.some_inj.mp h]
    exact (hl.setTask _ _).callback_move hth rfl
  | entered =>
    obtain ⟨hf, -⟩ := hat.resolve_right id
    obtain ⟨m, hm, h⟩ := Option.bind_eq_some_iff.mp h
    cases hf.async.symm.trans hm
    rw [← Option.some_inj.mp h]
    exact hl.callback_move hth rfl
  | switch c =>
    obtain ⟨-, rfl, hhas⟩ := hat.resolve_right id
    simp only [runStep, hhas.1, Option.some_inj] at h
    rw [← h]
    exact hl.callback_move hth rfl
  | freeFlag c =>
    rw [← Option.some_inj.mp h]
    exact (hl.setIsRequestBusy false).callback_move hth rfl
  | leaveStage c =>
    obtain ⟨-, rfl, hhas⟩ := hat.resolve_left fun hat => hat.2
    rw [runStep, stageDone_eq hhas.1, Option.some_inj] at h
    rw [← h]
    exact (hl.setTask _ _).callback_move hth rfl
  | runCallback c =>
    obtain ⟨-, rfl, hhas⟩ := hat.resolve_left fun hat => hat.2
    rw [runStep, if_pos hl.enabled.1, if_pos hl.enabled.2, Option.some_inj] at h
    rw [← h]
    exact hl.runCallback hth
  | callback c =>
    simp only [runStep] at h
    split_ifs at h
    cases o with
    | returns =>
      rw [← Option.some_inj.mp h]
      exact hl.callback_move hth rfl
    | throws x =>
      rw [← Option.some_inj.mp h]
      exact hl.callback_move hth rfl
    | timesOut => exact absurd h (by simp)
  | called c =>
    simp only [runStep] at h
    split at h <;>
    · rw [← Option.some_inj.mp h]
      exact hl.callback_move hth rfl
  | failure c x =>
    rw [← Option.some_inj.mp h]
    exact (hl.setIsRequestBusy false).callback_move hth rfl
  | failed c x =>
    obtain ⟨-, rfl, hhas⟩ := hat.resolve_left fun hat => hat.2
    rw [runStep, if_neg (by rw [hhas.1]; omega), Option.some_inj] at h
    rw [← h]
    exact hl.callback_move hth rfl
  | returned =>
    rw [← Option.some_inj.mp h]
    exact (hl.setTask _ _).callback_move hth rfl
  | thrown x =>
    rw [← Option.some_inj.mp h]
    exact (hl.setTask _ _).callback_move hth rfl
  | unlock =>
    rw [← Option.some_inj.mp h]
    exact hl.callback_move hth rfl
  | pop =>
    rw [← Option.some_inj.mp h]
    exact hl.pop hth
  | _ => exact (hat.elim (fun hat => hat.2) id).elim

/-- **A step of an executor.** -/
theorem exec_log (hs : s.Inv) (hl : s.Log) (h : s.execStep e o = some t) : t.Log := by
  cases hth : s.thread e with
  | idle =>
    cases hqueue : s.taskQueue e with
    | nil => simp [execStep, hth, hqueue] at h
    | cons n w =>
      simp only [execStep, hth, hqueue, Option.some_inj] at h
      rw [← h]
      exact hl.take hth hqueue
  | running T pt =>
    simp only [execStep, hth] at h
    cases e with
    | request =>
      rcases hs.request_at hth with ⟨hf, hat, hwait, th, hr⟩ | hend
      · exact request_log hl hth hf hat hwait hr h
      · exact request_end_log hl hth hend h
    | callback => exact callback_log hl hth (hs.callback_at hth) h

/-! ### The steps of the calls -/

theorem Quiet.uninferred (hq : s.Quiet) : s.uninferred = [] := by
  obtain ⟨th, hr, hl⟩ := hq .request
  rw [AsyncRequest.uninferred, hr.waiting, hr.1, List.append_nil]
  cases th with
  | idle => rfl
  | running T pt => cases pt <;> first | rfl | exact hl.elim

theorem Quiet.handing (hq : s.Quiet) (status : StatusCode) : handing status (s.thread .request) = [] := by
  obtain ⟨th, hr, hl⟩ := hq .request
  rw [hr.1]
  cases th with
  | idle => rfl
  | running T pt =>
    cases pt <;> first | rfl | exact hl.elim | exact absurd hl.1 (by simp)

theorem Quiet.uncalled (hq : s.Quiet) (hbefore : ¬ BeforeCall (s.thread .callback)) : s.uncalled = [] := by
  obtain ⟨th, hr, hl⟩ := hq .callback
  rw [AsyncRequest.uncalled, hr.waiting, hr.1, List.append_nil]
  rw [hr.1] at hbefore
  cases th with
  | idle => rfl
  | running T pt => cases pt <;> first | rfl | exact hl.elim | exact absurd trivial hbefore

theorem Log.chooseAsyncTask (hl : s.Log) : s.chooseAsyncTask.Log := by
  unfold AsyncRequest.chooseAsyncTask
  split_ifs
  · split <;> exact hl.of_same rfl rfl ⟨_, rfl⟩ rfl rfl (fun _ => rfl) hl.migrates
  · exact hl

/-- `_callbackManager.reset()`. -/
theorem Log.resetManager (hl : s.Log) (hh : s.Held c) : (s.modifyManager .reset).Log := by
  obtain ⟨hcalled, hhand⟩ := hl.held c hh.holding
  have hinf := hh.quiet.uninferred
  refine ⟨hl.onlyStarts, hl.enabled, hl.started, hl.tickets, ?_, ?_, hl.single, hl.held, fun _ _ _ _ => rfl,
    hl.migrates⟩
  · have hcalls := hl.calls
    rw [owed, hcalled, hh.quiet.handing] at hcalls
    rw [owed, show (s.modifyManager .reset).uncalled = [] from hcalled,
      show handing _ ((s.modifyManager .reset).thread .request) = [] from hh.quiet.handing _]
    exact hcalls
  · rw [show (s.modifyManager .reset).uninferred = [] from hinf]
    simp

section Calls

variable [DecidableEq ι]

/-- A call goes on: nothing is written, and `reset` has been passed only with the status OK. -/
theorem Log.goto (hl : s.Log) {pc : Call} (hover : pc.Over ∨ ∃ pt, pc = .startAsync pt)
    (hheld : pc.Holding → s.uncalled = [] ∧ handing .OK (s.thread .request) = [])
    (hreset : ∀ pt, pc = .startAsync pt → AfterReset pt → s.callbackManager.requestStatus = .OK) :
    (s.goto c pc).Log where
  onlyStarts c' := by
    by_cases hne : c' = c
    · rw [hne, call_goto]
      exact hover
    · rw [call_goto_ne hne]
      exact hl.onlyStarts c'
  enabled := hl.enabled
  started := hl.started
  tickets := hl.tickets
  calls := hl.calls
  next := hl.next
  single := hl.single
  held c' hc' := by
    by_cases hne : c' = c
    · rw [hne, call_goto] at hc'
      exact hheld hc'
    · rw [call_goto_ne hne] at hc'
      exact hl.held c' hc'
  reset c' pt hc' hpt := by
    by_cases hne : c' = c
    · rw [hne, call_goto] at hc'
      exact hreset pt hc' hpt
    · rw [call_goto_ne hne] at hc'
      exact hl.reset c' pt hc' hpt
  migrates := hl.migrates

/-- A start is queued. -/
theorem Log.pushRequest (hl : s.Log) (hh : s.Held c) (hstatus : s.callbackManager.requestStatus = .OK) :
    ((s.pushRequest n).goto c (.finished (.returned .OK))).Log := by
  obtain ⟨hcalled, hhand⟩ := hl.held c hh.holding
  obtain ⟨th, hr, hlands⟩ := hh.quiet .request
  have hinf : s.uninferred = [] := hh.quiet.uninferred
  have hbefore : beforeInfer (s.thread .request) = [] := (List.append_eq_nil_iff.mp hinf).1
  have hnew : (s.pushRequest n).uninferred = [n] := by
    have hqueue : (s.pushRequest n).waiting .request = [n] := by
      cases th with
      | idle => simp [waiting, AsyncRequest.pushRequest, hr.1, hr.2, Thread.tasks]
      | running T pt => simp [waiting, AsyncRequest.pushRequest, hr.1, hr.2, Thread.tasks]
    rw [uninferred, hqueue]
    exact congrArg (· ++ [n]) hbefore
  have hnone : (s.pushRequest n).uncalled = [] := by
    have hqueue : (s.pushRequest n).waiting .callback = s.waiting .callback := by
      simp [waiting, AsyncRequest.pushRequest]
    rw [uncalled, hqueue]
    exact hcalled
  have hstarted := hl.started
  rw [hinf, List.length_nil, Nat.add_zero] at hstarted
  have hlog : (s.pushRequest n).Log := by
    refine ⟨hl.onlyStarts, hl.enabled, ?_, hl.tickets, ?_, ?_, fun _ => hnone, fun _ _ => ⟨hnone, hhand⟩,
      hl.reset, hl.migrates⟩
    · rw [hnew]
      exact congrArg (· + 1) hstarted
    · have hcalls := hl.calls
      rw [owed, hcalled, hh.quiet.handing] at hcalls
      rw [owed, hnone, show handing _ ((s.pushRequest n).thread .request) = [] from hh.quiet.handing _]
      exact hcalls
    · intro m hm
      rw [hnew, List.mem_singleton] at hm
      refine ⟨?_, hstatus⟩
      rw [hm]
      exact (Function.update_self ..).trans hstarted.symm
  exact hlog.goto (.inl trivial) (fun h => h.elim) (fun pt h => by cases h)

/-- **A step of a call.** -/
theorem call_log (hs : s.Inv) (hl : s.Log) (hcond : s.CallbackCondition (.call c o))
    (h : s.callStep c o = some t) : t.Log := by
  rcases hl.onlyStarts c with hover | ⟨pt, hc⟩
  · cases hc : s.call c <;> first
      | (rw [hc] at hover; exact hover.elim)
      | exact absurd h (by simp [callStep, hc])
  simp only [callStep, hc] at h
  have hheld : pt ≠ .entry → s.Held c := by
    intro hpt
    apply hs.held
    rw [hc]
    cases pt <;> first | exact absurd rfl hpt | trivial
  have hquiet : pt ≠ .entry → s.uncalled = [] ∧ handing .OK (s.thread .request) = [] :=
    fun hpt => hl.held c (hheld hpt).holding
  cases pt with
  | entry =>
    simp only [startAsync] at h
    split_ifs at h with hbusy
    · rw [← Option.some_inj.mp h]
      exact hl.goto (.inl trivial) (fun h => h.elim) (fun pt h => by cases h)
    · have hfree := Bool.eq_false_iff.mpr hbusy
      obtain ⟨hahead, hbefore⟩ := hcond hc hfree
      have hq := (hs.ashore hfree hahead).quiet
      rw [← Option.some_inj.mp h]
      refine (hl.setIsRequestBusy true).goto (.inr ⟨_, rfl⟩) (fun _ => ⟨hq.uncalled hbefore, hq.handing _⟩) ?_
      intro pt hpt hafter
      cases hpt
      exact hafter.elim
  | checkBlobs =>
    have hgo : ∀ pt', ¬ AfterReset pt' → (s.goto c (.startAsync pt')).Log := by
      intro pt' hnot
      refine hl.goto (.inr ⟨_, rfl⟩) (fun _ => hquiet (by simp)) ?_
      intro pt hpt hafter
      cases hpt
      exact absurd hafter hnot
    cases o with
    | returns =>
      rw [← Option.some_inj.mp h]
      exact hgo _ id
    | throws x =>
      rw [← Option.some_inj.mp h]
      exact hgo _ id
    | timesOut => exact absurd h (by simp [startAsync])
  | reset =>
    rw [← Option.some_inj.mp h]
    exact (hl.resetManager (hheld (by simp))).goto (.inr ⟨_, rfl⟩) (fun _ => hquiet (by simp)) fun _ _ _ => rfl
  | initNextAsyncTask =>
    have hstatus := hl.reset c _ hc trivial
    rw [← Option.some_inj.mp h]
    have hsame : s.chooseAsyncTask.uncalled = s.uncalled ∧ s.chooseAsyncTask.thread = s.thread ∧
        s.chooseAsyncTask.callbackManager = s.callbackManager := by
      unfold AsyncRequest.chooseAsyncTask
      split_ifs
      · split <;> exact ⟨rfl, rfl, rfl⟩
      · exact ⟨rfl, rfl, rfl⟩
    refine hl.chooseAsyncTask.goto (.inr ⟨_, rfl⟩) (fun _ => ?_) fun _ _ _ => ?_
    · rw [hsame.1, hsame.2.1]
      exact hquiet (by simp)
    · rw [hsame.2.2]
      exact hstatus
  | resetStages =>
    have hstatus := hl.reset c _ hc trivial
    obtain ⟨m, -, h⟩ := Option.bind_eq_some_iff.mp h
    rw [← Option.some_inj.mp h]
    exact (hl.setTask _ _).goto (.inr ⟨_, rfl⟩) (fun _ => hquiet (by simp)) fun _ _ _ => hstatus
  | startAsyncTask =>
    have hstatus := hl.reset c _ hc trivial
    obtain ⟨m, -, h⟩ := Option.bind_eq_some_iff.mp h
    simp only [Option.some_inj] at h
    rw [← h]
    have hu : ({ s with currentTask := .staged m } : AsyncRequest ι).Log :=
      hl.of_same rfl rfl ⟨_, rfl⟩ rfl rfl (fun _ => rfl) hl.migrates
    exact (hu.setTask _ _).goto (.inr ⟨_, rfl⟩) (fun _ => hquiet (by simp)) fun _ _ _ => hstatus
  | push n =>
    rw [← Option.some_inj.mp h]
    exact hl.pushRequest (hheld (by simp)) (hl.reset c _ hc trivial)
  | handler x =>
    rw [← Option.some_inj.mp h]
    exact (hl.setIsRequestBusy false).goto (.inl trivial) (fun h => h.elim) (fun pt h => by cases h)

/-- **One step.** -/
theorem next_log (hs : s.Inv) (hl : s.Log) {a : Action ι} (hstart : StartsOnly a) (hcond : s.CallbackCondition a)
    (h : s.next a = some t) : t.Log := by
  cases a with
  | begin c op =>
    simp only [next] at h
    split_ifs at h
    rw [← Option.some_inj.mp h, show op = .startAsync from hstart]
    refine hl.goto (.inr ⟨_, rfl⟩) (fun h => h.elim) ?_
    intro pt hpt hafter
    cases hpt
    exact hafter.elim
  | call c o => exact call_log hs hl hcond h
  | exec e o => exact exec_log hs hl h

end Calls

end OpenVino.InferenceEngine.AsyncRequest
