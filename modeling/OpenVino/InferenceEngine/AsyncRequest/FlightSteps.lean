import OpenVino.InferenceEngine.AsyncRequest.Flight

/-!
# What a step does to the flight

`exec_inv` and `call_inv`: a step of an executor or of a call that meets `FlagCondition` keeps `Inv`. A
step at the end of a run leaves the phase as it is (`Settles`); a step of the task in flight moves it one
place on (`Advances`); a step of a call moves only if the call holds the flag, takes it or gives it back.
-/

namespace OpenVino.InferenceEngine.AsyncRequest

variable {ι : Type} {s t : AsyncRequest ι} {e : Executor} {th : Thread} {w : List Nat} {pt : Point}
  {o : Choice} {T n : Nat} {c : Caller ι}

/-! ### The end of another run -/

theorem OnRequest.of_same (h : s.OnRequest T pt) (htask : s.SameTask t T)
    (hbusy : t.isRequestBusy = s.isRequestBusy) : t.OnRequest T pt := by
  revert h
  cases pt <;> simp only [OnRequest, Has, htask.1, htask.2, hbusy, imp_self]

theorem OnCallback.of_same (h : s.OnCallback T pt) (htask : s.SameTask t T) : t.OnCallback T pt := by
  revert h
  cases pt <;> simp only [OnCallback, Has, htask.1, htask.2, imp_self]

theorem OnRequest.not_lands (h : s.OnRequest T pt) : ¬ s.Lands .request (.running T pt) := by
  cases pt <;> simp_all [OnRequest, Lands, LandsAt]

theorem OnCallback.not_lands (h : s.OnCallback T pt) : ¬ s.Lands .callback (.running T pt) := by
  cases pt <;> simp_all [OnCallback, Lands, LandsAt]

/-- The thread of `e` is not in the run that takes `T` along. -/
def Elsewhere (s : AsyncRequest ι) (e : Executor) (T : Nat) : Prop :=
  ∀ pt, s.thread e = .running T pt →
    match e with
    | .request => ¬ s.OnRequest T pt
    | .callback => ¬ s.OnCallback T pt

theorem Lands.elsewhere (hl : s.Lands e (s.thread e)) : s.Elsewhere e T := by
  intro pt hpt
  rw [hpt] at hl
  cases e with
  | request => exact fun hat => hat.not_lands hl
  | callback => exact fun hat => hat.not_lands hl

/-- A task in flight is BUSY as long as no thread is inside its run. -/
theorem OnRequest.status (h : s.OnRequest T pt) : (s.task (.staged T)).status ≠ .TS_POSTPONED ∨
    (Thread.running T pt).Inside T := by
  cases pt <;> simp_all [OnRequest, Has, Thread.Inside]

theorem OnCallback.status (h : s.OnCallback T pt) : (s.task (.staged T)).status ≠ .TS_POSTPONED ∨
    (Thread.running T pt).Inside T := by
  cases pt <;> simp_all [OnCallback, Has, Thread.Inside]

theorem OnCallback.stage (h : s.OnCallback T pt) : (s.task (.staged T)).stage = 1 := by
  cases pt <;> simp_all [OnCallback, Has]

theorem Settles.ends {T' : Nat} (hb : s.Base) (h : s.Settles t .callback T' w) (hth : s.thread .request = th)
    (he : s.Ends T th) : t.Ends T th :=
  he.imp_left (h.lands_other hb (by simp) hth)

theorem Settles.place {T' : Nat} (hb : s.Base) (h : s.Settles t e T' (s.waiting e))
    (hl : s.Elsewhere e T) (hp : s.Place T) : t.Place T := by
  cases hp with
  | queued th th' busy has request lands callback lands' =>
    have hT : t.task (.staged T) = s.task (.staged T) := h.task_of_status (by simp [has.2])
    have hhas : t.Has T 2 .TS_BUSY := by
      rw [Has, hT]
      exact has
    cases e with
    | request =>
      rw [request.waiting] at h
      obtain ⟨th₁, hr₁, hl₁⟩ := h.lands
      exact .queued th₁ th' (h.busy.trans busy) hhas hr₁ hl₁ (h.runs_other (by simp) callback)
        (h.lands_other hb (by simp) callback.1 lands')
    | callback =>
      rw [callback.waiting] at h
      obtain ⟨th₁, hr₁, hl₁⟩ := h.lands
      exact .queued th th₁ (h.busy.trans busy) hhas (h.runs_other (by simp) request)
        (h.lands_other hb (by simp) request.1 lands) hr₁ hl₁
  | onRequest pt th' request at_ callback lands' =>
    cases e with
    | request => exact absurd at_ (hl pt request.1)
    | callback =>
      rw [callback.waiting] at h
      obtain ⟨th₁, hr₁, hl₁⟩ := h.lands
      have hT : t.task (.staged T) = s.task (.staged T) :=
        at_.status.elim h.task_of_status fun hin => h.task_of_inside hb (by simp) (request.1 ▸ hin)
      exact .onRequest pt th₁ (h.runs_other (by simp) request) (at_.of_same (.of_eq hT) h.busy) hr₁ hl₁
  | landed th th' has request ends callback lands' =>
    have hT : t.task (.staged T) = s.task (.staged T) := h.task_of_status (by simp [has.2])
    have hhas : t.Has T 1 .TS_BUSY := by
      rw [Has, hT]
      exact has
    cases e with
    | request =>
      rw [request.waiting] at h
      obtain ⟨th₁, hr₁, hl₁⟩ := h.lands
      exact .landed th₁ th' hhas hr₁ (.inl hl₁) (h.runs_other (by simp) callback)
        (h.lands_other hb (by simp) callback.1 lands')
    | callback =>
      rw [callback.waiting] at h
      obtain ⟨th₁, hr₁, hl₁⟩ := h.lands
      exact .landed th th₁ hhas (h.runs_other (by simp) request) (h.ends hb request.1 ends) hr₁ hl₁
  | onCallback pt th request ends callback at_ =>
    cases e with
    | callback => exact absurd at_ (hl pt callback.1)
    | request =>
      rw [request.waiting] at h
      obtain ⟨th₁, hr₁, hl₁⟩ := h.lands
      have hT : t.task (.staged T) = s.task (.staged T) :=
        at_.status.elim h.task_of_status fun hin => h.task_of_inside hb (by simp) (callback.1 ▸ hin)
      exact .onCallback pt th₁ hr₁ (.inl hl₁) (h.runs_other (by simp) callback) (at_.of_same (.of_eq hT))

theorem Settles.flying {T' : Nat} (hb : s.Base) (h : s.Settles t e T' (s.waiting e))
    (hl : s.Elsewhere e T) (hf : s.Flying T) : t.Flying T where
  free := by
    rw [h.call]
    exact hf.free
  async := h.asyncTask.trans hf.async
  current := h.currentTask.trans hf.current
  othersNotBusy := h.noneBusy_except hf.othersNotBusy
  place := h.place hb hl hf.place

/-! ### The task in flight -/

/-- Only the task `T`, the thread of `e`, the queues, the flag, the manager and the history change. -/
structure Touches (s t : AsyncRequest ι) (e : Executor) (T : Nat) : Prop where
  call : t.call = s.call
  asyncTask : t.asyncTask = s.asyncTask
  currentTask : t.currentTask = s.currentTask
  listAsyncTasks : t.listAsyncTasks = s.listAsyncTasks
  task : ∀ n, n ≠ T → t.task (.staged n) = s.task (.staged n)
  thread : ∀ e', e' ≠ e → t.thread e' = s.thread e'

namespace Touches

theorem refl : s.Touches s e T := ⟨rfl, rfl, rfl, rfl, fun _ _ => rfl, fun _ _ => rfl⟩

theorem setTask (h : s.Touches t e T) (v : Task) : s.Touches (t.setTask (.staged T) v) e T :=
  { h with task := fun n hn => (Function.update_of_ne (by simpa using hn) ..).trans (h.task n hn) }

theorem moveTo (h : s.Touches t e T) (th : Thread) : s.Touches (t.moveTo e th) e T :=
  { h with thread := fun e' he => (Function.update_of_ne he ..).trans (h.thread e' he) }

theorem setIsRequestBusy (h : s.Touches t e T) (b : Bool) : s.Touches (t.setIsRequestBusy b) e T := { h with }

theorem modifyManager (h : s.Touches t e T) (f : CallbackManager → CallbackManager) :
    s.Touches (t.modifyManager f) e T := { h with }

theorem noteInfer (h : s.Touches t e T) (n : Nat) (x : Option Thrown) : s.Touches (t.noteInfer n x) e T :=
  { h with }

theorem pushCallback (h : s.Touches t e T) (n : Nat) : s.Touches (t.pushCallback n) e T := { h with }

theorem base (hb : s.Base) (h : s.Touches t e T) (hT : T < s.listAsyncTasks) (hth : t.thread e = .running T pt)
    (hapart : ∀ e', e' ≠ e → ¬ (s.thread e').Inside T) : t.Base where
  fresh n hn := by
    rw [h.listAsyncTasks] at hn
    rw [h.task n (by omega)]
    exact hb.fresh n hn
  known n hn := by
    rw [h.listAsyncTasks]
    exact hb.known n (h.asyncTask ▸ hn)
  mutex n hboth := by
    cases e with
    | request =>
      have hn : T = n := by
        rw [hth] at hboth
        exact hboth.1.1
      refine hapart .callback (by simp) ?_
      rw [← h.thread .callback (by simp), hn]
      exact hboth.2
    | callback =>
      have hn : T = n := by
        rw [hth] at hboth
        exact hboth.2.1
      refine hapart .request (by simp) ?_
      rw [← h.thread .request (by simp), hn]
      exact hboth.1

theorem lands_other (h : s.Touches t e T) {e' : Executor} (he : ¬ th.Inside T) (hl : s.Lands e' th) :
    t.Lands e' th :=
  hl.of_same fun n hn _ => .of_eq (h.task n fun hT => he (hT ▸ hn))

theorem flying (h : s.Touches t e T) (hf : s.Flying T) (hp : t.Place T) : t.Flying T where
  free := by
    rw [h.call]
    exact hf.free
  async := h.asyncTask.trans hf.async
  current := h.currentTask.trans hf.current
  othersNotBusy n hn := by
    rw [h.task n hn]
    exact hf.othersNotBusy n hn
  place := hp

/-- The task in flight has come down. -/
theorem ashore (h : s.Touches t e T) (hf : s.Flying T) (hq : t.Quiet)
    (hT : (t.task (.staged T)).status ≠ .TS_BUSY) : t.Ashore where
  free := by
    rw [h.call]
    exact hf.free
  quiet := hq
  linked n hn := by
    rw [h.currentTask, hf.current] at hn
    rw [h.asyncTask, hf.async, TaskPtr.staged.inj hn]
  noneBusy n := by
    by_cases hn : n = T
    · rwa [hn]
    · rw [h.task n hn]
      exact hf.othersNotBusy n hn

end Touches

theorem Flying.known (hb : s.Base) (hf : s.Flying T) : T < s.listAsyncTasks := hb.known T hf.async

/-- The task in flight stays with the request executor. -/
theorem Touches.onRequest (hb : s.Base) (hf : s.Flying T) (callback : s.Runs .callback th [])
    (lands : s.Lands .callback th) (hapart : ¬ th.Inside T) (h : s.Touches t .request T)
    (hqueue : t.taskQueue = s.taskQueue) (hr : t.Runs .request (.running T pt) []) (hat : t.OnRequest T pt) :
    t.Inv := by
  have hcb : t.Runs .callback th [] := by
    rw [Runs, h.thread .callback (by simp), hqueue]
    exact callback
  refine ⟨h.base hb (hf.known hb) hr.1 ?_, .inr (.inr ⟨T, ?_⟩)⟩
  · intro e' he'
    cases e' with
    | request => exact absurd rfl he'
    | callback => rwa [callback.1]
  · exact h.flying hf (.onRequest pt th hr hat hcb (h.lands_other hapart lands))

/-- The run of the request executor ends without a callback stage. -/
theorem Touches.request_ashore (hb : s.Base) (hf : s.Flying T) (callback : s.Runs .callback th [])
    (lands : s.Lands .callback th) (hapart : ¬ th.Inside T) (h : s.Touches t .request T)
    (hqueue : t.taskQueue = s.taskQueue) (hr : t.Runs .request (.running T pt) [])
    (hl : t.Lands .request (.running T pt)) (hT : (t.task (.staged T)).status ≠ .TS_BUSY) : t.Inv := by
  have hcb : t.Runs .callback th [] := by
    rw [Runs, h.thread .callback (by simp), hqueue]
    exact callback
  refine ⟨h.base hb (hf.known hb) hr.1 ?_, .inl (h.ashore hf ?_ hT)⟩
  · intro e' he'
    cases e' with
    | request => exact absurd rfl he'
    | callback => rwa [callback.1]
  · intro e'
    cases e' with
    | request => exact ⟨_, hr, hl⟩
    | callback => exact ⟨th, hcb, h.lands_other hapart lands⟩

/-- A step of the request executor in the run of the task in flight. -/
theorem request_step (hb : s.Base) (hf : s.Flying T) (request : s.Runs .request (.running T pt) [])
    (at_ : s.OnRequest T pt) (callback : s.Runs .callback th []) (lands : s.Lands .callback th)
    (h : s.runStep .request o T pt = some t) : t.Inv := by
  have hapart : pt ≠ .front → pt ≠ .pop → ¬ th.Inside T := by
    intro hfront hpop hin
    refine hb.apart (show Executor.callback ≠ .request by simp) ?_ (callback.1 ▸ hin)
    rw [request.1]
    exact ⟨rfl, hfront, hpop⟩
  cases pt with
  | front =>
    obtain ⟨⟨hstage, hstatus⟩, hbusy⟩ := at_
    simp only [runStep, other, callback.1] at h
    split_ifs at h with hin
    rw [← Option.some_inj.mp h]
    exact (Touches.refl.setTask _ |>.moveTo _).onRequest hb hf callback lands hin rfl (request.change _ _)
      ⟨has_setTask hstage (by simp [Task.enter, hstage]), hbusy⟩
  | entered =>
    obtain ⟨hhas, hbusy⟩ := at_
    simp only [runStep, hf.async, Option.bind_eq_bind, Option.bind_some, Option.some_inj] at h
    rw [← h]
    exact (Touches.refl.moveTo _).onRequest hb hf callback lands (hapart (by simp) (by simp)) rfl request.moveTo
      ⟨rfl, hhas, hbusy⟩
  | switch c =>
    obtain ⟨rfl, hhas, hbusy⟩ := at_
    simp only [runStep, hhas.1, Option.some_inj] at h
    rw [← h]
    exact (Touches.refl.moveTo _).onRequest hb hf callback lands (hapart (by simp) (by simp)) rfl request.moveTo
      ⟨rfl, hhas, hbusy⟩
  | infer c =>
    obtain ⟨rfl, hhas, hbusy⟩ := at_
    cases o with
    | returns =>
      rw [← Option.some_inj.mp h]
      exact (Touches.refl.noteInfer _ _ |>.moveTo _).onRequest hb hf callback lands
        (hapart (by simp) (by simp)) rfl request.moveTo ⟨rfl, hhas, hbusy⟩
    | throws x =>
      rw [← Option.some_inj.mp h]
      exact (Touches.refl.noteInfer _ _ |>.moveTo _).onRequest hb hf callback lands
        (hapart (by simp) (by simp)) rfl request.moveTo ⟨rfl, hhas, hbusy⟩
    | timesOut => exact absurd h (by simp [runStep])
  | inferred c =>
    obtain ⟨rfl, ⟨hstage, hstatus⟩, hbusy⟩ := at_
    rw [runStep, stageDone_eq hstage, Option.some_inj] at h
    rw [← h]
    exact (Touches.refl.setTask _ |>.moveTo _).onRequest hb hf callback lands (hapart (by simp) (by simp)) rfl
      (request.change _ _) ⟨rfl, has_setTask rfl hstatus, hbusy⟩
  | migrate c =>
    obtain ⟨rfl, hhas, hbusy⟩ := at_
    simp only [runStep] at h
    split_ifs at h
    · rw [← Option.some_inj.mp h]
      exact (Touches.refl.moveTo _).onRequest hb hf callback lands (hapart (by simp) (by simp)) rfl
        request.moveTo ⟨rfl, hhas⟩
    · rw [← Option.some_inj.mp h]
      exact (Touches.refl.moveTo _).onRequest hb hf callback lands (hapart (by simp) (by simp)) rfl
        request.moveTo ⟨rfl, hhas, hbusy⟩
  | lastStage c =>
    obtain ⟨rfl, ⟨hstage, hstatus⟩, hbusy⟩ := at_
    rw [runStep, stageDone_eq hstage, Option.some_inj] at h
    rw [← h]
    have hhas : ((s.setTask (.staged c) { s.task (.staged c) with stage := 0 }).moveTo .request
        (.running c .returned)).Has c 0 .TS_POSTPONED := has_setTask rfl hstatus
    exact (Touches.refl.setTask _ |>.moveTo _).request_ashore hb hf callback lands
      (hapart (by simp) (by simp)) rfl (request.change _ _) hhas (by simp [hhas.2])
  | failure c x =>
    obtain ⟨rfl, hhas, hbusy⟩ := at_
    rw [runStep, Option.some_inj] at h
    rw [← h]
    exact (Touches.refl.setIsRequestBusy _ |>.moveTo _).onRequest hb hf callback lands
      (hapart (by simp) (by simp)) rfl request.moveTo ⟨rfl, hhas⟩
  | failed c x =>
    obtain ⟨rfl, hhas⟩ := at_
    simp only [runStep] at h
    split_ifs at h
    · rw [← Option.some_inj.mp h]
      exact (Touches.refl.moveTo _).onRequest hb hf callback lands (hapart (by simp) (by simp)) rfl
        request.moveTo ⟨rfl, .inl hhas⟩
    · rw [← Option.some_inj.mp h]
      refine (Touches.refl.moveTo _).request_ashore hb hf callback lands (hapart (by simp) (by simp)) rfl
        request.moveTo hhas.2 ?_
      exact fun hT => absurd (hhas.2.symm.trans hT) (by simp)
  | jump c x =>
    obtain ⟨rfl, hhas⟩ := at_
    rcases hhas with ⟨hstage, hstatus⟩ | hhas
    · have hdone : (s.task (.staged c)).stageDone = .ok { s.task (.staged c) with stage := 1 } := by
        simp [Task.stageDone, hstage]
      rw [runStep, if_neg (by omega), hdone, Option.some_inj] at h
      rw [← h]
      refine (Touches.refl.setTask _).onRequest hb hf callback lands (hapart (by simp) (by simp)) rfl request
        ⟨rfl, .inr ?_⟩
      constructor <;> simp [setTask, hstatus]
    · rw [runStep, if_pos hhas.1, Option.some_inj] at h
      rw [← h]
      exact (Touches.refl.moveTo _).onRequest hb hf callback lands (hapart (by simp) (by simp)) rfl
        request.moveTo ⟨rfl, hhas⟩
  | setStatus c x =>
    obtain ⟨rfl, hhas⟩ := at_
    rw [runStep, Option.some_inj] at h
    rw [← h]
    exact (Touches.refl.modifyManager _ |>.moveTo _).onRequest hb hf callback lands
      (hapart (by simp) (by simp)) rfl request.moveTo ⟨rfl, hhas⟩
  | setException c x =>
    obtain ⟨rfl, hhas⟩ := at_
    rw [runStep, Option.some_inj] at h
    rw [← h]
    exact (Touches.refl.modifyManager _ |>.moveTo _).onRequest hb hf callback lands
      (hapart (by simp) (by simp)) rfl request.moveTo ⟨rfl, hhas⟩
  | startTask c =>
    obtain ⟨rfl, hstage, hstatus⟩ := at_
    simp only [runStep, Task.occupy, hstatus, reduceCtorEq, if_false, if_true, Option.some_inj] at h
    rw [← h]
    exact (Touches.refl.setTask _ |>.moveTo _).onRequest hb hf callback lands (hapart (by simp) (by simp)) rfl
      (request.change _ _) ⟨rfl, has_setTask hstage rfl⟩
  | push c =>
    obtain ⟨rfl, hhas⟩ := at_
    rw [runStep, Option.some_inj] at h
    rw [← h]
    have htouch : s.Touches ((s.pushCallback c).moveTo .request (.running c .returned)) .request c :=
      (Touches.refl.pushCallback _).moveTo _
    have hth : ((s.pushCallback c).moveTo .request (.running c .returned)).thread .request =
        .running c .returned := by simp [AsyncRequest.moveTo]
    refine ⟨htouch.base hb (hf.known hb) hth ?_, .inr (.inr ⟨c, htouch.flying hf ?_⟩)⟩
    · intro e' he'
      cases e' with
      | request => exact absurd rfl he'
      | callback =>
        rw [callback.1]
        exact hapart (by simp) (by simp)
    · refine .landed (.running c .returned) th hhas ⟨hth, ?_⟩ (.inr rfl) ⟨?_, ?_⟩
        (htouch.lands_other (hapart (by simp) (by simp)) lands)
      · simpa [pushCallback, AsyncRequest.moveTo, Thread.tasks] using request.2
      · exact (htouch.thread .callback (by simp)).trans callback.1
      · simp [pushCallback, AsyncRequest.moveTo, callback.2]
  | _ => exact at_.elim

theorem Ends.lands (h : s.Ends T th) (hin : ¬ th.Inside T) : s.Lands .request th := by
  refine h.resolve_right fun hth => hin ?_
  rw [hth]
  exact ⟨rfl, by simp, by simp⟩

theorem Ends.of_touches (h : s.Ends T th) (ht : s.Touches t .callback T) (hin : ¬ th.Inside T) : t.Ends T th :=
  .inl (ht.lands_other hin (h.lands hin))

/-- A step of the callback executor in the run of the task in flight. -/
theorem callback_step (hb : s.Base) (hf : s.Flying T) (request : s.Runs .request th []) (ends : s.Ends T th)
    (callback : s.Runs .callback (.running T pt) []) (at_ : s.OnCallback T pt)
    (h : s.runStep .callback o T pt = some t) : t.Inv := by
  have hapart : pt ≠ .front → pt ≠ .pop → ¬ th.Inside T := by
    intro hfront hpop hin
    refine hb.apart (show Executor.request ≠ .callback by simp) ?_ (request.1 ▸ hin)
    rw [callback.1]
    exact ⟨rfl, hfront, hpop⟩
  have hstay : ∀ {t : AsyncRequest ι} {pt' : Point}, s.Touches t .callback T → ¬ th.Inside T →
      t.taskQueue = s.taskQueue → t.Runs .callback (.running T pt') [] → t.OnCallback T pt' → t.Inv := by
    intro t pt' ht hin hqueue hr hat
    have hreq : t.Runs .request th [] := by
      rw [Runs, ht.thread .request (by simp), hqueue]
      exact request
    refine ⟨ht.base hb (hf.known hb) hr.1 ?_, .inr (.inr ⟨T, ht.flying hf ?_⟩)⟩
    · intro e' he'
      cases e' with
      | request => rwa [request.1]
      | callback => exact absurd rfl he'
    · exact .onCallback pt' th hreq (ends.of_touches ht hin) hr hat
  cases pt with
  | front =>
    obtain ⟨hstage, hstatus⟩ := at_
    simp only [runStep, other, request.1] at h
    split_ifs at h with hin
    rw [← Option.some_inj.mp h]
    exact hstay (Touches.refl.setTask _ |>.moveTo _) hin rfl (callback.change _ _)
      (has_setTask hstage (by simp [Task.enter, hstage]))
  | entered =>
    simp only [runStep, hf.async, Option.bind_eq_bind, Option.bind_some, Option.some_inj] at h
    rw [← h]
    exact hstay (Touches.refl.moveTo _) (hapart (by simp) (by simp)) rfl callback.moveTo ⟨rfl, at_⟩
  | switch c =>
    obtain ⟨rfl, hhas⟩ := at_
    simp only [runStep, hhas.1, Option.some_inj] at h
    rw [← h]
    exact hstay (Touches.refl.moveTo _) (hapart (by simp) (by simp)) rfl callback.moveTo ⟨rfl, hhas⟩
  | freeFlag c =>
    obtain ⟨rfl, hhas⟩ := at_
    rw [runStep, Option.some_inj] at h
    rw [← h]
    have hin := hapart (by simp) (by simp)
    have htouch : s.Touches ((s.setIsRequestBusy false).moveTo .callback (.running c (.leaveStage c))) .callback c :=
      (Touches.refl.setIsRequestBusy _).moveTo _
    have hr : ((s.setIsRequestBusy false).moveTo .callback (.running c (.leaveStage c))).Runs .callback
        (.running c (.leaveStage c)) [] := callback.moveTo
    refine ⟨htouch.base hb (hf.known hb) hr.1 ?_, .inl (htouch.ashore hf ?_ ?_)⟩
    · intro e' he'
      cases e' with
      | request => rwa [request.1]
      | callback => exact absurd rfl he'
    · intro e'
      cases e' with
      | request =>
        exact ⟨th, ⟨(htouch.thread .request (by simp)).trans request.1, request.2⟩,
          htouch.lands_other hin (ends.lands hin)⟩
      | callback => exact ⟨_, hr, rfl, rfl, hhas⟩
    · exact fun hT => absurd (hhas.2.symm.trans hT) (by simp)
  | _ => exact at_.elim

/-! ### The next task of a queue -/

theorem Base.take (hb : s.Base) : (s.moveTo e (.running n .front)).Base where
  fresh := hb.fresh
  known := hb.known
  mutex m hboth := by
    cases e with
    | request => simp [AsyncRequest.moveTo, Thread.Inside] at hboth
    | callback => simp [AsyncRequest.moveTo, Thread.Inside] at hboth

/-- A thread with nothing to do takes the task in flight. -/
theorem take_inv (hs : s.Inv) (hidle : s.thread e = .idle) (hqueue : s.taskQueue e = n :: w) :
    (s.moveTo e (.running n .front)).Inv := by
  have hwait : s.waiting e = n :: w := by
    rw [waiting, hidle]
    exact hqueue
  have hquiet : ¬ s.Quiet := by
    intro hq
    obtain ⟨th, hr, -⟩ := hq e
    rw [hr.waiting] at hwait
    cases hwait
  rcases hs.phase with ha | ⟨c, hh⟩ | ⟨T, hf⟩
  · exact absurd ha.quiet hquiet
  · exact absurd hh.quiet hquiet
  · refine ⟨hs.base.take, .inr (.inr ⟨T, hf.free, hf.async, hf.current, hf.othersNotBusy, ?_⟩)⟩
    cases hf.place with
    | queued th th' busy has request lands callback lands' =>
      cases e with
      | callback =>
        rw [callback.waiting] at hwait
        cases hwait
      | request =>
        rw [request.waiting] at hwait
        cases hwait
        exact .onRequest .front th' ⟨by simp [AsyncRequest.moveTo], hqueue⟩ ⟨has, busy⟩
          ⟨by simpa [AsyncRequest.moveTo] using callback.1, callback.2⟩ lands'
    | onRequest pt th' request at_ callback lands' =>
      cases e with
      | request => exact absurd (hidle.symm.trans request.1) (by simp)
      | callback =>
        rw [callback.waiting] at hwait
        cases hwait
    | landed th th' has request ends callback lands' =>
      cases e with
      | request =>
        rw [request.waiting] at hwait
        cases hwait
      | callback =>
        rw [callback.waiting] at hwait
        cases hwait
        exact .onCallback .front th ⟨by simpa [AsyncRequest.moveTo] using request.1, request.2⟩ ends
          ⟨by simp [AsyncRequest.moveTo], hqueue⟩ has
    | onCallback pt th request ends callback at_ =>
      cases e with
      | callback => exact absurd (hidle.symm.trans callback.1) (by simp)
      | request =>
        rw [request.waiting] at hwait
        cases hwait

/-! ### A step of an executor -/

theorem Settles.inv (hs : s.Inv) (h : s.Settles t e T (s.waiting e)) (hl : ∀ T', s.Flying T' → s.Elsewhere e T') :
    t.Inv := by
  refine ⟨h.base hs.base, ?_⟩
  have hquiet : s.Quiet → s.waiting e = [] := by
    intro hq
    obtain ⟨th, hr, -⟩ := hq e
    exact hr.waiting
  rcases hs.phase with ha | ⟨c, hh⟩ | ⟨T', hf⟩
  · rw [hquiet ha.quiet] at h
    exact .inl (h.ashore hs.base ha)
  · rw [hquiet hh.quiet] at h
    exact .inr (.inl ⟨c, h.held hs.base hh⟩)
  · exact .inr (.inr ⟨T', h.flying hs.base (hl T' hf) hf⟩)

theorem lands_inv (hs : s.Inv) (hr : s.Runs e (.running T pt) w) (hl : s.Lands e (.running T pt))
    (hflag : s.FlagCondition (.exec e o)) (h : s.runStep e o T pt = some t) : t.Inv := by
  have hfree : ∀ c x, pt = .failure c x → s.isRequestBusy = false := by
    intro c x hpt
    rw [hpt] at hl hr
    obtain ⟨-, hc, hhas⟩ := hl
    simp only [FlagCondition, hr.1] at hflag
    exact hflag (hc ▸ hhas.1)
  have hset := LandsAt.step hr hl hfree h
  rw [← hr.waiting] at hset
  exact hset.inv hs fun _ _ => Lands.elsewhere (hr.1.symm ▸ hl)

theorem setTask_self (p : TaskPtr) : s.setTask p (s.task p) = s := by
  rw [setTask, Function.update_eq_self]

/-- The request executor leaves the function of a task that it has handed over. -/
theorem returned_inv (hs : s.Inv) (hr : s.Runs .request (.running T .returned) w)
    (hstage : (s.task (.staged T)).stage ≠ 0) (h : s.runStep .request o T .returned = some t) : t.Inv := by
  have hleave : (s.task (.staged T)).leave = s.task (.staged T) := by rw [Task.leave, if_neg hstage]
  rw [runStep, hleave, setTask_self, Option.some_inj] at h
  have hset : s.Settles t .request T w := by
    rw [← h]
    exact .move hr (by simp) trivial
  rw [← hr.waiting] at hset
  refine hset.inv hs fun T' _ pt hpt hat => ?_
  rw [hr.1] at hpt
  cases hpt
  exact hat

/-- **A step of an executor.** -/
theorem exec_inv (hs : s.Inv) (hflag : s.FlagCondition (.exec e o)) (h : s.execStep e o = some t) : t.Inv := by
  have hquiet : ∀ T pt, s.thread e = .running T pt → s.runStep e o T pt = some t → s.Quiet → t.Inv := by
    intro T pt hth hstep hq
    obtain ⟨th, hr, hl⟩ := hq e
    obtain rfl := hr.1.symm.trans hth
    exact lands_inv hs hr hl hflag hstep
  cases hth : s.thread e with
  | idle =>
    cases hqueue : s.taskQueue e with
    | nil => simp [execStep, hth, hqueue] at h
    | cons n w =>
      simp only [execStep, hth, hqueue, Option.some_inj] at h
      rw [← h]
      exact take_inv hs hth hqueue
  | running T pt =>
    simp only [execStep, hth] at h
    rcases hs.phase with ha | ⟨c, hh⟩ | ⟨T', hf⟩
    · exact hquiet T pt hth h ha.quiet
    · exact hquiet T pt hth h hh.quiet
    · have hends : ∀ th, e = .request → s.Runs .request th [] → s.Ends T' th →
          (s.task (.staged T')).stage ≠ 0 → t.Inv := by
        intro th he hr hends hstage
        subst he
        obtain rfl := hr.1.symm.trans hth
        rcases hends with hl | hret
        · exact lands_inv hs hr hl hflag h
        · cases hret
          exact returned_inv hs hr hstage h
      cases hf.place with
      | queued th th' busy has request lands callback lands' =>
        cases e with
        | request =>
          obtain rfl := request.1.symm.trans hth
          exact lands_inv hs request lands hflag h
        | callback =>
          obtain rfl := callback.1.symm.trans hth
          exact lands_inv hs callback lands' hflag h
      | onRequest pt' th' request at_ callback lands' =>
        cases e with
        | request =>
          cases request.1.symm.trans hth
          exact request_step hs.base hf request at_ callback lands' h
        | callback =>
          obtain rfl := callback.1.symm.trans hth
          exact lands_inv hs callback lands' hflag h
      | landed th th' has request ends callback lands' =>
        cases e with
        | request => exact hends th rfl request ends (by simp [has.1])
        | callback =>
          obtain rfl := callback.1.symm.trans hth
          exact lands_inv hs callback lands' hflag h
      | onCallback pt' th' request ends callback at_ =>
        cases e with
        | request => exact hends th' rfl request ends (by simp [at_.stage])
        | callback =>
          cases callback.1.symm.trans hth
          exact callback_step hs.base hf request ends callback at_ h

end OpenVino.InferenceEngine.AsyncRequest
