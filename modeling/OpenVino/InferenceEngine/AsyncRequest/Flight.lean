import OpenVino.InferenceEngine.AsyncRequest.Request

/-!
# The flight of a task

Between two starts the request is *ashore*: no task is queued and the executors are at most ending a run
(`Lands`). A `StartAsync` or an `Infer` that has taken the flag *holds* it (`Held`) until it returns, and a
`StartAsync` leaves a task *in flight* (`Flying`): queued for the request executor, run there through its
Infer stage, handed over to the callback executor, up to the moment at which the callback stage gives the
flag back. `Inv` says that the request is in one of the three. The flag is set while it is held and while
the task in flight has not left its Infer stage (`Flying.busy`).
-/

namespace OpenVino.InferenceEngine

/-- In a call that has taken the flag and not given it back yet. -/
def Call.Holding : Call → Prop
  | .startAsync .entry => False
  | .startAsync _ => True
  | .infer .entry => False
  | .infer _ => True
  | _ => False

instance (c : Call) : Decidable c.Holding := by
  unfold Call.Holding
  split <;> exact inferInstance

def Thread.tasks : Thread → List Nat
  | .idle => []
  | .running task _ => [task]

namespace AsyncRequest

variable {ι : Type} {s t : AsyncRequest ι} {e : Executor} {th : Thread} {w : List Nat}
  {pt : Point} {o : Choice} {T n : Nat} {c : Caller ι}

/-! ### The invariant -/

/-- The thread of `e` is at `th`, and the tasks `w` wait behind the one it runs. -/
def Runs (s : AsyncRequest ι) (e : Executor) (th : Thread) (w : List Nat) : Prop :=
  s.thread e = th ∧ s.taskQueue e = th.tasks ++ w

def Has (s : AsyncRequest ι) (n stage : Nat) (status : Task.Status) : Prop :=
  (s.task (.staged n)).stage = stage ∧ (s.task (.staged n)).status = status

/-- At the end of a run: after the flag was given back, or after the function was left. -/
def LandsAt (s : AsyncRequest ι) (e : Executor) (T : Nat) : Point → Prop
  | .leaveStage c => e = .callback ∧ c = T ∧ s.Has T 1 .TS_POSTPONED
  | .runCallback c => e = .callback ∧ c = T ∧ s.Has T 0 .TS_POSTPONED
  | .callback c => e = .callback ∧ c = T ∧ s.Has T 0 .TS_POSTPONED
  | .called c => e = .callback ∧ c = T ∧ s.Has T 0 .TS_POSTPONED
  | .failure c _ => e = .callback ∧ c = T ∧ s.Has T 0 .TS_POSTPONED
  | .failed c _ => e = .callback ∧ c = T ∧ s.Has T 0 .TS_POSTPONED
  | .returned => s.Has T 0 .TS_POSTPONED
  | .thrown _ => (s.task (.staged T)).status = .TS_POSTPONED
  | .unlock => True
  | .pop => True
  | _ => False

def Lands (s : AsyncRequest ι) (e : Executor) : Thread → Prop
  | .idle => True
  | .running T pt => s.LandsAt e T pt

/-- Nothing is queued, and the executors are at most ending a run. -/
def Quiet (s : AsyncRequest ι) : Prop := ∀ e, ∃ th, s.Runs e th [] ∧ s.Lands e th

def NoneBusy (s : AsyncRequest ι) : Prop := ∀ n, (s.task (.staged n)).status ≠ .TS_BUSY

def Linked (s : AsyncRequest ι) : Prop := ∀ n, s.currentTask = .staged n → s.asyncTask = some n

structure Base (s : AsyncRequest ι) : Prop where
  fresh : ∀ n, s.listAsyncTasks ≤ n → (s.task (.staged n)).status = .TS_INITIAL
  known : ∀ n, s.asyncTask = some n → n < s.listAsyncTasks
  mutex : ∀ n, ¬ ((s.thread .request).Inside n ∧ (s.thread .callback).Inside n)

structure Ashore (s : AsyncRequest ι) : Prop where
  free : ∀ c, ¬ (s.call c).Holding
  quiet : s.Quiet
  linked : s.Linked
  noneBusy : s.NoneBusy

/-- What a call that holds the flag has done so far. -/
def HeldAt (s : AsyncRequest ι) : Call → Prop
  | .startAsync .resetStages =>
    s.NoneBusy ∧ ∃ n, s.asyncTask = some n ∧ (s.task (.staged n)).status ≠ .TS_POSTPONED
  | .startAsync .startAsyncTask =>
    s.NoneBusy ∧ ∃ n, s.asyncTask = some n ∧ (s.task (.staged n)).status ≠ .TS_POSTPONED ∧
      (s.task (.staged n)).stage = 2
  | .startAsync (.push n) =>
    s.Has n 2 .TS_BUSY ∧ s.asyncTask = some n ∧ s.currentTask = .staged n ∧
      ∀ m, m ≠ n → (s.task (.staged m)).status ≠ .TS_BUSY
  | _ => s.Linked ∧ s.NoneBusy

structure Held (s : AsyncRequest ι) (c : Caller ι) : Prop where
  busy : s.isRequestBusy = true
  holding : (s.call c).Holding
  alone : ∀ c', c' ≠ c → ¬ (s.call c').Holding
  quiet : s.Quiet
  at_ : s.HeldAt (s.call c)

/-- The task in flight, run by the request executor. -/
def OnRequest (s : AsyncRequest ι) (T : Nat) : Point → Prop
  | .front => s.Has T 2 .TS_BUSY ∧ s.isRequestBusy = true
  | .entered => s.Has T 2 .TS_POSTPONED ∧ s.isRequestBusy = true
  | .switch c => c = T ∧ s.Has T 2 .TS_POSTPONED ∧ s.isRequestBusy = true
  | .infer c => c = T ∧ s.Has T 2 .TS_POSTPONED ∧ s.isRequestBusy = true
  | .inferred c => c = T ∧ s.Has T 2 .TS_POSTPONED ∧ s.isRequestBusy = true
  | .migrate c => c = T ∧ s.Has T 1 .TS_POSTPONED ∧ s.isRequestBusy = true
  | .lastStage c => c = T ∧ s.Has T 1 .TS_POSTPONED ∧ s.isRequestBusy = true
  | .failure c _ => c = T ∧ s.Has T 2 .TS_POSTPONED ∧ s.isRequestBusy = true
  | .failed c _ => c = T ∧ s.Has T 2 .TS_POSTPONED
  | .jump c _ => c = T ∧ (s.Has T 2 .TS_POSTPONED ∨ s.Has T 1 .TS_POSTPONED)
  | .setStatus c _ => c = T ∧ s.Has T 1 .TS_POSTPONED
  | .setException c _ => c = T ∧ s.Has T 1 .TS_POSTPONED
  | .startTask c => c = T ∧ s.Has T 1 .TS_POSTPONED
  | .push c => c = T ∧ s.Has T 1 .TS_BUSY
  | _ => False

/-- The task in flight, run by the callback executor. -/
def OnCallback (s : AsyncRequest ι) (T : Nat) : Point → Prop
  | .front => s.Has T 1 .TS_BUSY
  | .entered => s.Has T 1 .TS_POSTPONED
  | .switch c => c = T ∧ s.Has T 1 .TS_POSTPONED
  | .freeFlag c => c = T ∧ s.Has T 1 .TS_POSTPONED
  | _ => False

/-- At the end of a run, which may be the one that has handed `T` over. -/
def Ends (s : AsyncRequest ι) (T : Nat) (th : Thread) : Prop :=
  s.Lands .request th ∨ th = .running T .returned

inductive Place (s : AsyncRequest ι) (T : Nat) : Prop
  | queued (th th' : Thread) (busy : s.isRequestBusy = true) (has : s.Has T 2 .TS_BUSY)
    (request : s.Runs .request th [T]) (lands : s.Lands .request th)
    (callback : s.Runs .callback th' []) (lands' : s.Lands .callback th')
  | onRequest (pt : Point) (th' : Thread) (request : s.Runs .request (.running T pt) []) (at_ : s.OnRequest T pt)
    (callback : s.Runs .callback th' []) (lands' : s.Lands .callback th')
  | landed (th th' : Thread) (has : s.Has T 1 .TS_BUSY) (request : s.Runs .request th []) (ends : s.Ends T th)
    (callback : s.Runs .callback th' [T]) (lands' : s.Lands .callback th')
  | onCallback (pt : Point) (th : Thread) (request : s.Runs .request th []) (ends : s.Ends T th)
    (callback : s.Runs .callback (.running T pt) []) (at_ : s.OnCallback T pt)

structure Flying (s : AsyncRequest ι) (T : Nat) : Prop where
  free : ∀ c, ¬ (s.call c).Holding
  async : s.asyncTask = some T
  current : s.currentTask = .staged T
  othersNotBusy : ∀ n, n ≠ T → (s.task (.staged n)).status ≠ .TS_BUSY
  place : s.Place T

structure Inv (s : AsyncRequest ι) : Prop where
  base : s.Base
  phase : s.Ashore ∨ (∃ c, s.Held c) ∨ ∃ T, s.Flying T

/-! ### The condition on the steps -/

/-- The request executor hands a task over to the callback executor, most of the time after a failure. -/
def HandsOver : Thread → Prop
  | .running _ (.failed _ _) => True
  | .running _ (.jump _ _) => True
  | .running _ (.setStatus _ _) => True
  | .running _ (.setException _ _) => True
  | .running _ (.startTask _) => True
  | .running _ (.push _) => True
  | _ => False

instance (th : Thread) : Decidable (HandsOver th) := by
  unfold HandsOver
  split <;> exact inferInstance

/-- The callback executor has taken a task and not given the flag back yet. -/
def BeforeFree : Thread → Prop
  | .running _ .front => True
  | .running _ .entered => True
  | .running _ (.switch _) => True
  | .running _ (.freeFlag _) => True
  | _ => False

instance (th : Thread) : Decidable (BeforeFree th) := by
  unfold BeforeFree
  split <;> exact inferInstance

/-- The tasks of a queue that its thread has not taken. -/
def waiting (s : AsyncRequest ι) (e : Executor) : List Nat :=
  match s.thread e with
  | .idle => s.taskQueue e
  | .running _ _ => (s.taskQueue e).tail

/-- A task is on its way to its callback stage. -/
def CallbackAhead (s : AsyncRequest ι) : Prop :=
  HandsOver (s.thread .request) ∨ BeforeFree (s.thread .callback) ∨ s.waiting .callback ≠ []

instance (s : AsyncRequest ι) : Decidable s.CallbackAhead := inferInstanceAs (Decidable (_ ∨ _ ∨ _))

/-- **The condition on the steps that take the flag or give it back.** A `StartAsync` or an `Infer` that
finds the flag free does not come while a task is on its way to its callback stage; a `Wait` that finds the
flag set when it gives it back has seen its task finished, and neither has the request gone on to another
task nor does a call hold the flag; a callback stage that ends with an exception finds the flag free. -/
def FlagCondition (s : AsyncRequest ι) : Action ι → Prop
  | .begin _ _ => True
  | .call c _ =>
    match s.call c with
    | .startAsync .entry => s.isRequestBusy = false → ¬ s.CallbackAhead
    | .infer .entry => s.isRequestBusy = false → ¬ s.CallbackAhead
    | .wait _ (.woken t _) => s.isRequestBusy = true →
      (s.task t).Finished ∧ s.currentTask = t ∧ ∀ c, ¬ (s.call c).Holding
    | _ => True
  | .exec e _ =>
    match s.thread e with
    | .running _ (.failure copy _) => (s.task (.staged copy)).stage = 0 → s.isRequestBusy = false
    | _ => True

/-- The task whose failure the thread is about to process. -/
def failing : Thread → Option Nat
  | .running _ (.failure copy _) => some copy
  | _ => none

/-- The task that a `Wait` has come back from. -/
def wokenBy : Call → Option TaskPtr
  | .wait _ (.woken t _) => some t
  | _ => none

theorem flagCondition_exec_iff : s.FlagCondition (.exec e o) ↔
    ∀ copy ∈ failing (s.thread e), (s.task (.staged copy)).stage = 0 → s.isRequestBusy = false := by
  simp only [FlagCondition]
  cases s.thread e with
  | idle => simp [failing]
  | running task pt => cases pt <;> simp [failing]

theorem flagCondition_call_iff : s.FlagCondition (.call c o) ↔
    (s.call c = .startAsync .entry ∨ s.call c = .infer .entry → s.isRequestBusy = false → ¬ s.CallbackAhead) ∧
      ∀ p ∈ wokenBy (s.call c), s.isRequestBusy = true →
        (s.task p).Finished ∧ s.currentTask = p ∧ ∀ c, ¬ (s.call c).Holding := by
  simp only [FlagCondition]
  cases s.call c with
  | startAsync pt => cases pt <;> simp [wokenBy]
  | infer pt => cases pt <;> simp [wokenBy]
  | wait millis_timeout pt => cases pt <;> simp [wokenBy]
  | _ => simp [wokenBy]

instance [Fintype ι] (s : AsyncRequest ι) (a : Action ι) : Decidable (s.FlagCondition a) :=
  match a with
  | .begin _ _ => .isTrue trivial
  | .call _ _ => decidable_of_iff' _ flagCondition_call_iff
  | .exec _ _ => decidable_of_iff' _ flagCondition_exec_iff

/-! ### The end of a run -/

/-- What a step of the thread of `e` at the end of its run of `T` leaves as it was. -/
structure Settles (s t : AsyncRequest ι) (e : Executor) (T : Nat) (w : List Nat) : Prop where
  call : t.call = s.call
  asyncTask : t.asyncTask = s.asyncTask
  currentTask : t.currentTask = s.currentTask
  listAsyncTasks : t.listAsyncTasks = s.listAsyncTasks
  busy : t.isRequestBusy = s.isRequestBusy
  thread : ∀ e', e' ≠ e → t.thread e' = s.thread e' ∧ t.taskQueue e' = s.taskQueue e'
  task : ∀ n, n ≠ T → t.task (.staged n) = s.task (.staged n)
  own : t.task (.staged T) = s.task (.staged T) ∨ (s.thread e).Inside T ∧
    (s.task (.staged T)).status = .TS_POSTPONED ∧ (t.task (.staged T)).status ≠ .TS_BUSY
  lands : ∃ th, t.Runs e th w ∧ t.Lands e th
  inside : ∀ n, (t.thread e).Inside n → (s.thread e).Inside n

theorem Runs.waiting (h : s.Runs e th w) : s.waiting e = w := by
  cases th <;> simp [AsyncRequest.waiting, h.1, h.2, Thread.tasks]

theorem Runs.moveTo (h : s.Runs e (.running T pt) w) {pt' : Point} :
    (s.moveTo e (.running T pt')).Runs e (.running T pt') w :=
  ⟨Function.update_self .., h.2⟩

theorem Runs.change (h : s.Runs e (.running T pt) w) (p : TaskPtr) (v : Task) {pt' : Point} :
    ((s.setTask p v).moveTo e (.running T pt')).Runs e (.running T pt') w :=
  ⟨Function.update_self .., h.2⟩

theorem has_setTask {v : Task} {stage : Nat} {status : Task.Status} (hstage : v.stage = stage)
    (hstatus : v.status = status) : ((s.setTask (.staged T) v).moveTo e th).Has T stage status := by
  constructor <;> simp [setTask, AsyncRequest.moveTo, hstage, hstatus]

/-- The thread goes on to another place, and may change the task it runs on the way. -/
theorem Settles.change (hr : s.Runs e (.running T pt) w) (hpt : pt ≠ .front ∧ pt ≠ .pop) {v : Task} {pt' : Point}
    (hs : (s.task (.staged T)).status = .TS_POSTPONED) (hv : v.status ≠ .TS_BUSY)
    (hl : ((s.setTask (.staged T) v).moveTo e (.running T pt')).LandsAt e T pt') :
    s.Settles ((s.setTask (.staged T) v).moveTo e (.running T pt')) e T w where
  call := rfl
  asyncTask := rfl
  currentTask := rfl
  listAsyncTasks := rfl
  busy := rfl
  thread _ he := ⟨Function.update_of_ne he .., rfl⟩
  task n hn := Function.update_of_ne (by simpa using hn) ..
  own := by
    refine .inr ⟨?_, hs, ?_⟩
    · rw [hr.1]
      exact ⟨rfl, hpt⟩
    · rwa [show ((s.setTask (.staged T) v).moveTo e (.running T pt')).task (.staged T) = v from
        Function.update_self ..]
  lands := ⟨_, ⟨Function.update_self .., hr.2⟩, hl⟩
  inside n hn := by
    rw [show ((s.setTask (.staged T) v).moveTo e (.running T pt')).thread e = .running T pt' from
      Function.update_self ..] at hn
    rw [hr.1]
    exact ⟨hn.1, hpt⟩

theorem Settles.move (hr : s.Runs e (.running T pt) w) (hpt : pt ≠ .front ∧ pt ≠ .pop) {pt' : Point}
    (hl : s.LandsAt e T pt') : s.Settles (s.moveTo e (.running T pt')) e T w where
  call := rfl
  asyncTask := rfl
  currentTask := rfl
  listAsyncTasks := rfl
  busy := rfl
  thread _ he := ⟨Function.update_of_ne he .., rfl⟩
  task _ _ := rfl
  own := .inl rfl
  lands := ⟨_, hr.moveTo, hl⟩
  inside n hn := by
    rw [show (s.moveTo e (.running T pt')).thread e = .running T pt' from Function.update_self ..] at hn
    rw [hr.1]
    exact ⟨hn.1, hpt⟩

theorem Settles.history (h : s.Settles t e T w) (hist : History) :
    s.Settles { t with history := hist } e T w :=
  ⟨h.call, h.asyncTask, h.currentTask, h.listAsyncTasks, h.busy, h.thread, h.task, h.own, h.lands, h.inside⟩

theorem setIsRequestBusy_self (h : s.isRequestBusy = false) : s.setIsRequestBusy false = s := by
  rw [setIsRequestBusy, ← h]

theorem stageDone_eq {k : Nat} (h : (s.task (.staged n)).stage = k + 1) :
    s.stageDone e T n pt =
      (s.setTask (.staged n) { s.task (.staged n) with stage := k }).moveTo e (.running T pt) := by
  simp [stageDone, Task.stageDone, h]

theorem leave_of_last (h : (s.task (.staged n)).stage = 0) :
    (s.task (.staged n)).leave = { s.task (.staged n) with status := .TS_DONE } := by
  rw [Task.leave, if_pos h]

/-- **A step at the end of a run.** -/
theorem LandsAt.step (hr : s.Runs e (.running T pt) w) (hl : s.LandsAt e T pt)
    (hflag : ∀ c x, pt = .failure c x → s.isRequestBusy = false) (h : s.runStep e o T pt = some t) :
    s.Settles t e T w := by
  cases pt with
  | leaveStage c =>
    obtain ⟨rfl, rfl, hstage, hstatus⟩ := hl
    rw [runStep, stageDone_eq hstage, Option.some_inj] at h
    rw [← h]
    exact .change hr (by simp) hstatus (by simp [hstatus]) ⟨rfl, rfl, has_setTask rfl hstatus⟩
  | runCallback c =>
    obtain ⟨rfl, rfl, hhas⟩ := hl
    simp only [runStep] at h
    split_ifs at h
    · rw [← Option.some_inj.mp h]
      have hmove : s.Settles (s.moveTo .callback (.running c (.callback c))) .callback c w :=
        .move hr (by simp) ⟨rfl, rfl, hhas⟩
      exact hmove.history _
    · rw [← Option.some_inj.mp h]
      exact .move hr (by simp) ⟨rfl, rfl, hhas⟩
    · rw [← Option.some_inj.mp h]
      exact .move hr (by simp) hhas
  | callback c =>
    obtain ⟨rfl, rfl, hhas⟩ := hl
    simp only [runStep] at h
    split_ifs at h
    cases o with
    | returns =>
      rw [← Option.some_inj.mp h]
      exact .move hr (by simp) ⟨rfl, rfl, hhas⟩
    | throws x =>
      rw [← Option.some_inj.mp h]
      exact .move hr (by simp) ⟨rfl, rfl, hhas⟩
    | timesOut => exact absurd h (by simp)
  | called c =>
    obtain ⟨rfl, rfl, hhas⟩ := hl
    simp only [runStep] at h
    split at h
    · rw [← Option.some_inj.mp h]
      exact .move hr (by simp) ⟨rfl, rfl, hhas⟩
    · rw [← Option.some_inj.mp h]
      exact .move hr (by simp) hhas
  | failure c x =>
    obtain ⟨rfl, rfl, hhas⟩ := hl
    rw [runStep, setIsRequestBusy_self (hflag c x rfl), Option.some_inj] at h
    rw [← h]
    exact .move hr (by simp) ⟨rfl, rfl, hhas⟩
  | failed c x =>
    obtain ⟨rfl, rfl, hstage, hstatus⟩ := hl
    rw [runStep, if_neg (by rw [hstage]; omega), Option.some_inj] at h
    rw [← h]
    exact .move hr (by simp) hstatus
  | returned =>
    obtain ⟨hstage, hstatus⟩ := hl
    rw [runStep, leave_of_last hstage, Option.some_inj] at h
    rw [← h]
    exact .change hr (by simp) hstatus (by simp) trivial
  | thrown x =>
    rw [runStep, Option.some_inj] at h
    rw [← h]
    exact .change hr (by simp) hl (by simp [Task.fail]) trivial
  | unlock =>
    rw [runStep, Option.some_inj] at h
    rw [← h]
    exact .move hr (by simp) trivial
  | pop =>
    rw [runStep, Option.some_inj] at h
    rw [← h]
    exact {
      call := rfl
      asyncTask := rfl
      currentTask := rfl
      listAsyncTasks := rfl
      busy := rfl
      thread := fun _ he => ⟨Function.update_of_ne he .., Function.update_of_ne he ..⟩
      task := fun _ _ => rfl
      own := .inl rfl
      lands := ⟨.idle, ⟨Function.update_self .., by
        simp [AsyncRequest.moveTo, hr.2, Thread.tasks]⟩, trivial⟩
      inside := fun n hn => by
        simp [AsyncRequest.moveTo, Thread.Inside] at hn }
  | _ => exact hl.elim

/-- The task `n` has the same stage and the same status. -/
def SameTask (s t : AsyncRequest ι) (n : Nat) : Prop :=
  (t.task (.staged n)).stage = (s.task (.staged n)).stage ∧ (t.task (.staged n)).status = (s.task (.staged n)).status

theorem SameTask.of_eq (h : t.task (.staged n) = s.task (.staged n)) : s.SameTask t n := by
  rw [SameTask, h]
  exact ⟨rfl, rfl⟩

/-- Only the task of a run that has not set its status yet matters. -/
theorem Lands.of_same (h : s.Lands e th)
    (htask : ∀ n, th.Inside n → (s.task (.staged n)).status = .TS_POSTPONED → s.SameTask t n) : t.Lands e th := by
  cases th with
  | idle => trivial
  | running T pt =>
    by_cases hpt : (s.task (.staged T)).status = .TS_POSTPONED ∧ pt ≠ .front ∧ pt ≠ .pop
    · obtain ⟨hstage, hstatus⟩ := htask T ⟨rfl, hpt.2⟩ hpt.1
      revert h
      cases pt <;> simp only [Lands, LandsAt, Has, hstage, hstatus, imp_self]
    · cases pt <;> simp_all [Lands, LandsAt, Has]

theorem Base.apart (h : s.Base) {e' : Executor} (he : e' ≠ e) (hn : (s.thread e).Inside n) :
    ¬ (s.thread e').Inside n := by
  intro hn'
  cases e <;> cases e' <;> first | exact absurd rfl he | exact h.mutex n ⟨‹_›, ‹_›⟩

theorem Settles.task_of_status (h : s.Settles t e T w) (hn : (s.task (.staged n)).status ≠ .TS_POSTPONED) :
    t.task (.staged n) = s.task (.staged n) := by
  by_cases hT : n = T
  · rw [hT] at hn ⊢
    exact h.own.resolve_right fun hown => hn hown.2.1
  · exact h.task n hT

theorem Settles.task_of_inside (hb : s.Base) (h : s.Settles t e T w) {e' : Executor} (he : e' ≠ e)
    (hn : (s.thread e').Inside n) : t.task (.staged n) = s.task (.staged n) := by
  by_cases hT : n = T
  · rw [hT] at hn ⊢
    exact h.own.resolve_right fun hown => hb.apart he hown.1 hn
  · exact h.task n hT

theorem Settles.lands_other (hb : s.Base) (h : s.Settles t e T w) {e' : Executor} (he : e' ≠ e)
    (hth : s.thread e' = th) (hl : s.Lands e' th) : t.Lands e' th := by
  refine hl.of_same fun n hn _ => ?_
  rw [← hth] at hn
  exact .of_eq (h.task_of_inside hb he hn)

theorem Settles.runs_other (h : s.Settles t e T w) {e' : Executor} (he : e' ≠ e) {w' : List Nat}
    (hr : s.Runs e' th w') : t.Runs e' th w' := by
  rw [Runs, (h.thread e' he).1, (h.thread e' he).2]
  exact hr

theorem Settles.noneBusy_except (h : s.Settles t e T w) {P : Nat → Prop}
    (hs : ∀ n, P n → (s.task (.staged n)).status ≠ .TS_BUSY) (n : Nat) (hn : P n) :
    (t.task (.staged n)).status ≠ .TS_BUSY := by
  by_cases hT : n = T
  · rw [hT] at hn ⊢
    rcases h.own with hown | hown
    · rw [hown]
      exact hs T hn
    · exact hown.2.2
  · rw [h.task n hT]
    exact hs n hn

theorem Settles.base (hb : s.Base) (h : s.Settles t e T w) : t.Base where
  fresh n hn := by
    rw [h.listAsyncTasks] at hn
    have hfresh := hb.fresh n hn
    rw [h.task_of_status (by simp [hfresh])]
    exact hfresh
  known n hn := by
    rw [h.listAsyncTasks]
    exact hb.known n (h.asyncTask ▸ hn)
  mutex n hboth := by
    cases e with
    | request =>
      rw [(h.thread .callback (by simp)).1] at hboth
      exact hb.mutex n ⟨h.inside n hboth.1, hboth.2⟩
    | callback =>
      rw [(h.thread .request (by simp)).1] at hboth
      exact hb.mutex n ⟨hboth.1, h.inside n hboth.2⟩

theorem Settles.quiet (hb : s.Base) (h : s.Settles t e T []) (hq : s.Quiet) : t.Quiet := by
  intro e'
  by_cases he : e' = e
  · rw [he]
    exact h.lands
  · obtain ⟨th, hr, hl⟩ := hq e'
    exact ⟨th, h.runs_other he hr, h.lands_other hb he hr.1 hl⟩

theorem Settles.linked (h : s.Settles t e T w) (hl : s.Linked) : t.Linked := by
  intro n hn
  rw [h.asyncTask]
  exact hl n (h.currentTask ▸ hn)

theorem Settles.ashore (hb : s.Base) (h : s.Settles t e T []) (ha : s.Ashore) : t.Ashore where
  free := by
    rw [h.call]
    exact ha.free
  quiet := h.quiet hb ha.quiet
  linked := h.linked ha.linked
  noneBusy n := h.noneBusy_except (P := fun _ => True) (fun n _ => ha.noneBusy n) n trivial

theorem Settles.heldAt (h : s.Settles t e T w) {pc : Call} (hat : s.HeldAt pc) : t.HeldAt pc := by
  have hnone : s.NoneBusy → t.NoneBusy := fun hn n =>
    h.noneBusy_except (P := fun _ => True) (fun n _ => hn n) n trivial
  have hrest : s.Linked ∧ s.NoneBusy → t.Linked ∧ t.NoneBusy := fun hl => ⟨h.linked hl.1, hnone hl.2⟩
  cases pc with
  | startAsync pt =>
    cases pt with
    | resetStages =>
      obtain ⟨hn, n, hasync, hstatus⟩ := hat
      refine ⟨hnone hn, n, h.asyncTask.trans hasync, ?_⟩
      rwa [h.task_of_status hstatus]
    | startAsyncTask =>
      obtain ⟨hn, n, hasync, hstatus, hstage⟩ := hat
      refine ⟨hnone hn, n, h.asyncTask.trans hasync, ?_⟩
      rw [h.task_of_status hstatus]
      exact ⟨hstatus, hstage⟩
    | push n =>
      obtain ⟨hhas, hasync, hcurrent, hothers⟩ := hat
      refine ⟨?_, h.asyncTask.trans hasync, h.currentTask.trans hcurrent, h.noneBusy_except hothers⟩
      rw [Has, h.task_of_status (by simp [hhas.2])]
      exact hhas
    | _ => exact hrest hat
  | _ => exact hrest hat

theorem Settles.held (hb : s.Base) (h : s.Settles t e T []) (hh : s.Held c) : t.Held c where
  busy := h.busy.trans hh.busy
  holding := by
    rw [h.call]
    exact hh.holding
  alone := by
    rw [h.call]
    exact hh.alone
  quiet := h.quiet hb hh.quiet
  at_ := by
    rw [h.call]
    exact h.heldAt hh.at_

end AsyncRequest

end OpenVino.InferenceEngine
