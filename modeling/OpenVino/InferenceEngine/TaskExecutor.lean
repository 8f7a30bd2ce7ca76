import Mathlib
import OpenVino.Base.Runs
import OpenVino.InferenceEngine.AsyncRequest.Task

/-!
# A thread that executes tasks

A `TaskExecutor`: a queue of tasks, a worker thread that executes them, `startTask` from any thread and from inside a
running task, and the destructor. `Inv` says what stands in the queue; each step of the worker lowers the work that is
left (`Inv.gets_on`). When no `startTask` is under way as the destructor is entered, the accepted tasks are executed once,
in order and one at a time, and the destructor returns after the last of them (`executes`).
-/

set_option linter.unusedSectionVars false

namespace OpenVino.InferenceEngine

/-- Where the worker thread is. -/
inductive WorkerPoint (τ : Type)
  | test                                   -- `while (!_isStopped)`
  | wait
  | taken (currentTask : Option τ)         -- `if (_isStopped && isQueueEmpty)`
  | run (currentTask : τ)                  -- in `runNoThrowNoBusyCheck`, before the function
  | function (currentTask : τ)
  | setStatus (currentTask : τ) (x : Option Thrown)
  | pop (currentTask : τ)
  | exited
deriving DecidableEq

namespace WorkerPoint

variable {τ : Type} {w : WorkerPoint τ}

/-- The task that the worker has taken from the front of the queue. -/
def held : WorkerPoint τ → List τ
  | .taken (some t) | .run t | .function t | .setStatus t _ | .pop t => [t]
  | .test | .wait | .taken none | .exited => []

/-- That task, when its function has begun. -/
def begun : WorkerPoint τ → List τ
  | .function t | .setStatus t _ | .pop t => [t]
  | .test | .wait | .taken _ | .run _ | .exited => []

/-- That task, when its function has ended. -/
def ended : WorkerPoint τ → List τ
  | .setStatus t _ | .pop t => [t]
  | .test | .wait | .taken _ | .run _ | .function _ | .exited => []

theorem begun_prefix : w.begun <+: w.held := by
  cases w with
  | taken t => cases t <;> exact List.nil_prefix
  | _ => first | exact List.prefix_refl _ | exact List.nil_prefix

theorem ended_prefix : w.ended <+: w.begun := by
  cases w <;> first | exact List.prefix_refl _ | exact List.nil_prefix

theorem length_begun : w.begun.length ≤ 1 := by
  cases w <;> first | exact le_rfl | exact Nat.zero_le 1

/-- How far the worker is from the end of its loop's body. -/
def rank : WorkerPoint τ → Nat
  | .test => 7
  | .wait => 6
  | .taken _ => 5
  | .run _ => 4
  | .function _ => 3
  | .setStatus _ _ => 2
  | .pop _ => 1
  | .exited => 0

end WorkerPoint

/-- Where the destructor is; the queue is waited for and `_isStopped` set under one lock. -/
inductive DestructorPoint
  | alive
  | entered
  | joining
  | returned
deriving DecidableEq

/-- Who calls `startTask`: a thread of its own, or the worker from inside the task it runs. -/
inductive Starter (ι : Type)
  | client (i : ι)
  | worker
deriving DecidableEq

/-- Where a thread is in `startTask`. -/
inductive StartTaskPoint
  | occupy
  | push

/-- The executor, the tasks, where the threads are, and what has happened: the calls of `startTask` that have been
accepted, and the executions that have begun and ended. -/
structure TaskExecutor (ι τ : Type) where
  task : τ → Task
  taskQueue : List τ := []
  isStopped : Bool := false
  worker : WorkerPoint τ := .test
  destructor : DestructorPoint := .alive
  call : Starter ι → Option (τ × StartTaskPoint) := fun _ => none
  accepted : List τ := []
  began : List τ := []
  ended : List τ := []

namespace TaskExecutor

/-- A thread calls `startTask` or gets on with it; the worker gets on, and `x` is what a function that it is in throws;
the destructor is entered or gets on. -/
inductive Action (ι τ : Type)
  | call (c : Starter ι) (t : τ)
  | step (c : Starter ι)
  | work (x : Option Thrown)
  | destroy
  | destructor

variable {ι τ : Type}

/-- The worker calls from inside a task only. -/
def MayCall (s : TaskExecutor ι τ) : Starter ι → Bool
  | .client _ => true
  | .worker => match s.worker with
    | .function _ => true
    | .test | .wait | .taken _ | .run _ | .setStatus _ _ | .pop _ | .exited => false

section Steps

variable [DecidableEq ι] [DecidableEq τ]

def setCall (s : TaskExecutor ι τ) (c : Starter ι) (at_ : Option (τ × StartTaskPoint)) : TaskExecutor ι τ :=
  { s with call := Function.update s.call c at_ }

def setTask (s : TaskExecutor ι τ) (t : τ) (v : Task) : TaskExecutor ι τ :=
  { s with task := Function.update s.task t v }

/-- A thread gets on with `startTask`. -/
def startTask (s : TaskExecutor ι τ) (c : Starter ι) (t : τ) : StartTaskPoint → TaskExecutor ι τ
  | .occupy =>
    let (occupied, v) := (s.task t).occupy
    if occupied then (s.setTask t v).setCall c (some (t, .push)) else s.setCall c none
  | .push => { s.setCall c none with taskQueue := s.taskQueue ++ [t], accepted := s.accepted ++ [t] }

/-- The worker gets on. -/
def workStep (s : TaskExecutor ι τ) (x : Option Thrown) : WorkerPoint τ → Option (TaskExecutor ι τ)
  | .test => some { s with worker := if s.isStopped then .exited else .wait }
  | .wait =>
    if s.taskQueue ≠ [] ∨ s.isStopped = true then some { s with worker := .taken s.taskQueue.head? } else none
  | .taken none => some { s with worker := if s.isStopped then .exited else .test }
  | .taken (some t) => some { s with worker := .run t }
  | .run t => some { s.setTask t (s.task t).enter with worker := .function t, began := s.began ++ [t] }
  | .function t =>
    if s.call .worker = none then some { s with worker := .setStatus t x, ended := s.ended ++ [t] } else none
  | .setStatus t none => some { s.setTask t (s.task t).leave with worker := .pop t }
  | .setStatus t (some x) => some { s.setTask t ((s.task t).fail x) with worker := .pop t }
  | .pop _ => some { s with worker := .test, taskQueue := s.taskQueue.tail }
  | .exited => none

def next (s : TaskExecutor ι τ) : Action ι τ → Option (TaskExecutor ι τ)
  | .call c t => if s.call c = none ∧ s.MayCall c = true then some (s.setCall c (some (t, .occupy))) else none
  | .step c => (s.call c).map fun a => s.startTask c a.1 a.2
  | .work x => s.workStep x s.worker
  | .destroy => if s.destructor = .alive then some { s with destructor := .entered } else none
  | .destructor =>
    if s.destructor = .entered ∧ s.taskQueue = [] then some { s with isStopped := true, destructor := .joining }
    else if s.destructor = .joining ∧ s.worker = .exited then some { s with destructor := .returned }
    else none

/-- The runs that start with a new executor. -/
def system (task : τ → Task) (allowed : TaskExecutor ι τ → Action ι τ → Prop) : System (TaskExecutor ι τ) :=
  .ofActions next allowed { task }

end Steps

/-- No call is under way when the destructor is entered, and none begins afterwards but from a running task. -/
def NoOpenCall (s : TaskExecutor ι τ) : Action ι τ → Prop
  | .call (.client _) _ => s.destructor = .alive
  | .destroy => ∀ i, s.call (.client i) = none
  | _ => True

/-- Each accepted call leads to one execution, in the order of acceptance and one at a time. -/
structure Executes (s : TaskExecutor ι τ) : Prop where
  order : s.began <+: s.accepted
  alone : s.ended <+: s.began ∧ s.began.length ≤ s.ended.length + 1
  returned : s.destructor = .returned → s.ended = s.accepted

/-! ### The queue -/

/-- The tasks `done` have left the queue, the worker holds its front, and behind a destructor that has set `_isStopped`
there is nothing left to do. -/
structure Inv (s : TaskExecutor ι τ) (done : List τ) : Prop where
  accepted : s.accepted = done ++ s.taskQueue
  began : s.began = done ++ s.worker.begun
  ended : s.ended = done ++ s.worker.ended
  held : s.worker.held <+: s.taskQueue
  inside : s.call .worker ≠ none → s.MayCall .worker = true
  stopped : s.isStopped = true → s.taskQueue = [] ∧ s.destructor ≠ .alive
  idle : s.destructor ≠ .alive → ∀ i, s.call (.client i) = none
  stale : s.worker = .taken none → s.isStopped = true
  gone : s.worker = .exited → s.isStopped = true
  joined : s.destructor = .returned → s.worker = .exited

variable {s u : TaskExecutor ι τ} {done : List τ} {c : Starter ι} {t : τ} {x : Option Thrown} {a : Action ι τ}
  {task : τ → Task}

theorem Inv.init : Inv ({ task } : TaskExecutor ι τ) [] where
  accepted := rfl
  began := rfl
  ended := rfl
  held := List.prefix_refl []
  inside h := absurd rfl h
  stopped h := by cases h
  idle h := absurd rfl h
  stale h := by cases h
  gone h := by cases h
  joined h := by cases h

theorem exists_function (h : s.MayCall .worker = true) : ∃ t, s.worker = .function t := by
  unfold MayCall at h
  cases hw : s.worker with
  | function t => exact ⟨t, rfl⟩
  | _ =>
    rw [hw] at h
    cases h

/-- Nothing is stopped while a call is under way. -/
theorem Inv.not_stopped (h : s.Inv done) {at_ : StartTaskPoint} (hc : s.call c = some (t, at_)) :
    s.isStopped = false := by
  by_contra hcon
  have hstopped : s.isStopped = true := by simpa using hcon
  obtain ⟨hempty, hdestructor⟩ := h.stopped hstopped
  cases c with
  | client i =>
    rw [h.idle hdestructor] at hc
    cases hc
  | worker =>
    obtain ⟨t', hw⟩ := exists_function (h.inside (by rw [hc]; exact Option.some_ne_none _))
    have hheld := h.held
    rw [hw, hempty] at hheld
    exact absurd (List.prefix_nil.mp hheld) (List.cons_ne_nil t' [])

section Steps

variable [DecidableEq ι] [DecidableEq τ]

theorem call_setCall_self {at_ : Option (τ × StartTaskPoint)} : (s.setCall c at_).call c = at_ := by
  rw [setCall]
  exact Function.update_self _ _ _

theorem call_setCall_of_ne {c' : Starter ι} {at_ : Option (τ × StartTaskPoint)} (hc : c' ≠ c) :
    (s.setCall c at_).call c' = s.call c' := by
  rw [setCall]
  exact Function.update_of_ne hc _ _

/-- A call of `startTask` begins, ends, or gets on without entering the queue. -/
theorem Inv.setCall (h : s.Inv done) {at_ : Option (τ × StartTaskPoint)}
    (hworker : c = .worker → at_ ≠ none → s.MayCall .worker = true)
    (hclient : at_ ≠ none → s.destructor ≠ .alive → c = .worker) : (s.setCall c at_).Inv done := by
  refine ⟨h.accepted, h.began, h.ended, h.held, fun hcall => ?_, h.stopped, fun hdestructor i => ?_, h.stale, h.gone,
    h.joined⟩
  · by_cases hc : c = .worker
    · subst hc
      rw [call_setCall_self] at hcall
      exact hworker rfl hcall
    · rw [call_setCall_of_ne (Ne.symm hc)] at hcall
      exact h.inside hcall
  · by_cases hc : c = .client i
    · subst hc
      rw [call_setCall_self]
      by_contra hne
      cases hclient hne hdestructor
    · rw [call_setCall_of_ne (Ne.symm hc)]
      exact h.idle hdestructor i

theorem Inv.setTask (h : s.Inv done) (t : τ) (v : Task) : (s.setTask t v).Inv done :=
  ⟨h.accepted, h.began, h.ended, h.held, h.inside, h.stopped, h.idle, h.stale, h.gone, h.joined⟩

theorem Inv.startTask (h : s.Inv done) {at_ : StartTaskPoint} (hc : s.call c = some (t, at_)) :
    (s.startTask c t at_).Inv done := by
  have hworker : c = .worker → s.MayCall .worker = true := by
    rintro rfl
    exact h.inside (by rw [hc]; exact Option.some_ne_none _)
  have hclient : s.destructor ≠ .alive → c = .worker := by
    intro hdestructor
    cases c with
    | client i =>
      rw [h.idle hdestructor] at hc
      cases hc
    | worker => rfl
  have hends : (s.setCall c none).Inv done := h.setCall (fun _ hnone => absurd rfl hnone) fun hnone => absurd rfl hnone
  cases at_ with
  | occupy =>
    simp only [TaskExecutor.startTask]
    split_ifs
    · exact (h.setTask t _).setCall (fun hcw _ => hworker hcw) fun _ => hclient
    · exact hends
  | push =>
    have hstopped := h.not_stopped hc
    refine ⟨?_, hends.began, hends.ended, hends.held.trans (List.prefix_append _ _), hends.inside, fun hcon => ?_,
      hends.idle, hends.stale, hends.gone, hends.joined⟩
    · exact (congrArg (· ++ [t]) h.accepted).trans (List.append_assoc _ _ _)
    · rw [show (s.startTask c t .push).isStopped = s.isStopped from rfl, hstopped] at hcon
      cases hcon

/-- A step of the worker that keeps the queue. -/
theorem Inv.moveWorker (h : s.Inv done) {w : WorkerPoint τ} {f : τ → Task} {b e : List τ}
    (hcalls : s.call .worker = none ∨ ∃ t, w = .function t) (hheld : w.held <+: s.taskQueue)
    (hstale : w = .taken none → s.isStopped = true) (hgone : w = .exited → s.isStopped = true)
    (hworker : s.worker ≠ .exited) (hbegan : b = done ++ w.begun) (hended : e = done ++ w.ended) :
    ({ s with task := f, worker := w, began := b, ended := e } : TaskExecutor ι τ).Inv done := by
  refine ⟨h.accepted, hbegan, hended, hheld, fun hu => ?_, h.stopped, h.idle, hstale, hgone, fun hret => ?_⟩
  · rcases hcalls with hnone | ⟨t, rfl⟩
    · exact absurd hnone hu
    · rfl
  · exact absurd (h.joined hret) hworker

/-- The worker is inside a task while it calls. -/
theorem Inv.call_none (h : s.Inv done) (hw : s.MayCall .worker = false) : s.call .worker = none := by
  by_contra hcall
  rw [h.inside hcall] at hw
  cases hw

/-- Behind `while` and behind `if`: the worker goes on unless it is stopped. -/
theorem Inv.stopOr (h : s.Inv done) {w : WorkerPoint τ} (hw : w = .wait ∨ w = .test) (hcall : s.call .worker = none)
    (hworker : s.worker ≠ .exited) (hbegan : s.began = done) (hended : s.ended = done) :
    ({ s with worker := if s.isStopped = true then .exited else w } : TaskExecutor ι τ).Inv done := by
  by_cases hstopped : s.isStopped = true
  · rw [if_pos hstopped]
    refine h.moveWorker (.inl hcall) List.nil_prefix (fun h => ?_) (fun _ => hstopped) hworker ?_ ?_
    · cases h
    · exact hbegan.trans (List.append_nil done).symm
    · exact hended.trans (List.append_nil done).symm
  · rw [if_neg hstopped]
    rcases hw with rfl | rfl <;>
      exact h.moveWorker (.inl hcall) List.nil_prefix (fun h => by cases h) (fun h => by cases h) hworker
        (hbegan.trans (List.append_nil done).symm) (hended.trans (List.append_nil done).symm)

theorem Inv.work (h : s.Inv done) (hstep : s.workStep x s.worker = some u) : ∃ done, u.Inv done := by
  have hbegan := h.began
  have hended := h.ended
  have hheld := h.held
  cases hw : s.worker with
  | test =>
    rw [hw] at hstep hbegan hended
    obtain rfl := Option.some_inj.mp hstep
    exact ⟨done, h.stopOr (.inl rfl) (h.call_none (by rw [MayCall, hw])) (by rw [hw]; simp)
      (hbegan.trans (List.append_nil done)) (hended.trans (List.append_nil done))⟩
  | wait =>
    have hcall := h.call_none (by rw [MayCall, hw])
    rw [hw] at hstep hbegan hended
    simp only [workStep] at hstep
    split_ifs at hstep with hready
    obtain rfl := Option.some_inj.mp hstep
    refine ⟨done, h.moveWorker (.inl hcall) ?_ (fun hnone => ?_) (fun h => by cases h) (by rw [hw]; simp) ?_ ?_⟩
    · cases s.taskQueue with
      | nil => exact List.nil_prefix
      | cons t rest => exact ⟨rest, rfl⟩
    · have hempty : s.taskQueue = [] := List.head?_eq_none_iff.mp (WorkerPoint.taken.inj hnone)
      rcases hready with hne | hstopped
      · exact absurd hempty hne
      · exact hstopped
    · cases s.taskQueue <;> exact hbegan
    · cases s.taskQueue <;> exact hended
  | taken t =>
    have hcall := h.call_none (by rw [MayCall, hw])
    rw [hw] at hstep hbegan hended hheld
    cases t with
    | none =>
      obtain rfl := Option.some_inj.mp hstep
      exact ⟨done, h.stopOr (.inr rfl) hcall (by rw [hw]; simp) (hbegan.trans (List.append_nil done))
        (hended.trans (List.append_nil done))⟩
    | some t =>
      obtain rfl := Option.some_inj.mp hstep
      exact ⟨done, h.moveWorker (.inl hcall) hheld (fun h => by cases h) (fun h => by cases h) (by rw [hw]; simp)
        hbegan hended⟩
  | run t =>
    rw [hw] at hstep hbegan hended hheld
    obtain rfl := Option.some_inj.mp hstep
    refine ⟨done, h.moveWorker (.inr ⟨t, rfl⟩) hheld (fun h => by cases h) (fun h => by cases h) (by rw [hw]; simp) ?_
      hended⟩
    exact congrArg (· ++ [t]) (hbegan.trans (List.append_nil done))
  | function t =>
    rw [hw] at hstep hbegan hended hheld
    simp only [workStep] at hstep
    split_ifs at hstep with hcall
    obtain rfl := Option.some_inj.mp hstep
    refine ⟨done, h.moveWorker (.inl hcall) hheld (fun h => by cases h) (fun h => by cases h) (by rw [hw]; simp)
      hbegan ?_⟩
    exact congrArg (· ++ [t]) (hended.trans (List.append_nil done))
  | setStatus t y =>
    have hcall := h.call_none (by rw [MayCall, hw])
    rw [hw] at hstep hbegan hended hheld
    cases y <;>
    · obtain rfl := Option.some_inj.mp hstep
      exact ⟨done, h.moveWorker (.inl hcall) hheld (fun h => by cases h) (fun h => by cases h) (by rw [hw]; simp)
        hbegan hended⟩
  | pop t =>
    have hcall := h.call_none (by rw [MayCall, hw])
    rw [hw] at hstep hbegan hended hheld
    obtain rfl := Option.some_inj.mp hstep
    obtain ⟨rest, hqueue⟩ := hheld
    have hstopped : s.isStopped ≠ true := by
      intro hcon
      have hempty := (h.stopped hcon).1
      rw [← hqueue] at hempty
      cases hempty
    refine ⟨done ++ [t], ?_, ?_, ?_, List.nil_prefix, fun hu => absurd hcall hu, fun hcon => absurd hcon hstopped,
      h.idle, (fun h => by cases h), (fun h => by cases h), fun hret => ?_⟩
    · rw [h.accepted, ← hqueue, List.append_assoc]
      rfl
    · exact hbegan.trans (List.append_nil _).symm
    · exact hended.trans (List.append_nil _).symm
    · rw [h.joined hret] at hw
      cases hw
  | exited =>
    rw [hw] at hstep
    cases hstep

/-- The destructor gets on. -/
theorem Inv.destructor (h : s.Inv done) :
    (s.destructor = .entered → s.taskQueue = [] →
      ({ s with isStopped := true, destructor := .joining } : TaskExecutor ι τ).Inv done) ∧
    (s.destructor = .joining → s.worker = .exited →
      ({ s with destructor := .returned } : TaskExecutor ι τ).Inv done) := by
  constructor
  · intro hentered hempty
    refine ⟨h.accepted, h.began, h.ended, h.held, h.inside, fun _ => ⟨hempty, by simp⟩, fun _ => h.idle ?_,
      fun _ => rfl, fun _ => rfl, fun hret => by cases hret⟩
    rw [hentered]
    simp
  · intro hjoining hexited
    refine ⟨h.accepted, h.began, h.ended, h.held, h.inside, fun hstopped => ⟨(h.stopped hstopped).1, by simp⟩,
      fun _ => h.idle ?_, h.stale, h.gone, fun _ => hexited⟩
    rw [hjoining]
    simp

/-- **One step** of a run in which no call is under way when the destructor is entered. -/
theorem Inv.next (h : s.Inv done) (hallowed : s.NoOpenCall a) (hstep : s.next a = some u) : ∃ done, u.Inv done := by
  cases a with
  | call c t =>
    simp only [TaskExecutor.next] at hstep
    split_ifs at hstep with hcall
    obtain rfl := Option.some_inj.mp hstep
    refine ⟨done, h.setCall (fun hc _ => hc ▸ hcall.2) fun _ hdestructor => ?_⟩
    cases c with
    | client i => exact absurd hallowed hdestructor
    | worker => rfl
  | step c =>
    obtain ⟨⟨t, at_⟩, hc, rfl⟩ := Option.map_eq_some_iff.mp hstep
    exact ⟨done, h.startTask hc⟩
  | work x => exact h.work hstep
  | destroy =>
    simp only [TaskExecutor.next] at hstep
    split_ifs at hstep with halive
    obtain rfl := Option.some_inj.mp hstep
    refine ⟨done, h.accepted, h.began, h.ended, h.held, h.inside, fun hstopped => ?_, fun _ => hallowed, h.stale, h.gone,
      fun hret => by cases hret⟩
    exact absurd halive (h.stopped hstopped).2
  | destructor =>
    obtain ⟨hentered, hjoining⟩ := h.destructor
    simp only [TaskExecutor.next] at hstep
    split_ifs at hstep with hfirst hsecond
    · obtain rfl := Option.some_inj.mp hstep
      exact ⟨done, hentered hfirst.1 hfirst.2⟩
    · obtain rfl := Option.some_inj.mp hstep
      exact ⟨done, hjoining hsecond.1 hsecond.2⟩

end Steps

theorem Inv.executes_of (h : s.Inv done) : s.Executes := by
  have hbegun := WorkerPoint.begun_prefix.trans h.held
  refine ⟨?_, ⟨?_, ?_⟩, fun hret => ?_⟩
  · rw [h.began, h.accepted]
    exact (List.prefix_append_right_inj done).mpr hbegun
  · rw [h.began, h.ended]
    exact (List.prefix_append_right_inj done).mpr WorkerPoint.ended_prefix
  · have hlength := WorkerPoint.length_begun (w := s.worker)
    rw [h.began, h.ended, List.length_append, List.length_append]
    omega
  · have hexited := h.joined hret
    rw [h.ended, h.accepted, (h.stopped (h.gone hexited)).1, hexited]
    rfl

/-! ### The worker gets on -/

section Progress

variable [DecidableEq ι] [DecidableEq τ]

/-- How far a call is from its end; a push adds a task to the queue. -/
def callRank : Option (τ × StartTaskPoint) → Nat
  | none => 0
  | some (_, .push) => 9
  | some (_, .occupy) => 10

/-- What the worker has to do; a task in the queue counts more than the way around the loop. -/
def work (s : TaskExecutor ι τ) : Nat := 8 * s.taskQueue.length + s.worker.rank + callRank (s.call .worker)

/-- The steps of the worker thread: its loop, and `startTask` from inside a task. -/
def WorkerStep (s u : TaskExecutor ι τ) : Prop := s.next (.work none) = some u ∨ s.next (.step .worker) = some u

/-- A call of the worker gets on. -/
theorem startTask_work_lt {at_ : StartTaskPoint} (hcall : s.call .worker = some (t, at_)) :
    (s.startTask .worker t at_).work < s.work := by
  cases at_ with
  | push =>
    have hself : (s.setCall .worker none).call .worker = none := call_setCall_self
    have hcall' : (s.startTask .worker t .push).call = (s.setCall .worker none).call := rfl
    have hqueue : (s.startTask .worker t .push).taskQueue = s.taskQueue ++ [t] := rfl
    have hworker : (s.startTask .worker t .push).worker = s.worker := rfl
    rw [work, work, hcall', hself, hqueue, hworker, hcall, List.length_append, List.length_singleton, callRank, callRank]
    omega
  | occupy =>
    simp only [TaskExecutor.startTask]
    split_ifs
    · have hself : ((s.setTask t (s.task t).occupy.2).setCall .worker (some (t, .push))).call .worker =
          some (t, .push) := call_setCall_self
      rw [work, work, hself, hcall, callRank, callRank]
      exact Nat.lt_succ_self _
    · have hself : (s.setCall .worker none).call .worker = none := call_setCall_self
      rw [work, work, hself, hcall, callRank, callRank]
      exact Nat.lt_add_of_pos_right (by decide)

theorem accepted_startTask {at_ : StartTaskPoint} : s.accepted <+: (s.startTask c t at_).accepted := by
  cases at_ with
  | push => exact List.prefix_append _ _
  | occupy =>
    simp only [TaskExecutor.startTask]
    split_ifs <;> exact List.prefix_refl _

/-- **The worker gets on** as long as a task is left: it can make a step, which lowers what it has to do. -/
theorem Inv.gets_on (h : s.Inv done) (hqueue : s.taskQueue ≠ []) :
    ∃ u, WorkerStep s u ∧ u.work < s.work ∧ s.accepted <+: u.accepted := by
  have hstopped : ¬s.isStopped = true := fun hcon => hqueue (h.stopped hcon).1
  cases hcall : s.call .worker with
  | some a =>
    obtain ⟨t, at_⟩ := a
    exact ⟨s.startTask .worker t at_, .inr (by rw [TaskExecutor.next, hcall]; rfl), startTask_work_lt hcall,
      accepted_startTask⟩
  | none =>
    have hmoves : ∀ {w : WorkerPoint τ} {f : τ → Task} {b e : List τ}, w.rank < s.worker.rank →
        s.workStep none s.worker = some { s with task := f, worker := w, began := b, ended := e } →
        ∃ u, WorkerStep s u ∧ u.work < s.work ∧ s.accepted <+: u.accepted := by
      intro w f b e hrank hstep
      refine ⟨_, .inl hstep, ?_, List.prefix_refl _⟩
      simp only [TaskExecutor.work]
      omega
    cases hw : s.worker with
    | test => exact hmoves (w := .wait) (by rw [hw]; exact Nat.lt_succ_self 6) (by rw [hw, workStep, if_neg hstopped])
    | wait =>
      exact hmoves (w := .taken s.taskQueue.head?) (by rw [hw]; exact Nat.lt_succ_self 5)
        (by rw [hw, workStep, if_pos (.inl hqueue)])
    | taken t =>
      cases t with
      | none => exact absurd (h.stale hw) hstopped
      | some t => exact hmoves (w := .run t) (by rw [hw]; exact Nat.lt_succ_self 4) (by rw [hw]; rfl)
    | run t => exact hmoves (w := .function t) (by rw [hw]; exact Nat.lt_succ_self 3) (by rw [hw]; rfl)
    | function t =>
      exact hmoves (w := .setStatus t none) (by rw [hw]; exact Nat.lt_succ_self 2)
        (by rw [hw, workStep, if_pos hcall])
    | setStatus t y =>
      cases y <;> exact hmoves (w := .pop t) (by rw [hw]; exact Nat.lt_succ_self 1) (by rw [hw]; rfl)
    | pop t =>
      refine ⟨{ s with worker := .test, taskQueue := s.taskQueue.tail }, .inl (by rw [TaskExecutor.next, hw]; rfl), ?_,
        List.prefix_refl _⟩
      have hlength := List.length_pos_iff.mpr hqueue
      simp only [TaskExecutor.work, hw, List.length_tail, WorkerPoint.rank]
      omega
    | exited => exact absurd (h.gone hw) hstopped

theorem WorkerStep.inv (h : s.Inv done) (hstep : WorkerStep s u) : ∃ done, u.Inv done := by
  rcases hstep with hwork | hcall
  · exact h.next (show s.NoOpenCall (.work none) from trivial) hwork
  · exact h.next (show s.NoOpenCall (.step .worker) from trivial) hcall

/-- The steps of the worker thread lead to the end of all tasks that have been accepted. -/
theorem Inv.gets_through (h : s.Inv done) :
    ∃ u, Relation.ReflTransGen WorkerStep s u ∧ s.accepted <+: u.ended ∧ u.ended = u.accepted := by
  induction hwork : s.work using Nat.strong_induction_on generalizing s done with
  | _ n ih =>
    by_cases hqueue : s.taskQueue = []
    · have hheld := h.held
      rw [hqueue, List.prefix_nil] at hheld
      have hended : s.worker.ended = [] := by
        apply List.prefix_nil.mp
        rw [← hheld]
        exact WorkerPoint.ended_prefix.trans WorkerPoint.begun_prefix
      have hall : s.ended = s.accepted := by rw [h.ended, h.accepted, hqueue, hended]
      exact ⟨s, .refl, hall ▸ List.prefix_refl _, hall⟩
    · obtain ⟨u, hstep, hlt, haccepted⟩ := h.gets_on hqueue
      obtain ⟨done', hu⟩ := hstep.inv h
      obtain ⟨v, hrun, hprefix, hall⟩ := ih u.work (hwork ▸ hlt) hu rfl
      exact ⟨v, .head hstep hrun, haccepted.trans hprefix, hall⟩

/-! ### The result -/

theorem exists_inv (h : (system task NoOpenCall).Reachable s) : ∃ done, s.Inv done := by
  refine System.Reachable.induct (I := fun s : TaskExecutor ι τ => ∃ done, s.Inv done) ?_ ?_ h
  · rintro _ rfl
    exact ⟨[], Inv.init⟩
  · rintro s u - ⟨done, hinv⟩ ⟨a, hallowed, hstep⟩
    exact hinv.next hallowed hstep

end Progress

instance [Fintype ι] (s : TaskExecutor ι τ) (a : Action ι τ) : Decidable (s.NoOpenCall a) := by
  unfold NoOpenCall
  split <;> exact inferInstance

/-- A client starts a task, the task starts another one, and the executor is destroyed. -/
def nestedStart : List (Action Unit Nat) :=
  List.flatten [[.call (.client ()) 0, .step (.client ()), .step (.client ())], List.replicate 4 (.work none),
    [.destroy, .call .worker 1, .step .worker, .step .worker], List.replicate 10 (.work none),
    [.destructor, .work none, .destructor]]

end TaskExecutor

end OpenVino.InferenceEngine
