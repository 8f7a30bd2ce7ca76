import OpenVino.Base.Runs
import OpenVino.InferenceEngine.AsyncRequest.Task
import Mathlib

/-!
# The asynchronous request as a transition system

`AsyncRequest ι` is an `AsyncInferRequestThreadSafeDefault` with its two executors and the threads that
call it: clients `ι`, and the executors while they are inside the callback. `next s a` is the state after
the action `a` (a caller begins a call, a caller or an executor thread takes its next step), `none` if the
thread cannot move. The code outside the class (`checkBlobs`, `Infer`, the synchronizer, the callback)
returns or throws as the action says, and a wait with a timeout may time out at any moment.

`History` is what an observer writes down; no step reads it. `ticket n` is the number of the `StartAsync`
that last queued the task `n`.
-/

namespace OpenVino.InferenceEngine

structure CallbackManager where
  requestException : Option Thrown := none
  requestStatus : StatusCode := .OK
  /-- `_callback` is not null. -/
  callback : Bool := false
  enabled : Bool := false
  /-- `_publicInterface` is not null. -/
  publicInterface : Bool := false

namespace CallbackManager

def isCallbackEnabled (m : CallbackManager) : Bool := m.enabled && m.callback

def reset (m : CallbackManager) : CallbackManager :=
  { m with requestException := none, requestStatus := .OK }

def set_callback (m : CallbackManager) (callback : Bool) : CallbackManager :=
  { m with enabled := true, callback := callback }

end CallbackManager

structure History where
  started : Nat := 0
  ticket : Nat → Nat := fun _ => 0
  infers : List (Nat × Option Thrown) := []
  callbacks : List (Nat × StatusCode) := []

structure AsyncRequest (ι : Type) where
  isRequestBusy : Bool := false
  task : TaskPtr → Task := fun _ => {}
  asyncTask : Option Nat := none
  currentTask : TaskPtr := .syncTask
  listAsyncTasks : Nat := 0
  callbackManager : CallbackManager := {}
  taskQueue : Executor → List Nat := fun _ => []
  thread : Executor → Thread := fun _ => .idle
  call : Caller ι → Call := fun _ => .idle
  history : History := {}

inductive Operation
  | startAsync
  | infer
  | wait (millis_timeout : Int)
  | setCompletionCallback (callback : Bool)
  | access (a : Accessor)
deriving DecidableEq

/-- What the code outside the class does in a step. -/
inductive Choice
  | returns
  | throws (x : Thrown)
  | timesOut
deriving DecidableEq

inductive Action (ι : Type)
  | begin (c : Caller ι) (op : Operation)
  | call (c : Caller ι) (o : Choice)
  | exec (e : Executor) (o : Choice)

def Operation.entry : Operation → Call
  | .startAsync => .startAsync .entry
  | .infer => .infer .entry
  | .wait millis_timeout => .wait millis_timeout .entry
  | .setCompletionCallback callback => .setCompletionCallback callback false
  | .access a => .access a false

namespace AsyncRequest

variable {ι : Type}

def moveTo (s : AsyncRequest ι) (e : Executor) (th : Thread) : AsyncRequest ι :=
  { s with thread := Function.update s.thread e th }

theorem thread_moveTo {s : AsyncRequest ι} {e : Executor} {th : Thread} : (s.moveTo e th).thread e = th :=
  Function.update_self ..

theorem thread_moveTo_ne {s : AsyncRequest ι} {e e' : Executor} {th : Thread} (h : e' ≠ e) :
    (s.moveTo e th).thread e' = s.thread e' := Function.update_of_ne h ..

variable [DecidableEq ι]

def setTask (s : AsyncRequest ι) (t : TaskPtr) (v : Task) : AsyncRequest ι :=
  { s with task := Function.update s.task t v }

def goto (s : AsyncRequest ι) (c : Caller ι) (pc : Call) : AsyncRequest ι :=
  { s with call := Function.update s.call c pc }

theorem call_goto {s : AsyncRequest ι} {c : Caller ι} {pc : Call} : (s.goto c pc).call c = pc :=
  Function.update_self ..

theorem call_goto_ne {s : AsyncRequest ι} {c c' : Caller ι} {pc : Call} (h : c' ≠ c) :
    (s.goto c pc).call c' = s.call c' := Function.update_of_ne h ..

def setIsRequestBusy (s : AsyncRequest ι) (isBusy : Bool) : AsyncRequest ι := { s with isRequestBusy := isBusy }

def modifyManager (s : AsyncRequest ι) (f : CallbackManager → CallbackManager) : AsyncRequest ι :=
  { s with callbackManager := f s.callbackManager }

/-! ### Calls -/

/-- The test of `initNextAsyncTask` for a task of the list that can be used again. -/
def Reusable (s : AsyncRequest ι) (n : Nat) : Bool :=
  !(s.task (.staged n)).isOnWait && decide (.staged n ≠ s.currentTask) && decide (s.task (.staged n)).Finished

/-- `initNextAsyncTask` up to `_asyncTask->resetStages()`. -/
def chooseAsyncTask (s : AsyncRequest ι) : AsyncRequest ι :=
  if (s.task s.currentTask).status = .TS_POSTPONED ∨ s.currentTask = .syncTask then
    match (List.range s.listAsyncTasks).find? s.Reusable with
    | none =>
      { s.setTask (.staged s.listAsyncTasks) { stage := Task.stages } with
        asyncTask := some s.listAsyncTasks, listAsyncTasks := s.listAsyncTasks + 1 }
    | some n => { s with asyncTask := some n }
  else s

/-- `_taskQueue.push`, on the request executor; the call returns. -/
def pushRequest (s : AsyncRequest ι) (t : Nat) : AsyncRequest ι :=
  { s with
    taskQueue := Function.update s.taskQueue .request (s.taskQueue .request ++ [t])
    history := { s.history with
      started := s.history.started + 1
      ticket := Function.update s.history.ticket t s.history.started } }

def startAsync (s : AsyncRequest ι) (c : Caller ι) (o : Choice) : StartPoint → Option (AsyncRequest ι)
  | .entry =>
    if s.isRequestBusy then some (s.goto c (.finished (.threw requestBusy)))
    else some ((s.setIsRequestBusy true).goto c (.startAsync .checkBlobs))
  | .checkBlobs =>
    match o with
    | .returns => some (s.goto c (.startAsync .reset))
    | .throws x => some (s.goto c (.startAsync (.handler x)))
    | .timesOut => none
  | .reset => some ((s.modifyManager .reset).goto c (.startAsync .initNextAsyncTask))
  | .initNextAsyncTask => some (s.chooseAsyncTask.goto c (.startAsync .resetStages))
  | .resetStages => do
    let t ← s.asyncTask
    some ((s.setTask (.staged t) (s.task (.staged t)).resetStages).goto c (.startAsync .startAsyncTask))
  | .startAsyncTask => do
    let t ← s.asyncTask
    let (occupied, task) := (s.task (.staged t)).occupy
    some (({ s with currentTask := .staged t }.setTask (.staged t) task).goto c
      (.startAsync (if occupied then .push t else .handler requestBusy)))
  | .push t => some ((s.pushRequest t).goto c (.finished (.returned .OK)))
  | .handler x => some ((s.setIsRequestBusy false).goto c (.finished (.threw x)))

def infer (s : AsyncRequest ι) (c : Caller ι) (o : Choice) : InferPoint → Option (AsyncRequest ι)
  | .entry =>
    if s.isRequestBusy then some (s.goto c (.finished (.threw requestBusy)))
    else some ((s.setIsRequestBusy true).goto c (.infer .occupy))
  | .occupy =>
    let (occupied, task) := (s.task .syncTask).occupy
    some (({ s with currentTask := .syncTask }.setTask .syncTask task).goto c
      (.infer (if occupied then .lock else .getStatus)))
  | .lock =>
    match o with
    | .returns =>
      some ((s.setTask .syncTask { s.task .syncTask with exceptionPtr := none }).goto c (.infer .run))
    | .throws x => some (s.goto c (.infer (.leave (.threw x))))
    | .timesOut => none
  | .run =>
    match o with
    | .returns =>
      some ((s.setTask .syncTask { s.task .syncTask with status := .TS_DONE }).goto c (.infer .getStatus))
    | .throws x => some ((s.setTask .syncTask ((s.task .syncTask).fail x)).goto c (.infer .getStatus))
    | .timesOut => none
  | .getStatus =>
    if (s.task .syncTask).status = .TS_BUSY then
      some (s.goto c (.infer (.leave (.threw
        ⟨none, "Internal error: AsyncInferRequestThreadSafeDefault failed to start sync task"⟩))))
    else some (s.goto c (.infer .checkException))
  | .checkException =>
    match (s.task s.currentTask).exceptionPtr with
    | some x => some (s.goto c (.infer (.leave (.threw x))))
    | none => some (s.goto c (.infer (.leave (.returned .OK))))
  | .leave ending => some ((s.setIsRequestBusy false).goto c (.finished ending))

/-- `IInferRequest::WaitMode`. -/
def RESULT_READY : Int := -1

def STATUS_ONLY : Int := 0

def setOnWait (s : AsyncRequest ι) (t : TaskPtr) (isOnWait : Bool) : AsyncRequest ι :=
  s.setTask t { s.task t with isOnWait := isOnWait }

def wait (s : AsyncRequest ι) (c : Caller ι) (o : Choice) (millis_timeout : Int) :
    WaitPoint → Option (AsyncRequest ι)
  | .entry =>
    if millis_timeout < RESULT_READY then
      some (s.goto c (.finished (.threw
        ⟨none, "[PARAMETER_MISMATCH] Timeout can't be less -1 for InferRequest::Wait\n"⟩)))
    else if millis_timeout = STATUS_ONLY then
      some (s.goto c (.wait millis_timeout (.getStatus s.currentTask)))
    else some (s.goto c (.wait millis_timeout (.wait s.currentTask)))
  | .getStatus t => some (s.goto c (.wait millis_timeout (.checkException t (s.task t).status)))
  | .wait t => some ((s.setOnWait t true).goto c (.wait millis_timeout (.blocked t)))
  | .blocked t =>
    if (s.task t).status = .TS_INITIAL ∨ (s.task t).Finished ∨ 0 ≤ millis_timeout ∧ o = .timesOut then
      some ((s.setOnWait t false).goto c (.wait millis_timeout (.woken t (s.task t).status)))
    else none
  | .woken t status =>
    some ((s.setIsRequestBusy false).goto c (.wait millis_timeout (.checkException t status)))
  | .checkException t status =>
    match (s.task t).exceptionPtr with
    | some x => some (s.goto c (.finished (.threw x)))
    | none => some (s.goto c (.finished (.returned (Task.TaskStatus2StatusCode status))))

def setCompletionCallback (s : AsyncRequest ι) (c : Caller ι) (callback : Bool) :
    Bool → Option (AsyncRequest ι)
  | false =>
    if s.isRequestBusy then some (s.goto c (.finished (.threw requestBusy)))
    else some (s.goto c (.setCompletionCallback callback true))
  | true => some ((s.modifyManager (·.set_callback callback)).goto c (.finished (.returned .OK)))

/-- `GetUserData`, `SetUserData`, `GetPerformanceCounts`, `SetBlob`, `GetBlob` and `SetBatch`. -/
def access (s : AsyncRequest ι) (c : Caller ι) (o : Choice) (a : Accessor) : Bool → Option (AsyncRequest ι)
  | false =>
    if s.isRequestBusy then some (s.goto c (.finished (.threw requestBusy)))
    else some (s.goto c (.access a true))
  | true =>
    match o with
    | .returns => some (s.goto c (.finished (.returned .OK)))
    | .throws x => some (s.goto c (.finished (.threw x)))
    | .timesOut => none

def callStep (s : AsyncRequest ι) (c : Caller ι) (o : Choice) : Option (AsyncRequest ι) :=
  match s.call c with
  | .idle => none
  | .startAsync pt => s.startAsync c o pt
  | .infer pt => s.infer c o pt
  | .wait millis_timeout pt => s.wait c o millis_timeout pt
  | .setCompletionCallback callback checked => s.setCompletionCallback c callback checked
  | .access a checked => s.access c o a checked
  | .finished _ => none

/-! ### The threads of the executors -/

def other : Executor → Executor
  | .request => .callback
  | .callback => .request

/-- The function of the task calls `asyncTaskCopy->stageDone()` and goes on to `at_`. -/
def stageDone (s : AsyncRequest ι) (e : Executor) (task copy : Nat) (at_ : Point) : AsyncRequest ι :=
  match (s.task (.staged copy)).stageDone with
  | .ok v => (s.setTask (.staged copy) v).moveTo e (.running task at_)
  | .error x => s.moveTo e (.running task (.failure copy x))

def pushCallback (s : AsyncRequest ι) (t : Nat) : AsyncRequest ι :=
  { s with taskQueue := Function.update s.taskQueue .callback (s.taskQueue .callback ++ [t]) }

def noteInfer (s : AsyncRequest ι) (t : Nat) (x : Option Thrown) : AsyncRequest ι :=
  { s with history := { s.history with infers := s.history.infers ++ [(s.history.ticket t, x)] } }

def noteCallback (s : AsyncRequest ι) (t : Nat) : AsyncRequest ι :=
  { s with history := { s.history with
      callbacks := s.history.callbacks ++ [(s.history.ticket t, s.callbackManager.requestStatus)] } }

/-- The next step of the thread of `e` in the run of `task`. -/
def runStep (s : AsyncRequest ι) (e : Executor) (o : Choice) (task : Nat) : Point → Option (AsyncRequest ι)
  | .front =>
    if (s.thread (other e)).Inside task then none
    else some ((s.setTask (.staged task) (s.task (.staged task)).enter).moveTo e (.running task .entered))
  | .entered => do
    let copy ← s.asyncTask
    some (s.moveTo e (.running task (.switch copy)))
  | .switch copy =>
    match (s.task (.staged copy)).stage with
    | 2 => some (s.moveTo e (.running task (.infer copy)))
    | 1 => some (s.moveTo e (.running task (.freeFlag copy)))
    | _ => some (s.moveTo e (.running task .returned))
  | .infer copy =>
    match o with
    | .returns => some ((s.noteInfer copy none).moveTo e (.running task (.inferred copy)))
    | .throws x => some ((s.noteInfer copy (some x)).moveTo e (.running task (.failure copy x)))
    | .timesOut => none
  | .inferred copy => some (s.stageDone e task copy (.migrate copy))
  | .migrate copy =>
    if s.callbackManager.isCallbackEnabled then some (s.moveTo e (.running task (.startTask copy)))
    else some (s.moveTo e (.running task (.lastStage copy)))
  | .lastStage copy => some (s.stageDone e task copy .returned)
  | .startTask copy =>
    -- the answer of `startTask` is not looked at
    let (occupied, v) := (s.task (.staged copy)).occupy
    some ((s.setTask (.staged copy) v).moveTo e (.running task (if occupied then .push copy else .returned)))
  | .push copy => some ((s.pushCallback copy).moveTo e (.running task .returned))
  | .freeFlag copy => some ((s.setIsRequestBusy false).moveTo e (.running task (.leaveStage copy)))
  | .leaveStage copy => some (s.stageDone e task copy (.runCallback copy))
  | .runCallback copy =>
    if s.callbackManager.isCallbackEnabled then
      if s.callbackManager.publicInterface then
        some ((s.noteCallback copy).moveTo e (.running task (.callback copy)))
      else some (s.moveTo e (.running task (.failure copy
        ⟨none, "Failed to run callback: can't get pointer to request"⟩)))
    else some (s.moveTo e (.running task .returned))
  | .callback copy =>
    if (s.call (.callback e)).Over then
      match o with
      | .returns => some (s.moveTo e (.running task (.called copy)))
      | .throws x => some (s.moveTo e (.running task (.failure copy x)))
      | .timesOut => none
    else none
  | .called copy =>
    match s.callbackManager.requestException with
    | some x => some (s.moveTo e (.running task (.failure copy x)))
    | none => some (s.moveTo e (.running task .returned))
  | .failure copy x => some ((s.setIsRequestBusy false).moveTo e (.running task (.failed copy x)))
  | .failed copy x =>
    if s.callbackManager.isCallbackEnabled ∧ 1 ≤ (s.task (.staged copy)).stage then
      some (s.moveTo e (.running task (.jump copy x)))
    else some (s.moveTo e (.running task (.thrown x)))
  | .jump copy x =>
    if (s.task (.staged copy)).stage = 1 then some (s.moveTo e (.running task (.setStatus copy x)))
    else match (s.task (.staged copy)).stageDone with
      | .ok v => some (s.setTask (.staged copy) v)
      | .error y => some (s.moveTo e (.running task (.thrown y)))
  | .setStatus copy x =>
    some ((s.modifyManager fun m => { m with requestStatus := .GENERAL_ERROR }).moveTo e
      (.running task (.setException copy x)))
  | .setException copy x =>
    some ((s.modifyManager fun m => { m with requestException := some x }).moveTo e
      (.running task (.startTask copy)))
  | .returned => some ((s.setTask (.staged task) (s.task (.staged task)).leave).moveTo e (.running task .unlock))
  | .thrown x =>
    some ((s.setTask (.staged task) ((s.task (.staged task)).fail x)).moveTo e (.running task .unlock))
  | .unlock => some (s.moveTo e (.running task .pop))
  | .pop =>
    some ({ s with taskQueue := Function.update s.taskQueue e (s.taskQueue e).tail }.moveTo e .idle)

def execStep (s : AsyncRequest ι) (e : Executor) (o : Choice) : Option (AsyncRequest ι) :=
  match s.thread e with
  | .idle =>
    match s.taskQueue e with
    | [] => none
    | task :: _ => some (s.moveTo e (.running task .front))
  | .running task pt => s.runStep e o task pt

/-! ### Runs -/

/-- A client calls at any time, the callback while an executor is inside it. -/
def MayBegin (s : AsyncRequest ι) : Caller ι → Prop
  | .client _ => True
  | .callback e =>
    match s.thread e with
    | .running _ (.callback _) => True
    | _ => False

instance (s : AsyncRequest ι) (c : Caller ι) : Decidable (s.MayBegin c) := by
  unfold MayBegin
  split
  · exact inferInstance
  · split <;> exact inferInstance

def next (s : AsyncRequest ι) : Action ι → Option (AsyncRequest ι)
  | .begin c op => if (s.call c).Over ∧ s.MayBegin c then some (s.goto c op.entry) else none
  | .call c o => s.callStep c o
  | .exec e o => s.execStep e o

end AsyncRequest

/-- The runs that start at `s₀` and take only steps that `allowed` lets pass. -/
def requestSystem {ι : Type} [DecidableEq ι] (s₀ : AsyncRequest ι) (allowed : AsyncRequest ι → Action ι → Prop) :
    System (AsyncRequest ι) where
  init s := s = s₀
  step s t := ∃ a, allowed s a ∧ s.next a = some t

namespace AsyncRequest

variable {ι : Type} [DecidableEq ι]

/-- The state after the actions `as`, if each of them is allowed and can be taken. -/
def perform (allowed : AsyncRequest ι → Action ι → Prop) [∀ s a, Decidable (allowed s a)] (s : AsyncRequest ι) :
    List (Action ι) → Option (AsyncRequest ι)
  | [] => some s
  | a :: as => if allowed s a then (s.next a).bind (perform allowed · as) else none

theorem reachable_of_perform {allowed : AsyncRequest ι → Action ι → Prop} [∀ s a, Decidable (allowed s a)]
    {s₀ s t : AsyncRequest ι} {as : List (Action ι)} (hs : (requestSystem s₀ allowed).Reachable s)
    (h : perform allowed s as = some t) : (requestSystem s₀ allowed).Reachable t := by
  induction as generalizing s with
  | nil =>
    rw [← Option.some_inj.mp h]
    exact hs
  | cons a as ih =>
    simp only [perform] at h
    split_ifs at h with ha
    obtain ⟨s', hnext, hrest⟩ := Option.bind_eq_some_iff.mp h
    exact ih (hs.step ⟨a, ha, hnext⟩) hrest

end AsyncRequest

end OpenVino.InferenceEngine
