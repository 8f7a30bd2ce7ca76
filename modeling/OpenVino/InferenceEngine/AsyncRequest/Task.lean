import Mathlib.Data.Fintype.Sum
import Mathlib.Logic.Function.Basic
import Mathlib.Tactic.DeriveFintype

/-!
# Tasks and the threads that run them

`Task` and `StagedTask`, the queue of a `TaskExecutor` and the places a thread can be at. A place is a
statement that reads or writes what another thread can write: between two of them any other thread may
run. A write of a pointer and the call on it that follows are one step.
-/

namespace OpenVino.InferenceEngine

/-- The codes the calls below return. -/
inductive StatusCode
  | OK
  | GENERAL_ERROR
  | PARAMETER_MISMATCH
  | REQUEST_BUSY
  | RESULT_NOT_READY
  | INFER_NOT_STARTED
deriving DecidableEq

/-- An exception in flight; `status` is what `as_status` has put into it. -/
structure Thrown where
  status : Option StatusCode := none
  what : String
deriving DecidableEq

def requestBusy : Thrown := ⟨some .REQUEST_BUSY, "[REQUEST_BUSY] "⟩

/-- How a call ends. -/
inductive Ending
  | returned (status : StatusCode)
  | threw (x : Thrown)
deriving DecidableEq

/-! ### Tasks -/

inductive Task.Status
  | TS_ERROR
  | TS_INITIAL
  | TS_BUSY
  | TS_DONE
  | TS_POSTPONED
deriving DecidableEq

/-- A `Task`; `stage` is the counter that a `StagedTask` has on top. -/
structure Task where
  status : Task.Status := .TS_INITIAL
  exceptionPtr : Option Thrown := none
  isOnWait : Bool := false
  stage : Nat := 0

namespace Task

/-- The predicate that `wait` waits for. -/
def Finished (t : Task) : Prop := t.status = .TS_DONE ∨ t.status = .TS_ERROR

instance (t : Task) : Decidable t.Finished := inferInstanceAs (Decidable (_ ∨ _))

/-- `occupy`: whether it succeeded, and the task after it. -/
def occupy (t : Task) : Bool × Task :=
  if t.status = .TS_BUSY then (false, t) else (true, { t with status := .TS_BUSY })

/-- What `StagedTask::runNoThrowNoBusyCheck` does before it calls the function. -/
def enter (t : Task) : Task :=
  { t with exceptionPtr := none, status := if t.stage ≠ 0 then .TS_POSTPONED else t.status }

/-- What it does when the function has returned. -/
def leave (t : Task) : Task := { t with status := if t.stage = 0 then .TS_DONE else t.status }

/-- What it does when the function has thrown. -/
def fail (t : Task) (x : Thrown) : Task := { t with exceptionPtr := some x, status := .TS_ERROR }

/-- The number of stages that `createAsyncRequestTask` gives its task. -/
def stages : Nat := 2

def resetStages (t : Task) : Task := { t with stage := stages }

def stageDone (t : Task) : Except Thrown Task :=
  if t.stage ≤ 0 then .error ⟨none, "Failed to make stage done, because it's been already done"⟩
  else .ok { t with stage := t.stage - 1 }

def TaskStatus2StatusCode : Task.Status → StatusCode
  | .TS_DONE => .OK
  | .TS_ERROR => .GENERAL_ERROR
  | .TS_BUSY => .RESULT_NOT_READY
  | .TS_POSTPONED => .RESULT_NOT_READY
  | .TS_INITIAL => .INFER_NOT_STARTED

end Task

/-- A task of the request: `_syncTask`, or one of `_listAsyncTasks`, by its place in the list. -/
inductive TaskPtr
  | syncTask
  | staged (n : Nat)
deriving DecidableEq

/-! ### Threads -/

/-- The executor of the request and the one of the callback manager. -/
inductive Executor
  | request
  | callback
deriving DecidableEq

instance : Fintype Executor where
  elems := {.request, .callback}
  complete e := by cases e <;> decide

/-- Where an executor thread is in the run of a task. `copy` is the local `asyncTaskCopy`. -/
inductive Point
  | front                                  -- has taken the task, waits for its `_runMutex`
  | entered                                -- in the function, `_asyncTask` not read yet
  | switch (copy : Nat)
  | infer (copy : Nat)                     -- case 2: in `_syncRequest->Infer()`
  | inferred (copy : Nat)
  | migrate (copy : Nat)                   -- `isCallbackEnabled()`
  | startTask (copy : Nat)                 -- `_callbackExecutor->startTask`: `occupy`
  | push (copy : Nat)
  | lastStage (copy : Nat)                 -- no callback: the second `stageDone`
  | freeFlag (copy : Nat)                  -- case 1: `setIsRequestBusy(false)`
  | leaveStage (copy : Nat)
  | runCallback (copy : Nat)
  | callback (copy : Nat)                  -- in the code of the callback
  | called (copy : Nat)                    -- `if (_requestException)`
  | failure (copy : Nat) (x : Thrown)      -- `processAsyncTaskFailure`: `setIsRequestBusy(false)`
  | failed (copy : Nat) (x : Thrown)
  | jump (copy : Nat) (x : Thrown)         -- the loop to stage 1
  | setStatus (copy : Nat) (x : Thrown)
  | setException (copy : Nat) (x : Thrown)
  | returned
  | thrown (x : Thrown)
  | unlock
  | pop
deriving DecidableEq

/-- The thread of a `TaskExecutor`. -/
inductive Thread
  | idle
  | running (task : Nat) (at_ : Point)
deriving DecidableEq

/-- Between the lock and the unlock of the `_runMutex` of `t`. -/
def Thread.Inside (t : Nat) : Thread → Prop
  | .idle => False
  | .running task at_ => task = t ∧ at_ ≠ .front ∧ at_ ≠ .pop

instance (t : Nat) : (th : Thread) → Decidable (th.Inside t)
  | .idle => inferInstanceAs (Decidable False)
  | .running _ _ => inferInstanceAs (Decidable (_ ∧ _))

/-- A thread that calls the request: a client, or an executor inside the callback. -/
inductive Caller (ι : Type)
  | client (i : ι)
  | callback (e : Executor)
deriving DecidableEq, Fintype

inductive StartPoint
  | entry                                  -- `setIsRequestBusy(true)`
  | checkBlobs
  | reset
  | initNextAsyncTask
  | resetStages
  | startAsyncTask                         -- `_currentTask = _asyncTask`, then `occupy`
  | push (t : Nat)
  | handler (x : Thrown)
deriving DecidableEq

inductive InferPoint
  | entry                                  -- `setIsRequestBusy(true)`
  | occupy                                 -- `_currentTask = _syncTask`, then `occupy`
  | getStatus
  | lock                                   -- the `ScopedSynchronizer`
  | run
  | checkException
  | leave (ending : Ending)
deriving DecidableEq

inductive WaitPoint
  | entry
  | getStatus (t : TaskPtr)                -- `STATUS_ONLY`
  | wait (t : TaskPtr)
  | blocked (t : TaskPtr)
  | woken (t : TaskPtr) (status : Task.Status)
  | checkException (t : TaskPtr) (status : Task.Status)
deriving DecidableEq

/-- The calls that only ask whether the request is busy before they go on to `_syncRequest`. -/
inductive Accessor
  | GetUserData
  | SetUserData
  | GetPerformanceCounts
  | SetBlob
  | GetBlob
  | SetBatch
deriving DecidableEq

/-- Where a caller is. -/
inductive Call
  | idle
  | startAsync (at_ : StartPoint)
  | infer (at_ : InferPoint)
  | wait (millis_timeout : Int) (at_ : WaitPoint)
  | setCompletionCallback (callback : Bool) (checked : Bool)
  | access (a : Accessor) (checked : Bool)
  | finished (ending : Ending)
deriving DecidableEq

def Call.Over : Call → Prop
  | .idle => True
  | .finished _ => True
  | _ => False

instance : (c : Call) → Decidable c.Over
  | .idle => inferInstanceAs (Decidable True)
  | .finished _ => inferInstanceAs (Decidable True)
  | .startAsync _ => inferInstanceAs (Decidable False)
  | .infer _ => inferInstanceAs (Decidable False)
  | .wait _ _ => inferInstanceAs (Decidable False)
  | .setCompletionCallback _ _ => inferInstanceAs (Decidable False)
  | .access _ _ => inferInstanceAs (Decidable False)

end OpenVino.InferenceEngine
