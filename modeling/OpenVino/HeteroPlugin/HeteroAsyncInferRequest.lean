import OpenVino.InferenceEngine.AsyncRequest.Request

/-!
# The asynchronous request of the hetero plugin as a transition system

`HeteroAsyncInferRequest ι` is the chain of sub-requests with the threads that call it: clients `ι`, and the
completion callback of the user. A sub-request is what its interface says of it. `StartAsync` starts an
inference or throws; an inference completes with a status, which its callback is called with; `Wait` tells
the status once the callback has returned. `next s a` is the state after the action `a`, `none` if it is not
possible. The callbacks are called by a `noexcept` function: what they throw ends the program.

`started`, `log` and `callbacks` are what an observer writes down; no step reads them but to number the runs.
-/

namespace OpenVino.HeteroPlugin

open InferenceEngine (StatusCode Thrown Ending requestBusy)
open InferenceEngine.AsyncRequest (RESULT_READY STATUS_ONLY)

/-- What the code outside the chain does in a step; `ms` is the time a wait has taken. -/
inductive Choice
  | returns (ms : Nat)
  | throws (x : Thrown)
  | timesOut
deriving DecidableEq

def Choice.elapsed : Choice → Nat
  | .returns ms => ms
  | _ => 0

/-! ### Sub-requests -/

/-- The last inference of a sub-request. -/
inductive Inference
  | notStarted
  | running (run : Nat)
  | inCallback
  | completed (sts : StatusCode)
deriving DecidableEq

/-- Where the thread is that calls the callback of a sub-request. -/
inductive CallbackPoint
  | entry                                  -- `if (sts == OK)`, in the last one `setIsRequestBusy(false)`
  | set_requestStatus
  | runCallback
  | callback                               -- in the code of the user
  | returned
deriving DecidableEq

structure CallbackThread where
  run : Nat
  sts : StatusCode
  at_ : CallbackPoint

structure SubRequest where
  inference : Inference := .notStarted
  thread : Option CallbackThread := none

namespace SubRequest

def Running (r : SubRequest) : Prop :=
  match r.inference with
  | .running _ => True
  | _ => False

instance (r : SubRequest) : Decidable r.Running :=
  match h : r.inference with
  | .running _ => .isTrue (by simp [Running, h])
  | .notStarted => .isFalse (by simp [Running, h])
  | .inCallback => .isFalse (by simp [Running, h])
  | .completed _ => .isFalse (by simp [Running, h])

/-- It is started again while its callback is still being called, but not while it is running. -/
def StartAsync (r : SubRequest) (run : Nat) (o : Choice) : Except Thrown SubRequest :=
  if r.Running then .error requestBusy
  else
    match o with
    | .throws x => .error x
    | _ => .ok { r with inference := .running run }

/-- `none`: it goes on waiting. -/
def Wait (r : SubRequest) (millis_timeout : Int) (o : Choice) : Option StatusCode :=
  if millis_timeout < RESULT_READY then some .GENERAL_ERROR
  else
    match r.inference with
    | .notStarted => some .INFER_NOT_STARTED
    | .completed sts => some sts
    | _ => if millis_timeout = STATUS_ONLY ∨ 0 < millis_timeout ∧ o = .timesOut then some .RESULT_NOT_READY else none

end SubRequest

/-! ### Calls -/

/-- A thread that calls the request: a client, or the callback of the user. -/
inductive Caller (ι : Type)
  | client (i : ι)
  | callback
deriving DecidableEq, Fintype

inductive StartPoint
  | entry                                  -- `isRequestBusy()`
  | setIsRequestBusy
  | updateInOutIfNeeded
  | startFirstAsyncRequest
deriving DecidableEq

inductive WaitPoint
  | request (i : Nat) (millis_timeout : Int) (shareMsMode : Bool)
  | status (sts : StatusCode)              -- what `waitAllRequests` has returned
deriving DecidableEq

inductive Call
  | idle
  | startAsync (at_ : StartPoint)
  | wait (at_ : WaitPoint)
  | finished (ending : Ending)
deriving DecidableEq

namespace Call

def Over : Call → Prop
  | .idle => True
  | .finished _ => True
  | _ => False

/-- A `StartAsync` that has found the request free. -/
def Starting : Call → Prop
  | .startAsync .entry => False
  | .startAsync _ => True
  | _ => False

/-- A call that may still write the flag. -/
def Engaged : Call → Prop
  | .startAsync .entry => False
  | .startAsync _ => True
  | .wait _ => True
  | _ => False

instance : (c : Call) → Decidable c.Over
  | .idle => inferInstanceAs (Decidable True)
  | .finished _ => inferInstanceAs (Decidable True)
  | .startAsync _ => inferInstanceAs (Decidable False)
  | .wait _ => inferInstanceAs (Decidable False)

instance : (c : Call) → Decidable c.Starting
  | .idle => inferInstanceAs (Decidable False)
  | .finished _ => inferInstanceAs (Decidable False)
  | .startAsync .entry => inferInstanceAs (Decidable False)
  | .startAsync .setIsRequestBusy => inferInstanceAs (Decidable True)
  | .startAsync .updateInOutIfNeeded => inferInstanceAs (Decidable True)
  | .startAsync .startFirstAsyncRequest => inferInstanceAs (Decidable True)
  | .wait _ => inferInstanceAs (Decidable False)

instance : (c : Call) → Decidable c.Engaged
  | .idle => inferInstanceAs (Decidable False)
  | .finished _ => inferInstanceAs (Decidable False)
  | .startAsync .entry => inferInstanceAs (Decidable False)
  | .startAsync .setIsRequestBusy => inferInstanceAs (Decidable True)
  | .startAsync .updateInOutIfNeeded => inferInstanceAs (Decidable True)
  | .startAsync .startFirstAsyncRequest => inferInstanceAs (Decidable True)
  | .wait _ => inferInstanceAs (Decidable True)

end Call

inductive Operation
  | startAsync
  | wait (millis_timeout : Int)

def Operation.entry : Operation → Call
  | .startAsync => .startAsync .entry
  | .wait millis_timeout =>
    .wait (.request 0 millis_timeout (millis_timeout ≠ STATUS_ONLY ∧ millis_timeout ≠ RESULT_READY))

inductive Action (ι : Type)
  | begin (c : Caller ι) (op : Operation)
  | call (c : Caller ι) (o : Choice)
  | complete (i : Nat) (sts : StatusCode)  -- the inference of a sub-request completes
  | exec (i : Nat) (o : Choice)            -- the thread that calls its callback takes a step

inductive Event
  | started (run i : Nat)
  | completed (run i : Nat) (sts : StatusCode)

structure HeteroAsyncInferRequest (ι : Type) where
  isRequestBusy : Bool := false
  /-- The number of `_inferRequests`. -/
  size : Nat
  request : Nat → SubRequest := fun _ => {}
  /-- `_callback` of the callback manager is not null. -/
  callback : Bool
  requestStatus : StatusCode := .OK
  terminated : Bool := false
  call : Caller ι → Call := fun _ => .idle
  started : Nat := 0
  log : List Event := []
  callbacks : List (Nat × StatusCode) := []

namespace HeteroAsyncInferRequest

variable {ι : Type}

def setIsRequestBusy (s : HeteroAsyncInferRequest ι) (isBusy : Bool) : HeteroAsyncInferRequest ι :=
  { s with isRequestBusy := isBusy }

def setRequest (s : HeteroAsyncInferRequest ι) (i : Nat) (r : SubRequest) : HeteroAsyncInferRequest ι :=
  { s with request := Function.update s.request i r }

theorem request_setRequest {s : HeteroAsyncInferRequest ι} {i : Nat} {r : SubRequest} :
    (s.setRequest i r).request i = r := Function.update_self ..

theorem request_setRequest_ne {s : HeteroAsyncInferRequest ι} {i j : Nat} {r : SubRequest} (h : j ≠ i) :
    (s.setRequest i r).request j = s.request j := Function.update_of_ne h ..

def note (s : HeteroAsyncInferRequest ι) (e : Event) : HeteroAsyncInferRequest ι := { s with log := s.log ++ [e] }

/-- The thread `th` of the sub-request `i` goes on to `at_`. -/
def moveTo (s : HeteroAsyncInferRequest ι) (i : Nat) (th : CallbackThread) (at_ : CallbackPoint) :
    HeteroAsyncInferRequest ι :=
  s.setRequest i { s.request i with thread := some { th with at_ := at_ } }

/-- The inference of the sub-request `i` completes, and its callback is called. -/
def complete (s : HeteroAsyncInferRequest ι) (i : Nat) (sts : StatusCode) : Option (HeteroAsyncInferRequest ι) :=
  match (s.request i).inference, (s.request i).thread with
  | .running run, none => some ((s.note (.completed run i sts)).setRequest i ⟨.inCallback, some ⟨run, sts, .entry⟩⟩)
  | _, _ => none

/-- The callback that `setCallbackSequence` gives all sub-requests but the last. -/
def startNext (s : HeteroAsyncInferRequest ι) (i : Nat) (th : CallbackThread) (o : Choice) :
    HeteroAsyncInferRequest ι :=
  if th.sts = .OK then
    match (s.request (i + 1)).StartAsync th.run o with
    | .ok r => ((s.note (.started th.run (i + 1))).setRequest (i + 1) r).moveTo i th .returned
    | .error _ => { s with terminated := true }
  else s.moveTo i th .returned

/-- The next step of the thread that calls the callback of the sub-request `i`. -/
def callbackStep (s : HeteroAsyncInferRequest ι) (i : Nat) (th : CallbackThread) (o : Choice) :
    CallbackPoint → Option (HeteroAsyncInferRequest ι)
  | .entry =>
    if i + 1 < s.size then some (s.startNext i th o)
    else some ((s.setIsRequestBusy false).moveTo i th (if s.callback then .set_requestStatus else .returned))
  | .set_requestStatus => some ({ s with requestStatus := th.sts }.moveTo i th .runCallback)
  | .runCallback =>
    some ({ s with callbacks := s.callbacks ++ [(th.run, s.requestStatus)] }.moveTo i th .callback)
  | .callback => if (s.call .callback).Over then some (s.moveTo i th .returned) else none
  | .returned =>
    -- a sub-request that has been started again is running
    let inference := if (s.request i).inference = .inCallback then .completed th.sts else (s.request i).inference
    some (s.setRequest i ⟨inference, none⟩)

def exec (s : HeteroAsyncInferRequest ι) (i : Nat) (o : Choice) : Option (HeteroAsyncInferRequest ι) := do
  let th ← (s.request i).thread
  s.callbackStep i th o th.at_

/-- The callback calls while the thread of the last sub-request is in it. -/
def MayBegin (s : HeteroAsyncInferRequest ι) : Caller ι → Prop
  | .client _ => True
  | .callback => (s.request (s.size - 1)).thread.map CallbackThread.at_ = some .callback

instance (s : HeteroAsyncInferRequest ι) : (c : Caller ι) → Decidable (s.MayBegin c)
  | .client _ => inferInstanceAs (Decidable True)
  | .callback => inferInstanceAs (Decidable (_ = _))

variable [DecidableEq ι]

def goto (s : HeteroAsyncInferRequest ι) (c : Caller ι) (pc : Call) : HeteroAsyncInferRequest ι :=
  { s with call := Function.update s.call c pc }

def startAsync (s : HeteroAsyncInferRequest ι) (c : Caller ι) (o : Choice) :
    StartPoint → Option (HeteroAsyncInferRequest ι)
  | .entry =>
    if s.isRequestBusy then some (s.goto c (.finished (.threw requestBusy)))
    else some (s.goto c (.startAsync .setIsRequestBusy))
  | .setIsRequestBusy => some ((s.setIsRequestBusy true).goto c (.startAsync .updateInOutIfNeeded))
  | .updateInOutIfNeeded =>
    match o with
    | .throws x => some (s.goto c (.finished (.threw x)))
    | _ => some (s.goto c (.startAsync .startFirstAsyncRequest))
  | .startFirstAsyncRequest =>
    match (s.request 0).StartAsync s.started o with
    | .ok r =>
      some ({ (s.note (.started s.started 0)).setRequest 0 r with started := s.started + 1 }.goto c
        (.finished (.returned .OK)))
    | .error x => some (s.goto c (.finished (.threw x)))

/-- `waitAllRequests` goes on to the next sub-request. -/
def waitNext (s : HeteroAsyncInferRequest ι) (i : Nat) (millis_timeout : Int) (shareMsMode : Bool) : WaitPoint :=
  if i + 1 < s.size then .request (i + 1) millis_timeout shareMsMode else .status .OK

/-- What `waitAllRequests` does after `Wait` of the sub-request `i` has returned `status`. -/
def waitStep (s : HeteroAsyncInferRequest ι) (i : Nat) (millis_timeout : Int) (shareMsMode : Bool) (msLeft : Nat)
    (status : StatusCode) : WaitPoint :=
  if status ≠ .OK then .status status
  else if shareMsMode then
    if millis_timeout - msLeft > 0 then s.waitNext i (millis_timeout - msLeft) shareMsMode
    else .status .RESULT_NOT_READY
  else s.waitNext i millis_timeout shareMsMode

def wait (s : HeteroAsyncInferRequest ι) (c : Caller ι) (o : Choice) : WaitPoint → Option (HeteroAsyncInferRequest ι)
  | .request i millis_timeout shareMsMode => do
    let status ← (s.request i).Wait millis_timeout o
    some (s.goto c (.wait (s.waitStep i millis_timeout shareMsMode o.elapsed status)))
  | .status sts =>
    if sts ≠ .RESULT_NOT_READY ∧ sts ≠ .REQUEST_BUSY then
      some ((s.setIsRequestBusy false).goto c (.finished (.returned sts)))
    else some (s.goto c (.finished (.returned sts)))

def callStep (s : HeteroAsyncInferRequest ι) (c : Caller ι) (o : Choice) : Option (HeteroAsyncInferRequest ι) :=
  match s.call c with
  | .startAsync pt => s.startAsync c o pt
  | .wait pt => s.wait c o pt
  | _ => none

def next (s : HeteroAsyncInferRequest ι) (a : Action ι) : Option (HeteroAsyncInferRequest ι) :=
  if s.terminated then none
  else
    match a with
    | .begin c op => if (s.call c).Over ∧ s.MayBegin c then some (s.goto c op.entry) else none
    | .call c o => s.callStep c o
    | .complete i sts => s.complete i sts
    | .exec i o => s.exec i o

end HeteroAsyncInferRequest

end OpenVino.HeteroPlugin
