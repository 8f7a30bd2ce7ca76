import Mathlib
import OpenVino.Base.Runs
import OpenVino.InferenceEngine.AsyncRequest.Task

/-!
# Tasks that run in turn

`Task::runWithSynchronizer` on any number of threads with one `TaskSynchronizer`: a thread occupies its task, enters the
queue, waits until its number is in front, runs the task and leaves the queue. `Serving` says where the threads stand in
the queue. As long as nobody finds the queue full, each call that is not refused as busy runs its task once, alone, and
in the order of the queue (`runsInTurn`). A call that finds it full throws and leaves its task occupied
(`not_runsInTurn_eleven`).
-/

namespace OpenVino.InferenceEngine

/-! ### The synchronizer -/

/-- `_taskCount` is an `unsigned int`. -/
structure TaskSynchronizer where
  taskCount : Nat := 0
  taskQueue : List Nat := []

namespace TaskSynchronizer

def MAX_NUMBER_OF_TASKS_IN_QUEUE : Nat := 10

def getTaskID (q : TaskSynchronizer) : Nat × TaskSynchronizer :=
  (q.taskCount, { q with taskCount := (q.taskCount + 1) % 2 ^ 32 })

def Full (q : TaskSynchronizer) : Prop := q.taskQueue ≠ [] ∧ MAX_NUMBER_OF_TASKS_IN_QUEUE ≤ q.taskQueue.length

instance (q : TaskSynchronizer) : Decidable q.Full := inferInstanceAs (Decidable (_ ∧ _))

def queueFull : Thrown := ⟨none, "Failed to add more than 10 tasks to queue"⟩

/-- A number is used up even when the task is not added. -/
def addTaskToQueue (q : TaskSynchronizer) : Except Thrown Nat × TaskSynchronizer :=
  let (taskID, q) := q.getTaskID
  if q.Full then (.error queueFull, q) else (.ok taskID, { q with taskQueue := q.taskQueue ++ [taskID] })

/-- What `_waitInQueue` waits for. -/
def Front (q : TaskSynchronizer) (taskID : Nat) : Prop := q.taskQueue.head? = some taskID

instance (q : TaskSynchronizer) (taskID : Nat) : Decidable (q.Front taskID) := inferInstanceAs (Decidable (_ = _))

/-- It pops only a queue that is not empty. -/
def unlock (q : TaskSynchronizer) : TaskSynchronizer := { q with taskQueue := q.taskQueue.tail }

end TaskSynchronizer

/-! ### Threads -/

/-- Where a thread is in `runWithSynchronizer`; `before` is the status that the task had when it was called. -/
inductive SyncPoint
  | occupy (before : Task.Status)
  | addTaskToQueue (before : Task.Status)
  | waitInQueue (taskID : Nat)
  | run                                    -- in `runNoThrowNoBusyCheck`, before the function
  | function
  | setStatus (x : Option Thrown)
  | unlock
  | getStatus (refused : Bool)
deriving DecidableEq

namespace SyncPoint

def adds : SyncPoint → Bool
  | .addTaskToQueue _ => true
  | .occupy _ | .waitInQueue _ | .run | .function | .setStatus _ | .unlock | .getStatus _ => false

/-- Between entering the queue and leaving it. -/
def queued : SyncPoint → Bool
  | .waitInQueue _ | .run | .function | .setStatus _ | .unlock => true
  | .occupy _ | .addTaskToQueue _ | .getStatus _ => false

/-- Behind the wait. -/
def turn : SyncPoint → Bool
  | .run | .function | .setStatus _ | .unlock => true
  | .occupy _ | .addTaskToQueue _ | .waitInQueue _ | .getStatus _ => false

/-- In the queue, and the function has begun. -/
def begun : SyncPoint → Bool
  | .function | .setStatus _ | .unlock => true
  | .occupy _ | .addTaskToQueue _ | .waitInQueue _ | .run | .getStatus _ => false

/-- In the queue, and the function has ended. -/
def ended : SyncPoint → Bool
  | .setStatus _ | .unlock => true
  | .occupy _ | .addTaskToQueue _ | .waitInQueue _ | .run | .function | .getStatus _ => false

variable {pt : SyncPoint}

theorem queued_of_turn (h : pt.turn = true) : pt.queued = true := by
  cases pt <;> first | rfl | cases h

theorem begun_of_ended (h : pt.ended = true) : pt.begun = true := by
  cases pt <;> first | rfl | cases h

end SyncPoint

/-- The tasks and their synchronizer, where the threads are, and what has happened: the calls that have entered the
queue, the runs that have begun and ended, the calls that have returned without being refused as busy, and for each
call that has thrown the status of its task before the call and after it. -/
structure Synchronized (ι τ : Type) where
  task : τ → Task
  synchronizer : TaskSynchronizer := {}
  call : ι → Option (τ × SyncPoint) := fun _ => none
  entered : List (ι × τ) := []
  began : List (ι × τ) := []
  ended : List (ι × τ) := []
  returned : List (ι × τ) := []
  thrown : List (Task.Status × Task.Status) := []

namespace Synchronized

/-- A thread calls `runWithSynchronizer` on a task, or gets on; `x` is what a function that it is in throws. -/
inductive Action (ι τ : Type)
  | call (i : ι) (t : τ)
  | step (i : ι) (x : Option Thrown)

variable {ι τ : Type} [DecidableEq ι]

section System

variable [DecidableEq τ]

def moveTo (s : Synchronized ι τ) (i : ι) (c : Option (τ × SyncPoint)) : Synchronized ι τ :=
  { s with call := Function.update s.call i c }

def setTask (s : Synchronized ι τ) (t : τ) (v : Task) : Synchronized ι τ :=
  { s with task := Function.update s.task t v }

/-- A thread gets on with its call. -/
def callStep (s : Synchronized ι τ) (i : ι) (t : τ) (x : Option Thrown) :
    SyncPoint → Option (Synchronized ι τ)
  | .occupy before =>
    let (occupied, v) := (s.task t).occupy
    if occupied then some ((s.setTask t v).moveTo i (some (t, .addTaskToQueue before)))
    else some (s.moveTo i (some (t, .getStatus true)))
  | .addTaskToQueue before =>
    match s.synchronizer.addTaskToQueue with
    | (.ok taskID, q) =>
      some { s.moveTo i (some (t, .waitInQueue taskID)) with synchronizer := q, entered := s.entered ++ [(i, t)] }
    | (.error _, q) =>
      some { s.moveTo i none with synchronizer := q, thrown := s.thrown ++ [(before, (s.task t).status)] }
  | .waitInQueue taskID => if s.synchronizer.Front taskID then some (s.moveTo i (some (t, .run))) else none
  | .run =>
    some { (s.setTask t (s.task t).enter).moveTo i (some (t, .function)) with
      began := s.began ++ [(i, t)] }
  | .function => some { s.moveTo i (some (t, .setStatus x)) with ended := s.ended ++ [(i, t)] }
  | .setStatus none => some ((s.setTask t (s.task t).leave).moveTo i (some (t, .unlock)))
  | .setStatus (some x) => some ((s.setTask t ((s.task t).fail x)).moveTo i (some (t, .unlock)))
  | .unlock => some { s.moveTo i (some (t, .getStatus false)) with synchronizer := s.synchronizer.unlock }
  | .getStatus refused =>
    some { s.moveTo i none with returned := if refused then s.returned else s.returned ++ [(i, t)] }

def next (s : Synchronized ι τ) : Action ι τ → Option (Synchronized ι τ)
  | .call i t => if s.call i = none then some (s.moveTo i (some (t, .occupy (s.task t).status))) else none
  | .step i x => (s.call i).bind fun c => s.callStep i c.1 x c.2

/-- The runs in which nobody has called yet at the start. -/
def system (task : τ → Task) (allowed : Synchronized ι τ → Action ι τ → Prop) : System (Synchronized ι τ) :=
  .ofActions next allowed { task }

end System

/-- What is promised: a call that throws leaves the status of its task as it was, each call that returns and was not
refused has run its task once, in the order of the queue, and no two runs overlap. -/
structure RunsInTurn (s : Synchronized ι τ) : Prop where
  status : ∀ x ∈ s.thrown, x.1 = x.2
  once : ∀ i, s.call i = none → s.began.filter (·.1 = i) = s.returned.filter (·.1 = i) ∧
    s.ended.filter (·.1 = i) = s.returned.filter (·.1 = i)
  order : s.began <+: s.entered
  alone : s.ended <+: s.began ∧ s.began.length ≤ s.ended.length + 1

/-- A thread that adds itself to the queue finds room. -/
def FindsRoom (s : Synchronized ι τ) : Action ι τ → Prop
  | .call _ _ => True
  | .step i _ => ((s.call i).any fun c => c.2.adds) = true → ¬s.synchronizer.Full

instance (s : Synchronized ι τ) : (a : Action ι τ) → Decidable (s.FindsRoom a)
  | .call _ _ => inferInstanceAs (Decidable True)
  | .step _ _ => inferInstanceAs (Decidable (_ → _))

/-! ### The numbers in the queue -/

/-- The last `n` numbers that have been given out. -/
def numbers (taskCount n : Nat) : List Nat := (List.range n).map fun k => (taskCount + 2 ^ 32 - n + k) % 2 ^ 32

section Numbers

variable {taskCount n k j : Nat}

theorem length_numbers : (numbers taskCount n).length = n := by
  rw [numbers, List.length_map, List.length_range]

theorem numbers_push (hcount : taskCount < 2 ^ 32) (hn : n < 2 ^ 32) :
    numbers ((taskCount + 1) % 2 ^ 32) (n + 1) = numbers taskCount n ++ [taskCount] := by
  rw [numbers, numbers, List.range_succ, List.map_append, List.map_singleton]
  congr 1
  · apply List.map_congr_left
    intro k hk
    have hk := List.mem_range.mp hk
    omega
  · congr 1
    omega

theorem tail_numbers (hn : n < 2 ^ 32) : (numbers taskCount (n + 1)).tail = numbers taskCount n := by
  rw [numbers, numbers, List.range_succ_eq_map, List.map_cons, List.tail_cons, List.map_map]
  apply List.map_congr_left
  intro k hk
  have hk := List.mem_range.mp hk
  rw [Function.comp_apply]
  omega

theorem numbers_getElem? (hk : k < n) : (numbers taskCount n)[k]? = some ((taskCount + 2 ^ 32 - n + k) % 2 ^ 32) := by
  rw [numbers, List.getElem?_map, List.getElem?_range hk, Option.map_some]

/-- No two numbers in the queue are the same. -/
theorem numbers_inj (hn : n ≤ 2 ^ 32) (hk : k < n) (hj : j < n)
    (heq : (numbers taskCount n)[k]? = (numbers taskCount n)[j]?) : k = j := by
  rw [numbers_getElem? hk, numbers_getElem? hj, Option.some_inj] at heq
  omega

end Numbers

/-! ### Where the threads stand -/

/-- The first of the queue, if its thread has come so far. -/
def first (call : ι → Option (τ × SyncPoint)) (p : SyncPoint → Bool) : List (ι × τ) → List (ι × τ)
  | [] => []
  | c :: _ => if (call c.1).any (fun a => p a.2) then [c] else []

/-- The call of a thread that has left the queue and not returned yet. -/
def leaving (i : ι) : Option (τ × SyncPoint) → List (ι × τ)
  | some (t, .getStatus false) => [(i, t)]
  | _ => []

/-- The calls `done` have left the queue, the calls `pending` stand in it, and only the first of these is past its
wait. -/
structure Serving (s : Synchronized ι τ) (done pending : List (ι × τ)) : Prop where
  entered : s.entered = done ++ pending
  taskQueue : s.synchronizer.taskQueue = numbers s.synchronizer.taskCount pending.length
  taskCount : s.synchronizer.taskCount < 2 ^ 32
  room : pending.length ≤ TaskSynchronizer.MAX_NUMBER_OF_TASKS_IN_QUEUE
  nodup : (pending.map Prod.fst).Nodup
  queued : ∀ i t pt, s.call i = some (t, pt) → pt.queued = true → (i, t) ∈ pending
  stands : ∀ (k : Nat) c, pending[k]? = some c → ∃ pt, s.call c.1 = some (c.2, pt) ∧
    ((∃ taskID, s.synchronizer.taskQueue[k]? = some taskID ∧ pt = .waitInQueue taskID) ∨ k = 0 ∧ pt.turn = true)
  began : s.began = done ++ first s.call SyncPoint.begun pending
  ended : s.ended = done ++ first s.call SyncPoint.ended pending
  returned : ∀ i, done.filter (·.1 = i) = s.returned.filter (·.1 = i) ++ leaving i (s.call i)
  thrown : s.thrown = []

variable {s u : Synchronized ι τ} {done pending rest : List (ι × τ)} {i : ι} {t : τ} {pt : SyncPoint}
  {p : SyncPoint → Bool} {a : Action ι τ} {x : Option Thrown} {task : τ → Task}

omit [DecidableEq ι] in
theorem first_congr {call call' : ι → Option (τ × SyncPoint)} (h : ∀ c ∈ pending, call c.1 = call' c.1) :
    first call p pending = first call' p pending := by
  cases pending with
  | nil => rfl
  | cons c rest => rw [first, first, h c List.mem_cons_self]

omit [DecidableEq ι] in
theorem first_prefix : first s.call p pending <+: pending := by
  cases pending with
  | nil => exact List.prefix_refl []
  | cons c rest =>
    rw [first]
    split_ifs
    · exact ⟨rest, rfl⟩
    · exact List.nil_prefix

omit [DecidableEq ι] in
theorem leaving_of_queued (h : pt.queued = true) : leaving i (some (t, pt)) = [] := by
  cases pt <;> first | rfl | cases h

theorem leaving_update {c : Option (τ × SyncPoint)} (hcall : u.call = Function.update s.call i c)
    (hc : leaving i c = leaving i (s.call i)) (j : ι) : leaving j (u.call j) = leaving j (s.call j) := by
  by_cases hji : j = i
  · subst hji
    rw [hcall, Function.update_self, hc]
  · rw [hcall, Function.update_of_ne hji]

theorem Serving.init (task : τ → Task) : Serving ({ task } : Synchronized ι τ) [] [] where
  entered := rfl
  taskQueue := rfl
  taskCount := show 0 < 2 ^ 32 by decide
  room := Nat.zero_le _
  nodup := List.nodup_nil
  queued i t pt hcall := by cases hcall
  stands k c hk := by cases hk
  began := rfl
  ended := rfl
  returned i := rfl
  thrown := rfl

/-- The call of a pending entry is in the queue. -/
theorem Serving.call_mem (h : Serving s done pending) {c : ι × τ} (hc : c ∈ pending) :
    ∃ pt, s.call c.1 = some (c.2, pt) ∧ pt.queued = true := by
  obtain ⟨k, hk⟩ := List.mem_iff_getElem?.mp hc
  obtain ⟨pt, hcall, hstands⟩ := h.stands k c hk
  refine ⟨pt, hcall, ?_⟩
  rcases hstands with ⟨taskID, -, hwaits⟩ | ⟨-, hturn⟩
  · rw [hwaits]
    rfl
  · exact SyncPoint.queued_of_turn hturn

/-- A thread that is past its wait is the first of the queue. -/
theorem Serving.of_turn (h : Serving s done pending) (hcall : s.call i = some (t, pt)) (hpt : pt.turn = true) :
    ∃ rest, pending = (i, t) :: rest := by
  obtain ⟨k, hk⟩ := List.mem_iff_getElem?.mp (h.queued i t pt hcall (SyncPoint.queued_of_turn hpt))
  obtain ⟨pt', hcall', hstands⟩ := h.stands k (i, t) hk
  obtain rfl : pt = pt' := by
    rw [hcall] at hcall'
    exact (Prod.mk.inj (Option.some_inj.mp hcall')).2
  rcases hstands with ⟨taskID, -, hwaits⟩ | ⟨rfl, -⟩
  · rw [hwaits] at hpt
    cases hpt
  · cases pending with
    | nil => cases hk
    | cons c rest =>
      obtain rfl := Option.some_inj.mp hk
      exact ⟨rest, rfl⟩

/-- The numbers are different, so it is the first of the queue too that finds its number in front. -/
theorem Serving.of_front (h : Serving s done pending) {taskID : Nat}
    (hcall : s.call i = some (t, .waitInQueue taskID)) (hfront : s.synchronizer.Front taskID) :
    ∃ rest, pending = (i, t) :: rest := by
  obtain ⟨k, hk⟩ := List.mem_iff_getElem?.mp (h.queued i t _ hcall rfl)
  obtain ⟨pt', hcall', hstands⟩ := h.stands k (i, t) hk
  obtain rfl : SyncPoint.waitInQueue taskID = pt' := by
    rw [hcall] at hcall'
    exact (Prod.mk.inj (Option.some_inj.mp hcall')).2
  have hlt := (List.getElem?_eq_some_iff.mp hk).1
  have hroom := h.room
  rcases hstands with ⟨taskID', htaskID, heq⟩ | ⟨-, hturn⟩
  · obtain rfl := SyncPoint.waitInQueue.inj heq
    rw [TaskSynchronizer.Front, List.head?_eq_getElem?, ← htaskID, h.taskQueue] at hfront
    unfold TaskSynchronizer.MAX_NUMBER_OF_TASKS_IN_QUEUE at hroom
    have hzero := numbers_inj (by omega) (by omega) hlt hfront
    subst hzero
    cases pending with
    | nil => cases hk
    | cons c rest =>
      obtain rfl := Option.some_inj.mp hk
      exact ⟨rest, rfl⟩
  · cases hturn

/-! ### The steps -/

section Steps

variable (h : Serving s done pending)

include h

/-- A step of a thread that is not in the queue and stays outside. -/
theorem Serving.outside {c : Option (τ × SyncPoint)}
    (hbefore : ∀ t pt, s.call i = some (t, pt) → pt.queued = false)
    (hafter : ∀ t pt, c = some (t, pt) → pt.queued = false) (hcall : u.call = Function.update s.call i c)
    (hentered : u.entered = s.entered) (hsynchronizer : u.synchronizer = s.synchronizer) (hbegan : u.began = s.began)
    (hended : u.ended = s.ended) (hthrown : u.thrown = s.thrown)
    (hreturned : ∀ j, u.returned.filter (·.1 = j) ++ leaving j (u.call j) =
      s.returned.filter (·.1 = j) ++ leaving j (s.call j)) : Serving u done pending := by
  have hothers : ∀ c ∈ pending, u.call c.1 = s.call c.1 := by
    intro c hc
    obtain ⟨pt, hc', hqueued⟩ := h.call_mem hc
    have hne : c.1 ≠ i := by
      rintro rfl
      rw [hbefore _ _ hc'] at hqueued
      cases hqueued
    rw [hcall, Function.update_of_ne hne]
  refine ⟨hentered.trans h.entered, by rw [hsynchronizer, h.taskQueue], hsynchronizer ▸ h.taskCount, h.room,
    h.nodup, ?_, ?_, ?_, ?_, ?_, hthrown.trans h.thrown⟩
  · intro j t pt hj hqueued
    by_cases hji : j = i
    · subst hji
      rw [hcall, Function.update_self] at hj
      rw [hafter _ _ hj] at hqueued
      cases hqueued
    · rw [hcall, Function.update_of_ne hji] at hj
      exact h.queued j t pt hj hqueued
  · intro k c hk
    rw [hothers c (List.mem_of_getElem? hk), hsynchronizer]
    exact h.stands k c hk
  · rw [hbegan, h.began, first_congr hothers]
  · rw [hended, h.ended, first_congr hothers]
  · intro j
    rw [h.returned, ← hreturned]

omit h

/-- A step of the first of the queue. -/
theorem Serving.atTurn (h : Serving s done ((i, t) :: rest)) (pt' : SyncPoint) (hpt' : pt'.turn = true)
    (hcall : u.call = Function.update s.call i (some (t, pt')))
    (hentered : u.entered = s.entered) (hsynchronizer : u.synchronizer = s.synchronizer)
    (hbegan : u.began = done ++ if pt'.begun = true then [(i, t)] else [])
    (hended : u.ended = done ++ if pt'.ended = true then [(i, t)] else [])
    (hreturned : u.returned = s.returned) (hthrown : u.thrown = s.thrown) : Serving u done ((i, t) :: rest) := by
  obtain ⟨pt, hi, hqueued⟩ := h.call_mem (c := (i, t)) List.mem_cons_self
  have hself : u.call i = some (t, pt') := by rw [hcall, Function.update_self]
  have hothers : ∀ {j}, j ≠ i → u.call j = s.call j := by
    intro j hj
    rw [hcall, Function.update_of_ne hj]
  have hfirst : ∀ p : SyncPoint → Bool,
      first u.call p ((i, t) :: rest) = if p pt' = true then [(i, t)] else [] := by
    intro p
    rw [first, hself, Option.any_some]
  refine ⟨hentered.trans h.entered, by rw [hsynchronizer, h.taskQueue], hsynchronizer ▸ h.taskCount, h.room,
    h.nodup, ?_, ?_, by rw [hfirst, hbegan], by rw [hfirst, hended], ?_, hthrown.trans h.thrown⟩
  · intro j t' pt'' hj hqueued'
    by_cases hji : j = i
    · subst hji
      rw [hself, Option.some_inj, Prod.mk.injEq] at hj
      obtain ⟨rfl, -⟩ := hj
      exact List.mem_cons_self
    · rw [hothers hji] at hj
      exact h.queued j t' pt'' hj hqueued'
  · intro k c hk
    cases k with
    | zero =>
      obtain rfl := Option.some_inj.mp hk
      exact ⟨pt', hself, .inr ⟨rfl, hpt'⟩⟩
    | succ k =>
      have hne : c.1 ≠ i := by
        rintro hci
        have hmem := List.mem_map_of_mem (f := Prod.fst) (List.mem_of_getElem? (l := rest) hk)
        exact (List.nodup_cons.mp h.nodup).1 (hci ▸ hmem)
      rw [hothers hne, hsynchronizer]
      exact h.stands (k + 1) c hk
  · intro j
    by_cases hji : j = i
    · subst hji
      have hnone : leaving j (s.call j) = leaving j (u.call j) := by
        rw [hself, hi, leaving_of_queued hqueued, leaving_of_queued (SyncPoint.queued_of_turn hpt')]
      rw [h.returned, hreturned, hnone]
    · rw [h.returned, hreturned, hothers hji]

/-- The history of the first of the queue. -/
theorem Serving.history (h : Serving s done ((i, t) :: rest)) (hi : s.call i = some (t, pt)) :
    (s.began = done ++ if pt.begun = true then [(i, t)] else []) ∧
      s.ended = done ++ if pt.ended = true then [(i, t)] else [] := by
  have hfirst : ∀ p : SyncPoint → Bool, first s.call p ((i, t) :: rest) = if p pt = true then [(i, t)] else [] := by
    intro p
    rw [first, hi, Option.any_some]
  rw [h.began, h.ended, hfirst, hfirst]
  exact ⟨rfl, rfl⟩

/-- A thread enters the queue. -/
theorem Serving.push (h : Serving s done pending) {before : Task.Status}
    (hi : s.call i = some (t, .addTaskToQueue before)) (hroom : ¬s.synchronizer.Full)
    (hcall : u.call = Function.update s.call i (some (t, .waitInQueue s.synchronizer.taskCount)))
    (hentered : u.entered = s.entered ++ [(i, t)])
    (hsynchronizer : u.synchronizer = ⟨(s.synchronizer.taskCount + 1) % 2 ^ 32,
      s.synchronizer.taskQueue ++ [s.synchronizer.taskCount]⟩)
    (hbegan : u.began = s.began) (hended : u.ended = s.ended) (hreturned : u.returned = s.returned)
    (hthrown : u.thrown = s.thrown) : Serving u done (pending ++ [(i, t)]) := by
  have hlength : s.synchronizer.taskQueue.length = pending.length := by rw [h.taskQueue, length_numbers]
  have hsmall : pending.length < TaskSynchronizer.MAX_NUMBER_OF_TASKS_IN_QUEUE := by
    by_contra hle
    refine hroom ⟨List.ne_nil_of_length_pos ?_, by omega⟩
    unfold TaskSynchronizer.MAX_NUMBER_OF_TASKS_IN_QUEUE at hle
    omega
  have hself : u.call i = some (t, .waitInQueue s.synchronizer.taskCount) := by rw [hcall, Function.update_self]
  have hne : ∀ c ∈ pending, c.1 ≠ i := by
    rintro c hc rfl
    obtain ⟨pt, hc', hqueued⟩ := h.call_mem hc
    rw [hi] at hc'
    obtain ⟨-, rfl⟩ := Prod.mk.inj (Option.some_inj.mp hc')
    cases hqueued
  have hothers : ∀ c ∈ pending, u.call c.1 = s.call c.1 := by
    intro c hc
    rw [hcall, Function.update_of_ne (hne c hc)]
  have hfirst : ∀ p : SyncPoint → Bool, p (.waitInQueue s.synchronizer.taskCount) = false →
      first u.call p (pending ++ [(i, t)]) = first s.call p pending := by
    intro p hp
    cases hpending : pending with
    | nil => rw [List.nil_append, first, first, hself, Option.any_some, hp, if_neg Bool.false_ne_true]
    | cons c rest => rw [List.cons_append, first, first, hothers c (hpending ▸ List.mem_cons_self)]
  unfold TaskSynchronizer.MAX_NUMBER_OF_TASKS_IN_QUEUE at hsmall
  refine ⟨?_, ?_, ?_, ?_, ?_, ?_, ?_, ?_, ?_, ?_, hthrown.trans h.thrown⟩
  · rw [hentered, h.entered, List.append_assoc]
  · rw [hsynchronizer, h.taskQueue, List.length_append, List.length_singleton, numbers_push h.taskCount (by omega)]
  · rw [hsynchronizer]
    exact Nat.mod_lt _ (by decide)
  · rw [List.length_append, List.length_singleton]
    exact hsmall
  · rw [List.map_append, List.map_singleton, List.nodup_append]
    refine ⟨h.nodup, List.nodup_singleton _, ?_⟩
    rintro j hj _ hj' rfl
    obtain ⟨c, hc, rfl⟩ := List.mem_map.mp hj
    exact hne c hc (List.mem_singleton.mp hj')
  · intro j t' pt hj hqueued
    rw [List.mem_append, List.mem_singleton]
    by_cases hji : j = i
    · subst hji
      rw [hself, Option.some_inj, Prod.mk.injEq] at hj
      exact .inr (by rw [hj.1])
    · rw [hcall, Function.update_of_ne hji] at hj
      exact .inl (h.queued j t' pt hj hqueued)
  · intro k c hk
    rw [hsynchronizer]
    by_cases hlt : k < pending.length
    · rw [List.getElem?_append_left hlt] at hk
      rw [hothers c (List.mem_of_getElem? hk)]
      dsimp only
      rw [List.getElem?_append_left (by omega)]
      exact h.stands k c hk
    · have hlast := (List.getElem?_eq_some_iff.mp hk).1
      rw [List.length_append, List.length_singleton] at hlast
      obtain rfl : k = pending.length := by omega
      rw [List.getElem?_concat_length, Option.some_inj] at hk
      subst hk
      refine ⟨_, hself, .inl ⟨s.synchronizer.taskCount, ?_, rfl⟩⟩
      dsimp only
      rw [← hlength, List.getElem?_concat_length]
  · rw [hbegan, h.began, hfirst SyncPoint.begun rfl]
  · rw [hended, h.ended, hfirst SyncPoint.ended rfl]
  · intro j
    rw [h.returned, hreturned]
    by_cases hji : j = i
    · subst hji
      rw [hself, hi]
      rfl
    · rw [hcall, Function.update_of_ne hji]

/-- The first of the queue leaves it. -/
theorem Serving.pop (h : Serving s done ((i, t) :: rest)) (hi : s.call i = some (t, .unlock))
    (hcall : u.call = Function.update s.call i (some (t, .getStatus false))) (hentered : u.entered = s.entered)
    (hsynchronizer : u.synchronizer = s.synchronizer.unlock) (hbegan : u.began = s.began) (hended : u.ended = s.ended)
    (hreturned : u.returned = s.returned) (hthrown : u.thrown = s.thrown) : Serving u (done ++ [(i, t)]) rest := by
  obtain ⟨hbegan', hended'⟩ := h.history hi
  rw [if_pos (show SyncPoint.unlock.begun = true from rfl)] at hbegan'
  rw [if_pos (show SyncPoint.unlock.ended = true from rfl)] at hended'
  have hroom := h.room
  rw [List.length_cons] at hroom
  have hne : ∀ c ∈ rest, c.1 ≠ i := by
    intro c hc hci
    have hmem := List.mem_map_of_mem (f := Prod.fst) hc
    exact (List.nodup_cons.mp h.nodup).1 (hci ▸ hmem)
  have hothers : ∀ c ∈ rest, u.call c.1 = s.call c.1 := by
    intro c hc
    rw [hcall, Function.update_of_ne (hne c hc)]
  have hself : u.call i = some (t, .getStatus false) := by rw [hcall, Function.update_self]
  have hwaits : ∀ (k : Nat) c, rest[k]? = some c → ∃ pt, u.call c.1 = some (c.2, pt) ∧
      ∃ taskID, u.synchronizer.taskQueue[k]? = some taskID ∧ pt = .waitInQueue taskID := by
    intro k c hk
    obtain ⟨pt, hc, hstands⟩ := h.stands (k + 1) c hk
    refine ⟨pt, (hothers c (List.mem_of_getElem? hk)).trans hc, ?_⟩
    rcases hstands with ⟨taskID, htaskID, hpt⟩ | ⟨hzero, -⟩
    · refine ⟨taskID, ?_, hpt⟩
      rw [hsynchronizer, TaskSynchronizer.unlock, List.getElem?_tail]
      exact htaskID
    · omega
  have hfirst : ∀ p : SyncPoint → Bool, (∀ taskID, p (.waitInQueue taskID) = false) → first u.call p rest = [] := by
    intro p hp
    cases hrest : rest with
    | nil => rfl
    | cons c rest' =>
      obtain ⟨pt, hc, taskID, -, rfl⟩ := hwaits 0 c (by rw [hrest, List.getElem?_cons_zero])
      rw [first, hc, Option.any_some, hp, if_neg Bool.false_ne_true]
  unfold TaskSynchronizer.MAX_NUMBER_OF_TASKS_IN_QUEUE at hroom
  refine ⟨?_, ?_, ?_, ?_, (List.nodup_cons.mp h.nodup).2, ?_, ?_, ?_, ?_, ?_, hthrown.trans h.thrown⟩
  · rw [hentered, h.entered, List.append_assoc, List.singleton_append]
  · rw [hsynchronizer, TaskSynchronizer.unlock, h.taskQueue, List.length_cons, tail_numbers (by omega)]
  · rw [hsynchronizer]
    exact h.taskCount
  · unfold TaskSynchronizer.MAX_NUMBER_OF_TASKS_IN_QUEUE
    omega
  · intro j t' pt hj hqueued
    by_cases hji : j = i
    · subst hji
      rw [hself, Option.some_inj, Prod.mk.injEq] at hj
      rw [← hj.2] at hqueued
      cases hqueued
    · rw [hcall, Function.update_of_ne hji] at hj
      rcases List.mem_cons.mp (h.queued j t' pt hj hqueued) with heq | hmem
      · exact absurd (Prod.mk.inj heq).1 hji
      · exact hmem
  · intro k c hk
    obtain ⟨pt, hc, hwait⟩ := hwaits k c hk
    exact ⟨pt, hc, .inl hwait⟩
  · rw [hbegan, hbegan', hfirst SyncPoint.begun fun _ => rfl, List.append_nil]
  · rw [hended, hended', hfirst SyncPoint.ended fun _ => rfl, List.append_nil]
  · intro j
    rw [List.filter_append, h.returned, hreturned]
    by_cases hji : j = i
    · subst hji
      rw [hself, hi, List.filter_singleton, leaving_of_queued (show SyncPoint.unlock.queued = true from rfl),
        List.append_nil, decide_eq_true rfl]
      rfl
    · rw [hcall, Function.update_of_ne hji, List.filter_singleton,
        decide_eq_false (show ¬i = j from fun h => hji h.symm)]
      exact List.append_nil _

variable [DecidableEq τ]

/-- Each point of a call keeps the queue in order. -/
theorem Serving.callStep (h : Serving s done pending) (hroom : FindsRoom s (.step i x))
    (hi : s.call i = some (t, pt)) (hstep : s.callStep i t x pt = some u) :
    ∃ done pending, Serving u done pending := by
  have hbefore : pt.queued = false → ∀ t' pt', s.call i = some (t', pt') → pt'.queued = false := by
    intro hpt t' pt' hi'
    rw [hi] at hi'
    obtain ⟨-, rfl⟩ := Prod.mk.inj (Option.some_inj.mp hi')
    exact hpt
  have hafter : ∀ {pt : SyncPoint}, pt.queued = false →
      ∀ t' pt', some (t, pt) = some (t', pt') → pt'.queued = false := by
    intro pt hpt t' pt' heq
    obtain ⟨-, rfl⟩ := Prod.mk.inj (Option.some_inj.mp heq)
    exact hpt
  cases pt with
  | occupy before =>
    have hmoves : ∀ {v : SyncPoint} {w : Synchronized ι τ}, v.queued = false → leaving i (some (t, v)) = [] →
        w.call = Function.update s.call i (some (t, v)) → w.entered = s.entered →
        w.synchronizer = s.synchronizer → w.began = s.began → w.ended = s.ended → w.thrown = s.thrown →
        w.returned = s.returned → Serving w done pending := by
      intro v w hv hleaving hcall hentered hsynchronizer hbegan hended hthrown hreturned
      refine h.outside (hbefore rfl) (hafter hv) hcall hentered hsynchronizer hbegan hended hthrown fun j => ?_
      rw [hreturned, leaving_update hcall (by rw [hi, hleaving]; rfl)]
    simp only [Synchronized.callStep] at hstep
    split_ifs at hstep
    · rw [← Option.some_inj.mp hstep]
      exact ⟨done, pending, hmoves (v := .addTaskToQueue before) rfl rfl rfl rfl rfl rfl rfl rfl rfl⟩
    · rw [← Option.some_inj.mp hstep]
      exact ⟨done, pending, hmoves (v := .getStatus true) rfl rfl rfl rfl rfl rfl rfl rfl rfl⟩
  | addTaskToQueue before =>
    have hfree := hroom (by rw [hi]; rfl)
    have hadd : s.synchronizer.addTaskToQueue = (.ok s.synchronizer.taskCount,
        ⟨(s.synchronizer.taskCount + 1) % 2 ^ 32, s.synchronizer.taskQueue ++ [s.synchronizer.taskCount]⟩) := by
      unfold TaskSynchronizer.addTaskToQueue
      exact if_neg hfree
    simp only [Synchronized.callStep, hadd] at hstep
    rw [← Option.some_inj.mp hstep]
    exact ⟨done, pending ++ [(i, t)], h.push hi hfree rfl rfl rfl rfl rfl rfl rfl⟩
  | waitInQueue taskID =>
    simp only [Synchronized.callStep] at hstep
    split_ifs at hstep with hfront
    obtain ⟨rest, rfl⟩ := h.of_front hi hfront
    obtain ⟨hbegan, hended⟩ := h.history hi
    rw [← Option.some_inj.mp hstep]
    exact ⟨done, _, h.atTurn .run rfl rfl rfl rfl hbegan hended rfl rfl⟩
  | run =>
    obtain ⟨rest, rfl⟩ := h.of_turn hi rfl
    obtain ⟨hbegan, hended⟩ := h.history hi
    rw [← Option.some_inj.mp hstep]
    refine ⟨done, _, h.atTurn .function rfl rfl rfl rfl ?_ hended rfl rfl⟩
    exact congrArg (· ++ [(i, t)]) (hbegan.trans (List.append_nil done))
  | function =>
    obtain ⟨rest, rfl⟩ := h.of_turn hi rfl
    obtain ⟨hbegan, hended⟩ := h.history hi
    rw [← Option.some_inj.mp hstep]
    refine ⟨done, _, h.atTurn (.setStatus x) rfl rfl rfl rfl hbegan ?_ rfl rfl⟩
    exact congrArg (· ++ [(i, t)]) (hended.trans (List.append_nil done))
  | setStatus y =>
    obtain ⟨rest, rfl⟩ := h.of_turn hi rfl
    obtain ⟨hbegan, hended⟩ := h.history hi
    cases y with
    | none =>
      rw [← Option.some_inj.mp hstep]
      exact ⟨done, _, h.atTurn .unlock rfl rfl rfl rfl hbegan hended rfl rfl⟩
    | some y =>
      rw [← Option.some_inj.mp hstep]
      exact ⟨done, _, h.atTurn .unlock rfl rfl rfl rfl hbegan hended rfl rfl⟩
  | unlock =>
    obtain ⟨rest, rfl⟩ := h.of_turn hi rfl
    rw [← Option.some_inj.mp hstep]
    exact ⟨done ++ [(i, t)], rest, h.pop hi rfl rfl rfl rfl rfl rfl rfl⟩
  | getStatus refused =>
    rw [← Option.some_inj.mp hstep]
    refine ⟨done, pending, h.outside (hbefore rfl) (c := none) (fun _ _ hnone => by cases hnone) rfl rfl rfl rfl
      rfl rfl fun j => ?_⟩
    by_cases hji : j = i
    · subst hji
      have hself : (s.moveTo j none).call j = none := Function.update_self _ _ _
      dsimp only
      rw [hself, hi]
      cases refused with
      | true => rfl
      | false =>
        rw [if_neg Bool.false_ne_true, List.filter_append, List.filter_singleton, decide_eq_true rfl]
        exact List.append_nil _
    · have hother : (s.moveTo i none).call j = s.call j := Function.update_of_ne hji _ _
      dsimp only
      rw [hother]
      cases refused with
      | true => rfl
      | false =>
        rw [if_neg Bool.false_ne_true, List.filter_append, List.filter_singleton,
          decide_eq_false (show ¬i = j from fun h => hji h.symm)]
        exact congrArg (· ++ leaving j (s.call j)) (List.append_nil _)

theorem Serving.next (h : Serving s done pending) (hroom : FindsRoom s a) (hstep : s.next a = some u) :
    ∃ done pending, Serving u done pending := by
  cases a with
  | call i t =>
    simp only [Synchronized.next] at hstep
    split_ifs at hstep with hi
    rw [← Option.some_inj.mp hstep]
    refine ⟨done, pending, h.outside (fun _ _ hcon => ?_) (fun _ _ heq => ?_) rfl rfl rfl rfl rfl rfl fun j => ?_⟩
    · rw [hi] at hcon
      cases hcon
    · obtain ⟨-, rfl⟩ := Prod.mk.inj (Option.some_inj.mp heq)
      rfl
    · rw [leaving_update (i := i) rfl (by rw [hi]; rfl)]
      rfl
  | step i x =>
    obtain ⟨⟨t, pt⟩, hi, hstep⟩ := Option.bind_eq_some_iff.mp hstep
    exact h.callStep hroom hi hstep

end Steps

/-! ### The result -/

theorem Serving.inTurn (h : Serving s done pending) : s.RunsInTurn := by
  have hfirst : ∀ {i : ι} (p : SyncPoint → Bool), s.call i = none →
      (first s.call p pending).filter (·.1 = i) = [] := by
    intro i p hi
    rw [List.filter_eq_nil_iff]
    intro c hc hci
    obtain ⟨pt, hcall, -⟩ := h.call_mem (List.IsPrefix.subset first_prefix hc)
    rw [of_decide_eq_true hci, hi] at hcall
    cases hcall
  have hends : first s.call SyncPoint.ended pending <+: first s.call SyncPoint.begun pending := by
    cases pending with
    | nil => exact List.prefix_refl []
    | cons c rest =>
      obtain ⟨pt, hcall, -⟩ := h.call_mem (c := c) List.mem_cons_self
      rw [first, first, hcall, Option.any_some, Option.any_some]
      split_ifs with hended hbegun
      · exact List.prefix_refl [c]
      · exact absurd (SyncPoint.begun_of_ended hended) hbegun
      · exact List.nil_prefix
      · exact List.prefix_refl []
  have hone : (first s.call SyncPoint.begun pending).length ≤ 1 := by
    cases pending with
    | nil => exact Nat.zero_le 1
    | cons c rest =>
      rw [first]
      split_ifs
      · exact le_rfl
      · exact Nat.zero_le 1
  refine ⟨fun y hy => ?_, fun i hi => ?_, ?_, ?_, ?_⟩
  · rw [h.thrown] at hy
    cases hy
  · have hreturned := h.returned i
    rw [hi, show leaving i (none : Option (τ × SyncPoint)) = [] from rfl, List.append_nil] at hreturned
    rw [h.began, h.ended, List.filter_append, List.filter_append, hfirst SyncPoint.begun hi,
      hfirst SyncPoint.ended hi, List.append_nil, hreturned]
    exact ⟨rfl, rfl⟩
  · rw [h.began, h.entered]
    exact (List.prefix_append_right_inj done).mpr first_prefix
  · rw [h.began, h.ended]
    exact (List.prefix_append_right_inj done).mpr hends
  · rw [h.began, h.ended, List.length_append, List.length_append]
    omega

variable [DecidableEq τ]

theorem exists_serving (h : (system task FindsRoom).Reachable s) : ∃ done pending, Serving s done pending := by
  refine System.Reachable.induct (I := fun s => ∃ done pending, Serving s done pending) ?_ ?_ h
  · rintro _ rfl
    exact ⟨[], [], Serving.init task⟩
  · rintro s u - ⟨done, pending, hserving⟩ ⟨a, hroom, hstep⟩
    exact hserving.next hroom hstep

/-- One thread runs its task. -/
def oneRun : List (Action Nat Nat) := [.call 0 0] ++ List.replicate 8 (.step 0 none)

/-- A step of a thread that stands in the queue; functions return. -/
def QueueStep (s u : Synchronized ι τ) : Prop :=
  ∃ i, ((s.call i).any fun c => c.2.queued) = true ∧ s.next (.step i none) = some u

/-- From here the first of the queue gets to leave it. -/
def Leaves (s : Synchronized ι τ) (done rest : List (ι × τ)) (c : ι × τ) : Prop :=
  ∃ u, Relation.ReflTransGen QueueStep s u ∧ Serving u (done ++ [c]) rest ∧ u.entered = s.entered

section Leaves

theorem queueStep (hi : s.call i = some (t, pt)) (hpt : pt.queued = true) (hstep : s.callStep i t none pt = some u) :
    QueueStep s u := by
  refine ⟨i, ?_, ?_⟩
  · rw [hi]
    exact hpt
  · rw [next, hi]
    exact hstep

theorem leaves_of_step (hi : s.call i = some (t, pt)) (hpt : pt.queued = true)
    (hstep : s.callStep i t none pt = some u) (hentered : u.entered = s.entered) (h : Leaves u done rest (i, t)) :
    Leaves s done rest (i, t) := by
  obtain ⟨v, hrun, hserving, hv⟩ := h
  exact ⟨v, .head (queueStep hi hpt hstep) hrun, hserving, hv.trans hentered⟩

variable (h : Serving s done ((i, t) :: rest))

include h

theorem leaves_unlock (hi : s.call i = some (t, .unlock)) : Leaves s done rest (i, t) :=
  ⟨_, .single (queueStep hi rfl rfl), h.pop hi rfl rfl rfl rfl rfl rfl rfl, rfl⟩

theorem leaves_setStatus (hi : s.call i = some (t, .setStatus x)) : Leaves s done rest (i, t) := by
  obtain ⟨hbegan, hended⟩ := h.history hi
  cases x <;>
  · refine leaves_of_step hi rfl rfl rfl (leaves_unlock (h.atTurn .unlock rfl rfl rfl rfl hbegan hended rfl rfl) ?_)
    exact Function.update_self _ _ _

theorem leaves_function (hi : s.call i = some (t, .function)) : Leaves s done rest (i, t) := by
  obtain ⟨hbegan, hended⟩ := h.history hi
  refine leaves_of_step hi rfl rfl rfl
    (leaves_setStatus (x := none) (h.atTurn (.setStatus none) rfl rfl rfl rfl hbegan ?_ rfl rfl) ?_)
  · exact congrArg (· ++ [(i, t)]) (hended.trans (List.append_nil done))
  · exact Function.update_self _ _ _

theorem leaves_run (hi : s.call i = some (t, .run)) : Leaves s done rest (i, t) := by
  obtain ⟨hbegan, hended⟩ := h.history hi
  refine leaves_of_step hi rfl rfl rfl (leaves_function (h.atTurn .function rfl rfl rfl rfl ?_ hended rfl rfl) ?_)
  · exact congrArg (· ++ [(i, t)]) (hbegan.trans (List.append_nil done))
  · exact Function.update_self _ _ _

/-- The number of the first is in front. -/
theorem leaves_waitInQueue {taskID : Nat} (hi : s.call i = some (t, .waitInQueue taskID)) : Leaves s done rest (i, t) := by
  obtain ⟨hbegan, hended⟩ := h.history hi
  obtain ⟨pt, hi', hstands⟩ := h.stands 0 (i, t) rfl
  obtain rfl : SyncPoint.waitInQueue taskID = pt := by
    rw [hi] at hi'
    exact (Prod.mk.inj (Option.some_inj.mp hi')).2
  have hfront : s.synchronizer.Front taskID := by
    rcases hstands with ⟨taskID', hhead, heq⟩ | ⟨-, hturn⟩
    · rw [TaskSynchronizer.Front, List.head?_eq_getElem?, hhead, SyncPoint.waitInQueue.inj heq]
    · cases hturn
  refine leaves_of_step hi rfl (if_pos hfront) rfl
    (leaves_run (h.atTurn .run rfl rfl rfl rfl hbegan hended rfl rfl) ?_)
  exact Function.update_self _ _ _

theorem Serving.leaves : Leaves s done rest (i, t) := by
  obtain ⟨pt, hi, hqueued⟩ := h.call_mem (c := (i, t)) List.mem_cons_self
  cases pt with
  | waitInQueue taskID => exact leaves_waitInQueue h hi
  | run => exact leaves_run h hi
  | function => exact leaves_function h hi
  | setStatus x => exact leaves_setStatus h hi
  | unlock => exact leaves_unlock h hi
  | _ => cases hqueued

end Leaves

/-- **No call is stuck in the queue.** In every run in which whoever adds itself to the queue finds room, the steps of
the threads that stand in it lead to a state in which every call that has entered the queue has run its task. -/
theorem drains (h : (system task FindsRoom).Reachable s) :
    ∃ u, Relation.ReflTransGen QueueStep s u ∧ u.entered = s.entered ∧ u.began = u.entered ∧ u.ended = u.entered := by
  obtain ⟨done, pending, hserving⟩ := exists_serving h
  clear h
  induction pending generalizing s done with
  | nil =>
    have hbegan := hserving.began
    have hended := hserving.ended
    have hentered := hserving.entered
    rw [List.append_nil] at hentered
    rw [first, List.append_nil, ← hentered] at hbegan hended
    exact ⟨s, .refl, rfl, hbegan, hended⟩
  | cons c rest ih =>
    obtain ⟨v, hrun, hv, hentered⟩ := hserving.leaves
    obtain ⟨u, hrun', hu, hall⟩ := ih _ hv
    exact ⟨u, hrun.trans hrun', hu.trans hentered, hall⟩

/-- Two threads in the queue. -/
def twoWait : List (Action Nat Nat) :=
  [.call 0 0, .step 0 none, .step 0 none, .call 1 1, .step 1 none, .step 1 none]

theorem drains_twoWait : ∃ s : Synchronized Nat Nat,
    System.perform next FindsRoom { task := fun _ => {} } twoWait = some s ∧ s.began = [] ∧
      ∃ u, Relation.ReflTransGen QueueStep s u ∧ u.ended = [(0, 0), (1, 1)] := by
  have hrun : (System.perform next FindsRoom ({ task := fun _ => {} } : Synchronized Nat Nat) twoWait).any
      fun s => s.began = [] ∧ s.entered = [(0, 0), (1, 1)] := by decide +kernel
  obtain ⟨s, hs, hrest⟩ := (Option.any_eq_true _ _).mp hrun
  obtain ⟨hbegan, hentered⟩ := of_decide_eq_true hrest
  obtain ⟨u, hrun, hu, -, hended⟩ := drains (System.reachable_of_perform (.init rfl) hs)
  exact ⟨s, hs, hbegan, u, hrun, by rw [hended, hu, hentered]⟩

/-! ### Refused calls -/

section Refused

variable {owner : τ → ι}

/-- Each thread calls its own tasks. -/
def OwnTask (owner : τ → ι) : Action ι τ → Prop
  | .call i t => owner t = i
  | .step _ _ => True

instance : (a : Action ι τ) → Decidable (OwnTask owner a)
  | .call _ _ => inferInstanceAs (Decidable (_ = _))
  | .step _ _ => inferInstanceAs (Decidable True)

/-- What a call has found out about the status of its task. -/
def Saw (status : Task.Status) : SyncPoint → Prop
  | .occupy before => status = before
  | .addTaskToQueue before => before ≠ .TS_BUSY ∧ status = .TS_BUSY
  | _ => True

/-- The calls are about own tasks, and those that have thrown have left theirs occupied. -/
structure Occupies (owner : τ → ι) (s : Synchronized ι τ) : Prop where
  call : ∀ i t pt, s.call i = some (t, pt) → owner t = i ∧ Saw (s.task t).status pt
  thrown : ∀ x ∈ s.thrown, x.1 ≠ .TS_BUSY ∧ x.2 = .TS_BUSY

omit [DecidableEq τ] in
/-- A call moves on and changes at most the status of its own task. -/
theorem Occupies.moves {c : Option (τ × SyncPoint)} (h : Occupies owner s) (ht : owner t = i)
    (hcall : u.call = Function.update s.call i c) (htask : ∀ t', t' ≠ t → u.task t' = s.task t')
    (hc : ∀ t' pt, c = some (t', pt) → t' = t ∧ Saw (u.task t).status pt)
    (hthrown : ∀ x ∈ u.thrown, x ∈ s.thrown ∨ x.1 ≠ .TS_BUSY ∧ x.2 = .TS_BUSY) : Occupies owner u := by
  refine ⟨fun j t' pt hj => ?_, fun x hx => ?_⟩
  · by_cases hji : j = i
    · subst hji
      rw [hcall, Function.update_self] at hj
      obtain ⟨rfl, hsaw⟩ := hc t' pt hj
      exact ⟨ht, hsaw⟩
    · rw [hcall, Function.update_of_ne hji] at hj
      obtain ⟨howner, hsaw⟩ := h.call j t' pt hj
      have hne : t' ≠ t := by
        rintro rfl
        exact hji (howner.symm.trans ht)
      rw [htask t' hne]
      exact ⟨howner, hsaw⟩
  · rcases hthrown x hx with hold | hnew
    · exact h.thrown x hold
    · exact hnew

theorem Occupies.callStep (h : Occupies owner s) (hi : s.call i = some (t, pt))
    (hstep : s.callStep i t x pt = some u) : Occupies owner u := by
  obtain ⟨ht, hsaw⟩ := h.call i t pt hi
  have hset : ∀ (v : Task) t', t' ≠ t → Function.update s.task t v t' = s.task t' :=
    fun v t' hne => Function.update_of_ne hne v s.task
  have hpoint : ∀ {pt : SyncPoint} {st : Task.Status}, Saw st pt → ∀ t' pt', some (t, pt) = some (t', pt') →
      t' = t ∧ Saw st pt' := by
    intro pt st hsaw t' pt' heq
    obtain ⟨rfl, rfl⟩ := Prod.mk.inj (Option.some_inj.mp heq)
    exact ⟨rfl, hsaw⟩
  cases pt with
  | occupy before =>
    simp only [Synchronized.callStep] at hstep
    by_cases hbusy : (s.task t).status = .TS_BUSY
    · simp only [Task.occupy, if_pos hbusy, Bool.false_eq_true, if_false] at hstep
      rw [← Option.some_inj.mp hstep]
      exact h.moves ht rfl (fun _ _ => rfl) (hpoint trivial) fun _ => .inl
    · simp only [Task.occupy, if_neg hbusy, if_true] at hstep
      rw [← Option.some_inj.mp hstep]
      have hocc : Saw (Function.update s.task t { s.task t with status := .TS_BUSY } t).status
          (.addTaskToQueue before) := by
        rw [Function.update_self]
        exact ⟨hsaw ▸ hbusy, rfl⟩
      exact h.moves ht rfl (hset _) (hpoint hocc) fun _ => .inl
  | addTaskToQueue before =>
    simp only [Synchronized.callStep, TaskSynchronizer.addTaskToQueue] at hstep
    by_cases hfull : s.synchronizer.getTaskID.2.Full
    · simp only [if_pos hfull] at hstep
      rw [← Option.some_inj.mp hstep]
      refine h.moves ht (c := none) rfl (fun _ _ => rfl) (fun _ _ hnone => by cases hnone) fun y hy => ?_
      rcases List.mem_append.mp hy with hold | hnew
      · exact .inl hold
      · rw [List.mem_singleton.mp hnew]
        exact .inr hsaw
    · simp only [if_neg hfull] at hstep
      rw [← Option.some_inj.mp hstep]
      exact h.moves ht rfl (fun _ _ => rfl) (hpoint trivial) fun _ => .inl
  | waitInQueue taskID =>
    simp only [Synchronized.callStep] at hstep
    split_ifs at hstep
    rw [← Option.some_inj.mp hstep]
    exact h.moves ht (c := some (t, .run)) rfl (fun _ _ => rfl) (hpoint trivial) fun _ => .inl
  | getStatus refused =>
    rw [← Option.some_inj.mp hstep]
    exact h.moves ht (c := none) rfl (fun _ _ => rfl) (fun _ _ hnone => by cases hnone) fun _ => .inl
  | setStatus y =>
    cases y <;> rw [← Option.some_inj.mp hstep] <;>
      exact h.moves ht (c := some (t, .unlock)) rfl (hset _) (hpoint trivial) fun _ => .inl
  | run =>
    rw [← Option.some_inj.mp hstep]
    exact h.moves ht (c := some (t, .function)) rfl (hset _) (hpoint trivial) fun _ => .inl
  | function =>
    rw [← Option.some_inj.mp hstep]
    exact h.moves ht (c := some (t, .setStatus x)) rfl (fun _ _ => rfl) (hpoint trivial) fun _ => .inl
  | unlock =>
    rw [← Option.some_inj.mp hstep]
    exact h.moves ht (c := some (t, .getStatus false)) rfl (fun _ _ => rfl) (hpoint trivial) fun _ => .inl

/-- **A refused call poisons its task.** Whenever a thread calls one of its own tasks and the call throws, the task
was not occupied before the call and is so after it. -/
theorem thrown_occupied (h : (system task fun _ a => OwnTask owner a).Reachable s) :
    ∀ x ∈ s.thrown, x.1 ≠ .TS_BUSY ∧ x.2 = .TS_BUSY := by
  have hocc : Occupies owner s := by
    refine System.Reachable.induct (I := Occupies owner) ?_ ?_ h
    · rintro _ rfl
      refine ⟨fun i t pt hcall => ?_, fun x hx => ?_⟩
      · cases hcall
      · cases hx
    · rintro s u - hocc ⟨a, hown, hstep⟩
      cases a with
      | call i t =>
        simp only [Synchronized.next] at hstep
        split_ifs at hstep
        rw [← Option.some_inj.mp hstep]
        refine hocc.moves hown rfl (fun _ _ => rfl) (fun t' pt heq => ?_) fun _ => .inl
        obtain ⟨rfl, rfl⟩ := Prod.mk.inj (Option.some_inj.mp heq)
        exact ⟨rfl, rfl⟩
      | step i x =>
        obtain ⟨⟨t, pt⟩, hi, hstep⟩ := Option.bind_eq_some_iff.mp hstep
        exact hocc.callStep hi hstep
  exact hocc.thrown

end Refused

/-- Ten threads enter the queue, and none gets on; the eleventh finds the queue full, and is refused when it calls
again. -/
def eleven : List (Action Nat Nat) :=
  ((List.range 11).flatMap fun i => [.call i i, .step i none, .step i none]) ++
    [.call 10 10, .step 10 none, .step 10 none]

theorem thrown_occupied_eleven : ∃ s : Synchronized Nat Nat,
    System.perform next (fun _ a => OwnTask id a) { task := fun _ => {} } eleven = some s ∧
      ∃ x ∈ s.thrown, x.1 ≠ .TS_BUSY ∧ x.2 = .TS_BUSY := by
  have hrun : (System.perform next (fun _ a => OwnTask id a) ({ task := fun _ => {} } : Synchronized Nat Nat)
      eleven).any fun s => s.thrown = [(.TS_INITIAL, .TS_BUSY)] := by decide +kernel
  obtain ⟨s, hs, hthrown⟩ := (Option.any_eq_true _ _).mp hrun
  have hmem : (.TS_INITIAL, .TS_BUSY) ∈ s.thrown := by
    rw [of_decide_eq_true hthrown]
    exact List.mem_singleton.mpr rfl
  exact ⟨s, hs, _, hmem, thrown_occupied (System.reachable_of_perform (.init rfl) hs) _ hmem⟩

end Synchronized

end OpenVino.InferenceEngine
