import OpenVino.InferenceEngine.AsyncRequest.BusyFlag
import OpenVino.InferenceEngine.AsyncRequest.StartLog

/-!
# Exactly one Infer and one callback for each start

`exactlyOnce`: when a callback is set, only `StartAsync` is called and every step meets `CallbackCondition`,
the history is what it should be (`ExactlyOnce`). Nothing is lost: as long as an executor is not at rest, it
or the callback it is in can move (`Inv.moves`), and each step of an executor lowers the `work` that is left
(`work_lt`). Without the condition it is not so (`exactlyOnce_fails`): a `StartAsync` that comes while a
failed task is on its way to its callback is refused, and yet the Infer is run twice.
-/

namespace OpenVino.InferenceEngine.AsyncRequest

variable {ι : Type} {s t : AsyncRequest ι} {e : Executor} {th : Thread} {o : Choice} {T : Nat} {pt : Point}

/-- The executors have nothing to do. -/
def AtRest (s : AsyncRequest ι) : Prop := ∀ e, s.thread e = .idle ∧ s.taskQueue e = []

/-! ### The executors get on -/

section Progress

variable [DecidableEq ι]

theorem startAsync_moves {c : Caller ι} {pt : StartPoint} (hs : s.Inv) (hc : s.call c = .startAsync pt) :
    (s.next (.call c .returns)).isSome := by
  have hheld : pt ≠ .entry → s.HeldAt (.startAsync pt) := by
    intro hpt
    have hh : s.Held c := by
      apply hs.held
      rw [hc]
      cases pt <;> first | exact absurd rfl hpt | trivial
    exact hc ▸ hh.at_
  cases pt with
  | entry =>
    simp only [next, callStep, hc, startAsync]
    split_ifs <;> rfl
  | resetStages =>
    obtain ⟨-, n, hasync, -⟩ := hheld (by simp)
    simp [next, callStep, hc, startAsync, hasync]
  | startAsyncTask =>
    obtain ⟨-, n, hasync, -⟩ := hheld (by simp)
    simp [next, callStep, hc, startAsync, hasync]
  | _ => simp [next, callStep, hc, startAsync]

/-- A thread in a run can move, or the callback it is in, unless it waits for the lock of its task. -/
theorem Inv.thread_moves (hs : s.Inv) (hl : s.OnlyStarts) (hth : s.thread e = .running T pt) :
    (s.next (.exec e .returns)).isSome ∨ (s.next (.call (.callback e) .returns)).isSome ∨
      pt = .front ∧ (s.thread (other e)).Inside T := by
  have hasync : pt = .entered → s.asyncTask = some T := by
    rintro rfl
    cases e with
    | request =>
      rcases hs.request_at hth with ⟨hf, -⟩ | hend
      · exact hf.async
      · simp at hend
    | callback =>
      rcases hs.callback_at hth with ⟨hf, -⟩ | hl
      · exact hf.async
      · exact hl.elim
  cases pt with
  | front =>
    by_cases hin : (s.thread (other e)).Inside T
    · exact .inr (.inr ⟨rfl, hin⟩)
    · simp [next, execStep, hth, runStep, hin]
  | entered => simp [next, execStep, hth, runStep, hasync rfl]
  | callback copy =>
    rcases hl (.callback e) with hover | ⟨pt, hc⟩
    · simp [next, execStep, hth, runStep, hover]
    · exact .inr (.inl (startAsync_moves hs hc))
  | switch copy =>
    simp only [next, execStep, hth, runStep]
    split <;> exact .inl rfl
  | called copy =>
    simp only [next, execStep, hth, runStep]
    split <;> exact .inl rfl
  | jump copy x =>
    simp only [next, execStep, hth, runStep]
    split_ifs
    · exact .inl rfl
    · split <;> exact .inl rfl
  | migrate copy =>
    simp only [next, execStep, hth, runStep]
    split_ifs <;> exact .inl rfl
  | runCallback copy =>
    simp only [next, execStep, hth, runStep]
    split_ifs <;> exact .inl rfl
  | failed copy x =>
    simp only [next, execStep, hth, runStep]
    split_ifs <;> exact .inl rfl
  | _ => simp [next, execStep, hth, runStep]

/-- An executor that is not at rest gets on. -/
theorem Inv.moves (hs : s.Inv) (hl : s.OnlyStarts) (hrest : ¬ s.AtRest) :
    ∃ e, (s.next (.exec e .returns)).isSome ∨ (s.next (.call (.callback e) .returns)).isSome := by
  obtain ⟨e, he⟩ := not_forall.mp hrest
  cases hth : s.thread e with
  | idle =>
    refine ⟨e, .inl ?_⟩
    cases hqueue : s.taskQueue e with
    | nil => exact absurd ⟨hth, hqueue⟩ he
    | cons n w => simp [next, execStep, hth, hqueue]
  | running T pt =>
    rcases hs.thread_moves hl hth with h | h | ⟨-, hin⟩
    · exact ⟨e, .inl h⟩
    · exact ⟨e, .inr h⟩
    · -- the other thread holds the lock, and is not waiting for one itself
      cases hother : s.thread (other e) with
      | idle =>
        rw [hother] at hin
        exact hin.elim
      | running T' pt' =>
        rw [hother] at hin
        rcases hs.thread_moves hl hother with h | h | ⟨hfront, -⟩
        · exact ⟨other e, .inl h⟩
        · exact ⟨other e, .inr h⟩
        · exact absurd hfront hin.2.1

end Progress

/-! ### The work that is left -/

/-- How far a thread is from the end of its run. -/
def rank (s : AsyncRequest ι) : Thread → Nat
  | .idle => 0
  | .running _ .front => 25
  | .running _ .entered => 24
  | .running _ (.switch _) => 23
  | .running _ (.infer _) => 22
  | .running _ (.inferred _) => 21
  | .running _ (.freeFlag _) => 21
  | .running _ (.migrate _) => 20
  | .running _ (.leaveStage _) => 20
  | .running _ (.lastStage _) => 19
  | .running _ (.runCallback _) => 19
  | .running _ (.callback _) => 18
  | .running _ (.called _) => 17
  | .running _ (.failure _ _) => 16
  | .running _ (.failed _ _) => 15
  | .running _ (.jump copy _) => if (s.task (.staged copy)).stage = 1 then 11 else 12
  | .running _ (.setStatus _ _) => 10
  | .running _ (.setException _ _) => 9
  | .running _ (.startTask _) => 8
  | .running _ (.push _) => 7
  | .running _ .returned => 4
  | .running _ (.thrown _) => 4
  | .running _ .unlock => 3
  | .running _ .pop => 2

/-- What a thread has to do; a run that is still to be taken counts more than any rank. -/
def load (s : AsyncRequest ι) (e : Executor) : Nat := 26 * (s.waiting e).length + s.rank (s.thread e)

/-- A run of the request executor may leave a task to the callback executor. -/
def work (s : AsyncRequest ι) : Nat := 40 * s.load .request + s.load .callback

theorem rank_eq (h : ∀ T c x, th ≠ .running T (.jump c x)) : t.rank th = s.rank th := by
  cases th with
  | idle => rfl
  | running T pt => cases pt <;> first | rfl | exact absurd rfl (h T _ _)

theorem load_lt {u : AsyncRequest ι} {pt' : Point} (hth : s.thread e = .running T pt) (hu : u.thread = s.thread)
    (hqueue : u.taskQueue e = s.taskQueue e)
    (hrank : (u.moveTo e (.running T pt')).rank (.running T pt') < s.rank (.running T pt)) :
    (u.moveTo e (.running T pt')).load e < s.load e := by
  have hwait : u.waiting e = s.waiting e := by rw [waiting, waiting, hu, hqueue]
  rw [load, load, waiting_moveTo (show u.thread e = .running T pt by rw [hu, hth]), thread_moveTo, hth, hwait]
  omega

/-- The thread goes through `asyncTaskCopy->stageDone()`. -/
theorem stageDone_load_lt {n : Nat} {pt' : Point} (hth : s.thread e = .running T pt)
    (hpt : ∀ u : AsyncRequest ι, u.rank (.running T pt') < s.rank (.running T pt))
    (hfail : 16 < s.rank (.running T pt)) : (s.stageDone e T n pt').load e < s.load e := by
  unfold stageDone
  split
  · exact load_lt hth rfl rfl (hpt _)
  · exact load_lt hth rfl rfl hfail

/-- **Each step of an executor lowers what it has to do.** -/
theorem exec_load_lt (hs : s.Inv) (h : s.execStep e o = some t) : t.load e < s.load e := by
  cases hth : s.thread e with
  | idle =>
    cases hqueue : s.taskQueue e with
    | nil => simp [execStep, hth, hqueue] at h
    | cons n w =>
      simp only [execStep, hth, hqueue, Option.some_inj] at h
      have hwait : (s.moveTo e (.running n .front)).waiting e = w := by simp [waiting, moveTo, hqueue]
      rw [← h, load, load, hwait, thread_moveTo, hth, waiting, hth]
      simp only [hqueue, List.length_cons, rank]
      omega
  | running T pt =>
    simp only [execStep, hth] at h
    cases pt with
    | front =>
      simp only [runStep] at h
      split_ifs at h
      rw [← Option.some_inj.mp h]
      exact load_lt hth rfl rfl (by simp [rank])
    | entered =>
      obtain ⟨m, -, h⟩ := Option.bind_eq_some_iff.mp h
      rw [← Option.some_inj.mp h]
      exact load_lt hth rfl rfl (by simp [rank])
    | switch copy =>
      simp only [runStep] at h
      split at h <;>
      · rw [← Option.some_inj.mp h]
        exact load_lt hth rfl rfl (by simp [rank])
    | infer copy =>
      cases o with
      | returns =>
        rw [← Option.some_inj.mp h]
        exact load_lt hth rfl rfl (by simp [rank])
      | throws x =>
        rw [← Option.some_inj.mp h]
        exact load_lt hth rfl rfl (by simp [rank])
      | timesOut => exact absurd h (by simp [runStep])
    | inferred copy =>
      rw [← Option.some_inj.mp h]
      exact stageDone_load_lt hth (fun _ => by simp [rank]) (by simp [rank])
    | lastStage copy =>
      rw [← Option.some_inj.mp h]
      exact stageDone_load_lt hth (fun _ => by simp [rank]) (by simp [rank])
    | leaveStage copy =>
      rw [← Option.some_inj.mp h]
      exact stageDone_load_lt hth (fun _ => by simp [rank]) (by simp [rank])
    | migrate copy =>
      simp only [runStep] at h
      split_ifs at h <;>
      · rw [← Option.some_inj.mp h]
        exact load_lt hth rfl rfl (by simp [rank])
    | startTask copy =>
      rw [← Option.some_inj.mp h]
      refine load_lt hth rfl rfl ?_
      split <;> simp [rank]
    | push copy =>
      cases e with
      | callback => exact absurd (hs.callback_at hth) (by simp [OnCallback, LandsAt])
      | request =>
        rw [← Option.some_inj.mp h]
        exact load_lt hth rfl (by simp [pushCallback]) (by simp [rank])
    | runCallback copy =>
      simp only [runStep] at h
      split_ifs at h <;>
      · rw [← Option.some_inj.mp h]
        exact load_lt hth rfl rfl (by simp [rank])
    | callback copy =>
      simp only [runStep] at h
      split_ifs at h
      cases o with
      | returns =>
        rw [← Option.some_inj.mp h]
        exact load_lt hth rfl rfl (by simp [rank])
      | throws x =>
        rw [← Option.some_inj.mp h]
        exact load_lt hth rfl rfl (by simp [rank])
      | timesOut => exact absurd h (by simp)
    | called copy =>
      simp only [runStep] at h
      split at h <;>
      · rw [← Option.some_inj.mp h]
        exact load_lt hth rfl rfl (by simp [rank])
    | failed copy x =>
      simp only [runStep] at h
      split_ifs at h
      · rw [← Option.some_inj.mp h]
        refine load_lt hth rfl rfl ?_
        simp only [rank]
        split <;> omega
      · rw [← Option.some_inj.mp h]
        exact load_lt hth rfl rfl (by simp [rank])
    | jump copy x =>
      cases e with
      | callback => exact absurd (hs.callback_at hth) (by simp [OnCallback, LandsAt])
      | request =>
        rcases hs.request_at hth with ⟨-, ⟨rfl, hhas | hhas⟩, -⟩ | hend
        · have hdone : (s.task (.staged copy)).stageDone = .ok { s.task (.staged copy) with stage := 1 } := by
            simp [Task.stageDone, hhas.1]
          rw [runStep, if_neg (by rw [hhas.1]; omega), hdone, Option.some_inj] at h
          have hold : s.rank (.running copy (.jump copy x)) = 12 := by simp [rank, hhas.1]
          have hnew : t.rank (.running copy (.jump copy x)) = 11 := by simp [rank, ← h, setTask]
          have hwait : t.waiting .request = s.waiting .request := by simp [waiting, ← h, setTask]
          have hth' : t.thread .request = .running copy (.jump copy x) := by simp [← h, setTask, hth]
          rw [load, load, hth, hth', hnew, hold, hwait]
          omega
        · rw [runStep, if_pos hhas.1, Option.some_inj] at h
          rw [← h]
          exact load_lt hth rfl rfl (by simp [rank, hhas.1])
        · simp at hend
    | pop =>
      rw [← Option.some_inj.mp h]
      simp [load, waiting, moveTo, hth, rank]
    | _ =>
      rw [← Option.some_inj.mp h]
      exact load_lt hth rfl rfl (by simp [rank])

/-- What a step of a thread leaves alone: the other thread, and its queue unless a task is pushed on it. -/
theorem runStep_other (h : s.runStep e o T pt = some t) {e' : Executor} (he : e' ≠ e) :
    t.thread e' = s.thread e' ∧
      (t.taskQueue e' = s.taskQueue e' ∨ e' = .callback ∧ ∃ n, t.taskQueue e' = s.taskQueue e' ++ [n]) := by
  have hmove : ∀ {u : AsyncRequest ι} {th : Thread}, some (u.moveTo e th) = some t → u.thread = s.thread →
      u.taskQueue = s.taskQueue → t.thread e' = s.thread e' ∧
        (t.taskQueue e' = s.taskQueue e' ∨ e' = .callback ∧ ∃ n, t.taskQueue e' = s.taskQueue e' ++ [n]) := by
    intro u th hu hth hqueue
    rw [← Option.some_inj.mp hu, thread_moveTo_ne he, hth]
    exact ⟨rfl, .inl (congrFun hqueue e')⟩
  have hdone : ∀ {n : Nat} {pt' : Point}, some (s.stageDone e T n pt') = some t → t.thread e' = s.thread e' ∧
      (t.taskQueue e' = s.taskQueue e' ∨ e' = .callback ∧ ∃ n, t.taskQueue e' = s.taskQueue e' ++ [n]) := by
    intro n pt' hu
    unfold stageDone at hu
    split at hu <;> exact hmove hu rfl rfl
  cases pt with
  | entered =>
    obtain ⟨m, -, h⟩ := Option.bind_eq_some_iff.mp h
    exact hmove h rfl rfl
  | inferred copy => exact hdone h
  | lastStage copy => exact hdone h
  | leaveStage copy => exact hdone h
  | push copy =>
    rw [← Option.some_inj.mp h, thread_moveTo_ne he]
    refine ⟨rfl, ?_⟩
    by_cases hcb : e' = .callback
    · exact .inr ⟨hcb, copy, by simp [moveTo, pushCallback, hcb]⟩
    · exact .inl (Function.update_of_ne hcb ..)
  | pop =>
    rw [← Option.some_inj.mp h, thread_moveTo_ne he]
    exact ⟨rfl, .inl (Function.update_of_ne he ..)⟩
  | jump copy x =>
    simp only [runStep] at h
    split_ifs at h
    · exact hmove h rfl rfl
    · split at h
      · rw [← Option.some_inj.mp h]
        exact ⟨rfl, .inl rfl⟩
      · exact hmove h rfl rfl
  | _ =>
    simp only [runStep] at h
    repeat' split at h
    all_goals first
      | exact hmove h rfl rfl
      | exact absurd h (by simp)

/-- What is left for the thread that does not move does not depend on the tasks, except in the loop that
jumps to stage 1. -/
theorem load_of_other {e' : Executor} (hth : t.thread e' = s.thread e')
    (hjump : ∀ T c x, s.thread e' = .running T (.jump c x) →
      (t.task (.staged c)).stage = (s.task (.staged c)).stage)
    (hqueue : t.taskQueue e' = s.taskQueue e') : t.load e' = s.load e' := by
  have hrank : t.rank (s.thread e') = s.rank (s.thread e') := by
    by_cases h : ∃ T c x, s.thread e' = .running T (.jump c x)
    · obtain ⟨T, c, x, h⟩ := h
      rw [h, rank, rank, hjump T c x h]
    · exact rank_eq fun T c x hjump => h ⟨T, c, x, hjump⟩
  rw [load, load, waiting, waiting, hth, hqueue, hrank]

/-- The stage of a task that the request executor is inside does not change in a step of the callback
executor. -/
theorem callback_sameStage (hs : s.Inv) (h : s.execStep .callback o = some t) {n : Nat}
    (hin : (s.thread .request).Inside n) : (t.task (.staged n)).stage = (s.task (.staged n)).stage := by
  cases hth : s.thread .callback with
  | idle =>
    cases hqueue : s.taskQueue .callback with
    | nil => simp [execStep, hth, hqueue] at h
    | cons m w =>
      simp only [execStep, hth, hqueue, Option.some_inj] at h
      rw [← h]
      rfl
  | running T pt =>
    simp only [execStep, hth] at h
    have hkeep : ∀ {v : Task} {th : Thread}, some ((s.setTask (.staged T) v).moveTo .callback th) = some t →
        v.stage = (s.task (.staged T)).stage → (t.task (.staged n)).stage = (s.task (.staged n)).stage := by
      intro v th hv hstage
      rw [← Option.some_inj.mp hv]
      by_cases hn : n = T
      · simp [moveTo, setTask, hn, hstage]
      · simp [moveTo, setTask, hn]
    have hmove : ∀ {u : AsyncRequest ι} {th : Thread}, some (u.moveTo .callback th) = some t → u.task = s.task →
        (t.task (.staged n)).stage = (s.task (.staged n)).stage := by
      intro u th hu htask
      rw [← Option.some_inj.mp hu]
      exact congrArg (fun f => (f (.staged n)).stage) htask
    rcases hs.callback_at hth with ⟨-, hat⟩ | hl
    · cases pt with
      | front =>
        simp only [runStep] at h
        split_ifs at h
        exact hkeep h rfl
      | entered =>
        obtain ⟨m, -, h⟩ := Option.bind_eq_some_iff.mp h
        exact hmove h rfl
      | switch copy =>
        simp only [runStep] at h
        split at h <;> exact hmove h rfl
      | freeFlag copy => exact hmove h rfl
      | _ => exact hat.elim
    · cases pt with
      | leaveStage copy =>
        obtain ⟨-, rfl, hhas⟩ := hl
        have hn : n ≠ copy := by
          rintro rfl
          refine hs.base.mutex n ⟨hin, ?_⟩
          rw [hth]
          exact ⟨rfl, by simp, by simp⟩
        rw [runStep, stageDone_eq hhas.1, Option.some_inj] at h
        rw [← h]
        simp [moveTo, setTask, hn]
      | runCallback copy =>
        simp only [runStep] at h
        split_ifs at h <;> exact hmove h rfl
      | callback copy =>
        simp only [runStep] at h
        split_ifs at h
        cases o with
        | timesOut => exact absurd h (by simp)
        | _ => exact hmove h rfl
      | called copy =>
        simp only [runStep] at h
        split at h <;> exact hmove h rfl
      | failure copy x => exact hmove h rfl
      | failed copy x =>
        simp only [runStep] at h
        split_ifs at h <;> exact hmove h rfl
      | returned => exact hkeep h rfl
      | thrown x => exact hkeep h rfl
      | unlock => exact hmove h rfl
      | pop => exact hmove h rfl
      | _ => exact hl.elim

/-- **Each step of an executor lowers the work that is left.** -/
theorem work_lt (hs : s.Inv) (h : s.execStep e o = some t) : t.work < s.work := by
  have hself := exec_load_lt hs h
  have hother : ∀ e', e' ≠ e → t.thread e' = s.thread e' ∧
      (t.taskQueue e' = s.taskQueue e' ∨ e' = .callback ∧ ∃ n, t.taskQueue e' = s.taskQueue e' ++ [n]) := by
    intro e' he
    cases hth : s.thread e with
    | idle =>
      cases hqueue : s.taskQueue e with
      | nil => simp [execStep, hth, hqueue] at h
      | cons n w =>
        simp only [execStep, hth, hqueue, Option.some_inj] at h
        rw [← h, thread_moveTo_ne he]
        exact ⟨rfl, .inl rfl⟩
    | running T pt =>
      simp only [execStep, hth] at h
      exact runStep_other h he
  cases e with
  | request =>
    obtain ⟨hth, hqueue⟩ := hother .callback (by simp)
    have hjump : ∀ T c x, s.thread .callback ≠ .running T (.jump c x) := fun T c x hjump =>
      absurd (hs.callback_at hjump) (by simp [OnCallback, LandsAt])
    have hrank : t.rank (s.thread .callback) = s.rank (s.thread .callback) := rank_eq hjump
    have hwait : (t.waiting .callback).length ≤ (s.waiting .callback).length + 1 := by
      rw [waiting, waiting, hth]
      rcases hqueue with hqueue | ⟨-, n, hqueue⟩
      · rw [hqueue]
        omega
      · rw [hqueue]
        cases s.thread .callback with
        | idle => simp
        | running T pt =>
          simp only [List.length_tail, List.length_append, List.length_singleton]
          omega
    simp only [work, load, hth, hrank] at hself ⊢
    omega
  | callback =>
    obtain ⟨hth, hqueue⟩ := hother .request (by simp)
    have hload : t.load .request = s.load .request := by
      refine load_of_other hth (fun T c x hjump => ?_) (hqueue.resolve_right (by simp))
      rcases hs.request_at hjump with ⟨-, ⟨rfl, -⟩, -⟩ | hend
      · exact callback_sameStage hs h (by rw [hjump]; exact ⟨rfl, by simp, by simp⟩)
      · simp at hend
    simp only [work, hload]
    omega

/-! ### A start that is refused -/

/-- A `StartAsync` that throws, or is about to. -/
def Throws : Call → Prop
  | .startAsync (.handler _) => True
  | .finished (.threw _) => True
  | _ => False

/-- From `_callbackManager.reset()` on. -/
def FromReset (pt : StartPoint) : Prop := pt = .reset ∨ AfterReset pt

theorem created_log : (created withCallback : AsyncRequest ι).Log where
  onlyStarts _ := .inl trivial
  enabled := ⟨rfl, rfl⟩
  started := rfl
  tickets := rfl
  calls := rfl
  next _ h := absurd h List.not_mem_nil
  single _ := rfl
  held _ h := h.elim
  reset _ _ h := nomatch h
  migrates _ _ h := nomatch h

section History

variable [DecidableEq ι] {c : Caller ι} {pt : StartPoint}

theorem unchanged_before_reset (hc : s.call c = .startAsync pt) (hpt : ¬ FromReset pt)
    (h : s.next (.call c o) = some t) : t.task = s.task ∧ t.callbackManager = s.callbackManager := by
  simp only [next, callStep, hc] at h
  cases pt with
  | entry =>
    simp only [startAsync] at h
    split_ifs at h <;>
    · rw [← Option.some_inj.mp h]
      exact ⟨rfl, rfl⟩
  | checkBlobs =>
    cases o with
    | returns =>
      rw [← Option.some_inj.mp h]
      exact ⟨rfl, rfl⟩
    | throws x =>
      rw [← Option.some_inj.mp h]
      exact ⟨rfl, rfl⟩
    | timesOut => exact absurd h (by simp [startAsync])
  | handler x =>
    rw [← Option.some_inj.mp h]
    exact ⟨rfl, rfl⟩
  | reset => exact absurd (.inl rfl) hpt
  | _ => exact absurd (.inr trivial) hpt

theorem Inv.not_throws (hs : s.Inv) (hc : s.call c = .startAsync pt) (hpt : FromReset pt)
    (h : s.next (.call c o) = some t) : ¬ Throws (t.call c) := by
  have hheld : s.Held c := by
    apply hs.held
    rw [hc]
    cases pt with
    | entry => exact absurd hpt (by simp [FromReset, AfterReset])
    | _ => trivial
  have hat := hheld.at_
  rw [hc] at hat
  simp only [next, callStep, hc] at h
  cases pt with
  | entry => exact absurd hpt (by simp [FromReset, AfterReset])
  | checkBlobs => exact absurd hpt (by simp [FromReset, AfterReset])
  | handler x => exact absurd hpt (by simp [FromReset, AfterReset])
  | reset =>
    rw [← Option.some_inj.mp h, call_goto]
    exact id
  | initNextAsyncTask =>
    rw [← Option.some_inj.mp h, call_goto]
    exact id
  | resetStages =>
    obtain ⟨n, -, h⟩ := Option.bind_eq_some_iff.mp h
    rw [← Option.some_inj.mp h, call_goto]
    exact id
  | startAsyncTask =>
    -- the task that was chosen is not TS_BUSY
    obtain ⟨hnone, -⟩ := hat
    obtain ⟨n, -, h⟩ := Option.bind_eq_some_iff.mp h
    simp only [Task.occupy, hnone n, if_false, if_true, Option.some_inj] at h
    rw [← h, call_goto]
    exact id
  | push n =>
    rw [← Option.some_inj.mp h, call_goto]
    exact id

/-! ### Exactly once -/

/-- `report` is what the callback is told about an Infer, and the history writes both down with the number
of the start that queued the task. -/
structure ExactlyOnce (s : AsyncRequest ι) : Prop where
  /-- The starts are inferred in their order, each at most once. -/
  inferred : s.history.infers.map Prod.fst <+: List.range s.history.started
  /-- Each callback is the one of its Infer. -/
  called : s.history.callbacks <+: s.history.infers.map report
  /-- At rest every start has been inferred and its callback called. -/
  all : s.AtRest → s.history.infers.map Prod.fst = List.range s.history.started ∧
    s.history.callbacks = s.history.infers.map report
  /-- Until then the executors get on. -/
  moves : ¬ s.AtRest → ∃ e, (s.next (.exec e .returns)).isSome ∨ (s.next (.call (.callback e) .returns)).isSome
  descends : ∀ {e o t}, s.next (.exec e o) = some t → t.work < s.work
  /-- A start that throws has changed no task, no recorded status and no recorded exception. -/
  refused : ∀ {c pt o t}, s.call c = .startAsync pt → s.next (.call c o) = some t →
    (¬ FromReset pt → t.task = s.task ∧ t.callbackManager = s.callbackManager) ∧
      (FromReset pt → ¬ Throws (t.call c))

theorem Log.history_in_order (hs : s.Inv) (hl : s.Log) : s.ExactlyOnce where
  inferred := by
    rw [hl.tickets, ← hl.started, List.range_add]
    exact List.prefix_append ..
  called := hl.calls ▸ List.prefix_append ..
  all hrest := by
    obtain ⟨hidle, hqueue⟩ := hrest .request
    obtain ⟨hidle', hqueue'⟩ := hrest .callback
    have huninferred : s.uninferred = [] := by simp [uninferred, waiting, hidle, hqueue, beforeInfer]
    have howed : s.owed = [] := by simp [owed, uncalled, waiting, hidle, hidle', hqueue', beforeCall, handing]
    have hstarted := hl.started
    have hcalls := hl.calls
    rw [huninferred, List.length_nil, Nat.add_zero] at hstarted
    rw [howed, List.map_nil, List.append_nil] at hcalls
    exact ⟨hstarted ▸ hl.tickets, hcalls⟩
  moves := hs.moves hl.onlyStarts
  descends h := work_lt hs h
  refused hc h := ⟨fun hpt => unchanged_before_reset hc hpt h, fun hpt => hs.not_throws hc hpt h⟩

/-- **Exactly one Infer and one callback for each start**, in every run with a callback in which only
`StartAsync` is called and every step meets `CallbackCondition`. -/
theorem exactlyOnce
    (hs : (requestSystem (created withCallback) fun s a => StartsOnly a ∧ s.CallbackCondition a).Reachable s) :
    s.ExactlyOnce := by
  have hboth : s.Inv ∧ s.Log := by
    refine hs.induct (I := fun s => s.Inv ∧ s.Log) (fun s₀ h₀ => ?_) fun s t _ ih hst => ?_
    · rw [show s₀ = created withCallback from h₀]
      exact ⟨created_inv _, created_log⟩
    · obtain ⟨a, ⟨hstart, hcond⟩, hnext⟩ := hst
      exact ⟨next_inv ih.1 (ih.2.onlyStarts.flagCondition hcond) hnext, next_log ih.1 ih.2 hstart hcond hnext⟩
  exact hboth.2.history_in_order hboth.1

end History

instance (s : AsyncRequest ι) : Decidable s.AtRest :=
  decidable_of_iff ((s.thread .request = .idle ∧ s.taskQueue .request = []) ∧
    s.thread .callback = .idle ∧ s.taskQueue .callback = [])
    ⟨fun h e => by
      cases e with
      | request => exact h.1
      | callback => exact h.2, fun h => ⟨h .request, h .callback⟩⟩

/-- The callback that has started the request again returns, and both executors go on until they rest. -/
def restartFinishes : List (Action Unit) :=
  restartAfterError ++ steps .callback 5 ++ steps .request 13 ++ steps .callback 12

theorem exactlyOnce_restartFinishes : ∃ s : AsyncRequest Unit,
    perform (fun s a => StartsOnly a ∧ s.CallbackCondition a) (created withCallback) restartFinishes = some s ∧
      s.AtRest ∧ s.history.callbacks = [(0, .GENERAL_ERROR), (1, .OK)] ∧ s.ExactlyOnce := by
  have hsome : (perform (fun s a => StartsOnly a ∧ s.CallbackCondition a) (created withCallback)
      restartFinishes).isSome := by decide
  obtain ⟨s, hs⟩ := Option.isSome_iff_exists.mp hsome
  have hrest : s.AtRest ∧ s.history.callbacks = [(0, .GENERAL_ERROR), (1, .OK)] := by
    obtain rfl : _ = s := Option.some_inj.mp hs
    decide
  exact ⟨s, hs, hrest.1, hrest.2, exactlyOnce (reachable_of_perform (.init rfl) hs)⟩

/-- The first Infer throws. The flag is free again before the callback stage is run, a second start comes and
is refused, and the callback executor finds the task back in its Infer stage. -/
def startBeforeCallback : List (Action Unit) :=
  calls (.client ()) .startAsync 7 ++ steps .request 4 ++ [.exec .request (.throws ⟨none, "Infer"⟩)] ++
    steps .request 11 ++ calls (.client ()) .startAsync 7 ++ steps .callback 24

theorem exactlyOnce_fails : ∃ s : AsyncRequest Unit,
    (requestSystem (created withCallback) fun _ a => StartsOnly a).Reachable s ∧
      s.call (.client ()) = .finished (.threw requestBusy) ∧ s.AtRest ∧ s.history.started = 1 ∧
      s.history.infers = [(0, some ⟨none, "Infer"⟩), (0, none)] ∧ s.history.callbacks = [(0, .OK)] := by
  have hsome : (perform (fun _ a => StartsOnly a) (created withCallback) startBeforeCallback).isSome := by decide
  obtain ⟨s, hs⟩ := Option.isSome_iff_exists.mp hsome
  refine ⟨s, reachable_of_perform (.init rfl) hs, ?_⟩
  obtain rfl : _ = s := Option.some_inj.mp hs
  decide

end OpenVino.InferenceEngine.AsyncRequest
