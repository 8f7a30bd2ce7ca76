import OpenVino.InferenceEngine.AsyncRequest.FlightSteps

/-!
# What a call does to the flight

A call that does not hold the flag changes nothing that `Inv` looks at, unless it takes the flag or is a
`Wait` that gives it back (`Bystands`). The steps of the one call that holds the flag lead from `Ashore`
through `Held` to `Flying`, or back (`startAsync_inv`, `infer_inv`). `reachable_inv`: the invariant holds in
every state of a run whose steps meet `FlagCondition`.
-/

namespace OpenVino.InferenceEngine.AsyncRequest

variable {ι : Type} {s t : AsyncRequest ι} {e : Executor} {th : Thread} {o : Choice} {T n : Nat}
  {c : Caller ι} {pc : Call} {pt' : Point}

/-! ### Calls that do not hold the flag -/

structure Bystands (s t : AsyncRequest ι) (c : Caller ι) : Prop where
  others : ∀ c', c' ≠ c → t.call c' = s.call c'
  before : ¬ (s.call c).Holding
  after : ¬ (t.call c).Holding
  asyncTask : t.asyncTask = s.asyncTask
  currentTask : t.currentTask = s.currentTask
  listAsyncTasks : t.listAsyncTasks = s.listAsyncTasks
  busy : t.isRequestBusy = s.isRequestBusy
  thread : t.thread = s.thread
  taskQueue : t.taskQueue = s.taskQueue
  task : ∀ n, s.SameTask t n

theorem Quiet.of_same (hq : s.Quiet) (hth : t.thread = s.thread) (hqueue : t.taskQueue = s.taskQueue)
    (htask : ∀ n, (s.task (.staged n)).status = .TS_POSTPONED → s.SameTask t n) : t.Quiet := by
  intro e
  obtain ⟨th, hr, hl⟩ := hq e
  refine ⟨th, ?_, hl.of_same fun n _ hn => htask n hn⟩
  rw [Runs, hth, hqueue]
  exact hr

namespace Bystands

variable (h : s.Bystands t c)

include h

theorem holding (c' : Caller ι) : (t.call c').Holding ↔ (s.call c').Holding := by
  by_cases hc : c' = c
  · rw [hc]
    exact iff_of_false h.after h.before
  · rw [h.others c' hc]

theorem runs {w : List Nat} (hr : s.Runs e th w) : t.Runs e th w := by
  rw [Runs, h.thread, h.taskQueue]
  exact hr

theorem lands (hl : s.Lands e th) : t.Lands e th := hl.of_same fun n _ _ => h.task n

theorem has {k : Nat} {st : Task.Status} (hn : s.Has n k st) : t.Has n k st :=
  ⟨(h.task n).1.trans hn.1, (h.task n).2.trans hn.2⟩

theorem base (hb : s.Base) : t.Base where
  fresh n hn := (h.task n).2.trans (hb.fresh n (h.listAsyncTasks ▸ hn))
  known n hn := by
    rw [h.listAsyncTasks]
    exact hb.known n (h.asyncTask ▸ hn)
  mutex := by
    rw [h.thread]
    exact hb.mutex

theorem quiet (hq : s.Quiet) : t.Quiet := hq.of_same h.thread h.taskQueue fun n _ => h.task n

theorem linked (hl : s.Linked) : t.Linked := by
  intro n hn
  rw [h.asyncTask]
  exact hl n (h.currentTask ▸ hn)

theorem notBusy (hn : (s.task (.staged n)).status ≠ .TS_BUSY) : (t.task (.staged n)).status ≠ .TS_BUSY := by
  rwa [(h.task n).2]

theorem heldAt (hat : s.HeldAt pc) : t.HeldAt pc := by
  have hnone : s.NoneBusy → t.NoneBusy := fun hn n => h.notBusy (hn n)
  have hrest : s.Linked ∧ s.NoneBusy → t.Linked ∧ t.NoneBusy := fun hl => ⟨h.linked hl.1, hnone hl.2⟩
  cases pc with
  | startAsync pt =>
    cases pt with
    | resetStages =>
      obtain ⟨hn, n, hasync, hstatus⟩ := hat
      exact ⟨hnone hn, n, h.asyncTask.trans hasync, by rwa [(h.task n).2]⟩
    | startAsyncTask =>
      obtain ⟨hn, n, hasync, hstatus, hstage⟩ := hat
      exact ⟨hnone hn, n, h.asyncTask.trans hasync, by rwa [(h.task n).2], by rwa [(h.task n).1]⟩
    | push n =>
      obtain ⟨hhas, hasync, hcurrent, hothers⟩ := hat
      exact ⟨h.has hhas, h.asyncTask.trans hasync, h.currentTask.trans hcurrent,
        fun m hm => h.notBusy (hothers m hm)⟩
    | _ => exact hrest hat
  | _ => exact hrest hat

theorem place (hp : s.Place T) : t.Place T := by
  have hends : ∀ {th}, s.Ends T th → t.Ends T th := fun he => he.imp_left h.lands
  cases hp with
  | queued th th' busy has request lands callback lands' =>
    exact .queued th th' (h.busy.trans busy) (h.has has) (h.runs request) (h.lands lands) (h.runs callback)
      (h.lands lands')
  | onRequest pt th' request at_ callback lands' =>
    exact .onRequest pt th' (h.runs request) (at_.of_same (h.task T) h.busy) (h.runs callback) (h.lands lands')
  | landed th th' has request ends callback lands' =>
    exact .landed th th' (h.has has) (h.runs request) (hends ends) (h.runs callback) (h.lands lands')
  | onCallback pt th request ends callback at_ =>
    exact .onCallback pt th (h.runs request) (hends ends) (h.runs callback) (at_.of_same (h.task T))

theorem inv (hs : s.Inv) : t.Inv := by
  have hfree : (∀ c', ¬ (s.call c').Holding) → ∀ c', ¬ (t.call c').Holding := fun hf c' =>
    mt (h.holding c').mp (hf c')
  refine ⟨h.base hs.base, ?_⟩
  rcases hs.phase with ha | ⟨c', hh⟩ | ⟨T, hf⟩
  · exact .inl ⟨hfree ha.free, h.quiet ha.quiet, h.linked ha.linked, fun n => h.notBusy (ha.noneBusy n)⟩
  · have hc : c' ≠ c := by
      intro hc
      exact h.before (hc ▸ hh.holding)
    refine .inr (.inl ⟨c', h.busy.trans hh.busy, (h.holding c').mpr hh.holding,
      fun c'' hne => mt (h.holding c'').mp (hh.alone c'' hne), h.quiet hh.quiet, ?_⟩)
    rw [h.others c' hc]
    exact h.heldAt hh.at_
  · exact .inr (.inr ⟨T, hfree hf.free, h.asyncTask.trans hf.async, h.currentTask.trans hf.current,
      fun n hn => h.notBusy (hf.othersNotBusy n hn), h.place hf.place⟩)

end Bystands

/-! ### The flag and the task in flight -/

theorem OnRequest.handsOver (h : s.OnRequest T pt') (hbusy : s.isRequestBusy = false) :
    HandsOver (.running T pt') := by
  cases pt' <;> simp_all [OnRequest, HandsOver]

theorem OnCallback.beforeFree (h : s.OnCallback T pt') : BeforeFree (.running T pt') := by
  cases pt' <;> simp_all [OnCallback, BeforeFree]

/-- A free flag and no task on its way to its callback stage: nothing is in flight. -/
theorem Inv.ashore (hs : s.Inv) (hbusy : s.isRequestBusy = false) (hahead : ¬ s.CallbackAhead) : s.Ashore := by
  rcases hs.phase with ha | ⟨c, hh⟩ | ⟨T, hf⟩
  · exact ha
  · exact absurd (hbusy.symm.trans hh.busy) (by simp)
  · refine absurd ?_ hahead
    cases hf.place with
    | queued th th' busy has request lands callback lands' =>
      exact absurd (hbusy.symm.trans busy) (by simp)
    | onRequest pt th' request at_ callback lands' =>
      refine .inl ?_
      rw [request.1]
      exact at_.handsOver hbusy
    | landed th th' has request ends callback lands' =>
      refine .inr (.inr ?_)
      rw [callback.waiting]
      simp
    | onCallback pt th request ends callback at_ =>
      refine .inr (.inl ?_)
      rw [callback.1]
      exact at_.beforeFree

theorem Flying.not_finished (hf : s.Flying T) : ¬ (s.task (.staged T)).Finished := by
  have hstatus : (s.task (.staged T)).status = .TS_BUSY ∨ (s.task (.staged T)).status = .TS_POSTPONED := by
    cases hf.place with
    | queued th th' busy has request lands callback lands' => exact .inl has.2
    | onRequest pt th' request at_ callback lands' =>
      cases pt with
      | jump c x => exact .inr (at_.2.elim And.right And.right)
      | _ => simp_all [OnRequest, Has]
    | landed th th' has request ends callback lands' => exact .inl has.2
    | onCallback pt th request ends callback at_ => cases pt <;> simp_all [OnCallback, Has]
  rcases hstatus with h | h <;> simp [Task.Finished, h]

theorem Inv.held (hs : s.Inv) (hc : (s.call c).Holding) : s.Held c := by
  rcases hs.phase with ha | ⟨c', hh⟩ | ⟨T, hf⟩
  · exact absurd hc (ha.free c)
  · have hne : c = c' := by
      by_contra hne
      exact hh.alone c hne hc
    rwa [hne]
  · exact absurd hc (hf.free c)

/-- A request on which nothing has been called yet. -/
def created (m : CallbackManager) : AsyncRequest ι := { callbackManager := m }

theorem created_inv (m : CallbackManager) : (created m : AsyncRequest ι).Inv where
  base := ⟨fun _ _ => rfl, fun n hn => absurd hn (by simp [created]), fun n hn => hn.1⟩
  phase := .inl ⟨fun _ => id, fun _ => ⟨.idle, ⟨rfl, rfl⟩, trivial⟩, fun n hn => absurd hn (by simp [created]),
    fun _ => by simp [created]⟩

/-! ### The call that holds the flag -/

/-- A change of one task that no run is about. -/
theorem Quiet.setTask (hq : s.Quiet) {p : TaskPtr} {v : Task}
    (hp : ∀ n, p = .staged n → (s.task (.staged n)).status ≠ .TS_POSTPONED) : (s.setTask p v).Quiet := by
  refine hq.of_same rfl rfl fun n hn => .of_eq ?_
  exact Function.update_of_ne (fun hpn => hp n hpn.symm hn) ..

theorem Base.setTask (hb : s.Base) {p : TaskPtr} {v : Task} (hp : ∀ n, p = .staged n → n < s.listAsyncTasks) :
    (s.setTask p v).Base where
  fresh n hn := by
    have hne : TaskPtr.staged n ≠ p := fun hpn => absurd (hp n hpn.symm) (Nat.not_lt.mpr hn)
    exact (congrArg Task.status (Function.update_of_ne hne ..)).trans (hb.fresh n hn)
  known := hb.known
  mutex := hb.mutex

/-- `initNextAsyncTask` finds a task that no run is about. -/
theorem chooseAsyncTask_spec (hb : s.Base) (hq : s.Quiet) (hl : s.Linked) (hn : s.NoneBusy) :
    s.chooseAsyncTask.Base ∧ s.chooseAsyncTask.Quiet ∧ s.chooseAsyncTask.HeldAt (.startAsync .resetStages) ∧
      s.chooseAsyncTask.call = s.call ∧ s.chooseAsyncTask.isRequestBusy = s.isRequestBusy := by
  have hnew : (s.task (.staged s.listAsyncTasks)).status = .TS_INITIAL := hb.fresh _ (Nat.le_refl _)
  unfold chooseAsyncTask
  split_ifs with hcond
  · split
    · refine ⟨⟨fun n hle => ?_, fun n hasync => ?_, hb.mutex⟩, ?_, ⟨fun n => ?_, _, rfl, ?_⟩, rfl, rfl⟩
      · have hne : TaskPtr.staged n ≠ .staged s.listAsyncTasks := by
          intro h
          rw [TaskPtr.staged.inj h] at hle
          exact absurd hle (Nat.not_succ_le_self _)
        exact (congrArg Task.status (Function.update_of_ne hne ..)).trans (hb.fresh n (Nat.le_of_succ_le hle))
      · rw [← Option.some_inj.mp hasync]
        exact Nat.lt_succ_self _
      · refine hq.of_same rfl rfl fun n hpost => .of_eq (Function.update_of_ne ?_ ..)
        intro h
        rw [TaskPtr.staged.inj h, hnew] at hpost
        cases hpost
      · by_cases h : n = s.listAsyncTasks
        · simp [setTask, h]
        · simpa [setTask, h] using hn n
      · simp [setTask]
    · next n hfind =>
      have hreuse := List.find?_some hfind
      have hlt := List.mem_range.mp (List.mem_of_find?_eq_some hfind)
      have hfin : (s.task (.staged n)).Finished := by
        simp only [Reusable, Bool.and_eq_true, decide_eq_true_eq] at hreuse
        exact hreuse.2
      refine ⟨⟨hb.fresh, fun m hasync => ?_, hb.mutex⟩, hq, ⟨hn, n, rfl, ?_⟩, rfl, rfl⟩
      · rwa [← Option.some_inj.mp hasync]
      · exact hfin.elim (fun h hp => absurd (h.symm.trans hp) (by simp))
          fun h hp => absurd (h.symm.trans hp) (by simp)
  · obtain ⟨hpost, hsync⟩ := not_or.mp hcond
    cases hcur : s.currentTask with
    | syncTask => exact absurd hcur hsync
    | staged n =>
      rw [hcur] at hpost
      exact ⟨hb, hq, ⟨hn, n, hl n hcur, hpost⟩, rfl, rfl⟩

section Holder

variable [DecidableEq ι]

/-- The call goes on with the flag. -/
theorem Held.goto (hh : s.Held c) (hb : t.Base) (hbusy : t.isRequestBusy = true)
    (hcall : t.call = Function.update s.call c pc) (hpc : pc.Holding) (hq : t.Quiet) (hat : t.HeldAt pc) :
    t.Inv := by
  refine ⟨hb, .inr (.inl ⟨c, hbusy, ?_, fun c' hne => ?_, hq, ?_⟩)⟩
  · rwa [hcall, Function.update_self]
  · rw [hcall, Function.update_of_ne hne]
    exact hh.alone c' hne
  · rwa [hcall, Function.update_self]

/-- No other call holds the flag once this one is over. -/
theorem Held.free (hh : s.Held c) (hcall : t.call = Function.update s.call c pc) (hpc : ¬ pc.Holding)
    (c' : Caller ι) : ¬ (t.call c').Holding := by
  rw [hcall]
  by_cases hne : c' = c
  · rwa [hne, Function.update_self]
  · rw [Function.update_of_ne hne]
    exact hh.alone c' hne

/-- A step of the `StartAsync` that holds the flag. -/
theorem startAsync_inv (hs : s.Inv) {pt : StartPoint} (hc : s.call c = .startAsync pt) (hpt : pt ≠ .entry)
    (h : s.startAsync c o pt = some t) : t.Inv := by
  have hh : s.Held c := hs.held (by
    rw [hc]
    cases pt <;> first | exact absurd rfl hpt | trivial)
  have hat := hh.at_
  rw [hc] at hat
  cases pt with
  | entry => exact absurd rfl hpt
  | checkBlobs =>
    cases o with
    | returns =>
      rw [← Option.some_inj.mp h]
      exact hh.goto ⟨hs.base.fresh, hs.base.known, hs.base.mutex⟩ hh.busy rfl trivial hh.quiet hat
    | throws x =>
      rw [← Option.some_inj.mp h]
      exact hh.goto ⟨hs.base.fresh, hs.base.known, hs.base.mutex⟩ hh.busy rfl trivial hh.quiet hat
    | timesOut => exact absurd h (by simp [startAsync])
  | reset =>
    rw [← Option.some_inj.mp h]
    exact hh.goto ⟨hs.base.fresh, hs.base.known, hs.base.mutex⟩ hh.busy rfl trivial hh.quiet hat
  | initNextAsyncTask =>
    rw [← Option.some_inj.mp h]
    obtain ⟨hb, hq, hat', hcall, hbusy⟩ := chooseAsyncTask_spec hs.base hh.quiet hat.1 hat.2
    have hgoto : (s.chooseAsyncTask.goto c (.startAsync .resetStages)).call =
        Function.update s.call c (.startAsync .resetStages) := by rw [goto, hcall]
    exact hh.goto ⟨hb.fresh, hb.known, hb.mutex⟩ (hbusy.trans hh.busy) hgoto trivial hq hat'
  | resetStages =>
    obtain ⟨hn, n, hasync, hstatus⟩ := hat
    obtain ⟨m, hm, h⟩ := Option.bind_eq_some_iff.mp h
    cases hasync.symm.trans hm
    rw [← Option.some_inj.mp h]
    have hlt := hs.base.known n hasync
    have hb : (s.setTask (.staged n) (s.task (.staged n)).resetStages).Base :=
      hs.base.setTask fun m hm => by rwa [← TaskPtr.staged.inj hm]
    have hq : (s.setTask (.staged n) (s.task (.staged n)).resetStages).Quiet :=
      hh.quiet.setTask fun m hm => by rwa [← TaskPtr.staged.inj hm]
    refine hh.goto ⟨hb.fresh, hb.known, hb.mutex⟩ hh.busy rfl trivial hq ⟨fun m => ?_, n, hasync, ?_, ?_⟩
    · by_cases hm : m = n
      · simpa [goto, setTask, hm, Task.resetStages] using hn n
      · simpa [goto, setTask, hm] using hn m
    · simpa [goto, setTask, Task.resetStages] using hstatus
    · simp [goto, setTask, Task.resetStages, Task.stages]
  | startAsyncTask =>
    obtain ⟨hn, n, hasync, hstatus, hstage⟩ := hat
    obtain ⟨m, hm, h⟩ := Option.bind_eq_some_iff.mp h
    cases hasync.symm.trans hm
    simp only [Task.occupy, hn n, if_false, if_true, Option.some_inj] at h
    rw [← h]
    have hlt := hs.base.known n hasync
    have hb : (s.setTask (.staged n) { s.task (.staged n) with status := .TS_BUSY }).Base :=
      hs.base.setTask fun m hm => by rwa [← TaskPtr.staged.inj hm]
    have hq : (s.setTask (.staged n) { s.task (.staged n) with status := .TS_BUSY }).Quiet :=
      hh.quiet.setTask fun m hm => by rwa [← TaskPtr.staged.inj hm]
    refine hh.goto ⟨hb.fresh, hb.known, hb.mutex⟩ hh.busy rfl trivial hq ⟨⟨?_, ?_⟩, hasync, rfl, fun m hm => ?_⟩
    · simpa [goto, setTask] using hstage
    · simp [goto, setTask]
    · simpa [goto, setTask, hm] using hn m
  | push n =>
    obtain ⟨hhas, hasync, hcurrent, hothers⟩ := hat
    rw [← Option.some_inj.mp h]
    obtain ⟨th, hr, hl⟩ := hh.quiet .request
    obtain ⟨th', hr', hl'⟩ := hh.quiet .callback
    refine ⟨⟨hs.base.fresh, hs.base.known, hs.base.mutex⟩, .inr (.inr ⟨n, hh.free rfl id, hasync, hcurrent,
      hothers, .queued th th' hh.busy hhas ⟨hr.1, ?_⟩ hl ⟨hr'.1, ?_⟩ hl'⟩)⟩
    · simp [goto, pushRequest, hr.2]
    · simpa [goto, pushRequest] using hr'.2
  | handler x =>
    rw [← Option.some_inj.mp h]
    exact ⟨⟨hs.base.fresh, hs.base.known, hs.base.mutex⟩, .inl ⟨hh.free rfl id, hh.quiet, hat.1, hat.2⟩⟩

/-- A step of the `Infer` that holds the flag. -/
theorem infer_inv (hs : s.Inv) {pt : InferPoint} (hc : s.call c = .infer pt) (hpt : pt ≠ .entry)
    (h : s.infer c o pt = some t) : t.Inv := by
  have hh : s.Held c := hs.held (by
    rw [hc]
    cases pt <;> first | exact absurd rfl hpt | trivial)
  have hat : s.Linked ∧ s.NoneBusy := by
    have hat := hh.at_
    rw [hc] at hat
    exact hat
  have hb := hs.base
  -- only the plain task changes, and the place of the call
  have hsync : ∀ (v : Task) (pt' : InferPoint), pt' ≠ .entry →
      ((s.setTask .syncTask v).goto c (.infer pt')).Inv := by
    intro v pt' hpt'
    refine hh.goto ⟨hb.fresh, hb.known, hb.mutex⟩ hh.busy rfl ?_ hh.quiet hat
    cases pt' <;> first | exact absurd rfl hpt' | trivial
  have hmove : ∀ pt', pt' ≠ .entry → (s.goto c (.infer pt')).Inv := by
    intro pt' hpt'
    have hself := hsync (s.task .syncTask) pt' hpt'
    rwa [setTask_self] at hself
  cases pt with
  | entry => exact absurd rfl hpt
  | occupy =>
    rw [← Option.some_inj.mp h]
    refine hh.goto ⟨hb.fresh, hb.known, hb.mutex⟩ hh.busy rfl ?_ hh.quiet ⟨fun n hn => ?_, hat.2⟩
    · split_ifs <;> trivial
    · cases hn
  | lock =>
    cases o with
    | returns =>
      rw [← Option.some_inj.mp h]
      exact hsync _ _ (by simp)
    | throws x =>
      rw [← Option.some_inj.mp h]
      exact hmove _ (by simp)
    | timesOut => exact absurd h (by simp [infer])
  | run =>
    cases o with
    | returns =>
      rw [← Option.some_inj.mp h]
      exact hsync _ _ (by simp)
    | throws x =>
      rw [← Option.some_inj.mp h]
      exact hsync _ _ (by simp)
    | timesOut => exact absurd h (by simp [infer])
  | getStatus =>
    simp only [infer] at h
    split_ifs at h
    · rw [← Option.some_inj.mp h]
      exact hmove _ (by simp)
    · rw [← Option.some_inj.mp h]
      exact hmove _ (by simp)
  | checkException =>
    simp only [infer] at h
    split at h
    · rw [← Option.some_inj.mp h]
      exact hmove _ (by simp)
    · rw [← Option.some_inj.mp h]
      exact hmove _ (by simp)
  | leave ending =>
    rw [← Option.some_inj.mp h]
    exact ⟨⟨hb.fresh, hb.known, hb.mutex⟩, .inl ⟨hh.free rfl id, hh.quiet, hat.1, hat.2⟩⟩

/-! ### Taking the flag and giving it back -/

/-- A call takes the free flag. -/
theorem take_flag (hs : s.Inv) (hbusy : s.isRequestBusy = false) (hahead : ¬ s.CallbackAhead)
    (hpc : pc = .startAsync .checkBlobs ∨ pc = .infer .occupy) : ((s.setIsRequestBusy true).goto c pc).Inv := by
  have ha := hs.ashore hbusy hahead
  have hat : ((s.setIsRequestBusy true).goto c pc).HeldAt pc := by
    rcases hpc with rfl | rfl
    · exact ⟨ha.linked, ha.noneBusy⟩
    · exact ⟨ha.linked, ha.noneBusy⟩
  refine ⟨⟨hs.base.fresh, hs.base.known, hs.base.mutex⟩, .inr (.inl ⟨c, rfl, ?_, fun c' hne => ?_, ha.quiet, ?_⟩)⟩
  · rw [call_goto]
    rcases hpc with rfl | rfl <;> trivial
  · rw [call_goto_ne hne]
    exact ha.free c'
  · rwa [call_goto]

theorem bystands_goto (hbefore : ¬ (s.call c).Holding) (hafter : ¬ pc.Holding) : s.Bystands (s.goto c pc) c where
  others _ hne := Function.update_of_ne hne ..
  before := hbefore
  after := by rwa [call_goto]
  asyncTask := rfl
  currentTask := rfl
  listAsyncTasks := rfl
  busy := rfl
  thread := rfl
  taskQueue := rfl
  task _ := ⟨rfl, rfl⟩

theorem bystands_setOnWait (hbefore : ¬ (s.call c).Holding) (hafter : ¬ pc.Holding) {p : TaskPtr} {b : Bool} :
    s.Bystands ((s.setOnWait p b).goto c pc) c :=
  { bystands_goto hbefore hafter with
    task := fun n => by
      by_cases hn : TaskPtr.staged n = p
      · simp [SameTask, goto, setOnWait, setTask, hn]
      · simp [SameTask, goto, setOnWait, setTask, hn] }

/-- **A step of a call.** -/
theorem call_inv (hs : s.Inv) (hflag : s.FlagCondition (.call c o)) (h : s.callStep c o = some t) : t.Inv := by
  cases hc : s.call c with
  | idle => simp [callStep, hc] at h
  | finished ending => simp [callStep, hc] at h
  | startAsync pt =>
    simp only [callStep, hc] at h
    by_cases hpt : pt = .entry
    · simp only [FlagCondition, hc, hpt] at hflag
      simp only [hpt, startAsync] at h
      split_ifs at h with hbusy
      · rw [← Option.some_inj.mp h]
        exact (bystands_goto (by simp [hc, hpt, Call.Holding]) (by simp [Call.Holding])).inv hs
      · rw [← Option.some_inj.mp h]
        have hfree := Bool.eq_false_iff.mpr hbusy
        exact take_flag hs hfree (hflag hfree) (.inl rfl)
    · exact startAsync_inv hs hc hpt h
  | infer pt =>
    simp only [callStep, hc] at h
    by_cases hpt : pt = .entry
    · simp only [FlagCondition, hc, hpt] at hflag
      simp only [hpt, infer] at h
      split_ifs at h with hbusy
      · rw [← Option.some_inj.mp h]
        exact (bystands_goto (by simp [hc, hpt, Call.Holding]) (by simp [Call.Holding])).inv hs
      · rw [← Option.some_inj.mp h]
        have hfree := Bool.eq_false_iff.mpr hbusy
        exact take_flag hs hfree (hflag hfree) (.inr rfl)
    · exact infer_inv hs hc hpt h
  | wait millis_timeout pt =>
    simp only [callStep, hc] at h
    have hbefore : ¬ (s.call c).Holding := by simp [hc, Call.Holding]
    have hgoto : ∀ {pc : Call}, ¬ pc.Holding → some (s.goto c pc) = some t → t.Inv := by
      intro pc hpc hpct
      rw [← Option.some_inj.mp hpct]
      exact (bystands_goto hbefore hpc).inv hs
    cases pt with
    | entry =>
      simp only [wait] at h
      split_ifs at h <;> exact hgoto (by simp [Call.Holding]) h
    | getStatus p => exact hgoto (by simp [Call.Holding]) h
    | wait p =>
      rw [← Option.some_inj.mp h]
      exact (bystands_setOnWait hbefore (by simp [Call.Holding])).inv hs
    | blocked p =>
      simp only [wait] at h
      split_ifs at h
      rw [← Option.some_inj.mp h]
      exact (bystands_setOnWait hbefore (by simp [Call.Holding])).inv hs
    | checkException p status =>
      simp only [wait] at h
      split at h <;> exact hgoto (by simp [Call.Holding]) h
    | woken p status =>
      simp only [FlagCondition, hc] at hflag
      by_cases hbusy : s.isRequestBusy = true
      · obtain ⟨hfin, hcur, hfree⟩ := hflag hbusy
        rw [← Option.some_inj.mp h]
        have hpc : ¬ (Call.wait millis_timeout (.checkException p status)).Holding := by simp [Call.Holding]
        rcases hs.phase with ha | ⟨c', hh⟩ | ⟨T, hf⟩
        · refine ⟨⟨hs.base.fresh, hs.base.known, hs.base.mutex⟩, .inl ⟨fun c' => ?_, ha.quiet, ha.linked,
            ha.noneBusy⟩⟩
          by_cases hne : c' = c
          · rwa [hne, call_goto]
          · rw [call_goto_ne hne]
            exact ha.free c'
        · exact absurd hh.holding (hfree c')
        · rw [← hcur, hf.current] at hfin
          exact absurd hfin hf.not_finished
      · simp only [wait, setIsRequestBusy_self (Bool.eq_false_iff.mpr hbusy)] at h
        exact hgoto (by simp [Call.Holding]) h
  | setCompletionCallback callback checked =>
    simp only [callStep, hc] at h
    have hbefore : ¬ (s.call c).Holding := by simp [hc, Call.Holding]
    cases checked with
    | false =>
      simp only [setCompletionCallback] at h
      split_ifs at h <;>
      · rw [← Option.some_inj.mp h]
        exact (bystands_goto hbefore (by simp [Call.Holding])).inv hs
    | true =>
      rw [← Option.some_inj.mp h]
      have hby : s.Bystands (s.goto c (.finished (.returned .OK))) c :=
        bystands_goto hbefore (by simp [Call.Holding])
      exact Bystands.inv ⟨hby.others, hbefore, hby.after, rfl, rfl, rfl, rfl, rfl, rfl, hby.task⟩ hs
  | access a checked =>
    simp only [callStep, hc] at h
    have hbefore : ¬ (s.call c).Holding := by simp [hc, Call.Holding]
    have hgoto : ∀ {pc : Call}, ¬ pc.Holding → some (s.goto c pc) = some t → t.Inv := by
      intro pc hpc hpct
      rw [← Option.some_inj.mp hpct]
      exact (bystands_goto hbefore hpc).inv hs
    cases checked with
    | false =>
      simp only [access] at h
      split_ifs at h <;> exact hgoto (by simp [Call.Holding]) h
    | true =>
      cases o with
      | returns => exact hgoto (by simp [Call.Holding]) h
      | throws x => exact hgoto (by simp [Call.Holding]) h
      | timesOut => exact absurd h (by simp [access])

/-! ### Runs -/

theorem not_holding_of_over (h : pc.Over) : ¬ pc.Holding := by
  cases pc <;> first | exact h.elim | exact id

/-- **One step.** -/
theorem next_inv (hs : s.Inv) {a : Action ι} (hflag : s.FlagCondition a) (h : s.next a = some t) : t.Inv := by
  cases a with
  | begin c op =>
    simp only [next] at h
    split_ifs at h with hc
    rw [← Option.some_inj.mp h]
    refine (bystands_goto (not_holding_of_over hc.1) ?_).inv hs
    cases op <;> exact id
  | call c o => exact call_inv hs hflag h
  | exec e o => exact exec_inv hs hflag h

/-- **The invariant holds along every run whose steps meet the condition.** -/
theorem reachable_inv {m : CallbackManager} {allowed : AsyncRequest ι → Action ι → Prop}
    (hallowed : ∀ s a, allowed s a → s.FlagCondition a)
    (hs : (requestSystem (created m) allowed).Reachable s) : s.Inv := by
  refine hs.induct (fun s₀ h₀ => ?_) fun s t _ hinv hst => ?_
  · rw [show s₀ = created m from h₀]
    exact created_inv m
  · obtain ⟨a, ha, hnext⟩ := hst
    exact next_inv hinv (hallowed s a ha) hnext

end Holder

end OpenVino.InferenceEngine.AsyncRequest
