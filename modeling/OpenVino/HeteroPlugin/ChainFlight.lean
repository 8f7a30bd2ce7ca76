import OpenVino.HeteroPlugin.HeteroAsyncInferRequest

/-!
# At most one run of the chain is in flight

`ChainCondition` is what the chain relies on: a sub-request that is not the last completes with `OK`, what
`StartAsync` and the callbacks start is started, and the calls of the request do not overlap. `Inv` is what
the steps that meet it keep: the flag is set while a `StartAsync` holds the request or a run is at one of the
sub-requests, and a `Wait` has passed no sub-request that a run has not left. Here it is kept by the calls
(`begin_inv`, `startAsync_inv`, `wait_inv`).
-/

namespace OpenVino.HeteroPlugin

open InferenceEngine (StatusCode Thrown Ending requestBusy)
open InferenceEngine.AsyncRequest (RESULT_READY STATUS_ONLY)

def Choice.Returns : Choice → Prop
  | .returns _ => True
  | _ => False

instance : (o : Choice) → Decidable o.Returns
  | .returns _ => inferInstanceAs (Decidable True)
  | .throws _ => inferInstanceAs (Decidable False)
  | .timesOut => inferInstanceAs (Decidable False)

namespace SubRequest

variable {r : SubRequest} {run run' ms : Nat} {o : Choice} {status : StatusCode} {millis_timeout : Int}

/-- No run is at it: what is left of a callback only returns. -/
structure Rests (r : SubRequest) : Prop where
  running : ¬ r.Running
  thread : ∀ th, r.thread = some th → th.at_ ≠ .entry

/-- The run is at it: it is running, or its callback has not looked at the status yet. -/
inductive InFlight (r : SubRequest) (run : Nat) : Prop
  | running (h : r.inference = .running run) (hth : ∀ th, r.thread = some th → th.at_ ≠ .entry)
  | inCallback (sts : StatusCode) (h : r.inference = .inCallback) (hth : r.thread = some ⟨run, sts, .entry⟩)

theorem InFlight.not_rests (h : r.InFlight run) : ¬ r.Rests := by
  intro hr
  cases h with
  | running h _ => exact hr.running (by simp [Running, h])
  | inCallback sts _ hth => exact hr.thread _ hth rfl

theorem StartAsync_of_rests (hr : r.Rests) (ho : o.Returns) :
    r.StartAsync run o = .ok { r with inference := .running run } := by
  cases o with
  | returns ms => simp [StartAsync, hr.running]
  | throws x => exact ho.elim
  | timesOut => exact ho.elim

/-- A sub-request that a run is at does not tell a status. -/
theorem Wait_of_inFlight (h : r.InFlight run) (ht : RESULT_READY ≤ millis_timeout)
    (hw : r.Wait millis_timeout o = some status) : status = .RESULT_NOT_READY := by
  unfold Wait at hw
  rw [if_neg (Int.not_lt.mpr ht)] at hw
  cases h with
  | running h _ =>
    simp only [h] at hw
    split_ifs at hw
    exact (Option.some_inj.mp hw).symm
  | inCallback sts h _ =>
    simp only [h] at hw
    split_ifs at hw
    exact (Option.some_inj.mp hw).symm

end SubRequest

namespace HeteroAsyncInferRequest

variable {ι : Type} {s t : HeteroAsyncInferRequest ι} {c : Caller ι} {i j run : Nat} {o : Choice}
  {sts : StatusCode} {th : CallbackThread}

/-- The step of a call: a `StartAsync` that finds the flag free finds no other call under way, and what it starts
is started. -/
def CallCondition (s : HeteroAsyncInferRequest ι) (c : Caller ι) (o : Choice) : Call → Prop
  | .startAsync .entry => s.isRequestBusy = false → ∀ c', c' ≠ c → ¬ (s.call c').Engaged
  | .startAsync .updateInOutIfNeeded => o.Returns
  | .startAsync .startFirstAsyncRequest => o.Returns
  | _ => True

/-- **The condition on the steps.** -/
def ChainCondition (s : HeteroAsyncInferRequest ι) : Action ι → Prop
  | .begin _ .startAsync => True
  | .begin c (.wait millis_timeout) =>
    c ≠ .callback ∧ RESULT_READY ≤ millis_timeout ∧ ∀ c', ¬ (s.call c').Starting
  | .call c o => s.CallCondition c o (s.call c)
  | .complete i sts => i + 1 < s.size → sts = .OK
  | .exec i o => i + 1 < s.size → (s.request i).thread.map CallbackThread.at_ = some .entry → o.Returns

section Decide

variable [Fintype ι] [DecidableEq ι]

instance (s : HeteroAsyncInferRequest ι) (c : Caller ι) (o : Choice) : (pc : Call) → Decidable (s.CallCondition c o pc)
  | .startAsync .entry => inferInstanceAs (Decidable (_ → ∀ _, _))
  | .startAsync .setIsRequestBusy => inferInstanceAs (Decidable True)
  | .startAsync .updateInOutIfNeeded => inferInstanceAs (Decidable o.Returns)
  | .startAsync .startFirstAsyncRequest => inferInstanceAs (Decidable o.Returns)
  | .idle => inferInstanceAs (Decidable True)
  | .wait _ => inferInstanceAs (Decidable True)
  | .finished _ => inferInstanceAs (Decidable True)

instance (s : HeteroAsyncInferRequest ι) : (a : Action ι) → Decidable (s.ChainCondition a)
  | .begin _ .startAsync => inferInstanceAs (Decidable True)
  | .begin _ (.wait _) => inferInstanceAs (Decidable (_ ∧ _ ∧ ∀ _, _))
  | .call c o => inferInstanceAs (Decidable (s.CallCondition c o (s.call c)))
  | .complete _ _ => inferInstanceAs (Decidable (_ → _))
  | .exec _ _ => inferInstanceAs (Decidable (_ → _ → _))

end Decide

/-! ### The invariant -/

/-- A sub-request that is not the last has completed with `OK`, and its callback does nothing for the user. -/
structure Calm (s : HeteroAsyncInferRequest ι) (i : Nat) (r : SubRequest) : Prop where
  inside : r.thread.isSome → i < s.size
  completed : ∀ sts, r.inference = .completed sts → i + 1 < s.size → sts = .OK
  thread : ∀ th, r.thread = some th → i + 1 < s.size → th.sts = .OK ∧ (th.at_ = .entry ∨ th.at_ = .returned)

structure Grounded (s : HeteroAsyncInferRequest ι) : Prop where
  free : s.isRequestBusy = false
  rests : ∀ j, (s.request j).Rests
  none : ∀ c, ¬ (s.call c).Starting

/-- The `StartAsync` of `c` has found the request free. -/
structure Held (s : HeteroAsyncInferRequest ι) (c : Caller ι) : Prop where
  starting : (s.call c).Starting
  flag : s.isRequestBusy = true ↔ s.call c ≠ .startAsync .setIsRequestBusy
  alone : ∀ c', c' ≠ c → ¬ (s.call c').Engaged
  rests : ∀ j, (s.request j).Rests

/-- The last run is at the sub-request `i`. -/
structure Flies (s : HeteroAsyncInferRequest ι) (run i : Nat) : Prop where
  lt : i < s.size
  busy : s.isRequestBusy = true
  last : run + 1 = s.started
  inFlight : (s.request i).InFlight run
  others : ∀ j, j ≠ i → (s.request j).Rests
  before : ∀ j, j ≤ i → (s.request j).inference ≠ .notStarted
  none : ∀ c, ¬ (s.call c).Starting

/-- No run is at a sub-request that the `Wait` has passed. -/
def WaitSafe (s : HeteroAsyncInferRequest ι) : Call → Prop
  | .wait (.request i millis_timeout _) =>
    RESULT_READY ≤ millis_timeout ∧ i < s.size ∧ ∀ j, j < i → (s.request j).Rests
  | .wait (.status sts) => sts ≠ .RESULT_NOT_READY → sts ≠ .REQUEST_BUSY → ∀ j, (s.request j).Rests
  | _ => True

structure Inv (s : HeteroAsyncInferRequest ι) : Prop where
  alive : s.terminated = false
  pos : 0 < s.size
  calm : ∀ i, s.Calm i (s.request i)
  phase : s.Grounded ∨ (∃ c, s.Held c) ∨ ∃ run i, s.Flies run i
  waits : ∀ c, s.WaitSafe (s.call c)
  callback : (s.call .callback).Over ∨ ∃ pt, s.call .callback = .startAsync pt

theorem waitSafe_of_not_engaged {pc : Call} (h : ¬ pc.Engaged) : s.WaitSafe pc := by
  cases pc with
  | wait pt => exact absurd trivial h
  | _ => trivial

theorem not_engaged_starting {pc : Call} (h : ¬ pc.Engaged) : ¬ pc.Starting := by
  cases pc with
  | startAsync pt => cases pt <;> first | exact id | exact absurd trivial h
  | _ => exact id

theorem WaitSafe.mono {pc : Call} (h : s.WaitSafe pc) (hsize : t.size = s.size)
    (hrests : ∀ j, (s.request j).Rests → (t.request j).Rests) : t.WaitSafe pc := by
  cases pc with
  | wait pt =>
    cases pt with
    | request i millis_timeout shareMsMode => exact ⟨h.1, hsize ▸ h.2.1, fun j hj => hrests j (h.2.2 j hj)⟩
    | status sts => exact fun hready hbusy j => hrests j (h hready hbusy j)
  | _ => trivial

/-- The fields that `Inv` does not speak of. -/
theorem Inv.of_eq (hs : s.Inv) (halive : t.terminated = s.terminated) (hsize : t.size = s.size)
    (hflag : t.isRequestBusy = s.isRequestBusy) (hreq : t.request = s.request) (hcall : t.call = s.call)
    (hstarted : t.started = s.started) : t.Inv := by
  obtain ⟨busy, size, request, callback, status, terminated, call, started, log, callbacks⟩ := s
  obtain ⟨busy', size', request', callback', status', terminated', call', started', log', callbacks'⟩ := t
  obtain rfl : terminated' = terminated := halive
  obtain rfl : size' = size := hsize
  obtain rfl : busy' = busy := hflag
  obtain rfl : request' = request := hreq
  obtain rfl : call' = call := hcall
  obtain rfl : started' = started := hstarted
  refine ⟨hs.alive, hs.pos, fun i => ⟨(hs.calm i).inside, (hs.calm i).completed, (hs.calm i).thread⟩, ?_, fun c => ?_, hs.callback⟩
  · rcases hs.phase with h | ⟨c, h⟩ | ⟨run, i, h⟩
    · exact .inl ⟨h.free, h.rests, h.none⟩
    · exact .inr (.inl ⟨c, h.starting, h.flag, h.alone, h.rests⟩)
    · exact .inr (.inr ⟨run, i, h.lt, h.busy, h.last, h.inFlight, h.others, h.before, h.none⟩)
  · exact (hs.waits c).mono rfl fun _ => id

/-- A run that is not at rest somewhere is at that sub-request. -/
theorem Inv.flies_of_not_rests (hs : s.Inv) (h : ¬ (s.request i).Rests) : ∃ run, s.Flies run i := by
  rcases hs.phase with hg | ⟨c, hh⟩ | ⟨run, p, hf⟩
  · exact absurd (hg.rests i) h
  · exact absurd (hh.rests i) h
  · by_cases hp : i = p
    · exact hp ▸ ⟨run, hf⟩
    · exact absurd (hf.others i hp) h

theorem Inv.size_le (hs : s.Inv) (h : ¬ (s.request i).Rests) : i < s.size := by
  obtain ⟨run, hf⟩ := hs.flies_of_not_rests h
  exact hf.lt

/-! ### What a wait passes -/

theorem waitSafe_waitNext {k : Nat} {millis_timeout : Int} {share : Bool} (ht : RESULT_READY ≤ millis_timeout)
    (h : ∀ j, j < k → (s.request j).Rests) (hk : (s.request k).Rests) (hs : s.Inv) :
    s.WaitSafe (.wait (s.waitNext k millis_timeout share)) := by
  have hle : ∀ j, j < k + 1 → (s.request j).Rests := by
    intro j hj
    by_cases hjk : j = k
    · exact hjk ▸ hk
    · exact h j (by omega)
  unfold waitNext
  by_cases hlt : k + 1 < s.size
  · rw [if_pos hlt]
    exact ⟨ht, hlt, hle⟩
  · rw [if_neg hlt]
    intro _ _ j
    by_contra hj
    exact hj (hle j (by have := hs.size_le hj; omega))

/-- What the `Wait` of the sub-request `k` tells is true of the run. -/
theorem waitSafe_waitStep {k ms : Nat} {millis_timeout : Int} {share : Bool} {status : StatusCode} (hs : s.Inv)
    (hw : s.WaitSafe (.wait (.request k millis_timeout share)))
    (hstatus : (s.request k).Wait millis_timeout o = some status) :
    s.WaitSafe (.wait (s.waitStep k millis_timeout share ms status)) := by
  obtain ⟨ht, hk, hpassed⟩ := hw
  unfold waitStep
  -- a run that is here tells nothing
  have hrests : status ≠ .RESULT_NOT_READY → (s.request k).Rests := by
    intro hready
    by_contra hr
    obtain ⟨run, hf⟩ := hs.flies_of_not_rests hr
    exact hready (SubRequest.Wait_of_inFlight hf.inFlight ht hstatus)
  by_cases hok : status = .OK
  · rw [if_neg (not_not.mpr hok)]
    have hr := hrests (by rw [hok]; simp)
    cases share with
    | false => exact waitSafe_waitNext ht hpassed hr hs
    | true =>
      simp only [if_true]
      split_ifs with hleft
      · apply waitSafe_waitNext _ hpassed hr hs
        unfold RESULT_READY
        omega
      · exact fun hready => absurd rfl hready
  · rw [if_pos hok]
    intro hready _ j
    -- a status that is not OK is the one of the last sub-request, or of one that was never started
    by_contra hj
    obtain ⟨run, hf⟩ := hs.flies_of_not_rests hj
    have hkj : k ≤ j := by
      by_contra hlt
      exact hj (hpassed j (by omega))
    unfold SubRequest.Wait at hstatus
    rw [if_neg (Int.not_lt.mpr ht)] at hstatus
    cases hinf : (s.request k).inference with
    | notStarted => exact hf.before k hkj hinf
    | running run => exact (hrests hready).running (by simp [SubRequest.Running, hinf])
    | inCallback =>
      simp only [hinf] at hstatus
      split_ifs at hstatus
      exact hready (Option.some_inj.mp hstatus).symm
    | completed sts =>
      simp only [hinf, Option.some_inj] at hstatus
      have hlast : ¬ k + 1 < s.size := fun hlt => hok (hstatus ▸ (hs.calm k).completed sts hinf hlt)
      have hjk : j = k := by
        have := hf.lt
        omega
      exact hj (hjk ▸ hrests hready)

/-! ### The calls -/

section Calls

variable [DecidableEq ι]

theorem call_goto {pc : Call} : (s.goto c pc).call c = pc := Function.update_self ..

theorem call_goto_ne {c' : Caller ι} {pc : Call} (h : c' ≠ c) : (s.goto c pc).call c' = s.call c' :=
  Function.update_of_ne h ..

/-- What a call that does not hold the request may go on to. -/
theorem Inv.goto {pc : Call} (hs : s.Inv) (hold : ¬ (s.call c).Starting) (hpc : ¬ pc.Starting)
    (hengaged : pc.Engaged → ∀ c', ¬ s.Held c') (hsafe : s.WaitSafe pc)
    (hcallback : c = .callback → pc.Over ∨ ∃ pt, pc = .startAsync pt) : (s.goto c pc).Inv := by
  have hcall : ∀ {P : Call → Prop}, P pc → (∀ c', P (s.call c')) → ∀ c', P ((s.goto c pc).call c') := by
    intro P hp h c'
    by_cases hc : c' = c
    · rw [hc, call_goto]
      exact hp
    · rw [call_goto_ne hc]
      exact h c'
  refine ⟨hs.alive, hs.pos, fun i => ⟨(hs.calm i).inside, (hs.calm i).completed, (hs.calm i).thread⟩, ?_, ?_, ?_⟩
  · rcases hs.phase with h | ⟨c', h⟩ | ⟨run, i, h⟩
    · exact .inl ⟨h.free, h.rests, hcall (P := fun pc => ¬ pc.Starting) hpc h.none⟩
    · have hne : c' ≠ c := by
        rintro rfl
        exact hold h.starting
      refine .inr (.inl ⟨c', ?_, ?_, fun c'' hc'' => ?_, h.rests⟩)
      · rw [call_goto_ne hne]
        exact h.starting
      · rw [call_goto_ne hne]
        exact h.flag
      · by_cases hc : c'' = c
        · rw [hc, call_goto]
          exact fun he => hengaged he c' h
        · rw [call_goto_ne hc]
          exact h.alone c'' hc''
    · refine .inr (.inr ⟨run, i, h.lt, h.busy, h.last, h.inFlight, h.others, h.before, ?_⟩)
      exact hcall (P := fun pc => ¬ pc.Starting) hpc h.none
  · exact hcall (P := fun pc => (s.goto c pc).WaitSafe pc) (hsafe.mono rfl fun _ => id) fun c' =>
      (hs.waits c').mono rfl fun _ => id
  · by_cases hc : .callback = c
    · rw [hc, call_goto]
      exact hcallback hc.symm
    · rw [call_goto_ne hc]
      exact hs.callback

theorem Inv.finished {ending : Ending} (hs : s.Inv) (hold : ¬ (s.call c).Starting) :
    (s.goto c (.finished ending)).Inv :=
  hs.goto hold id (fun h => h.elim) trivial fun _ => .inl trivial

theorem begin_inv {op : Operation} (hs : s.Inv) (hcond : s.ChainCondition (.begin c op)) (hover : (s.call c).Over) :
    (s.goto c op.entry).Inv := by
  have hold : ¬ (s.call c).Starting := by
    cases hc : s.call c with
    | startAsync pt =>
      rw [hc] at hover
      exact hover.elim
    | _ => exact id
  cases op with
  | startAsync =>
    exact hs.goto hold id (fun h => h.elim) trivial fun _ => .inr ⟨_, rfl⟩
  | wait millis_timeout =>
    obtain ⟨hne, hready, hnone⟩ := hcond
    apply hs.goto hold id
    · exact fun _ c' hh => hnone c' hh.starting
    · exact ⟨hready, hs.pos, fun j hj => absurd hj (Nat.not_lt_zero j)⟩
    · exact fun h => absurd h hne

/-- A `StartAsync` holds the request: no other call is under way. -/
theorem Inv.held {pt : StartPoint} (hs : s.Inv) (hh : t.Held c) (hpt : t.call c = .startAsync pt)
    (hcall : ∀ c', c' ≠ c → t.call c' = s.call c') (hreq : t.request = s.request) (hsize : t.size = s.size)
    (halive : t.terminated = s.terminated) : t.Inv := by
  refine ⟨halive ▸ hs.alive, hsize ▸ hs.pos, fun i => ?_, .inr (.inl ⟨c, hh⟩), fun c' => ?_, ?_⟩
  · have hcalm := hs.calm i
    rw [hreq]
    exact ⟨fun h => hsize ▸ hcalm.inside h, fun sts h hi => hcalm.completed sts h (hsize ▸ hi),
      fun th h hi => hcalm.thread th h (hsize ▸ hi)⟩
  · by_cases hc : c' = c
    · rw [hc, hpt]
      trivial
    · exact waitSafe_of_not_engaged (hh.alone c' hc)
  · by_cases hc : .callback = c
    · exact .inr ⟨pt, hc ▸ hpt⟩
    · rw [hcall _ hc]
      exact hs.callback

theorem Inv.held_of_starting (hs : s.Inv) (h : (s.call c).Starting) : s.Held c := by
  rcases hs.phase with hg | ⟨c', hh⟩ | ⟨run, i, hf⟩
  · exact absurd h (hg.none c)
  · by_cases hc : c = c'
    · exact hc ▸ hh
    · exact absurd h (not_engaged_starting (hh.alone c hc))
  · exact absurd h (hf.none c)

theorem startEntry_inv (hs : s.Inv) (hc : s.call c = .startAsync .entry) (hfree : s.isRequestBusy = false)
    (hcond : ∀ c', c' ≠ c → ¬ (s.call c').Engaged) : (s.goto c (.startAsync .setIsRequestBusy)).Inv := by
  have hg : s.Grounded := by
    rcases hs.phase with hg | ⟨c', hh⟩ | ⟨run, i, hf⟩
    · exact hg
    · have hne : c' ≠ c := by
        rintro rfl
        have hstart := hh.starting
        rw [hc] at hstart
        exact hstart.elim
      exact absurd hh.starting (not_engaged_starting (hcond c' hne))
    · rw [hf.busy] at hfree
      cases hfree
  refine hs.held ⟨?_, ?_, fun c' hc' => ?_, hg.rests⟩ call_goto (fun c' hc' => call_goto_ne hc') rfl rfl rfl
  · rw [call_goto]
    trivial
  · rw [call_goto]
    exact iff_of_false (by simp [HeteroAsyncInferRequest.goto, hfree]) (by simp)
  · rw [call_goto_ne hc']
    exact hcond c' hc'

/-- The first sub-request is started, and the call that has held the request returns. -/
theorem Held.flies {r : SubRequest} (hs : s.Inv) (hh : s.Held c) (hbusy : s.isRequestBusy = true)
    (hr : r = { s.request 0 with inference := .running s.started }) :
    ({ (s.note (.started s.started 0)).setRequest 0 r with started := s.started + 1 }.goto c
      (.finished (.returned .OK))).Inv := by
  have hnone : ∀ c', ¬ ((s.goto c (.finished (.returned .OK))).call c').Engaged := by
    intro c'
    by_cases hc : c' = c
    · rw [hc, call_goto]
      exact id
    · rw [call_goto_ne hc]
      exact hh.alone c' hc
  refine ⟨hs.alive, hs.pos, fun i => ?_, .inr (.inr ⟨s.started, 0, ?_⟩), fun c' => ?_, ?_⟩
  · change Calm _ i ((s.setRequest 0 r).request i)
    by_cases hi : i = 0
    · rw [hi, request_setRequest, hr]
      exact ⟨(hs.calm 0).inside, (fun sts h => nomatch h), (hs.calm 0).thread⟩
    · rw [request_setRequest_ne hi]
      exact ⟨(hs.calm i).inside, (hs.calm i).completed, (hs.calm i).thread⟩
  · refine ⟨hs.pos, hbusy, rfl, ?_, fun j hj => ?_, fun j hj => ?_, fun c' => not_engaged_starting (hnone c')⟩
    · change ((s.setRequest 0 r).request 0).InFlight _
      rw [request_setRequest, hr]
      exact .running rfl (hh.rests 0).thread
    · change ((s.setRequest 0 r).request j).Rests
      rw [request_setRequest_ne hj]
      exact hh.rests j
    · change ((s.setRequest 0 r).request j).inference ≠ _
      rw [Nat.le_zero.mp hj, request_setRequest, hr]
      exact fun h => nomatch h
  · exact waitSafe_of_not_engaged (hnone c')
  · change ((s.goto c (.finished (.returned .OK))).call .callback).Over ∨
      ∃ pt, (s.goto c (.finished (.returned .OK))).call .callback = .startAsync pt
    by_cases hc : .callback = c
    · rw [hc, call_goto]
      exact .inl trivial
    · rw [call_goto_ne hc]
      exact hs.callback

theorem startAsync_inv {pt : StartPoint} (hs : s.Inv) (hc : s.call c = .startAsync pt)
    (hcond : s.ChainCondition (.call c o)) (h : s.startAsync c o pt = some t) : t.Inv := by
  simp only [ChainCondition, hc] at hcond
  cases pt with
  | entry =>
    rw [startAsync] at h
    by_cases hbusy : s.isRequestBusy = true
    · rw [if_pos hbusy] at h
      rw [← Option.some_inj.mp h]
      apply hs.finished
      rw [hc]
      exact id
    · rw [if_neg hbusy] at h
      rw [← Option.some_inj.mp h]
      have hfree : s.isRequestBusy = false := by simpa using hbusy
      exact startEntry_inv hs hc hfree (hcond hfree)
  | setIsRequestBusy =>
    have hh : s.Held c := hs.held_of_starting (by simp [hc, Call.Starting])
    rw [← Option.some_inj.mp h]
    refine hs.held ⟨?_, ?_, fun c' hc' => ?_, hh.rests⟩ call_goto (fun c' hc' => call_goto_ne hc') rfl rfl rfl
    · rw [call_goto]
      trivial
    · rw [call_goto]
      exact iff_of_true rfl (by simp)
    · rw [call_goto_ne hc']
      exact hh.alone c' hc'
  | updateInOutIfNeeded =>
    have hh : s.Held c := hs.held_of_starting (by simp [hc, Call.Starting])
    cases o with
    | returns ms =>
      rw [← Option.some_inj.mp h]
      refine hs.held ⟨?_, ?_, fun c' hc' => ?_, hh.rests⟩ call_goto (fun c' hc' => call_goto_ne hc') rfl rfl rfl
      · rw [call_goto]
        trivial
      · rw [call_goto]
        exact iff_of_true (hh.flag.mpr (by simp [hc])) (by simp)
      · rw [call_goto_ne hc']
        exact hh.alone c' hc'
    | throws x => exact hcond.elim
    | timesOut => exact hcond.elim
  | startFirstAsyncRequest =>
    have hh : s.Held c := hs.held_of_starting (by simp [hc, Call.Starting])
    simp only [startAsync, SubRequest.StartAsync_of_rests (hh.rests 0) hcond] at h
    rw [← Option.some_inj.mp h]
    exact hh.flies hs (hh.flag.mpr (by simp [hc])) rfl

/-- What a `Wait` may go on to. -/
theorem Inv.wait {pt pt' : WaitPoint} (hs : s.Inv) (hc : s.call c = .wait pt) (hsafe : s.WaitSafe (.wait pt')) :
    (s.goto c (.wait pt')).Inv := by
  apply hs.goto _ id _ hsafe
  · rintro rfl
    rcases hs.callback with hover | ⟨pt, hpt⟩
    · rw [hc] at hover
      exact hover.elim
    · rw [hc] at hpt
      cases hpt
  · rw [hc]
    exact id
  · rintro - c' hh
    by_cases hne : c = c'
    · have hstart := hh.starting
      rw [← hne, hc] at hstart
      exact hstart
    · apply hh.alone c hne
      rw [hc]
      trivial

theorem wait_inv {pt : WaitPoint} (hs : s.Inv) (hc : s.call c = .wait pt) (h : s.wait c o pt = some t) :
    t.Inv := by
  have hsafe : s.WaitSafe (.wait pt) := hc ▸ hs.waits c
  have hold : ¬ (s.call c).Starting := by
    rw [hc]
    exact id
  cases pt with
  | request k millis_timeout share =>
    obtain ⟨status, hstatus, h⟩ := Option.bind_eq_some_iff.mp h
    rw [← Option.some_inj.mp h]
    exact hs.wait hc (waitSafe_waitStep hs hsafe hstatus)
  | status sts =>
    simp only [HeteroAsyncInferRequest.wait] at h
    split_ifs at h with hclears
    · rw [← Option.some_inj.mp h]
      have hrests := hsafe hclears.1 hclears.2
      -- the flag is free already
      have hfree : s.isRequestBusy = false := by
        rcases hs.phase with hg | ⟨c', hh⟩ | ⟨run, i, hf⟩
        · exact hg.free
        · by_cases hne : c = c'
          · exact absurd (hne ▸ hh.starting) hold
          · exact absurd (hc ▸ trivial) (hh.alone c hne)
        · exact absurd (hrests i) hf.inFlight.not_rests
      exact (hs.of_eq (t := s.setIsRequestBusy false) rfl rfl hfree.symm rfl rfl rfl).finished hold
    · rw [← Option.some_inj.mp h]
      exact hs.finished hold

end Calls

end HeteroAsyncInferRequest

end OpenVino.HeteroPlugin
