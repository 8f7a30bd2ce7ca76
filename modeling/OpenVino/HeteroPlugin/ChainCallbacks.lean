import OpenVino.HeteroPlugin.ChainFlight

/-!
# The callbacks hand the run on

A sub-request completes and its callback starts the next one, or frees the flag if it is the last: `Inv` is
kept (`complete_inv`, `exec_inv`), and so by every step that meets `ChainCondition` (`next_inv`).
-/

namespace OpenVino.HeteroPlugin

open InferenceEngine (StatusCode)

namespace SubRequest

variable {r r' : SubRequest} {th th' : CallbackThread} {run : Nat}

/-- A callback that has looked at the status goes on. -/
structure Quiet (r r' : SubRequest) : Prop where
  old : ∀ th, r.thread = some th → th.at_ ≠ .entry
  new : ∀ th, r'.thread = some th → th.at_ ≠ .entry
  same : r.inference ≠ .inCallback → r'.inference = r.inference
  still : r.inference = .inCallback → r'.inference = .inCallback ∨ ∃ sts, r'.inference = .completed sts

theorem Quiet.rests (h : r.Quiet r') (hr : r.Rests) : r'.Rests := by
  refine ⟨fun hrun => ?_, h.new⟩
  by_cases hcall : r.inference = .inCallback
  · rcases h.still hcall with h' | ⟨sts, h'⟩
    · simp [Running, h'] at hrun
    · simp [Running, h'] at hrun
  · apply hr.running
    simpa [Running, h.same hcall] using hrun

theorem Quiet.inFlight (h : r.Quiet r') (hf : r.InFlight run) : r'.InFlight run := by
  cases hf with
  | running hrun _ => exact .running (by rw [h.same (by simp [hrun]), hrun]) h.new
  | inCallback sts _ hth => exact absurd rfl (h.old _ hth)

theorem Quiet.started (h : r.Quiet r') (hr : r.inference ≠ .notStarted) : r'.inference ≠ .notStarted := by
  by_cases hcall : r.inference = .inCallback
  · rcases h.still hcall with h' | ⟨sts, h'⟩
    · simp [h']
    · simp [h']
  · rw [h.same hcall]
    exact hr

theorem quiet_moveTo (hth : r.thread = some th) (hentry : th.at_ ≠ .entry) (hat : th'.at_ ≠ .entry) :
    r.Quiet { r with thread := some th' } where
  old _ h := Option.some_inj.mp (hth.symm.trans h) ▸ hentry
  new _ h := Option.some_inj.mp h ▸ hat
  same _ := rfl
  still h := .inl h

theorem quiet_returned (hth : r.thread = some th) (hentry : th.at_ ≠ .entry) :
    r.Quiet ⟨if r.inference = .inCallback then .completed th.sts else r.inference, none⟩ where
  old _ h := Option.some_inj.mp (hth.symm.trans h) ▸ hentry
  new _ h := nomatch h
  same h := if_neg h
  still h := .inr ⟨th.sts, if_pos h⟩

end SubRequest

namespace HeteroAsyncInferRequest

variable {ι : Type} {s t : HeteroAsyncInferRequest ι} {i run : Nat} {o : Choice} {sts : StatusCode}
  {th : CallbackThread}

/-- A run stays where it is. -/
theorem Inv.setRequest {r : SubRequest} (hs : s.Inv) (hcalm : s.Calm i r) (hrests : (s.request i).Rests → r.Rests)
    (hflight : ∀ run, (s.request i).InFlight run → r.InFlight run)
    (hstarted : (s.request i).inference ≠ .notStarted → r.inference ≠ .notStarted) : (s.setRequest i r).Inv := by
  have hall : ∀ j, (s.request j).Rests → ((s.setRequest i r).request j).Rests := by
    intro j hj
    by_cases hij : j = i
    · rw [hij, request_setRequest]
      exact hrests (hij ▸ hj)
    · rw [request_setRequest_ne hij]
      exact hj
  refine ⟨hs.alive, hs.pos, fun j => ?_, ?_, fun c => (hs.waits c).mono rfl hall, hs.callback⟩
  · by_cases hij : j = i
    · rw [hij, request_setRequest]
      exact ⟨hcalm.inside, hcalm.completed, hcalm.thread⟩
    · rw [request_setRequest_ne hij]
      exact ⟨(hs.calm j).inside, (hs.calm j).completed, (hs.calm j).thread⟩
  · rcases hs.phase with h | ⟨c, h⟩ | ⟨run, p, h⟩
    · exact .inl ⟨h.free, fun j => hall j (h.rests j), h.none⟩
    · exact .inr (.inl ⟨c, h.starting, h.flag, h.alone, fun j => hall j (h.rests j)⟩)
    · refine .inr (.inr ⟨run, p, h.lt, h.busy, h.last, ?_, fun j hj => hall j (h.others j hj), fun j hj => ?_, h.none⟩)
      · by_cases hip : p = i
        · rw [hip, request_setRequest]
          exact hflight run (hip ▸ h.inFlight)
        · rw [request_setRequest_ne hip]
          exact h.inFlight
      · by_cases hij : j = i
        · rw [hij, request_setRequest]
          exact hstarted (hij ▸ h.before j hj)
        · rw [request_setRequest_ne hij]
          exact h.before j hj

theorem complete_inv (hs : s.Inv) (hcond : i + 1 < s.size → sts = .OK) (h : s.complete i sts = some t) : t.Inv := by
  unfold complete at h
  cases hinf : (s.request i).inference with
  | running run =>
    cases hth : (s.request i).thread with
    | none =>
      simp only [hinf, hth, Option.some_inj] at h
      rw [← h]
      have hnote : (s.note (.completed run i sts)).Inv := hs.of_eq rfl rfl rfl rfl rfl rfl
      apply hnote.setRequest
      · refine ⟨fun _ => ?_, (fun sts h => nomatch h), fun th h hi => ?_⟩
        · exact hs.size_le fun hr => hr.running (by simp [SubRequest.Running, hinf])
        · rw [← Option.some_inj.mp h]
          exact ⟨hcond hi, .inl rfl⟩
      · exact fun hr => absurd (by simp [SubRequest.Running, note, hinf]) hr.running
      · intro run' hf
        cases hf with
        | running h' _ =>
          obtain rfl : run = run' := by simpa using hinf.symm.trans h'
          exact .inCallback sts rfl rfl
        | inCallback _ _ h' =>
          have := hth.symm.trans h'
          cases this
      · exact fun _ h => nomatch h
    | some th => simp [hinf, hth] at h
  | _ => simp [hinf] at h

/-- A callback that has looked at the status does not move the run. -/
theorem Inv.moveTo {at_ : CallbackPoint} (hs : s.Inv) (hth : (s.request i).thread = some th) (hentry : th.at_ ≠ .entry)
    (hat : at_ ≠ .entry) (hlast : i + 1 < s.size → at_ = .returned) : (s.moveTo i th at_).Inv := by
  have hquiet : (s.request i).Quiet { s.request i with thread := some { th with at_ := at_ } } :=
    SubRequest.quiet_moveTo hth hentry hat
  refine hs.setRequest ?_ hquiet.rests (fun run => hquiet.inFlight) hquiet.started
  refine ⟨fun _ => (hs.calm i).inside (by simp [hth]), (hs.calm i).completed, fun th' h hi => ?_⟩
  rw [← Option.some_inj.mp h]
  exact ⟨((hs.calm i).thread th hth hi).1, .inr (hlast hi)⟩

/-- The thread of a callback that has looked at the status returns. -/
theorem returned_inv (hs : s.Inv) (hth : (s.request i).thread = some th) (hat : th.at_ = .returned)
    (h : s.callbackStep i th o .returned = some t) : t.Inv := by
  rw [← Option.some_inj.mp h]
  have hquiet := SubRequest.quiet_returned hth (by simp [hat])
  refine hs.setRequest ?_ hquiet.rests (fun run => hquiet.inFlight) hquiet.started
  refine ⟨(fun h => nomatch h), fun sts h hi => ?_, (fun th h => nomatch h)⟩
  split_ifs at h with hcall
  · rw [← Inference.completed.inj h]
    exact ((hs.calm i).thread th hth hi).1
  · exact (hs.calm i).completed sts h hi

/-- A callback that has not looked at the status is the one of the run in flight. -/
theorem Inv.flies_of_entry (hs : s.Inv) (hth : (s.request i).thread = some th) (hat : th.at_ = .entry) :
    s.Flies th.run i ∧ (s.request i).inference = .inCallback := by
  obtain ⟨run, hf⟩ := hs.flies_of_not_rests (i := i) fun hr => hr.thread th hth hat
  cases hf.inFlight with
  | running _ h => exact absurd hat (h th hth)
  | inCallback sts hcall h =>
    rw [hth] at h
    obtain rfl : th = ⟨run, sts, .entry⟩ := Option.some_inj.mp h
    exact ⟨hf, hcall⟩

theorem rests_moveTo {at_ : CallbackPoint} (hcall : (s.request i).inference = .inCallback) (hat : at_ ≠ .entry) :
    ((s.moveTo i th at_).request i).Rests := by
  rw [moveTo, request_setRequest]
  refine ⟨by simp [SubRequest.Running, hcall], fun th' h => ?_⟩
  rw [← Option.some_inj.mp h]
  exact hat

/-- The next sub-request is started: the run goes on to it. -/
theorem startNext_inv (hs : s.Inv) (hth : (s.request i).thread = some th) (hat : th.at_ = .entry)
    (hlt : i + 1 < s.size) (ho : o.Returns) : (s.startNext i th o).Inv := by
  obtain ⟨hf, hcall⟩ := hs.flies_of_entry hth hat
  have hsts := ((hs.calm i).thread th hth hlt).1
  have hnext := hf.others (i + 1) (by omega)
  simp only [startNext, hsts, if_true, SubRequest.StartAsync_of_rests hnext ho]
  -- `r` is what the next sub-request becomes
  generalize hr : ({ s.request (i + 1) with inference := .running th.run } : SubRequest) = r
  have hone : ∀ j, j ≠ i → j ≠ i + 1 →
      ((((s.note (.started th.run (i + 1))).setRequest (i + 1) r).moveTo i th .returned).request j) = s.request j := by
    intro j hj hj'
    rw [moveTo, request_setRequest_ne hj, request_setRequest_ne hj']
    rfl
  have htwo : (((s.note (.started th.run (i + 1))).setRequest (i + 1) r).moveTo i th .returned).request (i + 1) = r := by
    rw [moveTo, request_setRequest_ne (by omega), request_setRequest]
  have hthree : (((s.note (.started th.run (i + 1))).setRequest (i + 1) r).moveTo i th .returned).request i =
      { s.request i with thread := some { th with at_ := .returned } } := by
    rw [moveTo, request_setRequest, request_setRequest_ne (by omega)]
    rfl
  have hrest : ((((s.note (.started th.run (i + 1))).setRequest (i + 1) r).moveTo i th .returned).request i).Rests := by
    apply rests_moveTo _ (by simp)
    rw [request_setRequest_ne (by omega)]
    exact hcall
  have hothers : ∀ j, j ≠ i + 1 →
      ((((s.note (.started th.run (i + 1))).setRequest (i + 1) r).moveTo i th .returned).request j).Rests := by
    intro j hj
    by_cases hji : j = i
    · exact hji ▸ hrest
    · rw [hone j hji hj]
      exact hf.others j hji
  refine ⟨hs.alive, hs.pos, fun j => ?_, .inr (.inr ⟨th.run, i + 1, ?_⟩), fun c => ?_, hs.callback⟩
  · by_cases hji : j = i
    · rw [hji, hthree]
      refine ⟨fun _ => hf.lt, (hs.calm i).completed, fun th' h hi => ?_⟩
      rw [← Option.some_inj.mp h]
      exact ⟨hsts, .inr rfl⟩
    · by_cases hj : j = i + 1
      · rw [hj, htwo, ← hr]
        exact ⟨fun _ => hlt, (fun sts h => nomatch h), (hs.calm (i + 1)).thread⟩
      · rw [hone j hji hj]
        exact ⟨(hs.calm j).inside, (hs.calm j).completed, (hs.calm j).thread⟩
  · refine ⟨hlt, hf.busy, hf.last, ?_, hothers, fun j hj => ?_, hf.none⟩
    · rw [htwo, ← hr]
      exact .running rfl hnext.thread
    · by_cases hji : j = i
      · rw [hji, hthree]
        exact fun h => nomatch hcall.symm.trans h
      · by_cases hj' : j = i + 1
        · rw [hj', htwo, ← hr]
          exact fun h => nomatch h
        · rw [hone j hji hj']
          exact hf.before j (by omega)
  · have hw := hs.waits c
    change WaitSafe _ (s.call c)
    cases hc : s.call c with
    | wait pt =>
      rw [hc] at hw
      cases pt with
      | request k millis_timeout share =>
        -- the `Wait` has not passed the sub-request that the run has left
        refine ⟨hw.1, hw.2.1, fun j hj => hothers j ?_⟩
        have : ¬ i < k := fun hik => hf.inFlight.not_rests (hw.2.2 i hik)
        omega
      | status sts => exact fun hready hbusy => absurd (hw hready hbusy i) hf.inFlight.not_rests
    | _ => trivial

/-- The last callback frees the flag: the run is over. -/
theorem freeFlag_inv {at_ : CallbackPoint} (hs : s.Inv) (hth : (s.request i).thread = some th) (hat : th.at_ = .entry)
    (hlast : ¬ i + 1 < s.size) (hne : at_ ≠ .entry) : ((s.setIsRequestBusy false).moveTo i th at_).Inv := by
  obtain ⟨hf, hcall⟩ := hs.flies_of_entry hth hat
  have hrests : ∀ j, (((s.setIsRequestBusy false).moveTo i th at_).request j).Rests := by
    intro j
    by_cases hji : j = i
    · rw [hji]
      exact rests_moveTo hcall hne
    · rw [moveTo, request_setRequest_ne hji]
      exact hf.others j hji
  refine ⟨hs.alive, hs.pos, fun j => ?_, .inl ⟨rfl, hrests, hf.none⟩, fun c => ?_, hs.callback⟩
  · by_cases hji : j = i
    · rw [hji, moveTo, request_setRequest]
      exact ⟨fun _ => hf.lt, (hs.calm i).completed, fun th' _ hi => absurd hi hlast⟩
    · rw [moveTo, request_setRequest_ne hji]
      exact ⟨(hs.calm j).inside, (hs.calm j).completed, (hs.calm j).thread⟩
  · exact (hs.waits c).mono rfl fun j _ => hrests j

theorem exec_inv (hs : s.Inv) (hcond : s.ChainCondition (.exec i o)) (h : s.exec i o = some t) : t.Inv := by
  obtain ⟨th, hth, h⟩ := Option.bind_eq_some_iff.mp h
  -- only the last callback calls the user's
  have hlast : th.at_ ≠ .entry → th.at_ ≠ .returned → ¬ i + 1 < s.size := by
    intro hentry hreturned hlt
    exact ((hs.calm i).thread th hth hlt).2.elim hentry hreturned
  cases hat : th.at_ with
  | entry =>
    rw [hat] at h
    unfold callbackStep at h
    by_cases hlt : i + 1 < s.size
    · rw [if_pos hlt] at h
      rw [← Option.some_inj.mp h]
      exact startNext_inv hs hth hat hlt (hcond hlt (by simp [hth, hat]))
    · rw [if_neg hlt] at h
      rw [← Option.some_inj.mp h]
      apply freeFlag_inv hs hth hat hlt
      split_ifs <;> simp
  | set_requestStatus =>
    rw [hat] at h hlast
    rw [← Option.some_inj.mp h]
    have hset : ({ s with requestStatus := th.sts } : HeteroAsyncInferRequest ι).Inv :=
      hs.of_eq rfl rfl rfl rfl rfl rfl
    exact hset.moveTo hth (by simp [hat]) (by simp) fun hi => absurd hi (hlast (by simp) (by simp))
  | runCallback =>
    rw [hat] at h hlast
    rw [← Option.some_inj.mp h]
    have hset : ({ s with callbacks := s.callbacks ++ [(th.run, s.requestStatus)] } : HeteroAsyncInferRequest ι).Inv :=
      hs.of_eq rfl rfl rfl rfl rfl rfl
    exact hset.moveTo hth (by simp [hat]) (by simp) fun hi => absurd hi (hlast (by simp) (by simp))
  | callback =>
    simp only [hat, callbackStep] at h
    split_ifs at h
    rw [← Option.some_inj.mp h]
    exact hs.moveTo hth (by simp [hat]) (by simp) fun _ => rfl
  | returned => exact returned_inv hs hth hat (hat ▸ h)

/-- Every step that meets the condition keeps the invariant. -/
theorem next_inv [DecidableEq ι] {a : Action ι} (hs : s.Inv) (hcond : s.ChainCondition a) (h : s.next a = some t) :
    t.Inv := by
  simp only [next, hs.alive, Bool.false_eq_true, if_false] at h
  cases a with
  | begin c op =>
    simp only at h
    split_ifs at h with hmay
    rw [← Option.some_inj.mp h]
    exact begin_inv hs hcond hmay.1
  | call c o =>
    simp only [callStep] at h
    cases hc : s.call c with
    | startAsync pt => exact startAsync_inv hs hc hcond (by simpa [hc] using h)
    | wait pt => exact wait_inv hs hc (by simpa [hc] using h)
    | idle => simp [hc] at h
    | finished ending => simp [hc] at h
  | complete i sts => exact complete_inv hs hcond h
  | exec i o => exact exec_inv hs hcond h

/-- A chain of `size` sub-requests; `callback` tells whether the user has set a callback. -/
def created (size : Nat) (callback : Bool) : HeteroAsyncInferRequest ι := { size, callback }

theorem created_inv {size : Nat} {callback : Bool} (hsize : 0 < size) : (created size callback : HeteroAsyncInferRequest ι).Inv where
  alive := rfl
  pos := hsize
  calm _ := ⟨(fun h => nomatch h), (fun _ h => nomatch h), (fun _ h => nomatch h)⟩
  phase := .inl ⟨rfl, fun _ => ⟨id, (fun _ h => nomatch h)⟩, fun _ => id⟩
  waits _ := trivial
  callback := .inl trivial

end HeteroAsyncInferRequest

end OpenVino.HeteroPlugin
