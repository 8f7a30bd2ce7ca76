import OpenVino.GNAPlugin.Layout

/-!
# The initializers

An initializer of a pointer that another request asks for is run in the read-write round, at its own turn in the
queue and with the size it has taken over by then. `initializersSafe_iff`: the initializers all get the
resolved pointer of their target, and a size that stays inside what is reserved there, exactly when each of them is
queued behind the request its target hangs on, that request is read-write, and its bytes fit behind the target. A
read-only target is resolved only after its initializer has run, and behind an offset the size runs past the end
(`constant_past_concat`).
-/

namespace OpenVino.GNAPlugin

open FutureHeap GNAMemRequestsQueue

variable {n : Nat} {heap : FutureHeap n} {i j X : Fin n} {m : GNAMemory n} {page_alignment : ℕ+} {s s' : Setup n}
  {total : Nat} {filter : MemRequest → Bool} {data : Option Nat} {size : Nat} {pre post : List (Fin n)}

/-- Every initializer is run on the bytes behind the resolved pointer of its target, inside what is reserved for the
request the target hangs on. -/
def GNAMemory.InitializersSafe (m : GNAMemory n) (heap : FutureHeap n) : Prop :=
  ∀ i data size, Write.initializer i data size ∈ m.setup.writes → ∃ X o start, heap.HangsAt X o (heap i).ptr_out ∧
    m.setup.placed X = some start ∧ data = some (start + o) ∧ o + size ≤ heap.room X

/-- Every bound initializer comes behind the read-write request its target hangs on, which fits behind the target. -/
def FutureHeap.InitializersBehind (heap : FutureHeap n) : Prop :=
  ∀ i, (heap i).Bound → (heap i).type ≠ REQUEST_BIND → ∃ X o, heap.HangsAt X o (heap i).ptr_out ∧
    heap.InRW X ∧ X < i ∧ o + (heap X).size ≤ heap.room X

/-! ### What a round writes -/

theorem mem_contents {re : MemRequest} {cptr : Option Nat} {avail sz : Nat} :
    Write.initializer j data size ∈ Setup.contents re i cptr avail sz ↔
      re.type &&& ~~~REQUEST_BIND = REQUEST_INITIALIZER ∧ j = i ∧ data = cptr ∧ size = sz := by
  unfold Setup.contents
  by_cases hstore : re.type &&& ~~~REQUEST_BIND = REQUEST_STORE
  · have hne : REQUEST_STORE ≠ REQUEST_INITIALIZER := by decide
    rw [if_pos hstore, hstore]
    split_ifs <;> simp [hne]
  · rw [if_neg hstore]
    by_cases hinit : re.type &&& ~~~REQUEST_BIND = REQUEST_INITIALIZER
    · simp [hinit]
    · simp [hinit]

/-- A round that is not skipped appends the contents of its request. -/
theorem setupRequest_writes (h : Setup.setupRequest total filter s i = .ok s') :
    (((s.heap i).type = REQUEST_BIND ∨ filter (s.heap i) = true ∨ (s.heap i).ptr_out = nullptr) ∧
      s'.writes = s.writes) ∨
    (((s.heap i).type ≠ REQUEST_BIND ∧ filter (s.heap i) = false ∧ (s.heap i).ptr_out ≠ nullptr) ∧
      ∃ avail, s'.writes =
        s.writes ++ Setup.contents (s.heap i) i (s.cellsFor i (s.heap i).ptr_out) avail (s.heap i).bytes) := by
  have hplace : ∀ t : Setup n, (t.place i).writes = t.writes := fun t => by rw [Setup.place]
  rcases Setup.setupRequest_cases h with ⟨hskip, rfl⟩ | ⟨⟨htype, hfilter⟩, s₁, hs₁, rfl⟩
  · exact Or.inl ⟨hskip.imp_right Or.inl, rfl⟩
  · have hwrites : (if (s.heap i).Bound then s₁ else s₁.place i).writes = s₁.writes := by
      by_cases hb : (s.heap i).Bound
      · rw [if_pos hb]
      · rw [if_neg hb, hplace]
    rw [hwrites]
    rcases hs₁ with ⟨hp, rfl⟩ | ⟨hp, hpointer⟩
    · exact Or.inl ⟨Or.inr (Or.inr hp), rfl⟩
    · obtain ⟨L, -, rfl⟩ := Setup.setupPointer_ok hpointer
      exact Or.inr ⟨⟨htype, hfilter, hp⟩, _, rfl⟩

/-! ### The writes of a run -/

/-- The places of the read-write requests before the turn of `i`. -/
def FutureHeap.before (heap : FutureHeap n) (page_alignment : ℕ+) (i X : Fin n) : Option Nat :=
  if heap.InRW X ∧ X < i then some (heap.start page_alignment X) else none

/-- What a run of an initializer gets. -/
inductive Gets (heap : FutureHeap n) (page_alignment : ℕ+) (i : Fin n) (data : Option Nat) (size : Nat) : Prop
  | own (hi : ¬ (heap i).Bound) (hp : (heap i).ptr_out ≠ nullptr) (hdata : data = some (heap.start page_alignment i))
      (hsize : size = (heap i).size)
  | target (hi : (heap i).Bound) (htype : (heap i).type ≠ REQUEST_BIND)
      (hdata : data = heap.address (heap.before page_alignment i) (heap i).ptr_out)
      (hsize : ∀ X o, heap.HangsAt X o (heap i).ptr_out → heap.InRW X → X < i → size = (heap X).size)

/-- The log of the initializers: each run gets what it should, and the bound initializers of `pre` have been run. -/
structure Log (heap : FutureHeap n) (page_alignment : ℕ+) (pre : List (Fin n)) (s : Setup n) : Prop where
  gets : ∀ i data size, Write.initializer i data size ∈ s.writes → Gets heap page_alignment i data size
  run : ∀ i ∈ pre, (heap i).Bound → (heap i).type ≠ REQUEST_BIND →
    ∃ data size, Write.initializer i data size ∈ s.writes

theorem Log.extend {pre' : List (Fin n)} {w : List (Write n)} (h : Log heap page_alignment pre s)
    (hwrites : s'.writes = s.writes ++ w)
    (hgets : ∀ i data size, Write.initializer i data size ∈ w → Gets heap page_alignment i data size)
    (hrun : ∀ i ∈ pre', (heap i).Bound → (heap i).type ≠ REQUEST_BIND →
      i ∈ pre ∨ ∃ data size, Write.initializer i data size ∈ w) : Log heap page_alignment pre' s' := by
  refine ⟨fun i data size hi => ?_, fun i hi hb htype => ?_⟩
  · rw [hwrites] at hi
    rcases List.mem_append.mp hi with hi | hi
    · exact h.gets i data size hi
    · exact hgets i data size hi
  · rw [hwrites]
    rcases hrun i hi hb htype with hmem | ⟨data, size, hmem⟩
    · obtain ⟨data, size, hmem⟩ := h.run i hmem hb htype
      exact ⟨data, size, List.mem_append_left _ hmem⟩
    · exact ⟨data, size, List.mem_append_right _ hmem⟩

/-- The place a request is given in the loop of its section. -/
theorem Placing.offset_at {p : Fin n → Prop} [DecidablePred p] {base : Nat} {before : Fin n → Option Nat}
    (h : Placing heap p base before pre s) (hl : List.finRange n = pre ++ i :: post) :
    s.offset = (base + startOf heap.reserved p i) % 2 ^ 64 := by
  rw [h.offset, sum_before hl]

/-- A request of a section is placed at its start. -/
theorem offset_eq_start {padding : Fin n → Nat} (hq : heap.Bindable) (hfits : heap.Fits page_alignment)
    (hexp : heap.Expands padding) {before : Fin n → Option Nat} :
    (Placing (heap.withPadding padding) heap.InRW 0 before pre s → List.finRange n = pre ++ i :: post → heap.InRW i →
      s.offset = heap.start page_alignment i) ∧
    (Placing (heap.withPadding padding) heap.InRO (roundUp (lengthOf heap.room heap.InRW) page_alignment) before pre s →
      List.finRange n = pre ++ i :: post → heap.InRO i → s.offset = heap.start page_alignment i) := by
  have hroom : ∀ j, ¬ (heap j).Bound → (heap.withPadding padding).reserved j = heap.room j := fun j hj =>
    reserved_withPadding hq hfits hexp hj
  have hrw : startOf (heap.withPadding padding).reserved heap.InRW i = startOf heap.room heap.InRW i :=
    startOf_congr fun j hj => hroom j hj.1
  have hro : startOf (heap.withPadding padding).reserved heap.InRO i = startOf heap.room heap.InRO i :=
    startOf_congr fun j hj => hroom j hj.1
  refine ⟨fun h hl hi => ?_, fun h hl hi => ?_⟩
  · have hlt := start_add_lt hq hfits hi.1
    rw [FutureHeap.start, if_pos hi.2] at hlt ⊢
    rw [h.offset_at hl, hrw, zero_add, Nat.mod_eq_of_lt (by omega)]
  · have hlt := start_add_lt hq hfits hi.1
    rw [start_ro page_alignment hi] at hlt ⊢
    rw [h.offset_at hl, hro, Nat.mod_eq_of_lt (by omega)]

/-- The bytes of a request that is not bound. -/
theorem bytes_of_resized {padding : Fin n → Nat} (hq : heap.Bindable) (hfits : heap.Fits page_alignment)
    (h : (heap.withPadding padding).Resized s.heap) (hi : ¬ (heap i).Bound) : (s.heap i).bytes = (heap i).size := by
  obtain ⟨L, hL⟩ := exists_visits hq.below i
  rw [h.unbound i hi]
  exact bytes_eq ((hfits.demand i hi).mono (size_le_demand hL))

/-- At its turn in the read-write round an initializer finds the requests before it placed. -/
theorem placed_eq_before {padding : Fin n → Nat} (hq : heap.Bindable) (hfits : heap.Fits page_alignment)
    (hexp : heap.Expands padding) (h : Placing (heap.withPadding padding) heap.InRW 0 (fun _ => none) pre s)
    (hl : List.finRange n = pre ++ i :: post) : s.placed = heap.before page_alignment i := by
  funext X
  unfold FutureHeap.before
  by_cases hX : heap.InRW X ∧ X < i
  · obtain ⟨hrw, hlt⟩ := hX
    have hmem : X ∈ pre := (mem_before_iff hl X).mpr hlt
    obtain ⟨pre', post', hpre⟩ := List.append_of_mem hmem
    have hstart : startOf (heap.withPadding padding).reserved heap.InRW X = startOf heap.room heap.InRW X :=
      startOf_congr fun j hj => reserved_withPadding hq hfits hexp hj.1
    have hsum := start_add_lt hq hfits hrw.1
    rw [FutureHeap.start, if_pos hrw.2] at hsum ⊢
    rw [if_pos ⟨hrw, hlt⟩, h.done X hmem hrw, hstart, zero_add, Nat.mod_eq_of_lt (by omega)]
  · rw [if_neg hX]
    apply h.rest X
    by_cases hrw : heap.InRW X
    · exact Or.inl fun hmem => hX ⟨hrw, (mem_before_iff hl X).mp hmem⟩
    · exact Or.inr hrw

theorem cellsFor_ptr_out (hi : ¬ (s.heap i).Bound) : s.cellsFor i (s.heap i).ptr_out = some s.offset := by
  rw [Setup.cellsFor, if_neg hi, Function.update_self]

/-- The read-write round runs every bound initializer. -/
theorem Log.stepRW {padding : Fin n → Nat} (hq : Bindable.Single heap) (hfits : heap.Fits page_alignment)
    (hexp : heap.Expands padding) (hP : Placing (heap.withPadding padding) heap.InRW 0 (fun _ => none) pre s)
    (hA : AllSettled heap s) (h : Log heap page_alignment pre s) (hl : List.finRange n = pre ++ i :: post)
    (hrun : Setup.setupRequest total notReadWrite s i = .ok s') : Log heap page_alignment (pre ++ [i]) s' := by
  rcases setupRequest_writes hrun with ⟨hskip, hwrites⟩ | ⟨⟨htype, hfilter, hp⟩, avail, hwrites⟩
  · refine h.extend (w := []) (by rw [hwrites, List.append_nil]) (fun _ _ _ hmem => absurd hmem List.not_mem_nil) ?_
    intro j hj hb htype
    rcases List.mem_append.mp hj with hj | hj
    · exact Or.inl hj
    · obtain rfl := List.mem_singleton.mp hj
      exfalso
      rcases hskip with hbind | htrue | hnull
      · exact htype (hA.follows.type_eq j ▸ hbind)
      · have hsb := (hA.follows.bound_iff j).mpr hb
        simp [notReadWrite, hsb] at htrue
      · exact ((hq.queued j).ptrs_ne hb).1 (hA.follows.ptr_out_eq j ▸ hnull)
  · rw [hA.follows.type_eq] at htype
    refine h.extend hwrites (fun j data size hmem => ?_) fun j hj hb htype' => ?_
    · obtain ⟨-, rfl, rfl, rfl⟩ := mem_contents.mp hmem
      rw [hA.follows.ptr_out_eq] at hp
      by_cases hi : (heap j).Bound
      · have hsi := (hA.follows.bound_iff j).mpr hi
        have hself : (heap j).ptr_in = (heap j).ptr_out := by
          rcases (hq.queued j).bound_cases hi with hbind | ⟨-, hself, -⟩
          · exact absurd hbind htype
          · exact hself
        refine .target hi htype ?_ fun X o hung hX hlt => ?_
        · rw [Setup.cellsFor, if_pos hsi, hA.follows.ptr_out_eq, (hA.settled j).cell,
            placed_eq_before hq.toBindable hfits hexp hP hl]
        · have hplaced : s.placed X = some (heap.start page_alignment X) := by
            rw [placed_eq_before hq.toBindable hfits hexp hP hl]
            exact if_pos ⟨hX, hlt⟩
          have hsize := (hA.settled j).size hi X o _ (by rw [hself]; exact (hung_eq_some_iff hq).mpr hung) hplaced
          obtain ⟨L, hL⟩ := exists_visits hq.below X
          rw [MemRequest.bytes, hsize]
          exact bytes_eq ((hfits.demand X hX.1).mono (size_le_demand hL))
      · have hrw : heap.InRW j := (selects_rw (heap.withPadding padding) _ hP.resized j).mpr ⟨hi, hfilter⟩
        refine .own hi hp ?_ (bytes_of_resized hq.toBindable hfits hP.resized hi)
        rw [cellsFor_ptr_out fun hb => hi ((hA.follows.bound_iff j).mp hb),
          (offset_eq_start hq.toBindable hfits hexp).1 hP hl hrw]
    · rcases List.mem_append.mp hj with hj | hj
      · exact Or.inl hj
      · obtain rfl := List.mem_singleton.mp hj
        refine Or.inr ⟨_, _, mem_contents.mpr ⟨?_, rfl, rfl, rfl⟩⟩
        rw [hA.follows.type_eq]
        rcases (hq.queued j).bound_cases hb with hbind | ⟨hinit, -⟩
        · exact absurd hbind htype'
        · rw [hinit]
          decide

/-- The read-only round runs no bound initializer. -/
theorem Log.stepRO {padding : Fin n → Nat} {before : Fin n → Option Nat} (hq : heap.Bindable)
    (hfits : heap.Fits page_alignment) (hexp : heap.Expands padding)
    (hP : Placing (heap.withPadding padding) heap.InRO (roundUp (lengthOf heap.room heap.InRW) page_alignment) before pre
      s) {done : List (Fin n)} (h : Log heap page_alignment done s) (hl : List.finRange n = pre ++ i :: post)
    (hrun : Setup.setupRequest total notReadOnly s i = .ok s') : Log heap page_alignment done s' := by
  have hf : Follows heap s.heap := ⟨padding, hP.resized⟩
  rcases setupRequest_writes hrun with ⟨-, hwrites⟩ | ⟨⟨-, hfilter, hp⟩, avail, hwrites⟩
  · exact h.extend (w := []) (by rw [hwrites, List.append_nil]) (fun _ _ _ hmem => absurd hmem List.not_mem_nil)
      fun j hj _ _ => Or.inl hj
  · refine h.extend hwrites (fun j data size hmem => ?_) fun j hj _ _ => Or.inl hj
    obtain ⟨-, rfl, rfl, rfl⟩ := mem_contents.mp hmem
    rw [hf.ptr_out_eq] at hp
    have hi : ¬ (heap j).Bound := fun hb => by
      have hsb := (hf.bound_iff j).mpr hb
      simp [notReadOnly, hsb] at hfilter
    have hro : heap.InRO j := (selects_ro (heap.withPadding padding) _ hP.resized j).mpr ⟨hi, hfilter⟩
    refine .own hi hp ?_ (bytes_of_resized hq hfits hP.resized hi)
    rw [cellsFor_ptr_out fun hb => hi ((hf.bound_iff j).mp hb), (offset_eq_start hq hfits hexp).2 hP hl hro]

theorem log_of_commit (hq : Bindable.Single heap) (hfits : heap.Fits page_alignment)
    (h : commit page_alignment heap = .ok m) : Log heap page_alignment (List.finRange n) m.setup := by
  obtain ⟨padding, rw, hexp, -, -, hrw, hro⟩ := commit_ok h
  obtain ⟨hsections, -, -⟩ := placed_of_fits hq.toBindable hfits h
  have hsize : m.sections.rw_section_size = roundUp (lengthOf heap.room heap.InRW) page_alignment := by
    rw [hsections]
  have hfirst : Placing (heap.withPadding padding) heap.InRW 0 (fun _ => none) (List.finRange n) rw ∧
      AllSettled heap rw ∧ Log heap page_alignment (List.finRange n) rw := by
    refine foldlM_ok_induct (I := fun pre t => Placing (heap.withPadding padding) heap.InRW 0 (fun _ => none) pre t ∧
      AllSettled heap t ∧ Log heap page_alignment pre t) hrw ⟨⟨.refl _, rfl, ?_, fun _ _ => rfl⟩,
        .init heap padding, ⟨?_, ?_⟩⟩ ?_
    · exact fun i hi => absurd hi List.not_mem_nil
    · exact fun i data size hi => absurd hi List.not_mem_nil
    · exact fun i hi => absurd hi List.not_mem_nil
    · rintro pre i post t t' hl ⟨hP, hA, hL⟩ hstep
      exact ⟨hP.step (selects_rw _) hl hstep, hA.step hq hstep, hL.stepRW hq hfits hexp hP hA hl hstep⟩
  obtain ⟨hP, -, hL⟩ := hfirst
  have hlt := hsize ▸ rw_section_size_lt h
  have hsecond : Placing (heap.withPadding padding) heap.InRO (roundUp (lengthOf heap.room heap.InRW) page_alignment)
      rw.placed (List.finRange n) m.setup ∧ Log heap page_alignment (List.finRange n) m.setup := by
    refine foldlM_ok_induct (I := fun pre t => Placing (heap.withPadding padding) heap.InRO
      (roundUp (lengthOf heap.room heap.InRW) page_alignment) rw.placed pre t ∧
        Log heap page_alignment (List.finRange n) t) hro ⟨⟨hP.resized, ?_, ?_, fun _ _ => rfl⟩, ⟨hL.gets, hL.run⟩⟩ ?_
    · rw [List.map_nil, List.sum_nil, add_zero, hsize, Nat.mod_eq_of_lt hlt]
    · exact fun i hi => absurd hi List.not_mem_nil
    · rintro pre i post t t' hl ⟨hP, hL⟩ hstep
      exact ⟨hP.step (selects_ro _) hl hstep, hL.stepRO hq.toBindable hfits hexp hP hl hstep⟩
  exact hsecond.2

theorem before_eq_some {X : Fin n} {p : Nat} (h : heap.before page_alignment i X = some p) :
    (heap.InRW X ∧ X < i) ∧ p = heap.start page_alignment X := by
  unfold FutureHeap.before at h
  by_cases hX : heap.InRW X ∧ X < i
  · rw [if_pos hX] at h
    exact ⟨hX, (Option.some_inj.mp h).symm⟩
  · rw [if_neg hX] at h
    cases h

/-- **Initializers.** They are all run inside the buffer they initialize, behind its resolution, exactly when each is
queued behind the read-write request its target hangs on and the bytes of that request fit behind the target. -/
theorem initializersSafe_iff (hq : Bindable.Single heap) (hfits : heap.Fits page_alignment)
    (h : commit page_alignment heap = .ok m) : m.InitializersSafe heap ↔ heap.InitializersBehind := by
  obtain ⟨-, -, hplaced⟩ := placed_of_fits hq.toBindable hfits h
  have hlog := log_of_commit hq hfits h
  constructor
  · intro hsafe i hi htype
    obtain ⟨data, size, hmem⟩ := hlog.run i (List.mem_finRange i) hi htype
    obtain ⟨X, o, start, hung, -, rfl, hle⟩ := hsafe i data size hmem
    cases hlog.gets i _ size hmem with
    | own hno => exact absurd hi hno
    | target _ _ hdata hsize =>
      rw [address_of_hung ((hung_eq_some_iff hq).mpr hung)] at hdata
      obtain ⟨p, hp, -⟩ := Option.map_eq_some_iff.mp hdata.symm
      obtain ⟨⟨hX, hlt⟩, -⟩ := before_eq_some hp
      exact ⟨X, o, hung, hX, hlt, hsize X o hung hX hlt ▸ hle⟩
  · intro hbehind i data size hmem
    cases hlog.gets i data size hmem with
    | own hi hp hdata hsize =>
      obtain ⟨L, hL⟩ := exists_visits hq.below i
      refine ⟨i, 0, _, .root hi hp, hplaced i hi, hdata, ?_⟩
      rw [hsize, zero_add]
      exact (size_le_demand hL).trans (demand_le_room heap i)
    | target hi htype hdata hsize =>
      obtain ⟨X, o, hung, hX, hlt, hle⟩ := hbehind i hi htype
      have hsum := start_add_lt hq.toBindable hfits hX.1
      refine ⟨X, o, _, hung, hplaced X hX.1, ?_, hsize X o hung hX hlt ▸ hle⟩
      have hbefore : heap.before page_alignment i X = some (heap.start page_alignment X) := if_pos ⟨hX, hlt⟩
      rw [hdata, address_of_hung ((hung_eq_some_iff hq).mpr hung), hbefore, Option.map_some,
        Nat.mod_eq_of_lt (by omega), add_comm]

/-! ### A constant input of a concat -/

/-- A concat of 128 bytes, and a constant input at its start. -/
def constAtStart : FutureHeap 3 :=
  ![reserve_ptr .memory 1 128 sixtyFour, bind_ptr .memory 2 1 0 0, bind_initializer .readonly 2]

/-- The constant input in the second half. -/
def constAtHalf : FutureHeap 3 :=
  ![reserve_ptr .memory 1 128 sixtyFour, bind_ptr .memory 2 1 0 64, bind_initializer .readonly 2]

theorem queued_concat (offset : Nat) (i : Fin 3) : Queued ((![reserve_ptr .memory 1 128 sixtyFour,
    bind_ptr .memory 2 1 0 offset, bind_initializer .readonly 2] : FutureHeap 3) i) := by
  fin_cases i
  · exact .reserve_ptr ..
  · exact .bind_ptr _ _ _ _ _ (by decide) (by decide)
  · exact .bind_initializer _ _ (by decide)

theorem single_constAtStart : Bindable.Single constAtStart where
  queued := queued_concat 0
  wellFounded := wellFounded_of_rank (fun i => (constAtStart i).ptr_out) (by decide +kernel)
  distinct := by decide +kernel

theorem single_constAtHalf : Bindable.Single constAtHalf where
  queued := queued_concat 64
  wellFounded := wellFounded_of_rank (fun i => (constAtHalf i).ptr_out) (by decide +kernel)
  distinct := by decide +kernel

theorem fits_constAtStart : constAtStart.Fits 64 where
  bound := by decide +kernel
  demand := by decide +kernel
  rw := by decide +kernel
  ro := by decide +kernel
  total := by decide +kernel

theorem fits_constAtHalf : constAtHalf.Fits 64 where
  bound := by decide +kernel
  demand := by decide +kernel
  rw := by decide +kernel
  ro := by decide +kernel
  total := by decide +kernel

theorem initializersSafe_iff_constAtStart : ∃ m, commit 64 constAtStart = .ok m ∧ m.InitializersSafe constAtStart := by
  obtain ⟨m, hm⟩ := exists_commit single_constAtStart.toBindable 64
  refine ⟨m, hm, (initializersSafe_iff single_constAtStart fits_constAtStart hm).mpr fun i hi htype => ?_⟩
  fin_cases i
  · exact absurd hi (by decide)
  · exact absurd rfl htype
  · have hung : constAtStart.HangsAt 0 0 2 := .bind (b := 1) (.root (by decide) (by decide)) (by decide) (by decide)
    exact ⟨0, 0, hung, by decide, by decide, by decide +kernel⟩

/-- The constant in the second half is initialized with the size of the whole concat. -/
theorem constant_past_concat : ¬ ∀ (n : Nat) (page_alignment : ℕ+) (heap : FutureHeap n) (m : GNAMemory n),
    Bindable.Single heap → heap.Fits page_alignment → commit page_alignment heap = .ok m → m.InitializersSafe heap := by
  intro hall
  obtain ⟨m, hm⟩ := exists_commit single_constAtHalf.toBindable 64
  have hsafe := hall 3 64 constAtHalf m single_constAtHalf fits_constAtHalf hm
  have hrun : (fun m : GNAMemory 3 => decide (Write.initializer 2 (some 64) 128 ∈ m.setup.writes)) <$>
      commit 64 constAtHalf = .ok true := by
    decide +kernel
  rw [hm, map_ok_iff] at hrun
  obtain ⟨m', hm', hmem⟩ := hrun
  obtain rfl := Except.ok.inj hm'
  obtain ⟨X, o, start, hung, -, -, hle⟩ := hsafe 2 _ _ (of_decide_eq_true hmem)
  have hhalf : constAtHalf.HangsAt 0 64 2 := .bind (b := 1) (.root (by decide) (by decide)) (by decide) (by decide)
  obtain ⟨rfl, rfl⟩ := hung.unique single_constAtHalf hhalf
  have hroom : constAtHalf.room 0 = 128 := by decide +kernel
  omega

end OpenVino.GNAPlugin
