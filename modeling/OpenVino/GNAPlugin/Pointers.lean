import OpenVino.GNAPlugin.Offsets

/-!
# The pointers of bound requests

`address heap placed c` is what a pointer variable should hold when the requests of `placed` have their places. A
request is `Settled` when its variable holds that, and when the size it took over is that of the placed request
it is bound to. One visit settles its bound request when the reference is settled (`Settled.resolve`), so a
placed request settles everything bound to it, and an initializer that visits what hangs on its target changes
nothing. Every round of `setupOffsets` leaves all requests settled (`AllSettled.step`), in whatever order binds,
initializers and targets are queued.
-/

namespace OpenVino.GNAPlugin

variable {n : Nat} {heap heap' : FutureHeap n} {i r b d X : Fin n} {L : List (Fin n × Fin n)} {s s' : Setup n}
  {total o st : Nat} {filter : MemRequest → Bool} {placed : Fin n → Option Nat} {c : Ptr}

noncomputable def FutureHeap.address (heap : FutureHeap n) (placed : Fin n → Option Nat) (c : Ptr) : Option Nat :=
  (heap.hung c).bind fun q => (placed q.1).map fun p => (q.2 + p) % 2 ^ 64

open FutureHeap

theorem address_of_hung (h : heap.hung c = some (X, o)) :
    heap.address placed c = (placed X).map fun p => (o + p) % 2 ^ 64 := by
  rw [address, h]
  rfl

theorem address_bind (hq : Bindable.Single heap) (hb : (heap b).Bound) : heap.address placed (heap b).ptr_out =
    (heap.address placed (heap b).ptr_in).map fun p => ((heap b).offset + p) % 2 ^ 64 := by
  rw [address, address, hung_bind hq hb]
  cases heap.hung (heap b).ptr_in with
  | none => rfl
  | some q =>
    simp only [Option.map_some, Option.bind_some, Option.map_map]
    congr 1
    funext p
    simp only [Function.comp_apply]
    omega

/-- Placing a request moves nothing that hangs elsewhere. -/
theorem address_update (h : ∀ o, heap.hung c ≠ some (X, o)) :
    heap.address (Function.update placed X (some st)) c = heap.address placed c := by
  unfold address
  cases hc : heap.hung c with
  | none => rfl
  | some q =>
    have hne : q.1 ≠ X := fun he => h q.2 (by rw [hc, ← he])
    rw [Option.bind_some, Option.bind_some, Function.update_of_ne hne]

/-- The variable of the request holds its address, and its size is that of the request it is bound to. -/
structure Settled (heap : FutureHeap n) (placed : Fin n → Option Nat) (s : Setup n) (d : Fin n) : Prop where
  cell : s.cells (heap d).ptr_out = heap.address placed (heap d).ptr_out
  size : (heap d).Bound → ∀ X o p, heap.hung (heap d).ptr_in = some (X, o) → placed X = some p →
    (s.heap d).size = (heap X).size

/-- The heap of the second stage, the padding apart. -/
def Follows (heap : FutureHeap n) (heap' : FutureHeap n) : Prop :=
  ∃ padding, (heap.withPadding padding).Resized heap'

namespace Follows

theorem offset_eq (h : Follows heap heap') (i : Fin n) : (heap' i).offset = (heap i).offset := by
  obtain ⟨padding, h⟩ := h
  exact h.offset_eq i

theorem ptr_out_eq (h : Follows heap heap') (i : Fin n) : (heap' i).ptr_out = (heap i).ptr_out := by
  obtain ⟨padding, h⟩ := h
  exact h.ptr_out_eq i

theorem type_eq (h : Follows heap heap') (i : Fin n) : (heap' i).type = (heap i).type := by
  obtain ⟨padding, h⟩ := h
  exact h.type_eq i

theorem bound_iff (h : Follows heap heap') (i : Fin n) : (heap' i).Bound ↔ (heap i).Bound := by
  obtain ⟨padding, h⟩ := h
  exact h.bound_iff i

theorem size_eq (h : Follows heap heap') (hi : ¬ (heap i).Bound) : (heap' i).size = (heap i).size := by
  obtain ⟨padding, h⟩ := h
  rw [h.unbound i hi]
  rfl

theorem visits_eq (h : Follows heap heap') (i : Fin n) : heap'.visits i = heap.visits i := by
  obtain ⟨padding, h⟩ := h
  rw [h.visits_eq, visits_withPadding]

theorem resolve (h : Follows heap s.heap) (hb : (heap b).Bound) : Follows heap (s.resolve (r, b)).heap := by
  obtain ⟨padding, h⟩ := h
  exact ⟨padding, h.resolve hb⟩

end Follows

/-- What a settled reference hands on is the size of the placed request. -/
theorem Settled.size_of_ref (hq : Bindable.Single heap) (hf : Follows heap s.heap) (hr : Settled heap placed s r)
    (hp : (heap r).ptr_out ≠ nullptr) {p : Nat} (hung : heap.hung (heap r).ptr_out = some (X, o)) (hX : placed X = some p) :
    (s.heap r).size = (heap X).size := by
  by_cases hrb : (heap r).Bound
  · rw [hung_bind hq hrb, Option.map_eq_some_iff] at hung
    obtain ⟨⟨Y, o'⟩, hin, he⟩ := hung
    obtain ⟨rfl, -⟩ := Prod.mk.inj he
    exact hr.size hrb Y o' p hin hX
  · rw [hung_root hq hrb hp, Option.some_inj] at hung
    obtain ⟨rfl, -⟩ := Prod.mk.inj hung
    exact hf.size_eq hrb

/-- One visit settles the bound request and unsettles none. -/
theorem Settled.resolve (hq : Bindable.Single heap) (hf : Follows heap s.heap) (hb : heap.Binds r b)
    (hr : Settled heap placed s r) : Settled heap placed (s.resolve (r, b)) b ∧
      ∀ d, Settled heap placed s d → Settled heap placed (s.resolve (r, b)) d := by
  have hp := ((hq.queued b).ptrs_ne hb.1).2
  have hcell : (s.resolve (r, b)).cells (heap b).ptr_out = heap.address placed (heap b).ptr_out := by
    change Function.update s.cells (s.heap b).ptr_out _ (heap b).ptr_out = _
    rw [hf.ptr_out_eq, Function.update_self, hf.ptr_out_eq, hf.offset_eq, hr.cell, address_bind hq hb.1, hb.2]
  have hsize : ((s.resolve (r, b)).heap b).size = (s.heap r).size := by
    change (Function.update s.heap b _ b).size = _
    rw [Function.update_self]
    rfl
  have hnew : ∀ X o p, heap.hung (heap b).ptr_in = some (X, o) → placed X = some p →
      ((s.resolve (r, b)).heap b).size = (heap X).size := by
    intro X o p hung hX
    rw [hsize]
    rw [hb.2] at hung hp
    exact hr.size_of_ref hq hf hp hung hX
  refine ⟨⟨hcell, fun _ => hnew⟩, fun d hd => ⟨?_, fun hdb X o p hung hX => ?_⟩⟩
  · by_cases hout : (heap d).ptr_out = (heap b).ptr_out
    · rw [hout]
      exact hcell
    · change Function.update s.cells (s.heap b).ptr_out _ (heap d).ptr_out = _
      rw [hf.ptr_out_eq, Function.update_of_ne hout]
      exact hd.cell
  · by_cases hdb' : d = b
    · subst hdb'
      exact hnew X o p hung hX
    · change (Function.update s.heap b _ d).size = _
      rw [Function.update_of_ne hdb']
      exact hd.size hdb X o p hung hX

theorem Settled.spread (hq : Bindable.Single heap) (hf : Follows heap s.heap) (hL : heap.visits r = .ok L)
    (hr : Settled heap placed s r) : Follows heap (L.foldl Setup.resolve s).heap ∧
      (∀ d, Settled heap placed s d → Settled heap placed (L.foldl Setup.resolve s) d) ∧
      ∀ e d, Relation.ReflTransGen heap.Below r e → heap.Binds e d → Settled heap placed (L.foldl Setup.resolve s) d := by
  refine spread_visits (P := fun s d => Settled heap placed s d) (I := fun s => Follows heap s.heap)
    (fun s r b hb hf hr => ?_) hL hf hr
  obtain ⟨hbs, hkeep⟩ := hr.resolve hq hf hb
  exact ⟨hf.resolve hb.1, hbs, hkeep⟩

/-! ### The rounds of `setupOffsets` -/

/-- The heap and the pointers between two rounds. -/
structure AllSettled (heap : FutureHeap n) (s : Setup n) : Prop where
  follows : Follows heap s.heap
  settled : ∀ d, Settled heap s.placed s d
  offset : s.offset < 2 ^ 64

/-- Placing a request that hangs nowhere, or whose variables are settled already. -/
theorem Settled.update (hcell : ∀ o, heap.hung (heap d).ptr_out ≠ some (i, o))
    (hsize : (heap d).Bound → ∀ o, heap.hung (heap d).ptr_in ≠ some (i, o)) (h : Settled heap placed s d) :
    Settled heap (Function.update placed i (some st)) s d := by
  refine ⟨?_, fun hdb X o p hung hX => ?_⟩
  · rw [address_update hcell]
    exact h.cell
  · have hne : X ≠ i := fun he => hsize hdb o (he ▸ hung)
    rw [Function.update_of_ne hne] at hX
    exact h.size hdb X o p hung hX

theorem Settled.place (h : Settled heap placed s d) : Settled heap placed (s.place i) d :=
  ⟨by rw [Setup.place_cells]; exact h.cell, by rw [Setup.place_heap]; exact h.size⟩

/-- The visits of a request that gets its place settle everything that hangs on it. -/
theorem AllSettled.visited (hq : Bindable.Single heap) (h : AllSettled heap s) (hi : ¬ (heap i).Bound)
    (hp : (heap i).ptr_out ≠ nullptr) (hL : heap.visits i = .ok L) :
    Follows heap (L.foldl Setup.resolve (s.aim i)).heap ∧
      ∀ d, Settled heap (Function.update s.placed i (some s.offset)) (L.foldl Setup.resolve (s.aim i)) d := by
  set placed' := Function.update s.placed i (some s.offset)
  have hcells : (s.aim i).cells = Function.update s.cells (heap i).ptr_out (some s.offset) := by
    rw [← h.follows.ptr_out_eq]
    exact if_neg fun hb => hi ((h.follows.bound_iff i).mp hb)
  have hself : Settled heap placed' (s.aim i) i := by
    refine ⟨?_, fun hb => absurd hb hi⟩
    rw [address_of_hung (hung_root hq hi hp), hcells]
    simp only [placed', Function.update_self, Option.map_some, zero_add, Nat.mod_eq_of_lt h.offset]
  obtain ⟨hf, hkeep, hbelow⟩ := Settled.spread (s := s.aim i) hq h.follows hL hself
  refine ⟨hf, fun d => ?_⟩
  by_cases hroot : ∃ o, heap.hung (heap d).ptr_out = some (i, o)
  · obtain ⟨o, hroot⟩ := hroot
    by_cases hd : (heap d).Bound
    · rw [hung_bind hq hd, Option.map_eq_some_iff] at hroot
      obtain ⟨⟨X, o'⟩, hin, he⟩ := hroot
      obtain ⟨rfl, -⟩ := Prod.mk.inj he
      obtain ⟨e, he, hchain⟩ := ((hung_eq_some_iff hq).mp hin).holder
      exact hbelow e d hchain.reflTransGen ⟨hd, he.symm⟩
    · have hpd := ((hung_eq_some_iff hq).mp hroot).ne_nullptr hq.toBindable
      rw [hung_root hq hd hpd, Option.some_inj] at hroot
      obtain ⟨rfl, -⟩ := Prod.mk.inj hroot
      exact hkeep d hself
  · push Not at hroot
    apply hkeep
    have hout : (heap d).ptr_out ≠ (heap i).ptr_out := fun he => hroot 0 (he ▸ hung_root hq hi hp)
    have hold : Settled heap placed' s d := (h.settled d).update hroot fun hd o hin => by
      apply hroot (o + (heap d).offset)
      rw [hung_bind hq hd, hin]
      rfl
    refine ⟨?_, hold.size⟩
    rw [← hold.cell, hcells]
    exact Function.update_of_ne hout _ _

theorem AllSettled.step (hq : Bindable.Single heap) (h : AllSettled heap s)
    (hrun : Setup.setupRequest total filter s i = .ok s') : AllSettled heap s' := by
  rcases Setup.setupRequest_cases hrun with ⟨-, rfl⟩ | ⟨-, s₁, hs₁, rfl⟩
  · exact h
  · rw [h.follows.ptr_out_eq] at hs₁
    by_cases hi : (heap i).Bound
    · have hsi := (h.follows.bound_iff i).mpr hi
      rw [if_pos hsi]
      rcases hs₁ with ⟨hp, -⟩ | ⟨-, hpointer⟩
      · exact absurd hp ((hq.queued i).ptrs_ne hi).1
      · obtain ⟨L, hL, rfl⟩ := Setup.setupPointer_ok hpointer
        rw [h.follows.visits_eq] at hL
        have haim : s.aim i = s := by
          rw [Setup.aim, Setup.cellsFor, if_pos hsi]
        obtain ⟨hf, hkeep, -⟩ := (h.settled i).spread hq h.follows hL
        rw [haim]
        exact ⟨hf, fun d => ⟨(hkeep d (h.settled d)).cell, (hkeep d (h.settled d)).size⟩, h.offset⟩
    · rw [if_neg fun hb => hi ((h.follows.bound_iff i).mp hb)]
      have hlt : ∀ t : Setup n, (t.place i).offset < 2 ^ 64 := fun t => by
        rw [Setup.place_offset]
        exact Nat.mod_lt _ (by norm_num)
      rcases hs₁ with ⟨hp, rfl⟩ | ⟨hp, hpointer⟩
      · have hno : ∀ c o, heap.hung c ≠ some (i, o) := fun c o hc => ((hung_eq_some_iff hq).mp hc).ptr_ne hp
        refine ⟨?_, fun d => ?_, hlt s₁⟩
        · rw [Setup.place_heap]
          exact h.follows
        · rw [Setup.place_placed]
          exact ((h.settled d).update (hno _) fun _ => hno _).place
      · obtain ⟨L, hL, rfl⟩ := Setup.setupPointer_ok hpointer
        rw [h.follows.visits_eq] at hL
        obtain ⟨hf, hall⟩ := h.visited hq hi hp hL
        refine ⟨?_, fun d => ?_, hlt _⟩
        · rw [Setup.place_heap]
          exact hf
        · rw [Setup.place_placed]
          apply Settled.place
          exact ⟨(hall d).cell, (hall d).size⟩

theorem AllSettled.setupOffsets (hq : Bindable.Single heap) (h : AllSettled heap s)
    (hrun : Setup.setupOffsets total filter s = .ok s') : AllSettled heap s' :=
  foldlM_ok_induct (I := fun _ t => AllSettled heap t) hrun h fun _ _ _ _ _ _ hI hstep => hI.step hq hstep

/-- Before the first round no variable holds an address. -/
theorem AllSettled.init (heap : FutureHeap n) (padding : Fin n → Nat) : AllSettled heap
    { heap := heap.withPadding padding, cells := fun _ => none, offset := 0, placed := fun _ => none, writes := [] } := by
  refine ⟨⟨padding, .refl _⟩, fun d => ⟨?_, fun _ X o p _ hX => absurd hX (Option.some_ne_none _).symm⟩, by norm_num⟩
  unfold address
  cases heap.hung (heap d).ptr_out <;> rfl

/-- **Pointers.** After `commit` every request is settled, whatever the order of the queue. -/
theorem settled_of_commit (hq : Bindable.Single heap) {page_alignment : ℕ+} {m : GNAMemory n}
    (h : commit page_alignment heap = .ok m) (d : Fin n) : Settled heap m.setup.placed m.setup d := by
  obtain ⟨padding, rw, -, -, -, hrw, hro⟩ := commit_ok h
  have hfirst := (AllSettled.init heap padding).setupOffsets hq hrw
  have hsecond : AllSettled heap { rw with offset := m.sections.rw_section_size } :=
    ⟨hfirst.follows, fun d => ⟨(hfirst.settled d).cell, (hfirst.settled d).size⟩, rw_section_size_lt h⟩
  exact (hsecond.setupOffsets hq hro).settled d

end OpenVino.GNAPlugin
