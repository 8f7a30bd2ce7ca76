import OpenVino.GNAPlugin.Pointers

/-!
# The layout of the heap

`LaysOut m heap`: the requests that are not bound own disjoint ranges, the read-write ones below `rw_section_size`
and the read-only ones from there on, and every bound request points into the range of the request it hangs on,
its own bytes included. `laysOut_of_fits`: `commit` lays out every well-founded queue that fills no variable for two
requests and whose sizes fit. `reservesTooLittle`, `bindsTwice`: without either it need not.
-/

namespace OpenVino.GNAPlugin

open FutureHeap GNAMemRequestsQueue

variable {n : Nat} {heap : FutureHeap n} {i j X : Fin n} {m : GNAMemory n} {page_alignment : ℕ+}

/-- The request `i` has the bytes from `start i` up to `start i + room i`. -/
structure Layout (heap : FutureHeap n) (m : GNAMemory n) (start room : Fin n → Nat) : Prop where
  size : ∀ i, ¬ (heap i).Bound → (heap i).size ≤ room i
  pointer : ∀ i, ¬ (heap i).Bound → (heap i).ptr_out ≠ nullptr → m.setup.cells (heap i).ptr_out = some (start i)
  disjoint : ∀ i j, ¬ (heap i).Bound → ¬ (heap j).Bound → i ≠ j →
    start i + room i ≤ start j ∨ start j + room j ≤ start i
  readWrite : ∀ i, heap.InRW i → start i + room i ≤ m.sections.rw_section_size
  readOnly : ∀ i, heap.InRO i → m.sections.rw_section_size ≤ start i ∧ start i + room i ≤ m.total
  total : m.sections.rw_section_size ≤ m.total
  bound : ∀ X o b, heap.HangsAt X o (heap b).ptr_in → (heap b).Bound →
    m.setup.cells (heap b).ptr_out = some (start X + (o + (heap b).offset)) ∧
      o + (heap b).offset + (heap b).size ≤ room X

def GNAMemory.LaysOut (m : GNAMemory n) (heap : FutureHeap n) : Prop := ∃ start room, Layout heap m start room

/-! ### Where the requests are placed when everything fits -/

/-- Where the range of a request starts. -/
def FutureHeap.start (heap : FutureHeap n) (page_alignment : ℕ+) (i : Fin n) : Nat :=
  if (heap i).region = .REGION_RW then startOf heap.room heap.InRW i
  else roundUp (lengthOf heap.room heap.InRW) page_alignment + startOf heap.room heap.InRO i

theorem taken_eq (hq : heap.Bindable) (hfits : heap.Fits page_alignment) (hX : ¬ (heap X).Bound) :
    heap.taken X = heap.room X := by
  obtain ⟨heap', hexpand⟩ := exists_expand hq
  obtain ⟨padding, rfl, hexp⟩ := expand_ok hexpand
  rw [← reserved_eq_taken hexp hX]
  exact reserved_withPadding hq hfits hexp hX

theorem start_add_le_rw (page_alignment : ℕ+) (hi : heap.InRW i) :
    heap.start page_alignment i + heap.room i ≤ roundUp (lengthOf heap.room heap.InRW) page_alignment := by
  rw [FutureHeap.start, if_pos hi.2]
  exact (startOf_add_le_lengthOf hi).trans (le_roundUp page_alignment.pos)

theorem start_ro (page_alignment : ℕ+) (hi : heap.InRO i) : heap.start page_alignment i =
    roundUp (lengthOf heap.room heap.InRW) page_alignment + startOf heap.room heap.InRO i := by
  refine if_neg fun hrw => ?_
  rw [hi.2] at hrw
  cases hrw

theorem start_add_le_total (page_alignment : ℕ+) (hi : heap.InRO i) : heap.start page_alignment i + heap.room i ≤
    roundUp (lengthOf heap.room heap.InRW) page_alignment + roundUp (lengthOf heap.room heap.InRO) page_alignment := by
  have hle : startOf heap.room heap.InRO i + heap.room i ≤ lengthOf heap.room heap.InRO := startOf_add_le_lengthOf hi
  have hround := le_roundUp (m := lengthOf heap.room heap.InRO) page_alignment.pos
  rw [start_ro page_alignment hi]
  omega

theorem start_add_lt (hq : heap.Bindable) (hfits : heap.Fits page_alignment) (hi : ¬ (heap i).Bound) :
    heap.start page_alignment i + heap.room i < 2 ^ 64 := by
  have hlt := hfits.total
  rcases (hq.queued i).region_eq with hregion | hregion
  · have hle := start_add_le_rw page_alignment (i := i) ⟨hi, hregion⟩
    omega
  · have hle := start_add_le_total page_alignment (i := i) ⟨hi, hregion⟩
    omega

/-- What the code computes is the exact layout: no sum wraps. -/
theorem placed_of_fits (hq : heap.Bindable) (hfits : heap.Fits page_alignment)
    (h : commit page_alignment heap = .ok m) :
    m.sections = ⟨roundUp (lengthOf heap.room heap.InRW) page_alignment,
      roundUp (lengthOf heap.room heap.InRO) page_alignment⟩ ∧
    m.total = m.sections.rw_section_size + m.sections.ro_section_size ∧
    ∀ i, ¬ (heap i).Bound → m.setup.placed i = some (heap.start page_alignment i) := by
  obtain ⟨hsections, hrw, hro⟩ := placed_ok hq.queued h
  obtain ⟨-, -, -, -, htotal, -, -⟩ := commit_ok h
  have hlenRW : lengthOf heap.taken heap.InRW = lengthOf heap.room heap.InRW :=
    lengthOf_congr fun j hj => taken_eq hq hfits hj.1
  have hlenRO : lengthOf heap.taken heap.InRO = lengthOf heap.room heap.InRO :=
    lengthOf_congr fun j hj => taken_eq hq hfits hj.1
  rw [hlenRW, hlenRO, Nat.mod_eq_of_lt hfits.rw.lt, Nat.mod_eq_of_lt hfits.ro.lt, hfits.rw.ALIGN_eq,
    hfits.ro.ALIGN_eq] at hsections
  have hlt := hfits.total
  have hsize : m.sections.rw_section_size = roundUp (lengthOf heap.room heap.InRW) page_alignment := by
    rw [hsections]
  refine ⟨hsections, ?_, fun i hi => ?_⟩
  · rw [htotal, hsections]
    exact Nat.mod_eq_of_lt hlt
  · have hstart := start_add_lt hq hfits hi
    rcases (hq.queued i).region_eq with hregion | hregion
    · have hcongr : startOf heap.taken heap.InRW i = startOf heap.room heap.InRW i :=
        startOf_congr fun j hj => taken_eq hq hfits hj.1
      rw [FutureHeap.start, if_pos hregion] at hstart ⊢
      rw [hrw i ⟨hi, hregion⟩, hcongr, Nat.mod_eq_of_lt (by omega)]
    · have hcongr : startOf heap.taken heap.InRO i = startOf heap.room heap.InRO i :=
        startOf_congr fun j hj => taken_eq hq hfits hj.1
      rw [start_ro page_alignment ⟨hi, hregion⟩] at hstart ⊢
      rw [hro i ⟨hi, hregion⟩, hcongr, hsize, Nat.mod_eq_of_lt (by omega)]

theorem start_disjoint (hi : ¬ (heap i).Bound) (hj : ¬ (heap j).Bound) (hqi : Queued (heap i)) (hqj : Queued (heap j))
    (hij : i < j) : heap.start page_alignment i + heap.room i ≤ heap.start page_alignment j ∨
      heap.start page_alignment j + heap.room j ≤ heap.start page_alignment i := by
  rcases hqi.region_eq with hri | hri <;> rcases hqj.region_eq with hrj | hrj
  · left
    rw [FutureHeap.start, FutureHeap.start, if_pos hri, if_pos hrj]
    exact startOf_add_le ⟨hi, hri⟩ hij
  · left
    have hle := start_add_le_rw page_alignment (i := i) ⟨hi, hri⟩
    rw [start_ro page_alignment ⟨hj, hrj⟩]
    omega
  · right
    have hle := start_add_le_rw page_alignment (i := j) ⟨hj, hrj⟩
    rw [start_ro page_alignment ⟨hi, hri⟩]
    omega
  · left
    have hle : startOf heap.room heap.InRO i + heap.room i ≤ startOf heap.room heap.InRO j :=
      startOf_add_le (p := heap.InRO) ⟨hi, hri⟩ hij
    rw [start_ro page_alignment ⟨hi, hri⟩, start_ro page_alignment ⟨hj, hrj⟩]
    omega

/-- A pointer that hangs on a placed request, and the bytes asked for there. -/
theorem address_of_fits (hq : Bindable.Single heap) (hfits : heap.Fits page_alignment)
    (h : commit page_alignment heap = .ok m) {c : Ptr} {o : Nat} (hung : heap.HangsAt X o c) (hle : o ≤ heap.room X) :
    heap.address m.setup.placed c = some (heap.start page_alignment X + o) := by
  obtain ⟨-, -, hplaced⟩ := placed_of_fits hq.toBindable hfits h
  have hX := hung.not_bound
  have hstart := start_add_lt hq.toBindable hfits hX
  have hlt := hfits.total
  rw [address_of_hung ((hung_eq_some_iff hq).mpr hung), hplaced X hX, Option.map_some, Nat.mod_eq_of_lt (by omega),
    add_comm]

theorem demand_le_room (heap : FutureHeap n) (X : Fin n) : heap.demand X ≤ heap.room X :=
  le_roundUp (heap X).alignment.pos

/-- **Layout.** A queue that fits is laid out. -/
theorem laysOut_of_fits (hq : Bindable.Single heap) (hfits : heap.Fits page_alignment) :
    ∃ m, commit page_alignment heap = .ok m ∧ m.LaysOut heap := by
  obtain ⟨m, hm⟩ := exists_commit hq.toBindable page_alignment
  obtain ⟨hsections, htotal, hplaced⟩ := placed_of_fits hq.toBindable hfits hm
  have hrwSize : m.sections.rw_section_size = roundUp (lengthOf heap.room heap.InRW) page_alignment := by
    rw [hsections]
  have hroSize : m.sections.ro_section_size = roundUp (lengthOf heap.room heap.InRO) page_alignment := by
    rw [hsections]
  refine ⟨m, hm, heap.start page_alignment, heap.room, ?_⟩
  refine ⟨fun i hi => ?_, fun i hi hp => ?_, fun i j hi hj hij => ?_, fun i hi => ?_, fun i hi => ⟨?_, ?_⟩, ?_,
    fun X o b hung hb => ?_⟩
  · obtain ⟨L, hL⟩ := exists_visits hq.below i
    exact (size_le_demand hL).trans (demand_le_room heap i)
  · rw [(settled_of_commit hq hm i).cell]
    exact address_of_fits hq hfits hm (.root hi hp) (Nat.zero_le _)
  · rcases lt_or_gt_of_ne hij with hlt | hlt
    · exact start_disjoint hi hj (hq.queued i) (hq.queued j) hlt
    · exact (start_disjoint hj hi (hq.queued j) (hq.queued i) hlt).symm
  · rw [hrwSize]
    exact start_add_le_rw page_alignment hi
  · rw [hrwSize, start_ro page_alignment hi]
    exact Nat.le_add_right _ _
  · rw [htotal, hrwSize, hroSize]
    exact start_add_le_total page_alignment hi
  · rw [htotal]
    exact Nat.le_add_right _ _
  · obtain ⟨L, hL⟩ := exists_visits hq.below X
    obtain ⟨e, he, hchain⟩ := hung.holder
    have hdemand := (le_demand hL hung.not_bound hchain ⟨hb, he.symm⟩).trans (demand_le_room heap X)
    refine ⟨?_, hdemand⟩
    rw [(settled_of_commit hq hm b).cell]
    apply address_of_fits hq hfits hm _ (by omega)
    rw [← hung_eq_some_iff hq, hung_bind hq hb, (hung_eq_some_iff hq).mpr hung]
    rfl

/-! ### One queue that fits, and two that are not laid out -/

/-- The alignment the plugin asks for. -/
def sixtyFour : ℕ+ := 64

/-- A chain of binds queued from its end, and a read-only blob. -/
def chainOfBinds : FutureHeap 4 :=
  ![bind_ptr .memory 3 2 8 4, reserve_ptr .memory 1 16 sixtyFour, bind_ptr .memory 2 1 0 8,
    push_ptr .readonly 4 100 12 sixtyFour]

theorem single_chainOfBinds : Bindable.Single chainOfBinds where
  queued := by
    intro i
    fin_cases i
    · exact .bind_ptr _ _ _ _ _ (by decide) (by decide)
    · exact .reserve_ptr ..
    · exact .bind_ptr _ _ _ _ _ (by decide) (by decide)
    · exact .push_ptr ..
  wellFounded := wellFounded_of_rank (fun i => (chainOfBinds i).ptr_out) (by decide +kernel)
  distinct := by decide +kernel

theorem fits_chainOfBinds : chainOfBinds.Fits 64 where
  bound := by decide +kernel
  demand := by decide +kernel
  rw := by decide +kernel
  ro := by decide +kernel
  total := by decide +kernel

theorem laysOut_of_fits_chainOfBinds : ∃ m, commit 64 chainOfBinds = .ok m ∧ m.LaysOut chainOfBinds :=
  laysOut_of_fits single_chainOfBinds fits_chainOfBinds

/-- Four gigabytes for one pointer. -/
def fourGigabytes : FutureHeap 1 := ![reserve_ptr .memory 1 (2 ^ 32) unaligned]

/-- The pointer at 3 is bound to two others. -/
def boundTwice : FutureHeap 4 :=
  ![reserve_ptr .memory 1 16 unaligned, reserve_ptr .memory 2 16 unaligned, bind_ptr .memory 3 1 0 0, bind_ptr .memory 3 2 0 0]

theorem bindable_fourGigabytes : fourGigabytes.Bindable where
  queued i := by
    fin_cases i
    exact .reserve_ptr ..
  wellFounded := wellFounded_of_rank (fun _ => 0) (by decide +kernel)

theorem bindable_boundTwice : boundTwice.Bindable where
  queued i := by
    fin_cases i
    · exact .reserve_ptr ..
    · exact .reserve_ptr ..
    · exact .bind_ptr _ _ _ _ _ (by decide) (by decide)
    · exact .bind_ptr _ _ _ _ _ (by decide) (by decide)
  wellFounded := wellFounded_of_rank (fun i => (boundTwice i).ptr_out) (by decide +kernel)

theorem fits_boundTwice : boundTwice.Fits 1 where
  bound := by decide +kernel
  demand := by decide +kernel
  rw := by decide +kernel
  ro := by decide +kernel
  total := by decide +kernel

/-- The quotient that `ALIGN` casts to `int` is `2 ^ 32`, so the section is empty. -/
theorem reservesTooLittle : ¬ ∃ m, commit 1 fourGigabytes = .ok m ∧ m.LaysOut fourGigabytes := by
  rintro ⟨m, hm, start, room, h⟩
  have hsection : (fun m : GNAMemory 1 => m.sections.rw_section_size) <$> commit 1 fourGigabytes = .ok 0 := by
    decide +kernel
  rw [hm, map_ok_iff] at hsection
  obtain ⟨m', hm', hsize⟩ := hsection
  obtain rfl := Except.ok.inj hm'
  have hroom := h.size 0 (by decide)
  have hend := h.readWrite 0 (by decide)
  have hasked : (fourGigabytes 0).size = 2 ^ 32 := by decide
  omega

theorem bindsTwice : ¬ ∃ m, commit 1 boundTwice = .ok m ∧ m.LaysOut boundTwice := by
  rintro ⟨m, hm, start, room, h⟩
  have hfirst : boundTwice.HangsAt 0 0 (boundTwice 2).ptr_in := .root (by decide) (by decide)
  have hsecond : boundTwice.HangsAt 1 0 (boundTwice 3).ptr_in := .root (by decide) (by decide)
  have hcell := (h.bound 0 0 2 hfirst (by decide)).1
  have hcell' := (h.bound 1 0 3 hsecond (by decide)).1
  have hsame : start 0 = start 1 := by
    have hptr : (boundTwice 2).ptr_out = (boundTwice 3).ptr_out := by decide
    rw [hptr, hcell'] at hcell
    exact (Option.some_inj.mp hcell).symm
  have hroom := h.size 0 (by decide)
  have hroom' := h.size 1 (by decide)
  have hasked : (boundTwice 0).size = 16 ∧ (boundTwice 1).size = 16 := by decide
  rcases h.disjoint 0 1 (by decide) (by decide) (by decide) with hdisjoint | hdisjoint <;> omega

/-- Sizes that do not fit break the layout, and so does a variable that is filled twice. -/
theorem not_laidOut :
    (¬ ∀ (n : Nat) (page_alignment : ℕ+) (heap : FutureHeap n), heap.Bindable → heap.Distinct →
      ∃ m, commit page_alignment heap = .ok m ∧ m.LaysOut heap) ∧
    ¬ ∀ (n : Nat) (page_alignment : ℕ+) (heap : FutureHeap n), heap.Bindable → heap.Fits page_alignment →
      ∃ m, commit page_alignment heap = .ok m ∧ m.LaysOut heap := by
  refine ⟨fun hall => ?_, fun hall => ?_⟩
  · exact reservesTooLittle (hall 1 1 fourGigabytes bindable_fourGigabytes (by decide +kernel))
  · exact bindsTwice (hall 4 1 boundTwice bindable_boundTwice fits_boundTwice)

end OpenVino.GNAPlugin
