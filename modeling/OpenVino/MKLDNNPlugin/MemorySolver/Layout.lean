import OpenVino.MKLDNNPlugin.MemorySolver.Placement

/-!
# The layout of `solve` is sound

`Placement.Inv` says of the boxes placed so far that they lie above 0, reach up to `min_required` and no
further, and are pairwise apart when they share a slot; `placeBox_ok` is its step and `placeBoxes_ok` its
run. Boxes whose original life times meet share a slot (`compact_start_le_finish`), which gives
`solve_sound`. The bound by `maxDepth` is a packing argument: the boxes alive at one stamp lie disjointly
in `[0, min_required)`.
-/

namespace OpenVino.MKLDNNPlugin

/-! ### The loop of `solve` -/

section Place

variable {s : Placement} {done rest : List Box} {box b c : Box} {duration : Nat}

/-- The offset recorded for an id, and the box at that offset. -/
def offsetOf (offsets : List (Int × Int)) (id : Int) : Int := (offsets.lookup id).getD 0

def Box.at (offsets : List (Int × Int)) (b : Box) : Box := { b with id := offsetOf offsets b.id }

/-- Both boxes are alive in some slot. -/
def Box.Share (b c : Box) : Prop := ∃ i ∈ b.slots, i ∈ c.slots

theorem Box.share_iff (hb : b.Closed) (hc : c.Closed) :
    b.Share c ↔ c.start ≤ b.finish ∧ b.start ≤ c.finish := by
  have hbe := hb.start_le
  have hce := hc.start_le
  simp only [Box.Share, mem_slots]
  constructor
  · rintro ⟨i, hi, hi'⟩
    omega
  · intro h
    exact ⟨max b.start c.start, by omega, by omega⟩

/-- The state of `solve` after the boxes `done`. -/
structure Placement.Inv (s : Placement) (duration : Nat) (done : List Box) : Prop where
  boxes : s.boxes = done.map (Box.at s.offsets)
  found : ∀ b ∈ done, s.offsets.lookup b.id = some (offsetOf s.offsets b.id)
  slots : SlotsInv s.time_slots s.boxes
  duration : s.time_slots.length = duration
  bottom : ∀ b ∈ s.boxes, 0 ≤ b.id
  top : ∀ b ∈ s.boxes, b.top ≤ s.min_required
  min_nonneg : 0 ≤ s.min_required
  min_le : s.min_required ≤ (done.map Box.size).sum
  attained : done = [] ∨ ∃ b ∈ s.boxes, b.top = s.min_required
  apart : s.boxes.Pairwise fun b c => b.Share c → b.Apart c

theorem Box.Share.symm (h : b.Share c) : c.Share b := by
  obtain ⟨i, hi, hi'⟩ := h
  exact ⟨i, hi', hi⟩

/-- **One pass of the loop of `solve`.** -/
theorem placeBox_ok (hs : s.Inv duration done) (hbox : box.Closed) (hfinish : box.finish < duration)
    (hnew : ∀ b ∈ done, b.id ≠ box.id) :
    ∃ s', placeBox s box = .ok s' ∧ s'.Inv duration (done ++ [box]) := by
  have habove : (above s.boxes { box with id := 0 }).length < s.boxes.length + 1 :=
    Nat.lt_succ_of_le (List.length_filter_le _ _)
  have hlt : box.finish < s.time_slots.length := hs.duration ▸ hfinish
  obtain ⟨box', hlift, hcases, hapart⟩ := lift_ok { box with id := 0 } hs.slots
    hbox.start_nonneg hlt habove
  -- the box is at 0 or on top of a placed box
  obtain ⟨offset, rfl, hoffset, hle⟩ : ∃ offset, box' = { box with id := offset } ∧ 0 ≤ offset ∧
      offset ≤ s.min_required := by
    rcases hcases with rfl | ⟨hpos, old, hold, rfl⟩
    · exact ⟨0, rfl, le_rfl, hs.min_nonneg⟩
    · exact ⟨old.top, rfl, hpos.le, hs.top old hold⟩
  obtain ⟨time_slots', hadd, hlen, hslots'⟩ := addToSlots_ok { box with id := offset } hs.slots
    hbox.start_nonneg hlt
  have hsize := hbox.size_nonneg
  have hold : ∀ b ∈ done, ((box.id, offset) :: s.offsets).lookup b.id = s.offsets.lookup b.id := by
    intro b hb
    rw [List.lookup_cons, beq_false_of_ne (hnew b hb)]
  have hkept : ∀ b ∈ done, offsetOf ((box.id, offset) :: s.offsets) b.id = offsetOf s.offsets b.id := by
    intro b hb
    rw [offsetOf, hold b hb, offsetOf]
  have hself : ((box.id, offset) :: s.offsets).lookup box.id = some offset := by
    simp
  have hboxes : s.boxes ++ [{ box with id := offset }] =
      (done ++ [box]).map (Box.at ((box.id, offset) :: s.offsets)) := by
    rw [List.map_append, hs.boxes]
    congr 1
    · refine List.map_congr_left fun b hb => ?_
      rw [Box.at, Box.at, hkept b hb]
    · simp only [List.map_singleton, Box.at, offsetOf, hself, Option.getD_some]
  refine ⟨⟨s.boxes ++ [{ box with id := offset }], time_slots', max s.min_required (offset + box.size),
    (box.id, offset) :: s.offsets⟩, ?_, ?_⟩
  · simp only [placeBox, hlift, hadd, bind, Except.bind]
    rfl
  · have hmin := hs.min_le
    have hminpos := hs.min_nonneg
    refine ⟨hboxes, fun b hb => ?_, hslots', hlen.trans hs.duration, fun b hb => ?_, fun b hb => ?_, ?_, ?_,
      .inr ?_, ?_⟩
    · rcases List.mem_append.mp hb with hb | hb
      · rw [hold b hb, hkept b hb]
        exact hs.found b hb
      · rw [List.mem_singleton.mp hb]
        simp only [offsetOf, hself, Option.getD_some]
    · rcases List.mem_append.mp hb with hb | hb
      · exact hs.bottom b hb
      · rw [List.mem_singleton.mp hb]
        exact hoffset
    · rcases List.mem_append.mp hb with hb | hb
      · exact le_max_of_le_left (hs.top b hb)
      · rw [List.mem_singleton.mp hb]
        exact le_max_right _ _
    · exact le_max_of_le_left hminpos
    · simp only [List.map_append, List.map_singleton, List.sum_append, List.sum_singleton]
      omega
    · by_cases hmax : s.min_required ≤ offset + box.size
      · exact ⟨{ box with id := offset }, by simp, (max_eq_right hmax).symm⟩
      · rcases hs.attained with rfl | ⟨b, hb, hbtop⟩
        · simp only [List.map_nil, List.sum_nil] at hmin
          omega
        · exact ⟨b, List.mem_append_left _ hb, by rw [hbtop, max_eq_left (by omega)]⟩
    · refine List.pairwise_append.mpr ⟨hs.apart, List.pairwise_singleton _ _, fun b hb c hc hshare => ?_⟩
      obtain ⟨i, hi, hi'⟩ := hshare
      rw [List.mem_singleton.mp hc] at hi' ⊢
      exact (hapart b hb ⟨i, hi', hi⟩).symm

/-- **The loop of `solve`.** -/
theorem placeBoxes_ok (hs : s.Inv duration done) (hclosed : ∀ b ∈ rest, b.Closed)
    (hfinish : ∀ b ∈ rest, b.finish < duration) (hids : ((done ++ rest).map Box.id).Nodup) :
    ∃ s', rest.foldlM placeBox s = .ok s' ∧ s'.Inv duration (done ++ rest) := by
  induction rest generalizing s done with
  | nil => exact ⟨s, rfl, by rwa [List.append_nil]⟩
  | cons box rest ih =>
    have happ : done ++ box :: rest = done ++ [box] ++ rest := by simp
    have hnew : ∀ b ∈ done, b.id ≠ box.id := by
      rw [List.map_append] at hids
      exact fun b hb => (List.nodup_append.mp hids).2.2 _ (List.mem_map_of_mem hb) _ (by simp)
    obtain ⟨s₁, hpass, hs₁⟩ := placeBox_ok hs (hclosed box List.mem_cons_self)
      (hfinish box List.mem_cons_self) hnew
    obtain ⟨s', hloop, hs'⟩ := ih hs₁ (fun b hb => hclosed b (List.mem_cons_of_mem _ hb))
      (fun b hb => hfinish b (List.mem_cons_of_mem _ hb)) (happ ▸ hids)
    refine ⟨s', ?_, happ ▸ hs'⟩
    rw [List.foldlM_cons, hpass]
    exact hloop

/-- Boxes alive at one stamp lie disjointly in `[0, min_required)`. -/
theorem Placement.Inv.liveSum_le (hs : s.Inv duration done) (hclosed : ∀ b ∈ done, b.Closed) (t : Int) :
    liveSum Box.size t done ≤ s.min_required := by
  have hlive : ((done.filter fun b => b.start ≤ t ∧ t ≤ b.finish).map (Box.at s.offsets)).Pairwise
      fun b c => Disjoint (Set.Ico b.id b.top) (Set.Ico c.id c.top) := by
    have hapart := hs.apart
    rw [hs.boxes, List.pairwise_map] at hapart
    rw [List.pairwise_map]
    refine (hapart.filter _).imp_of_mem fun {b c} hb hc h => (h ?_).disjoint
    simp only [List.mem_filter, decide_eq_true_eq] at hb hc
    exact ⟨t, mem_slots.mpr hb.2, mem_slots.mpr hc.2⟩
  have hmem : ∀ p ∈ (done.filter fun b => b.start ≤ t ∧ t ≤ b.finish).map (Box.at s.offsets),
      p ∈ s.boxes ∧ 0 ≤ p.size := by
    intro p hp
    obtain ⟨b, hb, rfl⟩ := List.mem_map.mp hp
    have hb := List.mem_of_mem_filter hb
    exact ⟨hs.boxes ▸ List.mem_map_of_mem hb, (hclosed b hb).size_nonneg⟩
  have hsum := Intervals.sum_length_le (b := s.min_required) (l := ((done.filter fun b => b.start ≤ t ∧
    t ≤ b.finish).map (Box.at s.offsets)).map fun p => (p.id, p.top)) hs.min_nonneg
    (fun q hq => by
      obtain ⟨p, hp, rfl⟩ := List.mem_map.mp hq
      have := (hmem p hp).2
      simp only [Box.top]
      omega)
    (fun q hq => by
      obtain ⟨p, hp, rfl⟩ := List.mem_map.mp hq
      exact ⟨hs.bottom p (hmem p hp).1, hs.top p (hmem p hp).1⟩)
    (List.pairwise_map.mpr hlive)
  simpa [liveSum, Function.comp_def, Box.top, Box.at] using hsum

end Place

/-! ### The solver -/

section Solve

variable {std : StdSort Box} {boxes : List Box}

variable (std) in
/-- **`solve` on a constructed solver** with distinct ids. -/
theorem solve_ok {ms : MemorySolver} (h : ms.WellFormed) (htop : ms.topDepth = -1) (hdepth : ms.depth = -1)
    (hids : (ms.boxes.map Box.id).Nodup) :
    ∃ (s : Placement) (ms' : MemorySolver), ms.solve std = .ok (s.min_required, ms') ∧
      ms'.offsets = s.offsets ∧ s.Inv ms.timeDuration.toNat (std.sort Box.sizeBefore ms.boxes) ∧
      (∀ m, 0 ≤ m → (∀ t, liveSum Box.size t ms.boxes ≤ m) → ms'.depth ≤ m) ∧
      (ms.boxes ≠ [] → 0 ≤ ms'.depth) := by
  obtain ⟨topDepth, depth, hcalc, hraised, -⟩ := h.calcDepth_ok
  rw [hdepth] at hraised
  have hperm := std.perm Box.sizeBefore ms.boxes
  have hslots : SlotsInv (List.replicate ms.timeDuration.toNat []) [] := by
    intro k hk b
    simp
  have hinit : Placement.Inv { time_slots := List.replicate ms.timeDuration.toNat [], offsets := ms.offsets }
      ms.timeDuration.toNat [] :=
    ⟨rfl, by simp, hslots, by simp, by simp, by simp, le_rfl, le_rfl, .inl rfl, .nil⟩
  obtain ⟨s, hloop, hs⟩ := placeBoxes_ok hinit
    (fun b hb => h.closed b (hperm.mem_iff.mp hb))
    (fun b hb => (h.finish_lt b (hperm.mem_iff.mp hb)).trans_le (Int.self_le_toNat _))
    ((hperm.map Box.id).nodup_iff.mpr hids)
  refine ⟨s, { ms with topDepth, depth, boxes := s.boxes, offsets := s.offsets }, ?_, rfl, hs,
    fun m hm hlive => hraised.le_of_liveSum_le hm hlive, fun hne =>
      hraised.nonneg (fun b hb => (h.closed b hb).size_nonneg) hne⟩
  simp only [MemorySolver.solve, MemorySolver.maxTopDepth, htop, if_true, hcalc, bind, Except.bind, pure,
    Except.pure]
  simp only [hloop]

/-- The ids that `getOffset` can be asked for. -/
def Box.IdFits (b : Box) : Prop := -2 ^ 31 ≤ b.id ∧ b.id < 2 ^ 31

instance (b : Box) : Decidable b.IdFits := inferInstanceAs (Decidable (_ ∧ _))

theorem bmod_of_fits {b : Box} (h : b.IdFits) : b.id.bmod (2 ^ 32) = b.id := by
  obtain ⟨hlo, hhi⟩ := h
  rw [Int.bmod_def]
  split <;> omega

/-- An id that is a value of `int` is looked up as it is. -/
theorem getOffset_of_fits {b : Box} {ms : MemorySolver} {offset : Int} (h : b.IdFits)
    (hlookup : ms.offsets.lookup b.id = some offset) : ms.getOffset b.id = .ok offset := by
  rw [MemorySolver.getOffset, bmod_of_fits h, hlookup]

/-- The layout of boxes with distinct ids. -/
theorem solve_layout (std : StdSort Box) (boxes : List Box) (hvalid : ∀ b ∈ boxes, b.Valid)
    (hids : (boxes.map Box.id).Nodup) :
    ∃ (ret : Int) (ms : MemorySolver) (offset : Int → Int),
      (MemorySolver.ofBoxes std boxes).solve std = .ok (ret, ms) ∧
      (∀ b ∈ (MemorySolver.ofBoxes std boxes).boxes, ∀ i ∈ b.slots,
        0 ≤ i ∧ i < (MemorySolver.ofBoxes std boxes).timeDuration) ∧
      (∀ b ∈ boxes, ms.offsets.lookup b.id = some (offset b.id) ∧ 0 ≤ offset b.id ∧
        offset b.id + b.size ≤ ret) ∧
      (∀ b ∈ boxes, ∀ c ∈ boxes, b ≠ c → b.Meets c →
        Disjoint (Set.Ico (offset b.id) (offset b.id + b.size)) (Set.Ico (offset c.id) (offset c.id + c.size))) ∧
      (boxes ≠ [] → (∃ b ∈ boxes, offset b.id + b.size = ret) ∧
        ∃ depth ms', ms.maxDepth = .ok (depth, ms') ∧ depth ≤ ret ∧ ret ≤ (boxes.map Box.size).sum) := by
  have hwf := ofBoxes_wellFormed std hvalid
  have hperm := ofBoxes_perm std hvalid
  have heq := ofBoxes_eq std hvalid
  generalize MemorySolver.ofBoxes std boxes = ms at hwf hperm heq ⊢
  have htop : ms.topDepth = -1 := by rw [heq]
  have hdepth : ms.depth = -1 := by rw [heq]
  have hids' : (ms.boxes.map Box.id).Nodup := by
    rw [(hperm.map Box.id).nodup_iff, List.map_map]
    simpa [Function.comp_def] using hids
  obtain ⟨s, ms', hsolve, hoffsets, hs, hmax, hpos⟩ := solve_ok std hwf htop hdepth hids'
  have hdone : (std.sort Box.sizeBefore ms.boxes).Perm (boxes.map (newLife std boxes)) :=
    (std.perm _ _).trans hperm
  have hmem : ∀ b ∈ boxes, newLife std boxes b ∈ std.sort Box.sizeBefore ms.boxes := fun b hb =>
    hdone.mem_iff.mpr (List.mem_map_of_mem hb)
  have hplaced : ∀ b ∈ boxes, (newLife std boxes b).at s.offsets ∈ s.boxes := fun b hb => by
    rw [hs.boxes]
    exact List.mem_map_of_mem (hmem b hb)
  have hclosed : ∀ b ∈ std.sort Box.sizeBefore ms.boxes, b.Closed := fun b hb =>
    hwf.closed b ((std.perm _ _).mem_iff.mp hb)
  refine ⟨s.min_required, ms', offsetOf s.offsets, hsolve, fun b hb i hi => ?_, fun b hb => ⟨?_, ?_, ?_⟩,
    fun b hb c hc hne hmeets => ?_, fun hnonempty => ⟨?_, ms'.depth, ms', ?_, ?_, ?_⟩⟩
  · have := (hwf.closed b hb).start_nonneg
    have := hwf.finish_lt b hb
    have := mem_slots.mp hi
    omega
  · have := hs.found _ (hmem b hb)
    rw [newLife_id] at this
    rw [hoffsets, this]
  · simpa [Box.at] using hs.bottom _ (hplaced b hb)
  · simpa [Box.at, Box.top] using hs.top _ (hplaced b hb)
  · have hapart := hs.apart
    rw [hs.boxes, List.pairwise_map] at hapart
    have hdistinct : newLife std boxes b ≠ newLife std boxes c := by
      intro hsame
      refine hne (List.inj_on_of_nodup_map hids hb hc ?_)
      simpa using congrArg Box.id hsame
    have hshare : (newLife std boxes b).Share (newLife std boxes c) :=
      (Box.share_iff (hclosed _ (hmem b hb)) (hclosed _ (hmem c hc))).mpr
        ⟨newLife_start_le_finish hvalid hmeets hc, newLife_start_le_finish hvalid hmeets.symm hb⟩
    have hsymm : Std.Symm fun b c : Box =>
        (b.at s.offsets).Share (c.at s.offsets) → (b.at s.offsets).Apart (c.at s.offsets) :=
      ⟨fun p q h hqp => (h hqp.symm).symm⟩
    have := hapart.forall (hmem b hb) (hmem c hc) hdistinct hshare
    simpa [Box.at, Box.top] using this.disjoint
  · rcases hs.attained with hnone | ⟨p, hp, hptop⟩
    · rw [hnone] at hdone
      exact absurd (List.map_eq_nil_iff.mp (List.nil_perm.mp hdone)) hnonempty
    · rw [hs.boxes] at hp
      obtain ⟨q, hq, rfl⟩ := List.mem_map.mp hp
      obtain ⟨b, hb, rfl⟩ := List.mem_map.mp (hdone.mem_iff.mp hq)
      exact ⟨b, hb, by simpa [Box.at, Box.top] using hptop⟩
  · have hne : ms.boxes ≠ [] := by
      rintro hnil
      rw [hnil] at hperm
      exact hnonempty (List.map_eq_nil_iff.mp (List.nil_perm.mp hperm))
    have hdepth' : ms'.depth ≠ -1 := by
      have := hpos hne
      omega
    simp only [MemorySolver.maxDepth, if_neg hdepth']
    rfl
  · refine hmax _ hs.min_nonneg fun t => ?_
    have hsame : liveSum Box.size t ms.boxes = liveSum Box.size t (std.sort Box.sizeBefore ms.boxes) :=
      (((std.perm Box.sizeBefore ms.boxes).filter _).map Box.size).sum_eq.symm
    rw [hsame]
    exact hs.liveSum_le hclosed t
  · have hsum := hs.min_le
    rw [(hdone.map Box.size).sum_eq, List.map_map] at hsum
    simpa [Function.comp_def] using hsum

/-- Box 0 lives while box 1 does, box 2 lives to the end. -/
def nestedBoxes : List Box := [⟨1, 6, 8, 0⟩, ⟨3, 4, 16, 1⟩, ⟨6, -1, 4, 2⟩]

/-- Two boxes of one byte, of which the second id is no `int`. -/
def wideIdBoxes : List Box := [⟨0, 0, 1, 0⟩, ⟨0, 0, 1, 2 ^ 32⟩]

end Solve

end OpenVino.MKLDNNPlugin
