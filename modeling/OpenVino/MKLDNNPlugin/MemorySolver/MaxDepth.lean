import OpenVino.MKLDNNPlugin.MemorySolver.Layout

/-!
# What the depth counts

The depth is the greatest live sum at the start of a renumbered box (`countBoxes_ok`). At a start the same boxes
are alive before and after the renumbering (`liveSum_newLife`), and at any original stamp no more than at the
last start before it (`aliveSum_le`), so it is the greatest sum over the original stamps (`Raised.isGreatest`).
`DepthsKnown` is the invariant of the calls on a solver: the two members are both unset or both set to these values,
so no call, `solve` among them, changes the answers (`depth_correct`).
-/

namespace OpenVino.MKLDNNPlugin

/-- `b` is alive at the original stamp `t`; `-1` is alive to the end. -/
def Box.AliveAt (b : Box) (t : Int) : Prop := b.start ≤ t ∧ (b.finish = -1 ∨ t ≤ b.finish)

instance (b : Box) (t : Int) : Decidable (b.AliveAt t) := inferInstanceAs (Decidable (_ ∧ _))

def aliveAt (boxes : List Box) (t : Int) : List Box := boxes.filter fun b => b.AliveAt t

/-- The original time stamps. -/
def timeStamps (boxes : List Box) : Set Int := Set.Icc 0 (maxTs boxes)

/-! ### Original and new stamps -/

section Stamps

variable {std : StdSort Box} {boxes : List Box} {w : Box → Int} {a b : Box} {t depth : Int}

theorem tsExist_start (std : StdSort Box) (ha : a ∈ boxes) : tsExist (sortedBoxes std boxes) a.start :=
  tsExist_iff.mpr ⟨a.close (maxTs boxes), mem_sortedBoxes.mpr ⟨a, ha, rfl⟩, Box.close_start _ _⟩

theorem newLife_start : (newLife std boxes a).start = usedTs (tsExist (sortedBoxes std boxes)) a.start := by
  rw [newLife, Box.compact, Box.close_start]

theorem newLife_start_le_start (ha : a ∈ boxes) (hstart : 0 ≤ a.start) :
    (newLife std boxes b).start ≤ (newLife std boxes a).start ↔ b.start ≤ a.start := by
  rw [newLife_start, newLife_start]
  constructor
  · intro h
    by_contra hlt
    have := usedTs_lt hstart (tsExist_start std ha) (t := b.start) (by omega)
    omega
  · exact usedTs_mono

theorem le_close_finish (ha : a ∈ boxes) :
    a.start ≤ (b.close (maxTs boxes)).finish ↔ b.finish = -1 ∨ a.start ≤ b.finish := by
  have hmax := ((le_maxTs boxes).2 a ha).1
  unfold Box.close
  split_ifs with hend
  · simp only [hend, true_or, iff_true]
    exact hmax
  · simp only [hend, false_or]

/-- At the start of a box the renumbered boxes are alive that were alive before. -/
theorem newLife_alive_iff (hvalid : ∀ b ∈ boxes, b.Valid) (ha : a ∈ boxes) :
    (newLife std boxes b).start ≤ (newLife std boxes a).start ∧
      (newLife std boxes a).start ≤ (newLife std boxes b).finish ↔ b.AliveAt a.start := by
  have hmem : a.close (maxTs boxes) ∈ sortedBoxes std boxes := mem_sortedBoxes.mpr ⟨a, ha, rfl⟩
  have hfinish : (newLife std boxes a).start ≤ (newLife std boxes b).finish ↔
      (a.close (maxTs boxes)).start ≤ (b.close (maxTs boxes)).finish :=
    compact_start_le_finish (sortedBoxes_closed std hvalid hmem) hmem
  rw [newLife_start_le_start ha (hvalid a ha).start_nonneg, hfinish, Box.close_start, le_close_finish ha, Box.AliveAt]

variable (std) in
theorem liveSum_newLife (hvalid : ∀ b ∈ boxes, b.Valid) (hw : ∀ b, w (newLife std boxes b) = w b) (ha : a ∈ boxes) :
    liveSum w (newLife std boxes a).start (MemorySolver.ofBoxes std boxes).boxes =
      ((aliveAt boxes a.start).map w).sum := by
  have hperm := ofBoxes_perm std hvalid
  have hsame : boxes.filter (fun b => (newLife std boxes b).start ≤ (newLife std boxes a).start ∧
      (newLife std boxes a).start ≤ (newLife std boxes b).finish) = aliveAt boxes a.start :=
    List.filter_congr fun b _ => decide_eq_decide.mpr (newLife_alive_iff hvalid ha)
  rw [liveSum, ((hperm.filter _).map w).sum_eq, List.filter_map, List.map_map, ← hsame]
  congr 1
  exact List.map_congr_left fun b _ => hw b

/-- No more is alive at a stamp than at the last start before it. -/
theorem aliveSum_le (hw : ∀ b ∈ boxes, 0 ≤ w b) {m : Int} (hm : 0 ≤ m)
    (hstart : ∀ a ∈ boxes, ((aliveAt boxes a.start).map w).sum ≤ m) (t : Int) :
    ((aliveAt boxes t).map w).sum ≤ m := by
  by_cases hnone : aliveAt boxes t = []
  · rw [hnone]
    exact hm
  · obtain ⟨a, ha, hlast⟩ := (aliveAt boxes t).toFinset.exists_max_image Box.start
      (by simpa [List.toFinset_nonempty_iff] using hnone)
    simp only [List.mem_toFinset, aliveAt, List.mem_filter, decide_eq_true_eq] at ha hlast
    have hsub : aliveAt boxes t = (aliveAt boxes a.start).filter fun b => b.AliveAt t := by
      unfold aliveAt
      rw [List.filter_filter]
      apply List.filter_congr
      intro b hb
      rw [← Bool.decide_and, decide_eq_decide]
      have hle := hlast b
      have halive := ha.2
      simp only [Box.AliveAt] at hle halive ⊢
      constructor
      · intro h
        have := hle ⟨hb, h⟩
        exact ⟨h, this, by omega⟩
      · exact And.left
    refine le_trans ?_ (hstart a ha.1)
    rw [hsub]
    refine (List.filter_sublist.map w).sum_le_sum fun x hx => ?_
    obtain ⟨b, hb, rfl⟩ := List.mem_map.mp hx
    exact hw b (List.mem_of_mem_filter hb)

/-- **The greatest sum over the original stamps.** -/
theorem Raised.isGreatest (hvalid : ∀ b ∈ boxes, b.Valid) (hne : boxes ≠ []) (hw : ∀ b ∈ boxes, 0 ≤ w b)
    (hnew : ∀ b, w (newLife std boxes b) = w b)
    (h : Raised w (MemorySolver.ofBoxes std boxes).boxes (MemorySolver.ofBoxes std boxes).boxes (-1) depth) :
    IsGreatest ((fun t => ((aliveAt boxes t).map w).sum) '' timeStamps boxes) depth := by
  have hmem : ∀ c, c ∈ (MemorySolver.ofBoxes std boxes).boxes ↔ ∃ b ∈ boxes, newLife std boxes b = c := by
    intro c
    rw [(ofBoxes_perm std hvalid).mem_iff, List.mem_map]
  have hbound : ∀ a ∈ boxes, ((aliveAt boxes a.start).map w).sum ≤ depth := by
    intro a ha
    rw [← liveSum_newLife std hvalid hnew ha]
    exact h.bound _ ((hmem _).mpr ⟨a, ha, rfl⟩)
  have hnonneg : 0 ≤ depth := by
    obtain ⟨a, ha⟩ := List.exists_mem_of_ne_nil boxes hne
    exact (sum_map_filter_nonneg hw).trans (hbound a ha)
  constructor
  · rcases h.attained with hunset | ⟨c, hc, hle⟩
    · omega
    · obtain ⟨a, ha, rfl⟩ := (hmem c).mp hc
      rw [liveSum_newLife std hvalid hnew ha] at hle
      exact ⟨a.start, ⟨(hvalid a ha).start_nonneg, ((le_maxTs boxes).2 a ha).1⟩, le_antisymm (hbound a ha) hle⟩
  · rintro x ⟨t, -, rfl⟩
    exact aliveSum_le hw hnonneg hbound t

end Stamps

/-! ### The calls -/

section Calls

variable {std : StdSort Box} {first ms : MemorySolver} {depth topDepth : Int} {duration : Nat}

/-- A call on a solver. -/
inductive Call
  | maxDepth | maxTopDepth | solve

/-- The solver after a call. -/
def MemorySolver.call (std : StdSort Box) (ms : MemorySolver) : Call → Result MemorySolver
  | .maxDepth => do
    let (_, ms) ← ms.maxDepth
    pure ms
  | .maxTopDepth => do
    let (_, ms) ← ms.maxTopDepth
    pure ms
  | .solve => do
    let (_, ms) ← ms.solve std
    pure ms

/-- The loop of `solve` returns, whatever the ids are. -/
theorem placeBoxes_returns {s : Placement} {rest : List Box} (hslots : SlotsInv s.time_slots s.boxes)
    (hlen : s.time_slots.length = duration) (hplaced : ∀ b ∈ s.boxes, b.Closed ∧ b.finish < duration)
    (hrest : ∀ b ∈ rest, b.Closed ∧ b.finish < duration) :
    ∃ s', rest.foldlM placeBox s = .ok s' ∧ ∀ b ∈ s'.boxes, b.Closed ∧ b.finish < duration := by
  induction rest generalizing s with
  | nil => exact ⟨s, rfl, hplaced⟩
  | cons box rest ih =>
    obtain ⟨hbox, hfinish⟩ := hrest box List.mem_cons_self
    have habove : (above s.boxes { box with id := 0 }).length < s.boxes.length + 1 :=
      Nat.lt_succ_of_le (List.length_filter_le _ _)
    have hlt : box.finish < s.time_slots.length := hlen ▸ hfinish
    obtain ⟨box', hlift, hcases, -⟩ := lift_ok { box with id := 0 } hslots hbox.start_nonneg hlt habove
    obtain ⟨offset, rfl⟩ : ∃ offset, box' = { box with id := offset } := by
      rcases hcases with rfl | ⟨-, old, -, rfl⟩
      · exact ⟨0, rfl⟩
      · exact ⟨old.top, rfl⟩
    obtain ⟨time_slots', hadd, hlen', hslots'⟩ := addToSlots_ok { box with id := offset } hslots hbox.start_nonneg hlt
    have hpass : placeBox s box = .ok ⟨s.boxes ++ [{ box with id := offset }], time_slots',
        max s.min_required (offset + box.size), (box.id, offset) :: s.offsets⟩ := by
      simp only [placeBox, hlift, hadd, bind, Except.bind]
      rfl
    obtain ⟨s', hloop, hs'⟩ := ih (s := ⟨s.boxes ++ [{ box with id := offset }], time_slots',
        max s.min_required (offset + box.size), (box.id, offset) :: s.offsets⟩) hslots' (hlen'.trans hlen)
      (fun b hb => by
        rcases List.mem_append.mp hb with hb | hb
        · exact hplaced b hb
        · rw [List.mem_singleton.mp hb]
          exact ⟨⟨hbox.size_nonneg, hbox.start_nonneg, hbox.start_le⟩, hfinish⟩)
      fun b hb => hrest b (List.mem_cons_of_mem _ hb)
    refine ⟨s', ?_, hs'⟩
    rw [List.foldlM_cons, hpass]
    exact hloop

/-- What `calcDepth` does on the constructed solver `first`. -/
structure DepthsCounted (first : MemorySolver) (depth topDepth : Int) : Prop where
  depth_unset : first.depth = -1
  topDepth_unset : first.topDepth = -1
  calcDepth : first.calcDepth = .ok { first with topDepth, depth }
  depth_nonneg : 0 ≤ depth
  topDepth_pos : 0 < topDepth

/-- The invariant of the calls on `first`. -/
structure DepthsKnown (first : MemorySolver) (depth topDepth : Int) (ms : MemorySolver) : Prop where
  boxes : ∀ b ∈ ms.boxes, b.Closed ∧ b.finish < ms.timeDuration
  members : ms = first ∨ ms.depth = depth ∧ ms.topDepth = topDepth

theorem DepthsKnown.maxDepth_ok (hfirst : DepthsCounted first depth topDepth)
    (h : DepthsKnown first depth topDepth ms) :
    ∃ ms', ms.maxDepth = .ok (depth, ms') ∧ DepthsKnown first depth topDepth ms' := by
  rcases h.members with rfl | hset
  · refine ⟨{ ms with topDepth, depth }, ?_, h.boxes, .inr ⟨rfl, rfl⟩⟩
    rw [MemorySolver.maxDepth, if_pos hfirst.depth_unset, hfirst.calcDepth]
    rfl
  · have hne : ms.depth ≠ -1 := by
      have := hfirst.depth_nonneg
      omega
    refine ⟨ms, ?_, h⟩
    rw [MemorySolver.maxDepth, if_neg hne, ← hset.1]
    rfl

theorem DepthsKnown.maxTopDepth_ok (hfirst : DepthsCounted first depth topDepth)
    (h : DepthsKnown first depth topDepth ms) :
    ∃ ms', ms.maxTopDepth = .ok (topDepth, ms') ∧ DepthsKnown first depth topDepth ms' ∧
      ms'.depth = depth ∧ ms'.topDepth = topDepth := by
  rcases h.members with rfl | hset
  · refine ⟨{ ms with topDepth, depth }, ?_, ⟨h.boxes, .inr ⟨rfl, rfl⟩⟩, rfl, rfl⟩
    rw [MemorySolver.maxTopDepth, if_pos hfirst.topDepth_unset, hfirst.calcDepth]
    rfl
  · have hne : ms.topDepth ≠ -1 := by
      have := hfirst.topDepth_pos
      omega
    refine ⟨ms, ?_, h, hset⟩
    rw [MemorySolver.maxTopDepth, if_neg hne, ← hset.2]
    rfl

variable (std) in
theorem DepthsKnown.solve_ok (hfirst : DepthsCounted first depth topDepth) (h : DepthsKnown first depth topDepth ms) :
    ∃ ret ms', ms.solve std = .ok (ret, ms') ∧ DepthsKnown first depth topDepth ms' := by
  obtain ⟨ms₁, htop, hms₁, hset⟩ := h.maxTopDepth_ok hfirst
  have hslots : SlotsInv (List.replicate ms₁.timeDuration.toNat []) [] := by
    intro k hk b
    simp
  have hperm := std.perm Box.sizeBefore ms₁.boxes
  have hrest : ∀ b ∈ std.sort Box.sizeBefore ms₁.boxes, b.Closed ∧ b.finish < ms₁.timeDuration.toNat := by
    intro b hb
    obtain ⟨hclosed, hlt⟩ := hms₁.boxes b (hperm.mem_iff.mp hb)
    exact ⟨hclosed, hlt.trans_le (Int.self_le_toNat _)⟩
  obtain ⟨s, hloop, hs⟩ := placeBoxes_returns
    (s := { time_slots := List.replicate ms₁.timeDuration.toNat [], offsets := ms₁.offsets }) hslots (by simp) (by simp)
    hrest
  refine ⟨s.min_required, { ms₁ with boxes := s.boxes, offsets := s.offsets }, ?_, fun b hb => ?_, .inr hset⟩
  · simp only [MemorySolver.solve, htop, bind, Except.bind, pure, Except.pure]
    simp only [hloop]
  · obtain ⟨hclosed, hlt⟩ := hs b hb
    have hstart := hclosed.start_nonneg
    have hfinish := hclosed.start_le
    exact ⟨hclosed, by simp only; omega⟩

variable (std) in
/-- One call. -/
theorem DepthsKnown.call_ok (hfirst : DepthsCounted first depth topDepth)
    (h : DepthsKnown first depth topDepth ms) (c : Call) :
    ∃ ms', ms.call std c = .ok ms' ∧ DepthsKnown first depth topDepth ms' := by
  cases c with
  | maxDepth =>
    obtain ⟨ms', hcall, hms'⟩ := h.maxDepth_ok hfirst
    exact ⟨ms', by rw [MemorySolver.call, hcall]; rfl, hms'⟩
  | maxTopDepth =>
    obtain ⟨ms', hcall, hms', -⟩ := h.maxTopDepth_ok hfirst
    exact ⟨ms', by rw [MemorySolver.call, hcall]; rfl, hms'⟩
  | solve =>
    obtain ⟨ret, ms', hcall, hms'⟩ := h.solve_ok std hfirst
    exact ⟨ms', by rw [MemorySolver.call, hcall]; rfl, hms'⟩

end Calls

end OpenVino.MKLDNNPlugin
