import OpenVino.MKLDNNPlugin.MemorySolver.Solver

/-!
# Life times after the renumbering

The constructor keeps of every time stamp the number of starting stamps below it (`usedTs`): a box that
lived in `[start, finish]` gets `[usedTs start, usedTs (finish + 1) - 1]` (`Box.compact`). The two running
counters are each `ts` less the starting stamps below it (`Skipped`), also after the reset of `ts_f`, so
one pass computes `Box.compact` (`renumberBox_eq`) and the loop does so for every box (`ofBoxes_eq`). Two
boxes meet afterwards exactly when they met before (`compact_start_le_finish`). `MemorySolver.WellFormed`
is what the depth and the placement use of the result: among others, each stamp up to a start starts a box.
-/

namespace OpenVino.MKLDNNPlugin

/-! ### Boxes the solver is called with -/

/-- What `MemorySolver` is promised about a box. -/
structure Box.Valid (b : Box) : Prop where
  size_nonneg : 0 ≤ b.size
  start_nonneg : 0 ≤ b.start
  start_le : b.start ≤ b.finish ∨ b.finish = -1

instance (b : Box) : Decidable b.Valid :=
  decidable_of_iff (0 ≤ b.size ∧ 0 ≤ b.start ∧ (b.start ≤ b.finish ∨ b.finish = -1))
    ⟨fun ⟨hsize, hstart, hle⟩ => ⟨hsize, hstart, hle⟩, fun h => ⟨h.size_nonneg, h.start_nonneg, h.start_le⟩⟩

/-- The life times intersect; `-1` is alive to the end. -/
def Box.Meets (b c : Box) : Prop :=
  (b.finish = -1 ∨ c.start ≤ b.finish) ∧ (c.finish = -1 ∨ b.start ≤ c.finish)

instance (b c : Box) : Decidable (b.Meets c) := inferInstanceAs (Decidable (_ ∧ _))

/-- A box whose `-1` is replaced. -/
structure Box.Closed (b : Box) : Prop where
  size_nonneg : 0 ≤ b.size
  start_nonneg : 0 ≤ b.start
  start_le : b.start ≤ b.finish

theorem le_maxTs (boxes : List Box) : 0 ≤ maxTs boxes ∧ ∀ b ∈ boxes, b.start ≤ maxTs boxes ∧
    b.finish ≤ maxTs boxes := by
  have hfold : ∀ (boxes : List Box) (m : Int),
      m ≤ boxes.foldl (fun max_ts box => max (max max_ts box.start) box.finish) m ∧
      ∀ b ∈ boxes, b.start ≤ boxes.foldl (fun max_ts box => max (max max_ts box.start) box.finish) m ∧
        b.finish ≤ boxes.foldl (fun max_ts box => max (max max_ts box.start) box.finish) m := by
    intro boxes
    induction boxes with
    | nil => simp
    | cons b boxes ih =>
      intro m
      obtain ⟨hm, hrest⟩ := ih (max (max m b.start) b.finish)
      simp only [List.foldl_cons]
      refine ⟨by omega, fun c hc => ?_⟩
      rcases List.mem_cons.mp hc with rfl | hc
      · omega
      · exact hrest c hc
  exact hfold boxes 0

theorem Box.Meets.symm {b c : Box} (h : b.Meets c) : c.Meets b := And.symm h

theorem Box.Valid.close {b : Box} {boxes : List Box} (hv : b.Valid) (hb : b ∈ boxes) :
    (b.close (maxTs boxes)).Closed := by
  obtain ⟨-, hmax⟩ := le_maxTs boxes
  have := hmax b hb
  have hstart := hv.start_le
  unfold Box.close
  split_ifs with hend
  · exact ⟨hv.size_nonneg, hv.start_nonneg, this.1⟩
  · exact ⟨hv.size_nonneg, hv.start_nonneg, by omega⟩

@[simp] theorem Box.close_start (m : Int) (b : Box) : (b.close m).start = b.start := by
  unfold Box.close
  split <;> rfl

theorem Box.Meets.close {b c : Box} {boxes : List Box} (h : b.Meets c) (hc : c ∈ boxes) :
    (c.close (maxTs boxes)).start ≤ (b.close (maxTs boxes)).finish := by
  obtain ⟨-, hmax⟩ := le_maxTs boxes
  have := hmax c hc
  obtain ⟨h, -⟩ := h
  rw [Box.close_start]
  unfold Box.close
  split_ifs with hend
  · exact this.1
  · omega

@[simp] theorem Box.close_id (m : Int) (b : Box) : (b.close m).id = b.id := by
  unfold Box.close
  split <;> rfl

@[simp] theorem Box.close_size (m : Int) (b : Box) : (b.close m).size = b.size := by
  unfold Box.close
  split <;> rfl

/-! ### Counting the starting stamps -/

section Counting

variable {ts_exist : Int → Bool}

/-- The starting stamps below `ts`. -/
def usedTs (ts_exist : Int → Bool) (ts : Int) : Int :=
  (Nat.count (fun k : Nat => ts_exist k = true) ts.toNat : Int)

theorem usedTs_nonneg (ts : Int) : 0 ≤ usedTs ts_exist ts := Int.natCast_nonneg _

theorem usedTs_mono {s t : Int} (h : s ≤ t) : usedTs ts_exist s ≤ usedTs ts_exist t := by
  have := Nat.count_monotone (fun k : Nat => ts_exist k = true) (Int.toNat_le_toNat h)
  unfold usedTs
  omega

theorem usedTs_succ {ts : Int} (h : 0 ≤ ts) :
    usedTs ts_exist (ts + 1) = usedTs ts_exist ts + if ts_exist ts then 1 else 0 := by
  have hcast : ((ts.toNat : Nat) : Int) = ts := Int.toNat_of_nonneg h
  unfold usedTs
  rw [show (ts + 1).toNat = ts.toNat + 1 by omega, Nat.count_succ, hcast]
  split <;> simp

/-- A starting stamp is counted from the next stamp on. -/
theorem usedTs_lt {s t : Int} (hs : 0 ≤ s) (hex : ts_exist s) (h : s < t) :
    usedTs ts_exist s < usedTs ts_exist t := by
  have hmono : usedTs ts_exist (s + 1) ≤ usedTs ts_exist t := usedTs_mono h
  rw [usedTs_succ hs, if_pos hex] at hmono
  omega

/-- Every number below `usedTs t` is the new value of a starting stamp below `t`. -/
theorem exists_usedTs_eq {t n : Int} (hn : 0 ≤ n) (h : n < usedTs ts_exist t) :
    ∃ s, 0 ≤ s ∧ s < t ∧ ts_exist s ∧ usedTs ts_exist s = n := by
  have hgrow : ∀ k : Nat, n < usedTs ts_exist k →
      ∃ s : Int, 0 ≤ s ∧ s < k ∧ ts_exist s ∧ usedTs ts_exist s = n := by
    intro k
    induction k with
    | zero =>
      intro h
      simp [usedTs] at h
      omega
    | succ k ih =>
      intro h
      push_cast at h ⊢
      rw [usedTs_succ (Int.natCast_nonneg k)] at h
      by_cases hlt : n < usedTs ts_exist k
      · obtain ⟨s, hs, hsk, hex, heq⟩ := ih hlt
        exact ⟨s, hs, by omega, hex, heq⟩
      · have hex : ts_exist k = true := by
          by_contra hne
          rw [if_neg hne] at h
          omega
        rw [if_pos hex] at h
        exact ⟨k, Int.natCast_nonneg k, by omega, hex, by omega⟩
  by_cases ht : 0 ≤ t
  · have hcast : ((t.toNat : Nat) : Int) = t := Int.toNat_of_nonneg ht
    have := hgrow t.toNat
    rw [hcast] at this
    exact this h
  · have hzero : t.toNat = 0 := by omega
    simp [usedTs, hzero] at h
    omega

end Counting

/-! ### One pass -/

section Renumbering

variable {ts_exist : Int → Bool} {c : Renumbering} {b : Box}

/-- `rm_ts` counts the stamps below `ts` that start no box. -/
def Skipped (ts_exist : Int → Bool) (c : Int × Int) : Prop := 0 ≤ c.1 ∧ c.2 = c.1 - usedTs ts_exist c.1

theorem skipUnused_eq {c : Int × Int} (h : Skipped ts_exist c) (n : Nat) :
    (skipUnused ts_exist n c).1 = c.1 + n ∧ Skipped ts_exist (skipUnused ts_exist n c) := by
  induction n generalizing c with
  | zero => exact ⟨by simp [skipUnused], h⟩
  | succ n ih =>
    obtain ⟨ts, rm_ts⟩ := c
    obtain ⟨hts, hrm⟩ := h
    have hnext : Skipped ts_exist (ts + 1, if ts_exist ts then rm_ts else rm_ts + 1) := by
      refine ⟨by simp only at hts ⊢; omega, ?_⟩
      simp only at hrm hts ⊢
      rw [usedTs_succ hts]
      split <;> omega
    obtain ⟨hfst, hskip⟩ := ih hnext
    refine ⟨?_, hskip⟩
    rw [skipUnused, hfst]
    push_cast
    omega

/-- Skipping up to `stop`, from a stamp that is not beyond it. -/
theorem skipUnused_to {ts rm_ts stop : Int} (h : Skipped ts_exist (ts, rm_ts)) (hle : ts ≤ stop) :
    skipUnused ts_exist (stop - ts).toNat (ts, rm_ts) = (stop, stop - usedTs ts_exist stop) := by
  obtain ⟨hfst, -, hsnd⟩ := skipUnused_eq h (stop - ts).toNat
  have hstop : (skipUnused ts_exist (stop - ts).toNat (ts, rm_ts)).1 = stop := by
    rw [hfst]
    simp only
    omega
  rw [hstop] at hsnd
  exact Prod.ext hstop hsnd

/-- A box between the renumbered stamps. -/
def Box.compact (ts_exist : Int → Bool) (b : Box) : Box :=
  { b with start := usedTs ts_exist b.start, finish := usedTs ts_exist (b.finish + 1) - 1 }

/-- The counters after a box `b`. -/
def Renumbering.after (ts_exist : Int → Bool) (b : Box) : Renumbering :=
  ⟨b.start, b.start - usedTs ts_exist b.start, b.finish + 1, b.finish + 1 - usedTs ts_exist (b.finish + 1)⟩

structure Renumbering.Inv (ts_exist : Int → Bool) (c : Renumbering) : Prop where
  s : Skipped ts_exist (c.ts_s, c.rm_ts_s)
  f : Skipped ts_exist (c.ts_f, c.rm_ts_f)

theorem Renumbering.inv_after (hb : b.Closed) : (Renumbering.after ts_exist b).Inv ts_exist := by
  have := hb.start_nonneg
  have := hb.start_le
  exact ⟨⟨by simp only [after]; omega, rfl⟩, ⟨by simp only [after]; omega, rfl⟩⟩

/-- **One pass of the renumbering loop**, for a box that starts at or after the stamp reached so far. -/
theorem renumberBox_eq (hc : c.Inv ts_exist) (hb : b.Closed) (hle : c.ts_s ≤ b.start) :
    renumberBox ts_exist c b = (.after ts_exist b, b.compact ts_exist) := by
  have hstart := skipUnused_to hc.s hle
  have hskipped : Skipped ts_exist (b.start, b.start - usedTs ts_exist b.start) := ⟨hb.start_nonneg, rfl⟩
  have hbox : b.finish - (b.finish + 1 - usedTs ts_exist (b.finish + 1)) =
      usedTs ts_exist (b.finish + 1) - 1 := by omega
  have hsle := hb.start_le
  simp only [renumberBox, hstart]
  -- with or without the reset, `ts_f` is at most `finish + 1` before the second loop
  split_ifs with hreset
  · rw [skipUnused_to hskipped (by omega)]
    simp only [Renumbering.after, Box.compact, hbox, Int.sub_sub_self]
  · rw [skipUnused_to hc.f (by omega)]
    simp only [Renumbering.after, Box.compact, hbox, Int.sub_sub_self]

/-- **The renumbering loop** on boxes in order of their starts. -/
theorem renumber_eq {boxes : List Box} (hc : c.Inv ts_exist) (hclosed : ∀ b ∈ boxes, b.Closed)
    (hle : ∀ b ∈ boxes, c.ts_s ≤ b.start) (hsorted : boxes.Pairwise fun a b => a.start ≤ b.start) :
    renumber ts_exist c boxes =
      ((boxes.getLast?.map (Renumbering.after ts_exist)).getD c, boxes.map (Box.compact ts_exist)) := by
  induction boxes generalizing c with
  | nil => rfl
  | cons b boxes ih =>
    have hb : b.Closed := hclosed b List.mem_cons_self
    obtain ⟨hfirst, hrest⟩ := List.pairwise_cons.mp hsorted
    have hpass := renumberBox_eq hc hb (hle b List.mem_cons_self)
    have hloop := ih (c := .after ts_exist b) (Renumbering.inv_after hb)
      (fun d hd => hclosed d (List.mem_cons_of_mem _ hd)) (fun d hd => hfirst d hd) hrest
    rw [renumber, hpass]
    simp only [hloop]
    rw [List.getLast?_cons]
    cases hlast : boxes.getLast? <;> rfl

end Renumbering

/-! ### The constructed solver -/

section OfBoxes

variable {std : StdSort Box} {boxes : List Box} {b c : Box}

theorem startsBefore_strictWeak : StrictWeakOrder Box.startsBefore where
  total a b := by
    simp only [Box.startsBefore, decide_eq_false_iff_not]
    omega
  trans a b c hab hbc := by
    simp only [Box.startsBefore, decide_eq_false_iff_not] at hab hbc ⊢
    omega

theorem tsExist_iff {ts : Int} : tsExist boxes ts ↔ ∃ b ∈ boxes, b.start = ts := by
  simp [tsExist]

/-- The boxes between the replacement of `-1` and the renumbering, in order. -/
def sortedBoxes (std : StdSort Box) (boxes : List Box) : List Box :=
  std.sort Box.startsBefore (boxes.map (Box.close (maxTs boxes)))

theorem mem_sortedBoxes : c ∈ sortedBoxes std boxes ↔ ∃ b ∈ boxes, b.close (maxTs boxes) = c := by
  rw [sortedBoxes, std.mem_sort, List.mem_map]

variable (std) in
theorem sortedBoxes_closed (h : ∀ b ∈ boxes, b.Valid) (hc : c ∈ sortedBoxes std boxes) : c.Closed := by
  obtain ⟨b, hb, rfl⟩ := mem_sortedBoxes.mp hc
  exact (h b hb).close hb

variable (std) in
theorem sortedBoxes_sorted : (sortedBoxes std boxes).Pairwise fun a b => a.start ≤ b.start := by
  refine (std.sorted _ _ startsBefore_strictWeak).imp fun {a b} h => ?_
  simp only [Box.startsBefore, decide_eq_false_iff_not] at h
  omega

/-- The stamp that a box of the list gets instead of its start is below the one instead of the finish of
each box that it meets. -/
theorem compact_start_le_finish {l : List Box} (hb : b.Closed) (hl : b ∈ l) :
    (b.compact (tsExist l)).start ≤ (c.compact (tsExist l)).finish ↔ b.start ≤ c.finish := by
  have hstart := hb.start_nonneg
  have hex : tsExist l b.start := tsExist_iff.mpr ⟨b, hl, rfl⟩
  simp only [Box.compact]
  constructor
  · intro h
    by_contra hlt
    have : usedTs (tsExist l) (c.finish + 1) ≤ usedTs (tsExist l) b.start := usedTs_mono (by omega)
    omega
  · intro h
    have := usedTs_lt hstart hex (t := c.finish + 1) (by omega)
    omega

theorem Box.Closed.compact {l : List Box} (hb : b.Closed) (hl : b ∈ l) : (b.compact (tsExist l)).Closed where
  size_nonneg := hb.size_nonneg
  start_nonneg := usedTs_nonneg _
  start_le := (compact_start_le_finish hb hl).mpr hb.start_le

variable (std) in
/-- **The renumbered boxes** of the constructed solver, and its `_time_duration`. -/
theorem ofBoxes_eq (h : ∀ b ∈ boxes, b.Valid) :
    MemorySolver.ofBoxes std boxes =
      { boxes := (sortedBoxes std boxes).map (Box.compact (tsExist (sortedBoxes std boxes)))
        timeDuration := ((sortedBoxes std boxes).getLast?.map fun b =>
          usedTs (tsExist (sortedBoxes std boxes)) (b.finish + 1)).getD 0 } := by
  have hinit : Renumbering.Inv (tsExist (sortedBoxes std boxes)) {} := ⟨⟨le_rfl, rfl⟩, ⟨le_rfl, rfl⟩⟩
  have hloop := renumber_eq hinit (fun b hb => sortedBoxes_closed std h hb)
    (fun b hb => (sortedBoxes_closed std h hb).start_nonneg) (sortedBoxes_sorted std)
  simp only [MemorySolver.ofBoxes]
  rw [← sortedBoxes, hloop]
  cases (sortedBoxes std boxes).getLast? with
  | none => rfl
  | some b =>
    have hduration : b.finish + 1 - (b.finish + 1 - usedTs (tsExist (sortedBoxes std boxes)) (b.finish + 1)) =
        usedTs (tsExist (sortedBoxes std boxes)) (b.finish + 1) := Int.sub_sub_self _ _
    simp only [Option.map_some, Option.getD_some, Renumbering.after, hduration]

/-- What the constructor makes of a box of the list. -/
def newLife (std : StdSort Box) (boxes : List Box) (b : Box) : Box :=
  (b.close (maxTs boxes)).compact (tsExist (sortedBoxes std boxes))

@[simp] theorem newLife_id : (newLife std boxes b).id = b.id := Box.close_id _ _

@[simp] theorem newLife_size : (newLife std boxes b).size = b.size := Box.close_size _ _

variable (std) in
theorem ofBoxes_perm (h : ∀ b ∈ boxes, b.Valid) :
    (MemorySolver.ofBoxes std boxes).boxes.Perm (boxes.map (newLife std boxes)) := by
  rw [ofBoxes_eq std h]
  have := (std.perm Box.startsBefore (boxes.map (Box.close (maxTs boxes)))).map
    (Box.compact (tsExist (sortedBoxes std boxes)))
  rwa [List.map_map] at this

theorem newLife_start_le_finish (h : ∀ b ∈ boxes, b.Valid) (hmeets : b.Meets c) (hc : c ∈ boxes) :
    (newLife std boxes c).start ≤ (newLife std boxes b).finish := by
  have hmem : c.close (maxTs boxes) ∈ sortedBoxes std boxes := mem_sortedBoxes.mpr ⟨c, hc, rfl⟩
  exact (compact_start_le_finish (sortedBoxes_closed std h hmem) hmem).mpr (hmeets.close hc)

/-- What the rest of the solver uses of a constructed one. -/
structure MemorySolver.WellFormed (ms : MemorySolver) : Prop where
  closed : ∀ b ∈ ms.boxes, b.Closed
  sorted : ms.boxes.Pairwise fun a b => a.start ≤ b.start
  /-- the starts have no gap -/
  start_below : ∀ b ∈ ms.boxes, ∀ t, 0 ≤ t → t < b.start → ∃ c ∈ ms.boxes, c.start = t
  finish_lt : ∀ b ∈ ms.boxes, b.finish < ms.timeDuration

variable (std) in
theorem ofBoxes_wellFormed (h : ∀ b ∈ boxes, b.Valid) : (MemorySolver.ofBoxes std boxes).WellFormed := by
  rw [ofBoxes_eq std h]
  have hclosed : ∀ b ∈ sortedBoxes std boxes, b.Closed := fun b hb => sortedBoxes_closed std h hb
  have hsorted : (sortedBoxes std boxes).Pairwise fun a b => a.start ≤ b.start := sortedBoxes_sorted std
  revert hclosed hsorted
  generalize sortedBoxes std boxes = l
  intro hclosed hsorted
  refine ⟨fun b hb => ?_, ?_, fun b hb t ht hlt => ?_, fun b hb => ?_⟩
  · obtain ⟨a, ha, rfl⟩ := List.mem_map.mp hb
    exact (hclosed a ha).compact ha
  · exact List.pairwise_map.mpr (hsorted.imp fun h => usedTs_mono h)
  · obtain ⟨a, ha, rfl⟩ := List.mem_map.mp hb
    obtain ⟨s, -, -, hex, heq⟩ := exists_usedTs_eq ht hlt
    obtain ⟨c, hc, rfl⟩ := tsExist_iff.mp hex
    exact ⟨_, List.mem_map_of_mem hc, heq⟩
  · obtain ⟨a, ha, rfl⟩ := List.mem_map.mp hb
    obtain ⟨last, hlast⟩ : ∃ last, l.getLast? = some last :=
      Option.isSome_iff_exists.mp (by simpa using List.ne_nil_of_mem ha)
    have hend := hclosed last (List.mem_of_getLast? hlast)
    have hmax : ∀ d ∈ l, d.start ≤ last.start := by
      obtain ⟨pre, rfl⟩ := List.getLast?_eq_some_iff.mp hlast
      intro d hd
      rcases List.mem_append.mp hd with hd | hd
      · exact (List.pairwise_append.mp hsorted).2.2 d hd last (List.mem_singleton_self _)
      · rw [List.mem_singleton.mp hd]
    simp only [hlast, Option.map_some, Option.getD_some, Box.compact]
    -- a stamp counted beyond `last.finish` would start a box after the last one
    by_contra hge
    have hlt : usedTs (tsExist l) (last.finish + 1) < usedTs (tsExist l) (a.finish + 1) := by omega
    obtain ⟨s, hs, -, hex, heq⟩ := exists_usedTs_eq (usedTs_nonneg _) hlt
    obtain ⟨d, hd, rfl⟩ := tsExist_iff.mp hex
    have hdle := hmax d hd
    have := usedTs_lt hs hex (t := last.finish + 1) (by have := hend.start_le; omega)
    omega

end OfBoxes

end OpenVino.MKLDNNPlugin
