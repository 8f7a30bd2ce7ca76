import OpenVino.MKLDNNPlugin.MemorySolver.LifeTimes

/-!
# The depth of a list of boxes

`heldSum w now boxes` is what the boxes passed so far and not yet released weigh at the stamp `now`. It is
the invariant of the loop of `calcDepth` (`DepthCount.Inv`), for the sizes and for the number of boxes: as
the starts have no gap, the stamp of the next box is `now` or `now + 1`, so no release is missed
(`countBox_ok`). At each stamp it is at most `liveSum`, the weight of all boxes alive at that stamp, and after the
last box of a start it is that weight, so the loop finds the greatest one (`Raised`, `countBoxes_ok`).
-/

namespace OpenVino.MKLDNNPlugin

section Sums

variable {w : Box → Int} {now t : Int} {l done : List Box} {b : Box}

/-- The weight of the boxes that are not released at `now`. -/
def heldSum (w : Box → Int) (now : Int) (l : List Box) : Int :=
  ((l.filter fun b => now ≤ b.finish).map w).sum

/-- The weight of the boxes alive at `t`. -/
def liveSum (w : Box → Int) (t : Int) (l : List Box) : Int :=
  ((l.filter fun b => b.start ≤ t ∧ t ≤ b.finish).map w).sum

theorem sum_map_filter_nonneg {p : Box → Bool} (hw : ∀ b ∈ l, 0 ≤ w b) : 0 ≤ ((l.filter p).map w).sum := by
  refine List.sum_nonneg fun x hx => ?_
  obtain ⟨b, hb, rfl⟩ := List.mem_map.mp hx
  exact hw b (List.mem_of_mem_filter hb)

theorem sum_map_one (l : List Box) : (l.map fun _ => (1 : Int)).sum = l.length := by
  simp

/-- What is left of a sum when the elements that do not meet `p` are taken out one by one. -/
theorem foldl_sub_filter (p : Box → Bool) (l : List Box) (x : Int) :
    (l.filter fun b => !p b).foldl (fun x b => x - w b) (x + (l.map w).sum) =
      x + ((l.filter p).map w).sum := by
  induction l generalizing x with
  | nil => simp
  | cons b l ih =>
    by_cases hp : p b
    · have := ih (x + w b)
      simp only [hp, List.filter_cons, Bool.not_true, Bool.false_eq_true, if_false, if_true, List.map_cons,
        List.sum_cons, ← add_assoc] at this ⊢
      exact this
    · have hx : x + (w b + (l.map w).sum) - w b = x + (l.map w).sum := by omega
      simp only [hp, List.filter_cons, Bool.not_false, Bool.false_eq_true, if_false, if_true, List.map_cons,
        List.sum_cons, List.foldl_cons, hx]
      exact ih x

theorem heldSum_le_liveSum (hstart : ∀ b ∈ done, b.start ≤ t) (hw : ∀ b ∈ l, 0 ≤ w b) :
    heldSum w t done ≤ liveSum w t (done ++ l) := by
  have hsame : done.filter (fun b => b.start ≤ t ∧ t ≤ b.finish) = done.filter (fun b => t ≤ b.finish) :=
    List.filter_congr fun b hb => by simp [hstart b hb]
  have hrest := sum_map_filter_nonneg (p := fun b => b.start ≤ t ∧ t ≤ b.finish) hw
  unfold heldSum liveSum
  rw [List.filter_append, List.map_append, List.sum_append, hsame]
  omega

end Sums

/-! ### One pass -/

section Count

variable {s s' : DepthCount} {now : Int} {done rest : List Box} {box : Box}

/-- The state of `calcDepth` after the boxes `done`, the last of which starts at `now`. -/
structure DepthCount.Inv (s : DepthCount) (done : List Box) (now : Int) : Prop where
  release_at : s.release_at = (done.filter fun b => now ≤ b.finish).map fun b => (b.finish + 1, b)
  depth : s.depth = heldSum Box.size now done
  top_depth : s.top_depth = heldSum (fun _ => 1) now done

/-- A box of the list `l` is released at the stamp `time`, and kept otherwise. -/
theorem released_eq (l : List Box) (time : Int) :
    ((l.map fun b => (b.finish + 1, b)).filter (·.1 = time)).map (·.2) =
      l.filter fun b => !decide (b.finish + 1 ≠ time) := by
  simp [List.filter_map, Function.comp_def]

theorem kept_eq (l : List Box) (time : Int) :
    (l.map fun b => (b.finish + 1, b)).filter (·.1 ≠ time) =
      (l.filter fun b => b.finish + 1 ≠ time).map fun b => (b.finish + 1, b) := by
  simp [List.filter_map, Function.comp_def]

/-- The boxes held at the stamp of the next box: no stamp is skipped, so the ones released are those that
are not alive any more. -/
theorem held_next (hbox : box.Closed) (hnow : now ≤ box.start) (hgap : box.start ≤ now + 1 ∨ done = []) :
    ((done.filter fun b => now ≤ b.finish) ++ [box]).filter (fun b => b.finish + 1 ≠ box.start) =
      (done ++ [box]).filter fun b => box.start ≤ b.finish := by
  have hend := hbox.start_le
  rw [List.filter_append, List.filter_append, List.filter_filter]
  congr 1
  · rcases hgap with hgap | rfl
    · refine List.filter_congr fun b _ => ?_
      rw [← Bool.decide_and, decide_eq_decide]
      omega
    · rfl
  · rw [List.filter_singleton, List.filter_singleton]
    have hkept : box.finish + 1 ≠ box.start := by omega
    simp [hkept, hend]

theorem heldSum_append_self (w : Box → Int) (hbox : box.Closed) :
    heldSum w box.start (done ++ [box]) = heldSum w box.start done + w box := by
  have hend := hbox.start_le
  simp [heldSum, List.filter_append, hend]

/-- **One pass of `calcDepth`**: the assertion holds, and the counters are those of the new stamp. -/
theorem countBox_ok (hs : s.Inv done now) (hbox : box.Closed) (hnow : now ≤ box.start)
    (hgap : box.start ≤ now + 1 ∨ done = []) :
    ∃ s', countBox s box = .ok s' ∧ s'.Inv (done ++ [box]) box.start ∧
      s'.maxDepth = max s.maxDepth s'.depth ∧ s'.maxTopDepth = max s.maxTopDepth s'.top_depth := by
  have hheld := held_next hbox hnow hgap
  generalize hl : (done.filter fun b => now ≤ b.finish) ++ [box] = l at hheld
  have hpush : s.release_at ++ [(box.finish + 1, box)] = l.map fun b => (b.finish + 1, b) := by
    rw [hs.release_at, ← hl, List.map_append, List.map_singleton]
  have hkeep : (l.map fun b => (b.finish + 1, b)).filter (·.1 ≠ box.start) =
      ((done ++ [box]).filter fun b => box.start ≤ b.finish).map fun b => (b.finish + 1, b) := by
    rw [kept_eq, hheld]
  -- for either weight, adding the box and taking out the released ones gives the new sum
  have hsum : ∀ w : Box → Int,
      (((l.map fun b => (b.finish + 1, b)).filter (·.1 = box.start)).map (·.2)).foldl
        (fun x b => x - w b) (heldSum w now done + w box) = heldSum w box.start (done ++ [box]) := by
    intro w
    have htotal : heldSum w now done + w box = 0 + (l.map w).sum := by
      simp [heldSum, ← hl]
    rw [released_eq, htotal, foldl_sub_filter, hheld, heldSum, Int.zero_add]
  have htop : 0 < heldSum (fun _ => 1) box.start (done ++ [box]) := by
    rw [heldSum_append_self _ hbox]
    have : 0 ≤ heldSum (fun _ => 1) box.start done := sum_map_filter_nonneg fun _ _ => by decide
    omega
  have hdepth := hsum Box.size
  have htop_depth := hsum fun _ => 1
  rw [← hs.depth] at hdepth
  rw [← hs.top_depth] at htop_depth
  refine ⟨⟨_, _, _, max s.maxTopDepth _, max s.maxDepth _⟩, ?_, ⟨rfl, rfl, rfl⟩, rfl, rfl⟩
  simp only [countBox, hpush, hdepth, htop_depth, hkeep, ieAssert, gt_iff_lt, if_pos htop]
  rfl

/-! ### All passes -/

/-- The starts of the boxes have no gap. -/
def NoGap (l : List Box) : Prop := ∀ b ∈ l, ∀ t, 0 ≤ t → t < b.start → ∃ c ∈ l, c.start = t

/-- A running maximum goes from `m` to `m'` over the boxes `rest` of the list `l`: it is then at least what is
alive at each of their starts, and it has been raised to no more than that. -/
structure Raised (w : Box → Int) (l rest : List Box) (m m' : Int) : Prop where
  le : m ≤ m'
  bound : ∀ b ∈ rest, liveSum w b.start l ≤ m'
  attained : m' = m ∨ ∃ b ∈ rest, m' ≤ liveSum w b.start l

/-- What is held after the last box of a start is all that is alive there. -/
theorem heldSum_eq_liveSum {w : Box → Int} (hdone : ∀ b ∈ done, b.start ≤ now) (hrest : ∀ b ∈ rest, now < b.start) :
    heldSum w now done = liveSum w now (done ++ rest) := by
  have hsame : done.filter (fun b => b.start ≤ now ∧ now ≤ b.finish) = done.filter (fun b => now ≤ b.finish) :=
    List.filter_congr fun b hb => by simp [hdone b hb]
  have hnone : rest.filter (fun b => b.start ≤ now ∧ now ≤ b.finish) = [] := by
    rw [List.filter_eq_nil_iff]
    intro b hb
    have := hrest b hb
    simp only [decide_eq_true_eq]
    omega
  rw [heldSum, liveSum, List.filter_append, hsame, hnone, List.append_nil]

/-- One raise, to what is held at the start of `box`. -/
theorem Raised.cons {w : Box → Int} {l : List Box} {m m' : Int} (hl : l = done ++ [box] ++ rest)
    (hw : ∀ b ∈ rest, 0 ≤ w b) (hdone : ∀ b ∈ done ++ [box], b.start ≤ box.start)
    (hrest : ∀ b ∈ rest, box.start ≤ b.start)
    (h : Raised w l rest (max m (heldSum w box.start (done ++ [box]))) m') : Raised w l (box :: rest) m m' := by
  have hmax := h.le
  have hheld : heldSum w box.start (done ++ [box]) ≤ liveSum w box.start l := by
    rw [hl]
    exact heldSum_le_liveSum hdone hw
  refine ⟨by omega, fun b hb => ?_, ?_⟩
  · rcases List.mem_cons.mp hb with rfl | hb
    · by_cases hnext : ∃ c ∈ rest, c.start = b.start
      · obtain ⟨c, hc, hstart⟩ := hnext
        rw [← hstart]
        exact h.bound c hc
      · have hlt : ∀ c ∈ rest, b.start < c.start := by
          intro c hc
          have hle := hrest c hc
          have hne : c.start ≠ b.start := fun heq => hnext ⟨c, hc, heq⟩
          omega
        have hall := heldSum_eq_liveSum (w := w) hdone hlt
        rw [hl, ← hall]
        omega
    · exact h.bound b hb
  · rcases h.attained with heq | ⟨b, hb, hle⟩
    · by_cases hm : m' = m
      · exact .inl hm
      · exact .inr ⟨box, List.mem_cons_self, by omega⟩
    · exact .inr ⟨b, List.mem_cons_of_mem _ hb, hle⟩

/-- **The loop of `calcDepth`** returns; it raises each maximum to the greatest live sum at the start of a box. -/
theorem countBoxes_ok (hs : s.Inv done now) (hnow : 0 ≤ now) (hdone : ∀ b ∈ done, b.start ≤ now)
    (hclosed : ∀ b ∈ done ++ rest, b.Closed) (hle : ∀ b ∈ rest, now ≤ b.start)
    (hsorted : rest.Pairwise fun a b => a.start ≤ b.start) (hgap : NoGap (done ++ rest)) :
    ∃ s', rest.foldlM countBox s = .ok s' ∧ Raised Box.size (done ++ rest) rest s.maxDepth s'.maxDepth ∧
      Raised (fun _ => 1) (done ++ rest) rest s.maxTopDepth s'.maxTopDepth := by
  induction rest generalizing s done now with
  | nil => exact ⟨s, rfl, ⟨le_rfl, by simp, .inl rfl⟩, ⟨le_rfl, by simp, .inl rfl⟩⟩
  | cons box rest ih =>
    have hbox := hclosed box (by simp)
    obtain ⟨hfirst, hrest⟩ := List.pairwise_cons.mp hsorted
    have hnext : box.start ≤ now + 1 ∨ done = [] := by
      by_contra hskip
      rw [not_or, not_le] at hskip
      obtain ⟨c, hc, hcstart⟩ := hgap box (by simp) (now + 1) (by omega) hskip.1
      rcases List.mem_append.mp hc with hc | hc
      · have := hdone c hc
        omega
      · rcases List.mem_cons.mp hc with rfl | hc
        · omega
        · have := hfirst c hc
          omega
    obtain ⟨s₁, hpass, hs₁, hdepth, htop⟩ := countBox_ok hs hbox (hle box List.mem_cons_self) hnext
    have happ : done ++ box :: rest = done ++ [box] ++ rest := by simp
    rw [happ] at hclosed hgap ⊢
    have hdone₁ : ∀ b ∈ done ++ [box], b.start ≤ box.start := by
      intro b hb
      rcases List.mem_append.mp hb with hb | hb
      · exact (hdone b hb).trans (hle box List.mem_cons_self)
      · rw [List.mem_singleton.mp hb]
    obtain ⟨s', hloop, hsize, hone⟩ := ih hs₁ hbox.start_nonneg hdone₁ hclosed hfirst hrest hgap
    rw [hdepth, hs₁.depth] at hsize
    rw [htop, hs₁.top_depth] at hone
    refine ⟨s', ?_, hsize.cons rfl ?_ hdone₁ hfirst, hone.cons rfl (fun _ _ => by decide) hdone₁ hfirst⟩
    · rw [List.foldlM_cons, hpass]
      exact hloop
    · exact fun b hb => (hclosed b (List.mem_append_right _ hb)).size_nonneg

/-- A maximum that was unset is at most each bound of the live sums. -/
theorem Raised.le_of_liveSum_le {w : Box → Int} {l : List Box} {depth m : Int} (h : Raised w l l (-1) depth)
    (hm : 0 ≤ m) (hlive : ∀ t, liveSum w t l ≤ m) : depth ≤ m := by
  rcases h.attained with rfl | ⟨b, -, hle⟩
  · omega
  · exact hle.trans (hlive b.start)

theorem Raised.nonneg {w : Box → Int} {l : List Box} {depth : Int} (h : Raised w l l (-1) depth)
    (hw : ∀ b ∈ l, 0 ≤ w b) (hne : l ≠ []) : 0 ≤ depth := by
  obtain ⟨b, hb⟩ := List.exists_mem_of_ne_nil l hne
  exact (sum_map_filter_nonneg hw).trans (h.bound b hb)

/-- A box is alive at its own start. -/
theorem Raised.pos {l : List Box} {topDepth : Int} (h : Raised (fun _ => 1) l l (-1) topDepth)
    (hclosed : ∀ b ∈ l, b.start ≤ b.finish) (hne : l ≠ []) : 0 < topDepth := by
  obtain ⟨b, hb⟩ := List.exists_mem_of_ne_nil l hne
  have halive : b ∈ l.filter fun c => c.start ≤ b.start ∧ b.start ≤ c.finish :=
    List.mem_filter.mpr ⟨hb, by simpa using hclosed b hb⟩
  have hlen := List.length_pos_of_mem halive
  have hbound := h.bound b hb
  rw [liveSum, sum_map_one] at hbound
  omega

end Count

namespace MemorySolver

variable {ms : MemorySolver}

/-- **`calcDepth`** on a constructed solver. -/
theorem WellFormed.calcDepth_ok (h : ms.WellFormed) :
    ∃ topDepth depth, ms.calcDepth = .ok { ms with topDepth, depth } ∧
      Raised Box.size ms.boxes ms.boxes ms.depth depth ∧
      Raised (fun _ => 1) ms.boxes ms.boxes ms.topDepth topDepth := by
  have hinit : DepthCount.Inv { maxTopDepth := ms.topDepth, maxDepth := ms.depth } [] 0 := ⟨rfl, rfl, rfl⟩
  obtain ⟨s', hloop, hsize, hone⟩ := countBoxes_ok hinit le_rfl (by simp) h.closed
    (fun b hb => (h.closed b hb).start_nonneg) h.sorted h.start_below
  refine ⟨s'.maxTopDepth, s'.maxDepth, ?_, hsize, hone⟩
  rw [calcDepth, hloop]
  rfl

end MemorySolver

end OpenVino.MKLDNNPlugin
