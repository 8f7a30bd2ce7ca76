import OpenVino.Vpu.Hw.Tiling
import Mathlib.Algebra.Order.Ring.Int
import Mathlib.Tactic.Ring
import Mathlib.Tactic.Linarith

/-!
# `splitIntoPlaneTiles` is a tiling

The input of a tile for the output range from `a` on starts at `T`, where `outputJunkBefore * kernelStride =
a * kernelStride - T` (`StartOf`): the local line `outputJunkBefore + k` of the tile and the line `a + k`
of the whole operation are at the same distance from their inputs. What is left is the border: a kept
line reaches below `T` only where the image ends, and past the end of the tile's input only where the
image ends (`HwPlaneTileInfo.SameWindows`). The number of output lines of the tile is `junkAfter`, which
counts the kernels that fit into the padding behind the last kept line (`calcOutputSize_tile`).
-/

namespace OpenVino.Vpu

section

variable {inputSize outputSize kernelSize kernelStride padBefore padAfter maxOutputSize : Int}
  {useCeil : Bool} {a e : Int}

/-! ### The inner loops -/

theorem stepDown_eq (hs : 1 ≤ kernelStride) {fuel : Nat} {x : Int} (hx : 0 ≤ x) (hfuel : x < fuel) :
    stepDown kernelStride fuel x = .ok (x % kernelStride) := by
  induction fuel generalizing x with
  | zero => simp only [Nat.cast_zero] at hfuel; omega
  | succ fuel ih =>
    push_cast at hfuel
    unfold stepDown
    split_ifs with hge
    · rw [ih (by omega) (by omega), Int.sub_emod_right]
    · rw [Int.emod_eq_of_lt hx (by omega)]
      rfl

theorem countJunk_eq (hs : 1 ≤ kernelStride) {fuel : Nat} {x j : Int} (hfuel : padAfter - x < fuel)
    (hpos : 0 < fuel) :
    countJunk kernelStride padAfter fuel x j = .ok (j + max 0 (padAfter - x) / kernelStride) := by
  induction fuel generalizing x j with
  | zero => exact absurd hpos (Nat.lt_irrefl 0)
  | succ fuel ih =>
    push_cast at hfuel
    unfold countJunk
    split_ifs with hle
    · have hstep : padAfter - x = padAfter - (x + kernelStride) + 1 * kernelStride := by ring
      rw [ih (by omega) (by omega), max_eq_right (by omega), max_eq_right (by omega), hstep,
        Int.add_mul_ediv_right _ _ (by omega)]
      congr 1
      omega
    · rw [Int.ediv_eq_zero_of_lt (le_max_left _ _) (by omega), Int.add_zero]
      rfl

/-! ### One tile -/

/-- The junk lines `before` and the start `T` of the input, for output lines from `a` on; `lines` is
`inputLinesBefore`. -/
structure StartOf (kernelStride padBefore a before T lines : Int) : Prop where
  before_nonneg : 0 ≤ before
  T_nonneg : 0 ≤ T
  lines_nonneg : 0 ≤ lines
  aligned : before * kernelStride = a * kernelStride - T
  inside : T = 0 ∨ T ≤ a * kernelStride - padBefore

/-- The end of the input of the line `e - 1`, without the border of the image. -/
def inputEnd (kernelSize kernelStride padBefore e : Int) : Int := (e - 1) * kernelStride + kernelSize - padBefore

/-- The junk lines behind the line `e - 1`: the padding that it leaves, in strides. -/
def junkAfter (inputSize kernelSize kernelStride padBefore padAfter e : Int) : Int :=
  max 0 (padAfter - max 0 (inputEnd kernelSize kernelStride padBefore e - inputSize)) / kernelStride

theorem junkAfter_nonneg (hs : 1 ≤ kernelStride) :
    0 ≤ junkAfter inputSize kernelSize kernelStride padBefore padAfter e :=
  Int.ediv_nonneg (le_max_left _ _) (by omega)

theorem junkAfter_le (hpa : 0 ≤ padAfter) :
    junkAfter inputSize kernelSize kernelStride padBefore padAfter e ≤ padAfter :=
  (Int.ediv_le_self _ (le_max_left _ _)).trans (by omega)

theorem tileStart_eq (hs : 1 ≤ kernelStride) (hpb : 0 ≤ padBefore) (ha : 0 ≤ a) :
    ∃ before T lines, StartOf kernelStride padBefore a before T lines ∧
      tileStart kernelStride padBefore a = .ok (T + lines, lines, before) := by
  by_cases hneg : a * kernelStride - padBefore < 0
  · refine ⟨a, 0, 0, ⟨ha, le_rfl, le_rfl, by ring, .inl rfl⟩, ?_⟩
    have hbefore : (if a = 0 then 0 else a) = a := by
      split_ifs with h
      · exact h.symm
      · rfl
    simp only [tileStart, if_pos hneg, hbefore]
    rfl
  · have hnonneg : 0 ≤ a * kernelStride - padBefore := by omega
    have hmod := Int.emod_nonneg (a * kernelStride - padBefore) (by omega : kernelStride ≠ 0)
    have hq := Int.mul_nonneg (by omega : 0 ≤ kernelStride)
      (Int.ediv_nonneg hnonneg (by omega : 0 ≤ kernelStride))
    have hdiv := Int.mul_ediv_add_emod (a * kernelStride - padBefore) kernelStride
    generalize hlines : (a * kernelStride - padBefore) % kernelStride = lines at hmod hdiv
    generalize (a * kernelStride - padBefore) / kernelStride = q at hq hdiv
    -- what is left of `inputLinesBefore` and the padding is a multiple of the stride
    have hjunk : lines + padBefore = (a - q) * kernelStride := by
      rw [sub_mul, mul_comm q]
      omega
    have hbefore : (lines + padBefore).tdiv kernelStride = a - q := by
      rw [hjunk, Int.mul_tdiv_cancel _ (by omega)]
    have hbefore_nonneg : 0 ≤ a - q := by
      by_contra hlt
      have := mul_nonneg_iff_of_pos_right (c := kernelStride) (by omega) (b := a - q)
      omega
    refine ⟨a - q, a * kernelStride - padBefore - lines, lines, ⟨hbefore_nonneg, by omega, hmod, ?_, .inr (by omega)⟩, ?_⟩
    · rw [← hjunk]
      ring
    · simp only [tileStart, if_neg hneg]
      rw [stepDown_eq hs hnonneg (by push_cast; omega), hlines, hbefore.symm]
      simp only [bind, Except.bind, pure, Except.pure, Int.sub_add_cancel]

theorem tileEnd_eq (hs : 1 ≤ kernelStride) (hpa : 0 ≤ padAfter) (e : Int) :
    tileEnd inputSize kernelSize kernelStride padBefore padAfter e =
      .ok (min inputSize (inputEnd kernelSize kernelStride padBefore e),
        junkAfter inputSize kernelSize kernelStride padBefore padAfter e) := by
  unfold tileEnd junkAfter
  simp only [show (e - 1) * kernelStride + kernelSize - padBefore =
    inputEnd kernelSize kernelStride padBefore e from rfl]
  split_ifs with hend
  · have hused : max 0 (inputEnd kernelSize kernelStride padBefore e - inputSize) =
        inputEnd kernelSize kernelStride padBefore e - inputSize := max_eq_right (by omega)
    rw [countJunk_eq hs (by push_cast; omega) (Nat.succ_pos _), min_eq_left (by omega), hused, Int.zero_add]
    rfl
  · have hused : max 0 (inputEnd kernelSize kernelStride padBefore e - inputSize) = 0 :=
      max_eq_left (by omega)
    rw [countJunk_eq hs (by push_cast; omega) (Nat.succ_pos _), min_eq_right (by omega), hused, Int.zero_add]
    rfl

/-- **What `inputTileForOutputTile` returns.** The start depends on the first output line only. -/
theorem inputTileForOutputTile_eq (inputSize kernelSize : Int) (hs : 1 ≤ kernelStride) (hpb : 0 ≤ padBefore) (hpa : 0 ≤ padAfter)
    (ha : 0 ≤ a) :
    ∃ before T lines, StartOf kernelStride padBefore a before T lines ∧ ∀ e,
      inputTileForOutputTile inputSize kernelSize kernelStride padBefore padAfter a e = .ok {
        inputStartIndex := T + lines
        inputEndIndex := min inputSize (inputEnd kernelSize kernelStride padBefore e)
        inputLinesBefore := lines
        inputLinesAfter := 0
        outputStartIndex := a
        outputEndIndex := e
        junkOutputBefore := before
        junkOutputAfter := junkAfter inputSize kernelSize kernelStride padBefore padAfter e } := by
  obtain ⟨before, T, lines, hstart, heq⟩ := tileStart_eq hs hpb ha
  refine ⟨before, T, lines, hstart, fun e => ?_⟩
  rw [inputTileForOutputTile, heq, tileEnd_eq hs hpa]
  rfl

/-- **The output lines of a tile**: junk, the lines from `a` to `e`, and junk. -/
theorem calcOutputSize_tile {before T lines : Int} (hs : 1 ≤ kernelStride) (hpa : 0 ≤ padAfter)
    (hstart : StartOf kernelStride padBefore a before T lines) (ha : 0 ≤ a) (hae : a < e)
    (he : e ≤ calcOutputSize inputSize kernelSize kernelStride padBefore padAfter false) :
    calcOutputSize (min inputSize (inputEnd kernelSize kernelStride padBefore e) - T) kernelSize kernelStride
      padBefore padAfter false =
      before + (e - a) + junkAfter inputSize kernelSize kernelStride padBefore padAfter e := by
  have hbefore := hstart.before_nonneg
  have hne : kernelStride ≠ 0 := by omega
  -- the lines kept and before, as a multiple of the stride
  have hlines : inputEnd kernelSize kernelStride padBefore e - T - kernelSize + padBefore =
      (before + (e - a) - 1) * kernelStride := by
    have := hstart.aligned
    unfold inputEnd
    linarith [add_mul (before - a) (e - 1) kernelStride, sub_mul before a kernelStride]
  have hkept : 0 ≤ before + (e - a) - 1 := by omega
  simp only [calcOutputSize, Bool.false_eq_true, if_false] at he ⊢
  unfold junkAfter
  by_cases hend : inputEnd kernelSize kernelStride padBefore e ≤ inputSize
  · have hsum : inputEnd kernelSize kernelStride padBefore e - T - kernelSize + padBefore + padAfter =
        padAfter + (before + (e - a) - 1) * kernelStride := by omega
    have hnonneg : 0 ≤ padAfter + (before + (e - a) - 1) * kernelStride :=
      add_nonneg hpa (mul_nonneg hkept (by omega))
    rw [min_eq_right hend, hsum, Int.tdiv_eq_ediv_of_nonneg hnonneg, Int.add_mul_ediv_right _ _ hne,
      max_eq_left (by omega : inputEnd kernelSize kernelStride padBefore e - inputSize ≤ 0), Int.sub_zero,
      max_eq_right hpa]
    omega
  · rw [not_le] at hend
    rw [min_eq_left hend.le,
      max_eq_right (by omega : (0 : Int) ≤ inputEnd kernelSize kernelStride padBefore e - inputSize)]
    -- `used` lines of the padding are behind the last kept line
    obtain ⟨used, hused⟩ : ∃ used, used = inputEnd kernelSize kernelStride padBefore e - inputSize := ⟨_, rfl⟩
    have hsum : inputSize - T - kernelSize + padBefore + padAfter =
        (padAfter - used) + (before + (e - a) - 1) * kernelStride := by omega
    rw [hsum, ← hused]
    by_cases hpad : used ≤ padAfter
    · have hnonneg : 0 ≤ (padAfter - used) + (before + (e - a) - 1) * kernelStride :=
        add_nonneg (by omega) (mul_nonneg hkept (by omega))
      rw [Int.tdiv_eq_ediv_of_nonneg hnonneg, Int.add_mul_ediv_right _ _ hne, max_eq_right (by omega)]
      omega
    · -- the last line would lie behind the padded image, unless it is the only one
      have hbehind : inputSize - kernelSize + padBefore + padAfter < (e - 1) * kernelStride := by
        unfold inputEnd at hused
        omega
      have hneg : inputSize - kernelSize + padBefore + padAfter < 0 := by
        by_contra hnonneg
        rw [Int.tdiv_eq_ediv_of_nonneg (by omega)] at he
        have hle := Int.ediv_mul_le (inputSize - kernelSize + padBefore + padAfter) hne
        have := Int.mul_le_mul_of_nonneg_right (by omega : e - 1 ≤
          (inputSize - kernelSize + padBefore + padAfter) / kernelStride) (by omega : 0 ≤ kernelStride)
        omega
      have hdiv : (inputSize - kernelSize + padBefore + padAfter).tdiv kernelStride ≤ 0 := by
        have := Int.tdiv_nonneg (a := -(inputSize - kernelSize + padBefore + padAfter)) (by omega)
          (by omega : 0 ≤ kernelStride)
        rw [Int.neg_tdiv] at this
        omega
      obtain rfl : e = 1 := by omega
      obtain rfl : a = 0 := by omega
      have hnone : before = 0 := by
        have hT := hstart.T_nonneg
        have haligned := hstart.aligned
        by_contra hpos
        have := Int.mul_le_mul_of_nonneg_right (by omega : 1 ≤ before) (by omega : 0 ≤ kernelStride)
        omega
      have hsame : padAfter - used + (before + (1 - 0) - 1) * kernelStride =
          inputSize - kernelSize + padBefore + padAfter := by
        unfold inputEnd at hused
        rw [hnone]
        omega
      rw [hsame, hnone, max_eq_left (by omega), Int.zero_ediv]
      omega

/-! ### Shrinking the output -/

/-- The total of `maximizeOutput`, for the output range from `a` to `e`. -/
theorem totalOutputSlice_eq {before T lines : Int} {e : Int} (h : inputTileForOutputTile inputSize kernelSize
      kernelStride padBefore padAfter a e = .ok {
        inputStartIndex := T + lines
        inputEndIndex := min inputSize (inputEnd kernelSize kernelStride padBefore e)
        inputLinesBefore := lines
        inputLinesAfter := 0
        outputStartIndex := a
        outputEndIndex := e
        junkOutputBefore := before
        junkOutputAfter := junkAfter inputSize kernelSize kernelStride padBefore padAfter e }) :
    totalOutputSlice inputSize kernelSize kernelStride padBefore padAfter a e =
      .ok (before + (e - a) + junkAfter inputSize kernelSize kernelStride padBefore padAfter e) := by
  rw [totalOutputSlice, h]
  rfl

/-- **The shrinking loop ends**, with a range whose total fits. -/
theorem shrinkOutput_ok {before : Int} (hpa : 0 ≤ padAfter) (hmax : 0 < maxOutputSize)
    (htotal : ∀ e, totalOutputSlice inputSize kernelSize kernelStride padBefore padAfter a e =
      .ok (before + (e - a) + junkAfter inputSize kernelSize kernelStride padBefore padAfter e))
    (fuel : Nat) (hfuel : before + (e - a) + padAfter < fuel) (hpos : 0 < fuel) (he : e ≤ outputSize) :
    ∃ e', shrinkOutput inputSize outputSize kernelSize kernelStride padBefore padAfter maxOutputSize a fuel
        (before + (e - a) + junkAfter inputSize kernelSize kernelStride padBefore padAfter e) e =
        .ok (before + (e' - a) + junkAfter inputSize kernelSize kernelStride padBefore padAfter e', e') ∧
      e' ≤ e ∧ before + (e' - a) + junkAfter inputSize kernelSize kernelStride padBefore padAfter e' ≤
        maxOutputSize := by
  induction fuel generalizing e with
  | zero => exact absurd hpos (Nat.lt_irrefl 0)
  | succ fuel ih =>
    push_cast at hfuel
    unfold shrinkOutput
    split_ifs with hvalid
    · simp only [isValid, decide_eq_true_eq] at hvalid
      exact ⟨e, rfl, le_rfl, hvalid.1⟩
    · have hjunk : junkAfter inputSize kernelSize kernelStride padBefore padAfter e ≤ padAfter :=
        junkAfter_le hpa
      simp only [isValid, decide_eq_true_eq, he, and_true] at hvalid
      obtain ⟨e', hloop, hle, hfit⟩ := ih (e := e - 1) (by omega) (by omega) (by omega)
      refine ⟨e', ?_, by omega, hfit⟩
      rw [htotal]
      exact hloop

theorem maximizeOutput_ok {before : Int} (hs : 1 ≤ kernelStride) (hpa : 0 ≤ padAfter) (hmax : 0 < maxOutputSize)
    (htotal : ∀ e, totalOutputSlice inputSize kernelSize kernelStride padBefore padAfter a e =
      .ok (before + (e - a) + junkAfter inputSize kernelSize kernelStride padBefore padAfter e))
    (he : e ≤ calcOutputSize inputSize kernelSize kernelStride padBefore padAfter useCeil) :
    ∃ e', maximizeOutput inputSize kernelSize kernelStride padBefore padAfter maxOutputSize useCeil a e = .ok e' ∧
      e' ≤ e ∧ before + (e' - a) + junkAfter inputSize kernelSize kernelStride padBefore padAfter e' ≤
        maxOutputSize := by
  have hjunk : 0 ≤ junkAfter inputSize kernelSize kernelStride padBefore padAfter e := junkAfter_nonneg hs
  obtain ⟨e', hloop, hle, hfit⟩ := shrinkOutput_ok hpa hmax htotal
    ((before + (e - a) + junkAfter inputSize kernelSize kernelStride padBefore padAfter e +
      padAfter).toNat + (e - calcOutputSize inputSize kernelSize kernelStride padBefore padAfter
      useCeil).toNat + 1) (by push_cast; omega) (Nat.succ_pos _) he
  -- the result fits, so nothing is added to it
  have hvalid : isValid (calcOutputSize inputSize kernelSize kernelStride padBefore padAfter useCeil)
      maxOutputSize (before + (e' - a) + junkAfter inputSize kernelSize kernelStride padBefore padAfter e') e := by
    simp [isValid, hfit, he]
  refine ⟨e', ?_, hle, hfit⟩
  simp only [maximizeOutput, htotal, bind, Except.bind, hloop, hvalid, if_true, Int.add_zero]
  rfl

/-! ### The tiles -/

/-- The input line at offset `j` of the window of an output line; `none` is padding. -/
def windowLine (inputSize kernelStride padBefore outputIndex j : Int) : Option Int :=
  let line := outputIndex * kernelStride - padBefore + j
  if 0 ≤ line ∧ line < inputSize then some line else none

/-- The kept lines of the tile read what the same lines of the whole operation read. -/
def HwPlaneTileInfo.SameWindows (inputSize kernelSize kernelStride padBefore : Int) (t : HwPlaneTileInfo) :
    Prop :=
  ∀ k j, 0 ≤ k → k < t.outputEndIndex - t.outputStartIndex → 0 ≤ j → j < kernelSize →
    (windowLine t.inputWithJunk kernelStride padBefore (t.outputJunkBefore + k) j).map (t.inputStartIndex + ·) =
      windowLine inputSize kernelStride padBefore (t.outputStartIndex + k) j

structure HwPlaneTileInfo.Correct (inputSize kernelSize kernelStride padBefore padAfter maxOutputSize : Int)
    (t : HwPlaneTileInfo) : Prop where
  input_start : 0 ≤ t.inputStartIndex
  input_nonempty : t.inputStartIndex < t.inputEndIndex
  input_end : t.inputEndIndex ≤ inputSize
  input_size : t.inputWithJunk = t.inputEndIndex - t.inputStartIndex
  output_fits : t.outputWithJunk ≤ maxOutputSize
  output_size : t.outputWithJunk = t.outputJunkBefore + (t.outputEndIndex - t.outputStartIndex) + t.outputJunkAfter
  computes : calcOutputSize t.inputWithJunk kernelSize kernelStride padBefore padAfter false = t.outputWithJunk
  windows : t.SameWindows inputSize kernelSize kernelStride padBefore

/-- The output ranges are not empty and follow each other from `a` to `b`. -/
def Covers : List HwPlaneTileInfo → Int → Int → Prop
  | [], a, b => a = b
  | t :: ts, a, b => t.outputStartIndex = a ∧ a < t.outputEndIndex ∧ Covers ts t.outputEndIndex b

theorem Covers.append {ts : List HwPlaneTileInfo} {t : HwPlaneTileInfo} {b : Int} (h : Covers ts b a)
    (hstart : t.outputStartIndex = a) (hend : a < t.outputEndIndex) :
    Covers (ts ++ [t]) b t.outputEndIndex := by
  induction ts generalizing b with
  | nil =>
    obtain rfl : b = a := h
    exact ⟨hstart, hend, rfl⟩
  | cons t' ts ih => exact ⟨h.1, h.2.1, ih h.2.2⟩

/-- The windows of the tile with input from `T` to `E`: a kept line leaves it only at the image border. -/
theorem StartOf.sameWindows {before T lines : Int} {t : HwPlaneTileInfo} (hs : 1 ≤ kernelStride)
    (hstart : StartOf kernelStride padBefore a before T lines)
    (hbefore : t.outputJunkBefore = before) (ha : t.outputStartIndex = a) (he : t.outputEndIndex = e)
    (hT : t.inputStartIndex = T)
    (hsize : t.inputWithJunk = min inputSize (inputEnd kernelSize kernelStride padBefore e) - T) :
    t.SameWindows inputSize kernelSize kernelStride padBefore := by
  intro k j hk hke hj hjk
  have hshift : T + ((before + k) * kernelStride - padBefore + j) = (a + k) * kernelStride - padBefore + j := by
    have := hstart.aligned
    linarith [add_mul before k kernelStride, add_mul a k kernelStride]
  have hlow : a * kernelStride ≤ (a + k) * kernelStride :=
    Int.mul_le_mul_of_nonneg_right (by omega) (by omega)
  have hhigh : (a + k) * kernelStride ≤ (e - 1) * kernelStride :=
    Int.mul_le_mul_of_nonneg_right (by omega) (by omega)
  have hTnonneg := hstart.T_nonneg
  have hinside := hstart.inside
  have hin : (0 ≤ (before + k) * kernelStride - padBefore + j ∧
      (before + k) * kernelStride - padBefore + j < t.inputWithJunk) ↔
      (0 ≤ (a + k) * kernelStride - padBefore + j ∧ (a + k) * kernelStride - padBefore + j < inputSize) := by
    rw [hsize]
    unfold inputEnd
    omega
  simp only [windowLine, hbefore, ha, hT]
  by_cases h : 0 ≤ (a + k) * kernelStride - padBefore + j ∧ (a + k) * kernelStride - padBefore + j < inputSize
  · rw [if_pos h, if_pos (hin.mpr h), Option.map_some, hshift]
  · rw [if_neg h, if_neg fun h' => h (hin.mp h'), Option.map_none]

theorem checkTile_ne_outOfFuel (inputSize outputSize : Int) (t : InputTile) : checkTile inputSize outputSize t ≠ .error .outOfFuel := by
  unfold checkTile
  iterate 15 refine ieAssert_bind_ne_outOfFuel fun _ => ?_
  simp [pure, Except.pure]

/-- The tuple of a tile passes the assertions only if its tile is correct. -/
theorem checkTile_correct {before T lines : Int} {info : HwPlaneTileInfo} (hs : 1 ≤ kernelStride)
    (hpa : 0 ≤ padAfter) (hstart : StartOf kernelStride padBefore a before T lines) (ha : 0 ≤ a) (hae : a < e)
    (he : e ≤ calcOutputSize inputSize kernelSize kernelStride padBefore padAfter false)
    (hfit : before + (e - a) + junkAfter inputSize kernelSize kernelStride padBefore padAfter e ≤ maxOutputSize)
    (h : checkTile inputSize outputSize {
        inputStartIndex := T + lines
        inputEndIndex := min inputSize (inputEnd kernelSize kernelStride padBefore e)
        inputLinesBefore := lines
        inputLinesAfter := 0
        outputStartIndex := a
        outputEndIndex := e
        junkOutputBefore := before
        junkOutputAfter := junkAfter inputSize kernelSize kernelStride padBefore padAfter e } = .ok info) :
    info.outputStartIndex = a ∧ info.outputEndIndex = e ∧
      info.Correct inputSize kernelSize kernelStride padBefore padAfter maxOutputSize := by
  simp only [checkTile, ieAssert_bind_ok_iff, pure_ok_iff] at h
  obtain ⟨-, -, hnonempty, -, -, -, -, -, -, -, -, -, -, -, -, rfl⟩ := h
  have hlines := hstart.lines_nonneg
  have hT := hstart.T_nonneg
  have hsize : lines + min inputSize (inputEnd kernelSize kernelStride padBefore e) - (T + lines) + 0 =
      min inputSize (inputEnd kernelSize kernelStride padBefore e) - T := by omega
  refine ⟨rfl, rfl, ⟨?_, ?_, ?_, ?_, ?_, ?_, ?_, ?_⟩⟩
  iterate 6 · simp only; omega
  · rw [hsize, calcOutputSize_tile hs hpa hstart ha hae he]
    simp only
    omega
  · exact hstart.sameWindows hs rfl rfl rfl (by simp only; omega) hsize

/-- **One pass of `splitIntoPlaneTiles`** ends, and the tile that it makes is correct. -/
theorem planeTile_cases (hs : 1 ≤ kernelStride) (hpb : 0 ≤ padBefore) (hpa : 0 ≤ padAfter)
    (hmax : 0 < maxOutputSize) (ha : 0 ≤ a)
    (hout : outputSize = calcOutputSize inputSize kernelSize kernelStride padBefore padAfter false) :
    planeTile inputSize outputSize kernelSize kernelStride padBefore padAfter maxOutputSize false a ≠
      .error .outOfFuel ∧
    ∀ info, planeTile inputSize outputSize kernelSize kernelStride padBefore padAfter maxOutputSize false a =
        .ok (some info) →
      info.outputStartIndex = a ∧ a < info.outputEndIndex ∧ info.outputEndIndex ≤ outputSize ∧
      info.Correct inputSize kernelSize kernelStride padBefore padAfter maxOutputSize := by
  obtain ⟨before, T, lines, hstart, htile⟩ :=
    inputTileForOutputTile_eq inputSize kernelSize hs hpb hpa ha
  obtain ⟨e, hmaximize, hle, hfit⟩ := maximizeOutput_ok hs hpa hmax (fun e => totalOutputSlice_eq (htile e))
    ((min_le_left outputSize (a + maxOutputSize)).trans hout.le)
  have he : e ≤ outputSize := hle.trans (min_le_left _ _)
  unfold planeTile
  constructor
  · refine ieAssert_bind_ne_outOfFuel fun _ => ?_
    rw [hmaximize]
    by_cases hempty : e ≤ a
    · simp [bind, Except.bind, hempty, pure, Except.pure]
    · simp only [bind, Except.bind, hempty, if_false, htile e]
      intro herr
      split at herr
      · next err heq =>
        cases herr
        exact checkTile_ne_outOfFuel inputSize outputSize _ heq
      · cases herr
  · intro info h
    obtain ⟨-, h⟩ := ieAssert_bind_ok_iff.mp h
    obtain ⟨e₁, heq, h⟩ := bind_ok_iff.mp h
    rw [hmaximize] at heq
    cases heq
    split_ifs at h with hempty
    · cases h
    · obtain ⟨t, ht, h⟩ := bind_ok_iff.mp h
      rw [htile e] at ht
      cases ht
      obtain ⟨info', hcheck, h⟩ := bind_ok_iff.mp h
      cases h
      obtain ⟨hs', he', hcorrect⟩ := checkTile_correct hs hpa hstart ha (not_le.mp hempty) (hout ▸ he) hfit hcheck
      exact ⟨hs', by omega, by omega, hcorrect⟩

/-- **The loop of `splitIntoPlaneTiles`**, from the output line `a` on. -/
theorem planeTiles_fuel (hs : 1 ≤ kernelStride) (hpb : 0 ≤ padBefore) (hpa : 0 ≤ padAfter)
    (hmax : 0 < maxOutputSize)
    (hout : outputSize = calcOutputSize inputSize kernelSize kernelStride padBefore padAfter false)
    (fuel : Nat) (tiles : List HwPlaneTileInfo) (ha : 0 ≤ a) (hlt : a < outputSize) (hfuel : outputSize - a < fuel)
    (hcovers : Covers tiles 0 a)
    (hcorrect : ∀ t ∈ tiles, t.Correct inputSize kernelSize kernelStride padBefore padAfter maxOutputSize) :
    planeTilesLoop inputSize outputSize kernelSize kernelStride padBefore padAfter maxOutputSize false fuel a
      tiles ≠ .error .outOfFuel ∧
    ∀ tiles', planeTilesLoop inputSize outputSize kernelSize kernelStride padBefore padAfter maxOutputSize false
        fuel a tiles = .ok tiles' →
      tiles' = [] ∨ Covers tiles' 0 outputSize ∧
        ∀ t ∈ tiles', t.Correct inputSize kernelSize kernelStride padBefore padAfter maxOutputSize := by
  induction fuel generalizing a tiles with
  | zero =>
    simp only [Nat.cast_zero] at hfuel
    omega
  | succ fuel ih =>
    push_cast at hfuel
    obtain ⟨hne, hsome⟩ := planeTile_cases hs hpb hpa hmax ha hout
    rw [planeTilesLoop]
    cases hpass : planeTile inputSize outputSize kernelSize kernelStride padBefore padAfter maxOutputSize
        false a with
    | error err =>
      rw [hpass] at hne
      exact ⟨by simpa [bind, Except.bind] using hne, by simp [bind, Except.bind]⟩
    | ok r =>
      cases r with
      | none => exact ⟨by simp [bind, Except.bind, pure, Except.pure], fun tiles' h => .inl (by cases h; rfl)⟩
      | some info =>
        obtain ⟨hstart, hend, hle, hinfo⟩ := hsome info hpass
        have hcovers' : Covers (tiles ++ [info]) 0 info.outputEndIndex := hcovers.append hstart hend
        have hcorrect' : ∀ t ∈ tiles ++ [info],
            t.Correct inputSize kernelSize kernelStride padBefore padAfter maxOutputSize := by
          intro t ht
          rcases List.mem_append.mp ht with ht | ht
          · exact hcorrect t ht
          · rw [List.mem_singleton.mp ht]
            exact hinfo
        by_cases hlast : info.outputEndIndex ≥ outputSize
        · have hall : info.outputEndIndex = outputSize := by omega
          simp only [bind, Except.bind, hlast, if_true, pure, Except.pure]
          refine ⟨by simp, fun tiles' h => .inr ?_⟩
          cases h
          exact ⟨hall ▸ hcovers', hcorrect'⟩
        · obtain ⟨hne', hok⟩ := ih (tiles ++ [info]) (by omega) (by omega) (by omega) hcovers' hcorrect'
          have hgrow : info.outputEndIndex > info.outputStartIndex := by omega
          simp only [bind, Except.bind, hlast, if_false, ieAssert, hgrow, if_true]
          exact ⟨hne', hok⟩

/-- **`splitIntoPlaneTiles` is a correct tiling.** -/
theorem splitIntoPlaneTiles_correct (hs : 1 ≤ kernelStride) (hpb : 0 ≤ padBefore) (hpa : 0 ≤ padAfter)
    (hmax : 0 < maxOutputSize)
    (hout : outputSize = calcOutputSize inputSize kernelSize kernelStride padBefore padAfter false)
    (hpos : 0 < outputSize) :
    splitIntoPlaneTiles inputSize outputSize kernelSize kernelStride padBefore padAfter maxOutputSize false ≠
      .error .outOfFuel ∧
    ∀ tiles, splitIntoPlaneTiles inputSize outputSize kernelSize kernelStride padBefore padAfter maxOutputSize
        false = .ok tiles →
      tiles = [] ∨ Covers tiles 0 outputSize ∧
        ∀ t ∈ tiles, t.Correct inputSize kernelSize kernelStride padBefore padAfter maxOutputSize := by
  obtain ⟨hne, hok⟩ := planeTiles_fuel hs hpb hpa hmax hout (outputSize.toNat + 1) [] le_rfl
    hpos (by push_cast; omega) rfl (by simp)
  unfold splitIntoPlaneTiles
  refine ⟨?_, fun tiles h => ?_⟩
  · iterate 3 refine ieAssert_bind_ne_outOfFuel fun _ => ?_
    exact hne
  · obtain ⟨-, h⟩ := ieAssert_bind_ok_iff.mp h
    obtain ⟨-, h⟩ := ieAssert_bind_ok_iff.mp h
    obtain ⟨-, h⟩ := ieAssert_bind_ok_iff.mp h
    exact hok tiles h

/-- Kernel 3 and stride 2, with a line of padding on both sides. -/
theorem splitIntoPlaneTiles_correct_stride2 :
    ∃ tiles, splitIntoPlaneTiles 8 4 3 2 1 1 3 false = .ok tiles ∧ Covers tiles 0 4 ∧
      ∀ t ∈ tiles, t.Correct 8 3 2 1 1 3 := by
  obtain ⟨-, h⟩ := splitIntoPlaneTiles_correct (show (1 : Int) ≤ 2 by decide) (show (0 : Int) ≤ 1 by decide)
    (show (0 : Int) ≤ 1 by decide) (show (0 : Int) < 3 by decide) (show 4 = calcOutputSize 8 3 2 1 1 false by rfl)
    (by decide)
  exact ⟨_, rfl, (h _ rfl).resolve_left (by simp)⟩

end

end OpenVino.Vpu
