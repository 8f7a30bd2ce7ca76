import OpenVino.InferenceEngine.SizeT
import OpenVino.Vpu.Hw.PlaneTiles

/-!
# Tiles of a convolution merged with a pooling

`splitIntoPlaneTilesWithPool` of `hw/tiling.cpp`: a convolution with kernel 3, stride 1 and padding 1, followed by a
pooling of two lines into one. A tile that does not start at the border of the image computes one line in front that is
thrown away, one that does not end there one line behind, and the input starts at twice the first computed line
(`HwPlaneTileInfo.PoolCorrect`). `splitIntoPlaneTilesWithPool_correct`: the loop ends, its assertions hold, and the kept
lines follow each other.
-/

namespace OpenVino.Vpu

open OpenVino.InferenceEngine (FitsInt intArith intArith_ok_iff)

section

variable (inputSize outputSize kernelSize kernelStride pad maxOutputSize : Int)

/-- The body of the loop up to `tiles.emplace_back(info)`. -/
def poolTile (inputStartIndex outputStartIndex : Int) : Result HwPlaneTileInfo := do
  let inputEnd ← intArith "inputStartIndex + 2 * maxOutputSize" (inputStartIndex + 2 * maxOutputSize)
  let outputEnd ← intArith "outputStartIndex + maxOutputSize" (outputStartIndex + maxOutputSize)
  let inputEndIndex := min inputEnd inputSize
  let outputEndIndex := min outputEnd outputSize
  ieAssert "inputEndIndex > inputStartIndex" (inputEndIndex > inputStartIndex)
  ieAssert "outputEndIndex > outputStartIndex" (outputEndIndex > outputStartIndex)
  let junkBefore := if outputStartIndex > 0 then 1 else 0
  let junkAfter := if outputEndIndex < outputSize then 1 else 0
  pure {
    inputWithJunk := inputEndIndex - inputStartIndex
    outputWithJunk := outputEndIndex - outputStartIndex
    outputJunkBefore := junkBefore
    outputJunkAfter := junkAfter
    inputStartIndex
    inputEndIndex
    outputStartIndex := outputStartIndex + junkBefore
    outputEndIndex := outputEndIndex - junkAfter }

/-- The `while (true)` loop. -/
def poolTilesLoop : Nat → Int → Int → List HwPlaneTileInfo → Result (List HwPlaneTileInfo)
  | 0, _, _, _ => .error .outOfFuel
  | fuel + 1, inputStartIndex, outputStartIndex, tiles => do
    let info ← poolTile inputSize outputSize maxOutputSize inputStartIndex outputStartIndex
    let tiles := tiles ++ [info]
    if info.outputEndIndex ≥ outputSize then pure tiles
    else poolTilesLoop fuel (info.inputEndIndex - 4) (info.outputEndIndex - 1) tiles

def splitIntoPlaneTilesWithPool : Result (List HwPlaneTileInfo) := do
  ieAssert "kernelSize == 3 && kernelStride == 1 && pad == 1" (kernelSize = 3 ∧ kernelStride = 1 ∧ pad = 1)
  ieAssert "inputSize % 2 == 0" (inputSize.tmod 2 = 0)
  let outputSize := inputSize.tdiv 2
  ieAssert "inputSize > 0" (inputSize > 0)
  ieAssert "outputSize > 0" (outputSize > 0)
  let maxOutputSize ← if outputSize > maxOutputSize ∧ maxOutputSize.tmod 2 = 0 then
      intArith "--maxOutputSize" (maxOutputSize - 1)
    else pure maxOutputSize
  ieAssert "maxOutputSize >= 2" (maxOutputSize ≥ 2)
  poolTilesLoop inputSize outputSize maxOutputSize (outputSize.toNat + 1) 0 0 []

end

section

variable {inputSize outputSize maxOutputSize s : Int} {fuel : Nat} {tiles : List HwPlaneTileInfo}

/-! ### One tile -/

/-- The kept lines of the tile read what the same lines of the whole operation read: line `p` of the pooling reads the
lines `2 * p` and `2 * p + 1` of the convolution, and these three lines each. -/
def HwPlaneTileInfo.SamePooledWindows (inputSize : Int) (t : HwPlaneTileInfo) : Prop :=
  ∀ k a j, 0 ≤ k → k < t.outputEndIndex - t.outputStartIndex → 0 ≤ a → a < 2 → 0 ≤ j → j < 3 →
    (windowLine t.inputWithJunk 1 1 (2 * (t.outputJunkBefore + k) + a) j).map (t.inputStartIndex + ·) =
      windowLine inputSize 1 1 (2 * (t.outputStartIndex + k) + a) j

structure HwPlaneTileInfo.PoolCorrect (inputSize maxOutputSize : Int) (t : HwPlaneTileInfo) : Prop where
  input_start : t.inputStartIndex = 2 * (t.outputStartIndex - t.outputJunkBefore)
  input_nonneg : 0 ≤ t.inputStartIndex
  input_nonempty : t.inputStartIndex < t.inputEndIndex
  input_end : t.inputEndIndex ≤ inputSize
  input_size : t.inputWithJunk = t.inputEndIndex - t.inputStartIndex
  output_fits : t.outputWithJunk ≤ maxOutputSize
  output_size : t.outputWithJunk = t.outputJunkBefore + (t.outputEndIndex - t.outputStartIndex) + t.outputJunkAfter
  pooled_size : t.inputWithJunk = 2 * t.outputWithJunk
  windows : t.SamePooledWindows inputSize

/-- The tile that is computed from the line `s` on. -/
def poolTileFrom (outputSize maxOutputSize s : Int) : HwPlaneTileInfo where
  inputWithJunk := 2 * (min (s + maxOutputSize) outputSize - s)
  outputWithJunk := min (s + maxOutputSize) outputSize - s
  outputJunkBefore := if s > 0 then 1 else 0
  outputJunkAfter := if min (s + maxOutputSize) outputSize < outputSize then 1 else 0
  inputStartIndex := 2 * s
  inputEndIndex := 2 * min (s + maxOutputSize) outputSize
  outputStartIndex := s + if s > 0 then 1 else 0
  outputEndIndex := min (s + maxOutputSize) outputSize - if min (s + maxOutputSize) outputSize < outputSize then 1 else 0

/-- A tile is computed unless the sum overflows. -/
theorem poolTile_cases (hin : inputSize = 2 * outputSize) (hmax : 2 ≤ maxOutputSize) (hs : 0 ≤ s) (hlt : s < outputSize) :
    poolTile inputSize outputSize maxOutputSize (2 * s) s = .ok (poolTileFrom outputSize maxOutputSize s) ∨
      2 ^ 31 ≤ 2 * s + 2 * maxOutputSize ∧ poolTile inputSize outputSize maxOutputSize (2 * s) s =
        .error (.undefinedBehaviour "inputStartIndex + 2 * maxOutputSize") := by
  unfold poolTile
  by_cases hfits : FitsInt (2 * s + 2 * maxOutputSize)
  · left
    have hfits' : FitsInt (s + maxOutputSize) := by
      obtain ⟨hlow, hhigh⟩ := hfits
      exact ⟨by omega, by omega⟩
    have hmin : min (2 * s + 2 * maxOutputSize) inputSize = 2 * min (s + maxOutputSize) outputSize := by
      rw [hin]
      omega
    rw [intArith, if_pos hfits, ok_bind, intArith, if_pos hfits', ok_bind]
    dsimp only
    rw [hmin, ieAssert, if_pos (by omega), ok_bind, ieAssert, if_pos (by omega), ok_bind, ← mul_sub]
    rfl
  · right
    refine ⟨?_, ?_⟩
    · unfold FitsInt at hfits
      omega
    · rw [intArith, if_neg hfits]
      rfl

theorem poolTileFrom_correct (hin : inputSize = 2 * outputSize) (hmax : 2 ≤ maxOutputSize) (hs : 0 ≤ s)
    (hlt : s < outputSize) : (poolTileFrom outputSize maxOutputSize s).PoolCorrect inputSize maxOutputSize := by
  refine ⟨?_, ?_, ?_, ?_, ?_, ?_, ?_, rfl, ?_⟩
  all_goals unfold poolTileFrom
  · dsimp only
    omega
  · dsimp only
    omega
  · dsimp only
    omega
  · dsimp only
    omega
  · dsimp only
    omega
  · dsimp only
    omega
  · dsimp only
    omega
  · intro k a j hk hkend ha ha2 hj hj3
    unfold windowLine
    dsimp only at hkend ⊢
    split_ifs at hkend ⊢ with hpos hend hlocal hwhole hwhole
    all_goals try omega
    all_goals simp
    all_goals omega

/-! ### The loop -/

/-- The loop ends with all lines, unless a sum overflows. -/
theorem poolTilesLoop_cases (hin : inputSize = 2 * outputSize) (hmax : 2 ≤ maxOutputSize)
    (hsteps : outputSize ≤ maxOutputSize ∨ 3 ≤ maxOutputSize) (hs : 0 ≤ s)
    (hlt : s + (if s > 0 then 1 else 0) < outputSize) (hfuel : outputSize - s < fuel)
    (hcovers : Covers tiles 0 (s + if s > 0 then 1 else 0))
    (hcorrect : ∀ t ∈ tiles, t.PoolCorrect inputSize maxOutputSize) :
    (∃ tiles', poolTilesLoop inputSize outputSize maxOutputSize fuel (2 * s) s tiles = .ok tiles' ∧
      Covers tiles' 0 outputSize ∧ ∀ t ∈ tiles', t.PoolCorrect inputSize maxOutputSize) ∨
    2 ^ 31 ≤ inputSize + 2 * maxOutputSize ∧ poolTilesLoop inputSize outputSize maxOutputSize fuel (2 * s) s tiles =
      .error (.undefinedBehaviour "inputStartIndex + 2 * maxOutputSize") := by
  induction fuel generalizing s tiles with
  | zero =>
    rw [Nat.cast_zero] at hfuel
    split_ifs at hlt <;> omega
  | succ fuel ih =>
    push_cast at hfuel
    have hlt' : s < outputSize := by
      split_ifs at hlt <;> omega
    rw [poolTilesLoop]
    rcases poolTile_cases hin hmax hs hlt' with htile | ⟨hover, htile⟩
    · rw [htile, ok_bind]
      have htilecorrect := poolTileFrom_correct hin hmax hs hlt'
      have hall : ∀ t ∈ tiles ++ [poolTileFrom outputSize maxOutputSize s], t.PoolCorrect inputSize maxOutputSize := by
        intro t ht
        rcases List.mem_append.mp ht with ht | ht
        · exact hcorrect t ht
        · rw [List.mem_singleton.mp ht]
          exact htilecorrect
      have hstart : (poolTileFrom outputSize maxOutputSize s).outputStartIndex = s + if s > 0 then 1 else 0 := rfl
      by_cases hlast : outputSize ≤ s + maxOutputSize
      · have hend : (poolTileFrom outputSize maxOutputSize s).outputEndIndex = outputSize := by
          show min (s + maxOutputSize) outputSize - (if min (s + maxOutputSize) outputSize < outputSize then 1 else 0) = _
          rw [min_eq_right hlast, if_neg (lt_irrefl _), sub_zero]
        left
        refine ⟨tiles ++ [poolTileFrom outputSize maxOutputSize s], ?_, ?_, hall⟩
        · dsimp only
          rw [if_pos hend.ge]
          rfl
        · have hcovers' := hcovers.append hstart (by rw [hend]; exact hlt)
          rwa [hend] at hcovers'
      · have hend : (poolTileFrom outputSize maxOutputSize s).outputEndIndex = s + maxOutputSize - 1 := by
          show min (s + maxOutputSize) outputSize - (if min (s + maxOutputSize) outputSize < outputSize then 1 else 0) = _
          rw [min_eq_left (by omega), if_pos (by omega)]
        have hinput : (poolTileFrom outputSize maxOutputSize s).inputEndIndex = 2 * (s + maxOutputSize) := by
          show 2 * min (s + maxOutputSize) outputSize = _
          rw [min_eq_left (by omega)]
        have hcovers' := hcovers.append hstart (by rw [hend]; split_ifs <;> omega)
        rw [hend] at hcovers'
        have hnext : s + maxOutputSize - 2 + (if s + maxOutputSize - 2 > 0 then 1 else 0) = s + maxOutputSize - 1 := by
          rw [if_pos (by omega)]
          omega
        dsimp only
        rw [if_neg (by omega), hend, hinput, show 2 * (s + maxOutputSize) - 4 = 2 * (s + maxOutputSize - 2) by ring,
          show s + maxOutputSize - 1 - 1 = s + maxOutputSize - 2 by ring]
        exact ih (by omega) (by rw [hnext]; omega) (by omega) (by rwa [hnext]) hall
    · right
      refine ⟨by omega, ?_⟩
      rw [htile]
      rfl

theorem HwPlaneTileInfo.PoolCorrect.mono {t : HwPlaneTileInfo} {larger : Int} (h : t.PoolCorrect inputSize maxOutputSize)
    (hle : maxOutputSize ≤ larger) : t.PoolCorrect inputSize larger :=
  { h with output_fits := h.output_fits.trans hle }

/-- How a call ends. -/
theorem splitIntoPlaneTilesWithPool_cases (heven : inputSize % 2 = 0) :
    (inputSize ≤ 0 ∧ splitIntoPlaneTilesWithPool inputSize 3 1 1 maxOutputSize =
      .error (.assertionFailed "inputSize > 0")) ∨
    (maxOutputSize ≤ 2 ∧ splitIntoPlaneTilesWithPool inputSize 3 1 1 maxOutputSize =
      .error (.assertionFailed "maxOutputSize >= 2")) ∨
    (¬FitsInt (maxOutputSize - 1) ∧ splitIntoPlaneTilesWithPool inputSize 3 1 1 maxOutputSize =
      .error (.undefinedBehaviour "--maxOutputSize")) ∨
    (2 ^ 31 ≤ inputSize + 2 * maxOutputSize ∧ splitIntoPlaneTilesWithPool inputSize 3 1 1 maxOutputSize =
      .error (.undefinedBehaviour "inputStartIndex + 2 * maxOutputSize")) ∨
    ∃ tiles, splitIntoPlaneTilesWithPool inputSize 3 1 1 maxOutputSize = .ok tiles ∧ Covers tiles 0 (inputSize / 2) ∧
      ∀ t ∈ tiles, t.PoolCorrect inputSize maxOutputSize := by
  have hmod : inputSize.tmod 2 = 0 := Int.tmod_eq_zero_of_dvd (Int.dvd_of_emod_eq_zero heven)
  unfold splitIntoPlaneTilesWithPool
  rw [ieAssert, if_pos (by decide), ok_bind, ieAssert, if_pos hmod, ok_bind]
  by_cases hpos : inputSize > 0
  · have hhalf : inputSize.tdiv 2 = inputSize / 2 := Int.tdiv_eq_ediv_of_nonneg hpos.le
    dsimp only
    rw [hhalf, ieAssert, if_pos hpos, ok_bind, ieAssert, if_pos (by omega), ok_bind]
    -- what is left of the function, for the number of lines that it goes on with
    have hloop : ∀ lines : Int, lines ≤ maxOutputSize → 2 ≤ lines → (inputSize / 2 ≤ lines ∨ 3 ≤ lines) →
        (2 ^ 31 ≤ inputSize + 2 * maxOutputSize ∧
          poolTilesLoop inputSize (inputSize / 2) lines ((inputSize / 2).toNat + 1) 0 0 [] =
            .error (.undefinedBehaviour "inputStartIndex + 2 * maxOutputSize")) ∨
        ∃ tiles, poolTilesLoop inputSize (inputSize / 2) lines ((inputSize / 2).toNat + 1) 0 0 [] = .ok tiles ∧
          Covers tiles 0 (inputSize / 2) ∧ ∀ t ∈ tiles, t.PoolCorrect inputSize maxOutputSize := by
      intro lines hle htwo hsteps
      have hcases := @poolTilesLoop_cases inputSize (inputSize / 2) lines 0 ((inputSize / 2).toNat + 1) [] (by omega) htwo
        hsteps (le_refl 0) (by rw [if_neg (lt_irrefl _)]; omega) (by push_cast; omega) (by rw [if_neg (lt_irrefl _)]; rfl)
        (by simp)
      rw [mul_zero] at hcases
      rcases hcases with ⟨tiles, hrun, hcovers, hcorrect⟩ | ⟨hover, hrun⟩
      · exact .inr ⟨tiles, hrun, hcovers, fun t ht => (hcorrect t ht).mono hle⟩
      · exact .inl ⟨by omega, hrun⟩
    by_cases hreduce : inputSize / 2 > maxOutputSize ∧ maxOutputSize.tmod 2 = 0
    · rw [if_pos hreduce]
      obtain ⟨hgt, hmod⟩ := hreduce
      have heven : maxOutputSize % 2 = 0 := Int.emod_eq_zero_of_dvd (Int.dvd_of_tmod_eq_zero hmod)
      by_cases hfits : FitsInt (maxOutputSize - 1)
      · rw [intArith, if_pos hfits, ok_bind]
        by_cases htwo : maxOutputSize - 1 ≥ 2
        · rw [ieAssert, if_pos htwo, ok_bind]
          rcases hloop (maxOutputSize - 1) (by omega) htwo (.inr (by omega)) with hover | hok
          · exact .inr (.inr (.inr (.inl hover)))
          · exact .inr (.inr (.inr (.inr hok)))
        · rw [ieAssert, if_neg htwo]
          exact .inr (.inl ⟨by omega, rfl⟩)
      · rw [intArith, if_neg hfits]
        exact .inr (.inr (.inl ⟨hfits, rfl⟩))
    · rw [if_neg hreduce]
      have hpure : ∀ f : Int → Result (List HwPlaneTileInfo), (pure maxOutputSize >>= f) = f maxOutputSize := fun f => rfl
      rw [hpure]
      by_cases htwo : maxOutputSize ≥ 2
      · rw [ieAssert, if_pos htwo, ok_bind]
        have hsteps : inputSize / 2 ≤ maxOutputSize ∨ 3 ≤ maxOutputSize := by
          by_contra hcon
          push Not at hcon
          obtain rfl : maxOutputSize = 2 := by omega
          exact hreduce ⟨hcon.1, rfl⟩
        rcases hloop maxOutputSize (le_refl _) htwo hsteps with hover | hok
        · exact .inr (.inr (.inr (.inl hover)))
        · exact .inr (.inr (.inr (.inr hok)))
      · rw [ieAssert, if_neg htwo]
        exact .inr (.inl ⟨by omega, rfl⟩)
  · left
    dsimp only
    rw [ieAssert, if_neg hpos]
    exact ⟨by omega, rfl⟩

/-- **The tiles of a convolution merged with a pooling.** The function returns unless its assertions on the arguments
fail or a sum overflows; what it returns keeps every line once and computes it from the right lines. -/
theorem splitIntoPlaneTilesWithPool_correct (heven : inputSize % 2 = 0) :
    splitIntoPlaneTilesWithPool inputSize 3 1 1 maxOutputSize ≠ .error .outOfFuel ∧
    (∀ e, splitIntoPlaneTilesWithPool inputSize 3 1 1 maxOutputSize = .error (.assertionFailed e) →
      e = "inputSize > 0" ∧ inputSize ≤ 0 ∨ e = "maxOutputSize >= 2" ∧ maxOutputSize ≤ 2) ∧
    (0 < inputSize → 2 < maxOutputSize → inputSize + 2 * maxOutputSize < 2 ^ 31 →
      ∃ tiles, splitIntoPlaneTilesWithPool inputSize 3 1 1 maxOutputSize = .ok tiles) ∧
    ∀ tiles, splitIntoPlaneTilesWithPool inputSize 3 1 1 maxOutputSize = .ok tiles →
      Covers tiles 0 (inputSize / 2) ∧ ∀ t ∈ tiles, t.PoolCorrect inputSize maxOutputSize := by
  rcases @splitIntoPlaneTilesWithPool_cases inputSize maxOutputSize heven with
    ⟨hcond, hrun⟩ | ⟨hcond, hrun⟩ | ⟨hcond, hrun⟩ | ⟨hcond, hrun⟩ | ⟨tiles, hrun, hcovers, hcorrect⟩
  all_goals rw [hrun]
  · refine ⟨by simp, fun e he => ?_, fun hpos _ _ => by omega, fun tiles hcon => (by cases hcon)⟩
    exact .inl ⟨(IEException.assertionFailed.inj (Except.error.inj he)).symm, hcond⟩
  · refine ⟨by simp, fun e he => ?_, fun _ htwo _ => by omega, fun tiles hcon => (by cases hcon)⟩
    exact .inr ⟨(IEException.assertionFailed.inj (Except.error.inj he)).symm, hcond⟩
  · refine ⟨by simp, fun e he => (by cases he), fun hpos htwo hsmall => ?_, fun tiles hcon => (by cases hcon)⟩
    exact absurd (show FitsInt (maxOutputSize - 1) from ⟨by omega, by omega⟩) hcond
  · exact ⟨by simp, fun e he => (by cases he), fun _ _ hsmall => by omega, fun tiles hcon => (by cases hcon)⟩
  · refine ⟨by simp, fun e he => (by cases he), fun _ _ _ => ⟨tiles, rfl⟩, fun tiles' htiles => ?_⟩
    obtain rfl := Except.ok.inj htiles
    exact ⟨hcovers, hcorrect⟩

/-- Sixteen lines, pooled to eight and computed by at most four at a time. -/
theorem splitIntoPlaneTilesWithPool_correct_sixteen : ∃ tiles, splitIntoPlaneTilesWithPool 16 3 1 1 4 = .ok tiles ∧
    Covers tiles 0 8 ∧ ∀ t ∈ tiles, t.PoolCorrect 16 4 := by
  obtain ⟨-, -, hreturns, hok⟩ := @splitIntoPlaneTilesWithPool_correct 16 4 (show (16 : Int) % 2 = 0 by rfl)
  obtain ⟨tiles, hrun⟩ := hreturns (by decide) (by decide) (by decide)
  exact ⟨tiles, hrun, hok tiles hrun⟩

end

end OpenVino.Vpu
