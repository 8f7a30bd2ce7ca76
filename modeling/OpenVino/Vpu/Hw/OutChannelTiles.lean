import OpenVino.Vpu.Numeric

/-!
# Output channels of a HW convolution

`splitHwConvIntoOutChannelsTiles` of `hw/tiling.cpp` tries every mode of the HW unit: a mode that the restrictions
admit has a cost, and the cheapest one is taken, with fewer descriptors first where two cost the same. The search
keeps a cheapest solution of the modes it has seen (`Best`); `splitHwConv_optimal` is the whole call.
-/

namespace OpenVino.Vpu

open OpenVino.InferenceEngine (FitsInt intArith intArith_ok_iff)

inductive HwOpMode
  | MODE_1_256 | MODE_2_128 | MODE_4_64 | MODE_8_32 | MODE_16_16

inductive HwOpType
  | CONV | CONV_POOL | FC | POOL
deriving DecidableEq

/-- `1 << static_cast<int>(mode)`. -/
def HwOpMode.chansPerBlock : HwOpMode → Int
  | .MODE_1_256 => 1
  | .MODE_2_128 => 2
  | .MODE_4_64 => 4
  | .MODE_8_32 => 8
  | .MODE_16_16 => 16

def CNN_MODES : List HwOpMode := [.MODE_1_256, .MODE_2_128, .MODE_4_64, .MODE_8_32, .MODE_16_16]

def CNN_MODES_COST : HwOpMode → Int
  | .MODE_1_256 => 0
  | .MODE_2_128 => 5
  | .MODE_4_64 => 11
  | .MODE_8_32 => 19
  | .MODE_16_16 => 31

def CNN_MAX_INPUT_WIDTH : Int := 4096
def CNN_MAX_INPUT_HEIGHT : Int := 4096
def CNN_MAX_INPUT_CHANNELS : Int := 2048
def CNN_MAX_OUTPUT_CHANNELS : Int := 2048
def CNN_MAX_BYTES : Int := 128 * 1024
def CNN_MAX_COEFF_PER_BLOCK : Int := 256
def CMX_DATA_BYTE_WIDTH : Int := 16

/-- `CNN_BYTES_PER_PIXEL` of FP16. -/
def bytesPerPixel : Int := 2

/-- `CNN_COEFF_PER_WORD_VALUES` of FP16. -/
def coeffPerWord : Int := 1

/-! ### The restrictions -/

def checkDimensions (inTileWidth inTileHeight inTileChannels outTileChannels : Int) : Bool :=
  inTileWidth ≤ CNN_MAX_INPUT_WIDTH ∧ inTileHeight ≤ CNN_MAX_INPUT_HEIGHT ∧
    inTileChannels ≤ CNN_MAX_INPUT_CHANNELS ∧ outTileChannels ≤ CNN_MAX_OUTPUT_CHANNELS

def checkCoeffPerBlockConv (kernelSizeX kernelSizeY noOfBlocks : Int) : Result Bool := do
  let coeffSetSize ← intArith "kernelSizeX * kernelSizeY" (kernelSizeX * kernelSizeY)
  let coeffs ← intArith "noOfBlocks * coeffSetSize" (noOfBlocks * coeffSetSize)
  let coeffLPB ← divUp coeffs coeffPerWord
  pure (coeffLPB ≤ CNN_MAX_COEFF_PER_BLOCK)

def checkLinesPerChanRestrictions (inTileWidth inTileHeight kernelSizeY kernelStride noOfBlocks chansPerBlock : Int) :
    Result Bool := do
  let bytes ← intArith "inTileWidth * bytesPerPixel" (inTileWidth * bytesPerPixel)
  let bytesPerLine ← alignVal bytes CMX_DATA_BYTE_WIDTH
  let chans ← intArith "noOfBlocks * chansPerBlock" (noOfBlocks * chansPerBlock)
  let bytesOfLines ← intArith "noOfBlocks * chansPerBlock * bytesPerLine" (chans * bytesPerLine)
  let linesPerChan := min (← intDiv "CNN_MAX_BYTES / (…)" CNN_MAX_BYTES bytesOfLines) inTileHeight
  let lines ← intArith "kernelSizeY + kernelStride" (kernelSizeY + kernelStride)
  let lines ← intArith "kernelSizeY + kernelStride + 2" (lines + 2)
  let lines ← intArith "kernelSizeY + kernelStride + 2 + …" (lines + if inTileWidth ≤ 8 then 1 else 0)
  let minLines := min lines inTileHeight
  pure (minLines ≤ linesPerChan)

def checkLinesPerChanRestrictionsPool (inTileWidth inTileHeight kernelSizeY : Int) (mode : HwOpMode) : Result Bool := do
  let sizeOfBlock := CNN_MAX_BYTES / mode.chansPerBlock
  let pixelsPerCMXLine := CMX_DATA_BYTE_WIDTH / bytesPerPixel
  let pixels ← intArith "inTileWidth + (pixelsPerCMXLine - 1)" (inTileWidth + (pixelsPerCMXLine - 1))
  let localLineStride := pixels.tdiv pixelsPerCMXLine
  let pixelsPerLine ← intArith "localLineStride * pixelsPerCMXLine" (localLineStride * pixelsPerCMXLine)
  let bytesPerLine ← intArith "localLineStride * pixelsPerCMXLine * bytesPerPixel" (pixelsPerLine * bytesPerPixel)
  let linesPerChan := min (← intDiv "availableBytesPerChan / bytesPerLine" sizeOfBlock bytesPerLine) inTileHeight
  pure (linesPerChan ≥ kernelSizeY)

section

variable (inTileWidth inTileHeight inTileChannels outTileChannels kernelSizeX kernelSizeY kernelStride : Int)

def checkHWRestrictions (mode : HwOpMode) (type : HwOpType) : Result Bool := do
  let chansPerBlock := mode.chansPerBlock
  let noOfBlocks ← divUp inTileChannels chansPerBlock
  let result := checkDimensions inTileWidth inTileHeight inTileChannels outTileChannels
  let (noOfBlocks, checked) ←
    if type = .POOL then do
      pure ((1 : Int), ← checkLinesPerChanRestrictionsPool inTileWidth inTileHeight kernelSizeY mode)
    else do
      pure (noOfBlocks, ← checkCoeffPerBlockConv kernelSizeX kernelSizeY noOfBlocks)
  let lines ← checkLinesPerChanRestrictions inTileWidth inTileHeight kernelSizeY kernelStride noOfBlocks chansPerBlock
  pure (result && checked && lines)

def checkConvHWRestrictions (mode : HwOpMode) : Result Bool :=
  checkHWRestrictions inTileWidth inTileHeight inTileChannels outTileChannels kernelSizeX kernelSizeY kernelStride mode
    .CONV

/-! ### The search -/

structure Solution where
  mode : HwOpMode := .MODE_1_256
  extendedInputDimC : Int := 0
  extendedOutputDimC : Int := 0
  numDescr : Int := 0
  outChansPerDescr : Int := 0
  remOutChans : Int := 0
  cost : Int := 2 ^ 31 - 1

structure HwConvTileInfo where
  mode : HwOpMode := .MODE_1_256
  numDescr : Int := 0
  outChansPerDescr : Int := 0
  lastOutChans : Int := 0
  extendedInputDimC : Int := 0
  extendedOutputDimC : Int := 0
  /-- A `double` that is an integer; the default is the largest one. -/
  cost : Int := (2 ^ 53 - 1) * 2 ^ 971

/-- The body of the loop for one mode, `none` for `continue`. -/
def convSolution (mode : HwOpMode) : Result (Option Solution) := do
  let inChansPerBlock := mode.chansPerBlock
  let outChansPerBlock := 256 / inChansPerBlock
  let extendedInputDimC ← alignVal inTileChannels inChansPerBlock
  let extendedOutputDimC ← alignVal outTileChannels 8
  let outChansPerDescr := min outChansPerBlock extendedOutputDimC
  let valid ← checkConvHWRestrictions inTileWidth inTileHeight inTileChannels outChansPerDescr kernelSizeX kernelSizeY
    kernelStride mode
  if ¬valid then pure none
  else do
    let coeffs ← intArith "… * kernelSizeX" (extendedInputDimC.tdiv inChansPerBlock * kernelSizeX)
    let coeffs ← intArith "… * kernelSizeX * kernelSizeY" (coeffs * kernelSizeY)
    let descCost ← intArith "… + CNN_MODES_COST[mode]" (coeffs + CNN_MODES_COST mode)
    let numDescr ← divUp outTileChannels outChansPerDescr
    let full ← intArith "(numDescr - 1) * outChansPerDescr" ((numDescr - 1) * outChansPerDescr)
    let remOutChans ← intArith "outTileChannels - …" (outTileChannels - full)
    let cost ← intArith "numDescr * descCost" (numDescr * descCost)
    pure (some { mode, extendedInputDimC, extendedOutputDimC, numDescr, outChansPerDescr, remOutChans, cost })

/-- One round of the loop. -/
def searchMode (bestSol : Solution) (mode : HwOpMode) : Result Solution := do
  match ← convSolution inTileWidth inTileHeight inTileChannels outTileChannels kernelSizeX kernelSizeY kernelStride mode with
  | none => pure bestSol
  | some curSol =>
    if curSol.cost < bestSol.cost ∨ curSol.cost = bestSol.cost ∧ curSol.numDescr < bestSol.numDescr then pure curSol
    else pure bestSol

def splitHwConvIntoOutChannelsTiles : Result HwConvTileInfo := do
  let bestSol ← CNN_MODES.foldlM (searchMode inTileWidth inTileHeight inTileChannels outTileChannels kernelSizeX
    kernelSizeY kernelStride) {}
  if bestSol.numDescr = 0 then pure {}
  else do
    ieAssert "bestSol.extendedInputDimC > 0" (bestSol.extendedInputDimC > 0)
    ieAssert "bestSol.extendedOutputDimC > 0" (bestSol.extendedOutputDimC > 0)
    ieAssert "bestSol.numDescr > 0" (bestSol.numDescr > 0)
    ieAssert "bestSol.outChansPerDescr > 0" (bestSol.outChansPerDescr > 0)
    pure {
      mode := bestSol.mode
      numDescr := bestSol.numDescr
      outChansPerDescr := bestSol.outChansPerDescr
      lastOutChans := if bestSol.remOutChans > 0 then bestSol.remOutChans else bestSol.outChansPerDescr
      extendedInputDimC := bestSol.extendedInputDimC
      extendedOutputDimC := bestSol.extendedOutputDimC
      cost := bestSol.cost }

end

/-! ### What a mode costs -/

/-- The channels of a descriptor: those of a block, unless the tile has less. -/
def outChans (outTileChannels : Int) (mode : HwOpMode) : Int :=
  min (256 / mode.chansPerBlock) ((outTileChannels + 7) / 8 * 8)

/-- The descriptors of `outChans` channels that the tile needs. -/
def descriptors (outTileChannels : Int) (mode : HwOpMode) : Int :=
  (outTileChannels + outChans outTileChannels mode - 1) / outChans outTileChannels mode

def tileCost (inTileChannels outTileChannels kernelSizeX kernelSizeY : Int) (mode : HwOpMode) : Int :=
  descriptors outTileChannels mode *
    ((inTileChannels + (mode.chansPerBlock - 1)) / mode.chansPerBlock * kernelSizeX * kernelSizeY + CNN_MODES_COST mode)

section

variable {inTileWidth inTileHeight inTileChannels outTileChannels kernelSizeX kernelSizeY kernelStride : Int}
  {mode : HwOpMode} {sol best best' : Solution} {modes : List HwOpMode} {tileInfo : HwConvTileInfo}

theorem chansPerBlock_pos (mode : HwOpMode) : 0 < mode.chansPerBlock := by
  cases mode <;> decide

/-- The descriptors cover the tile, and the last one is not empty. -/
theorem descriptors_cover (hpos : 0 < outChans outTileChannels mode) :
    0 < outTileChannels - (descriptors outTileChannels mode - 1) * outChans outTileChannels mode ∧
      outTileChannels - (descriptors outTileChannels mode - 1) * outChans outTileChannels mode ≤
        outChans outTileChannels mode := by
  have hsplit := Int.mul_ediv_add_emod (outTileChannels + outChans outTileChannels mode - 1) (outChans outTileChannels mode)
  have hlt := Int.emod_lt_of_pos (outTileChannels + outChans outTileChannels mode - 1) hpos
  have hnonneg := Int.emod_nonneg (outTileChannels + outChans outTileChannels mode - 1) hpos.ne'
  rw [descriptors, Int.sub_mul, Int.one_mul, Int.mul_comm]
  omega

/-- What the loop computes for a mode that the restrictions admit. -/
structure Solution.Solves (inTileWidth inTileHeight inTileChannels outTileChannels kernelSizeX kernelSizeY
    kernelStride : Int) (sol : Solution) : Prop where
  admitted : checkConvHWRestrictions inTileWidth inTileHeight inTileChannels (outChans outTileChannels sol.mode)
    kernelSizeX kernelSizeY kernelStride sol.mode = .ok true
  outChans_pos : 0 < outChans outTileChannels sol.mode
  outChans_eq : sol.outChansPerDescr = outChans outTileChannels sol.mode
  numDescr_eq : sol.numDescr = descriptors outTileChannels sol.mode
  rem_eq : sol.remOutChans = outTileChannels - (sol.numDescr - 1) * sol.outChansPerDescr
  cost_eq : sol.cost = tileCost inTileChannels outTileChannels kernelSizeX kernelSizeY sol.mode

theorem convSolution_some (h : convSolution inTileWidth inTileHeight inTileChannels outTileChannels kernelSizeX
    kernelSizeY kernelStride mode = .ok (some sol)) :
    sol.mode = mode ∧ sol.Solves inTileWidth inTileHeight inTileChannels outTileChannels kernelSizeX kernelSizeY
      kernelStride := by
  unfold convSolution at h
  simp only [bind_ok_iff] at h
  obtain ⟨extendedIn, hin, extendedOut, hout, valid, hvalid, h⟩ := h
  obtain ⟨-, rfl⟩ := alignVal_ok hin
  obtain ⟨-, rfl⟩ := alignVal_ok hout
  cases valid with
  | false => cases h
  | true =>
    simp only [not_true_eq_false, if_false, bind_ok_iff, intArith_ok_iff, pure_ok_iff, Option.some.injEq] at h
    obtain ⟨-, ⟨-, rfl⟩, -, ⟨-, rfl⟩, -, ⟨-, rfl⟩, numDescr, hdescr, -, ⟨-, rfl⟩, -, ⟨-, rfl⟩, -, ⟨-, rfl⟩, rfl⟩ := h
    obtain ⟨hpos, rfl⟩ := divUp_ok hdescr
    change 0 < outChans outTileChannels mode at hpos
    have hchannels : 0 < outTileChannels := by
      unfold outChans at hpos
      omega
    have hdescr' : (outTileChannels + outChans outTileChannels mode - 1).tdiv (outChans outTileChannels mode) =
        descriptors outTileChannels mode := Int.tdiv_eq_ediv_of_nonneg (by omega)
    have hblocks : ((inTileChannels + (mode.chansPerBlock - 1)) / mode.chansPerBlock * mode.chansPerBlock).tdiv
        mode.chansPerBlock = (inTileChannels + (mode.chansPerBlock - 1)) / mode.chansPerBlock :=
      Int.mul_tdiv_cancel _ (chansPerBlock_pos mode).ne'
    refine ⟨rfl, hvalid, hpos, rfl, hdescr', rfl, ?_⟩
    change (outTileChannels + outChans outTileChannels mode - 1).tdiv (outChans outTileChannels mode) * _ = _
    rw [hdescr', hblocks, tileCost]

/-- A mode that the restrictions admit has a solution. -/
theorem convSolution_admitted {o : Option Solution} (h : convSolution inTileWidth inTileHeight inTileChannels
    outTileChannels kernelSizeX kernelSizeY kernelStride mode = .ok o)
    (hvalid : checkConvHWRestrictions inTileWidth inTileHeight inTileChannels (outChans outTileChannels mode)
      kernelSizeX kernelSizeY kernelStride mode = .ok true) : ∃ sol, o = some sol := by
  unfold convSolution at h
  simp only [bind_ok_iff] at h
  obtain ⟨extendedIn, hin, extendedOut, hout, valid, hvalid', h⟩ := h
  obtain ⟨-, rfl⟩ := alignVal_ok hout
  have heq : Except.ok true = Except.ok valid := hvalid.symm.trans hvalid'
  obtain rfl := Except.ok.inj heq
  simp only [not_true_eq_false, if_false, bind_ok_iff, pure_ok_iff] at h
  obtain ⟨-, -, -, -, -, -, -, -, -, -, -, -, -, -, rfl⟩ := h
  exact ⟨_, rfl⟩

/-! ### The best of the modes -/

/-- After the modes `modes` the search has a solution of one of them or none, and no other of them is cheaper. -/
structure Best (inTileWidth inTileHeight inTileChannels outTileChannels kernelSizeX kernelSizeY kernelStride : Int)
    (modes : List HwOpMode) (best : Solution) : Prop where
  solves : best.numDescr ≠ 0 → best.mode ∈ modes ∧ best.Solves inTileWidth inTileHeight inTileChannels outTileChannels
    kernelSizeX kernelSizeY kernelStride
  cheapest : ∀ m ∈ modes, checkConvHWRestrictions inTileWidth inTileHeight inTileChannels (outChans outTileChannels m)
    kernelSizeX kernelSizeY kernelStride m = .ok true →
      best.cost ≤ tileCost inTileChannels outTileChannels kernelSizeX kernelSizeY m

theorem searchMode_best (h : searchMode inTileWidth inTileHeight inTileChannels outTileChannels kernelSizeX kernelSizeY
    kernelStride best mode = .ok best') (hbest : Best inTileWidth inTileHeight inTileChannels outTileChannels kernelSizeX
    kernelSizeY kernelStride modes best) :
    Best inTileWidth inTileHeight inTileChannels outTileChannels kernelSizeX kernelSizeY kernelStride (modes ++ [mode])
      best' := by
  obtain ⟨o, ho, hchoice⟩ := bind_ok_iff.mp h
  have hold : best.numDescr ≠ 0 → best.mode ∈ modes ++ [mode] ∧ best.Solves inTileWidth inTileHeight inTileChannels
      outTileChannels kernelSizeX kernelSizeY kernelStride := fun hne =>
    ⟨List.mem_append_left _ (hbest.solves hne).1, (hbest.solves hne).2⟩
  have hmem : ∀ m, m ∈ modes ++ [mode] ↔ m ∈ modes ∨ m = mode := by simp
  cases o with
  | none =>
    obtain rfl := pure_ok_iff.mp hchoice
    refine ⟨hold, fun m hm hadmitted => ?_⟩
    rcases (hmem m).mp hm with hm | rfl
    · exact hbest.cheapest m hm hadmitted
    · obtain ⟨sol, hsol⟩ := convSolution_admitted ho hadmitted
      cases hsol
  | some curSol =>
    obtain ⟨rfl, hsolves⟩ := convSolution_some ho
    dsimp only at hchoice
    split_ifs at hchoice with hbetter
    · obtain rfl := pure_ok_iff.mp hchoice
      refine ⟨fun _ => ⟨(hmem _).mpr (.inr rfl), hsolves⟩, fun m hm hadmitted => ?_⟩
      rcases (hmem m).mp hm with hm | rfl
      · have hle := hbest.cheapest m hm hadmitted
        omega
      · exact hsolves.cost_eq.le
    · obtain rfl := pure_ok_iff.mp hchoice
      refine ⟨hold, fun m hm hadmitted => ?_⟩
      rcases (hmem m).mp hm with hm | rfl
      · exact hbest.cheapest m hm hadmitted
      · rw [← hsolves.cost_eq]
        omega

/-- What a tiling of the output channels has to be. -/
structure HwConvTileInfo.Optimal (inTileWidth inTileHeight inTileChannels outTileChannels kernelSizeX kernelSizeY
    kernelStride : Int) (info : HwConvTileInfo) : Prop where
  covers : (info.numDescr - 1) * info.outChansPerDescr + info.lastOutChans = outTileChannels
  numDescr_pos : 0 < info.numDescr
  last_pos : 0 < info.lastOutChans
  last_le : info.lastOutChans ≤ info.outChansPerDescr
  mode_mem : info.mode ∈ CNN_MODES
  admitted : checkConvHWRestrictions inTileWidth inTileHeight inTileChannels info.outChansPerDescr kernelSizeX
    kernelSizeY kernelStride info.mode = .ok true
  cost_eq : info.cost = tileCost inTileChannels outTileChannels kernelSizeX kernelSizeY info.mode
  cheapest : ∀ mode ∈ CNN_MODES, checkConvHWRestrictions inTileWidth inTileHeight inTileChannels
    (outChans outTileChannels mode) kernelSizeX kernelSizeY kernelStride mode = .ok true →
      info.cost ≤ tileCost inTileChannels outTileChannels kernelSizeX kernelSizeY mode

/-- **The tiling over output channels** covers the channels of the tile, and no mode that the restrictions admit is
cheaper. -/
theorem splitHwConv_optimal (h : splitHwConvIntoOutChannelsTiles inTileWidth inTileHeight inTileChannels outTileChannels
    kernelSizeX kernelSizeY kernelStride = .ok tileInfo) (hdescr : 1 ≤ tileInfo.numDescr) :
    tileInfo.Optimal inTileWidth inTileHeight inTileChannels outTileChannels kernelSizeX kernelSizeY kernelStride := by
  obtain ⟨bestSol, hloop, h⟩ := bind_ok_iff.mp h
  have hbest : Best inTileWidth inTileHeight inTileChannels outTileChannels kernelSizeX kernelSizeY kernelStride CNN_MODES
      bestSol := by
    refine foldlM_ok_induct hloop ⟨fun hne => absurd rfl hne, fun m hm => absurd hm List.not_mem_nil⟩ ?_
    intro pre mode post best best' _ hpre hstep
    exact searchMode_best hstep hpre
  by_cases hzero : bestSol.numDescr = 0
  · rw [if_pos hzero] at h
    obtain rfl := pure_ok_iff.mp h
    exact absurd hdescr (by decide)
  · rw [if_neg hzero] at h
    simp only [ieAssert_bind_ok_iff, pure_ok_iff] at h
    obtain ⟨-, -, hpos, -, rfl⟩ := h
    obtain ⟨hmem, hsolves⟩ := hbest.solves hzero
    have hcover := descriptors_cover hsolves.outChans_pos
    rw [← hsolves.numDescr_eq, ← hsolves.outChans_eq, ← hsolves.rem_eq] at hcover
    have hlast : (if bestSol.remOutChans > 0 then bestSol.remOutChans else bestSol.outChansPerDescr) =
        bestSol.remOutChans := if_pos hcover.1
    refine ⟨?_, hpos, ?_, ?_, hmem, ?_, hsolves.cost_eq, hbest.cheapest⟩
    · rw [hlast, hsolves.rem_eq]
      exact add_sub_cancel ..
    · rw [hlast]
      exact hcover.1
    · rw [hlast]
      exact hcover.2
    · rw [hsolves.outChans_eq]
      exact hsolves.admitted

/-- 20 input and 300 output channels, kernel 3x3 on 32x32 pixels: five descriptors, the last one of 44 channels. -/
theorem optimal_fiveDescriptors : ∃ info,
    splitHwConvIntoOutChannelsTiles 32 32 20 300 3 3 1 = .ok info ∧ 1 ≤ info.numDescr ∧
      info.Optimal 32 32 20 300 3 3 1 :=
  ⟨_, rfl, by decide, splitHwConv_optimal rfl (by decide)⟩

end

end OpenVino.Vpu
