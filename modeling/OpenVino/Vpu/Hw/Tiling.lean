import OpenVino.Base.Exception
import Mathlib.Data.List.Basic

/-!
# Plane tiles

`splitIntoPlaneTiles` of `hw/tiling.cpp` with the functions it calls. An `int` is an `Int`, and `/` of
C++ is `Int.tdiv`: it truncates, which matters when the kernel is larger than the padded input.

The `while` loops run on fuel; the amounts given here are enough for every positive stride
(`stepDown_eq`, `countJunk_eq`, `shrinkOutput_ok`, `planeTiles_fuel`).
-/

namespace OpenVino.Vpu

/-- `calcOutputSize`; the `double` quotient of two `int`s lies on the same side of each integer as the
exact one, so `useCeil` is the ceiling of the exact quotient. -/
def calcOutputSize (inputSize kernelSize kernelStride padBefore padAfter : Int) (useCeil : Bool) : Int :=
  if useCeil then -((-(inputSize - kernelSize + padBefore + padAfter)).fdiv kernelStride) + 1
  else (inputSize - kernelSize + padBefore + padAfter).tdiv kernelStride + 1

structure HwPlaneTileInfo where
  inputWithJunk : Int := 0
  outputWithJunk : Int := 0
  outputJunkBefore : Int := 0
  outputJunkAfter : Int := 0
  inputStartIndex : Int := 0
  inputEndIndex : Int := 0
  outputStartIndex : Int := 0
  outputEndIndex : Int := 0

/-- The tuple that `inputTileForOutputTile` returns. -/
structure InputTile where
  inputStartIndex : Int
  inputEndIndex : Int
  inputLinesBefore : Int
  inputLinesAfter : Int
  outputStartIndex : Int
  outputEndIndex : Int
  junkOutputBefore : Int
  junkOutputAfter : Int

/-- `while (inputLinesBefore >= kernelStride) inputLinesBefore -= kernelStride;` -/
def stepDown (kernelStride : Int) : Nat → Int → Result Int
  | 0, _ => .error .outOfFuel
  | fuel + 1, inputLinesBefore =>
    if inputLinesBefore ≥ kernelStride then stepDown kernelStride fuel (inputLinesBefore - kernelStride)
    else pure inputLinesBefore

/-- `while (paddingUsed + kernelStride <= padAfter) { paddingUsed += kernelStride; junkOutputAfter += 1; }` -/
def countJunk (kernelStride padAfter : Int) : Nat → Int → Int → Result Int
  | 0, _, _ => .error .outOfFuel
  | fuel + 1, paddingUsed, junkOutputAfter =>
    if paddingUsed + kernelStride ≤ padAfter then
      countJunk kernelStride padAfter fuel (paddingUsed + kernelStride) (junkOutputAfter + 1)
    else pure junkOutputAfter

section

variable (inputSize outputSize kernelSize kernelStride padBefore padAfter maxOutputSize : Int)
  (useCeil : Bool)

/-- The first half of `inputTileForOutputTile`: `inputStartIndex`, `inputLinesBefore` and
`junkOutputBefore`. -/
def tileStart (outputStartIndex : Int) : Result (Int × Int × Int) :=
  let inputStartIndex := outputStartIndex * kernelStride - padBefore
  if inputStartIndex < 0 then
    pure (0, 0, if outputStartIndex = 0 then 0 else outputStartIndex)
  else do
    let inputLinesBefore ← stepDown kernelStride (inputStartIndex.toNat + 1) inputStartIndex
    pure (inputStartIndex, inputLinesBefore, (inputLinesBefore + padBefore).tdiv kernelStride)

/-- The second half: `inputEndIndex` and `junkOutputAfter`. -/
def tileEnd (outputEndIndex : Int) : Result (Int × Int) :=
  let inputEndIndex := (outputEndIndex - 1) * kernelStride + kernelSize - padBefore
  if inputEndIndex > inputSize then do
    let paddingUsed := inputEndIndex - inputSize
    let junkOutputAfter ← countJunk kernelStride padAfter (padAfter.toNat + 1) paddingUsed 0
    pure (inputSize, junkOutputAfter)
  else do
    let junkOutputAfter ← countJunk kernelStride padAfter (padAfter.toNat + 1) 0 0
    pure (inputEndIndex, junkOutputAfter)

def inputTileForOutputTile (outputStartIndex outputEndIndex : Int) : Result InputTile := do
  let (inputStartIndex, inputLinesBefore, junkOutputBefore) ←
    tileStart kernelStride padBefore outputStartIndex
  let (inputEndIndex, junkOutputAfter) ←
    tileEnd inputSize kernelSize kernelStride padBefore padAfter outputEndIndex
  pure {
    inputStartIndex, inputEndIndex, inputLinesBefore, inputLinesAfter := 0
    outputStartIndex, outputEndIndex, junkOutputBefore, junkOutputAfter }

/-- The lambda of `maximizeOutput`. -/
def isValid (totalOutputSlice outputEndIndex : Int) : Bool :=
  totalOutputSlice ≤ maxOutputSize ∧ outputEndIndex ≤ outputSize

/-- `junkOutputBefore + (outputEndIndex - outputStartIndex) + junkOutputAfter` for an output range. -/
def totalOutputSlice (outputStartIndex outputEndIndex : Int) : Result Int := do
  let t ← inputTileForOutputTile inputSize kernelSize kernelStride padBefore padAfter
    outputStartIndex outputEndIndex
  pure (t.junkOutputBefore + (outputEndIndex - outputStartIndex) + t.junkOutputAfter)

/-- The `while` loop of `maximizeOutput`, on `totalOutputSlice` and `outputEndIndex + extraLines`. -/
def shrinkOutput (outputStartIndex : Int) : Nat → Int → Int → Result (Int × Int)
  | 0, _, _ => .error .outOfFuel
  | fuel + 1, total, outputEndIndex =>
    if isValid outputSize maxOutputSize total outputEndIndex then pure (total, outputEndIndex)
    else do
      let total ← totalOutputSlice inputSize kernelSize kernelStride padBefore padAfter
        outputStartIndex (outputEndIndex - 1)
      shrinkOutput outputStartIndex fuel total (outputEndIndex - 1)

def maximizeOutput (outputStartIndex outputEndIndex : Int) : Result Int := do
  let outputSize := calcOutputSize inputSize kernelSize kernelStride padBefore padAfter useCeil
  let total ← totalOutputSlice inputSize kernelSize kernelStride padBefore padAfter
    outputStartIndex outputEndIndex
  let fuel := (total + padAfter).toNat + (outputEndIndex - outputSize).toNat + 1
  let (total, newOutputEndIndex) ← shrinkOutput inputSize outputSize kernelSize kernelStride padBefore
    padAfter maxOutputSize outputStartIndex fuel total outputEndIndex
  pure (newOutputEndIndex + if isValid outputSize maxOutputSize total outputEndIndex then 0 else 1)

/-- The assertions of `splitIntoPlaneTiles` on a tuple, and the tile made of it. -/
def checkTile (t : InputTile) : Result HwPlaneTileInfo := do
  ieAssert "inputStartIndex >= 0" (t.inputStartIndex ≥ 0)
  ieAssert "inputEndIndex >= 0" (t.inputEndIndex ≥ 0)
  ieAssert "inputEndIndex > inputStartIndex" (t.inputEndIndex > t.inputStartIndex)
  ieAssert "inputLinesBefore >= 0" (t.inputLinesBefore ≥ 0)
  ieAssert "inputLinesAfter >= 0" (t.inputLinesAfter ≥ 0)
  ieAssert "inputStartIndex - inputLinesBefore >= 0" (t.inputStartIndex - t.inputLinesBefore ≥ 0)
  ieAssert "inputEndIndex + inputLinesAfter >= 0" (t.inputEndIndex + t.inputLinesAfter ≥ 0)
  ieAssert "inputEndIndex + inputLinesAfter <= inputSize" (t.inputEndIndex + t.inputLinesAfter ≤ inputSize)
  ieAssert "inputLinesBefore + inputEndIndex - inputStartIndex + inputLinesAfter >= 0"
    (t.inputLinesBefore + t.inputEndIndex - t.inputStartIndex + t.inputLinesAfter ≥ 0)
  ieAssert "junkOutputBefore + outputEndIndex - outputStartIndex + junkOutputAfter >= 0"
    (t.junkOutputBefore + t.outputEndIndex - t.outputStartIndex + t.junkOutputAfter ≥ 0)
  ieAssert "junkOutputBefore >= 0" (t.junkOutputBefore ≥ 0)
  ieAssert "junkOutputAfter >= 0" (t.junkOutputAfter ≥ 0)
  ieAssert "outputStartIndex >= 0" (t.outputStartIndex ≥ 0)
  ieAssert "outputEndIndex >= 0" (t.outputEndIndex ≥ 0)
  ieAssert "outputEndIndex <= outputSize" (t.outputEndIndex ≤ outputSize)
  pure {
    inputWithJunk := t.inputLinesBefore + t.inputEndIndex - t.inputStartIndex + t.inputLinesAfter
    outputWithJunk := t.junkOutputBefore + t.outputEndIndex - t.outputStartIndex + t.junkOutputAfter
    outputJunkBefore := t.junkOutputBefore
    outputJunkAfter := t.junkOutputAfter
    inputStartIndex := t.inputStartIndex - t.inputLinesBefore
    inputEndIndex := t.inputEndIndex + t.inputLinesAfter
    outputStartIndex := t.outputStartIndex
    outputEndIndex := t.outputEndIndex }

/-- One pass of the loop of `splitIntoPlaneTiles`; `none` is the return of an empty list. -/
def planeTile (outputStartIndex : Int) : Result (Option HwPlaneTileInfo) := do
  let outputEndIndex := min outputSize (outputStartIndex + maxOutputSize)
  ieAssert "outputEndIndex > outputStartIndex" (outputEndIndex > outputStartIndex)
  let newOutputEndIndex ← maximizeOutput inputSize kernelSize kernelStride padBefore padAfter maxOutputSize
    useCeil outputStartIndex outputEndIndex
  if newOutputEndIndex ≤ outputStartIndex then
    pure none
  else do
    let t ← inputTileForOutputTile inputSize kernelSize kernelStride padBefore padAfter
      outputStartIndex newOutputEndIndex
    let info ← checkTile inputSize outputSize t
    pure (some info)

/-- The `while (true)` loop of `splitIntoPlaneTiles`. -/
def planeTilesLoop : Nat → Int → List HwPlaneTileInfo → Result (List HwPlaneTileInfo)
  | 0, _, _ => .error .outOfFuel
  | fuel + 1, outputStartIndex, tiles => do
    match ← planeTile inputSize outputSize kernelSize kernelStride padBefore padAfter maxOutputSize useCeil
        outputStartIndex with
    | none => pure []
    | some info =>
      let tiles := tiles ++ [info]
      if info.outputEndIndex ≥ outputSize then
        pure tiles
      else do
        ieAssert "newOutputStartIndex > outputStartIndex" (info.outputEndIndex > info.outputStartIndex)
        planeTilesLoop fuel info.outputEndIndex tiles

def splitIntoPlaneTiles : Result (List HwPlaneTileInfo) := do
  ieAssert "inputSize > 0" (inputSize > 0)
  ieAssert "outputSize > 0" (outputSize > 0)
  ieAssert "maxOutputSize > 0" (maxOutputSize > 0)
  planeTilesLoop inputSize outputSize kernelSize kernelStride padBefore padAfter maxOutputSize useCeil
    (outputSize.toNat + 1) 0 []

end

end OpenVino.Vpu
