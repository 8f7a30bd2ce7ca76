import OpenVino.Base.SingleFloat
import OpenVino.Vpu.Model.Strides
import OpenVino.Vpu.Passes.ConvStages

/-!
# Dilated convolution by sub-images

`reshapeDilationConv`: a dilated convolution becomes convolutions of the sub-images that its dilation reads, which
reshapes, permutations, a split and a concatenation take apart and put together again. Only `padLeft` and
`padTop` are checked to be multiples of the dilation. `reshapeDilationConv_wellFormed_iff` says which of the
convolutions that pass the guards come out well formed.

Overflow of `int` is left out.
-/

namespace OpenVino.Vpu

open OpenVino.InferenceEngine (elemAt elemAt_ok_iff)

/-- The dims of a `DataDesc` of order `NCHW`. -/
structure StageDims where
  W : Int
  H : Int
  C : Int
  N : Int
deriving DecidableEq

def StageDims.totalDimSize (d : StageDims) : Int := d.W * d.H * d.C * d.N

/-- A part of a `Split` or `Concat` stage, with its offset. -/
structure SubPart where
  offsetN : Int
  offsetW : Int
  dims : StageDims

inductive AddedStage
  | Pad (input output : StageDims)
  | Reshape (input output : StageDims)
  | Permute (input output : StageDims)
  | Split (input : StageDims) (outputs : List SubPart)
  | StubConv (attrs : StubStage) (input output : StageDims)
  | Shrink (input output : StageDims)
  | Concat (inputs : List SubPart) (output : StageDims)

def addReshapeStage (input output : StageDims) : Result AddedStage := do
  ieAssert "input->desc().totalDimSize() == output->desc().totalDimSize()" (input.totalDimSize = output.totalDimSize)
  return .Reshape input output

/-! ### The two axes -/

/-- `divUp(size, unit) * unit` -/
def roundedUp (size unit : Int) : Int := (size + unit - 1).tdiv unit * unit

/-- `Sub_output_dilationX_dimenion`, `Sub_output_dilationY_dimenion` -/
def subOutputDilation (dilation kernelStride : Nat) : Nat :=
  if dilation / kernelStride > 1 then dilation / kernelStride else 1

/-- `kernelStrideX_new`, `kernelStrideY_new` -/
def kernelStrideNew (dilation kernelStride : Nat) : Nat :=
  if dilation / kernelStride > 1 then 1 else kernelStride / dilation

/-- `for (int i = 0; i < bound; i += step)` -/
def loopFromZero (bound step : Nat) : List Nat := (List.range ((bound + step - 1) / step)).map (· * step)

/-- The size and the padding after an `if` on the size. -/
def adjusted (size wanted padding newPadding : Int) : Int × Int :=
  if size ≠ wanted then (wanted, newPadding) else (size, padding)

/-- How many places a kernel has on an axis. -/
def kernelPlaces (size kernelSize kernelStride padBefore padAfter : Int) : Int :=
  (size + padBefore + padAfter - kernelSize) / kernelStride + 1

def MAX_INPUTEXTENDED_SCALE : ℚ := nearest (18 / 10)

/-- A `StubConv` stage that the pass looks at. Its output has a place for every place of the kernel. -/
structure DilatedConv where
  attrs : StubStage
  tryHW : Bool
  type : DataType
  input : StageDims
  output : StageDims
  inputIsNCHW : Bool
  outputIsNCHW : Bool
  kernel_pos : 0 < attrs.kernelSizeX ∧ 0 < attrs.kernelSizeY
  stride_pos : 0 < attrs.kernelStrideX ∧ 0 < attrs.kernelStrideY
  pads_nonneg : 0 ≤ attrs.padLeft ∧ 0 ≤ attrs.padRight ∧ 0 ≤ attrs.padTop ∧ 0 ≤ attrs.padBottom
  input_pos : 0 < input.W ∧ 0 < input.H ∧ 0 < input.C ∧ 0 < input.N
  output_pos : 0 < output.W ∧ 0 < output.H ∧ 0 < output.C
  output_width : output.W = kernelPlaces input.W (attrs.dilationX * (attrs.kernelSizeX - 1) + 1) attrs.kernelStrideX
    attrs.padLeft attrs.padRight
  output_height : output.H = kernelPlaces input.H (attrs.dilationY * (attrs.kernelSizeY - 1) + 1) attrs.kernelStrideY
    attrs.padTop attrs.padBottom
  output_batch : output.N = input.N

namespace DilatedConv

variable (c : DilatedConv)

/-! ### The guards -/

def elemSize : Int :=
  match c.type with
  | .U8 => 1
  | .I8 => 1
  | .FP16 => 2
  | .FP32 => 4
  | .S32 => 4

def pixel_stride_alignment : Int := STRIDE_ALIGNMENT.tdiv c.elemSize

def InputExtended_width : Int := roundedUp c.input.W (c.attrs.dilationX * c.pixel_stride_alignment)

def InputExtended_height : Int := roundedUp c.input.H c.attrs.dilationY

def InputExtended_scale : ℚ :=
  max (nearest (nearest c.InputExtended_width / nearest c.input.W))
    (nearest (nearest c.InputExtended_height / nearest c.input.H))

/-- No `continue` of the loop is taken. -/
def accepted : Prop :=
  let a := c.attrs
  ¬(a.dilationX ≤ 1 ∧ a.dilationY ≤ 1) ∧
  ¬a.groupSize ≠ 1 ∧
  ¬(a.padLeft.tmod a.dilationX ≠ 0 ∨ a.padTop.tmod a.dilationY ≠ 0) ∧
  ¬(max a.dilationX a.kernelStrideX % min a.dilationX a.kernelStrideX ≠ 0 ∨
    max a.dilationY a.kernelStrideY % min a.dilationY a.kernelStrideY ≠ 0) ∧
  ¬c.input.N > 1 ∧
  ¬(c.inputIsNCHW = false ∨ c.outputIsNCHW = false) ∧
  ¬c.InputExtended_scale ≥ MAX_INPUTEXTENDED_SCALE

instance : Decidable c.accepted := inferInstanceAs (Decidable (_ ∧ _))

def Expand_mark : Bool := decide (c.InputExtended_scale > 1)

/-! ### The data -/

def InputExtended : StageDims :=
  if c.Expand_mark then { c.input with W := c.InputExtended_width, H := c.InputExtended_height } else c.input

def Reinterpret_inputdata : StageDims where
  W := c.attrs.dilationX
  H := c.InputExtended.W.tdiv c.attrs.dilationX
  C := c.InputExtended.H
  N := c.InputExtended.C

def Permuted_inputdata : StageDims where
  W := c.InputExtended.W.tdiv c.attrs.dilationX
  H := c.InputExtended.H
  C := c.InputExtended.C
  N := c.attrs.dilationX

def Reshape_Permuted_inputdata : StageDims :=
  { c.Permuted_inputdata with
    H := c.Permuted_inputdata.H.tdiv c.attrs.dilationY
    W := c.Permuted_inputdata.W * c.attrs.dilationY }

def Sub_inputdata : StageDims where
  W := c.Permuted_inputdata.W
  H := c.Permuted_inputdata.H.tdiv c.attrs.dilationY
  C := c.Permuted_inputdata.C
  N := 1

def Sub_output_dilationX_dimenion : Nat := subOutputDilation c.attrs.dilationX c.attrs.kernelStrideX

def Sub_output_dilationY_dimenion : Nat := subOutputDilation c.attrs.dilationY c.attrs.kernelStrideY

def kernelStrideX_new : Nat := kernelStrideNew c.attrs.dilationX c.attrs.kernelStrideX

def kernelStrideY_new : Nat := kernelStrideNew c.attrs.dilationY c.attrs.kernelStrideY

def padLeft_new : Int := c.attrs.padLeft.tdiv c.attrs.dilationX

def padTop_new : Int := c.attrs.padTop.tdiv c.attrs.dilationY

/-- The width is divided by the number of sub-images, the height is not. -/
def Subtensors_outputdata : StageDims where
  W := ((c.InputExtended.W + c.attrs.padLeft + c.attrs.padRight - c.attrs.dilationX * (c.attrs.kernelSizeX - 1) - 1 +
    c.attrs.kernelStrideX).tdiv c.attrs.kernelStrideX).tdiv c.Sub_output_dilationX_dimenion
  H := (c.InputExtended.H + c.attrs.padTop + c.attrs.padBottom - c.attrs.dilationY * (c.attrs.kernelSizeY - 1) - 1 +
    c.attrs.kernelStrideY).tdiv c.attrs.kernelStrideY
  C := c.output.C
  N := c.Sub_output_dilationX_dimenion

/-- `Real_sub_outputdata_width` and `padRight_new` after the first `if`. -/
def realWidth : Int × Int :=
  let padRight_new := c.attrs.padRight.tdiv c.attrs.dilationX
  adjusted ((c.Sub_inputdata.W + c.padLeft_new + padRight_new - c.attrs.kernelSizeX).tdiv c.kernelStrideX_new + 1)
    c.Subtensors_outputdata.W padRight_new ((c.Subtensors_outputdata.W - 1) * c.kernelStrideX_new +
      c.attrs.kernelSizeX - c.padLeft_new - c.Sub_inputdata.W)

/-- `Real_sub_outputdata_height` and `padBottom_new`: the padding is that of the undivided height. -/
def realHeight : Int × Int :=
  let padBottom_new := c.attrs.padBottom.tdiv c.attrs.dilationY
  adjusted ((c.Sub_inputdata.H + c.padTop_new + padBottom_new - c.attrs.kernelSizeY).tdiv c.kernelStrideY_new + 1)
    (c.Subtensors_outputdata.H.tdiv c.Sub_output_dilationY_dimenion) padBottom_new
    ((c.Subtensors_outputdata.H - 1) * c.kernelStrideY_new + c.attrs.kernelSizeY - c.padTop_new - c.Sub_inputdata.H)

def Sub_outputdata_expand : Bool := decide (c.realWidth.1.tmod c.pixel_stride_alignment ≠ 0)

def Sub_outputdata_width : Int :=
  if c.Sub_outputdata_expand then roundedUp c.realWidth.1 c.pixel_stride_alignment else c.realWidth.1

def padRight_new : Int :=
  if c.Sub_outputdata_expand then
    (c.Sub_outputdata_width - 1) * c.kernelStrideX_new + c.attrs.kernelSizeX - c.padLeft_new - c.Sub_inputdata.W
  else c.realWidth.2

def Real_sub_outputdata : StageDims where
  W := c.realWidth.1
  H := c.realHeight.1
  C := c.Subtensors_outputdata.C
  N := 1

def Sub_outputdata : StageDims := { c.Real_sub_outputdata with W := c.Sub_outputdata_width }

def Reshape_Permuted_outputdata : StageDims :=
  { c.Subtensors_outputdata with
    H := c.Subtensors_outputdata.H.tdiv c.Sub_output_dilationY_dimenion
    W := c.Subtensors_outputdata.W * c.Sub_output_dilationY_dimenion }

def permute_outputdata : StageDims where
  W := c.Subtensors_outputdata.N
  H := c.Subtensors_outputdata.W
  C := c.Subtensors_outputdata.H
  N := c.Subtensors_outputdata.C

def Reinterpret_outputdata : StageDims where
  W := c.permute_outputdata.W * c.permute_outputdata.H
  H := c.permute_outputdata.C
  C := c.permute_outputdata.N
  N := 1

/-! ### The stages -/

/-- The indices of the loops over the sub-images. -/
def dilationInds : List (Nat × Nat) :=
  (loopFromZero c.attrs.dilationX (c.attrs.dilationX / c.Sub_output_dilationX_dimenion)).flatMap fun dilationXInd =>
    (loopFromZero c.attrs.dilationY (c.attrs.dilationY / c.Sub_output_dilationY_dimenion)).map fun dilationYInd =>
      (dilationXInd, dilationYInd)

def inputPart (i : Nat × Nat) : SubPart where
  offsetN := i.1
  offsetW := i.2 * c.Sub_inputdata.W
  dims := c.Sub_inputdata

/-- Without `Sub_outputdata_expand` the part is `Sub_outputdata`, which then has the same dims. -/
def outputPart (i : Nat × Nat) : SubPart where
  offsetN := (i.1 * c.Sub_output_dilationX_dimenion / c.attrs.dilationX : Nat)
  offsetW := (i.2 * c.Sub_output_dilationY_dimenion / c.attrs.dilationY : Nat) * c.Real_sub_outputdata.W
  dims := c.Real_sub_outputdata

def V_Sub_inputdata : List SubPart := c.dilationInds.map c.inputPart

def V_Sub_outputdata : List SubPart := c.dilationInds.map c.outputPart

def newStage : StubStage where
  kernelSizeX := c.attrs.kernelSizeX
  kernelSizeY := c.attrs.kernelSizeY
  kernelStrideX := c.kernelStrideX_new
  kernelStrideY := c.kernelStrideY_new
  padLeft := c.padLeft_new
  padRight := c.padRight_new
  padTop := c.padTop_new
  padBottom := c.realHeight.2
  dilationX := 1
  dilationY := 1
  groupSize := c.attrs.groupSize
  scaleFactor := c.attrs.scaleFactor

/-- The body of the loops over the sub-images; the parts at `ind` are read. -/
def subConv (ind : Nat) : Result (List AddedStage) := do
  let input ← elemAt "V_Sub_inputdata[ind]" c.V_Sub_inputdata ind
  let output ← elemAt "V_Sub_outputdata[ind]" c.V_Sub_outputdata ind
  return .StubConv c.newStage input.dims c.Sub_outputdata ::
    if c.Sub_outputdata_expand then [.Shrink c.Sub_outputdata output.dims] else []

def subConvs : Result (List AddedStage) := do
  let stages ← (List.range c.Sub_output_dilationX_dimenion).mapM fun Sub_output_XInd =>
    (List.range c.Sub_output_dilationY_dimenion).mapM fun Sub_output_YInd =>
      c.subConv (Sub_output_XInd * c.Sub_output_dilationY_dimenion + Sub_output_YInd)
  return (stages.map List.flatten).flatten

/-- The stages after the branch on `Expand_mark`. -/
def finalStages : Result (List AddedStage) := do
  if c.Expand_mark then
    return [← addReshapeStage c.permute_outputdata c.Reinterpret_outputdata, .Shrink c.Reinterpret_outputdata c.output]
  else return [← addReshapeStage c.permute_outputdata c.output]

/-- All stages that are added, in their order. -/
def stageList (convs final : List AddedStage) : List AddedStage :=
  (if c.Expand_mark then [.Pad c.input c.InputExtended] else []) ++
    [.Reshape c.InputExtended c.Reinterpret_inputdata, .Permute c.Reinterpret_inputdata c.Permuted_inputdata,
      .Reshape c.Permuted_inputdata c.Reshape_Permuted_inputdata,
      .Split c.Reshape_Permuted_inputdata c.V_Sub_inputdata] ++
    convs ++
    [.Concat c.V_Sub_outputdata c.Reshape_Permuted_outputdata,
      .Reshape c.Reshape_Permuted_outputdata c.Subtensors_outputdata,
      .Permute c.Subtensors_outputdata c.permute_outputdata] ++
    final

/-- What the pass puts in the place of the stage. -/
def addedStages : Result (List AddedStage) := do
  let _ ← addReshapeStage c.InputExtended c.Reinterpret_inputdata
  let _ ← addReshapeStage c.Permuted_inputdata c.Reshape_Permuted_inputdata
  let convs ← c.subConvs
  let _ ← addReshapeStage c.Reshape_Permuted_outputdata c.Subtensors_outputdata
  let final ← c.finalStages
  return c.stageList convs final

/-- The pass for one stage, `none` for a stage that stays. -/
def reshapeDilationConv : Result (Option (List AddedStage)) := do
  if c.tryHW = false then return none
  ieAssert "dilationX >= 1" (1 ≤ c.attrs.dilationX)
  ieAssert "dilationY >= 1" (1 ≤ c.attrs.dilationY)
  if c.accepted then return some (← c.addedStages) else return none

end DilatedConv

/-! ### One axis -/

/-- The stride is a part of the dilation, so that `X` sub-images are read with stride 1, or a multiple of it, so
that one is read with stride `t`. -/
inductive SubAxis (D s X t : Int) : Prop
  | subImages (hD : D = s * X) (ht : t = 1) (hX : 1 ≤ X)
  | subStride (hs : s = D * t) (hX : X = 1) (ht : 2 ≤ t)

section Axis

variable {D s X t n l k m pad size : Int}

theorem subAxis {D s : Nat} (hD : 0 < D) (hs : 0 < s) (h : max D s % min D s = 0) :
    SubAxis D s (subOutputDilation D s) (kernelStrideNew D s) := by
  unfold subOutputDilation kernelStrideNew
  rcases le_or_gt s D with hle | hlt
  · rw [max_eq_left hle, min_eq_right hle] at h
    obtain ⟨X, rfl⟩ := Nat.dvd_of_mod_eq_zero h
    have hX : 0 < X := Nat.pos_of_mul_pos_left hD
    rw [Nat.mul_div_cancel_left X hs]
    refine .subImages ?_ ?_ ?_
    · split_ifs with hgt
      · push_cast
        rfl
      · have hone : X = 1 := by omega
        simp [hone]
    · split_ifs with hgt
      · rfl
      · have hone : X = 1 := by omega
        rw [hone, Nat.mul_one, Nat.div_self hs]
        rfl
    · split_ifs <;> omega
  · rw [max_eq_right hlt.le, min_eq_left hlt.le] at h
    obtain ⟨t, rfl⟩ := Nat.dvd_of_mod_eq_zero h
    have ht : 2 ≤ t := by
      by_contra hsmall
      have : t = 0 ∨ t = 1 := by omega
      rcases this with rfl | rfl <;> omega
    rw [Nat.div_eq_of_lt hlt, if_neg (by omega), if_neg (by omega), Nat.mul_div_cancel_left t hD]
    refine .subStride ?_ rfl (by exact_mod_cast ht)
    push_cast
    rfl

theorem SubAxis.pos (h : SubAxis D s X t) : 1 ≤ X ∧ 1 ≤ t := by
  cases h <;> omega

theorem roundedUp_spec (hunit : 0 < size) (hn : 0 ≤ n) : size ∣ roundedUp n size ∧ n ≤ roundedUp n size := by
  unfold roundedUp
  rw [Int.tdiv_eq_ediv_of_nonneg (by omega)]
  refine ⟨Int.dvd_mul_left _ _, ?_⟩
  have hlt := Int.lt_ediv_add_one_mul_self (n + size - 1) hunit
  rw [Int.add_mul] at hlt
  omega

/-- The places on an axis that is extended to a multiple of the dilation. -/
theorem kernelPlaces_multiple (n l k pad : Int) (hs : 0 < s) (hD : D = s * X) :
    kernelPlaces (D * n) (D * (k - 1) + 1) s (D * l) pad = X * (n + l - k + 1) + (pad + s - 1) / s := by
  have hsplit : D * n + D * l + pad - (D * (k - 1) + 1) = pad - 1 + s * (X * (n + l - k + 1)) := by
    rw [hD]
    ring
  have hlast : pad + s - 1 = pad - 1 + s * 1 := by omega
  rw [kernelPlaces, hsplit, Int.add_mul_ediv_left _ _ hs.ne', hlast, Int.add_mul_ediv_left _ _ hs.ne']
  omega

/-- Rounded up to the stride and divided by the number of sub-images. -/
theorem ceil_ediv (hs : 0 < s) (hD : D = s * X) : (pad + s - 1) / s / X = (pad + s - 1) / D := by
  rw [Int.ediv_ediv_of_nonneg hs.le, hD]

/-- The padded places are those of whole sub-images, and as many as a padding in whole sub-images gives. -/
theorem padding_divides_iff (hs : 0 < s) (hX : 1 ≤ X) (hD : D = s * X) :
    (X ∣ X * m + (pad + s - 1) / s ∧ (X * m + (pad + s - 1) / s) / X = m + pad / D) ↔ D ∣ pad := by
  have hXpos : X ≠ 0 := by omega
  have hDpos : 0 < D := by
    rw [hD]
    exact Int.mul_pos hs (by omega)
  rw [Int.add_comm (X * m), Int.add_mul_ediv_left _ _ hXpos, Int.dvd_add_left (Int.dvd_mul_right X m)]
  constructor
  · rintro ⟨⟨q, hq⟩, hdiv⟩
    rw [hq, Int.mul_ediv_cancel_left _ hXpos] at hdiv
    have hqdiv : q = pad / D := by omega
    -- the padding is at most what it is rounded up to, which is at most the padding
    have hup := Int.lt_ediv_add_one_mul_self (pad + s - 1) hs
    rw [hq, Int.add_mul, Int.mul_comm X q, Int.mul_assoc, Int.mul_comm X s, ← hD, hqdiv] at hup
    have hdown := Int.ediv_mul_le pad hDpos.ne'
    exact ⟨pad / D, by rw [Int.mul_comm]; omega⟩
  · rintro ⟨e, rfl⟩
    have hround : (D * e + s - 1) / s = X * e := by
      have hsum : D * e + s - 1 = s - 1 + s * (X * e) := by
        rw [hD]
        ring
      rw [hsum, Int.add_mul_ediv_left _ _ hs.ne', Int.ediv_eq_zero_of_lt (by omega) (by omega), Int.zero_add]
    rw [hround, Int.mul_ediv_cancel_left _ hXpos, Int.mul_ediv_cancel_left _ hDpos.ne']
    exact ⟨Int.dvd_mul_right X e, Int.add_comm e m⟩

/-- The places of whole sub-images are as many as the original size has. -/
theorem places_le_iff (hs : 0 < s) (hX : 1 ≤ X) (hD : D = s * X) :
    kernelPlaces size (D * (k - 1) + 1) s (D * l) pad ≤ X * ((X * (n + l - k + 1) + (pad + s - 1) / s) / X) ↔
      size + pad ≤ D * n + D * ((pad + s - 1) / D) := by
  have hXpos : X ≠ 0 := by omega
  rw [Int.add_comm (X * _), Int.add_mul_ediv_left _ _ hXpos, ceil_ediv hs hD, kernelPlaces]
  have hlt : ∀ a b : Int, a / s + 1 ≤ b ↔ a < s * b := by
    intro a b
    rw [← Int.lt_iff_add_one_le, Int.ediv_lt_iff_lt_mul hs, Int.mul_comm]
  rw [hlt, ← Int.mul_assoc, ← hD]
  have hexpand : D * ((pad + s - 1) / D + (n + l - k + 1)) =
      D * ((pad + s - 1) / D) + D * n + D * l - D * (k - 1) := by
    ring
  rw [hexpand]
  omega

/-- The paddings that the pass computes for a size give this size. -/
theorem kernelPlaces_padding {w : Int} (ht : 1 ≤ t) (hm : m = (w - 1) * t + k - l - n) :
    kernelPlaces n k t l m = w := by
  have hnum : n + l + m - k = (w - 1) * t := by omega
  rw [kernelPlaces, hnum, Int.mul_ediv_cancel _ (by omega : t ≠ 0)]
  omega

theorem kernelPlaces_pos_iff (hs : 0 < s) : 1 ≤ kernelPlaces size k s l m ↔ k ≤ size + l + m := by
  rw [kernelPlaces]
  constructor
  · intro h
    have hnonneg : 0 ≤ (size + l + m - k) / s := by omega
    have := (Int.ediv_nonneg_iff_of_pos hs).mp hnonneg
    omega
  · intro h
    have := Int.ediv_nonneg (by omega : 0 ≤ size + l + m - k) hs.le
    omega

/-- The formula of the pass, for a kernel with its dilation. -/
theorem tdiv_eq_kernelPlaces (hs : 0 < s) (h : D * (k - 1) + 1 ≤ size + l + pad) :
    (size + l + pad - D * (k - 1) - 1 + s).tdiv s = kernelPlaces size (D * (k - 1) + 1) s l pad := by
  have hnum : size + l + pad - D * (k - 1) - 1 + s = size + l + pad - (D * (k - 1) + 1) + s * 1 := by omega
  rw [Int.tdiv_eq_ediv_of_nonneg (by omega), kernelPlaces, hnum, Int.add_mul_ediv_left _ _ hs.ne']

theorem adjusted_fst (size wanted padding newPadding : Int) : (adjusted size wanted padding newPadding).1 = wanted := by
  unfold adjusted
  split_ifs with h
  · rfl
  · exact not_ne_iff.mp h

/-- A size of at least two is the number of places that its padding gives. -/
theorem adjusted_places {w : Int} {r : Int × Int} (ht : 1 ≤ t) (hlarge : 2 ≤ r.1)
    (hr : r = adjusted ((n + l + pad - k).tdiv t + 1) w pad ((w - 1) * t + k - l - n)) :
    r.1 = kernelPlaces n k t l r.2 := by
  unfold adjusted at hr
  split_ifs at hr with hne
  · rw [hr]
    exact (kernelPlaces_padding ht rfl).symm
  · rw [hr] at hlarge ⊢
    show (n + l + pad - k).tdiv t + 1 = kernelPlaces n k t l pad
    rw [kernelPlaces]
    rcases le_or_gt 0 (n + l + pad - k) with hnonneg | hneg
    · rw [Int.tdiv_eq_ediv_of_nonneg hnonneg]
    · have hquot := Int.tdiv_nonneg (by omega : 0 ≤ -(n + l + pad - k)) (by omega : 0 ≤ t)
      rw [Int.neg_tdiv] at hquot
      simp only at hlarge
      omega

/-- **The height** of a part: its new padding is that of the size `F`, which is not divided. -/
theorem height_iff {F : Int} {r : Int × Int} (haxis : SubAxis D s X t) (hD : 0 < D) (hs : 0 < s)
    (hF : F = kernelPlaces (D * n) (D * (k - 1) + 1) s (D * l) pad) (hpos : 1 ≤ F)
    (hr : r = adjusted ((n + l + pad / D - k).tdiv t + 1) (F / X) (pad / D) ((F - 1) * t + k - l - n)) :
    (r.1 = kernelPlaces n k t l r.2 ∧ X ∣ F) ↔ (s < D → D ∣ pad) ∧ (D < s → D * k ≤ D * n + D * l + pad) := by
  have hfit : D * (k - 1) + 1 ≤ D * n + D * l + pad := (kernelPlaces_pos_iff hs).mp (hF ▸ hpos)
  have hnew : ∀ p, p = (F - 1) * t + k - l - n → kernelPlaces n k t l p = F := fun p hp =>
    kernelPlaces_padding haxis.pos.2 hp
  unfold adjusted at hr
  cases haxis with
  | subImages hDs ht hX =>
    subst ht
    rw [Int.tdiv_one] at hr
    have hkeep : kernelPlaces n k 1 l (pad / D) = n + l + pad / D - k + 1 := by
      rw [kernelPlaces, Int.ediv_one]
    have hFX := kernelPlaces_multiple n l k pad hs hDs
    rw [← hF] at hFX
    have hnot : ¬D < s := by
      rw [hDs, not_lt]
      exact le_mul_of_one_le_right hs.le hX
    have hright : ((s < D → D ∣ pad) ∧ (D < s → D * k ≤ D * n + D * l + pad)) ↔ (s < D → D ∣ pad) :=
      and_iff_left fun h => absurd h hnot
    rw [hright]
    rcases eq_or_lt_of_le hX with hX1 | hX2
    · -- one part, so that nothing is divided
      have hsD : s = D := by
        rw [hDs, ← hX1, Int.mul_one]
      rw [← hX1, Int.ediv_one] at hr
      refine iff_of_true ⟨?_, by rw [← hX1]; exact Int.one_dvd F⟩ fun h => absurd h (by omega)
      split_ifs at hr with hne
      · rw [hr]
        exact (hnew _ rfl).symm
      · rw [hr]
        exact hkeep.symm
    · have hsD : s < D := by
        rw [hDs]
        exact lt_mul_of_one_lt_right hs hX2
      rw [forall_prop_of_true hsD, ← padding_divides_iff (m := n + l - k + 1) hs hX hDs, ← hFX, and_comm]
      refine and_congr_right fun hdvd => ?_
      split_ifs at hr with hne
      · -- the part has one place for each `X` places of the padded axis
        rw [hr]
        refine iff_of_false ?_ (by omega)
        rw [hnew _ rfl]
        have := Int.ediv_lt_self_of_pos_of_ne_one (by omega : 0 < F) (by omega : X ≠ 1)
        omega
      · rw [hr]
        refine iff_of_true hkeep.symm (by omega)
  | subStride hsD hX ht =>
    subst hX
    rw [Int.ediv_one] at hr
    have hlt : D < s := by
      rw [hsD]
      exact lt_mul_of_one_lt_right hD (by omega)
    have hright : ((s < D → D ∣ pad) ∧ (D < s → D * k ≤ D * n + D * l + pad)) ↔ 0 ≤ n + l + pad / D - k := by
      have hdiv : (D * n + D * l + pad) / D = n + l + pad / D := by
        rw [← Int.mul_add, Int.add_comm, Int.add_mul_ediv_left _ _ hD.ne', Int.add_comm]
      have hle := Int.le_ediv_iff_mul_le (a := k) (b := D * n + D * l + pad) hD
      rw [hdiv, Int.mul_comm] at hle
      constructor
      · rintro ⟨-, h⟩
        have := hle.mpr (h hlt)
        omega
      · intro h
        exact ⟨fun h' => absurd h' (by omega), fun _ => hle.mp (by omega)⟩
    rw [hright, and_iff_left (Int.one_dvd F)]
    constructor
    · intro hplaces
      by_contra hneg
      -- the kernel is one row longer than what it is on, and the truncated quotient is the wanted size
      have hmod := Int.mul_ediv_add_emod pad D
      have hmodlt := Int.emod_lt_of_pos pad hD
      have hmodnonneg := Int.emod_nonneg pad hD.ne'
      have hexpand : D * (n + l + pad / D - k) = D * n + D * l + D * (pad / D) - D * k := by
        ring
      have hfit' : D * k - D + 1 ≤ D * n + D * l + pad := by
        rw [Int.mul_sub, Int.mul_one] at hfit
        exact hfit
      have hone : n + l + pad / D - k = -1 := by
        have hgt : D * -2 < D * (n + l + pad / D - k) := by
          rw [hexpand]
          omega
        have := lt_of_mul_lt_mul_left hgt hD.le
        omega
      rw [hone] at hexpand
      have hF1 : F = 1 := by
        rw [hF, kernelPlaces, Int.ediv_eq_zero_of_lt]
        · rfl
        · omega
        · rw [Int.mul_sub, Int.mul_one]
          omega
      have htrunc : (-1 : Int).tdiv t = 0 := by
        rw [Int.neg_tdiv, Int.tdiv_eq_ediv_of_nonneg (by omega), Int.ediv_eq_zero_of_lt (by omega) (by omega)]
        rfl
      rw [hone, htrunc, hF1, if_neg (by omega)] at hr
      rw [hr] at hplaces
      have hsum : n + l + pad / D - k = -1 := hone
      have hplaces' : (0 : Int) + 1 = kernelPlaces n k t l (pad / D) := hplaces
      rw [kernelPlaces, hsum] at hplaces'
      have := Int.ediv_neg_of_neg_of_pos (by omega : (-1 : Int) < 0) (by omega : 0 < t)
      omega
    · intro hnonneg
      split_ifs at hr with hne
      · rw [hr]
        exact (hnew _ rfl).symm
      · rw [hr]
        show _ = kernelPlaces n k t l (pad / D)
        rw [kernelPlaces, Int.tdiv_eq_ediv_of_nonneg hnonneg]

end Axis

namespace DilatedConv

variable {c : DilatedConv}

def passesGuards (c : DilatedConv) : Prop :=
  c.tryHW = true ∧ 1 ≤ c.attrs.dilationX ∧ 1 ≤ c.attrs.dilationY ∧ c.accepted

instance : Decidable c.passesGuards := inferInstanceAs (Decidable (_ ∧ _))

/-- What the sizes are computed from. -/
structure Guarded (c : DilatedConv) : Prop where
  axisX : SubAxis c.attrs.dilationX c.attrs.kernelStrideX c.Sub_output_dilationX_dimenion c.kernelStrideX_new
  axisY : SubAxis c.attrs.dilationY c.attrs.kernelStrideY c.Sub_output_dilationY_dimenion c.kernelStrideY_new
  dilation_pos : (0 : Int) < c.attrs.dilationX ∧ (0 : Int) < c.attrs.dilationY
  stride_pos : (0 : Int) < c.attrs.kernelStrideX ∧ (0 : Int) < c.attrs.kernelStrideY
  padLeft : (c.attrs.dilationX : Int) ∣ c.attrs.padLeft
  padTop : (c.attrs.dilationY : Int) ∣ c.attrs.padTop
  batch : c.input.N = 1

theorem passesGuards.guarded (h : c.passesGuards) : Guarded c := by
  obtain ⟨-, hX, hY, -, -, hpads, hstrides, hbatch, -⟩ := h
  simp only [not_or, not_not] at hpads hstrides
  obtain ⟨hsX, hsY⟩ := c.stride_pos
  refine ⟨subAxis hX hsX hstrides.1, subAxis hY hsY hstrides.2, ?_, ?_, Int.dvd_of_tmod_eq_zero hpads.1,
    Int.dvd_of_tmod_eq_zero hpads.2, ?_⟩
  · exact ⟨by exact_mod_cast hX, by exact_mod_cast hY⟩
  · exact ⟨by exact_mod_cast hsX, by exact_mod_cast hsY⟩
  · have := c.input_pos.2.2.2
    omega

theorem four_le_alignment (c : DilatedConv) : 4 ≤ c.pixel_stride_alignment := by
  unfold pixel_stride_alignment elemSize STRIDE_ALIGNMENT
  cases c.type <;> decide

theorem Guarded.le_InputExtended (h : Guarded c) :
    c.input.W ≤ c.InputExtended.W ∧ c.input.H ≤ c.InputExtended.H := by
  have hunit : 0 < c.attrs.dilationX * c.pixel_stride_alignment :=
    Int.mul_pos h.dilation_pos.1 (by have := c.four_le_alignment; omega)
  unfold InputExtended
  split_ifs
  · exact ⟨(roundedUp_spec hunit c.input_pos.1.le).2, (roundedUp_spec h.dilation_pos.2 c.input_pos.2.1.le).2⟩
  · exact ⟨le_rfl, le_rfl⟩

theorem InputExtended_rest (c : DilatedConv) : c.InputExtended.C = c.input.C ∧ c.InputExtended.N = c.input.N := by
  unfold InputExtended
  split_ifs
  · exact ⟨rfl, rfl⟩
  · exact ⟨rfl, rfl⟩

/-- The places on the axes of the extended input. -/
def placesX (c : DilatedConv) : Int :=
  kernelPlaces c.InputExtended.W (c.attrs.dilationX * (c.attrs.kernelSizeX - 1) + 1) c.attrs.kernelStrideX
    c.attrs.padLeft c.attrs.padRight

def placesY (c : DilatedConv) : Int :=
  kernelPlaces c.InputExtended.H (c.attrs.dilationY * (c.attrs.kernelSizeY - 1) + 1) c.attrs.kernelStrideY
    c.attrs.padTop c.attrs.padBottom

theorem kernelPlaces_mono {size size' k s l m : Int} (hs : 0 < s) (h : size ≤ size') :
    kernelPlaces size k s l m ≤ kernelPlaces size' k s l m := by
  have := Int.ediv_le_ediv hs (by omega : size + l + m - k ≤ size' + l + m - k)
  unfold kernelPlaces
  omega

theorem Guarded.output_le (h : Guarded c) : c.output.W ≤ c.placesX ∧ c.output.H ≤ c.placesY := by
  rw [c.output_width, c.output_height]
  exact ⟨kernelPlaces_mono h.stride_pos.1 h.le_InputExtended.1, kernelPlaces_mono h.stride_pos.2 h.le_InputExtended.2⟩

theorem Guarded.places_pos (h : Guarded c) : 1 ≤ c.placesX ∧ 1 ≤ c.placesY := by
  obtain ⟨hW, hH, -⟩ := c.output_pos
  obtain ⟨hW', hH'⟩ := h.output_le
  constructor <;> omega

theorem Guarded.subtensors_height (h : Guarded c) : c.Subtensors_outputdata.H = c.placesY :=
  tdiv_eq_kernelPlaces h.stride_pos.2 ((kernelPlaces_pos_iff h.stride_pos.2).mp h.places_pos.2)

theorem Guarded.subtensors_width (h : Guarded c) :
    c.Subtensors_outputdata.W = c.placesX / c.Sub_output_dilationX_dimenion := by
  have hplaces := tdiv_eq_kernelPlaces h.stride_pos.1 ((kernelPlaces_pos_iff h.stride_pos.1).mp h.places_pos.1)
  have hpos := h.places_pos.1
  unfold Subtensors_outputdata
  rw [hplaces]
  exact Int.tdiv_eq_ediv_of_nonneg (by unfold placesX at hpos; omega)

theorem realWidth_fst (c : DilatedConv) : c.realWidth.1 = c.Subtensors_outputdata.W := adjusted_fst ..

/-- **The width** of a part is the one that its padding gives. -/
theorem Guarded.width_places (h : Guarded c) (hpos : 1 ≤ c.Subtensors_outputdata.W) :
    c.Sub_outputdata_width = kernelPlaces c.Sub_inputdata.W c.attrs.kernelSizeX c.kernelStrideX_new c.padLeft_new
      c.padRight_new := by
  have ht := h.axisX.pos.2
  have halign := c.four_le_alignment
  by_cases hexpand : c.Sub_outputdata_expand = true
  · refine (kernelPlaces_padding ht ?_).symm
    rw [padRight_new, if_pos hexpand]
  · rw [Sub_outputdata_width, padRight_new, if_neg hexpand, if_neg hexpand]
    have hdvd : c.pixel_stride_alignment ∣ c.realWidth.1 := by
      refine Int.dvd_of_tmod_eq_zero ?_
      simpa [Sub_outputdata_expand] using hexpand
    have hlarge : 4 ≤ c.realWidth.1 := by
      have := Int.le_of_dvd (by rw [realWidth_fst]; omega) hdvd
      omega
    exact adjusted_places ht (by omega) rfl

/-- The sizes, in whole sub-images of the extended input. -/
theorem Guarded.width_fits_iff (h : Guarded c) (hdvd : (c.attrs.dilationX : Int) ∣ c.InputExtended.W) :
    c.output.W ≤ c.Sub_output_dilationX_dimenion * c.Subtensors_outputdata.W ↔
      (c.attrs.kernelStrideX < c.attrs.dilationX → c.input.W + c.attrs.padRight ≤ c.InputExtended.W +
        c.attrs.dilationX * ((c.attrs.padRight + c.attrs.kernelStrideX - 1) / c.attrs.dilationX)) := by
  obtain ⟨n, hn⟩ := hdvd
  obtain ⟨l, hl⟩ := h.padLeft
  have hle := h.le_InputExtended.1
  cases h.axisX with
  | subImages hD ht hX =>
    rw [h.subtensors_width, c.output_width, placesX, hn, hl, kernelPlaces_multiple n l _ _ h.stride_pos.1 hD,
      places_le_iff h.stride_pos.1 hX hD]
    rcases eq_or_lt_of_le hX with hX1 | hX2
    · have hsD : (c.attrs.dilationX : Int) = c.attrs.kernelStrideX := by
        rw [hD, ← hX1, Int.mul_one]
      have hup := Int.lt_ediv_add_one_mul_self (c.attrs.padRight + c.attrs.kernelStrideX - 1) h.dilation_pos.1
      rw [Int.add_mul, Int.mul_comm] at hup
      exact iff_of_true (by omega) fun hlt => absurd hlt (by omega)
    · have hlt : (c.attrs.kernelStrideX : Int) < c.attrs.dilationX := by
        rw [hD]
        exact lt_mul_of_one_lt_right h.stride_pos.1 hX2
      rw [forall_prop_of_true (by exact_mod_cast hlt)]
  | subStride hs hX ht =>
    have hlt : (c.attrs.dilationX : Int) < c.attrs.kernelStrideX := by
      rw [hs]
      exact lt_mul_of_one_lt_right h.dilation_pos.1 (by omega)
    rw [h.subtensors_width, hX, Int.ediv_one, Int.one_mul]
    exact iff_of_true h.output_le.1 fun h' => absurd h' (by omega)

theorem Guarded.height_fits_iff (h : Guarded c) (hdvd : (c.attrs.dilationY : Int) ∣ c.InputExtended.H) :
    (c.realHeight.1 = kernelPlaces c.Sub_inputdata.H c.attrs.kernelSizeY c.kernelStrideY_new c.padTop_new
        c.realHeight.2 ∧ (c.Sub_output_dilationY_dimenion : Int) ∣ c.Subtensors_outputdata.H) ↔
      (c.attrs.kernelStrideY < c.attrs.dilationY → (c.attrs.dilationY : Int) ∣ c.attrs.padBottom) ∧
      (c.attrs.dilationY < c.attrs.kernelStrideY → (c.attrs.dilationY * c.attrs.kernelSizeY : Int) ≤
        c.InputExtended.H + c.attrs.padTop + c.attrs.padBottom) := by
  obtain ⟨n, hn⟩ := hdvd
  obtain ⟨l, hl⟩ := h.padTop
  have hpos := h.places_pos.2
  have hD := h.dilation_pos.2
  have hsub : c.Sub_inputdata.H = n := by
    show c.InputExtended.H.tdiv c.attrs.dilationY = n
    rw [hn, Int.mul_tdiv_cancel_left n hD.ne']
  have hpadTop : c.padTop_new = l := by
    rw [padTop_new, hl, Int.mul_tdiv_cancel_left l hD.ne']
  have hr : c.realHeight = adjusted ((n + l + c.attrs.padBottom / c.attrs.dilationY - c.attrs.kernelSizeY).tdiv
      c.kernelStrideY_new + 1) (c.placesY / c.Sub_output_dilationY_dimenion) (c.attrs.padBottom / c.attrs.dilationY)
      ((c.placesY - 1) * c.kernelStrideY_new + c.attrs.kernelSizeY - l - n) := by
    rw [realHeight, hsub, hpadTop, h.subtensors_height, Int.tdiv_eq_ediv_of_nonneg c.pads_nonneg.2.2.2,
      Int.tdiv_eq_ediv_of_nonneg (by omega : 0 ≤ c.placesY)]
  have hF : c.placesY = kernelPlaces (c.attrs.dilationY * n) (c.attrs.dilationY * (c.attrs.kernelSizeY - 1) + 1)
      c.attrs.kernelStrideY (c.attrs.dilationY * l) c.attrs.padBottom := by
    rw [placesY, hn, hl]
  have hheight := height_iff h.axisY hD h.stride_pos.2 hF hpos hr
  rw [hsub, hpadTop, h.subtensors_height, hheight, hn, hl]
  simp only [Nat.cast_lt]

/-! ### The loops -/

theorem length_loopFromZero {D s X t : Nat} (hD : 0 < D) (h : SubAxis D s X t) :
    (loopFromZero D (D / X)).length = X := by
  rw [loopFromZero, List.length_map, List.length_range]
  cases h with
  | subImages hDs ht hX =>
    have hDs' : D = s * X := by exact_mod_cast hDs
    have hs : 0 < s := Nat.pos_of_mul_pos_right (hDs' ▸ hD)
    have hX' : 0 < X := by omega
    rw [hDs', Nat.mul_div_cancel s hX']
    have hsum : s * X + s - 1 = s - 1 + s * X := by omega
    rw [hsum, Nat.add_mul_div_left _ _ hs, Nat.div_eq_of_lt (by omega), Nat.zero_add]
  | subStride hs hX ht =>
    have hX1 : X = 1 := by exact_mod_cast hX
    rw [hX1, Nat.div_one]
    have hsum : D + D - 1 = D - 1 + D * 1 := by omega
    rw [hsum, Nat.add_mul_div_left _ _ hD, Nat.div_eq_of_lt (by omega)]

theorem Guarded.length_dilationInds (h : Guarded c) :
    c.dilationInds.length = c.Sub_output_dilationX_dimenion * c.Sub_output_dilationY_dimenion := by
  have hX := length_loopFromZero (by exact_mod_cast h.dilation_pos.1) h.axisX
  have hY := length_loopFromZero (by exact_mod_cast h.dilation_pos.2) h.axisY
  rw [dilationInds, List.length_flatMap]
  simp only [List.length_map]
  rw [List.map_const', List.sum_replicate, hX, hY]
  rfl

/-- The stages that the sub-images get. -/
def partStages (c : DilatedConv) : List AddedStage :=
  .StubConv c.newStage c.Sub_inputdata c.Sub_outputdata ::
    if c.Sub_outputdata_expand then [.Shrink c.Sub_outputdata c.Real_sub_outputdata] else []

theorem exists_elemAt_map {ι κ : Type} {e : String} (f : ι → κ) {l : List ι} {i : Nat} (h : i < l.length) :
    ∃ x, elemAt e (l.map f) i = .ok (f x) := by
  refine ⟨l[i], elemAt_ok_iff.mpr ⟨Int.natCast_nonneg i, ?_⟩⟩
  rw [Int.toNat_natCast, List.getElem?_map, List.getElem?_eq_getElem h, Option.map_some]

theorem Guarded.subConv_ok (h : Guarded c) {ind : Nat}
    (hind : ind < c.Sub_output_dilationX_dimenion * c.Sub_output_dilationY_dimenion) :
    c.subConv ind = .ok c.partStages := by
  rw [← h.length_dilationInds] at hind
  obtain ⟨i, hinput⟩ := exists_elemAt_map (e := "V_Sub_inputdata[ind]") c.inputPart hind
  obtain ⟨j, houtput⟩ := exists_elemAt_map (e := "V_Sub_outputdata[ind]") c.outputPart hind
  rw [subConv, V_Sub_inputdata, hinput, ok_bind, V_Sub_outputdata, houtput, ok_bind]
  rfl

theorem Guarded.subConvs_ok (h : Guarded c) : ∃ convs, c.subConvs = .ok convs ∧
    .StubConv c.newStage c.Sub_inputdata c.Sub_outputdata ∈ convs ∧ ∀ s ∈ convs, s ∈ c.partStages := by
  have hX : 1 ≤ c.Sub_output_dilationX_dimenion := by exact_mod_cast h.axisX.pos.1
  have hY : 1 ≤ c.Sub_output_dilationY_dimenion := by exact_mod_cast h.axisY.pos.1
  have hrow : ∀ x ∈ List.range c.Sub_output_dilationX_dimenion,
      ((List.range c.Sub_output_dilationY_dimenion).mapM fun y =>
        c.subConv (x * c.Sub_output_dilationY_dimenion + y)) =
      .ok ((List.range c.Sub_output_dilationY_dimenion).map fun _ => c.partStages) := by
    intro x hx
    refine mapM_eq_map fun y hy => h.subConv_ok ?_
    have hxlt := List.mem_range.mp hx
    have hylt := List.mem_range.mp hy
    calc x * c.Sub_output_dilationY_dimenion + y < (x + 1) * c.Sub_output_dilationY_dimenion := by
          rw [Nat.add_mul]
          omega
      _ ≤ c.Sub_output_dilationX_dimenion * c.Sub_output_dilationY_dimenion := Nat.mul_le_mul_right _ hxlt
  refine ⟨_, by rw [subConvs, mapM_eq_map hrow, ok_bind]; rfl, ?_, ?_⟩
  · simp only [List.mem_flatten, List.mem_map, List.mem_range]
    refine ⟨_, ⟨_, ⟨0, by omega, rfl⟩, rfl⟩, List.mem_flatten.mpr ⟨c.partStages, ?_, List.mem_cons_self⟩⟩
    exact List.mem_map.mpr ⟨0, List.mem_range.mpr (by omega), rfl⟩
  · intro s hs
    simp only [List.mem_flatten, List.mem_map, List.mem_range] at hs
    obtain ⟨-, ⟨-, ⟨x, -, rfl⟩, rfl⟩, hs⟩ := hs
    obtain ⟨l, hl, hs⟩ := List.mem_flatten.mp hs
    obtain ⟨y, -, rfl⟩ := List.mem_map.mp hl
    exact hs

/-! ### The sizes of the reshapes -/

theorem addReshapeStage_ok_iff {input output : StageDims} {s : AddedStage} :
    addReshapeStage input output = .ok s ↔ input.totalDimSize = output.totalDimSize ∧ .Reshape input output = s := by
  rw [addReshapeStage, ieAssert_bind_ok_iff, pure_ok_iff]

theorem mul_tdiv_eq_iff {a d : Int} (ha : 0 ≤ a) : d * a.tdiv d = a ↔ d ∣ a := by
  rw [Int.tdiv_eq_ediv_of_nonneg ha]
  exact ⟨fun h => ⟨_, h.symm⟩, Int.mul_ediv_cancel'⟩

theorem Guarded.extended_pos (h : Guarded c) :
    0 < c.InputExtended.W ∧ 0 < c.InputExtended.H ∧ 0 < c.InputExtended.C := by
  obtain ⟨hW, hH, hC, -⟩ := c.input_pos
  obtain ⟨hW', hH'⟩ := h.le_InputExtended
  rw [(InputExtended_rest c).1]
  exact ⟨by omega, by omega, hC⟩

/-- Two sizes that differ in one factor. -/
theorem totalDimSize_eq_iff {d d' : StageDims} {a b rest : Int} (hd : d.totalDimSize = a * rest)
    (hd' : d'.totalDimSize = b * rest) (hrest : 0 < rest) : d.totalDimSize = d'.totalDimSize ↔ b = a := by
  rw [hd, hd', mul_left_inj' hrest.ne', eq_comm]

theorem Guarded.reinterpret_iff (h : Guarded c) :
    c.InputExtended.totalDimSize = c.Reinterpret_inputdata.totalDimSize ↔
      (c.attrs.dilationX : Int) ∣ c.InputExtended.W := by
  obtain ⟨hW, hH, hC⟩ := h.extended_pos
  have hN : c.InputExtended.N = 1 := (InputExtended_rest c).2.trans h.batch
  rw [← mul_tdiv_eq_iff hW.le]
  refine totalDimSize_eq_iff ?_ ?_ (Int.mul_pos hH hC)
  · rw [StageDims.totalDimSize, hN]
    ring
  · exact mul_assoc ..

theorem Guarded.rows_iff (h : Guarded c) (hdvd : (c.attrs.dilationX : Int) ∣ c.InputExtended.W) :
    c.Permuted_inputdata.totalDimSize = c.Reshape_Permuted_inputdata.totalDimSize ↔
      (c.attrs.dilationY : Int) ∣ c.InputExtended.H := by
  obtain ⟨hW, hH, hC⟩ := h.extended_pos
  have hsub : 0 < c.InputExtended.W.tdiv c.attrs.dilationX := by
    rw [Int.tdiv_eq_ediv_of_nonneg hW.le]
    exact Int.ediv_pos_of_pos_of_dvd hW h.dilation_pos.1.le hdvd
  rw [← mul_tdiv_eq_iff hH.le]
  refine totalDimSize_eq_iff ?_ ?_ (Int.mul_pos (Int.mul_pos hsub hC) h.dilation_pos.1)
  · unfold StageDims.totalDimSize Permuted_inputdata
    ring
  · unfold StageDims.totalDimSize Reshape_Permuted_inputdata Permuted_inputdata
    ring

theorem Guarded.outputRows_iff (h : Guarded c) (hpos : 1 ≤ c.Subtensors_outputdata.W) :
    c.Reshape_Permuted_outputdata.totalDimSize = c.Subtensors_outputdata.totalDimSize ↔
      (c.Sub_output_dilationY_dimenion : Int) ∣ c.Subtensors_outputdata.H := by
  have hH : 0 ≤ c.Subtensors_outputdata.H := by
    rw [h.subtensors_height]
    have := h.places_pos.2
    omega
  have hX : (1 : Int) ≤ c.Sub_output_dilationX_dimenion := h.axisX.pos.1
  have hrest : 0 < c.Subtensors_outputdata.W * c.Subtensors_outputdata.C * c.Subtensors_outputdata.N :=
    Int.mul_pos (Int.mul_pos (by omega) c.output_pos.2.2) (by omega :
      (0 : Int) < c.Sub_output_dilationX_dimenion)
  rw [← mul_tdiv_eq_iff hH, eq_comm]
  refine totalDimSize_eq_iff ?_ ?_ hrest
  · unfold StageDims.totalDimSize
    ring
  · unfold StageDims.totalDimSize Reshape_Permuted_outputdata
    ring

/-! ### Well-formed stages -/

end DilatedConv

/-- Every dim of a shrunk data is at most the one it is taken from. -/
def StageDims.Within (d d' : StageDims) : Prop := d.W ≤ d'.W ∧ d.H ≤ d'.H ∧ d.C ≤ d'.C ∧ d.N ≤ d'.N

/-- The dims in which the permuted output is read: the places of a row in all sub-images are a row. -/
def StageDims.regrouped (d : StageDims) : StageDims := ⟨d.W * d.H, d.C, d.N, 1⟩

/-- **Well-formed stages** for an output: reshapes keep the number of elements, a convolution has the output that
its kernel, stride and paddings give, and the last stages cover the dims of the output. -/
structure WellFormedStages (output : StageDims) (stages : List AddedStage) : Prop where
  reshape : ∀ i o, .Reshape i o ∈ stages → i.totalDimSize = o.totalDimSize
  conv : ∀ a i o, .StubConv a i o ∈ stages →
    o.W = kernelPlaces i.W a.kernelSizeX a.kernelStrideX a.padLeft a.padRight ∧
    o.H = kernelPlaces i.H a.kernelSizeY a.kernelStrideY a.padTop a.padBottom
  shrink : ∀ i o, .Shrink i o ∈ stages → o.Within i
  covers : ∃ front permuted, (stages = front ++ [.Reshape permuted output] ∧ permuted.regrouped = output) ∨
    stages = front ++ [.Reshape permuted permuted.regrouped, .Shrink permuted.regrouped output]

namespace DilatedConv

variable {c : DilatedConv}

/-- The sizes of a convolution that comes out well formed. -/
structure SizesFit (c : DilatedConv) : Prop where
  width_dvd : (c.attrs.dilationX : Int) ∣ c.InputExtended.W
  height_dvd : (c.attrs.dilationY : Int) ∣ c.InputExtended.H
  right : c.attrs.kernelStrideX < c.attrs.dilationX → c.input.W + c.attrs.padRight ≤ c.InputExtended.W +
    c.attrs.dilationX * ((c.attrs.padRight + c.attrs.kernelStrideX - 1) / c.attrs.dilationX)
  bottom : c.attrs.kernelStrideY < c.attrs.dilationY → (c.attrs.dilationY : Int) ∣ c.attrs.padBottom
  kernel : c.attrs.dilationY < c.attrs.kernelStrideY → (c.attrs.dilationY * c.attrs.kernelSizeY : Int) ≤
    c.InputExtended.H + c.attrs.padTop + c.attrs.padBottom

/-- The reshapes of the output. -/
theorem Guarded.output_dims (h : Guarded c) : c.Reinterpret_outputdata =
    ⟨c.Sub_output_dilationX_dimenion * c.Subtensors_outputdata.W, c.placesY, c.output.C, 1⟩ := by
  rw [Reinterpret_outputdata, permute_outputdata]
  simp only [h.subtensors_height]
  rfl

theorem totalDimSize_permute (c : DilatedConv) :
    c.permute_outputdata.totalDimSize = c.Reinterpret_outputdata.totalDimSize := by
  unfold StageDims.totalDimSize Reinterpret_outputdata
  simp only [mul_one]

theorem addedStages_ok_iff {convs stages : List AddedStage} (hconvs : c.subConvs = .ok convs) :
    c.addedStages = .ok stages ↔
      c.InputExtended.totalDimSize = c.Reinterpret_inputdata.totalDimSize ∧
      c.Permuted_inputdata.totalDimSize = c.Reshape_Permuted_inputdata.totalDimSize ∧
      c.Reshape_Permuted_outputdata.totalDimSize = c.Subtensors_outputdata.totalDimSize ∧
      ∃ final, c.finalStages = .ok final ∧ c.stageList convs final = stages := by
  simp only [addedStages, hconvs, bind_ok_iff, addReshapeStage_ok_iff, pure_ok_iff, Except.ok.injEq]
  constructor
  · rintro ⟨-, ⟨hinput, -⟩, -, ⟨hrows, -⟩, convs', rfl, -, ⟨houtput, -⟩, hfinal⟩
    exact ⟨hinput, hrows, houtput, hfinal⟩
  · rintro ⟨hinput, hrows, houtput, hfinal⟩
    exact ⟨_, ⟨hinput, rfl⟩, _, ⟨hrows, rfl⟩, convs, rfl, _, ⟨houtput, rfl⟩, hfinal⟩

theorem finalStages_expand (hexpand : c.Expand_mark = true) :
    c.finalStages = .ok [.Reshape c.permute_outputdata c.Reinterpret_outputdata,
      .Shrink c.Reinterpret_outputdata c.output] := by
  rw [finalStages, if_pos hexpand, addReshapeStage_ok_iff.mpr ⟨c.totalDimSize_permute, rfl⟩]
  rfl

theorem finalStages_exact_iff (hexact : ¬c.Expand_mark = true) {final : List AddedStage} :
    c.finalStages = .ok final ↔ c.permute_outputdata.totalDimSize = c.output.totalDimSize ∧
      [.Reshape c.permute_outputdata c.output] = final := by
  rw [finalStages, if_neg hexact]
  simp only [bind_ok_iff, addReshapeStage_ok_iff, pure_ok_iff]
  constructor
  · rintro ⟨-, ⟨hsize, rfl⟩, rfl⟩
    exact ⟨hsize, rfl⟩
  · rintro ⟨hsize, rfl⟩
    exact ⟨_, ⟨hsize, rfl⟩, rfl⟩

/-- Without an extension the places are those of the output. -/
theorem exact_places (hexact : ¬c.Expand_mark = true) :
    c.placesX = c.output.W ∧ c.placesY = c.output.H := by
  have hinput : c.InputExtended = c.input := by
    rw [InputExtended, if_neg hexact]
  rw [placesX, placesY, hinput]
  exact ⟨c.output_width.symm, c.output_height.symm⟩

theorem Guarded.exact_output_iff (h : Guarded c) (hexact : ¬c.Expand_mark = true) :
    c.permute_outputdata.totalDimSize = c.output.totalDimSize ↔
      c.output.W = c.Sub_output_dilationX_dimenion * c.Subtensors_outputdata.W := by
  obtain ⟨-, hH, hC⟩ := c.output_pos
  have hN : c.output.N = 1 := c.output_batch.trans h.batch
  rw [totalDimSize_permute, h.output_dims, (exact_places hexact).2]
  refine totalDimSize_eq_iff ?_ ?_ (Int.mul_pos hH hC)
  · unfold StageDims.totalDimSize
    ring
  · unfold StageDims.totalDimSize
    rw [hN]
    ring

/-- The extended width has a place for every place of the output, in both branches. -/
theorem Guarded.output_fits (h : Guarded c) {final : List AddedStage} (hfinal : c.finalStages = .ok final)
    (hshrink : ∀ i o, .Shrink i o ∈ final → o.Within i) :
    c.output.W ≤ c.Sub_output_dilationX_dimenion * c.Subtensors_outputdata.W := by
  by_cases hexpand : c.Expand_mark = true
  · rw [finalStages_expand hexpand] at hfinal
    obtain rfl := Except.ok.inj hfinal
    have hwithin := (hshrink c.Reinterpret_outputdata c.output (by simp)).1
    rw [h.output_dims] at hwithin
    exact hwithin
  · exact ((h.exact_output_iff hexpand).mp ((finalStages_exact_iff hexpand).mp hfinal).1).le

theorem Guarded.exists_final (h : Guarded c)
    (hfits : c.output.W ≤ c.Sub_output_dilationX_dimenion * c.Subtensors_outputdata.W) :
    ∃ final, c.finalStages = .ok final ∧ (∀ i o, .Reshape i o ∈ final → i.totalDimSize = o.totalDimSize) ∧
      (∀ a i o, .StubConv a i o ∉ final) ∧ (∀ i o, .Shrink i o ∈ final → o.Within i) ∧
      ((final = [.Reshape c.permute_outputdata c.output] ∧ c.permute_outputdata.regrouped = c.output) ∨
        final = [.Reshape c.permute_outputdata c.permute_outputdata.regrouped,
          .Shrink c.permute_outputdata.regrouped c.output]) := by
  have hN : c.output.N = 1 := c.output_batch.trans h.batch
  by_cases hexpand : c.Expand_mark = true
  · refine ⟨_, finalStages_expand hexpand, ?_, by simp, ?_, .inr rfl⟩
    · intro i o hio
      simp only [List.mem_cons, AddedStage.Reshape.injEq, List.not_mem_nil, or_false, reduceCtorEq] at hio
      obtain ⟨rfl, rfl⟩ := hio
      exact c.totalDimSize_permute
    · intro i o hio
      simp only [List.mem_cons, AddedStage.Shrink.injEq, List.not_mem_nil, or_false, reduceCtorEq, false_or] at hio
      obtain ⟨rfl, rfl⟩ := hio
      rw [h.output_dims]
      exact ⟨hfits, h.output_le.2, le_rfl, hN.le⟩
  · have hplaces := exact_places hexpand
    have hX : (c.Sub_output_dilationX_dimenion : Int) ≠ 0 := by
      have := h.axisX.pos.1
      omega
    have hle : c.Sub_output_dilationX_dimenion * c.Subtensors_outputdata.W ≤ c.output.W := by
      rw [h.subtensors_width, hplaces.1]
      exact Int.mul_ediv_self_le hX
    have hwidth := le_antisymm hfits hle
    have hsize := (h.exact_output_iff hexpand).mpr hwidth
    refine ⟨_, (finalStages_exact_iff hexpand).mpr ⟨hsize, rfl⟩, ?_, by simp, by simp, .inl ⟨rfl, ?_⟩⟩
    · intro i o hio
      simp only [List.mem_singleton, AddedStage.Reshape.injEq] at hio
      obtain ⟨rfl, rfl⟩ := hio
      exact hsize
    · have hdims : c.permute_outputdata.regrouped = c.Reinterpret_outputdata := rfl
      rw [hdims, h.output_dims, ← hwidth, hplaces.2, ← hN]

theorem mem_stageList {convs final : List AddedStage} {s : AddedStage} : s ∈ c.stageList convs final ↔
    (c.Expand_mark = true ∧ s = .Pad c.input c.InputExtended) ∨
    s = .Reshape c.InputExtended c.Reinterpret_inputdata ∨ s = .Permute c.Reinterpret_inputdata c.Permuted_inputdata ∨
    s = .Reshape c.Permuted_inputdata c.Reshape_Permuted_inputdata ∨
    s = .Split c.Reshape_Permuted_inputdata c.V_Sub_inputdata ∨ s ∈ convs ∨
    s = .Concat c.V_Sub_outputdata c.Reshape_Permuted_outputdata ∨
    s = .Reshape c.Reshape_Permuted_outputdata c.Subtensors_outputdata ∨
    s = .Permute c.Subtensors_outputdata c.permute_outputdata ∨ s ∈ final := by
  unfold stageList
  by_cases hexpand : c.Expand_mark = true
  · simp [hexpand]
  · simp [hexpand]

theorem mem_partStages {s : AddedStage} : s ∈ c.partStages ↔
    s = .StubConv c.newStage c.Sub_inputdata c.Sub_outputdata ∨
    (c.Sub_outputdata_expand = true ∧ s = .Shrink c.Sub_outputdata c.Real_sub_outputdata) := by
  unfold partStages
  by_cases hexpand : c.Sub_outputdata_expand = true
  · simp [hexpand]
  · simp [hexpand]

/-- What is cut off a part is its aligned end. -/
theorem Guarded.part_within (h : Guarded c) : c.Real_sub_outputdata.Within c.Sub_outputdata := by
  refine ⟨?_, le_rfl, le_rfl, le_rfl⟩
  show c.realWidth.1 ≤ c.Sub_outputdata_width
  unfold Sub_outputdata_width
  split_ifs
  · have halign := c.four_le_alignment
    refine (roundedUp_spec (by omega) ?_).2
    rw [realWidth_fst, h.subtensors_width]
    exact Int.ediv_nonneg (by have := h.places_pos.1; omega) (Int.natCast_nonneg _)
  · exact le_rfl

theorem Guarded.width_pos (h : Guarded c)
    (hfits : c.output.W ≤ c.Sub_output_dilationX_dimenion * c.Subtensors_outputdata.W) :
    1 ≤ c.Subtensors_outputdata.W := by
  have hX := h.axisX.pos.1
  by_contra hsmall
  have hle := Int.mul_nonpos_of_nonneg_of_nonpos (by omega : (0 : Int) ≤ c.Sub_output_dilationX_dimenion)
    (by omega : c.Subtensors_outputdata.W ≤ 0)
  have := c.output_pos.1
  omega

theorem SizesFit.wellFormed (h : Guarded c) (hfit : SizesFit c) :
    ∃ stages, c.addedStages = .ok stages ∧ WellFormedStages c.output stages := by
  have hfits := (h.width_fits_iff hfit.width_dvd).mpr hfit.right
  have hpos := h.width_pos hfits
  obtain ⟨hheight, hrows⟩ := (h.height_fits_iff hfit.height_dvd).mpr ⟨hfit.bottom, hfit.kernel⟩
  obtain ⟨convs, hconvs, -, hparts⟩ := h.subConvs_ok
  obtain ⟨final, hfinal, hreshape, hconv, hshrink, hcovers⟩ := h.exists_final hfits
  have hinput := h.reinterpret_iff.mpr hfit.width_dvd
  have hinputRows := (h.rows_iff hfit.width_dvd).mpr hfit.height_dvd
  have houtputRows := (h.outputRows_iff hpos).mpr hrows
  refine ⟨_, (addedStages_ok_iff hconvs).mpr ⟨hinput, hinputRows, houtputRows, final, hfinal, rfl⟩, ?_, ?_, ?_, ?_⟩
  · intro i o hio
    simp only [mem_stageList, AddedStage.Reshape.injEq, reduceCtorEq, and_false, false_or] at hio
    rcases hio with ⟨rfl, rfl⟩ | ⟨rfl, rfl⟩ | hs | ⟨rfl, rfl⟩ | hs
    · exact hinput
    · exact hinputRows
    · simpa using mem_partStages.mp (hparts _ hs)
    · exact houtputRows
    · exact hreshape i o hs
  · intro a i o hio
    simp only [mem_stageList, reduceCtorEq, and_false, false_or] at hio
    rcases hio with hs | hs
    · obtain ⟨rfl, rfl, rfl⟩ : a = c.newStage ∧ i = c.Sub_inputdata ∧ o = c.Sub_outputdata := by
        simpa using mem_partStages.mp (hparts _ hs)
      exact ⟨h.width_places hpos, hheight⟩
    · exact absurd hs (hconv a i o)
  · intro i o hio
    simp only [mem_stageList, reduceCtorEq, and_false, false_or] at hio
    rcases hio with hs | hs
    · obtain ⟨-, rfl, rfl⟩ : c.Sub_outputdata_expand = true ∧ i = c.Sub_outputdata ∧ o = c.Real_sub_outputdata := by
        simpa using mem_partStages.mp (hparts _ hs)
      exact h.part_within
    · exact hshrink i o hs
  · rcases hcovers with ⟨rfl, hout⟩ | rfl
    · exact ⟨_, c.permute_outputdata, .inl ⟨rfl, hout⟩⟩
    · exact ⟨_, c.permute_outputdata, .inr rfl⟩

theorem Guarded.sizesFit (h : Guarded c) {stages : List AddedStage} (hstages : c.addedStages = .ok stages)
    (hwell : WellFormedStages c.output stages) : SizesFit c := by
  obtain ⟨convs, hconvs, hmem, -⟩ := h.subConvs_ok
  obtain ⟨hinput, hinputRows, houtputRows, final, hfinal, rfl⟩ := (addedStages_ok_iff hconvs).mp hstages
  have hwidth := h.reinterpret_iff.mp hinput
  have hheight := (h.rows_iff hwidth).mp hinputRows
  have hfits := h.output_fits hfinal fun i o hio => hwell.shrink i o (by
    rw [mem_stageList]
    simp [hio])
  have hpos := h.width_pos hfits
  have hplaces := (hwell.conv c.newStage c.Sub_inputdata c.Sub_outputdata (by
    rw [mem_stageList]
    simp [hmem])).2
  obtain ⟨hbottom, hkernel⟩ := (h.height_fits_iff hheight).mp ⟨hplaces, (h.outputRows_iff hpos).mp houtputRows⟩
  exact ⟨hwidth, hheight, (h.width_fits_iff hwidth).mp hfits, hbottom, hkernel⟩

theorem passesGuards.reshapeDilationConv_iff (h : c.passesGuards) {stages : List AddedStage} :
    c.reshapeDilationConv = .ok (some stages) ↔ c.addedStages = .ok stages := by
  obtain ⟨htry, hX, hY, haccepted⟩ := h
  rw [reshapeDilationConv, if_neg (by simp [htry]), ieAssert_bind_ok_iff, ieAssert_bind_ok_iff, if_pos haccepted]
  simp only [bind_ok_iff, pure_ok_iff, Option.some.injEq, exists_eq_right]
  exact ⟨fun h => h.2.2, fun h => ⟨hX, hY, h⟩⟩

/-! ### Exact sizes -/

theorem one_lt_max_scale : (1 : ℚ) < MAX_INPUTEXTENDED_SCALE := by
  have hhalf : Representable ((3 : ℤ) / 2) := representable_half (by norm_num)
  have hle : ((3 : ℤ) / 2 : ℚ) ≤ nearest (18 / 10) := le_nearest hhalf (by norm_num) (by norm_num)
  have hlt : (1 : ℚ) < (3 : ℤ) / 2 := by norm_num
  exact lt_of_lt_of_le hlt hle

theorem nearest_size {n : ℤ} (hpos : 0 < n) (hn : n ≤ 2 ^ 23) : nearest n = n :=
  nearest_of_representable (representable_intCast (by omega)) (by exact_mod_cast hpos.le)

/-- Up to `2 ^ 23` the quotient shows every extension. -/
theorem one_lt_scale {n m : ℤ} (hpos : 0 < n) (hn : n ≤ 2 ^ 23) (h : n < m) : 1 < nearest (nearest m / nearest n) := by
  have hnq : (0 : ℚ) < n := by exact_mod_cast hpos
  have hn' : (n : ℚ) ≤ 2 ^ 23 := by exact_mod_cast hn
  have hnext : ((n + 1 : ℤ) : ℚ) ≤ nearest m := by
    refine le_nearest (representable_intCast (by omega)) ?_ (by exact_mod_cast h)
    exact_mod_cast (by omega : 0 ≤ m)
  have hrep : Representable ((2 ^ 23 + 1 : ℤ) * 2 ^ (-23 : ℤ)) := ⟨2 ^ 23 + 1, -23, by norm_num, rfl⟩
  have hquot : ((2 ^ 23 + 1 : ℤ) : ℚ) * 2 ^ (-23 : ℤ) ≤ nearest m / nearest n := by
    have hpow : ((2 ^ 23 + 1 : ℤ) : ℚ) * 2 ^ (-23 : ℤ) = 1 + 2 ^ (-23 : ℤ) := by norm_num
    have hsmall : (2 : ℚ) ^ (-23 : ℤ) * n ≤ 1 := by
      calc (2 : ℚ) ^ (-23 : ℤ) * n ≤ 2 ^ (-23 : ℤ) * 2 ^ 23 := by gcongr
        _ = 1 := by norm_num
    rw [nearest_size hpos hn, le_div_iff₀ hnq, hpow, add_mul, one_mul]
    push_cast at hnext
    linarith
  have hone : (1 : ℚ) < ((2 ^ 23 + 1 : ℤ) : ℚ) * 2 ^ (-23 : ℤ) := by norm_num
  refine lt_of_lt_of_le hone (le_nearest hrep ?_ hquot)
  exact le_trans (by positivity) hquot

/-- The data that goes on has the extended dims, whenever the dims are at most `2 ^ 23`. -/
theorem Guarded.InputExtended_eq (h : Guarded c) (hW : c.input.W ≤ 2 ^ 23) (hH : c.input.H ≤ 2 ^ 23) :
    c.InputExtended = { c.input with W := c.InputExtended_width, H := c.InputExtended_height } := by
  have hunit : 0 < c.attrs.dilationX * c.pixel_stride_alignment :=
    Int.mul_pos h.dilation_pos.1 (by have := c.four_le_alignment; omega)
  have hwidth : c.input.W ≤ c.InputExtended_width := (roundedUp_spec hunit c.input_pos.1.le).2
  have hheight : c.input.H ≤ c.InputExtended_height := (roundedUp_spec h.dilation_pos.2 c.input_pos.2.1.le).2
  unfold InputExtended
  split_ifs with hexpand
  · rfl
  · have hscale : c.InputExtended_scale ≤ 1 := by simpa [Expand_mark] using hexpand
    obtain ⟨hx, hy⟩ := max_le_iff.mp hscale
    have hwidth' : c.InputExtended_width = c.input.W := by
      rcases hwidth.eq_or_lt with heq | hlt
      · exact heq.symm
      · exact absurd hx (not_le.mpr (one_lt_scale c.input_pos.1 hW hlt))
    have hheight' : c.InputExtended_height = c.input.H := by
      rcases hheight.eq_or_lt with heq | hlt
      · exact heq.symm
      · exact absurd hy (not_le.mpr (one_lt_scale c.input_pos.2.1 hH hlt))
    rw [hwidth', hheight']

/-- So the dims are multiples of the dilation. -/
theorem Guarded.dvd_InputExtended (h : Guarded c) (hW : c.input.W ≤ 2 ^ 23) (hH : c.input.H ≤ 2 ^ 23) :
    (c.attrs.dilationX : Int) ∣ c.InputExtended.W ∧ (c.attrs.dilationY : Int) ∣ c.InputExtended.H := by
  have hunit : 0 < c.attrs.dilationX * c.pixel_stride_alignment :=
    Int.mul_pos h.dilation_pos.1 (by have := c.four_le_alignment; omega)
  rw [h.InputExtended_eq hW hH]
  constructor
  · exact (Int.dvd_mul_right _ _).trans (roundedUp_spec hunit c.input_pos.1.le).1
  · exact (roundedUp_spec h.dilation_pos.2 c.input_pos.2.1.le).1

theorem exact_of_sizes (hwidth : c.InputExtended_width = c.input.W) (hheight : c.InputExtended_height = c.input.H)
    (hW : c.input.W ≤ 2 ^ 23) (hH : c.input.H ≤ 2 ^ 23) :
    c.InputExtended_scale = 1 ∧ c.InputExtended = c.input := by
  have hone : nearest 1 = 1 := nearest_of_representable ⟨1, 0, by norm_num, by simp⟩ zero_le_one
  have hquot : ∀ n : ℤ, 0 < n → n ≤ 2 ^ 23 → nearest (nearest n / nearest n) = 1 := by
    intro n hpos hn
    have hne : (n : ℚ) ≠ 0 := by exact_mod_cast hpos.ne'
    rw [nearest_size hpos hn, div_self hne, hone]
  have hscale : c.InputExtended_scale = 1 := by
    rw [InputExtended_scale, hwidth, hheight, hquot _ c.input_pos.1 hW, hquot _ c.input_pos.2.1 hH, max_self]
  refine ⟨hscale, ?_⟩
  rw [InputExtended, if_neg]
  simp [Expand_mark, hscale]

/-- A kernel of 3 by 3 with dilation 2 and the paddings that keep the size. -/
def samePadded : DilatedConv where
  attrs := ⟨3, 3, 1, 1, 2, 2, 2, 2, 2, 2, 1, 1⟩
  tryHW := true
  type := .FP16
  input := ⟨16, 16, 1, 1⟩
  output := ⟨16, 16, 1, 1⟩
  inputIsNCHW := true
  outputIsNCHW := true
  kernel_pos := by decide
  stride_pos := by decide
  pads_nonneg := by decide
  input_pos := by decide
  output_pos := by decide
  output_width := by decide
  output_height := by decide
  output_batch := by decide

/-- The stride along the rows is half of their dilation, and the bottom is padded by three rows. -/
def oddBottom : DilatedConv where
  attrs := ⟨3, 3, 1, 2, 0, 0, 0, 3, 1, 4, 1, 1⟩
  tryHW := true
  type := .FP16
  input := ⟨16, 16, 1, 1⟩
  output := ⟨14, 6, 1, 1⟩
  inputIsNCHW := true
  outputIsNCHW := true
  kernel_pos := by decide
  stride_pos := by decide
  pads_nonneg := by decide
  input_pos := by decide
  output_pos := by decide
  output_width := by decide
  output_height := by decide
  output_batch := by decide

end DilatedConv

end OpenVino.Vpu
