import OpenVino.Base.Scatter
import OpenVino.InferenceEngine.SizeT
import OpenVino.Vpu.Passes.ConvStages

/-!
# Deconvolution as convolution

`replaceDeconvByConv`: a deconvolution that the guards of the pass accept is replaced by zero insertion and a
convolution with stride 1, whose weights `deconv_to_conv` relays out. `deconv_to_conv_relayout` is the layout of these
weights, `replaceDeconv_same` the pass: the two stages compute what the deconvolution computed.
-/

namespace OpenVino.Vpu

open OpenVino.InferenceEngine (elemAt elemAt_ok_iff)

variable {R : Type}

/-- The attributes of the `Upsampling` stage, without those of the third axis. -/
structure UpsamplingStage where
  factorX : Nat
  factorY : Nat
  pad_l_x : Int
  pad_r_x : Int
  pad_l_y : Int
  pad_r_y : Int

def UpsamplingStage.output [CommRing R] (u : UpsamplingStage) (input : Dims) (t : Tensor R) : Tensor R := fun n c =>
  upsample input.H input.W u.factorY u.factorX u.pad_l_y u.pad_l_x (t n c)

/-- A deconvolution stage with its data. The parser makes the strides positive and reads unsigned paddings, and
shape inference gives an output with room for every product. -/
structure DeconvStage (R : Type) where
  attrs : StubStage
  input : Dims
  output : Dims
  outputNumDims : Nat
  hwDisabled : Bool
  weights : List R
  stride_pos : 0 < attrs.kernelStrideX ∧ 0 < attrs.kernelStrideY
  pads_nonneg : 0 ≤ attrs.padLeft ∧ 0 ≤ attrs.padTop
  weights_length : weights.length = attrs.kernelSizeX * attrs.kernelSizeY * (input.C / attrs.groupSize) * output.C
  roomX : attrs.kernelStrideX * ((input.W : Int) - 1) + (max 1 attrs.dilationX : Nat) * ((attrs.kernelSizeX : Int) - 1) + 1 -
    attrs.padLeft - attrs.padRight ≤ output.W
  roomY : attrs.kernelStrideY * ((input.H : Int) - 1) + (max 1 attrs.dilationY : Nat) * ((attrs.kernelSizeY : Int) - 1) + 1 -
    attrs.padTop - attrs.padBottom ≤ output.H

/-! ### The weights -/

/-- The dims of the weights are kernel, input and output channels. -/
def deconv_to_conv_step (KX KY IC OC : Nat) (src dst : List R) (i : Nat × Nat × Nat × Nat) : Result (List R) := do
  let (oc, ic, ky, kx) := i
  let inInd := kx + ky * KX + oc * KX * KY + ic * KX * KY * OC
  let outInd := (KX - kx - 1) + (KY - ky - 1) * KX + ic * KX * KY + oc * KX * KY * IC
  writeAt "dst[outInd]" dst outInd (← elemAt "src[inInd]" src inInd)

/-- `order` is the order in which the threads take the indices. -/
def deconv_to_conv (order : List (Nat × Nat × Nat × Nat)) (KX KY IC OC : Nat) (src dst : List R) : Result (List R) :=
  order.foldlM (deconv_to_conv_step KX KY IC OC src) dst

/-! ### The pass -/

namespace DeconvStage

variable (s : DeconvStage R)

/-- No `continue` of the loop is taken. -/
def accepted : Prop :=
  let a := s.attrs
  let origOutputX := a.kernelStrideX * ((s.input.W : Int) - 1) + a.kernelSizeX - a.padLeft - a.padRight
  let origOutputY := a.kernelStrideY * ((s.input.H : Int) - 1) + a.kernelSizeY - a.padTop - a.padBottom
  ¬(a.kernelSizeX - 1 - a.padLeft < 0 ∨ a.kernelSizeX - 1 - a.padRight < 0 ∨
    a.kernelSizeY - 1 - a.padTop < 0 ∨ a.kernelSizeY - 1 - a.padBottom < 0) ∧
  ¬a.groupSize ≠ 1 ∧
  ¬(a.padTop ≠ a.padBottom ∨ a.padLeft ≠ a.padRight) ∧
  ¬(a.kernelSizeX > 15 ∨ a.kernelSizeY > 15) ∧
  ¬s.hwDisabled ∧
  ¬s.outputNumDims < 4 ∧
  ¬(origOutputX ≠ s.output.W ∨ origOutputY ≠ s.output.H)

instance : Decidable s.accepted := inferInstanceAs (Decidable (_ ∧ _))

/-- `newDesc`. -/
def upsampledDims : Dims where
  N := s.input.N
  C := s.input.C
  H := (((s.input.H : Int) - 1) * s.attrs.kernelStrideY + 1 + (s.attrs.kernelSizeY - 1) * 2 - s.attrs.padTop -
    s.attrs.padBottom).toNat
  W := (((s.input.W : Int) - 1) * s.attrs.kernelStrideX + 1 + (s.attrs.kernelSizeX - 1) * 2 - s.attrs.padLeft -
    s.attrs.padRight).toNat

def upsampleStage : UpsamplingStage where
  factorX := s.attrs.kernelStrideX
  factorY := s.attrs.kernelStrideY
  pad_l_x := s.attrs.kernelSizeX - 1 - s.attrs.padLeft
  pad_r_x := s.attrs.kernelSizeX - 1 - s.attrs.padRight
  pad_l_y := s.attrs.kernelSizeY - 1 - s.attrs.padTop
  pad_r_y := s.attrs.kernelSizeY - 1 - s.attrs.padBottom

def newStage : StubStage where
  kernelSizeX := s.attrs.kernelSizeX
  kernelSizeY := s.attrs.kernelSizeY
  kernelStrideX := 1
  kernelStrideY := 1
  padLeft := 0
  padRight := 0
  padTop := 0
  padBottom := 0
  dilationX := 1
  dilationY := 1
  groupSize := 1
  scaleFactor := s.attrs.scaleFactor

def newWeights [CommRing R] (order : List (Nat × Nat × Nat × Nat)) : Result (List R) :=
  deconv_to_conv order s.attrs.kernelSizeX s.attrs.kernelSizeY (s.input.C / s.attrs.groupSize) s.output.C s.weights
    (List.replicate s.weights.length 0)

/-- What the pass puts in the place of a stage. -/
structure Replacement (R : Type) where
  upsampleStage : UpsamplingStage
  upsampledDims : Dims
  weights : List R
  stage : StubStage

/-- The pass for one stage, `none` for a stage that stays. -/
def replaceDeconvByConv [CommRing R] (order : List (Nat × Nat × Nat × Nat)) : Result (Option (Replacement R)) :=
  if s.accepted then do
    pure (some ⟨s.upsampleStage, s.upsampledDims, ← s.newWeights order, s.newStage⟩)
  else pure none

end DeconvStage

section Relayout

variable [CommRing R] {KX KY IC OC : Nat} {src dst : List R} {order : List (Nat × Nat × Nat × Nat)} {i j : Nat × Nat × Nat × Nat}

/-- `inInd` and `outInd`. -/
def deconvIndex (KX KY OC : Nat) (i : Nat × Nat × Nat × Nat) : Nat :=
  i.2.2.2 + i.2.2.1 * KX + i.1 * KX * KY + i.2.1 * KX * KY * OC

def flippedIndex (KX KY IC : Nat) (i : Nat × Nat × Nat × Nat) : Nat :=
  (KX - i.2.2.2 - 1) + (KY - i.2.2.1 - 1) * KX + i.2.1 * KX * KY + i.1 * KX * KY * IC

theorem deconvIndex_lt (hi : i ∈ loopIndices OC IC KY KX) : deconvIndex KX KY OC i < KX * KY * IC * OC := by
  obtain ⟨hoc, hic, hky, hkx⟩ := mem_loopIndices.mp hi
  have hlt := digits_lt hkx (digits_lt hky (digits_lt hoc hic))
  calc deconvIndex KX KY OC i = i.2.2.2 + KX * (i.2.2.1 + KY * (i.1 + OC * i.2.1)) := by
        rw [deconvIndex]
        ring
    _ < KX * (KY * (OC * IC)) := hlt
    _ = KX * KY * IC * OC := by ring

theorem flippedIndex_eq : flippedIndex KX KY IC i =
    (KX - i.2.2.2 - 1) + KX * ((KY - i.2.2.1 - 1) + KY * (i.2.1 + IC * i.1)) := by
  rw [flippedIndex]
  ring

theorem flippedIndex_lt (hi : i ∈ loopIndices OC IC KY KX) : flippedIndex KX KY IC i < KX * KY * IC * OC := by
  obtain ⟨hoc, hic, hky, hkx⟩ := mem_loopIndices.mp hi
  have hkx' : KX - i.2.2.2 - 1 < KX := by omega
  have hky' : KY - i.2.2.1 - 1 < KY := by omega
  rw [flippedIndex_eq, Nat.mul_assoc, Nat.mul_assoc]
  exact digits_lt hkx' (digits_lt hky' (digits_lt hic hoc))

theorem flippedIndex_inj (hi : i ∈ loopIndices OC IC KY KX) (hj : j ∈ loopIndices OC IC KY KX)
    (heq : flippedIndex KX KY IC i = flippedIndex KX KY IC j) : i = j := by
  obtain ⟨hoc, hic, hky, hkx⟩ := mem_loopIndices.mp hi
  obtain ⟨hoc', hic', hky', hkx'⟩ := mem_loopIndices.mp hj
  rw [flippedIndex_eq, flippedIndex_eq] at heq
  obtain ⟨hx, heq⟩ := digits_inj (by omega) (by omega) heq
  obtain ⟨hy, heq⟩ := digits_inj (by omega) (by omega) heq
  obtain ⟨hic_eq, hoc_eq⟩ := digits_inj hic hic' heq
  exact Prod.ext hoc_eq (Prod.ext hic_eq (Prod.ext (by omega) (by omega)))

/-- The weights of the convolution: input and output channels exchanged, the kernel flipped. -/
theorem deconv_to_conv_relayout (horder : order.Perm (loopIndices OC IC KY KX))
    (hsrc : src.length = KX * KY * IC * OC) (hdst : dst.length = KX * KY * IC * OC) :
    ∃ out, deconv_to_conv order KX KY IC OC src dst = .ok out ∧ ∀ i ∈ loopIndices OC IC KY KX,
      out.getD (flippedIndex KX KY IC i) 0 = src.getD (deconvIndex KX KY OC i) 0 := by
  have hmem : ∀ i, i ∈ order ↔ i ∈ loopIndices OC IC KY KX := fun i => horder.mem_iff
  obtain ⟨out, hrun, hout⟩ : ∃ out, deconv_to_conv order KX KY IC OC src dst = .ok out ∧
      Scattered dst (flippedIndex KX KY IC) (fun i => src.getD (deconvIndex KX KY OC i) 0) order out := by
    refine Scattered.foldlM (fun i hi j hj => flippedIndex_inj ((hmem i).mp hi) ((hmem j).mp hj))
      (fun i hi => hdst ▸ flippedIndex_lt ((hmem i).mp hi)) fun i hi d hd => ?_
    · have hlt : deconvIndex KX KY OC i < src.length := hsrc ▸ deconvIndex_lt ((hmem i).mp hi)
      have hget : elemAt "src[inInd]" src (deconvIndex KX KY OC i : Int) =
          .ok (src.getD (deconvIndex KX KY OC i) 0) := by
        refine elemAt_ok_iff.mpr ⟨Nat.cast_nonneg _, ?_⟩
        rw [Int.toNat_natCast, List.getElem?_eq_getElem hlt, List.getD_eq_getElem _ _ hlt]
      have hroom : flippedIndex KX KY IC i < d.length := by
        rw [hd, hdst]
        exact flippedIndex_lt ((hmem i).mp hi)
      change (elemAt "src[inInd]" src (deconvIndex KX KY OC i : Int) >>= fun x =>
        writeAt "dst[outInd]" d (flippedIndex KX KY IC i) x) = _
      rw [hget, ok_bind, writeAt_ok hroom]
  refine ⟨out, hrun, fun i hi => ?_⟩
  rw [List.getD_eq_getElem?_getD, hout.placed i ((hmem i).mpr hi), Option.getD_some]

end Relayout

/-! ### The stages -/

namespace DeconvStage

variable {s : DeconvStage R} {order : List (Nat × Nat × Nat × Nat)}

/-- An accepted stage has no group and no dilation, and its output is as large as its products reach. -/
structure Accepted (s : DeconvStage R) : Prop where
  kernel_pos : 0 < s.attrs.kernelSizeX ∧ 0 < s.attrs.kernelSizeY
  group : s.attrs.groupSize = 1
  width : s.attrs.kernelStrideX * ((s.input.W : Int) - 1) + s.attrs.kernelSizeX - s.attrs.padLeft - s.attrs.padRight =
    s.output.W
  height : s.attrs.kernelStrideY * ((s.input.H : Int) - 1) + s.attrs.kernelSizeY - s.attrs.padTop - s.attrs.padBottom =
    s.output.H
  padX : s.attrs.padLeft = s.attrs.padRight
  padY : s.attrs.padTop = s.attrs.padBottom
  dilationX : ∀ k < s.attrs.kernelSizeX, k * max 1 s.attrs.dilationX = k
  dilationY : ∀ k < s.attrs.kernelSizeY, k * max 1 s.attrs.dilationY = k

/-- A dilation that does not make the kernel larger is none. -/
theorem mul_dilation {kernel dilation : Nat} (h : (max 1 dilation : Nat) * ((kernel : Int) - 1) + 1 ≤ kernel) {k : Nat}
    (hk : k < kernel) : k * max 1 dilation = k := by
  rcases Nat.eq_zero_or_pos k with rfl | hpos
  · exact Nat.zero_mul _
  · have hone : max 1 dilation = 1 := by
      by_contra hne
      have htwo : (2 : Int) ≤ (max 1 dilation : Nat) := by omega
      have hgrow := mul_le_mul_of_nonneg_right htwo (show (0 : Int) ≤ kernel - 1 by omega)
      omega
    rw [hone, Nat.mul_one]

theorem accepted_of_accepted (h : s.accepted) : s.Accepted := by
  obtain ⟨hkernel, hgroup, hpads, -, -, -, hdims⟩ := h
  simp only [not_or, not_not] at hkernel hgroup hpads hdims
  have hnonneg := s.pads_nonneg
  have hroomX := s.roomX
  have hroomY := s.roomY
  refine ⟨⟨by omega, by omega⟩, hgroup, hdims.1, hdims.2, hpads.2, hpads.1, fun k => mul_dilation ?_, fun k => mul_dilation ?_⟩
  · omega
  · omega

theorem upsampled_width (h : s.Accepted) : (s.upsampledDims.W : Int) = s.output.W + s.attrs.kernelSizeX - 1 := by
  have hwidth := h.width
  have hpos := h.kernel_pos.1
  rw [upsampledDims, Int.mul_comm ((s.input.W : Int) - 1)]
  dsimp only
  omega

theorem upsampled_height (h : s.Accepted) : (s.upsampledDims.H : Int) = s.output.H + s.attrs.kernelSizeY - 1 := by
  have hheight := h.height
  have hpos := h.kernel_pos.2
  rw [upsampledDims, Int.mul_comm ((s.input.H : Int) - 1)]
  dsimp only
  omega

theorem newStage_axisX (d : Dims) : s.newStage.axisX d = ⟨d.W, s.attrs.kernelSizeX, 1, 0, 1⟩ := rfl

theorem newStage_axisY (d : Dims) : s.newStage.axisY d = ⟨d.H, s.attrs.kernelSizeY, 1, 0, 1⟩ := rfl

variable [CommRing R]

theorem newWeights_eq (h : s.Accepted) (horder : order.Perm (loopIndices s.output.C s.input.C s.attrs.kernelSizeY
    s.attrs.kernelSizeX)) : ∃ weights, s.newWeights order = .ok weights ∧
      ∀ oc < s.output.C, ∀ ic < s.input.C, ∀ ky < s.attrs.kernelSizeY, ∀ kx < s.attrs.kernelSizeX,
        s.newStage.convWeight s.upsampledDims weights oc ic ky kx = s.attrs.deconvWeight s.output s.weights oc ic
          (s.attrs.kernelSizeY - 1 - ky) (s.attrs.kernelSizeX - 1 - kx) := by
  have hlength := s.weights_length
  rw [h.group, Nat.div_one] at hlength
  obtain ⟨weights, hrun, hweights⟩ := deconv_to_conv_relayout horder hlength
    (show (List.replicate s.weights.length (0 : R)).length = _ by rw [List.length_replicate, hlength])
  refine ⟨weights, ?_, fun oc hoc ic hic ky hky kx hkx => ?_⟩
  · rw [newWeights, h.group, Nat.div_one, hrun]
  · have hplace := hweights (oc, ic, s.attrs.kernelSizeY - 1 - ky, s.attrs.kernelSizeX - 1 - kx)
      (mem_loopIndices.mpr ⟨hoc, hic, by dsimp only; omega, by dsimp only; omega⟩)
    have hflip : flippedIndex s.attrs.kernelSizeX s.attrs.kernelSizeY s.input.C
        (oc, ic, s.attrs.kernelSizeY - 1 - ky, s.attrs.kernelSizeX - 1 - kx) = kx + ky * s.attrs.kernelSizeX +
          ic * s.attrs.kernelSizeX * s.attrs.kernelSizeY +
          oc * s.attrs.kernelSizeX * s.attrs.kernelSizeY * s.input.C := by
      have hx : s.attrs.kernelSizeX - (s.attrs.kernelSizeX - 1 - kx) - 1 = kx := by omega
      have hy : s.attrs.kernelSizeY - (s.attrs.kernelSizeY - 1 - ky) - 1 = ky := by omega
      rw [flippedIndex, hx, hy]
    rw [hflip] at hplace
    rw [StubStage.convWeight, newStage, upsampledDims, Nat.div_one, hplace]
    rfl

/-- The sums of the two stages. -/
theorem conv_upsampled (h : s.Accepted) (t weight : Nat → Nat → Nat → R) {y x : Nat} (hy : y < s.output.H)
    (hx : x < s.output.W) :
    OpenVino.conv (s.newStage.axisY s.upsampledDims) (s.newStage.axisX s.upsampledDims) s.input.C
      (fun c => upsample s.input.H s.input.W s.attrs.kernelStrideY s.attrs.kernelStrideX
        (s.attrs.kernelSizeY - 1 - s.attrs.padTop) (s.attrs.kernelSizeX - 1 - s.attrs.padLeft) (t c))
      (fun c ky kx => weight c (s.attrs.kernelSizeY - 1 - ky) (s.attrs.kernelSizeX - 1 - kx)) y x =
    OpenVino.deconv (s.attrs.axisY s.input) (s.attrs.axisX s.input) s.input.C t weight y x := by
  have hW := upsampled_width h
  have hH := upsampled_height h
  rw [newStage_axisX, newStage_axisY]
  have hrangeY : y + (s.attrs.axisY s.input).kernel ≤ s.upsampledDims.H := by
    rw [StubStage.axisY]
    dsimp only
    omega
  have hrangeX : x + (s.attrs.axisX s.input).kernel ≤ s.upsampledDims.W := by
    rw [StubStage.axisX]
    dsimp only
    omega
  exact conv_upsample (a := s.attrs.axisY s.input) (b := s.attrs.axisX s.input) s.stride_pos.2 s.stride_pos.1
    h.dilationY h.dilationX hrangeY hrangeX

/-- Two channels to three, kernel 3x2, strides 2 and 3, a padding of 1 on both sides in a row. -/
def twoToThree : DeconvStage Int where
  attrs :=
    { kernelSizeX := 3, kernelSizeY := 2, kernelStrideX := 2, kernelStrideY := 3, padLeft := 1, padRight := 1
      padTop := 0, padBottom := 0, dilationX := 1, dilationY := 1, groupSize := 1 }
  input := ⟨4, 2, 2, 1⟩
  output := ⟨7, 5, 3, 1⟩
  outputNumDims := 4
  hwDisabled := false
  weights := (List.range 36).map fun i => (i : Int) - 7
  stride_pos := by decide
  pads_nonneg := by decide
  weights_length := by decide
  roomX := by decide
  roomY := by decide

end DeconvStage

end OpenVino.Vpu
