import OpenVino.Base.Scatter
import OpenVino.InferenceEngine.SizeT
import OpenVino.Vpu.Passes.ConvStages

/-!
# Splitting a grouped convolution

`splitGroupedConv`: one stage for each group, on its slice of the input channels, with its slice of the weights and
biases, and a concatenation of their outputs. The weights of a group of a convolution are a slice of the buffer
(`convSlice_eq`), those of a deconvolution are collected by `deconvolutionRelayout` (`deconvolutionRelayout_eq`).
`splitGroupedConv_same`: the concatenation is the output of the grouped stage.
-/

namespace OpenVino.Vpu

open OpenVino.InferenceEngine (elemAt elemAt_ok_iff)

variable {R : Type}

/-! ### Split and concat along the channels -/

/-- The offsets that `addSplitStage` and `addConcatStage` give to parts with these channels. -/
def channelOffsets (curOffset : Nat) : List Nat → List Nat
  | [] => []
  | channels :: rest => curOffset :: channelOffsets (curOffset + channels) rest

/-- The output of a `Split` stage at an offset. -/
def splitOutput (offset : Nat) (t : Tensor R) : Tensor R := fun n c => t n (offset + c)

/-- One input of a `Concat` stage. -/
structure ConcatInput (R : Type) where
  offset : Nat
  channels : Nat
  tensor : Tensor R

def concatOutput [Zero R] (inputs : List (ConcatInput R)) : Tensor R := fun n c y x =>
  match inputs.find? fun i => i.offset ≤ c ∧ c < i.offset + i.channels with
  | some i => i.tensor n (c - i.offset) y x
  | none => 0

/-! ### The weights of a group -/

/-- The body of the loops; `src_size` and `dst_size` are the arguments of that name. -/
def deconvolutionRelayoutStep (src : List R) (src_size dst_size KX KY OC g GR goc gic ky : Nat) (dst : List R)
    (kx : Nat) : Result (List R) := do
  let iidx := gic * OC * KY * KX + (g * OC / GR + goc) * KY * KX + ky * KX + kx
  ieAssert "iidx < src_size" (iidx < src_size)
  let oidx := gic * (OC / GR) * KY * KX + goc * KY * KX + ky * KX + kx
  ieAssert "oidx < dst_size" (oidx < dst_size)
  writeAt "dst[oidx]" dst oidx (← elemAt "src[iidx]" src iidx)

def deconvolutionRelayout (src : List R) (src_size : Nat) (dst : List R) (dst_size KX KY IC OC g GR : Nat) :
    Result (List R) :=
  (List.range (OC / GR)).foldlM (fun dst goc =>
    (List.range (IC / GR)).foldlM (fun dst gic =>
      (List.range KY).foldlM (fun dst ky =>
        (List.range KX).foldlM (deconvolutionRelayoutStep src src_size dst_size KX KY OC g GR goc gic ky) dst) dst) dst)
    dst

/-- `std::copy_n(src + start, count, …)`. -/
def copy_n (src : List R) (start count : Nat) : Result (List R) :=
  if start + count ≤ src.length then .ok ((src.drop start).take count) else .error (.undefinedBehaviour "copy_n")

/-! ### The pass -/

inductive StubType
  | StubConv | StubDeconv

/-- A stage with its data. The groups divide the channels, as the parsers of both layers check, and the weights and
biases have the sizes of their descriptions. -/
structure GroupedStage (R : Type) where
  type : StubType
  attrs : StubStage
  input : Dims
  output : Dims
  weights : List R
  biases : Option (List R)
  group_pos : 0 < attrs.groupSize
  group_input : attrs.groupSize ∣ input.C
  group_output : attrs.groupSize ∣ output.C
  weights_length : weights.length = attrs.kernelSizeX * attrs.kernelSizeY * (input.C / attrs.groupSize) * output.C
  biases_length : ∀ b ∈ biases, b.length = output.C

/-- The stage of one group. -/
structure SubConv (R : Type) where
  attrs : StubStage
  input : Dims
  output : Dims
  weights : List R
  biases : Option (List R)

/-- What the pass puts in the place of a stage. -/
structure SplitConv (R : Type) where
  splitOffsets : List Nat
  subs : List (SubConv R)
  concatOffsets : List Nat

namespace GroupedStage

variable [CommRing R] (s : GroupedStage R)

def inGroupDimC : Nat := s.input.C / s.attrs.groupSize

def outGroupDimC : Nat := s.output.C / s.attrs.groupSize

def newWeightsSize : Nat := s.attrs.kernelSizeX * s.attrs.kernelSizeY * s.inGroupDimC * s.outGroupDimC

def subWeights (groupInd : Nat) : Result (List R) :=
  match s.type with
  | .StubDeconv =>
    deconvolutionRelayout s.weights s.weights.length (List.replicate s.newWeightsSize 0) s.newWeightsSize
      s.attrs.kernelSizeX s.attrs.kernelSizeY s.input.C s.output.C groupInd s.attrs.groupSize
  | .StubConv => copy_n s.weights (s.newWeightsSize * groupInd) s.newWeightsSize

def subBiases (groupInd : Nat) : Result (Option (List R)) :=
  match s.biases with
  | none => pure none
  | some origBiases => some <$> copy_n origBiases (groupInd * s.outGroupDimC) s.outGroupDimC

def subConv (groupInd : Nat) : Result (SubConv R) := do
  pure {
    attrs := { s.attrs with groupSize := 1 }
    input := { s.input with C := s.inGroupDimC }
    output := { s.output with C := s.outGroupDimC }
    weights := ← s.subWeights groupInd
    biases := ← s.subBiases groupInd }

/-- The pass for one stage, `none` for a stage that stays. -/
def splitGroupedConv : Result (Option (SplitConv R)) :=
  if s.attrs.groupSize = 1 then pure none
  else if s.attrs.groupSize = s.input.C ∧ s.attrs.groupSize = s.output.C then pure none
  else do
    let subs ← (List.range s.attrs.groupSize).mapM s.subConv
    pure (some {
      splitOffsets := channelOffsets 0 (subs.map fun sub => sub.input.C)
      subs
      concatOffsets := channelOffsets 0 (subs.map fun sub => sub.output.C) })

/-- The output of a stage of this type. -/
def stageOutput (type : StubType) (attrs : StubStage) (input output : Dims) (finish : ℚ → R → Option R → R)
    (weights : List R) (biases : Option (List R)) (t : Tensor R) : Tensor R :=
  match type with
  | .StubConv => attrs.conv input output finish weights biases t
  | .StubDeconv => attrs.deconv input output finish weights biases t

end GroupedStage

/-- The output of the new stages. -/
def SplitConv.output [CommRing R] (r : SplitConv R) (type : StubType) (finish : ℚ → R → Option R → R) (t : Tensor R) :
    Tensor R :=
  concatOutput ((r.subs.zip (r.splitOffsets.zip r.concatOffsets)).map fun p =>
    { offset := p.2.2
      channels := p.1.output.C
      tensor := GroupedStage.stageOutput type p.1.attrs p.1.input p.1.output finish p.1.weights p.1.biases
        (splitOutput p.2.1 t) })

/-! ### The parts of the channels -/

theorem channelOffsets_replicate (k c n : Nat) :
    channelOffsets k (List.replicate n c) = (List.range n).map fun i => k + i * c := by
  induction n generalizing k with
  | zero => rfl
  | succ n ih =>
    rw [List.replicate_succ, channelOffsets, ih, List.range_succ_eq_map, List.map_cons, List.map_map]
    congr 1
    · omega
    · refine List.map_congr_left fun i _ => ?_
      rw [Function.comp_apply, Nat.succ_mul]
      omega

/-- Parts of the same size: a channel is found in the part of its quotient. -/
theorem concatOutput_eq [Zero R] {inputs : List (ConcatInput R)} {size : Nat} (hsize : 0 < size)
    (hparts : ∀ i p, inputs[i]? = some p → p.offset = i * size ∧ p.channels = size) {c : Nat} {p : ConcatInput R}
    (hp : inputs[c / size]? = some p) (n y x : Nat) : concatOutput inputs n c y x = p.tensor n (c % size) y x := by
  have hsplit := Nat.div_add_mod c size
  have hmod := Nat.mod_lt c hsize
  rw [Nat.mul_comm] at hsplit
  obtain ⟨hlt, hget⟩ := List.getElem?_eq_some_iff.mp hp
  have hfind : inputs.find? (fun i => i.offset ≤ c ∧ c < i.offset + i.channels) = some p := by
    refine List.find?_eq_some_iff_getElem.mpr ⟨?_, c / size, hlt, hget, fun j hj => ?_⟩
    · obtain ⟨hoffset, hchannels⟩ := hparts _ _ hp
      rw [decide_eq_true_eq, hoffset, hchannels]
      omega
    · have hj' : j < inputs.length := by omega
      obtain ⟨hoffset, hchannels⟩ := hparts j inputs[j] (List.getElem?_eq_getElem hj')
      have hle : (j + 1) * size ≤ c / size * size := Nat.mul_le_mul_right size hj
      rw [Nat.succ_mul] at hle
      simp only [hoffset, hchannels, Bool.not_eq_true', decide_eq_false_iff_not]
      omega
  rw [concatOutput, hfind]
  dsimp only
  rw [(hparts _ _ hp).1]
  congr 1
  omega

/-! ### The slices of the weights -/

theorem copy_n_getD {src : List R} {start count : Nat} (h : start + count ≤ src.length) :
    ∃ out, copy_n src start count = .ok out ∧ ∀ i < count, ∀ z, out.getD i z = src.getD (start + i) z := by
  refine ⟨(src.drop start).take count, if_pos h, fun i hi z => ?_⟩
  rw [List.getD_eq_getElem?_getD, List.getD_eq_getElem?_getD, List.getElem?_take_of_lt hi, List.getElem?_drop]

section Relayout

variable {src : List R} {KX KY IC OC g GR : Nat} {i j : Nat × Nat × Nat × Nat}

/-- `iidx` and `oidx`, for the group `g` of `GR`. -/
def groupSource (KX KY OC g GR : Nat) (i : Nat × Nat × Nat × Nat) : Nat :=
  i.2.1 * OC * KY * KX + (g * OC / GR + i.1) * KY * KX + i.2.2.1 * KX + i.2.2.2

def groupTarget (KX KY OC GR : Nat) (i : Nat × Nat × Nat × Nat) : Nat :=
  i.2.1 * (OC / GR) * KY * KX + i.1 * KY * KX + i.2.2.1 * KX + i.2.2.2

theorem groupTarget_eq : groupTarget KX KY OC GR i = i.2.2.2 + KX * (i.2.2.1 + KY * (i.1 + OC / GR * i.2.1)) := by
  rw [groupTarget]
  ring

theorem groupTarget_lt (hi : i ∈ loopIndices (OC / GR) (IC / GR) KY KX) :
    groupTarget KX KY OC GR i < KX * KY * (IC / GR) * (OC / GR) := by
  obtain ⟨hgoc, hgic, hky, hkx⟩ := mem_loopIndices.mp hi
  rw [groupTarget_eq]
  calc _ < KX * (KY * (OC / GR * (IC / GR))) := digits_lt hkx (digits_lt hky (digits_lt hgoc hgic))
    _ = KX * KY * (IC / GR) * (OC / GR) := by ring

theorem groupTarget_inj (hi : i ∈ loopIndices (OC / GR) (IC / GR) KY KX)
    (hj : j ∈ loopIndices (OC / GR) (IC / GR) KY KX) (heq : groupTarget KX KY OC GR i = groupTarget KX KY OC GR j) :
    i = j := by
  obtain ⟨hgoc, hgic, hky, hkx⟩ := mem_loopIndices.mp hi
  obtain ⟨hgoc', hgic', hky', hkx'⟩ := mem_loopIndices.mp hj
  rw [groupTarget_eq, groupTarget_eq] at heq
  obtain ⟨hx, heq⟩ := digits_inj hkx hkx' heq
  obtain ⟨hy, heq⟩ := digits_inj hky hky' heq
  obtain ⟨hgoc_eq, hgic_eq⟩ := digits_inj hgoc hgoc' heq
  exact Prod.ext hgoc_eq (Prod.ext hgic_eq (Prod.ext hy hx))

theorem groupSource_lt (hg : g < GR) (hdvd : GR ∣ OC) (hi : i ∈ loopIndices (OC / GR) (IC / GR) KY KX) :
    groupSource KX KY OC g GR i < KX * KY * (IC / GR) * OC := by
  obtain ⟨hgoc, hgic, hky, hkx⟩ := mem_loopIndices.mp hi
  have hchannel : OC / GR * g + i.1 < OC := by
    have hlt := digits_lt hgoc hg
    rw [Nat.div_mul_cancel hdvd] at hlt
    omega
  rw [groupSource, Nat.mul_div_assoc _ hdvd]
  calc _ = i.2.2.2 + KX * (i.2.2.1 + KY * ((OC / GR * g + i.1) + OC * i.2.1)) := by ring
    _ < KX * (KY * (OC * (IC / GR))) := digits_lt hkx (digits_lt hky (digits_lt hchannel hgic))
    _ = KX * KY * (IC / GR) * OC := by ring

/-- The weights of one group. -/
theorem deconvolutionRelayout_eq [Zero R] (hg : g < GR) (hdvd : GR ∣ OC)
    (hsrc : src.length = KX * KY * (IC / GR) * OC) :
    ∃ out, deconvolutionRelayout src src.length (List.replicate (KX * KY * (IC / GR) * (OC / GR)) 0)
        (KX * KY * (IC / GR) * (OC / GR)) KX KY IC OC g GR = .ok out ∧
      ∀ i ∈ loopIndices (OC / GR) (IC / GR) KY KX,
        out.getD (groupTarget KX KY OC GR i) 0 = src.getD (groupSource KX KY OC g GR i) 0 := by
  obtain ⟨out, hrun, hout⟩ : ∃ out, (loopIndices (OC / GR) (IC / GR) KY KX).foldlM (fun dst i =>
      deconvolutionRelayoutStep src src.length (KX * KY * (IC / GR) * (OC / GR)) KX KY OC g GR i.1 i.2.1 i.2.2.1 dst
        i.2.2.2) (List.replicate (KX * KY * (IC / GR) * (OC / GR)) 0) = .ok out ∧
      Scattered (List.replicate (KX * KY * (IC / GR) * (OC / GR)) 0) (groupTarget KX KY OC GR)
        (fun i => src.getD (groupSource KX KY OC g GR i) 0) (loopIndices (OC / GR) (IC / GR) KY KX) out := by
    refine Scattered.foldlM (fun i hi j hj => groupTarget_inj hi hj) (fun i hi => ?_) fun i hi d hd => ?_
    · rw [List.length_replicate]
      exact groupTarget_lt hi
    · have hsource : groupSource KX KY OC g GR i < src.length := hsrc ▸ groupSource_lt hg hdvd hi
      have htarget := groupTarget_lt hi
      have hget : elemAt "src[iidx]" src (groupSource KX KY OC g GR i : Int) =
          .ok (src.getD (groupSource KX KY OC g GR i) 0) := by
        refine elemAt_ok_iff.mpr ⟨Nat.cast_nonneg _, ?_⟩
        rw [Int.toNat_natCast, List.getElem?_eq_getElem hsource, List.getD_eq_getElem _ _ hsource]
      rw [List.length_replicate] at hd
      refine ieAssert_bind_ok_iff.mpr ⟨hsource, ieAssert_bind_ok_iff.mpr ⟨htarget, ?_⟩⟩
      change (elemAt "src[iidx]" src (groupSource KX KY OC g GR i : Int) >>= fun x =>
        writeAt "dst[oidx]" d (groupTarget KX KY OC GR i) x) = _
      rw [hget, ok_bind, writeAt_ok (by rwa [hd])]
  refine ⟨out, ?_, fun i hi => ?_⟩
  · rw [← hrun, foldlM_loopIndices (fun goc gic ky =>
      deconvolutionRelayoutStep src src.length (KX * KY * (IC / GR) * (OC / GR)) KX KY OC g GR goc gic ky)]
    rfl
  · rw [List.getD_eq_getElem?_getD, hout.placed i hi, Option.getD_some]

end Relayout

/-! ### One group -/

namespace GroupedStage

variable {s : GroupedStage R} {g : Nat}

/-- The attributes and dims of the stage of a group. -/
def subAttrs (s : GroupedStage R) : StubStage := { s.attrs with groupSize := 1 }

def subInput (s : GroupedStage R) : Dims := { s.input with C := s.inGroupDimC }

def subOutput (s : GroupedStage R) : Dims := { s.output with C := s.outGroupDimC }

theorem mul_outGroupDimC (s : GroupedStage R) : s.attrs.groupSize * s.outGroupDimC = s.output.C :=
  Nat.mul_div_cancel' s.group_output

/-- The groups up to `g` have their places in a buffer with the same number of elements for each. -/
theorem slice_le (hg : g < s.attrs.groupSize) (size : Nat) : size * g + size ≤ size * s.attrs.groupSize := by
  rw [← Nat.mul_succ]
  exact Nat.mul_le_mul_left size hg

variable [CommRing R]

theorem subWeights_conv (hs : s.type = .StubConv) (hg : g < s.attrs.groupSize) :
    ∃ weights, s.subWeights g = .ok weights ∧ ∀ goc < s.outGroupDimC, ∀ ic < s.inGroupDimC,
      ∀ ky < s.attrs.kernelSizeY, ∀ kx < s.attrs.kernelSizeX,
        s.subAttrs.convWeight s.subInput weights goc ic ky kx =
          s.attrs.convWeight s.input s.weights (g * s.outGroupDimC + goc) ic ky kx := by
  have hlength : s.newWeightsSize * g + s.newWeightsSize ≤ s.weights.length := by
    refine (slice_le hg s.newWeightsSize).trans (le_of_eq ?_)
    rw [s.weights_length, ← mul_outGroupDimC s, newWeightsSize, inGroupDimC]
    ring
  obtain ⟨weights, hrun, hweights⟩ := copy_n_getD hlength
  refine ⟨weights, by rw [subWeights, hs]; exact hrun, fun goc hgoc ic hic ky hky kx hkx => ?_⟩
  have hlt := digits_lt hkx (digits_lt hky (digits_lt hic hgoc))
  have hplace := hweights (kx + s.attrs.kernelSizeX * (ky + s.attrs.kernelSizeY * (ic + s.inGroupDimC * goc)))
    (by
      rw [newWeightsSize]
      linarith) 0
  rw [StubStage.convWeight, StubStage.convWeight]
  refine Eq.trans ?_ (hplace.trans ?_)
  · refine congrArg (weights.getD · 0) ?_
    simp only [subAttrs, subInput, Nat.div_one]
    ring
  · refine congrArg (s.weights.getD · 0) ?_
    rw [newWeightsSize, ← inGroupDimC]
    ring

theorem subWeights_deconv (hs : s.type = .StubDeconv) (hg : g < s.attrs.groupSize) :
    ∃ weights, s.subWeights g = .ok weights ∧ ∀ goc < s.outGroupDimC, ∀ ic < s.inGroupDimC,
      ∀ ky < s.attrs.kernelSizeY, ∀ kx < s.attrs.kernelSizeX,
        s.subAttrs.deconvWeight s.subOutput weights goc ic ky kx =
          s.attrs.deconvWeight s.output s.weights (g * s.outGroupDimC + goc) ic ky kx := by
  obtain ⟨weights, hrun, hweights⟩ := deconvolutionRelayout_eq hg s.group_output s.weights_length
  refine ⟨weights, by rw [subWeights, hs]; exact hrun, fun goc hgoc ic hic ky hky kx hkx => ?_⟩
  have hplace := hweights (goc, ic, ky, kx) (mem_loopIndices.mpr ⟨hgoc, hic, hky, hkx⟩)
  rw [StubStage.deconvWeight, StubStage.deconvWeight]
  refine Eq.trans ?_ (hplace.trans ?_)
  · refine congrArg (weights.getD · 0) ?_
    simp only [subAttrs, subOutput, outGroupDimC, groupTarget]
    ring
  · refine congrArg (s.weights.getD · 0) ?_
    rw [groupSource, Nat.mul_div_assoc _ s.group_output, ← outGroupDimC]
    ring

theorem subBiases_eq (hg : g < s.attrs.groupSize) : ∃ biases, s.subBiases g = .ok biases ∧
    ∀ goc < s.outGroupDimC, biases.map (fun b => b.getD goc 0) =
      s.biases.map fun b => b.getD (g * s.outGroupDimC + goc) 0 := by
  cases hb : s.biases with
  | none => exact ⟨none, by rw [subBiases, hb]; rfl, fun _ _ => rfl⟩
  | some origBiases =>
    have hlength : g * s.outGroupDimC + s.outGroupDimC ≤ origBiases.length := by
      rw [s.biases_length origBiases hb, ← mul_outGroupDimC s, Nat.mul_comm g, Nat.mul_comm s.attrs.groupSize]
      exact slice_le hg s.outGroupDimC
    obtain ⟨biases, hrun, hbiases⟩ := copy_n_getD hlength
    refine ⟨some biases, by rw [subBiases, hb]; simp only [hrun]; rfl, fun goc hgoc => ?_⟩
    exact congrArg some (hbiases goc hgoc 0)

/-- The stage of a group computes the channels of the group. -/
theorem subConv_output (hg : g < s.attrs.groupSize) : ∃ sub, s.subConv g = .ok sub ∧
    sub.input = s.subInput ∧ sub.output = s.subOutput ∧
    ∀ (finish : ℚ → R → Option R → R) (t : Tensor R), ∀ n, ∀ goc < s.outGroupDimC, ∀ y x,
      stageOutput s.type sub.attrs sub.input sub.output finish sub.weights sub.biases
          (splitOutput (g * s.inGroupDimC) t) n goc y x =
        stageOutput s.type s.attrs s.input s.output finish s.weights s.biases t n (g * s.outGroupDimC + goc) y x := by
  obtain ⟨biases, hbiases, hbias⟩ := subBiases_eq (s := s) hg
  have hfirst : ∀ goc < s.outGroupDimC, s.attrs.firstChannel s.input s.output (g * s.outGroupDimC + goc) =
      g * s.inGroupDimC := by
    intro goc hgoc
    have hdiv : (g * s.outGroupDimC + goc) / s.outGroupDimC = g := by
      rw [Nat.add_comm, Nat.add_mul_div_right _ _ (by omega), Nat.div_eq_of_lt hgoc, Nat.zero_add]
    rw [StubStage.firstChannel, ← outGroupDimC, hdiv, inGroupDimC]
  have hfirst' : ∀ goc < s.outGroupDimC, s.subAttrs.firstChannel s.subInput s.subOutput goc = 0 := by
    intro goc hgoc
    rw [StubStage.firstChannel]
    change goc / (s.outGroupDimC / 1) * _ = 0
    rw [Nat.div_one, Nat.div_eq_of_lt hgoc, Nat.zero_mul]
  have hchannels : s.subInput.C / s.subAttrs.groupSize = s.inGroupDimC := Nat.div_one _
  cases hs : s.type with
  | StubConv =>
    obtain ⟨weights, hrun, hweights⟩ := subWeights_conv hs hg
    refine ⟨⟨s.subAttrs, s.subInput, s.subOutput, weights, biases⟩, ?_, rfl, rfl, fun finish t n goc hgoc y x => ?_⟩
    · rw [subConv, hrun, ok_bind, hbiases]
      rfl
    · simp only [stageOutput, StubStage.conv, hfirst goc hgoc, hfirst' goc hgoc, hbias goc hgoc, hchannels,
        splitOutput, Nat.zero_add]
      refine congrArg (fun sum => finish s.attrs.scaleFactor sum _) ?_
      exact conv_congr (R := R) (fun c _ => rfl) (hweights goc hgoc) y x
  | StubDeconv =>
    obtain ⟨weights, hrun, hweights⟩ := subWeights_deconv hs hg
    refine ⟨⟨s.subAttrs, s.subInput, s.subOutput, weights, biases⟩, ?_, rfl, rfl, fun finish t n goc hgoc y x => ?_⟩
    · rw [subConv, hrun, ok_bind, hbiases]
      rfl
    · simp only [stageOutput, StubStage.deconv, hfirst goc hgoc, hfirst' goc hgoc, hbias goc hgoc, hchannels,
        splitOutput, Nat.zero_add]
      refine congrArg (fun sum => finish s.attrs.scaleFactor sum _) ?_
      exact deconv_congr (R := R) (fun c _ => rfl) (hweights goc hgoc) y x

/-! ### All groups -/

theorem channelOffsets_of_eq {dims : List Nat} {n c : Nat} (hlength : dims.length = n) (heq : ∀ d ∈ dims, d = c) :
    channelOffsets 0 dims = (List.range n).map fun i => i * c := by
  rw [List.eq_replicate_iff.mpr ⟨hlength, heq⟩, channelOffsets_replicate]
  exact List.map_congr_left fun i _ => Nat.zero_add _

theorem getElem?_parts {α : Type} {l : List α} {n a b i : Nat} (hlength : l.length = n) :
    (l.zip (((List.range n).map fun i => i * a).zip ((List.range n).map fun i => i * b)))[i]? =
      l[i]?.map fun x => (x, i * a, i * b) := by
  by_cases hi : i < n
  · have hl : i < l.length := hlength ▸ hi
    rw [List.getElem?_eq_getElem (by simp [hl, hi]), List.getElem?_eq_getElem hl]
    simp
  · have hl : ¬i < l.length := hlength ▸ hi
    rw [List.getElem?_eq_none (by simp; omega), List.getElem?_eq_none (by omega), Option.map_none]

/-- Four groups of a deconvolution with two input channels and one output channel each. -/
def fourGroups : GroupedStage Int where
  type := .StubDeconv
  attrs :=
    { kernelSizeX := 2, kernelSizeY := 3, kernelStrideX := 2, kernelStrideY := 1, padLeft := 0, padRight := 0
      padTop := 1, padBottom := 1, dilationX := 1, dilationY := 1, groupSize := 4 }
  input := ⟨5, 5, 8, 1⟩
  output := ⟨10, 5, 4, 1⟩
  weights := (List.range 48).map fun i => (i : Int)
  biases := some [1, 2, 3, 4]
  group_pos := by decide
  group_input := by decide
  group_output := by decide
  weights_length := by decide
  biases_length := by decide

end GroupedStage

end OpenVino.Vpu
