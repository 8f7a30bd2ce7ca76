import OpenVino.Base.Scatter
import OpenVino.Vpu.Numeric

/-!
# Weights of the HW unit

`HwWeightsContent::fillTempBuf` of `hw/utility.cpp` places the weights of each output channel in its block. The
position of a weight is a number whose digits are the channel inside its block, the point of the kernel, the input
channel and the block (`position_eq`); the digits are apart if the input channels that are copied fit into the
description or if there is one block only (`position_inj`). `fillTempBuf_relayout` is the whole call. The threads take
the output channels in any order.
-/

namespace OpenVino.Vpu

open OpenVino.InferenceEngine (intArith intArith_ok_iff elemAt elemAt_ok_iff)

/-- The dims of the original weights and of the HW description (`Dim::W`, `H`, `C` and `N`), and the input channels that
are copied. -/
structure HwWeightsContent where
  KX : Nat
  KY : Nat
  IC : Nat
  OC : Nat
  HW_OC_inner : Nat
  HW_K : Nat
  HW_IC : Nat
  HW_OC_outer : Nat
  numInputChannels : Nat
  channelStartIndex : Nat

namespace HwWeightsContent

variable (w : HwWeightsContent)

def origTotalSize : Nat := w.KX * w.KY * w.IC * w.OC

def totalDimSize : Nat := w.HW_OC_inner * w.HW_K * w.HW_IC * w.HW_OC_outer

def HW_IC_real : Nat := min w.numInputChannels (w.IC - w.channelStartIndex)

/-- The assertions in front of the loops, on `int`s. -/
def assertions : Result Unit := do
  let _ ← intArith "origTotalSize" w.origTotalSize
  let _ ← intArith "_desc.totalDimSize()" w.totalDimSize
  ieAssert "HW_OC_outer * HW_OC_inner >= OC" (w.HW_OC_outer * w.HW_OC_inner ≥ w.OC)
  ieAssert "HW_K == KX * KY" (w.HW_K = w.KX * w.KY)
  ieAssert "_channelStartIndex < IC" (w.channelStartIndex < w.IC)
  let lastSrc ← intArith "(_channelStartIndex + HW_IC_real) * HW_K + (OC - 1) * HW_K * IC - 1"
    ((w.channelStartIndex + w.HW_IC_real) * w.HW_K + (w.OC - 1) * w.HW_K * w.IC - 1)
  ieAssert "… < origTotalSize" (lastSrc < w.origTotalSize)
  let lastInner ← intRem "(OC - 1) % HW_OC_inner" (w.OC - 1) w.HW_OC_inner
  let lastDst ← intArith "(OC - 1) % HW_OC_inner + …"
    (lastInner + (w.HW_K - 1) * w.HW_OC_inner +
      (w.HW_IC_real - 1) * w.HW_OC_inner * w.HW_K + ((w.OC : Int) - 1).tdiv 8 * w.HW_OC_inner * w.HW_K * w.HW_IC)
  ieAssert "… < _desc.totalDimSize()" (lastDst < w.totalDimSize)

variable {α : Type}

/-- The assignment for one input channel of a kernel 1x1. -/
def copyPoint (srcData : List α) (oc : Nat) (dstData : List α) (ic : Nat) : Result (List α) := do
  let oc_inner := oc % w.HW_OC_inner
  let oc_outer := oc / w.HW_OC_inner
  let srcInd := w.channelStartIndex + ic + oc * w.IC
  let dstInd := oc_inner + ic * w.HW_OC_inner * w.HW_K + oc_outer * w.HW_OC_inner * w.HW_K * w.HW_IC
  writeAt "dstData[dstInd]" dstData dstInd (← elemAt "srcData[srcInd]" srcData srcInd)

def copyPoints (order : List Nat) (srcData dstData : List α) : Result (List α) :=
  order.foldlM (fun dst oc => (List.range w.HW_IC_real).foldlM (w.copyPoint srcData oc) dst) dstData

def dstInd (oc ic ky kx : Nat) : Nat :=
  oc % w.HW_OC_inner + (ky * w.KX + kx) * w.HW_OC_inner + ic * w.HW_OC_inner * w.HW_K +
    oc / w.HW_OC_inner * w.HW_OC_inner * w.HW_K * w.HW_IC

def srcInd (oc ic ky kx : Nat) : Nat :=
  kx + ky * w.KX + (w.channelStartIndex + ic) * w.HW_K + oc * w.HW_K * w.IC

/-- The assignment for one weight of a kernel. -/
def copyWeight (srcData : List α) (oc ic ky : Nat) (dstData : List α) (kx : Nat) : Result (List α) := do
  writeAt "dstData[dstInd]" dstData (w.dstInd oc ic ky kx) (← elemAt "srcData[srcInd]" srcData (w.srcInd oc ic ky kx))

def copyKernels (order : List Nat) (srcData dstData : List α) : Result (List α) :=
  order.foldlM (fun dst oc =>
    (List.range w.HW_IC_real).foldlM (fun dst ic =>
      (List.range w.KY).foldlM (fun dst ky =>
        (List.range w.KX).foldlM (w.copyWeight srcData oc ic ky) dst) dst) dst) dstData

/-- `order` is the order in which the threads take the output channels; the buffer is new and zero. -/
def fillTempBuf [Zero α] (order : List Nat) (srcData : List α) : Result (List α) := do
  w.assertions
  let dstData := List.replicate w.totalDimSize 0
  if w.KX = 1 ∧ w.KY = 1 then w.copyPoints order srcData dstData else w.copyKernels order srcData dstData

/-! ### The position of a weight -/

/-- A weight that is copied: output channel, input channel, row and column of the kernel. -/
abbrev Weight := Nat × Nat × Nat × Nat

def weights (order : List Nat) : List Weight :=
  order.flatMap fun oc => (List.range w.HW_IC_real).flatMap fun ic =>
    (List.range w.KY).flatMap fun ky => (List.range w.KX).map fun kx => (oc, ic, ky, kx)

def position (i : Weight) : Nat := w.dstInd i.1 i.2.1 i.2.2.1 i.2.2.2

def source (i : Weight) : Nat := w.srcInd i.1 i.2.1 i.2.2.1 i.2.2.2

/-- The input channels that are copied fit into the description, or the output channels into one block. -/
def Fits : Prop := w.HW_IC_real ≤ w.HW_IC ∨ w.OC ≤ w.HW_OC_inner

variable {w} {order : List Nat} {i j : Weight} {srcData : List α}

theorem mem_weights (horder : order.Perm (List.range w.OC)) :
    i ∈ w.weights order ↔ i.1 < w.OC ∧ i.2.1 < w.HW_IC_real ∧ i.2.2.1 < w.KY ∧ i.2.2.2 < w.KX := by
  obtain ⟨oc, ic, ky, kx⟩ := i
  simp only [weights, List.mem_flatMap, List.mem_map, List.mem_range, horder.mem_iff, Prod.mk.injEq]
  constructor
  · rintro ⟨oc', hoc, ic', hic, ky', hky, kx', hkx, rfl, rfl, rfl, rfl⟩
    exact ⟨hoc, hic, hky, hkx⟩
  · rintro ⟨hoc, hic, hky, hkx⟩
    exact ⟨oc, hoc, ic, hic, ky, hky, kx, hkx, rfl, rfl, rfl, rfl⟩

/-- What the assertions say. -/
structure Asserted (w : HwWeightsContent) : Prop where
  blocks : w.OC ≤ w.HW_OC_outer * w.HW_OC_inner
  kernel : w.HW_K = w.KX * w.KY
  start : w.channelStartIndex < w.IC
  lastDst : ((w.OC : Int) - 1).tmod w.HW_OC_inner + (w.HW_K - 1) * w.HW_OC_inner +
    (w.HW_IC_real - 1) * w.HW_OC_inner * w.HW_K + ((w.OC : Int) - 1).tdiv 8 * w.HW_OC_inner * w.HW_K * w.HW_IC <
      w.totalDimSize

theorem asserted_of_assertions (h : w.assertions = .ok ()) : w.Asserted := by
  unfold assertions at h
  simp only [bind_ok_iff, intArith_ok_iff, ieAssert_ok_iff] at h
  obtain ⟨-, -, -, -, -, hblocks, -, hkernel, -, hstart, -, -, -, -, lastInner, hinner, -, ⟨-, rfl⟩, hlast⟩ := h
  rw [intRem_ok hinner] at hlast
  exact ⟨hblocks, hkernel, hstart, hlast⟩

/-- The digits of a position. -/
theorem position_eq : w.position i = i.1 % w.HW_OC_inner + w.HW_OC_inner * ((i.2.2.2 + w.KX * i.2.2.1) +
    w.HW_K * (i.2.1 + w.HW_IC * (i.1 / w.HW_OC_inner))) := by
  unfold position dstInd
  ring

theorem source_eq (h : w.Asserted) : w.source i = i.2.2.2 + w.KX * (i.2.2.1 + w.KY * (w.channelStartIndex + i.2.1 +
    w.IC * i.1)) := by
  unfold source srcInd
  rw [h.kernel]
  ring

theorem inner_pos (h : w.Asserted) {oc : Nat} (hoc : oc < w.OC) : 0 < w.HW_OC_inner := by
  have hblocks := h.blocks
  by_contra hzero
  rw [Nat.eq_zero_of_not_pos hzero, Nat.mul_zero] at hblocks
  omega

/-- The point of the kernel is one digit. -/
theorem kernelPoint_lt (h : w.Asserted) (hi : i.2.2.1 < w.KY ∧ i.2.2.2 < w.KX) :
    i.2.2.2 + w.KX * i.2.2.1 < w.HW_K := by
  rw [h.kernel]
  exact digits_lt hi.2 hi.1

theorem position_inj (h : w.Asserted) (hfits : w.Fits) (horder : order.Perm (List.range w.OC))
    (hi : i ∈ w.weights order) (hj : j ∈ w.weights order) (heq : w.position i = w.position j) : i = j := by
  obtain ⟨hoc, hic, hk⟩ := (mem_weights horder).mp hi
  obtain ⟨hoc', hic', hk'⟩ := (mem_weights horder).mp hj
  have hinner := inner_pos h hoc
  rw [position_eq, position_eq] at heq
  obtain ⟨hmod, heq⟩ := digits_inj (Nat.mod_lt _ hinner) (Nat.mod_lt _ hinner) heq
  obtain ⟨hpoint, heq⟩ := digits_inj (kernelPoint_lt h hk) (kernelPoint_lt h hk') heq
  obtain ⟨hkx, hky⟩ := digits_inj hk.2 hk'.2 hpoint
  have hchannel : i.2.1 = j.2.1 ∧ i.1 / w.HW_OC_inner = j.1 / w.HW_OC_inner := by
    rcases hfits with hfits | hfits
    · exact digits_inj (by omega) (by omega) heq
    · rw [Nat.div_eq_of_lt (by omega), Nat.div_eq_of_lt (by omega), Nat.mul_zero, Nat.add_zero, Nat.add_zero] at heq
      exact ⟨heq, by rw [Nat.div_eq_of_lt (by omega), Nat.div_eq_of_lt (by omega)]⟩
  have hoc_eq : i.1 = j.1 := by
    rw [← Nat.div_add_mod i.1 w.HW_OC_inner, ← Nat.div_add_mod j.1 w.HW_OC_inner, hmod, hchannel.2]
  exact Prod.ext hoc_eq (Prod.ext hchannel.1 (Prod.ext hky hkx))

theorem position_lt (h : w.Asserted) (hfits : w.Fits) (horder : order.Perm (List.range w.OC))
    (hi : i ∈ w.weights order) : w.position i < w.totalDimSize := by
  obtain ⟨hoc, hic, hk⟩ := (mem_weights horder).mp hi
  have hinner := inner_pos h hoc
  have hpoint := kernelPoint_lt h hk
  rw [position_eq]
  rcases hfits with hfits | hfits
  · have hblock : i.1 / w.HW_OC_inner < w.HW_OC_outer := by
      rw [Nat.div_lt_iff_lt_mul hinner]
      exact lt_of_lt_of_le hoc h.blocks
    rw [totalDimSize, Nat.mul_assoc, Nat.mul_assoc]
    exact digits_lt (Nat.mod_lt _ hinner) (digits_lt hpoint (digits_lt (by omega) hblock))
  · -- in the only block a position is at most the one that the assertion tests
    have hlast := h.lastDst
    have hblock : i.1 / w.HW_OC_inner = 0 := Nat.div_eq_of_lt (by omega)
    have hmod : ((w.OC : Int) - 1).tmod w.HW_OC_inner = w.OC - 1 := Int.tmod_eq_of_lt (by omega) (by omega)
    have hdiv : 0 ≤ ((w.OC : Int) - 1).tdiv 8 := Int.tdiv_nonneg (by omega) (by norm_num)
    have hover : 0 ≤ ((w.OC : Int) - 1).tdiv 8 * w.HW_OC_inner * w.HW_K * w.HW_IC := by positivity
    have hrow : ((i.2.2.2 + w.KX * i.2.2.1 : Nat) : Int) * w.HW_OC_inner ≤ (w.HW_K - 1) * w.HW_OC_inner :=
      mul_le_mul_of_nonneg_right (by omega) (by omega)
    have hchannel : (i.2.1 : Int) * (w.HW_OC_inner * w.HW_K) ≤ (w.HW_IC_real - 1) * (w.HW_OC_inner * w.HW_K) :=
      mul_le_mul_of_nonneg_right (by omega) (by positivity)
    rw [hmod] at hlast
    rw [hblock, Nat.mod_eq_of_lt (by omega)]
    zify
    calc ((i.1 : Int) + w.HW_OC_inner * ((i.2.2.2 + w.KX * i.2.2.1) + w.HW_K * (i.2.1 + w.HW_IC * 0)))
        = i.1 + (i.2.2.2 + w.KX * i.2.2.1 : Nat) * w.HW_OC_inner + i.2.1 * (w.HW_OC_inner * w.HW_K) := by
          push_cast
          ring
      _ ≤ (w.OC - 1) + (w.HW_K - 1) * w.HW_OC_inner + (w.HW_IC_real - 1) * (w.HW_OC_inner * w.HW_K) := by omega
      _ ≤ _ := le_add_of_nonneg_right hover
      _ < w.totalDimSize := by
          rw [← Int.mul_assoc]
          exact hlast

theorem source_lt (h : w.Asserted) (horder : order.Perm (List.range w.OC)) (hi : i ∈ w.weights order) :
    w.source i < w.origTotalSize := by
  obtain ⟨hoc, hic, hky, hkx⟩ := (mem_weights horder).mp hi
  have hreal : w.HW_IC_real ≤ w.IC - w.channelStartIndex := Nat.min_le_right ..
  rw [source_eq h, origTotalSize, Nat.mul_assoc, Nat.mul_assoc]
  exact digits_lt hkx (digits_lt hky (digits_lt (by omega) hoc))

/-! ### The loops -/

theorem copyKernels_eq (order : List Nat) (srcData dstData : List α) : w.copyKernels order srcData dstData =
    (w.weights order).foldlM (fun dst i => w.copyWeight srcData i.1 i.2.1 i.2.2.1 dst i.2.2.2) dstData := by
  simp only [weights, foldlM_flatMap, List.foldlM_map, copyKernels]

/-- The loop for kernels 1x1 does what the general one does. -/
theorem copyPoints_eq (hKX : w.KX = 1) (hKY : w.KY = 1) (hK : w.HW_K = 1) (order : List Nat) (srcData dstData : List α) :
    w.copyPoints order srcData dstData = w.copyKernels order srcData dstData := by
  refine foldlM_congr (fun dst oc _ => foldlM_congr (fun dst ic _ => ?_) dst) dstData
  simp [copyPoint, copyWeight, dstInd, srcInd, hKX, hKY, hK, List.range_one]

/-- What the relayout has to do. -/
structure Relayout [Zero α] (w : HwWeightsContent) (order : List Nat) (srcData dstData : List α) : Prop where
  length : dstData.length = w.totalDimSize
  inside : ∀ i ∈ w.weights order, w.position i < w.totalDimSize
  distinct : ∀ i ∈ w.weights order, ∀ j ∈ w.weights order, w.position i = w.position j → i = j
  placed : ∀ i ∈ w.weights order, ∃ x, srcData[w.source i]? = some x ∧ dstData[w.position i]? = some x
  zero : ∀ k < w.totalDimSize, (∀ i ∈ w.weights order, w.position i ≠ k) → dstData[k]? = some 0
  sameLoops : w.KX = 1 → w.KY = 1 → ∀ dst : List α,
    w.copyPoints order srcData dst = w.copyKernels order srcData dst

theorem copyKernels_scatters [Inhabited α] (h : w.Asserted) (hfits : w.Fits) (horder : order.Perm (List.range w.OC))
    (hsrc : srcData.length = w.origTotalSize) {dstData : List α} (hdst : dstData.length = w.totalDimSize) :
    ∃ out, w.copyKernels order srcData dstData = .ok out ∧
      Scattered dstData w.position (fun i => srcData.getD (w.source i) default) (w.weights order) out := by
  rw [copyKernels_eq]
  refine Scattered.foldlM (fun i hi j hj => position_inj h hfits horder hi hj)
    (fun i hi => hdst ▸ position_lt h hfits horder hi) fun i hi dst hlength => ?_
  have hlt : w.source i < srcData.length := hsrc ▸ source_lt h horder hi
  have hget : elemAt "srcData[srcInd]" srcData (w.source i : Int) = .ok (srcData.getD (w.source i) default) := by
    refine elemAt_ok_iff.mpr ⟨Nat.cast_nonneg _, ?_⟩
    rw [Int.toNat_natCast, List.getElem?_eq_getElem hlt, List.getD_eq_getElem _ _ hlt]
  have hroom : w.position i < dst.length := by
    rw [hlength, hdst]
    exact position_lt h hfits horder hi
  change (elemAt "srcData[srcInd]" srcData (w.source i : Int) >>= fun x =>
    writeAt "dstData[dstInd]" dst (w.position i) x) = _
  rw [hget, ok_bind, writeAt_ok hroom]

/-- **The relayout of the weights** for every description that the assertions let through. -/
theorem fillTempBuf_relayout [Zero α] (hassert : w.assertions = .ok ()) (hfits : w.Fits)
    (horder : order.Perm (List.range w.OC)) (hsrc : srcData.length = w.origTotalSize) :
    ∃ dstData, w.fillTempBuf order srcData = .ok dstData ∧ w.Relayout order srcData dstData := by
  have : Inhabited α := ⟨0⟩
  have h := asserted_of_assertions hassert
  obtain ⟨out, hrun, hscattered⟩ :=
    copyKernels_scatters h hfits horder hsrc (List.length_replicate (n := w.totalDimSize) (a := (0 : α)))
  have hsame : w.KX = 1 → w.KY = 1 → ∀ dst : List α, w.copyPoints order srcData dst = w.copyKernels order srcData dst :=
    fun hKX hKY => copyPoints_eq hKX hKY (by rw [h.kernel, hKX, hKY]) order srcData
  refine ⟨out, ?_, ?_, fun i => position_lt h hfits horder, fun i hi j hj => position_inj h hfits horder hi hj,
    fun i hi => ?_, fun k hk hfree => ?_, hsame⟩
  · rw [fillTempBuf, hassert, ok_bind]
    by_cases hpoint : w.KX = 1 ∧ w.KY = 1
    · rw [if_pos hpoint, hsame hpoint.1 hpoint.2, hrun]
    · rw [if_neg hpoint, hrun]
  · rw [hscattered.length, List.length_replicate]
  · have hlt : w.source i < srcData.length := hsrc ▸ source_lt h horder hi
    refine ⟨srcData.getD (w.source i) default, ?_, hscattered.placed i hi⟩
    rw [List.getElem?_eq_getElem hlt, List.getD_eq_getElem _ _ hlt]
  · rw [hscattered.kept k hfree, List.getElem?_replicate, if_pos hk]

/-! ### Two descriptions -/

/-- 9 output channels in blocks of 8, the input channels 1 and 2 of 3, kernel 2x1. -/
def twoBlocks : HwWeightsContent := ⟨2, 1, 3, 9, 8, 2, 4, 2, 2, 1⟩

theorem relayout_twoBlocks : ∃ dstData, twoBlocks.fillTempBuf (List.range 9) (List.replicate 54 (1 : Int)) = .ok dstData ∧
    twoBlocks.Relayout (List.range 9) (List.replicate 54 1) dstData :=
  fillTempBuf_relayout (by decide +kernel) (.inl (by decide)) (List.Perm.refl _) List.length_replicate

/-- Two input channels for a description with one, and a block more than the output channels need. -/
def oneChannel : HwWeightsContent := ⟨1, 1, 2, 16, 8, 1, 1, 3, 2, 0⟩

/-- The assertions hold, but the second input channel of the first block is where the second block starts. -/
theorem oneChannel_overwrites : oneChannel.assertions = .ok () ∧
    (0, 1, 0, 0) ∈ oneChannel.weights (List.range 16) ∧ (8, 0, 0, 0) ∈ oneChannel.weights (List.range 16) ∧
    oneChannel.position (0, 1, 0, 0) = oneChannel.position (8, 0, 0, 0) := by
  refine ⟨by decide +kernel, ?_, ?_, by decide⟩
  · exact (mem_weights (List.Perm.refl _)).mpr (by decide)
  · exact (mem_weights (List.Perm.refl _)).mpr (by decide)

end HwWeightsContent

end OpenVino.Vpu
