import OpenVino.Base.Reported
import OpenVino.InferenceEngine.ShapeInfer.SamePadding
import OpenVino.InferenceEngine.ShapeInfer.WindowBounds

/-!
# The shapes that the inference accepts

Whole layers. A shape inference reports an error where a property is missing for an axis (`reported_iff`) and
never because of the sizes, so it accepts a kernel larger than the padded input. Over sizes that `float` has exactly,
`window_sizes_iff` says which layers get the sizes they should.
-/

namespace OpenVino.InferenceEngine

/-! ### The loops report what is missing -/

theorem toSize_error {x : Single} {e : IEException} (h : toSize x = .error e) :
    e = .undefinedBehaviour "static_cast<size_t>(OD_temp[i])" := by
  unfold toSize at h
  cases x with
  | finite q =>
    dsimp only at h
    split_ifs at h
    exact (Except.error.inj h).symm
  | notFinite => exact (Except.error.inj h).symm

theorem PropertyVector.get_onlyThrows (v : PropertyVector) (i : ℕ) : OnlyThrows (v.get i) := by
  unfold get
  cases v.axises[i]? with
  | none => exact reportedOr_throwException
  | some x => exact trivial

section Loops

variable {dims : SizeVector} {channels n : ℕ} {R : ℕ → ℕ → Prop}

theorem finishShape_reported_iff {od : List Single} (hneg : ∀ x ∈ od, x.isNegative = false) :
    ReportedOr (fun out => ∀ i < od.length, R i (spatialDim out i)) (finishShape dims channels od) ↔
      ∀ i x, od[i]? = some x → ∃ m, toSize x = .ok m ∧ R i m := by
  have hany : od.any Single.isNegative = false := by
    rw [List.any_eq_false]
    intro x hx
    rw [hneg x hx]
    decide
  by_cases hall : ∀ x ∈ od.reverse, ∃ m, toSize x = .ok m
  · obtain ⟨sizes, hsizes⟩ := exists_mapM_ok hall
    have hout : finishShape dims channels od = .ok (dims.getD 0 0 :: channels :: sizes) := by
      unfold finishShape
      rw [hany, hsizes]
      rfl
    rw [hout, reportedOr_ok]
    constructor
    · intro hR i x hx
      exact ⟨_, finishShape_ok hout hx, hR i (List.getElem?_eq_some_iff.mp hx).1⟩
    · intro hR i hi
      obtain ⟨m, hm, hRm⟩ := hR i od[i] (List.getElem?_eq_getElem hi)
      have hsize := finishShape_ok hout (List.getElem?_eq_getElem hi)
      rw [hm] at hsize
      rwa [← Except.ok.inj hsize]
  · constructor
    · intro hreported
      exfalso
      unfold finishShape at hreported
      rw [hany] at hreported
      cases hsizes : od.reverse.mapM toSize with
      | ok sizes =>
        apply hall
        intro x hx
        obtain ⟨i, hi⟩ := List.mem_iff_getElem?.mp hx
        have hlt := (List.getElem?_eq_some_iff.mp hi).1
        have hpairs := mapM_ok_iff.mp hsizes
        have hget := (List.forall₂_iff_get.mp hpairs).2 i hlt (by rwa [← hpairs.length_eq])
        rw [List.get_eq_getElem, (List.getElem?_eq_some_iff.mp hi).2] at hget
        exact ⟨_, hget⟩
      | error e =>
        rw [hsizes] at hreported
        obtain ⟨x, -, hx⟩ := exists_of_mapM_error hsizes
        rw [toSize_error hx] at hreported
        exact hreported
    · intro hR
      exfalso
      apply hall
      intro x hx
      obtain ⟨i, hi⟩ := List.mem_iff_getElem?.mp (List.mem_reverse.mp hx)
      obtain ⟨m, hm, -⟩ := hR i x hi
      exact ⟨m, hm⟩

/-- A loop over the axes that needs `P` of each. -/
theorem loop_reported_iff {f : ℕ → Result Single} {size : ℕ → Single} {P : ℕ → Prop} (honly : ∀ i, OnlyThrows (f i))
    (hf : ∀ i < n, ∀ x, f i = .ok x ↔ P i ∧ size i = x) (hneg : ∀ i, (size i).isNegative = false) :
    ReportedOr (fun out => ∀ i < n, R i (spatialDim out i))
        ((List.range n).mapM f >>= finishShape dims channels) ↔
      ((∀ i < n, P i) → ∀ i < n, ∃ m, toSize (size i) = .ok m ∧ R i m) := by
  rw [(OnlyThrows.mapM honly).reportedOr_bind_iff]
  have hread : ∀ od, (List.range n).mapM f = .ok od → od.length = n ∧ (∀ i < n, P i) ∧
      ∀ i < n, od[i]? = some (size i) := by
    intro od hod
    obtain ⟨hlength, hget⟩ := mapM_range_ok hod
    refine ⟨hlength, fun i hi => ?_, fun i hi => ?_⟩
    · obtain ⟨x, -, hx⟩ := hget i hi
      exact ((hf i hi x).mp hx).1
    · obtain ⟨x, hx, hfx⟩ := hget i hi
      rw [hx, ((hf i hi x).mp hfx).2]
  have hfinish : ∀ od, (List.range n).mapM f = .ok od →
      (ReportedOr (fun out => ∀ i < n, R i (spatialDim out i)) (finishShape dims channels od) ↔
        ∀ i < n, ∃ m, toSize (size i) = .ok m ∧ R i m) := by
    intro od hod
    obtain ⟨rfl, -, hget⟩ := hread od hod
    rw [finishShape_reported_iff]
    · constructor
      · intro hR i hi
        exact hR i (size i) (hget i hi)
      · intro hR i x hx
        have hi := (List.getElem?_eq_some_iff.mp hx).1
        rw [hget i hi] at hx
        rw [← Option.some.inj hx]
        exact hR i hi
    · intro x hx
      obtain ⟨i, hi⟩ := List.mem_iff_getElem?.mp hx
      rw [hget i (List.getElem?_eq_some_iff.mp hi).1] at hi
      rw [← Option.some.inj hi]
      exact hneg i
  constructor
  · intro hreported hP
    obtain ⟨od, hod⟩ := exists_mapM_ok (f := f) (l := List.range n) fun i hi =>
      ⟨size i, (hf i (List.mem_range.mp hi) _).mpr ⟨hP i (List.mem_range.mp hi), rfl⟩⟩
    exact (hfinish od hod).mp (hreported od hod)
  · intro hsizes od hod
    exact (hfinish od hod).mpr (hsizes (hread od hod).2.1)

end Loops

theorem kDim_onlyThrows (layer : ConvolutionLayer) (i : ℕ) : OnlyThrows (kDim layer i) :=
  (layer.dilation.get_onlyThrows i).bind fun _ => (layer.kernel.get_onlyThrows i).bind fun _ => trivial

theorem kDim_ok_iff {layer : ConvolutionLayer} {i : ℕ} {kernel : UInt32} :
    kDim layer i = .ok kernel ↔ (i < layer.dilation.size ∧ i < layer.kernel.size) ∧
      dilatedKernel (layer.kernel.value i) (layer.dilation.value i) = kernel := by
  unfold kDim
  simp only [bind_ok_iff, pure_ok_iff, PropertyVector.get_ok_iff]
  constructor
  · rintro ⟨d, ⟨hd, rfl⟩, k, ⟨hk, rfl⟩, rfl⟩
    exact ⟨⟨hd, hk⟩, rfl⟩
  · rintro ⟨⟨hd, hk⟩, rfl⟩
    exact ⟨_, ⟨hd, rfl⟩, _, ⟨hk, rfl⟩, rfl⟩

/-- The loop of convolution and deconvolution that computes the kernels first. -/
theorem kDims_reported_iff {layer : ConvolutionLayer} {dims : SizeVector} {channels n : ℕ} {R : ℕ → ℕ → Prop}
    {f : List UInt32 → ℕ → Result Single} (size : UInt32 → ℕ → Single) {P : ℕ → Prop}
    (honly : ∀ kDims i, OnlyThrows (f kDims i))
    (hf : ∀ kDims i x, f kDims i = .ok x ↔ P i ∧ size (kDims.getD i 0) i = x)
    (hneg : ∀ kernel i, (size kernel i).isNegative = false) :
    ReportedOr (fun out => ∀ i < n, R i (spatialDim out i))
        ((List.range n).mapM (kDim layer) >>= fun kDims => (List.range n).mapM (f kDims) >>= finishShape dims channels) ↔
      ((∀ i < n, (i < layer.dilation.size ∧ i < layer.kernel.size) ∧ P i) → ∀ i < n, ∃ m,
        toSize (size (dilatedKernel (layer.kernel.value i) (layer.dilation.value i)) i) = .ok m ∧ R i m) := by
  rw [(OnlyThrows.mapM (kDim_onlyThrows layer)).reportedOr_bind_iff]
  have hkernels : ∀ kDims, (List.range n).mapM (kDim layer) = .ok kDims →
      ∀ i < n, (i < layer.dilation.size ∧ i < layer.kernel.size) ∧
        kDims.getD i 0 = dilatedKernel (layer.kernel.value i) (layer.dilation.value i) := by
    intro kDims hkDims i hi
    obtain ⟨kernel, hkernel, hread⟩ := (mapM_range_ok hkDims).2 i hi
    obtain ⟨hsizes, rfl⟩ := kDim_ok_iff.mp hread
    exact ⟨hsizes, by rw [List.getD_eq_getElem?_getD, hkernel, Option.getD_some]⟩
  have hloop : ∀ kDims, (List.range n).mapM (kDim layer) = .ok kDims →
      (ReportedOr (fun out => ∀ i < n, R i (spatialDim out i))
          ((List.range n).mapM (f kDims) >>= finishShape dims channels) ↔
        ((∀ i < n, P i) → ∀ i < n, ∃ m,
          toSize (size (dilatedKernel (layer.kernel.value i) (layer.dilation.value i)) i) = .ok m ∧ R i m)) := by
    intro kDims hkDims
    apply loop_reported_iff (honly kDims)
    · intro i hi x
      rw [hf, (hkernels kDims hkDims i hi).2]
    · intro i
      exact hneg _ i
  constructor
  · intro hreported hP
    obtain ⟨kDims, hkDims⟩ := exists_mapM_ok (f := kDim layer) (l := List.range n) fun i hi =>
      ⟨_, kDim_ok_iff.mpr ⟨(hP i (List.mem_range.mp hi)).1, rfl⟩⟩
    exact (hloop kDims hkDims).mp (hreported kDims hkDims) fun i hi => (hP i hi).2
  · intro hsizes kDims hkDims
    rw [hloop kDims hkDims]
    intro hP
    exact hsizes fun i hi => ⟨(hkernels kDims hkDims i hi).1, hP i hi⟩

/-! ### Convolution -/

/-- Neither mode of the same padding. -/
def NotSame (autoPad : String) : Prop := autoPad ≠ "same_upper" ∧ autoPad ≠ "same_lower"

/-- The input with its padding; the mode `valid` pads nothing. -/
def paddedInput (autoPad : String) (padding padsEnd : PropertyVector) (dims : SizeVector) (i : ℕ) : ℕ :=
  if autoPad = "valid" then spatialDim dims i
  else spatialDim dims i + (padding.value i).toNat + (padsEnd.value i).toNat

/-- The properties that the mode of padding needs have a value for the axis. -/
def HasPads (autoPad : String) (padding padsEnd : PropertyVector) (i : ℕ) : Prop :=
  autoPad ≠ "valid" → i < padding.size ∧ i < padsEnd.size

namespace ConvolutionLayer

variable (layer : ConvolutionLayer) (dims : SizeVector) (i : ℕ)

/-- Every property that is read has a value for each spatial axis. -/
def Covers : Prop :=
  ∀ i < dims.length - 2, (i < layer.dilation.size ∧ i < layer.kernel.size) ∧ i < layer.stride.size ∧
    HasPads layer.autoPad layer.padding layer.padsEnd i

def effectiveKernel : ℤ := InferenceEngine.effectiveKernel (layer.kernel.value i) (layer.dilation.value i)

def dilatedKernel : UInt32 := InferenceEngine.dilatedKernel (layer.kernel.value i) (layer.dilation.value i)

def paddedInput : ℕ := InferenceEngine.paddedInput layer.autoPad layer.padding layer.padsEnd dims i

end ConvolutionLayer

namespace ConvShapeProp

variable {layer : ConvolutionLayer} {dims : SizeVector} {i : ℕ}

def axisSize (layer : ConvolutionLayer) (dims : SizeVector) (kernel : UInt32) (i : ℕ) : Single :=
  if layer.autoPad = "valid" then validSize (spatialDim dims i) kernel (layer.stride.value i)
  else explicitSize (spatialDim dims i) kernel (layer.stride.value i) (layer.padding.value i) (layer.padsEnd.value i)

theorem odTemp_ok_iff (hmode : NotSame layer.autoPad) {kDims : List UInt32} {x : Single} :
    odTemp layer dims kDims i = .ok x ↔
      (i < layer.stride.size ∧ HasPads layer.autoPad layer.padding layer.padsEnd i) ∧
        axisSize layer dims (kDims.getD i 0) i = x := by
  unfold odTemp axisSize
  dsimp only
  by_cases hvalid : layer.autoPad = "valid"
  · have hpads : HasPads layer.autoPad layer.padding layer.padsEnd i := fun hno => absurd hvalid hno
    rw [if_pos hvalid, if_pos hvalid, PropertyVector.get_bind_ok_iff, pure_ok_iff, and_iff_left hpads]
  · have hpads : HasPads layer.autoPad layer.padding layer.padsEnd i ↔ i < layer.padding.size ∧ i < layer.padsEnd.size :=
      imp_iff_right hvalid
    rw [if_neg hvalid, if_neg hvalid, if_neg hmode.1, if_neg hmode.2, hpads]
    simp only [PropertyVector.get_bind_ok_iff, pure_ok_iff]
    tauto

theorem odTemp_onlyThrows (kDims : List UInt32) : OnlyThrows (odTemp layer dims kDims i) := by
  unfold odTemp
  dsimp only
  split_ifs
  · exact (layer.stride.get_onlyThrows i).bind fun _ => trivial
  · exact (layer.stride.get_onlyThrows i).bind fun _ => trivial
  · exact (layer.stride.get_onlyThrows i).bind fun _ => trivial
  · exact (layer.padding.get_onlyThrows i).bind fun _ => (layer.padsEnd.get_onlyThrows i).bind fun _ =>
      (layer.stride.get_onlyThrows i).bind fun _ => trivial

theorem outShape_reported_iff (hmode : NotSame layer.autoPad) {R : ℕ → ℕ → Prop} :
    ReportedOr (fun out => ∀ i < dims.length - 2, R i (spatialDim out i)) (outShape layer dims) ↔
      (layer.Covers dims → ∀ i < dims.length - 2, ∃ m,
        toSize (axisSize layer dims (layer.dilatedKernel i) i) = .ok m ∧ R i m) := by
  apply kDims_reported_iff (axisSize layer dims)
  · exact fun kDims i => odTemp_onlyThrows kDims
  · exact fun kDims i x => odTemp_ok_iff hmode
  · intro kernel i
    unfold axisSize
    split_ifs
    · exact validSize_not_negative
    · exact explicitSize_not_negative

end ConvShapeProp

/-! ### Pooling -/

namespace PoolingLayer

variable (layer : PoolingLayer) (dims : SizeVector) (i : ℕ)

def Covers : Prop :=
  ∀ i < dims.length - 2, i < layer.kernel.size ∧ i < layer.stride.size ∧
    HasPads layer.autoPad layer.padding layer.padsEnd i

def paddedInput : ℕ := InferenceEngine.paddedInput layer.autoPad layer.padding layer.padsEnd dims i

end PoolingLayer

namespace PoolingShapeProp

variable {layer : PoolingLayer} {dims : SizeVector} {i : ℕ}

def axisSize (layer : PoolingLayer) (dims : SizeVector) (i : ℕ) : Single :=
  if layer.autoPad = "valid" then validSize (spatialDim dims i) (layer.kernel.value i) (layer.stride.value i)
  else explicitSize (spatialDim dims i) (layer.kernel.value i) (layer.stride.value i) (layer.padding.value i)
    (layer.padsEnd.value i) (isCeil layer.params)

theorem odTemp_ok_iff (hmode : NotSame layer.autoPad) {x : Single} :
    odTemp layer dims i = .ok x ↔
      (i < layer.kernel.size ∧ i < layer.stride.size ∧ HasPads layer.autoPad layer.padding layer.padsEnd i) ∧
        axisSize layer dims i = x := by
  unfold odTemp axisSize
  dsimp only
  by_cases hvalid : layer.autoPad = "valid"
  · have hpads : HasPads layer.autoPad layer.padding layer.padsEnd i := fun hno => absurd hvalid hno
    rw [if_pos hvalid, if_pos hvalid, and_iff_left hpads]
    simp only [PropertyVector.get_bind_ok_iff, pure_ok_iff]
    tauto
  · have hpads : HasPads layer.autoPad layer.padding layer.padsEnd i ↔ i < layer.padding.size ∧ i < layer.padsEnd.size :=
      imp_iff_right hvalid
    rw [if_neg hvalid, if_neg hvalid, if_neg hmode.1, if_neg hmode.2, hpads]
    simp only [PropertyVector.get_bind_ok_iff, pure_ok_iff]
    tauto

theorem odTemp_onlyThrows (layer : PoolingLayer) (dims : SizeVector) (i : ℕ) : OnlyThrows (odTemp layer dims i) := by
  unfold odTemp
  dsimp only
  split_ifs
  · exact (layer.kernel.get_onlyThrows i).bind fun _ => (layer.stride.get_onlyThrows i).bind fun _ => trivial
  · exact (layer.stride.get_onlyThrows i).bind fun _ => trivial
  · exact (layer.stride.get_onlyThrows i).bind fun _ => trivial
  · exact (layer.padding.get_onlyThrows i).bind fun _ => (layer.padsEnd.get_onlyThrows i).bind fun _ =>
      (layer.kernel.get_onlyThrows i).bind fun _ => (layer.stride.get_onlyThrows i).bind fun _ => trivial

theorem outShape_reported_iff (hmode : NotSame layer.autoPad) {R : ℕ → ℕ → Prop} :
    ReportedOr (fun out => ∀ i < dims.length - 2, R i (spatialDim out i)) (outShape layer dims) ↔
      (layer.Covers dims → ∀ i < dims.length - 2, ∃ m, toSize (axisSize layer dims i) = .ok m ∧ R i m) := by
  unfold outShape
  by_cases hrank : dims.length < 2
  · rw [if_pos hrank]
    constructor
    · intro _ _ i hi
      omega
    · intro _
      exact trivial
  · rw [if_neg hrank]
    apply loop_reported_iff (odTemp_onlyThrows layer dims)
    · exact fun i _ x => odTemp_ok_iff hmode
    · intro i
      unfold axisSize
      split_ifs
      · exact validSize_not_negative
      · exact explicitSize_not_negative

end PoolingShapeProp

/-! ### Deconvolution -/

namespace DeconvShapeProp

variable {layer : ConvolutionLayer} {dims : SizeVector} {i : ℕ}

def axisSize (layer : ConvolutionLayer) (dims : SizeVector) (kernel : UInt32) (i : ℕ) : Single :=
  if layer.autoPad = "valid" then validSize (spatialDim dims i) kernel (layer.stride.value i)
  else explicitSize (spatialDim dims i) kernel (layer.stride.value i) (layer.padding.value i) (layer.padsEnd.value i)

theorem odTemp_ok_iff (hmode : NotSame layer.autoPad) {kDims : List UInt32} {x : Single} :
    odTemp layer dims kDims i = .ok x ↔
      (i < layer.stride.size ∧ HasPads layer.autoPad layer.padding layer.padsEnd i) ∧
        axisSize layer dims (kDims.getD i 0) i = x := by
  unfold odTemp axisSize
  dsimp only
  by_cases hvalid : layer.autoPad = "valid"
  · have hpads : HasPads layer.autoPad layer.padding layer.padsEnd i := fun hno => absurd hvalid hno
    rw [if_pos hvalid, if_pos hvalid, PropertyVector.get_bind_ok_iff, pure_ok_iff, and_iff_left hpads]
  · have hpads : HasPads layer.autoPad layer.padding layer.padsEnd i ↔ i < layer.padding.size ∧ i < layer.padsEnd.size :=
      imp_iff_right hvalid
    rw [if_neg hvalid, if_neg hvalid, if_neg (not_or.mpr hmode), hpads]
    simp only [PropertyVector.get_bind_ok_iff, pure_ok_iff]
    tauto

theorem odTemp_same_iff (hmode : layer.autoPad = "same_upper" ∨ layer.autoPad = "same_lower") {kDims : List UInt32}
    {x : Single} : odTemp layer dims kDims i = .ok x ↔
      i < layer.stride.size ∧ sameSize (spatialDim dims i) (layer.stride.value i) = x := by
  have hvalid : layer.autoPad ≠ "valid" := by
    rcases hmode with h | h <;> rw [h] <;> decide
  unfold odTemp
  dsimp only
  rw [if_neg hvalid, if_pos hmode, PropertyVector.get_bind_ok_iff, pure_ok_iff]

theorem odTemp_onlyThrows (kDims : List UInt32) : OnlyThrows (odTemp layer dims kDims i) := by
  unfold odTemp
  dsimp only
  split_ifs
  · exact (layer.stride.get_onlyThrows i).bind fun _ => trivial
  · exact (layer.stride.get_onlyThrows i).bind fun _ => trivial
  · exact (layer.stride.get_onlyThrows i).bind fun _ => (layer.padding.get_onlyThrows i).bind fun _ =>
      (layer.padsEnd.get_onlyThrows i).bind fun _ => trivial

theorem outShape_reported_iff (hmode : NotSame layer.autoPad) {R : ℕ → ℕ → Prop} :
    ReportedOr (fun out => ∀ i < dims.length - 2, R i (spatialDim out i)) (outShape layer dims) ↔
      (layer.Covers dims → ∀ i < dims.length - 2, ∃ m,
        toSize (axisSize layer dims (layer.dilatedKernel i) i) = .ok m ∧ R i m) := by
  apply kDims_reported_iff (axisSize layer dims)
  · exact fun kDims i => odTemp_onlyThrows kDims
  · exact fun kDims i x => odTemp_ok_iff hmode
  · intro kernel i
    unfold axisSize
    split_ifs
    · exact ofNat_not_negative _
    · exact ofNat_not_negative _

theorem outShape_same_iff (hmode : layer.autoPad = "same_upper" ∨ layer.autoPad = "same_lower") {R : ℕ → ℕ → Prop} :
    ReportedOr (fun out => ∀ i < dims.length - 2, R i (spatialDim out i)) (outShape layer dims) ↔
      ((∀ i < dims.length - 2, (i < layer.dilation.size ∧ i < layer.kernel.size) ∧ i < layer.stride.size) →
        ∀ i < dims.length - 2, ∃ m, toSize (sameSize (spatialDim dims i) (layer.stride.value i)) = .ok m ∧ R i m) := by
  apply kDims_reported_iff (fun _ i => sameSize (spatialDim dims i) (layer.stride.value i))
  · exact fun kDims i => odTemp_onlyThrows kDims
  · exact fun kDims i x => odTemp_same_iff hmode
  · exact fun kernel i => ofNat_not_negative _

end DeconvShapeProp

/-! ### The sizes that are returned -/

section Results

variable {params : LayerParams} {dims : SizeVector} {weights biases : Option SizeVector}

/-- Along every axis the window and the number of windows are within the padded input. -/
def ConvShapeProp.Fits (layer : ConvolutionLayer) (dims out : SizeVector) : Prop :=
  ∀ i < dims.length - 2, layer.effectiveKernel i ≤ layer.paddedInput dims i ∧
    spatialDim out i ≤ layer.paddedInput dims i

def PoolingShapeProp.Fits (layer : PoolingLayer) (dims out : SizeVector) : Prop :=
  ∀ i < dims.length - 2, (layer.kernel.value i).toNat ≤ layer.paddedInput dims i ∧
    spatialDim out i ≤ layer.paddedInput dims i

/-- The positions that the last window of a deconvolution starts behind. -/
def ConvolutionLayer.reach (layer : ConvolutionLayer) (dims : SizeVector) (i : ℕ) : ℤ :=
  (layer.stride.value i).toNat * (spatialDim dims i - 1)

def DeconvShapeProp.Exact (layer : ConvolutionLayer) (dims : SizeVector) (pads : ℕ → ℤ) (out : SizeVector) : Prop :=
  ∀ i < dims.length - 2, (spatialDim out i : ℤ) = layer.reach dims i + layer.effectiveKernel i - pads i

/-- The padding of the modes other than the same padding. -/
def ConvolutionLayer.explicitPads (layer : ConvolutionLayer) (i : ℕ) : ℤ :=
  if layer.autoPad = "valid" then 0 else (layer.padding.value i).toNat + (layer.padsEnd.value i).toNat

theorem ConvShapeProp.axis_fits_iff {layer : ConvolutionLayer} {i : ℕ} (hn : layer.paddedInput dims i < 2 ^ 24) :
    (∃ m, toSize (axisSize layer dims (layer.dilatedKernel i) i) = .ok m ∧
        layer.effectiveKernel i ≤ layer.paddedInput dims i ∧ m ≤ layer.paddedInput dims i) ↔
      layer.effectiveKernel i ≤ layer.paddedInput dims i ∧
        FitsWindow (layer.dilatedKernel i).toNat (layer.stride.value i).toNat (layer.paddedInput dims i) := by
  have hsize : (∃ m, toSize (axisSize layer dims (layer.dilatedKernel i) i) = .ok m ∧ m ≤ layer.paddedInput dims i) ↔
      FitsWindow (layer.dilatedKernel i).toNat (layer.stride.value i).toNat (layer.paddedInput dims i) := by
    unfold axisSize
    by_cases hvalid : layer.autoPad = "valid"
    · have hinput : layer.paddedInput dims i = spatialDim dims i := if_pos hvalid
      rw [if_pos hvalid, hinput]
      exact validSize_fits_iff _ _ (hinput ▸ hn)
    · rw [if_neg hvalid]
      exact explicitSize_fits_iff (if_neg hvalid) hn
  rw [← hsize]
  constructor
  · rintro ⟨m, hm, hk, hle⟩
    exact ⟨hk, m, hm, hle⟩
  · rintro ⟨hk, m, hm, hle⟩
    exact ⟨m, hm, hk, hle⟩

theorem PoolingShapeProp.axis_fits_iff {layer : PoolingLayer} {i : ℕ} (hn : layer.paddedInput dims i < 2 ^ 24) :
    (∃ m, toSize (axisSize layer dims i) = .ok m ∧
        (layer.kernel.value i).toNat ≤ layer.paddedInput dims i ∧ m ≤ layer.paddedInput dims i) ↔
      (layer.kernel.value i).toNat ≤ layer.paddedInput dims i ∧ (layer.stride.value i).toNat ≠ 0 ∧
        (layer.autoPad = "valid" →
          FitsWindow (layer.kernel.value i).toNat (layer.stride.value i).toNat (layer.paddedInput dims i)) := by
  unfold axisSize
  by_cases hvalid : layer.autoPad = "valid"
  · have hinput : layer.paddedInput dims i = spatialDim dims i := if_pos hvalid
    have hsize := validSize_fits_iff (layer.kernel.value i) (layer.stride.value i) (hinput ▸ hn)
    rw [if_pos hvalid, hinput, imp_iff_right hvalid, ← hsize]
    constructor
    · rintro ⟨m, hm, hk, hle⟩
      exact ⟨hk, (hsize.mp ⟨m, hm, hle⟩).1, m, hm, hle⟩
    · rintro ⟨hk, -, m, hm, hle⟩
      exact ⟨m, hm, hk, hle⟩
  · have hinput : layer.paddedInput dims i
        = spatialDim dims i + (layer.padding.value i).toNat + (layer.padsEnd.value i).toNat := if_neg hvalid
    rw [if_neg hvalid, explicitSize_fits_iff hinput hn]
    tauto

theorem DeconvShapeProp.axis_exact_iff {layer : ConvolutionLayer} {i : ℕ}
    (hrange : layer.reach dims i + layer.effectiveKernel i < 2 ^ 24) :
    (∃ m : ℕ, toSize (axisSize layer dims (layer.dilatedKernel i) i) = .ok m ∧
        (m : ℤ) = layer.reach dims i + layer.effectiveKernel i - layer.explicitPads i) ↔
      layer.effectiveKernel i = (layer.dilatedKernel i).toNat ∧
        layer.explicitPads i ≤ layer.reach dims i + layer.effectiveKernel i := by
  have hnonneg : 0 ≤ layer.explicitPads i := by
    unfold ConvolutionLayer.explicitPads
    split_ifs <;> positivity
  have hsize : axisSize layer dims (layer.dilatedKernel i) i
      = .ofNat (toSizeT (layer.reach dims i + (layer.dilatedKernel i).toNat - layer.explicitPads i)) := by
    unfold axisSize ConvolutionLayer.explicitPads ConvolutionLayer.reach
    split_ifs
    · unfold validSize
      rw [sub_zero, mul_comm]
    · unfold explicitSize
      rw [sub_sub]
  rw [hsize]
  exact deconv_exact_iff hnonneg hrange

theorem ConvShapeProp.fits_iff {layer : ConvolutionLayer} (hmode : NotSame layer.autoPad)
    (hvalid : ConvolutionValidator.validate params [dims] weights biases = .ok layer) :
    (ReportedOr (Fits layer dims) (inferShapesImpl params [dims] weights biases) → layer.Covers dims →
      ∀ i < dims.length - 2, layer.effectiveKernel i ≤ layer.paddedInput dims i) ∧
    ((∀ i < dims.length - 2, layer.paddedInput dims i < 2 ^ 24) →
      (ReportedOr (Fits layer dims) (inferShapesImpl params [dims] weights biases) ↔
        (layer.Covers dims → ∀ i < dims.length - 2, layer.effectiveKernel i ≤ layer.paddedInput dims i ∧
          FitsWindow (layer.dilatedKernel i).toNat (layer.stride.value i).toNat (layer.paddedInput dims i)))) := by
  have hinfer : inferShapesImpl params [dims] weights biases = outShape layer dims := by
    unfold inferShapesImpl
    rw [hvalid]
    rfl
  unfold Fits
  rw [hinfer, outShape_reported_iff hmode (R := fun i m => layer.effectiveKernel i ≤ layer.paddedInput dims i ∧
    m ≤ layer.paddedInput dims i)]
  constructor
  · intro hfits hcovers i hi
    obtain ⟨m, -, hk, -⟩ := hfits hcovers i hi
    exact hk
  · intro hrange
    exact imp_congr_right fun _ => forall₂_congr fun i hi => axis_fits_iff (hrange i hi)

theorem PoolingShapeProp.fits_iff {layer : PoolingLayer} {rest : List SizeVector} (hmode : NotSame layer.autoPad)
    (hvalid : PoolingValidator.validate params (dims :: rest) = .ok layer) :
    (ReportedOr (Fits layer dims) (inferShapesImpl params (dims :: rest)) → layer.Covers dims →
      ∀ i < dims.length - 2, (layer.kernel.value i).toNat ≤ layer.paddedInput dims i) ∧
    ((∀ i < dims.length - 2, layer.paddedInput dims i < 2 ^ 24) →
      (ReportedOr (Fits layer dims) (inferShapesImpl params (dims :: rest)) ↔
        (layer.Covers dims → ∀ i < dims.length - 2, (layer.kernel.value i).toNat ≤ layer.paddedInput dims i ∧
          (layer.stride.value i).toNat ≠ 0 ∧ (layer.autoPad = "valid" →
            FitsWindow (layer.kernel.value i).toNat (layer.stride.value i).toNat (layer.paddedInput dims i))))) := by
  have hinfer : inferShapesImpl params (dims :: rest) = outShape layer dims := by
    unfold inferShapesImpl
    rw [hvalid]
    rfl
  unfold Fits
  rw [hinfer, outShape_reported_iff hmode (R := fun i m => (layer.kernel.value i).toNat ≤ layer.paddedInput dims i ∧
    m ≤ layer.paddedInput dims i)]
  constructor
  · intro hfits hcovers i hi
    obtain ⟨m, -, hk, -⟩ := hfits hcovers i hi
    exact hk
  · intro hrange
    exact imp_congr_right fun _ => forall₂_congr fun i hi => axis_fits_iff (hrange i hi)

theorem DeconvShapeProp.exact_iff {layer : ConvolutionLayer} (hmode : NotSame layer.autoPad)
    (hvalid : ConvolutionValidator.validate params [dims] weights biases = .ok layer)
    (hrange : ∀ i < dims.length - 2, layer.reach dims i + layer.effectiveKernel i < 2 ^ 24) :
    ReportedOr (Exact layer dims layer.explicitPads) (inferShapesImpl params [dims] weights biases) ↔
      (layer.Covers dims → ∀ i < dims.length - 2, layer.effectiveKernel i = (layer.dilatedKernel i).toNat ∧
        layer.explicitPads i ≤ layer.reach dims i + layer.effectiveKernel i) := by
  have hinfer : inferShapesImpl params [dims] weights biases = outShape layer dims := by
    unfold inferShapesImpl
    rw [hvalid]
    rfl
  unfold Exact
  rw [hinfer, outShape_reported_iff hmode (R := fun i m =>
    (m : ℤ) = layer.reach dims i + layer.effectiveKernel i - layer.explicitPads i)]
  exact imp_congr_right fun _ => forall₂_congr fun i hi => axis_exact_iff (hrange i hi)

/-! ### The same padding of a deconvolution -/

theorem axisPadding_deconv_ok {layer : PaddedLayer} {mode : String} {shapes : List Int} {i : ℕ} {p : UInt32 × UInt32}
    (htype : layer.type = "Deconvolution") (hi : i < layer.stride.size)
    (h : axisPadding layer mode shapes i = .ok p) :
    ∃ kernel sh m, layer.getKernel i = .ok kernel ∧ shapes[i]? = some sh ∧
      missing (toInt kernel.toNat) (toInt (layer.stride.value i).toNat) (sh * toInt (layer.stride.value i).toNat) = .ok m ∧
        splitPadding mode m = p := by
  unfold axisPadding at h
  simp only [if_pos hi, if_pos htype, bind_ok_iff, pure_ok_iff, intArith_ok_iff] at h
  obtain ⟨kernel, hkernel, stride, hread, sh, hsh, sh', ⟨-, rfl⟩, m, hm, hp⟩ := h
  obtain ⟨-, rfl⟩ := PropertyVector.get_ok_iff.mp hread
  obtain ⟨-, hget⟩ := elemAt_ok_iff.mp hsh
  rw [Int.toNat_natCast] at hget
  exact ⟨kernel, sh, m, hkernel, hget, hm, hp⟩

theorem DeconvShapeProp.sameSize_ok_iff {input m : ℕ} {stride : UInt32} (h : input * stride.toNat < 2 ^ 24) :
    toSize (sameSize input stride) = .ok m ↔ m = input * stride.toNat := by
  have hvalue : toSizeT (input * stride.toNat) = input * stride.toNat := by
    exact_mod_cast toSizeT_natCast (n := input * stride.toNat) (by omega)
  unfold sameSize
  rw [hvalue, toSize_ofNat_iff h]

/-- The padding of an axis makes the exact size that of the mode, when the kernel is not smaller than the stride. -/
theorem DeconvShapeProp.same_axis {mode : String} {padBegin padEnd : UInt32}
    (hmode : mode = "same_upper" ∨ mode = "same_lower") {m sh kernel : ℤ} {stride : ℕ}
    (hm : missing kernel stride (sh * stride) = .ok m) (hsplit : splitPadding mode m = (padBegin, padEnd))
    (hkernel : kernel < 2 ^ 24) (hle : stride ≤ kernel) :
    ((padBegin.toNat + padEnd.toNat : ℕ) : ℤ) = kernel - stride := by
  have hvalue := missing_ok hm
  rw [Int.mul_tmod_left, if_pos rfl, max_eq_left (by omega)] at hvalue
  obtain ⟨k, hk⟩ := Int.eq_ofNat_of_zero_le (show 0 ≤ m by omega)
  rw [hk] at hsplit
  have hsum := splitPadding_sum hmode (m := k) (by omega)
  rw [hsplit] at hsum
  dsimp only at hsum
  omega

theorem DeconvShapeProp.same_exact_iff {layer : ConvolutionLayer} {pads : Paddings}
    (hmode : layer.autoPad = "same_upper" ∨ layer.autoPad = "same_lower")
    (hvalid : ConvolutionValidator.validate params [dims] weights biases = .ok layer)
    (hpads : layer.getPaddings "Deconvolution" params [some dims] = .ok pads)
    (hrange : ∀ i < dims.length - 2, spatialDim dims i * (layer.stride.value i).toNat < 2 ^ 24 ∧
      layer.effectiveKernel i < 2 ^ 24) :
    ReportedOr (Exact layer dims fun i => ((pads.begin.value i).toNat + (pads.end_.value i).toNat : ℕ))
        (inferShapesImpl params [dims] weights biases) ↔
      ((∀ i < dims.length - 2, (i < layer.dilation.size ∧ i < layer.kernel.size) ∧ i < layer.stride.size) →
        ∀ i < dims.length - 2, (layer.stride.value i).toNat ≤ layer.effectiveKernel i) := by
  have hinfer : inferShapesImpl params [dims] weights biases = outShape layer dims := by
    unfold inferShapesImpl
    rw [hvalid]
    rfl
  have hauto : params.strings.lookup "auto_pad" = some layer.autoPad := by
    apply LayerParams.lookup_of_getParamAsString
    · exact (ConvolutionValidator.parseParams_autoPad (ConvolutionValidator.validate_ok hvalid)).symm
    · rcases hmode with h | h <;> rw [h] <;> decide
  unfold Exact
  rw [hinfer, outShape_same_iff hmode (R := fun i m => (m : ℤ) = layer.reach dims i + layer.effectiveKernel i -
    ((pads.begin.value i).toNat + (pads.end_.value i).toNat : ℕ))]
  refine forall_congr' fun hcovers => forall₂_congr fun i hi => ?_
  obtain ⟨⟨hdilation, hkernel⟩, hstride⟩ := hcovers i hi
  obtain ⟨hsize, hbound⟩ := hrange i hi
  have hreach : layer.reach dims i = (spatialDim dims i * (layer.stride.value i).toNat : ℕ) - (layer.stride.value i).toNat := by
    unfold ConvolutionLayer.reach
    push_cast
    ring
  constructor
  · rintro ⟨m, hm, hvalue⟩
    rw [(sameSize_ok_iff hsize).mp hm] at hvalue
    omega
  · intro hle
    refine ⟨_, (sameSize_ok_iff hsize).mpr rfl, ?_⟩
    have haxis := getPaddingsInternal_axis hmode hauto rfl hpads hkernel
    obtain ⟨kernel, sh, m, hread, -, hm, hsplit⟩ := axisPadding_deconv_ok rfl hstride haxis
    dsimp only at hm
    have hdilated : ((layer.dilatedKernel i).toNat : ℤ) = layer.effectiveKernel i := by
      unfold ConvolutionLayer.dilatedKernel ConvolutionLayer.effectiveKernel
      rw [dilatedKernel_toNat]
      exact Int.emod_eq_of_lt (le_trans (by omega) hle) (hbound.trans (by norm_num))
    have hkernel' : kernel = layer.dilatedKernel i := getKernel_ok hread (kDim_ok_iff.mpr ⟨⟨hdilation, hkernel⟩, rfl⟩)
    rw [hkernel', toInt_of_lt (by omega), toInt_of_lt (by omega), hdilated] at hm
    have hsum := same_axis hmode hm hsplit hbound hle
    omega

end Results

/-- **A window that does not fit is never reported. Over sizes that `float` has exactly, the inferred sizes are right
just for the layers whose windows fit, and those of a deconvolution just where nothing wraps around.** -/
theorem window_sizes_iff {params : LayerParams} {dims : SizeVector} :
    (∀ {weights biases : Option SizeVector} {layer : ConvolutionLayer},
      NotSame layer.autoPad → ConvolutionValidator.validate params [dims] weights biases = .ok layer →
      (ReportedOr (ConvShapeProp.Fits layer dims) (ConvShapeProp.inferShapesImpl params [dims] weights biases) →
        layer.Covers dims → ∀ i < dims.length - 2, layer.effectiveKernel i ≤ layer.paddedInput dims i) ∧
      ((∀ i < dims.length - 2, layer.paddedInput dims i < 2 ^ 24) →
        (ReportedOr (ConvShapeProp.Fits layer dims) (ConvShapeProp.inferShapesImpl params [dims] weights biases) ↔
          (layer.Covers dims → ∀ i < dims.length - 2, layer.effectiveKernel i ≤ layer.paddedInput dims i ∧
            FitsWindow (layer.dilatedKernel i).toNat (layer.stride.value i).toNat (layer.paddedInput dims i))))) ∧
    (∀ {rest : List SizeVector} {layer : PoolingLayer},
      NotSame layer.autoPad → PoolingValidator.validate params (dims :: rest) = .ok layer →
      (ReportedOr (PoolingShapeProp.Fits layer dims) (PoolingShapeProp.inferShapesImpl params (dims :: rest)) →
        layer.Covers dims → ∀ i < dims.length - 2, (layer.kernel.value i).toNat ≤ layer.paddedInput dims i) ∧
      ((∀ i < dims.length - 2, layer.paddedInput dims i < 2 ^ 24) →
        (ReportedOr (PoolingShapeProp.Fits layer dims) (PoolingShapeProp.inferShapesImpl params (dims :: rest)) ↔
          (layer.Covers dims → ∀ i < dims.length - 2, (layer.kernel.value i).toNat ≤ layer.paddedInput dims i ∧
            (layer.stride.value i).toNat ≠ 0 ∧ (layer.autoPad = "valid" →
              FitsWindow (layer.kernel.value i).toNat (layer.stride.value i).toNat (layer.paddedInput dims i)))))) ∧
    (∀ {weights biases : Option SizeVector} {layer : ConvolutionLayer},
      NotSame layer.autoPad → ConvolutionValidator.validate params [dims] weights biases = .ok layer →
      (∀ i < dims.length - 2, layer.reach dims i + layer.effectiveKernel i < 2 ^ 24) →
      (ReportedOr (DeconvShapeProp.Exact layer dims layer.explicitPads)
          (DeconvShapeProp.inferShapesImpl params [dims] weights biases) ↔
        (layer.Covers dims → ∀ i < dims.length - 2, layer.effectiveKernel i = (layer.dilatedKernel i).toNat ∧
          layer.explicitPads i ≤ layer.reach dims i + layer.effectiveKernel i))) ∧
    (∀ {weights biases : Option SizeVector} {layer : ConvolutionLayer} {pads : Paddings}, layer.autoPad = "same_upper" ∨ layer.autoPad = "same_lower" →
      ConvolutionValidator.validate params [dims] weights biases = .ok layer →
      layer.getPaddings "Deconvolution" params [some dims] = .ok pads →
      (∀ i < dims.length - 2, spatialDim dims i * (layer.stride.value i).toNat < 2 ^ 24 ∧
        layer.effectiveKernel i < 2 ^ 24) →
      (ReportedOr (DeconvShapeProp.Exact layer dims fun i => ((pads.begin.value i).toNat + (pads.end_.value i).toNat : ℕ))
          (DeconvShapeProp.inferShapesImpl params [dims] weights biases) ↔
        ((∀ i < dims.length - 2, (i < layer.dilation.size ∧ i < layer.kernel.size) ∧ i < layer.stride.size) →
          ∀ i < dims.length - 2, (layer.stride.value i).toNat ≤ layer.effectiveKernel i))) :=
  ⟨ConvShapeProp.fits_iff, PoolingShapeProp.fits_iff, DeconvShapeProp.exact_iff, DeconvShapeProp.same_exact_iff⟩

def deconvPaddings : Paddings := ⟨.pair 0 0, .pair 1 1⟩

theorem window_sizes_sameDims :
    ReportedOr (ConvShapeProp.Fits (sameConvolution "") sameDims)
      (ConvShapeProp.inferShapesImpl (sameParams "") [sameDims] none none) ∧
    ReportedOr (PoolingShapeProp.Fits (samePooling "") sameDims)
      (PoolingShapeProp.inferShapesImpl (sameParams "") [sameDims]) ∧
    ReportedOr (DeconvShapeProp.Exact (sameConvolution "") sameDims (sameConvolution "").explicitPads)
      (DeconvShapeProp.inferShapesImpl (sameParams "") [sameDims] none none) ∧
    ReportedOr (DeconvShapeProp.Exact (sameConvolution "same_upper") sameDims fun i =>
        ((deconvPaddings.begin.value i).toNat + (deconvPaddings.end_.value i).toNat : ℕ))
      (DeconvShapeProp.inferShapesImpl (sameParams "same_upper") [sameDims] none none) := by
  have hnot : NotSame "" := ⟨by decide, by decide⟩
  have hvalid : ∀ mode ∈ ["", "same_upper"], ConvolutionValidator.validate (sameParams mode) [sameDims] none none
      = .ok (sameConvolution mode) := by decide +kernel
  have hpool : PoolingValidator.validate (sameParams "") [sameDims] = .ok (samePooling "") := rfl
  have hpads : (sameConvolution "same_upper").getPaddings "Deconvolution" (sameParams "same_upper") [some sameDims]
      = .ok deconvPaddings := by decide +kernel
  refine ⟨((window_sizes_iff.1 hnot (hvalid "" (by decide))).2 ?_).mpr fun _ => ?_,
    ((window_sizes_iff.2.1 hnot hpool).2 ?_).mpr fun _ => ?_,
    (window_sizes_iff.2.2.1 hnot (hvalid "" (by decide)) ?_).mpr fun _ => ?_,
    (window_sizes_iff.2.2.2 (Or.inl rfl) (hvalid "same_upper" (by decide)) hpads ?_).mpr fun _ => ?_⟩
  all_goals
    intro i hi
    have hi' : i < 2 := hi
    interval_cases i <;> decide +kernel

/-! ### A kernel of 5 over an input of 3 -/

def largeKernel : LayerParams where
  uints := [("output", [4]), ("kernel", [5, 5]), ("strides", [2, 2])]
  strings := []

def largeConvolution : ConvolutionLayer where
  kernel := .pair 5 5
  padding := .pair 0 0
  padsEnd := .pair 0 0
  stride := .pair 2 2
  dilation := .pair 1 1
  outDepth := 4
  group := 1
  autoPad := ""

/-- The kernel does not fit in the third dim, and the size that is returned is `2 ^ 63`. -/
theorem kernel_past_input :
    ConvolutionValidator.validate largeKernel [[1, 3, 3, 7]] none none = .ok largeConvolution ∧
    NotSame largeConvolution.autoPad ∧
    ConvShapeProp.inferShapesImpl largeKernel [[1, 3, 3, 7]] none none = .ok [1, 4, 2 ^ 63, 2] ∧
    ¬ReportedOr (ConvShapeProp.Fits largeConvolution [1, 3, 3, 7])
      (ConvShapeProp.inferShapesImpl largeKernel [[1, 3, 3, 7]] none none) := by
  have hshape : ConvShapeProp.inferShapesImpl largeKernel [[1, 3, 3, 7]] none none = .ok [1, 4, 2 ^ 63, 2] := by
    decide +kernel
  refine ⟨by decide +kernel, ⟨by decide, by decide⟩, hshape, ?_⟩
  rw [hshape, reportedOr_ok]
  intro hfits
  have hkernel := (hfits 1 (by decide)).1
  revert hkernel
  decide +kernel

end OpenVino.InferenceEngine
