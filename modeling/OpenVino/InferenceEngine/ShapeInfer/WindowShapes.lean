import OpenVino.Base.SingleFloat
import OpenVino.InferenceEngine.ShapeInfer.WindowLayers

/-!
# Shape inference of layers with a window

`inferShapesImpl` of `ConvShapeProp`, `PoolingShapeProp` and `DeconvShapeProp`. The sizes are computed in `size_t`
and the results kept in `float`, so each is written as a `Single`.
-/

namespace OpenVino.InferenceEngine

/-! ### Sizes along one axis -/

section Axis

variable (input : ℕ) (kernel stride padBegin padEnd : UInt32)

/-- The kernel with its holes, in the arithmetic of `unsigned`. -/
def dilatedKernel (kernel dilation : UInt32) : UInt32 :=
  if dilation ≠ 0 then (kernel - 1) * dilation + 1 else kernel

/-- The positions from the first to the last of a window. -/
def effectiveKernel (kernel dilation : UInt32) : ℤ :=
  if dilation = 0 then kernel.toNat else (kernel.toNat - 1) * dilation.toNat + 1

theorem dilatedKernel_toNat (kernel dilation : UInt32) :
    ((dilatedKernel kernel dilation).toNat : ℤ) = effectiveKernel kernel dilation % 2 ^ 32 := by
  unfold dilatedKernel effectiveKernel
  by_cases hd : dilation = 0
  · rw [if_neg (not_not.mpr hd), if_pos hd]
    have hlt := kernel.toNat_lt
    omega
  · rw [if_pos hd, if_neg hd, UInt32.toNat_add, UInt32.toNat_mul, UInt32.toNat_sub]
    have hone : (1 : UInt32).toNat = 1 := rfl
    rw [hone]
    push_cast
    rw [Int.emod_add_emod]
    have hpred : (2 ^ 32 - 1 + kernel.toNat : ℤ) % 2 ^ 32 ≡ kernel.toNat - 1 [ZMOD 2 ^ 32] :=
      (Int.mod_modEq _ _).trans (Int.modEq_iff_dvd.mpr ⟨-1, by ring⟩)
    exact (hpred.mul_right _).add_right 1

/-- `ceil((dims - kernel + 1.f) / stride)`. -/
def validSize : Single :=
  (((Single.ofNat (toSizeT (input - kernel.toNat))).add (.finite 1)).div (.ofNat stride.toNat)).ceil

/-- `ceil(1.f * dims / stride)`. -/
def sameUpperSize : Single := ((Single.ofNat input).div (.ofNat stride.toNat)).ceil

/-- `floor(1.f * dims / stride)`. -/
def sameLowerSize : Single := ((Single.ofNat input).div (.ofNat stride.toNat)).floor

/-- `dims + pad_begin + pad_end - kernel`. -/
def paddedRest : ℕ := toSizeT (input + padBegin.toNat + padEnd.toNat - kernel.toNat)

def ConvShapeProp.explicitSize : Single :=
  (((Single.ofNat (paddedRest input kernel padBegin padEnd)).div (.ofNat stride.toNat)).floor).add (.finite 1)

/-- The size before the windows that start behind the input are left out. -/
def PoolingShapeProp.roundedSize (isCeil : Bool) : Single :=
  let size := (Single.finite 1).add ((Single.ofNat (paddedRest input kernel padBegin padEnd)).div (.ofNat stride.toNat))
  if isCeil then size.ceil else size.floor

def PoolingShapeProp.explicitSize (isCeil : Bool) : Single :=
  let size := roundedSize input kernel stride padBegin padEnd isCeil
  if ((size.sub (.finite 1)).mul (.ofNat stride.toNat)).ge (.ofNat (toSizeT (input + padBegin.toNat))) then
    size.sub (.finite 1)
  else size

def DeconvShapeProp.validSize : Single :=
  .ofNat (toSizeT ((input - 1) * stride.toNat + kernel.toNat))

def DeconvShapeProp.sameSize : Single := .ofNat (toSizeT (input * stride.toNat))

def DeconvShapeProp.explicitSize : Single :=
  .ofNat (toSizeT (stride.toNat * (input - 1) + kernel.toNat - padBegin.toNat - padEnd.toNat))

end Axis

/-! ### The loops over the spatial axes -/

/-- `dims[dims_size - 1 - i]`. -/
def spatialDim (dims : SizeVector) (i : ℕ) : ℕ := dims.getD (dims.length - 1 - i) 0

/-- `static_cast<size_t>` of a number that is not negative. -/
def toSize : Single → Result ℕ
  | .finite q => if 0 ≤ q ∧ q < 2 ^ 64 then .ok ⌊q⌋₊ else .error (.undefinedBehaviour "static_cast<size_t>(OD_temp[i])")
  | .notFinite => .error (.undefinedBehaviour "static_cast<size_t>(OD_temp[i])")

/-- What follows the computation of `OD_temp`. -/
def finishShape (dims : SizeVector) (channels : ℕ) (od : List Single) : Result SizeVector := do
  if od.any Single.isNegative then throwException s!"New shapes {dims} make output shape negative"
  let sizes ← od.reverse.mapM toSize
  return dims.getD 0 0 :: channels :: sizes

theorem toSize_ok {q : ℚ} {n : ℕ} (h : toSize (.finite q) = .ok n) : 0 ≤ q ∧ n = ⌊q⌋₊ := by
  simp only [toSize] at h
  split_ifs at h with hq
  exact ⟨hq.1, (Except.ok.inj h).symm⟩

theorem finishShape_ok {dims out : SizeVector} {channels : ℕ} {od : List Single}
    (h : finishShape dims channels od = .ok out) {i : ℕ} {x : Single} (hx : od[i]? = some x) :
    toSize x = .ok (spatialDim out i) := by
  obtain ⟨hi, hxi⟩ := List.getElem?_eq_some_iff.mp hx
  unfold finishShape at h
  split_ifs at h with hneg
  · simp [throwException, bind, Except.bind] at h
  simp only [bind_ok_iff, pure_ok_iff] at h
  obtain ⟨sizes, hsizes, rfl⟩ := h
  have hpairs := mapM_ok_iff.mp hsizes
  have hlength : sizes.length = od.length := by rw [← hpairs.length_eq, List.length_reverse]
  have hget := (List.forall₂_iff_get.mp hpairs).2 (od.length - 1 - i) (by rw [List.length_reverse]; omega) (by omega)
  simp only [List.get_eq_getElem, List.getElem_reverse] at hget
  have hback : od.length - 1 - (od.length - 1 - i) = i := by omega
  simp only [hback, hxi] at hget
  rw [hget, spatialDim]
  have hindex : (dims.getD 0 0 :: channels :: sizes).length - 1 - i = od.length - 1 - i + 2 := by
    simp only [List.length_cons]
    omega
  rw [hindex, List.getD_cons_succ, List.getD_cons_succ, List.getD_eq_getElem _ _ (by omega)]

/-- `KDims[i]`. -/
def kDim (layer : ConvolutionLayer) (i : ℕ) : Result UInt32 := do
  let dilation ← layer.dilation.get i
  let kernel ← layer.kernel.get i
  return dilatedKernel kernel dilation

namespace ConvShapeProp

/-- `OD_temp[i]`. -/
def odTemp (layer : ConvolutionLayer) (dims : SizeVector) (kDims : List UInt32) (i : ℕ) : Result Single := do
  let input := spatialDim dims i
  let kernel := kDims.getD i 0
  if layer.autoPad = "valid" then
    let stride ← layer.stride.get i
    return validSize input kernel stride
  else if layer.autoPad = "same_upper" then
    let stride ← layer.stride.get i
    return sameUpperSize input stride
  else if layer.autoPad = "same_lower" then
    let stride ← layer.stride.get i
    return sameLowerSize input stride
  else
    let padding ← layer.padding.get i
    let padsEnd ← layer.padsEnd.get i
    let stride ← layer.stride.get i
    return explicitSize input kernel stride padding padsEnd

def outShape (layer : ConvolutionLayer) (dims : SizeVector) : Result SizeVector := do
  let kDims ← (List.range (dims.length - 2)).mapM (kDim layer)
  let od ← (List.range (dims.length - 2)).mapM (odTemp layer dims kDims)
  finishShape dims layer.outDepth.toNat od

def inferShapesImpl (params : LayerParams) (inShapes : List SizeVector) (weights biases : Option SizeVector) :
    Result SizeVector := do
  let layer ← ConvolutionValidator.validate params inShapes weights biases
  outShape layer (inShapes.getD 0 [])

theorem outShape_ok {layer : ConvolutionLayer} {dims out : SizeVector} (h : outShape layer dims = .ok out) {i : ℕ}
    (hi : i < dims.length - 2) : ∃ kernel x, kDim layer i = .ok kernel ∧
      (∃ kDims, kDims.getD i 0 = kernel ∧ odTemp layer dims kDims i = .ok x) ∧ toSize x = .ok (spatialDim out i) := by
  unfold outShape at h
  simp only [bind_ok_iff] at h
  obtain ⟨kDims, hkDims, od, hod, hfinish⟩ := h
  obtain ⟨kernel, hkernel, hread⟩ := (mapM_range_ok hkDims).2 i hi
  obtain ⟨x, hx, htemp⟩ := (mapM_range_ok hod).2 i hi
  refine ⟨kernel, x, hread, ⟨kDims, ?_, htemp⟩, finishShape_ok hfinish hx⟩
  rw [List.getD_eq_getElem?_getD, hkernel, Option.getD_some]

end ConvShapeProp

namespace PoolingShapeProp

/-- The parameters are in the order of their names, so `rounding-type` is found first. -/
def isCeil (params : LayerParams) : Bool :=
  match (params.strings.lookup "rounding-type").or (params.strings.lookup "rounding_type") with
  | some value => value ≠ "floor"
  | none => true

def odTemp (layer : PoolingLayer) (dims : SizeVector) (i : ℕ) : Result Single := do
  let input := spatialDim dims i
  if layer.autoPad = "valid" then
    let kernel ← layer.kernel.get i
    let stride ← layer.stride.get i
    return validSize input kernel stride
  else if layer.autoPad = "same_upper" then
    let stride ← layer.stride.get i
    return sameUpperSize input stride
  else if layer.autoPad = "same_lower" then
    let stride ← layer.stride.get i
    return sameLowerSize input stride
  else
    let padding ← layer.padding.get i
    let padsEnd ← layer.padsEnd.get i
    let kernel ← layer.kernel.get i
    let stride ← layer.stride.get i
    return explicitSize input kernel stride padding padsEnd (isCeil layer.params)

/-- The number of spatial axes of a shape with less than two dims wraps around, and `new` refuses it. -/
def outShape (layer : PoolingLayer) (dims : SizeVector) : Result SizeVector := do
  if dims.length < 2 then throwException "std::bad_array_new_length"
  let od ← (List.range (dims.length - 2)).mapM (odTemp layer dims)
  finishShape dims (dims.getD 1 0) od

def inferShapesImpl (params : LayerParams) (inShapes : List SizeVector) : Result SizeVector := do
  let layer ← PoolingValidator.validate params inShapes
  outShape layer (inShapes.getD 0 [])

theorem outShape_ok {layer : PoolingLayer} {dims out : SizeVector} (h : outShape layer dims = .ok out) {i : ℕ}
    (hi : i < dims.length - 2) : ∃ x, odTemp layer dims i = .ok x ∧ toSize x = .ok (spatialDim out i) := by
  unfold outShape at h
  split_ifs at h with hrank
  · simp [throwException, bind, Except.bind] at h
  simp only [bind_ok_iff] at h
  obtain ⟨od, hod, hfinish⟩ := h
  obtain ⟨x, hx, htemp⟩ := (mapM_range_ok hod).2 i hi
  exact ⟨x, htemp, finishShape_ok hfinish hx⟩

end PoolingShapeProp

namespace DeconvShapeProp

def odTemp (layer : ConvolutionLayer) (dims : SizeVector) (kDims : List UInt32) (i : ℕ) : Result Single := do
  let input := spatialDim dims i
  let kernel := kDims.getD i 0
  if layer.autoPad = "valid" then
    let stride ← layer.stride.get i
    return validSize input kernel stride
  else if layer.autoPad = "same_upper" ∨ layer.autoPad = "same_lower" then
    let stride ← layer.stride.get i
    return sameSize input stride
  else
    let stride ← layer.stride.get i
    let padding ← layer.padding.get i
    let padsEnd ← layer.padsEnd.get i
    return explicitSize input kernel stride padding padsEnd

def outShape (layer : ConvolutionLayer) (dims : SizeVector) : Result SizeVector := do
  let kDims ← (List.range (dims.length - 2)).mapM (kDim layer)
  let od ← (List.range (dims.length - 2)).mapM (odTemp layer dims kDims)
  finishShape dims layer.outDepth.toNat od

def inferShapesImpl (params : LayerParams) (inShapes : List SizeVector) (weights biases : Option SizeVector) :
    Result SizeVector := do
  let layer ← ConvolutionValidator.validate params inShapes weights biases
  outShape layer (inShapes.getD 0 [])

end DeconvShapeProp

end OpenVino.InferenceEngine
