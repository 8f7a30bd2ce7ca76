import OpenVino.InferenceEngine.ShapeInfer.Paddings

/-!
# Automatic padding and the size of the output

`getPaddings` pads the input until a window starts at every multiple of the stride (`windows_of_missing`), so the
windows over the padded input are as many as the mode `same_upper` infers, the quotient of input and stride
rounded up. The mode `same_lower` pads the same number of positions and rounds the quotient down: the inferred
size is one short unless the stride divides the input (`same_agrees_iff`).
-/

namespace OpenVino.InferenceEngine

/-! ### The windows over the padded input -/

/-- `floor((input + pad_begin + pad_end - kernel) / stride) + 1`. -/
def windows (input : ℕ) (padBegin padEnd : UInt32) (kernel : ℤ) (stride : UInt32) : ℤ :=
  (input + padBegin.toNat + padEnd.toNat - kernel) / stride.toNat + 1

/-- The padding completes the last window that starts inside the input. -/
theorem windows_of_missing (input : ℤ) {kernel stride : ℤ} (hkernel : 1 ≤ kernel) (hstride : 1 ≤ stride) :
    (input + max (kernel - if input % stride = 0 then stride else input % stride) 0 - kernel) / stride + 1
      = (input + stride - 1) / stride := by
  have hdiv := Int.emod_add_mul_ediv input stride
  have hlow := Int.emod_nonneg input (show stride ≠ 0 by omega)
  have hhigh := Int.emod_lt_of_pos input (show 0 < stride by omega)
  have hpos : 0 < stride := by omega
  -- one window for each multiple of the stride below the input
  have hcount : ∀ n r : ℤ, 0 ≤ r → r < stride → ∀ total, total = stride * n + r → total / stride = n := by
    intro n r hr hlt total htotal
    rw [htotal, add_comm, Int.add_mul_ediv_left _ _ hpos.ne', Int.ediv_eq_zero_of_lt hr hlt, zero_add]
  by_cases hzero : input % stride = 0
  · rw [if_pos hzero]
    rw [hcount (input / stride) (stride - 1) (by omega) (by omega) (input + stride - 1) (by omega)]
    rcases le_or_gt stride kernel with hle | hgt
    · rw [max_eq_left (by omega), hcount (input / stride - 1) 0 le_rfl hpos _ (by rw [mul_sub]; omega)]
      ring
    · rw [max_eq_right (by omega),
        hcount (input / stride - 1) (stride - kernel) (by omega) (by omega) _ (by rw [mul_sub]; omega)]
      ring
  · rw [if_neg hzero]
    rw [hcount (input / stride + 1) (input % stride - 1) (by omega) (by omega) (input + stride - 1)
      (by rw [mul_add]; omega)]
    rcases le_or_gt (input % stride) kernel with hle | hgt
    · rw [max_eq_left (by omega), hcount (input / stride) 0 le_rfl hpos _ (by omega)]
    · rw [max_eq_right (by omega),
        hcount (input / stride) (input % stride - kernel) (by omega) (by omega) _ (by omega)]

/-! ### The two halves -/

theorem splitPadding_sum {mode : String} (hmode : mode = "same_upper" ∨ mode = "same_lower") {m : ℕ}
    (hm : m ≤ 2 ^ 24) : (splitPadding mode m).1.toNat + (splitPadding mode m).2.toNat = m := by
  have hPA : nearest ((m : ℤ) : ℚ) = m := nearest_natCast hm
  have hexact := nearest_half (n := m) (by omega) (by exact_mod_cast hm)
  rw [Int.cast_natCast] at hexact
  have hhalf : nearest ((m : ℚ) * (1 / 2)) = m / 2 := by rw [mul_one_div, hexact]
  have hrest : nearest ((m : ℚ) - m / 2) = m / 2 := by rw [sub_half, hexact]
  have hfloor : ⌊(m : ℚ) / 2⌋₊ = m / 2 := by exact_mod_cast Nat.floor_div_eq_div (K := ℚ) m 2
  have hceil : ⌈(m : ℚ) / 2⌉₊ = (m + 1) / 2 := by
    have hint := ceil_natCast_div m (s := 2) two_pos
    rw [← Int.natCast_ceil_eq_ceil (by positivity)] at hint
    exact_mod_cast hint
  have hlow : (UInt32.ofNat (m / 2)).toNat = m / 2 := UInt32.toNat_ofNat_of_lt' (by simp only [UInt32.size]; omega)
  have hhigh : (UInt32.ofNat ((m + 1) / 2)).toNat = (m + 1) / 2 :=
    UInt32.toNat_ofNat_of_lt' (by simp only [UInt32.size]; omega)
  unfold splitPadding
  simp only [hPA, hhalf, hrest, hfloor, hceil]
  rcases hmode with rfl | rfl
  · rw [if_pos rfl, hlow, hhigh]
    omega
  · rw [if_neg (by decide), if_pos rfl, hlow, hhigh]
    omega

theorem autoPaddings_ok {layer : PaddedLayer} {mode : String} {shape : SizeVector} {pads : Paddings}
    (h : autoPaddings layer mode = .ok pads) (hdata : layer.insData.getD 0 none = some shape) {i : ℕ}
    (hi : i < layer.kernel.size) :
    (shape.length = 4 ∨ shape.length = 5) ∧
      axisPadding layer mode (innerShapes shape) i = .ok (pads.begin.value i, pads.end_.value i) := by
  unfold autoPaddings at h
  dsimp only at h
  rw [hdata] at h
  simp only [throw_guard_ok_iff, bind_ok_iff, pure_ok_iff] at h
  obtain ⟨-, -, hrank, h⟩ := h
  obtain ⟨halves, hhalves, padBegin, hbegin, padEnd, hend, rfl⟩ := h
  refine ⟨by omega, ?_⟩
  obtain ⟨p, hp, haxis⟩ := (mapM_range_ok hhalves).2 i hi
  rw [haxis]
  unfold PropertyVector.value
  rw [PropertyVector.insert_all_ok hbegin, PropertyVector.insert_all_ok hend, List.getD_eq_getElem?_getD,
    List.getD_eq_getElem?_getD, List.getElem?_map, List.getElem?_map, hp]
  rfl

theorem missing_ok {kernel stride sh m : ℤ} (h : missing kernel stride sh = .ok m) :
    m = max (kernel - if sh.tmod stride = 0 then stride else sh.tmod stride) 0 := by
  unfold missing at h
  split_ifs at h with hzero
  · simp [bind, Except.bind] at h
  simp only [bind_ok_iff, pure_ok_iff, intArith_ok_iff] at h
  obtain ⟨rest, ⟨-, rfl⟩, rfl⟩ := h
  rfl

theorem axisPadding_ok {layer : PaddedLayer} {mode : String} {shapes : List Int} {i : ℕ} {p : UInt32 × UInt32}
    (htype : layer.type ≠ "Deconvolution") (h : axisPadding layer mode shapes i = .ok p) :
    ∃ kernel stride sh, layer.getKernel i = .ok kernel ∧ (i < layer.stride.size → layer.stride.value i = stride) ∧
      shapes[i]? = some sh ∧
      ∃ m, missing (toInt kernel.toNat) (toInt stride.toNat) sh = .ok m ∧ splitPadding mode m = p := by
  unfold axisPadding at h
  by_cases hi : i < layer.stride.size
  · simp only [if_pos hi, if_neg htype, bind_ok_iff, pure_ok_iff, exists_eq_left'] at h
    obtain ⟨kernel, hkernel, stride, hread, sh, hsh, m, hm, hp⟩ := h
    obtain ⟨-, hget⟩ := elemAt_ok_iff.mp hsh
    rw [Int.toNat_natCast] at hget
    exact ⟨kernel, stride, sh, hkernel, fun _ => (PropertyVector.get_ok_iff.mp hread).2, hget, m, hm, hp⟩
  · simp only [if_neg hi, if_neg htype, bind_ok_iff, pure_ok_iff, exists_eq_left'] at h
    obtain ⟨kernel, hkernel, sh, hsh, m, hm, hp⟩ := h
    obtain ⟨-, hget⟩ := elemAt_ok_iff.mp hsh
    rw [Int.toNat_natCast] at hget
    exact ⟨kernel, 1, sh, hkernel, fun h => absurd h hi, hget, m, hm, hp⟩

/-- The dim that `getPaddings` reads is the one that the shape inference reads. -/
theorem innerShapes_ok {dims : SizeVector} {i : ℕ} {sh : Int} (h : (innerShapes dims)[i]? = some sh) :
    i < dims.length - 2 ∧ sh = toInt (spatialDim dims i) := by
  obtain ⟨hi, hget⟩ := List.getElem?_eq_some_iff.mp h
  simp only [innerShapes, List.length_map, List.length_reverse, List.length_drop] at hi
  refine ⟨hi, ?_⟩
  rw [← hget]
  simp only [innerShapes, List.getElem_map, List.getElem_reverse, List.getElem_drop, List.length_drop, spatialDim]
  rw [List.getD_eq_getElem _ _ (by omega)]
  congr 2
  omega

/-! ### One axis -/

/-- Sizes that `float` has exactly. -/
structure ExactAxis (input : ℕ) (kernel : ℤ) (stride : UInt32) : Prop where
  one_le_input : 1 ≤ input
  input_lt : input < 2 ^ 24
  one_le_kernel : 1 ≤ kernel
  kernel_lt : kernel < 2 ^ 24
  one_le_stride : 1 ≤ stride.toNat
  stride_lt : stride.toNat < 2 ^ 31

/-- What a mode of the same padding infers. -/
def sameSize (mode : String) (input : ℕ) (stride : UInt32) : Single :=
  if mode = "same_upper" then sameUpperSize input stride else sameLowerSize input stride

section Axis

variable {mode : String} {input : ℕ} {kernel : ℤ} {stride : UInt32}

theorem ExactAxis.windows_eq (hexact : ExactAxis input kernel stride) {padBegin padEnd : UInt32} {m : ℤ}
    (hpads : ((padBegin.toNat + padEnd.toNat : ℕ) : ℤ) = m)
    (hm : missing kernel stride.toNat input = .ok m) :
    windows input padBegin padEnd kernel stride = (((input + stride.toNat - 1) / stride.toNat : ℕ) : ℤ) := by
  have hrem : (input : ℤ).tmod stride.toNat = (input : ℤ) % stride.toNat := Int.tmod_eq_emod_of_nonneg (by omega)
  have hvalue := missing_ok hm
  rw [hrem] at hvalue
  have hcount := windows_of_missing input hexact.one_le_kernel
    (show (1 : ℤ) ≤ stride.toNat by exact_mod_cast hexact.one_le_stride)
  rw [← hvalue, ← hpads] at hcount
  unfold windows
  rw [Nat.cast_add, ← add_assoc] at hcount
  have hle := hexact.one_le_input
  push_cast [Nat.cast_sub (show 1 ≤ input + stride.toNat by omega)]
  exact hcount

theorem ExactAxis.sameUpperSize_ok (hexact : ExactAxis input kernel stride) {n : ℕ}
    (h : toSize (sameUpperSize input stride) = .ok n) : n = (input + stride.toNat - 1) / stride.toNat := by
  have hstride := hexact.one_le_stride
  have hinput := nearest_natCast hexact.input_lt.le
  unfold sameUpperSize Single.ofNat at h
  rw [Single.div_finite _ (nearest_pos hstride).ne', Single.ceil_finite, hinput,
    ceil_nearest_div hexact.input_lt hstride, ceil_natCast_div input hstride] at h
  rw [(toSize_ok h).2]
  exact_mod_cast Nat.floor_natCast (R := ℚ) _

theorem ExactAxis.sameLowerSize_ok (hexact : ExactAxis input kernel stride) {n : ℕ}
    (h : toSize (sameLowerSize input stride) = .ok n) : n = input / stride.toNat := by
  have hstride := hexact.one_le_stride
  have hinput := nearest_natCast hexact.input_lt.le
  unfold sameLowerSize Single.ofNat at h
  rw [Single.div_finite _ (nearest_pos hstride).ne', Single.floor_finite, hinput,
    floor_nearest_div hexact.input_lt hstride, floor_natCast_div] at h
  rw [(toSize_ok h).2]
  exact_mod_cast Nat.floor_natCast (R := ℚ) _

theorem div_eq_ceil_iff {n s : ℕ} (hs : 1 ≤ s) : n / s = (n + s - 1) / s ↔ s ∣ n := by
  have hdiv := Nat.div_add_mod n s
  have hlt := Nat.mod_lt n hs
  constructor
  · intro heq
    by_contra hno
    have hrem : n % s ≠ 0 := fun hzero => hno (Nat.dvd_of_mod_eq_zero hzero)
    have hnext : n / s + 1 ≤ (n + s - 1) / s := by
      rw [Nat.le_div_iff_mul_le hs, add_mul, mul_comm]
      omega
    omega
  · rintro ⟨c, rfl⟩
    have hup : s * c + s - 1 = s - 1 + s * c := by omega
    rw [Nat.mul_div_cancel_left c hs, hup, Nat.add_mul_div_left _ _ hs, Nat.div_eq_of_lt (by omega), zero_add]

/-- Along one axis the inferred size is that of the windows for `same_upper`, and for `same_lower` when the stride
divides the input. -/
theorem ExactAxis.agrees_iff (hexact : ExactAxis input kernel stride) (hmode : mode = "same_upper" ∨ mode = "same_lower")
    {padBegin padEnd : UInt32} {m : ℤ} {n : ℕ} (hsize : toSize (sameSize mode input stride) = .ok n)
    (hm : missing kernel stride.toNat input = .ok m) (hsplit : splitPadding mode m = (padBegin, padEnd)) :
    (n : ℤ) = windows input padBegin padEnd kernel stride ↔ mode = "same_upper" ∨ stride.toNat ∣ input := by
  have hbound := hexact.kernel_lt
  have hstride := hexact.one_le_stride
  have hvalue := missing_ok hm
  have hrem : 0 ≤ (input : ℤ).tmod stride.toNat := Int.tmod_nonneg _ (by omega)
  obtain ⟨k, rfl⟩ := Int.eq_ofNat_of_zero_le (show 0 ≤ m by rw [hvalue]; exact le_max_right _ _)
  have hk : k ≤ 2 ^ 24 := by
    split_ifs at hvalue <;> omega
  have hsum := splitPadding_sum hmode hk
  rw [hsplit] at hsum
  rw [hexact.windows_eq (m := k) (by exact_mod_cast hsum) hm, Nat.cast_inj]
  unfold sameSize at hsize
  rcases hmode with rfl | rfl
  · rw [if_pos rfl] at hsize
    simp [hexact.sameUpperSize_ok hsize]
  · rw [if_neg (by decide)] at hsize
    rw [hexact.sameLowerSize_ok hsize, div_eq_ceil_iff hstride]
    simp

end Axis

/-! ### The layer whose paddings are computed -/

theorem LayerParams.lookup_of_getParamAsString {params : LayerParams} {param value : String}
    (h : params.getParamAsString param "" = value) (hvalue : value ≠ "") :
    params.strings.lookup param = some value := by
  unfold getParamAsString at h
  cases hlookup : params.strings.lookup param with
  | none =>
    rw [hlookup] at h
    exact absurd h.symm hvalue
  | some found =>
    rw [hlookup] at h
    dsimp only at h
    split_ifs at h with hempty
    · exact absurd h.symm hvalue
    · rw [h]

theorem ConvolutionValidator.parseParams_autoPad {params : LayerParams} {layer : ConvolutionLayer}
    (h : parseParams params = .ok layer) : layer.autoPad = params.getParamAsString "auto_pad" "" := by
  unfold parseParams at h
  simp only [bind_ok_iff] at h
  obtain ⟨outDepth, -, h⟩ := h
  split_ifs at h
  · simp only [bind_ok_iff, pure_ok_iff] at h
    obtain ⟨kernelX, -, kernelY, -, rfl⟩ := h
    rfl
  · simp only [bind_ok_iff, pure_ok_iff] at h
    obtain ⟨kernel, -, stride, -, padding, -, padsEnd, -, dilation, -, rfl⟩ := h
    rfl

theorem ConvolutionValidator.validate_ok {params : LayerParams} {inShapes : List SizeVector}
    {weights biases : Option SizeVector} {layer : ConvolutionLayer}
    (h : validate params inShapes weights biases = .ok layer) : parseParams params = .ok layer := by
  unfold validate at h
  simp only [bind_ok_iff, throw_guard_ok_iff, pure_ok_iff] at h
  obtain ⟨layer', hparse, -, -, -, rfl⟩ := h
  exact hparse

theorem PoolingValidator.parseParams_autoPad {params : LayerParams} {layer : PoolingLayer}
    (h : parseParams params = .ok layer) : layer.autoPad = params.getParamAsString "auto_pad" "" := by
  unfold parseParams at h
  dsimp only at h
  split_ifs at h with hkernels hcustom halg halg
  · split at h
    · simp only [pure_ok_iff] at h
      rw [← h]
    · simp only [pure_ok_iff] at h
      rw [← h]
  · simp only [bind_ok_iff, throwException_ne_ok, false_and, and_false, exists_false] at h
  · simp only [bind_ok_iff, pure_ok_iff] at h
    obtain ⟨kernelX, -, kernelY, -, rfl⟩ := h
    rfl
  · simp only [bind_ok_iff, throwException_ne_ok, false_and, and_false, exists_false] at h
  · simp only [bind_ok_iff, pure_ok_iff] at h
    obtain ⟨kernel, -, stride, -, padding, -, padsEnd, -, rfl⟩ := h
    rfl

theorem PoolingValidator.validate_ok {params : LayerParams} {inShapes : List SizeVector} {layer : PoolingLayer}
    (h : validate params inShapes = .ok layer) : parseParams params = .ok layer := by
  unfold validate at h
  simp only [bind_ok_iff, throw_guard_ok_iff, pure_ok_iff] at h
  obtain ⟨layer', hparse, -, rfl⟩ := h
  exact hparse

theorem withType_ok_iff {α : Type} {type : String} {x : Result α} {a : α} : withType type x = .ok a ↔ x = .ok a := by
  unfold withType
  split <;> simp

/-- What is padded along an axis. -/
theorem getPaddingsInternal_axis {layer : PaddedLayer} {mode : String} {dims : SizeVector} {pads : Paddings}
    (hmode : mode = "same_upper" ∨ mode = "same_lower") (hauto : layer.autoPad = some mode)
    (hdata : layer.insData.getD 0 none = some dims) (h : getPaddingsInternal layer = .ok pads) {i : ℕ}
    (hi : i < layer.kernel.size) :
    axisPadding layer mode (innerShapes dims) i = .ok (pads.begin.value i, pads.end_.value i) := by
  unfold getPaddingsInternal at h
  rw [withType_ok_iff, hauto] at h
  dsimp only at h
  rw [if_neg (by rcases hmode with rfl | rfl <;> decide)] at h
  exact (autoPaddings_ok h hdata hi).2

theorem getPaddingsInternal_ok {layer : PaddedLayer} {mode : String} {dims : SizeVector} {pads : Paddings}
    (hmode : mode = "same_upper" ∨ mode = "same_lower") (hauto : layer.autoPad = some mode)
    (htype : layer.type ≠ "Deconvolution") (hdata : layer.insData.getD 0 none = some dims)
    (h : getPaddingsInternal layer = .ok pads) {i : ℕ} (hi : i < layer.kernel.size) :
    i < dims.length - 2 ∧ ∃ kernel stride, layer.getKernel i = .ok kernel ∧
      (i < layer.stride.size → layer.stride.value i = stride) ∧
      ∃ m, missing (toInt kernel.toNat) (toInt stride.toNat) (toInt (spatialDim dims i)) = .ok m ∧
        splitPadding mode m = (pads.begin.value i, pads.end_.value i) := by
  have haxis := getPaddingsInternal_axis hmode hauto hdata h hi
  obtain ⟨kernel, stride, sh, hkernel, hstride, hsh, m, hm, hsplit⟩ := axisPadding_ok htype haxis
  obtain ⟨hlt, hdim⟩ := innerShapes_ok hsh
  rw [hdim] at hm
  exact ⟨hlt, kernel, stride, hkernel, hstride, m, hm, hsplit⟩

theorem ConvShapeProp.odTemp_same {layer : ConvolutionLayer} {dims : SizeVector} {kDims : List UInt32} {i : ℕ}
    {x : Single} (hmode : layer.autoPad = "same_upper" ∨ layer.autoPad = "same_lower")
    (h : odTemp layer dims kDims i = .ok x) :
    i < layer.stride.size ∧ x = sameSize layer.autoPad (spatialDim dims i) (layer.stride.value i) := by
  unfold odTemp at h
  unfold sameSize
  rcases hmode with hauto | hauto
  · simp only [hauto, if_neg (show "same_upper" ≠ "valid" by decide), if_pos, bind_ok_iff, pure_ok_iff,
      PropertyVector.get_ok_iff] at h ⊢
    obtain ⟨stride, ⟨hi, rfl⟩, rfl⟩ := h
    exact ⟨hi, rfl⟩
  · simp only [hauto, if_neg (show "same_lower" ≠ "valid" by decide), if_neg (show "same_lower" ≠ "same_upper" by decide),
      if_pos, bind_ok_iff, pure_ok_iff, PropertyVector.get_ok_iff] at h ⊢
    obtain ⟨stride, ⟨hi, rfl⟩, rfl⟩ := h
    exact ⟨hi, rfl⟩

theorem PoolingShapeProp.odTemp_same {layer : PoolingLayer} {dims : SizeVector} {i : ℕ}
    {x : Single} (hmode : layer.autoPad = "same_upper" ∨ layer.autoPad = "same_lower")
    (h : odTemp layer dims i = .ok x) :
    i < layer.stride.size ∧ x = sameSize layer.autoPad (spatialDim dims i) (layer.stride.value i) := by
  unfold odTemp at h
  unfold sameSize
  rcases hmode with hauto | hauto
  · simp only [hauto, if_neg (show "same_upper" ≠ "valid" by decide), if_pos, bind_ok_iff, pure_ok_iff,
      PropertyVector.get_ok_iff] at h ⊢
    obtain ⟨stride, ⟨hi, rfl⟩, rfl⟩ := h
    exact ⟨hi, rfl⟩
  · simp only [hauto, if_neg (show "same_lower" ≠ "valid" by decide), if_neg (show "same_lower" ≠ "same_upper" by decide),
      if_pos, bind_ok_iff, pure_ok_iff, PropertyVector.get_ok_iff] at h ⊢
    obtain ⟨stride, ⟨hi, rfl⟩, rfl⟩ := h
    exact ⟨hi, rfl⟩

/-- The kernel of `getPaddings` is the one of the shape inference. -/
theorem getKernel_ok {layer : ConvolutionLayer} {i : ℕ} {kernel kernel' : UInt32}
    (h : InferenceEngine.getKernel layer i = .ok kernel) (h' : kDim layer i = .ok kernel') :
    kernel = dilatedKernel (layer.kernel.value i) (layer.dilation.value i) := by
  unfold kDim at h'
  simp only [bind_ok_iff, pure_ok_iff, PropertyVector.get_ok_iff] at h'
  obtain ⟨dilation, ⟨hdilation, rfl⟩, -⟩ := h'
  unfold InferenceEngine.getKernel at h
  simp only [if_pos hdilation, bind_ok_iff, pure_ok_iff, PropertyVector.get_ok_iff] at h
  obtain ⟨k, ⟨-, rfl⟩, d, ⟨-, rfl⟩, rfl⟩ := h
  rfl

theorem ExactAxis.toInt_dilatedKernel {input : ℕ} {stride kernel dilation : UInt32}
    (hexact : ExactAxis input (effectiveKernel kernel dilation) stride) :
    toInt (dilatedKernel kernel dilation).toNat = effectiveKernel kernel dilation := by
  have hlow := hexact.one_le_kernel
  have hhigh := hexact.kernel_lt
  have hvalue : ((dilatedKernel kernel dilation).toNat : ℤ) = effectiveKernel kernel dilation := by
    rw [dilatedKernel_toNat, Int.emod_eq_of_lt (by omega) (by omega)]
  rw [toInt_of_lt (by omega), hvalue]

theorem or_forall_lt_iff {a : Prop} {b : ℕ → Prop} {n : ℕ} : (a ∨ ∀ i < n, b i) ↔ ∀ i < n, a ∨ b i := by
  by_cases ha : a <;> simp [ha]

/-- **A layer with the same padding has the inferred size exactly when the mode is `same_upper` or the stride
divides the input.** -/
theorem same_agrees_iff {params : LayerParams} {dims out : SizeVector} {pads : Paddings} :
    (∀ {weights biases : Option SizeVector} {layer : ConvolutionLayer}, layer.autoPad = "same_upper" ∨ layer.autoPad = "same_lower" →
      ConvolutionValidator.validate params [dims] weights biases = .ok layer →
      ConvShapeProp.inferShapesImpl params [dims] weights biases = .ok out →
      layer.getPaddings "Convolution" params [some dims] = .ok pads →
      (∀ i < layer.kernel.size, ExactAxis (spatialDim dims i)
        (effectiveKernel (layer.kernel.value i) (layer.dilation.value i)) (layer.stride.value i)) →
      ((∀ i < layer.kernel.size, (spatialDim out i : ℤ) = windows (spatialDim dims i) (pads.begin.value i)
        (pads.end_.value i) (effectiveKernel (layer.kernel.value i) (layer.dilation.value i)) (layer.stride.value i)) ↔
        layer.autoPad = "same_upper" ∨ ∀ i < layer.kernel.size, (layer.stride.value i).toNat ∣ spatialDim dims i)) ∧
    (∀ {rest : List (Option SizeVector)} {inShapes : List SizeVector} {layer : PoolingLayer},
      layer.autoPad = "same_upper" ∨ layer.autoPad = "same_lower" →
      PoolingValidator.validate params (dims :: inShapes) = .ok layer →
      PoolingShapeProp.inferShapesImpl params (dims :: inShapes) = .ok out →
      layer.getPaddings params (some dims :: rest) = .ok pads →
      (∀ i < layer.kernel.size, ExactAxis (spatialDim dims i) (layer.kernel.value i).toNat (layer.stride.value i)) →
      ((∀ i < layer.kernel.size, (spatialDim out i : ℤ) = windows (spatialDim dims i) (pads.begin.value i)
        (pads.end_.value i) (layer.kernel.value i).toNat (layer.stride.value i)) ↔
        layer.autoPad = "same_upper" ∨ ∀ i < layer.kernel.size, (layer.stride.value i).toNat ∣ spatialDim dims i)) := by
  constructor
  · intro weights biases layer hmode hvalid hinfer hpads hexact
    have hout : ConvShapeProp.outShape layer dims = .ok out := by
      unfold ConvShapeProp.inferShapesImpl at hinfer
      rw [hvalid] at hinfer
      exact hinfer
    have hauto : params.strings.lookup "auto_pad" = some layer.autoPad := by
      apply LayerParams.lookup_of_getParamAsString
      · exact (ConvolutionValidator.parseParams_autoPad (ConvolutionValidator.validate_ok hvalid)).symm
      · rcases hmode with h | h <;> rw [h] <;> decide
    rw [or_forall_lt_iff]
    refine forall₂_congr fun i hi => ?_
    obtain ⟨hlt, kernel, stride, hkernel, hstride, m, hm, hsplit⟩ :=
      getPaddingsInternal_ok hmode hauto (by simp) rfl hpads hi
    obtain ⟨kernel', x, hkernel', ⟨kDims, -, htemp⟩, hsize⟩ := ConvShapeProp.outShape_ok hout hlt
    obtain ⟨histride, rfl⟩ := ConvShapeProp.odTemp_same hmode htemp
    have hax := hexact i hi
    rw [getKernel_ok hkernel hkernel', hax.toInt_dilatedKernel, ← hstride histride, toInt_of_lt hax.stride_lt,
      toInt_of_lt (hax.input_lt.trans (by norm_num))] at hm
    exact hax.agrees_iff hmode hsize hm hsplit
  · intro rest inShapes layer hmode hvalid hinfer hpads hexact
    have hout : PoolingShapeProp.outShape layer dims = .ok out := by
      unfold PoolingShapeProp.inferShapesImpl at hinfer
      rw [hvalid] at hinfer
      exact hinfer
    have hauto : params.strings.lookup "auto_pad" = some layer.autoPad := by
      apply LayerParams.lookup_of_getParamAsString
      · exact (PoolingValidator.parseParams_autoPad (PoolingValidator.validate_ok hvalid)).symm
      · rcases hmode with h | h <;> rw [h] <;> decide
    rw [or_forall_lt_iff]
    refine forall₂_congr fun i hi => ?_
    obtain ⟨hlt, kernel, stride, hkernel, hstride, m, hm, hsplit⟩ :=
      getPaddingsInternal_ok hmode hauto (by simp) rfl hpads hi
    obtain ⟨x, htemp, hsize⟩ := PoolingShapeProp.outShape_ok hout hlt
    obtain ⟨histride, rfl⟩ := PoolingShapeProp.odTemp_same hmode htemp
    have hax := hexact i hi
    obtain ⟨-, rfl⟩ := PropertyVector.get_ok_iff.mp hkernel
    have hklt := hax.kernel_lt
    rw [toInt_of_lt (by omega), ← hstride histride, toInt_of_lt hax.stride_lt,
      toInt_of_lt (hax.input_lt.trans (by norm_num))] at hm
    exact hax.agrees_iff hmode hsize hm hsplit

/-! ### A kernel of 3 with a stride of 2 over an input of 5 -/

def sameParams (mode : String) : LayerParams where
  uints := [("output", [4]), ("kernel", [3, 3]), ("strides", [2, 2])]
  strings := [("auto_pad", mode)]

def sameConvolution (mode : String) : ConvolutionLayer where
  kernel := .pair 3 3
  padding := .pair 0 0
  padsEnd := .pair 0 0
  stride := .pair 2 2
  dilation := .pair 1 1
  outDepth := 4
  group := 1
  autoPad := mode

def samePooling (mode : String) : PoolingLayer where
  kernel := .pair 3 3
  padding := .pair 0 0
  padsEnd := .pair 0 0
  stride := .pair 2 2
  autoPad := mode
  params := sameParams mode

def sameDims : SizeVector := [1, 3, 5, 5]

def samePaddings : Paddings := ⟨.pair 1 1, .pair 1 1⟩

theorem same_agrees_upper :
    (∀ i < (sameConvolution "same_upper").kernel.size, (spatialDim [1, 4, 3, 3] i : ℤ) =
      windows (spatialDim sameDims i) (samePaddings.begin.value i) (samePaddings.end_.value i)
        (effectiveKernel ((sameConvolution "same_upper").kernel.value i) ((sameConvolution "same_upper").dilation.value i))
        ((sameConvolution "same_upper").stride.value i)) ∧
    (∀ i < (samePooling "same_upper").kernel.size, (spatialDim [1, 3, 3, 3] i : ℤ) =
      windows (spatialDim sameDims i) (samePaddings.begin.value i) (samePaddings.end_.value i)
        ((samePooling "same_upper").kernel.value i).toNat ((samePooling "same_upper").stride.value i)) := by
  constructor
  · have hvalid : ConvolutionValidator.validate (sameParams "same_upper") [sameDims] none none
        = .ok (sameConvolution "same_upper") := by decide +kernel
    have hinfer : ConvShapeProp.inferShapesImpl (sameParams "same_upper") [sameDims] none none
        = .ok [1, 4, 3, 3] := by decide +kernel
    have hpads : (sameConvolution "same_upper").getPaddings "Convolution" (sameParams "same_upper") [some sameDims]
        = .ok samePaddings := by decide +kernel
    refine (same_agrees_iff.1 (Or.inl rfl) hvalid hinfer hpads ?_).mpr (Or.inl rfl)
    intro i hi
    have hi' : i < 2 := hi
    interval_cases i <;> constructor <;> decide
  · have hvalid : PoolingValidator.validate (sameParams "same_upper") [sameDims] = .ok (samePooling "same_upper") := rfl
    have hinfer : PoolingShapeProp.inferShapesImpl (sameParams "same_upper") [sameDims] = .ok [1, 3, 3, 3] := by
      decide +kernel
    have hpads : (samePooling "same_upper").getPaddings (sameParams "same_upper") [some sameDims]
        = .ok samePaddings := by decide +kernel
    refine (same_agrees_iff.2 (Or.inl rfl) hvalid hinfer hpads ?_).mpr (Or.inl rfl)
    intro i hi
    have hi' : i < 2 := hi
    interval_cases i <;> constructor <;> decide

/-- With the mode `same_lower` two windows are inferred along each axis where the paddings make room for three. -/
theorem sameLower_short :
    ConvolutionValidator.validate (sameParams "same_lower") [sameDims] none none = .ok (sameConvolution "same_lower") ∧
    ConvShapeProp.inferShapesImpl (sameParams "same_lower") [sameDims] none none = .ok [1, 4, 2, 2] ∧
    (sameConvolution "same_lower").getPaddings "Convolution" (sameParams "same_lower") [some sameDims]
      = .ok samePaddings ∧
    (spatialDim [1, 4, 2, 2] 0 : ℤ) ≠ windows (spatialDim sameDims 0) (samePaddings.begin.value 0)
      (samePaddings.end_.value 0) (effectiveKernel ((sameConvolution "same_lower").kernel.value 0)
        ((sameConvolution "same_lower").dilation.value 0)) ((sameConvolution "same_lower").stride.value 0) := by
  refine ⟨?_, ?_, ?_, ?_⟩ <;> decide +kernel

end OpenVino.InferenceEngine
