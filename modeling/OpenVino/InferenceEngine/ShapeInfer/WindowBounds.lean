import OpenVino.InferenceEngine.ShapeInfer.WindowShapes

/-!
# Windows that do not fit

What the formulas of the shape inference give along one axis. The difference of the input and the kernel wraps
around in `size_t`, so it is never negative: a kernel larger than the input gives a size of at least `2 ^ 31`, or one
that does not fit `size_t`, and the check for negative sizes does not see it. Where `float` has the numbers exactly,
the size is within the padded input exactly when the window is (`explicitSize_fits_iff` and the like).
-/

namespace OpenVino.InferenceEngine

/-! ### The conversion back to `size_t` -/

theorem toSize_eq_ok_iff {q : ℚ} {m : ℕ} : toSize (.finite q) = .ok m ↔ (0 ≤ q ∧ q < 2 ^ 64) ∧ ⌊q⌋₊ = m := by
  unfold toSize
  by_cases h : 0 ≤ q ∧ q < 2 ^ 64 <;> simp [h]

/-- A size up to `n` is returned. -/
theorem exists_toSize_le {q : ℚ} {n : ℕ} (h₀ : 0 ≤ q) (h : q ≤ n) (hn : n < 2 ^ 64) : ∃ m, toSize (.finite q) = .ok m ∧ m ≤ n := by
  have hn' : (n : ℚ) < 2 ^ 64 := by exact_mod_cast hn
  exact ⟨⌊q⌋₊, toSize_eq_ok_iff.mpr ⟨⟨h₀, by linarith⟩, rfl⟩, Nat.floor_le_of_le h⟩

theorem le_of_toSize {q : ℚ} {n m : ℕ} (h : (n : ℚ) ≤ q) (hm : toSize (.finite q) = .ok m) : n ≤ m := by
  rw [← (toSize_eq_ok_iff.mp hm).2]
  exact Nat.le_floor h

/-! ### What is left of the input -/

section Rest

variable {n k : ℕ}

theorem toSizeT_sub_of_le (hn : n < 2 ^ 24) (h : k ≤ n) : toSizeT ((n : ℤ) - k) = n - k := by
  unfold toSizeT
  omega

theorem two_pow_le_toSizeT_sub (hn : n < k) (hk : k < 2 ^ 32) : 2 ^ 63 ≤ toSizeT ((n : ℤ) - k) := by
  unfold toSizeT
  omega

end Rest

/-- The kernel is in the padded input, and if it has no positions at all, the windows are not too many. -/
def FitsWindow (kernel stride n : ℕ) : Prop :=
  stride ≠ 0 ∧ ((1 ≤ kernel ∧ kernel ≤ n) ∨ (kernel = 0 ∧ 2 ≤ stride ∧ 1 ≤ n))

instance (kernel stride n : ℕ) : Decidable (FitsWindow kernel stride n) := inferInstanceAs (Decidable (_ ∧ _))

theorem paddedRest_eq (input : ℕ) (kernel padBegin padEnd : UInt32) :
    paddedRest input kernel padBegin padEnd
      = toSizeT (((input + padBegin.toNat + padEnd.toNat : ℕ) : ℤ) - (kernel.toNat : ℕ)) := by
  unfold paddedRest
  push_cast
  rfl

section Sizes

variable {input k s n : ℕ}

theorem representable_natHalf (h : n ≤ 2 ^ 24) : Representable ((n : ℚ) / (2 : ℕ)) := by
  have hhalf := representable_half (n := n) (by omega)
  simpa using hhalf

theorem representable_div_one (h : n ≤ 2 ^ 24) : Representable ((n : ℚ) / (1 : ℕ)) := by
  simpa using representable_natCast h

/-- A window that does not fit, for a stride that is not 0. -/
theorem not_fitsWindow_cases (h : ¬FitsWindow k s n) (hs : s ≠ 0) : n < k ∨ (k = 0 ∧ (s = 1 ∨ n = 0)) := by
  unfold FitsWindow at h
  omega

/-- `floor((n - k) / s)`, in `float`. -/
def quotient (n k s : ℕ) : ℤ := ⌊nearest (nearest (toSizeT ((n : ℤ) - k)) / nearest s)⌋

theorem FitsWindow.quotient_lt (h : FitsWindow k s n) (hn : n < 2 ^ 24) : quotient n k s + 1 ≤ n := by
  have hkn : k ≤ n := by
    unfold FitsWindow at h
    omega
  unfold quotient
  rw [toSizeT_sub_of_le hn hkn, nearest_natCast (by omega)]
  obtain ⟨hs, ⟨hk, -⟩ | ⟨rfl, hs₂, hn₁⟩⟩ := h
  · have hle := nearest_div_le (representable_div_one (n := n - k) (by omega)) one_pos (by norm_num)
      (Nat.one_le_iff_ne_zero.mpr hs)
    rw [Nat.cast_one, div_one] at hle
    have hfloor := (Int.floor_mono hle).trans_eq (Int.floor_natCast _)
    omega
  · rw [Nat.sub_zero]
    have hle := nearest_div_le (representable_natHalf hn.le) two_pos (by norm_num) hs₂
    have hfloor := (Int.floor_mono hle).trans_eq (floor_natCast_div n 2)
    omega

theorem quotient_nonneg : 0 ≤ quotient n k s :=
  Int.floor_nonneg.mpr (nearest_nonneg (div_nonneg (nearest_nonneg (Nat.cast_nonneg _)) (nearest_nonneg s.cast_nonneg)))

theorem le_quotient (h : ¬FitsWindow k s n) (hs : s ≠ 0) (hs' : s ≤ 2 ^ 32) (hk : k < 2 ^ 32) (hn : n < 2 ^ 24) :
    (n : ℤ) ≤ quotient n k s := by
  rcases not_fitsWindow_cases h hs with hlt | ⟨rfl, rfl | rfl⟩
  · have hrest : (2 : ℚ) ^ 63 ≤ toSizeT ((n : ℤ) - k) := by exact_mod_cast two_pow_le_toSizeT_sub hlt hk
    have hdividend := le_nearest (representable_two_pow 63) (Nat.cast_nonneg _) hrest
    have hle := two_pow_le_nearest_div hdividend (Nat.pos_of_ne_zero hs) hs'
    have hfloor : (2 ^ 31 : ℤ) ≤ quotient n k s := Int.le_floor.mpr (by exact_mod_cast hle)
    omega
  · unfold quotient
    rw [toSizeT_sub_of_le hn (Nat.zero_le n), Nat.sub_zero, nearest_natCast hn.le, nearest_natCast (by norm_num), Nat.cast_one,
      div_one, nearest_natCast hn.le, Int.floor_natCast]
  · exact_mod_cast quotient_nonneg

/-! ### Explicit padding of a convolution -/

theorem ConvShapeProp.explicitSize_eq {kernel stride padBegin padEnd : UInt32} (hs : stride.toNat ≠ 0)
    (hN : n = input + padBegin.toNat + padEnd.toNat) :
    ConvShapeProp.explicitSize input kernel stride padBegin padEnd
      = .finite (nearest (quotient n kernel.toNat stride.toNat + 1)) := by
  unfold ConvShapeProp.explicitSize Single.ofNat
  rw [Single.div_finite _ (nearest_pos (Nat.pos_of_ne_zero hs)).ne', paddedRest_eq, ← hN]
  rfl

theorem ConvShapeProp.explicitSize_fits_iff {kernel stride padBegin padEnd : UInt32}
    (hN : n = input + padBegin.toNat + padEnd.toNat) (hn : n < 2 ^ 24) :
    (∃ m, toSize (explicitSize input kernel stride padBegin padEnd) = .ok m ∧ m ≤ n) ↔
      FitsWindow kernel.toNat stride.toNat n := by
  by_cases hs : stride.toNat = 0
  · have hnone : explicitSize input kernel stride padBegin padEnd = .notFinite := by
      unfold explicitSize Single.ofNat
      rw [hs, Nat.cast_zero, nearest_zero]
      rfl
    rw [hnone]
    simp [toSize, FitsWindow, hs]
  rw [explicitSize_eq hs hN]
  constructor
  · rintro ⟨m, hm, hmn⟩
    by_contra hno
    have hlow := le_quotient hno hs (by have := stride.toNat_lt; omega) kernel.toNat_lt hn
    have hcast : ((n + 1 : ℕ) : ℚ) ≤ quotient n kernel.toNat stride.toNat + 1 := by
      have hint : (n : ℤ) + 1 ≤ quotient n kernel.toNat stride.toNat + 1 := by omega
      push_cast
      exact_mod_cast hint
    have hle := natCast_le_nearest (by omega) hcast
    have hbig := le_of_toSize hle hm
    omega
  · intro hfits
    have hup := hfits.quotient_lt hn
    have hnonneg := quotient_nonneg (n := n) (k := kernel.toNat) (s := stride.toNat)
    have hpos : (0 : ℚ) ≤ quotient n kernel.toNat stride.toNat + 1 := by exact_mod_cast (by omega)
    have hcast : (quotient n kernel.toNat stride.toNat + 1 : ℚ) ≤ n := by exact_mod_cast hup
    exact exists_toSize_le (nearest_nonneg hpos) (nearest_le_natCast hn.le hpos hcast) (by omega)

/-! ### Valid padding -/

/-- `ceil((n - k + 1.f) / s)`. -/
def quotientUp (n k s : ℕ) : ℤ := ⌈nearest (nearest (nearest (toSizeT ((n : ℤ) - k)) + 1) / nearest s)⌉

theorem quotientUp_nonneg : 0 ≤ quotientUp n k s := by
  have hrest : 0 ≤ nearest (toSizeT ((n : ℤ) - k)) := nearest_nonneg (Nat.cast_nonneg _)
  apply Int.ceil_nonneg
  exact nearest_nonneg (div_nonneg (nearest_nonneg (by linarith)) (nearest_nonneg s.cast_nonneg))

theorem FitsWindow.quotientUp_le (h : FitsWindow k s n) (hn : n < 2 ^ 24) : quotientUp n k s ≤ n := by
  have hkn : k ≤ n := by
    unfold FitsWindow at h
    omega
  unfold quotientUp
  rw [toSizeT_sub_of_le hn hkn, nearest_natCast (by omega), ← Nat.cast_add_one, nearest_natCast (by omega)]
  obtain ⟨hs, ⟨hk, -⟩ | ⟨rfl, hs₂, hn₁⟩⟩ := h
  · have hle := nearest_div_le (representable_div_one (n := n - k + 1) (by omega)) one_pos (by norm_num)
      (Nat.one_le_iff_ne_zero.mpr hs)
    rw [Nat.cast_one, div_one] at hle
    have hceil := (Int.ceil_mono hle).trans_eq (Int.ceil_natCast _)
    omega
  · rw [Nat.sub_zero]
    have hle := nearest_div_le (representable_natHalf (n := n + 1) (by omega)) two_pos (by norm_num) hs₂
    have hceil := (Int.ceil_mono hle).trans_eq (ceil_natCast_div (n + 1) two_pos)
    omega

theorem lt_quotientUp (h : ¬FitsWindow k s n) (hs : s ≠ 0) (hs' : s ≤ 2 ^ 32) (hk : k < 2 ^ 32) (hn : n < 2 ^ 24) :
    (n : ℤ) < quotientUp n k s := by
  rcases not_fitsWindow_cases h hs with hlt | ⟨rfl, rfl | rfl⟩
  · have hrest : (2 : ℚ) ^ 63 ≤ toSizeT ((n : ℤ) - k) := by exact_mod_cast two_pow_le_toSizeT_sub hlt hk
    have hrounded := le_nearest (representable_two_pow 63) (Nat.cast_nonneg _) hrest
    have hsum : (2 : ℚ) ^ 63 ≤ nearest (toSizeT ((n : ℤ) - k)) + 1 := by linarith
    have hdividend := le_nearest (representable_two_pow 63) (le_trans (by norm_num) hsum) hsum
    have hle := two_pow_le_nearest_div hdividend (Nat.pos_of_ne_zero hs) hs'
    have hn' : (n : ℚ) < 2 ^ 31 := by exact_mod_cast hn.trans (by norm_num)
    exact Int.lt_ceil.mpr (by exact_mod_cast hn'.trans_le hle)
  · unfold quotientUp
    rw [toSizeT_sub_of_le hn (Nat.zero_le n), Nat.sub_zero, nearest_natCast hn.le, ← Nat.cast_add_one,
      nearest_natCast (by omega), nearest_natCast (by norm_num), Nat.cast_one, div_one, nearest_natCast (by omega),
      Int.ceil_natCast]
    omega
  · unfold quotientUp
    rw [toSizeT_sub_of_le (by norm_num) le_rfl]
    simp only [Nat.sub_zero, Nat.cast_zero, nearest_zero, zero_add]
    have hone : nearest 1 = 1 := by exact_mod_cast nearest_natCast (n := 1) (by norm_num)
    have hquot : (0 : ℚ) < 1 / nearest s := one_div_pos.mpr (nearest_pos (Nat.pos_of_ne_zero hs))
    have herror := abs_le.mp (abs_nearest_sub_le hquot.le)
    rw [hone]
    apply Int.lt_ceil.mpr
    push_cast
    linarith [herror.1]

theorem validSize_eq {kernel stride : UInt32} (hs : stride.toNat ≠ 0) :
    validSize n kernel stride = .finite (quotientUp n kernel.toNat stride.toNat) := by
  unfold validSize Single.ofNat
  rw [Single.add_finite, Single.div_finite _ (nearest_pos (Nat.pos_of_ne_zero hs)).ne']
  rfl

theorem validSize_fits_iff (kernel stride : UInt32) (hn : n < 2 ^ 24) :
    (∃ m, toSize (validSize n kernel stride) = .ok m ∧ m ≤ n) ↔ FitsWindow kernel.toNat stride.toNat n := by
  by_cases hs : stride.toNat = 0
  · have hnone : validSize n kernel stride = .notFinite := by
      unfold validSize Single.ofNat
      rw [hs, Nat.cast_zero, nearest_zero]
      rfl
    rw [hnone]
    simp [toSize, FitsWindow, hs]
  rw [validSize_eq hs]
  constructor
  · rintro ⟨m, hm, hmn⟩
    by_contra hno
    have hlow := lt_quotientUp hno hs (by have := stride.toNat_lt; omega) kernel.toNat_lt hn
    have hcast : ((n + 1 : ℕ) : ℚ) ≤ quotientUp n kernel.toNat stride.toNat := by exact_mod_cast hlow
    have hbig := le_of_toSize hcast hm
    omega
  · intro hfits
    have hup := hfits.quotientUp_le hn
    have hnonneg := quotientUp_nonneg (n := n) (k := kernel.toNat) (s := stride.toNat)
    exact exists_toSize_le (by exact_mod_cast hnonneg) (by exact_mod_cast hup) (by omega)

/-! ### Explicit padding of pooling -/

section Pooling

variable {kernel stride padBegin padEnd : UInt32} {isCeil : Bool}

/-- The size before the check that the last window starts inside, at least 1. -/
def roundedCount (n k s : ℕ) (isCeil : Bool) : ℤ :=
  let size := nearest (1 + nearest (nearest (toSizeT ((n : ℤ) - k)) / nearest s))
  if isCeil then ⌈size⌉ else ⌊size⌋

theorem one_le_roundedCount (isCeil : Bool) : 1 ≤ roundedCount n k s isCeil := by
  have hquot := nearest_nonneg (div_nonneg (nearest_nonneg (Nat.cast_nonneg (toSizeT ((n : ℤ) - k)))) (nearest_nonneg s.cast_nonneg))
  have hone : ((1 : ℕ) : ℚ) ≤ 1 + nearest (nearest (toSizeT ((n : ℤ) - k)) / nearest s) := by
    push_cast
    linarith
  have hsize := natCast_le_nearest (by norm_num) hone
  unfold roundedCount
  cases isCeil with
  | true => exact Int.le_ceil_iff.mpr (by push_cast at hsize ⊢; linarith)
  | false => exact Int.le_floor.mpr (by exact_mod_cast hsize)

theorem roundedCount_le (isCeil : Bool) (hn : n < 2 ^ 24) (hk : k ≤ n) (hs : s ≠ 0) : roundedCount n k s isCeil ≤ n + 1 := by
  have hle := nearest_div_le (representable_div_one (n := n - k) (by omega)) one_pos (by norm_num)
    (Nat.one_le_iff_ne_zero.mpr hs)
  rw [Nat.cast_one, div_one] at hle
  have hquot := nearest_nonneg (div_nonneg (Nat.cast_nonneg (n - k)) (nearest_nonneg s.cast_nonneg))
  have hsub : ((n - k : ℕ) : ℚ) ≤ n := by exact_mod_cast Nat.sub_le n k
  have hsize := nearest_le_natCast (n := n + 1) (by omega) (add_nonneg zero_le_one hquot) (by push_cast; linarith)
  unfold roundedCount
  rw [toSizeT_sub_of_le hn hk, nearest_natCast (show n - k ≤ 2 ^ 24 by omega)]
  cases isCeil with
  | true => exact Int.ceil_le.mpr (by push_cast at hsize ⊢; linarith)
  | false =>
    have hfloor := (Int.floor_mono hsize).trans_eq (Int.floor_natCast _)
    exact_mod_cast hfloor

theorem PoolingShapeProp.roundedSize_eq (hs : stride.toNat ≠ 0) (hN : n = input + padBegin.toNat + padEnd.toNat) :
    roundedSize input kernel stride padBegin padEnd isCeil
      = .finite (roundedCount n kernel.toNat stride.toNat isCeil) := by
  unfold roundedSize Single.ofNat roundedCount
  rw [Single.div_finite _ (nearest_pos (Nat.pos_of_ne_zero hs)).ne', paddedRest_eq, ← hN]
  cases isCeil <;> rfl

theorem PoolingShapeProp.explicitSize_eq (hs : stride.toNat ≠ 0) (hN : n = input + padBegin.toNat + padEnd.toNat) :
    explicitSize input kernel stride padBegin padEnd isCeil =
      if nearest (toSizeT (input + padBegin.toNat)) ≤
        nearest (nearest (roundedCount n kernel.toNat stride.toNat isCeil - 1) * nearest stride.toNat)
      then .finite (nearest (roundedCount n kernel.toNat stride.toNat isCeil - 1))
      else .finite (roundedCount n kernel.toNat stride.toNat isCeil) := by
  unfold explicitSize
  rw [roundedSize_eq hs hN]
  simp [Single.ofNat, Single.ge]

theorem PoolingShapeProp.explicitSize_fits_iff (hN : n = input + padBegin.toNat + padEnd.toNat) (hn : n < 2 ^ 24) :
    (∃ m, toSize (explicitSize input kernel stride padBegin padEnd isCeil) = .ok m ∧ kernel.toNat ≤ n ∧ m ≤ n) ↔
      kernel.toNat ≤ n ∧ stride.toNat ≠ 0 := by
  by_cases hs : stride.toNat = 0
  · have hnone : explicitSize input kernel stride padBegin padEnd isCeil = .notFinite := by
      unfold explicitSize roundedSize Single.ofNat
      rw [hs, Nat.cast_zero, nearest_zero]
      cases isCeil <;> rfl
    rw [hnone]
    simp [toSize, hs]
  rw [explicitSize_eq hs hN]
  constructor
  · rintro ⟨m, -, hk, -⟩
    exact ⟨hk, hs⟩
  · rintro ⟨hk, -⟩
    obtain ⟨c, hc⟩ := Int.eq_ofNat_of_zero_le (show 0 ≤ roundedCount n kernel.toNat stride.toNat isCeil - 1 by
      have hlow := one_le_roundedCount (n := n) (k := kernel.toNat) (s := stride.toNat) isCeil
      omega)
    have hup := roundedCount_le isCeil hn hk hs
    have hcount : roundedCount n kernel.toNat stride.toNat isCeil = (c + 1 : ℕ) := by omega
    have hsub : (((c + 1 : ℕ) : ℤ) : ℚ) - 1 = c := by push_cast; ring
    rw [hcount, hsub, nearest_natCast (show c ≤ 2 ^ 24 by omega)]
    split_ifs with hge
    · obtain ⟨m, hm, hle⟩ := exists_toSize_le c.cast_nonneg le_rfl (show c < 2 ^ 64 by omega)
      exact ⟨m, hm, hk, by omega⟩
    · -- one window too many would start behind the input
      have hc' : c ≠ n := by
        rintro rfl
        apply hge
        have hinput : toSizeT (input + padBegin.toNat) = input + padBegin.toNat :=
          toSizeT_natCast (n := input + padBegin.toNat) (by omega)
        have hstride : ((1 : ℕ) : ℚ) ≤ nearest stride.toNat :=
          natCast_le_nearest (by norm_num) (by exact_mod_cast Nat.one_le_iff_ne_zero.mpr hs)
        have hle : ((input + padBegin.toNat : ℕ) : ℚ) ≤ c := by exact_mod_cast (by omega)
        rw [hinput, nearest_natCast (by omega)]
        apply natCast_le_nearest (by omega)
        rw [Nat.cast_one] at hstride
        exact hle.trans (le_mul_of_one_le_right c.cast_nonneg hstride)
      obtain ⟨m, hm, hle⟩ := exists_toSize_le (Nat.cast_nonneg (c + 1)) le_rfl (show c + 1 < 2 ^ 64 by omega)
      exact ⟨m, by exact_mod_cast hm, hk, by omega⟩

end Pooling

/-! ### No size is negative -/

theorem isNegative_finite {q : ℚ} (h : 0 ≤ q) : (Single.finite q).isNegative = false := by
  simp [Single.isNegative, h]

theorem ConvShapeProp.explicitSize_not_negative {kernel stride padBegin padEnd : UInt32} :
    (explicitSize input kernel stride padBegin padEnd).isNegative = false := by
  by_cases hs : stride.toNat = 0
  · unfold explicitSize Single.ofNat
    rw [hs, Nat.cast_zero, nearest_zero]
    rfl
  · rw [explicitSize_eq hs rfl]
    apply isNegative_finite
    apply nearest_nonneg
    have hnonneg := quotient_nonneg (n := input + padBegin.toNat + padEnd.toNat) (k := kernel.toNat) (s := stride.toNat)
    exact_mod_cast (by omega)

theorem validSize_not_negative {kernel stride : UInt32} : (validSize n kernel stride).isNegative = false := by
  by_cases hs : stride.toNat = 0
  · unfold validSize Single.ofNat
    rw [hs, Nat.cast_zero, nearest_zero]
    rfl
  · rw [validSize_eq hs]
    apply isNegative_finite
    exact_mod_cast quotientUp_nonneg

theorem PoolingShapeProp.explicitSize_not_negative {kernel stride padBegin padEnd : UInt32} {isCeil : Bool} :
    (explicitSize input kernel stride padBegin padEnd isCeil).isNegative = false := by
  by_cases hs : stride.toNat = 0
  · have hnone : explicitSize input kernel stride padBegin padEnd isCeil = .notFinite := by
      unfold explicitSize roundedSize Single.ofNat
      rw [hs, Nat.cast_zero, nearest_zero]
      cases isCeil <;> rfl
    rw [hnone]
    rfl
  · rw [explicitSize_eq hs rfl]
    have hlow := one_le_roundedCount (n := input + padBegin.toNat + padEnd.toNat) (k := kernel.toNat) (s := stride.toNat)
      isCeil
    have hone : (1 : ℚ) ≤ roundedCount (input + padBegin.toNat + padEnd.toNat) kernel.toNat stride.toNat isCeil := by
      exact_mod_cast hlow
    split_ifs
    · exact isNegative_finite (nearest_nonneg (by linarith))
    · exact isNegative_finite (by linarith)

theorem ofNat_not_negative (v : ℕ) : (Single.ofNat v).isNegative = false :=
  isNegative_finite (nearest_nonneg v.cast_nonneg)

/-! ### Deconvolution -/

theorem effectiveKernel_gt (kernel dilation : UInt32) : -2 ^ 32 < effectiveKernel kernel dilation := by
  have hlt := dilation.toNat_lt
  unfold effectiveKernel
  split_ifs
  · omega
  · have hmul : -(dilation.toNat : ℤ) ≤ (kernel.toNat - 1) * dilation.toNat := by
      have hnonneg : (0 : ℤ) ≤ kernel.toNat * dilation.toNat := by positivity
      linarith
    omega

theorem toSize_ofNat_iff {v m : ℕ} (hv : v < 2 ^ 24) : toSize (.ofNat v) = .ok m ↔ m = v := by
  have hlt : (v : ℚ) < 2 ^ 64 := by exact_mod_cast hv.trans (by norm_num)
  unfold Single.ofNat
  rw [nearest_natCast hv.le, toSize_eq_ok_iff, Nat.floor_natCast]
  constructor
  · rintro ⟨-, rfl⟩
    rfl
  · rintro rfl
    exact ⟨⟨m.cast_nonneg, hlt⟩, rfl⟩

theorem effectiveKernel_lt (kernel dilation : UInt32) : effectiveKernel kernel dilation < 2 ^ 64 := by
  have hkernel := kernel.toNat_lt
  have hdilation := dilation.toNat_lt
  unfold effectiveKernel
  split_ifs
  · omega
  · have hle : ((kernel.toNat : ℤ) - 1) * dilation.toNat ≤ (2 ^ 32 - 2) * dilation.toNat :=
      mul_le_mul_of_nonneg_right (by omega) (by omega)
    omega

/-- The size of a deconvolution that reaches `reach` positions before the last window, and of which `pads` are
cut off. -/
theorem deconv_exact_iff {kernel dilation : UInt32} {reach pads : ℤ} (hpads : 0 ≤ pads)
    (hrange : reach + effectiveKernel kernel dilation < 2 ^ 24) :
    (∃ m : ℕ, toSize (.ofNat (toSizeT (reach + (dilatedKernel kernel dilation).toNat - pads))) = .ok m ∧
        (m : ℤ) = reach + effectiveKernel kernel dilation - pads) ↔
      effectiveKernel kernel dilation = (dilatedKernel kernel dilation).toNat ∧
        pads ≤ reach + effectiveKernel kernel dilation := by
  have hmod := dilatedKernel_toNat kernel dilation
  have hlow := effectiveKernel_gt kernel dilation
  have hhigh := effectiveKernel_lt kernel dilation
  generalize effectiveKernel kernel dilation = K at *
  generalize (dilatedKernel kernel dilation).toNat = k at *
  constructor
  · rintro ⟨m, hm, hvalue⟩
    refine ⟨?_, by omega⟩
    by_contra hne
    have hwrapped : 2 ^ 32 ≤ toSizeT (reach + k - pads) := by
      unfold toSizeT
      omega
    have hcast : ((2 : ℚ) ^ 32) ≤ toSizeT (reach + k - pads) := by exact_mod_cast hwrapped
    have hrounded := le_nearest (representable_two_pow 32) (Nat.cast_nonneg _) hcast
    have hbig := le_of_toSize (n := 2 ^ 32) (by exact_mod_cast hrounded) hm
    omega
  · rintro ⟨rfl, hle⟩
    have hvalue : toSizeT (reach + k - pads) = (reach + k - pads).toNat := by
      unfold toSizeT
      omega
    refine ⟨(reach + k - pads).toNat, ?_, by omega⟩
    rw [hvalue, toSize_ofNat_iff (by omega)]

end Sizes

end OpenVino.InferenceEngine
