import Mathlib

/-!
# Single precision numbers

`nearest q` is the rational with a significand of 24 bits that is nearest to `q`, the one with the even
significand when two are. A number of that kind bounds what is rounded on either side (`nearest_le`,
`le_nearest`), so integers up to `2 ^ 24` are exact, and the relative error is at most `2 ^ -24`
(`abs_nearest_sub_le`). `Single` adds the result of a division by zero. Subnormal numbers and overflow are left
out: the values stay between `2 ^ -126` and `2 ^ 128`.

The quotient of two integers, the dividend below `2 ^ 24`, has the floor and the ceiling of the exact one
(`floor_nearest_div`, `ceil_nearest_div`).
-/

namespace OpenVino

/-! ### Rounding to an integer -/

def roundHalfEven (x : ℚ) : ℤ :=
  if Int.fract x < 1 / 2 then ⌊x⌋
  else if 1 / 2 < Int.fract x then ⌊x⌋ + 1
  else if ⌊x⌋ % 2 = 0 then ⌊x⌋ else ⌊x⌋ + 1

theorem roundHalfEven_cases (x : ℚ) :
    (roundHalfEven x = ⌊x⌋ ∧ Int.fract x ≤ 1 / 2) ∨ (roundHalfEven x = ⌊x⌋ + 1 ∧ 1 / 2 ≤ Int.fract x) := by
  unfold roundHalfEven
  split_ifs with h₁ h₂ h₃
  · exact .inl ⟨rfl, h₁.le⟩
  · exact .inr ⟨rfl, h₂.le⟩
  · exact .inl ⟨rfl, not_lt.mp h₂⟩
  · exact .inr ⟨rfl, not_lt.mp h₁⟩

theorem roundHalfEven_le {x : ℚ} {m : ℤ} (h : x ≤ m) : roundHalfEven x ≤ m := by
  rcases roundHalfEven_cases x with ⟨hx, -⟩ | ⟨hx, hfract⟩
  · rw [hx]
    exact Int.floor_le_iff.mpr (by linarith)
  · rw [hx]
    have hsum := Int.floor_add_fract x
    have hlt : (⌊x⌋ : ℚ) < m := by linarith
    exact_mod_cast hlt

theorem le_roundHalfEven {x : ℚ} {m : ℤ} (h : (m : ℚ) ≤ x) : m ≤ roundHalfEven x := by
  have hm : m ≤ ⌊x⌋ := Int.le_floor.mpr h
  rcases roundHalfEven_cases x with ⟨hx, -⟩ | ⟨hx, -⟩ <;> omega

theorem abs_roundHalfEven_sub_le (x : ℚ) : |(roundHalfEven x : ℚ) - x| ≤ 1 / 2 := by
  have hsum := Int.floor_add_fract x
  have hnonneg := Int.fract_nonneg x
  have hlt := Int.fract_lt_one x
  rw [abs_le]
  rcases roundHalfEven_cases x with ⟨hx, hfract⟩ | ⟨hx, hfract⟩
  · rw [hx]
    constructor <;> linarith
  · rw [hx]
    push_cast
    constructor <;> linarith

/-! ### Rounding to 24 bits -/

/-- The exponent of the last of the 24 bits. -/
def lastExponent (q : ℚ) : ℤ := Int.log 2 |q| - 23

def nearest (q : ℚ) : ℚ := roundHalfEven (q / 2 ^ lastExponent q) * 2 ^ lastExponent q

def Representable (r : ℚ) : Prop := ∃ m j : ℤ, m ≤ 2 ^ 24 ∧ r = m * 2 ^ j

theorem nearest_zero : nearest 0 = 0 := by
  simp [nearest, roundHalfEven]

theorem representable_intCast {m : ℤ} (h : m ≤ 2 ^ 24) : Representable m := ⟨m, 0, h, by simp⟩

theorem representable_natCast {n : ℕ} (h : n ≤ 2 ^ 24) : Representable n :=
  ⟨n, 0, by exact_mod_cast h, by simp⟩

theorem representable_half {n : ℤ} (h : n ≤ 2 ^ 24) : Representable (n / 2) :=
  ⟨n, -1, h, by simp [div_eq_mul_inv]⟩

theorem representable_two_pow (j : ℕ) : Representable (2 ^ j) := ⟨1, j, by norm_num, by simp⟩

section Nearest

variable {q r : ℚ}

theorem significand_bounds (hq : 0 < q) :
    2 ^ 23 ≤ q / 2 ^ lastExponent q ∧ q / 2 ^ lastExponent q < 2 ^ 24 := by
  have hpow : (0 : ℚ) < 2 ^ lastExponent q := zpow_pos two_pos _
  have hle := Int.zpow_log_le_self (b := 2) Nat.one_lt_two hq
  have hlt := Int.lt_zpow_succ_log_self (b := 2) Nat.one_lt_two q
  have hlog : Int.log 2 q = 23 + lastExponent q := by
    rw [lastExponent, abs_of_pos hq]
    omega
  rw [hlog] at hle hlt
  constructor
  · rw [le_div_iff₀ hpow]
    calc (2 : ℚ) ^ 23 * 2 ^ lastExponent q = 2 ^ (23 + lastExponent q) := by
          rw [zpow_add₀ two_ne_zero]
          norm_num
      _ ≤ q := by exact_mod_cast hle
  · rw [div_lt_iff₀ hpow]
    calc q < 2 ^ (23 + lastExponent q + 1) := by exact_mod_cast hlt
      _ = (2 : ℚ) ^ 24 * 2 ^ lastExponent q := by
          rw [add_assoc, add_comm (lastExponent q), ← add_assoc, zpow_add₀ two_ne_zero]
          norm_num

/-- A number with 24 bits at or above `q` or at or below `q` is a multiple of the unit in which `q` is rounded,
or lies below all that are rounded in this unit. -/
theorem Representable.multiple (hr : Representable r) (e : ℤ) :
    (∃ m : ℤ, r = m * 2 ^ e) ∨ r ≤ 2 ^ 23 * 2 ^ e := by
  obtain ⟨m, j, hm, rfl⟩ := hr
  rcases le_or_gt e j with hej | hej
  · left
    refine ⟨m * 2 ^ (j - e).toNat, ?_⟩
    have hpow : (2 : ℚ) ^ j = 2 ^ (j - e).toNat * 2 ^ e := by
      rw [← zpow_natCast, Int.toNat_of_nonneg (by omega), ← zpow_add₀ two_ne_zero, sub_add_cancel]
    rw [hpow]
    push_cast
    ring
  · right
    have hm' : (m : ℚ) ≤ 2 ^ 24 := by exact_mod_cast hm
    calc (m : ℚ) * 2 ^ j ≤ 2 ^ 24 * 2 ^ (e - 1) :=
          mul_le_mul hm' (zpow_le_zpow_right₀ one_le_two (by omega)) (zpow_pos two_pos _).le (by norm_num)
      _ = 2 ^ 23 * 2 ^ e := by
          rw [zpow_sub₀ two_ne_zero]
          ring

theorem nearest_le (hr : Representable r) (hq : 0 ≤ q) (h : q ≤ r) : nearest q ≤ r := by
  rcases hq.eq_or_lt with rfl | hpos
  · rwa [nearest_zero]
  have hpow : (0 : ℚ) < 2 ^ lastExponent q := zpow_pos two_pos _
  obtain ⟨hlow, -⟩ := significand_bounds hpos
  rw [le_div_iff₀ hpow] at hlow
  have hmultiple : ∃ m : ℤ, r = m * 2 ^ lastExponent q := by
    rcases hr.multiple (lastExponent q) with hm | hsmall
    · exact hm
    · refine ⟨2 ^ 23, ?_⟩
      push_cast
      exact le_antisymm hsmall (hlow.trans h)
  obtain ⟨m, rfl⟩ := hmultiple
  have hm : roundHalfEven (q / 2 ^ lastExponent q) ≤ m := by
    apply roundHalfEven_le
    rwa [div_le_iff₀ hpow]
  apply mul_le_mul_of_nonneg_right _ hpow.le
  exact_mod_cast hm

theorem le_nearest (hr : Representable r) (hq : 0 ≤ q) (h : r ≤ q) : r ≤ nearest q := by
  rcases hq.eq_or_lt with rfl | hpos
  · rwa [nearest_zero]
  have hpow : (0 : ℚ) < 2 ^ lastExponent q := zpow_pos two_pos _
  obtain ⟨hlow, -⟩ := significand_bounds hpos
  rcases hr.multiple (lastExponent q) with ⟨m, rfl⟩ | hsmall
  · have hm : m ≤ roundHalfEven (q / 2 ^ lastExponent q) := by
      apply le_roundHalfEven
      rwa [le_div_iff₀ hpow]
    apply mul_le_mul_of_nonneg_right _ hpow.le
    exact_mod_cast hm
  · apply hsmall.trans
    have hround : 2 ^ 23 ≤ roundHalfEven (q / 2 ^ lastExponent q) := by
      apply le_roundHalfEven
      exact_mod_cast hlow
    apply mul_le_mul_of_nonneg_right _ hpow.le
    exact_mod_cast hround

theorem nearest_of_representable (hr : Representable r) (h : 0 ≤ r) : nearest r = r :=
  le_antisymm (nearest_le hr h le_rfl) (le_nearest hr h le_rfl)

theorem nearest_nonneg (hq : 0 ≤ q) : 0 ≤ nearest q := by
  have hzero : Representable 0 := ⟨0, 0, by norm_num, by simp⟩
  exact le_nearest hzero hq hq

theorem nearest_natCast {n : ℕ} (h : n ≤ 2 ^ 24) : nearest n = n :=
  nearest_of_representable (representable_natCast h) n.cast_nonneg

theorem nearest_le_natCast {n : ℕ} (hn : n ≤ 2 ^ 24) (hq : 0 ≤ q) (h : q ≤ n) : nearest q ≤ n :=
  nearest_le (representable_natCast hn) hq h

theorem natCast_le_nearest {n : ℕ} (hn : n ≤ 2 ^ 24) (h : (n : ℚ) ≤ q) : n ≤ nearest q :=
  le_nearest (representable_natCast hn) (n.cast_nonneg.trans h) h

theorem nearest_half {n : ℤ} (h₀ : 0 ≤ n) (h : n ≤ 2 ^ 24) : nearest (n / 2) = n / 2 := by
  apply nearest_of_representable (representable_half h)
  have hn : (0 : ℚ) ≤ n := by exact_mod_cast h₀
  positivity

theorem abs_nearest_sub_le (hq : 0 ≤ q) : |nearest q - q| ≤ q / 2 ^ 24 := by
  rcases hq.eq_or_lt with rfl | hpos
  · simp [nearest_zero]
  have hpow : (0 : ℚ) < 2 ^ lastExponent q := zpow_pos two_pos _
  obtain ⟨hlow, -⟩ := significand_bounds hpos
  rw [le_div_iff₀ hpow] at hlow
  have hround := abs_roundHalfEven_sub_le (q / 2 ^ lastExponent q)
  have hsub : nearest q - q
      = (roundHalfEven (q / 2 ^ lastExponent q) - q / 2 ^ lastExponent q) * 2 ^ lastExponent q := by
    rw [nearest, sub_mul, div_mul_cancel₀ _ hpow.ne']
  calc |nearest q - q|
      = |(roundHalfEven (q / 2 ^ lastExponent q) : ℚ) - q / 2 ^ lastExponent q| * 2 ^ lastExponent q := by
        rw [hsub, abs_mul, abs_of_pos hpow]
    _ ≤ 1 / 2 * 2 ^ lastExponent q := mul_le_mul_of_nonneg_right hround hpow.le
    _ ≤ q / 2 ^ 24 := by linarith

/-- What is rounded stays between two integers when it is farther from them than it is rounded. -/
theorem floor_nearest (hq : 0 ≤ q) (hbound : ⌊q⌋ ≤ 2 ^ 24) (hgap : q / 2 ^ 24 < ⌊q⌋ + 1 - q) :
    ⌊nearest q⌋ = ⌊q⌋ := by
  have herror := abs_le.mp (abs_nearest_sub_le hq)
  rw [Int.floor_eq_iff]
  constructor
  · exact le_nearest (representable_intCast hbound) hq (Int.floor_le q)
  · linarith [herror.2]

theorem ceil_nearest (hq : 0 ≤ q) (hbound : ⌈q⌉ ≤ 2 ^ 24) (hgap : q / 2 ^ 24 < q - (⌈q⌉ - 1)) :
    ⌈nearest q⌉ = ⌈q⌉ := by
  have herror := abs_le.mp (abs_nearest_sub_le hq)
  rw [Int.ceil_eq_iff]
  constructor
  · linarith [herror.1]
  · exact nearest_le (representable_intCast hbound) hq (Int.le_ceil q)

end Nearest

/-! ### Quotients of integers -/

section Quotient

variable {n s : ℕ}

theorem two_pow_le_nearest (h : 2 ^ 24 ≤ s) : (2 : ℚ) ^ 24 ≤ nearest s := by
  have hs : ((2 ^ 24 : ℕ) : ℚ) ≤ s := by exact_mod_cast h
  have hnearest := le_nearest (representable_natCast le_rfl) s.cast_nonneg hs
  exact_mod_cast hnearest

theorem nearest_pos (h : 0 < s) : 0 < nearest s := by
  rcases le_or_gt s (2 ^ 24) with hs | hs
  · rw [nearest_natCast hs]
    exact_mod_cast h
  · have hlow := two_pow_le_nearest hs.le
    linarith

theorem floor_natCast_div (n s : ℕ) : ⌊(n / s : ℚ)⌋ = ((n / s : ℕ) : ℤ) := by
  have hfloor := Rat.floor_intCast_div_natCast (n : ℤ) s
  rw [Int.cast_natCast] at hfloor
  rw [hfloor, Int.natCast_div]

theorem ceil_natCast_div (n : ℕ) (hs : 0 < s) : ⌈(n / s : ℚ)⌉ = (((n + s - 1) / s : ℕ) : ℤ) := by
  have hspos : (0 : ℚ) < s := by exact_mod_cast hs
  have hdiv := Nat.div_add_mod (n + s - 1) s
  have hmod := Nat.mod_lt (n + s - 1) hs
  rw [mul_comm] at hdiv
  rw [Int.ceil_eq_iff, Int.cast_natCast, lt_div_iff₀ hspos, div_le_iff₀ hspos, sub_mul, one_mul, sub_lt_iff_lt_add]
  constructor
  · have hlt : (n + s - 1) / s * s < n + s := by omega
    exact_mod_cast hlt
  · have hle : n ≤ (n + s - 1) / s * s := by omega
    exact_mod_cast hle

/-- The quotient does not exceed the one by a smaller divisor. -/
theorem nearest_div_le {d : ℕ} (hrep : Representable (n / d : ℚ)) (hd : 0 < d) (hd' : d ≤ 2 ^ 24) (h : d ≤ s) :
    nearest (n / nearest s) ≤ n / d := by
  have hdpos : (0 : ℚ) < d := by exact_mod_cast hd
  have hds : (d : ℚ) ≤ nearest s := natCast_le_nearest hd' (by exact_mod_cast h)
  apply nearest_le hrep (div_nonneg n.cast_nonneg (nearest_nonneg s.cast_nonneg))
  exact div_le_div_of_nonneg_left n.cast_nonneg hdpos hds

/-- A dividend that is far larger than the divisor. -/
theorem two_pow_le_nearest_div {a : ℚ} (ha : 2 ^ 63 ≤ a) (hs : 0 < s) (hs' : s ≤ 2 ^ 32) :
    2 ^ 31 ≤ nearest (a / nearest s) := by
  have hpos := nearest_pos hs
  have hle : nearest s ≤ 2 ^ 32 := nearest_le (representable_two_pow 32) s.cast_nonneg (by exact_mod_cast hs')
  have hquot : (2 : ℚ) ^ 31 ≤ a / nearest s := by
    rw [le_div_iff₀ hpos]
    linarith
  exact le_nearest (representable_two_pow 31) (le_trans (by norm_num) hquot) hquot

/-- A divisor that is rounded is larger than the dividend, before and after. -/
theorem nearest_divisor (hn : n < 2 ^ 24) (hs : 2 ^ 24 < s) :
    (n : ℚ) / s < 1 ∧ (n : ℚ) / nearest s ≤ (2 ^ 24 - 1) / 2 ^ 24 := by
  have hn' : (n : ℚ) ≤ 2 ^ 24 - 1 := by
    have hle : n ≤ 2 ^ 24 - 1 := by omega
    have hcast : (n : ℚ) ≤ ((2 ^ 24 - 1 : ℕ) : ℚ) := by exact_mod_cast hle
    norm_num at hcast ⊢
    exact hcast
  have hlow := two_pow_le_nearest hs.le
  have hs' : (2 : ℚ) ^ 24 < s := by exact_mod_cast hs
  constructor
  · rw [div_lt_one (by linarith)]
    linarith
  · exact div_le_div₀ (by norm_num) hn' (by norm_num) hlow

theorem floor_nearest_div (hn : n < 2 ^ 24) (hs : 0 < s) : ⌊nearest (n / nearest s)⌋ = ⌊(n / s : ℚ)⌋ := by
  have hspos : (0 : ℚ) < s := by exact_mod_cast hs
  have hn' : (n : ℚ) < 2 ^ 24 := by exact_mod_cast hn
  rcases le_or_gt s (2 ^ 24) with hsmall | hbig
  · rw [nearest_natCast hsmall]
    have hfloor := floor_natCast_div n s
    apply floor_nearest (by positivity)
    · rw [hfloor]
      have hle := Nat.div_le_self n s
      exact_mod_cast hle.trans hn.le
    · -- the next integer is at least `1 / s` away
      rw [hfloor]
      have hnext : n + 1 ≤ (n / s + 1) * s := by
        have hmod := Nat.div_add_mod n s
        have hlt := Nat.mod_lt n hs
        nlinarith
      have hnext' : ((n : ℚ) + 1) ≤ ((n / s : ℕ) + 1) * s := by exact_mod_cast hnext
      have hle : ((n : ℚ) + 1) / s ≤ (n / s : ℕ) + 1 := (div_le_iff₀ hspos).mpr hnext'
      have herror : (n : ℚ) / s / 2 ^ 24 < 1 / s := by
        rw [div_div, mul_comm, ← div_div]
        exact div_lt_div_of_pos_right (by rw [div_lt_one (by norm_num)]; exact hn') hspos
      rw [add_div] at hle
      rw [Int.cast_natCast]
      linarith
  · obtain ⟨hexact, hrounded⟩ := nearest_divisor hn hbig
    have hpos : 0 ≤ (n : ℚ) / nearest s := div_nonneg n.cast_nonneg (nearest_nonneg s.cast_nonneg)
    have hzero : ⌊(n / s : ℚ)⌋ = 0 := Int.floor_eq_zero_iff.mpr ⟨by positivity, hexact⟩
    have hzero' : ⌊(n : ℚ) / nearest s⌋ = 0 := Int.floor_eq_zero_iff.mpr ⟨hpos, by norm_num at hrounded; linarith⟩
    rw [hzero, floor_nearest hpos (by rw [hzero']; norm_num), hzero']
    rw [hzero']
    norm_num at hrounded ⊢
    linarith

theorem ceil_nearest_div (hn : n < 2 ^ 24) (hs : 0 < s) : ⌈nearest (n / nearest s)⌉ = ⌈(n / s : ℚ)⌉ := by
  rcases n.eq_zero_or_pos with rfl | hpos
  · simp [nearest_zero]
  have hspos : (0 : ℚ) < s := by exact_mod_cast hs
  have hn' : (n : ℚ) < 2 ^ 24 := by exact_mod_cast hn
  have hnpos : (0 : ℚ) < n := by exact_mod_cast hpos
  rcases le_or_gt s (2 ^ 24) with hsmall | hbig
  · rw [nearest_natCast hsmall]
    apply ceil_nearest (by positivity)
    · rw [Int.ceil_le]
      have hle : (n : ℚ) / s ≤ n := div_le_self hnpos.le (by exact_mod_cast hs)
      push_cast
      linarith
    · -- the integer before is at least `1 / s` away
      have hlast : ((⌈(n / s : ℚ)⌉ - 1 : ℤ) : ℚ) < n / s := by
        have hlt := Int.ceil_lt_add_one ((n : ℚ) / s)
        push_cast
        linarith
      rw [lt_div_iff₀ hspos] at hlast
      have hlast' : (⌈(n / s : ℚ)⌉ - 1) * s + 1 ≤ (n : ℤ) := by exact_mod_cast hlast
      have hlast'' : ((⌈(n / s : ℚ)⌉ : ℚ) - 1) * s + 1 ≤ n := by exact_mod_cast hlast'
      have hle : (⌈(n / s : ℚ)⌉ : ℚ) - 1 + 1 / s ≤ n / s := by
        rw [le_div_iff₀ hspos, add_mul, div_mul_cancel₀ _ hspos.ne']
        exact hlast''
      have herror : (n : ℚ) / s / 2 ^ 24 < 1 / s := by
        rw [div_div, mul_comm, ← div_div]
        exact div_lt_div_of_pos_right (by rw [div_lt_one (by norm_num)]; exact hn') hspos
      linarith
  · obtain ⟨hexact, hrounded⟩ := nearest_divisor hn hbig
    have hquot : 0 < (n : ℚ) / nearest s := div_pos hnpos (nearest_pos hs)
    have hone : ⌈(n / s : ℚ)⌉ = 1 := Int.ceil_eq_iff.mpr ⟨by simp; positivity, by simpa using hexact.le⟩
    have hone' : ⌈(n : ℚ) / nearest s⌉ = 1 := by
      rw [Int.ceil_eq_iff]
      constructor
      · simpa using hquot
      · norm_num at hrounded ⊢
        linarith
    rw [hone, ceil_nearest hquot.le (by rw [hone']; norm_num), hone']
    rw [hone']
    norm_num
    linarith

end Quotient

/-! ### Arithmetic -/

/-- A number, or what a division by zero gives: an infinity or no number at all. -/
inductive Single
  | finite (q : ℚ)
  | notFinite

namespace Single

def ofNat (n : ℕ) : Single := finite (nearest n)

def ofInt (i : ℤ) : Single := finite (nearest i)

/-- What an operation makes of two numbers, rounded. -/
def rounded (f : ℚ → ℚ → ℚ) : Single → Single → Single
  | finite a, finite b => finite (nearest (f a b))
  | _, _ => notFinite

def add : Single → Single → Single := rounded (· + ·)

def sub : Single → Single → Single := rounded (· - ·)

def mul : Single → Single → Single := rounded (· * ·)

def div : Single → Single → Single
  | finite a, finite b => if b = 0 then notFinite else finite (nearest (a / b))
  | _, _ => notFinite

def ceil : Single → Single
  | finite a => finite ⌈a⌉
  | notFinite => notFinite

def floor : Single → Single
  | finite a => finite ⌊a⌋
  | notFinite => notFinite

/-- Comparisons with what is not finite fail: no infinity is negative here. -/
def isNegative : Single → Bool
  | finite a => a < 0
  | notFinite => false

def ge : Single → Single → Bool
  | finite a, finite b => b ≤ a
  | _, _ => false

variable (a b : ℚ)

@[simp] theorem add_finite : add (finite a) (finite b) = finite (nearest (a + b)) := rfl

@[simp] theorem sub_finite : sub (finite a) (finite b) = finite (nearest (a - b)) := rfl

@[simp] theorem mul_finite : mul (finite a) (finite b) = finite (nearest (a * b)) := rfl

@[simp] theorem ceil_finite : ceil (finite a) = finite ⌈a⌉ := rfl

@[simp] theorem floor_finite : floor (finite a) = finite ⌊a⌋ := rfl

theorem div_finite {b : ℚ} (h : b ≠ 0) : div (finite a) (finite b) = finite (nearest (a / b)) := by
  simp [div, h]

end Single

end OpenVino
