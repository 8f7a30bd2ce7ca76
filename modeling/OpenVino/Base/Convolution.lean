import Mathlib

/-!
# Convolution and deconvolution

Sums over a commutative ring, for one image and one output channel; an axis has a size, a kernel, a stride, a padding
in front and a dilation. A convolution gathers: the output at `y` reads the input at `reads y k`, zero outside. A
deconvolution scatters: the input at `i` is added to the output at `writes i k`.

Zero insertion puts the input on a grid (`upsample_eq_sum`); behind it a convolution with stride 1 and the flipped
kernel is the deconvolution (`conv_upsample`).
-/

namespace OpenVino

structure ConvAxis where
  size : Nat
  kernel : Nat
  stride : Nat
  pad : Int
  dilation : Nat

namespace ConvAxis

variable (a : ConvAxis)

def reads (y k : Nat) : Int := y * a.stride + k * a.dilation - a.pad

def writes (i k : Nat) : Int := i * a.stride + k * a.dilation - a.pad

end ConvAxis

variable {R : Type*} [CommRing R]

/-- The image with zeros around it. -/
def padded (H W : Nat) (t : Nat → Nat → R) (y x : Int) : R :=
  if (0 ≤ y ∧ y < H) ∧ 0 ≤ x ∧ x < W then t y.toNat x.toNat else 0

def conv (a b : ConvAxis) (channels : Nat) (input weight : Nat → Nat → Nat → R) (y x : Nat) : R :=
  ∑ c ∈ Finset.range channels, ∑ ky ∈ Finset.range a.kernel, ∑ kx ∈ Finset.range b.kernel,
    padded a.size b.size (input c) (a.reads y ky) (b.reads x kx) * weight c ky kx

def deconv (a b : ConvAxis) (channels : Nat) (input weight : Nat → Nat → Nat → R) (y x : Nat) : R :=
  ∑ c ∈ Finset.range channels, ∑ i ∈ Finset.range a.size, ∑ j ∈ Finset.range b.size,
    ∑ ky ∈ Finset.range a.kernel, ∑ kx ∈ Finset.range b.kernel,
      if a.writes i ky = y ∧ b.writes j kx = x then input c i j * weight c ky kx else 0

theorem conv_congr {a b : ConvAxis} {channels : Nat} {input input' weight weight' : Nat → Nat → Nat → R}
    (hinput : ∀ c < channels, input c = input' c)
    (hweight : ∀ c < channels, ∀ ky < a.kernel, ∀ kx < b.kernel, weight c ky kx = weight' c ky kx) (y x : Nat) :
    conv a b channels input weight y x = conv a b channels input' weight' y x := by
  refine Finset.sum_congr rfl fun c hc => Finset.sum_congr rfl fun ky hky => Finset.sum_congr rfl fun kx hkx => ?_
  rw [Finset.mem_range] at hc hky hkx
  rw [hinput c hc, hweight c hc ky hky kx hkx]

theorem deconv_congr {a b : ConvAxis} {channels : Nat} {input input' weight weight' : Nat → Nat → Nat → R}
    (hinput : ∀ c < channels, input c = input' c)
    (hweight : ∀ c < channels, ∀ ky < a.kernel, ∀ kx < b.kernel, weight c ky kx = weight' c ky kx) (y x : Nat) :
    deconv a b channels input weight y x = deconv a b channels input' weight' y x := by
  refine Finset.sum_congr rfl fun c hc => Finset.sum_congr rfl fun i _ => Finset.sum_congr rfl fun j _ =>
    Finset.sum_congr rfl fun ky hky => Finset.sum_congr rfl fun kx hkx => ?_
  rw [Finset.mem_range] at hc hky hkx
  rw [hinput c hc, hweight c hc ky hky kx hkx]

/-! ### Zero insertion -/

/-- The place on the input axis for a place behind zero insertion. -/
def gridIndex (size factor : Nat) (pad : Int) (y : Nat) : Option Nat :=
  if pad ≤ y ∧ (y - pad) % factor = 0 ∧ (y - pad) / factor < size then some ((y - pad) / factor).toNat else none

/-- `factor - 1` zeros between the elements, and `pad` in front. -/
def upsample (H W factorY factorX : Nat) (padY padX : Int) (t : Nat → Nat → R) (y x : Nat) : R :=
  match gridIndex H factorY padY y, gridIndex W factorX padX x with
  | some i, some j => t i j
  | _, _ => 0

variable {H W : Nat} {t : Nat → Nat → R} {a b : ConvAxis} {y x channels : Nat}
  {input weight : Nat → Nat → Nat → R}

theorem gridIndex_eq_some_iff {size factor : Nat} {pad : Int} {i : Nat} (hfactor : 0 < factor) :
    gridIndex size factor pad y = some i ↔ i < size ∧ pad + i * factor = y := by
  have hpos : (0 : Int) < factor := by exact_mod_cast hfactor
  have hsplit := Int.mul_ediv_add_emod (y - pad) factor
  unfold gridIndex
  split_ifs with h
  · obtain ⟨hpad, hrem, hlt⟩ := h
    have hnonneg : 0 ≤ (y - pad) / (factor : Int) := Int.ediv_nonneg (by omega) hpos.le
    rw [hrem] at hsplit
    rw [Option.some_inj]
    constructor
    · rintro rfl
      refine ⟨by omega, ?_⟩
      rw [Int.toNat_of_nonneg hnonneg, Int.mul_comm]
      omega
    · rintro ⟨-, heq⟩
      have hdiv : (y - pad) / (factor : Int) = i := by
        rw [← heq, add_sub_cancel_left, Int.mul_ediv_cancel _ hpos.ne']
      rw [hdiv, Int.toNat_natCast]
  · refine ⟨fun hnone => (by cases hnone), fun ⟨hlt, heq⟩ => absurd ⟨?_, ?_, ?_⟩ h⟩
    · have hmul : (0 : Int) ≤ i * factor := by positivity
      omega
    · rw [← heq, add_sub_cancel_left, Int.mul_emod_left]
    · rw [← heq, add_sub_cancel_left, Int.mul_ediv_cancel _ hpos.ne']
      exact_mod_cast hlt

/-- The upsampled image as a sum over the input, of which at most one term is left. -/
theorem upsample_eq_sum {factorY factorX : Nat} {padY padX : Int} (hy : 0 < factorY) (hx : 0 < factorX) :
    upsample H W factorY factorX padY padX t y x = ∑ i ∈ Finset.range H, ∑ j ∈ Finset.range W,
      if padY + i * factorY = y ∧ padX + j * factorX = x then t i j else 0 := by
  have hcond : ∀ i ∈ Finset.range H, ∀ j ∈ Finset.range W,
      (if padY + i * factorY = y ∧ padX + j * factorX = x then t i j else 0) =
        if gridIndex H factorY padY y = some i then if gridIndex W factorX padX x = some j then t i j else 0 else 0 := by
    intro i hi j hj
    rw [← ite_and]
    refine if_congr (and_congr ?_ ?_) rfl rfl
    · rw [gridIndex_eq_some_iff hy, and_iff_right (Finset.mem_range.mp hi)]
    · rw [gridIndex_eq_some_iff hx, and_iff_right (Finset.mem_range.mp hj)]
  rw [Finset.sum_congr rfl fun i hi => Finset.sum_congr rfl (hcond i hi), upsample]
  cases hi : gridIndex H factorY padY y with
  | none => simp
  | some i =>
    cases hj : gridIndex W factorX padX x with
    | none => simp
    | some j =>
      have hiH := ((gridIndex_eq_some_iff hy).mp hi).1
      have hjW := ((gridIndex_eq_some_iff hx).mp hj).1
      simp [hiH, hjW]

theorem sum_comm₂ {A B C D : Finset Nat} (f : Nat → Nat → Nat → Nat → R) :
    ∑ i ∈ A, ∑ j ∈ B, ∑ k ∈ C, ∑ l ∈ D, f i j k l = ∑ k ∈ C, ∑ l ∈ D, ∑ i ∈ A, ∑ j ∈ B, f i j k l := by
  rw [Finset.sum_congr rfl fun i _ => Finset.sum_comm, Finset.sum_comm]
  refine Finset.sum_congr rfl fun k _ => ?_
  rw [Finset.sum_congr rfl fun i _ => Finset.sum_comm, Finset.sum_comm]

theorem sum_reflect₂ (m n : Nat) (f : Nat → Nat → R) :
    ∑ k ∈ Finset.range m, ∑ l ∈ Finset.range n, f (m - 1 - k) (n - 1 - l) =
      ∑ k ∈ Finset.range m, ∑ l ∈ Finset.range n, f k l := by
  rw [← Finset.sum_range_reflect (fun k => ∑ l ∈ Finset.range n, f k l)]
  exact Finset.sum_congr rfl fun k _ => Finset.sum_range_reflect (f (m - 1 - k)) n

/-- **Convolution behind zero insertion**: with the kernel flipped and the paddings turned around it is the
deconvolution. -/
theorem conv_upsample (hy : 0 < a.stride) (hx : 0 < b.stride) (hdy : ∀ k < a.kernel, k * a.dilation = k)
    (hdx : ∀ k < b.kernel, k * b.dilation = k) {sizeY sizeX : Nat} (hrangeY : y + a.kernel ≤ sizeY)
    (hrangeX : x + b.kernel ≤ sizeX) :
    conv ⟨sizeY, a.kernel, 1, 0, 1⟩ ⟨sizeX, b.kernel, 1, 0, 1⟩ channels
      (fun c => upsample a.size b.size a.stride b.stride (a.kernel - 1 - a.pad) (b.kernel - 1 - b.pad) (input c))
      (fun c ky kx => weight c (a.kernel - 1 - ky) (b.kernel - 1 - kx)) y x = deconv a b channels input weight y x := by
  refine Finset.sum_congr rfl fun c _ => ?_
  rw [sum_comm₂]
  refine Eq.trans ?_ (sum_reflect₂ a.kernel b.kernel _)
  refine Finset.sum_congr rfl fun ky hky => Finset.sum_congr rfl fun kx hkx => ?_
  rw [Finset.mem_range] at hky hkx
  have hread : padded sizeY sizeX (upsample a.size b.size a.stride b.stride (a.kernel - 1 - a.pad)
      (b.kernel - 1 - b.pad) (input c)) (ConvAxis.reads ⟨sizeY, a.kernel, 1, 0, 1⟩ y ky)
        (ConvAxis.reads ⟨sizeX, b.kernel, 1, 0, 1⟩ x kx) =
      upsample a.size b.size a.stride b.stride (a.kernel - 1 - a.pad) (b.kernel - 1 - b.pad) (input c)
        (y + ky) (x + kx) := by
    have hplaceY : ConvAxis.reads ⟨sizeY, a.kernel, 1, 0, 1⟩ y ky = (y + ky : Nat) := by simp [ConvAxis.reads]
    have hplaceX : ConvAxis.reads ⟨sizeX, b.kernel, 1, 0, 1⟩ x kx = (x + kx : Nat) := by simp [ConvAxis.reads]
    rw [padded, hplaceY, hplaceX, if_pos (by omega), Int.toNat_natCast, Int.toNat_natCast]
  dsimp only
  rw [hread, upsample_eq_sum hy hx, Finset.sum_mul]
  refine Finset.sum_congr rfl fun i _ => ?_
  rw [Finset.sum_mul]
  refine Finset.sum_congr rfl fun j _ => ?_
  rw [ite_mul, zero_mul]
  have hkernelY := hdy (a.kernel - 1 - ky) (by omega)
  have hkernelX := hdx (b.kernel - 1 - kx) (by omega)
  refine if_congr (and_congr ?_ ?_) rfl rfl
  · rw [ConvAxis.writes, ← Nat.cast_mul (a.kernel - 1 - ky), hkernelY]
    omega
  · rw [ConvAxis.writes, ← Nat.cast_mul (b.kernel - 1 - kx), hkernelX]
    omega

end OpenVino
