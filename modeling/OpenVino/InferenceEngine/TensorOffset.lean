import OpenVino.InferenceEngine.Layouts

/-!
# Addresses in a tensor

With the strides of `fillDesc` the offset of a coordinate vector is, modulo the range of `size_t`, the number of
its block digits (`offset_eq`). `Fits` says that the blocks of every dimension have room for it; then the digits
determine the coordinates, and as long as the blocks together stay in `size_t` so does the offset
(`offset_injective`).
-/

namespace OpenVino.InferenceEngine

variable {dims order v w : SizeVector} {D s p : SizeVector} {off : Nat}

theorem toSizeT_modEq {n : Nat} : toSizeT n ≡ n [MOD 2 ^ 64] := by
  unfold toSizeT Nat.ModEq
  omega

theorem toSizeT_lt {i : Int} : toSizeT i < 2 ^ 64 := by
  unfold toSizeT
  omega

theorem toSizeT_eq_of_modEq {m k : Nat} (h : m ≡ k [MOD 2 ^ 64]) (hk : k < 2 ^ 64) : toSizeT m = k :=
  Nat.ModEq.eq_of_lt_of_lt (toSizeT_modEq.trans h) toSizeT_lt hk

theorem toSizeT_congr {m k : Nat} (h : m ≡ k [MOD 2 ^ 64]) : toSizeT m = toSizeT k :=
  Nat.ModEq.eq_of_lt_of_lt ((toSizeT_modEq.trans h).trans toSizeT_modEq.symm) toSizeT_lt toSizeT_lt

theorem toSizeT_mul_toSizeT {m n : Nat} : toSizeT (toSizeT m * n : Nat) = toSizeT (m * n : Nat) :=
  toSizeT_congr (toSizeT_modEq.mul_right n)

namespace BlockingDesc

theorem fillStrides_cons_cons {X Y stride : Nat} {strides : SizeVector}
    (h : fillStrides (Y :: D) = stride :: strides) :
    fillStrides (X :: Y :: D) = toSizeT (stride * Y) :: stride :: strides := by
  rw [fillStrides]
  exact h

theorem fillStrides_cons (X : Nat) : ∃ stride, fillStrides (X :: D) = stride :: fillStrides D ∧
    stride ≡ D.prod [MOD 2 ^ 64] ∧ stride < 2 ^ 64 := by
  induction D generalizing X with
  | nil => exact ⟨1, rfl, rfl, by decide⟩
  | cons Y D ih =>
    obtain ⟨stride, hstride, hmod, -⟩ := ih Y
    refine ⟨toSizeT (stride * Y), ?_, ?_, toSizeT_lt⟩
    · rw [fillStrides_cons_cons hstride, hstride]
    · rw [List.prod_cons, Nat.mul_comm Y]
      exact (toSizeT_modEq (n := stride * Y)).trans (hmod.mul_right Y)

theorem length_fillStrides : (fillStrides D).length = D.length := by
  induction D with
  | nil => rfl
  | cons X D ih =>
    obtain ⟨stride, h, -⟩ := fillStrides_cons (D := D) X
    rw [h, List.length_cons, List.length_cons, ih]

end BlockingDesc

namespace TensorDesc

open BlockingDesc (fillStrides fillStrides_cons length_fillStrides)

/-! ### The sum -/

theorem addShifts_modEq {blocks : List (Nat × Nat × Nat)} :
    addShifts off blocks ≡ off + (blocks.map fun b => (b.1 + b.2.1) * b.2.2).sum [MOD 2 ^ 64] := by
  induction blocks generalizing off with
  | nil => rfl
  | cons b blocks ih =>
    obtain ⟨shift, pad, stride⟩ := b
    rw [List.map_cons, List.sum_cons, ← Nat.add_assoc]
    exact ih.trans ((toSizeT_modEq (n := off + (shift + pad) * stride)).add_right _)

theorem addShifts_lt {blocks : List (Nat × Nat × Nat)} (h : blocks ≠ [] ∨ off < 2 ^ 64) :
    addShifts off blocks < 2 ^ 64 := by
  induction blocks generalizing off with
  | nil => exact h.resolve_left fun h => h rfl
  | cons b blocks ih => exact ih (.inr toSizeT_lt)

theorem addShifts_fillStrides (hs : s.length = D.length) (hp : p.length = D.length) :
    addShifts off (s.zip (p.zip (fillStrides D))) ≡ off + (encode D s + encode D p) [MOD 2 ^ 64] := by
  refine addShifts_modEq.trans (Nat.ModEq.add_left off ?_)
  induction D generalizing s p with
  | nil =>
    rw [List.length_eq_zero_iff.mp hs, List.length_eq_zero_iff.mp hp]
    rfl
  | cons X D ih =>
    obtain ⟨x, s, rfl⟩ := List.exists_cons_of_length_eq_add_one hs
    obtain ⟨y, p, rfl⟩ := List.exists_cons_of_length_eq_add_one hp
    obtain ⟨stride, hstrides, hmod, -⟩ := fillStrides_cons (D := D) X
    rw [hstrides, List.zip_cons_cons, List.zip_cons_cons, List.map_cons, List.sum_cons, encode, encode]
    have hhead : (x + y) * stride ≡ x * D.prod + y * D.prod [MOD 2 ^ 64] := by
      rw [← Nat.add_mul]
      exact hmod.mul_left (x + y)
    have htail := ih (Nat.succ.inj hs) (Nat.succ.inj hp)
    have hswap : x * D.prod + encode D s + (y * D.prod + encode D p) =
        x * D.prod + y * D.prod + (encode D s + encode D p) := by omega
    rw [hswap]
    exact hhead.add htail

/-! ### The digits -/

/-- The blocks of every dimension have room for it. -/
def Fits (blocks : List (Nat × Nat)) (dims : SizeVector) : Prop := ∀ d, dims.getD d 0 ≤ blockSize blocks d

theorem coord_lt (hv : v ∈ box dims) (d : Nat) (hd : d < dims.length) : v.getD d 0 < dims.getD d 0 := by
  have hv := List.forall₂_iff_get.mp (mem_box.mp hv)
  rw [List.getD_eq_getElem _ _ (by omega), List.getD_eq_getElem _ _ hd]
  exact hv.2 d (by omega) hd

theorem coord_ext (hv : v ∈ box dims) (hw : w ∈ box dims) (h : ∀ d, v.getD d 0 = w.getD d 0) : v = w := by
  have hlv := (mem_box.mp hv).length_eq
  have hlw := (mem_box.mp hw).length_eq
  apply List.ext_getElem (hlv.trans hlw.symm)
  intro d hdv hdw
  have := h d
  rwa [List.getD_eq_getElem _ _ hdv, List.getD_eq_getElem _ _ hdw] at this

variable {blocks : List (Nat × Nat)}

theorem blockedShift_ok (hpos : ∀ b ∈ blocks, 0 < b.2) (hdims : ∀ b ∈ blocks, b.1 < v.length) :
    ∃ off_v, blockedShift blocks v = .ok ((splitDigits blocks (v.getD · 0)).1, off_v) ∧
      off_v.length = v.length ∧ ∀ d, off_v.getD d 0 = (splitDigits blocks (v.getD · 0)).2 d := by
  induction blocks with
  | nil => exact ⟨v, rfl, rfl, fun _ => rfl⟩
  | cons b blocks ih =>
    obtain ⟨order, dim⟩ := b
    obtain ⟨off_v, hrun, hlen, hrest⟩ := ih (fun c hc => hpos c (List.mem_cons_of_mem _ hc))
      (fun c hc => hdims c (List.mem_cons_of_mem _ hc))
    have hdim : 0 < dim := hpos (order, dim) List.mem_cons_self
    have horder : order < off_v.length := hlen ▸ hdims (order, dim) List.mem_cons_self
    have hx : off_v[order] = (splitDigits blocks (v.getD · 0)).2 order := by
      rw [← hrest, List.getD_eq_getElem _ _ horder]
    refine ⟨off_v.set order (off_v[order] / dim), ?_, ?_, ?_⟩
    · rw [blockedShift, hrun]
      simp [bind, Except.bind, elemAt, horder, hdim.ne', splitDigits, hx, pure, Except.pure]
    · rw [List.length_set, hlen]
    · intro d
      simp only [splitDigits]
      by_cases hd : order = d
      · subst hd
        rw [Function.update_self, ← hx, List.getD_eq_getElem _ _ (by simpa using horder), List.getElem_set_self]
      · rw [Function.update_of_ne (Ne.symm hd), ← hrest, List.getD_eq_getElem?_getD, List.getElem?_set_ne hd,
          List.getD_eq_getElem?_getD]

/-- A block of a dimension that fits is not empty when there is a coordinate. -/
theorem blocks_pos (hfits : Fits blocks dims) (hdims : ∀ b ∈ blocks, b.1 < dims.length) (hv : v ∈ box dims) :
    ∀ b ∈ blocks, 0 < b.2 := by
  intro b hb
  apply Nat.pos_of_ne_zero
  intro hzero
  have hsize : blockSize blocks b.1 = 0 := by
    apply List.prod_eq_zero
    exact List.mem_map.mpr ⟨b, List.mem_filter.mpr ⟨hb, decide_eq_true rfl⟩, hzero⟩
  have hlt := coord_lt hv b.1 (hdims b hb)
  have hle := hfits b.1
  omega

theorem digits_injective (hfits : Fits blocks dims) (hdims : ∀ b ∈ blocks, b.1 < dims.length)
    (hv : v ∈ box dims) (hw : w ∈ box dims)
    (h : (splitDigits blocks (v.getD · 0)).1 = (splitDigits blocks (w.getD · 0)).1) : v = w := by
  have hbelow : ∀ u ∈ box dims, ∀ d, u.getD d 0 < blockSize blocks d := by
    intro u hu d
    by_cases hd : d < dims.length
    · exact (coord_lt hu d hd).trans_le (hfits d)
    · have hlen := (mem_box.mp hu).length_eq
      rw [List.getD_eq_default _ _ (by omega)]
      exact blockSize_pos (blocks_pos hfits hdims hv)
  exact coord_ext hv hw fun d => congrFun (eq_of_digits_eq (hbelow v hv) (hbelow w hw) h) d

/-! ### The offset -/

/-- The strides are those of `fillDesc`. -/
structure Dense (t : TensorDesc) : Prop where
  layout : t.layout ≠ .ANY ∧ t.layout ≠ .SCALAR
  order : t.blockingDesc.order.length = t.blockingDesc.blockedDims.length
  strides : t.blockingDesc.strides = fillStrides t.blockingDesc.blockedDims
  offsets : t.blockingDesc.offsetPaddingToData.length = t.blockingDesc.blockedDims.length

/-- The dimensions and the sizes of the blocks. -/
def radices (t : TensorDesc) : List (Nat × Nat) := t.blockingDesc.order.zip t.blockingDesc.blockedDims

/-- The digits of a coordinate vector in the blocks. -/
def digits (t : TensorDesc) (v : SizeVector) : List Nat := (splitDigits t.radices (v.getD · 0)).1

variable {t : TensorDesc} {a : Nat}

theorem Dense.map_snd_radices (ht : t.Dense) : t.radices.map Prod.snd = t.blockingDesc.blockedDims :=
  List.map_snd_zip ht.order.ge

theorem Dense.digits_lt (ht : t.Dense) (hpos : ∀ b ∈ t.radices, 0 < b.2) :
    List.Forall₂ (· < ·) (t.digits v) t.blockingDesc.blockedDims := by
  have h := splitDigits_lt (v := (v.getD · 0)) hpos
  rwa [ht.map_snd_radices] at h

theorem Dense.offset_eq (ht : t.Dense) (hpos : ∀ b ∈ t.radices, 0 < b.2) (hdims : ∀ b ∈ t.radices, b.1 < v.length) :
    ∃ a, t.offset v = .ok a ∧
      a ≡ t.blockingDesc.offsetPadding + (encode t.blockingDesc.blockedDims (t.digits v) +
        encode t.blockingDesc.blockedDims t.blockingDesc.offsetPaddingToData) [MOD 2 ^ 64] ∧
      (t.blockingDesc.blockedDims ≠ [] ∨ t.blockingDesc.offsetPadding < 2 ^ 64 → a < 2 ^ 64) := by
  obtain ⟨off_v, hrun, -, -⟩ := blockedShift_ok hpos hdims
  have hdigits := (ht.digits_lt (v := v) hpos).length_eq
  have hsize : t.blockingDesc.strides.length = t.blockingDesc.order.length := by
    rw [ht.strides, length_fillStrides, ht.order]
  refine ⟨addShifts t.blockingDesc.offsetPadding
    ((t.digits v).zip (t.blockingDesc.offsetPaddingToData.zip t.blockingDesc.strides)), ?_, ?_, ?_⟩
  · rw [offset, if_neg ht.layout.1, if_neg ht.layout.2, if_neg (by rw [hsize, ht.order]; simp)]
    rw [radices] at hrun
    rw [hrun]
    simp [bind, Except.bind, ht.order, ht.offsets, digits, radices, pure, Except.pure]
  · rw [ht.strides]
    exact addShifts_fillStrides hdigits ht.offsets
  · intro h
    apply addShifts_lt
    refine h.imp_left fun hne hzip => hne ?_
    apply List.eq_nil_of_length_eq_zero
    have := congrArg List.length hzip
    rw [List.length_zip, List.length_zip, hdigits, ht.offsets, ht.strides, length_fillStrides, min_self, min_self]
      at this
    exact this

/-- While the blocks together stay in `size_t`, an offset belongs to one coordinate vector. -/
theorem Dense.offset_injective (ht : t.Dense) (hfits : Fits t.radices dims)
    (hdims : ∀ b ∈ t.radices, b.1 < dims.length) (hprod : t.blockingDesc.blockedDims.prod ≤ 2 ^ 64)
    (hv : v ∈ box dims) (hw : w ∈ box dims) (hva : t.offset v = .ok a) (hwa : t.offset w = .ok a) : v = w := by
  have hpos := blocks_pos hfits hdims hv
  have hin : ∀ u ∈ box dims, ∀ b ∈ t.radices, b.1 < u.length := fun u hu b hb =>
    (mem_box.mp hu).length_eq ▸ hdims b hb
  obtain ⟨_, hva', hvmod, -⟩ := ht.offset_eq hpos (hin v hv)
  obtain ⟨_, hwa', hwmod, -⟩ := ht.offset_eq hpos (hin w hw)
  obtain rfl := Except.ok.inj (hva.symm.trans hva')
  obtain rfl := Except.ok.inj (hwa.symm.trans hwa')
  have hvlt := encode_lt (ht.digits_lt (v := v) hpos)
  have hwlt := encode_lt (ht.digits_lt (v := w) hpos)
  have hmod := (hvmod.symm.trans hwmod).add_left_cancel' _ |>.add_right_cancel' _
  have heq : encode _ (t.digits v) = encode _ (t.digits w) :=
    Nat.ModEq.eq_of_lt_of_lt hmod (hvlt.trans_le hprod) (hwlt.trans_le hprod)
  apply digits_injective hfits hdims hv hw
  rw [← digits, ← digits, ← decode_encode (ht.digits_lt (v := v) hpos), heq,
    decode_encode (ht.digits_lt (v := w) hpos)]

theorem encode_replicate_zero : encode D (List.replicate D.length 0) = 0 := by
  induction D with
  | nil => rfl
  | cons X D ih => rw [List.length_cons, List.replicate_succ, encode, ih, Nat.zero_mul]

/-- Without offsets of the dimensions every offset is inside the blocks. -/
theorem Dense.offset_mem (ht : t.Dense) (hfits : Fits t.radices dims) (hdims : ∀ b ∈ t.radices, b.1 < dims.length)
    (hzero : t.blockingDesc.offsetPaddingToData = List.replicate t.blockingDesc.blockedDims.length 0)
    (hprod : t.blockingDesc.offsetPadding + t.blockingDesc.blockedDims.prod ≤ 2 ^ 64)
    (hv : v ∈ box dims) (hva : t.offset v = .ok a) :
    t.blockingDesc.offsetPadding ≤ a ∧
      a < t.blockingDesc.offsetPadding + t.blockingDesc.blockedDims.prod := by
  have hpos := blocks_pos hfits hdims hv
  obtain ⟨_, hva', hmod, hlt⟩ := ht.offset_eq hpos fun b hb => (mem_box.mp hv).length_eq ▸ hdims b hb
  obtain rfl := Except.ok.inj (hva.symm.trans hva')
  have hdigits := encode_lt (ht.digits_lt (v := v) hpos)
  rw [hzero, encode_replicate_zero, Nat.add_zero] at hmod
  have hpad : t.blockingDesc.offsetPadding < 2 ^ 64 := by omega
  have heq := Nat.ModEq.eq_of_lt_of_lt hmod (hlt (.inr hpad)) (by omega)
  omega

theorem position_eq {l : Nat} (hpos : ∀ X ∈ dims, 0 < X) :
    position dims l = .ok (decode dims l, l / dims.prod) := by
  induction dims with
  | nil => simp [position, decode, pure, Except.pure]
  | cons X dims ih =>
    rw [position, ih fun Y hY => hpos Y (List.mem_cons_of_mem _ hY)]
    have hX : X ≠ 0 := (hpos X List.mem_cons_self).ne'
    simp [bind, Except.bind, hX, decode, pure, Except.pure, Nat.div_div_eq_div_mul, Nat.mul_comm]

theorem offsetAt_eq {l : Nat} (hl : l < t.dims.prod) : t.offsetAt l = t.offset (decode t.dims l) := by
  have hpos : ∀ X ∈ t.dims, 0 < X := by
    intro X hX
    apply Nat.pos_of_ne_zero
    rintro rfl
    rw [List.prod_eq_zero hX] at hl
    exact Nat.not_lt_zero l hl
  rw [offsetAt, position_eq hpos]
  rfl

/-! ### Descriptors from dimensions, blocks and an order -/

section OfBlocking

variable {precision : Precision} {blocked_dims dimOffsets : SizeVector} {offsetPadding : Nat} {d : BlockingDesc}

/-- A descriptor with blocks is dense, and one without them describes a single element. -/
theorem dense_or_scalar (hd : BlockingDesc.ofOffset blocked_dims order offsetPadding = .ok d ∨
      BlockingDesc.ofDimOffsets blocked_dims order offsetPadding dimOffsets = .ok d)
    (ht : ofBlocking precision dims d = .ok t) (horder : ∀ i, i ∈ order ↔ i < dims.length)
    (hfits : Fits (order.zip blocked_dims) dims) :
    t.dims = dims ∧ t.blockingDesc = d ∧ d.offsetPadding = offsetPadding ∧
      (t.Dense ∧ d.blockedDims = blocked_dims ∧ d.order = order ∧ blocked_dims ≠ [] ∨
        t.layout = .SCALAR ∧ d.blockedDims = [] ∧ Fits [] dims) := by
  obtain ⟨d₀, hd₀, hd, hpad⟩ := BlockingDesc.ofOrder_of_ofOffset hd
  have hoff : d.offsetPadding = offsetPadding := by rw [hd]
  rcases ofBlocking_ok ht with ⟨hnil, rfl⟩ | ⟨hne, -, rfl⟩
  · refine ⟨rfl, rfl, hoff, .inr ⟨rfl, ?_⟩⟩
    rcases BlockingDesc.ofOrder_ok hd₀ with ⟨hnil₀, rfl⟩ | ⟨hlen, hblocked, rfl⟩
    · refine ⟨by rw [hd], ?_⟩
      have hzip : order.zip blocked_dims = [] := by
        rw [List.zip_eq_nil_iff]
        exact hnil₀.symm
      rwa [hzip] at hfits
    · have hdims : dims = [] := hnil.resolve_right (by rw [hd]; exact hblocked)
      subst hdims
      have horder : order = [] := List.eq_nil_iff_forall_not_mem.mpr fun i hi =>
        Nat.not_lt_zero i ((horder i).mp hi)
      rw [horder] at hlen
      exact absurd (List.length_eq_zero_iff.mp hlen.symm) hblocked
  · rcases BlockingDesc.ofOrder_ok hd₀ with ⟨-, rfl⟩ | ⟨hlen, hblocked, rfl⟩
    · exact absurd (by rw [hd]) hne.2
    · refine ⟨rfl, rfl, hoff, .inl ⟨?_, by rw [hd]; rfl, by rw [hd]; rfl, hblocked⟩⟩
      refine ⟨detectLayout_ne, ?_, ?_, ?_⟩
      · rw [hd]
        exact hlen
      · rw [hd]
        rfl
      · have hlen' := hpad (by simp [BlockingDesc.filled, hlen])
        rw [hd] at hlen' ⊢
        exact hlen'

/-- **Addressing a tensor.** A coordinate vector inside the dimensions has an offset. While the blocks together
stay in `size_t` no other coordinate vector has it, and the offset is inside the blocks, which begin at
`offsetPadding`; the number of an element has the offset of its coordinates. -/
theorem offset_correct (hd : BlockingDesc.ofOffset blocked_dims order offsetPadding = .ok d ∨
      BlockingDesc.ofDimOffsets blocked_dims order offsetPadding dimOffsets = .ok d)
    (ht : ofBlocking precision dims d = .ok t) (horder : ∀ i, i ∈ order ↔ i < dims.length)
    (hfits : Fits (order.zip blocked_dims) dims) :
    (∀ v ∈ box dims, ∃ a, t.offset v = .ok a) ∧
    (d.blockedDims.prod ≤ 2 ^ 64 → ∀ v ∈ box dims, ∀ w ∈ box dims, t.offset v = t.offset w → v = w) ∧
    ((∀ o ∈ d.offsetPaddingToData, o = 0) → offsetPadding + d.blockedDims.prod ≤ 2 ^ 64 →
      ∀ v ∈ box dims, ∀ a, t.offset v = .ok a →
        offsetPadding ≤ a ∧ a < offsetPadding + d.blockedDims.prod) ∧
    ∀ l < dims.prod, t.offsetAt l = t.offset (decode dims l) := by
  obtain ⟨rfl, rfl, rfl, hcase⟩ := dense_or_scalar hd ht horder hfits
  have hat : ∀ l < t.dims.prod, t.offsetAt l = t.offset (decode t.dims l) := fun l => offsetAt_eq
  rcases hcase with ⟨hdense, hblocked, hord, -⟩ | ⟨hscalar, hnil, hfits⟩
  · rw [← hblocked, ← hord] at hfits
    have hin : ∀ b ∈ t.radices, b.1 < t.dims.length := by
      intro b hb
      apply (horder b.1).mp
      rw [← hord]
      exact (List.of_mem_zip hb).1
    have hok : ∀ v ∈ box t.dims, ∃ a, t.offset v = .ok a := by
      intro v hv
      have hlen := (mem_box.mp hv).length_eq
      obtain ⟨a, ha, -⟩ := hdense.offset_eq (blocks_pos hfits hin hv) fun b hb => hlen ▸ hin b hb
      exact ⟨a, ha⟩
    refine ⟨hok, ?_, ?_, hat⟩
    · intro hprod v hv w hw h
      obtain ⟨a, ha⟩ := hok v hv
      exact hdense.offset_injective hfits hin hprod hv hw ha (h ▸ ha)
    · intro hzero hprod v hv a ha
      have hreplicate := List.eq_replicate_iff.mpr ⟨hdense.offsets, hzero⟩
      exact hdense.offset_mem hfits hin hreplicate hprod hv ha
  · have hoffset : ∀ v, t.offset v = .ok t.blockingDesc.offsetPadding := by
      intro v
      simp [offset, hscalar, pure, Except.pure]
    have hzero : ∀ v ∈ box t.dims, ∀ i, v.getD i 0 = 0 := by
      intro v hv i
      by_cases hi : i < t.dims.length
      · have hlt := coord_lt hv i hi
        have hle : t.dims.getD i 0 ≤ 1 := hfits i
        omega
      · have hlen := (mem_box.mp hv).length_eq
        exact List.getD_eq_default _ _ (by omega)
    refine ⟨fun v _ => ⟨_, hoffset v⟩, ?_, ?_, hat⟩
    · intro _ v hv w hw _
      exact coord_ext hv hw fun i => (hzero v hv i).trans (hzero w hw i).symm
    · intro _ _ v _ a ha
      rw [hoffset v] at ha
      rw [← Except.ok.inj ha, hnil, List.prod_nil]
      omega

/-- A `2 x 16` tensor whose second dimension is cut into two blocks of eight. -/
def blockedExample : TensorDesc where
  layout := .BLOCKED
  dims := [2, 16]
  precision := .FP32
  blockingDesc := { BlockingDesc.filled [2, 2, 8] [0, 1, 1] with offsetPadding := 3 }

theorem offset_correct_blocked : (∀ v ∈ box [2, 16], ∃ a, blockedExample.offset v = .ok a) ∧
    ∀ v ∈ box [2, 16], ∀ a, blockedExample.offset v = .ok a → 3 ≤ a ∧ a < 35 := by
  have hd : BlockingDesc.ofOffset [2, 2, 8] [0, 1, 1] 3 = .ok blockedExample.blockingDesc ∨
      BlockingDesc.ofDimOffsets [2, 2, 8] [0, 1, 1] 3 [] = .ok blockedExample.blockingDesc := .inl rfl
  have horder : ∀ i, i ∈ [0, 1, 1] ↔ i < [2, 16].length := by
    intro i
    simp only [List.mem_cons, List.not_mem_nil, or_false, List.length_cons, List.length_nil]
    omega
  have hfits : Fits ([0, 1, 1].zip [2, 2, 8]) [2, 16] := by
    rintro (_ | _ | i)
    · decide
    · decide
    · simp
  have hcorrect := offset_correct (t := blockedExample) hd rfl horder hfits
  exact ⟨hcorrect.1, hcorrect.2.2.1 (by decide) (by decide)⟩

/-- With more than `2 ^ 64` elements two of them share an offset. -/
theorem not_offset_injective_of_wrap : ∃ d t,
    BlockingDesc.ofOffset [2 ^ 33, 2 ^ 33] [0, 1] 0 = .ok d ∧ ofBlocking .U8 [2 ^ 33, 2 ^ 33] d = .ok t ∧
    (∀ i, i ∈ [0, 1] ↔ i < 2) ∧ Fits ([0, 1].zip [2 ^ 33, 2 ^ 33]) [2 ^ 33, 2 ^ 33] ∧
    [0, 0] ∈ box [2 ^ 33, 2 ^ 33] ∧ [2 ^ 31, 0] ∈ box [2 ^ 33, 2 ^ 33] ∧
    t.offset [0, 0] = .ok 0 ∧ t.offset [2 ^ 31, 0] = .ok 0 := by
  refine ⟨_, _, rfl, rfl, ?_, ?_, ?_, ?_, rfl, rfl⟩
  · intro i
    simp only [List.mem_cons, List.not_mem_nil, or_false]
    omega
  · rintro (_ | _ | i)
    · decide
    · decide
    · simp
  · rw [mem_box]
    exact .cons (by decide) (.cons (by decide) .nil)
  · rw [mem_box]
    exact .cons (by decide) (.cons (by decide) .nil)

end OfBlocking

end TensorDesc

end OpenVino.InferenceEngine
