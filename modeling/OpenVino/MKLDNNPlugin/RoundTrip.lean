import OpenVino.InferenceEngine.StridedOffset
import OpenVino.MKLDNNPlugin.MemoryDesc

/-!
# Memory descriptors there and back

A tensor of one of the layouts NCHW, NHWC, NCDHW, NDHWC and CHW becomes a `MKLDNNMemoryDesc`, and this a tensor
again. `roundTrip_iff`: the way succeeds and keeps the offset of every coordinate vector if and only if the strides
of the packed tensor fit into `ptrdiff_t` and the tensor is one of those whose strides survive.
-/

namespace OpenVino.MKLDNNPlugin

open InferenceEngine (SizeVector toSizeT elemAt TensorDesc Precision Layout)

/-! ### Packed strides -/

def packedStrides : SizeVector → SizeVector
  | [] => []
  | _ :: D => D.prod :: packedStrides D

variable {D s : SizeVector} {n : Nat}

theorem length_packedStrides : (packedStrides D).length = D.length := by
  induction D with
  | nil => rfl
  | cons X D ih => rw [packedStrides, List.length_cons, List.length_cons, ih]

theorem toPtrdiff_of_lt (h : n < 2 ^ 63) : toPtrdiff n = n := by
  unfold toPtrdiff
  apply Int.bmod_eq_of_le <;> omega

theorem toSizeT_toPtrdiff (h : n < 2 ^ 64) : toSizeT (toPtrdiff n) = n := by
  unfold toSizeT toPtrdiff
  rw [← Nat.cast_ofNat (R := Int), ← Nat.cast_pow, Int.bmod_emod]
  omega

theorem toPtrdiff_neg (h : 2 ^ 63 ≤ n) (hlt : n < 2 ^ 64) : toPtrdiff n < 0 := by
  unfold toPtrdiff
  have hdef := @Int.bmod_def n (2 ^ 64)
  rw [hdef, if_neg]
  · omega
  · omega

/-- What is multiplied to get the next stride. -/
def overflow : String := "strides[prev_idx] * nstl::max((ptrdiff_t)1, dims[prev_idx])"

theorem defaultStrides_cons {dim prev : Int} {dims strides : List Int} (hdim : dim ≠ 0)
    (h : defaultStrides (prev :: dims) = .ok strides) : defaultStrides (dim :: prev :: dims) =
      (ptrdiffArith overflow (strides.headD 0 * max 1 prev)).map (· :: strides) := by
  rw [defaultStrides, h, overflow]
  simp only [bind, Except.bind, if_neg hdim]
  cases ptrdiffArith _ _ <;> rfl

theorem mul_max_one {X Y : Nat} (hY : 0 < Y) : (X : Int) * max 1 (Y : Int) = ((Y * X : Nat) : Int) := by
  rw [max_eq_right (by omega), Nat.cast_mul, mul_comm]

theorem defaultStrides_ok (hpos : ∀ d ∈ D, 0 < d) (hfit : D.tail.prod < 2 ^ 63) :
    defaultStrides (D.map Nat.cast) = .ok ((packedStrides D).map Nat.cast) := by
  induction D with
  | nil => rfl
  | cons X D ih =>
    cases D with
    | nil => rfl
    | cons Y D =>
      have hY : 0 < Y := hpos Y (by simp)
      have hX : (X : Int) ≠ 0 := by exact_mod_cast (hpos X List.mem_cons_self).ne'
      rw [List.tail_cons, List.prod_cons] at hfit
      have hD : D.prod < 2 ^ 63 := (Nat.le_mul_of_pos_left _ hY).trans_lt hfit
      have ih := ih (fun d hd => hpos d (List.mem_cons_of_mem _ hd)) hD
      have hfits : FitsPtrdiff ((Y * D.prod : Nat) : Int) := ⟨by omega, by exact_mod_cast hfit⟩
      rw [List.map_cons, List.map_cons, defaultStrides_cons hX ih, packedStrides, List.map_cons, List.headD_cons,
        mul_max_one hY, ptrdiffArith, if_pos hfits, packedStrides, packedStrides, List.prod_cons]
      rfl

theorem defaultStrides_overflow (hpos : ∀ d ∈ D, 0 < d) (hfit : 2 ^ 63 ≤ D.tail.prod) :
    ∃ e, defaultStrides (D.map Nat.cast) = .error e := by
  induction D with
  | nil => simp at hfit
  | cons X D ih =>
    cases D with
    | nil => simp at hfit
    | cons Y D =>
      have hY : 0 < Y := hpos Y (by simp)
      have hX : (X : Int) ≠ 0 := by exact_mod_cast (hpos X List.mem_cons_self).ne'
      have hposD : ∀ d ∈ Y :: D, 0 < d := fun d hd => hpos d (List.mem_cons_of_mem _ hd)
      rw [List.tail_cons, List.prod_cons] at hfit
      by_cases hD : D.prod < 2 ^ 63
      · have hok := defaultStrides_ok hposD hD
        have hnot : ¬ FitsPtrdiff ((Y * D.prod : Nat) : Int) := by
          have hfit' : (2 : Int) ^ 63 ≤ ((Y * D.prod : Nat) : Int) := by exact_mod_cast hfit
          rintro ⟨-, hlt⟩
          omega
        refine ⟨.undefinedBehaviour overflow, ?_⟩
        rw [List.map_cons, List.map_cons, defaultStrides_cons hX hok, packedStrides, List.map_cons,
          List.headD_cons, mul_max_one hY, ptrdiffArith, if_neg hnot]
        rfl
      · obtain ⟨e, he⟩ := ih hposD (by rw [List.tail_cons]; omega)
        refine ⟨e, ?_⟩
        rw [List.map_cons] at he
        rw [List.map_cons, List.map_cons, defaultStrides, he]
        rfl

/-- Without wrapping the strides of `fillDesc` are the packed ones. -/
theorem fillStrides_eq (hpos : ∀ d ∈ D, 0 < d) (hfit : D.tail.prod < 2 ^ 64) :
    InferenceEngine.BlockingDesc.fillStrides D = packedStrides D := by
  induction D with
  | nil => rfl
  | cons X D ih =>
    obtain ⟨stride, hstrides, hmod, hlt⟩ := InferenceEngine.BlockingDesc.fillStrides_cons (D := D) X
    rw [List.tail_cons] at hfit
    have hposD : ∀ d ∈ D, 0 < d := fun d hd => hpos d (List.mem_cons_of_mem _ hd)
    have htail : D.tail.prod < 2 ^ 64 := by
      cases D with
      | nil => simp
      | cons Y D =>
        rw [List.prod_cons] at hfit
        exact (Nat.le_mul_of_pos_left _ (hposD Y List.mem_cons_self)).trans_lt hfit
    rw [hstrides, packedStrides, ih hposD htail, Nat.ModEq.eq_of_lt_of_lt hmod hlt hfit]

/-! ### The test for packed strides -/

namespace MKLDNNMemoryDesc

/-- The stride that the loop expects after the blocks of a list. -/
def expected (D : SizeVector) : Nat := D.foldl (fun (c d : Nat) => toSizeT (c * d)) 1

theorem fillStrides_cons_expected (X : Nat) :
    InferenceEngine.BlockingDesc.fillStrides (X :: D) =
      expected D.reverse :: InferenceEngine.BlockingDesc.fillStrides D := by
  induction D generalizing X with
  | nil => rfl
  | cons Y D ih =>
    rw [InferenceEngine.BlockingDesc.fillStrides_cons_cons (ih Y), List.reverse_cons, ih Y, expected, expected,
      List.foldl_append]
    rfl

theorem notDefaultLoop_append {l : List (Nat × Nat × Nat)} {c offset stride dim : Nat} :
    notDefaultLoop c (l ++ [(offset, stride, dim)]) = true ↔ notDefaultLoop c l = true ∨ offset ≠ 0 ∨
      stride ≠ l.foldl (fun c b => toSizeT (c * b.2.2)) c := by
  induction l generalizing c with
  | nil =>
    simp only [List.nil_append, notDefaultLoop, List.foldl_nil]
    split_ifs <;> simp_all
  | cons b l ih =>
    obtain ⟨offset', stride', dim'⟩ := b
    rw [List.cons_append, notDefaultLoop, notDefaultLoop, List.foldl_cons]
    split_ifs
    · simp
    · simp
    · exact ih

theorem notDefaultLoop_reverse (h : s.length = D.length) :
    notDefaultLoop 1 ((s.zip D).reverse.map fun p => (0, p.1, p.2)) = true ↔
      s ≠ InferenceEngine.BlockingDesc.fillStrides D := by
  induction D generalizing s with
  | nil =>
    rw [List.length_eq_zero_iff.mp h]
    simp [notDefaultLoop, InferenceEngine.BlockingDesc.fillStrides]
  | cons X D ih =>
    obtain ⟨x, s, rfl⟩ := List.exists_cons_of_length_eq_add_one h
    have hlen : s.length = D.length := Nat.succ.inj h
    have hexpected : ((s.zip D).reverse.map fun p => (0, p.1, p.2)).foldl (fun c b => toSizeT (c * b.2.2)) 1 =
        expected D.reverse := by
      rw [List.foldl_map, expected]
      conv_rhs => rw [← List.map_snd_zip hlen.ge, ← List.map_reverse, List.foldl_map]
    rw [List.zip_cons_cons, List.reverse_cons, List.map_append, List.map_singleton, notDefaultLoop_append,
      ih hlen, hexpected, fillStrides_cons_expected]
    simp only [ne_eq, List.cons.injEq]
    tauto

theorem notDefault_iff {desc : InferenceEngine.BlockingDesc}
    (hoffsets : desc.offsetPaddingToData = List.replicate desc.blockedDims.length 0)
    (hlen : desc.strides.length = desc.blockedDims.length) :
    notDefault desc = true ↔ desc.strides ≠ InferenceEngine.BlockingDesc.fillStrides desc.blockedDims := by
  rw [← notDefaultLoop_reverse hlen, notDefault, hoffsets]
  have hzip : (List.replicate desc.blockedDims.length 0).zip (desc.strides.reverse.zip desc.blockedDims.reverse) =
      (desc.strides.zip desc.blockedDims).reverse.map fun p => (0, p.1, p.2) := by
    apply List.ext_getElem
    · simp [hlen]
    · intro i _ _
      simp [hlen]
  rw [hzip]

/-! ### The tensors -/

/-- The layouts and the orders that go with them. -/
def Ordered (layout : Layout) (order : SizeVector) : Prop :=
  layout = .NCHW ∧ order = [0, 1, 2, 3] ∨ layout = .NHWC ∧ order = [0, 2, 3, 1] ∨
    layout = .NCDHW ∧ order = [0, 1, 2, 3, 4] ∨ layout = .NDHWC ∧ order = [0, 2, 3, 4, 1] ∨
    layout = .CHW ∧ order.Perm [0, 1, 2]

/-- A tensor of one of these layouts with any strides. -/
structure Strided (t : TensorDesc) : Prop where
  precision : t.precision ∈ [.FP32, .U8, .I8, .I16, .I32, .BIN]
  layout : Ordered t.layout t.blockingDesc.order
  rank : t.dims.length = t.blockingDesc.order.length
  pos : ∀ d ∈ t.dims, 0 < d
  lt : ∀ d ∈ t.dims, d < 2 ^ 64
  blocks : t.blockingDesc.blockedDims = t.blockingDesc.order.map (t.dims.getD · 0)
  strides : t.blockingDesc.strides.length = t.blockingDesc.order.length
  strides_lt : ∀ s ∈ t.blockingDesc.strides, s < 2 ^ 64
  offsets : t.blockingDesc.offsetPaddingToData = List.replicate t.blockingDesc.order.length 0
  padding : t.blockingDesc.offsetPadding < 2 ^ 64

/-- The format pads the channels. -/
def Padded (t : TensorDesc) : Prop := t.layout = .NHWC ∧ t.precision = .BIN

instance (t : TensorDesc) : Decidable (Padded t) := inferInstanceAs (Decidable (_ ∧ _))

/-- The order of the dimensions in the format. -/
def formatOrder (t : TensorDesc) : SizeVector :=
  if formatOf t = .blocked then List.range t.dims.length else t.blockingDesc.order

/-- The dimensions as the format has them. -/
def paddedDims (t : TensorDesc) : SizeVector :=
  if Padded t then t.dims.set 1 ((t.dims.getD 1 0 + 7) / 8 * 8) else t.dims

/-- The dimensions in the order of the format. -/
def formatDims (t : TensorDesc) : SizeVector := (formatOrder t).map ((paddedDims t).getD · 0)

/-- The dimensions and the strides of the packed tensor are values of `ptrdiff_t`. -/
def Fillable (t : TensorDesc) : Prop :=
  (∀ d ∈ t.dims, d < 2 ^ 63) ∧ (Padded t → t.dims.getD 1 0 + 7 < 2 ^ 63) ∧ (formatDims t).tail.prod < 2 ^ 63

variable {t : TensorDesc} {dt : DataType}

/-- The six formats without blocks and the orders that MKL-DNN fills them with. -/
def FormatOrder (format : Format) (perm : List Nat) : Prop :=
  format = .nchw ∧ perm = [0, 1, 2, 3] ∨ format = .nhwc ∧ perm = [0, 2, 3, 1] ∨
    format = .ncdhw ∧ perm = [0, 1, 2, 3, 4] ∨ format = .ndhwc ∧ perm = [0, 2, 3, 4, 1] ∨
    format = .tnc ∧ perm = [0, 1, 2] ∨ format = .ntc ∧ perm = [1, 0, 2]

theorem Strided.formatOrder (ht : Strided t) (hformat : formatOf t ≠ .blocked) :
    FormatOrder (formatOf t) t.blockingDesc.order := by
  rcases ht.layout with ⟨h, ho⟩ | ⟨h, ho⟩ | ⟨h, ho⟩ | ⟨h, ho⟩ | ⟨h, -⟩
  · simp [FormatOrder, formatOf, h, ho]
  · simp [FormatOrder, formatOf, h, ho]
  · simp [FormatOrder, formatOf, h, ho]
  · simp [FormatOrder, formatOf, h, ho]
  · by_cases hid : t.blockingDesc.order = [0, 1, 2]
    · simp [FormatOrder, formatOf, h, hid]
    · by_cases hswap : t.blockingDesc.order = [1, 0, 2]
      · simp [FormatOrder, formatOf, h, hswap]
      · simp [formatOf, h, hid, hswap] at hformat

theorem Strided.blocked (ht : Strided t) (hformat : formatOf t = .blocked) :
    t.layout = .CHW ∧ t.dims.length = 3 := by
  have hrank := ht.rank
  rcases ht.layout with ⟨h, ho⟩ | ⟨h, ho⟩ | ⟨h, ho⟩ | ⟨h, ho⟩ | ⟨h, ho⟩
  · simp [formatOf, h] at hformat
  · simp [formatOf, h] at hformat
  · simp [formatOf, h] at hformat
  · simp [formatOf, h] at hformat
  · exact ⟨h, hrank.trans ho.length_eq⟩

/-! ### Filling the descriptor -/

theorem compute_blocking_eq {md : MemoryDesc} {perm : List Nat} (h : FormatOrder md.format perm)
    (hlen : md.dims.length = perm.length) : md.compute_blocking = md.fill_nonblocked perm := by
  rcases h with ⟨h, rfl⟩ | ⟨h, rfl⟩ | ⟨h, rfl⟩ | ⟨h, rfl⟩ | ⟨h, rfl⟩ | ⟨h, rfl⟩ <;>
    simp only [List.length_cons, List.length_nil] at hlen <;> simp [MemoryDesc.compute_blocking, h, hlen]

theorem rnd_up_eq {a b : Nat} (hb : 0 < b) : rnd_up a b =
    if a + b - 1 < 2 ^ 63 then .ok (((a + b - 1) / b * b : Nat) : Int)
    else .error (.undefinedBehaviour "a + b - 1") := by
  have hcast : (a : Int) + b - 1 = ((a + b - 1 : Nat) : Int) := by omega
  rw [rnd_up, hcast, ptrdiffArith]
  by_cases h : a + b - 1 < 2 ^ 63
  · have hfits : FitsPtrdiff ((a + b - 1 : Nat) : Int) := ⟨by omega, by exact_mod_cast h⟩
    rw [if_pos hfits, if_pos h]
    simp [bind, Except.bind, pure, Except.pure]
  · have hnot : ¬ FitsPtrdiff ((a + b - 1 : Nat) : Int) := fun hfits => h (by exact_mod_cast hfits.2)
    rw [if_neg hnot, if_neg h]
    rfl

/-- The dimensions that the strides are computed from. -/
theorem padding_dims_eq (ht : Strided t) (hdt : dataTypeOf t.precision = .ok dt) (hlt : ∀ d ∈ t.dims, d < 2 ^ 63) :
    (if formatOf t = .nhwc ∧ dt = .bin then
      ((t.dims.map Nat.cast).zip [1, 8, 1, 1]).mapM fun (dim, block) => rnd_up dim block
      else pure (t.dims.map Nat.cast)) =
    if Padded t → t.dims.getD 1 0 + 7 < 2 ^ 63 then .ok ((paddedDims t).map Nat.cast)
    else .error (.undefinedBehaviour "a + b - 1") := by
  have hpadded : formatOf t = .nhwc ∧ dt = .bin ↔ Padded t := by
    have hlayout : formatOf t = .nhwc ↔ t.layout = .NHWC := by
      rcases ht.layout with ⟨h, ho⟩ | ⟨h, ho⟩ | ⟨h, ho⟩ | ⟨h, ho⟩ | ⟨h, ho⟩ <;> simp only [formatOf, h, reduceCtorEq]
      split_ifs <;> simp
    have hbin : dt = .bin ↔ t.precision = .BIN := by
      cases hprecision : t.precision <;> rw [hprecision] at hdt <;>
        simp [dataTypeOf, throwException, pure, Except.pure] at hdt <;> simp [← hdt]
    rw [hlayout, hbin, Padded]
  by_cases hp : Padded t
  · rw [if_pos (hpadded.mpr hp), paddedDims, if_pos hp]
    have hlen : t.dims.length = 4 := by
      rcases ht.layout with ⟨h, ho⟩ | ⟨h, ho⟩ | ⟨h, ho⟩ | ⟨h, ho⟩ | ⟨h, ho⟩
      · rw [ht.rank, ho]; rfl
      · rw [ht.rank, ho]; rfl
      · rw [hp.1] at h; cases h
      · rw [hp.1] at h; cases h
      · rw [hp.1] at h; cases h
    obtain ⟨a, b, c, d, hdims⟩ := List.length_eq_four.mp hlen
    rw [hdims] at hlt ⊢
    have ha : a < 2 ^ 63 := hlt a (by simp)
    have hc : c < 2 ^ 63 := hlt c (by simp)
    have hd : d < 2 ^ 63 := hlt d (by simp)
    have hone : ∀ x : Nat, x < 2 ^ 63 → rnd_up x 1 = .ok (x : Int) := fun x hx => by
      rw [show (1 : Int) = ((1 : Nat) : Int) from rfl, rnd_up_eq Nat.one_pos, if_pos (by omega)]
      simp
    have height : rnd_up b 8 = if b + 8 - 1 < 2 ^ 63 then .ok (((b + 8 - 1) / 8 * 8 : Nat) : Int)
        else .error (.undefinedBehaviour "a + b - 1") := rnd_up_eq (b := 8) (by decide)
    simp only [List.map_cons, List.map_nil, List.zip_cons_cons, List.zip_nil_left, List.mapM_cons, List.mapM_nil,
      hone a ha, hone c hc, hone d hd, height, List.getD_cons_succ, List.getD_cons_zero, hp, forall_const]
    by_cases hb : b + 7 < 2 ^ 63
    · rw [if_pos (by omega), if_pos hb]
      rfl
    · rw [if_neg (by omega), if_neg hb]
      rfl
  · rw [if_neg (fun h => hp (hpadded.mp h)), if_pos (fun h => absurd h hp), paddedDims, if_neg hp]
    rfl

theorem Strided.dims_ne_nil (ht : Strided t) : t.dims ≠ [] ∧ t.dims.length ≤ TENSOR_MAX_DIMS := by
  have hlen : t.dims.length = 3 ∨ t.dims.length = 4 ∨ t.dims.length = 5 := by
    rw [ht.rank]
    rcases ht.layout with ⟨-, ho⟩ | ⟨-, ho⟩ | ⟨-, ho⟩ | ⟨-, ho⟩ | ⟨-, ho⟩
    · simp [ho]
    · simp [ho]
    · simp [ho]
    · simp [ho]
    · simp [ho.length_eq]
  have hpos : 0 < t.dims.length := by omega
  exact ⟨List.ne_nil_of_length_pos hpos, by unfold TENSOR_MAX_DIMS; omega⟩

theorem dataTypeOf_ne_undef {precision : Precision} (hdt : dataTypeOf precision = .ok dt) : dt ≠ .data_undef := by
  rintro rfl
  cases precision <;> cases hdt

theorem memory_desc_init_eq (ht : Strided t) (hdt : dataTypeOf t.precision = .ok dt) (hlt : ∀ d ∈ t.dims, d < 2 ^ 63)
    {format : Format} (hformat : format ≠ .format_undef ∧ format ≠ .blocked) :
    memory_desc_init (t.dims.map toPtrdiff) dt format =
      if format = .any then .ok { dims := t.dims.map Nat.cast, data_type := dt, format }
      else MemoryDesc.compute_blocking { dims := t.dims.map Nat.cast, data_type := dt, format } := by
  have hcast : t.dims.map toPtrdiff = t.dims.map Nat.cast :=
    List.map_congr_left fun d hd => toPtrdiff_of_lt (hlt d hd)
  obtain ⟨hne, hmax⟩ := ht.dims_ne_nil
  have hvalid : ¬ (TENSOR_MAX_DIMS < (t.dims.map (Nat.cast : Nat → Int)).length ∨ dt = .data_undef ∨
      (∃ dim ∈ t.dims.map (Nat.cast : Nat → Int), dim < 0) ∨ format = .blocked) := by
    simp only [List.length_map, List.mem_map, not_or]
    refine ⟨by omega, dataTypeOf_ne_undef hdt, ?_, hformat.2⟩
    rintro ⟨_, ⟨d, -, rfl⟩, h⟩
    omega
  rw [hcast, memory_desc_init, if_neg (by simp [hne, hformat.1]), if_neg hvalid]
  rfl

theorem memory_desc_init_error (ht : Strided t) (hbig : ∃ d ∈ t.dims, 2 ^ 63 ≤ d) :
    ∃ e, memory_desc_init (t.dims.map toPtrdiff) dt .any = .error e := by
  obtain ⟨d, hd, hle⟩ := hbig
  have hinvalid : TENSOR_MAX_DIMS < (t.dims.map toPtrdiff).length ∨ dt = .data_undef ∨
      (∃ dim ∈ t.dims.map toPtrdiff, dim < 0) ∨ Format.any = .blocked :=
    .inr (.inr (.inl ⟨_, List.mem_map_of_mem hd, toPtrdiff_neg hle (ht.lt d hd)⟩))
  rw [memory_desc_init, if_neg (by simp [ht.dims_ne_nil.1]), if_pos hinvalid]
  exact ⟨_, rfl⟩

/-- The descriptor that MKL-DNN fills. -/
def packedDesc (t : TensorDesc) (dt : DataType) : MemoryDesc where
  dims := t.dims.map Nat.cast
  data_type := dt
  format := formatOf t
  block_dims := t.dims.map fun _ => 1
  strides := scatter (formatOrder t) ((packedStrides (formatDims t)).map Nat.cast)
  offset_padding_to_data := t.dims.map fun _ => 0

/-- The first half of the constructor. -/
def newDesc (t : TensorDesc) (dt : DataType) : Result MemoryDesc :=
  if formatOf t = .blocked then do CreateBlockingDesc (← ofFormat (t.dims.map toPtrdiff) dt .any)
  else ofFormat (t.dims.map toPtrdiff) dt (formatOf t)

theorem Strided.perm (ht : Strided t) : t.blockingDesc.order.Perm (List.range t.dims.length) := by
  rw [ht.rank]
  rcases ht.layout with ⟨-, ho⟩ | ⟨-, ho⟩ | ⟨-, ho⟩ | ⟨-, ho⟩ | ⟨-, ho⟩
  · rw [ho]
    exact .refl _
  · rw [ho]
    exact show List.Perm [0, 2, 3, 1] (List.range 4) by decide
  · rw [ho]
    exact .refl _
  · rw [ho]
    exact show List.Perm [0, 2, 3, 4, 1] (List.range 5) by decide
  · rw [ho.length_eq]
    exact ho

theorem formatOrder_perm (ht : Strided t) : (formatOrder t).Perm (List.range t.dims.length) := by
  unfold formatOrder
  split_ifs
  · exact .refl _
  · exact ht.perm

theorem paddedDims_le (i : Nat) : t.dims.getD i 0 ≤ (paddedDims t).getD i 0 := by
  unfold paddedDims
  split_ifs with hp
  · by_cases hi : i = 1
    · subst hi
      by_cases hlen : 1 < t.dims.length
      · simp [hlen]
        omega
      · simp [hlen]
    · simp [Ne.symm hi]
  · exact le_rfl

theorem formatDims_pos (ht : Strided t) : ∀ d ∈ formatDims t, 0 < d := by
  intro d hd
  obtain ⟨o, ho, rfl⟩ := List.mem_map.mp hd
  have hlt := List.mem_range.mp ((formatOrder_perm ht).mem_iff.mp ho)
  refine lt_of_lt_of_le ?_ (paddedDims_le o)
  rw [List.getD_eq_getElem _ _ hlt]
  exact ht.pos _ (List.getElem_mem hlt)

theorem set_default_strides_eq :
    set_default_strides ((paddedDims t).map Nat.cast) (formatOrder t) =
      (defaultStrides ((formatDims t).map Nat.cast)).map (scatter (formatOrder t)) := by
  have hdims : (formatOrder t).map (((paddedDims t).map (Nat.cast : Nat → Int)).getD · 0) =
      (formatDims t).map Nat.cast := by
    rw [formatDims, List.map_map]
    apply List.map_congr_left
    intro o _
    simp only [List.getD_eq_getElem?_getD, List.getElem?_map, Function.comp_apply]
    cases (paddedDims t)[o]? <;> rfl
  rw [set_default_strides, hdims]
  cases defaultStrides ((formatDims t).map Nat.cast) <;> rfl

theorem newDesc_eq (ht : Strided t) (hdt : dataTypeOf t.precision = .ok dt) (hlt : ∀ d ∈ t.dims, d < 2 ^ 63) :
    newDesc t dt = if Padded t → t.dims.getD 1 0 + 7 < 2 ^ 63 then
        (defaultStrides ((formatDims t).map Nat.cast)).map fun strides =>
          { packedDesc t dt with strides := scatter (formatOrder t) strides }
      else .error (.undefinedBehaviour "a + b - 1") := by
  have hany : memory_desc_init (t.dims.map toPtrdiff) dt .any =
      .ok { dims := t.dims.map Nat.cast, data_type := dt, format := .any } := by
    rw [memory_desc_init_eq ht hdt hlt (by simp), if_pos rfl]
  unfold newDesc
  by_cases hblocked : formatOf t = .blocked
  · have hpadded : ¬ Padded t := fun h => by
      have := (ht.blocked hblocked).1
      rw [h.1] at this
      cases this
    have hdims : paddedDims t = t.dims := if_neg hpadded
    have horder : formatOrder t = List.range t.dims.length := if_pos hblocked
    have hcast : (t.dims.map (Nat.cast : Nat → Int)).length = t.dims.length := List.length_map _
    have hstrides := set_default_strides_eq (t := t)
    rw [hdims, horder] at hstrides
    rw [if_pos hblocked, if_pos (fun h => absurd h hpadded), ofFormat, hany]
    simp only [bind, Except.bind, ne_eq, reduceCtorEq, not_false_eq_true, if_true, false_and, if_false]
    rw [CreateBlockingDesc, if_neg (by simpa using ht.dims_ne_nil.1), hcast, hstrides, horder]
    cases defaultStrides ((formatDims t).map Nat.cast) with
    | error e => rfl
    | ok strides => simp [bind, Except.bind, Except.map, pure, Except.pure, packedDesc, hblocked, Function.comp_def]
  · have hformat := ht.formatOrder hblocked
    have hinit : formatOf t ≠ .format_undef ∧ formatOf t ≠ .blocked ∧ formatOf t ≠ .any ∧ formatOf t ≠ .x := by
      rcases hformat with ⟨h, -⟩ | ⟨h, -⟩ | ⟨h, -⟩ | ⟨h, -⟩ | ⟨h, -⟩ | ⟨h, -⟩ <;> simp [h]
    have horder : formatOrder t = t.blockingDesc.order := if_neg hblocked
    rw [if_neg hblocked, ofFormat, hany]
    simp only [bind, Except.bind, ne_eq, hinit.2.1, not_false_eq_true, if_true, hinit.2.2.2, false_and, if_false]
    rw [memory_desc_init_eq ht hdt hlt ⟨hinit.1, hinit.2.1⟩, if_neg hinit.2.2.1,
      compute_blocking_eq hformat (by simpa using ht.rank), ← horder, MemoryDesc.fill_nonblocked,
      padding_dims_eq ht hdt hlt]
    by_cases hp : Padded t → t.dims.getD 1 0 + 7 < 2 ^ 63
    · rw [if_pos hp, if_pos hp]
      simp only [bind, Except.bind, set_default_strides_eq]
      cases defaultStrides ((formatDims t).map Nat.cast) with
      | error e => rfl
      | ok strides => simp [Except.map, pure, Except.pure, packedDesc, Function.comp_def]
    · rw [if_neg hp, if_neg hp]
      rfl

theorem newDesc_ok (ht : Strided t) (hdt : dataTypeOf t.precision = .ok dt) (hfill : Fillable t) :
    newDesc t dt = .ok (packedDesc t dt) := by
  rw [newDesc_eq ht hdt hfill.1, if_pos hfill.2.1, defaultStrides_ok (formatDims_pos ht) hfill.2.2]
  rfl

theorem newDesc_error (ht : Strided t) (hdt : dataTypeOf t.precision = .ok dt) (hfill : ¬ Fillable t) :
    ∃ e, newDesc t dt = .error e := by
  by_cases hlt : ∀ d ∈ t.dims, d < 2 ^ 63
  · rw [newDesc_eq ht hdt hlt]
    split_ifs with hp
    · have hover : 2 ^ 63 ≤ (formatDims t).tail.prod := by
        by_contra hsmall
        exact hfill ⟨hlt, hp, by omega⟩
      obtain ⟨e, he⟩ := defaultStrides_overflow (formatDims_pos ht) hover
      rw [he]
      exact ⟨e, rfl⟩
    · exact ⟨_, rfl⟩
  · push Not at hlt
    obtain ⟨e, he⟩ : ∃ e, memory_desc_init (t.dims.map toPtrdiff) dt .any = .error e :=
      memory_desc_init_error ht hlt
    refine ⟨e, ?_⟩
    unfold newDesc
    split_ifs
    · rw [ofFormat, he]
      rfl
    · rw [ofFormat, he]
      rfl

/-! ### The conversion -/

/-- The tensor is packed in its own order. -/
def Packed (t : TensorDesc) : Prop :=
  t.blockingDesc.strides = InferenceEngine.BlockingDesc.fillStrides t.blockingDesc.blockedDims

instance (t : TensorDesc) : Decidable (Packed t) := inferInstanceAs (Decidable (_ = _))

/-- The strides of the descriptor: those of the packed tensor, or what the constructor writes over them. -/
def descStrides (t : TensorDesc) : List Int :=
  if Packed t then scatter (formatOrder t) ((packedStrides (formatDims t)).map Nat.cast)
  else t.blockingDesc.order.map fun o => toPtrdiff (t.blockingDesc.strides.getD o 0)

def stridedDesc (t : TensorDesc) (dt : DataType) : MemoryDesc :=
  { packedDesc t dt with
    strides := descStrides t
    offset_padding_to_data := List.replicate t.dims.length 0
    offset_padding := toPtrdiff t.blockingDesc.offsetPadding }

theorem Strided.notDefault_iff (ht : Strided t) : notDefault t.blockingDesc = true ↔ ¬ Packed t := by
  have hlen : t.blockingDesc.blockedDims.length = t.blockingDesc.order.length := by
    rw [ht.blocks, List.length_map]
  exact MKLDNNMemoryDesc.notDefault_iff (by rw [hlen, ht.offsets]) (by rw [hlen, ht.strides])

theorem mapM_elemAt {e : String} {l r : SizeVector} (h : ∀ o ∈ r, o < l.length) :
    (r.mapM fun (o : Nat) => elemAt e l o) = .ok (r.map (l.getD · 0)) := by
  induction r with
  | nil => rfl
  | cons o r ih =>
    have ho : elemAt e l (o : Int) = .ok (l.getD o 0) := by
      rw [InferenceEngine.elemAt_ok_iff]
      have hlt := h o List.mem_cons_self
      simp [hlt]
    rw [List.mapM_cons, ho, ih fun x hx => h x (List.mem_cons_of_mem _ hx), List.map_cons]
    rfl

theorem ofTensorDesc_ok (ht : Strided t) (hdt : dataTypeOf t.precision = .ok dt) (hfill : Fillable t) :
    ofTensorDesc t = .ok (stridedDesc t dt) := by
  have hnew := newDesc_ok ht hdt hfill
  rw [newDesc] at hnew
  have hmax := ht.dims_ne_nil.2
  have hnodup : t.blockingDesc.order.Nodup := ht.perm.nodup_iff.mpr List.nodup_range
  have hoffsets : ((t.blockingDesc.offsetPaddingToData.map toPtrdiff).take TENSOR_MAX_DIMS) =
      List.replicate t.dims.length 0 := by
    rw [ht.offsets, List.map_replicate, List.take_replicate, ← ht.rank, min_eq_right hmax]
    rfl
  have htake : (t.blockingDesc.order.take t.blockingDesc.strides.length).take t.dims.length = t.blockingDesc.order := by
    rw [ht.strides, List.take_length, ht.rank, List.take_length]
  have hread := mapM_elemAt (e := "strides[order[i]]") (l := t.blockingDesc.strides) (r := t.blockingDesc.order)
    fun o ho => by
      rw [ht.strides, ← ht.rank]
      exact List.mem_range.mp (ht.perm.mem_iff.mp ho)
  have hlen : (scatter (formatOrder t) ((packedStrides (formatDims t)).map Nat.cast)).length = t.dims.length := by
    rw [scatter, List.length_map, List.length_range, (formatOrder_perm ht).length_eq, List.length_range]
  rw [ofTensorDesc, hdt]
  simp only [bind, Except.bind, hnodup, not_true_eq_false, and_false, if_false]
  simp only [bind, Except.bind] at hnew
  rw [hnew]
  simp only [hoffsets]
  by_cases hpacked : Packed t
  · rw [if_neg (fun h => ht.notDefault_iff.mp h hpacked)]
    simp [stridedDesc, packedDesc, descStrides, hpacked, pure, Except.pure]
  · rw [if_pos (ht.notDefault_iff.mpr hpacked)]
    simp only [packedDesc, List.length_map, htake, hread]
    simp [stridedDesc, packedDesc, descStrides, hpacked, pure, Except.pure, Function.comp_def, ht.rank, hlen]

theorem ofTensorDesc_error (ht : Strided t) (hdt : dataTypeOf t.precision = .ok dt) (hfill : ¬ Fillable t) :
    ∃ e, ofTensorDesc t = .error e := by
  obtain ⟨e, hnew⟩ := newDesc_error ht hdt hfill
  rw [newDesc] at hnew
  have hnodup : t.blockingDesc.order.Nodup := ht.perm.nodup_iff.mpr List.nodup_range
  refine ⟨e, ?_⟩
  rw [ofTensorDesc, hdt]
  simp only [bind, Except.bind, hnodup, not_true_eq_false, and_false, if_false]
  simp only [bind, Except.bind] at hnew
  rw [hnew]

/-! ### The way back -/

/-- The strides that are read back, in the order of the format. -/
def backStrides (t : TensorDesc) (dt : DataType) : SizeVector :=
  if t.layout = .NHWC ∨ t.layout = .NDHWC ∨ t.layout = .CHW then
    (formatOrder t).map fun o => toSizeT ((descStrides t).getD o 0)
  else innerStrides (stridedDesc t dt) t.dims.length 0 ((formatOrder t).zip (formatDims t))

/-- The tensor that comes back. -/
def back (t : TensorDesc) (dt : DataType) : TensorDesc where
  precision := t.precision
  dims := t.dims
  layout := t.layout
  blockingDesc :=
    { blockedDims := formatDims t
      strides := backStrides t dt
      order := formatOrder t
      offsetPaddingToData := List.replicate t.dims.length 0
      offsetPadding := t.blockingDesc.offsetPadding }

/-- The strides of an unknown format are not in the order of the dimensions. -/
def Increasing (t : TensorDesc) : Prop :=
  ∃ i < t.dims.length, i ≠ 0 ∧ (descStrides t).getD (i - 1) 0 < (descStrides t).getD i 0

theorem blocksOf_eq (ht : Strided t) (hformat : formatOf t ≠ .blocked) (hfill : Fillable t) :
    blocksOf (stridedDesc t dt) t.precision t.dims = .ok (t.layout, formatOrder t, formatDims t) := by
  have hrank := ht.rank
  have hfmt : (stridedDesc t dt).format = formatOf t := rfl
  rcases ht.layout with ⟨h, ho⟩ | ⟨h, ho⟩ | ⟨h, ho⟩ | ⟨h, ho⟩ | ⟨h, ho⟩
  · obtain ⟨a, b, c, d, hdims⟩ := List.length_eq_four.mp (hrank.trans (by rw [ho]; rfl))
    have hnchw : formatOf t = .nchw := by simp [formatOf, h]
    simp [blocksOf, hfmt, formatDims, formatOrder, hnchw, ho, paddedDims, Padded, h, hdims, pure, Except.pure]
  · obtain ⟨a, b, c, d, hdims⟩ := List.length_eq_four.mp (hrank.trans (by rw [ho]; rfl))
    have hnhwc : formatOf t = .nhwc := by simp [formatOf, h]
    by_cases hbin : t.precision = .BIN
    · have hfits := hfill.2.1 ⟨h, hbin⟩
      rw [hdims] at hfits
      simp only [List.getD_cons_succ, List.getD_cons_zero] at hfits
      have hround : toSizeT ((b : Int) + 7) = b + 7 := by
        have hlt : b + 7 < 2 ^ 64 := hfits.trans (by decide)
        exact_mod_cast InferenceEngine.toSizeT_natCast hlt
      simp [blocksOf, hfmt, formatDims, formatOrder, hnhwc, ho, paddedDims, Padded, h, hbin, hdims, pure, Except.pure,
        hround]
    · simp [blocksOf, hfmt, formatDims, formatOrder, hnhwc, ho, paddedDims, Padded, h, hbin, hdims, pure, Except.pure]
  · have hncdhw : formatOf t = .ncdhw := by simp [formatOf, h]
    have hdims : (List.range t.dims.length).map (t.dims.getD · 0) = t.dims := by
      apply List.ext_getElem
      · simp
      · intro i hi _
        simp only [List.length_map, List.length_range] at hi
        simp [hi]
    rw [hrank, ho] at hdims
    simp only [List.length_cons, List.length_nil] at hdims
    simp only [blocksOf, hfmt, formatDims, formatOrder, hncdhw, ho, paddedDims, Padded, h, reduceCtorEq, false_and,
      if_false]
    exact congrArg (fun d => (.ok (Layout.NCDHW, [0, 1, 2, 3, 4], d) : Result (Layout × SizeVector × SizeVector)))
      hdims.symm
  · have hndhwc : formatOf t = .ndhwc := by simp [formatOf, h]
    simp [blocksOf, hfmt, formatDims, formatOrder, hndhwc, ho, paddedDims, Padded, h, pure, Except.pure]
  · obtain ⟨a, b, c, hdims⟩ := List.length_eq_three.mp (hrank.trans ho.length_eq)
    by_cases hid : t.blockingDesc.order = [0, 1, 2]
    · have htnc : formatOf t = .tnc := by simp [formatOf, h, hid]
      simp [blocksOf, hfmt, formatDims, formatOrder, htnc, hid, paddedDims, Padded, h, hdims, pure, Except.pure]
    · have hswap : t.blockingDesc.order = [1, 0, 2] := by
        by_contra hne
        simp [formatOf, h, hid, hne] at hformat
      have hntc : formatOf t = .ntc := by simp [formatOf, h, hswap]
      simp [blocksOf, hfmt, formatDims, formatOrder, hntc, hswap, paddedDims, Padded, h, hdims, pure, Except.pure]

theorem length_formatOrder (ht : Strided t) : (formatOrder t).length = t.dims.length := by
  rw [(formatOrder_perm ht).length_eq, List.length_range]

theorem blocksOf_blocked (ht : Strided t) (hformat : formatOf t = .blocked) :
    (Increasing t → ∃ e, blocksOf (stridedDesc t dt) t.precision t.dims = .error e) ∧
    (¬ Increasing t →
      blocksOf (stridedDesc t dt) t.precision t.dims = .ok (t.layout, formatOrder t, formatDims t)) := by
  have hfmt : (stridedDesc t dt).format = .blocked := hformat
  obtain ⟨hlayout, hlen⟩ := ht.blocked hformat
  have hiff : (∃ i < t.dims.length, (i ≠ 0 ∧ (stridedDesc t dt).strides.getD (i - 1) 0 <
      (stridedDesc t dt).strides.getD i 0) ∨ (stridedDesc t dt).block_dims.getD i 0 ≠ 1) ↔ Increasing t := by
    apply exists_congr
    intro i
    apply and_congr_right
    intro hi
    have hone : (stridedDesc t dt).block_dims.getD i 0 = 1 := by
      simp [stridedDesc, packedDesc, hi]
    rw [hone]
    simp [stridedDesc]
  unfold blocksOf
  simp only [hfmt]
  constructor
  · intro h
    rw [if_pos (hiff.mpr h)]
    exact ⟨_, rfl⟩
  · intro h
    have hdims : formatDims t = t.dims := by
      have hpadded : ¬ Padded t := fun hp => by
        rw [hp.1] at hlayout
        cases hlayout
      rw [formatDims, formatOrder, if_pos hformat, paddedDims, if_neg hpadded]
      apply List.ext_getElem
      · simp
      · intro i hi _
        simp only [List.length_map, List.length_range] at hi
        simp [hi]
    rw [if_neg (fun hinc => h (hiff.mp hinc)), if_pos hlen, hlayout, hdims, formatOrder, if_pos hformat]
    rfl

theorem length_innerStrides {desc : MemoryDesc} {r i : Nat} {l : List (Nat × Nat)} :
    (innerStrides desc r i l).length = l.length := by
  induction l generalizing i with
  | nil => rfl
  | cons p l ih =>
    cases l with
    | nil => rfl
    | cons q l => rw [innerStrides, List.length_cons, ih, ← List.length_cons]

theorem length_backStrides (ht : Strided t) : (backStrides t dt).length = t.dims.length := by
  unfold backStrides
  split_ifs
  · rw [List.length_map, length_formatOrder ht]
  · rw [length_innerStrides, List.length_zip, formatDims, List.length_map, length_formatOrder ht, min_self]

theorem consistentLayout_rank (ht : Strided t) :
    TensorDesc.consistentLayout t.layout t.dims.length = true := by
  rw [ht.rank]
  rcases ht.layout with ⟨h, ho⟩ | ⟨h, ho⟩ | ⟨h, ho⟩ | ⟨h, ho⟩ | ⟨h, ho⟩
  · rw [h, ho]; rfl
  · rw [h, ho]; rfl
  · rw [h, ho]; rfl
  · rw [h, ho]; rfl
  · rw [h, ho.length_eq]; rfl

theorem max_formatOrder (ht : Strided t) : (formatOrder t).max? = some (t.dims.length - 1) := by
  have hpos := List.length_pos_of_ne_nil ht.dims_ne_nil.1
  rw [List.max?_eq_some_iff]
  refine ⟨(formatOrder_perm ht).mem_iff.mpr (List.mem_range.mpr (by omega)), fun o ho => ?_⟩
  have hlt := List.mem_range.mp ((formatOrder_perm ht).mem_iff.mp ho)
  omega

theorem precisionOf_dataTypeOf {precision : Precision} (hdt : dataTypeOf precision = .ok dt) :
    precisionOf dt = .ok precision := by
  cases precision <;> cases hdt <;> rfl

theorem dims_stridedDesc (ht : Strided t) : (stridedDesc t dt).dims.map toSizeT = t.dims := by
  have hmap : (stridedDesc t dt).dims = t.dims.map Nat.cast := rfl
  rw [hmap, List.map_map]
  conv_rhs => rw [← List.map_id t.dims]
  apply List.map_congr_left
  intro d hd
  exact InferenceEngine.toSizeT_natCast (ht.lt d hd)

theorem format_ne_any (ht : Strided t) : formatOf t ≠ .any := by
  by_cases hblocked : formatOf t = .blocked
  · simp [hblocked]
  · rcases ht.formatOrder hblocked with ⟨h, -⟩ | ⟨h, -⟩ | ⟨h, -⟩ | ⟨h, -⟩ | ⟨h, -⟩ | ⟨h, -⟩ <;> simp [h]

theorem length_formatDims (ht : Strided t) : (formatDims t).length = t.dims.length := by
  rw [formatDims, List.length_map, length_formatOrder ht]

theorem offsetsForDims_eq (ht : Strided t) :
    (((List.range (formatDims t).length).take TENSOR_MAX_DIMS).map fun i =>
      if i < t.dims.length then toSizeT ((stridedDesc t dt).offset_padding_to_data.getD i 0) else 0) =
    List.replicate t.dims.length 0 := by
  have hmax := ht.dims_ne_nil.2
  rw [length_formatDims ht, List.take_of_length_le (by simpa using hmax)]
  apply List.ext_getElem
  · simp
  · intro i hi _
    simp only [List.length_map, List.length_range] at hi
    simp [stridedDesc, toSizeT]

theorem toTensorDesc_ok (ht : Strided t) (hdt : dataTypeOf t.precision = .ok dt)
    (hblocks : blocksOf (stridedDesc t dt) t.precision t.dims = .ok (t.layout, formatOrder t, formatDims t)) :
    toTensorDesc (stridedDesc t dt) = .ok (back t dt) := by
  have hprecision : precisionOf (stridedDesc t dt).data_type = .ok t.precision := precisionOf_dataTypeOf hdt
  have hfmt : (stridedDesc t dt).format = formatOf t := rfl
  have hoffset : toSizeT (stridedDesc t dt).offset_padding = t.blockingDesc.offsetPadding := by
    simp only [stridedDesc, toSizeT_toPtrdiff ht.padding]
  have hstrides : (if t.layout = .NHWC ∨ t.layout = .NDHWC ∨ t.layout = .CHW then
      (formatOrder t).map fun o => toSizeT ((stridedDesc t dt).strides.getD o 0)
      else innerStrides (stridedDesc t dt) t.dims.length 0 ((formatOrder t).zip (formatDims t))) =
      backStrides t dt := rfl
  have hne : formatDims t ≠ [] ∧ formatOrder t ≠ [] := by
    have hpos := List.length_pos_of_ne_nil ht.dims_ne_nil.1
    exact ⟨List.ne_nil_of_length_pos (length_formatDims ht ▸ hpos),
      List.ne_nil_of_length_pos (length_formatOrder ht ▸ hpos)⟩
  have hblocking : InferenceEngine.BlockingDesc.ofStrides (formatDims t) (formatOrder t) t.blockingDesc.offsetPadding
      (List.replicate t.dims.length 0) (backStrides t dt) = .ok (back t dt).blockingDesc := by
    simp [InferenceEngine.BlockingDesc.ofStrides, InferenceEngine.BlockingDesc.ofOrder,
      InferenceEngine.BlockingDesc.fillDesc, hne, length_formatDims ht, length_formatOrder ht,
      length_backStrides ht, bind, Except.bind, pure, Except.pure, back]
  have htensor : TensorDesc.ofBlocking t.precision t.dims (back t dt).blockingDesc =
      .ok { back t dt with layout := TensorDesc.detectLayout t.dims (back t dt).blockingDesc } := by
    have hpos := List.length_pos_of_ne_nil ht.dims_ne_nil.1
    have hmax : (back t dt).blockingDesc.order.max? = some (t.dims.length - 1) := max_formatOrder ht
    have hblocked : (back t dt).blockingDesc.blockedDims ≠ [] := hne.1
    rw [TensorDesc.ofBlocking, if_neg (by simp [ht.dims_ne_nil.1, hblocked]), hmax]
    simp only
    rw [if_neg (by omega)]
    rfl
  rw [toTensorDesc, hprecision]
  simp only [bind, Except.bind, dims_stridedDesc ht, hblocks, hfmt, format_ne_any ht, if_false, hoffset, hstrides,
    offsetsForDims_eq ht, hblocking, htensor, TensorDesc.setLayout]
  have hlayout : TensorDesc.consistentLayout t.layout (back t dt).dims.length = true := consistentLayout_rank ht
  rw [if_pos hlayout]
  rfl

theorem toTensorDesc_error (ht : Strided t) (hdt : dataTypeOf t.precision = .ok dt) {e : IEException}
    (hblocks : blocksOf (stridedDesc t dt) t.precision t.dims = .error e) :
    toTensorDesc (stridedDesc t dt) = .error e := by
  have hprecision : precisionOf (stridedDesc t dt).data_type = .ok t.precision := precisionOf_dataTypeOf hdt
  rw [toTensorDesc, hprecision]
  simp only [bind, Except.bind, dims_stridedDesc ht, hblocks]

/-! ### The strides that survive -/

theorem mem_zip_map {f : Nat → Nat} {l : SizeVector} {b : Nat × Nat} (h : b ∈ l.zip (l.map f)) : b.2 = f b.1 := by
  induction l with
  | nil => cases h
  | cons x l ih =>
    rw [List.map_cons, List.zip_cons_cons] at h
    rcases List.mem_cons.mp h with rfl | h
    · rfl
    · exact ih h

theorem layout_ne (ht : Strided t) : t.layout ≠ .ANY ∧ t.layout ≠ .SCALAR := by
  rcases ht.layout with ⟨h, -⟩ | ⟨h, -⟩ | ⟨h, -⟩ | ⟨h, -⟩ | ⟨h, -⟩ <;> simp [h]

theorem Strided.plain (ht : Strided t) : t.Plain where
  layout := layout_ne ht
  order := ht.perm
  blocks := by rw [ht.blocks, List.length_map]
  strides := ht.strides
  offsets := ht.offsets
  room := by
    intro b hb
    rw [TensorDesc.radices, ht.blocks] at hb
    rw [mem_zip_map hb]

theorem plain_back (ht : Strided t) : (back t dt).Plain where
  layout := (layout_ne ht : t.layout ≠ .ANY ∧ t.layout ≠ .SCALAR)
  order := formatOrder_perm ht
  blocks := (length_formatDims ht).trans (length_formatOrder ht).symm
  strides := (length_backStrides ht).trans (length_formatOrder ht).symm
  offsets := by
    have hlen : (back t dt).blockingDesc.order.length = t.dims.length := length_formatOrder ht
    rw [hlen]
    rfl
  room := by
    intro b hb
    rw [mem_zip_map hb]
    exact paddedDims_le b.1

/-- The stride of a dimension in the descriptor. -/
def descStride (t : TensorDesc) (i : Nat) : Nat :=
  if Packed t then (packedStrides (formatDims t)).getD ((formatOrder t).idxOf i) 0
  else t.blockingDesc.strides.getD (t.blockingDesc.order.getD i 0) 0

theorem packedStrides_le (hpos : ∀ d ∈ D, 0 < d) : ∀ s ∈ packedStrides D, s ≤ D.tail.prod := by
  induction D with
  | nil => simp [packedStrides]
  | cons X D ih =>
    intro s hs
    rw [List.tail_cons]
    rcases List.mem_cons.mp hs with rfl | hs
    · exact le_rfl
    · have hle := ih (fun d hd => hpos d (List.mem_cons_of_mem _ hd)) s hs
      cases D with
      | nil => simpa using hle
      | cons Y D =>
        rw [List.prod_cons]
        exact hle.trans (Nat.le_mul_of_pos_left _ (hpos Y (by simp)))

theorem getD_lt {l : SizeVector} {b : Nat} (h : ∀ s ∈ l, s < b) (hb : 0 < b) (i : Nat) : l.getD i 0 < b := by
  by_cases hi : i < l.length
  · rw [List.getD_eq_getElem _ _ hi]
    exact h _ (List.getElem_mem hi)
  · rwa [List.getD_eq_default _ _ (by omega)]

theorem descStride_lt (ht : Strided t) (hfill : Fillable t) (i : Nat) : descStride t i < 2 ^ 64 := by
  unfold descStride
  split_ifs
  · apply getD_lt
    · intro s hs
      have := packedStrides_le (formatDims_pos ht) s hs
      have := hfill.2.2
      omega
    · omega
  · exact getD_lt ht.strides_lt (by omega) _

theorem toSizeT_descStrides (ht : Strided t) (hfill : Fillable t) {i : Nat} (hi : i < t.dims.length) :
    toSizeT ((descStrides t).getD i 0) = descStride t i := by
  have hlt := descStride_lt ht hfill i
  unfold descStrides
  by_cases hpacked : Packed t
  · have hget : (scatter (formatOrder t) ((packedStrides (formatDims t)).map Nat.cast)).getD i 0 =
        ((descStride t i : Nat) : Int) := by
      rw [scatter, descStride, if_pos hpacked]
      have hlen := length_formatOrder ht
      simp only [List.getD_eq_getElem?_getD, List.getElem?_map, List.getElem?_range (hlen ▸ hi), Option.map_some,
        Option.getD_some]
      cases (packedStrides (formatDims t))[(formatOrder t).idxOf i]? <;> rfl
    rw [if_pos hpacked, hget, InferenceEngine.toSizeT_natCast hlt]
  · have hget : (t.blockingDesc.order.map fun o => toPtrdiff (t.blockingDesc.strides.getD o 0)).getD i 0 =
        toPtrdiff (descStride t i) := by
      rw [descStride, if_neg hpacked]
      have hi' : i < t.blockingDesc.order.length := ht.rank ▸ hi
      rw [List.getD_eq_getElem _ _ (by rwa [List.length_map]), List.getElem_map,
        List.getD_eq_getElem t.blockingDesc.order _ hi']
    rw [if_neg hpacked, hget, toSizeT_toPtrdiff hlt]

/-- The layouts whose innermost stride is not read. -/
def InnermostIsOne (t : TensorDesc) : Prop := t.layout = .NCHW ∨ t.layout = .NCDHW

instance (t : TensorDesc) : Decidable (InnermostIsOne t) := inferInstanceAs (Decidable (_ ∨ _))

theorem strideOf_map {order : SizeVector} {f : Nat → Nat} {i : Nat} (hi : i ∈ order) :
    (order.map f).getD (order.idxOf i) 0 = f i := by
  have hlt := List.idxOf_lt_length_of_mem hi
  rw [List.getD_eq_getElem _ _ (by rwa [List.length_map]), List.getElem_map, List.getElem_idxOf hlt]

theorem getD_innerStrides {desc : MemoryDesc} {r i k : Nat} {l : List (Nat × Nat)} (hr : i + l.length ≤ r)
    (hk : k < l.length) : (innerStrides desc r i l).getD k 0 =
      if k + 1 = l.length then 1 else toSizeT (desc.strides.getD (l.get ⟨k, hk⟩).1 0) := by
  induction l generalizing i k with
  | nil => cases hk
  | cons p l ih =>
    obtain ⟨o, b⟩ := p
    cases l with
    | nil =>
      have hzero : k = 0 := by simpa using hk
      subst hzero
      rfl
    | cons q l =>
      rw [List.length_cons] at hr
      rw [innerStrides, if_pos (by omega)]
      cases k with
      | zero =>
        rw [if_neg (by simp)]
        rfl
      | succ k =>
        have hk' : k < (q :: l).length := by simpa using hk
        rw [List.getD_cons_succ, ih (by omega) hk', List.get_cons_succ]
        have hlast : k + 1 + 1 = ((o, b) :: q :: l).length ↔ k + 1 = (q :: l).length := by simp
        simp only [hlast]

theorem order_of_innermost (ht : Strided t) (h : InnermostIsOne t) :
    t.blockingDesc.order = List.range t.dims.length ∧ formatOrder t = List.range t.dims.length := by
  have hrank := ht.rank
  rcases ht.layout with ⟨hl, ho⟩ | ⟨hl, ho⟩ | ⟨hl, ho⟩ | ⟨hl, ho⟩ | ⟨hl, ho⟩
  · rw [ho] at hrank
    have hformat : formatOf t ≠ .blocked := by simp [formatOf, hl]
    refine ⟨by rw [ho, hrank]; rfl, ?_⟩
    rw [formatOrder, if_neg hformat, ho, hrank]
    rfl
  · simp [InnermostIsOne, hl] at h
  · rw [ho] at hrank
    have hformat : formatOf t ≠ .blocked := by simp [formatOf, hl]
    refine ⟨by rw [ho, hrank]; rfl, ?_⟩
    rw [formatOrder, if_neg hformat, ho, hrank]
    rfl
  · simp [InnermostIsOne, hl] at h
  · simp [InnermostIsOne, hl] at h

theorem idxOf_range {n i : Nat} (hi : i < n) : (List.range n).idxOf i = i := by
  have h := List.nodup_range.idxOf_getElem i (by simpa using hi)
  rwa [List.getElem_range] at h

theorem strideOf_back (ht : Strided t) (hfill : Fillable t) {i : Nat} (hi : i < t.dims.length) :
    (back t dt).strideOf i = if InnermostIsOne t ∧ i = t.dims.length - 1 then 1 else descStride t i := by
  have hmem : i ∈ formatOrder t := (formatOrder_perm ht).mem_iff.mpr (List.mem_range.mpr hi)
  have hback : (back t dt).strideOf i = (backStrides t dt).getD ((formatOrder t).idxOf i) 0 := rfl
  by_cases hlast : InnermostIsOne t
  · obtain ⟨-, horder⟩ := order_of_innermost ht hlast
    have hlayout : ¬ (t.layout = .NHWC ∨ t.layout = .NDHWC ∨ t.layout = .CHW) := by
      rcases hlast with h | h <;> simp [h]
    have hlen : ((List.range t.dims.length).zip (formatDims t)).length = t.dims.length := by
      rw [List.length_zip, List.length_range, length_formatDims ht, min_self]
    have hi' : i < ((List.range t.dims.length).zip (formatDims t)).length := hlen.symm ▸ hi
    have hkey : (((List.range t.dims.length).zip (formatDims t)).get ⟨i, hi'⟩).1 = i := by simp
    have hread : toSizeT ((stridedDesc t dt).strides.getD i 0) = descStride t i := toSizeT_descStrides ht hfill hi
    have hlast' : i + 1 = t.dims.length ↔ i = t.dims.length - 1 := by omega
    rw [hback, backStrides, if_neg hlayout, horder, idxOf_range hi, getD_innerStrides (by omega) hi', hkey, hlen, hread]
    simp only [hlast, true_and, hlast']
  · have hlayout : t.layout = .NHWC ∨ t.layout = .NDHWC ∨ t.layout = .CHW := by
      rcases ht.layout with ⟨h, -⟩ | ⟨h, -⟩ | ⟨h, -⟩ | ⟨h, -⟩ | ⟨h, -⟩
      · exact absurd (.inl h) hlast
      · exact .inl h
      · exact absurd (.inr h) hlast
      · exact .inr (.inl h)
      · exact .inr (.inr h)
    rw [hback, backStrides, if_pos hlayout, strideOf_map hmem, toSizeT_descStrides ht hfill hi,
      if_neg (fun h => hlast h.1)]

/-- The strides that the descriptor keeps: those of the packed tensor when the format does not pad the channels
and has the order of the tensor; otherwise they are written in an order that is the inverse of the one they are read
in, and the innermost is not written at all in NCHW and NCDHW. -/
def Kept (t : TensorDesc) : Prop :=
  let strides := t.blockingDesc.strides
  let order := t.blockingDesc.order
  if Packed t then
    (Padded t → 8 ∣ t.dims.getD 1 0 ∨ ∀ i, i ≠ 1 → t.dims.getD i 0 ≤ 1) ∧
    (formatOf t = .blocked → ∀ i, 1 < t.dims.getD i 0 → t.strideOf i = (t.dims.drop (i + 1)).prod)
  else if InnermostIsOne t then
    1 < t.dims.getD (t.dims.length - 1) 0 → strides.getD (t.dims.length - 1) 0 = 1
  else
    (∀ i, 1 < t.dims.getD i 0 → strides.getD (order.getD i 0) 0 = t.strideOf i) ∧
    (formatOf t = .blocked → (order.map fun o => toPtrdiff (strides.getD o 0)).IsChain (· ≥ ·))

theorem lt_of_one_lt {i : Nat} {dims : SizeVector} (h : 1 < dims.getD i 0) : i < dims.length := by
  by_contra hge
  rw [List.getD_eq_default _ _ (by omega)] at h
  omega

/-- What the round trip has to keep. -/
def StridesKept (t : TensorDesc) : Prop :=
  (∀ i, 1 < t.dims.getD i 0 →
    (if InnermostIsOne t ∧ i = t.dims.length - 1 then 1 else descStride t i) = t.strideOf i) ∧
  (formatOf t = .blocked → ¬ Increasing t)

theorem getD_packedStrides {i : Nat} (hi : i < D.length) : (packedStrides D).getD i 0 = (D.drop (i + 1)).prod := by
  induction D generalizing i with
  | nil => cases hi
  | cons X D ih =>
    rw [packedStrides]
    cases i with
    | zero => rfl
    | succ i => exact ih (by simpa using hi)

theorem packed_strideOf (ht : Strided t) (hpacked : Packed t)
    (hfit : t.blockingDesc.blockedDims.tail.prod < 2 ^ 64) (i : Nat) :
    t.strideOf i = (packedStrides t.blockingDesc.blockedDims).getD (t.blockingDesc.order.idxOf i) 0 := by
  have hpos : ∀ d ∈ t.blockingDesc.blockedDims, 0 < d := by
    intro d hd
    rw [ht.blocks] at hd
    obtain ⟨o, ho, rfl⟩ := List.mem_map.mp hd
    have hlt := List.mem_range.mp (ht.perm.mem_iff.mp ho)
    rw [List.getD_eq_getElem _ _ hlt]
    exact ht.pos _ (List.getElem_mem hlt)
  rw [TensorDesc.strideOf, hpacked, fillStrides_eq hpos hfit]

theorem not_increasing_iff (ht : Strided t) (hpacked : ¬ Packed t) : ¬ Increasing t ↔
    (t.blockingDesc.order.map fun o => toPtrdiff (t.blockingDesc.strides.getD o 0)).IsChain (· ≥ ·) := by
  have hdesc : descStrides t = t.blockingDesc.order.map fun o => toPtrdiff (t.blockingDesc.strides.getD o 0) :=
    if_neg hpacked
  have hlen : (descStrides t).length = t.dims.length := by rw [hdesc, List.length_map, ht.rank]
  rw [← hdesc, List.isChain_iff_getElem, Increasing]
  push Not
  constructor
  · intro h i hi
    have hle := h (i + 1) (by omega) (by omega)
    rwa [Nat.add_sub_cancel, List.getD_eq_getElem _ _ hi, List.getD_eq_getElem _ _ (by omega)] at hle
  · intro h i hi hzero
    have hle := h (i - 1) (by omega)
    rw [List.getD_eq_getElem _ _ (by omega), List.getD_eq_getElem _ _ (by omega)]
    simpa [Nat.sub_add_cancel (Nat.pos_of_ne_zero hzero)] using hle

theorem blocked_dims (ht : Strided t) (hblocked : formatOf t = .blocked) : formatDims t = t.dims ∧
    ¬ InnermostIsOne t ∧ ¬ Padded t := by
  have hlayout := (ht.blocked hblocked).1
  have hpadded : ¬ Padded t := fun hp => by
    rw [hp.1] at hlayout
    cases hlayout
  refine ⟨?_, ?_, hpadded⟩
  · rw [formatDims, formatOrder, if_pos hblocked, paddedDims, if_neg hpadded]
    apply List.ext_getElem
    · simp
    · intro i hi _
      simp only [List.length_map, List.length_range] at hi
      simp [hi]
  · simp [InnermostIsOne, hlayout]

theorem descStride_blocked (ht : Strided t) (hpacked : Packed t) (hblocked : formatOf t = .blocked) {i : Nat}
    (hi : i < t.dims.length) : descStride t i = (t.dims.drop (i + 1)).prod := by
  rw [descStride, if_pos hpacked, (blocked_dims ht hblocked).1, formatOrder, if_pos hblocked, idxOf_range hi,
    getD_packedStrides hi]

/-- The strides of a packed tensor fall from each dimension to the next. -/
theorem not_increasing_of_packed (ht : Strided t) (hpacked : Packed t)
    (hblocked : formatOf t = .blocked) : ¬ Increasing t := by
  rintro ⟨i, hi, hzero, hlt⟩
  have hcast : ∀ j < t.dims.length, (descStrides t).getD j 0 = ((t.dims.drop (j + 1)).prod : Int) := by
    intro j hj
    have hlen : (packedStrides t.dims).length = t.dims.length := length_packedStrides
    rw [descStrides, if_pos hpacked, formatOrder, if_pos hblocked, (blocked_dims ht hblocked).1, scatter,
      List.length_range]
    rw [← getD_packedStrides hj]
    simp [idxOf_range hj, hj, hlen]
  rw [hcast i hi, hcast (i - 1) (by omega), Nat.sub_add_cancel (Nat.pos_of_ne_zero hzero),
    List.drop_eq_getElem_cons hi, List.prod_cons] at hlt
  have hle : (t.dims.drop (i + 1)).prod ≤ t.dims[i] * (t.dims.drop (i + 1)).prod :=
    Nat.le_mul_of_pos_left _ (ht.pos _ (List.getElem_mem hi))
  have hlt' : t.dims[i] * (t.dims.drop (i + 1)).prod < (t.dims.drop (i + 1)).prod := by exact_mod_cast hlt
  omega

theorem strides_not_packed (hpacked : ¬ Packed t) (ht : Strided t) : StridesKept t ↔ Kept t := by
  have hdesc : ∀ i, descStride t i = t.blockingDesc.strides.getD (t.blockingDesc.order.getD i 0) 0 :=
    fun i => if_neg hpacked
  unfold StridesKept Kept
  simp only [if_neg hpacked, hdesc]
  by_cases hlast : InnermostIsOne t
  · obtain ⟨horder, -⟩ := order_of_innermost ht hlast
    have hformat : formatOf t ≠ .blocked := fun h => by
      have := (ht.blocked h).1
      rcases hlast with h' | h' <;> rw [h'] at this <;> cases this
    have hstride : ∀ i < t.dims.length, t.strideOf i = t.blockingDesc.strides.getD i 0 := by
      intro i hi
      rw [TensorDesc.strideOf, horder, idxOf_range hi]
    have hget : ∀ i < t.dims.length, t.blockingDesc.order.getD i 0 = i := by
      intro i hi
      rw [horder, List.getD_eq_getElem _ _ (by simpa using hi), List.getElem_range]
    simp only [hlast, true_and, if_true, hformat, false_implies, and_true]
    constructor
    · intro h hone
      have hlt := lt_of_one_lt hone
      have := h _ hone
      rw [if_pos rfl, hstride _ hlt] at this
      exact this.symm
    · intro h i hone
      have hlt := lt_of_one_lt hone
      rw [hstride i hlt, hget i hlt]
      split_ifs with hi
      · subst hi
        exact (h hone).symm
      · rfl
  · simp only [hlast, false_and, if_false, not_increasing_iff ht hpacked]

theorem strides_packed_blocked (ht : Strided t) (hpacked : Packed t)
    (hblocked : formatOf t = .blocked) : StridesKept t ↔ Kept t := by
  obtain ⟨-, hinner, hpadded⟩ := blocked_dims ht hblocked
  have hnot := not_increasing_of_packed ht hpacked hblocked
  unfold StridesKept Kept
  simp only [if_pos hpacked, hinner, false_and, if_false, hnot, not_false_eq_true, implies_true, and_true, hpadded,
    false_implies, hblocked, true_implies, true_and]
  apply forall_congr'
  intro i
  refine imp_congr_right fun hi => ?_
  rw [descStride_blocked ht hpacked hblocked (lt_of_one_lt hi), eq_comm]

theorem formatDims_of_not_padded (ht : Strided t) (hpadded : ¬ Padded t) (hblocked : formatOf t ≠ .blocked) :
    formatDims t = t.blockingDesc.blockedDims := by
  rw [formatDims, formatOrder, if_neg hblocked, paddedDims, if_neg hpadded, ht.blocks]

theorem strides_packed (ht : Strided t) (hfill : Fillable t) (hpacked : Packed t) (hblocked : formatOf t ≠ .blocked)
    (hpadded : ¬ Padded t) : StridesKept t ∧ Kept t := by
  have hdims := formatDims_of_not_padded ht hpadded hblocked
  have hfit : t.blockingDesc.blockedDims.tail.prod < 2 ^ 64 := by
    have := hfill.2.2
    rw [hdims] at this
    omega
  have hstride : ∀ i, descStride t i = t.strideOf i := by
    intro i
    rw [descStride, if_pos hpacked, packed_strideOf ht hpacked hfit, hdims, formatOrder, if_neg hblocked]
  refine ⟨⟨?_, fun h => absurd h hblocked⟩, ?_⟩
  · intro i hi
    have hlt := lt_of_one_lt hi
    split_ifs with hlast
    · obtain ⟨horder, -⟩ := order_of_innermost ht hlast.1
      have hlen : t.blockingDesc.blockedDims.length = t.dims.length := by
        rw [ht.blocks, List.length_map, ht.rank]
      rw [packed_strideOf ht hpacked hfit, horder, idxOf_range hlt, getD_packedStrides (hlen ▸ hlt),
        List.drop_eq_nil_of_le (by omega), List.prod_nil]
    · exact hstride i
  · unfold Kept
    simp only [if_pos hpacked]
    exact ⟨fun h => absurd h hpadded, fun h => absurd h hblocked⟩

/-- The four strides of a packed NHWC tensor. -/
theorem strides_nhwc {n c h w : Nat} : ∀ i < 4, (packedStrides [n, h, w, c]).getD ([0, 2, 3, 1].idxOf i) 0 =
    [h * (w * c), 1, w * c, c].getD i 0 := by
  intro i hi
  have hprod : packedStrides [n, h, w, c] = [h * (w * c), w * c, c, 1] := by simp [packedStrides]
  rw [hprod]
  interval_cases i <;> rfl

theorem strides_packed_padded (ht : Strided t) (hfill : Fillable t) (hpacked : Packed t) (hpadded : Padded t) :
    StridesKept t ↔ Kept t := by
  have horder : t.blockingDesc.order = [0, 2, 3, 1] := by
    rcases ht.layout with ⟨h, -⟩ | ⟨-, ho⟩ | ⟨h, -⟩ | ⟨h, -⟩ | ⟨h, -⟩
    · rw [hpadded.1] at h
      cases h
    · exact ho
    · rw [hpadded.1] at h
      cases h
    · rw [hpadded.1] at h
      cases h
    · rw [hpadded.1] at h
      cases h
  obtain ⟨n, c, h, w, hdims⟩ := List.length_eq_four.mp (ht.rank.trans (by rw [horder]; rfl))
  have hformat : formatOf t ≠ .blocked := by simp [formatOf, hpadded.1]
  have hinner : ¬ InnermostIsOne t := by simp [InnermostIsOne, hpadded.1]
  have hformatDims : formatDims t = [n, h, w, (c + 7) / 8 * 8] := by
    simp [formatDims, formatOrder, hformat, horder, paddedDims, hpadded, hdims]
  have hblocks : t.blockingDesc.blockedDims = [n, h, w, c] := by
    rw [ht.blocks, horder, hdims]
    rfl
  have hpos : 0 < n ∧ 0 < c ∧ 0 < h ∧ 0 < w := by
    have := ht.pos
    rw [hdims] at this
    simpa using this
  have hceil : c ≤ (c + 7) / 8 * 8 := by omega
  have hfit : t.blockingDesc.blockedDims.tail.prod < 2 ^ 64 := by
    have hlt := hfill.2.2
    rw [hformatDims] at hlt
    rw [hblocks]
    simp only [List.tail_cons, List.prod_cons, List.prod_nil, Nat.mul_one] at hlt ⊢
    have hle : h * (w * c) ≤ h * (w * ((c + 7) / 8 * 8)) := Nat.mul_le_mul_left _ (Nat.mul_le_mul_left _ hceil)
    omega
  have hdesc : ∀ i < 4, descStride t i =
      [h * (w * ((c + 7) / 8 * 8)), 1, w * ((c + 7) / 8 * 8), (c + 7) / 8 * 8].getD i 0 := by
    intro i hi
    rw [descStride, if_pos hpacked, formatOrder, if_neg hformat, horder, hformatDims, strides_nhwc i hi]
  have hstride : ∀ i < 4, t.strideOf i = [h * (w * c), 1, w * c, c].getD i 0 := by
    intro i hi
    rw [packed_strideOf ht hpacked hfit, horder, hblocks, strides_nhwc i hi]
  have hkept : StridesKept t ↔ ∀ i, 1 < t.dims.getD i 0 →
      [h * (w * ((c + 7) / 8 * 8)), 1, w * ((c + 7) / 8 * 8), (c + 7) / 8 * 8].getD i 0 =
        [h * (w * c), 1, w * c, c].getD i 0 := by
    unfold StridesKept
    simp only [hinner, false_and, if_false, hformat, false_implies, and_true]
    apply forall_congr'
    intro i
    refine imp_congr_right fun hi => ?_
    have hlt : i < 4 := by
      have := lt_of_one_lt hi
      rwa [hdims] at this
    rw [hdesc i hlt, hstride i hlt]
  have hKept : Kept t ↔ (8 ∣ c ∨ ∀ i, i ≠ 1 → [n, c, h, w].getD i 0 ≤ 1) := by
    unfold Kept
    simp only [if_pos hpacked, hpadded, true_implies, hformat, false_implies, and_true, hdims,
      List.getD_cons_succ, List.getD_cons_zero]
  rw [hkept, hKept, hdims]
  by_cases hdvd : 8 ∣ c
  · have hround : (c + 7) / 8 * 8 = c := by omega
    simp only [hdvd, true_or, hround, implies_true]
  · have hround : (c + 7) / 8 * 8 ≠ c := by omega
    have hw : w * ((c + 7) / 8 * 8) ≠ w * c := fun h' => hround (Nat.eq_of_mul_eq_mul_left hpos.2.2.2 h')
    have hh : h * (w * ((c + 7) / 8 * 8)) ≠ h * (w * c) := fun h' => hw (Nat.eq_of_mul_eq_mul_left hpos.2.2.1 h')
    simp only [hdvd, false_or]
    constructor
    · intro hsame i hi
      by_contra hone
      have heq := hsame i (by omega)
      match i, hi with
      | 0, _ => exact hh heq
      | 2, _ => exact hw heq
      | 3, _ => exact hround heq
      | _ + 4, _ => simp at hone
    · intro hone i hi
      have hi1 : i = 1 := by
        by_contra hne
        have := hone i hne
        omega
      subst hi1
      rfl

theorem stridesKept_iff (ht : Strided t) (hfill : Fillable t) : StridesKept t ↔ Kept t := by
  by_cases hpacked : Packed t
  · by_cases hblocked : formatOf t = .blocked
    · exact strides_packed_blocked ht hpacked hblocked
    · by_cases hpadded : Padded t
      · exact strides_packed_padded ht hfill hpacked hpadded
      · obtain ⟨h, h'⟩ := strides_packed ht hfill hpacked hblocked hpadded
        exact iff_of_true h h'
  · exact strides_not_packed hpacked ht

theorem sameOffsets_back (ht : Strided t) (hfill : Fillable t) : t.SameOffsets (back t dt) ↔
    ∀ i, 1 < t.dims.getD i 0 →
      (if InnermostIsOne t ∧ i = t.dims.length - 1 then 1 else descStride t i) = t.strideOf i := by
  have hlt : ∀ i, t.strideOf i < 2 ^ 64 := fun i => getD_lt ht.strides_lt (by omega) _
  have hbacklt : ∀ i, (back t dt).strideOf i < 2 ^ 64 := by
    intro i
    by_cases hi : i < t.dims.length
    · rw [strideOf_back ht hfill hi]
      split_ifs
      · omega
      · exact descStride_lt ht hfill i
    · have hnot : i ∉ formatOrder t := fun h => hi (List.mem_range.mp ((formatOrder_perm ht).mem_iff.mp h))
      have hidx : (formatOrder t).idxOf i = (formatOrder t).length := List.idxOf_eq_length hnot
      have hback : (back t dt).strideOf i = (backStrides t dt).getD ((formatOrder t).idxOf i) 0 := rfl
      rw [hback, hidx, List.getD_eq_default _ _ (by rw [length_backStrides ht, length_formatOrder ht])]
      omega
  rw [TensorDesc.sameOffsets_iff ht.plain (plain_back ht) rfl rfl ht.padding ht.pos hlt hbacklt]
  apply forall_congr'
  intro i
  refine imp_congr_right fun hi => ?_
  rw [strideOf_back ht hfill (lt_of_one_lt hi)]

/-- The conversion to a memory descriptor and back. -/
def roundTrip (t : TensorDesc) : Result TensorDesc := do
  let desc ← ofTensorDesc t
  toTensorDesc desc

/-- **Memory descriptors there and back.** A tensor comes back with the offsets it had if and only if its packed
strides can be computed and its own are among those that the conversions keep. -/
theorem roundTrip_iff (ht : Strided t) :
    (∃ t', roundTrip t = .ok t' ∧ t.SameOffsets t') ↔ Fillable t ∧ Kept t := by
  obtain ⟨dt, hdt⟩ : ∃ dt, dataTypeOf t.precision = .ok dt := by
    have hprecision := ht.precision
    revert hprecision
    cases t.precision <;> simp [dataTypeOf, pure, Except.pure]
  by_cases hfill : Fillable t
  · rw [← stridesKept_iff ht hfill]
    have hto := ofTensorDesc_ok ht hdt hfill
    have hsame : t.SameOffsets (back t dt) ↔ _ := sameOffsets_back ht hfill
    have hrun : roundTrip t = toTensorDesc (stridedDesc t dt) := by
      rw [roundTrip, hto]
      rfl
    rw [hrun]
    by_cases hinc : formatOf t = .blocked ∧ Increasing t
    · obtain ⟨e, he⟩ : ∃ e, blocksOf (stridedDesc t dt) t.precision t.dims = .error e :=
        (blocksOf_blocked ht hinc.1).1 hinc.2
      rw [toTensorDesc_error ht hdt he]
      constructor
      · rintro ⟨t', h, -⟩
        cases h
      · rintro ⟨-, -, hkept⟩
        exact absurd hinc.2 (hkept hinc.1)
    · have hblocks : blocksOf (stridedDesc t dt) t.precision t.dims = .ok (t.layout, formatOrder t, formatDims t) := by
        by_cases hblocked : formatOf t = .blocked
        · exact (blocksOf_blocked ht hblocked).2 fun h => hinc ⟨hblocked, h⟩
        · exact blocksOf_eq ht hblocked hfill
      rw [toTensorDesc_ok ht hdt hblocks]
      constructor
      · rintro ⟨t', h, hoffsets⟩
        obtain rfl := Except.ok.inj h
        exact ⟨hfill, hsame.mp hoffsets, fun hblocked h => hinc ⟨hblocked, h⟩⟩
      · rintro ⟨-, hkept, -⟩
        exact ⟨_, rfl, hsame.mpr hkept⟩
  · obtain ⟨e, he⟩ := ofTensorDesc_error ht hdt hfill
    constructor
    · rintro ⟨t', h, -⟩
      rw [roundTrip, he] at h
      cases h
    · rintro ⟨h, -⟩
      exact absurd h hfill

/-- An image with room after its rows. -/
def paddedRows (layout : Layout) (dims blockedDims order strides : SizeVector) : TensorDesc where
  precision := .FP32
  dims := dims
  layout := layout
  blockingDesc :=
    { blockedDims, order, strides, offsetPaddingToData := List.replicate order.length 0, offsetPadding := 5 }

theorem roundTrip_iff_nchw :
    (∃ t', roundTrip (paddedRows .NCHW [1, 3, 2, 2] [1, 3, 2, 2] [0, 1, 2, 3] [24, 8, 4, 1]) = .ok t' ∧
      (paddedRows .NCHW [1, 3, 2, 2] [1, 3, 2, 2] [0, 1, 2, 3] [24, 8, 4, 1]).SameOffsets t') := by
  have ht : Strided (paddedRows .NCHW [1, 3, 2, 2] [1, 3, 2, 2] [0, 1, 2, 3] [24, 8, 4, 1]) := by
    refine ⟨by decide, .inl ⟨rfl, rfl⟩, rfl, by decide, by decide, rfl, rfl, by decide, rfl, by decide⟩
  refine (roundTrip_iff ht).mpr ⟨⟨by decide, ?_, by decide⟩, ?_⟩
  · rintro ⟨h, -⟩
    cases h
  · exact fun _ => rfl

/-- The strides of a padded NHWC image are mixed up. -/
theorem not_roundTrip_nhwc : ∃ t', Strided (paddedRows .NHWC [1, 2, 2, 2] [1, 2, 2, 2] [0, 2, 3, 1] [16, 8, 2, 1]) ∧
    roundTrip (paddedRows .NHWC [1, 2, 2, 2] [1, 2, 2, 2] [0, 2, 3, 1] [16, 8, 2, 1]) = .ok t' ∧
    [0, 1, 0, 0] ∈ box [1, 2, 2, 2] ∧
    (paddedRows .NHWC [1, 2, 2, 2] [1, 2, 2, 2] [0, 2, 3, 1] [16, 8, 2, 1]).offset [0, 1, 0, 0] = .ok 6 ∧
    t'.offset [0, 1, 0, 0] = .ok 7 := by
  refine ⟨_, ?_, rfl, by decide, rfl, rfl⟩
  exact ⟨by decide, .inr (.inl ⟨rfl, rfl⟩), rfl, by decide, by decide, rfl, rfl, by decide, rfl, by decide⟩

end MKLDNNMemoryDesc

end OpenVino.MKLDNNPlugin
