import OpenVino.InferenceEngine.TensorOffset

/-!
# Setting the dimensions

`setDims` builds a new blocking descriptor for the new dimensions, except in the layout `BLOCKED`: there it keeps
the blocks of the old ones. `setDims_usable`: the addresses of the new tensor are good if and only if the old
blocks have room for the new dimensions.
-/

namespace OpenVino.InferenceEngine

variable {dims newDims order v w : SizeVector} {D : SizeVector} {d : BlockingDesc} {layout : Layout}

/-! ### Layouts that order whole dimensions -/

theorem blockSize_map {f : Nat → Nat} (hnodup : order.Nodup) (i : Nat) :
    blockSize (order.zip (order.map f)) i = if i ∈ order then f i else 1 := by
  induction order with
  | nil => simp [blockSize]
  | cons o order ih =>
    obtain ⟨ho, hnodup⟩ := List.nodup_cons.mp hnodup
    rw [List.map_cons, List.zip_cons_cons]
    by_cases hoi : o = i
    · subst hoi
      rw [blockSize_cons_self, ih hnodup, if_neg ho, Nat.mul_one, if_pos List.mem_cons_self]
    · rw [blockSize_cons_of_ne hoi, ih hnodup]
      simp [Ne.symm hoi]

/-- The blocks are the dimensions in some order. -/
def BlockingDesc.Permutes (d : BlockingDesc) (dims : SizeVector) : Prop :=
  d = filled (d.order.map (dims.getD · 0)) d.order ∧ d.order.Perm (List.range dims.length)

theorem BlockingDesc.permutes_of_fillDesc {D : SizeVector} (h : fillDesc D order = .ok d)
    (hD : D = order.map (dims.getD · 0)) (horder : order.Perm (List.range dims.length)) : d.Permutes dims := by
  subst hD
  obtain ⟨-, -, rfl⟩ := fillDesc_ok h
  exact ⟨rfl, horder⟩

theorem BlockingDesc.permutes_of_ofLayout (hlayout : layout ≠ .ANY ∧ layout ≠ .SCALAR)
    (h : ofLayout dims layout = .ok d) : d.Permutes dims := by
  unfold ofLayout at h
  split_ifs at h with hnil
  · obtain rfl := pure_ok_iff.mp h
    subst hnil
    exact ⟨rfl, List.Perm.refl []⟩
  · dsimp only at h
    split at h
    · exact absurd rfl hlayout.2
    · exact absurd rfl hlayout.1
    · exact permutes_of_fillDesc h rfl (.refl _)
    · exact permutes_of_fillDesc h rfl (.refl _)
    · exact permutes_of_fillDesc h rfl (.refl _)
    · exact permutes_of_fillDesc h rfl (.refl _)
    · exact permutes_of_fillDesc h rfl (show List.Perm [0, 2, 3, 1] (List.range 4) by decide)
    · exact permutes_of_fillDesc h rfl (show List.Perm [0, 2, 3, 4, 1] (List.range 5) by decide)
    · exact permutes_of_fillDesc h rfl (.refl _)
    · exact permutes_of_fillDesc h rfl (show List.Perm [1, 0] (List.range 2) by decide)
    · exact permutes_of_fillDesc h rfl (.refl _)
    · exact permutes_of_fillDesc h rfl (.refl _)
    · refine permutes_of_fillDesc h ?_ (.refl _)
      apply List.ext_getElem
      · simp
      · intro i hi _
        simp [hi]
    · exact absurd h throwException_ne_ok

namespace TensorDesc

variable {t t' : TensorDesc}

theorem fits_of_permutes (h : d.Permutes dims) : Fits (d.order.zip d.blockedDims) dims := by
  intro i
  have hnodup : d.order.Nodup := h.2.nodup_iff.mpr List.nodup_range
  have hblocked : d.blockedDims = d.order.map (dims.getD · 0) := by
    rw [h.1]
    rfl
  rw [hblocked, blockSize_map hnodup]
  split_ifs with hi
  · exact le_rfl
  · rw [h.2.mem_iff, List.mem_range] at hi
    rw [List.getD_eq_default _ _ (by omega)]
    exact Nat.zero_le 1

theorem prod_of_permutes (h : d.Permutes dims) : d.blockedDims.prod = dims.prod := by
  have hblocked : d.blockedDims = d.order.map (dims.getD · 0) := by
    rw [h.1]
    rfl
  have hdims : (List.range dims.length).map (dims.getD · 0) = dims := by
    apply List.ext_getElem
    · simp
    · intro i hi _
      simp at hi
      simp [hi]
  rw [hblocked, (h.2.map _).prod_eq, hdims]

/-! ### The result of `setDims` -/

theorem dense_filled {blocked : SizeVector} (hlayout : t.layout ≠ .ANY ∧ t.layout ≠ .SCALAR)
    (hd : t.blockingDesc = .filled blocked order) (hlen : order.length = blocked.length) : t.Dense := by
  refine ⟨hlayout, ?_, ?_, ?_⟩
  · rw [hd]
    exact hlen
  · rw [hd]
    rfl
  · rw [hd]
    simpa [BlockingDesc.filled] using hlen

theorem constructed_order (hd : d.Constructed) : d.blockedDims = [] ∨ d.order.length = d.blockedDims.length := by
  have hfilled : ∀ {blocked order d}, BlockingDesc.fillDesc blocked order = .ok d →
      d.order.length = d.blockedDims.length := by
    intro blocked order d h
    obtain ⟨hlen, -, rfl⟩ := BlockingDesc.fillDesc_ok h
    exact hlen
  have hofOrder : ∀ {blocked order d}, BlockingDesc.ofOrder blocked order = .ok d →
      d.blockedDims = [] ∨ d.order.length = d.blockedDims.length := by
    intro blocked order d h
    rcases BlockingDesc.ofOrder_ok h with ⟨-, rfl⟩ | ⟨hlen, -, rfl⟩
    · exact .inl rfl
    · exact .inr hlen
  cases hd with
  | default => exact .inl rfl
  | @ofLayout dims layout _ h =>
    by_cases hlayout : layout ≠ .ANY ∧ layout ≠ .SCALAR
    · have hperm := BlockingDesc.permutes_of_ofLayout hlayout h
      rw [hperm.1]
      exact .inr (by simp [BlockingDesc.filled])
    · rw [not_and_or, not_not, not_not] at hlayout
      have hempty : BlockingDesc.ofLayout dims layout = .ok {} := by
        rcases hlayout with rfl | rfl <;> simp [BlockingDesc.ofLayout, pure, Except.pure]
      rw [← Except.ok.inj (hempty.symm.trans h)]
      exact .inl rfl
  | ofOrder h => exact hofOrder h
  | @ofOffset blocked order offset _ h =>
    have h' : _ ∨ BlockingDesc.ofDimOffsets blocked order offset [] = .ok d := .inl h
    obtain ⟨d₀, hd₀, hd, -⟩ := BlockingDesc.ofOrder_of_ofOffset h'
    have := hofOrder hd₀
    rw [hd]
    exact this
  | ofDimOffsets h =>
    obtain ⟨d₀, hd₀, hd, -⟩ := BlockingDesc.ofOrder_of_ofOffset (.inr h)
    have := hofOrder hd₀
    rw [hd]
    exact this
  | ofStrides h =>
    unfold BlockingDesc.ofStrides at h
    obtain ⟨d₀, hd₀, h⟩ := bind_ok_iff.mp h
    split_ifs at h
    · exact absurd h throwException_ne_ok
    · exact absurd h throwException_ne_ok
    · obtain rfl := pure_ok_iff.mp h
      have := hofOrder hd₀
      exact this

/-- The blocks that a `BLOCKED` descriptor has when it is built. -/
theorem constructed_blocked (ht : t.Constructed) (hlayout : t.layout = .BLOCKED) :
    t.dims = [] ∧ t.blockingDesc = {} ∨
      t.blockingDesc.blockedDims ≠ [] ∧ t.blockingDesc.order ≠ [] ∧
        t.blockingDesc.order.length = t.blockingDesc.blockedDims.length ∧
        ∀ o ∈ t.blockingDesc.order, o < t.dims.length := by
  cases ht with
  | @ofLayout precision dims layout _ h =>
    unfold ofLayout at h
    obtain ⟨d, hd, h⟩ := bind_ok_iff.mp h
    obtain rfl := pure_ok_iff.mp h
    obtain rfl : layout = .BLOCKED := hlayout
    by_cases hdims : dims = []
    · subst hdims
      exact .inl ⟨rfl, (Except.ok.inj hd).symm⟩
    · obtain ⟨heq, hperm⟩ := BlockingDesc.permutes_of_ofLayout (by simp) hd
      have hlen : d.order.length = dims.length := by simpa using hperm.length_eq
      have hblocked : d.blockedDims.length = d.order.length := by
        rw [heq]
        simp [BlockingDesc.filled]
      have hpos := List.length_pos_of_ne_nil hdims
      have hne : d.blockedDims ≠ [] := List.ne_nil_of_length_pos (by omega)
      have hord : d.order ≠ [] := List.ne_nil_of_length_pos (by omega)
      refine .inr ⟨hne, hord, hblocked.symm, ?_⟩
      intro o ho
      exact List.mem_range.mp (hperm.mem_iff.mp ho)
  | ofPrecision => exact .inl ⟨rfl, rfl⟩
  | ofBlocking hd h =>
    rcases ofBlocking_ok h with ⟨-, rfl⟩ | ⟨hne, hmax, rfl⟩
    · cases hlayout
    · have hlen := (constructed_order hd).resolve_left hne.2
      refine .inr ⟨hne.2, ?_, hlen, lt_of_max hmax hne.1⟩
      apply List.ne_nil_of_length_pos
      rw [hlen]
      exact List.length_pos_of_ne_nil hne.2
  | default => cases hlayout

/-- What `setDims` builds in a layout with addresses. -/
theorem setDims_dense (ht : t.Constructed) (hlayout : t.layout ≠ .ANY ∧ t.layout ≠ .SCALAR)
    (hrank : newDims.length = t.dims.length) (h : t.setDims newDims = .ok t') :
    t'.Dense ∧ t'.blockingDesc = .filled t'.blockingDesc.blockedDims t'.blockingDesc.order ∧
      (∀ b ∈ t'.radices, b.1 < newDims.length) ∧
      (if t.layout = .BLOCKED then t'.radices = t.radices ∧ t'.blockingDesc.blockedDims = t.blockingDesc.blockedDims
        else t'.blockingDesc.Permutes newDims) := by
  unfold setDims at h
  obtain ⟨d, hd, h⟩ := bind_ok_iff.mp h
  obtain rfl := pure_ok_iff.mp h
  by_cases hblocked : t.layout = .BLOCKED
  · simp only [if_pos hblocked] at hd ⊢
    rcases constructed_blocked ht hblocked with ⟨hdims, hdesc⟩ | ⟨hne, hord, hlen, hlt⟩
    · have hnew : newDims = [] := by
        rw [hdims] at hrank
        exact List.length_eq_zero_iff.mp hrank
      subst hnew
      simp only [hdesc] at hd
      obtain rfl : {} = d := Except.ok.inj hd
      have hfilled : ({} : BlockingDesc) = .filled [] [] := rfl
      refine ⟨dense_filled hlayout hfilled rfl, rfl, ?_, ?_⟩
      · intro b hb
        cases hb
      · rw [radices, radices, hdesc]
        exact ⟨rfl, rfl⟩
    · rw [if_neg hne, if_neg hord] at hd
      rcases BlockingDesc.ofOrder_ok hd with ⟨hnil, -⟩ | ⟨-, -, rfl⟩
      · exact absurd hnil (by simp [hne, hord])
      · refine ⟨dense_filled hlayout rfl hlen, rfl, ?_, rfl, rfl⟩
        intro b hb
        rw [hrank]
        exact hlt b.1 (List.of_mem_zip hb).1
  · simp only [if_neg hblocked, hlayout.2, false_and, if_false] at hd ⊢
    have hperm := BlockingDesc.permutes_of_ofLayout hlayout hd
    have hlen : d.order.length = d.blockedDims.length := by
      rw [hperm.1]
      simp [BlockingDesc.filled]
    have hfilled : d = .filled d.blockedDims d.order := by
      conv_lhs => rw [hperm.1]
      conv_rhs => rw [hperm.1]
      rfl
    refine ⟨dense_filled hlayout hfilled hlen, hfilled, ?_, hperm⟩
    intro b hb
    exact List.mem_range.mp (hperm.2.mem_iff.mp (List.of_mem_zip hb).1)

/-! ### Usable addresses -/

/-- `offset` is defined on the coordinates inside `dims` (it may throw), gives no address twice and stays within
the size of the blocks. -/
structure Usable (t : TensorDesc) (dims : SizeVector) : Prop where
  defined : ∀ v ∈ box dims, ∀ e, t.offset v ≠ .error (.undefinedBehaviour e)
  injective : ∀ v ∈ box dims, ∀ w ∈ box dims, ∀ a, t.offset v = .ok a → t.offset w = .ok a → v = w
  bounded : ∀ v ∈ box dims, ∀ a, t.offset v = .ok a → a ≤ t.blockingDesc.blockedDims.prod

/-- A block of size zero divides by zero. -/
theorem blockedShift_undefined {l : List (Nat × Nat)} (hdims : ∀ b ∈ l, b.1 < v.length) (hzero : ∃ b ∈ l, b.2 = 0) :
    ∃ e, blockedShift l v = .error (.undefinedBehaviour e) := by
  induction l with
  | nil =>
    obtain ⟨b, hb, -⟩ := hzero
    cases hb
  | cons b l ih =>
    have hdimsl : ∀ c ∈ l, c.1 < v.length := fun c hc => hdims c (List.mem_cons_of_mem _ hc)
    by_cases hpos : ∀ c ∈ l, 0 < c.2
    · obtain ⟨off_v, hrun, hlen, -⟩ := blockedShift_ok hpos hdimsl
      have hb : b.2 = 0 := by
        obtain ⟨c, hc, hc0⟩ := hzero
        rcases List.mem_cons.mp hc with rfl | hc
        · exact hc0
        · exact absurd hc0 (hpos c hc).ne'
      have hin : b.1 < off_v.length := hlen ▸ hdims b List.mem_cons_self
      refine ⟨"off_v[order[n_blocked_dims - i]] % blockedDims[n_blocked_dims - i]", ?_⟩
      obtain ⟨order, dim⟩ := b
      rw [blockedShift, hrun]
      simp only at hb hin
      simp [bind, Except.bind, elemAt, hin, hb]
    · push Not at hpos
      obtain ⟨c, hc, hc0⟩ := hpos
      obtain ⟨e, he⟩ := ih hdimsl ⟨c, hc, Nat.le_zero.mp hc0⟩
      refine ⟨e, ?_⟩
      obtain ⟨order, dim⟩ := b
      rw [blockedShift, he]
      rfl

/-- The coordinate that uses up the blocks of its dimension has the digits of the origin. -/
theorem digits_axis {i n : Nat} (hpos : ∀ b ∈ t.radices, 0 < b.2) (hi : i < n) :
    t.digits ((List.replicate n 0).set i (blockSize t.radices i)) = t.digits (List.replicate n 0) := by
  have haxis : (((List.replicate n 0).set i (blockSize t.radices i)).getD · 0) =
      Function.update (0 : Nat → Nat) i (1 * blockSize t.radices i) := by
    funext j
    by_cases hij : j = i
    · subst hij
      simp [hi]
    · rw [Function.update_of_ne hij]
      by_cases hj : j < n
      · simp [Ne.symm hij, hj]
      · simp [hj]
  have horigin : ((List.replicate n 0).getD · 0) = (0 : Nat → Nat) := by
    funext j
    by_cases hj : j < n <;> simp [hj]
  rw [digits, digits, haxis, horigin, splitDigits_mul_blockSize hpos, splitDigits_zero]

section Dense

variable (hdense : t.Dense) (hfilled : t.blockingDesc = .filled t.blockingDesc.blockedDims t.blockingDesc.order)
  (hdims : ∀ b ∈ t.radices, b.1 < dims.length)

include hdense hfilled hdims

/-- Without offsets the offset is the number of the digits, modulo the range of `size_t`. -/
theorem offset_filled (hpos : ∀ b ∈ t.radices, 0 < b.2) (hv : v.length = dims.length) :
    t.offset v = .ok (encode t.blockingDesc.blockedDims (t.digits v) % 2 ^ 64) := by
  obtain ⟨a, ha, hmod, hlt⟩ := hdense.offset_eq hpos fun b hb => hv ▸ hdims b hb
  have hpad : t.blockingDesc.offsetPadding = 0 := by
    rw [hfilled]
    rfl
  have hzero : t.blockingDesc.offsetPaddingToData = List.replicate t.blockingDesc.blockedDims.length 0 := by
    rw [← hdense.order]
    conv_lhs => rw [hfilled]
    rfl
  rw [hzero, encode_replicate_zero, Nat.add_zero, hpad, Nat.zero_add] at hmod
  have halt := hlt (.inr (by rw [hpad]; exact Nat.two_pow_pos 64))
  rw [ha, ← hmod, Nat.mod_eq_of_lt halt]

theorem usable_of_fits (hfits : Fits t.radices dims) (hprod : t.blockingDesc.blockedDims.prod ≤ 2 ^ 64) :
    t.Usable dims := by
  have hoffset : ∀ v ∈ box dims,
      t.offset v = .ok (encode t.blockingDesc.blockedDims (t.digits v) % 2 ^ 64) := fun v hv =>
    offset_filled hdense hfilled hdims (blocks_pos hfits hdims hv) (mem_box.mp hv).length_eq
  refine ⟨?_, ?_, ?_⟩
  · intro v hv e h
    rw [hoffset v hv] at h
    cases h
  · intro v hv w hw a hva hwa
    exact hdense.offset_injective hfits hdims hprod hv hw hva hwa
  · intro v hv a ha
    rw [hoffset v hv] at ha
    rw [← Except.ok.inj ha]
    have hlt := encode_lt (hdense.digits_lt (v := v) (blocks_pos hfits hdims hv))
    exact (Nat.mod_le _ _).trans hlt.le

theorem fits_of_usable (hposdims : ∀ X ∈ dims, 0 < X) (h : t.Usable dims) : Fits t.radices dims := by
  have hzeros := origin_mem_box hposdims
  have hpos : ∀ b ∈ t.radices, 0 < b.2 := by
    by_contra hneg
    push Not at hneg
    obtain ⟨b, hb, hb0⟩ := hneg
    obtain ⟨e, he⟩ := blockedShift_undefined (v := List.replicate dims.length 0) (l := t.radices)
      (by simpa using hdims) ⟨b, hb, Nat.le_zero.mp hb0⟩
    apply h.defined _ hzeros e
    have hsize : t.blockingDesc.strides.length = t.blockingDesc.blockedDims.length := by
      rw [hdense.strides, BlockingDesc.length_fillStrides]
    rw [radices] at he
    rw [offset, if_neg hdense.layout.1, if_neg hdense.layout.2, if_neg (by rw [hsize, hdense.order]; simp), he]
    rfl
  intro i
  by_contra hlt
  have hsize := blockSize_pos (i := i) hpos
  have hi : i < dims.length := by
    by_contra hge
    rw [List.getD_eq_default _ _ (by omega)] at hlt
    omega
  have haxis := axis_mem_box hposdims (Nat.lt_of_not_le hlt)
  have haxisOffset := offset_filled hdense hfilled hdims hpos (mem_box.mp haxis).length_eq
  rw [digits_axis hpos hi] at haxisOffset
  have heq := h.injective _ haxis _ hzeros _ haxisOffset
    (offset_filled hdense hfilled hdims hpos (mem_box.mp hzeros).length_eq)
  have hentry := congrArg (·.getD i 0) heq
  simp [hi] at hentry
  omega

/-- The addresses of `size_t` are enough for the elements only if there are no more of these. -/
theorem prod_le_of_usable (hfits : Fits t.radices dims) (h : t.Usable dims) : dims.prod ≤ 2 ^ 64 := by
  have hoffset : ∀ v ∈ box dims,
      t.offset v = .ok (encode t.blockingDesc.blockedDims (t.digits v) % 2 ^ 64) := fun v hv =>
    offset_filled hdense hfilled hdims (blocks_pos hfits hdims hv) (mem_box.mp hv).length_eq
  let address (v : SizeVector) := encode t.blockingDesc.blockedDims (t.digits v) % 2 ^ 64
  have hnodup : ((box dims).map address).Nodup := nodup_box.map_on fun v hv w hw hvw =>
    h.injective v hv w hw (address v) (hoffset v hv) (hvw ▸ hoffset w hw)
  have hsub : (box dims).map address ⊆ List.range (2 ^ 64) := by
    intro a ha
    obtain ⟨v, -, rfl⟩ := List.mem_map.mp ha
    exact List.mem_range.mpr (Nat.mod_lt _ (Nat.two_pow_pos 64))
  have hle := (hnodup.subperm hsub).length_le
  rwa [List.length_map, length_box, List.length_range] at hle

end Dense

/-- What the new dimensions need: room in the old blocks where these stay, and otherwise that the elements can
be counted in `size_t`. -/
def Room (t : TensorDesc) (newDims : SizeVector) : Prop :=
  match t.layout with
  | .ANY | .SCALAR => True
  | .BLOCKED => Fits t.radices newDims
  | _ => newDims.prod ≤ 2 ^ 64

theorem setDims_layout (h : t.setDims newDims = .ok t') : t'.layout = t.layout := by
  unfold setDims at h
  obtain ⟨d, -, h⟩ := bind_ok_iff.mp h
  rw [← pure_ok_iff.mp h]

theorem usable_of_ANY (hlayout : t.layout = .ANY) : t.Usable dims := by
  have hthrows : ∀ v, t.offset v = throwException "Cannot calculate offset for any format!" := by
    intro v
    rw [offset, if_pos hlayout]
  refine ⟨?_, ?_, ?_⟩
  · intro v _ e h
    rw [hthrows v] at h
    cases h
  · intro v _ w _ a h
    exact absurd ((hthrows v).symm.trans h) throwException_ne_ok
  · intro v _ a h
    exact absurd ((hthrows v).symm.trans h) throwException_ne_ok

/-- A scalar takes no dimensions but `[1]`. -/
theorem usable_of_SCALAR (hlayout : t.layout = .SCALAR) (h : t.setDims newDims = .ok t') : t'.Usable newDims := by
  have hlayout' := (setDims_layout h).trans hlayout
  unfold setDims at h
  obtain ⟨d, hd, h⟩ := bind_ok_iff.mp h
  obtain rfl := pure_ok_iff.mp h
  rw [if_neg (by simp [hlayout])] at hd
  split_ifs at hd with hsize
  · exact absurd hd throwException_ne_ok
  have hd : {} = d := by
    rw [hlayout] at hd
    unfold BlockingDesc.ofLayout at hd
    split_ifs at hd <;> exact pure_ok_iff.mp hd
  have hdims : newDims = [] ∨ newDims = [1] := by
    simp only [hlayout, true_and, not_or, not_and, not_not] at hsize
    by_cases hone : newDims.length = 1
    · exact .inr (hsize.2 hone)
    · exact .inl (List.length_eq_zero_iff.mp (by omega))
  have hoffset : ∀ v, offset { t with blockingDesc := d, dims := if t.layout = .SCALAR then t.dims else newDims } v =
      .ok 0 := by
    intro v
    rw [offset, if_neg (by simp [hlayout]), if_pos hlayout, ← hd]
    rfl
  refine ⟨?_, ?_, ?_⟩
  · intro v _ e h
    rw [hoffset v] at h
    cases h
  · intro v hv w hw _ _ _
    rcases hdims with rfl | rfl
    · simp only [box, List.mem_singleton] at hv hw
      rw [hv, hw]
    · simp only [box, List.range_one, List.flatMap_singleton, List.map_singleton, List.mem_singleton] at hv hw
      rw [hv, hw]
  · intro v _ a h
    rw [hoffset v] at h
    rw [← Except.ok.inj h]
    exact Nat.zero_le _

/-- **Setting the dimensions.** After `setDims` the addresses are usable only if the old descriptor has room for
the new dimensions, and then they are, when the blocks that a `BLOCKED` descriptor keeps fit into `size_t`. -/
theorem setDims_usable (ht : t.Constructed) (hrank : newDims.length = t.dims.length)
    (hpos : ∀ X ∈ newDims, 0 < X) (h : t.setDims newDims = .ok t') :
    (t'.Usable newDims → t.Room newDims) ∧
    (t.Room newDims → (t.layout = .BLOCKED → t.blockingDesc.blockedDims.prod ≤ 2 ^ 64) → t'.Usable newDims) := by
  by_cases hany : t.layout = .ANY
  · have hroom : t.Room newDims := by simp [Room, hany]
    exact ⟨fun _ => hroom, fun _ _ => usable_of_ANY ((setDims_layout h).trans hany)⟩
  by_cases hscalar : t.layout = .SCALAR
  · have hroom : t.Room newDims := by simp [Room, hscalar]
    exact ⟨fun _ => hroom, fun _ _ => usable_of_SCALAR hscalar h⟩
  obtain ⟨hdense, hfilled, hdims, hkept⟩ := setDims_dense ht ⟨hany, hscalar⟩ hrank h
  by_cases hblocked : t.layout = .BLOCKED
  · rw [if_pos hblocked] at hkept
    have hroom : t.Room newDims ↔ Fits t'.radices newDims := by simp [Room, hblocked, hkept.1]
    rw [hroom]
    refine ⟨fits_of_usable hdense hfilled hdims hpos, fun hfits hprod => ?_⟩
    exact usable_of_fits hdense hfilled hdims hfits (hkept.2 ▸ hprod hblocked)
  · rw [if_neg hblocked] at hkept
    have hroom : t.Room newDims ↔ newDims.prod ≤ 2 ^ 64 := by
      unfold Room
      split
      · exact absurd ‹_› hany
      · exact absurd ‹_› hscalar
      · exact absurd ‹_› hblocked
      · exact Iff.rfl
    have hfits : Fits t'.radices newDims := fits_of_permutes hkept
    rw [hroom]
    refine ⟨prod_le_of_usable hdense hfilled hdims hfits, fun hprod _ => ?_⟩
    exact usable_of_fits hdense hfilled hdims hfits (prod_of_permutes hkept ▸ hprod)

/-- A `2 x 2 x 2` tensor that is stored with its last two dimensions exchanged. -/
def exchanged : TensorDesc where
  layout := .BLOCKED
  dims := [2, 2, 2]
  blockingDesc := .filled [2, 2, 2] [0, 2, 1]

theorem exchanged_constructed : exchanged.Constructed := by
  have hd : BlockingDesc.ofOrder [2, 2, 2] [0, 2, 1] = .ok exchanged.blockingDesc := rfl
  have ht : ofBlocking .FP32 [2, 2, 2] exchanged.blockingDesc = .ok exchanged := rfl
  exact .ofBlocking (.ofOrder hd) ht

theorem setDims_usable_exchanged : ∃ t', exchanged.setDims [1, 2, 1] = .ok t' ∧ t'.Usable [1, 2, 1] := by
  have hroom : exchanged.Room [1, 2, 1] := by
    rintro (_ | _ | _ | i)
    · decide
    · decide
    · decide
    · simp
  have h : exchanged.setDims [1, 2, 1] = .ok { exchanged with dims := [1, 2, 1] } := rfl
  have hrank : [1, 2, 1].length = exchanged.dims.length := rfl
  exact ⟨_, h, (setDims_usable exchanged_constructed hrank (by decide) h).2 hroom fun _ => by decide⟩

/-- The blocks are still those of the old dimensions. -/
theorem not_usable_of_stale_blocks : exchanged.Constructed ∧ ∃ t', exchanged.setDims [4, 4, 4] = .ok t' ∧
    [0, 0, 0] ∈ box [4, 4, 4] ∧ [2, 0, 0] ∈ box [4, 4, 4] ∧
    t'.offset [0, 0, 0] = .ok 0 ∧ t'.offset [2, 0, 0] = .ok 0 := by
  refine ⟨exchanged_constructed, _, rfl, ?_, ?_, rfl, rfl⟩ <;> decide

end TensorDesc

end OpenVino.InferenceEngine
