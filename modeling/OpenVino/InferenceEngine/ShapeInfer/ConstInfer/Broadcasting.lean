import OpenVino.InferenceEngine.ShapeInfer.ConstInfer.BroadcastOffset

/-!
# Broadcasting

Shapes broadcast when they are `Compatible` once the axes that one of them lacks in front are filled with ones
(`align`). As long as the strides stay in `int` (`StridesFit`), an offset is the number of the index restricted to
the input (`offset_eq`); when one of them does not, two indices of the output share an offset or one has an offset
that is far outside (`exists_collision`). `broadcastCorrect_iff`: shape inference and constant inference give what
broadcasting says exactly for shapes that read from the left as they read from the right, with strides that fit.
-/

namespace OpenVino.InferenceEngine.ShapeInfer

/-! ### What broadcasting is -/

/-- The shape with this rank: the axes that it lacks in front are ones. -/
def align (rank : Nat) (shape : SizeVector) : SizeVector := List.replicate (rank - shape.length) 1 ++ shape

def Compatible (a b : SizeVector) : Prop :=
  List.Forall₂ (fun x y => x = y ∨ x = 1 ∨ y = 1) (align (max a.length b.length) a) (align (max a.length b.length) b)

def broadcastShape (a b : SizeVector) : SizeVector :=
  (align (max a.length b.length) a).zipWith (fun x y => if x = 1 then y else x) (align (max a.length b.length) b)

/-- The coordinates along the axes of the shape, and zero where it is broadcast. -/
def masked (shape v : SizeVector) : SizeVector := shape.zipWith (fun size x => if size = 1 then 0 else x) v

/-- The index of an output, restricted to an input of this shape. -/
def restrict (shape v : SizeVector) : SizeVector := masked shape (v.drop (v.length - shape.length))

/-- The blob has this shape, and these elements in its memory. -/
structure Holds (blob : Blob (List Int)) (shape : SizeVector) (elements : List Int) : Prop where
  dims : blob.tensorDesc.dims = shape
  layout : blob.tensorDesc.layout = .SCALAR ↔ shape = []
  buffer : blob.buffer = some elements
  length : elements.length = shape.prod
  small : shape.prod < 2 ^ 63

/-- Shape inference gives the common shape, and constant inference on outputs of it gives the sums. -/
structure BroadcastCorrect (_type operation : String) (a b : SizeVector) : Prop where
  shape : EltWiseShapeProp.inferShapesImpl _type operation [a, b] = .ok [broadcastShape a b]
  elements : ∀ {first second outBlob : Blob (List Int)} {xs ys zs : List Int} {sum : Int → Int → Int},
    Holds first a xs → Holds second b ys → Holds outBlob (broadcastShape a b) zs →
    AddConstInfer.integerSum first.tensorDesc.precision second.tensorDesc.precision outBlob.tensorDesc.precision =
      some sum →
    ∃ r, AddConstInfer.inferImpl [first, second] [outBlob] = .ok r ∧ r.length = zs.length ∧
      ∀ v ∈ box (broadcastShape a b), ∃ x y, xs[encode a (restrict a v)]? = some x ∧
        ys[encode b (restrict b v)]? = some y ∧ r[encode (broadcastShape a b) v]? = some (sum x y)

/-- The longer shape is the larger one as a vector, and at each axis the larger of the two sizes, both shapes read
from the left, is the one of the common shape. -/
structure LeftAligned (a b : SizeVector) : Prop where
  left : b.length < a.length → ¬a < b
  right : a.length < b.length → ¬b < a
  axes : ∀ i < max a.length b.length, max (a.getD i 0) (b.getD i 0) = (broadcastShape a b).getD i 0

/-- Along the axes with more than one index, a step is shorter than `2 ^ 31`. -/
def ShortSteps (shape : SizeVector) : Prop :=
  ∀ i, 1 < shape.getD i 0 → (shape.drop (i + 1)).prod < 2 ^ 31

instance (shape : SizeVector) : Decidable (ShortSteps shape) :=
  decidable_of_iff (∀ i < shape.length, 1 < shape.getD i 0 → (shape.drop (i + 1)).prod < 2 ^ 31) <| by
    refine ⟨fun h i hi => ?_, fun h i _ => h i⟩
    by_cases hlt : i < shape.length
    · exact h i hlt hi
    · rw [List.getD_eq_default _ _ (not_lt.mp hlt)] at hi
      exact absurd hi (by norm_num)

/-- In memory, and with an element, the shape has only short steps. -/
def StridesFit (shape : SizeVector) : Prop := 0 < shape.prod → shape.prod < 2 ^ 63 → ShortSteps shape

/-! ### The strides -/

variable {a b A S v : SizeVector} {s k : Nat}

theorem masked_cons {x d : Nat} : masked (x :: A) (d :: v) = (if x = 1 then 0 else d) :: masked A v := rfl

theorem shortSteps_cons : ShortSteps (s :: S) ↔ (1 < s → S.prod < 2 ^ 31) ∧ ShortSteps S := by
  constructor
  · intro h
    refine ⟨fun hs => ?_, fun i hi => ?_⟩
    · have hstep := h 0 (by rwa [List.getD_cons_zero])
      rwa [List.drop_succ_cons, List.drop_zero] at hstep
    · have hstep := h (i + 1) (by rwa [List.getD_cons_succ])
      rwa [List.drop_succ_cons] at hstep
  · rintro ⟨hs, hS⟩ (_ | i) hi
    · rw [List.getD_cons_zero] at hi
      rw [List.drop_succ_cons, List.drop_zero]
      exact hs hi
    · rw [List.getD_cons_succ] at hi
      rw [List.drop_succ_cons]
      exact hS i hi

theorem toInt_toSizeT (i : Int) : toInt (toSizeT i) = i.bmod (2 ^ 32) := by
  unfold toInt toSizeT
  rw [Int.toNat_of_nonneg (Int.emod_nonneg _ (by norm_num)), Int.bmod_def, Int.bmod_def]
  omega

theorem offsets_snd (h : A.length = S.length) : (BroadcastOffset.offsets A S).2 = toInt A.prod := by
  induction A generalizing S with
  | nil => rfl
  | cons x A ih =>
    rcases S with _ | ⟨s, S⟩
    · cases h
    · have hk : (BroadcastOffset.offsets (x :: A) (s :: S)).2 = toInt (toSizeT ((BroadcastOffset.offsets A S).2 * x)) := by
        simp only [BroadcastOffset.offsets]
      have hwrap : toInt (x * A.prod) = (toInt A.prod * x).bmod (2 ^ 32) := by
        unfold toInt
        rw [Int.bmod_mul_bmod, Nat.cast_mul, mul_comm]
      rw [hk, ih (Nat.succ.inj h), toInt_toSizeT, List.prod_cons, hwrap]

theorem offsets_cons {x : Nat} (h : A.length = S.length) :
    (BroadcastOffset.offsets (x :: A) (s :: S)).1 =
      (if x = s then toSizeT (toInt A.prod) else 0) :: (BroadcastOffset.offsets A S).1 := by
  rw [BroadcastOffset.offsets]
  dsimp only
  rw [offsets_snd h]

theorem length_offsets (h : A.length = S.length) : (BroadcastOffset.offsets A S).1.length = S.length := by
  induction A generalizing S with
  | nil =>
    rw [List.length_nil] at h
    rw [← h]
    rfl
  | cons x A ih =>
    rcases S with _ | ⟨s, S⟩
    · cases h
    · rw [offsets_cons (Nat.succ.inj h), List.length_cons, ih (Nat.succ.inj h), List.length_cons]

theorem toSizeT_toInt (h : k < 2 ^ 31) : toSizeT (toInt k) = k := by
  rw [toInt_of_lt h, toSizeT_natCast (by omega)]

/-- Of each axis, an input has the size of the output or one. -/
def Fits (A S : SizeVector) : Prop := List.Forall₂ (fun x s => x = s ∨ x = 1) A S

theorem Fits.refl (S : SizeVector) : Fits S S := List.forall₂_same.mpr fun _ _ => .inl rfl

theorem Fits.prod_le (h : Fits A S) (hpos : 0 < S.prod) : A.prod ≤ S.prod := by
  induction h with
  | nil => exact le_refl _
  | @cons x s A S hx _ ih =>
    rw [List.prod_cons] at hpos ⊢
    have hs : 0 < s := Nat.pos_of_mul_pos_right hpos
    have hS : 0 < S.prod := Nat.pos_of_mul_pos_left hpos
    rw [List.prod_cons]
    refine Nat.mul_le_mul ?_ (ih hS)
    rcases hx with rfl | rfl
    · exact le_refl _
    · exact hs

/-- With short steps, the products of an index and the strides add up to the number of the index in the input. -/
theorem sum_offsets (hA : Fits A S) (hv : List.Forall₂ (· < ·) v S) (hS : ShortSteps S) :
    (v.zipWith (· * ·) (BroadcastOffset.offsets A S).1).sum = encode A (masked A v) := by
  induction hA generalizing v with
  | nil =>
    rw [List.forall₂_nil_right_iff] at hv
    rw [hv]
    rfl
  | @cons x s A S hx hA ih =>
    obtain ⟨d, w, hd, hw, rfl⟩ := List.forall₂_cons_right_iff.mp hv
    obtain ⟨hs, hS⟩ := shortSteps_cons.mp hS
    have hle := Fits.prod_le hA (prod_pos_of_lt hw)
    rw [offsets_cons hA.length_eq, List.zipWith_cons_cons, List.sum_cons, ih hw hS, masked_cons, encode]
    congr 1
    by_cases hxs : x = s
    · subst hxs
      rw [if_pos rfl]
      by_cases hx1 : x = 1
      · obtain rfl : d = 0 := by omega
        rw [Nat.zero_mul, ite_self, Nat.zero_mul]
      · rw [if_neg hx1]
        by_cases hd0 : d = 0
        · rw [hd0, Nat.zero_mul, Nat.zero_mul]
        · rw [toSizeT_toInt (by have := hs (by omega); omega)]
    · have hx1 : x = 1 := hx.resolve_left hxs
      rw [if_neg hxs, if_pos hx1, Nat.mul_zero, Nat.zero_mul]

theorem masked_lt (hA : Fits A S) (hv : List.Forall₂ (· < ·) v S) : List.Forall₂ (· < ·) (masked A v) A := by
  induction hA generalizing v with
  | nil => exact .nil
  | @cons x s A S hx _ ih =>
    obtain ⟨d, w, hd, hw, rfl⟩ := List.forall₂_cons_right_iff.mp hv
    refine .cons ?_ (ih hw)
    dsimp only
    split_ifs with hx1
    · omega
    · obtain rfl := hx.resolve_right hx1
      exact hd

theorem masked_self (hv : List.Forall₂ (· < ·) v S) : masked S v = v := by
  induction hv with
  | nil => rfl
  | @cons d s v S hd _ ih =>
    rw [masked_cons, ih]
    split_ifs with hs
    · obtain rfl : d = 0 := by omega
      rfl
    · rfl

theorem encode_masked_replicate : ∀ {k : Nat} {v : SizeVector}, v.length = k + a.length →
    encode (List.replicate k 1 ++ a) (masked (List.replicate k 1 ++ a) v) = encode a (masked a (v.drop k)) := by
  intro k
  induction k with
  | zero => intros; rfl
  | succ k ih =>
    intro v hv
    rcases v with _ | ⟨d, v⟩
    · rw [List.length_nil] at hv
      omega
    · rw [List.length_cons] at hv
      rw [List.replicate_succ, List.cons_append, masked_cons, if_pos rfl, encode, Nat.zero_mul,
        Nat.zero_add, ih (by omega), List.drop_succ_cons]

theorem encode_align (h : a.length ≤ v.length) :
    encode (align v.length a) (masked (align v.length a) v) = encode a (restrict a v) :=
  encode_masked_replicate (by omega)

/-! ### The calls -/

theorem overwrite_eq : ∀ {n : Nat} {xs : SizeVector}, xs.length ≤ n →
    BroadcastOffset.overwrite (List.replicate n 1) xs = .ok (xs ++ List.replicate (n - xs.length) 1) := by
  intro n xs
  induction xs generalizing n with
  | nil =>
    intro _
    rw [BroadcastOffset.overwrite]
    rfl
  | cons x xs ih =>
    intro hlength
    rw [List.length_cons] at hlength
    obtain ⟨m, rfl⟩ := Nat.exists_eq_succ_of_ne_zero (show n ≠ 0 by omega)
    rw [List.replicate_succ, BroadcastOffset.overwrite, ih (by omega), List.length_cons, Nat.succ_sub_succ]
    rfl

theorem length_align {rank : Nat} (h : a.length ≤ rank) : (align rank a).length = rank := by
  rw [align, List.length_append, List.length_replicate]
  omega

theorem create_eq (h : a.length ≤ S.length) : BroadcastOffset.create a S =
    .ok { dims := align S.length a, offset_v := (BroadcastOffset.offsets (align S.length a) S).1 } := by
  have hdims : BroadcastOffset.getDims a S = .ok (align S.length a) := by
    rw [BroadcastOffset.getDims, overwrite_eq (by rwa [List.length_reverse]), List.length_reverse]
    show Except.ok _ = _
    rw [List.reverse_append, List.reverse_reverse, List.reverse_replicate, align]
  unfold BroadcastOffset.create BroadcastOffset.getOffset
  rw [hdims, ok_bind, if_neg (not_not.mpr (length_align h))]
  rfl

theorem positions_eq (h : 0 < S.prod) : BroadcastOffset.positions S k = .ok (k / S.prod, decode S k) := by
  induction S with
  | nil => rw [BroadcastOffset.positions, List.prod_nil, Nat.div_one, decode]; rfl
  | cons s S ih =>
    rw [List.prod_cons] at h
    have hs : s ≠ 0 := (Nat.pos_of_mul_pos_right h).ne'
    rw [BroadcastOffset.positions, ih (Nat.pos_of_mul_pos_left h), decode, List.prod_cons, Nat.mul_comm s,
      ← Nat.div_div_eq_div_mul]
    show (if s = 0 then _ else _) = _
    rw [if_neg hs]
    rfl

/-- What `offset` returns, of the inner product of an index with the strides. -/
def wrapped (A S v : SizeVector) : Nat := toSizeT ((v.zipWith (· * ·) (BroadcastOffset.offsets A S).1).sum : Nat)

theorem offset_wrapped {dims : SizeVector} (hA : A.length = S.length) (hv : v.length = S.length) :
    BroadcastOffset.offset { dims, offset_v := (BroadcastOffset.offsets A S).1 } v = .ok (wrapped A S v) := by
  unfold BroadcastOffset.offset
  rw [if_neg (by rw [length_offsets hA, not_not]; exact hv)]
  rfl

theorem wrapped_eq (hA : Fits A S) (hv : v ∈ box S) (hS : ShortSteps S) (hsmall : S.prod < 2 ^ 63) :
    wrapped A S v = encode A (masked A v) := by
  rw [mem_box] at hv
  have hlt := encode_lt (masked_lt hA hv)
  have hle := Fits.prod_le hA (prod_pos_of_lt hv)
  rw [wrapped, sum_offsets hA hv hS, toSizeT_natCast (by omega)]

/-- A round of the loop in `add`. -/
def round (sum : Int → Int → Int) (xs ys : List Int) (S A B : SizeVector) (outBuffer : List Int) (i : Nat) :
    Result (List Int) := do
  let x ← elemAt "firstBlobBuffer[inOff1.offset(offsetDims)]" xs (wrapped A S (decode S i))
  let y ← elemAt "secondBlobBuffer[inOff2.offset(offsetDims)]" ys (wrapped B S (decode S i))
  assign "outBuffer[outOff.offset(offsetDims)]" outBuffer (wrapped S S (decode S i)) (sum x y)

theorem product_eq (h : S ≠ []) (hsmall : S.prod < 2 ^ 63) : product S = S.prod := by
  rw [product, if_neg h, Nat.mod_eq_of_lt (by omega)]

theorem Holds.size {blob : Blob (List Int)} {xs : List Int} (h : Holds blob S xs) : blob.size = S.prod := by
  unfold Blob.size
  split_ifs with hlayout
  · rw [h.layout.mp hlayout, List.prod_nil]
  · rw [h.dims, product_eq (fun hS => hlayout (h.layout.mpr hS)) h.small]

/-- `add` is the loop over the elements of the output. -/
theorem add_eq {first second outBlob : Blob (List Int)} {xs ys zs : List Int} {sum : Int → Int → Int}
    (hfirst : Holds first a xs) (hsecond : Holds second b ys) (hout : Holds outBlob S zs)
    (ha : a.length ≤ S.length) (hb : b.length ≤ S.length) :
    AddConstInfer.add sum first second outBlob =
      (List.range S.prod).foldlM (round sum xs ys S (align S.length a) (align S.length b)) zs := by
  have hself : align S.length S = S := by rw [align, Nat.sub_self, List.replicate_zero, List.nil_append]
  unfold AddConstInfer.add
  simp only [AddConstInfer.bufferOf, hfirst.buffer, hsecond.buffer, hout.buffer, hfirst.dims, hsecond.dims, hout.dims,
    create_eq ha, create_eq hb, create_eq (le_refl S.length), hself, hout.size, ok_bind]
  refine foldlM_congr (fun outBuffer i hi => ?_) zs
  have hpos : 0 < S.prod := lt_of_le_of_lt (Nat.zero_le i) (List.mem_range.mp hi)
  have hdims : BroadcastOffset.offset_dims { dims := S, offset_v := (BroadcastOffset.offsets S S).1 } i =
      .ok (decode S i) := by
    unfold BroadcastOffset.offset_dims
    rw [positions_eq hpos]
    rfl
  simp only [hdims, ok_bind, offset_wrapped rfl length_decode, offset_wrapped (length_align ha) length_decode,
    offset_wrapped (length_align hb) length_decode, round]

/-! ### The loop -/

variable {A B : SizeVector} {xs ys zs out out' : List Int} {sum : Int → Int → Int} {i n : Nat}

theorem round_ok_iff : round sum xs ys S A B out i = .ok out' ↔
    ∃ x y, xs[wrapped A S (decode S i)]? = some x ∧ ys[wrapped B S (decode S i)]? = some y ∧
      wrapped S S (decode S i) < out.length ∧ out.set (wrapped S S (decode S i)) (sum x y) = out' := by
  unfold round assign
  simp only [bind_ok_iff, elemAt_ok_iff, Int.toNat_natCast, Nat.cast_nonneg, true_and]
  refine exists_congr fun x => ?_
  rw [← exists_and_left]
  refine exists_congr fun y => ?_
  split_ifs with hlt
  · simp [hlt, pure_ok_iff]
  · simp [hlt]

/-- A loop that writes the elements one after the other. -/
theorem loop_writes {f : List Int → Nat → Result (List Int)} {val : Nat → Int}
    (hf : ∀ out i, out.length = n → i < n → f out i = .ok (out.set i (val i))) (hzs : zs.length = n) :
    ∃ r, (List.range n).foldlM f zs = .ok r ∧ r.length = n ∧ ∀ i < n, r[i]? = some (val i) := by
  let I (pre : List Nat) (out : List Int) : Prop := out.length = n ∧ ∀ i ∈ pre, out[i]? = some (val i)
  suffices ∃ r, (List.range n).foldlM f zs = .ok r ∧ I (List.range n) r by
    obtain ⟨r, hrun, hlength, hvals⟩ := this
    exact ⟨r, hrun, hlength, fun i hi => hvals i (List.mem_range.mpr hi)⟩
  refine exists_foldlM_ok ⟨hzs, fun i hi => absurd hi List.not_mem_nil⟩ fun pre a post out hl hI => ?_
  obtain ⟨hlength, hvals⟩ := hI
  have ha : a < n := List.mem_range.mp (hl ▸ List.mem_append_right pre List.mem_cons_self)
  refine ⟨_, hf out a hlength ha, by rw [List.length_set, hlength], fun i hi => ?_⟩
  rw [List.getElem?_set]
  split_ifs with hia hlt
  · rw [hia]
  · exact absurd (hlength ▸ ha) hlt
  · rcases List.mem_append.mp hi with hi | hi
    · exact hvals i hi
    · exact absurd (List.mem_singleton.mp hi).symm hia

/-- What the loop does not write stays, and it writes inside. -/
theorem loop_untouched (h : (List.range n).foldlM (round sum xs ys S A B) zs = .ok out') :
    out'.length = zs.length ∧ (∀ i < n, wrapped S S (decode S i) < zs.length) ∧
      ∀ p, (∀ i < n, wrapped S S (decode S i) ≠ p) → out'[p]? = zs[p]? := by
  let I (pre : List Nat) (out : List Int) : Prop :=
    out.length = zs.length ∧ (∀ i ∈ pre, wrapped S S (decode S i) < zs.length) ∧
      ∀ p, (∀ i ∈ pre, wrapped S S (decode S i) ≠ p) → out[p]? = zs[p]?
  suffices I (List.range n) out' by simpa only [I, List.mem_range] using this
  refine foldlM_ok_induct h ⟨rfl, fun i hi => absurd hi List.not_mem_nil, fun p _ => rfl⟩ ?_
  rintro pre a post out out₁ - ⟨hlength, hin, hkeep⟩ hround
  obtain ⟨x, y, -, -, hlt, rfl⟩ := round_ok_iff.mp hround
  refine ⟨by rw [List.length_set, hlength], fun i hi => ?_, fun p hp => ?_⟩
  · rcases List.mem_append.mp hi with hi | hi
    · exact hin i hi
    · rw [List.mem_singleton.mp hi]
      omega
  · rw [List.getElem?_set_ne (hp a (List.mem_append_right _ (List.mem_singleton.mpr rfl)))]
    exact hkeep p fun i hi => hp i (List.mem_append_left _ hi)

/-! ### Strides that do not fit -/

theorem wrapped_cons_zero {s : Nat} : wrapped (s :: S) (s :: S) (0 :: v) = wrapped S S v := by
  rw [wrapped, offsets_cons rfl, List.zipWith_cons_cons, List.sum_cons, Nat.zero_mul, Nat.zero_add, wrapped]

theorem decode_cons_of_lt (h : k < S.prod) : decode (s :: S) k = 0 :: decode S k := by
  rw [decode, Nat.div_eq_of_lt h, Nat.zero_mod]

/-- An `int` as a `size_t` is small or very large. -/
theorem toSizeT_toInt_cases (k : Nat) : toSizeT (toInt k) < 2 ^ 31 ∨ 2 ^ 63 ≤ toSizeT (toInt k) := by
  obtain ⟨hlow, hhigh⟩ := fitsInt_toInt k
  unfold toSizeT
  omega

theorem sum_zipWith_zero (n : Nat) (o : SizeVector) : ((List.replicate n 0).zipWith (· * ·) o).sum = 0 := by
  induction n generalizing o with
  | zero => rfl
  | succ n ih =>
    rcases o with _ | ⟨x, o⟩
    · rfl
    · rw [List.replicate_succ, List.zipWith_cons_cons, List.sum_cons, ih, Nat.zero_mul]

theorem wrapped_self (hk : k < S.prod) (hS : ShortSteps S) (hsmall : S.prod < 2 ^ 63) : wrapped S S (decode S k) = k := by
  have hmem := decode_mem_box hk
  rw [wrapped_eq (Fits.refl S) hmem hS hsmall, masked_self (mem_box.mp hmem), encode_decode, Nat.mod_eq_of_lt hk]

/-- When a step is too long, an index of the output has an offset that is far outside, or that of another index. -/
theorem exists_collision (hpos : 0 < S.prod) (hsmall : S.prod < 2 ^ 63) (hS : ¬ShortSteps S) :
    ∃ p < S.prod, 2 ^ 63 ≤ wrapped S S (decode S p) ∨
      ∃ q < p, wrapped S S (decode S q) = wrapped S S (decode S p) := by
  induction S with
  | nil => exact absurd (fun i hi => absurd hi (by simp)) hS
  | cons s S ih =>
    rw [List.prod_cons] at hpos hsmall ⊢
    have hs : 0 < s := Nat.pos_of_mul_pos_right hpos
    have hprod : 0 < S.prod := Nat.pos_of_mul_pos_left hpos
    have hle : S.prod ≤ s * S.prod := Nat.le_mul_of_pos_left _ hs
    by_cases hshort : ShortSteps S
    · -- The axis in front has the step that is too long.
      have hlong : 1 < s ∧ 2 ^ 31 ≤ S.prod := by
        by_contra hcon
        exact hS (shortSteps_cons.mpr ⟨fun h => by omega, hshort⟩)
      have hlt : S.prod < s * S.prod := by
        have := Nat.mul_le_mul_right S.prod hlong.1
        omega
      have hstep : wrapped (s :: S) (s :: S) (decode (s :: S) S.prod) = toSizeT (toInt S.prod) := by
        have hdigits : decode (s :: S) S.prod = 1 :: List.replicate S.length 0 := by
          have hinner : decode S (1 * S.prod + 0) = decode S 0 := decode_mul_add
          rw [Nat.one_mul, Nat.add_zero, decode_zero] at hinner
          rw [decode, Nat.div_self hprod, Nat.mod_eq_of_lt hlong.1, hinner]
        have hlt : toSizeT (toInt S.prod) < 2 ^ 64 := by
          unfold toSizeT
          omega
        rw [wrapped, hdigits, offsets_cons rfl, if_pos rfl, List.zipWith_cons_cons, List.sum_cons, sum_zipWith_zero,
          Nat.one_mul, Nat.add_zero, toSizeT_natCast hlt]
      refine ⟨S.prod, hlt, ?_⟩
      rw [hstep]
      rcases toSizeT_toInt_cases S.prod with hsmallOffset | hlarge
      · refine .inr ⟨toSizeT (toInt S.prod), by omega, ?_⟩
        rw [decode_cons_of_lt (by omega), wrapped_cons_zero, wrapped_self (by omega) hshort (by omega)]
      · exact .inl hlarge
    · obtain ⟨p, hp, hcases⟩ := ih hprod (by omega) hshort
      refine ⟨p, by omega, ?_⟩
      rw [decode_cons_of_lt hp, wrapped_cons_zero]
      rcases hcases with hlarge | ⟨q, hq, heq⟩
      · exact .inl hlarge
      · refine .inr ⟨q, hq, ?_⟩
        rw [decode_cons_of_lt (by omega), wrapped_cons_zero, heq]

/-! ### Shape inference -/

theorem inferShapesImpl_eq {_type operation : String} (hvalid : EltWiseShapeProp.validate _type operation [a, b] = .ok ()) :
    EltWiseShapeProp.inferShapesImpl _type operation [a, b] =
      .ok [(List.range (stdMax a b).length).map fun i => max (a.getD i 0) (b.getD i 0)] := by
  unfold EltWiseShapeProp.inferShapesImpl
  rw [hvalid, ok_bind]
  dsimp only
  rw [mapM_eq_map fun i hi => ?_]
  · rfl
  · have hlt : i < a.length ∨ i < b.length := by
      rw [List.mem_range, stdMax] at hi
      split_ifs at hi
      · exact .inr hi
      · exact .inl hi
    by_cases ha : i < a.length
    · by_cases hb : i < b.length
      · rw [if_pos ⟨ha, hb⟩]
        rfl
      · rw [if_neg fun h => hb h.2, if_neg (not_le.mpr ha), List.getD_eq_default b 0 (not_lt.mp hb), Nat.max_zero,
          List.getD_eq_getElem _ _ ha]
        exact elemAt_ok_iff.mpr ⟨Nat.cast_nonneg i, List.getElem?_eq_getElem ha⟩
    · have hb := hlt.resolve_left ha
      rw [if_neg fun h => ha h.1, if_pos (not_lt.mp ha), List.getD_eq_default a 0 (not_lt.mp ha), Nat.zero_max,
        List.getD_eq_getElem _ _ hb]
      exact elemAt_ok_iff.mpr ⟨Nat.cast_nonneg i, List.getElem?_eq_getElem hb⟩

theorem length_broadcastShape : (broadcastShape a b).length = max a.length b.length := by
  rw [broadcastShape, List.length_zipWith, length_align (le_max_left _ _), length_align (le_max_right _ _), min_self]

theorem length_stdMax_iff : (stdMax a b).length = max a.length b.length ↔
    (b.length < a.length → ¬a < b) ∧ (a.length < b.length → ¬b < a) := by
  unfold stdMax
  by_cases hlt : a < b
  · have hnot : ¬b < a := lt_asymm hlt
    simp only [hlt, hnot, if_true, not_true, not_false_iff, imp_false, implies_true, and_true]
    omega
  · rw [if_neg hlt]
    constructor
    · intro h
      exact ⟨fun _ => hlt, fun hb => by omega⟩
    · rintro ⟨-, hright⟩
      have hle : b.length ≤ a.length := by
        by_contra hcon
        rcases lt_trichotomy a b with h | h | h
        · exact hlt h
        · rw [h] at hcon
          exact hcon (le_refl _)
        · exact hright (by omega) h
      omega

theorem leftAligned_iff : (List.range (stdMax a b).length).map (fun i => max (a.getD i 0) (b.getD i 0)) =
    broadcastShape a b ↔ LeftAligned a b := by
  constructor
  · intro h
    have hlength := congrArg List.length h
    rw [List.length_map, List.length_range, length_broadcastShape] at hlength
    obtain ⟨hleft, hright⟩ := length_stdMax_iff.mp hlength
    refine ⟨hleft, hright, fun i hi => ?_⟩
    have hlt : i < ((List.range (stdMax a b).length).map fun i => max (a.getD i 0) (b.getD i 0)).length := by
      rwa [List.length_map, List.length_range, hlength]
    rw [← h, List.getD_eq_getElem _ _ hlt, List.getElem_map, List.getElem_range]
  · rintro ⟨hleft, hright, haxes⟩
    have hlength := length_stdMax_iff.mpr ⟨hleft, hright⟩
    apply List.ext_getElem
    · rw [List.length_map, List.length_range, hlength, length_broadcastShape]
    · intro i hi hi'
      rw [List.getElem_map, List.getElem_range, haxes i (by rwa [← length_broadcastShape]), List.getD_eq_getElem _ _ hi']

/-! ### The common shape -/

theorem Compatible.fits (h : Compatible a b) :
    Fits (align (max a.length b.length) a) (broadcastShape a b) ∧
      Fits (align (max a.length b.length) b) (broadcastShape a b) := by
  suffices ∀ A B : SizeVector, List.Forall₂ (fun x y => x = y ∨ x = 1 ∨ y = 1) A B →
      Fits A (A.zipWith (fun x y => if x = 1 then y else x) B) ∧ Fits B (A.zipWith (fun x y => if x = 1 then y else x) B) from
    this _ _ h
  intro A B hAB
  induction hAB with
  | nil => exact ⟨.nil, .nil⟩
  | @cons x y A B hxy _ ih =>
    obtain ⟨hA, hB⟩ := ih
    refine ⟨.cons ?_ hA, .cons ?_ hB⟩
    · dsimp only
      split_ifs with hx
      · exact .inr hx
      · exact .inl rfl
    · dsimp only
      split_ifs with hx
      · exact .inl rfl
      · rcases hxy with rfl | h | h
        · exact .inl rfl
        · exact absurd h hx
        · exact .inr h

/-- An offset is the number of the index restricted to the input. -/
theorem offset_eq (ha : a.length ≤ S.length) (hA : Fits (align S.length a) S) (hv : v ∈ box S) (hS : ShortSteps S)
    (hsmall : S.prod < 2 ^ 63) : wrapped (align S.length a) S v = encode a (restrict a v) ∧ encode a (restrict a v) < a.prod := by
  have hlength : v.length = S.length := (mem_box.mp hv).length_eq
  have hlt := encode_lt (masked_lt hA (mem_box.mp hv))
  rw [wrapped_eq hA hv hS hsmall, ← hlength, encode_align (hlength ▸ ha)]
  refine ⟨rfl, ?_⟩
  rw [← hlength, encode_align (hlength ▸ ha)] at hlt
  rwa [align, List.prod_append, List.prod_replicate, one_pow, one_mul] at hlt

/-! ### Both together -/

/-- What the loop needs, of shapes that broadcast. -/
theorem Compatible.aligned (h : Compatible a b) :
    (a.length ≤ (broadcastShape a b).length ∧ Fits (align (broadcastShape a b).length a) (broadcastShape a b)) ∧
      b.length ≤ (broadcastShape a b).length ∧ Fits (align (broadcastShape a b).length b) (broadcastShape a b) := by
  rw [length_broadcastShape]
  exact ⟨⟨le_max_left _ _, h.fits.1⟩, le_max_right _ _, h.fits.2⟩

theorem elements_of_shortSteps {first second outBlob : Blob (List Int)} (hab : Compatible a b)
    (hS : StridesFit (broadcastShape a b)) (hfirst : Holds first a xs) (hsecond : Holds second b ys)
    (hout : Holds outBlob (broadcastShape a b) zs) :
    ∃ r, AddConstInfer.add sum first second outBlob = .ok r ∧ r.length = zs.length ∧
      ∀ v ∈ box (broadcastShape a b), ∃ x y, xs[encode a (restrict a v)]? = some x ∧
        ys[encode b (restrict b v)]? = some y ∧ r[encode (broadcastShape a b) v]? = some (sum x y) := by
  obtain ⟨⟨ha, hA⟩, hb, hB⟩ := hab.aligned
  set S := broadcastShape a b with hshape
  have hread : ∀ v ∈ box S, ∃ x y, xs[wrapped (align S.length a) S v]? = some x ∧
      ys[wrapped (align S.length b) S v]? = some y ∧ wrapped S S v = encode S v ∧
      xs[encode a (restrict a v)]? = some x ∧ ys[encode b (restrict b v)]? = some y := by
    intro v hv
    have hshort := hS (prod_pos_of_lt (mem_box.mp hv)) hout.small
    obtain ⟨hin1, hlt1⟩ := offset_eq ha hA hv hshort hout.small
    obtain ⟨hin2, hlt2⟩ := offset_eq hb hB hv hshort hout.small
    have hself := wrapped_eq (Fits.refl S) hv hshort hout.small
    rw [masked_self (mem_box.mp hv)] at hself
    have hx := List.getElem?_eq_getElem (hfirst.length ▸ hlt1)
    have hy := List.getElem?_eq_getElem (hsecond.length ▸ hlt2)
    refine ⟨_, _, ?_, ?_, hself, hx, hy⟩
    · rw [hin1]
      exact hx
    · rw [hin2]
      exact hy
  choose! f g hf using hread
  have hround : ∀ out i, out.length = S.prod → i < S.prod →
      round sum xs ys S (align S.length a) (align S.length b) out i =
        .ok (out.set i (sum (f (decode S i)) (g (decode S i)))) := by
    intro out i hlength hi
    obtain ⟨hx, hy, hself, -, -⟩ := hf _ (decode_mem_box hi)
    rw [encode_decode, Nat.mod_eq_of_lt hi] at hself
    exact round_ok_iff.mpr ⟨_, _, hx, hy, by rw [hself, hlength]; exact hi, by rw [hself]⟩
  obtain ⟨r, hrun, hlength, hvals⟩ := loop_writes hround hout.length
  refine ⟨r, (add_eq hfirst hsecond hout ha hb).trans hrun, hlength.trans hout.length.symm, fun v hv => ?_⟩
  obtain ⟨-, -, -, hx, hy⟩ := hf v hv
  have hvalue := hvals _ (encode_lt (mem_box.mp hv))
  rw [decode_encode (mem_box.mp hv)] at hvalue
  exact ⟨_, _, hx, hy, hvalue⟩

/-- A blob of `I32` elements. -/
def i32Blob (shape : SizeVector) (elements : List Int) : Blob (List Int) where
  tensorDesc := { precision := .I32, dims := shape, layout := if shape = [] then .SCALAR else .BLOCKED }
  buffer := some elements

theorem holds_i32Blob (hlength : xs.length = S.prod) (hsmall : S.prod < 2 ^ 63) : Holds (i32Blob S xs) S xs := by
  refine ⟨rfl, ?_, rfl, hlength, hsmall⟩
  unfold i32Blob
  by_cases hS : S = []
  · simp [hS]
  · simp [hS]

theorem shortSteps_of_elements {_type operation : String} (hab : Compatible a b)
    (h : BroadcastCorrect _type operation a b) : StridesFit (broadcastShape a b) := by
  obtain ⟨⟨ha, hA⟩, hb, hB⟩ := hab.aligned
  intro hpos hsmall
  by_contra hS
  obtain ⟨p, hp, hcollision⟩ := exists_collision hpos hsmall hS
  have hle : ∀ {c : SizeVector}, Fits (align (broadcastShape a b).length c) (broadcastShape a b) →
      c.prod ≤ (broadcastShape a b).prod := by
    intro c hc
    have hprod := Fits.prod_le hc hpos
    rwa [align, List.prod_append, List.prod_replicate, one_pow, one_mul] at hprod
  -- The inputs hold zeros and the output ones, so a one that is left has not been written.
  have hfirst : Holds (i32Blob a (List.replicate a.prod 0)) a (List.replicate a.prod 0) :=
    holds_i32Blob List.length_replicate (lt_of_le_of_lt (hle hA) hsmall)
  have hsecond : Holds (i32Blob b (List.replicate b.prod 0)) b (List.replicate b.prod 0) :=
    holds_i32Blob List.length_replicate (lt_of_le_of_lt (hle hB) hsmall)
  have hout := holds_i32Blob
    (show (List.replicate (broadcastShape a b).prod (1 : Int)).length = (broadcastShape a b).prod from List.length_replicate)
    hsmall
  obtain ⟨r, hrun, -, hvals⟩ := h.elements hfirst hsecond hout rfl
  have hrun := (add_eq hfirst hsecond hout ha hb).symm.trans hrun
  obtain ⟨-, hin, hkeep⟩ := loop_untouched hrun
  rw [List.length_replicate] at hin
  have hwritten : ∀ k < (broadcastShape a b).prod, ∃ i < (broadcastShape a b).prod,
      wrapped (broadcastShape a b) (broadcastShape a b) (decode (broadcastShape a b) i) = k := by
    intro k hk
    by_contra hcon
    have hzs := hkeep k fun i hi heq => hcon ⟨i, hi, heq⟩
    obtain ⟨x, y, hx, hy, hr⟩ := hvals _ (decode_mem_box hk)
    rw [encode_decode, Nat.mod_eq_of_lt hk, hzs, List.getElem?_replicate, if_pos hk] at hr
    obtain rfl : x = 0 := (List.mem_replicate.mp (List.mem_of_getElem? hx)).2
    obtain rfl : y = 0 := (List.mem_replicate.mp (List.mem_of_getElem? hy)).2
    exact absurd hr (by decide)
  rcases hcollision with hlarge | ⟨q, hq, heq⟩
  · have hlt := hin p hp
    omega
  · have himage : (Finset.range (broadcastShape a b).prod).image
        (fun i => wrapped (broadcastShape a b) (broadcastShape a b) (decode (broadcastShape a b) i)) =
          Finset.range (broadcastShape a b).prod := by
      refine Finset.Subset.antisymm (Finset.image_subset_iff.mpr fun i hi => ?_) fun k hk => ?_
      · exact Finset.mem_range.mpr (hin i (Finset.mem_range.mp hi))
      · obtain ⟨i, hi, hk⟩ := hwritten k (Finset.mem_range.mp hk)
        exact Finset.mem_image.mpr ⟨i, Finset.mem_range.mpr hi, hk⟩
    have hinj := Finset.injOn_of_card_image_eq (congrArg Finset.card himage)
    have hpq : q = p := hinj (by simpa using hq.trans hp) (by simpa using hp) heq
    omega

/-- **Broadcasting.** On shapes that broadcast, shape inference gives their common shape and constant inference the
sums of the elements exactly if the shapes are aligned from the left too and the strides stay in `int`. -/
theorem broadcastCorrect_iff {_type operation : String} (hvalid : EltWiseShapeProp.validate _type operation [a, b] = .ok ())
    (hab : Compatible a b) :
    BroadcastCorrect _type operation a b ↔ LeftAligned a b ∧ StridesFit (broadcastShape a b) := by
  constructor
  · intro h
    refine ⟨leftAligned_iff.mp ?_, shortSteps_of_elements hab h⟩
    have hshape := h.shape
    rw [inferShapesImpl_eq hvalid] at hshape
    exact (List.cons.inj (Except.ok.inj hshape)).1
  · rintro ⟨haligned, hS⟩
    refine ⟨?_, fun {first second outBlob xs ys zs sum} hfirst hsecond hout hsum => ?_⟩
    · rw [inferShapesImpl_eq hvalid, leftAligned_iff.mpr haligned]
    · unfold AddConstInfer.inferImpl
      dsimp only
      rw [hsum]
      exact elements_of_shortSteps hab hS hfirst hsecond hout

theorem broadcastCorrect_row : BroadcastCorrect "Add" "sum" [2, 1] [1, 3] ↔
    LeftAligned [2, 1] [1, 3] ∧ StridesFit (broadcastShape [2, 1] [1, 3]) :=
  broadcastCorrect_iff (by decide) (.cons (by decide) (.cons (by decide) .nil))

/-- The vector `[4]` is larger than `[2, 3, 4]`, and its axis stands first. -/
theorem shorter_shape_chosen : Compatible [2, 3, 4] [4] ∧ ¬BroadcastCorrect "Add" "sum" [2, 3, 4] [4] := by
  refine ⟨.cons (by decide) (.cons (by decide) (.cons (by decide) .nil)), fun h => ?_⟩
  exact absurd h.shape (by decide)

end OpenVino.InferenceEngine.ShapeInfer
