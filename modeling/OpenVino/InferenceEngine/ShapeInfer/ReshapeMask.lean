import OpenVino.Base.Reported
import OpenVino.InferenceEngine.ShapeInfer.ConstInfer.BroadcastOffset
import OpenVino.InferenceEngine.TensorOffset

/-!
# The mask of a reshape

`ReshapeShapeProp` fills the shape that a mask asks for: an entry 0 stands for the dimension of the input at the same
place, and -1 for what is left. The mask is the attribute `dim`, which the validator checks, or the second input, which
nobody checks. `reshape_iff` says for which masks the answer is right or an exception; for the others a place behind the
shape is read, a product that has wrapped to zero divides, or products that differ are taken for the same.
-/

namespace OpenVino.InferenceEngine.ShapeInfer

/-- `details::dumpVec`. -/
def dumpVec (vec : SizeVector) : String := "[" ++ String.intercalate "," (vec.map toString) ++ "]"

/-- The test in the loop of `checkParams`. -/
def ReshapeValidator.checkDim (dim : BitVec 32) : Result Unit :=
  if dim.toInt < -1 then
    throwException ("Invalid value of Reshape mask (dim attribute):" ++ toString dim.toInt ++
      ". Supported values: 0, -1, >0")
  else return ()

/-- `checkParams`, of the attribute `dim`. -/
def ReshapeValidator.checkParams (shape : List (BitVec 32)) : Result Unit := do
  shape.forM checkDim
  if 1 < shape.count (-1) then
    throwException "Invalid Reshape mask (dim attribute): at most one dimension can be `-1`"
  else return ()

namespace ReshapeShapeProp

/-- The elements of the second input, converted to `int`. -/
def readMask (blob : Blob (List (BitVec 32))) : Result (List (BitVec 32)) :=
  if blob.tensorDesc.precision = .FP32 ∨ blob.tensorDesc.precision = .I32 ∨ blob.tensorDesc.precision = .FP16 then
    match blob.buffer with
    | some buffer => (List.range blob.size).mapM fun (i : Nat) => elemAt "buffer[i]" buffer i
    | none => throwException "Second input must have allocated data"
  else throwException "Second input has unsupported precision"

/-- The mask, of the inputs and the attribute `dim`. -/
def reshapeMask (dim : List (BitVec 32)) (inBlobs : List (Blob (List (BitVec 32)))) : Result (List (BitVec 32)) :=
  match inBlobs with
  | [_, second] => readMask second
  | _ => return dim

/-- The loop that computes `res`. -/
def multiply (inputShape : SizeVector) (reshapeMask : List (BitVec 32)) : Result Nat :=
  reshapeMask.zipIdx.foldlM (fun res p => do
    if p.1 = 0 then
      let dim ← elemAt "inputShape[i]" inputShape p.2
      return toSizeT (res * dim : Nat)
    else if p.1 = -1 then return res
    else return toSizeT (res * toSizeT p.1.toInt : Nat)) 1

/-- The loop that fills the output shape. -/
def fill (inputShape : SizeVector) (newDim : Nat) (reshapeMask : List (BitVec 32)) : Result SizeVector :=
  reshapeMask.zipIdx.mapM fun p =>
    if p.1 = 0 then elemAt "inputShape[i]" inputShape p.2
    else if p.1 = -1 then return newDim
    else return toSizeT p.1.toInt

/-- `inferShapesImpl`, with the attribute `dim` as `parseParams` reads it. -/
def inferShapesImpl (dim : List (BitVec 32)) (inBlobs : List (Blob (List (BitVec 32)))) : Result (List SizeVector) := do
  ReshapeValidator.checkParams dim
  let reshapeMask ← reshapeMask dim inBlobs
  let inputShape ← elemAt "inShapes[0]" (inBlobs.map fun blob => blob.tensorDesc.dims) 0
  let inputShapeTotal := toSizeT inputShape.prod
  if reshapeMask = [] then return [[inputShapeTotal]]
  else
    let res ← multiply inputShape reshapeMask
    if res = 0 then .error (.undefinedBehaviour "inputShapeTotal / res")
    else
      let outShape ← fill inputShape (inputShapeTotal / res) reshapeMask
      if inputShapeTotal ≠ toSizeT outShape.prod then
        throwException ("Invalid reshape mask (dim attribute): number of elements in input: " ++ dumpVec inputShape ++
          " and output: " ++ dumpVec outShape ++ " mismatch")
      else return [outShape]

end ReshapeShapeProp

/-! ### The shape that is asked for -/

section Mask

variable {shape out : SizeVector} {mask dim : List (BitVec 32)} {inBlobs : List (Blob (List (BitVec 32)))}

/-- What an entry of the mask puts into the products. -/
def factor (shape : SizeVector) (p : BitVec 32 × Nat) : Nat :=
  if p.1 = 0 then shape.getD p.2 0 else if p.1 = -1 then 1 else toSizeT p.1.toInt

def factors (shape : SizeVector) (mask : List (BitVec 32)) : Nat := (mask.zipIdx.map (factor shape)).prod

/-- The shape that the mask asks for, with the quotient of the wrapped products for -1. -/
def requested (shape : SizeVector) (mask : List (BitVec 32)) : SizeVector :=
  if mask = [] then [toSizeT shape.prod]
  else mask.zipIdx.map fun p => if p.1 = -1 then toSizeT shape.prod / toSizeT (factors shape mask) else factor shape p

/-- The shape is what the mask says. -/
structure Fills (shape : SizeVector) (mask : List (BitVec 32)) (out : SizeVector) : Prop where
  count : out.prod = shape.prod
  length : mask ≠ [] → out.length = mask.length
  kept : ∀ {i : Nat} {e : BitVec 32}, mask[i]? = some e → 0 < e.toInt → out[i]? = some e.toInt.toNat
  zero : ∀ {i}, mask[i]? = some 0 → i < shape.length ∧ out[i]? = shape[i]?
  rest : ∀ {i}, mask[i]? = some (-1) → out.getD i 0 * (out.eraseIdx i).prod = shape.prod

/-- The inputs of a layer that gets this mask for an input of this shape. -/
inductive Given (shape : SizeVector) (mask : List (BitVec 32)) :
    List (BitVec 32) → List (Blob (List (BitVec 32))) → Prop
  | attribute {data} : data.tensorDesc.dims = shape → Given shape mask mask [data]
  | input {dim data second} : data.tensorDesc.dims = shape →
      (second.tensorDesc.precision = .FP32 ∨ second.tensorDesc.precision = .I32 ∨ second.tensorDesc.precision = .FP16) →
      second.buffer = some mask → second.size = mask.length → Given shape mask dim [data, second]

/-- The validator lets the attribute pass. -/
def Valid (dim : List (BitVec 32)) : Prop := (∀ e ∈ dim, -1 ≤ e.toInt) ∧ dim.count (-1) ≤ 1

/-- Every 0 of the mask stands at an axis of the input. -/
def ZerosInside (shape : SizeVector) (mask : List (BitVec 32)) : Prop := ∀ i, mask[i]? = some 0 → i < shape.length

/-- The numbers of elements differ, but not in `size_t`. -/
def Collides (shape : SizeVector) (mask : List (BitVec 32)) : Prop :=
  (requested shape mask).prod ≡ shape.prod [MOD 2 ^ 64] ∧ (requested shape mask).prod ≠ shape.prod

/-! ### The loops -/

theorem zerosInside_iff : ZerosInside shape mask ↔ ∀ p ∈ mask.zipIdx, p.1 = 0 → p.2 < shape.length := by
  constructor
  · intro h p hp hzero
    have hget := List.mem_zipIdx_iff_getElem?.mp hp
    rw [hzero] at hget
    exact h p.2 hget
  · intro h i hi
    exact h (0, i) (List.mem_zipIdx_iff_getElem?.mpr hi) rfl

namespace ReshapeShapeProp

theorem multiply_round {res : Nat} {p : BitVec 32 × Nat} (hp : p.1 = 0 → p.2 < shape.length) (hres : res < 2 ^ 64) :
    (if p.1 = 0 then do
        let dim ← elemAt "inputShape[i]" shape p.2
        return toSizeT (res * dim : Nat)
      else if p.1 = -1 then return res
      else return toSizeT (res * toSizeT p.1.toInt : Nat) : Result Nat) = .ok (toSizeT (res * factor shape p : Nat)) := by
  unfold factor
  split_ifs with hzero hminus
  · have hdim : elemAt "inputShape[i]" shape p.2 = .ok (shape.getD p.2 0) :=
      elemAt_ok_iff.mpr ⟨Nat.cast_nonneg _, by
        rw [Int.toNat_natCast, List.getElem?_eq_getElem (hp hzero), List.getD_eq_getElem _ _ (hp hzero)]⟩
    rw [hdim, ok_bind]
    rfl
  · rw [Nat.mul_one, toSizeT_natCast hres]
    rfl
  · rfl

/-- With the zeros inside the shape, the loop has the wrapped product of the factors. -/
theorem multiply_eq (h : ZerosInside shape mask) : multiply shape mask = .ok (toSizeT (factors shape mask)) := by
  let I (pre : List (BitVec 32 × Nat)) (res : Nat) : Prop := res = toSizeT ((pre.map (factor shape)).prod : Nat)
  have hstart : I [] 1 := rfl
  have hzeros := zerosInside_iff.mp h
  unfold multiply
  obtain ⟨res, hrun, hres⟩ := exists_foldlM_ok hstart (l := mask.zipIdx) (f := fun (res : Nat) (p : BitVec 32 × Nat) =>
      if p.1 = 0 then do
        let dim ← elemAt "inputShape[i]" shape p.2
        return toSizeT (res * dim : Nat)
      else if p.1 = -1 then return res
      else return toSizeT (res * toSizeT p.1.toInt : Nat)) fun pre p post res hmask hI => by
    have hmem : p ∈ mask.zipIdx := hmask ▸ List.mem_append_right pre List.mem_cons_self
    have hI : res = toSizeT ((pre.map (factor shape)).prod : Nat) := hI
    refine ⟨_, multiply_round (hzeros p hmem) (hI ▸ toSizeT_lt), ?_⟩
    show _ = toSizeT _
    rw [hI, List.map_append, List.prod_append, List.map_singleton, List.prod_singleton, toSizeT_mul_toSizeT]
  rw [hrun]
  exact congrArg _ hres

theorem fill_eq {newDim : Nat} (h : ZerosInside shape mask) : fill shape newDim mask =
    .ok (mask.zipIdx.map fun p => if p.1 = -1 then newDim else factor shape p) := by
  have hzeros := zerosInside_iff.mp h
  unfold fill
  refine mapM_eq_map fun p hp => ?_
  unfold factor
  by_cases hzero : p.1 = 0
  · have hlt := hzeros p hp hzero
    have hminus : ¬p.1 = -1 := by
      rw [hzero]
      decide
    rw [if_pos hzero, if_neg hminus, if_pos hzero]
    exact elemAt_ok_iff.mpr ⟨Nat.cast_nonneg _, by
      rw [Int.toNat_natCast, List.getElem?_eq_getElem hlt, List.getD_eq_getElem _ _ hlt]⟩
  · rw [if_neg hzero]
    split_ifs
    · rfl
    · rfl

/-- A zero behind the shape is read. -/
theorem multiply_outside (h : ¬ZerosInside shape mask) :
    multiply shape mask = .error (.undefinedBehaviour "inputShape[i]") := by
  unfold multiply
  rw [zerosInside_iff] at h
  push Not at h
  obtain ⟨p, hp, hzero, hout⟩ := h
  have hthrow : ∀ {q : BitVec 32 × Nat}, q.1 = 0 → shape.length ≤ q.2 → ∀ res : Nat,
      (if q.1 = 0 then do
        let dim ← elemAt "inputShape[i]" shape q.2
        return toSizeT (res * dim : Nat)
      else if q.1 = -1 then return res
      else return toSizeT (res * toSizeT q.1.toInt : Nat) : Result Nat) = .error (.undefinedBehaviour "inputShape[i]") := by
    intro q hq hlength res
    rw [if_pos hq, elemAt, if_pos (Nat.cast_nonneg _), Int.toNat_natCast, List.getElem?_eq_none hlength]
    rfl
  refine foldlM_error_of_mem (fun q _ => ?_) hp (hthrow hzero hout)
  by_cases hq : q.1 = 0
  · by_cases hlt : q.2 < shape.length
    · refine .inr fun res => ⟨toSizeT (res * shape.getD q.2 0 : Nat), ?_⟩
      have hdim : elemAt "inputShape[i]" shape q.2 = .ok (shape.getD q.2 0) :=
        elemAt_ok_iff.mpr ⟨Nat.cast_nonneg _, by
          rw [Int.toNat_natCast, List.getElem?_eq_getElem hlt, List.getD_eq_getElem _ _ hlt]⟩
      rw [if_pos hq, hdim]
      rfl
    · exact .inl (hthrow hq (not_lt.mp hlt))
  · refine .inr fun res => ?_
    rw [if_neg hq]
    split_ifs
    · exact ⟨_, rfl⟩
    · exact ⟨_, rfl⟩

end ReshapeShapeProp

/-! ### The mask -/

theorem checkDim_cases (e : BitVec 32) : -1 ≤ e.toInt ∧ ReshapeValidator.checkDim e = .ok () ∨
    e.toInt < -1 ∧ ∃ m, ReshapeValidator.checkDim e = throwException m := by
  unfold ReshapeValidator.checkDim
  split_ifs with h
  · exact .inr ⟨h, _, rfl⟩
  · exact .inl ⟨not_lt.mp h, rfl⟩

theorem forM_checkDim (dim : List (BitVec 32)) : (∀ e ∈ dim, -1 ≤ e.toInt) ∧ dim.forM ReshapeValidator.checkDim = .ok () ∨
    (¬∀ e ∈ dim, -1 ≤ e.toInt) ∧ ∃ m, dim.forM ReshapeValidator.checkDim = throwException m := by
  induction dim with
  | nil => exact .inl ⟨fun e he => absurd he List.not_mem_nil, rfl⟩
  | cons e dim ih =>
    have hcons : (e :: dim).forM ReshapeValidator.checkDim =
        (do ReshapeValidator.checkDim e; dim.forM ReshapeValidator.checkDim) := rfl
    rw [hcons, List.forall_mem_cons]
    rcases checkDim_cases e with ⟨he, hrun⟩ | ⟨he, m, hrun⟩
    · rw [hrun, ok_bind]
      rcases ih with ⟨hdim, hloop⟩ | ⟨hdim, hloop⟩
      · exact .inl ⟨⟨he, hdim⟩, hloop⟩
      · exact .inr ⟨fun h => hdim h.2, hloop⟩
    · rw [hrun]
      exact .inr ⟨fun h => absurd h.1 (not_le.mpr he), m, rfl⟩

/-- The validator returns or throws. -/
theorem checkParams_cases (dim : List (BitVec 32)) : Valid dim ∧ ReshapeValidator.checkParams dim = .ok () ∨
    ¬Valid dim ∧ ∃ m, ReshapeValidator.checkParams dim = throwException m := by
  unfold ReshapeValidator.checkParams
  rcases forM_checkDim dim with ⟨hdim, hloop⟩ | ⟨hdim, m, hloop⟩
  · rw [hloop, ok_bind]
    split_ifs with hcount
    · exact .inr ⟨fun h => absurd h.2 (not_le.mpr hcount), _, rfl⟩
    · exact .inl ⟨⟨hdim, not_lt.mp hcount⟩, rfl⟩
  · rw [hloop]
    exact .inr ⟨fun h => hdim h.1, m, rfl⟩

/-- The mask that `inferShapesImpl` goes by. -/
theorem Given.mask_eq (h : Given shape mask dim inBlobs) : ReshapeShapeProp.reshapeMask dim inBlobs = .ok mask := by
  rcases h with _ | ⟨-, hprecision, hbuffer, hsize⟩
  · rfl
  · unfold ReshapeShapeProp.reshapeMask ReshapeShapeProp.readMask
    dsimp only
    rw [if_pos hprecision, hbuffer, hsize]
    dsimp only
    have hread : ∀ i ∈ List.range mask.length, elemAt "buffer[i]" mask (i : Nat) = .ok (mask.getD i 0) := by
      intro i hi
      have hi := List.mem_range.mp hi
      exact elemAt_ok_iff.mpr ⟨Nat.cast_nonneg _, by
        rw [Int.toNat_natCast, List.getElem?_eq_getElem hi, List.getD_eq_getElem _ _ hi]⟩
    refine (mapM_eq_map hread).trans (congrArg _ ?_)
    apply List.ext_getElem?
    intro i
    rw [List.getElem?_map]
    by_cases hi : i < mask.length
    · rw [List.getElem?_range hi, List.getElem?_eq_getElem hi]
      exact congrArg some (List.getD_eq_getElem _ _ hi)
    · rw [List.getElem?_eq_none (by simpa using hi), List.getElem?_eq_none (by simpa using hi)]
      rfl

theorem Given.shape_eq (h : Given shape mask dim inBlobs) {e : String} :
    elemAt e (inBlobs.map fun blob => blob.tensorDesc.dims) 0 = .ok shape := by
  rcases h with ⟨hdims⟩ | ⟨hdims, -, -, -⟩
  · exact congrArg Except.ok hdims
  · exact congrArg Except.ok hdims

/-! ### The answer -/

theorem requested_cons (h : mask ≠ []) : requested shape mask =
    mask.zipIdx.map fun p => if p.1 = -1 then toSizeT shape.prod / toSizeT (factors shape mask) else factor shape p :=
  if_neg h

theorem getElem?_requested {i : Nat} {e : BitVec 32} (hi : mask[i]? = some e) : (requested shape mask)[i]? =
    some (if e = -1 then toSizeT shape.prod / toSizeT (factors shape mask) else factor shape (e, i)) := by
  have hmask : mask ≠ [] := List.ne_nil_of_mem (List.mem_of_getElem? hi)
  rw [requested_cons hmask, List.getElem?_map, List.getElem?_zipIdx, hi]
  simp

/-- With the zeros inside the shape and the right number of elements, the mask is filled. -/
theorem fills_requested (hzeros : ZerosInside shape mask) (hcount : (requested shape mask).prod = shape.prod) :
    Fills shape mask (requested shape mask) := by
  refine ⟨hcount, fun hmask => ?_, fun {i e} hi he => ?_, fun {i} hi => ?_, fun {i} hi => ?_⟩
  · rw [requested_cons hmask, List.length_map, List.length_zipIdx]
  · have hzero : e ≠ 0 := by
      rintro rfl
      exact absurd he (by decide)
    have hminus : e ≠ -1 := by
      rintro rfl
      exact absurd he (by decide)
    have hlt : e.toInt < 2 ^ 31 := BitVec.toInt_lt
    rw [getElem?_requested hi, if_neg hminus, factor, if_neg hzero, if_neg hminus, toSizeT,
      Int.emod_eq_of_lt he.le (hlt.trans (by decide))]
  · have hlt := hzeros i hi
    refine ⟨hlt, ?_⟩
    rw [getElem?_requested hi, if_neg (by decide), factor, if_pos rfl, List.getElem?_eq_getElem hlt,
      List.getD_eq_getElem _ _ hlt]
  · have hget := @getElem?_requested shape mask i (-1) hi
    obtain ⟨hlt, -⟩ := List.getElem?_eq_some_iff.mp hget
    rw [List.getD_eq_getElem _ _ hlt, ← hcount]
    exact List.CommMonoid.mul_prod_eraseIdx hlt

/-- The call answers with a filled mask, or it throws. -/
def Reshapes (shape : SizeVector) (mask : List (BitVec 32)) (answer : Result (List SizeVector)) : Prop :=
  ReportedOr (fun outShapes => ∃ out, outShapes = [out] ∧ Fills shape mask out) answer

theorem toSizeT_eq_zero_iff {n : Nat} : toSizeT n = 0 ↔ 2 ^ 64 ∣ n := by
  unfold toSizeT
  omega

theorem prod_modEq_iff {m n : Nat} : toSizeT m = toSizeT n ↔ n ≡ m [MOD 2 ^ 64] := by
  constructor
  · intro h
    have hn := toSizeT_modEq (n := n)
    rw [← h] at hn
    exact hn.symm.trans toSizeT_modEq
  · intro h
    exact (toSizeT_congr h).symm

theorem not_collides (h : (requested shape mask).prod = shape.prod) : ¬Collides shape mask := fun hcollides => hcollides.2 h

theorem reshapes_requested_iff (hzeros : ZerosInside shape mask)
    (hcount : (requested shape mask).prod ≡ shape.prod [MOD 2 ^ 64]) :
    Reshapes shape mask (.ok [requested shape mask]) ↔ ¬Collides shape mask := by
  constructor
  · rintro ⟨out, hout, hfills⟩
    obtain ⟨rfl, -⟩ := List.cons.inj hout
    exact not_collides hfills.count
  · intro h
    have heq : (requested shape mask).prod = shape.prod := by
      by_contra hne
      exact h ⟨hcount, hne⟩
    exact ⟨_, rfl, fills_requested hzeros heq⟩

/-- **Reshape.** The answer is right or an exception exactly if the attribute is refused, or each 0 has an axis, the
product of the known entries does not wrap to zero, and the numbers of elements do not differ by wrapping alone. -/
theorem reshape_iff (hgiven : Given shape mask dim inBlobs) :
    Reshapes shape mask (ReshapeShapeProp.inferShapesImpl dim inBlobs) ↔
      ¬Valid dim ∨ ZerosInside shape mask ∧ ¬2 ^ 64 ∣ factors shape mask ∧ ¬Collides shape mask := by
  unfold ReshapeShapeProp.inferShapesImpl
  rcases checkParams_cases dim with ⟨hvalid, hcheck⟩ | ⟨hvalid, m, hcheck⟩
  · rw [hcheck, ok_bind, hgiven.mask_eq, ok_bind, hgiven.shape_eq, ok_bind, or_iff_right (not_not.mpr hvalid)]
    dsimp only
    by_cases hmask : mask = []
    · subst hmask
      have hzeros : ZerosInside shape [] := fun i hi => absurd hi (by simp)
      have hfactors : ¬2 ^ 64 ∣ factors shape [] := by
        show ¬2 ^ 64 ∣ 1
        decide
      have hcount : (requested shape []).prod ≡ shape.prod [MOD 2 ^ 64] := by
        rw [requested, if_pos rfl, List.prod_singleton]
        exact toSizeT_modEq
      rw [if_pos rfl]
      have hanswer := reshapes_requested_iff hzeros hcount
      rw [requested, if_pos rfl] at hanswer
      exact hanswer.trans ⟨fun h => ⟨hzeros, hfactors, h⟩, fun h => h.2.2⟩
    · rw [if_neg hmask]
      by_cases hzeros : ZerosInside shape mask
      · rw [ReshapeShapeProp.multiply_eq hzeros, ok_bind]
        by_cases hres : 2 ^ 64 ∣ factors shape mask
        · rw [if_pos (toSizeT_eq_zero_iff.mpr hres)]
          exact ⟨fun h => h.elim, fun h => absurd hres h.2.1⟩
        · rw [if_neg (mt toSizeT_eq_zero_iff.mp hres), ReshapeShapeProp.fill_eq hzeros, ok_bind, ← requested_cons hmask]
          by_cases hcount : (requested shape mask).prod ≡ shape.prod [MOD 2 ^ 64]
          · rw [if_neg (not_not.mpr (prod_modEq_iff.mpr hcount))]
            exact (reshapes_requested_iff hzeros hcount).trans ⟨fun h => ⟨hzeros, hres, h⟩, fun h => h.2.2⟩
          · rw [if_pos (mt prod_modEq_iff.mp hcount)]
            exact ⟨fun _ => ⟨hzeros, hres, fun h => hcount h.1⟩, fun _ => trivial⟩
      · rw [ReshapeShapeProp.multiply_outside hzeros]
        exact ⟨fun h => h.elim, fun h => absurd h.1 hzeros⟩
  · rw [hcheck]
    exact ⟨fun _ => .inl hvalid, fun _ => trivial⟩

theorem reshape_iff_flattened :
    Reshapes [2, 3, 4] [0, -1] (ReshapeShapeProp.inferShapesImpl [0, -1] [{ tensorDesc := { dims := [2, 3, 4] } }]) ↔
      ¬Valid [0, -1] ∨ ZerosInside [2, 3, 4] [0, -1] ∧ ¬2 ^ 64 ∣ factors [2, 3, 4] [0, -1] ∧ ¬Collides [2, 3, 4] [0, -1] :=
  reshape_iff (.attribute rfl)

/-- The third zero has no axis. -/
theorem zero_outside_read : Given [2, 3] [0, 0, 0] [0, 0, 0] [{ tensorDesc := { dims := [2, 3] } }] ∧
    ¬Reshapes [2, 3] [0, 0, 0]
      (ReshapeShapeProp.inferShapesImpl [0, 0, 0] [{ tensorDesc := { dims := [2, 3] } }]) :=
  ⟨.attribute rfl, fun h => h⟩

/-- The mask asks for 2^64 + 2^32 elements. -/
example : ReshapeShapeProp.inferShapesImpl [65536, 65536, 641, 6700417] [{ tensorDesc := { dims := [65536, 65536] } }] =
    .ok [[65536, 65536, 641, 6700417]] := by
  rfl

end Mask

end OpenVino.InferenceEngine.ShapeInfer
