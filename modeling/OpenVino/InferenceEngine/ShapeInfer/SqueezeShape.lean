import OpenVino.InferenceEngine.ElementLoops
import OpenVino.InferenceEngine.ShapeInfer.ConstInfer.BroadcastOffset
import OpenVino.InferenceEngine.TensorOffset

/-!
# Squeeze and unsqueeze

`SqueezeShapeProp` drops the axes of its list, each of which it looks up in the whole list; `UnsqueezeShapeProp` merges
its list with the dimensions in one pass, with a cursor in each. `unsqueeze_squeeze_iff` says for which lists the second
undoes the first, and for which lists either reads behind the dimensions: squeezing the axis equal to the rank, and
inserting axes that do not ascend.
-/

namespace OpenVino.InferenceEngine.ShapeInfer

/-- `checkShapes` of `SqueezeValidator` and `UnsqueezeValidator`, with the names in their messages. -/
def checkIndices (type indices name : String) (inShapes : List SizeVector) : Result Unit :=
  match inShapes with
  | [_, indexDims] =>
    if indexDims.length ≠ 1 then
      throwException (name ++ " Incorrect number of '" ++ indices ++ "' input dimensions!")
    else return ()
  | _ => throwException (name ++ " " ++ type ++ " can take 2 inputs, but actually it has: " ++ toString inShapes.length)

/-- What `idx_data` points to, converted by `castToInt32`. -/
def idxData (indices : Blob (List (BitVec 32))) : List (BitVec 32) :=
  (indices.buffer.getD []).drop indices.tensorDesc.blockingDesc.offsetPadding

/-- The precisions that `procIndices` is instantiated for. -/
def IndexPrecision (precision : Precision) : Prop := precision = .FP32 ∨ precision = .FP16 ∨ precision = .I32

instance (precision : Precision) : Decidable (IndexPrecision precision) := inferInstanceAs (Decidable (_ ∨ _))

namespace SqueezeShapeProp

/-- `axis += data_dims.size()` for a negative axis. -/
def wrapAxis (rank : Nat) (idx : BitVec 32) : Int :=
  if idx.toInt < 0 then toInt (toSizeT idx.toInt + rank) else idx.toInt

/-- The body of the first loop. -/
def checkAxis (data_dims : SizeVector) (idx : BitVec 32) : Result Unit := do
  let axis := wrapAxis data_dims.length idx
  if data_dims.length < toSizeT axis then throwException "Index to squeeze exceeds data tensor dimension"
  else
    let dim ← elemAt "data_dims[axis]" data_dims axis
    if dim ≠ 1 then throwException "Index to squeeze of data tensor dimension is not 1" else return ()

/-- The body of the second loop. -/
def keepDim (data_dims : SizeVector) (indices : Blob (List (BitVec 32))) (outShape : SizeVector) (j : Nat) :
    Result SizeVector := do
  let found ← (List.range indices.size).foldlM (fun (found : Bool) (i : Nat) => do
    let idx ← elemAt "idx_data[i]" (idxData indices) i
    return if j = toSizeT (wrapAxis data_dims.length idx) then true else found) false
  if found then return outShape
  else
    let dim ← elemAt "data_dims[j]" data_dims j
    return outShape ++ [dim]

def procIndices (indices : Blob (List (BitVec 32))) (data_dims : SizeVector) (idx_dim : Nat) : Result SizeVector := do
  (List.range idx_dim).forM fun (i : Nat) => do
    let idx ← elemAt "idx_data[i]" (idxData indices) i
    checkAxis data_dims idx
  (List.range data_dims.length).foldlM (keepDim data_dims indices) []

/-- `inferShapesImpl`, of a layer with this name. -/
def inferShapesImpl (name : String) (inBlobs : List (Blob (List (BitVec 32)))) : Result (List SizeVector) := do
  checkIndices "Squeeze" "indices_to_squeeze" name (inBlobs.map fun blob => blob.tensorDesc.dims)
  match inBlobs with
  | data :: indices :: _ =>
    if 1 < indices.tensorDesc.dims.length then throwException " Index vector should be 1 dimension"
    else
      let data_dims := data.tensorDesc.dims
      let idx_dim ← elemAt "idx_dims[0]" indices.tensorDesc.dims 0
      if data_dims.length ≤ idx_dim ∧ ¬ (data_dims.length = 1 ∧ idx_dim = 1) then
        throwException " Incompatible number of data dimensions and indexes vector length!"
      else if IndexPrecision indices.tensorDesc.precision then
        let outShape ← procIndices indices data_dims idx_dim
        return [outShape]
      else
        throwException "Incorrect 'indices_to_squeeze' input precision. Only FP32, FP16 and I32 are supported!"
  | _ => .error (.undefinedBehaviour "inBlobs[SQUEEZE_INDEXES]")

end SqueezeShapeProp

namespace UnsqueezeShapeProp

/-- The variables of the last loop. -/
structure Merge where
  j : Nat
  k : Nat
  outShape : SizeVector

/-- The body of the last loop. -/
def merge (indices : Blob (List (BitVec 32))) (data_dims : SizeVector) (s : Merge) (i : Nat) : Result Merge := do
  let push ← (if s.k < indices.size then do
      let idx ← elemAt "idx_data[k]" (idxData indices) s.k
      return decide (i = toSizeT idx.toInt)
    else return false)
  if push then return { s with k := s.k + 1, outShape := s.outShape ++ [1] }
  else
    let dim ← elemAt "data_dims[j++]" data_dims s.j
    return { s with j := s.j + 1, outShape := s.outShape ++ [dim] }

def procIndices (indices : Blob (List (BitVec 32))) (data_dims : SizeVector) (idx_dim : Nat) : Result SizeVector := do
  if indices.buffer = none ∧ indices.tensorDesc.blockingDesc.offsetPadding = 0 then return data_dims
  else
    let max ← (List.range idx_dim).foldlM (fun (max' i : Nat) => do
      let idx ← elemAt "idx_data[i]" (idxData indices) i
      return max max' (toSizeT idx.toInt)) data_dims.length
    if toSizeT (idx_dim + data_dims.length : Nat) < toSizeT (max + 1 : Nat) then
      throwException "Indices_to_set for unsqueeze layer is out of tensor dimension"
    else
      let s ← (List.range (toSizeT (indices.size + data_dims.length : Nat))).foldlM (merge indices data_dims)
        { j := 0, k := 0, outShape := [] }
      return s.outShape

/-- `inferShapesImpl`, of a layer with this name. -/
def inferShapesImpl (name : String) (inBlobs : List (Blob (List (BitVec 32)))) : Result (List SizeVector) := do
  checkIndices "Unsqueeze" "indices_to_set" name (inBlobs.map fun blob => blob.tensorDesc.dims)
  match inBlobs with
  | data :: indices :: _ =>
    if 1 < indices.tensorDesc.dims.length then throwException " Index vector should be 1 dimension"
    else if IndexPrecision indices.tensorDesc.precision then
      let idx_dim ← elemAt "idx_dims[0]" indices.tensorDesc.dims 0
      let outShape ← procIndices indices data.tensorDesc.dims idx_dim
      return [outShape]
    else throwException "Incorrect 'indices_to_set' input precision. Only FP32, FP16 and I32 are supported!"
  | _ => .error (.undefinedBehaviour "inBlobs[UNSQUEEZE_INDEXES]")

end UnsqueezeShapeProp

/-! ### Lists of axes -/

section Axes

variable {shape squeezed : SizeVector} {axes : List (BitVec 32)} {indices data : Blob (List (BitVec 32))}
  {name : String} {rank : Nat} {idx : BitVec 32}

/-- The second input holds these axes. -/
structure HoldsAxes (indices : Blob (List (BitVec 32))) (axes : List (BitVec 32)) : Prop where
  precision : IndexPrecision indices.tensorDesc.precision
  dims : indices.tensorDesc.dims = [axes.length]
  size : indices.size = axes.length
  allocated : indices.buffer ≠ none
  elements : idxData indices = axes

/-- The distinct axes of size one that a list names without counting from the end; some axis is left. -/
structure Removable (shape : SizeVector) (axes : List (BitVec 32)) : Prop where
  nodup : axes.Nodup
  one : ∀ a ∈ axes, 0 ≤ a.toInt ∧ shape[a.toInt.toNat]? = some 1
  fewer : axes.length < shape.length

/-- The axes ascend. -/
def Ascending (axes : List (BitVec 32)) : Prop := axes.Pairwise fun a b => a.toInt < b.toInt

instance : Decidable (Ascending axes) := inferInstanceAs (Decidable (List.Pairwise _ _))

/-- The number a cursor is compared with. -/
def axisNumber (idx : BitVec 32) : Nat := toSizeT idx.toInt

theorem axisNumber_of_nonneg (h : 0 ≤ idx.toInt) : (axisNumber idx : Int) = idx.toInt := by
  have hlt := idx.toInt_lt
  unfold axisNumber toSizeT
  omega

theorem axisNumber_of_neg (h : idx.toInt < 0) : (axisNumber idx : Int) = 2 ^ 64 + idx.toInt := by
  have hle := idx.le_toInt
  unfold axisNumber toSizeT
  omega

theorem ascending_iff (h : ∀ a ∈ axes, 0 ≤ a.toInt) : Ascending axes ↔ (axes.map axisNumber).Pairwise (· < ·) := by
  rw [List.pairwise_map]
  refine List.Pairwise.iff_of_mem fun {a b} ha hb => ?_
  have hna := axisNumber_of_nonneg (h a ha)
  have hnb := axisNumber_of_nonneg (h b hb)
  omega

/-! ### What a squeeze leaves -/

namespace SqueezeShapeProp

/-- The dimensions from number `j` on, without those that `p` finds. -/
def dropDims (p : Nat → Bool) : Nat → SizeVector → SizeVector
  | _, [] => []
  | j, d :: ds => if p j then dropDims p (j + 1) ds else d :: dropDims p (j + 1) ds

/-- The second loop finds this dimension in the list. -/
def found (rank : Nat) (axes : List (BitVec 32)) (j : Nat) : Bool :=
  axes.any fun idx => decide (j = toSizeT (wrapAxis rank idx))

theorem foldlM_any {α : Type} {l : List α} {p : α → Prop} [DecidablePred p] {b : Bool} :
    l.foldlM (fun (b : Bool) a => (return if p a then true else b : Result Bool)) b =
      .ok (b || l.any fun a => decide (p a)) := by
  induction l generalizing b with
  | nil => rw [List.any_nil, Bool.or_false]; rfl
  | cons a l ih =>
    rw [List.foldlM_cons, pure_bind, ih, List.any_cons]
    by_cases ha : p a
    · simp [ha]
    · simp [ha]

theorem keepDim_eq (h : HoldsAxes indices axes) {out : SizeVector} {j : Nat} (hj : j < shape.length) :
    keepDim shape indices out j = .ok (if found shape.length axes j then out else out ++ [shape[j]]) := by
  have hfound := @foldlM_any _ axes (fun idx => j = toSizeT (wrapAxis shape.length idx)) _ false
  rw [Bool.false_or] at hfound
  rw [keepDim, h.size, h.elements, foldlM_elements, hfound, ok_bind, elemAt_eq hj]
  rw [← found]
  split_ifs
  · rfl
  · rfl

theorem keepDims_eq (h : HoldsAxes indices axes) : (List.range shape.length).foldlM (keepDim shape indices) [] =
    .ok (dropDims (found shape.length axes) 0 shape) := by
  suffices ∀ n j out, j + n = shape.length → (List.range' j n).foldlM (keepDim shape indices) out =
      .ok (out ++ dropDims (found shape.length axes) j (shape.drop j)) by
    rw [List.range_eq_range', this shape.length 0 [] (Nat.zero_add _), List.drop_zero, List.nil_append]
  intro n
  induction n with
  | zero =>
    intro j out hj
    rw [List.drop_of_length_le (by omega), dropDims, List.append_nil]
    rfl
  | succ n ih =>
    intro j out hj
    have hlt : j < shape.length := by omega
    rw [List.range'_succ, List.foldlM_cons, keepDim_eq h hlt, ok_bind, ih (j + 1) _ (by omega),
      List.drop_eq_getElem_cons hlt, dropDims]
    split_ifs
    · rfl
    · rw [List.append_assoc, List.singleton_append]

theorem length_dropDims {p : Nat → Bool} {j : Nat} {ds : SizeVector} :
    (dropDims p j ds).length + (List.range' j ds.length).countP p = ds.length := by
  induction ds generalizing j with
  | nil => rfl
  | cons d ds ih =>
    have ih := @ih (j + 1)
    rw [dropDims, List.length_cons, List.range'_succ, List.countP_cons]
    split_ifs with hp
    · omega
    · rw [List.length_cons]
      omega

/-! ### The axes that are squeezed -/

theorem wrapAxis_of_nonneg (h : 0 ≤ idx.toInt) : wrapAxis rank idx = idx.toInt := if_neg (by omega)

theorem fitsInt_wrapAxis : FitsInt (wrapAxis rank idx) := by
  have hlt := idx.toInt_lt
  have hle := idx.le_toInt
  unfold wrapAxis
  split_ifs
  · exact fitsInt_toInt _
  · unfold FitsInt
    omega

/-- An axis counted from the end is not the rank. -/
theorem wrapAxis_eq_rank_iff : wrapAxis rank idx = rank ↔ idx.toInt = rank := by
  have hle := idx.le_toInt
  unfold wrapAxis
  split_ifs with hneg
  · unfold toInt toSizeT
    rw [Int.bmod_def]
    omega
  · rfl

/-- The axis is inside, of size one. -/
def IsOne (shape : SizeVector) (idx : BitVec 32) : Prop :=
  0 ≤ wrapAxis shape.length idx ∧ shape[(wrapAxis shape.length idx).toNat]? = some 1

theorem checkAxis_of_isOne (h : IsOne shape idx) (hrank : shape.length < 2 ^ 63) : checkAxis shape idx = .ok () := by
  obtain ⟨hnonneg, hget⟩ := h
  obtain ⟨hlt, -⟩ := List.getElem?_eq_some_iff.mp hget
  have hdim : elemAt "data_dims[axis]" shape (wrapAxis shape.length idx) = .ok 1 := elemAt_ok_iff.mpr ⟨hnonneg, hget⟩
  unfold checkAxis
  rw [if_neg (by unfold toSizeT; omega), hdim]
  rfl

/-- An axis that passes is one, and the one behind the shape is read. -/
theorem checkAxis_cases (hrank : shape.length < 2 ^ 63) :
    IsOne shape idx ∧ checkAxis shape idx = .ok () ∨
    idx.toInt = shape.length ∧ checkAxis shape idx = .error (.undefinedBehaviour "data_dims[axis]") ∨
    ¬ IsOne shape idx ∧ idx.toInt ≠ shape.length ∧ ∃ message, checkAxis shape idx = .error (.exception message) := by
  by_cases hone : IsOne shape idx
  · exact .inl ⟨hone, checkAxis_of_isOne hone hrank⟩
  obtain ⟨hlow, hhigh⟩ := @fitsInt_wrapAxis shape.length idx
  have hbehind := @wrapAxis_eq_rank_iff shape.length idx
  by_cases houtside : shape.length < toSizeT (wrapAxis shape.length idx)
  · refine .inr (.inr ⟨hone, fun heq => ?_, _, if_pos houtside⟩)
    rw [← hbehind] at heq
    rw [heq, toSizeT_natCast (by omega)] at houtside
    exact lt_irrefl _ houtside
  · have hnonneg : 0 ≤ wrapAxis shape.length idx := by
      unfold toSizeT at houtside
      omega
    obtain ⟨axis, haxis⟩ := Int.eq_ofNat_of_zero_le hnonneg
    rw [haxis, toSizeT_natCast (by omega)] at houtside
    rcases (not_lt.mp houtside).lt_or_eq with hlt | heq
    · refine .inr (.inr ⟨hone, by rw [Ne, ← hbehind, haxis]; omega,
        "Index to squeeze of data tensor dimension is not 1", ?_⟩)
      have hdim : shape[axis] ≠ 1 := by
        intro hdim
        refine hone ⟨hnonneg, ?_⟩
        rw [haxis, Int.toNat_natCast, List.getElem?_eq_getElem hlt, hdim]
      unfold checkAxis
      rw [haxis, if_neg (by rw [toSizeT_natCast (by omega)]; omega), elemAt_eq hlt, ok_bind,
        if_pos hdim]
      rfl
    · refine .inr (.inl ⟨hbehind.mp (by rw [haxis, heq]), ?_⟩)
      unfold checkAxis
      rw [haxis, if_neg (by rw [toSizeT_natCast (by omega)]; omega), elemAt_outside (by omega)]
      rfl

/-- The length of the list lets the axes be looked at. -/
def FewEnough (shape : SizeVector) (axes : List (BitVec 32)) : Prop :=
  axes.length < shape.length ∨ shape.length = 1 ∧ axes.length = 1

instance : Decidable (FewEnough shape axes) := inferInstanceAs (Decidable (_ ∨ _))

/-- The axis equal to the rank comes behind axes that pass. -/
def ReadsBehind (shape : SizeVector) (axes : List (BitVec 32)) : Prop :=
  FewEnough shape axes ∧
    ∃ (pre : List (BitVec 32)) (a : BitVec 32) (post : List (BitVec 32)),
      axes = pre ++ a :: post ∧ a.toInt = shape.length ∧ ∀ b ∈ pre, IsOne shape b

theorem inferShapesImpl_eq (h : HoldsAxes indices axes) : inferShapesImpl name [data, indices] =
    if FewEnough data.tensorDesc.dims axes then do
      axes.forM (checkAxis data.tensorDesc.dims)
      return [dropDims (found data.tensorDesc.dims.length axes) 0 data.tensorDesc.dims]
    else throwException " Incompatible number of data dimensions and indexes vector length!" := by
  have hvalid : checkIndices "Squeeze" "indices_to_squeeze" name
      [data.tensorDesc.dims, indices.tensorDesc.dims] = .ok () := by
    rw [checkIndices, h.dims]
    rfl
  have hdim : elemAt "idx_dims[0]" [axes.length] 0 = .ok axes.length := rfl
  unfold inferShapesImpl procIndices
  rw [List.map_cons, List.map_singleton, hvalid, ok_bind]
  dsimp only
  rw [h.dims, if_neg (by simp), hdim, ok_bind, h.elements, forM_elements, keepDims_eq h, if_pos h.precision]
  by_cases hfew : FewEnough data.tensorDesc.dims axes
  · rw [if_pos hfew, if_neg (by unfold FewEnough at hfew; omega)]
    cases axes.forM (checkAxis data.tensorDesc.dims) with
    | ok u => rfl
    | error x => rfl
  · rw [if_neg hfew, if_pos (by unfold FewEnough at hfew; omega)]

/-- A squeeze is undefined when it reads behind the shape. -/
theorem undefined_iff (h : HoldsAxes indices axes) (hrank : data.tensorDesc.dims.length < 2 ^ 63) :
    (∃ e, inferShapesImpl name [data, indices] = .error (.undefinedBehaviour e)) ↔
      ReadsBehind data.tensorDesc.dims axes := by
  rw [inferShapesImpl_eq h, ReadsBehind]
  by_cases hfew : FewEnough data.tensorDesc.dims axes
  · rw [if_pos hfew]
    constructor
    · rintro ⟨e, hrun⟩
      have hchecks : axes.forM (checkAxis data.tensorDesc.dims) = .error (.undefinedBehaviour e) := by
        cases hx : axes.forM (checkAxis data.tensorDesc.dims) with
        | ok u =>
          rw [hx] at hrun
          cases hrun
        | error x =>
          rw [hx] at hrun
          exact congrArg Except.error (Except.error.inj hrun)
      obtain ⟨pre, a, post, haxes, hpre, ha⟩ := forM_error_iff.mp hchecks
      refine ⟨hfew, pre, a, post, haxes, ?_, fun b hb => ?_⟩
      · rcases @checkAxis_cases data.tensorDesc.dims a hrank with ⟨-, hok⟩ | ⟨hlast, -⟩ | ⟨-, -, message, hthrow⟩
        · rw [hok] at ha
          cases ha
        · exact hlast
        · rw [hthrow] at ha
          cases ha
      · rcases @checkAxis_cases data.tensorDesc.dims b hrank with ⟨hone, -⟩ | ⟨-, hbehind⟩ | ⟨-, -, message, hthrow⟩
        · exact hone
        · rw [hpre b hb] at hbehind
          cases hbehind
        · rw [hpre b hb] at hthrow
          cases hthrow
    · rintro ⟨-, pre, a, post, haxes, hlast, hpre⟩
      have ha : checkAxis data.tensorDesc.dims a = .error (.undefinedBehaviour "data_dims[axis]") := by
        rcases @checkAxis_cases data.tensorDesc.dims a hrank with ⟨hone, -⟩ | ⟨-, hbehind⟩ | ⟨-, hne, -⟩
        · obtain ⟨-, hget⟩ := hone
          rw [wrapAxis_eq_rank_iff.mpr hlast, Int.toNat_natCast, List.getElem?_eq_none (le_refl _)] at hget
          cases hget
        · exact hbehind
        · exact absurd hlast hne
      have hchecks := forM_error_iff.mpr ⟨pre, a, post, haxes, fun b hb => checkAxis_of_isOne (hpre b hb) hrank, ha⟩
      exact ⟨"data_dims[axis]", by rw [hchecks]; rfl⟩
  · rw [if_neg hfew]
    constructor
    · rintro ⟨e, hrun⟩
      cases hrun
    · rintro ⟨hyes, -⟩
      exact absurd hyes hfew

end SqueezeShapeProp

/-! ### What an unsqueeze inserts -/

namespace UnsqueezeShapeProp

variable {s s' : Merge} {i k : Nat} {xs : List Nat}

theorem merge_eq (h : HoldsAxes indices axes) : merge indices shape s i =
    if (axes.map axisNumber)[s.k]? = some i then .ok { s with k := s.k + 1, outShape := s.outShape ++ [1] }
    else do
      let dim ← elemAt "data_dims[j++]" shape s.j
      return { s with j := s.j + 1, outShape := s.outShape ++ [dim] } := by
  unfold merge
  rw [h.size, h.elements]
  by_cases hk : s.k < axes.length
  · have hget : (axes.map axisNumber)[s.k]? = some (axisNumber axes[s.k]) := by
      rw [List.getElem?_map, List.getElem?_eq_getElem hk, Option.map_some]
    rw [if_pos hk, elemAt_eq hk, ok_bind, pure_bind, hget]
    by_cases hi : axisNumber axes[s.k] = i
    · have heq : i = toSizeT axes[s.k].toInt := hi.symm
      rw [if_pos (decide_eq_true heq), if_pos (congrArg some hi)]
      rfl
    · have hne : ¬ i = toSizeT axes[s.k].toInt := fun heq => hi heq.symm
      rw [if_neg (fun h => hi (Option.some_inj.mp h)), if_neg (by rw [decide_eq_true_iff]; exact hne)]
  · rw [if_neg hk, List.getElem?_eq_none (by rw [List.length_map]; omega), if_neg (by simp)]
    rfl

/-- The axes before the cursor are below the position, and the others are not. -/
def Between (xs : List Nat) (i k : Nat) : Prop := (∀ x ∈ xs.take k, x < i) ∧ ∀ x ∈ xs.drop k, i ≤ x

theorem Between.start (xs : List Nat) : Between xs 0 0 := by
  refine ⟨fun x hx => ?_, fun x _ => Nat.zero_le x⟩
  rw [List.take_zero] at hx
  exact absurd hx List.not_mem_nil

theorem Between.push (h : Between xs i k) (hsorted : xs.Pairwise (· < ·)) (hk : xs[k]? = some i) :
    Between xs (i + 1) (k + 1) := by
  obtain ⟨hlt, hget⟩ := List.getElem?_eq_some_iff.mp hk
  obtain ⟨hbefore, -⟩ := h
  refine ⟨fun x hx => ?_, fun x hx => ?_⟩
  · rw [List.take_add_one, hk] at hx
    rcases List.mem_append.mp hx with hx | hx
    · have := hbefore x hx
      omega
    · rw [Option.toList_some, List.mem_singleton] at hx
      omega
  · have hdrop : (xs.drop k).Pairwise (· < ·) := hsorted.sublist (List.drop_sublist k xs)
    rw [List.drop_eq_getElem_cons hlt, List.pairwise_cons, hget] at hdrop
    exact hdrop.1 x hx

theorem Between.skip (h : Between xs i k) (hsorted : xs.Pairwise (· < ·)) (hk : xs[k]? ≠ some i) :
    Between xs (i + 1) k := by
  obtain ⟨hbefore, hbehind⟩ := h
  refine ⟨fun x hx => (hbefore x hx).trans (Nat.lt_succ_self i), fun x hx => ?_⟩
  have hle := hbehind x hx
  by_contra hlt
  obtain rfl : x = i := by omega
  obtain ⟨m, hm, hget⟩ := List.getElem_of_mem hx
  have hlen : k < xs.length := by
    rw [List.length_drop] at hm
    omega
  have hdrop : (xs.drop k).Pairwise (· < ·) := hsorted.sublist (List.drop_sublist k xs)
  rw [List.drop_eq_getElem_cons hlen] at hx hdrop
  rw [List.getElem?_eq_getElem hlen, Ne, Option.some_inj] at hk
  rcases List.mem_cons.mp hx with heq | hx
  · exact hk heq.symm
  · have hhead := hbehind xs[k] (List.drop_eq_getElem_cons hlen ▸ List.mem_cons_self)
    have := (List.pairwise_cons.mp hdrop).1 x hx
    omega

/-- What the cursor has passed is not there any more. -/
theorem Between.mem_iff (h : Between xs i k) : i ∈ xs ↔ i ∈ xs.drop k := by
  refine ⟨fun hi => ?_, fun hi => List.mem_of_mem_drop hi⟩
  rw [← List.take_append_drop k xs] at hi
  rcases List.mem_append.mp hi with hi | hi
  · exact absurd (h.1 i hi) (lt_irrefl i)
  · exact hi

theorem lt_length_of_getElem? {x : Nat} (hk : (axes.map axisNumber)[k]? = some x) : k < axes.length := by
  obtain ⟨hlt, -⟩ := List.getElem?_eq_some_iff.mp hk
  rwa [List.length_map] at hlt

/-- When all positions are filled, the list was used up in ascending order. -/
theorem sorted_of_merges (h : HoldsAxes indices axes)
    (hrun : (List.range (axes.length + shape.length)).foldlM (merge indices shape) { j := 0, k := 0, outShape := [] } =
      .ok s') :
    (axes.map axisNumber).Pairwise (· < ·) ∧ ∀ x ∈ axes.map axisNumber, x < axes.length + shape.length := by
  let I (i : Nat) (s : Merge) : Prop := s.j + s.k = i ∧ s.j ≤ shape.length ∧ s.k ≤ axes.length ∧
    ((axes.map axisNumber).take s.k).Pairwise (· < ·) ∧ ∀ x ∈ (axes.map axisNumber).take s.k, x < i
  have hstart : I 0 { j := 0, k := 0, outShape := [] } := by
    refine ⟨rfl, Nat.zero_le _, Nat.zero_le _, ?_, fun x hx => ?_⟩
    · rw [List.take_zero]
      exact .nil
    · rw [List.take_zero] at hx
      exact absurd hx List.not_mem_nil
  have hend : I (axes.length + shape.length) s' := by
    refine range_ok_induct hrun hstart fun i _ s s' hI hround => ?_
    obtain ⟨hsum, hj, hk, hsorted, hbelow⟩ := hI
    rw [merge_eq h] at hround
    by_cases hmatch : (axes.map axisNumber)[s.k]? = some i
    · rw [if_pos hmatch] at hround
      obtain rfl := Except.ok.inj hround
      refine ⟨by dsimp only; omega, hj, lt_length_of_getElem? hmatch, ?_, fun x hx => ?_⟩
      · rw [List.take_add_one, hmatch, Option.toList_some, List.pairwise_append]
        refine ⟨hsorted, List.pairwise_singleton _ _, fun x hx y hy => ?_⟩
        rw [List.mem_singleton.mp hy]
        exact hbelow x hx
      · rw [List.take_add_one, hmatch, Option.toList_some] at hx
        rcases List.mem_append.mp hx with hx | hx
        · exact (hbelow x hx).trans (Nat.lt_succ_self i)
        · rw [List.mem_singleton.mp hx]
          exact Nat.lt_succ_self i
    · rw [if_neg hmatch, bind_ok_iff] at hround
      obtain ⟨dim, hdim, hround⟩ := hround
      obtain ⟨-, hget⟩ := elemAt_ok_iff.mp hdim
      obtain ⟨hlt, -⟩ := List.getElem?_eq_some_iff.mp hget
      rw [Int.toNat_natCast] at hlt
      obtain rfl := pure_ok_iff.mp hround
      exact ⟨by dsimp only; omega, hlt, hk, hsorted, fun x hx => (hbelow x hx).trans (Nat.lt_succ_self i)⟩
  obtain ⟨hsum, hj, hk, hsorted, hbelow⟩ := hend
  have hall : (axes.map axisNumber).take s'.k = axes.map axisNumber := List.take_of_length_le (by
    rw [List.length_map]
    omega)
  rw [hall] at hsorted hbelow
  exact ⟨hsorted, hbelow⟩

theorem length_le_of_sorted {a b : Nat} (hsorted : xs.Pairwise (· < ·)) (h : ∀ x ∈ xs, a ≤ x ∧ x < b) :
    xs.length ≤ b - a := by
  have hnodup : xs.Nodup := hsorted.imp fun hlt => Nat.ne_of_lt hlt
  have hsub : xs.toFinset ⊆ Finset.Ico a b := fun x hx => Finset.mem_Ico.mpr (h x (List.mem_toFinset.mp hx))
  have hcard := Finset.card_le_card hsub
  rwa [List.toFinset_card_of_nodup hnodup, Nat.card_Ico] at hcard

/-- Ascending axes are all found, and the dimensions suffice for the other positions. -/
theorem exists_merges (h : HoldsAxes indices axes) (hsorted : (axes.map axisNumber).Pairwise (· < ·))
    (hbelow : ∀ x ∈ axes.map axisNumber, x < axes.length + shape.length) :
    ∃ s', (List.range (axes.length + shape.length)).foldlM (merge indices shape) { j := 0, k := 0, outShape := [] } =
      .ok s' := by
  let I (i : Nat) (s : Merge) : Prop :=
    s.j + s.k = i ∧ s.k ≤ axes.length ∧ Between (axes.map axisNumber) i s.k
  have hstart : I 0 { j := 0, k := 0, outShape := [] } := ⟨rfl, Nat.zero_le _, Between.start _⟩
  obtain ⟨s', hrun, -⟩ := exists_range_ok hstart (n := axes.length + shape.length) (f := merge indices shape)
    fun i hi s hI => by
      obtain ⟨hsum, hk, hbetween⟩ := hI
      rw [merge_eq h]
      by_cases hmatch : (axes.map axisNumber)[s.k]? = some i
      · rw [if_pos hmatch]
        exact ⟨_, rfl, by dsimp only; omega, lt_length_of_getElem? hmatch, hbetween.push hsorted hmatch⟩
      · have hskip := hbetween.skip hsorted hmatch
        have hroom := length_le_of_sorted (hsorted.sublist (List.drop_sublist s.k _)) fun x hx =>
          ⟨hskip.2 x hx, hbelow x (List.mem_of_mem_drop hx)⟩
        rw [List.length_drop, List.length_map] at hroom
        rw [if_neg hmatch, elemAt_eq (show s.j < shape.length by omega)]
        exact ⟨_, rfl, by dsimp only; omega, hk, hskip⟩
  exact ⟨s', hrun⟩

/-- Nothing but a read behind the dimensions stops the loop. -/
theorem merges_cases (h : HoldsAxes indices axes) {l : List Nat} : (∃ s', l.foldlM (merge indices shape) s = .ok s') ∨
    l.foldlM (merge indices shape) s = .error (.undefinedBehaviour "data_dims[j++]") := by
  induction l generalizing s with
  | nil => exact .inl ⟨s, rfl⟩
  | cons i l ih =>
    rw [List.foldlM_cons, merge_eq h]
    by_cases hmatch : (axes.map axisNumber)[s.k]? = some i
    · rw [if_pos hmatch]
      exact ih
    · rw [if_neg hmatch]
      by_cases hj : s.j < shape.length
      · rw [elemAt_eq hj]
        exact ih
      · rw [elemAt_outside (not_lt.mp hj)]
        exact .inr rfl

/-- The dimensions that a squeeze has left, merged with the axes it has dropped. -/
theorem merges_dropDims {p : Nat → Bool} (h : HoldsAxes indices axes) (hsorted : (axes.map axisNumber).Pairwise (· < ·))
    (hone : ∀ x ∈ axes.map axisNumber, shape[x]? = some 1)
    (hp : ∀ i < shape.length, p i = true ↔ i ∈ axes.map axisNumber) :
    ∃ s', (List.range shape.length).foldlM (merge indices (SqueezeShapeProp.dropDims p 0 shape))
      { j := 0, k := 0, outShape := [] } = .ok s' ∧ s'.outShape = shape := by
  let I (i : Nat) (s : Merge) : Prop := Between (axes.map axisNumber) i s.k ∧ s.outShape = shape.take i ∧
    (SqueezeShapeProp.dropDims p 0 shape).drop s.j = SqueezeShapeProp.dropDims p i (shape.drop i)
  have hstart : I 0 { j := 0, k := 0, outShape := [] } := by
    refine ⟨Between.start _, by rw [List.take_zero], ?_⟩
    rw [List.drop_zero, List.drop_zero]
  obtain ⟨s', hrun, -, hout, -⟩ := exists_range_ok hstart (n := shape.length)
    (f := merge indices (SqueezeShapeProp.dropDims p 0 shape)) fun i hi s hI => by
      obtain ⟨hbetween, hout, hrest⟩ := hI
      rw [List.drop_eq_getElem_cons hi, SqueezeShapeProp.dropDims] at hrest
      have htake : shape.take (i + 1) = shape.take i ++ [shape[i]] := by
        rw [List.take_add_one, List.getElem?_eq_getElem hi, Option.toList_some]
      rw [merge_eq h]
      by_cases hmatch : (axes.map axisNumber)[s.k]? = some i
      · have hmem := List.mem_of_getElem? hmatch
        have hdim : shape[i] = 1 := by
          have hget := hone i hmem
          rwa [List.getElem?_eq_getElem hi, Option.some_inj] at hget
        rw [if_pos ((hp i hi).mpr hmem)] at hrest
        rw [if_pos hmatch]
        exact ⟨_, rfl, hbetween.push hsorted hmatch, by rw [htake, ← hout, hdim], hrest⟩
      · have hskip := hbetween.skip hsorted hmatch
        have hmem : ¬ p i = true := by
          rw [hp i hi, hbetween.mem_iff]
          intro hi
          exact absurd (hskip.2 i hi) (by omega)
        rw [if_neg hmem] at hrest
        have hget : (SqueezeShapeProp.dropDims p 0 shape)[s.j]? = some shape[i] := by
          rw [← List.head?_drop, hrest, List.head?_cons]
        have hdim : elemAt "data_dims[j++]" (SqueezeShapeProp.dropDims p 0 shape) s.j = .ok shape[i] :=
          elemAt_ok_iff.mpr ⟨Nat.cast_nonneg _, by rwa [Int.toNat_natCast]⟩
        rw [if_neg hmatch, hdim]
        refine ⟨_, rfl, hskip, by rw [htake, ← hout], ?_⟩
        dsimp only
        rw [← List.drop_drop, hrest, List.drop_succ_cons, List.drop_zero]
  refine ⟨s', hrun, ?_⟩
  rw [hout, List.take_length]

/-- The `max` of the first loop. -/
def maxAxis (rank : Nat) (axes : List (BitVec 32)) : Nat := axes.foldl (fun m idx => max m (axisNumber idx)) rank

theorem maxAxis_spec : rank ≤ maxAxis rank axes ∧ (∀ a ∈ axes, axisNumber a ≤ maxAxis rank axes) ∧
    (maxAxis rank axes = rank ∨ ∃ a ∈ axes, maxAxis rank axes = axisNumber a) := by
  induction axes generalizing rank with
  | nil => exact ⟨le_refl _, fun a ha => absurd ha List.not_mem_nil, .inl rfl⟩
  | cons a axes ih =>
    obtain ⟨hrank, haxes, hcase⟩ := @ih (max rank (axisNumber a))
    have hcons : maxAxis rank (a :: axes) = maxAxis (max rank (axisNumber a)) axes := rfl
    rw [hcons]
    refine ⟨(le_max_left _ _).trans hrank, List.forall_mem_cons.mpr ⟨(le_max_right _ _).trans hrank, haxes⟩, ?_⟩
    rcases hcase with heq | ⟨b, hb, heq⟩
    · rcases max_choice rank (axisNumber a) with hmax | hmax
      · exact .inl (heq.trans hmax)
      · exact .inr ⟨a, List.mem_cons_self, heq.trans hmax⟩
    · exact .inr ⟨b, List.mem_cons_of_mem _ hb, heq⟩

theorem inferShapesImpl_eq (h : HoldsAxes indices axes)
    (hsmall : data.tensorDesc.dims.length + axes.length < 2 ^ 63) : inferShapesImpl name [data, indices] =
    if axes.length + data.tensorDesc.dims.length < toSizeT (maxAxis data.tensorDesc.dims.length axes + 1 : Nat) then
      throwException "Indices_to_set for unsqueeze layer is out of tensor dimension"
    else do
      let s ← (List.range (axes.length + data.tensorDesc.dims.length)).foldlM (merge indices data.tensorDesc.dims)
        { j := 0, k := 0, outShape := [] }
      return [s.outShape] := by
  have hvalid : checkIndices "Unsqueeze" "indices_to_set" name
      [data.tensorDesc.dims, indices.tensorDesc.dims] = .ok () := by
    rw [checkIndices, h.dims]
    rfl
  have hdim : elemAt "idx_dims[0]" [axes.length] 0 = .ok axes.length := rfl
  have hmax : axes.foldlM (fun (max' : Nat) idx => (return max max' (toSizeT idx.toInt) : Result Nat))
      data.tensorDesc.dims.length = .ok (maxAxis data.tensorDesc.dims.length axes) := List.foldlM_pure
  have hrounds : toSizeT (axes.length + data.tensorDesc.dims.length : Nat) =
      axes.length + data.tensorDesc.dims.length := toSizeT_natCast (by omega)
  unfold inferShapesImpl procIndices
  rw [List.map_cons, List.map_singleton, hvalid, ok_bind]
  dsimp only
  rw [h.dims, if_neg (by simp), if_pos h.precision, hdim, ok_bind, if_neg (fun hnone => h.allocated hnone.1), h.elements,
    foldlM_elements, hmax, ok_bind, h.size, hrounds]
  split_ifs
  · rfl
  · rw [bind_assoc]
    rfl

/-- The axis -1, or axes inside the result that do not ascend. -/
def ReadsBehind (shape : SizeVector) (axes : List (BitVec 32)) : Prop :=
  (∃ a ∈ axes, a.toInt = -1) ∨
    axes ≠ [] ∧ (∀ a ∈ axes, 0 ≤ a.toInt ∧ a.toInt < axes.length + shape.length) ∧ ¬ Ascending axes

theorem run_ok_iff (h : HoldsAxes indices axes) :
    (∃ s', (List.range (axes.length + shape.length)).foldlM (merge indices shape) { j := 0, k := 0, outShape := [] } =
      .ok s') ↔
      (axes.map axisNumber).Pairwise (· < ·) ∧ ∀ x ∈ axes.map axisNumber, x < axes.length + shape.length := by
  constructor
  · rintro ⟨s', hrun⟩
    exact sorted_of_merges h hrun
  · rintro ⟨hsorted, hbelow⟩
    exact exists_merges h hsorted hbelow

/-- An unsqueeze is undefined when it reads behind the shape. -/
theorem undefined_iff (h : HoldsAxes indices axes) (hsmall : data.tensorDesc.dims.length + axes.length < 2 ^ 63) :
    (∃ e, inferShapesImpl name [data, indices] = .error (.undefinedBehaviour e)) ↔
      ReadsBehind data.tensorDesc.dims axes := by
  set shape := data.tensorDesc.dims with hshape
  obtain ⟨hrank, haxes, hmax⟩ := @maxAxis_spec axes shape.length
  have hrun := @run_ok_iff shape axes indices h
  have hundefined : (∃ e, inferShapesImpl name [data, indices] = .error (.undefinedBehaviour e)) ↔
      toSizeT (maxAxis shape.length axes + 1 : Nat) ≤ axes.length + shape.length ∧
        ¬ ((axes.map axisNumber).Pairwise (· < ·) ∧ ∀ x ∈ axes.map axisNumber, x < axes.length + shape.length) := by
    rw [inferShapesImpl_eq h hsmall, ← hrun, ← hshape]
    by_cases hlt : axes.length + shape.length < toSizeT (maxAxis shape.length axes + 1 : Nat)
    · rw [if_pos hlt]
      constructor
      · rintro ⟨e, he⟩
        cases he
      · rintro ⟨hle, -⟩
        omega
    · rw [if_neg hlt]
      rcases @merges_cases shape axes indices { j := 0, k := 0, outShape := [] } h
        (List.range (axes.length + shape.length)) with ⟨s', hs'⟩ | herror
      · rw [hs']
        constructor
        · rintro ⟨e, he⟩
          cases he
        · rintro ⟨-, hno⟩
          exact absurd ⟨s', rfl⟩ hno
      · rw [herror]
        refine ⟨fun _ => ⟨not_lt.mp hlt, ?_⟩, fun _ => ⟨_, rfl⟩⟩
        rintro ⟨s', hs'⟩
        cases hs'
  rw [hundefined]
  by_cases hminus : ∃ a ∈ axes, a.toInt = -1
  · obtain ⟨a, ha, hneg⟩ := hminus
    have hlast := @axisNumber_of_neg a (by omega)
    have hle := haxes a ha
    have hbound : maxAxis shape.length axes < 2 ^ 64 := by
      rcases hmax with heq | ⟨b, -, heq⟩
      · omega
      · rw [heq]
        exact toSizeT_lt
    have hwrap : maxAxis shape.length axes + 1 = 2 ^ 64 := by omega
    refine ⟨fun _ => .inl ⟨a, ha, hneg⟩, fun _ => ⟨?_, ?_⟩⟩
    · rw [hwrap]
      exact Nat.zero_le _
    · rintro ⟨-, hbelow⟩
      have := hbelow _ (List.mem_map_of_mem ha)
      omega
  by_cases hneg : ∃ a ∈ axes, a.toInt < 0
  · obtain ⟨a, ha, hneg⟩ := hneg
    have hlow := a.le_toInt
    have hlast := axisNumber_of_neg hneg
    have hle := haxes a ha
    have hbound : maxAxis shape.length axes + 1 < 2 ^ 64 := by
      rcases hmax with heq | ⟨b, hb, heq⟩
      · omega
      · have hb1 : b.toInt ≠ -1 := fun hb1 => hminus ⟨b, hb, hb1⟩
        have hblow := b.toInt_lt
        by_cases hb0 : b.toInt < 0
        · have := axisNumber_of_neg hb0
          omega
        · have := axisNumber_of_nonneg (not_lt.mp hb0)
          omega
    rw [toSizeT_natCast hbound]
    constructor
    · rintro ⟨hpass, -⟩
      omega
    · rintro (hyes | ⟨-, hinside, -⟩)
      · exact absurd hyes hminus
      · have := (hinside a ha).1
        omega
  push Not at hneg
  have hbound : maxAxis shape.length axes + 1 < 2 ^ 64 := by
    rcases hmax with heq | ⟨b, hb, heq⟩
    · omega
    · have hbhigh := b.toInt_lt
      have := axisNumber_of_nonneg (hneg b hb)
      omega
  have hinside : (∀ x ∈ axes.map axisNumber, x < axes.length + shape.length) ↔
      ∀ a ∈ axes, 0 ≤ a.toInt ∧ a.toInt < axes.length + shape.length := by
    rw [List.forall_mem_map]
    refine forall₂_congr fun a ha => ?_
    have := axisNumber_of_nonneg (hneg a ha)
    omega
  rw [toSizeT_natCast hbound, ← ascending_iff hneg, ReadsBehind, ← hinside]
  constructor
  · rintro ⟨hpass, hnot⟩
    have hbelow : ∀ x ∈ axes.map axisNumber, x < axes.length + shape.length := by
      rw [List.forall_mem_map]
      intro a ha
      have := haxes a ha
      omega
    refine .inr ⟨fun hnil => ?_, hbelow, fun hascending => hnot ⟨hascending, hbelow⟩⟩
    rw [hnil, List.length_nil] at hpass
    have : shape.length ≤ maxAxis shape.length [] := (@maxAxis_spec [] shape.length).1
    omega
  · rintro (hyes | ⟨hne, hbelow, hnot⟩)
    · exact absurd hyes hminus
    · refine ⟨?_, fun hyes => hnot hyes.1⟩
      have hpos := List.length_pos_iff.mpr hne
      rcases hmax with heq | ⟨b, hb, heq⟩
      · omega
      · have := hbelow _ (List.mem_map_of_mem hb)
        omega

end UnsqueezeShapeProp

/-! ### There and back -/

/-- The input with other dimensions. -/
def withDims (data : Blob (List (BitVec 32))) (dims : SizeVector) : Blob (List (BitVec 32)) :=
  { data with tensorDesc := { data.tensorDesc with dims := dims } }

theorem Removable.nonneg (h : Removable shape axes) : ∀ a ∈ axes, 0 ≤ a.toInt := fun a ha => (h.one a ha).1

theorem Removable.one_iff (h : Removable shape axes) : ∀ x ∈ axes.map axisNumber, shape[x]? = some 1 := by
  rw [List.forall_mem_map]
  intro a ha
  obtain ⟨hnonneg, hget⟩ := h.one a ha
  have hnumber := axisNumber_of_nonneg hnonneg
  rwa [← hnumber, Int.toNat_natCast] at hget

theorem Removable.found_iff (h : Removable shape axes) {j : Nat} :
    SqueezeShapeProp.found shape.length axes j = true ↔ j ∈ axes.map axisNumber := by
  rw [SqueezeShapeProp.found, List.any_eq_true, List.mem_map]
  refine exists_congr fun a => and_congr_right fun ha => ?_
  rw [decide_eq_true_iff, SqueezeShapeProp.wrapAxis_of_nonneg (h.nonneg a ha), eq_comm]
  rfl

theorem Removable.length (h : Removable shape axes) :
    axes.length + (SqueezeShapeProp.dropDims (SqueezeShapeProp.found shape.length axes) 0 shape).length =
      shape.length := by
  have hlength := @SqueezeShapeProp.length_dropDims (SqueezeShapeProp.found shape.length axes) 0 shape
  have hnodup : (axes.map axisNumber).Nodup := by
    refine h.nodup.map_on fun a ha b hb heq => BitVec.eq_of_toInt_eq ?_
    rw [← axisNumber_of_nonneg (h.nonneg a ha), ← axisNumber_of_nonneg (h.nonneg b hb), heq]
  have hperm : ((List.range' 0 shape.length).filter (SqueezeShapeProp.found shape.length axes)).Perm
      (axes.map axisNumber) := by
    refine (List.perm_ext_iff_of_nodup (List.Nodup.filter _ List.nodup_range') hnodup).mpr fun j => ?_
    rw [List.mem_filter, h.found_iff, and_iff_right_iff_imp]
    intro hj
    obtain ⟨hlt, -⟩ := List.getElem?_eq_some_iff.mp (h.one_iff j hj)
    exact List.mem_range'_1.mpr ⟨Nat.zero_le j, by omega⟩
  have hcount := hperm.length_eq
  rw [← List.countP_eq_length_filter, List.length_map] at hcount
  omega

theorem Removable.squeeze_eq (h : Removable data.tensorDesc.dims axes) (hindices : HoldsAxes indices axes)
    (hrank : data.tensorDesc.dims.length < 2 ^ 63) : SqueezeShapeProp.inferShapesImpl name [data, indices] =
    .ok [SqueezeShapeProp.dropDims (SqueezeShapeProp.found data.tensorDesc.dims.length axes) 0
      data.tensorDesc.dims] := by
  have hones : ∀ a ∈ axes, SqueezeShapeProp.checkAxis data.tensorDesc.dims a = .ok () := by
    intro a ha
    obtain ⟨hnonneg, hget⟩ := h.one a ha
    have hwrap : SqueezeShapeProp.wrapAxis data.tensorDesc.dims.length a = a.toInt :=
      SqueezeShapeProp.wrapAxis_of_nonneg hnonneg
    exact SqueezeShapeProp.checkAxis_of_isOne ⟨by rwa [hwrap], by rwa [hwrap]⟩ hrank
  rw [SqueezeShapeProp.inferShapesImpl_eq hindices, if_pos (.inl h.fewer), forM_ok hones]
  rfl

/-- Unsqueezing gives the shape back when the axes are not none and ascend. -/
theorem Removable.unsqueeze_iff (h : Removable data.tensorDesc.dims axes) (hindices : HoldsAxes indices axes)
    (hrank : data.tensorDesc.dims.length < 2 ^ 63) :
    UnsqueezeShapeProp.inferShapesImpl name [withDims data (SqueezeShapeProp.dropDims
        (SqueezeShapeProp.found data.tensorDesc.dims.length axes) 0 data.tensorDesc.dims), indices] =
      .ok [data.tensorDesc.dims] ↔ axes ≠ [] ∧ Ascending axes := by
  have hlength := h.length
  set shape := data.tensorDesc.dims with hshape
  set squeezed := SqueezeShapeProp.dropDims (SqueezeShapeProp.found shape.length axes) 0 shape with hsqueezed
  have hdims : (withDims data squeezed).tensorDesc.dims = squeezed := rfl
  obtain ⟨hmaxRank, hmaxAxes, hmax⟩ := @UnsqueezeShapeProp.maxAxis_spec axes squeezed.length
  have hinside : ∀ a ∈ axes, axisNumber a < shape.length := by
    intro a ha
    obtain ⟨hlt, -⟩ := List.getElem?_eq_some_iff.mp (h.one_iff _ (List.mem_map_of_mem ha))
    exact hlt
  have hbound : UnsqueezeShapeProp.maxAxis squeezed.length axes ≤ shape.length := by
    rcases hmax with heq | ⟨b, hb, heq⟩
    · omega
    · rw [heq]
      exact (hinside b hb).le
  rw [UnsqueezeShapeProp.inferShapesImpl_eq hindices (by rw [hdims]; omega), hdims, hlength,
    toSizeT_natCast (by omega), ascending_iff h.nonneg]
  constructor
  · intro hrun
    split_ifs at hrun with hthrow
    · exact absurd hrun throwException_ne_ok
    obtain ⟨s', hs', -⟩ := bind_ok_iff.mp hrun
    refine ⟨fun hnil => ?_, ?_⟩
    · rw [hnil, List.length_nil, Nat.zero_add] at hlength
      omega
    · rw [← hlength] at hs'
      exact (UnsqueezeShapeProp.sorted_of_merges hindices hs').1
  · rintro ⟨hne, hsorted⟩
    have hpos := List.length_pos_iff.mpr hne
    have hpass : ¬ shape.length < UnsqueezeShapeProp.maxAxis squeezed.length axes + 1 := by
      rcases hmax with heq | ⟨b, hb, heq⟩
      · omega
      · have := hinside b hb
        omega
    obtain ⟨s', hs', hout⟩ := UnsqueezeShapeProp.merges_dropDims hindices hsorted h.one_iff
      fun i _ => h.found_iff
    rw [if_neg hpass, hs', ok_bind, hout]
    rfl

/-- **Squeeze and unsqueeze.** Unsqueezing what a squeeze has left, with the same distinct axes of size one, gives the
original shape if and only if there are such axes and they ascend. Whatever the list, a squeeze reads behind the shape
if and only if the axis equal to the rank follows axes that pass, and an unsqueeze if and only if the list has
the axis -1 or all its axes are inside the result and do not ascend. -/
theorem unsqueeze_squeeze_iff (hindices : HoldsAxes indices axes)
    (hsmall : data.tensorDesc.dims.length + axes.length < 2 ^ 63) :
    (Removable data.tensorDesc.dims axes →
      ((∃ s, SqueezeShapeProp.inferShapesImpl name [data, indices] = .ok [s] ∧
        UnsqueezeShapeProp.inferShapesImpl name [withDims data s, indices] = .ok [data.tensorDesc.dims]) ↔
          axes ≠ [] ∧ Ascending axes)) ∧
    ((∀ e, SqueezeShapeProp.inferShapesImpl name [data, indices] ≠ .error (.undefinedBehaviour e)) ↔
      ¬ SqueezeShapeProp.ReadsBehind data.tensorDesc.dims axes) ∧
    ((∀ e, UnsqueezeShapeProp.inferShapesImpl name [data, indices] ≠ .error (.undefinedBehaviour e)) ↔
      ¬ UnsqueezeShapeProp.ReadsBehind data.tensorDesc.dims axes) := by
  refine ⟨fun hremovable => ?_, ?_, ?_⟩
  · have hrank : data.tensorDesc.dims.length < 2 ^ 63 := by omega
    rw [hremovable.squeeze_eq hindices hrank, ← @Removable.unsqueeze_iff axes indices data name hremovable hindices hrank]
    constructor
    · rintro ⟨s, hs, hback⟩
      obtain ⟨rfl, -⟩ := List.cons.inj (Except.ok.inj hs)
      exact hback
    · intro hback
      exact ⟨_, rfl, hback⟩
  · rw [← @SqueezeShapeProp.undefined_iff axes indices data name hindices (by omega), not_exists]
  · rw [← @UnsqueezeShapeProp.undefined_iff axes indices data name hindices hsmall, not_exists]

/-- The second input with these axes, and a first one with these dimensions. -/
def indexBlob (axes : List (BitVec 32)) : Blob (List (BitVec 32)) where
  tensorDesc := { precision := .I32, dims := [axes.length], layout := .C }
  buffer := some axes

def dataBlob (dims : SizeVector) : Blob (List (BitVec 32)) where
  tensorDesc := { precision := .FP32, dims := dims, layout := .CHW }

theorem unsqueeze_squeeze_iff_ascending :
    (Removable [1, 2, 1] [0, 2] → ((∃ s, SqueezeShapeProp.inferShapesImpl "" [dataBlob [1, 2, 1], indexBlob [0, 2]] =
        .ok [s] ∧ UnsqueezeShapeProp.inferShapesImpl "" [withDims (dataBlob [1, 2, 1]) s, indexBlob [0, 2]] =
          .ok [[1, 2, 1]]) ↔ [0, 2] ≠ ([] : List (BitVec 32)) ∧ Ascending [0, 2])) ∧
    ((∀ e, SqueezeShapeProp.inferShapesImpl "" [dataBlob [1, 2, 1], indexBlob [0, 2]] ≠
      .error (.undefinedBehaviour e)) ↔ ¬ SqueezeShapeProp.ReadsBehind [1, 2, 1] [0, 2]) ∧
    ((∀ e, UnsqueezeShapeProp.inferShapesImpl "" [dataBlob [1, 2, 1], indexBlob [0, 2]] ≠
      .error (.undefinedBehaviour e)) ↔ ¬ UnsqueezeShapeProp.ReadsBehind [1, 2, 1] [0, 2]) :=
  have hindices : HoldsAxes (indexBlob [0, 2]) [0, 2] := ⟨by decide, rfl, rfl, by decide, rfl⟩
  @unsqueeze_squeeze_iff [0, 2] (indexBlob [0, 2]) (dataBlob [1, 2, 1]) "" hindices (by decide)

/-- Axes in another order, the axis behind the last and the axis -1. -/
theorem squeeze_any_order :
    Removable [1, 2, 1] [2, 0] ∧
    SqueezeShapeProp.inferShapesImpl "" [dataBlob [1, 2, 1], indexBlob [2, 0]] = .ok [[2]] ∧
    UnsqueezeShapeProp.inferShapesImpl "" [dataBlob [2], indexBlob [2, 0]] =
      .error (.undefinedBehaviour "data_dims[j++]") ∧
    SqueezeShapeProp.inferShapesImpl "" [dataBlob [1, 2, 1], indexBlob [3]] =
      .error (.undefinedBehaviour "data_dims[axis]") ∧
    UnsqueezeShapeProp.inferShapesImpl "" [dataBlob [2], indexBlob [-1]] =
      .error (.undefinedBehaviour "data_dims[j++]") :=
  ⟨⟨by decide, List.forall_mem_cons.mpr ⟨⟨by decide, rfl⟩, List.forall_mem_singleton.mpr ⟨by decide, rfl⟩⟩, by decide⟩,
    by decide, by decide, by decide, by decide⟩

end Axes

end OpenVino.InferenceEngine.ShapeInfer
