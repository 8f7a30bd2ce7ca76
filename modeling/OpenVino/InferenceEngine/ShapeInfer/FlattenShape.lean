import OpenVino.InferenceEngine.ShapeInfer.ConstInfer.BroadcastOffset
import OpenVino.InferenceEngine.TensorOffset

/-!
# The shape of a flatten

`FlattenShapeProp` keeps the dimensions before `axis` and behind `num_axes`, which holds the attribute `end_axis`: the
last axis that is flattened, not a number of axes. The flattened dimension is the quotient of all elements by what has
been kept. `flatten_ends_at_axis` says what comes out for an axis and a last axis behind it.
-/

namespace OpenVino.InferenceEngine.ShapeInfer

/-- The attributes of a `Flatten` layer, converted to `int`. -/
structure FlattenParams where
  axis : Option Int
  end_axis : Option Int

/-- The fields that `parseParams` sets for a `Flatten`. -/
structure ReshapeLayer where
  axis : Int
  num_axes : Int

/-- `parseParams`, of a layer of type `Flatten`. A layer without attributes keeps the defaults of its fields, which
are the same. -/
def ReshapeValidator.parseParams (params : FlattenParams) : ReshapeLayer where
  num_axes := params.end_axis.getD (-1)
  axis := params.axis.getD 0

namespace FlattenShapeProp

/-- A round of either loop, on `notFlatten` and `outShape`. -/
def keep (inputShape : SizeVector) (s : Nat × SizeVector) (i : Nat) : Result (Nat × SizeVector) := do
  let dim ← elemAt "inputShape[i]" inputShape i
  return (toSizeT (s.1 * dim : Nat), s.2 ++ [dim])

/-- The loop over what follows the last axis, which counts in an `int`. -/
def keepRest (inputShape : SizeVector) (s : Nat × SizeVector) (numAxes : Int) : Result (Nat × SizeVector) := do
  let start ← intArith "numAxes + 1" (numAxes + 1)
  (List.range' start.toNat (inputShape.length - start.toNat)).foldlM (fun s i => do
    let s ← keep inputShape s i
    let _ ← intArith "i++" (i + 1)
    return s) s

def outShape (axis numAxes : Int) (inputShape : SizeVector) : Result SizeVector := do
  let inputShapeTotal := toSizeT inputShape.prod
  if numAxes = -1 ∧ axis = 0 then return [inputShapeTotal]
  else
    let (notFlatten, outShape) ← (List.range' 0 axis.toNat).foldlM (keep inputShape) (1, [])
    let outShape := outShape ++ [1]
    let (notFlatten, outShape) ←
      (if 0 < numAxes then keepRest inputShape (notFlatten, outShape) numAxes else return (notFlatten, outShape))
    if notFlatten = 0 then .error (.undefinedBehaviour "inputShapeTotal / notFlatten")
    else if axis < 0 then .error (.undefinedBehaviour "outShape[axis]")
    else assign "outShape[axis]" outShape axis.toNat (inputShapeTotal / notFlatten)

def inferShapesImpl (params : FlattenParams) (inShapes : List SizeVector) : Result (List SizeVector) := do
  let reshapeLayer := ReshapeValidator.parseParams params
  let inputShape ← elemAt "inShapes[0]" inShapes 0
  let outShape ← outShape reshapeLayer.axis reshapeLayer.num_axes inputShape
  return [outShape]

end FlattenShapeProp

/-! ### What is kept -/

section Flatten

variable {shape out : SizeVector} {notFlatten axis start n : Nat} {params : FlattenParams}

namespace FlattenShapeProp

theorem keep_eq {i : Nat} (h : i < shape.length) :
    keep shape (notFlatten, out) i = .ok (toSizeT (notFlatten * shape[i] : Nat), out ++ [shape[i]]) := by
  have hdim : elemAt "inputShape[i]" shape i = .ok shape[i] :=
    elemAt_ok_iff.mpr ⟨Nat.cast_nonneg _, by rw [Int.toNat_natCast, List.getElem?_eq_getElem h]⟩
  rw [keep, hdim]
  rfl

/-- A loop each of whose rounds keeps a dimension. -/
theorem foldlM_keep {f : Nat × SizeVector → Nat → Result (Nat × SizeVector)} (hbelow : notFlatten < 2 ^ 64)
    (hend : start + n ≤ shape.length) (hf : ∀ s, ∀ i < shape.length, f s i = keep shape s i) :
    (List.range' start n).foldlM f (notFlatten, out) =
      .ok (toSizeT (notFlatten * ((shape.drop start).take n).prod : Nat), out ++ (shape.drop start).take n) := by
  induction n generalizing start notFlatten out with
  | zero =>
    rw [List.take_zero, List.prod_nil, Nat.mul_one, toSizeT_natCast hbelow, List.append_nil]
    rfl
  | succ n ih =>
    have hlt : start < shape.length := by omega
    have hdrop : (shape.drop start).take (n + 1) = shape[start] :: (shape.drop (start + 1)).take n := by
      rw [List.drop_eq_getElem_cons hlt, List.take_succ_cons]
    rw [List.range'_succ, List.foldlM_cons, hf _ _ hlt, keep_eq hlt, ok_bind, ih toSizeT_lt (by omega), hdrop,
      List.prod_cons, ← Nat.mul_assoc, toSizeT_mul_toSizeT, List.append_assoc, List.singleton_append]

theorem keepRest_eq {last : Nat} (hrank : shape.length < 2 ^ 31) (hlast : last < shape.length)
    (hbelow : notFlatten < 2 ^ 64) : keepRest shape (notFlatten, out) last =
      .ok (toSizeT (notFlatten * (shape.drop (last + 1)).prod : Nat), out ++ shape.drop (last + 1)) := by
  have hstart : intArith "numAxes + 1" ((last : Int) + 1) = .ok ((last + 1 : Nat) : Int) :=
    intArith_ok_iff.mpr ⟨by unfold FitsInt; omega, by push_cast; rfl⟩
  have hround : ∀ (s : Nat × SizeVector), ∀ i < shape.length, (do
      let s ← keep shape s i
      let _ ← intArith "i++" ((i : Int) + 1)
      return s) = keep shape s i := by
    intro s i hi
    have hnext : intArith "i++" ((i : Int) + 1) = .ok ((i : Int) + 1) :=
      intArith_ok_iff.mpr ⟨by unfold FitsInt; omega, rfl⟩
    rw [keep_eq hi, ok_bind, hnext]
    rfl
  rw [keepRest, hstart, ok_bind, Int.toNat_natCast, foldlM_keep hbelow (by omega) hround]
  rw [List.take_of_length_le (by rw [List.length_drop])]

/-! ### The cut -/

/-- The dimensions around a cut, and the quotient that fills it. -/
theorem total_div {last : Nat} (hpos : ∀ d ∈ shape, 0 < d) (hlast : axis ≤ last) :
    0 < (shape.take axis).prod * (shape.drop last).prod ∧
      shape.prod / ((shape.take axis).prod * (shape.drop last).prod) = ((shape.drop axis).take (last - axis)).prod := by
  have hbefore : 0 < (shape.take axis).prod := List.prod_pos fun d hd => hpos d (List.mem_of_mem_take hd)
  have hbehind : 0 < (shape.drop last).prod := List.prod_pos fun d hd => hpos d (List.mem_of_mem_drop hd)
  have hsplit : shape.prod = (shape.take axis).prod * (((shape.drop axis).take (last - axis)).prod *
      (shape.drop last).prod) := by
    have hdrop : shape.drop last = (shape.drop axis).drop (last - axis) := by
      rw [List.drop_drop, Nat.add_sub_cancel' hlast]
    rw [hdrop, List.prod_take_mul_prod_drop, List.prod_take_mul_prod_drop]
  have hkept := Nat.mul_pos hbefore hbehind
  refine ⟨hkept, Nat.div_eq_of_eq_mul_left hkept ?_⟩
  rw [hsplit, Nat.mul_left_comm]

theorem set_cut {before behind : SizeVector} {x y : Nat} (h : before.length = axis) :
    assign "outShape[axis]" (before ++ [x] ++ behind) axis y = .ok (before ++ y :: behind) := by
  have hset : (before ++ x :: behind).set axis y = before ++ y :: behind := by
    rw [List.set_append_right _ _ (by omega), h, Nat.sub_self, List.set_cons_zero]
  rw [assign, List.append_assoc, List.singleton_append, if_pos (by simp [h]), hset]
  rfl

/-- The dimension that is left when these are kept. -/
theorem fill_cut {last : Nat} (hpos : ∀ d ∈ shape, 0 < d) (hsmall : shape.prod < 2 ^ 64) (haxis : axis ≤ last)
    (hlast : last ≤ shape.length) (hn : toSizeT ((shape.take axis).prod * (shape.drop last).prod : Nat) = notFlatten) :
    (if notFlatten = 0 then .error (.undefinedBehaviour "inputShapeTotal / notFlatten")
      else if (axis : Int) < 0 then .error (.undefinedBehaviour "outShape[axis]")
      else assign "outShape[axis]" (shape.take axis ++ [1] ++ shape.drop last) (axis : Int).toNat
        (toSizeT shape.prod / notFlatten)) =
      .ok (shape.take axis ++ ((shape.drop axis).take (last - axis)).prod :: shape.drop last) := by
  obtain ⟨hkept, hdiv⟩ := total_div hpos haxis
  have hle : (shape.take axis).prod * (shape.drop last).prod ≤ shape.prod := by
    by_contra hlt
    rw [Nat.div_eq_of_lt (not_le.mp hlt)] at hdiv
    have hmiddle : 0 < ((shape.drop axis).take (last - axis)).prod :=
      List.prod_pos fun d hd => hpos d (List.mem_of_mem_drop (List.mem_of_mem_take hd))
    omega
  rw [toSizeT_natCast (hle.trans_lt hsmall)] at hn
  rw [← hn, if_neg hkept.ne', if_neg (by omega), Int.toNat_natCast, toSizeT_natCast hsmall, hdiv]
  exact set_cut (List.length_take_of_le (haxis.trans hlast))

theorem outShape_to_end (hpos : ∀ d ∈ shape, 0 < d) (hsmall : shape.prod < 2 ^ 64) (haxis : axis ≤ shape.length) :
    outShape axis (-1) shape = .ok (shape.take axis ++ [(shape.drop axis).prod]) := by
  unfold outShape
  by_cases hzero : (axis : Int) = 0
  · obtain rfl : axis = 0 := by omega
    rw [if_pos ⟨rfl, rfl⟩, toSizeT_natCast hsmall]
    rfl
  · have hbehind : shape.drop shape.length = [] := List.drop_length
    have hmiddle : (shape.drop axis).take (shape.length - axis) = shape.drop axis :=
      List.take_of_length_le (by rw [List.length_drop])
    have hcut := fill_cut hpos hsmall haxis (le_refl _) rfl
    rw [hbehind, List.prod_nil, Nat.mul_one, List.append_nil, hmiddle] at hcut
    rw [if_neg (by omega), Int.toNat_natCast, foldlM_keep (by norm_num) (by omega) fun _ _ _ => rfl, ok_bind,
      List.drop_zero, List.nil_append, Nat.one_mul]
    dsimp only
    rw [if_neg (by norm_num)]
    exact hcut

theorem outShape_to_axis {last : Nat} (hpos : ∀ d ∈ shape, 0 < d) (hsmall : shape.prod < 2 ^ 64)
    (hrank : shape.length < 2 ^ 31) (haxis : axis ≤ last) (hlast : last < shape.length) (hne : 0 < last) :
    outShape axis last shape =
      .ok (shape.take axis ++ ((shape.drop axis).take (last + 1 - axis)).prod :: shape.drop (last + 1)) := by
  unfold outShape
  rw [if_neg (by omega), Int.toNat_natCast, foldlM_keep (by norm_num) (by omega) fun _ _ _ => rfl, ok_bind,
    List.drop_zero, List.nil_append, Nat.one_mul]
  dsimp only
  rw [if_pos (by omega), keepRest_eq hrank hlast toSizeT_lt, ok_bind, toSizeT_mul_toSizeT]
  exact fill_cut hpos hsmall (by omega) (by omega) rfl

/-- Behind the axes of an `int` the count overflows. -/
theorem outShape_overflow : outShape 0 (2 ^ 31 - 1) (List.replicate (2 ^ 31) 1) =
    .error (.undefinedBehaviour "numAxes + 1") := by
  have hstart : intArith "numAxes + 1" ((2 ^ 31 - 1 : Int) + 1) = .error (.undefinedBehaviour "numAxes + 1") := rfl
  unfold outShape keepRest
  rw [if_neg (by norm_num), hstart]
  rfl

/-- **What a flatten returns.** With positive dimensions whose product stays in `size_t`, and no more axes than an
`int` counts, the result for an axis and a last axis behind it, or -1, is the dimensions before the axis, the
product of those up to the last axis, and the dimensions that follow. The number of elements is that of the input. -/
theorem flatten_ends_at_axis (hpos : ∀ d ∈ shape, 0 < d) (hsmall : shape.prod < 2 ^ 64) (hrank : shape.length < 2 ^ 31)
    {end_axis : Int} (hend : end_axis = -1 ∧ axis ≤ shape.length ∨
      0 < end_axis ∧ (axis : Int) ≤ end_axis ∧ end_axis < shape.length) :
    let next := if end_axis = -1 then shape.length else end_axis.toNat + 1
    let flattened := shape.take axis ++ ((shape.drop axis).take (next - axis)).prod :: shape.drop next
    inferShapesImpl { axis := some (axis : Int), end_axis := some end_axis } [shape] = .ok [flattened] ∧
      flattened.prod = shape.prod := by
  intro next flattened
  have hcut : outShape axis end_axis shape = .ok flattened := by
    rcases hend with ⟨rfl, haxis⟩ | ⟨hne, haxis, hlast⟩
    · have hmiddle : (shape.drop axis).take (shape.length - axis) = shape.drop axis :=
        List.take_of_length_le (by rw [List.length_drop])
      rw [outShape_to_end hpos hsmall haxis]
      simp only [flattened, next, if_true, hmiddle, List.drop_length]
    · obtain ⟨last, rfl⟩ := Int.eq_ofNat_of_zero_le hne.le
      simp only [flattened, next, if_neg (show ¬ (last : Int) = -1 by omega), Int.toNat_natCast]
      exact outShape_to_axis hpos hsmall hrank (by omega) (by omega) (by omega)
  have hnext : axis ≤ next := by
    simp only [next]
    split_ifs with h
    · omega
    · omega
  refine ⟨?_, ?_⟩
  · have hshape : elemAt "inShapes[0]" [shape] 0 = .ok shape := rfl
    rw [inferShapesImpl, hshape]
    show (do
      let outShape ← outShape axis end_axis shape
      return [outShape]) = _
    rw [hcut]
    rfl
  · have hdrop : shape.drop next = (shape.drop axis).drop (next - axis) := by
      rw [List.drop_drop, Nat.add_sub_cancel' hnext]
    simp only [flattened]
    rw [List.prod_append, List.prod_cons, hdrop, List.prod_take_mul_prod_drop, List.prod_take_mul_prod_drop]

theorem flatten_ends_at_axis_middle :
    inferShapesImpl { axis := some 1, end_axis := some 2 } [[2, 2, 4, 5]] = .ok [[2, 8, 5]] ∧
      [2, 8, 5].prod = [2, 2, 4, 5].prod :=
  @flatten_ends_at_axis [2, 2, 4, 5] 1 (by decide) (by decide) (by decide) 2
    (.inr ⟨by decide, by decide, by decide⟩)

/-- The attribute is not a number of axes, the flattened dimension wraps, and the count of axes overflows. -/
theorem end_axis_not_count :
    inferShapesImpl { axis := some 0, end_axis := some 1 } [[2, 2, 4, 5]] = .ok [[4, 4, 5]] ∧
    [4, 4, 5] ≠ [2, 2, 4, 5].take 0 ++ (([2, 2, 4, 5].drop 0).take 1).prod :: [2, 2, 4, 5].drop (0 + 1) ∧
    inferShapesImpl { axis := some 1, end_axis := some (-1) } [[2 ^ 32, 2 ^ 32]] = .ok [[2 ^ 32, 0]] ∧
    inferShapesImpl { axis := some 0, end_axis := some (2 ^ 31 - 1) } [List.replicate (2 ^ 31) 1] =
      .error (.undefinedBehaviour "numAxes + 1") := by
  refine ⟨by decide, by decide, by decide, ?_⟩
  have hshape : elemAt "inShapes[0]" [List.replicate (2 ^ 31) 1] 0 = .ok (List.replicate (2 ^ 31) 1) := rfl
  rw [inferShapesImpl, hshape]
  show (do
    let outShape ← outShape 0 (2 ^ 31 - 1) (List.replicate (2 ^ 31) 1)
    return [outShape]) = _
  rw [outShape_overflow]
  rfl

end FlattenShapeProp

end Flatten

end OpenVino.InferenceEngine.ShapeInfer
