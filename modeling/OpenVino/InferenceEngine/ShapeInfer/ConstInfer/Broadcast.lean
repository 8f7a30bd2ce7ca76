import OpenVino.InferenceEngine.Parallel
import OpenVino.InferenceEngine.ShapeInfer.ConstInfer.Broadcasting
import OpenVino.InferenceEngine.ShapeInfer.ConstInfer.ByteBlobs

/-!
# Broadcast of constants

In `BroadcastConstInfer` each thread turns the number of its first element into counters, one for each axis of the
output, and steps them. What it copies from is the number of the counters restricted to the input (`copies_eq`). The
counters are those of the first element if it has a number in `int` (`startCounters_eq`); from `2 ^ 31` on the number
is truncated. `broadcasts_iff`: the output is the input, broadcast, exactly if there is an output element and the
threads start at numbers in `int`, or at counters that stand for the same elements of the input.
-/

namespace OpenVino.InferenceEngine.ShapeInfer

namespace BroadcastConstInfer

/-- The loop that takes the start apart. Its `i` is an `int`, and a `size_t` in each operation. -/
def startCounters : SizeVector → Int → Int × SizeVector
  | [], i => (i, [])
  | dim :: dst_dims, i =>
    let (i, counters) := startCounters dst_dims i
    (toInt (toSizeT i / dim), toSizeT i % dim :: counters)

/-- Each axis brings a counter, the size of the input, and its stride there. -/
def foldCounters (src_idx : Nat) : List (Nat × Nat × Nat) → Result Nat
  | [] => return src_idx
  | (counter, dim, stride) :: axes =>
    if counter = 0 then foldCounters src_idx axes
    else if dim = 0 then .error (.undefinedBehaviour "counters[i] % src_aligned[i]")
    else foldCounters (toSizeT (src_idx + counter % dim * stride : Nat)) axes

/-- The copies of a number of elements, as places in the output and in the input. -/
def copyFrom (data_size : Nat) (dst_dims src_aligned srcStrides_aligned : SizeVector) :
    Nat → Nat → SizeVector → Result (List (Nat × Nat))
  | 0, _, _ => return []
  | n + 1, iwork, counters => do
    let src_idx ← foldCounters 0 (counters.zip (src_aligned.zip srcStrides_aligned))
    let rest ← copyFrom data_size dst_dims src_aligned srcStrides_aligned n (toSizeT (iwork + data_size : Nat))
      (parallel_it_step counters dst_dims).2
    return (iwork, toSizeT (src_idx * data_size : Nat)) :: rest

/-- What the thread `ithr` of `nthr` does. -/
def thread (data_size work_amount_dst : Nat) (dst_dims src_aligned srcStrides_aligned : SizeVector) (nthr ithr : Nat) :
    Result (List (Nat × Nat)) :=
  let (start, end_) := splitter work_amount_dst nthr ithr
  if 0 ∈ dst_dims then .error (.undefinedBehaviour "i % dst_dims[j]")
  else
    copyFrom data_size dst_dims src_aligned srcStrides_aligned (if data_size = 0 then 0 else end_ - start)
      (toSizeT (start * data_size : Nat)) (startCounters dst_dims (toInt start)).2

/-- The copies of each thread. -/
def threads (nthr data_size : Nat) (inDesc shapeDesc outDesc : TensorDesc) : Result (List (List (Nat × Nat))) := do
  let shape_size ← elemAt "dims[0]" shapeDesc.dims 0
  let dst_dims := outDesc.dims
  let src_dims := if inDesc.dims = [] then [1] else inDesc.dims
  if dst_dims.length ≠ shape_size then throwException "Output tensor dimension mismatch"
  else if dst_dims.length < src_dims.length then
    throwException "Output tensor dimension is smaller then input tensor dimension"
  else
    let dstStrides := outDesc.blockingDesc.strides
    let srcStrides := if inDesc.blockingDesc.strides = [] then [1] else inDesc.blockingDesc.strides
    let prefix_size := dst_dims.length - src_dims.length
    let src_aligned ← (List.range dst_dims.length).mapM fun (i : Nat) =>
      if i < prefix_size then return 1 else elemAt "src_dims[i - prefix_size]" src_dims (i - prefix_size : Nat)
    let srcStrides_aligned ← (List.range dst_dims.length).mapM fun (i : Nat) =>
      if i < prefix_size then elemAt "srcStrides[0]" srcStrides 0
      else elemAt "srcStrides[i - prefix_size]" srcStrides (i - prefix_size : Nat)
    let stride ← elemAt "dstStrides[0]" dstStrides 0
    let dim ← elemAt "dst_dims[0]" dst_dims 0
    (List.range nthr).mapM fun (ithr : Nat) =>
      thread data_size (toSizeT (stride * dim : Nat)) dst_dims src_aligned srcStrides_aligned nthr ithr

/-- `inferImpl`; `schedule` is the order in which the copies of the threads are made. -/
def inferImpl (nthr : Nat) (schedule : List (List (Nat × Nat)) → List (Nat × Nat)) (inData outData : List ByteBlob) :
    Result (List ByteBlob) :=
  match outData with
  | [] => throwException "Incorrect number of input/output edges!"
  | outBlob :: outData =>
    match inData with
    | [inBlob, shapeBlob] => do
      if 1 < shapeBlob.tensorDesc.dims.length then throwException "Shape vector should be 1 dimension"
      else
        let data_size ← inBlob.tensorDesc.precision.size
        let copies ← threads nthr data_size inBlob.tensorDesc shapeBlob.tensorDesc outBlob.tensorDesc
        let dst_data ← (schedule copies).foldlM (fun dst_data copy =>
          memcpy dst_data (outBlob.tensorDesc.blockingDesc.offsetPadding + copy.1) inBlob.memory
            (inBlob.tensorDesc.blockingDesc.offsetPadding + copy.2) data_size) outBlob.memory
        return { outBlob with buffer := some dst_data } :: outData
    | _ => throwException "Incorrect number of input edges!"

end BroadcastConstInfer

open BroadcastConstInfer

variable {src dst A S strides v : SizeVector} {s i k m n : Nat}

/-! ### The counters -/

theorem startCounters_eq (h : k < 2 ^ 31) : startCounters S k = (↑(k / S.prod), decode S k) := by
  induction S with
  | nil => rw [startCounters, List.prod_nil, Nat.div_one, decode]
  | cons d S ih =>
    have hle : k / S.prod / d ≤ k := (Nat.div_le_self _ _).trans (Nat.div_le_self _ _)
    have hle' : k / S.prod ≤ k := Nat.div_le_self _ _
    rw [startCounters, ih]
    dsimp only
    rw [toSizeT_natCast (by omega), toInt_of_lt (by omega), decode, List.prod_cons, Nat.mul_comm d,
      ← Nat.div_div_eq_div_mul]

theorem startCounters_lt {j : Int} (h : 0 ∉ S) : List.Forall₂ (· < ·) (startCounters S j).2 S := by
  induction S with
  | nil => exact .nil
  | cons d S ih =>
    rw [List.mem_cons, not_or] at h
    rw [startCounters]
    exact .cons (Nat.mod_lt _ (Nat.pos_of_ne_zero (Ne.symm h.1))) (ih h.2)

/-- The number that the counters of a start stand for. -/
def startNumber (dst : SizeVector) (start : Nat) : Nat := encode dst (startCounters dst (toInt start)).2

theorem startNumber_eq (h : k < 2 ^ 31) : startNumber dst k = k % dst.prod := by
  rw [startNumber, toInt_of_lt h, startCounters_eq h, encode_decode]

/-! ### The place in the input -/

/-- Along an axis with more than one index, the stride is the product of the sizes behind it. -/
def Strided : SizeVector → SizeVector → Prop
  | [], [] => True
  | x :: A, stride :: strides => (x = 1 ∨ stride = A.prod) ∧ Strided A strides
  | _, _ => False

theorem foldCounters_eq (hA : Fits A S) (hstrides : Strided A strides) (hv : v ∈ box S)
    (hsmall : i + encode A (masked A v) < 2 ^ 64) :
    foldCounters i (v.zip (A.zip strides)) = .ok (i + encode A (masked A v)) := by
  induction hA generalizing v strides i with
  | nil =>
    rw [List.forall₂_nil_right_iff.mp (mem_box.mp hv)]
    rfl
  | @cons x d A S hx hA ih =>
    obtain ⟨c, w, hc, hw, rfl⟩ := List.forall₂_cons_right_iff.mp (mem_box.mp hv)
    obtain _ | ⟨stride, strides⟩ := strides
    · exact hstrides.elim
    obtain ⟨hstride, hstrides⟩ := hstrides
    rw [masked_cons, encode] at hsmall ⊢
    rw [List.zip_cons_cons, List.zip_cons_cons, foldCounters]
    by_cases hzero : c = 0
    · rw [if_pos hzero, ih hstrides (mem_box.mpr hw)]
      · rw [hzero, ite_self, Nat.zero_mul, Nat.zero_add]
      · omega
    · have hxpos : x ≠ 0 := by omega
      have hproduct : c % x * stride = (if x = 1 then 0 else c) * A.prod := by
        by_cases hone : x = 1
        · rw [if_pos hone, hone, Nat.mod_one, Nat.zero_mul, Nat.zero_mul]
        · obtain rfl := hx.resolve_right hone
          rw [if_neg hone, Nat.mod_eq_of_lt hc, hstride.resolve_left hone]
      rw [if_neg hzero, if_neg hxpos, hproduct, toSizeT_natCast (by omega), ih hstrides (mem_box.mpr hw) (by omega),
        Nat.add_assoc]

/-- Where the element of the output with this number comes from. -/
def source (src dst : SizeVector) (k : Nat) : Nat := encode src (restrict src (decode dst k))

theorem source_eq (hlength : src.length ≤ dst.length) : source src dst k =
    encode (align dst.length src) (masked (align dst.length src) (decode dst k)) := by
  have halign := @encode_align src (decode dst k) (by rwa [length_decode])
  rw [length_decode] at halign
  rw [source, halign]

theorem decode_mem (hpos : 0 ∉ dst) : decode dst k ∈ box dst := by
  have hprod : 0 < dst.prod := Nat.pos_of_ne_zero (List.prod_ne_zero hpos)
  rw [← Nat.div_add_mod' k dst.prod, decode_mul_add]
  exact decode_mem_box (Nat.mod_lt _ hprod)

theorem source_lt (hlength : src.length ≤ dst.length) (hfits : Fits (align dst.length src) dst) (hpos : 0 ∉ dst) :
    source src dst k < src.prod := by
  have hlt := encode_lt (masked_lt hfits (mem_box.mp (@decode_mem dst k hpos)))
  rw [source_eq hlength]
  rwa [align, List.prod_append, List.prod_replicate, one_pow, one_mul] at hlt

/-! ### The threads -/

/-- The elements of a part of the output, and the elements of the input that a thread copies there. -/
def places (src dst : SizeVector) (part : Nat × Nat) : List (Nat × Nat) :=
  (List.range (part.2 - part.1)).map fun j => (part.1 + j, source src dst (startNumber dst part.1 + j))

/-- The places of elements with this number of bytes. -/
def inBytes (s : Nat) (place : Nat × Nat) : Nat × Nat := (place.1 * s, place.2 * s)

section Threads

variable (hlength : src.length ≤ dst.length) (hfits : Fits (align dst.length src) dst) (hpos : 0 ∉ dst)
  (hsrc : src.prod * s < 2 ^ 63)

include hlength hfits hpos hsrc

theorem copyFrom_eq (hstrides : Strided (align dst.length src) strides) (hs : 0 < s) (hsmall : (k + n) * s < 2 ^ 64) :
    copyFrom s dst (align dst.length src) strides n (k * s) (decode dst m) =
      .ok ((List.range n).map fun j => ((k + j) * s, source src dst (m + j) * s)) := by
  induction n generalizing k m with
  | zero => rfl
  | succ n ih =>
    have hlt := @source_lt src dst m hlength hfits hpos
    have hmul : source src dst m * s < src.prod * s := Nat.mul_lt_mul_of_pos_right hlt hs
    have hle := Nat.le_mul_of_pos_right (source src dst m) hs
    have hrest : (k + 1 + n) * s < 2 ^ 64 := by rwa [Nat.add_assoc, Nat.add_comm 1 n]
    have hplace : (k + 1) * s ≤ (k + 1 + n) * s := Nat.mul_le_mul_right s (Nat.le_add_right _ _)
    have hiwork : k * s + s = (k + 1) * s := (Nat.succ_mul k s).symm
    have hfold := @foldCounters_eq _ dst strides (decode dst m) 0 hfits hstrides (decode_mem hpos)
    rw [← source_eq hlength, Nat.zero_add] at hfold
    rw [copyFrom, hfold (by omega), ok_bind, parallel_it_step_decode (Nat.pos_of_ne_zero (List.prod_ne_zero hpos)),
      hiwork, toSizeT_natCast (by omega), ih hrest, ok_bind,
      toSizeT_natCast (by omega), List.range_succ_eq_map, List.map_cons, List.map_map]
    refine congrArg Except.ok (congrArg₂ List.cons rfl (List.map_congr_left fun j _ => ?_))
    rw [Function.comp_apply, Nat.succ_eq_add_one, Nat.add_assoc, Nat.add_assoc, Nat.add_comm 1 j]

theorem thread_eq (hstrides : Strided (align dst.length src) strides) (hs : 0 < s) {nthr ithr : Nat}
    (hdst : dst.prod * s < 2 ^ 63) (hpart : (splitter dst.prod nthr ithr).1 ≤ (splitter dst.prod nthr ithr).2)
    (hend : (splitter dst.prod nthr ithr).2 ≤ dst.prod) :
    thread s dst.prod dst (align dst.length src) strides nthr ithr =
      .ok ((places src dst (splitter dst.prod nthr ithr)).map (inBytes s)) := by
  set part := splitter dst.prod nthr ithr with hsplit
  have hle : part.1 * s ≤ dst.prod * s := Nat.mul_le_mul_right s (hpart.trans hend)
  have hle' : part.2 * s ≤ dst.prod * s := Nat.mul_le_mul_right s hend
  have hcounters : (startCounters dst (toInt part.1)).2 = decode dst (startNumber dst part.1) :=
    (decode_encode (startCounters_lt hpos)).symm
  rw [thread, ← hsplit]
  dsimp only
  rw [if_neg hpos, if_neg hs.ne', toSizeT_natCast (by omega), hcounters,
    copyFrom_eq hlength hfits hpos hsrc hstrides hs (by rw [Nat.add_sub_cancel' hpart]; omega), places,
    List.map_map]
  rfl

end Threads

/-- The loop that fills the axes which an input lacks in front. -/
theorem mapM_aligned {α : Type} {l : List α} {x : α} {e : String} {front : Result α} (hl : l.length ≤ n)
    (hfront : n - l.length ≠ 0 → front = .ok x) :
    (List.range n).mapM (fun (i : Nat) =>
      if i < n - l.length then front else elemAt e l (i - (n - l.length) : Nat)) =
        .ok (List.replicate (n - l.length) x ++ l) := by
  have hlength : (List.replicate (n - l.length) x ++ l).length = n := by
    rw [List.length_append, List.length_replicate]
    omega
  have helem : ∀ i ∈ List.range n, (if i < n - l.length then front else elemAt e l (i - (n - l.length) : Nat)) =
      .ok ((List.replicate (n - l.length) x ++ l).getD i x) := by
    intro i hi
    have hi := List.mem_range.mp hi
    rw [List.getD_eq_getElem _ _ (by omega)]
    split_ifs with hlt
    · rw [hfront (by omega), List.getElem_append_left (by rwa [List.length_replicate]), List.getElem_replicate]
    · rw [elemAt_eq (by omega), List.getElem_append_right (by rw [List.length_replicate]; omega)]
      simp only [List.length_replicate]
  rw [mapM_eq_map helem]
  refine congrArg Except.ok (List.ext_getElem ?_ fun i hi hi' => ?_)
  · rw [List.length_map, List.length_range, hlength]
  · rw [List.getElem_map, List.getElem_range, List.getD_eq_getElem _ _ hi']

theorem strided_replicate {x : Nat} (h : Strided A strides) :
    Strided (List.replicate n 1 ++ A) (List.replicate n x ++ strides) := by
  induction n with
  | zero => exact h
  | succ n ih =>
    rw [List.replicate_succ, List.replicate_succ, List.cons_append, List.cons_append]
    exact ⟨.inl rfl, ih⟩

theorem strided_fillStrides (hpos : 0 ∉ A) (hsmall : A.prod < 2 ^ 64) : Strided A (BlockingDesc.fillStrides A) := by
  induction A with
  | nil => exact trivial
  | cons x A ih =>
    rw [List.mem_cons, not_or] at hpos
    have hle : A.prod ≤ x * A.prod := Nat.le_mul_of_pos_left _ (Nat.pos_of_ne_zero (Ne.symm hpos.1))
    rw [List.prod_cons] at hsmall
    obtain ⟨stride, hstrides, hmod, hlt⟩ := @BlockingDesc.fillStrides_cons A x
    rw [hstrides]
    exact ⟨.inr (Nat.ModEq.eq_of_lt_of_lt hmod hlt (by omega)), ih hpos.2 (by omega)⟩

/-- The elements lie one behind the other, with the strides of the shape. -/
structure RowMajor (t : TensorDesc) (shape : SizeVector) : Prop where
  dims : t.dims = shape
  strides : t.blockingDesc.strides = BlockingDesc.fillStrides shape
  offsetPadding : t.blockingDesc.offsetPadding = 0

variable {inDesc shapeDesc outDesc : TensorDesc} {nthr : Nat}

theorem align_singleton (hne : dst ≠ []) : align dst.length [1] = align dst.length [] := by
  obtain ⟨d, dst, rfl⟩ := List.exists_cons_of_ne_nil hne
  rw [align, align, List.length_cons, List.length_singleton, Nat.add_sub_cancel, List.append_nil, List.length_nil,
    Nat.sub_zero, List.replicate_succ']

/-- The axes of the input; a scalar gets one. -/
theorem input_axes {src_dims srcStrides : SizeVector} (hlength : src.length ≤ dst.length) (hne : dst ≠ [])
    (hpos : 0 ∉ src) (hsmall : src.prod < 2 ^ 64) (hsrc_dims : src_dims = if src = [] then [1] else src)
    (hsrcStrides : srcStrides = if BlockingDesc.fillStrides src = [] then [1] else BlockingDesc.fillStrides src) :
    align dst.length src_dims = align dst.length src ∧ src_dims.length ≤ dst.length ∧
      srcStrides.length = src_dims.length ∧ Strided src_dims srcStrides := by
  have hfilled : src = [] ↔ BlockingDesc.fillStrides src = [] := by
    rw [← List.length_eq_zero_iff, ← List.length_eq_zero_iff, BlockingDesc.length_fillStrides]
  by_cases hnil : src = []
  · rw [hsrc_dims, hsrcStrides, if_pos hnil, if_pos (hfilled.mp hnil), hnil]
    exact ⟨align_singleton hne, List.length_pos_iff.mpr hne, rfl, .inl rfl, trivial⟩
  · rw [hsrc_dims, hsrcStrides, if_neg hnil, if_neg fun h => hnil (hfilled.mpr h)]
    exact ⟨rfl, hlength, BlockingDesc.length_fillStrides, strided_fillStrides hpos hsmall⟩

theorem exists_fillStrides (hne : dst ≠ []) (hsmall : dst.prod < 2 ^ 64) (hpos : 0 ∉ dst) :
    ∃ stride dim, (BlockingDesc.fillStrides dst)[0]? = some stride ∧ dst[0]? = some dim ∧ stride * dim = dst.prod := by
  obtain ⟨d, dst, rfl⟩ := List.exists_cons_of_ne_nil hne
  rw [List.mem_cons, not_or] at hpos
  have hle : dst.prod ≤ d * dst.prod := Nat.le_mul_of_pos_left _ (Nat.pos_of_ne_zero (Ne.symm hpos.1))
  rw [List.prod_cons] at hsmall
  obtain ⟨stride, hstrides, hmod, hlt⟩ := @BlockingDesc.fillStrides_cons dst d
  refine ⟨stride, d, ?_, rfl, ?_⟩
  · rw [hstrides]
    rfl
  · rw [Nat.ModEq.eq_of_lt_of_lt hmod hlt (by omega), List.prod_cons, Nat.mul_comm]

/-- The copies of all threads. -/
theorem threads_eq (hin : RowMajor inDesc src) (hshape : shapeDesc.dims = [dst.length]) (hout : RowMajor outDesc dst)
    (hlength : src.length ≤ dst.length) (hfits : Fits (align dst.length src) dst) (hne : dst ≠ []) (hpos : 0 ∉ dst)
    (hs : 0 < s) (hsrc : src.prod * s < 2 ^ 63) (hdst : dst.prod * s < 2 ^ 63) (hnthr : 1 ≤ nthr ∧ nthr < 2 ^ 31) :
    threads nthr s inDesc shapeDesc outDesc =
      .ok ((List.range nthr).map fun (ithr : Nat) => (places src dst (splitter dst.prod nthr ithr)).map (inBytes s)) := by
  have hprod : dst.prod < 2 ^ 63 := (Nat.le_mul_of_pos_right _ hs).trans_lt hdst
  have hprod' : src.prod < 2 ^ 63 := (Nat.le_mul_of_pos_right _ hs).trans_lt hsrc
  obtain ⟨f, hzero, hend, hmono, hsplit⟩ := @exists_parts dst.prod nthr hnthr.1 (by omega)
  have hle : ∀ i ≤ nthr, f i ≤ f nthr := fun i hi => part_mono hmono hi le_rfl
  rw [hend] at hle
  set src_dims := if src = [] then [1] else src with hsrc_dims
  set srcStrides := if BlockingDesc.fillStrides src = [] then [1] else BlockingDesc.fillStrides src with hsrcStrides
  have hsrcpos : 0 ∉ src := by
    intro hmem
    have hprodpos := @source_lt src dst 0 hlength hfits hpos
    rw [List.prod_eq_zero hmem] at hprodpos
    omega
  obtain ⟨haligned, hdims, hstrideslength, hstrided⟩ := input_axes hlength hne hsrcpos (by omega) hsrc_dims hsrcStrides
  obtain ⟨x, hx⟩ : ∃ x, srcStrides[0]? = some x := by
    have hrank : 0 < src_dims.length := by
      rw [hsrc_dims, List.length_pos_iff]
      split_ifs with hnil
      · exact List.cons_ne_nil _ _
      · exact hnil
    exact ⟨_, List.getElem?_eq_getElem (hstrideslength ▸ hrank)⟩
  have hstrides := @strided_replicate _ _ (dst.length - src_dims.length) x hstrided
  obtain ⟨stride, dim, hstride, hdim, hwork⟩ := exists_fillStrides hne (by omega) hpos
  have helemDims := @mapM_aligned dst.length Nat src_dims 1 "src_dims[i - prefix_size]" (pure 1) hdims fun _ => rfl
  have helemStrides := @mapM_aligned dst.length Nat srcStrides x "srcStrides[i - prefix_size]"
    (elemAt "srcStrides[0]" srcStrides 0) (hstrideslength ▸ hdims)
    fun _ => elemAt_ok_iff.mpr ⟨le_refl _, hx⟩
  rw [hstrideslength] at helemStrides
  rw [← align, haligned] at helemDims
  rw [← align, haligned] at hstrides
  unfold threads
  rw [hshape, hin.dims, hin.strides, hout.dims, hout.strides, ← hsrc_dims, ← hsrcStrides]
  rw [show elemAt "dims[0]" [dst.length] 0 = .ok dst.length from rfl, ok_bind]
  dsimp only
  rw [if_neg (not_not.mpr rfl), if_neg (not_lt.mpr hdims), helemDims, ok_bind, helemStrides, ok_bind,
    show elemAt "dstStrides[0]" (BlockingDesc.fillStrides dst) 0 = .ok stride from elemAt_ok_iff.mpr ⟨le_refl _, hstride⟩,
    ok_bind, show elemAt "dst_dims[0]" dst 0 = .ok dim from elemAt_ok_iff.mpr ⟨le_refl _, hdim⟩, ok_bind, hwork,
    toSizeT_natCast (by omega)]
  refine mapM_eq_map fun ithr hithr => ?_
  have hithr := List.mem_range.mp hithr
  have hpart := hsplit ithr hithr
  exact thread_eq hlength hfits hpos hsrc hstrides hs hdst (by rw [hpart]; exact hmono ithr hithr)
    (by rw [hpart]; exact hle (ithr + 1) hithr)

/-! ### The output -/

/-- Whatever the bytes and the order of the copies, the output is the input, broadcast, and one thread writes an
element of it, once. -/
structure Broadcasts (src dst : SizeVector) (s nthr : Nat) (inBlob shapeBlob outBlob : ByteBlob) : Prop where
  elements : ∀ {schedule : List (List (Nat × Nat)) → List (Nat × Nat)} {bytes old : List (BitVec 8)},
    (∀ copies, (schedule copies).Perm copies.flatten) → bytes.length = src.prod * s → old.length = dst.prod * s →
    ∃ bytes', inferImpl nthr schedule [{ inBlob with buffer := some bytes }, shapeBlob]
        [{ outBlob with buffer := some old }] = .ok [{ outBlob with buffer := some bytes' }] ∧
      bytes'.length = old.length ∧
      ∀ v ∈ box dst, rowAt s bytes' (encode dst v) = rowAt s bytes (encode src (restrict src v))
  once : ∃ copies, threads nthr s inBlob.tensorDesc shapeBlob.tensorDesc outBlob.tensorDesc = .ok copies ∧
    copies.length = nthr ∧ ∀ v ∈ box dst, ∃ ithr < nthr, ∀ j < nthr,
      ((copies.getD j []).map Prod.fst).count (encode dst v * s) = if j = ithr then 1 else 0

/-- A thread starts below `2 ^ 31`, or its truncated start stands for the same elements of the input as its start. -/
def StartsFit (src dst : SizeVector) (nthr : Nat) : Prop :=
  ∀ ithr < nthr, (splitter dst.prod nthr ithr).1 < 2 ^ 31 ∨
    ∀ j < (splitter dst.prod nthr ithr).2 - (splitter dst.prod nthr ithr).1,
      source src dst (startNumber dst (splitter dst.prod nthr ithr).1 + j) =
        source src dst ((splitter dst.prod nthr ithr).1 + j)

section Broadcast

variable {inBlob shapeBlob outBlob : ByteBlob} {bytes old : List (BitVec 8)} {precision : Precision}
  {schedule : List (List (Nat × Nat)) → List (Nat × Nat)}

/-- The elements of the output in the parts of the threads, and where they come from. -/
def allPlaces (src dst : SizeVector) (nthr : Nat) : List (Nat × Nat) :=
  (List.range nthr).flatMap fun (ithr : Nat) => places src dst (splitter dst.prod nthr ithr)

theorem map_fst_places {part : Nat × Nat} :
    (places src dst part).map Prod.fst = List.range' part.1 (part.2 - part.1) := by
  rw [places, List.map_map, List.range'_eq_map_range]
  rfl

theorem map_fst_allPlaces (hnthr : 1 ≤ nthr) (hsmall : dst.prod + nthr ≤ 2 ^ 64) :
    (allPlaces src dst nthr).map Prod.fst = List.range dst.prod := by
  obtain ⟨f, hzero, hend, hmono, hsplit⟩ := @exists_parts dst.prod nthr hnthr hsmall
  rw [allPlaces, List.map_flatMap, ← hend, ← flatMap_range' hzero hmono]
  refine List.flatMap_congr fun ithr hithr => ?_
  rw [map_fst_places, hend, hsplit ithr (List.mem_range.mp hithr)]

theorem mem_allPlaces {ithr j : Nat} (hithr : ithr < nthr)
    (hj : j < (splitter dst.prod nthr ithr).2 - (splitter dst.prod nthr ithr).1) :
    ((splitter dst.prod nthr ithr).1 + j, source src dst (startNumber dst (splitter dst.prod nthr ithr).1 + j)) ∈
      allPlaces src dst nthr := by
  rw [allPlaces, List.mem_flatMap]
  exact ⟨ithr, List.mem_range.mpr hithr, List.mem_map.mpr ⟨j, List.mem_range.mpr hj, rfl⟩⟩

theorem source_mem_allPlaces {place : Nat × Nat} (h : place ∈ allPlaces src dst nthr)
    (hlength : src.length ≤ dst.length) (hfits : Fits (align dst.length src) dst) (hpos : 0 ∉ dst) :
    place.2 < src.prod := by
  obtain ⟨ithr, -, hplace⟩ := List.mem_flatMap.mp h
  obtain ⟨j, -, rfl⟩ := List.mem_map.mp hplace
  exact source_lt hlength hfits hpos

/-- In whatever order the places are gone through, each gets the element that the threads have for it. -/
theorem exists_copied (hnthr : 1 ≤ nthr) (hsmall : dst.prod + nthr ≤ 2 ^ 64) (hlength : src.length ≤ dst.length)
    (hfits : Fits (align dst.length src) dst) (hpos : 0 ∉ dst) (hs : 0 < s) (hbytes : bytes.length = src.prod * s)
    (hold : old.length = dst.prod * s) {copies : List (Nat × Nat)}
    (hcopies : copies.Perm ((allPlaces src dst nthr).map (inBytes s))) :
    ∃ bytes', copies.foldlM (fun out copy => memcpy out copy.1 bytes copy.2 s) old = .ok bytes' ∧
      bytes'.length = old.length ∧
      ∀ place ∈ allPlaces src dst nthr, rowAt s bytes' place.1 = rowAt s bytes place.2 := by
  have hback : ∀ place : Nat × Nat, ((inBytes s place).1 / s, (inBytes s place).2 / s) = place := by
    intro place
    rw [inBytes, Nat.mul_div_cancel _ hs, Nat.mul_div_cancel _ hs]
  set calls := copies.map fun copy => (copy.1 / s, copy.2 / s) with hcalls
  have hperm : calls.Perm (allPlaces src dst nthr) := by
    have hmap := hcopies.map fun copy => (copy.1 / s, copy.2 / s)
    rw [List.map_map] at hmap
    have hid : (fun copy : Nat × Nat => (copy.1 / s, copy.2 / s)) ∘ inBytes s = id := funext hback
    rwa [hid, List.map_id] at hmap
  have hcopiesEq : copies = calls.map (inBytes s) := by
    rw [hcalls, List.map_map]
    refine (List.map_id _).symm.trans (List.map_congr_left fun copy hcopy => ?_)
    obtain ⟨place, -, rfl⟩ := List.mem_map.mp (hcopies.mem_iff.mp hcopy)
    rw [Function.comp_apply, hback]
    rfl
  have hnodup : (calls.map Prod.fst).Nodup := by
    rw [(hperm.map Prod.fst).nodup_iff, map_fst_allPlaces hnthr hsmall]
    exact List.nodup_range
  have hdst : ∀ place ∈ calls, (place.1 + 1) * s ≤ old.length := by
    intro place hplace
    have hmem := List.mem_map_of_mem (f := Prod.fst) (hperm.mem_iff.mp hplace)
    rw [map_fst_allPlaces hnthr hsmall, List.mem_range] at hmem
    rw [hold]
    exact Nat.mul_le_mul_right s hmem
  have hsrc : ∀ place ∈ calls, (place.2 + 1) * s ≤ bytes.length := by
    intro place hplace
    rw [hbytes]
    exact Nat.mul_le_mul_right s (source_mem_allPlaces (hperm.mem_iff.mp hplace) hlength hfits hpos)
  obtain ⟨bytes', hrun, hlength', hcopied, -⟩ := @foldlM_memcpy old bytes s _ calls Prod.fst Prod.snd hnodup hdst hsrc
  refine ⟨bytes', ?_, hlength', fun place hplace => hcopied place (hperm.mem_iff.mpr hplace)⟩
  rw [hcopiesEq, List.foldlM_map]
  exact hrun

/-- Without an axis there is no output, and a start cannot be taken apart in an axis without an index. -/
theorem axes_of_threads {copies : List (List (Nat × Nat))} (hout : outDesc.dims = dst) (hnthr : 1 ≤ nthr)
    (h : threads nthr s inDesc shapeDesc outDesc = .ok copies) : dst ≠ [] ∧ 0 ∉ dst := by
  unfold threads at h
  rw [hout] at h
  obtain ⟨shape_size, -, h⟩ := bind_ok_iff.mp h
  have hne : (if inDesc.dims = [] then [1] else inDesc.dims) ≠ [] := by
    split_ifs with hin
    · exact List.cons_ne_nil _ _
    · exact hin
  dsimp only at h
  generalize (if inDesc.dims = [] then [1] else inDesc.dims) = src_dims at h hne
  by_cases hshape : dst.length = shape_size
  · rw [if_neg (not_not.mpr hshape)] at h
    by_cases hrank : dst.length < src_dims.length
    · rw [if_pos hrank] at h
      exact (throwException_ne_ok h).elim
    · rw [if_neg hrank] at h
      refine ⟨fun hnil => hrank ?_, fun hzero => ?_⟩
      · rw [hnil, List.length_nil]
        exact List.length_pos_iff.mpr hne
      · obtain ⟨src_aligned, -, h⟩ := bind_ok_iff.mp h
        obtain ⟨srcStrides_aligned, -, h⟩ := bind_ok_iff.mp h
        obtain ⟨stride, -, h⟩ := bind_ok_iff.mp h
        obtain ⟨dim, -, h⟩ := bind_ok_iff.mp h
        obtain ⟨-, hthreads⟩ := mapM_range_ok h
        obtain ⟨_, -, hthread⟩ := hthreads 0 hnthr
        unfold thread at hthread
        dsimp only at hthread
        rw [if_pos hzero] at hthread
        cases hthread
  · rw [if_pos hshape] at h
    exact (throwException_ne_ok h).elim

variable (hlength : src.length ≤ dst.length) (hfits : Fits (align dst.length src) dst) (hs : 0 < s)
  (hin : RowMajor inBlob.tensorDesc src) (hshape : shapeBlob.tensorDesc.dims = [dst.length])
  (hout : RowMajor outBlob.tensorDesc dst) (hsrc : src.prod * s < 2 ^ 63) (hdst : dst.prod * s < 2 ^ 63)
  (hnthr : 1 ≤ nthr ∧ nthr < 2 ^ 31)

include hlength hfits hs hin hshape hout hsrc hdst hnthr

theorem once_of_axes (hne : dst ≠ []) (hpos : 0 ∉ dst) :
    ∃ copies, threads nthr s inBlob.tensorDesc shapeBlob.tensorDesc outBlob.tensorDesc = .ok copies ∧
      copies.length = nthr ∧ ∀ v ∈ box dst, ∃ ithr < nthr, ∀ j < nthr,
        ((copies.getD j []).map Prod.fst).count (encode dst v * s) = if j = ithr then 1 else 0 := by
  have hprod : dst.prod < 2 ^ 63 := (Nat.le_mul_of_pos_right _ hs).trans_lt hdst
  obtain ⟨f, hzero, hend, hmono, hsplit⟩ := @exists_parts dst.prod nthr hnthr.1 (by omega)
  refine ⟨_, threads_eq hin hshape hout hlength hfits hne hpos hs hsrc hdst hnthr,
    by rw [List.length_map, List.length_range], fun v hv => ?_⟩
  have hlt := encode_lt (mem_box.mp hv)
  rw [← hend] at hlt
  obtain ⟨ithr, hithr, hinside, hunique⟩ := exists_part hzero hmono hlt
  refine ⟨ithr, hithr, fun j hj => ?_⟩
  have hinjective : Function.Injective (· * s) := fun a b hab => Nat.eq_of_mul_eq_mul_right hs hab
  have hcount : ((((List.range nthr).map fun (ithr : Nat) =>
      (places src dst (splitter dst.prod nthr ithr)).map (inBytes s)).getD j []).map Prod.fst).count (encode dst v * s) =
        (List.range' (f j) (f (j + 1) - f j)).count (encode dst v) := by
    rw [List.getD_eq_getElem _ _ (by rwa [List.length_map, List.length_range]), List.getElem_map, List.getElem_range,
      List.map_map, show (Prod.fst ∘ inBytes s) = (· * s) ∘ Prod.fst from rfl, ← List.map_map, map_fst_places, hsplit j hj]
    exact List.count_map_of_injective _ _ hinjective _
  have hmono' := hmono j hj
  rw [hcount]
  split_ifs with hji
  · subst hji
    refine List.count_eq_one_of_mem List.nodup_range' (List.mem_range'_1.mpr ?_)
    omega
  · refine List.count_eq_zero.mpr fun hmem => hji ?_
    have hmem := List.mem_range'_1.mp hmem
    exact hunique j hj hmem.1 (by omega)

variable (hsize : inBlob.tensorDesc.precision.size = .ok s)

include hsize

theorem exists_inferred (hne : dst ≠ []) (hpos : 0 ∉ dst) (hschedule : ∀ copies, (schedule copies).Perm copies.flatten)
    (hbytes : bytes.length = src.prod * s) (hold : old.length = dst.prod * s) :
    ∃ bytes', inferImpl nthr schedule [{ inBlob with buffer := some bytes }, shapeBlob]
        [{ outBlob with buffer := some old }] = .ok [{ outBlob with buffer := some bytes' }] ∧
      bytes'.length = old.length ∧
      ∀ place ∈ allPlaces src dst nthr, rowAt s bytes' place.1 = rowAt s bytes place.2 := by
  have hprod : dst.prod < 2 ^ 63 := (Nat.le_mul_of_pos_right _ hs).trans_lt hdst
  have hcopies := hschedule ((List.range nthr).map fun (ithr : Nat) =>
    (places src dst (splitter dst.prod nthr ithr)).map (inBytes s))
  have hflatten : ((List.range nthr).map fun (ithr : Nat) =>
      (places src dst (splitter dst.prod nthr ithr)).map (inBytes s)).flatten =
        (allPlaces src dst nthr).map (inBytes s) := by
    rw [allPlaces, List.map_flatMap, List.flatMap]
  rw [hflatten] at hcopies
  obtain ⟨bytes', hrun, hlength', hcopied⟩ := exists_copied hnthr.1 (by omega) hlength hfits hpos hs hbytes hold hcopies
  refine ⟨bytes', ?_, hlength', hcopied⟩
  unfold inferImpl
  dsimp only
  rw [hshape, if_neg (by simp), hsize, ok_bind,
    threads_eq hin hshape hout hlength hfits hne hpos hs hsrc hdst hnthr, ok_bind, hin.offsetPadding, hout.offsetPadding]
  simp only [Nat.zero_add, ByteBlob.memory, Option.getD_some]
  rw [hrun]
  rfl

/-- A place gets the element that broadcasting says exactly if it comes from there. -/
theorem source_of_elements (h : Broadcasts src dst s nthr inBlob shapeBlob outBlob) {place : Nat × Nat}
    (hplace : place ∈ allPlaces src dst nthr) : place.2 = source src dst place.1 := by
  have hprod : dst.prod < 2 ^ 63 := (Nat.le_mul_of_pos_right _ hs).trans_lt hdst
  obtain ⟨copies, hcopies, -⟩ := h.once
  obtain ⟨hne, hpos⟩ := axes_of_threads hout.dims hnthr.1 hcopies
  have hk : place.1 < dst.prod := by
    have hmem := List.mem_map_of_mem (f := Prod.fst) hplace
    rwa [map_fst_allPlaces hnthr.1 (by omega), List.mem_range] at hmem
  have hp := @source_lt src dst place.1 hlength hfits hpos
  -- the input is zero but for the element that broadcasting says
  set zeros := List.replicate (src.prod * s) (0 : BitVec 8) with hzeros
  set bytes := overlay zeros (source src dst place.1 * s) (List.replicate s 1) with hbytes
  have hinside : (source src dst place.1 + 1) * s ≤ zeros.length := by
    rw [hzeros, List.length_replicate]
    exact Nat.mul_le_mul_right s hp
  rw [Nat.succ_mul] at hinside
  have hlengthBytes : bytes.length = src.prod * s := by
    rw [hbytes, length_overlay (by rwa [List.length_replicate]), hzeros, List.length_replicate]
  have hlengthOld : (List.replicate (dst.prod * s) (0 : BitVec 8)).length = dst.prod * s := List.length_replicate
  have hflatten : ∀ copies : List (List (Nat × Nat)), copies.flatten.Perm copies.flatten := fun _ => List.Perm.refl _
  obtain ⟨bytes', hrun, -, hcopied⟩ := exists_inferred hlength hfits hs hin hshape hout hsrc hdst hnthr hsize hne hpos
    hflatten hlengthBytes hlengthOld
  obtain ⟨bytes'', hrun', -, hrows⟩ := h.elements hflatten hlengthBytes hlengthOld
  rw [hrun, Except.ok.injEq, List.cons.injEq] at hrun'
  obtain rfl : bytes' = bytes'' := Option.some.inj (congrArg Blob.buffer hrun'.1)
  have hrow := hrows _ (decode_mem_box hk)
  rw [encode_decode, Nat.mod_eq_of_lt hk, hcopied _ hplace, ← source, hbytes,
    rowAt_overlay_self (by omega) List.length_replicate] at hrow
  by_contra hother
  rw [rowAt_overlay_of_ne hinside List.length_replicate hother, rowAt, hzeros, List.drop_replicate,
    List.take_replicate] at hrow
  have hmem := List.mem_replicate.mpr ⟨hs.ne', @rfl (BitVec 8) 1⟩
  rw [← hrow] at hmem
  exact absurd (List.mem_replicate.mp hmem).2 (by decide)

/-- **Broadcasting constants.** The output is the input, broadcast, exactly if it has an axis and no empty axis, and
no thread takes a start apart that stands for other elements once it is truncated to `int`. -/
theorem broadcasts_iff :
    Broadcasts src dst s nthr inBlob shapeBlob outBlob ↔ dst ≠ [] ∧ 0 ∉ dst ∧ StartsFit src dst nthr := by
  have hprod : dst.prod < 2 ^ 63 := (Nat.le_mul_of_pos_right _ hs).trans_lt hdst
  constructor
  · intro h
    obtain ⟨copies, hcopies, -⟩ := h.once
    obtain ⟨hne, hpos⟩ := axes_of_threads hout.dims hnthr.1 hcopies
    refine ⟨hne, hpos, fun ithr hithr => .inr fun j hj => ?_⟩
    exact source_of_elements hlength hfits hs hin hshape hout hsrc hdst hnthr hsize h (mem_allPlaces hithr hj)
  · rintro ⟨hne, hpos, hstarts⟩
    refine ⟨fun hschedule hbytes hold => ?_, once_of_axes hlength hfits hs hin hshape hout hsrc hdst hnthr hne hpos⟩
    obtain ⟨bytes', hrun, hlength', hcopied⟩ := exists_inferred hlength hfits hs hin hshape hout hsrc hdst hnthr hsize
      hne hpos hschedule hbytes hold
    refine ⟨bytes', hrun, hlength', fun v hv => ?_⟩
    have hlt := encode_lt (mem_box.mp hv)
    have hmem := List.mem_range.mpr hlt
    rw [← @map_fst_allPlaces src dst nthr hnthr.1 (by omega), List.mem_map] at hmem
    obtain ⟨place, hplace, hfst⟩ := hmem
    have hrow := hcopied place hplace
    obtain ⟨ithr, hithr, hpart⟩ := List.mem_flatMap.mp hplace
    obtain ⟨j, hj, rfl⟩ := List.mem_map.mp hpart
    have hsource : source src dst (startNumber dst (splitter dst.prod nthr ithr).1 + j) =
        source src dst (encode dst v) := by
      rw [← hfst]
      rcases hstarts ithr (List.mem_range.mp hithr) with hstart | hsame
      · have hle : (splitter dst.prod nthr ithr).1 < dst.prod := by
          dsimp only at hfst
          omega
        rw [startNumber_eq hstart, Nat.mod_eq_of_lt hle]
      · exact hsame j (List.mem_range.mp hj)
    dsimp only at hrow hfst
    rw [hfst, hsource, source, decode_encode (mem_box.mp hv)] at hrow
    exact hrow

end Broadcast

/-- A blob with the default strides. -/
def plainBlob (precision : Precision) (shape : SizeVector) : ByteBlob where
  tensorDesc := {
    precision
    dims := shape
    layout := .BLOCKED
    blockingDesc := .filled shape (List.range shape.length) }
  buffer := none

theorem rowMajor_plainBlob {precision : Precision} {shape : SizeVector} :
    RowMajor (plainBlob precision shape).tensorDesc shape := ⟨rfl, rfl, rfl⟩

/-- A row that becomes three, with two threads. -/
theorem broadcasts_iff_rows :
    Broadcasts [2] [3, 2] 1 2 (plainBlob .U8 [2]) (plainBlob .I32 [2]) (plainBlob .U8 [3, 2]) := by
  have hfits : Fits (align [3, 2].length [2]) [3, 2] := .cons (.inr rfl) (.cons (.inl rfl) .nil)
  have hstarts : StartsFit [2] [3, 2] 2 := fun ithr hithr => .inl (by decide +revert)
  exact (broadcasts_iff (by decide) hfits Nat.one_pos rowMajor_plainBlob rfl rowMajor_plainBlob (by decide) (by decide)
    (by decide) rfl).mpr ⟨by decide, by decide, hstarts⟩

/-- The fifth of seven threads starts at the element `2 ^ 31`, and copies from the first element on. -/
theorem broadcast_restarts : ¬Broadcasts [7 * 2 ^ 29] [7 * 2 ^ 29] 1 7 (plainBlob .U8 [7 * 2 ^ 29]) (plainBlob .I32 [1])
    (plainBlob .U8 [7 * 2 ^ 29]) := by
  intro h
  have hfits : Fits (align [7 * 2 ^ 29].length [7 * 2 ^ 29]) [7 * 2 ^ 29] := .cons (.inl rfl) .nil
  have hstart : splitter [7 * 2 ^ 29].prod (7 : Nat) (4 : Nat) = (2 ^ 31, 5 * 2 ^ 29) := by decide
  have hmem := @mem_allPlaces [7 * 2 ^ 29] [7 * 2 ^ 29] 7 4 0 (by decide) (by rw [hstart]; decide)
  rw [hstart] at hmem
  have hsource := source_of_elements (le_refl _) hfits Nat.one_pos rowMajor_plainBlob rfl rowMajor_plainBlob (by decide)
    (by decide) (by decide) rfl h hmem
  exact absurd hsource (by decide +kernel)

end OpenVino.InferenceEngine.ShapeInfer
