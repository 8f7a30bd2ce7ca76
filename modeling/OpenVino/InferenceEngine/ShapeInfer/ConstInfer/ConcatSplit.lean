import OpenVino.InferenceEngine.ShapeInfer.ConstInfer.ByteBlobs

/-!
# Concatenation and splitting of constants

`ConcatConstInfer` writes its output from the front to the back and takes the inputs row by row; `SplitConstInfer` reads
its input from the front to the back and puts it row by row into the outputs. A row of a blob is what lies behind the
axis: the concatenation is the interleaved rows of the parts (`concat_eq`), and a split finds the parts of which its
input is the interleaving (`split_eq`). `split_concat` and `concat_split` are the two round trips.
-/

namespace OpenVino.InferenceEngine.ShapeInfer

/-- `GetParamAsUInt("axis", 1)` of a layer without a name, of the value as an `int`. -/
def getAxis (axis : Option Int) : Result Nat :=
  let value := axis.getD 1
  if value < 0 then
    throwException ("Cannot parse parameter axis from IR for layer . Value " ++ toString value ++
      " cannot be casted to int.")
  else return value.toNat

/-- The loop over the dimensions before the axis. -/
def outerSize (shape : SizeVector) (axis : Nat) : Result Nat :=
  (List.range axis).foldlM (fun outerSize i => do
    let dim ← elemAt "shape[i]" shape (i : Nat)
    return toSizeT (outerSize * dim : Nat)) 1

namespace ConcatConstInfer

/-- The loop over `j`, on the memory of the output and `outIdx`. -/
def copyRow (inBlob outBlob : ByteBlob) (innerSize osIdx : Nat) (s : List (BitVec 8) × Nat) :
    Result (List (BitVec 8) × Nat) :=
  (List.range innerSize).foldlM (fun s j => do
    let outBuffer ← memcpy s.1 (toSizeT (s.2 * outBlob.element_size : Nat)) inBlob.memory
      (toSizeT ((osIdx * innerSize + j) * inBlob.element_size : Nat)) inBlob.element_size
    return (outBuffer, s.2 + 1)) s

/-- The body of the loop over the inputs. -/
def copyInput (outBlob : ByteBlob) (outerSize osIdx : Nat) (s : List (BitVec 8) × Nat) (inBlob : ByteBlob) :
    Result (List (BitVec 8) × Nat) :=
  if inBlob.tensorDesc.precision ≠ outBlob.tensorDesc.precision then
    throwException ("Unsupported concat layer with different precisions! Out precision: " ++
      outBlob.tensorDesc.precision.name)
  else copyRow inBlob outBlob (inBlob.size / outerSize) osIdx s

def inferImpl (axis : Option Int) (inData outData : List ByteBlob) : Result (List ByteBlob) := do
  let axis ← getAxis axis
  match outData with
  | [] => .error (.undefinedBehaviour "*outData.begin()")
  | outBlob :: outData =>
    let outerSize ← outerSize outBlob.tensorDesc.dims axis
    let (outBuffer, _) ← (List.range outerSize).foldlM
      (fun s osIdx => inData.foldlM (copyInput outBlob outerSize osIdx) s) (outBlob.memory, 0)
    return { outBlob with buffer := some outBuffer } :: outData

end ConcatConstInfer

namespace SplitConstInfer

/-- The loop over `j`, on the memory of the output and the place of `inBuffer`; `size` is that of `data_t`. -/
def copyRow (size : Nat) (inBuffer : List (BitVec 8)) (innerSize osIdx : Nat) (s : List (BitVec 8) × Nat) :
    Result (List (BitVec 8) × Nat) :=
  (List.range innerSize).foldlM (fun s j => do
    let outBuffer ← memcpy s.1 ((osIdx * innerSize + j) * size) inBuffer (s.2 * size) size
    return (outBuffer, s.2 + 1)) s

/-- The loop over the outputs. -/
def copyOutputs (size : Nat) (inBuffer : List (BitVec 8)) (outerSize osIdx : Nat) :
    List ByteBlob → Nat → Result (List ByteBlob × Nat)
  | [], place => return ([], place)
  | outBlob :: outData, place => do
    let (outBuffer, place) ← copyRow size inBuffer (outBlob.size / outerSize) osIdx (outBlob.memory, place)
    let (outData, place) ← copyOutputs size inBuffer outerSize osIdx outData place
    return ({ outBlob with buffer := some outBuffer } :: outData, place)

def split_copy_impl (size axis : Nat) (inBlob : ByteBlob) (outData : List ByteBlob) : Result (List ByteBlob) := do
  let outerSize ← outerSize inBlob.tensorDesc.dims axis
  let (outData, _) ← (List.range outerSize).foldlM
    (fun s osIdx => copyOutputs size inBlob.memory outerSize osIdx s.1 s.2) (outData, 0)
  return outData

def inferImpl (axis : Option Int) (inData outData : List ByteBlob) : Result (List ByteBlob) := do
  let axis ← getAxis axis
  match inData with
  | [] => .error (.undefinedBehaviour "inData.front()")
  | inputBlob :: _ =>
    let size ← inputBlob.tensorDesc.precision.size
    if size = 4 ∨ size = 2 ∨ size = 1 then split_copy_impl size axis inputBlob outData
    else throwException "unsupported precision"

end SplitConstInfer

/-! ### One row -/

variable {dst src inBuffer : List (BitVec 8)} {a b n s w osIdx : Nat} {inBlob outBlob : ByteBlob}
  {precision : Precision} {shape : SizeVector} {bytes : List (BitVec 8)}

/-- A row that is written to the place the output has come to. -/
theorem ConcatConstInfer.copyRow_eq (hin : Stores inBlob precision shape src)
    (hout : outBlob.tensorDesc.precision = precision) (hs : precision.typeSize = s) (hsmall : dst.length < 2 ^ 63)
    (hdst : (a + w) * s ≤ dst.length) (hsrc : (osIdx * w + w) * s ≤ src.length) :
    copyRow inBlob outBlob w osIdx (dst, a) = .ok (overlay dst (a * s) (rowAt (w * s) src osIdx), a + w) := by
  have hsize : outBlob.element_size = s := by rw [ByteBlob.element_size, hout, hs]
  let I (j : Nat) (st : List (BitVec 8) × Nat) : Prop :=
    st = (overlay dst (a * s) ((src.drop (osIdx * w * s)).take (j * s)), a + j)
  have hstart : I 0 (dst, a) := by
    show (dst, a) = _
    rw [Nat.zero_mul, List.take_zero, overlay_nil, Nat.add_zero]
  have hsrcSmall := hin.small
  unfold copyRow
  obtain ⟨st, hrun, hst⟩ := exists_range_ok hstart (n := w) (f := fun (s : List (BitVec 8) × Nat) (j : Nat) => do
    let outBuffer ← memcpy s.1 (toSizeT (s.2 * outBlob.element_size : Nat)) inBlob.memory
      (toSizeT ((osIdx * w + j) * inBlob.element_size : Nat)) inBlob.element_size
    return (outBuffer, s.2 + 1)) fun j hj st hI => by
      have hI : st = _ := hI
      have hdstLe : (a + j + 1) * s ≤ dst.length := (Nat.mul_le_mul_right s (by omega)).trans hdst
      have hsrcLe : (osIdx * w + j + 1) * s ≤ src.length := (Nat.mul_le_mul_right s (by omega)).trans hsrc
      have hcopy := memcpy_append hdstLe hsrcLe
      rw [Nat.succ_mul] at hdstLe hsrcLe
      rw [hI, hsize, hin.element_size, hs, hin.memory]
      dsimp only
      rw [toSizeT_natCast (by omega), toSizeT_natCast (by omega), hcopy]
      exact ⟨_, rfl, rfl⟩
  have hst : st = _ := hst
  rw [hrun, hst, rowAt, Nat.mul_assoc]

/-- A row that is read from the place the input has come to. -/
theorem SplitConstInfer.copyRow_eq (hdst : (osIdx * w + w) * s ≤ dst.length) (hsrc : (a + w) * s ≤ src.length) :
    copyRow s src w osIdx (dst, a) =
      .ok (overlay dst (osIdx * (w * s)) ((src.drop (a * s)).take (w * s)), a + w) := by
  let I (j : Nat) (st : List (BitVec 8) × Nat) : Prop :=
    st = (overlay dst (osIdx * w * s) ((src.drop (a * s)).take (j * s)), a + j)
  have hstart : I 0 (dst, a) := by
    show (dst, a) = _
    rw [Nat.zero_mul, List.take_zero, overlay_nil, Nat.add_zero]
  unfold copyRow
  obtain ⟨st, hrun, hst⟩ := exists_range_ok hstart (n := w) (f := fun (st : List (BitVec 8) × Nat) (j : Nat) => do
    let outBuffer ← memcpy st.1 ((osIdx * w + j) * s) src (st.2 * s) s
    return (outBuffer, st.2 + 1)) fun j hj st hI => by
      have hI : st = _ := hI
      have hdstLe : (osIdx * w + j + 1) * s ≤ dst.length := (Nat.mul_le_mul_right s (by omega)).trans hdst
      have hsrcLe : (a + j + 1) * s ≤ src.length := (Nat.mul_le_mul_right s (by omega)).trans hsrc
      rw [hI, memcpy_append hdstLe hsrcLe]
      exact ⟨_, rfl, rfl⟩
  have hst : st = _ := hst
  rw [hrun, hst, Nat.mul_assoc]

/-! ### Blobs that differ along one axis -/

variable {pre post : SizeVector} {parts : List (Nat × List (BitVec 8))} {inData outData : List ByteBlob} {blob : ByteBlob}
  {d i axis : Nat}

theorem outerSize_eq (h : axis ≤ shape.length) : outerSize shape axis = .ok (toSizeT ((shape.take axis).prod : Nat)) := by
  let I (i : Nat) (r : Nat) : Prop := r = toSizeT ((shape.take i).prod : Nat)
  have hstart : I 0 1 := rfl
  unfold outerSize
  obtain ⟨r, hrun, hr⟩ := exists_range_ok hstart (n := axis) (f := fun (outerSize i : Nat) => do
    let dim ← elemAt "shape[i]" shape (i : Nat)
    return toSizeT (outerSize * dim : Nat)) fun i hi r hI => by
      have hI : r = _ := hI
      have hlt : i < shape.length := by omega
      rw [elemAt_eq hlt]
      refine ⟨_, rfl, ?_⟩
      show _ = _
      rw [hI, toSizeT_mul_toSizeT, List.take_add_one, List.getElem?_eq_getElem hlt, Option.toList_some, List.prod_append,
        List.prod_singleton]
  rw [hrun]
  exact congrArg _ hr

/-- The shapes with `d` along the axis behind `pre`. -/
def along (pre post : SizeVector) (d : Nat) : SizeVector := pre ++ d :: post

theorem prod_along : (along pre post d).prod = pre.prod * (d * post.prod) := by
  rw [along, List.prod_append, List.prod_cons]

theorem outerSize_along : outerSize (along pre post d) pre.length = .ok (toSizeT (pre.prod : Nat)) := by
  rw [along, outerSize_eq (by rw [List.length_append]; omega), List.take_left]

/-- A blob is as many rows as the loops take it for. When the product of the outer dimensions wraps the rows are empty. -/
theorem Stores.rows (h : Stores blob precision (along pre post d) bytes) (hs : precision.typeSize = s) (hpos : 0 < s) :
    blob.size = toSizeT (pre.prod : Nat) * (d * post.prod) ∧
      bytes.length = toSizeT (pre.prod : Nat) * (d * post.prod * s) := by
  have hlt := h.prod_lt (hs ▸ hpos)
  have hsize := h.size (hs ▸ hpos) (List.append_ne_nil_of_right_ne_nil _ (List.cons_ne_nil _ _))
  have hlength := h.length
  rw [prod_along] at hlt hsize hlength
  have hrows : pre.prod * (d * post.prod) = toSizeT (pre.prod : Nat) * (d * post.prod) := by
    by_cases hfits : pre.prod < 2 ^ 64
    · rw [toSizeT_natCast hfits]
    · have hzero : d * post.prod = 0 := by
        by_contra hne
        have := Nat.le_mul_of_pos_right pre.prod (Nat.pos_of_ne_zero hne)
        omega
      rw [hzero, Nat.mul_zero, Nat.mul_zero]
  rw [hsize, hlength, hs, hrows, Nat.mul_assoc _ _ s]
  exact ⟨rfl, rfl⟩

/-- The blobs store these parts: the size along the axis and the bytes of each. -/
def StoreParts (precision : Precision) (pre post : SizeVector) (parts : List (Nat × List (BitVec 8)))
    (blobs : List ByteBlob) : Prop :=
  List.Forall₂ (fun part blob => Stores blob precision (along pre post part.1) part.2) parts blobs

/-- The parts with the widths of their rows in bytes. -/
def byteRows (post : SizeVector) (s : Nat) (parts : List (Nat × List (BitVec 8))) : List (Nat × List (BitVec 8)) :=
  parts.map fun part => (part.1 * post.prod * s, part.2)

theorem sum_byteRows : ((byteRows post s parts).map Prod.fst).sum = (parts.map Prod.fst).sum * post.prod * s := by
  induction parts with
  | nil => simp [byteRows]
  | cons part parts ih =>
    have hcons : byteRows post s (part :: parts) = (part.1 * post.prod * s, part.2) :: byteRows post s parts := rfl
    rw [hcons, List.map_cons, List.sum_cons, ih, List.map_cons, List.sum_cons, Nat.add_mul, Nat.add_mul]

theorem StoreParts.haveRows (h : StoreParts precision pre post parts inData) (hs : precision.typeSize = s)
    (hpos : 0 < s) : HaveRows (toSizeT (pre.prod : Nat)) (byteRows post s parts) := by
  induction h with
  | nil => exact fun p hp => absurd hp List.not_mem_nil
  | cons hblob _ ih => exact List.forall_mem_cons.mpr ⟨(hblob.rows hs hpos).2, ih⟩

theorem row_le (hi : i < n) : (i * w + w) * s ≤ n * (w * s) := by
  have hle : (i + 1) * w ≤ n * w := Nat.mul_le_mul_right w hi
  rw [Nat.succ_mul] at hle
  rw [← Nat.mul_assoc]
  exact Nat.mul_le_mul_right s hle

theorem getAxis_length : getAxis (some (pre.length : Int)) = .ok pre.length := by
  unfold getAxis
  rw [Option.getD_some, if_neg (by omega), Int.toNat_natCast]
  rfl

theorem sum_mul_cons {part : Nat × List (BitVec 8)} : (((part :: parts).map Prod.fst).sum) * post.prod =
    part.1 * post.prod + (parts.map Prod.fst).sum * post.prod := by
  rw [List.map_cons, List.sum_cons, Nat.add_mul]

/-! ### All rows -/

/-- One row of the output: the rows of the inputs behind one another. -/
theorem ConcatConstInfer.copyInputs_eq (h : StoreParts precision pre post parts inData)
    (hs : precision.typeSize = s) (hpos : 0 < s) (hout : outBlob.tensorDesc.precision = precision)
    (hsmall : dst.length < 2 ^ 63) (hi : i < toSizeT (pre.prod : Nat))
    (hdst : (a + (parts.map Prod.fst).sum * post.prod) * s ≤ dst.length) :
    inData.foldlM (copyInput outBlob (toSizeT (pre.prod : Nat)) i) (dst, a) =
      .ok (overlay dst (a * s) (rowsOf (byteRows post s parts) i), a + (parts.map Prod.fst).sum * post.prod) := by
  induction h generalizing dst a with
  | nil =>
    rw [List.map_nil, List.sum_nil, Nat.zero_mul, Nat.add_zero]
    show Except.ok _ = _
    rw [show rowsOf (byteRows post s []) i = [] from rfl, overlay_nil]
  | @cons part blob parts inData hblob hparts ih =>
    obtain ⟨hsize, hlength⟩ := hblob.rows hs hpos
    rw [sum_mul_cons, ← Nat.add_assoc] at hdst
    have hfirst : (a + part.1 * post.prod) * s ≤ dst.length := (Nat.mul_le_mul_right s (by omega)).trans hdst
    have hsrc : (i * (part.1 * post.prod) + part.1 * post.prod) * s ≤ part.2.length := hlength ▸ row_le hi
    have hrow : (rowAt (part.1 * post.prod * s) part.2 i).length = part.1 * post.prod * s := by
      apply length_rowAt
      rw [hlength]
      exact Nat.mul_le_mul_right _ hi
    have hinside : a * s + (rowAt (part.1 * post.prod * s) part.2 i).length ≤ dst.length := by
      rwa [hrow, ← Nat.add_mul]
    have hquotient : blob.size / toSizeT (pre.prod : Nat) = part.1 * post.prod := by
      rw [hsize, Nat.mul_div_cancel_left _ (by omega)]
    have hcopy := copyRow_eq hblob hout hs hsmall hfirst hsrc
    have hrest := @ih (overlay dst (a * s) (rowAt (part.1 * post.prod * s) part.2 i)) (a + part.1 * post.prod)
      (by rwa [length_overlay hinside]) (by rwa [length_overlay hinside])
    have happend := @overlay_overlay _ dst (rowAt (part.1 * post.prod * s) part.2 i) (rowsOf (byteRows post s parts) i)
      (a * s) hinside
    rw [hrow] at happend
    rw [List.foldlM_cons, copyInput, if_neg (by rw [hblob.element, hout]; exact not_not.mpr rfl), hquotient, hcopy,
      ok_bind, hrest, sum_mul_cons, ← Nat.add_assoc, Nat.add_mul a, happend]
    rfl

/-- **Concatenation.** The output gets the interleaved rows of the inputs. -/
theorem ConcatConstInfer.concat_eq (hs : precision.typeSize = s) (hpos : 0 < s)
    (hin : StoreParts precision pre post parts inData)
    (hout : Stores outBlob precision (along pre post (parts.map Prod.fst).sum) bytes) :
    inferImpl (some (pre.length : Int)) inData [outBlob] = .ok [{ outBlob with
      buffer := some (interleave (toSizeT (pre.prod : Nat)) (byteRows post s parts)) }] ∧
    (interleave (toSizeT (pre.prod : Nat)) (byteRows post s parts)).length = bytes.length := by
  set n := toSizeT (pre.prod : Nat) with hn
  have hlength := (hout.rows hs hpos).2
  have hrows := hin.haveRows hs hpos
  have hall : ∀ m ≤ n, (interleave m (byteRows post s parts)).length =
      m * ((parts.map Prod.fst).sum * post.prod * s) := by
    intro m hm
    rw [length_interleave hrows hm, sum_byteRows]
  have hend : (interleave n (byteRows post s parts)).length = bytes.length := by
    rw [hall n (le_refl n), hlength]
  refine ⟨?_, hend⟩
  let I (m : Nat) (st : List (BitVec 8) × Nat) : Prop :=
    st = (overlay bytes 0 (interleave m (byteRows post s parts)), m * ((parts.map Prod.fst).sum * post.prod))
  have hstart : I 0 (bytes, 0) := by
    show (bytes, 0) = _
    rw [Nat.zero_mul, show interleave 0 (byteRows post s parts) = [] from rfl, overlay_nil]
  obtain ⟨st, hrun, hst⟩ := exists_range_ok hstart (n := n)
    (f := fun st osIdx => inData.foldlM (copyInput outBlob n osIdx) st) fun m hm st hI => by
      have hI : st = _ := hI
      have hinside : 0 + (interleave m (byteRows post s parts)).length ≤ bytes.length := by
        rw [hall m hm.le, hlength, Nat.zero_add]
        exact Nat.mul_le_mul_right _ hm.le
      have hroom : (m * ((parts.map Prod.fst).sum * post.prod) + (parts.map Prod.fst).sum * post.prod) * s ≤
          bytes.length := by
        rw [hlength]
        exact row_le hm
      have happend := @overlay_overlay _ bytes (interleave m (byteRows post s parts)) (rowsOf (byteRows post s parts) m)
        0 hinside
      rw [Nat.zero_add, hall m hm.le] at happend
      rw [hI, copyInputs_eq hin hs hpos hout.element (by rw [length_overlay hinside]; exact hout.small) hm
        (by rwa [length_overlay hinside]), Nat.mul_assoc m, happend, ← interleave_succ]
      refine ⟨_, rfl, ?_⟩
      show _ = _
      rw [Nat.succ_mul]
  have hst : st = _ := hst
  rw [overlay_all hend] at hst
  unfold inferImpl
  rw [getAxis_length, ok_bind]
  dsimp only
  rw [hout.dims, outerSize_along, ok_bind, hout.memory, ← hn, hrun, hst]
  rfl

/-- One row of the input goes into the outputs, whose rows before it stay. -/
theorem SplitConstInfer.copyOutputs_eq (h : StoreParts precision pre post parts outData)
    (hs : precision.typeSize = s) (hpos : 0 < s) (hi : i < toSizeT (pre.prod : Nat))
    (hsrc : (a + (parts.map Prod.fst).sum * post.prod) * s ≤ src.length) :
    ∃ parts' outData', copyOutputs s src (toSizeT (pre.prod : Nat)) i outData a =
        .ok (outData', a + (parts.map Prod.fst).sum * post.prod) ∧
      StoreParts precision pre post parts' outData' ∧ parts'.map Prod.fst = parts.map Prod.fst ∧
      (∀ j < i, rowsOf (byteRows post s parts') j = rowsOf (byteRows post s parts) j) ∧
      rowsOf (byteRows post s parts') i = (src.drop (a * s)).take ((parts.map Prod.fst).sum * post.prod * s) := by
  induction h generalizing a with
  | nil =>
    refine ⟨[], [], ?_, .nil, rfl, fun _ _ => rfl, ?_⟩
    · rw [List.map_nil, List.sum_nil, Nat.zero_mul, Nat.add_zero]
      rfl
    · rw [List.map_nil, List.sum_nil, Nat.zero_mul, Nat.zero_mul, List.take_zero]
      rfl
  | @cons part blob parts outData hblob hparts ih =>
    obtain ⟨hsize, hlength⟩ := hblob.rows hs hpos
    rw [sum_mul_cons, ← Nat.add_assoc] at hsrc
    have hread : (a + part.1 * post.prod) * s ≤ src.length := (Nat.mul_le_mul_right s (by omega)).trans hsrc
    have hdst : (i * (part.1 * post.prod) + part.1 * post.prod) * s ≤ part.2.length := hlength ▸ row_le hi
    have hquotient : blob.size / toSizeT (pre.prod : Nat) = part.1 * post.prod := by
      rw [hsize, Nat.mul_div_cancel_left _ (by omega)]
    have hcopy := @copyRow_eq part.2 src a s (part.1 * post.prod) i hdst hread
    set chunk := (src.drop (a * s)).take (part.1 * post.prod * s) with hchunk
    have hwidth : chunk.length = part.1 * post.prod * s := by
      rw [Nat.add_mul] at hread
      rw [hchunk, List.length_take_of_le]
      rw [List.length_drop]
      omega
    have hroom : i * (part.1 * post.prod * s) + part.1 * post.prod * s ≤ part.2.length := by
      rwa [Nat.add_mul, Nat.mul_assoc] at hdst
    have hwritten : (overlay part.2 (i * (part.1 * post.prod * s)) chunk).length = part.2.length :=
      length_overlay (by rwa [hwidth])
    obtain ⟨parts', outData', hrun, hstored, hwidths, hbefore, hrow⟩ := ih hsrc
    refine ⟨(part.1, overlay part.2 (i * (part.1 * post.prod * s)) chunk) :: parts',
      { blob with buffer := some (overlay part.2 (i * (part.1 * post.prod * s)) chunk) } :: outData', ?_,
      .cons (hblob.write hwritten) hstored, by rw [List.map_cons, List.map_cons, hwidths], fun j hj => ?_, ?_⟩
    · rw [copyOutputs, hquotient, hblob.memory, hcopy, ok_bind]
      dsimp only
      rw [hrun, sum_mul_cons, ← Nat.add_assoc]
      rfl
    · have hcons : ∀ (p : Nat × List (BitVec 8)) ps, rowsOf (byteRows post s (p :: ps)) j =
          rowAt (p.1 * post.prod * s) p.2 j ++ rowsOf (byteRows post s ps) j := fun _ _ => rfl
      rw [hcons, hcons, hbefore j hj]
      dsimp only
      rw [rowAt_overlay_of_lt (by omega) hj]
    · have hcons : rowsOf (byteRows post s ((part.1, overlay part.2 (i * (part.1 * post.prod * s)) chunk) :: parts')) i =
          rowAt (part.1 * post.prod * s) (overlay part.2 (i * (part.1 * post.prod * s)) chunk) i ++
            rowsOf (byteRows post s parts') i := rfl
      rw [hcons, rowAt_overlay_self (by omega) hwidth, hrow, sum_mul_cons, Nat.add_mul a, Nat.add_mul, List.take_add,
        List.drop_drop, hchunk]

/-- **Splitting.** The input is the interleaved rows of the outputs. -/
theorem SplitConstInfer.split_eq (hs : precision.typeSize = s) (hpos : 0 < s)
    (hsize : s = 4 ∨ s = 2 ∨ s = 1) (hprecision : precision.size = .ok s)
    (hin : Stores inBlob precision (along pre post (parts.map Prod.fst).sum) src)
    (hout : StoreParts precision pre post parts outData) :
    ∃ parts' outData', inferImpl (some (pre.length : Int)) [inBlob] outData = .ok outData' ∧
      StoreParts precision pre post parts' outData' ∧ parts'.map Prod.fst = parts.map Prod.fst ∧
      interleave (toSizeT (pre.prod : Nat)) (byteRows post s parts') = src := by
  set n := toSizeT (pre.prod : Nat) with hn
  have hlength := (hin.rows hs hpos).2
  let I (m : Nat) (st : List ByteBlob × Nat) : Prop := ∃ parts', StoreParts precision pre post parts' st.1 ∧
    parts'.map Prod.fst = parts.map Prod.fst ∧ st.2 = m * ((parts.map Prod.fst).sum * post.prod) ∧
      interleave m (byteRows post s parts') = src.take (m * ((parts.map Prod.fst).sum * post.prod * s))
  have hstart : I 0 (outData, 0) := by
    refine ⟨parts, hout, rfl, by rw [Nat.zero_mul], ?_⟩
    rw [Nat.zero_mul, List.take_zero]
    rfl
  obtain ⟨st, hrun, parts', hstored, hwidths, -, hrows⟩ := exists_range_ok hstart (n := n)
    (f := fun st osIdx => copyOutputs s src n osIdx st.1 st.2) fun m hm st hI => by
      obtain ⟨parts', hstored, hwidths, hplace, hrows⟩ := hI
      have hroom : (st.2 + (parts'.map Prod.fst).sum * post.prod) * s ≤ src.length := by
        rw [hlength, hplace, hwidths]
        exact row_le hm
      obtain ⟨parts'', outData'', hcopy, hstored', hwidths', hbefore, hrow⟩ :=
        copyOutputs_eq hstored hs hpos hm hroom
      refine ⟨_, hcopy, parts'', hstored', hwidths'.trans hwidths, ?_, ?_⟩
      · dsimp only
        rw [hplace, hwidths, Nat.succ_mul]
      · have hold : interleave m (byteRows post s parts'') = interleave m (byteRows post s parts') :=
          List.flatMap_congr fun j hj => hbefore j (List.mem_range.mp hj)
        rw [interleave_succ, hold, hrows, hrow, hplace, hwidths, Nat.mul_assoc m, ← List.take_add, Nat.succ_mul]
  refine ⟨parts', st.1, ?_, hstored, hwidths, ?_⟩
  · unfold inferImpl split_copy_impl
    rw [getAxis_length, ok_bind]
    dsimp only
    rw [hin.element, hprecision, ok_bind, if_pos hsize, hin.dims, outerSize_along, ok_bind, hin.memory, ← hn, hrun]
    rfl
  · rw [hrows, ← hlength, List.take_length]

/-! ### There and back -/

theorem eq_of_byteRows_eq {parts' : List (Nat × List (BitVec 8))} (hwidths : parts'.map Prod.fst = parts.map Prod.fst)
    (h : byteRows post s parts' = byteRows post s parts) : parts' = parts := by
  induction parts generalizing parts' with
  | nil => exact List.map_eq_nil_iff.mp hwidths
  | cons part parts ih =>
    obtain ⟨part', rest, rfl, hfst, hrest⟩ := List.map_eq_cons_iff.mp hwidths
    obtain ⟨hhead, htail⟩ := List.cons.inj h
    rw [ih hrest htail, Prod.ext hfst (Prod.mk.inj hhead).2]

theorem typeSize_of_size (h : precision.size = .ok s) (hsize : s = 4 ∨ s = 2 ∨ s = 1) : precision.typeSize = s := by
  unfold Precision.size at h
  split_ifs at h with hzero
  · exact absurd h throwException_ne_ok
  · have hbits := pure_ok_iff.mp h
    unfold Precision.bitsSize at hbits
    split_ifs at hbits with hbin
    · rw [hbin] at hbits
      simp only [Precision.typeSize] at hbits
      omega
    · omega

/-- **Concatenation and splitting are inverse.** Of blobs whose shapes are equal but for one axis, splitting the
concatenation into blobs of the original shapes gives the original bytes; and concatenating the pieces of a blob
gives its bytes. -/
theorem split_concat_inverse (hprecision : precision.size = .ok s) (hsize : s = 4 ∨ s = 2 ∨ s = 1)
    {old : List (Nat × List (BitVec 8))} (hin : StoreParts precision pre post parts inData)
    (hpieces : StoreParts precision pre post old outData) (hshapes : old.map Prod.fst = parts.map Prod.fst)
    (hout : Stores outBlob precision (along pre post (parts.map Prod.fst).sum) bytes) :
    (∃ joined pieces, ConcatConstInfer.inferImpl (some (pre.length : Int)) inData [outBlob] = .ok [joined] ∧
      SplitConstInfer.inferImpl (some (pre.length : Int)) [joined] outData = .ok pieces ∧
      StoreParts precision pre post parts pieces) ∧
    ∀ {blob : ByteBlob} {data : List (BitVec 8)},
      Stores blob precision (along pre post (parts.map Prod.fst).sum) data →
      ∃ pieces joined, SplitConstInfer.inferImpl (some (pre.length : Int)) [blob] outData = .ok pieces ∧
        ConcatConstInfer.inferImpl (some (pre.length : Int)) pieces [outBlob] = .ok [joined] ∧
        Stores joined precision (along pre post (parts.map Prod.fst).sum) data := by
  have hs := typeSize_of_size hprecision hsize
  have hpos : 0 < s := by omega
  have hwidths : ∀ {ps : List (Nat × List (BitVec 8))}, ps.map Prod.fst = parts.map Prod.fst →
      (byteRows post s ps).map Prod.fst = (byteRows post s parts).map Prod.fst := by
    intro ps hps
    have hmap : ∀ qs : List (Nat × List (BitVec 8)),
        (byteRows post s qs).map Prod.fst = (qs.map Prod.fst).map fun d => d * post.prod * s := by
      intro qs
      rw [byteRows, List.map_map, List.map_map]
      rfl
    rw [hmap, hmap, hps]
  constructor
  · obtain ⟨hconcat, hlength⟩ := ConcatConstInfer.concat_eq hs hpos hin hout
    have hjoined := hout.write hlength
    rw [← hshapes] at hjoined
    obtain ⟨parts', pieces, hsplit, hstored, hparts', hback⟩ :=
      SplitConstInfer.split_eq hs hpos hsize hprecision hjoined hpieces
    have heq := interleave_injective (hstored.haveRows hs hpos) (hin.haveRows hs hpos)
      (hwidths (hparts'.trans hshapes)) hback
    rw [eq_of_byteRows_eq (hparts'.trans hshapes) heq] at hstored
    exact ⟨_, pieces, hconcat, hsplit, hstored⟩
  · intro blob data hblob
    rw [← hshapes] at hblob
    obtain ⟨parts', pieces, hsplit, hstored, hparts', hback⟩ :=
      SplitConstInfer.split_eq hs hpos hsize hprecision hblob hpieces
    rw [← hshapes, ← hparts'] at hout
    obtain ⟨hconcat, hlength⟩ := ConcatConstInfer.concat_eq hs hpos hstored hout
    have hjoined := hout.write hlength
    rw [hback, hparts', hshapes] at hjoined
    rw [hback] at hconcat
    exact ⟨pieces, _, hsplit, hconcat, hjoined⟩

/-- A blob of bytes with two axes. -/
def bytesBlob (shape : SizeVector) (bytes : List (BitVec 8)) : ByteBlob where
  tensorDesc := { precision := .U8, dims := shape, layout := .NC }
  buffer := some bytes

theorem stores_bytesBlob (hlength : bytes.length = shape.prod) (hsmall : bytes.length < 2 ^ 63) :
    Stores (bytesBlob shape bytes) .U8 shape bytes := by
  refine ⟨rfl, rfl, fun hscalar => ?_, rfl, ?_, hsmall⟩
  · cases hscalar
  · rw [hlength]
    exact (Nat.mul_one _).symm

/-- Columns of one and of two bytes in two rows. -/
theorem split_concat_inverse_columns :
    (∃ joined pieces, ConcatConstInfer.inferImpl (some 1) [bytesBlob [2, 1] [1, 2], bytesBlob [2, 2] [3, 4, 5, 6]]
        [bytesBlob [2, 3] [0, 0, 0, 0, 0, 0]] = .ok [joined] ∧
      SplitConstInfer.inferImpl (some 1) [joined] [bytesBlob [2, 1] [0, 0], bytesBlob [2, 2] [0, 0, 0, 0]] =
        .ok pieces ∧
      StoreParts .U8 [2] [] [(1, [1, 2]), (2, [3, 4, 5, 6])] pieces) ∧
    ∃ pieces joined, SplitConstInfer.inferImpl (some 1) [bytesBlob [2, 3] [1, 3, 4, 2, 5, 6]]
          [bytesBlob [2, 1] [0, 0], bytesBlob [2, 2] [0, 0, 0, 0]] = .ok pieces ∧
      ConcatConstInfer.inferImpl (some 1) pieces [bytesBlob [2, 3] [0, 0, 0, 0, 0, 0]] = .ok [joined] ∧
      Stores joined .U8 [2, 3] [1, 3, 4, 2, 5, 6] := by
  have hin : StoreParts .U8 [2] [] [(1, [1, 2]), (2, [3, 4, 5, 6])]
      [bytesBlob [2, 1] [1, 2], bytesBlob [2, 2] [3, 4, 5, 6]] :=
    .cons (stores_bytesBlob rfl (by decide)) (.cons (stores_bytesBlob rfl (by decide)) .nil)
  have hpieces : StoreParts .U8 [2] [] [(1, [0, 0]), (2, [0, 0, 0, 0])]
      [bytesBlob [2, 1] [0, 0], bytesBlob [2, 2] [0, 0, 0, 0]] :=
    .cons (stores_bytesBlob rfl (by decide)) (.cons (stores_bytesBlob rfl (by decide)) .nil)
  have hout : Stores (bytesBlob [2, 3] [0, 0, 0, 0, 0, 0]) .U8 [2, 3] [0, 0, 0, 0, 0, 0] :=
    stores_bytesBlob rfl (by decide)
  have hinverse := split_concat_inverse (s := 1) rfl (.inr (.inr rfl)) hin hpieces rfl hout
  exact ⟨hinverse.1, hinverse.2 (stores_bytesBlob rfl (by decide))⟩

end OpenVino.InferenceEngine.ShapeInfer
