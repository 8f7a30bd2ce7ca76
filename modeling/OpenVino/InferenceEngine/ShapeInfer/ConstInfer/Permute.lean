import OpenVino.InferenceEngine.Parallel
import OpenVino.InferenceEngine.SetDims
import OpenVino.InferenceEngine.ShapeInfer.ConstInfer.ByteBlobs

/-!
# Permutation of constants

`PermuteConstInfer` gives the output a descriptor with the dimensions of the input, whose blocks are these dimensions in
the order of the permutation. The offset of an index vector in it is the number that the permuted vector has in the
permuted dimensions (`offset_permuted`), so an element goes to the permuted place (`permute_eq`), and the inverse
permutation brings it back (`permute_inverse`).
-/

namespace OpenVino.InferenceEngine

/-- The calls that the threads of `parallel_for(n, func)` make, in the order in which they get to them. -/
def ParallelCalls (nthr n : Nat) (calls : List Nat) : Prop :=
  calls.Perm ((List.range nthr).flatMap fun (ithr : Nat) => (for_1d ithr nthr n).flatten)

theorem ParallelCalls.perm {nthr n : Nat} {calls : List Nat} (h : ParallelCalls nthr n calls) (hnthr : 1 ≤ nthr)
    (hfits : n + nthr ≤ 2 ^ 64) : calls.Perm (List.range n) := by
  obtain ⟨f, hzero, hend, hmono, hsplit⟩ := exists_parts hnthr hfits
  have hparts : (List.range nthr).flatMap (fun (ithr : Nat) => (for_1d ithr nthr n).flatten) =
      (List.range nthr).flatMap fun ithr => List.range' (f ithr) (f (ithr + 1) - f ithr) := by
    refine List.flatMap_congr fun ithr hithr => ?_
    rw [for_1d, hsplit ithr (List.mem_range.mp hithr)]
    exact List.flatMap_singleton' _
  rw [ParallelCalls, hparts, flatMap_range' hzero hmono, hend] at h
  exact h

namespace ShapeInfer.PermuteConstInfer

/-- `inferImpl`, with the attribute `order` as `GetParamAsInts` reads it; `calls` is what `parallel_for` calls. -/
def inferImpl (order : Option (List Int)) (calls : List Nat) (inData outData : List ByteBlob) :
    Result (List ByteBlob) :=
  match outData with
  | [] => throwException "Incorrect number of input/output edges!"
  | outBlob :: outData =>
    match inData with
    | [inBlob] => do
      if inBlob.tensorDesc.precision ≠ outBlob.tensorDesc.precision then
        throwException "Input and output tensors should have same precision!"
      else
        let layerOrder ← (match order with
          | some layerOrder => return layerOrder
          | none => throwException "No such parameter name 'order' for layer ")
        let order := layerOrder.map toSizeT
        let srcDesc := inBlob.tensorDesc
        let orderedDims ← order.mapM fun (ord : Nat) => elemAt "dims[ord]" srcDesc.dims ord
        let blockDesc ← BlockingDesc.ofOrder orderedDims order
        let dstDesc ← TensorDesc.ofBlocking .FP32 srcDesc.dims blockDesc
        let dst_data ← calls.foldlM (fun dst_data i => do
          let dst ← dstDesc.offsetAt i
          let src ← srcDesc.offsetAt i
          memcpy dst_data (toSizeT (dst * outBlob.element_size : Nat)) inBlob.memory
            (toSizeT (src * inBlob.element_size : Nat)) inBlob.element_size) outBlob.memory
        return { outBlob with buffer := some dst_data } :: outData
    | _ => throwException "Incorrect number of input edges!"

end ShapeInfer.PermuteConstInfer

namespace ShapeInfer

variable {order shape v w : SizeVector} {t : TensorDesc} {precision : Precision} {blob : ByteBlob}
  {bytes : List (BitVec 8)} {i n : Nat}

/-! ### Permuted vectors -/

/-- The entries in the order of the permutation. -/
def permuted (order v : SizeVector) : SizeVector := order.map (v.getD · 0)

theorem permuted_range (h : v.length = n) : permuted (List.range n) v = v := by
  apply List.ext_getElem
  · rw [permuted, List.length_map, List.length_range, h]
  · intro i hi hi'
    simp [permuted, hi']

theorem perm_permuted (h : order.Perm (List.range shape.length)) : (permuted order shape).Perm shape := by
  have hperm := h.map (shape.getD · 0)
  have hself := @permuted_range shape shape.length rfl
  rw [permuted] at hself
  rwa [hself] at hperm

theorem permuted_mem_box (h : order.Perm (List.range shape.length)) (hv : v ∈ box shape) :
    permuted order v ∈ box (permuted order shape) := by
  rw [mem_box, permuted, permuted, List.forall₂_map_left_iff, List.forall₂_map_right_iff, List.forall₂_same]
  intro d hd
  exact TensorDesc.coord_lt hv d (List.mem_range.mp (h.mem_iff.mp hd))

theorem permuted_injective (h : order.Perm (List.range shape.length)) (hv : v ∈ box shape) (hw : w ∈ box shape)
    (heq : permuted order v = permuted order w) : v = w := by
  refine TensorDesc.coord_ext hv hw fun d => ?_
  by_cases hd : d < shape.length
  · exact List.map_inj_left.mp heq d (h.mem_iff.mpr (List.mem_range.mpr hd))
  · have hlv := (mem_box.mp hv).length_eq
    have hlw := (mem_box.mp hw).length_eq
    rw [List.getD_eq_default _ _ (by omega), List.getD_eq_default _ _ (by omega)]

/-! ### Offsets -/

/-- The descriptor has these dimensions, and the blocks are these in this order, without padding. -/
structure Ordered (t : TensorDesc) (order shape : SizeVector) : Prop where
  layout : t.layout ≠ .ANY ∧ t.layout ≠ .SCALAR
  dims : t.dims = shape
  blocks : t.blockingDesc = .filled (permuted order shape) order

theorem Ordered.radices (h : Ordered t order shape) :
    t.radices = order.map fun d => (d, shape.getD d 0) := by
  rw [TensorDesc.radices, h.blocks]
  exact List.map_prod_left_eq_zip.symm

/-- The offset of an index vector is the number of the permuted vector. -/
theorem Ordered.offset_permuted (h : Ordered t order shape) (hperm : order.Perm (List.range shape.length))
    (hsmall : shape.prod < 2 ^ 64) (hv : v ∈ box shape) :
    t.offset v = .ok (encode (permuted order shape) (permuted order v)) := by
  have hradices := h.radices
  have hmem : ∀ d ∈ order, d < shape.length := fun d hd => List.mem_range.mp (hperm.mem_iff.mp hd)
  have hin : ∀ b ∈ t.radices, b.1 < shape.length ∧ v.getD b.1 0 < b.2 := by
    rw [hradices, List.forall_mem_map]
    exact fun d hd => ⟨hmem d hd, TensorDesc.coord_lt hv d (hmem d hd)⟩
  have hdense : t.Dense := TensorDesc.dense_filled h.layout h.blocks (by rw [permuted, List.length_map])
  have hfilled : t.blockingDesc = .filled t.blockingDesc.blockedDims t.blockingDesc.order := by rw [h.blocks]; rfl
  have hoffset := TensorDesc.offset_filled hdense hfilled (fun b hb => (hin b hb).1)
    (fun b hb => (Nat.zero_le _).trans_lt (hin b hb).2) (mem_box.mp hv).length_eq
  have hnodup : (t.radices.map Prod.fst).Nodup := by
    have hfst : t.radices.map Prod.fst = order := by
      rw [hradices, List.map_map]
      exact List.map_id order
    rw [hfst]
    exact hperm.nodup_iff.mpr List.nodup_range
  have hdigits : t.digits v = permuted order v := by
    rw [TensorDesc.digits, splitDigits_of_nodup hnodup fun b hb => (hin b hb).2, hradices, List.map_map]
    rfl
  have hblocked : t.blockingDesc.blockedDims = permuted order shape := by rw [h.blocks]; rfl
  have hlt := encode_lt (mem_box.mp (permuted_mem_box hperm hv))
  rw [(perm_permuted hperm).prod_eq] at hlt
  rw [hoffset, hdigits, hblocked, Nat.mod_eq_of_lt (hlt.trans hsmall)]

/-- The descriptor that the output gets. -/
theorem exists_dstDesc (h : order.Perm (List.range shape.length)) (hsmall : shape.prod < 2 ^ 64) :
    ∃ d t, BlockingDesc.ofOrder (permuted order shape) order = .ok d ∧ TensorDesc.ofBlocking .FP32 shape d = .ok t ∧
      t.dims = shape ∧
      ∀ v ∈ box shape, t.offset v = .ok (encode (permuted order shape) (permuted order v)) := by
  have hlength : order.length = shape.length := by rw [h.length_eq, List.length_range]
  by_cases hnil : shape = []
  · subst hnil
    obtain rfl := List.length_eq_zero_iff.mp hlength
    refine ⟨_, _, rfl, rfl, rfl, fun v hv => ?_⟩
    obtain rfl := List.length_eq_zero_iff.mp (mem_box.mp hv).length_eq
    rfl
  · have horder : order ≠ [] := by
      intro heq
      rw [heq, List.length_nil] at hlength
      exact hnil (List.length_eq_zero_iff.mp hlength.symm)
    have hblocked : permuted order shape ≠ [] := by rwa [permuted, Ne, List.map_eq_nil_iff]
    have hd : BlockingDesc.ofOrder (permuted order shape) order = .ok (.filled (permuted order shape) order) := by
      rw [BlockingDesc.ofOrder, if_neg (by simp [horder, hblocked]), BlockingDesc.fillDesc,
        if_neg (by rw [permuted, List.length_map]; exact not_not.mpr rfl), if_neg (by simp [horder, hblocked])]
      rfl
    have hmax : order.max? = some (shape.length - 1) := by
      rw [List.max?_eq_some_iff]
      have hpos := List.length_pos_iff.mpr hnil
      refine ⟨h.mem_iff.mpr (List.mem_range.mpr (by omega)), fun d hd => ?_⟩
      have := List.mem_range.mp (h.mem_iff.mp hd)
      omega
    have ht : TensorDesc.ofBlocking .FP32 shape (.filled (permuted order shape) order) = .ok {
        layout := TensorDesc.detectLayout shape (.filled (permuted order shape) order), dims := shape,
        precision := .FP32, blockingDesc := .filled (permuted order shape) order } := by
      have hpos := List.length_pos_iff.mpr hnil
      have hfilled : (BlockingDesc.filled (permuted order shape) order).blockedDims = permuted order shape := rfl
      have horder' : (BlockingDesc.filled (permuted order shape) order).order = order := rfl
      rw [TensorDesc.ofBlocking, hfilled, if_neg (by simp [hnil, hblocked]), horder', hmax]
      dsimp only
      rw [if_neg (by omega)]
      rfl
    refine ⟨_, _, hd, ht, rfl, fun v hv => ?_⟩
    exact Ordered.offset_permuted ⟨TensorDesc.detectLayout_ne, rfl, rfl⟩ h hsmall hv

/-! ### The copies -/

/-- The elements lie one behind the other, in the order of their index vectors. -/
structure IsDense (blob : ByteBlob) (precision : Precision) (shape : SizeVector) (bytes : List (BitVec 8)) : Prop where
  stores : Stores blob precision shape bytes
  scalar : shape = [] → blob.tensorDesc.layout = .SCALAR
  rowMajor : ∀ v ∈ box shape, blob.tensorDesc.offset v = .ok (encode shape v)

theorem IsDense.size (h : IsDense blob precision shape bytes) (hs : 0 < precision.typeSize) : blob.size = shape.prod := by
  by_cases hnil : shape = []
  · rw [Blob.size, if_pos (h.scalar hnil), hnil, List.prod_nil]
  · exact h.stores.size hs hnil

theorem IsDense.offsetAt (h : IsDense blob precision shape bytes) (hi : i < shape.prod) :
    blob.tensorDesc.offsetAt i = .ok i := by
  have hdims := h.stores.dims
  have hi' : i < blob.tensorDesc.dims.prod := by rwa [hdims]
  rw [TensorDesc.offsetAt_eq hi', hdims, h.rowMajor _ (decode_mem_box hi), encode_decode, Nat.mod_eq_of_lt hi]

/-- Where the element with this number goes. -/
def target (order shape : SizeVector) (i : Nat) : Nat := encode (permuted order shape) (permuted order (decode shape i))

theorem target_lt (h : order.Perm (List.range shape.length)) (hi : i < shape.prod) : target order shape i < shape.prod := by
  have hlt := encode_lt (mem_box.mp (permuted_mem_box h (decode_mem_box hi)))
  rwa [(perm_permuted h).prod_eq] at hlt

theorem target_injOn (h : order.Perm (List.range shape.length)) {j : Nat} (hi : i < shape.prod) (hj : j < shape.prod)
    (heq : target order shape i = target order shape j) : i = j := by
  have hvi := decode_mem_box hi
  have hvj := decode_mem_box hj
  have hpi := mem_box.mp (permuted_mem_box h hvi)
  have hpj := mem_box.mp (permuted_mem_box h hvj)
  have hvectors : permuted order (decode shape i) = permuted order (decode shape j) := by
    rw [← decode_encode hpi, ← decode_encode hpj]
    exact congrArg _ heq
  have hdigits := permuted_injective h hvi hvj hvectors
  rw [← Nat.mod_eq_of_lt hi, ← Nat.mod_eq_of_lt hj, ← encode_decode, ← encode_decode, hdigits]

section Permute

variable {layerOrder inverse : List Int} {order' : SizeVector} {inBlob outBlob : ByteBlob}
  {old : List (BitVec 8)} {nthr : Nat} {calls : List Nat}

/-- The element of an index vector goes to the permuted vector. -/
theorem PermuteConstInfer.permute_eq (hs : 0 < precision.typeSize) (hattr : layerOrder.map toSizeT = order)
    (horder : order.Perm (List.range shape.length)) (hin : IsDense inBlob precision shape bytes)
    (hout : IsDense outBlob precision (permuted order shape) old) (hcalls : calls.Perm (List.range shape.prod)) :
    ∃ bytes', inferImpl (some layerOrder) calls [inBlob] [outBlob] = .ok [{ outBlob with buffer := some bytes' }] ∧
      bytes'.length = old.length ∧
      ∀ v ∈ box shape, rowAt precision.typeSize bytes' (encode (permuted order shape) (permuted order v)) =
        rowAt precision.typeSize bytes (encode shape v) := by
  set s := precision.typeSize with hsize
  have hprod : (permuted order shape).prod = shape.prod := (perm_permuted horder).prod_eq
  have hbytes : bytes.length = shape.prod * s := hin.stores.length
  have hold : old.length = shape.prod * s := by rw [hout.stores.length, hprod]
  have hsmall := hin.stores.prod_lt hs
  have hlt : ∀ i ∈ calls, i < shape.prod := fun i hi => List.mem_range.mp (hcalls.mem_iff.mp hi)
  have hfits : ∀ {i}, i < shape.prod → (i + 1) * s ≤ shape.prod * s := fun hi => Nat.mul_le_mul_right s hi
  have hnodup : (calls.map (target order shape)).Nodup :=
    (hcalls.nodup_iff.mpr List.nodup_range).map_on fun i hi j hj heq => target_injOn horder (hlt i hi) (hlt j hj) heq
  obtain ⟨d, t, hd, ht, hdims, hoffset⟩ := exists_dstDesc horder (by omega)
  obtain ⟨bytes', hrun, hlength, hcopied, -⟩ := @foldlM_memcpy old bytes s _ calls (target order shape) (fun i => i)
    hnodup (fun i hi => hold ▸ hfits (target_lt horder (hlt i hi))) (fun i hi => hbytes ▸ hfits (hlt i hi))
  have hdst : ∀ i < shape.prod, t.offsetAt i = .ok (target order shape i) := by
    intro i hi
    rw [← hdims] at hi
    rw [TensorDesc.offsetAt_eq hi, hdims, hoffset _ (decode_mem_box (hdims ▸ hi))]
    rfl
  have hbody : ∀ (out : List (BitVec 8)), ∀ i ∈ calls, (do
      let dst ← t.offsetAt i
      let src ← inBlob.tensorDesc.offsetAt i
      memcpy out (toSizeT (dst * outBlob.element_size : Nat)) inBlob.memory
        (toSizeT (src * inBlob.element_size : Nat)) inBlob.element_size) =
      memcpy out (target order shape i * s) bytes (i * s) s := by
    intro out i hi
    have hdstSmall : target order shape i * s < 2 ^ 64 := by
      have hle := hfits (target_lt horder (hlt i hi))
      have := hin.stores.small
      rw [Nat.succ_mul] at hle
      omega
    have hsrcSmall : i * s < 2 ^ 64 := by
      have hle := hfits (hlt i hi)
      have := hin.stores.small
      rw [Nat.succ_mul] at hle
      omega
    rw [hdst i (hlt i hi), hin.offsetAt (hlt i hi), ok_bind, ok_bind, hin.stores.element_size, hout.stores.element_size,
      hin.stores.memory, ← hsize, toSizeT_natCast hdstSmall, toSizeT_natCast hsrcSmall]
  have horderedDims : order.mapM (fun (ord : Nat) => elemAt "dims[ord]" shape ord) = .ok (permuted order shape) := by
    refine mapM_eq_map fun ord hord => ?_
    have hord := List.mem_range.mp (horder.mem_iff.mp hord)
    rw [elemAt_eq hord, List.getD_eq_getElem _ _ hord]
  refine ⟨bytes', ?_, hlength, fun v hv => ?_⟩
  · unfold inferImpl
    dsimp only
    rw [if_neg (by rw [hin.stores.element, hout.stores.element]; exact not_not.mpr rfl), pure_bind, hattr,
      hin.stores.dims, horderedDims, ok_bind, hd, ok_bind, ht, ok_bind, hout.stores.memory,
      foldlM_congr hbody, hrun]
    rfl
  · have hv' := mem_box.mp hv
    have hlt' := encode_lt hv'
    have hcopy := hcopied (encode shape v) (hcalls.mem_iff.mpr (List.mem_range.mpr hlt'))
    rwa [target, decode_encode hv'] at hcopy

theorem IsDense.write {bytes' : List (BitVec 8)} (h : IsDense blob precision shape bytes)
    (hlength : bytes'.length = bytes.length) : IsDense { blob with buffer := some bytes' } precision shape bytes' :=
  ⟨h.stores.write hlength, h.scalar, h.rowMajor⟩

/-- The order `order'` after the order `order`. -/
theorem permuted_permuted (horder : order.Perm (List.range n)) (horder' : order'.Perm (List.range n))
    (hinverse : permuted order' order = List.range n) (hv : v.length = n) : permuted order' (permuted order v) = v := by
  have hlength : order.length = n := by rw [horder.length_eq, List.length_range]
  have hcomp : permuted order' (permuted order v) = permuted (permuted order' order) v := by
    rw [permuted, permuted, permuted, permuted, List.map_map]
    refine List.map_congr_left fun d hd => ?_
    have hd : d < order.length := hlength ▸ List.mem_range.mp (horder'.mem_iff.mp hd)
    rw [Function.comp_apply, List.getD_eq_getElem _ _ (by rwa [List.length_map]), List.getElem_map,
      List.getD_eq_getElem _ _ hd]
  rw [hcomp, hinverse, permuted_range hv]

/-- **Permuting constants transposes them.** With dense blobs and any number of threads the element at `v` comes to the
index `(v[order[0]], .., v[order[n - 1]])` of the output, and permuting the output by the inverse order gives the
elements of the input. -/
theorem permute_transposes (hs : 0 < precision.typeSize) (hattr : layerOrder.map toSizeT = order)
    (horder : order.Perm (List.range shape.length)) (hin : IsDense inBlob precision shape bytes)
    (hout : IsDense outBlob precision (permuted order shape) old) (hnthr : 1 ≤ nthr ∧ nthr < 2 ^ 31)
    (hcalls : ParallelCalls nthr inBlob.size calls) :
    ∃ result bytes', PermuteConstInfer.inferImpl (some layerOrder) calls [inBlob] [outBlob] = .ok [result] ∧
      IsDense result precision (permuted order shape) bytes' ∧
      (∀ v ∈ box shape, rowAt precision.typeSize bytes' (encode (permuted order shape) (permuted order v)) =
        rowAt precision.typeSize bytes (encode shape v)) ∧
      ∀ {backBlob : ByteBlob} {old' : List (BitVec 8)} {nthr' : Nat} {calls' : List Nat},
        inverse.map toSizeT = order' → order'.Perm (List.range shape.length) →
        permuted order' order = List.range shape.length → IsDense backBlob precision shape old' →
        1 ≤ nthr' ∧ nthr' < 2 ^ 31 → ParallelCalls nthr' result.size calls' →
        ∃ back, PermuteConstInfer.inferImpl (some inverse) calls' [result] [backBlob] = .ok [back] ∧
          IsDense back precision shape bytes := by
  have hsmall := hin.stores.prod_lt hs
  have hprod : (permuted order shape).prod = shape.prod := (perm_permuted horder).prod_eq
  rw [hin.size hs] at hcalls
  obtain ⟨bytes', hrun, hlength, hcopied⟩ :=
    PermuteConstInfer.permute_eq hs hattr horder hin hout (hcalls.perm hnthr.1 (by omega))
  have hresult := hout.write hlength
  refine ⟨_, bytes', hrun, hresult, hcopied, ?_⟩
  intro backBlob old' nthr' calls' hattr' horder' hinverse hback hnthr' hcalls'
  have hrank : (permuted order shape).length = shape.length := (perm_permuted horder).length_eq
  have hshape : permuted order' (permuted order shape) = shape := permuted_permuted horder horder' hinverse rfl
  rw [hresult.size hs] at hcalls'
  have hback' : IsDense backBlob precision (permuted order' (permuted order shape)) old' := by rwa [hshape]
  obtain ⟨bytes'', hrun', hlength', hcopied'⟩ := PermuteConstInfer.permute_eq hs hattr' (by rwa [hrank]) hresult hback'
    (hcalls'.perm hnthr'.1 (by omega))
  refine ⟨_, hrun', ?_⟩
  -- every element has gone there and back
  have helements : ∀ i < shape.prod, rowAt precision.typeSize bytes'' i = rowAt precision.typeSize bytes i := by
    intro i hi
    have hv := decode_mem_box hi
    have hthere := hcopied _ hv
    have hhere := hcopied' _ (permuted_mem_box horder hv)
    rw [permuted_permuted horder horder' hinverse (mem_box.mp hv).length_eq, hshape, hthere, encode_decode,
      Nat.mod_eq_of_lt hi] at hhere
    exact hhere
  have hbytes'' : bytes''.length = shape.prod * precision.typeSize := hlength'.trans hback.stores.length
  have hsame := eq_of_rows_eq hbytes'' hin.stores.length helements
  have hfinal := hback.write hlength'
  rwa [hsame] at hfinal ⊢

theorem Ordered.isDense (h : Ordered blob.tensorDesc (List.range shape.length) shape) (hne : shape ≠ [])
    (hsmall : shape.prod < 2 ^ 64) (hstores : Stores blob precision shape bytes) : IsDense blob precision shape bytes := by
  refine ⟨hstores, fun hnil => absurd hnil hne, fun v hv => ?_⟩
  rw [h.offset_permuted (List.Perm.refl _) hsmall hv, permuted_range rfl, permuted_range (mem_box.mp hv).length_eq]

/-- Three axes of bytes. -/
def cubeBlob (shape : SizeVector) (bytes : List (BitVec 8)) : ByteBlob where
  tensorDesc := {
    precision := .U8
    dims := shape
    layout := .CHW
    blockingDesc := .filled shape (List.range shape.length) }
  buffer := some bytes

theorem isDense_cubeBlob (hne : shape ≠ []) (hlength : bytes.length = shape.prod) (hsmall : bytes.length < 2 ^ 63) :
    IsDense (cubeBlob shape bytes) .U8 shape bytes := by
  have hstores : Stores (cubeBlob shape bytes) .U8 shape bytes := by
    refine ⟨rfl, rfl, fun hscalar => ?_, rfl, ?_, hsmall⟩
    · cases hscalar
    · rw [hlength]
      exact (Nat.mul_one _).symm
  have hlayout : (cubeBlob shape bytes).tensorDesc.layout = .CHW := rfl
  refine Ordered.isDense ⟨?_, rfl, ?_⟩ hne (by omega) hstores
  · rw [hlayout]
    decide
  · rw [permuted_range rfl]
    rfl

/-- The three axes in turn, which is not its own inverse, with two threads. -/
theorem permute_transposes_turn :
    ∃ result bytes', PermuteConstInfer.inferImpl (some [1, 2, 0]) [0, 3, 1, 4, 2, 5]
        [cubeBlob [2, 1, 3] [1, 2, 3, 4, 5, 6]] [cubeBlob [1, 3, 2] [0, 0, 0, 0, 0, 0]] = .ok [result] ∧
      IsDense result .U8 [1, 3, 2] bytes' ∧
      (∀ v ∈ box [2, 1, 3], rowAt 1 bytes' (encode [1, 3, 2] (permuted [1, 2, 0] v)) =
        rowAt 1 [1, 2, 3, 4, 5, 6] (encode [2, 1, 3] v)) ∧
      ∃ back, PermuteConstInfer.inferImpl (some [2, 0, 1]) [0, 1, 2, 3, 4, 5] [result]
          [cubeBlob [2, 1, 3] [0, 0, 0, 0, 0, 0]] = .ok [back] ∧
        IsDense back .U8 [2, 1, 3] [1, 2, 3, 4, 5, 6] := by
  have hin : IsDense (cubeBlob [2, 1, 3] [1, 2, 3, 4, 5, 6]) .U8 [2, 1, 3] [1, 2, 3, 4, 5, 6] :=
    isDense_cubeBlob (by decide) rfl (by decide)
  have hout : IsDense (cubeBlob [1, 3, 2] [0, 0, 0, 0, 0, 0]) .U8 (permuted [1, 2, 0] [2, 1, 3]) [0, 0, 0, 0, 0, 0] :=
    isDense_cubeBlob (by decide) rfl (by decide)
  have hcalls : ParallelCalls 2 (cubeBlob [2, 1, 3] [1, 2, 3, 4, 5, 6]).size [0, 3, 1, 4, 2, 5] := by
    unfold ParallelCalls
    decide
  obtain ⟨result, bytes', hrun, hdense, hmoved, hback⟩ := @permute_transposes [1, 2, 0] [2, 1, 3] .U8
    [1, 2, 3, 4, 5, 6] [1, 2, 0] [2, 0, 1] [2, 0, 1] (cubeBlob [2, 1, 3] [1, 2, 3, 4, 5, 6])
    (cubeBlob [1, 3, 2] [0, 0, 0, 0, 0, 0]) [0, 0, 0, 0, 0, 0] 2 [0, 3, 1, 4, 2, 5] (by decide) rfl (by decide)
    hin hout (by decide) hcalls
  refine ⟨result, bytes', hrun, hdense, hmoved, ?_⟩
  have hone : ParallelCalls 1 result.size [0, 1, 2, 3, 4, 5] := by
    rw [hdense.size (by decide)]
    unfold ParallelCalls
    decide
  exact hback rfl (by decide) rfl (isDense_cubeBlob (by decide) rfl (by decide)) (by decide) hone

end Permute

end ShapeInfer

end OpenVino.InferenceEngine
