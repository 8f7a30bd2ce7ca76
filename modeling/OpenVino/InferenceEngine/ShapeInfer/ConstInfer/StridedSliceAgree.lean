import OpenVino.InferenceEngine.ShapeInfer.ConstInfer.StridedSliceAxes

/-!
# The fast loops of the strided slice

`strided_slice_p` and `strided_slice_vp` write what `strided_slice` writes as long as the elements keep their size in
the rows that the second one copies, and the threads start at numbers in `int`, or at counters that stand for the same
places (`loops_agree_iff`).
-/

namespace OpenVino.InferenceEngine.ShapeInfer.StridedSliceHelper

variable {h : StridedSliceHelper} {c : Conversion} {p q : Precision} {bytes old out : List (BitVec 8)}
  {copies : List (Nat × Int)} {total n L i k nthr : Nat}

/-! ### Writing -/

theorem conversion_cases (hc : conversion p q = some c) :
    c.size = 4 ∧ c.convert = id ∨ c.size = 8 ∧ c.convert = signExtend := by
  unfold conversion at hc
  split at hc
  · obtain rfl := Option.some.inj hc
    exact .inl ⟨rfl, rfl⟩
  · obtain rfl := Option.some.inj hc
    exact .inl ⟨rfl, rfl⟩
  · obtain rfl := Option.some.inj hc
    exact .inr ⟨rfl, rfl⟩
  · cases hc

theorem length_convert (hc : conversion p q = some c) {b : List (BitVec 8)} (hb : b.length = 4) :
    (c.convert b).length = c.size := by
  rcases conversion_cases hc with ⟨hsize, hconvert⟩ | ⟨hsize, hconvert⟩
  · rw [hconvert, hsize]
    exact hb
  · rw [hconvert, hsize, signExtend, List.length_append, hb, List.length_replicate]

theorem convert_injective (hc : conversion p q = some c) {a b : List (BitVec 8)} (ha : a.length = 4) (hb : b.length = 4)
    (heq : c.convert a = c.convert b) : a = b := by
  rcases conversion_cases hc with ⟨-, hconvert⟩ | ⟨-, hconvert⟩
  · rwa [hconvert] at heq
  · rw [hconvert, signExtend, signExtend] at heq
    exact List.append_inj_left heq (ha.trans hb.symm)

/-- A source index that is inside. -/
theorem readBytes_eq {x : Int} (hbytes : bytes.length = total * 4) (hx : 0 ≤ x) (hlt : x + L ≤ total) :
    readBytes bytes (((0 : Nat) + x) * 4) (4 * L : Nat) = .ok ((bytes.drop (x.toNat * 4)).take (L * 4)) := by
  have hstart : (((0 : Nat) + x) * 4).toNat = x.toNat * 4 := by omega
  rw [readBytes, if_pos (by rw [hbytes]; push_cast; omega), hstart, Nat.mul_comm 4]
  rfl

/-- Where a source index is read, it is inside. -/
theorem inside_of_readBytes {x : Int} {r : List (BitVec 8)} (hbytes : bytes.length = total * 4)
    (hread : readBytes bytes (((0 : Nat) + x) * 4) (4 * L : Nat) = .ok r) : 0 ≤ x ∧ x + L ≤ total := by
  unfold readBytes at hread
  split_ifs at hread with hinside
  · rw [hbytes] at hinside
    push_cast at hinside
    omega

/-- Elements written one by one. -/
theorem exists_assigned (hc : conversion p q = some c) (hbytes : bytes.length = total * 4)
    (hold : old.length = n * c.size) (hcopies : (copies.map Prod.fst).Perm (List.range n))
    (hinside : ∀ copy ∈ copies, 0 ≤ copy.2 ∧ copy.2 < total) :
    ∃ out, copies.foldlM (assignElement c 0 0 bytes) old = .ok out ∧ out.length = n * c.size ∧
      ∀ copy ∈ copies, rowAt c.size out copy.1 = c.convert (rowAt 4 bytes copy.2.toNat) := by
  have hdst : ∀ copy ∈ copies, (copy.1 + 1) * c.size ≤ old.length := by
    intro copy hcopy
    have hlt := List.mem_range.mp (hcopies.mem_iff.mp (List.mem_map_of_mem hcopy))
    rw [hold]
    exact Nat.mul_le_mul_right c.size hlt
  have hrow : ∀ copy ∈ copies, (c.convert (rowAt 4 bytes copy.2.toNat)).length = c.size := by
    intro copy hcopy
    have := hinside copy hcopy
    exact length_convert hc (length_rowAt (by omega))
  have hwrite : ∀ out : List (BitVec 8), out.length = old.length → ∀ copy ∈ copies,
      assignElement c 0 0 bytes out copy =
      .ok (overlay out (copy.1 * c.size) (c.convert (rowAt 4 bytes copy.2.toNat))) := by
    intro out hout copy hcopy
    have hx := hinside copy hcopy
    have hread := @readBytes_eq bytes total 1 copy.2 hbytes hx.1 (by omega)
    have hle := hdst copy hcopy
    rw [Nat.succ_mul] at hle
    rw [Nat.mul_one] at hread
    unfold assignElement
    rw [hread, ok_bind, writeBytes, Nat.zero_add, ← rowAt, hrow copy hcopy, if_pos (by omega)]
    rfl
  obtain ⟨out, hrun, hlength, hwritten, -⟩ :=
    foldlM_overlay (hcopies.nodup_iff.mpr List.nodup_range) hdst hrow hwrite
  exact ⟨out, hrun, hlength.trans hold, hwritten⟩

/-- Rows of elements of the same size. -/
theorem exists_rows (hsize : c.size = 4) (hbytes : bytes.length = total * 4) (hL : 0 < L)
    (hold : old.length = n * L * 4) (hcopies : (copies.map Prod.fst).Perm ((List.range n).map (· * L)))
    (hinside : ∀ copy ∈ copies, 0 ≤ copy.2 ∧ copy.2 + L ≤ total) :
    ∃ out, copies.foldlM (copyRowOf c L 0 0 bytes) old = .ok out ∧ out.length = n * L * 4 ∧
      ∀ copy ∈ copies, rowAt (L * 4) out (copy.1 / L) = (bytes.drop (copy.2.toNat * 4)).take (L * 4) := by
  have hback : ∀ copy ∈ copies, copy.1 / L * L = copy.1 ∧ copy.1 / L < n := by
    intro copy hcopy
    obtain ⟨r, hr, hfst⟩ := List.mem_map.mp (hcopies.mem_iff.mp (List.mem_map_of_mem hcopy))
    rw [← hfst, Nat.mul_div_cancel r hL]
    exact ⟨rfl, List.mem_range.mp hr⟩
  have hdst : ∀ copy ∈ copies, (copy.1 / L + 1) * (L * 4) ≤ old.length := by
    intro copy hcopy
    rw [hold, Nat.mul_assoc]
    exact Nat.mul_le_mul_right (L * 4) (hback copy hcopy).2
  have hrow : ∀ copy ∈ copies, ((bytes.drop (copy.2.toNat * 4)).take (L * 4)).length = L * 4 := by
    intro copy hcopy
    have := hinside copy hcopy
    rw [List.length_take, List.length_drop]
    omega
  have hnodup : (copies.map fun copy => copy.1 / L).Nodup := by
    have hmap := hcopies.map (· / L)
    rw [List.map_map, List.map_map] at hmap
    have hid : (· / L) ∘ (· * L) = (id : Nat → Nat) := funext fun r => Nat.mul_div_cancel r hL
    rw [hid, List.map_id] at hmap
    exact hmap.nodup_iff.mpr List.nodup_range
  have hwrite : ∀ out : List (BitVec 8), out.length = old.length → ∀ copy ∈ copies,
      copyRowOf c L 0 0 bytes out copy =
      .ok (overlay out (copy.1 / L * (L * 4)) ((bytes.drop (copy.2.toNat * 4)).take (L * 4))) := by
    intro out hout copy hcopy
    obtain ⟨hx, hlt⟩ := hinside copy hcopy
    have hle := hdst copy hcopy
    have hplace : copy.1 * 4 = copy.1 / L * (L * 4) := by rw [← Nat.mul_assoc, (hback copy hcopy).1]
    have hread := readBytes_eq hbytes hx hlt
    rw [Nat.succ_mul] at hle
    unfold copyRowOf
    rw [hread, ok_bind, writeBytes, Nat.zero_add, hsize, hplace, hrow copy hcopy, if_pos (by omega)]
    rfl
  obtain ⟨out, hrun, hlength, hwritten, -⟩ := foldlM_overlay hnodup hdst hrow hwrite
  exact ⟨out, hrun, hlength.trans hold, hwritten⟩

/-! ### The axes of the threads -/

/-- The axes of the helper, with the sizes of its output. -/
def zipAxes (h : StridedSliceHelper) : List SliceAxis :=
  (h.dms.zip (h.our_dims.zip h.srcStrides)).map fun a => { dms := a.1, dst_dim := a.2.1, srcStride := a.2.2 }

section Axes

variable (hh : h.Straight)

include hh

theorem length_zipAxes : h.zipAxes.length = h.max_dims := by
  rw [zipAxes, List.length_map, List.length_zip, List.length_zip, hh.dms, hh.our_dims, hh.srcStrides, min_self,
    min_self]

theorem threadAxes_eq {m : Nat} (hm : m ≤ h.max_dims) : threadAxes h h.our_dims m = .ok (h.zipAxes.take m) := by
  have hdms := hh.dms
  have hour := hh.our_dims
  have hstrides := hh.srcStrides
  have hlength := length_zipAxes hh
  have helem : ∀ j ∈ List.range m, (do
      let dst_dim ← elemAt "dst_dims[j]" h.our_dims (j : Nat)
      let dms ← elemAt "begin_dms[j]" h.dms (j : Nat)
      let srcStride ← elemAt "srcStrides[j]" h.srcStrides (j : Nat)
      return { dms, dst_dim, srcStride } : Result SliceAxis) =
        .ok ((h.zipAxes).getD j
          { dms := { begin_dms := 0, end_dms := 0, stride_dms := 0 }, dst_dim := 0, srcStride := 0 }) := by
    intro j hj
    have hj := List.mem_range.mp hj
    rw [elemAt_eq (show j < h.our_dims.length by omega), ok_bind, elemAt_eq (show j < h.dms.length by omega), ok_bind,
      elemAt_eq (show j < h.srcStrides.length by omega), ok_bind, List.getD_eq_getElem _ _ (by omega)]
    simp only [zipAxes, List.getElem_map, List.getElem_zip]
    rfl
  unfold threadAxes
  rw [mapM_eq_map helem]
  refine congrArg Except.ok (List.ext_getElem ?_ fun j hj hj' => ?_)
  · rw [List.length_map, List.length_range, List.length_take_of_le (by omega)]
  · rw [List.length_map, List.length_range] at hj
    rw [List.getElem_map, List.getElem_range, List.getElem_take, List.getD_eq_getElem]

theorem map_zipAxes : h.zipAxes.map SliceAxis.dms = h.dms ∧ h.zipAxes.map SliceAxis.dst_dim = h.our_dims ∧
    h.zipAxes.map SliceAxis.srcStride = h.srcStrides := by
  have hzip : (h.our_dims.zip h.srcStrides).length = h.max_dims := by
    rw [List.length_zip, hh.our_dims, hh.srcStrides, min_self]
  refine ⟨?_, ?_, ?_⟩
  · rw [zipAxes, List.map_map]
    exact List.map_fst_zip (by rw [hzip, hh.dms])
  · rw [zipAxes, List.map_map]
    refine Eq.trans ?_ (@List.map_fst_zip _ _ h.our_dims h.srcStrides (by rw [hh.our_dims, hh.srcStrides]))
    conv_rhs => rw [← @List.map_snd_zip _ _ h.dms (h.our_dims.zip h.srcStrides) (by rw [hzip, hh.dms]), List.map_map]
    rfl
  · rw [zipAxes, List.map_map]
    refine Eq.trans ?_ (@List.map_snd_zip _ _ h.our_dims h.srcStrides (by rw [hh.our_dims, hh.srcStrides]))
    conv_rhs => rw [← @List.map_snd_zip _ _ h.dms (h.our_dims.zip h.srcStrides) (by rw [hzip, hh.dms]), List.map_map]
    rfl

end Axes

/-! ### The selection -/

theorem selectLoop_ok {loop : Loop} (hloop : h.selectLoop = .ok loop) (hfast : loop ≠ .plain) :
    h.src_dims.length = h.max_dims ∧ h.shrink_axis = 0 ∧
      ∃ dms last, h.dms = dms ++ [last] ∧ (loop = .vp ∧ last.stride_dms = 1 ∧ dms ≠ [] ∨ loop = .p) := by
  unfold selectLoop at hloop
  split_ifs at hloop with hselect
  · obtain ⟨last, hlast, hloop⟩ := bind_ok_iff.mp hloop
    obtain ⟨hpos, hlast⟩ := elemAt_ok_iff.mp hlast
    have hne : h.dms ≠ [] := by
      intro hnil
      rw [hnil] at hpos
      exact absurd hpos (by decide)
    obtain ⟨dms, last', hdms⟩ := (List.eq_nil_or_concat h.dms).resolve_left hne
    rw [List.concat_eq_append] at hdms
    have hindex : ((h.dms.length : Int) - 1).toNat = dms.length := by
      rw [hdms, List.length_append, List.length_singleton]
      omega
    rw [hindex, hdms, List.getElem?_concat_length] at hlast
    obtain rfl := Option.some.inj hlast
    refine ⟨hselect.1, hselect.2, dms, last', hdms, ?_⟩
    rw [pure_ok_iff] at hloop
    split_ifs at hloop with hvp
    · refine .inl ⟨hloop.symm, hvp.1, fun hnil => ?_⟩
      have hlength := hvp.2
      rw [hdms, hnil] at hlength
      exact absurd hlength (lt_irrefl 1)
    · exact .inr hloop.symm
  · exact absurd (pure_ok_iff.mp hloop).symm hfast

/-- The axes that the threads count. -/
def fastAxes (h : StridedSliceHelper) : Loop → List SliceAxis
  | .vp => h.zipAxes.dropLast
  | .p | .plain => h.zipAxes

/-- The place of the axis that they do not count. -/
def fastStart (h : StridedSliceHelper) : Loop → Int
  | .vp => (h.dms.getLastD { begin_dms := 0, end_dms := 0, stride_dms := 0 }).begin_dms
  | .p | .plain => 0

/-- The length of a row. -/
def fastStep (h : StridedSliceHelper) : Loop → Nat
  | .vp => h.our_dims.getLastD 0
  | .p | .plain => 1

theorem exists_fillStrides_concat {D : SizeVector} (hne : D ≠ []) :
    ∃ strides, BlockingDesc.fillStrides D = strides ++ [1] := by
  induction D with
  | nil => exact absurd rfl hne
  | cons X D ih =>
    rcases D with _ | ⟨Y, D⟩
    · exact ⟨[], rfl⟩
    · obtain ⟨strides, hstrides⟩ := ih (List.cons_ne_nil Y D)
      obtain ⟨stride, hcons, -⟩ := @BlockingDesc.fillStrides_cons (Y :: D) X
      exact ⟨stride :: strides, by rw [hcons, hstrides, List.cons_append]⟩

theorem place_concat {dms : List Dms} {strides v : SizeVector} {d : Dms} {stride x : Nat}
    (hstrides : strides.length = dms.length) (hv : v.length = dms.length) :
    place (dms ++ [d]) (strides ++ [stride]) (v ++ [x]) = place dms strides v + axisPlace d stride x := by
  induction dms generalizing strides v with
  | nil =>
    obtain rfl := List.length_eq_zero_iff.mp hstrides
    obtain rfl := List.length_eq_zero_iff.mp hv
    exact add_comm _ _
  | cons a dms ih =>
    obtain ⟨y, strides, rfl⟩ := List.exists_cons_of_length_eq_add_one hstrides
    obtain ⟨z, v, rfl⟩ := List.exists_cons_of_length_eq_add_one hv
    rw [List.cons_append, List.cons_append, List.cons_append, place, place,
      ih (Nat.succ.inj hstrides) (Nat.succ.inj hv),
      add_assoc]

/-- What `wrapInt` keeps together as long as it stays at zero or above. -/
theorem wrapInt_consecutive {y : Int} (hpos : ∀ x < L, 0 ≤ wrapInt (y + (x : Nat))) :
    ∀ x < L, wrapInt (y + (x : Nat)) = wrapInt y + (x : Nat) := by
  intro x
  induction x with
  | zero => intro _; rw [Nat.cast_zero, add_zero, add_zero]
  | succ x ih =>
    intro hx
    have hprev := ih (by omega)
    have hnonneg := hpos (x + 1) hx
    have hprevnonneg := hpos x (by omega)
    have hcast : y + ((x + 1 : Nat) : Int) = y + (x : Nat) + 1 := by push_cast; ring
    rw [hcast, ← wrapInt_add] at hnonneg ⊢
    rw [hprev] at hnonneg hprevnonneg ⊢
    obtain ⟨-, hlt⟩ := @fitsInt_wrapInt (y + (x : Nat))
    rw [hprev] at hlt
    by_cases hlast : wrapInt y + (x : Nat) + 1 = 2 ^ 31
    · rw [hlast] at hnonneg
      exact absurd hnonneg (by decide)
    · rw [wrapInt_of_fits ⟨by omega, by omega⟩]
      push_cast
      ring

/-- What the fast loops rely on. -/
structure Fast (h : StridedSliceHelper) (loop : Loop) : Prop where
  straight : h.Straight
  fast : loop ≠ .plain
  selected : h.selectLoop = .ok loop
  dense : ∃ strides, h.srcStrides = strides ++ [1]
  start : ∀ d ∈ h.dms, FitsInt d.begin_dms

section Fast

variable {loop : Loop} (hf : h.Fast loop)

include hf

theorem Fast.fitsInt_start : FitsInt (h.fastStart loop) := by
  obtain ⟨-, -, dms, last, hdms, ⟨rfl, -, -⟩ | rfl⟩ := selectLoop_ok hf.selected hf.fast
  · rw [fastStart, hdms, List.getLastD_concat]
    exact hf.start last (by rw [hdms]; exact List.mem_append_right _ List.mem_cons_self)
  · exact ⟨by norm_num [fastStart], by norm_num [fastStart]⟩

/-- The last axis, which is copied in rows. -/
theorem Fast.vp_eq (hvp : loop = .vp) : ∃ dms last strides D L, h.dms = dms ++ [last] ∧
    h.srcStrides = strides ++ [1] ∧
    h.our_dims = D ++ [L] ∧ (strides.length = dms.length ∧ D.length = dms.length) ∧ last.stride_dms = 1 ∧
    threadDims (h.fastAxes loop) = D ∧ h.fastStart loop = last.begin_dms ∧ h.fastStep loop = L := by
  subst hvp
  have hlengthDms := hf.straight.dms
  have hlengthStrides := hf.straight.srcStrides
  have hlengthOur := hf.straight.our_dims
  obtain ⟨-, hour, -⟩ := map_zipAxes hf.straight
  obtain ⟨-, -, dms, last, hdms, ⟨-, hlast, -⟩ | hp⟩ := selectLoop_ok hf.selected hf.fast
  · obtain ⟨strides, hstrides⟩ := hf.dense
    rw [hdms, List.length_append, List.length_singleton] at hlengthDms
    rw [hstrides, List.length_append, List.length_singleton] at hlengthStrides
    obtain ⟨D, L, hD⟩ := (List.eq_nil_or_concat h.our_dims).resolve_left fun hnil => by
      rw [hnil, List.length_nil] at hlengthOur
      omega
    rw [List.concat_eq_append] at hD
    rw [hD, List.length_append, List.length_singleton] at hlengthOur
    refine ⟨dms, last, strides, D, L, hdms, hstrides, hD, ⟨by omega, by omega⟩, hlast, ?_, ?_, ?_⟩
    · rw [threadDims, fastAxes, List.map_dropLast, hour, hD, List.dropLast_concat]
    · rw [fastStart, hdms, List.getLastD_concat]
    · rw [fastStep, hD, List.getLastD_concat]
  · cases hp

theorem Fast.eq_p_of_ne (hne : loop ≠ .vp) : loop = .p := by
  obtain ⟨-, -, -, -, -, ⟨hvp, -, -⟩ | hp⟩ := selectLoop_ok hf.selected hf.fast
  · exact absurd hvp hne
  · exact hp

/-- The sizes along the axes that the threads count, and the length of a row. -/
theorem Fast.our_dims_eq : 0 ∉ threadDims (h.fastAxes loop) ∧ 0 < h.fastStep loop ∧
    h.our_dims.prod = (threadDims (h.fastAxes loop)).prod * h.fastStep loop := by
  have hpos := hf.straight.pos
  by_cases hvp : loop = .vp
  · obtain ⟨dms, last, strides, D, L, -, -, hD, -, -, hthread, -, hstep⟩ := hf.vp_eq hvp
    rw [hD, List.mem_append, List.mem_singleton, not_or] at hpos
    rw [hthread, hstep, hD, List.prod_append, List.prod_singleton]
    exact ⟨hpos.1, Nat.pos_of_ne_zero (Ne.symm hpos.2), rfl⟩
  · obtain ⟨-, hour, -⟩ := map_zipAxes hf.straight
    rw [hf.eq_p_of_ne hvp, threadDims, fastAxes, hour]
    exact ⟨hpos, Nat.one_pos, (Nat.mul_one _).symm⟩

/-- The place of an element is the place of its row and its number in the row. -/
theorem Fast.place_eq {r x : Nat} (hx : x < h.fastStep loop) :
    place h.dms h.srcStrides (decode h.our_dims (r * h.fastStep loop + x)) =
      h.fastStart loop + threadPlace (h.fastAxes loop) (decode (threadDims (h.fastAxes loop)) r) + (x : Nat) := by
  obtain ⟨hdmsmap, hour, hstridesmap⟩ := map_zipAxes hf.straight
  by_cases hvp : loop = .vp
  · obtain ⟨dms, last, strides, D, L, hdms, hstrides, hD, ⟨hlength, hlength'⟩, hlast, hthread, hstart, hstep⟩ :=
      hf.vp_eq hvp
    rw [hstep] at hx
    have hdiv : (r * L + x) / L = r := by
      rw [Nat.add_comm, Nat.add_mul_div_right _ _ (by omega), Nat.div_eq_of_lt hx, Nat.zero_add]
    have hmod : (r * L + x) % L = x := by rw [Nat.add_comm, Nat.add_mul_mod_self_right, Nat.mod_eq_of_lt hx]
    rw [hthread, hstep, hstart, threadPlace, hvp, fastAxes, List.map_dropLast, List.map_dropLast, hdmsmap, hstridesmap,
      hD, decode_append, hdiv, hmod, hdms, hstrides, List.dropLast_concat, List.dropLast_concat,
      place_concat hlength (by rw [length_decode, hlength']), axisPlace, hlast]
    push_cast
    ring
  · obtain rfl := hf.eq_p_of_ne hvp
    obtain rfl : x = 0 := by
      rw [fastStep] at hx
      omega
    rw [threadDims, threadPlace, fastStart, fastAxes, fastStep, hdmsmap, hour, hstridesmap, Nat.mul_one, Nat.add_zero,
      Nat.cast_zero, add_zero, zero_add]

/-- What the threads copy, in which order ever, with what the loop writes for a copy. -/
theorem Fast.exec_eq {schedule : List (List (Nat × Int)) → List (Nat × Int)} {src dst : List (BitVec 8)}
    {strides : SizeVector} (hstrides : ∃ stride dim, strides[0]? = some stride ∧ h.our_dims[0]? = some dim ∧
      stride * dim = h.our_dims.prod) (hsmall : h.our_dims.prod < 2 ^ 63) (hnthr : 1 ≤ nthr ∧ nthr < 2 ^ 31) :
    h.exec_strided_slice nthr schedule c 0 0 h.our_dims strides src dst =
      (schedule ((List.range nthr).map fun (ithr : Nat) => threadPlaces (h.fastStart loop) (h.fastAxes loop)
        (h.fastStep loop) (splitter (threadDims (h.fastAxes loop)).prod nthr ithr))).foldlM
          (if loop = .vp then copyRowOf c (h.fastStep loop) 0 0 src else assignElement c 0 0 src) dst := by
  obtain ⟨stride, dim, hstride, hdim, hwork⟩ := hstrides
  obtain ⟨hpos, hstep, hprod⟩ := hf.our_dims_eq
  have hle : (threadDims (h.fastAxes loop)).prod ≤ h.our_dims.prod := hprod ▸ Nat.le_mul_of_pos_right _ hstep
  have hthreads := @threads_mapM (h.fastAxes loop) (h.fastStart loop) (h.fastStep loop) nthr hf.fitsInt_start hpos
    hnthr.1
    (by omega) (by omega)
  have hstride' : elemAt "dstStrides[0]" strides 0 = .ok stride := elemAt_ok_iff.mpr ⟨le_refl _, hstride⟩
  have hdim' : elemAt "dst_dims[0]" h.our_dims 0 = .ok dim := elemAt_ok_iff.mpr ⟨le_refl _, hdim⟩
  unfold exec_strided_slice
  rw [hf.selected, ok_bind]
  by_cases hvp : loop = .vp
  · obtain ⟨dms, last, strides, D, L, hdms, -, hD, ⟨-, hlength⟩, -, hthread, hstart, hstepL⟩ := hf.vp_eq hvp
    have hrank : h.our_dims.length - 1 = D.length := by
      rw [hD, List.length_append, List.length_singleton, Nat.add_sub_cancel]
    have haxes : threadAxes h h.our_dims D.length = .ok (h.fastAxes .vp) := by
      rw [threadAxes_eq hf.straight (by rw [← hf.straight.dms, hdms, List.length_append]; omega), fastAxes,
        List.dropLast_eq_take, length_zipAxes hf.straight, ← hf.straight.our_dims, hrank]
    have hlastDim : elemAt "dst_dims[dims_size_1]" h.our_dims D.length = .ok L :=
      elemAt_ok_iff.mpr ⟨Int.natCast_nonneg _, by rw [hD, Int.toNat_natCast, List.getElem?_concat_length]⟩
    have hlast : elemAt "begin_dms[dims_size_1]" h.dms D.length = .ok last :=
      elemAt_ok_iff.mpr ⟨Int.natCast_nonneg _, by
        rw [hdms, hlength, Int.toNat_natCast, List.getElem?_concat_length]⟩
    have hrows : h.our_dims.prod / L = (threadDims (h.fastAxes loop)).prod := by
      rw [hprod, hstepL, Nat.mul_div_cancel _ (hstepL ▸ hstep)]
    rw [hstepL] at hstep hthreads ⊢
    rw [hstart] at hthreads ⊢
    rw [if_pos hvp]
    subst hvp
    dsimp only
    unfold strided_slice_vp
    dsimp only
    rw [hrank, hlastDim, ok_bind, hstride', ok_bind, hdim', ok_bind, if_neg hstep.ne', hlast, ok_bind, haxes, ok_bind,
      hwork, toSizeT_natCast (by omega), hrows, hthreads, ok_bind, pure_bind]
  · obtain rfl := hf.eq_p_of_ne hvp
    have hwhole : threadDims (h.fastAxes .p) = h.our_dims := (map_zipAxes hf.straight).2.1
    have haxes : threadAxes h h.our_dims h.our_dims.length = .ok (h.fastAxes .p) := by
      rw [threadAxes_eq hf.straight (by rw [hf.straight.our_dims]), fastAxes,
        List.take_of_length_le (by rw [length_zipAxes hf.straight, hf.straight.our_dims])]
    rw [if_neg hvp]
    dsimp only
    unfold strided_slice_p
    rw [hstride', ok_bind, hdim', ok_bind, haxes, ok_bind, hwork, toSizeT_natCast (by omega)]
    rw [hwhole] at hthreads ⊢
    have hstart : h.fastStart .p = 0 := rfl
    have hstepOne : h.fastStep .p = 1 := rfl
    rw [hstart, hstepOne] at hthreads ⊢
    rw [hthreads, ok_bind]

/-- The source index of an element. -/
def elementIndex (h : StridedSliceHelper) (k : Nat) : Int := wrapInt (place h.dms h.srcStrides (decode h.our_dims k))

/-- The source index of a row. -/
def rowIndex (h : StridedSliceHelper) (loop : Loop) (r : Nat) : Int :=
  wrapInt (h.fastStart loop + threadPlace (h.fastAxes loop) (decode (threadDims (h.fastAxes loop)) r))

/-- As long as no element of it has a negative index, a row is read from one place on. -/
theorem Fast.elementIndex_eq (hinside : ∀ k < h.our_dims.prod, 0 ≤ h.elementIndex k) {r x : Nat}
    (hr : r < (threadDims (h.fastAxes loop)).prod) (hx : x < h.fastStep loop) :
    h.elementIndex (r * h.fastStep loop + x) = h.rowIndex loop r + (x : Nat) := by
  have hrow : ∀ y < h.fastStep loop, h.elementIndex (r * h.fastStep loop + y) =
      wrapInt (h.fastStart loop + threadPlace (h.fastAxes loop) (decode (threadDims (h.fastAxes loop)) r) + (y : Nat)) :=
    fun y hy => congrArg wrapInt (hf.place_eq hy)
  have hlt : ∀ y < h.fastStep loop, r * h.fastStep loop + y < h.our_dims.prod := by
    intro y hy
    have hle : (r + 1) * h.fastStep loop ≤ (threadDims (h.fastAxes loop)).prod * h.fastStep loop :=
      Nat.mul_le_mul_right _ hr
    rw [Nat.succ_mul] at hle
    rw [hf.our_dims_eq.2.2]
    omega
  rw [hrow x hx, rowIndex]
  refine wrapInt_consecutive (fun y hy => ?_) x hx
  rw [← hrow y hy]
  exact hinside _ (hlt y hy)

/-- What the threads write of copies with these indices of the rows. -/
theorem Fast.exists_written {index : Nat → Int} (hc : conversion p q = some c) (hsize : loop = .vp → c.size = 4)
    (hbytes : bytes.length = total * 4) (hold : old.length = h.our_dims.prod * c.size)
    (hcopies : copies.Perm ((List.range (threadDims (h.fastAxes loop)).prod).map fun r =>
      (r * h.fastStep loop, index r)))
    (hinside : ∀ r < (threadDims (h.fastAxes loop)).prod, 0 ≤ index r ∧ index r + h.fastStep loop ≤ total) :
    ∃ out, copies.foldlM (if loop = .vp then copyRowOf c (h.fastStep loop) 0 0 bytes
      else assignElement c 0 0 bytes) old =
        .ok out ∧ out.length = h.our_dims.prod * c.size ∧
      ∀ r < (threadDims (h.fastAxes loop)).prod, ∀ x < h.fastStep loop,
        rowAt c.size out (r * h.fastStep loop + x) = c.convert (rowAt 4 bytes ((index r).toNat + x)) := by
  obtain ⟨-, hstep, hprod⟩ := hf.our_dims_eq
  have hfst := hcopies.map Prod.fst
  rw [List.map_map] at hfst
  have hmem : ∀ copy ∈ copies, 0 ≤ copy.2 ∧ copy.2 + h.fastStep loop ≤ total := by
    intro copy hcopy
    obtain ⟨r, hr, rfl⟩ := List.mem_map.mp (hcopies.mem_iff.mp hcopy)
    exact hinside r (List.mem_range.mp hr)
  have hcopy : ∀ {r}, r < (threadDims (h.fastAxes loop)).prod → (r * h.fastStep loop, index r) ∈ copies := fun hr =>
    hcopies.mem_iff.mpr (List.mem_map.mpr ⟨_, List.mem_range.mpr hr, rfl⟩)
  by_cases hvp : loop = .vp
  · have hfour := hsize hvp
    have hid : c.convert = id := by
      rcases conversion_cases hc with ⟨-, hid⟩ | ⟨height, -⟩
      · exact hid
      · omega
    rw [if_pos hvp]
    obtain ⟨out, hrun, hlength, hrows⟩ := @exists_rows c bytes old copies total (threadDims (h.fastAxes loop)).prod
      (h.fastStep loop) hfour hbytes hstep (by rw [hold, hprod, hfour]) hfst hmem
    refine ⟨out, hrun, by rw [hlength, hprod, hfour], fun r hr x hx => ?_⟩
    have hrow := hrows _ (hcopy hr)
    dsimp only at hrow
    rw [Nat.mul_div_cancel _ hstep, rowAt, ← Nat.mul_assoc] at hrow
    rw [hfour, hid, id_eq, ← rowAt_take_drop hx, hrow, rowAt_take_drop hx]
  · obtain rfl := hf.eq_p_of_ne hvp
    have hone : h.fastStep .p = 1 := rfl
    rw [hone] at hprod hmem hfst hcopy ⊢
    rw [if_neg hvp]
    have hfst' : (copies.map Prod.fst).Perm (List.range h.our_dims.prod) := by
      rw [hprod, Nat.mul_one]
      have hid : (Prod.fst ∘ fun r => (r * 1, index r)) = (id : Nat → Nat) := funext fun r => Nat.mul_one r
      rwa [hid, List.map_id] at hfst
    obtain ⟨out, hrun, hlength, hrows⟩ := exists_assigned hc hbytes hold hfst' fun copy hcopy => by
      have := hmem copy hcopy
      omega
    refine ⟨out, hrun, hlength, fun r hr x hx => ?_⟩
    obtain rfl : x = 0 := by omega
    have hrow := hrows _ (hcopy hr)
    dsimp only at hrow
    rwa [Nat.mul_one] at hrow ⊢

/-- Copies that were made are from inside. -/
theorem Fast.inside_of_run (hbytes : bytes.length = total * 4)
    (hrun : copies.foldlM (if loop = .vp then copyRowOf c (h.fastStep loop) 0 0 bytes
      else assignElement c 0 0 bytes) old =
      .ok out) : ∀ copy ∈ copies, 0 ≤ copy.2 ∧ copy.2 + h.fastStep loop ≤ total := by
  intro copy hcopy
  obtain ⟨b₁, b₂, hwrite⟩ := exists_of_foldlM_ok hrun copy hcopy
  by_cases hvp : loop = .vp
  · rw [if_pos hvp] at hwrite
    obtain ⟨b, hb, -⟩ := bind_ok_iff.mp hwrite
    exact inside_of_readBytes hbytes hb
  · rw [if_neg hvp] at hwrite
    obtain ⟨b, hb, -⟩ := bind_ok_iff.mp hwrite
    rw [hf.eq_p_of_ne hvp]
    exact inside_of_readBytes hbytes (show readBytes bytes _ (4 * 1 : Nat) = .ok b from hb)

/-- What the plain loop writes. -/
theorem Fast.exists_plain {strides : SizeVector} (hc : conversion p q = some c) (hstrides : ∃ stride dim,
    strides[0]? = some stride ∧ h.our_dims[0]? = some dim ∧ stride * dim = h.our_dims.prod)
    (hsmall : h.our_dims.prod < 2 ^ 63) (hbytes : bytes.length = total * 4)
    (hold : old.length = h.our_dims.prod * c.size)
    (hinside : ∀ k < h.our_dims.prod, 0 ≤ h.elementIndex k ∧ h.elementIndex k < total) :
    ∃ out, h.writeSlice c 0 0 h.our_dims strides bytes old = .ok out ∧ out.length = h.our_dims.prod * c.size ∧
      ∀ k < h.our_dims.prod, rowAt c.size out k = c.convert (rowAt 4 bytes (h.elementIndex k).toNat) := by
  have hne : h.our_dims ≠ [] := by
    obtain ⟨_, dim, -, hdim, -⟩ := hstrides
    intro hnil
    rw [hnil] at hdim
    cases hdim
  have hplain := strided_slice_eq hf.straight hne hstrides (by omega)
  have hfst : ((List.range h.our_dims.prod).map fun k => (k, h.elementIndex k)).map Prod.fst =
      List.range h.our_dims.prod := by
    rw [List.map_map]
    exact List.map_id _
  obtain ⟨out, hrun, hlength, hrows⟩ := exists_assigned hc hbytes hold (by rw [hfst]) fun copy hcopy => by
    obtain ⟨k, hk, rfl⟩ := List.mem_map.mp hcopy
    exact hinside k (List.mem_range.mp hk)
  refine ⟨out, ?_, hlength, fun k hk => hrows _ (List.mem_map.mpr ⟨k, List.mem_range.mpr hk, rfl⟩)⟩
  unfold writeSlice
  rw [hplain, ok_bind]
  exact hrun

end Fast

/-- Whatever is in the memory, and in whatever order the copies are made, the selected loop writes what the plain one
does. -/
def Agrees (h : StridedSliceHelper) (nthr : Nat) (c : Conversion) (dst_dims dstStrides : SizeVector) : Prop :=
  ∀ {schedule : List (List (Nat × Int)) → List (Nat × Int)} {bytes old : List (BitVec 8)},
    (∀ copies, (schedule copies).Perm copies.flatten) → bytes.length = h.src_dims.prod * 4 →
    old.length = dst_dims.prod * c.size →
    ∃ out, h.writeSlice c 0 0 dst_dims dstStrides bytes old = .ok out ∧
      h.exec_strided_slice nthr schedule c 0 0 dst_dims dstStrides bytes old = .ok out

section Agreement

variable {loop : Loop} {strides : SizeVector} (hf : h.Fast loop) (hc : conversion p q = some c)
  (hstrides : ∃ stride dim, strides[0]? = some stride ∧ h.our_dims[0]? = some dim ∧ stride * dim = h.our_dims.prod)
  (hsmall : h.our_dims.prod < 2 ^ 63) (hnthr : 1 ≤ nthr ∧ nthr < 2 ^ 31)
  (hinside : ∀ k < h.our_dims.prod, 0 ≤ h.elementIndex k ∧ h.elementIndex k < h.src_dims.prod)

include hf hc hstrides hsmall hnthr hinside

theorem agrees_of_starts (hsize : loop = .vp → c.size = 4)
    (hstarts : StartsAgree (h.fastStart loop) (h.fastAxes loop) nthr) : h.Agrees nthr c h.our_dims strides := by
  intro schedule bytes old hschedule hbytes hold
  obtain ⟨-, hstep, hprod⟩ := hf.our_dims_eq
  have hle : (threadDims (h.fastAxes loop)).prod ≤ h.our_dims.prod := hprod ▸ Nat.le_mul_of_pos_right _ hstep
  obtain ⟨out, hplain, hlength, hrows⟩ := hf.exists_plain hc hstrides hsmall hbytes hold hinside
  have helement : ∀ {r x}, r < (threadDims (h.fastAxes loop)).prod → x < h.fastStep loop →
      r * h.fastStep loop + x < h.our_dims.prod ∧
        h.elementIndex (r * h.fastStep loop + x) = h.rowIndex loop r + (x : Nat) := by
    intro r x hr hx
    refine ⟨?_, hf.elementIndex_eq (fun k hk => (hinside k hk).1) hr hx⟩
    have hrow : (r + 1) * h.fastStep loop ≤ (threadDims (h.fastAxes loop)).prod * h.fastStep loop :=
      Nat.mul_le_mul_right _ hr
    rw [Nat.succ_mul] at hrow
    omega
  have hcopies := hschedule ((List.range nthr).map fun (ithr : Nat) => threadPlaces (h.fastStart loop)
    (h.fastAxes loop) (h.fastStep loop) (splitter (threadDims (h.fastAxes loop)).prod nthr ithr))
  rw [← List.flatMap, ← allThreadPlaces, allThreadPlaces_eq hnthr.1 (by omega) hstarts] at hcopies
  obtain ⟨out', hfast, hlength', hrows'⟩ := @Fast.exists_written _ _ _ _ _ _ _ h.src_dims.prod loop hf
    (h.rowIndex loop) hc hsize hbytes hold hcopies fun r hr => by
      obtain ⟨hlt, hfirst⟩ := helement hr hstep
      obtain ⟨hlt', hlast⟩ := helement hr (Nat.sub_lt hstep Nat.one_pos)
      have hin := hinside _ hlt
      have hin' := hinside _ hlt'
      rw [hfirst] at hin
      rw [hlast] at hin'
      omega
  refine ⟨out, hplain, ?_⟩
  rw [hf.exec_eq hstrides hsmall hnthr, hfast]
  refine congrArg Except.ok (eq_of_rows_eq hlength' hlength fun k hk => ?_)
  -- the element of a row
  have hr : k / h.fastStep loop < (threadDims (h.fastAxes loop)).prod :=
    Nat.div_lt_of_lt_mul (by rwa [Nat.mul_comm, ← hprod])
  have hx : k % h.fastStep loop < h.fastStep loop := Nat.mod_lt _ hstep
  obtain ⟨-, hindex⟩ := helement hr hx
  obtain ⟨hlt, hfirst⟩ := helement hr hstep
  have hrow := hrows' _ hr _ hx
  have hnonneg := (hinside _ hlt).1
  rw [hfirst] at hnonneg
  rw [Nat.div_add_mod'] at hrow hindex
  have hnat : (h.elementIndex k).toNat = (h.rowIndex loop (k / h.fastStep loop)).toNat + k % h.fastStep loop := by
    rw [hindex]
    omega
  rw [hrow, hrows k hk, hnat]

omit hc hinside in
/-- The source indices that the threads come to, row by row. -/
theorem exists_index : ∃ index : Nat → Int,
    allThreadPlaces (h.fastStart loop) (h.fastAxes loop) (h.fastStep loop) nthr =
    (List.range (threadDims (h.fastAxes loop)).prod).map fun r => (r * h.fastStep loop, index r) := by
  obtain ⟨-, hstep, hprod⟩ := hf.our_dims_eq
  have hle : (threadDims (h.fastAxes loop)).prod ≤ h.our_dims.prod := hprod ▸ Nat.le_mul_of_pos_right _ hstep
  have hfst := @map_fst_allThreadPlaces (h.fastAxes loop) (h.fastStart loop) (h.fastStep loop) nthr hnthr.1 (by omega)
  set all := allThreadPlaces (h.fastStart loop) (h.fastAxes loop) (h.fastStep loop) nthr with hall
  have hlength : all.length = (threadDims (h.fastAxes loop)).prod := by
    rw [← List.length_map (f := Prod.fst), hfst, List.length_map, List.length_range]
  refine ⟨fun r => (all.getD r (0, 0)).2, List.ext_getElem (by rw [hlength, List.length_map, List.length_range]) ?_⟩
  intro r hr hr'
  have hfirst : (all.map Prod.fst)[r]? = some (r * h.fastStep loop) := by
    rw [hfst, List.getElem?_map, List.getElem?_range (by omega)]
    rfl
  rw [List.getElem?_map, List.getElem?_eq_getElem hr, Option.map_some, Option.some.injEq] at hfirst
  rw [List.getElem_map, List.getElem_range]
  dsimp only
  rw [List.getD_eq_getElem _ _ hr]
  exact Prod.ext hfirst rfl

/-- Rows of elements that change their size are not written to their end. -/
theorem size_of_agrees (hagrees : h.Agrees nthr c h.our_dims strides) (hvp : loop = .vp) : c.size = 4 := by
  rcases conversion_cases hc with ⟨hfour, -⟩ | ⟨height, hconvert⟩
  · exact hfour
  · exfalso
    obtain ⟨-, hstep, hprod⟩ := hf.our_dims_eq
    have hpos : 0 < h.our_dims.prod := Nat.pos_of_ne_zero (List.prod_ne_zero hf.straight.pos)
    have hbytes : (List.replicate (h.src_dims.prod * 4) (0 : BitVec 8)).length = h.src_dims.prod * 4 :=
      List.length_replicate
    have hold : (List.replicate (h.our_dims.prod * c.size) (1 : BitVec 8)).length = h.our_dims.prod * c.size :=
      List.length_replicate
    have hflatten : ∀ copies : List (List (Nat × Int)), copies.flatten.Perm copies.flatten := fun _ => List.Perm.refl _
    obtain ⟨out, hplain, hfast⟩ := hagrees hflatten hbytes hold
    obtain ⟨out', hplain', -, hrows⟩ := hf.exists_plain hc hstrides hsmall hbytes hold hinside
    obtain rfl := Except.ok.inj (hplain.symm.trans hplain')
    -- the plain loop writes the last byte
    have hlast : out[h.our_dims.prod * 8 - 1]? = some 0 := by
      have hrow := hrows (h.our_dims.prod - 1) (by omega)
      obtain ⟨hge, hlt⟩ := hinside (h.our_dims.prod - 1) (by omega)
      have hzeros : rowAt 4 (List.replicate (h.src_dims.prod * 4) (0 : BitVec 8))
          (h.elementIndex (h.our_dims.prod - 1)).toNat = List.replicate 4 0 := by
        rw [rowAt, List.drop_replicate, List.take_replicate, min_eq_left (by omega)]
      rw [hzeros, hconvert, height] at hrow
      have hindex : h.our_dims.prod * 8 - 1 = (h.our_dims.prod - 1) * 8 + 7 := by omega
      rw [hindex, ← List.getElem?_drop, ← List.getElem?_take_of_lt (show 7 < 8 by norm_num), ← rowAt, hrow]
      decide
    -- the rows leave it as it is
    obtain ⟨index, hindex⟩ := exists_index hf hstrides hsmall hnthr
    rw [hf.exec_eq hstrides hsmall hnthr, ← List.flatMap, ← allThreadPlaces, hindex, if_pos hvp] at hfast
    have hkept := foldlM_ok_induct (I := fun _ (out : List (BitVec 8)) => out[h.our_dims.prod * 8 - 1]? = some 1 ∧
      out.length = h.our_dims.prod * 8) hfast ?_ ?_
    · rw [hlast] at hkept
      exact absurd (Option.some.inj hkept.1) (by decide)
    · rw [height, List.getElem?_replicate, if_pos (by omega), List.length_replicate]
      exact ⟨rfl, rfl⟩
    · rintro pre copy post out₁ out₂ hl ⟨hbyte, hlength⟩ hround
      obtain ⟨r, hr, rfl⟩ := List.mem_map.mp
        (show copy ∈ _ by rw [hl]; exact List.mem_append_right _ List.mem_cons_self)
      have hr := List.mem_range.mp hr
      have hrow : (r + 1) * h.fastStep loop ≤ (threadDims (h.fastAxes loop)).prod * h.fastStep loop :=
        Nat.mul_le_mul_right _ hr
      rw [Nat.succ_mul] at hrow
      unfold copyRowOf at hround
      obtain ⟨b, hb, hround⟩ := bind_ok_iff.mp hround
      have hblength : b.length ≤ 4 * h.fastStep loop := by
        unfold readBytes at hb
        split_ifs at hb with hin
        · rw [pure_ok_iff] at hb
          rw [← hb]
          exact List.length_take_le _ _
      unfold writeBytes at hround
      split_ifs at hround with hin
      · rw [pure_ok_iff] at hround
        subst hround
        rw [height] at hin ⊢
        rw [length_overlay hin, getElem?_overlay_of_le (by omega) (by omega)]
        exact ⟨hbyte, hlength⟩

/-- The threads read what the plain loop reads. -/
theorem starts_of_agrees (hagrees : h.Agrees nthr c h.our_dims strides) :
    StartsAgree (h.fastStart loop) (h.fastAxes loop) nthr := by
  obtain ⟨-, hstep, hprod⟩ := hf.our_dims_eq
  have hsize := size_of_agrees hf hc hstrides hsmall hnthr hinside hagrees
  have hle : (threadDims (h.fastAxes loop)).prod ≤ h.our_dims.prod := hprod ▸ Nat.le_mul_of_pos_right _ hstep
  obtain ⟨index, hindex⟩ := exists_index hf hstrides hsmall hnthr
  have hsame : ∀ r < (threadDims (h.fastAxes loop)).prod, index r = h.rowIndex loop r := by
    intro r hr
    have hrow : (r + 1) * h.fastStep loop ≤ (threadDims (h.fastAxes loop)).prod * h.fastStep loop :=
      Nat.mul_le_mul_right _ hr
    rw [Nat.succ_mul] at hrow
    have helement := hf.elementIndex_eq (fun k hk => (hinside k hk).1) hr hstep
    obtain ⟨hge, hlt⟩ := hinside (r * h.fastStep loop) (by omega)
    rw [Nat.cast_zero, Nat.add_zero, add_zero] at helement
    -- the input is zero but for the element that the plain loop reads
    set zeros := List.replicate (h.src_dims.prod * 4) (0 : BitVec 8) with hzeros
    set bytes := overlay zeros ((h.elementIndex (r * h.fastStep loop)).toNat * 4) (List.replicate 4 1) with hset
    have hlengthZeros : zeros.length = h.src_dims.prod * 4 := List.length_replicate
    have hbytes : bytes.length = h.src_dims.prod * 4 := by
      rw [hset, length_overlay (by rw [List.length_replicate]; omega), hlengthZeros]
    have hold : (List.replicate (h.our_dims.prod * c.size) (0 : BitVec 8)).length = h.our_dims.prod * c.size :=
      List.length_replicate
    have hflatten : ∀ copies : List (List (Nat × Int)), copies.flatten.Perm copies.flatten := fun _ => List.Perm.refl _
    obtain ⟨out, hplain, hfast⟩ := hagrees hflatten hbytes hold
    obtain ⟨out', hplain', -, hrows⟩ := hf.exists_plain hc hstrides hsmall hbytes hold hinside
    obtain rfl := Except.ok.inj (hplain.symm.trans hplain')
    rw [hf.exec_eq hstrides hsmall hnthr, ← List.flatMap, ← allThreadPlaces, hindex] at hfast
    have hin := hf.inside_of_run hbytes hfast
    obtain ⟨out', hfast', -, hrows'⟩ := @Fast.exists_written _ _ _ _ _ _ _ h.src_dims.prod loop hf index hc hsize hbytes
      hold (List.Perm.refl _) fun r hr => hin _ (List.mem_map.mpr ⟨r, List.mem_range.mpr hr, rfl⟩)
    obtain rfl := Except.ok.inj (hfast.symm.trans hfast')
    obtain ⟨hge', hlt'⟩ := hin _ (List.mem_map.mpr ⟨r, List.mem_range.mpr hr, rfl⟩)
    dsimp only at hge' hlt'
    have hread := hrows _ (show r * h.fastStep loop < h.our_dims.prod by omega)
    have hread' := hrows' r hr 0 hstep
    rw [Nat.add_zero, Nat.add_zero, hread] at hread'
    have hequal := convert_injective hc (length_rowAt (by rw [hbytes]; omega)) (length_rowAt (by rw [hbytes]; omega))
      hread'
    rw [hset, rowAt_overlay_self (by omega) List.length_replicate] at hequal
    by_contra hother
    rw [rowAt_overlay_of_ne (by rw [hlengthZeros]; omega) List.length_replicate (by rw [helement]; omega), rowAt,
      hzeros,
      List.drop_replicate, List.take_replicate] at hequal
    have hmem := List.mem_replicate.mpr ⟨show 4 ≠ 0 by norm_num, @rfl (BitVec 8) 1⟩
    rw [hequal] at hmem
    exact absurd (List.mem_replicate.mp hmem).2 (by decide)
  intro ithr hithr
  refine .inr fun j hj => ?_
  have hplace := @mem_allThreadPlaces (h.fastAxes loop) (h.fastStart loop) (h.fastStep loop) nthr ithr j hithr hj
  rw [hindex, List.mem_map] at hplace
  obtain ⟨r, hr, heq⟩ := hplace
  obtain ⟨hfirst, hsecond⟩ := Prod.mk.inj heq
  obtain rfl := Nat.eq_of_mul_eq_mul_right hstep hfirst
  rw [← hsecond]
  exact hsame _ (List.mem_range.mp hr)

end Agreement

section Helper

variable {data : TensorDesc} {bounds : List (Blob (List Int))} {params : String → Option String} {loop : Loop}
  {rest : SizeVector}

/-- A constructed helper has what the fast loops rely on. -/
theorem fast_of_create (hcreate : create data bounds params = .ok h) (hdata : RowMajor data data.dims)
    (hloop : h.selectLoop = .ok loop) (hfast : loop ≠ .plain) : h.Fast loop ∧ h.out_dims = h.our_dims ∧
      h.our_dims ≠ [] := by
  have hbuilt := built_of_create hcreate
  obtain ⟨begin_dims, bounds_size, end_dims, stride_dims, axes, -, -, hhelper⟩ := create_ok hcreate
  obtain ⟨hrank, hshrink, dms, last, hdms, -⟩ := selectLoop_ok hloop hfast
  have hstrides : h.srcStrides = BlockingDesc.fillStrides h.src_dims := by
    rw [hhelper]
    exact hdata.strides
  have hpos : 0 < h.max_dims := by
    rw [← hbuilt.dms, hdms, List.length_append, List.length_singleton]
    omega
  have hne : h.src_dims ≠ [] := List.length_pos_iff.mp (by omega)
  have hstraight := hbuilt.straight hrank (by rw [hstrides, BlockingDesc.length_fillStrides, hrank])
  refine ⟨⟨hstraight, hfast, hloop, ?_, hbuilt.start⟩, hbuilt.out_dims hshrink, ?_⟩
  · rw [hstrides]
    exact exists_fillStrides_concat hne
  · rw [← List.length_pos_iff, hbuilt.our_dims]
    exact hpos

theorem conversion_size_iff (hc : conversion p q = some c) : c.size = 4 ↔ q ≠ .I64 := by
  unfold conversion at hc
  split at hc
  · obtain rfl := Option.some.inj hc
    exact ⟨fun _ => by decide, fun _ => rfl⟩
  · obtain rfl := Option.some.inj hc
    exact ⟨fun _ => by decide, fun _ => rfl⟩
  · obtain rfl := Option.some.inj hc
    exact ⟨fun h => absurd h (by decide), fun h => absurd rfl h⟩
  · cases hc

/-- **The fast loops.** Where the plain loop stays inside the input, the selected loop writes what it does exactly if
no rows are copied into longer elements and no thread takes a start apart that stands for other places once it is
truncated to `int`. -/
theorem loops_agree_iff (hcreate : create data bounds params = .ok h) (hdata : RowMajor data data.dims)
    (hloop : h.selectLoop = .ok loop) (hfast : loop ≠ .plain) (hc : conversion p q = some c)
    (hsmall : h.out_dims.prod < 2 ^ 63) (hnthr : 1 ≤ nthr ∧ nthr < 2 ^ 31)
    (hplain : ∃ copies, h.strided_slice h.out_dims (BlockingDesc.fillStrides h.out_dims ++ rest) = .ok copies ∧
      ∀ copy ∈ copies, 0 ≤ copy.2 ∧ copy.2 < h.src_dims.prod) :
    h.Agrees nthr c h.out_dims (BlockingDesc.fillStrides h.out_dims ++ rest) ↔
      (loop = .vp → q ≠ .I64) ∧ StartsAgree (h.fastStart loop) (h.fastAxes loop) nthr := by
  obtain ⟨hf, hout, hne⟩ := fast_of_create hcreate hdata hloop hfast
  rw [hout] at hsmall hplain ⊢
  have hstrides : ∃ stride dim, (BlockingDesc.fillStrides h.our_dims ++ rest)[0]? = some stride ∧
      h.our_dims[0]? = some dim ∧ stride * dim = h.our_dims.prod := by
    obtain ⟨stride, dim, hstride, hdim, hwork⟩ := exists_fillStrides hne (by omega) hf.straight.pos
    have hlt := (List.getElem?_eq_some_iff.mp hstride).1
    exact ⟨stride, dim, by rwa [List.getElem?_append_left hlt], hdim, hwork⟩
  have hinside : ∀ k < h.our_dims.prod, 0 ≤ h.elementIndex k ∧ h.elementIndex k < h.src_dims.prod := by
    obtain ⟨copies, hcopies, hinside⟩ := hplain
    rw [strided_slice_eq hf.straight hne hstrides (by omega)] at hcopies
    obtain rfl := Except.ok.inj hcopies
    exact fun k hk => hinside _ (List.mem_map.mpr ⟨k, List.mem_range.mpr hk, rfl⟩)
  constructor
  · intro hagrees
    refine ⟨fun hvp => (conversion_size_iff hc).mp ?_, ?_⟩
    · exact size_of_agrees hf hc hstrides hsmall hnthr hinside hagrees hvp
    · exact starts_of_agrees hf hc hstrides hsmall hnthr hinside hagrees
  · rintro ⟨hsize, hstarts⟩
    exact agrees_of_starts hf hc hstrides hsmall hnthr hinside (fun hvp => (conversion_size_iff hc).mpr (hsize hvp))
      hstarts

end Helper

/-- The rows `[b, 2)` of two rows and two columns. -/
def rowsHelper (b : Nat) : StridedSliceHelper where
  src_dims := [2, 2]
  srcStrides := [2, 1]
  max_dims := 2
  shrink_axis := 0
  new_axis_mask := [0, 0]
  dms := [{ begin_dms := b, end_dms := 1, stride_dms := 1 }, { begin_dms := 0, end_dms := 1, stride_dms := 1 }]
  out_dims := [2 - b, 2]
  our_dims := [2 - b, 2]

theorem create_rowsHelper (b : Nat) (hb : b < 2) : create (plainBlob .I32 [2, 2]).tensorDesc
    [i32Blob [2] [b, 0], i32Blob [2] [2, 2]] (fun _ => none) = .ok (rowsHelper b) := by
  interval_cases b
  · decide +kernel
  · decide +kernel

/-- The second row, with three threads. -/
theorem loops_agree_iff_row : (rowsHelper 1).Agrees 3 { size := 4, convert := id } [1, 2] [2, 1] := by
  have hplain : ∃ copies, (rowsHelper 1).strided_slice [1, 2] [2, 1] = .ok copies ∧
      ∀ copy ∈ copies, 0 ≤ copy.2 ∧ copy.2 < (4 : Nat) := ⟨[(0, 2), (1, 3)], by decide, by decide⟩
  have hstarts : StartsAgree ((rowsHelper 1).fastStart .vp) ((rowsHelper 1).fastAxes .vp) 3 :=
    fun ithr hithr => .inl (by decide +revert)
  apply (@loops_agree_iff (rowsHelper 1) _ .I32 .I32 3 _ _ _ .vp [] (create_rowsHelper 1 (by decide)) rowMajor_plainBlob rfl
    (by decide) rfl (by decide) (by decide) hplain).mpr
  exact ⟨fun _ => by decide, hstarts⟩

/-- Rows of `int` copied into rows of `int64_t`. -/
theorem rows_not_extended : create (plainBlob .I32 [2, 2]).tensorDesc [i32Blob [2] [0, 0], i32Blob [2] [2, 2]]
    (fun _ => none) = .ok (rowsHelper 0) ∧ (rowsHelper 0).selectLoop = .ok .vp ∧
      conversion .I32 .I64 = some { size := 8, convert := signExtend } ∧
      ¬(rowsHelper 0).Agrees 1 { size := 8, convert := signExtend } [2, 2] [2, 1] := by
  have hcreate := create_rowsHelper 0 (by decide)
  refine ⟨hcreate, rfl, rfl, fun hagrees => ?_⟩
  obtain ⟨hf, -, -⟩ := @fast_of_create (rowsHelper 0) _ _ _ .vp hcreate rowMajor_plainBlob rfl (by decide)
  have hinside : ∀ k < (rowsHelper 0).our_dims.prod, 0 ≤ (rowsHelper 0).elementIndex k ∧
      (rowsHelper 0).elementIndex k < (4 : Nat) := by decide
  have hfour := @size_of_agrees (rowsHelper 0) _ .I32 .I64 1 .vp [2, 1] hf rfl ⟨2, 2, rfl, rfl, rfl⟩ (by decide)
    (by decide) hinside hagrees rfl
  exact absurd hfour (by decide)

end OpenVino.InferenceEngine.ShapeInfer.StridedSliceHelper
