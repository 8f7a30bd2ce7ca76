import OpenVino.MKLDNNPlugin.Split.OfferedViews

/-!
# The outputs of a split are views of its input

The descriptor of the input keeps the blocks and the stride of the axis that were offered, whether it is taken over
from the producer or packed (`initInput_fixed`), and output `i` begins at the sum of what the outputs before it take
from the axis on (`initOutputs_ok`). So it is the slice of the input that begins at the sum of their sizes
(`split_views`).
-/

namespace OpenVino.MKLDNNPlugin

open InferenceEngine (SizeVector toSizeT elemAt elemAt_ok_iff TensorDesc toSizeT_modEq toSizeT_natCast)
open InferenceEngine.BlockingDesc (length_fillStrides)
open InferenceEngine.TensorDesc (detectLayout_ne)

/-! ### The input -/

section Input

variable {axis : Nat} {block : Option Nat} {src : SizeVector} {t u : TensorDesc}

/-- A descriptor with blocks as it is built: there is an entry of each list for each block, and no block has the
size or the dimension that stands for an unknown one. -/
structure Built (t : TensorDesc) : Prop where
  layout : t.layout ≠ .SCALAR
  order : t.blockingDesc.order.length = t.blockingDesc.blockedDims.length
  strides : t.blockingDesc.strides.length = t.blockingDesc.blockedDims.length
  offsets : t.blockingDesc.offsetPaddingToData.length = t.blockingDesc.blockedDims.length
  dims : ∀ o ∈ t.blockingDesc.order, o ≠ notInit
  sizes : ∀ d ∈ t.blockingDesc.blockedDims, d ≠ notInit

/-- An input whose blocks and whose stride along the axis are those of a view. -/
structure Fixed (axis : Nat) (block : Option Nat) (src : SizeVector) (t : TensorDesc) : Prop where
  laid : t.Laid
  order : t.blockingDesc.order = blkOrder block src.length
  blocks : t.blockingDesc.blockedDims = blkDims block src
  stride : axis = 0 ∧ src.getD 0 0 = 1 ∨
    t.blockingDesc.strides.getD axis 0 ≡ ((blkDims block src).drop (axis + 1)).prod [MOD 2 ^ 64]

theorem eq_of_agree {a b : Nat} (h : agree a b) (ha : a ≠ notInit) (hb : b ≠ notInit) : a = b := by
  unfold agree at h
  rw [decide_eq_true_eq] at h
  tauto

/-- Two lists whose entries agree, where all of them are known. -/
theorem eq_of_agrees {l₁ l₂ : SizeVector} (hlen : l₁.length = l₂.length) (h₁ : ∀ x ∈ l₁, x ≠ notInit)
    (h₂ : ∀ x ∈ l₂, x ≠ notInit) (h : ∀ i < l₁.length, ∃ x y, l₁[i]? = some x ∧ l₂[i]? = some y ∧ agree x y) :
    l₁ = l₂ := by
  apply List.ext_getElem hlen
  intro i hi hi'
  obtain ⟨x, y, hx, hy, hxy⟩ := h i hi
  rw [List.getElem?_eq_getElem hi, Option.some.injEq] at hx
  rw [List.getElem?_eq_getElem hi', Option.some.injEq] at hy
  rw [hx, hy]
  exact eq_of_agree hxy (hx ▸ h₁ _ (List.getElem_mem hi)) (hy ▸ h₂ _ (List.getElem_mem hi'))

/-- The elements of a product that is positive are. -/
theorem drop_prod_le {D : SizeVector} (h : 0 < D.prod) (k : Nat) : (D.drop k).prod ≤ D.prod :=
  Nat.le_of_dvd h ⟨(D.take k).prod, by rw [Nat.mul_comm, List.prod_take_mul_prod_drop]⟩

/-- **A descriptor that is taken over** has the blocks and the strides of the view. -/
theorem fixed_of_taken (haxis : axis < src.length) (hrank : src.length ≤ TENSOR_MAX_DIMS)
    (hwhole : WholeBlocks axis block src) (hpos : ∀ X ∈ src, 0 < X) (hsize : src.prod < 2 ^ 63)
    (hview : viewDesc src (blkDims block src) (blkOrder block src.length) (splitStrides axis (blkDims block src)) =
      .ok u)
    (hbuilt : t.blockingDesc.blockedDims ≠ [] → Built t) (hinit : isUninitTensorDesc t = .ok false)
    (hequal : initTensorsAreEqual t u = .ok true) : Fixed axis block src t := by
  have hne : src ≠ [] := List.ne_nil_of_length_pos (by omega)
  have hlenD : src.length ≤ (blkDims block src).length := by
    rw [length_blkDims]
    simp [blkOrder]
  have hprod : (blkDims block src).prod < 2 ^ 63 := by rwa [blkDims_prod hwhole]
  have hprodpos : 0 < (blkDims block src).prod := by
    rw [blkDims_prod hwhole]
    exact List.prod_pos hpos
  obtain ⟨hdims, hlayout, hordlen, -, hblocking⟩ := viewDesc_ok hne (List.ne_nil_of_length_pos (by omega))
    (List.ne_nil_of_length_pos (by rw [← length_blkDims]; omega)) hview
  obtain ⟨hany, hstrides⟩ := not_isUninit hinit
  obtain ⟨-, hlen, hagree⟩ := initTensorsAreEqual_true hequal hany hlayout
  rw [hblocking] at hlen hagree
  simp only [viewBlocking] at hlen
  have hb := hbuilt (List.ne_nil_of_length_pos (by omega))
  have hblocks : t.blockingDesc.blockedDims = blkDims block src := by
    refine eq_of_agrees hlen hb.sizes (fun x hx => ?_) fun i hi => (blocksAgree_true (hagree i hi)).1
    have := Nat.le_of_dvd hprodpos (List.dvd_prod hx)
    unfold notInit
    omega
  have horder : t.blockingDesc.order = blkOrder block src.length := by
    refine eq_of_agrees ((hb.order.trans hlen).trans hordlen.symm) hb.dims (fun x hx => ?_) fun i hi =>
      (blocksAgree_true (hagree i (hb.order ▸ hi))).2.2
    have := mem_blkOrder hwhole hx
    unfold TENSOR_MAX_DIMS at hrank
    unfold notInit
    omega
  refine ⟨⟨⟨hany, hb.layout⟩, hb.order.symm, hb.strides.trans hb.order.symm, hb.offsets.trans hb.order.symm⟩, horder,
    hblocks, ?_⟩
  by_cases hbatch : (if u.dims.getD 0 0 = 1 then 1 else 0) ≤ axis
  · right
    obtain ⟨x, y, hx, hy, hxy⟩ := (blocksAgree_true (hagree axis (by omega))).2.1 hbatch
    obtain ⟨s, hs, hsinit⟩ := hstrides axis (by rw [hb.order]; omega)
    obtain rfl : x = s := Option.some.inj (hx.symm.trans hs)
    have hget : (splitStrides axis (blkDims block src)).getD axis 0 = y := by
      rw [List.getD_eq_getElem?_getD, show (splitStrides axis (blkDims block src))[axis]? = some y from hy,
        Option.getD_some]
    rw [getD_splitStrides (by omega) le_rfl] at hget
    obtain ⟨hlt, hmod⟩ := getD_fillStrides (D := blkDims block src) (k := axis) (by omega)
    rw [hget] at hlt hmod
    have hdrop := drop_prod_le hprodpos (axis + 1)
    have hy' : y = ((blkDims block src).drop (axis + 1)).prod := Nat.ModEq.eq_of_lt_of_lt hmod hlt (by omega)
    have hyinit : y ≠ notInit := by
      unfold notInit
      omega
    rw [List.getD_eq_getElem?_getD, hx, Option.getD_some, eq_of_agree hxy hsinit hyinit]
    exact hmod
  · left
    rw [hdims] at hbatch
    split_ifs at hbatch with hone
    · exact ⟨by omega, hone⟩
    · omega

theorem fixed_of_packed (haxis : axis < src.length) {d : InferenceEngine.BlockingDesc}
    {precision : InferenceEngine.Precision}
    (hd : InferenceEngine.BlockingDesc.ofOrder (blkDims block src) (blkOrder block src.length) = .ok d)
    (ht : TensorDesc.ofBlocking precision src d = .ok t) : Fixed axis block src t := by
  have hne : src ≠ [] := List.ne_nil_of_length_pos (by omega)
  have hlenD : src.length ≤ (blkDims block src).length := by
    rw [length_blkDims]
    simp [blkOrder]
  rcases InferenceEngine.BlockingDesc.ofOrder_ok hd with ⟨hnil, -⟩ | ⟨hlen, hblk, rfl⟩
  · refine absurd hnil (not_or.mpr ⟨List.ne_nil_of_length_pos (by omega), ?_⟩)
    exact List.ne_nil_of_length_pos (by rw [← length_blkDims]; omega)
  · rcases TensorDesc.ofBlocking_ok ht with ⟨hnil, -⟩ | ⟨-, -, rfl⟩
    · exact absurd hnil (not_or.mpr ⟨hne, hblk⟩)
    · refine ⟨⟨detectLayout_ne, hlen.symm, ?_, ?_⟩, rfl, rfl, .inr (getD_fillStrides (by omega)).2⟩
      · exact length_fillStrides.trans hlen.symm
      · exact List.length_replicate

/-- The configurations that the other end of the edge has for its outputs. -/
def MKLDNNSplitNode.ParentPort.confs (parent : MKLDNNSplitNode.ParentPort) : List (DataConfig TensorDesc) :=
  parent.config.elim [] (·.outConfs) ++ parent.optimal.outConfs

variable {parent : MKLDNNSplitNode.ParentPort}

theorem takenDesc_some (h : parent.takenDesc u = .ok (some t)) : (∃ conf ∈ parent.confs, conf.desc = t) ∧
    isUninitTensorDesc t = .ok false ∧ initTensorsAreEqual t u = .ok true := by
  unfold MKLDNNSplitNode.ParentPort.takenDesc at h
  cases hconfig : parent.config with
  | none =>
    rw [hconfig] at h
    exact absurd (pure_ok_iff.mp h) (by simp)
  | some config =>
    simp only [hconfig] at h
    by_cases hnum : parent.num < 0
    · rw [if_pos hnum] at h
      exact absurd (pure_ok_iff.mp h) (by simp)
    · rw [if_neg hnum] at h
      obtain ⟨conf, hconf, h⟩ := bind_ok_iff.mp h
      obtain ⟨uninit, -, h⟩ := bind_ok_iff.mp h
      obtain ⟨conf', hconf', h⟩ := bind_ok_iff.mp h
      obtain ⟨uninit', huninit', h⟩ := bind_ok_iff.mp h
      cases uninit' with
      | true => exact absurd (pure_ok_iff.mp h) (by simp)
      | false =>
        obtain ⟨same, hsame, h⟩ := bind_ok_iff.mp h
        cases same with
        | false => exact absurd (pure_ok_iff.mp h) (by simp)
        | true =>
          obtain rfl : conf'.desc = t := Option.some.inj (pure_ok_iff.mp h)
          refine ⟨⟨conf', ?_, rfl⟩, huninit', hsame⟩
          rw [MKLDNNSplitNode.ParentPort.confs, hconfig, List.mem_append]
          split_ifs at hconf' with hask
          · exact .inr (List.mem_of_getElem? (elemAt_ok_iff.mp hconf').2)
          · obtain rfl := pure_ok_iff.mp hconf'
            exact .inl (List.mem_of_getElem? (elemAt_ok_iff.mp hconf).2)

theorem uninit_of_view (hrank : 0 < src.length)
    (hview : viewDesc src (blkDims block src) (blkOrder block src.length) (splitStrides axis (blkDims block src)) =
      .ok t) :
    t.dims = src ∧ t.layout ≠ .ANY ∧ t.blockingDesc = viewBlocking (blkDims block src) (blkOrder block src.length)
      (splitStrides axis (blkDims block src)) ∧ isUninitTensorDesc t = .ok true := by
  have hlenD : src.length ≤ (blkDims block src).length := by
    rw [length_blkDims]
    simp [blkOrder]
  obtain ⟨hdims, hlayout, -, -, hblocking⟩ := viewDesc_ok (List.ne_nil_of_length_pos hrank)
    (List.ne_nil_of_length_pos (by omega)) (List.ne_nil_of_length_pos (by rw [← length_blkDims]; omega)) hview
  refine ⟨hdims, hlayout.1, hblocking, ?_⟩
  rw [isUninitTensorDesc, if_neg hlayout.1, if_pos (by rw [hblocking]; rfl)]
  rfl

/-- **The input** that `initOptimalPrimitiveDescriptor` finds for a view. -/
theorem initInput_fixed {conf conf' : DataConfig TensorDesc} (haxis : axis < src.length)
    (hrank : src.length ≤ TENSOR_MAX_DIMS) (hwhole : WholeBlocks axis block src) (hpos : ∀ X ∈ src, 0 < X)
    (hsize : src.prod < 2 ^ 63)
    (hview : viewDesc src (blkDims block src) (blkOrder block src.length) (splitStrides axis (blkDims block src)) =
      .ok conf.desc)
    (hbuilt : ∀ c ∈ parent.confs, c.desc.blockingDesc.blockedDims ≠ [] → Built c.desc)
    (h : MKLDNNSplitNode.initInput parent conf = .ok conf') : Fixed axis block src conf'.desc := by
  obtain ⟨hdims, hlayout, hblocking, huninit⟩ := uninit_of_view (by omega) hview
  unfold MKLDNNSplitNode.initInput at h
  rw [if_neg hlayout, huninit, ok_bind] at h
  obtain ⟨taken, htaken, h⟩ := bind_ok_iff.mp h
  cases taken with
  | some t =>
    obtain rfl := pure_ok_iff.mp h
    obtain ⟨⟨c, hc, rfl⟩, hinit, hequal⟩ := takenDesc_some htaken
    exact fixed_of_taken haxis hrank hwhole hpos hsize hview (hbuilt c hc) hinit hequal
  | none =>
    obtain ⟨d, hd, h⟩ := bind_ok_iff.mp h
    obtain ⟨t, ht, h⟩ := bind_ok_iff.mp h
    obtain rfl := pure_ok_iff.mp h
    rw [hblocking] at hd
    rw [hdims] at ht
    exact fixed_of_packed haxis hd ht

end Input

/-! ### The outputs -/

section Outputs

variable {node : MKLDNNSplitNode} {input : InferenceEngine.BlockingDesc}

theorem foldl_toSizeT_modEq (D : SizeVector) (m : Nat) :
    D.foldl (fun size dim => toSizeT (size * dim : Nat)) m ≡ m * D.prod [MOD 2 ^ 64] := by
  induction D generalizing m with
  | nil =>
    rw [List.prod_nil, mul_one]
    rfl
  | cons X D ih =>
    rw [List.foldl_cons, List.prod_cons, ← mul_assoc]
    exact (ih _).trans (toSizeT_modEq.mul_right _)

/-- What the outputs take from the axis on. -/
def takenSizes (axis : Nat) (confs : List (DataConfig TensorDesc)) : List Nat :=
  confs.map fun conf => (conf.desc.blockingDesc.blockedDims.drop axis).prod

/-- **The outputs lie behind one another.** -/
theorem initOutputs_ok {offset : Nat} {confs confs' : List (DataConfig TensorDesc)}
    (hconfs : ∀ conf ∈ confs, conf.desc.dims ≠ [] ∧ conf.desc.blockingDesc.blockedDims ≠ [] ∧
      conf.desc.blockingDesc.order.length = conf.desc.blockingDesc.blockedDims.length)
    (h : node.initOutputs input offset confs = .ok confs') :
    confs'.length = confs.length ∧ ∀ (i : Nat) (conf : DataConfig TensorDesc), confs[i]? = some conf →
      ∃ conf', confs'[i]? = some conf' ∧ conf'.desc.Laid ∧
        conf'.desc.blockingDesc.order = conf.desc.blockingDesc.order ∧
        conf'.desc.blockingDesc.blockedDims = conf.desc.blockingDesc.blockedDims ∧
        conf'.desc.blockingDesc.strides = input.strides ∧
        conf'.desc.blockingDesc.offsetPaddingToData = input.offsetPaddingToData ∧
        conf'.desc.blockingDesc.offsetPadding ≡
          input.offsetPadding + (offset + ((takenSizes node.axis confs).take i).sum) [MOD 2 ^ 64] := by
  induction confs generalizing offset confs' with
  | nil =>
    obtain rfl := pure_ok_iff.mp h
    exact ⟨rfl, by simp⟩
  | cons conf confs ih =>
    obtain ⟨⟨hdims, hblk, hlen⟩, hrest⟩ := List.forall_mem_cons.mp hconfs
    unfold MKLDNNSplitNode.initOutputs at h
    obtain ⟨d, hd, h⟩ := bind_ok_iff.mp h
    obtain ⟨desc, hdesc, h⟩ := bind_ok_iff.mp h
    obtain ⟨rest, hrun, h⟩ := bind_ok_iff.mp h
    obtain rfl := pure_ok_iff.mp h
    unfold InferenceEngine.BlockingDesc.ofStrides at hd
    obtain ⟨d₀, hd₀, hd⟩ := bind_ok_iff.mp hd
    split_ifs at hd with hstrides hoffsets
    · exact absurd hd throwException_ne_ok
    · exact absurd hd throwException_ne_ok
    · obtain rfl := pure_ok_iff.mp hd
      rw [not_not] at hstrides hoffsets
      have horder : conf.desc.blockingDesc.order ≠ [] := by
        apply List.ne_nil_of_length_pos
        rw [hlen]
        exact List.length_pos_of_ne_nil hblk
      rcases InferenceEngine.BlockingDesc.ofOrder_ok hd₀ with ⟨hnil, -⟩ | ⟨-, -, rfl⟩
      · exact absurd hnil (not_or.mpr ⟨hblk, horder⟩)
      · rcases TensorDesc.ofBlocking_ok hdesc with ⟨hnil, -⟩ | ⟨-, -, rfl⟩
        · exact absurd hnil (not_or.mpr ⟨hdims, hblk⟩)
        · obtain ⟨hlenr, hall⟩ := ih hrest hrun
          refine ⟨by simp [hlenr], fun i c hc => ?_⟩
          cases i with
          | zero =>
            obtain rfl := Option.some.inj hc
            refine ⟨_, rfl, ⟨detectLayout_ne, hlen.symm, hstrides.symm.trans hlen.symm,
              hoffsets.symm.trans hlen.symm⟩, rfl, rfl, rfl, rfl, ?_⟩
            rw [List.take_zero, List.sum_nil, Nat.add_zero]
            exact toSizeT_modEq
          | succ i =>
            obtain ⟨c', hc', hlaid, ho, hb, hs, hp, hpad⟩ := hall i c hc
            refine ⟨c', hc', hlaid, ho, hb, hs, hp, hpad.trans (Nat.ModEq.add_left _ ?_)⟩
            have htake : ((takenSizes node.axis (conf :: confs)).take (i + 1)).sum =
                (conf.desc.blockingDesc.blockedDims.drop node.axis).prod +
                  ((takenSizes node.axis confs).take i).sum := by
              rw [takenSizes, List.map_cons, List.take_succ_cons, List.sum_cons]
              rfl
            rw [htake, ← Nat.add_assoc]
            refine Nat.ModEq.add_right _ (toSizeT_modEq.trans (Nat.ModEq.add_left _ ?_))
            have := foldl_toSizeT_modEq (conf.desc.blockingDesc.blockedDims.drop node.axis) 1
            rwa [Nat.one_mul] at this

end Outputs

/-! ### The views -/

section Views

variable {node : MKLDNNSplitNode} {parent : MKLDNNSplitNode.ParentPort}
  {base : LayerConfig TensorDesc → Result (LayerConfig TensorDesc)} {selected config : LayerConfig TensorDesc}
  {src : SizeVector} {sizes : List Nat} {block : Option Nat}

/-- The call of `initOptimalPrimitiveDescriptor` for a configuration in place, loop by loop. -/
theorem initOptimal_ok {conf input : DataConfig TensorDesc} (hopt : selected.outConfs[0]? = some conf)
    (hplace : 0 ≤ conf.inPlace) (hin : selected.inConfs = [input])
    (huninit : isUninitTensorDesc input.desc = .ok true)
    (h : node.initOptimalPrimitiveDescriptor base parent selected = .ok config) :
    ∃ input' outConfs, MKLDNNSplitNode.initInput parent input = .ok input' ∧
      node.initOutputs input'.desc.blockingDesc 0 selected.outConfs = .ok outConfs ∧
      (outConfs.length = selected.outConfs.length → config = { inConfs := [input'], outConfs }) := by
  unfold MKLDNNSplitNode.initOptimalPrimitiveDescriptor at h
  obtain ⟨conf', hconf', h⟩ := bind_ok_iff.mp h
  obtain rfl : conf = conf' := Option.some.inj (hopt.symm.trans (elemAt_ok_iff.mp hconf').2)
  rw [if_neg (not_lt.mpr hplace)] at h
  have hinit : isInitConfig selected = .ok false := by
    rw [isInitConfig, hin, List.singleton_append, List.allM_cons, huninit]
    rfl
  rw [hinit, ok_bind, if_neg Bool.false_ne_true] at h
  obtain ⟨inConfs, hinputs, h⟩ := bind_ok_iff.mp h
  obtain ⟨-, h⟩ := throw_guard_ok_iff.mp h
  obtain ⟨input', hinput', h⟩ := bind_ok_iff.mp h
  obtain ⟨outConfs, houts, hdesc⟩ := bind_ok_iff.mp h
  rw [hin, mapM_ok_iff, List.forall₂_cons_left_iff] at hinputs
  obtain ⟨input'', rest, hfirst, hrest, rfl⟩ := hinputs
  obtain rfl := List.forall₂_nil_left_iff.mp hrest
  obtain rfl : input'' = input' := Option.some.inj (elemAt_ok_iff.mp hinput').2
  refine ⟨input'', outConfs, hfirst, houts, fun hlen => ?_⟩
  unfold MKLDNNSplitNode.initDescriptor at hdesc
  rw [if_neg (by simp [hin, hlen])] at hdesc
  obtain ⟨-, -, hdesc⟩ := bind_ok_iff.mp hdesc
  obtain ⟨-, -, hdesc⟩ := bind_ok_iff.mp hdesc
  exact (pure_ok_iff.mp hdesc).symm

/-- What lies before an output, in steps of its outer block. -/
theorem takenSizes_sum {confs : List (DataConfig TensorDesc)} {axis i : Nat} {Q : Nat}
    (hdvd : ∀ x ∈ sizes, blkUnit block ∣ x)
    (hconfs : takenSizes axis confs = sizes.map fun x => x / blkUnit block * Q) :
    ((takenSizes axis confs).take i).sum = (sizes.take i).sum / blkUnit block * Q := by
  have hsum : ∀ l : List Nat, (∀ x ∈ l, blkUnit block ∣ x) →
      (l.map fun x => x / blkUnit block * Q).sum = l.sum / blkUnit block * Q := by
    intro l hl
    induction l with
    | nil => simp
    | cons x l ih =>
      obtain ⟨hx, hl⟩ := List.forall_mem_cons.mp hl
      rw [List.map_cons, List.sum_cons, ih hl, List.sum_cons, Nat.add_div_of_dvd_right hx, Nat.add_mul]
  rw [hconfs, ← List.map_take]
  exact hsum _ fun x hx => hdvd x (List.mem_of_mem_take hx)

/-- The coordinates of a part are inside the whole. -/
theorem dims_pos {axis x : Nat} {v : SizeVector} (hv : v ∈ box (src.set axis x)) (hle : x ≤ src.getD axis 0) :
    ∀ X ∈ src, 0 < X := by
  intro X hX
  obtain ⟨j, hj, rfl⟩ := List.mem_iff_getElem.mp hX
  have hlt := TensorDesc.coord_lt hv j (by simpa using hj)
  rw [List.getD_eq_getElem (src.set axis x) _ (by simpa using hj), List.getElem_set] at hlt
  split_ifs at hlt with haj
  · rw [haj, List.getD_eq_getElem _ _ hj] at hle
    omega
  · omega

theorem map_toSizeT_cast {D : SizeVector} (h : ∀ X ∈ D, X < 2 ^ 63) :
    (D.map (Nat.cast : Nat → Int)).map toSizeT = D := by
  rw [List.map_map]
  refine (List.map_congr_left fun X hX => ?_).trans (List.map_id D)
  exact toSizeT_natCast ((h X hX).trans (by norm_num))

/-- What is offered for outputs along the axis, in one layout. -/
structure Parts (axis : Nat) (src : SizeVector) (sizes : List Nat) (block : Option Nat)
    (config : LayerConfig TensorDesc) : Prop where
  input : ∃ conf, config.inConfs = [conf] ∧ viewDesc src (blkDims block src) (blkOrder block src.length)
    (splitStrides axis (blkDims block src)) = .ok conf.desc
  length : config.outConfs.length = sizes.length
  output : ∀ (i : Nat) (x : Nat), sizes[i]? = some x → ∃ conf, config.outConfs[i]? = some conf ∧
    viewDesc (src.set axis x) (blkDims block (src.set axis x)) (blkOrder block src.length)
      (splitStrides axis (blkDims block src)) = .ok conf.desc
  whole : WholeBlocks axis block src ∧ ∀ x ∈ sizes, WholeBlocks axis block (src.set axis x)

theorem parts_of_offered {axis : Nat} (hrank : 1 < src.length)
    (h : Offered axis src (sizes.map fun x => src.set axis x) block selected) :
    Parts axis src sizes block selected := by
  have houts := h.outputs
  rw [List.forall₂_map_left_iff, List.forall₂_iff_get] at houts
  refine ⟨h.input, houts.1.symm, fun i x hx => ?_, fun c hc => ?_, fun x hx c hc => ?_⟩
  · obtain ⟨hi, rfl⟩ := List.getElem?_eq_some_iff.mp hx
    have hi' : i < selected.outConfs.length := houts.1 ▸ hi
    exact ⟨selected.outConfs[i], List.getElem?_eq_getElem hi', houts.2 i hi hi'⟩
  · obtain ⟨haxis, hpos, hdvd⟩ := h.whole src List.mem_cons_self c hc
    exact ⟨haxis, hrank, hpos, hdvd⟩
  · obtain ⟨haxis, hpos, hdvd⟩ := h.whole (src.set axis x) (List.mem_cons_of_mem _ (List.mem_map_of_mem hx)) c hc
    exact ⟨haxis, by simpa using hrank, hpos, hdvd⟩

/-- The blocks of the offered output `i`. -/
theorem Parts.blocks {axis i x : Nat} {conf : DataConfig TensorDesc} (h : Parts axis src sizes block selected)
    (hrank : 1 < src.length) (hx : sizes[i]? = some x) (hconf : selected.outConfs[i]? = some conf) :
    conf.desc.dims = src.set axis x ∧ conf.desc.blockingDesc.blockedDims = blkDims block (src.set axis x) ∧
      conf.desc.blockingDesc.order = blkOrder block src.length ∧
      (blkOrder block src.length).length = (blkDims block (src.set axis x)).length ∧
      blkDims block (src.set axis x) ≠ [] := by
  obtain ⟨conf', hconf', hview⟩ := h.output i x hx
  obtain rfl : conf = conf' := Option.some.inj (hconf.symm.trans hconf')
  have hset : (src.set axis x).length = src.length := List.length_set
  have hlen : (blkDims block (src.set axis x)).length = (blkOrder block src.length).length := by
    rw [length_blkDims, hset]
  have horder : src.length ≤ (blkOrder block src.length).length := by
    simp [blkOrder]
  have hblk : blkDims block (src.set axis x) ≠ [] := List.ne_nil_of_length_pos (by omega)
  obtain ⟨hdims, -, -, -, hblocking⟩ := viewDesc_ok (List.ne_nil_of_length_pos (by omega)) hblk
    (List.ne_nil_of_length_pos (by omega)) hview
  rw [hblocking]
  exact ⟨hdims, rfl, rfl, hlen.symm, hblk⟩

theorem Parts.takenSizes_eq {axis : Nat} (h : Parts axis src sizes block selected) (hrank : 1 < src.length)
    (haxis : axis < src.length) : takenSizes axis selected.outConfs =
      sizes.map fun x => x / blkUnit block * ((blkDims block src).drop (axis + 1)).prod := by
  apply List.ext_getElem
  · simp [takenSizes, h.length]
  · intro i hi hi'
    simp only [takenSizes, List.length_map] at hi hi'
    have hx : sizes[i]? = some sizes[i] := List.getElem?_eq_getElem hi'
    have hmem : sizes[i] ∈ sizes := List.getElem_mem hi'
    obtain ⟨-, hblocks, -⟩ := h.blocks hrank hx (List.getElem?_eq_getElem hi)
    simp only [takenSizes, List.getElem_map]
    rw [hblocks, prod_drop_blkDims haxis h.whole.1 (h.whole.2 _ hmem)]

/-- One output beside the input. -/
theorem view_of_fixed {axis x prev : Nat} {input output : TensorDesc} {v : SizeVector} (haxis : axis < src.length)
    (hroom : prev + x ≤ src.getD axis 0) (hv : v ∈ box (src.set axis x)) (hfixed : Fixed axis block src input)
    (hsrc : WholeBlocks axis block src) (hpart : WholeBlocks axis block (src.set axis x))
    (hprev : blkUnit block ∣ prev) (hlaid : output.Laid) (horder : output.blockingDesc.order = blkOrder block src.length)
    (hblocks : output.blockingDesc.blockedDims = blkDims block (src.set axis x))
    (hstrides : output.blockingDesc.strides = input.blockingDesc.strides)
    (hoffsets : output.blockingDesc.offsetPaddingToData = input.blockingDesc.offsetPaddingToData)
    (hpadding : output.blockingDesc.offsetPadding ≡ input.blockingDesc.offsetPadding +
      prev / blkUnit block * ((blkDims block src).drop (axis + 1)).prod [MOD 2 ^ 64]) :
    ∃ a, output.offset v = .ok a ∧ input.offset (moved axis prev v) = .ok a := by
  have hpos := dims_pos hv (by omega)
  have hset : (src.set axis x).length = src.length := List.length_set
  have hlen : v.length = src.length := hset ▸ (mem_box.mp hv).length_eq
  have hvpos : ∀ X ∈ src.set axis x, 0 < X := by
    intro X hX
    obtain ⟨j, hj, rfl⟩ := List.mem_iff_getElem.mp hX
    have hlt := TensorDesc.coord_lt hv j hj
    rw [List.getD_eq_getElem (src.set axis x) _ hj] at hlt
    omega
  have hx : 0 < x := hvpos x (List.mem_set haxis x)
  have hin : input.radices = (blkOrder block src.length).zip (blkDims block src) := by
    rw [TensorDesc.radices, hfixed.order, hfixed.blocks]
  have hout : output.radices = (blkOrder block src.length).zip (blkDims block (src.set axis x)) := by
    rw [TensorDesc.radices, horder, hblocks]
  have hdims : ∀ D : SizeVector, ∀ b ∈ (blkOrder block src.length).zip D, b.1 < src.length := fun D b hb =>
    mem_blkOrder hsrc (List.of_mem_zip hb).1
  refine hfixed.laid.offset_shifted (k := axis) (p := prev / blkUnit block) hlaid ?_ ?_ ?_ ?_ ?_ hstrides hoffsets
    ?_ ?_
  · rw [hin]
    exact blkDims_pos hsrc hpos
  · rw [hout, ← hset]
    exact blkDims_pos hpart hvpos
  · rw [hin, moved, List.length_set, hlen]
    exact hdims _
  · rw [hout, hlen]
    exact hdims _
  · rw [hfixed.order]
    refine lt_of_lt_of_le haxis ?_
    simp [blkOrder]
  · rw [TensorDesc.digits, TensorDesc.digits, hin, hout]
    exact digits_moved haxis hroom hv hsrc hpart hprev
  · rcases hfixed.stride with ⟨rfl, hone⟩ | hstride
    · obtain rfl : prev = 0 := by omega
      simpa using hpadding
    · exact hpadding.trans (Nat.ModEq.add_left _ (hstride.symm.mul_left _))

/-- **The outputs of a split are views of its input.** A configuration in place that is offered for the input `src`
and the outputs of `sizes` along the axis is made into one whose output `i` gives a coordinate vector the element
that the input gives it behind the outputs before. -/
theorem split_views {pds : List PrimitiveDescInfo} {pd : PrimitiveDescInfo} {conf : DataConfig TensorDesc}
    (haxis : node.axis < src.length) (hdims : ∀ X ∈ src, X < 2 ^ 63) (hsrc : node.srcDims = src.map Nat.cast)
    (houts : node.outDims = sizes.map fun x => (src.set node.axis x).map Nat.cast)
    (hsum : sizes.sum = src.getD node.axis 0) (hpds : node.initSupportedPrimitiveDescriptors = .ok pds)
    (hpd : pd ∈ pds) (hopt : pd.config.outConfs[0]? = some conf) (hplace : 0 ≤ conf.inPlace)
    (hbuilt : ∀ c ∈ parent.confs, c.desc.blockingDesc.blockedDims ≠ [] → Built c.desc)
    (h : node.initOptimalPrimitiveDescriptor base parent pd.config = .ok config) :
    ∃ input, config.inConfs = [input] ∧ config.outConfs.length = sizes.length ∧
      ∀ (i : Nat) (x : Nat), sizes[i]? = some x → ∃ output, config.outConfs[i]? = some output ∧
        ∀ v ∈ box (src.set node.axis x), ∃ a, output.desc.offset v = .ok a ∧
          input.desc.offset (moved node.axis (sizes.take i).sum v) = .ok a := by
  obtain ⟨hrank, hmax, hfits, hlegal⟩ := offered_of_mem hpds
  rcases hlegal pd hpd with href | ⟨block, hoffered⟩
  · exact absurd (href conf (List.mem_of_getElem? hopt)) (not_lt.mpr hplace)
  rw [hsrc, List.length_map] at hrank hmax
  have hle : ∀ x ∈ sizes, x ≤ src.getD node.axis 0 := fun x hx => hsum ▸ List.le_sum_of_mem hx
  have hlast : src.getD node.axis 0 < 2 ^ 63 := by
    rw [List.getD_eq_getElem _ _ haxis]
    exact hdims _ (List.getElem_mem haxis)
  have hcast : node.outDims.map (·.map toSizeT) = sizes.map fun x => src.set node.axis x := by
    rw [houts, List.map_map]
    refine List.map_congr_left fun x hx => map_toSizeT_cast fun X hX => ?_
    rcases List.mem_or_eq_of_mem_set hX with hX | rfl
    · exact hdims X hX
    · exact (hle X hx).trans_lt hlast
  rw [hsrc, map_toSizeT_cast hdims, hcast] at hoffered
  have hparts := parts_of_offered hrank hoffered
  obtain ⟨input, hin, hview⟩ := hparts.input
  have huninit : isUninitTensorDesc input.desc = .ok true := (uninit_of_view (by omega) hview).2.2.2
  obtain ⟨input', outConfs, hinput, hrun, hconfig⟩ := initOptimal_ok hopt hplace hin huninit h
  have hconfs : ∀ c ∈ pd.config.outConfs, c.desc.dims ≠ [] ∧ c.desc.blockingDesc.blockedDims ≠ [] ∧
      c.desc.blockingDesc.order.length = c.desc.blockingDesc.blockedDims.length := by
    intro c hc
    obtain ⟨i, hi, rfl⟩ := List.mem_iff_getElem.mp hc
    have hi' : i < sizes.length := hparts.length ▸ hi
    obtain ⟨hd, hb, ho, hlen, hne⟩ := hparts.blocks hrank (List.getElem?_eq_getElem hi') (List.getElem?_eq_getElem hi)
    rw [hd, hb, ho]
    exact ⟨List.ne_nil_of_length_pos (by rw [List.length_set]; omega), hne, hlen⟩
  obtain ⟨hlen, hall⟩ := initOutputs_ok hconfs hrun
  rw [hconfig hlen]
  refine ⟨input', rfl, hlen.trans hparts.length, fun i x hx => ?_⟩
  obtain ⟨c, hc, -⟩ := hparts.output i x hx
  obtain ⟨output, houtput, hlaid, horder, hblocks, hstrides, hoffsets, hpadding⟩ := hall i c hc
  refine ⟨output, houtput, fun v hv => ?_⟩
  have hx' : x ∈ sizes := List.mem_of_getElem? hx
  obtain ⟨-, hcb, hco, -⟩ := hparts.blocks hrank hx hc
  have hpos := dims_pos hv (hle x hx')
  have hsize : src.prod < 2 ^ 63 := by
    have hprod : node.srcDims.prod = (src.prod : Int) := by
      rw [hsrc]
      exact (Nat.cast_list_prod src).symm
    have hlt := hfits.2
    rw [hprod] at hlt
    exact_mod_cast hlt
  have hfixed := initInput_fixed haxis hmax hparts.whole.1 hpos hsize hview hbuilt hinput
  have hunit : ∀ y ∈ sizes, blkUnit block ∣ y := by
    intro y hy
    cases block with
    | none => exact one_dvd y
    | some b =>
      obtain ⟨hone, hlen1, -, hdvd⟩ := hparts.whole.2 y hy b rfl
      rw [List.length_set] at hlen1
      rw [hone, List.getD_eq_getElem _ _ (by simpa using hlen1), List.getElem_set_self] at hdvd
      exact hdvd
  have hroom : (sizes.take i).sum + x ≤ src.getD node.axis 0 := by
    obtain ⟨hi, rfl⟩ := List.getElem?_eq_some_iff.mp hx
    have hsplit := List.sum_take_succ sizes i hi
    have hle := (List.take_sublist (i + 1) sizes).sum_le_sum fun _ _ => Nat.zero_le _
    omega
  rw [takenSizes_sum hunit (hparts.takenSizes_eq hrank haxis), Nat.zero_add] at hpadding
  exact view_of_fixed haxis hroom hv hfixed hparts.whole.1 (hparts.whole.2 x hx')
    (List.dvd_sum fun y hy => hunit y (List.mem_of_mem_take hy)) hlaid (horder.trans hco) (hblocks.trans hcb) hstrides
    hoffsets hpadding

/-- 24 channels cut into 8 and 16. -/
def channelSplit : MKLDNNSplitNode where
  name := "split"
  axis := 1
  srcDims := [2, 24, 3, 3]
  dstFirstDims := [2, 8, 3, 3]
  outDims := [[2, 8, 3, 3], [2, 16, 3, 3]]

def channelView (dims blk : SizeVector) : DataConfig TensorDesc where
  desc :=
    { precision := .FP32
      dims
      layout := .BLOCKED
      blockingDesc := viewBlocking blk [0, 1, 2, 3, 1] [notInit, 72, 24, 8, 1] }
  inPlace := 0

/-- The views in blocks of 8 channels. -/
def channelViews : LayerConfig TensorDesc where
  inConfs := [{ channelView [2, 24, 3, 3] [2, 3, 3, 3, 8] with inPlace := -1 }]
  outConfs := [channelView [2, 8, 3, 3] [2, 1, 3, 3, 8], channelView [2, 16, 3, 3] [2, 2, 3, 3, 8]]

theorem split_views_channels : ∃ config input output,
    channelSplit.initOptimalPrimitiveDescriptor pure ⟨0, none, {}⟩ channelViews = .ok config ∧
    config.inConfs = [input] ∧ config.outConfs[1]? = some output ∧
      ∀ v ∈ box [2, 16, 3, 3], ∃ a, output.desc.offset v = .ok a ∧ input.desc.offset (moved 1 8 v) = .ok a := by
  have hpds : channelSplit.initSupportedPrimitiveDescriptors = .ok [_, _, ⟨channelViews, .unknown⟩] := rfl
  have hrun : channelSplit.initOptimalPrimitiveDescriptor pure ⟨0, none, {}⟩ channelViews = .ok _ := rfl
  have haxis : channelSplit.axis < [2, 24, 3, 3].length := by decide
  have houts : channelSplit.outDims =
    [8, 16].map fun x => (List.set [2, 24, 3, 3] channelSplit.axis x).map Nat.cast := rfl
  have hopt : channelViews.outConfs[0]? = some (channelView [2, 8, 3, 3] [2, 1, 3, 3, 8]) := rfl
  have hplace : 0 ≤ (channelView [2, 8, 3, 3] [2, 1, 3, 3, 8]).inPlace := by decide
  have hbuilt : ∀ c ∈ MKLDNNSplitNode.ParentPort.confs ⟨0, none, {}⟩,
      c.desc.blockingDesc.blockedDims ≠ [] → Built c.desc := by
    simp [MKLDNNSplitNode.ParentPort.confs]
  obtain ⟨input, hin, -, hall⟩ := split_views haxis (by decide) rfl houts rfl hpds
    (List.mem_cons_of_mem _ (List.mem_cons_of_mem _ (List.mem_singleton_self _))) hopt hplace hbuilt hrun
  obtain ⟨output, hout, hview⟩ := hall 1 16 rfl
  exact ⟨_, input, output, hrun, hin, hout, hview⟩

end Views

end OpenVino.MKLDNNPlugin
