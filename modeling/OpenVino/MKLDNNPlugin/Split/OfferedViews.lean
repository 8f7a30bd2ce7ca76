import OpenVino.MKLDNNPlugin.Split.Blocks

/-!
# The views that a split offers

What the comparisons of descriptors say when they succeed (`not_isUninit`, `initTensorsAreEqual_true`), and the
configurations that `initSupportedPrimitiveDescriptors` offers: besides the reference implementation, views in one of
the layouts of `Blocks` (`offered_of_mem`).
-/

namespace OpenVino.MKLDNNPlugin

open InferenceEngine (SizeVector toSizeT elemAt elemAt_ok_iff TensorDesc)
open InferenceEngine.TensorDesc (detectLayout_ne)

/-! ### Loops with answers -/

theorem allM_ok_true {α : Type} {f : α → Result Bool} {l : List α} (h : l.allM f = .ok true) :
    ∀ a ∈ l, f a = .ok true := by
  induction l with
  | nil => simp
  | cons a l ih =>
    rw [List.allM_cons] at h
    obtain ⟨b, hb, h⟩ := bind_ok_iff.mp h
    cases b with
    | false => exact absurd (pure_ok_iff.mp h) (by simp)
    | true =>
      intro c hc
      rcases List.mem_cons.mp hc with rfl | hc
      · exact hb
      · exact ih h c hc

theorem anyM_ok_false {α : Type} {f : α → Result Bool} {l : List α} (h : l.anyM f = .ok false) :
    ∀ a ∈ l, f a = .ok false := by
  induction l with
  | nil => simp
  | cons a l ih =>
    rw [List.anyM_cons] at h
    obtain ⟨b, hb, h⟩ := bind_ok_iff.mp h
    cases b with
    | true => exact absurd (pure_ok_iff.mp h) (by simp)
    | false =>
      intro c hc
      rcases List.mem_cons.mp hc with rfl | hc
      · exact hb
      · exact ih h c hc

theorem elemAt_natCast {α : Type} {e : String} {l : List α} {i : Nat} {a : α} :
    elemAt e l i = .ok a ↔ l[i]? = some a := by
  rw [elemAt_ok_iff, Int.toNat_natCast, and_iff_right (Int.natCast_nonneg i)]

/-! ### Descriptors that agree -/

section Agree

variable {t u : TensorDesc} {d e : InferenceEngine.BlockingDesc} {b i : Nat}

theorem not_isUninit (h : isUninitTensorDesc t = .ok false) :
    t.layout ≠ .ANY ∧ ∀ i < t.blockingDesc.order.length, ∃ s, t.blockingDesc.strides[i]? = some s ∧ s ≠ notInit := by
  unfold isUninitTensorDesc at h
  split_ifs at h with hany hoffset
  · exact absurd (pure_ok_iff.mp h) (by simp)
  · exact absurd (pure_ok_iff.mp h) (by simp)
  · refine ⟨hany, fun i hi => ?_⟩
    have hentry := anyM_ok_false h i (List.mem_range.mpr hi)
    obtain ⟨offset, -, hentry⟩ := bind_ok_iff.mp hentry
    split_ifs at hentry with hpad
    · exact absurd (pure_ok_iff.mp hentry) (by simp)
    · obtain ⟨s, hs, hentry⟩ := bind_ok_iff.mp hentry
      refine ⟨s, elemAt_natCast.mp hs, ?_⟩
      simpa using pure_ok_iff.mp hentry

theorem entriesAgree_true {getter : String} {l1 l2 : SizeVector} (h : entriesAgree getter l1 l2 i = .ok true) :
    ∃ x y, l1[i]? = some x ∧ l2[i]? = some y ∧ agree x y := by
  unfold entriesAgree at h
  obtain ⟨x, hx, h⟩ := bind_ok_iff.mp h
  obtain ⟨y, hy, h⟩ := bind_ok_iff.mp h
  exact ⟨x, y, elemAt_natCast.mp hx, elemAt_natCast.mp hy, pure_ok_iff.mp h⟩

theorem blocksAgree_true (h : blocksAgree b d e i = .ok true) :
    (∃ x y, d.blockedDims[i]? = some x ∧ e.blockedDims[i]? = some y ∧ agree x y) ∧
    (b ≤ i → ∃ x y, d.strides[i]? = some x ∧ e.strides[i]? = some y ∧ agree x y) ∧
    ∃ x y, d.order[i]? = some x ∧ e.order[i]? = some y ∧ agree x y := by
  unfold blocksAgree at h
  obtain ⟨dims, hdims, h⟩ := bind_ok_iff.mp h
  cases dims with
  | false => exact absurd (pure_ok_iff.mp h) (by simp)
  | true =>
    obtain ⟨offsets, -, h⟩ := bind_ok_iff.mp h
    cases offsets with
    | false => exact absurd (pure_ok_iff.mp h) (by simp)
    | true =>
      obtain ⟨strides, hstrides, h⟩ := bind_ok_iff.mp h
      cases strides with
      | false => exact absurd (pure_ok_iff.mp h) (by simp)
      | true =>
        refine ⟨entriesAgree_true hdims, fun hb => ?_, entriesAgree_true h⟩
        rw [if_pos hb] at hstrides
        exact entriesAgree_true hstrides

theorem initTensorsAreEqual_true (h : initTensorsAreEqual t u = .ok true) (ht : t.layout ≠ .ANY)
    (hu : u.layout ≠ .ANY ∧ u.layout ≠ .SCALAR) :
    t.dims = u.dims ∧ t.blockingDesc.blockedDims.length = u.blockingDesc.blockedDims.length ∧
      ∀ i < t.blockingDesc.blockedDims.length,
        blocksAgree (if u.dims.getD 0 0 = 1 then 1 else 0) t.blockingDesc u.blockingDesc i = .ok true := by
  unfold initTensorsAreEqual at h
  by_cases hdims : t.dims ≠ u.dims ∨ t.precision ≠ u.precision
  · rw [if_pos hdims] at h
    exact absurd (pure_ok_iff.mp h) (by simp)
  · rw [if_neg hdims, if_neg fun hscalar => hu.2 hscalar.2, if_neg (not_or.mpr ⟨ht, hu.1⟩)] at h
    rw [not_or, not_not] at hdims
    obtain ⟨dim, hdim, h⟩ := bind_ok_iff.mp h
    have hdim : u.dims.getD 0 0 = dim := by
      have := (elemAt_ok_iff.mp hdim).2
      rw [← hdims.1, List.getD_eq_getElem?_getD, ← Int.toNat_zero, this, Option.getD_some]
    by_cases hlen : t.blockingDesc.blockedDims.length ≠ u.blockingDesc.blockedDims.length
    · rw [if_pos hlen] at h
      exact absurd (pure_ok_iff.mp h) (by simp)
    · rw [if_neg hlen] at h
      obtain ⟨same, hsame, h⟩ := bind_ok_iff.mp h
      have hsame' : same = true := (Bool.and_eq_true_iff.mp (pure_ok_iff.mp h)).1
      subst hsame'
      refine ⟨hdims.1, not_not.mp hlen, fun i hi => ?_⟩
      rw [hdim]
      exact allM_ok_true hsame i (List.mem_range.mpr hi)

end Agree

/-! ### The offered views -/

section Offered

variable {dims blk order strides src : SizeVector} {desc : TensorDesc} {node : MKLDNNSplitNode} {c : Nat}

/-- The blocks of a view, whose place is not known yet. -/
def viewBlocking (blk order strides : SizeVector) : InferenceEngine.BlockingDesc where
  blockedDims := blk
  strides := strides
  order := order
  offsetPaddingToData := order.map fun _ => 0
  offsetPadding := notInit

theorem viewDesc_ok (hdims : dims ≠ []) (hblk : blk ≠ []) (horder : order ≠ [])
    (h : viewDesc dims blk order strides = .ok desc) :
    desc.dims = dims ∧ (desc.layout ≠ .ANY ∧ desc.layout ≠ .SCALAR) ∧ order.length = blk.length ∧
      strides.length = blk.length ∧ desc.blockingDesc = viewBlocking blk order strides := by
  unfold viewDesc at h
  obtain ⟨d, hd, h⟩ := bind_ok_iff.mp h
  unfold InferenceEngine.BlockingDesc.ofStrides at hd
  obtain ⟨d₀, hd₀, hd⟩ := bind_ok_iff.mp hd
  split_ifs at hd with hstrides hoffsets
  · exact absurd hd throwException_ne_ok
  · exact absurd hd throwException_ne_ok
  · obtain rfl := pure_ok_iff.mp hd
    rcases InferenceEngine.BlockingDesc.ofOrder_ok hd₀ with ⟨hnil, -⟩ | ⟨hlen, -, rfl⟩
    · exact absurd hnil (not_or.mpr ⟨hblk, horder⟩)
    · rcases TensorDesc.ofBlocking_ok h with ⟨hnil, -⟩ | ⟨-, -, rfl⟩
      · exact absurd hnil (not_or.mpr ⟨hdims, hblk⟩)
      · exact ⟨rfl, detectLayout_ne, hlen, (not_not.mp hstrides).symm, rfl⟩

/-- A configuration of views in the layout `block` of an input `src` and the outputs `outs`. -/
structure Offered (axis : Nat) (src : SizeVector) (outs : List SizeVector) (block : Option Nat)
    (config : LayerConfig TensorDesc) : Prop where
  input : ∃ conf, config.inConfs = [conf] ∧ viewDesc src (blkDims block src) (blkOrder block src.length)
    (splitStrides axis (blkDims block src)) = .ok conf.desc
  outputs : List.Forall₂ (fun dims conf => viewDesc dims (blkDims block dims) (blkOrder block src.length)
    (splitStrides axis (blkDims block src)) = .ok conf.desc) outs config.outConfs
  whole : ∀ dims ∈ src :: outs, ∀ c ∈ block, axis = 1 ∧ 0 < c ∧ c ∣ dims.getD 1 0

theorem blockedOuts_ok {outs : List SizeVector} {confs confs' : List (DataConfig TensorDesc)} {canInplace : Bool}
    (hlen : confs.length = outs.length)
    (h : MKLDNNSplitNode.blockedOuts c order strides outs confs = .ok (canInplace, confs')) :
    confs'.length = outs.length ∧ (canInplace = true → List.Forall₂ (fun dims conf => c ∣ dims.getD 1 0 ∧
      viewDesc dims (MKLDNNMemoryDesc.channelBlocks dims c) order strides = .ok conf.desc) outs confs') := by
  induction outs generalizing confs confs' with
  | nil =>
    obtain rfl := List.length_eq_zero_iff.mp hlen
    obtain ⟨-, rfl⟩ := Prod.mk.inj (pure_ok_iff.mp h)
    exact ⟨rfl, fun _ => .nil⟩
  | cons dims outs ih =>
    obtain ⟨conf, confs, rfl⟩ := List.exists_cons_of_length_eq_add_one hlen
    unfold MKLDNNSplitNode.blockedOuts at h
    split_ifs at h with hmod
    · obtain ⟨rfl, rfl⟩ := Prod.mk.inj (pure_ok_iff.mp h)
      exact ⟨hlen, by simp⟩
    · obtain ⟨desc, hdesc, h⟩ := bind_ok_iff.mp h
      obtain ⟨⟨canInplace', confs''⟩, hrest, h⟩ := bind_ok_iff.mp h
      obtain ⟨rfl, rfl⟩ := Prod.mk.inj (pure_ok_iff.mp h)
      obtain ⟨hlen', hall⟩ := ih (Nat.succ.inj hlen) hrest
      refine ⟨by simp [hlen'], fun hcan => .cons ⟨Nat.dvd_of_mod_eq_zero (not_not.mp hmod), hdesc⟩ (hall hcan)⟩

/-- The reference implementation, or views. -/
def MKLDNNSplitNode.Legal (node : MKLDNNSplitNode) (pd : PrimitiveDescInfo) : Prop :=
  (∀ conf ∈ pd.config.outConfs, conf.inPlace < 0) ∨
    ∃ block, Offered node.axis (node.srcDims.map toSizeT) (node.outDims.map (·.map toSizeT)) block pd.config

theorem addBlocked_ok {s s' : List PrimitiveDescInfo × List (DataConfig TensorDesc)} (haxis : node.axis = 1)
    (hc : 0 < c) (hlen : s.2.length = node.outDims.length) (hlegal : ∀ pd ∈ s.1, node.Legal pd)
    (h : node.addBlocked s c = .ok s') : s'.2.length = node.outDims.length ∧ ∀ pd ∈ s'.1, node.Legal pd := by
  unfold MKLDNNSplitNode.addBlocked at h
  dsimp only at h
  split_ifs at h with hmod
  · obtain rfl := pure_ok_iff.mp h
    exact ⟨hlen, hlegal⟩
  · obtain ⟨desc, hdesc, h⟩ := bind_ok_iff.mp h
    obtain ⟨⟨canInplace, outConfs⟩, houts, h⟩ := bind_ok_iff.mp h
    obtain rfl := pure_ok_iff.mp h
    obtain ⟨hlen', hall⟩ := blockedOuts_ok (by simpa using hlen) houts
    refine ⟨by simpa using hlen', ?_⟩
    cases canInplace with
    | false => exact hlegal
    | true =>
      have hall := hall rfl
      intro pd hpd
      rcases List.mem_append.mp hpd with hpd | hpd
      · exact hlegal pd hpd
      · rw [List.mem_singleton.mp hpd]
        refine .inr ⟨some c, ⟨_, rfl, hdesc⟩, hall.imp fun _ _ h => h.2, ?_⟩
        intro dims hdims c' hc'
        obtain rfl : c = c' := Option.some.inj hc'
        refine ⟨haxis, hc, ?_⟩
        rcases List.mem_cons.mp hdims with rfl | hdims
        · exact Nat.dvd_of_mod_eq_zero (not_not.mp hmod)
        · obtain ⟨i, hi, rfl⟩ := List.mem_iff_getElem.mp hdims
          exact ((List.forall₂_iff_get.mp hall).2 i hi (hlen' ▸ hi)).1

theorem addOutput_ok {s s' : List (DataConfig TensorDesc) × Int} {o_Dims : MKLDNNDims}
    (h : node.addOutput s o_Dims = .ok s') (hs : ∀ conf ∈ s.1, conf.inPlace < 0) :
    ∀ conf ∈ s'.1, conf.inPlace < 0 := by
  unfold MKLDNNSplitNode.addOutput at h
  obtain ⟨-, h⟩ := throw_guard_ok_iff.mp h
  obtain ⟨desc, -, h⟩ := bind_ok_iff.mp h
  obtain ⟨dim, -, h⟩ := bind_ok_iff.mp h
  obtain ⟨axis_size, -, h⟩ := bind_ok_iff.mp h
  obtain ⟨-, h⟩ := throw_guard_ok_iff.mp h
  obtain rfl := pure_ok_iff.mp h
  intro conf hconf
  rcases List.mem_append.mp hconf with hconf | hconf
  · exact hs conf hconf
  · rw [List.mem_singleton.mp hconf]
    exact (by decide : (-1 : Int) < 0)

theorem dimsSize_ok {dims : MKLDNNDims} {size : Int} (h : dimsSize dims = .ok size) (hne : dims ≠ []) :
    size = dims.prod ∧ FitsPtrdiff size := by
  have hinv := foldlM_ok_induct (I := fun pre (size : Int) => size = pre.prod ∧ (pre ≠ [] → FitsPtrdiff size)) h
    ⟨rfl, by simp⟩ ?_
  · exact ⟨hinv.1, hinv.2 hne⟩
  · intro pre dim post size size' _ hpre hstep
    obtain ⟨hfits, rfl⟩ := ptrdiffArith_ok_iff.mp hstep
    exact ⟨by rw [hpre.1, List.prod_append, List.prod_singleton], fun _ => hfits⟩

theorem length_le_of_memoryTensorDesc {dims : MKLDNNDims} {format : Format}
    (h : memoryTensorDesc dims .f32 format = .ok desc) (hne : dims ≠ []) : dims.length ≤ TENSOR_MAX_DIMS := by
  unfold memoryTensorDesc at h
  obtain ⟨md, hmd, -⟩ := bind_ok_iff.mp h
  unfold MKLDNNMemoryDesc.ofFormat at hmd
  obtain ⟨md₀, hmd₀, -⟩ := bind_ok_iff.mp hmd
  unfold memory_desc_init at hmd₀
  by_contra hlen
  rw [if_neg (by simp [hne]), if_pos (.inl (by omega))] at hmd₀
  exact throwException_ne_ok hmd₀

/-- **Every offered configuration**, and the bound that the check of the sizes gives. -/
theorem offered_of_mem {pds : List PrimitiveDescInfo} (h : node.initSupportedPrimitiveDescriptors = .ok pds) :
    1 < node.srcDims.length ∧ node.srcDims.length ≤ TENSOR_MAX_DIMS ∧ FitsPtrdiff node.srcDims.prod ∧
      ∀ pd ∈ pds, node.Legal pd := by
  unfold MKLDNNSplitNode.initSupportedPrimitiveDescriptors at h
  obtain ⟨desc, hany, h⟩ := bind_ok_iff.mp h
  obtain ⟨hrank, h⟩ := throw_guard_ok_iff.mp h
  obtain ⟨⟨outConfs, axis_size⟩, houts, h⟩ := bind_ok_iff.mp h
  obtain ⟨dstSize, -, h⟩ := bind_ok_iff.mp h
  obtain ⟨srcSize, hsrcSize, h⟩ := bind_ok_iff.mp h
  obtain ⟨-, h⟩ := throw_guard_ok_iff.mp h
  obtain ⟨desc', hdesc', h⟩ := bind_ok_iff.mp h
  obtain ⟨plainOuts, hplain, h⟩ := bind_ok_iff.mp h
  have hne : node.srcDims ≠ [] := by
    intro hnil
    rw [hnil] at hrank
    exact hrank (by decide)
  obtain ⟨hsize, hfits⟩ := dimsSize_ok hsrcSize hne
  refine ⟨by omega, length_le_of_memoryTensorDesc hany hne, hsize ▸ hfits, ?_⟩
  have hrefOuts : ∀ conf ∈ outConfs, conf.inPlace < 0 := foldlM_ok_induct
    (I := fun _ (s : List (DataConfig TensorDesc) × Int) => ∀ conf ∈ s.1, conf.inPlace < 0) houts (by simp)
    fun _ _ _ _ _ _ hs hstep => addOutput_ok hstep hs
  have hplainOuts := mapM_ok_iff.mp hplain
  have hbase : ∀ pd ∈ [PrimitiveDescInfo.mk { inConfs := [{ desc := desc }], outConfs } .ref,
      { config := { inConfs := [{ desc := desc' }], outConfs := plainOuts }, implementationType := .unknown }],
      node.Legal pd := by
    intro pd hpd
    rcases List.mem_pair.mp hpd with rfl | rfl
    · exact .inl hrefOuts
    · refine .inr ⟨none, ⟨_, rfl, ?_⟩, hplainOuts.imp fun dims conf hconf => ?_, by simp⟩
      · simpa [blkOrder, blkDims] using hdesc'
      · obtain ⟨desc, hdesc, hconf⟩ := bind_ok_iff.mp hconf
        obtain rfl := pure_ok_iff.mp hconf
        simpa [blkOrder, blkDims] using hdesc
  split_ifs at h with hplainOnly
  · obtain rfl := pure_ok_iff.mp h
    exact hbase
  · rw [not_or, not_not] at hplainOnly
    obtain ⟨⟨pds', confs⟩, hblocked, h⟩ := bind_ok_iff.mp h
    obtain rfl := pure_ok_iff.mp h
    have hlen : plainOuts.length = node.outDims.length := by
      simpa using hplainOuts.length_eq.symm
    have hinv := foldlM_ok_induct (I := fun _ (s : List PrimitiveDescInfo × List (DataConfig TensorDesc)) =>
      s.2.length = node.outDims.length ∧ ∀ pd ∈ s.1, node.Legal pd) hblocked ⟨hlen, hbase⟩ ?_
    · exact hinv.2
    · intro pre c post s s' hl hs hstep
      have hc : 0 < c := by
        have hmem : c ∈ [8, 16] := hl ▸ List.mem_append_right pre List.mem_cons_self
        rcases List.mem_pair.mp hmem with rfl | rfl
        · decide
        · decide
      exact addBlocked_ok hplainOnly.2 hc hs.1 hs.2 hstep

end Offered

end OpenVino.MKLDNNPlugin
