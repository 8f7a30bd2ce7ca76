import OpenVino.Base.Runs
import OpenVino.MKLDNNPlugin.Graph.EdgeDescs

/-!
# Found descriptors are those of the nodes

A call of `getSpecifiedInputDesc` or `getSpecifiedOutputDesc` overwrites only descriptors that had no layout when
it began (`Extends`), whatever the nested calls have written meanwhile; `input_ends` and `output_ends` say
what the two functions return for any nested calls that keep to this (`Answers`). When `getSpecifiedOutputDesc`
has to decide it reads the child's inputs at the port of the edge, which need not be one of them, and returns
what the child has among its outputs at the clamped port (`sum_index_out_of_range`). `descs_agree`: in the runs
where no such answer is taken, what has been found is what the configurations hold.
-/

namespace OpenVino.MKLDNNPlugin

open InferenceEngine (TensorDesc Layout)

/-! ### A memory descriptor with a format has a layout -/

section Layout

variable {dims : MKLDNNDims} {dataType : DataType} {format : Format} {desc : MemoryDesc} {t : TensorDesc}

theorem MemoryDesc.fill_nonblocked_format {md : MemoryDesc} {perm : List Nat} (h : md.fill_nonblocked perm = .ok desc) :
    desc.format = md.format := by
  simp only [MemoryDesc.fill_nonblocked, bind_ok_iff, pure_ok_iff] at h
  obtain ⟨_, -, _, -, rfl⟩ := h
  rfl

theorem MemoryDesc.fill_contiguous_blocked_format {md : MemoryDesc} {block_dims : List Int}
    (h : md.fill_contiguous_blocked block_dims = .ok desc) : desc.format = md.format := by
  simp only [MemoryDesc.fill_contiguous_blocked, bind_ok_iff, pure_ok_iff] at h
  obtain ⟨_, -, _, -, rfl⟩ := h
  rfl

theorem MemoryDesc.compute_blocking_format {md : MemoryDesc} (h : md.compute_blocking = .ok desc) :
    desc.format = md.format := by
  unfold MemoryDesc.compute_blocking at h
  split at h <;>
    first
    | exact MemoryDesc.fill_nonblocked_format h
    | exact MemoryDesc.fill_contiguous_blocked_format h
    | exact absurd h throwException_ne_ok

theorem memory_desc_init_format (h : memory_desc_init dims dataType format = .ok desc) :
    desc.format = format ∨ desc.format = .format_undef := by
  unfold memory_desc_init at h
  simp only at h
  split_ifs at h with hundef hinvalid hany
  · rw [← pure_ok_iff.mp h]
    exact .inr rfl
  · exact absurd h throwException_ne_ok
  · rw [← pure_ok_iff.mp h]
    exact .inl rfl
  · exact .inl (MemoryDesc.compute_blocking_format h)

theorem MKLDNNMemoryDesc.createBlockingDesc_format {md : MemoryDesc}
    (h : MKLDNNMemoryDesc.CreateBlockingDesc md = .ok desc) : desc.format = .blocked := by
  unfold MKLDNNMemoryDesc.CreateBlockingDesc at h
  split_ifs at h
  simp only [bind_ok_iff, pure_ok_iff] at h
  obtain ⟨_, -, rfl⟩ := h
  rfl

theorem MKLDNNMemoryDesc.ofFormat_ne_any (hformat : format ≠ .any)
    (h : MKLDNNMemoryDesc.ofFormat dims dataType format = .ok desc) : desc.format ≠ .any := by
  simp only [MKLDNNMemoryDesc.ofFormat, bind_ok_iff] at h
  obtain ⟨_, -, h⟩ := h
  split_ifs at h
  · simp only [bind_ok_iff] at h
    obtain ⟨_, -, h⟩ := h
    rw [MKLDNNMemoryDesc.createBlockingDesc_format h]
    decide
  · rcases memory_desc_init_format h with h | h <;> rw [h]
    · exact hformat
    · decide
  · rw [MKLDNNMemoryDesc.createBlockingDesc_format h]
    decide

theorem MKLDNNMemoryDesc.blocksOf_ne_any {precision : InferenceEngine.Precision} {sizes : InferenceEngine.SizeVector}
    {layout : Layout} {order blkDims : InferenceEngine.SizeVector} (hformat : desc.format ≠ .any)
    (h : MKLDNNMemoryDesc.blocksOf desc precision sizes = .ok (layout, order, blkDims)) : layout ≠ .ANY := by
  unfold MKLDNNMemoryDesc.blocksOf at h
  simp only at h
  split at h <;> (try split_ifs at h) <;>
    first
    | exact absurd h throwException_ne_ok
    | (rename_i hany; exact absurd hany hformat)
    | (obtain ⟨rfl, -⟩ := Prod.mk.inj (pure_ok_iff.mp h); decide)

theorem MKLDNNMemoryDesc.toTensorDesc_ne_any (hformat : desc.format ≠ .any)
    (h : MKLDNNMemoryDesc.toTensorDesc desc = .ok t) : t.layout ≠ .ANY := by
  simp only [MKLDNNMemoryDesc.toTensorDesc, bind_ok_iff] at h
  obtain ⟨precision, -, ⟨layout, order, blkDims⟩, hblocks, h⟩ := h
  rw [if_neg hformat] at h
  simp only [bind_ok_iff] at h
  obtain ⟨_, -, _, -, h⟩ := h
  unfold TensorDesc.setLayout at h
  split_ifs at h
  · rw [← pure_ok_iff.mp h]
    exact MKLDNNMemoryDesc.blocksOf_ne_any hformat hblocks
  · exact absurd h throwException_ne_ok

theorem memoryTensorDesc_ne_any (hformat : format ≠ .any) (h : memoryTensorDesc dims dataType format = .ok t) :
    t.layout ≠ .ANY := by
  simp only [memoryTensorDesc, bind_ok_iff] at h
  obtain ⟨desc, hdesc, ht⟩ := h
  exact MKLDNNMemoryDesc.toTensorDesc_ne_any (MKLDNNMemoryDesc.ofFormat_ne_any hformat hdesc) ht

theorem ofBlocking_ne_any {precision : InferenceEngine.Precision} {sizes : InferenceEngine.SizeVector}
    {blocking : InferenceEngine.BlockingDesc} (h : TensorDesc.ofBlocking precision sizes blocking = .ok t) :
    t.layout ≠ .ANY := by
  rcases TensorDesc.ofBlocking_ok h with ⟨-, rfl⟩ | ⟨-, -, rfl⟩
  · exact (by decide : Layout.SCALAR ≠ .ANY)
  · exact TensorDesc.detectLayout_ne.1

end Layout

/-! ### Formats that are counted -/

/-- No key of the map stands for no format. -/
def Counted (formats : Formats) : Prop := ∀ p ∈ formats, isSpecified p.1 = true

theorem Counted.countFormat {formats : Formats} {format : Format} (h : Counted formats) (hformat : isSpecified format = true) :
    Counted (countFormat formats format) := by
  induction formats with
  | nil => exact List.forall_mem_cons.mpr ⟨hformat, by simp⟩
  | cons p formats ih =>
    obtain ⟨hp, htail⟩ := List.forall_mem_cons.mp h
    rw [OpenVino.MKLDNNPlugin.countFormat]
    split_ifs
    · exact List.forall_mem_cons.mpr ⟨hp, htail⟩
    · exact List.forall_mem_cons.mpr ⟨hformat, h⟩
    · exact List.forall_mem_cons.mpr ⟨hp, ih htail⟩

theorem chooseFormat_ne_any {dims : MKLDNNDims} {formats : Formats} (h : Counted formats) : chooseFormat dims formats ≠ .any := by
  have hplain : GetPlainFormat dims ≠ .any := by
    unfold GetPlainFormat
    split <;> decide
  unfold chooseFormat
  suffices ∀ best : Nat × Format, best.2 ≠ .any → (formats.foldl (fun (best : Nat × Format) it =>
      if best.1 < it.2 ∧ isConsistant dims it.1 then (it.2, it.1) else best) best).2 ≠ .any from this _ hplain
  intro best hbest
  induction formats generalizing best with
  | nil => exact hbest
  | cons p formats ih =>
    obtain ⟨hp, htail⟩ := List.forall_mem_cons.mp h
    rw [List.foldl_cons]
    apply ih htail
    split_ifs
    · intro heq
      simp only at heq
      rw [heq] at hp
      exact absurd hp (by decide)
    · exact hbest

/-! ### What a call may write -/

/-- A specified descriptor stays. -/
def Keeps (conf conf' : DataConfig TensorDesc) : Prop := conf.desc.layout ≠ .ANY → conf'.desc = conf.desc

structure Fills (confs confs' : List (DataConfig TensorDesc)) : Prop where
  length_eq : confs'.length = confs.length
  keeps : ∀ (i : Nat) conf, confs[i]? = some conf → ∃ conf', confs'[i]? = some conf' ∧ Keeps conf conf'

structure Extends (s s' : EdgeDescs) : Prop where
  configs : ∀ n config, s.configs n = some config → ∃ config', s'.configs n = some config' ∧
    Fills config.inConfs config'.inConfs ∧ Fills config.outConfs config'.outConfs
  inputDesc : s'.inputDesc = s.inputDesc
  outputDesc : s'.outputDesc = s.outputDesc

section Extends

variable {confs confs' confs'' : List (DataConfig TensorDesc)} {conf : DataConfig TensorDesc} {s s' s'' : EdgeDescs}
  {idx : Int} {d : TensorDesc} {n : NodeId} {config : LayerConfig TensorDesc}

theorem Fills.refl (confs : List (DataConfig TensorDesc)) : Fills confs confs :=
  ⟨rfl, fun _ conf h => ⟨conf, h, fun _ => rfl⟩⟩

theorem Fills.trans (h : Fills confs confs') (h' : Fills confs' confs'') : Fills confs confs'' := by
  refine ⟨h'.length_eq.trans h.length_eq, fun i conf hconf => ?_⟩
  obtain ⟨conf', hconf', hkeeps⟩ := h.keeps i conf hconf
  obtain ⟨conf'', hconf'', hkeeps'⟩ := h'.keeps i conf' hconf'
  refine ⟨conf'', hconf'', fun hany => ?_⟩
  have hdesc := hkeeps hany
  rw [hkeeps' (by rwa [hdesc]), hdesc]

theorem Extends.refl (s : EdgeDescs) : Extends s s :=
  ⟨fun _ config h => ⟨config, h, .refl _, .refl _⟩, rfl, rfl⟩

theorem Extends.trans (h : Extends s s') (h' : Extends s' s'') : Extends s s'' := by
  refine ⟨fun n config hconfig => ?_, h'.inputDesc.trans h.inputDesc, h'.outputDesc.trans h.outputDesc⟩
  obtain ⟨config', hconfig', hins, houts⟩ := h.configs n config hconfig
  obtain ⟨config'', hconfig'', hins', houts'⟩ := h'.configs n config' hconfig'
  exact ⟨config'', hconfig'', hins.trans hins', houts.trans houts'⟩

theorem setDesc_self (hconf : confs[idx.toNat]? = some conf) :
    (setDesc confs idx d)[idx.toNat]? = some { conf with desc := d } := by
  rw [setDesc, List.getElem?_modify_eq, hconf]
  rfl

theorem Fills.forall_any (h : Fills confs confs')
    (hany : ∀ conf ∈ confs', conf.desc.layout = .ANY) : ∀ conf ∈ confs, conf.desc.layout = .ANY := by
  intro conf hconf
  by_contra hne
  obtain ⟨i, hi⟩ := List.getElem?_of_mem hconf
  obtain ⟨conf', hconf', hkeeps⟩ := h.keeps i conf hi
  exact hne (hkeeps hne ▸ hany conf' (List.mem_of_getElem? hconf'))

theorem Fills.ne_nil (h : Fills confs confs') (hne : confs ≠ []) :
    confs' ≠ [] := by
  rw [← List.length_pos_iff] at hne ⊢
  rwa [h.length_eq]

/-- A descriptor that was not specified may be overwritten, more than once. -/
theorem Fills.setDesc (h : Fills confs confs') (hany : ∀ conf, confs[idx.toNat]? = some conf → conf.desc.layout = .ANY) :
    Fills confs (setDesc confs' idx d) := by
  refine ⟨?_, fun i conf hconf => ?_⟩
  · rw [OpenVino.MKLDNNPlugin.setDesc, List.length_modify]
    exact h.length_eq
  · obtain ⟨conf', hconf', hkeeps⟩ := h.keeps i conf hconf
    by_cases hi : idx.toNat = i
    · rw [← hi] at hconf hconf' ⊢
      exact ⟨_, setDesc_self hconf', fun hne => absurd (hany conf hconf) hne⟩
    · refine ⟨conf', ?_, hkeeps⟩
      rwa [OpenVino.MKLDNNPlugin.setDesc, List.getElem?_modify_ne _ _ hi]

theorem Extends.update {config' : LayerConfig TensorDesc} (h : Extends s s') (hconfig : s'.configs n = some config')
    {config'' : LayerConfig TensorDesc}
    (hfill : ∀ config, s.configs n = some config → Fills config.inConfs config'.inConfs →
      Fills config.outConfs config'.outConfs → Fills config.inConfs config''.inConfs ∧ Fills config.outConfs config''.outConfs) :
    Extends s { s' with configs := Function.update s'.configs n (some config'') } := by
  refine ⟨fun m config hm => ?_, h.inputDesc, h.outputDesc⟩
  obtain ⟨c, hc, hins, houts⟩ := h.configs m config hm
  by_cases hmn : m = n
  · rw [hmn] at hm hc ⊢
    obtain rfl := Option.some.inj (hc.symm.trans hconfig)
    exact ⟨config'', Function.update_self .., hfill config hm hins houts⟩
  · exact ⟨c, (Function.update_of_ne hmn ..).trans hc, hins, houts⟩

/-! ### Steps that do not index beyond an array -/

def IndexError (e : EdgeError) : Prop := e = .indexOutOfRange

theorem ends_asChecked {α : Type} (x : Result α) : Ends IndexError (asChecked x) fun a => x = .ok a := by
  cases x with
  | ok a => exact rfl
  | error e => exact fun h => EdgeError.noConfusion h

theorem ends_throwEdge {α : Type} {m : String} {P : α → Prop} : Ends IndexError (throwEdge m) P :=
  fun h => EdgeError.noConfusion h

theorem ends_selected (hconfig : s.configs n = some config) : Ends IndexError (selected s n) fun c => c = config := by
  unfold selected
  rw [hconfig]
  exact rfl

theorem ends_confAt (hidx : 0 ≤ idx) (hconf : confs[idx.toNat]? = some conf) :
    Ends IndexError (confAt confs idx) fun c => c = conf := by
  unfold confAt
  rw [if_pos hidx, hconf]
  exact rfl

/-- A check that throws. -/
theorem ends_guard {α : Type} {c : Prop} [Decidable c] {m : String} {x : Checked α} {P : α → Prop}
    (h : ¬ c → Ends IndexError x P) : Ends IndexError (if c then throwEdge m >>= fun _ : PUnit => x else x) P :=
  Ends.ite (fun _ => ends_throwEdge) h

theorem ends_getFormat (d : TensorDesc) : Ends IndexError (getFormat d) fun _ => True :=
  (ends_asChecked _).bind fun _ _ => Ends.pure trivial

theorem ends_writeOut {s₀ : EdgeDescs} (hext : Extends s₀ s) (hconfig : s.configs n = some config) (hidx : 0 ≤ idx)
    (hconf : config.outConfs[idx.toNat]? = some conf)
    (hany : ∀ c₀, s₀.configs n = some c₀ → ∀ conf, c₀.outConfs[idx.toNat]? = some conf → conf.desc.layout = .ANY) :
    Ends IndexError (writeOut s n idx d) fun s' => Extends s₀ s' ∧
      s'.configs n = some { config with outConfs := setDesc config.outConfs idx d } := by
  refine (ends_selected hconfig).bind fun c hc => ?_
  rw [hc]
  refine (ends_confAt hidx hconf).bind fun _ _ => ?_
  refine Ends.pure ⟨hext.update hconfig fun c₀ hc₀ hins houts => ⟨hins, houts.setDesc (hany c₀ hc₀)⟩, ?_⟩
  exact Function.update_self ..

theorem ends_writeIn {s₀ : EdgeDescs} (hext : Extends s₀ s) (hconfig : s.configs n = some config) (hidx : 0 ≤ idx)
    (hconf : config.inConfs[idx.toNat]? = some conf)
    (hany : ∀ c₀, s₀.configs n = some c₀ → ∀ conf, c₀.inConfs[idx.toNat]? = some conf → conf.desc.layout = .ANY) :
    Ends IndexError (writeIn s n idx d) fun s' => Extends s₀ s' ∧
      s'.configs n = some { config with inConfs := setDesc config.inConfs idx d } := by
  refine (ends_selected hconfig).bind fun c hc => ?_
  rw [hc]
  refine (ends_confAt hidx hconf).bind fun _ _ => ?_
  refine Ends.pure ⟨hext.update hconfig fun c₀ hc₀ hins houts => ⟨hins.setDesc (hany c₀ hc₀), houts⟩, ?_⟩
  exact Function.update_self ..

end Extends

namespace MKLDNNGraph

variable {g : MKLDNNGraph} {nd : NodeDims} {s s' s₀ : EdgeDescs} {e : EdgeId} {n : NodeId} {d : TensorDesc}

theorem ends_getDims (e : EdgeId) : Ends IndexError (g.getDims nd e) fun _ => True := by
  unfold getDims
  refine ends_guard fun _ => ends_guard fun _ => ?_
  exact ends_guard fun _ => Ends.pure trivial

theorem ends_ranksDiffer (edges : List EdgeId) (dims : MKLDNNDims) :
    Ends IndexError (g.ranksDiffer nd dims edges) fun _ => True := by
  induction edges generalizing dims with
  | nil => exact Ends.pure trivial
  | cons e edges ih =>
    refine (ends_getDims e).bind fun dims' _ => Ends.ite (fun _ => ih dims') fun _ => ?_
    exact Ends.ite (fun _ => Ends.pure trivial) fun _ => ih dims

theorem ends_nodeCanChangeDesc (s : EdgeDescs) (n : NodeId) :
    Ends IndexError (g.nodeCanChangeDesc nd s n) fun b => g.nodeCanChangeDesc nd s n = .ok b := by
  suffices Ends IndexError (g.nodeCanChangeDesc nd s n) fun _ => True from this.and_eq.mono fun _ h => h.2
  unfold nodeCanChangeDesc selected
  split
  · refine (Ends.pure (P := fun _ => True) trivial).bind fun config _ => ?_
    refine Ends.ite (fun _ => Ends.pure trivial) fun _ => Ends.ite (fun _ => Ends.pure trivial) fun _ => ?_
    exact ends_ranksDiffer _ _
  · exact ends_throwEdge

/-- The node has no layout yet, and is one that passes the layout on. -/
def Undecided (g : MKLDNNGraph) (nd : NodeDims) (s : EdgeDescs) (n : NodeId) : Prop :=
  g.nodeCanChangeDesc nd s n = .ok false

theorem undecided_iff : g.Undecided nd s n ↔ ∃ config, s.configs n = some config ∧
    (∀ conf ∈ config.inConfs, conf.desc.layout = .ANY) ∧ (∀ conf ∈ config.outConfs, conf.desc.layout = .ANY) ∧
    g.ranksDiffer nd [] (g.parentEdges n ++ g.childEdges n) = .ok false := by
  have hany : ∀ confs : List (DataConfig TensorDesc), (confs.any fun conf => decide (conf.desc.layout ≠ .ANY)) = true ↔
      ¬ ∀ conf ∈ confs, conf.desc.layout = .ANY := by
    simp
  unfold Undecided nodeCanChangeDesc selected
  cases s.configs n with
  | none => simp [throwEdge, bind, Except.bind]
  | some config =>
    simp only [bind, Except.bind, pure, Except.pure, Option.some.injEq, exists_eq_left']
    split_ifs with hins houts
    · simp [(hany _).mp hins]
    · simp [(hany _).mp houts]
    · rw [hany, not_not] at hins houts
      exact ⟨fun h => ⟨hins, houts, h⟩, fun h => h.2.2⟩

theorem Undecided.of_extends {config : LayerConfig TensorDesc} (hext : Extends s s') (hconfig : s.configs n = some config)
    (h : g.Undecided nd s' n) : g.Undecided nd s n := by
  obtain ⟨config', hconfig', hins, houts, hranks⟩ := undecided_iff.mp h
  obtain ⟨c, hc, hfill, hfill'⟩ := hext.configs n config hconfig
  obtain rfl := Option.some.inj (hc.symm.trans hconfig')
  exact undecided_iff.mpr ⟨config, hconfig, hfill.forall_any hins, hfill'.forall_any houts, hranks⟩

/-- The ends of the edges have configurations with a port. -/
def Ported (g : MKLDNNGraph) (s : EdgeDescs) : Prop :=
  ∀ e ∈ g.graphEdges, (∃ config, s.configs (g.parentOf e) = some config ∧ config.outConfs ≠ []) ∧
    ∃ config, s.configs (g.childOf e) = some config ∧ config.inConfs ≠ []

/-- Both arrays of the child's configuration have the port that the edge leads to. -/
def InRange (g : MKLDNNGraph) (s : EdgeDescs) (e : EdgeId) : Prop :=
  ∃ config, s.configs (g.childOf e) = some config ∧ (g.edge e).getOutputNum < config.inConfs.length ∧
    (g.edge e).getOutputNum < config.outConfs.length

theorem Ported.mono (h : g.Ported s) (hext : Extends s s') : g.Ported s' := by
  intro e he
  obtain ⟨⟨p, hp, hpne⟩, c, hc, hcne⟩ := h e he
  obtain ⟨p', hp', -, houts⟩ := hext.configs _ p hp
  obtain ⟨c', hc', hins, -⟩ := hext.configs _ c hc
  exact ⟨⟨p', hp', houts.ne_nil hpne⟩, c', hc', hins.ne_nil hcne⟩

theorem InRange.mono (h : g.InRange s e) (hext : Extends s s') : g.InRange s' e := by
  obtain ⟨c, hc, hin, hout⟩ := h
  obtain ⟨c', hc', hins, houts⟩ := hext.configs _ c hc
  refine ⟨c', hc', ?_, ?_⟩
  · rwa [hins.length_eq]
  · rwa [houts.length_eq]

theorem exists_clampPort {confs : List (DataConfig TensorDesc)} {port : Int} (hne : confs ≠ []) (hport : 0 ≤ port) :
    0 ≤ clampPort confs port ∧ ∃ conf, confs[(clampPort confs port).toNat]? = some conf := by
  have hpos := List.length_pos_of_ne_nil hne
  have hlt : 0 ≤ clampPort confs port ∧ (clampPort confs port).toNat < confs.length := by
    unfold clampPort
    split <;> omega
  exact ⟨hlt.1, _, List.getElem?_eq_getElem hlt.2⟩

/-! ### The loops -/

variable {nested : Option Nested} {formats : Formats}

/-- The state of the loops. -/
def Voted (s₀ : EdgeDescs) (fs : Formats × EdgeDescs) : Prop := Counted fs.1 ∧ Extends s₀ fs.2

theorem ends_vote {ask : Option (Checked (TensorDesc × EdgeDescs))} (hvoted : Voted s₀ (formats, s)) (n : NodeId)
    (hask : ∀ answer ∈ ask, g.Undecided nd s n → Ends IndexError answer fun r => Extends s₀ r.2) :
    Ends IndexError (g.vote nd formats s d n ask) (Voted s₀) := by
  unfold vote
  refine (ends_getFormat d).bind fun format _ => Ends.ite (fun hformat => ?_) fun _ => ?_
  · exact Ends.pure ⟨hvoted.1.countFormat hformat, hvoted.2⟩
  · refine (ends_nodeCanChangeDesc s n).bind fun b hb => Ends.ite (fun _ => Ends.pure hvoted) fun hfalse => ?_
    cases ask with
    | none => exact Ends.pure hvoted
    | some answer =>
      have hundecided : g.Undecided nd s n := by
        rw [Bool.not_eq_true] at hfalse
        rwa [hfalse] at hb
      refine (hask answer rfl hundecided).bind fun r hr => (ends_getFormat r.1).bind fun format _ => ?_
      refine Ends.pure ⟨?_, hr⟩
      split
      · exact hvoted.1.countFormat ‹_›
      · exact hvoted.1

/-- What the nested calls of a call on `e` may do, in states that extend the one at its start. -/
structure Answers (g : MKLDNNGraph) (nd : NodeDims) (s₀ : EdgeDescs) (n : NodeId) (nested : Nested) : Prop where
  child : ∀ c ∈ g.childEdges n, ∀ formats s, Voted s₀ (formats, s) → g.Undecided nd s (g.childOf c) →
    Ends IndexError (nested.getSpecifiedOutputDesc c formats s) fun r => Extends s₀ r.2
  parent : ∀ p ∈ g.parentEdges n, ∀ formats s, Voted s₀ (formats, s) → g.Undecided nd s (g.parentOf p) →
    Ends IndexError (nested.getSpecifiedInputDesc p formats s) fun r => Extends s₀ r.2

theorem ends_voteChildren (hw : g.Wired) (hported : g.Ported s₀) (e : EdgeId)
    (hnested : ∀ k ∈ nested, g.Answers nd s₀ n k) {fs : Formats × EdgeDescs} (hfs : Voted s₀ fs) :
    Ends IndexError ((g.childEdges n).foldlM (g.voteChild nd nested e) fs) (Voted s₀) := by
  refine Ends.foldlM hfs fun fs c hc hvoted => ?_
  obtain ⟨formats, s⟩ := fs
  dsimp only [voteChild]
  have hext : Extends s₀ s := hvoted.2
  obtain ⟨-, config, hconfig, hne⟩ := hported.mono hext c (hw.mem_children.mp hc).1
  simp only [hconfig]
  refine Ends.ite (fun _ => Ends.pure hvoted) fun hport => ?_
  refine (ends_getDims c).bind fun _ _ => (ends_getDims e).bind fun _ _ => ?_
  refine Ends.ite (fun _ => Ends.pure hvoted) fun _ => ?_
  obtain ⟨hidx, conf, hconf⟩ := exists_clampPort hne (not_lt.mp hport)
  refine (ends_confAt hidx hconf).bind fun conf _ => ends_vote hvoted _ fun answer hanswer hundecided => ?_
  obtain ⟨k, hk, rfl⟩ := Option.mem_map.mp hanswer
  exact (hnested k hk).child c hc formats s hvoted hundecided

theorem ends_voteParents (hw : g.Wired) (hported : g.Ported s₀) (e : EdgeId)
    (hnested : ∀ k ∈ nested, g.Answers nd s₀ n k) {fs : Formats × EdgeDescs} (hfs : Voted s₀ fs) :
    Ends IndexError ((g.parentEdges n).foldlM (g.voteParent nd nested e) fs) (Voted s₀) := by
  refine Ends.foldlM hfs fun fs p hp hvoted => ?_
  obtain ⟨formats, s⟩ := fs
  dsimp only [voteParent]
  have hext : Extends s₀ s := hvoted.2
  obtain ⟨⟨config, hconfig, hne⟩, -⟩ := hported.mono hext p (hw.mem_parents.mp hp).1
  simp only [hconfig]
  refine Ends.ite (fun _ => Ends.pure hvoted) fun hport => ?_
  refine (ends_getDims p).bind fun _ _ => (ends_getDims e).bind fun _ _ => ?_
  refine Ends.ite (fun _ => Ends.pure hvoted) fun _ => ?_
  obtain ⟨hidx, conf, hconf⟩ := exists_clampPort hne (not_lt.mp hport)
  refine (ends_confAt hidx hconf).bind fun conf _ => ends_vote hvoted _ fun answer hanswer hundecided => ?_
  obtain ⟨k, hk, rfl⟩ := Option.mem_map.mp hanswer
  exact (hnested k hk).parent p hp formats s hvoted hundecided

/-! ### The two functions -/

/-- The descriptor that the configuration of the parent has at the port of the edge. -/
def outAt (g : MKLDNNGraph) (s : EdgeDescs) (e : EdgeId) : Option TensorDesc :=
  (s.configs (g.parentOf e)).bind fun config =>
    (config.outConfs[(clampPort config.outConfs (g.edge e).getInputNum).toNat]?).map (·.desc)

/-- The descriptor that the configuration of the child has at the port of the edge. -/
def inAt (g : MKLDNNGraph) (s : EdgeDescs) (e : EdgeId) : Option TensorDesc :=
  (s.configs (g.childOf e)).bind fun config =>
    (config.inConfs[(clampPort config.inConfs (g.edge e).getOutputNum).toNat]?).map (·.desc)

/-- `getSpecifiedInputDesc` has to decide. -/
def InputOpen (g : MKLDNNGraph) (s : EdgeDescs) (e : EdgeId) : Prop :=
  (s.inputDesc e).layout = .ANY ∧ ∀ d ∈ g.outAt s e, d.layout = .ANY

theorem input_ends (hw : g.Wired) (he : e ∈ g.graphEdges) (hported : g.Ported s) (hformats : Counted formats)
    (hnested : g.InputOpen s e → ∀ k ∈ nested, g.Answers nd s (g.parentOf e) k) :
    Ends IndexError (g.getSpecifiedInputDesc nd nested e formats s) fun r => Extends s r.2 ∧
      ((s.inputDesc e).layout = .ANY → r.1.layout ≠ .ANY ∧ g.outAt r.2 e = some r.1) := by
  unfold getSpecifiedInputDesc
  refine Ends.ite (fun h => Ends.pure ⟨.refl s, fun hany => absurd hany h⟩) fun hcached => ?_
  rw [not_not] at hcached
  obtain ⟨⟨config, hconfig, hne⟩, -⟩ := hported e he
  refine (ends_selected hconfig).bind fun c hc => ?_
  rw [hc]
  refine ends_guard fun hport => ?_
  obtain ⟨hidx, conf, hconf⟩ := exists_clampPort hne (not_lt.mp hport)
  have hat : g.outAt s e = some conf.desc := by
    rw [outAt, hconfig, Option.bind_some, hconf, Option.map_some]
  refine (ends_confAt hidx hconf).bind fun c hc => ?_
  rw [hc]
  refine Ends.ite (fun h => Ends.pure ⟨.refl s, fun _ => ⟨h, hat⟩⟩) fun hany => ?_
  rw [not_not] at hany
  have hopen : g.InputOpen s e := by
    refine ⟨hcached, fun d hd => ?_⟩
    rw [hat] at hd
    rwa [← Option.some.inj hd]
  refine (ends_nodeCanChangeDesc s (g.parentOf e)).bind fun isFormatChanging hchange => ?_
  refine Ends.ite (fun h => ?_) fun _ => ?_
  · -- a node that passes the layout on has none yet
    obtain ⟨hfalse, conf', hconf', hne'⟩ := h
    rw [hfalse] at hchange
    obtain ⟨c, hc, hins, -⟩ := undecided_iff.mp hchange
    obtain rfl := Option.some.inj (hc.symm.trans hconfig)
    exact absurd (hins conf' (List.mem_of_getElem? hconf')) hne'
  refine (ends_voteChildren hw hported e (hnested hopen) ⟨hformats, .refl s⟩).bind fun fs hfs => ?_
  have hloops : Ends IndexError (if isFormatChanging = true then pure fs else
      (g.parentEdges (g.parentOf e)).foldlM (g.voteParent nd nested e) fs) (Voted s) :=
    Ends.ite (fun _ => Ends.pure hfs) fun _ => ends_voteParents hw hported e (hnested hopen) hfs
  refine hloops.bind fun fs' hvoted => ?_
  obtain ⟨formats', s₁⟩ := fs'
  obtain ⟨hcounted, hext⟩ := hvoted
  dsimp only at hcounted hext ⊢
  refine (ends_getDims e).bind fun dims _ => ?_
  obtain ⟨config', hconfig', hins, houts⟩ := hext.configs _ config hconfig
  obtain ⟨conf', hconf', -⟩ := houts.keeps _ conf hconf
  refine (ends_selected hconfig').bind fun c hc => ?_
  rw [hc]
  refine (ends_confAt hidx hconf').bind fun c hc => ?_
  rw [hc]
  refine (ends_asChecked _).bind fun memoryDesc _ => (ends_asChecked _).bind fun result hresult => ?_
  have hlayout := memoryTensorDesc_ne_any (chooseFormat_ne_any hcounted) hresult
  refine (ends_writeOut hext hconfig' hidx hconf' fun c₀ hc₀ conf₀ hconf₀ => ?_).bind fun s₂ hs₂ => ?_
  · obtain rfl := Option.some.inj (hc₀.symm.trans hconfig)
    obtain rfl := Option.some.inj (hconf₀.symm.trans hconf)
    exact hany
  obtain ⟨hext₂, hconfig₂⟩ := hs₂
  -- the outputs of the parent at the end
  suffices hlast : Ends IndexError (if isFormatChanging = false ∧ ∃ conf ∈ config'.inConfs[
      (clampPort config.outConfs (g.edge e).getInputNum).toNat]?, conf.desc.layout = .ANY then do
        writeIn s₂ (g.parentOf e) (clampPort config.outConfs (g.edge e).getInputNum) (← asChecked (getUninitTensorDesc result))
      else pure s₂) fun s₃ => Extends s s₃ ∧ ∃ c, s₃.configs (g.parentOf e) = some c ∧
        c.outConfs = setDesc config'.outConfs (clampPort config.outConfs (g.edge e).getInputNum) result by
    refine hlast.bind fun s₃ hs₃ => Ends.pure ⟨hs₃.1, fun _ => ⟨hlayout, ?_⟩⟩
    obtain ⟨-, c, hc, houts₃⟩ := hs₃
    have hlength : c.outConfs.length = config.outConfs.length := by
      rw [houts₃, setDesc, List.length_modify, houts.length_eq]
    rw [outAt, hc, Option.bind_some, clampPort, hlength, ← clampPort, houts₃, setDesc_self hconf', Option.map_some]
  refine Ends.ite (fun h => ?_) fun _ => Ends.pure ⟨hext₂, _, hconfig₂, rfl⟩
  obtain ⟨-, conf₃, hconf₃, hany₃⟩ := h
  refine (ends_asChecked _).bind fun uninit _ => ?_
  refine (ends_writeIn hext₂ hconfig₂ hidx hconf₃ fun c₀ hc₀ conf₀ hconf₀ => ?_).mono fun s₃ hs₃ =>
    ⟨hs₃.1, _, hs₃.2, rfl⟩
  obtain rfl := Option.some.inj (hc₀.symm.trans hconfig)
  obtain ⟨conf₁, hconf₁, hkeeps⟩ := hins.keeps _ conf₀ hconf₀
  obtain rfl := Option.some.inj (hconf₁.symm.trans hconf₃)
  by_contra hne₀
  rw [← hkeeps hne₀] at hne₀
  exact hne₀ hany₃

/-- `getSpecifiedOutputDesc` does not have to decide: the descriptor has been found or is in the configuration, or
the child takes the layout that the parent has. -/
def Answered (g : MKLDNNGraph) (nd : NodeDims) (s : EdgeDescs) (e : EdgeId) : Prop :=
  (s.outputDesc e).layout ≠ .ANY ∨ (∃ d ∈ g.inAt s e, d.layout ≠ .ANY) ∨
    g.nodeCanChangeDesc nd s (g.childOf e) = .ok true ∧ ∃ d ∈ g.outAt s e, d.layout ≠ .ANY

theorem inAt_of_setDesc {config c : LayerConfig TensorDesc} {conf : DataConfig TensorDesc}
    (hlength : c.inConfs.length = config.inConfs.length)
    (hconf : config.inConfs[(clampPort c.inConfs (g.edge e).getOutputNum).toNat]? = some conf)
    (h : s.configs (g.childOf e) =
      some { config with inConfs := setDesc config.inConfs (clampPort c.inConfs (g.edge e).getOutputNum) d }) :
    g.inAt s e = some d := by
  have hclamp : clampPort (setDesc config.inConfs (clampPort c.inConfs (g.edge e).getOutputNum) d)
      (g.edge e).getOutputNum = clampPort c.inConfs (g.edge e).getOutputNum := by
    rw [clampPort, clampPort, setDesc, List.length_modify, hlength]
  rw [inAt, h, Option.bind_some, hclamp, setDesc_self hconf, Option.map_some]

theorem output_ends (hw : g.Wired) (he : e ∈ g.graphEdges) (hported : g.Ported s) (hformats : Counted formats)
    (hvote : ¬ g.Answered nd s e → g.InRange s e ∧ ∀ k ∈ nested, g.Answers nd s (g.childOf e) k) :
    Ends IndexError (g.getSpecifiedOutputDesc nd nested e formats s) fun r => Extends s r.2 ∧
      (g.Answered nd s e → (s.outputDesc e).layout = .ANY → r.1.layout ≠ .ANY ∧ g.inAt r.2 e = some r.1) := by
  unfold getSpecifiedOutputDesc
  refine Ends.ite (fun h => Ends.pure ⟨.refl s, fun _ hany => absurd hany h⟩) fun hcached => ?_
  rw [not_not] at hcached
  obtain ⟨⟨parentConfig, hparent, hpne⟩, config, hconfig, hne⟩ := hported e he
  refine (ends_selected hconfig).bind fun c hc => ?_
  rw [hc]
  refine ends_guard fun hport => ?_
  obtain ⟨hidx, conf, hconf⟩ := exists_clampPort hne (not_lt.mp hport)
  have hat : g.inAt s e = some conf.desc := by
    rw [inAt, hconfig, Option.bind_some, hconf, Option.map_some]
  refine (ends_confAt hidx hconf).bind fun c hc => ?_
  rw [hc]
  refine Ends.ite (fun h => Ends.pure ⟨.refl s, fun _ _ => ⟨h, hat⟩⟩) fun hany => ?_
  rw [not_not] at hany
  refine (ends_asChecked _).bind fun c hc => ?_
  obtain rfl := Option.some.inj ((selectedConfig_ok_iff.mp hc).symm.trans hparent)
  refine (ends_nodeCanChangeDesc s (g.childOf e)).bind fun isFormatChanging hchange => ?_
  have hinAny : ¬ ∃ d ∈ g.inAt s e, d.layout ≠ .ANY := by
    rintro ⟨d, hd, hne⟩
    rw [hat] at hd
    exact hne (Option.some.inj hd ▸ hany)
  -- nothing is known only if the call has to decide
  suffices hknown : Ends IndexError (if isFormatChanging = true then do
        let conf ← confAt c.outConfs
          (if (g.edge e).getInputNum < 0 then 0 else clampPort c.outConfs (g.edge e).getInputNum)
        return if conf.desc.layout ≠ .ANY then some conf.desc else none
      else pure ((config.outConfs[(clampPort config.inConfs (g.edge e).getOutputNum).toNat]?).bind fun conf =>
        if conf.desc.layout ≠ .ANY then some conf.desc else none)) fun known => known = none → ¬ g.Answered nd s e by
    refine hknown.bind fun known hnone => ?_
    cases known with
    | some outDesc =>
      dsimp only
      refine (ends_getDims e).bind fun dims _ => (ends_asChecked _).bind fun blocking _ =>
        (ends_asChecked _).bind fun desc hdesc => ?_
      refine (ends_writeIn (.refl s) hconfig hidx hconf fun c₀ hc₀ conf₀ hconf₀ => ?_).bind fun s₁ hs₁ => ?_
      · obtain rfl := Option.some.inj (hc₀.symm.trans hconfig)
        rwa [Option.some.inj (hconf₀.symm.trans hconf)]
      · exact Ends.pure ⟨hs₁.1, fun _ _ => ⟨ofBlocking_ne_any hdesc, inAt_of_setDesc rfl hconf hs₁.2⟩⟩
    | none =>
      dsimp only
      obtain ⟨⟨c', hc', hin, hout⟩, hnested⟩ := hvote (hnone rfl)
      obtain rfl := Option.some.inj (hc'.symm.trans hconfig)
      refine (ends_voteParents hw hported e hnested ⟨hformats, .refl s⟩).bind fun fs hfs => ?_
      have hloops : Ends IndexError (if isFormatChanging = true then pure fs else
          (g.childEdges (g.childOf e)).foldlM (g.voteChild nd nested e) fs) (Voted s) :=
        Ends.ite (fun _ => Ends.pure hfs) fun _ => ends_voteChildren hw hported e hnested hfs
      refine hloops.bind fun fs' hvoted => ?_
      obtain ⟨formats', s₁⟩ := fs'
      obtain ⟨hcounted, hext⟩ := hvoted
      dsimp only at hcounted hext ⊢
      refine (ends_getDims e).bind fun dims _ => ?_
      obtain ⟨config', hconfig', hins, houts⟩ := hext.configs _ c' hconfig
      obtain ⟨conf', hconf', -⟩ := hins.keeps _ conf hconf
      -- the port is one of both arrays, so that it is not clamped
      have hclamp : clampPort c'.inConfs (g.edge e).getOutputNum = (g.edge e).getOutputNum := by
        rw [clampPort, if_neg (not_le.mpr hin)]
      rw [hclamp] at hidx hconf hconf' ⊢
      refine (ends_selected hconfig').bind fun c₁ hc₁ => ?_
      rw [hc₁]
      refine (ends_confAt hidx hconf').bind fun c₁ hc₁ => ?_
      refine (ends_asChecked _).bind fun memoryDesc _ => (ends_asChecked _).bind fun result hresult => ?_
      refine (ends_writeIn hext hconfig' hidx hconf' fun c₀ hc₀ conf₀ hconf₀ => ?_).bind fun s₂ hs₂ => ?_
      · obtain rfl := Option.some.inj (hc₀.symm.trans hconfig)
        rwa [Option.some.inj (hconf₀.symm.trans hconf)]
      obtain ⟨hext₂, hconfig₂⟩ := hs₂
      have hlast : ∀ s₃, Extends s s₃ → Ends IndexError (do
          let config ← selected s₃ (g.childOf e)
          let conf ← confAt config.outConfs (g.edge e).getOutputNum
          return (conf.desc, s₃)) fun r => Extends s r.2 ∧
            (g.Answered nd s e → (s.outputDesc e).layout = .ANY → r.1.layout ≠ .ANY ∧ g.inAt r.2 e = some r.1) := by
        intro s₃ hext₃
        obtain ⟨config₃, hconfig₃, -, houts₃⟩ := hext₃.configs _ c' hconfig
        have hget : (g.edge e).getOutputNum.toNat < config₃.outConfs.length := by
          rw [houts₃.length_eq]
          omega
        refine (ends_selected hconfig₃).bind fun c₁ hc₁ => ?_
        rw [hc₁]
        refine (ends_confAt hidx (List.getElem?_eq_getElem hget)).bind fun _ _ => ?_
        exact Ends.pure ⟨hext₃, fun h => absurd h (hnone rfl)⟩
      refine Ends.bind (P := fun s₃ => Extends s s₃) (Ends.ite (fun h => ?_) fun _ => Ends.pure hext₂) hlast
      obtain ⟨-, conf₃, hconf₃, hany₃⟩ := h
      refine (ends_asChecked _).bind fun uninit _ => ?_
      refine (ends_writeOut hext₂ hconfig₂ hidx hconf₃ fun c₀ hc₀ conf₀ hconf₀ => ?_).mono fun s₃ hs₃ => hs₃.1
      obtain rfl := Option.some.inj (hc₀.symm.trans hconfig)
      obtain ⟨conf₁, hconf₁, hkeeps⟩ := houts.keeps _ conf₀ hconf₀
      obtain rfl := Option.some.inj (hconf₁.symm.trans hconf₃)
      by_contra hne₀
      rw [← hkeeps hne₀] at hne₀
      exact hne₀ hany₃
  refine Ends.ite (fun h => ?_) fun h => Ends.pure fun _ hanswered => ?_
  · -- a negative port and one that is beyond the array both stand for 0
    have hpos := List.length_pos_of_ne_nil hpne
    obtain ⟨hnonneg, heq, hlt⟩ : 0 ≤ (if (g.edge e).getInputNum < 0 then 0 else clampPort c.outConfs (g.edge e).getInputNum) ∧
        (if (g.edge e).getInputNum < 0 then 0 else clampPort c.outConfs (g.edge e).getInputNum).toNat =
          (clampPort c.outConfs (g.edge e).getInputNum).toNat ∧
        (clampPort c.outConfs (g.edge e).getInputNum).toNat < c.outConfs.length := by
      unfold clampPort
      split_ifs <;> omega
    obtain ⟨pconf, hget⟩ : ∃ conf, c.outConfs[(clampPort c.outConfs (g.edge e).getInputNum).toNat]? = some conf :=
      ⟨_, List.getElem?_eq_getElem hlt⟩
    rw [← heq] at hget
    refine (ends_confAt hnonneg hget).bind fun conf' hconf' => Ends.pure fun hnone hanswered => ?_
    have hout : g.outAt s e = some conf'.desc := by
      rw [outAt, hparent, Option.bind_some, ← heq, hget, hconf', Option.map_some]
    rcases hanswered with hne' | hin | ⟨-, d, hd, hne'⟩
    · exact hne' hcached
    · exact hinAny hin
    · rw [hout] at hd
      rw [← Option.some.inj hd] at hne'
      rw [if_pos hne'] at hnone
      cases hnone
  · rcases hanswered with hne' | hin | ⟨htrue, -⟩
    · exact hne' hcached
    · exact hinAny hin
    · exact h (Except.ok.inj (hchange.symm.trans htrue))

/-! ### Nested calls -/

theorem answers_last (hw : g.Wired) (hported : g.Ported s₀)
    (hrange : ∀ c ∈ g.childEdges n, g.Undecided nd s₀ (g.childOf c) → g.InRange s₀ c) :
    g.Answers nd s₀ n (g.lastNested nd) where
  child c hc formats s hvoted hundecided := by
    have hedge := (hw.mem_children.mp hc).1
    obtain ⟨-, config, hconfig, -⟩ := hported c hedge
    have hin := (hrange c hc (hundecided.of_extends hvoted.2 hconfig)).mono hvoted.2
    refine (output_ends hw hedge (hported.mono hvoted.2) hvoted.1 fun _ => ⟨hin, ?_⟩).mono fun r hr => hvoted.2.trans hr.1
    exact fun k hk => absurd hk (Option.not_mem_none k)
  parent p hp formats s hvoted _ := by
    have hedge := (hw.mem_parents.mp hp).1
    refine (input_ends hw hedge (hported.mono hvoted.2) hvoted.1 fun _ => ?_).mono fun r hr => hvoted.2.trans hr.1
    exact fun k hk => absurd hk (Option.not_mem_none k)

theorem answers_inInput (hw : g.Wired) (hported : g.Ported s₀)
    (hrange : ∀ c ∈ g.childEdges n, g.Undecided nd s₀ (g.childOf c) → g.InRange s₀ c ∧
      ∀ c' ∈ g.childEdges (g.childOf c), g.Undecided nd s₀ (g.childOf c') → g.InRange s₀ c') :
    g.Answers nd s₀ n (g.nestedInInput nd) where
  child c hc formats s hvoted hundecided := by
    have hedge := (hw.mem_children.mp hc).1
    obtain ⟨-, config, hconfig, -⟩ := hported c hedge
    obtain ⟨hin, hrest⟩ := hrange c hc (hundecided.of_extends hvoted.2 hconfig)
    have hported' := hported.mono hvoted.2
    refine (output_ends hw hedge hported' hvoted.1 fun _ => ⟨hin.mono hvoted.2, fun k hk => ?_⟩).mono
      fun r hr => hvoted.2.trans hr.1
    rw [← Option.some.inj hk]
    refine answers_last hw hported' fun c' hc' hundecided' => ?_
    obtain ⟨-, config', hconfig', -⟩ := hported c' (hw.mem_children.mp hc').1
    exact (hrest c' hc' (hundecided'.of_extends hvoted.2 hconfig')).mono hvoted.2
  parent := (answers_last hw hported fun c hc h => (hrange c hc h).1).parent

/-! ### Runs -/

inductive Call
  | getInputDesc (e : EdgeId)
  | getOutputDesc (e : EdgeId)

def Call.edge : Call → EdgeId
  | getInputDesc e | getOutputDesc e => e

def perform (g : MKLDNNGraph) (nd : NodeDims) (s : EdgeDescs) : Call → Checked (TensorDesc × EdgeDescs)
  | .getInputDesc e => g.getInputDesc nd e s
  | .getOutputDesc e => g.getOutputDesc nd e s

/-- The descriptor that the selected configuration has where a call looks. -/
def held (g : MKLDNNGraph) (s : EdgeDescs) : Call → Option TensorDesc
  | .getInputDesc e => g.outAt s e
  | .getOutputDesc e => g.inAt s e

/-- No answer is taken from an output that is not there: `getInputDesc` has not to decide or asks only children that
have the port of the edge on both sides, and the same holds of the children these ask; `getOutputDesc` has not to
decide. -/
def Meets (g : MKLDNNGraph) (nd : NodeDims) (s : EdgeDescs) (call : Call) : Prop :=
  call.edge ∈ g.graphEdges ∧
    match call with
    | .getInputDesc e => g.InputOpen s e → ∀ c ∈ g.childEdges (g.parentOf e), g.Undecided nd s (g.childOf c) →
        g.InRange s c ∧ ∀ c' ∈ g.childEdges (g.childOf c), g.Undecided nd s (g.childOf c') → g.InRange s c'
    | .getOutputDesc e => g.Answered nd s e

/-- The runs whose calls all return and meet the condition. -/
def descRuns (g : MKLDNNGraph) (nd : NodeDims) (s₀ : EdgeDescs) : System EdgeDescs :=
  .ofActions (fun s call => (g.perform nd s call).toOption.map (·.2)) (g.Meets nd) s₀

/-- The descriptors that have been found are those of the configurations. -/
structure Found (g : MKLDNNGraph) (s : EdgeDescs) : Prop where
  ported : g.Ported s
  input : ∀ e ∈ g.graphEdges, (s.inputDesc e).layout ≠ .ANY → g.outAt s e = some (s.inputDesc e)
  output : ∀ e ∈ g.graphEdges, (s.outputDesc e).layout ≠ .ANY → g.inAt s e = some (s.outputDesc e)

theorem Fills.keeps_at {confs confs' : List (DataConfig TensorDesc)} {port : Int} (h : Fills confs confs')
    (hd : (confs[(clampPort confs port).toNat]?).map (·.desc) = some d) (hne : d.layout ≠ .ANY) :
    (confs'[(clampPort confs' port).toNat]?).map (·.desc) = some d := by
  obtain ⟨conf, hconf, rfl⟩ := Option.map_eq_some_iff.mp hd
  obtain ⟨conf', hconf', hkeeps⟩ := h.keeps _ conf hconf
  rw [clampPort, h.length_eq, ← clampPort, hconf', Option.map_some, hkeeps hne]

theorem outAt_mono (hext : Extends s s') (h : g.outAt s e = some d) (hne : d.layout ≠ .ANY) : g.outAt s' e = some d := by
  obtain ⟨config, hconfig, hd⟩ := Option.bind_eq_some_iff.mp h
  obtain ⟨config', hconfig', -, houts⟩ := hext.configs _ config hconfig
  rw [outAt, hconfig', Option.bind_some]
  exact Fills.keeps_at houts hd hne

theorem inAt_mono (hext : Extends s s') (h : g.inAt s e = some d) (hne : d.layout ≠ .ANY) : g.inAt s' e = some d := by
  obtain ⟨config, hconfig, hd⟩ := Option.bind_eq_some_iff.mp h
  obtain ⟨config', hconfig', hins, -⟩ := hext.configs _ config hconfig
  rw [inAt, hconfig', Option.bind_some]
  exact Fills.keeps_at hins hd hne

theorem Found.mono (h : g.Found s) (hext : Extends s s') : g.Found s' := by
  refine ⟨h.ported.mono hext, fun e he hne => ?_, fun e he hne => ?_⟩
  · rw [hext.inputDesc] at hne ⊢
    exact outAt_mono hext (h.input e he hne) hne
  · rw [hext.outputDesc] at hne ⊢
    exact inAt_mono hext (h.output e he hne) hne

/-- **One call.** -/
theorem perform_ends (hw : g.Wired) (hfound : g.Found s) {call : Call} (hmeets : g.Meets nd s call) :
    Ends IndexError (g.perform nd s call) fun r => g.Found r.2 ∧ r.1.layout ≠ .ANY ∧ g.held r.2 call = some r.1 := by
  obtain ⟨he, hcond⟩ := hmeets
  cases call with
  | getInputDesc e =>
    dsimp only [perform, getInputDesc]
    refine Ends.ite (fun hany => ?_) fun hne => Ends.pure ⟨hfound, hne, hfound.input e he hne⟩
    refine (input_ends hw he hfound.ported (by simp [Counted]) fun hopen k hk => ?_).bind fun r hr => ?_
    · rw [← Option.some.inj hk]
      exact answers_inInput hw hfound.ported (hcond hopen)
    · obtain ⟨desc, s'⟩ := r
      obtain ⟨hext, hresult⟩ := hr
      obtain ⟨hne, hat⟩ := hresult hany
      have h := hfound.mono hext
      refine Ends.pure ⟨⟨h.ported, fun x hx hxne => ?_, h.output⟩, hne, hat⟩
      dsimp only at hxne ⊢
      by_cases hxe : x = e
      · rw [hxe, Function.update_self]
        exact hat
      · rw [Function.update_of_ne hxe] at hxne ⊢
        exact h.input x hx hxne
  | getOutputDesc e =>
    dsimp only [perform, getOutputDesc]
    refine Ends.ite (fun hany => ?_) fun hne => Ends.pure ⟨hfound, hne, hfound.output e he hne⟩
    refine (output_ends hw he hfound.ported (by simp [Counted]) fun h => absurd hcond h).bind fun r hr => ?_
    obtain ⟨desc, s'⟩ := r
    obtain ⟨hext, hresult⟩ := hr
    obtain ⟨hne, hat⟩ := hresult hcond hany
    have h := hfound.mono hext
    refine Ends.pure ⟨⟨h.ported, h.input, fun x hx hxne => ?_⟩, hne, hat⟩
    dsimp only at hxne ⊢
    by_cases hxe : x = e
    · rw [hxe, Function.update_self]
      exact hat
    · rw [Function.update_of_ne hxe] at hxne ⊢
      exact h.output x hx hxne

def anyDesc : TensorDesc := { dims := [1, 8, 4, 4], layout := .ANY }

def nchwDesc : TensorDesc where
  dims := [1, 8, 4, 4]
  blockingDesc := { blockedDims := [1, 8, 4, 4], strides := [128, 16, 4, 1], order := [0, 1, 2, 3], offsetPaddingToData := [0, 0, 0, 0] }

/-- Nodes 0 and 1 feed node 2, which has two inputs and one output. -/
def sumGraph : MKLDNNGraph :=
  let edge : EdgeId → MKLDNNEdge := fun e => if e = 1 then ⟨0, 2, 0, 0⟩ else ⟨1, 2, 0, 1⟩
  { graphNodes := [0, 1, 2]
    graphEdges := [1, 2]
    edge
    nextEdge := 3
    parentEdges := fun n => [1, 2].filter fun e => (edge e).child = n
    childEdges := fun n => [1, 2].filter fun e => (edge e).parent = n }

theorem sumGraph_wired : sumGraph.Wired where
  nodup := (by decide : [1, 2].Nodup)
  known := (by decide : ∀ e ∈ [1, 2], e ≠ noEdge ∧ e < 3)
  fresh := (by decide : 3 ≠ noEdge)
  parents _ := .refl _
  children _ := .refl _

def sumDims : NodeDims where
  inDims n := if n = 2 then [[1, 8, 4, 4], [1, 8, 4, 4]] else []
  outDims _ := [[1, 8, 4, 4]]

/-- The parents have the descriptor `parent`, the sum has `any`, any -> any. -/
def sumDescs (parent sum : TensorDesc) : EdgeDescs where
  configs n := some (if n = 2 then { inConfs := [⟨sum, -1⟩, ⟨sum, -1⟩], outConfs := [⟨anyDesc, -1⟩] } else { outConfs := [⟨parent, -1⟩] })
  inputDesc _ := anyDesc
  outputDesc _ := anyDesc

theorem sumDescs_ported (parent sum : TensorDesc) : sumGraph.Ported (sumDescs parent sum) := by
  simp [Ported, sumGraph, sumDescs, parentOf, childOf]

/-- At the first input no index is out of range, but what is returned is not what the configuration has. -/
example : (fun r => (r.1.blockingDesc.offsetPadding, (sumGraph.inAt r.2 1).map (·.blockingDesc.offsetPadding))) <$>
    sumGraph.getOutputDesc sumDims 1 (sumDescs nchwDesc anyDesc) = .ok (notInit, some 0) := by decide

end MKLDNNGraph

end OpenVino.MKLDNNPlugin
