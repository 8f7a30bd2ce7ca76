import OpenVino.Vpu.Model.EdgeCount

/-!
# The operations keep the counters exact

`Model.Inv` collects what every operation keeps: the graph is well formed, injections are recorded at
both ends, both counters of `p → c` hold the number of input edges in use by which `c` reads from `p`, and
nothing is counted for an injected stage. There is one lemma per operation (`addStageInput_inv`, …); the
loops of `injectStage`, `revertInjection` and `disconnectStage` have one lemma per round.
-/

namespace OpenVino.Vpu

namespace Graph

variable {g : Graph} {s t : StageId} {i : StageEdgeId}

/-- An injected stage is recorded by the stage it is a part of. -/
structure Injections (g : Graph) : Prop where
  child : ∀ c n i r, g.stage c = some n → n.parentStageEdge = some i → g.stageEdge i = some r →
    r.child = c ∧ ∃ np, g.stage r.parent = some np ∧ i ∈ np.injectedStageEdges
  fresh : ∀ i r, g.stageEdge i = some r → i < g.nextStageEdge
  freshParent : ∀ c n i, g.stage c = some n → n.parentStageEdge = some i → i < g.nextStageEdge
  /-- what others are a part of is not injected itself -/
  top : ∀ c p, g.parentStage c = some p → g.parentStage p = none

theorem parentStage_eq_some_iff : g.parentStage s = some t ↔
    ∃ n i r, g.stage s = some n ∧ n.parentStageEdge = some i ∧ g.stageEdge i = some r ∧ r.parent = t := by
  unfold parentStage
  simp only [Option.map_eq_some_iff, Option.bind_eq_some_iff]
  constructor
  · rintro ⟨r, ⟨n, hn, i, hi, hr⟩, ht⟩
    exact ⟨n, i, r, hn, hi, hr, ht⟩
  · rintro ⟨n, i, r, hn, hi, hr, ht⟩
    exact ⟨r, ⟨n, hn, i, hi, hr⟩, ht⟩

/-- Nothing is injected into a stage that lists no injected stages. -/
theorem Injections.parentStage_ne {n : StageNode} (h : g.Injections) (hs : g.stage s = some n)
    (hn : n.injectedStageEdges = []) : ∀ c, g.parentStage c ≠ some s := by
  intro c hc
  obtain ⟨nc, i, r, hnc, hi, hr, rfl⟩ := parentStage_eq_some_iff.mp hc
  obtain ⟨-, np, hnp, hmem⟩ := h.child c nc i r hnc hi hr
  rw [hs] at hnp
  cases hnp
  rw [hn] at hmem
  cases hmem

/-- The stage takes no part in an injection. -/
def Apart (g : Graph) (s : StageId) : Prop := g.parentStage s = none ∧ ∀ c, g.parentStage c ≠ some s

/-- The stages and their injections are not changed. -/
structure SameStages (g g' : Graph) : Prop where
  stage : g'.stage = g.stage
  stageEdge : g'.stageEdge = g.stageEdge
  nextStageEdge : g'.nextStageEdge = g.nextStageEdge
  stagePtrList : g'.stagePtrList = g.stagePtrList

variable {g' g'' : Graph}

theorem SameStages.refl (g : Graph) : g.SameStages g := ⟨rfl, rfl, rfl, rfl⟩

theorem SameStages.trans (h : g.SameStages g') (h' : g'.SameStages g'') : g.SameStages g'' :=
  ⟨h'.stage.trans h.stage, h'.stageEdge.trans h.stageEdge, h'.nextStageEdge.trans h.nextStageEdge,
    h'.stagePtrList.trans h.stagePtrList⟩

theorem SameStages.parentStage (h : g.SameStages g') : g'.parentStage = g.parentStage := by
  unfold Graph.parentStage
  rw [h.stage, h.stageEdge]

theorem Injections.of_same (h : g.Injections) (hs : g.SameStages g') : g'.Injections where
  child := by
    rw [hs.stage, hs.stageEdge]
    exact h.child
  fresh := by
    rw [hs.stageEdge, hs.nextStageEdge]
    exact h.fresh
  freshParent := by
    rw [hs.stage, hs.nextStageEdge]
    exact h.freshParent
  top := by
    rw [hs.parentStage]
    exact h.top

end Graph

namespace Model

/-- The invariant inside an operation: `inj` gives the stage that an injected stage is a part of, the edges
of `goneIn` and `goneOut` are being taken away, and nothing comes before the stages of `P`. -/
structure InvExcept (m : Model) (inj : StageId → Option StageId) (goneIn goneOut : List EdgeId)
    (P : StageId → Prop) : Prop where
  wf : m.graph.WellFormedExcept inj goneIn goneOut
  counts : m.order.Counts m.graph.dataflow.edges
  idle : m.order.IdleOn P

structure Inv (m : Model) : Prop extends
    InvExcept m m.graph.parentStage [] [] (m.graph.parentStage · ≠ none) where
  injections : m.graph.Injections

variable {m m' : Model} {s : StageId} {d : DataId} {e : EdgeId} {inj : StageId → Option StageId}
  {goneIn goneOut : List EdgeId} {P : StageId → Prop}

theorem Inv.of_same (hm : m.Inv) (h : m'.InvExcept m.graph.parentStage [] [] (m.graph.parentStage · ≠ none))
    (hs : m.graph.SameStages m'.graph) : m'.Inv where
  toInvExcept := by
    rw [hs.parentStage]
    exact h
  injections := hm.injections.of_same hs

theorem inv_empty : Inv {} where
  wf := by
    refine ⟨Ports.inv_empty, Ports.inv_empty, ?_, ?_, ?_, ?_, ?_, ?_, ?_, ?_, ?_⟩ <;> simp [Ports.Attached]
  counts p c := ⟨rfl, rfl⟩
  idle _ _ _ := rfl
  injections := by
    have hnone : ∀ c, ({} : Graph).parentStage c = none := fun _ => rfl
    refine ⟨?_, ?_, ?_, ?_⟩ <;> simp [hnone]

/-! ### Adding edges -/

theorem addStageInput_ok {r : Model × EdgeId} (h : m.addStageInput s d = .ok r) :
    (m.graph.stage s).isSome ∧ (m.graph.data d).isSome ∧
      ∃ o, (m.graph.addInput s d).linkInput s d m.order.reset = .ok o ∧
        r = (⟨m.graph.addInput s d, o.updateInitial s⟩, m.graph.inputs.nextEdge) := by
  simp only [addStageInput, bind_ok_iff, Graph.getStage_ok_iff, Graph.getData_ok_iff, ieAssert_ok_iff,
    pure_ok_iff] at h
  obtain ⟨n, hn, dn, hd, -, -, o, ho, rfl⟩ := h
  exact ⟨by simp [hn], by simp [hd], o, ho, rfl⟩

/-- The counters follow a new input edge. -/
theorem addStageInput_counts {o : StageOrder} (h : (m.graph.addInput s d).linkInput s d m.order.reset = .ok o)
    (hc : m.order.Counts m.graph.dataflow.edges) (hd : d < m.graph.nextData)
    (hnew : ∀ x, m.graph.inputs.nextEdge ∉ m.graph.consumerEdges x) :
    o.Counts (m.graph.addInput s d).dataflow.edges :=
  (Graph.linkInput_counts h hc.reset).congr fun _ _ => Graph.edges_addInput hd hnew

theorem addStageInput_inv {r : Model × EdgeId} (hm : m.InvExcept inj [] goneOut P)
    (h : m.addStageInput s d = .ok r) (hP : ∀ c, P c → m.graph.parentStage c ≠ none) :
    r.1.InvExcept inj [] goneOut P := by
  obtain ⟨hs, hd, o, ho, rfl⟩ := addStageInput_ok h
  refine ⟨Graph.wf_addInput hm.wf hs hd, ?_, ?_⟩
  · exact (addStageInput_counts ho hm.counts (hm.wf.data_lt d hd) fun _ => hm.wf.nextEdge_notMem).updateInitial
  · exact (Graph.linkInput_idle ho (hm.idle.order rfl) hP).order rfl

theorem checkFree_ok {g : Graph} {u : Unit} (h : checkFree g d = .ok u) :
    (g.data d).isSome ∧ g.producer? d = none := by
  simp only [checkFree, bind_ok_iff, Graph.getData_ok_iff, ieAssert_ok_iff] at h
  obtain ⟨n, hn, -, hp, -⟩ := h
  exact ⟨by simp [hn], hp⟩

theorem addStageOutput_ok {r : Model × EdgeId} (h : m.addStageOutput s d = .ok r) :
    (m.graph.stage s).isSome ∧ (m.graph.data d).isSome ∧ m.graph.producer? d = none ∧
      ∃ o, (m.graph.addOutput s d).linkConsumers s d .eraseInitial m.order.reset = .ok o ∧
        r = (⟨m.graph.addOutput s d, o⟩, m.graph.outputs.nextEdge) := by
  simp only [addStageOutput, bind_ok_iff, Graph.getStage_ok_iff, pure_ok_iff] at h
  obtain ⟨n, hn, _, hfree, o, ho, rfl⟩ := h
  obtain ⟨hd, hp⟩ := checkFree_ok hfree
  exact ⟨by simp [hn], hd, hp, o, ho, rfl⟩

theorem addStageOutput_counts {o : StageOrder}
    (h : (m.graph.addOutput s d).linkConsumers s d .eraseInitial m.order.reset = .ok o)
    (hc : m.order.Counts m.graph.dataflow.edges) (hd : d < m.graph.nextData)
    (hfree : m.graph.producer? d = none) (hnew : ∀ x, m.graph.producerEdge x ≠ some m.graph.outputs.nextEdge) :
    o.Counts (m.graph.addOutput s d).dataflow.edges :=
  (Graph.linkConsumers_counts h hc.reset fun _ _ _ ho => ho.eraseInitial).congr fun _ _ =>
    Graph.edges_addOutput hd (Graph.producer_eq_none_iff.mpr hfree) hnew

theorem addStageOutput_inv {r : Model × EdgeId} (hm : m.InvExcept inj goneIn [] P)
    (h : m.addStageOutput s d = .ok r) (hP : ∀ c, P c → m.graph.parentStage c ≠ none) :
    r.1.InvExcept inj goneIn [] P := by
  obtain ⟨hs, hd, hfree, o, ho, rfl⟩ := addStageOutput_ok h
  refine ⟨Graph.wf_addOutput hm.wf hs hd hfree, ?_, ?_⟩
  · refine addStageOutput_counts ho hm.counts (hm.wf.data_lt d hd) hfree fun x hx => ?_
    obtain ⟨r, hr, -⟩ := hm.wf.producer?_eq hx
    rw [hm.wf.outputs.edge_nextEdge] at hr
    cases hr
  · exact Graph.linkConsumers_idle ho (hm.idle.order rfl) hP fun _ _ => rfl

/-! ### Replacing the data of an edge -/

theorem replaceStageInput_ok (h : m.replaceStageInput e d = .ok m') : ∃ r o₁ o₂,
    m.graph.inputs.edge e = some r ∧ (m.graph.data d).isSome ∧
    m.graph.inputs.deref r.parentEdge = none ∧ m.graph.inputs.deref r.childEdge = none ∧
    (m.graph.eraseConsumer r.data e).unlinkInput r.stage r.data m.order.reset = .ok o₁ ∧
    ({ m.graph.eraseConsumer r.data e with inputs := m.graph.inputs.setData e d }.pushConsumer d e).linkInput
      r.stage d o₁ = .ok o₂ ∧
    m' = ⟨{ m.graph.eraseConsumer r.data e with inputs := m.graph.inputs.setData e d }.pushConsumer d e,
      o₂.updateInitial r.stage⟩ := by
  simp only [replaceStageInput, bind_ok_iff, Graph.getEdge_ok_iff, Graph.getData_ok_iff, ieAssert_ok_iff,
    pure_ok_iff] at h
  obtain ⟨r, hr, n, hn, -, -, -, -, -, hp, -, hc, o₁, ho₁, o₂, ho₂, rfl⟩ := h
  exact ⟨r, o₁, o₂, hr, by simp [hn], hp, hc, ho₁, ho₂, rfl⟩

theorem replaceStageInput_inv (hm : m.InvExcept inj [] goneOut P) (h : m.replaceStageInput e d = .ok m')
    (hP : ∀ c, P c → m.graph.parentStage c ≠ none) : m'.InvExcept inj [] goneOut P := by
  obtain ⟨r, o₁, o₂, hr, hd, hp, hc, ho₁, ho₂, rfl⟩ := replaceStageInput_ok h
  replace hp := hm.wf.inputs.parentEdge_of_deref hr hp
  replace hc := hm.wf.inputs.childEdge_of_deref hr hc
  refine ⟨Graph.wf_replaceInput hm.wf hr hp hc hd, ?_, ?_⟩
  · have h₁ : o₁.Counts (m.graph.eraseConsumer r.data e).dataflow.edges :=
      (Graph.unlinkInput_counts ho₁ hm.counts.reset).congr fun _ _ =>
        Graph.edges_eraseConsumer (hm.wf.inData e r hr) (hm.wf.consumer_of_edge hr hp) (Graph.consumer_eq hr)
    have hflow : { m.graph.eraseConsumer r.data e with inputs := m.graph.inputs.setData e d }.dataflow =
        (m.graph.eraseConsumer r.data e).dataflow := Graph.dataflow_inputs fun _ _ _ => Ports.stage_setData _
    refine ((Graph.linkInput_counts ho₂ h₁).congr fun _ _ => ?_).updateInitial
    rw [← hflow]
    refine Graph.edges_pushConsumer (hm.wf.data_lt d hd) ?_
    show ((m.graph.inputs.setData e d).edge e).map PortEdge.stage = _
    rw [Ports.stage_setData, hr, Option.map_some]
  · exact (Graph.linkInput_idle ho₂ (Graph.unlinkInput_idle ho₁ (hm.idle.order rfl)) hP).order rfl

theorem replaceStageOutput_ok (h : m.replaceStageOutput e d = .ok m') : ∃ r o₁ o₂,
    m.graph.outputs.edge e = some r ∧ (m.graph.data d).isSome ∧ m.graph.producer? d = none ∧
    m.graph.outputs.deref r.parentEdge = none ∧ m.graph.outputs.deref r.childEdge = none ∧
    (m.graph.setProducer r.data none).unlinkConsumers r.stage r.data .updateInitial m.order.reset = .ok o₁ ∧
    ({ m.graph.setProducer r.data none with outputs := m.graph.outputs.setData e d }.setProducer d
      (some e)).linkConsumers r.stage d .eraseInitial o₁ = .ok o₂ ∧
    m' = ⟨{ m.graph.setProducer r.data none with outputs := m.graph.outputs.setData e d }.setProducer d (some e),
      o₂⟩ := by
  simp only [replaceStageOutput, bind_ok_iff, Graph.getEdge_ok_iff, Graph.getData_ok_iff, ieAssert_ok_iff,
    pure_ok_iff] at h
  obtain ⟨r, hr, n, hn, -, -, _, hfree, -, hp, -, hc, o₁, ho₁, o₂, ho₂, rfl⟩ := h
  exact ⟨r, o₁, o₂, hr, by simp [hn], (checkFree_ok hfree).2, hp, hc, ho₁, ho₂, rfl⟩

theorem replaceStageOutput_inv (hm : m.InvExcept inj goneIn [] P) (h : m.replaceStageOutput e d = .ok m')
    (hP : ∀ c, P c → m.graph.parentStage c ≠ none) : m'.InvExcept inj goneIn [] P := by
  obtain ⟨r, o₁, o₂, hr, hd, hfree, hp, hc, ho₁, ho₂, rfl⟩ := replaceStageOutput_ok h
  replace hp := hm.wf.outputs.parentEdge_of_deref hr hp
  replace hc := hm.wf.outputs.childEdge_of_deref hr hc
  obtain ⟨-, hprod⟩ := hm.wf.producer_of_edge hr hp
  refine ⟨Graph.wf_replaceOutput hm.wf hr hp hc hd hfree, ?_, ?_⟩
  · have h₁ : o₁.Counts (m.graph.setProducer r.data none).dataflow.edges :=
      (Graph.unlinkConsumers_counts ho₁ hm.counts.reset fun _ _ _ ho => ho.updateInitial).congr fun _ _ =>
        Graph.edges_clearProducer (hm.wf.outData e r hr) (Graph.producer_eq hprod)
    have hflow : { m.graph.setProducer r.data none with outputs := m.graph.outputs.setData e d }.dataflow =
        (m.graph.setProducer r.data none).dataflow := Graph.dataflow_outputs fun _ _ _ => Ports.stage_setData _
    have hfree' : { m.graph.setProducer r.data none with outputs := m.graph.outputs.setData e d }.producer d =
        none := by
      refine (congrArg (fun f => Dataflow.producer f d) hflow).trans ?_
      refine Graph.producer_eq_none_iff.mpr ?_
      rw [Graph.producer?_setProducer]
      split_ifs
      · rfl
      · exact hfree
    refine (Graph.linkConsumers_counts ho₂ h₁ fun _ _ _ ho => ho.eraseInitial).congr fun _ _ => ?_
    rw [← hflow]
    refine Graph.edges_setProducer (r := { r with data := d }) (hm.wf.data_lt d hd) hfree' ?_
    show (m.graph.outputs.setData e d).edge e = _
    rw [Ports.setData, Ports.edge_modify, if_pos rfl, hr, Option.map_some]
  · refine Graph.linkConsumers_idle ho₂ ?_ hP fun _ _ => rfl
    exact Graph.unlinkConsumers_idle ho₁ (hm.idle.order rfl) fun _ _ => rfl

/-! ### Adding datas and stages -/

theorem addData_inv (hm : m.InvExcept inj goneIn goneOut P) (usage : DataUsage) :
    (m.addData usage).InvExcept inj goneIn goneOut P := by
  have hnone : m.graph.consumerEdges m.graph.nextData = [] := by
    rw [List.eq_nil_iff_forall_not_mem]
    intro e he
    obtain ⟨r, hr, hd, -⟩ := hm.wf.edge_of_consumer he
    exact absurd (hm.wf.inData e r hr) (by rw [hd]; exact Nat.lt_irrefl _)
  refine ⟨{ hm.wf with inData := ?_, outData := ?_, data_lt := ?_ }, ?_, hm.idle⟩
  · exact fun e r hr => Nat.lt_succ_of_lt (hm.wf.inData e r hr)
  · exact fun e r hr => Nat.lt_succ_of_lt (hm.wf.outData e r hr)
  · intro d hd
    replace hd : (Function.update m.graph.data m.graph.nextData (some { usage := usage }) d).isSome := hd
    show d < m.graph.nextData + 1
    by_cases hdn : d = m.graph.nextData
    · exact lt_of_eq_of_lt hdn (Nat.lt_succ_self _)
    · rw [Function.update_of_ne hdn] at hd
      exact Nat.lt_succ_of_lt (hm.wf.data_lt d hd)
  · refine hm.counts.congr fun p c => ?_
    refine Dataflow.edges_addData (f := m.graph.dataflow) rfl rfl rfl ?_
    show (m.graph.consumerEdges m.graph.nextData).filterMap m.graph.consumer = []
    rw [hnone, List.filterMap_nil]

theorem setDataEdges_inv (hm : m.InvExcept inj goneIn goneOut P) (parent : Option SharedDataOrder)
    (children : List SharedDataOrder) : (m.setDataEdges d parent children).InvExcept inj goneIn goneOut P := by
  refine ⟨{ hm.wf with data_lt := ?_ }, hm.counts, hm.idle⟩
  intro x hx
  replace hx : (Function.update m.graph.data d ((m.graph.data d).map fun n =>
      { n with parentDataEdge := parent, childDataEdges := children }) x).isSome := hx
  refine hm.wf.data_lt x ?_
  by_cases hxd : x = d
  · subst hxd
    simpa using hx
  · rwa [Function.update_of_ne hxd] at hx

theorem addTempBuffer_ok (h : m.addTempBuffer s = .ok m') :
    m' = { m with graph := (m.graph.addData .Temp).addTempBuffer s m.graph.nextData } := by
  simp only [addTempBuffer, bind_ok_iff, pure_ok_iff] at h
  obtain ⟨-, -, rfl⟩ := h
  rfl

theorem addTempBuffer_inv (hm : m.InvExcept inj goneIn goneOut P) (h : m.addTempBuffer s = .ok m') :
    m'.InvExcept inj goneIn goneOut P := by
  obtain rfl := addTempBuffer_ok h
  obtain ⟨hwf, hcounts, hidle⟩ := addData_inv hm .Temp
  exact ⟨{ hwf with }, hcounts, hidle⟩

theorem stage_nextStage (hm : m.InvExcept inj goneIn goneOut P) : m.graph.stage m.graph.nextStage = none := by
  rw [← Option.not_isSome_iff_eq_none]
  exact fun h => Nat.lt_irrefl _ (hm.wf.stage_lt _ h)

/-- A new stage is not injected. -/
theorem parentStage_addStage (hm : m.InvExcept inj goneIn goneOut P) (category : StageCategory) :
    (m.graph.addStage category).parentStage = m.graph.parentStage := by
  funext t
  unfold Graph.parentStage
  show ((Function.update m.graph.stage m.graph.nextStage _ t).bind _).map _ = _
  by_cases ht : t = m.graph.nextStage
  · subst ht
    rw [Function.update_self, stage_nextStage hm]
    rfl
  · rw [Function.update_of_ne ht]
    rfl

theorem createStage_inv (hm : m.Inv) (category : StageCategory) : (m.createStage category).Inv := by
  have hnone := stage_nextStage hm.toInvExcept
  have hstage : ∀ t, (m.graph.stage t).isSome → ((m.graph.addStage category).stage t).isSome := by
    intro t ht
    show (Function.update m.graph.stage m.graph.nextStage _ t).isSome
    by_cases hts : t = m.graph.nextStage
    · subst hts
      simp
    · rwa [Function.update_of_ne hts]
  have hold : ∀ c n, n.parentStageEdge ≠ none → (m.graph.addStage category).stage c = some n →
      m.graph.stage c = some n := by
    intro c n hn hc
    replace hc : Function.update m.graph.stage m.graph.nextStage (some { category := category }) c = some n := hc
    by_cases hcs : c = m.graph.nextStage
    · subst hcs
      rw [Function.update_self] at hc
      cases hc
      exact absurd rfl hn
    · rwa [Function.update_of_ne hcs] at hc
  refine ⟨⟨?_, ?_, ?_⟩, ?_, hm.injections.fresh, ?_, ?_⟩
  · show (m.graph.addStage category).WellFormedExcept (m.graph.addStage category).parentStage [] []
    rw [parentStage_addStage hm.toInvExcept]
    refine { hm.wf with inStage := ?_, outStage := ?_, stage_lt := ?_ }
    · exact fun e r hr => hstage _ (hm.wf.inStage e r hr)
    · exact fun e r hr => hstage _ (hm.wf.outStage e r hr)
    · intro t ht
      replace ht : (Function.update m.graph.stage m.graph.nextStage (some { category := category }) t).isSome := ht
      show t < m.graph.nextStage + 1
      by_cases hts : t = m.graph.nextStage
      · exact lt_of_eq_of_lt hts (Nat.lt_succ_self _)
      · rw [Function.update_of_ne hts] at ht
        exact Nat.lt_succ_of_lt (hm.wf.stage_lt t ht)
  · -- no edge counts for the new stage
    have hprod : ∀ c, m.graph.dataflow.edges m.graph.nextStage c = 0 := by
      refine fun c => Dataflow.edges_eq_zero_of_producer fun d hd => ?_
      obtain ⟨r, hr, hst⟩ := Option.map_eq_some_iff.mp hd
      obtain ⟨o, -, ho⟩ := Option.bind_eq_some_iff.mp hr
      have := hm.wf.outStage o r ho
      rw [hst, hnone] at this
      cases this
    have hcons : ∀ p, m.graph.dataflow.edges p m.graph.nextStage = 0 := by
      refine fun p => Dataflow.edges_eq_zero_of_consumer fun d hd => ?_
      obtain ⟨e, -, he⟩ := List.mem_filterMap.mp hd
      obtain ⟨r, hr, hst⟩ := Option.map_eq_some_iff.mp he
      have := hm.wf.inStage e r hr
      rw [hst, hnone] at this
      cases this
    intro p c
    show ((m.order.reset.addStage m.graph.nextStage).nextStages p).get c = m.graph.dataflow.edges p c ∧
      ((m.order.reset.addStage m.graph.nextStage).prevStages c).get p = m.graph.dataflow.edges p c
    obtain ⟨hn, hp⟩ := hm.counts p c
    simp only [StageOrder.addStage, StageOrder.reset]
    constructor
    · by_cases hps : p = m.graph.nextStage
      · subst hps
        rw [Function.update_self, hprod, Counter.get_empty]
      · rw [Function.update_of_ne hps, hn]
    · by_cases hcs : c = m.graph.nextStage
      · subst hcs
        rw [Function.update_self, hcons, Counter.get_empty]
      · rw [Function.update_of_ne hcs, hp]
  · intro c hc p
    rw [show (m.createStage category).graph = m.graph.addStage category from rfl,
      parentStage_addStage hm.toInvExcept] at hc
    show ((m.order.reset.addStage m.graph.nextStage).prevStages c).get p = 0
    simp only [StageOrder.addStage, StageOrder.reset]
    by_cases hcs : c = m.graph.nextStage
    · subst hcs
      rw [Function.update_self, Counter.get_empty]
    · rw [Function.update_of_ne hcs]
      exact hm.idle c hc p
  · intro c n i r hn hi hr
    obtain ⟨hc, np, hnp, hmem⟩ := hm.injections.child c n i r (hold c n (by simp [hi]) hn) hi hr
    refine ⟨hc, np, ?_, hmem⟩
    show Function.update m.graph.stage m.graph.nextStage _ r.parent = some np
    rw [Function.update_of_ne, hnp]
    intro hp
    rw [hp, hnone] at hnp
    cases hnp
  · exact fun c n i hn hi => hm.injections.freshParent c n i (hold c n (by simp [hi]) hn) hi
  · show ∀ c p, (m.graph.addStage category).parentStage c = some p → (m.graph.addStage category).parentStage p = none
    rw [parentStage_addStage hm.toInvExcept]
    exact hm.injections.top

theorem listStage_inv (hm : m.Inv) (s : StageId) : (m.listStage s).Inv where
  wf := { hm.wf with }
  counts := hm.counts
  idle := hm.idle
  injections := ⟨hm.injections.child, hm.injections.fresh, hm.injections.freshParent, hm.injections.top⟩

theorem addEdges_inv {inputs outputs : List DataId} (hm : m.Inv) (h : m.addEdges s inputs outputs = .ok m') :
    m'.Inv ∧ m.graph.SameStages m'.graph := by
  unfold addEdges at h
  rw [bind_ok_iff] at h
  obtain ⟨m₁, h₁, h₂⟩ := h
  have hin : m₁.Inv ∧ m.graph.SameStages m₁.graph := by
    refine foldlM_ok_induct (I := fun _ (m₁ : Model) => m₁.Inv ∧ m.graph.SameStages m₁.graph) h₁
      ⟨hm, .refl _⟩ ?_
    rintro - d - m₂ m₃ - ⟨hinv, hsame⟩ h₃
    obtain ⟨r, hr, rfl⟩ := map_ok_iff.mp h₃
    obtain ⟨-, -, o, -, hreq⟩ := addStageInput_ok hr
    have hsame' : m₂.graph.SameStages r.1.graph := by
      rw [hreq]
      exact ⟨rfl, rfl, rfl, rfl⟩
    exact ⟨hinv.of_same (addStageInput_inv hinv.toInvExcept hr fun _ hc => hc) hsame', hsame.trans hsame'⟩
  refine foldlM_ok_induct (I := fun _ (m₁ : Model) => m₁.Inv ∧ m.graph.SameStages m₁.graph) h₂ hin ?_
  rintro - d - m₂ m₃ - ⟨hinv, hsame⟩ h₃
  obtain ⟨r, hr, rfl⟩ := map_ok_iff.mp h₃
  obtain ⟨-, -, -, o, -, hreq⟩ := addStageOutput_ok hr
  have hsame' : m₂.graph.SameStages r.1.graph := by
    rw [hreq]
    exact ⟨rfl, rfl, rfl, rfl⟩
  exact ⟨hinv.of_same (addStageOutput_inv hinv.toInvExcept hr fun _ hc => hc) hsame', hsame.trans hsame'⟩

theorem addNewStage_ok {category : StageCategory} {inputs outputs : List DataId}
    (h : m.addNewStage category inputs outputs = .ok m') : ∃ m₁, inputs ≠ [] ∧
      (m.createStage category).addEdges m.graph.nextStage inputs outputs = .ok m₁ ∧
      m' = m₁.listStage m.graph.nextStage := by
  simp only [addNewStage, checkEdges, bind_ok_iff, ieAssert_ok_iff, pure_ok_iff] at h
  obtain ⟨-, ⟨-, hin, -⟩, m₁, h₁, rfl⟩ := h
  exact ⟨m₁, hin, h₁, rfl⟩

theorem addNewStage_inv {category : StageCategory} {inputs outputs : List DataId} (hm : m.Inv)
    (h : m.addNewStage category inputs outputs = .ok m') : m'.Inv := by
  obtain ⟨m₁, -, h₁, rfl⟩ := addNewStage_ok h
  exact listStage_inv (addEdges_inv (createStage_inv hm category) h₁).1 _

/-- `duplicateStage` puts the new stage among the roots first. -/
def insertInitial (m : Model) (s : StageId) : Model :=
  { m with order := { m.order with initialStages := insert s m.order.initialStages } }

theorem insertInitial_inv (hm : m.Inv) (s : StageId) : (m.insertInitial s).Inv where
  wf := hm.wf
  counts := hm.counts.order rfl rfl
  idle := hm.idle.order rfl
  injections := hm.injections

theorem duplicateStage_ok {inputs outputs : List DataId} (h : m.duplicateStage s inputs outputs = .ok m') :
    ∃ (n : StageNode) (m₁ m₂ : Model), inputs ≠ [] ∧
      ((m.createStage n.category).insertInitial m.graph.nextStage).addEdges m.graph.nextStage inputs outputs =
        .ok m₁ ∧
      (m₁.graph.tempBuffers.ports s).foldlM (fun m₃ e => do
        let _ ← m₃.graph.tempBuffers.getEdge e
        m₃.addTempBuffer m.graph.nextStage) m₁ = .ok m₂ ∧
      m' = m₂.listStage m.graph.nextStage := by
  simp only [duplicateStage, checkEdges, bind_ok_iff, ieAssert_ok_iff, pure_ok_iff] at h
  obtain ⟨n, -, -, ⟨-, hin, -⟩, m₁, h₁, m₂, h₂, rfl⟩ := h
  exact ⟨n, m₁, m₂, hin, h₁, h₂, rfl⟩

/-- The loop over the temporary buffers of the original stage. -/
theorem copyTempBuffers_inv {l : List EdgeId} (hm : m.Inv) (h : l.foldlM (fun m₁ e => do
      let _ ← m₁.graph.tempBuffers.getEdge e
      m₁.addTempBuffer s) m = .ok m') :
    m'.Inv ∧ m.graph.SameStages m'.graph ∧ m'.order = m.order := by
  refine foldlM_ok_induct
    (I := fun _ (m₁ : Model) => m₁.Inv ∧ m.graph.SameStages m₁.graph ∧ m₁.order = m.order) h ⟨hm, .refl _, rfl⟩ ?_
  rintro - e - m₁ m₂ - ⟨hinv, hsame, horder⟩ h₁
  rw [bind_ok_iff] at h₁
  obtain ⟨-, -, h₁⟩ := h₁
  have hinv' := addTempBuffer_inv hinv.toInvExcept h₁
  obtain rfl := addTempBuffer_ok h₁
  have hsame' : m₁.graph.SameStages ((m₁.graph.addData .Temp).addTempBuffer s m₁.graph.nextData) :=
    ⟨rfl, rfl, rfl, rfl⟩
  exact ⟨hinv.of_same hinv' hsame', hsame.trans hsame', horder⟩

theorem duplicateStage_inv {inputs outputs : List DataId} (hm : m.Inv)
    (h : m.duplicateStage s inputs outputs = .ok m') : m'.Inv := by
  obtain ⟨n, m₁, m₂, -, h₁, h₂, rfl⟩ := duplicateStage_ok h
  have hinv := (addEdges_inv (insertInitial_inv (createStage_inv hm n.category) _) h₁).1
  exact listStage_inv (copyTempBuffers_inv hinv h₂).1 _

/-! ### Taking a stage out -/

theorem disconnectInput_ok (h : m.disconnectInput e = .ok m') : ∃ r o,
    m.graph.inputs.edge e = some r ∧ m.graph.unlinkInput r.stage r.data m.order = .ok o ∧
    m' = ⟨{ m.graph.eraseConsumer r.data e with inputs := m.graph.inputs.erase e }, o⟩ := by
  simp only [disconnectInput, bind_ok_iff, Graph.getEdge_ok_iff, pure_ok_iff] at h
  obtain ⟨r, hr, o, ho, rfl⟩ := h
  exact ⟨r, o, hr, ho, rfl⟩

theorem disconnectInput_inv {r : PortEdge} (hm : m.InvExcept inj goneIn goneOut P)
    (h : m.disconnectInput e = .ok m') (hr : m.graph.inputs.edge e = some r) (hp : r.parentEdge = none)
    (hc : r.childEdge = none) : m'.InvExcept inj (e :: goneIn) goneOut P := by
  obtain ⟨r', o, hr', ho, rfl⟩ := disconnectInput_ok h
  rw [hr] at hr'
  cases hr'
  refine ⟨Graph.wf_dropInput hm.wf hr hp hc, ?_, Graph.unlinkInput_idle ho hm.idle⟩
  have hflow : { m.graph.eraseConsumer r.data e with inputs := m.graph.inputs.erase e }.dataflow =
      (m.graph.eraseConsumer r.data e).dataflow := by
    refine Graph.dataflow_inputs fun x y hy => ?_
    rw [show (m.graph.eraseConsumer r.data e).consumerEdges = Graph.eraseAt m.graph.consumerEdges r.data e from rfl,
      Graph.mem_eraseAt hm.wf.nodup] at hy
    have hne : y ≠ e := by
      rintro rfl
      exact hy.2 rfl (hm.wf.consumer_unique hr hy.1)
    rw [Ports.edge_erase, if_neg hne]
    rfl
  refine (Graph.unlinkInput_counts ho hm.counts).congr fun p c => ?_
  rw [hflow]
  exact Graph.edges_eraseConsumer (hm.wf.inData e r hr) (hm.wf.consumer_of_edge hr hp) (Graph.consumer_eq hr)

theorem disconnectOutput_ok (h : m.disconnectOutput e = .ok m') : ∃ r o,
    m.graph.outputs.edge e = some r ∧ m.graph.unlinkConsumers r.stage r.data (fun o _ => o) m.order = .ok o ∧
    m' = ⟨{ m.graph.setProducer r.data none with outputs := m.graph.outputs.erase e }, o⟩ := by
  simp only [disconnectOutput, bind_ok_iff, Graph.getEdge_ok_iff, pure_ok_iff] at h
  obtain ⟨r, hr, o, ho, rfl⟩ := h
  exact ⟨r, o, hr, ho, rfl⟩

theorem disconnectOutput_inv {r : PortEdge} (hm : m.InvExcept inj goneIn goneOut P)
    (h : m.disconnectOutput e = .ok m') (hr : m.graph.outputs.edge e = some r) (hp : r.parentEdge = none)
    (hc : r.childEdge = none) : m'.InvExcept inj goneIn (e :: goneOut) P := by
  obtain ⟨r', o, hr', ho, rfl⟩ := disconnectOutput_ok h
  rw [hr] at hr'
  cases hr'
  refine ⟨Graph.wf_dropOutput hm.wf hr hp hc, ?_, Graph.unlinkConsumers_idle ho hm.idle fun _ _ => rfl⟩
  have hflow : { m.graph.setProducer r.data none with outputs := m.graph.outputs.erase e }.dataflow =
      (m.graph.setProducer r.data none).dataflow := by
    refine Graph.dataflow_outputs fun x y hy => ?_
    replace hy : Function.update m.graph.producerEdge r.data none x = some y := hy
    have hne : y ≠ e := by
      rintro rfl
      by_cases hx : x = r.data
      · subst hx
        rw [Function.update_self] at hy
        cases hy
      · rw [Function.update_of_ne hx] at hy
        obtain ⟨r', hr', hd, -⟩ := (hm.wf.producers x y).mp hy
        rw [hr] at hr'
        cases hr'
        exact hx hd.symm
    rw [Ports.edge_erase, if_neg hne]
    rfl
  refine (Graph.unlinkConsumers_counts ho hm.counts fun _ _ _ ho => ho).congr fun p c => ?_
  rw [hflow]
  exact Graph.edges_clearProducer (hm.wf.outData e r hr) (Graph.producer_eq (hm.wf.producer_of_edge hr hp).2)

theorem disconnectTempBuffer_ok (h : m.disconnectTempBuffer e = .ok m') :
    ∃ r : PortEdge, m' = { m with graph :=
      { m.graph.setTempBuffer r.data none with tempBuffers := m.graph.tempBuffers.erase e } } := by
  simp only [disconnectTempBuffer, bind_ok_iff, Graph.getEdge_ok_iff, pure_ok_iff] at h
  obtain ⟨r, -, rfl⟩ := h
  exact ⟨r, rfl⟩

/-- The loop over the inputs of a stage outside injections. -/
theorem disconnectInputs_inv (hm : m.InvExcept inj [] goneOut P) (hs : inj s = none) (hc : ∀ c, inj c ≠ some s)
    (h : (m.graph.inputs.ports s).foldlM disconnectInput m = .ok m') :
    m'.InvExcept inj (m.graph.inputs.ports s).reverse goneOut P ∧
      m'.graph.inputs.ports = m.graph.inputs.ports ∧ m'.graph.outputs = m.graph.outputs ∧
      m.graph.SameStages m'.graph := by
  refine foldlM_ok_induct (I := fun pre (m₁ : Model) => m₁.InvExcept inj pre.reverse goneOut P ∧
    m₁.graph.inputs.ports = m.graph.inputs.ports ∧ m₁.graph.outputs = m.graph.outputs ∧
    m.graph.SameStages m₁.graph) h ⟨hm, rfl, rfl, .refl _⟩ ?_
  rintro pre e post m₁ m₂ hl ⟨hinv, hports, hout, hsame⟩ h₁
  -- the edge is still there: it is listed once
  have hnd := hm.wf.inputs.nodup s
  rw [hl, List.nodup_append'] at hnd
  have hmem : e ∈ m₁.graph.inputs.ports s ∧ e ∉ pre.reverse := by
    rw [hports, hl, List.mem_reverse]
    exact ⟨by simp, fun hpre => hnd.2.2 hpre List.mem_cons_self⟩
  obtain ⟨r, hr, hrs⟩ := (hinv.wf.inputs.mem s e).mp hmem
  have hinv' := disconnectInput_inv hinv h₁ hr (hinv.wf.inputs.parentEdge_none hr (hrs ▸ hs))
    (hinv.wf.inputs.childEdge_none hr (hrs ▸ hc))
  rw [List.reverse_append, List.reverse_singleton, List.singleton_append]
  obtain ⟨r', o, -, -, rfl⟩ := disconnectInput_ok h₁
  exact ⟨hinv', hports, hout, hsame.trans ⟨rfl, rfl, rfl, rfl⟩⟩

theorem disconnectOutputs_inv (hm : m.InvExcept inj goneIn [] P) (hs : inj s = none) (hc : ∀ c, inj c ≠ some s)
    (h : (m.graph.outputs.ports s).foldlM disconnectOutput m = .ok m') :
    m'.InvExcept inj goneIn (m.graph.outputs.ports s).reverse P ∧
      m'.graph.outputs.ports = m.graph.outputs.ports ∧ m'.graph.inputs = m.graph.inputs ∧
      m.graph.SameStages m'.graph := by
  refine foldlM_ok_induct (I := fun pre (m₁ : Model) => m₁.InvExcept inj goneIn pre.reverse P ∧
    m₁.graph.outputs.ports = m.graph.outputs.ports ∧ m₁.graph.inputs = m.graph.inputs ∧
    m.graph.SameStages m₁.graph) h ⟨hm, rfl, rfl, .refl _⟩ ?_
  rintro pre e post m₁ m₂ hl ⟨hinv, hports, hin, hsame⟩ h₁
  have hnd := hm.wf.outputs.nodup s
  rw [hl, List.nodup_append'] at hnd
  have hmem : e ∈ m₁.graph.outputs.ports s ∧ e ∉ pre.reverse := by
    rw [hports, hl, List.mem_reverse]
    exact ⟨by simp, fun hpre => hnd.2.2 hpre List.mem_cons_self⟩
  obtain ⟨r, hr, hrs⟩ := (hinv.wf.outputs.mem s e).mp hmem
  have hinv' := disconnectOutput_inv hinv h₁ hr (hinv.wf.outputs.parentEdge_none hr (hrs ▸ hs))
    (hinv.wf.outputs.childEdge_none hr (hrs ▸ hc))
  rw [List.reverse_append, List.reverse_singleton, List.singleton_append]
  obtain ⟨r', o, -, -, rfl⟩ := disconnectOutput_ok h₁
  exact ⟨hinv', hports, hin, hsame.trans ⟨rfl, rfl, rfl, rfl⟩⟩

theorem disconnectTempBuffers_inv {l : List EdgeId} (hm : m.InvExcept inj goneIn goneOut P)
    (h : l.foldlM disconnectTempBuffer m = .ok m') :
    m'.InvExcept inj goneIn goneOut P ∧ m'.graph.inputs = m.graph.inputs ∧ m'.graph.outputs = m.graph.outputs ∧
      m.graph.SameStages m'.graph ∧ m'.order = m.order := by
  refine foldlM_ok_induct (I := fun _ (m₁ : Model) => m₁.InvExcept inj goneIn goneOut P ∧
    m₁.graph.inputs = m.graph.inputs ∧ m₁.graph.outputs = m.graph.outputs ∧ m.graph.SameStages m₁.graph ∧
    m₁.order = m.order) h ⟨hm, rfl, rfl, .refl _, rfl⟩ ?_
  rintro - e - m₁ m₂ - ⟨hinv, hin, hout, hsame, horder⟩ h₁
  obtain ⟨r, rfl⟩ := disconnectTempBuffer_ok h₁
  exact ⟨⟨{ hinv.wf with }, hinv.counts, hinv.idle⟩, hin, hout, hsame.trans ⟨rfl, rfl, rfl, rfl⟩, horder⟩

/-- The list of a stage all of whose input edges are gone is cleared. -/
theorem clearInputs_inv (hm : m.InvExcept inj (m.graph.inputs.ports s).reverse goneOut P)
    (hunique : ∀ x t, x ∈ m.graph.inputs.ports s → x ∈ m.graph.inputs.ports t → t = s) :
    InvExcept { m with graph := { m.graph with inputs := m.graph.inputs.setPorts s [] } } inj [] goneOut P where
  wf := by
    refine Graph.wf_closeInput (l := []) hm.wf (fun x hx t ht => ?_) .nil fun x => ?_
    · exact hunique x t (List.mem_reverse.mp hx) ht
    · simp
  counts := by
    refine hm.counts.congr fun p c => ?_
    rw [Graph.dataflow_inputs (q := m.graph.inputs.setPorts s []) fun _ _ _ => rfl]
  idle := hm.idle

theorem clearOutputs_inv (hm : m.InvExcept inj goneIn (m.graph.outputs.ports s).reverse P)
    (hunique : ∀ x t, x ∈ m.graph.outputs.ports s → x ∈ m.graph.outputs.ports t → t = s) :
    InvExcept { m with graph := { m.graph with outputs := m.graph.outputs.setPorts s [] } } inj goneIn [] P where
  wf := by
    refine Graph.wf_closeOutput (l := []) hm.wf (fun x hx t ht => ?_) .nil fun x => ?_
    · exact hunique x t (List.mem_reverse.mp hx) ht
    · simp
  counts := by
    refine hm.counts.congr fun p c => ?_
    rw [Graph.dataflow_outputs (q := m.graph.outputs.setPorts s []) fun _ _ _ => rfl]
  idle := hm.idle

theorem disconnectStage_inv (hm : m.Inv) (hs : m.graph.Apart s) (h : m.disconnectStage s = .ok m') :
    m'.Inv ∧ m'.graph.inputs.ports s = [] ∧ m'.graph.outputs.ports s = [] ∧ m.graph.SameStages m'.graph := by
  unfold disconnectStage at h
  simp only [bind_ok_iff, pure_ok_iff] at h
  obtain ⟨-, -, m₁, h₁, m₂, h₂, m₃, h₃, rfl⟩ := h
  have hm₀ : InvExcept { m with order := m.order.reset } m.graph.parentStage [] []
      (m.graph.parentStage · ≠ none) := ⟨hm.wf, hm.counts.reset, hm.idle.order rfl⟩
  obtain ⟨hinv₁, hports₁, hout₁, hsame₁⟩ := disconnectInputs_inv hm₀ hs.1 hs.2 h₁
  have hinv₁' := clearInputs_inv (s := s) (m := m₁) (by rw [hports₁]; exact hinv₁) (by
    rw [hports₁]
    exact fun x t => hm.wf.inputs.ports_unique)
  obtain ⟨hinv₂, hports₂, hin₂, hsame₂⟩ := disconnectOutputs_inv hinv₁' hs.1 hs.2 h₂
  replace hports₂ : m₂.graph.outputs.ports = m₁.graph.outputs.ports := hports₂
  have hinv₂' := clearOutputs_inv (s := s) (m := m₂) (by rw [hports₂]; exact hinv₂) (by
    rw [hports₂, hout₁]
    exact fun x t => hm.wf.outputs.ports_unique)
  obtain ⟨hinv₃, hin₃, hout₃, hsame₃, -⟩ := disconnectTempBuffers_inv hinv₂' h₃
  -- the edges of a stage are no part of `SameStages`
  replace hsame₂ : m₁.graph.SameStages m₂.graph :=
    ⟨hsame₂.stage, hsame₂.stageEdge, hsame₂.nextStageEdge, hsame₂.stagePtrList⟩
  replace hsame₃ : m₂.graph.SameStages m₃.graph :=
    ⟨hsame₃.stage, hsame₃.stageEdge, hsame₃.nextStageEdge, hsame₃.stagePtrList⟩
  have hsame : m.graph.SameStages m₃.graph := hsame₁.trans (hsame₂.trans hsame₃)
  refine ⟨hm.of_same ⟨{ hinv₃.wf with }, hinv₃.counts, hinv₃.idle⟩ (hsame.trans ⟨rfl, rfl, rfl, rfl⟩), ?_, ?_,
    hsame.trans ⟨rfl, rfl, rfl, rfl⟩⟩
  · show m₃.graph.inputs.ports s = []
    rw [hin₃]
    show m₂.graph.inputs.ports s = []
    rw [hin₂]
    exact Function.update_self ..
  · show m₃.graph.outputs.ports s = []
    rw [hout₃]
    exact Function.update_self ..

theorem removeStage_ok (h : m.removeStage s = .ok m') : ∃ m₁, m.disconnectStage s = .ok m₁ ∧
    s ∈ m₁.graph.stagePtrList ∧ m' = ⟨m₁.graph.eraseStage s, m₁.order.eraseInitial s⟩ := by
  simp only [removeStage, bind_ok_iff, ieAssert_ok_iff, pure_ok_iff] at h
  obtain ⟨m₁, h₁, -, hs, rfl⟩ := h
  exact ⟨m₁, h₁, hs, rfl⟩

theorem parentStage_eraseStage {g : Graph} (hs : g.parentStage s = none) :
    (g.eraseStage s).parentStage = g.parentStage := by
  funext t
  show ((Function.update g.stage s none t).bind _).map _ = _
  by_cases ht : t = s
  · subst ht
    rw [Function.update_self, hs]
    rfl
  · rw [Function.update_of_ne ht]
    rfl

/-- A stage without edges, outside injections, leaves the model. -/
theorem eraseStage_inv (hm : m.Inv) (hs : m.graph.Apart s) (hin : m.graph.inputs.ports s = [])
    (hout : m.graph.outputs.ports s = []) (o : StageOrder) (hn : o.nextStages = m.order.nextStages)
    (hp : o.prevStages = m.order.prevStages) : Inv ⟨m.graph.eraseStage s, o⟩ := by
  have hold : ∀ t n, (m.graph.eraseStage s).stage t = some n → m.graph.stage t = some n := by
    intro t n ht
    replace ht : Function.update m.graph.stage s none t = some n := ht
    by_cases hts : t = s
    · subst hts
      rw [Function.update_self] at ht
      cases ht
    · rwa [Function.update_of_ne hts] at ht
  have hkeep : ∀ t, t ≠ s → (m.graph.eraseStage s).stage t = m.graph.stage t := fun t ht =>
    Function.update_of_ne ht _ _
  refine ⟨⟨?_, hm.counts.order hn hp, ?_⟩, ?_, hm.injections.fresh, ?_, ?_⟩
  · show (m.graph.eraseStage s).WellFormedExcept (m.graph.eraseStage s).parentStage [] []
    rw [parentStage_eraseStage hs.1]
    refine { hm.wf with inStage := ?_, outStage := ?_, stage_lt := ?_ }
    · intro e r hr
      rw [hkeep]
      · exact hm.wf.inStage e r hr
      · intro hrs
        have hmem := hm.wf.inputs.mem_of_edge hr
        rw [hrs, hin] at hmem
        cases hmem
    · intro e r hr
      rw [hkeep]
      · exact hm.wf.outStage e r hr
      · intro hrs
        have hmem := hm.wf.outputs.mem_of_edge hr
        rw [hrs, hout] at hmem
        cases hmem
    · intro t ht
      obtain ⟨n, hn⟩ := Option.isSome_iff_exists.mp ht
      exact hm.wf.stage_lt t (by rw [hold t n hn]; rfl)
  · intro c hc p
    show (o.prevStages c).get p = 0
    rw [show (⟨m.graph.eraseStage s, o⟩ : Model).graph = m.graph.eraseStage s from rfl,
      parentStage_eraseStage hs.1] at hc
    rw [hp]
    exact hm.idle c hc p
  · intro c n i r hc hi hr
    obtain ⟨hrc, np, hnp, hmem⟩ := hm.injections.child c n i r (hold c n hc) hi hr
    refine ⟨hrc, np, ?_, hmem⟩
    rw [hkeep, hnp]
    -- nothing is injected into the stage that leaves
    intro hrp
    refine hs.2 c (Graph.parentStage_eq_some_iff.mpr ⟨n, i, r, hold c n hc, hi, hr, hrp⟩)
  · exact fun c n i hc hi => hm.injections.freshParent c n i (hold c n hc) hi
  · show ∀ c p, (m.graph.eraseStage s).parentStage c = some p → (m.graph.eraseStage s).parentStage p = none
    rw [parentStage_eraseStage hs.1]
    exact hm.injections.top

theorem removeStage_inv (hm : m.Inv) (hs : m.graph.Apart s) (h : m.removeStage s = .ok m') : m'.Inv := by
  obtain ⟨m₁, h₁, -, rfl⟩ := removeStage_ok h
  obtain ⟨hinv, hin, hout, hsame⟩ := disconnectStage_inv hm hs h₁
  refine eraseStage_inv hinv ?_ hin hout _ rfl rfl
  rw [Graph.Apart, hsame.parentStage]
  exact hs

end Model

end OpenVino.Vpu
