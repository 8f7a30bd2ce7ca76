import OpenVino.Vpu.Model.EditInv

/-!
# Injecting a stage keeps the counters exact

`injectStage` moves the edges of the child to the parent one at a time. After each round
(`redirectInput_inv`, `redirectOutput_inv`) the graph is well formed and the counters are exact; an edge of
the child is redirected if and only if the loop has passed it, so after the loop nothing counts for the
child.
-/

namespace OpenVino.Vpu

namespace Graph

variable {g : Graph} {parent child : StageId}

theorem stage_addStageEdge (hne : parent ≠ child) (t : StageId) :
    (g.addStageEdge parent child).stage t =
      if t = child then (g.stage t).map fun n => { n with parentStageEdge := some g.nextStageEdge }
      else if t = parent then (g.stage t).map fun n =>
        { n with injectedStageEdges := n.injectedStageEdges ++ [g.nextStageEdge] }
      else g.stage t := by
  unfold addStageEdge
  by_cases htc : t = child
  · subst htc
    simp [Ne.symm hne]
  · by_cases htp : t = parent
    · subst htp
      simp [htc]
    · simp [htc, htp]

theorem parentStage_addStageEdge (h : g.Injections) (hne : parent ≠ child) (hc : (g.stage child).isSome)
    (t : StageId) :
    (g.addStageEdge parent child).parentStage t = if t = child then some parent else g.parentStage t := by
  have hedge : ∀ n i, g.stage t = some n → n.parentStageEdge = some i →
      (g.addStageEdge parent child).stageEdge i = g.stageEdge i := fun n i hn hi =>
    Function.update_of_ne (Nat.ne_of_lt (h.freshParent t n i hn hi)) _ _
  unfold parentStage
  rw [stage_addStageEdge hne]
  by_cases htc : t = child
  · subst htc
    obtain ⟨n, hn⟩ := Option.isSome_iff_exists.mp hc
    have hnew : (g.addStageEdge parent t).stageEdge g.nextStageEdge = some ⟨parent, t⟩ := Function.update_self ..
    rw [if_pos rfl, if_pos rfl, hn, Option.map_some, Option.bind_some, Option.bind_some, hnew, Option.map_some]
  · rw [if_neg htc, if_neg htc]
    cases hn : g.stage t with
    | none =>
      split_ifs <;> rfl
    | some n =>
      cases hi : n.parentStageEdge with
      | none =>
        split_ifs <;> simp [hi]
      | some i =>
        have := hedge n i hn hi
        split_ifs <;> simp [hi, this]

theorem injections_addStageEdge (h : g.Injections) (hne : parent ≠ child) (hp : (g.stage parent).isSome)
    (hc : (g.stage child).isSome) (htop : g.parentStage parent = none) (hnone : ∀ c, g.parentStage c ≠ some child) :
    (g.addStageEdge parent child).Injections where
  child c n i r hc hi hr := by
    rw [stage_addStageEdge hne] at hc
    replace hr : Function.update g.stageEdge g.nextStageEdge (some ⟨parent, child⟩) i = some r := hr
    -- a stage that was injected before keeps its parent
    have hold : ∀ n, g.stage c = some n → n.parentStageEdge = some i → c ≠ child → r.child = c ∧
        ∃ np, (g.addStageEdge parent child).stage r.parent = some np ∧ i ∈ np.injectedStageEdges := by
      intro n hn hi hcc
      rw [Function.update_of_ne (Nat.ne_of_lt (h.freshParent c n i hn hi))] at hr
      obtain ⟨hrc, np, hnp, hmem⟩ := h.child c n i r hn hi hr
      rw [stage_addStageEdge hne, hnp]
      refine ⟨hrc, ?_⟩
      split_ifs
      · exact ⟨_, rfl, hmem⟩
      · exact ⟨_, rfl, List.mem_append_left _ hmem⟩
      · exact ⟨np, rfl, hmem⟩
    split_ifs at hc with hcc hcp
    · obtain ⟨n', -, rfl⟩ := Option.map_eq_some_iff.mp hc
      cases hi
      rw [Function.update_self] at hr
      cases hr
      obtain ⟨np, hnp⟩ := Option.isSome_iff_exists.mp hp
      refine ⟨hcc.symm, { np with injectedStageEdges := np.injectedStageEdges ++ [g.nextStageEdge] }, ?_, by simp⟩
      rw [stage_addStageEdge hne, if_neg hne, if_pos rfl, hnp, Option.map_some]
    · obtain ⟨n', hn', rfl⟩ := Option.map_eq_some_iff.mp hc
      exact hold n' hn' hi hcc
    · exact hold n hc hi hcc
  fresh i r hr := by
    replace hr : Function.update g.stageEdge g.nextStageEdge (some ⟨parent, child⟩) i = some r := hr
    show i < g.nextStageEdge + 1
    by_cases hi : i = g.nextStageEdge
    · exact lt_of_eq_of_lt hi (Nat.lt_succ_self _)
    · rw [Function.update_of_ne hi] at hr
      exact Nat.lt_succ_of_lt (h.fresh i r hr)
  freshParent c n i hc hi := by
    rw [stage_addStageEdge hne] at hc
    show i < g.nextStageEdge + 1
    split_ifs at hc
    · obtain ⟨n', -, rfl⟩ := Option.map_eq_some_iff.mp hc
      cases hi
      exact Nat.lt_succ_self _
    · obtain ⟨n', hn', rfl⟩ := Option.map_eq_some_iff.mp hc
      exact Nat.lt_succ_of_lt (h.freshParent c n' i hn' hi)
    · exact Nat.lt_succ_of_lt (h.freshParent c n i hc hi)
  top c p hcp := by
    rw [parentStage_addStageEdge h hne hc] at hcp ⊢
    split_ifs at hcp with hcc
    · cases hcp
      rw [if_neg hne, htop]
    · have hpc : p ≠ child := by
        rintro rfl
        exact hnone c hcp
      rw [if_neg hpc, h.top c p hcp]

end Graph

namespace Model

variable {m m' : Model} {parent child : StageId} {e : EdgeId} {r : PortEdge} {inj : StageId → Option StageId}
  {goneIn goneOut : List EdgeId} {P : StageId → Prop}

/-! ### One round of each loop -/

theorem redirectInput_ok (h : redirectInput parent m e = .ok m') : ∃ r o o',
    m.graph.inputs.edge e = some r ∧ m.graph.unlinkInput r.stage r.data m.order = .ok o ∧
    (m.graph.stage parent).isSome ∧
    ((m.graph.eraseConsumer r.data e).addInput parent r.data).linkInput parent r.data o.reset = .ok o' ∧
    m' = ⟨{ (m.graph.eraseConsumer r.data e).addInput parent r.data with
      inputs := (m.graph.inputs.add parent r.data).tie e m.graph.inputs.nextEdge }, o'.updateInitial parent⟩ := by
  simp only [redirectInput, bind_ok_iff, Graph.getEdge_ok_iff, pure_ok_iff] at h
  obtain ⟨r, hr, o, ho, ⟨m₁, q⟩, h₁, rfl⟩ := h
  obtain ⟨hs, -, o', ho', hreq⟩ := addStageInput_ok h₁
  cases hreq
  exact ⟨r, o, o', hr, ho, hs, ho', rfl⟩

theorem redirectInput_inv (hm : m.InvExcept inj [] goneOut P) (h : redirectInput parent m e = .ok m')
    (hr : m.graph.inputs.edge e = some r) (hp : r.parentEdge = none) (hc : r.childEdge = none)
    (hinj : inj r.stage = some parent) (hP : ∀ c, P c → m.graph.parentStage c ≠ none) :
    m'.InvExcept inj [] goneOut P := by
  obtain ⟨r', o, o', hr', ho, hs, ho', rfl⟩ := redirectInput_ok h
  rw [hr] at hr'
  cases hr'
  refine ⟨Graph.wf_redirectInput hm.wf hr hp hc hinj hs, ?_, ?_⟩
  · have h₁ : o.Counts (m.graph.eraseConsumer r.data e).dataflow.edges :=
      (Graph.unlinkInput_counts ho hm.counts).congr fun _ _ =>
        Graph.edges_eraseConsumer (hm.wf.inData e r hr) (hm.wf.consumer_of_edge hr hp) (Graph.consumer_eq hr)
    have h₂ := addStageInput_counts (m := ⟨m.graph.eraseConsumer r.data e, o⟩) ho' h₁ (hm.wf.inData e r hr) (by
      intro x hx
      exact hm.wf.nextEdge_notMem ((Graph.mem_eraseAt hm.wf.nodup).mp hx).1)
    refine (h₂.congr fun p c => ?_).updateInitial
    rw [Graph.dataflow_inputs]
    intro x y _
    rw [Ports.stage_tie]
    rfl
  · exact (Graph.linkInput_idle ho' ((Graph.unlinkInput_idle ho hm.idle).order rfl) hP).order rfl

theorem redirectOutput_ok (h : redirectOutput parent m e = .ok m') : ∃ r o o',
    m.graph.outputs.edge e = some r ∧
    m.graph.unlinkConsumers r.stage r.data (fun o _ => o) m.order = .ok o ∧ (m.graph.stage parent).isSome ∧
    ((m.graph.setProducer r.data none).addOutput parent r.data).linkConsumers parent r.data .eraseInitial o.reset =
      .ok o' ∧
    m' = ⟨{ (m.graph.setProducer r.data none).addOutput parent r.data with
      outputs := (m.graph.outputs.add parent r.data).tie e m.graph.outputs.nextEdge }, o'⟩ := by
  simp only [redirectOutput, bind_ok_iff, Graph.getEdge_ok_iff, pure_ok_iff] at h
  obtain ⟨r, hr, o, ho, ⟨m₁, q⟩, h₁, rfl⟩ := h
  obtain ⟨hs, -, -, o', ho', hreq⟩ := addStageOutput_ok h₁
  cases hreq
  exact ⟨r, o, o', hr, ho, hs, ho', rfl⟩

theorem redirectOutput_inv (hm : m.InvExcept inj goneIn [] P) (h : redirectOutput parent m e = .ok m')
    (hr : m.graph.outputs.edge e = some r) (hp : r.parentEdge = none) (hc : r.childEdge = none)
    (hinj : inj r.stage = some parent) (hP : ∀ c, P c → m.graph.parentStage c ≠ none) :
    m'.InvExcept inj goneIn [] P := by
  obtain ⟨r', o, o', hr', ho, hs, ho', rfl⟩ := redirectOutput_ok h
  rw [hr] at hr'
  cases hr'
  refine ⟨Graph.wf_redirectOutput hm.wf hr hp hc hinj hs, ?_, ?_⟩
  · have h₁ : o.Counts (m.graph.setProducer r.data none).dataflow.edges :=
      (Graph.unlinkConsumers_counts ho hm.counts fun _ _ _ ho => ho).congr fun _ _ =>
        Graph.edges_clearProducer (hm.wf.outData e r hr) (Graph.producer_eq (hm.wf.producer_of_edge hr hp).2)
    have hfree : (m.graph.setProducer r.data none).producer? r.data = none := by
      rw [Graph.producer?_setProducer, if_pos rfl]
      rfl
    have h₂ := addStageOutput_counts (m := ⟨m.graph.setProducer r.data none, o⟩) ho' h₁ (hm.wf.outData e r hr)
      hfree (by
        intro x hx
        replace hx : Function.update m.graph.producerEdge r.data none x = some m.graph.outputs.nextEdge := hx
        by_cases hxd : x = r.data
        · subst hxd
          rw [Function.update_self] at hx
          cases hx
        · rw [Function.update_of_ne hxd] at hx
          obtain ⟨r', hr', -⟩ := hm.wf.producer?_eq hx
          rw [hm.wf.outputs.edge_nextEdge] at hr'
          cases hr')
    refine h₂.congr fun p c => ?_
    rw [Graph.dataflow_outputs]
    intro x y _
    rw [Ports.stage_tie]
    rfl
  · refine Graph.linkConsumers_idle ho' ?_ hP fun _ _ => rfl
    exact (Graph.unlinkConsumers_idle ho hm.idle fun _ _ => rfl).order rfl

theorem redirectTempBuffer_ok (h : redirectTempBuffer parent m e = .ok m') : ∃ r : PortEdge,
    m' = { m with graph := { (m.graph.setTempBuffer r.data none).addTempBuffer parent r.data with
      tempBuffers := (m.graph.tempBuffers.add parent r.data).tie e m.graph.tempBuffers.nextEdge } } := by
  simp only [redirectTempBuffer, bind_ok_iff, Graph.getEdge_ok_iff, pure_ok_iff] at h
  obtain ⟨r, -, rfl⟩ := h
  exact ⟨r, rfl⟩

/-! ### The loops -/

/-- Of the edges of `child`, those of the walked part of its list are redirected. -/
def Redirected (p : Ports) (child : StageId) (pre : List EdgeId) : Prop :=
  ∀ e r, p.edge e = some r → r.stage = child → (r.parentEdge = none ↔ e ∉ pre)

theorem redirected_step {p : Ports} {pre : List EdgeId} (hp : p.InvExcept inj goneIn) (hne : parent ≠ child)
    (he : p.edge e = some r) (hr : Redirected p child pre) :
    Redirected ((p.add parent r.data).tie e p.nextEdge) child (pre ++ [e]) := by
  intro x rx hx hst
  rw [Ports.edge_redirect he (Nat.ne_of_lt (hp.fresh e r he))] at hx
  split_ifs at hx with hnew hxe
  · cases hx
    exact absurd hst hne
  · cases hx
    simp [hxe]
  · rw [hr x rx hx hst]
    simp [hxe]

theorem redirectInputs_inv (hm : m.InvExcept inj [] goneOut P) (hne : parent ≠ child)
    (hinj : inj child = some parent) (hchild : ∀ c, inj c ≠ some child)
    (hfree : Redirected m.graph.inputs child []) (hP : ∀ c, P c → m.graph.parentStage c ≠ none)
    (h : (m.graph.inputs.ports child).foldlM (redirectInput parent) m = .ok m') :
    m'.InvExcept inj [] goneOut P ∧ Redirected m'.graph.inputs child (m.graph.inputs.ports child) ∧
      m'.graph.inputs.ports child = m.graph.inputs.ports child ∧ m'.graph.outputs = m.graph.outputs ∧
      m.graph.SameStages m'.graph := by
  refine foldlM_ok_induct (I := fun pre (m₁ : Model) => m₁.InvExcept inj [] goneOut P ∧
    Redirected m₁.graph.inputs child pre ∧ m₁.graph.inputs.ports child = m.graph.inputs.ports child ∧
    m₁.graph.outputs = m.graph.outputs ∧ m.graph.SameStages m₁.graph) h ⟨hm, hfree, rfl, rfl, .refl _⟩ ?_
  rintro pre e post m₁ m₂ hl ⟨hinv, hred, hports, hout, hsame⟩ h₁
  have hnd := hm.wf.inputs.nodup child
  rw [hl, List.nodup_append'] at hnd
  have hpre : e ∉ pre := fun hpre => hnd.2.2 hpre List.mem_cons_self
  obtain ⟨r, hr, hrs⟩ := hinv.wf.inputs.edge_of_mem (s := child) (e := e) (by rw [hports, hl]; simp)
  have hp : r.parentEdge = none := (hred e r hr hrs).mpr hpre
  have hc : r.childEdge = none := hinv.wf.inputs.childEdge_none hr (hrs ▸ hchild)
  have hinv' := redirectInput_inv hinv h₁ hr hp hc (hrs ▸ hinj) (by rw [hsame.parentStage]; exact hP)
  obtain ⟨r', o, o', hr', -, -, -, rfl⟩ := redirectInput_ok h₁
  rw [hr] at hr'
  cases hr'
  refine ⟨hinv', redirected_step hinv.wf.inputs hne hr hred, ?_, hout,
    hsame.trans ⟨rfl, rfl, rfl, rfl⟩⟩
  show (m₁.graph.inputs.add parent r.data).ports child = _
  rw [Ports.ports_add, if_neg (Ne.symm hne), hports]

theorem redirectOutputs_inv (hm : m.InvExcept inj goneIn [] P) (hne : parent ≠ child)
    (hinj : inj child = some parent) (hchild : ∀ c, inj c ≠ some child)
    (hfree : Redirected m.graph.outputs child []) (hP : ∀ c, P c → m.graph.parentStage c ≠ none)
    (h : (m.graph.outputs.ports child).foldlM (redirectOutput parent) m = .ok m') :
    m'.InvExcept inj goneIn [] P ∧ Redirected m'.graph.outputs child (m.graph.outputs.ports child) ∧
      m'.graph.outputs.ports child = m.graph.outputs.ports child ∧ m'.graph.inputs = m.graph.inputs ∧
      m.graph.SameStages m'.graph := by
  refine foldlM_ok_induct (I := fun pre (m₁ : Model) => m₁.InvExcept inj goneIn [] P ∧
    Redirected m₁.graph.outputs child pre ∧ m₁.graph.outputs.ports child = m.graph.outputs.ports child ∧
    m₁.graph.inputs = m.graph.inputs ∧ m.graph.SameStages m₁.graph) h ⟨hm, hfree, rfl, rfl, .refl _⟩ ?_
  rintro pre e post m₁ m₂ hl ⟨hinv, hred, hports, hin, hsame⟩ h₁
  have hnd := hm.wf.outputs.nodup child
  rw [hl, List.nodup_append'] at hnd
  have hpre : e ∉ pre := fun hpre => hnd.2.2 hpre List.mem_cons_self
  obtain ⟨r, hr, hrs⟩ := hinv.wf.outputs.edge_of_mem (s := child) (e := e) (by rw [hports, hl]; simp)
  have hp : r.parentEdge = none := (hred e r hr hrs).mpr hpre
  have hc : r.childEdge = none := hinv.wf.outputs.childEdge_none hr (hrs ▸ hchild)
  have hinv' := redirectOutput_inv hinv h₁ hr hp hc (hrs ▸ hinj) (by rw [hsame.parentStage]; exact hP)
  obtain ⟨r', o, o', hr', -, -, -, rfl⟩ := redirectOutput_ok h₁
  rw [hr] at hr'
  cases hr'
  refine ⟨hinv', redirected_step hinv.wf.outputs hne hr hred, ?_, hin,
    hsame.trans ⟨rfl, rfl, rfl, rfl⟩⟩
  show (m₁.graph.outputs.add parent r.data).ports child = _
  rw [Ports.ports_add, if_neg (Ne.symm hne), hports]

theorem redirectTempBuffers_inv {l : List EdgeId} (hm : m.InvExcept inj goneIn goneOut P)
    (h : l.foldlM (redirectTempBuffer parent) m = .ok m') :
    m'.InvExcept inj goneIn goneOut P ∧ m'.graph.inputs = m.graph.inputs ∧ m'.graph.outputs = m.graph.outputs ∧
      m.graph.SameStages m'.graph ∧ m'.order = m.order := by
  refine foldlM_ok_induct (I := fun _ (m₁ : Model) => m₁.InvExcept inj goneIn goneOut P ∧
    m₁.graph.inputs = m.graph.inputs ∧ m₁.graph.outputs = m.graph.outputs ∧ m.graph.SameStages m₁.graph ∧
    m₁.order = m.order) h ⟨hm, rfl, rfl, .refl _, rfl⟩ ?_
  rintro - e - m₁ m₂ - ⟨hinv, hin, hout, hsame, horder⟩ h₁
  obtain ⟨r, rfl⟩ := redirectTempBuffer_ok h₁
  exact ⟨⟨{ hinv.wf with }, hinv.counts, hinv.idle⟩, hin, hout, hsame.trans ⟨rfl, rfl, rfl, rfl⟩, horder⟩

/-! ### `injectStage` -/

theorem injectStage_ok (h : m.injectStage parent child = .ok m') : ∃ nc m₁ m₂ m₃,
    parent ≠ child ∧ (m.graph.stage parent).isSome ∧ m.graph.stage child = some nc ∧
    nc.injectedStageEdges = [] ∧ m.graph.parentStage parent = none ∧ m.graph.parentStage child = none ∧
    (m.graph.inputs.ports child).foldlM (redirectInput parent) ⟨m.graph.addStageEdge parent child, m.order.reset⟩ =
      .ok m₁ ∧
    (m₁.graph.outputs.ports child).foldlM (redirectOutput parent) m₁ = .ok m₂ ∧
    (m₂.graph.tempBuffers.ports child).foldlM (redirectTempBuffer parent) m₂ = .ok m₃ ∧
    child ∈ m₃.graph.stagePtrList ∧
    m' = ⟨{ m₃.graph with stagePtrList := m₃.graph.stagePtrList.erase child },
      (m₃.order.eraseInitial child).updateInitial parent⟩ := by
  simp only [injectStage, bind_ok_iff, Graph.getStage_ok_iff, ieAssert_ok_iff, Graph.checkNotInjected_ok_iff,
    pure_ok_iff] at h
  obtain ⟨np, hnp, -, hHW, nc, hnc, -, hSW, -, hp, -, hc, -, hinjected, m₁, h₁, m₂, h₂, m₃, h₃, -, hlist, rfl⟩ := h
  refine ⟨nc, m₁, m₂, m₃, ?_, hp.1, hnc, hinjected, hp.2, hc.2, h₁, h₂, h₃, hlist, rfl⟩
  -- the categories differ
  rintro rfl
  rw [hnp] at hnc
  cases hnc
  rw [hHW] at hSW
  rcases hSW with hSW | hSW <;> cases hSW

/-- The graph before the first edge is moved. -/
theorem addStageEdge_inv (hm : m.Inv) (hne : parent ≠ child) (hc : (m.graph.stage child).isSome)
    (hchild : m.graph.parentStage child = none) :
    InvExcept ⟨m.graph.addStageEdge parent child, m.order.reset⟩ (m.graph.addStageEdge parent child).parentStage
      [] [] (fun c => c ≠ child ∧ (m.graph.addStageEdge parent child).parentStage c ≠ none) := by
  have hinj : ∀ t u, m.graph.parentStage t = some u →
      (m.graph.addStageEdge parent child).parentStage t = some u := by
    intro t u htu
    have htc : t ≠ child := by
      rintro rfl
      rw [hchild] at htu
      cases htu
    rw [Graph.parentStage_addStageEdge hm.injections hne hc, if_neg htc, htu]
  have hstage : ∀ t, (((m.graph.addStageEdge parent child).stage t).isSome ↔ (m.graph.stage t).isSome) := by
    intro t
    rw [Graph.stage_addStageEdge hne]
    split_ifs <;> simp
  refine ⟨{ hm.wf with inputs := ?_, outputs := ?_, inStage := ?_, outStage := ?_, stage_lt := ?_ },
    hm.counts.reset, ?_⟩
  · exact hm.wf.inputs.inject hinj
  · exact hm.wf.outputs.inject hinj
  · exact fun e r hr => (hstage _).mpr (hm.wf.inStage e r hr)
  · exact fun e r hr => (hstage _).mpr (hm.wf.outStage e r hr)
  · exact fun t ht => hm.wf.stage_lt t ((hstage t).mp ht)
  · rintro c ⟨hcc, hc'⟩ p
    rw [Graph.parentStage_addStageEdge hm.injections hne hc, if_neg hcc] at hc'
    exact hm.idle c hc' p

/-- What an injected stage reads and writes, it reads and writes by edges of the parent. -/
theorem injectStage_spec (hm : m.Inv) (h : m.injectStage parent child = .ok m') :
    (m'.Inv ∧ m'.graph.stagePtrList = m.graph.stagePtrList.erase child ∧
      (∀ t, (m'.graph.stage t).isSome ↔ (m.graph.stage t).isSome) ∧
      ∀ t, m'.graph.parentStage t = if t = child then some parent else m.graph.parentStage t) ∧
    ∀ c, m'.graph.dataflow.edges child c = 0 := by
  obtain ⟨nc, m₁, m₂, m₃, hne, hp, hnc, hinjected, htop, hchild, h₁, h₂, h₃, -, rfl⟩ := injectStage_ok h
  have hc : (m.graph.stage child).isSome := by rw [hnc]; rfl
  have hinj : ∀ t, (m.graph.addStageEdge parent child).parentStage t =
      if t = child then some parent else m.graph.parentStage t :=
    Graph.parentStage_addStageEdge hm.injections hne hc
  have hnone : ∀ c, (m.graph.addStageEdge parent child).parentStage c ≠ some child := by
    intro c hcc
    rw [hinj] at hcc
    split_ifs at hcc
    · exact hne (Option.some_inj.mp hcc)
    · exact hm.injections.parentStage_ne hnc hinjected c hcc
  have hchildEdge : (m.graph.addStageEdge parent child).parentStage child = some parent := by
    rw [hinj, if_pos rfl]
  have hinv₀ := addStageEdge_inv hm hne hc hchild
  obtain ⟨hinv₁, hred, hports, hout₁, hsame₁⟩ := redirectInputs_inv hinv₀ hne hchildEdge hnone (by
    intro e r hr hrs
    simpa using hm.wf.inputs.parentEdge_none hr (hrs ▸ hchild)) (fun c hc => hc.2) h₁
  obtain ⟨hinv₂, hredOut, hportsOut, hin₂, hsame₂⟩ := redirectOutputs_inv hinv₁ hne hchildEdge hnone (by
    intro e r hr hrs
    rw [hout₁] at hr
    simpa using hm.wf.outputs.parentEdge_none hr (hrs ▸ hchild)) (by
    intro c hc
    rw [hsame₁.parentStage]
    exact hc.2) h₂
  obtain ⟨hinv₃, hin₃, hout₃, hsame₃, -⟩ := redirectTempBuffers_inv hinv₂ h₃
  have hsame : (m.graph.addStageEdge parent child).SameStages m₃.graph := hsame₁.trans (hsame₂.trans hsame₃)
  -- every edge of the child is redirected, so nothing counts for it
  have hidle : ∀ p, m₃.graph.dataflow.edges p child = 0 := by
    refine fun p => Dataflow.edges_eq_zero_of_consumer fun d hd => ?_
    obtain ⟨e, he, hce⟩ := List.mem_filterMap.mp hd
    obtain ⟨r, hr, hrs⟩ := Option.map_eq_some_iff.mp hce
    obtain ⟨r', hr', -, hp'⟩ := hinv₃.wf.edge_of_consumer he
    rw [hr] at hr'
    cases hr'
    have hmem := hinv₃.wf.inputs.mem_of_edge hr
    rw [hin₃, hin₂, hrs] at hmem
    rw [hin₃, hin₂] at hr
    rw [hports] at hmem
    exact (hred e r hr hrs).mp hp' hmem
  have hsilent : ∀ c, m₃.graph.dataflow.edges child c = 0 := by
    refine fun c => Dataflow.edges_eq_zero_of_producer fun d hd => ?_
    obtain ⟨r, hr, hrs⟩ := Option.map_eq_some_iff.mp hd
    obtain ⟨o, ho, hor⟩ := Option.bind_eq_some_iff.mp hr
    obtain ⟨r', hr', -, hp', -⟩ := hinv₃.wf.producer?_eq ho
    rw [hor] at hr'
    cases hr'
    have hmem := hinv₃.wf.outputs.mem_of_edge hor
    rw [hout₃, hrs, hportsOut] at hmem
    rw [hout₃] at hor
    exact (hredOut o r hor hrs).mp hp' hmem
  have hpar : ∀ c, m₃.graph.parentStage c = (m.graph.addStageEdge parent child).parentStage c := fun c => by
    rw [hsame.parentStage]
  refine ⟨⟨⟨⟨?_, hinv₃.counts.order rfl rfl, ?_⟩, ?_⟩, ?_, fun t => ?_, fun t => (hpar t).trans (hinj t)⟩, hsilent⟩
  · show Graph.WellFormedExcept { m₃.graph with stagePtrList := m₃.graph.stagePtrList.erase child } m₃.graph.parentStage [] []
    rw [hsame.parentStage]
    exact { hinv₃.wf with }
  · intro c hc p
    by_cases hcc : c = child
    · subst hcc
      rw [← hidle p]
      exact (hinv₃.counts p c).2
    · exact hinv₃.idle c ⟨hcc, by rw [← hpar c]; exact hc⟩ p
  · have hinjs := (Graph.injections_addStageEdge hm.injections hne hp hc htop
      (hm.injections.parentStage_ne hnc hinjected)).of_same hsame
    exact ⟨hinjs.child, hinjs.fresh, hinjs.freshParent, hinjs.top⟩
  · exact congrArg (List.erase · child) hsame.stagePtrList
  · show (m₃.graph.stage t).isSome ↔ _
    rw [hsame.stage, Graph.stage_addStageEdge hne]
    split_ifs <;> simp

/-- The stages before and after: `child` has left the list and is a part of `parent`. -/
theorem injectStage_inv (hm : m.Inv) (h : m.injectStage parent child = .ok m') :
    m'.Inv ∧ m'.graph.stagePtrList = m.graph.stagePtrList.erase child ∧
      (∀ t, (m'.graph.stage t).isSome ↔ (m.graph.stage t).isSome) ∧
      ∀ t, m'.graph.parentStage t = if t = child then some parent else m.graph.parentStage t :=
  (injectStage_spec hm h).1

end Model

end OpenVino.Vpu
