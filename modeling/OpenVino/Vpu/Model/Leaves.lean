import Mathlib.Algebra.Order.BigOperators.Group.Finset
import OpenVino.Base.Relations
import OpenVino.Vpu.Model.BuildStageOrder
import OpenVino.Vpu.Model.Effects

/-!
# Injections and the graph of the stages

`injectStage` gives the parent an edge for each edge of the child, and `revertInjection` takes these away
again. The edges that are not made in this way are the leaves, and the two operations leave them as they are
(`injectStage_leaves`, `revertInjection_leaves`). Who feeds whom can be read off the leaves and the
injections (`StageInv.feeds_iff`): an injection makes parent and child one vertex (`injectStage_feeds`), and
its reversion gives back the graph there was before (`revert_feeds`).
-/

namespace OpenVino.Vpu

namespace Ports

variable {p : Ports} {inj : StageId → Option StageId} {s t : StageId} {d : DataId} {e q : EdgeId}
  {r rq : PortEdge}

/-- The stage `s` has an edge with the data `d` that no other edge is tied to. -/
def Leaf (p : Ports) (s : StageId) (d : DataId) : Prop :=
  ∃ e r, p.edge e = some r ∧ r.childEdge = none ∧ r.stage = s ∧ r.data = d

/-- The stage `s` has an edge in use for `d`. -/
def Uses (p : Ports) (s : StageId) (d : DataId) : Prop :=
  ∃ e r, p.edge e = some r ∧ r.parentEdge = none ∧ r.stage = s ∧ r.data = d

theorem Uses.leaf (hp : p.Inv inj) (h : p.Uses s d) : ∃ t, p.Leaf t d ∧ (t = s ∨ inj t = some s) := by
  obtain ⟨e, r, he, hpar, rfl, rfl⟩ := h
  cases hc : r.childEdge with
  | none => exact ⟨r.stage, ⟨e, r, he, hc, rfl, rfl⟩, .inl rfl⟩
  | some x =>
    obtain ⟨rx, hx, hxp, -, hdata, hinj⟩ := hp.tied he hc
    refine ⟨rx.stage, ⟨x, rx, hx, ?_, rfl, hdata.symm⟩, .inr hinj⟩
    -- the child of an edge that is redirected would be tied to it
    cases hxc : rx.childEdge with
    | none => rfl
    | some y =>
      obtain ⟨-, -, -, hnone, -⟩ := hp.tied hx hxc
      rw [hnone] at hxp
      cases hxp

theorem Leaf.uses (hp : p.Inv inj) (h : p.Leaf t d) : ∃ s, p.Uses s d ∧ (t = s ∨ inj t = some s) := by
  obtain ⟨e, r, he, -, rfl, rfl⟩ := h
  cases hpar : r.parentEdge with
  | none => exact ⟨r.stage, ⟨e, r, he, hpar, rfl, rfl⟩, .inl rfl⟩
  | some q =>
    obtain ⟨rq, hq, -, hnone, hdata, hinj⟩ := hp.parent e r q he hpar
    exact ⟨rq.stage, ⟨q, rq, hq, hnone, rfl, hdata⟩, .inr hinj⟩

/-! ### The changes of an injection -/

theorem leaf_redirect (he : p.edge e = some r) (hfresh : ∀ x rx, p.edge x = some rx → x < p.nextEdge) :
    ((p.add s r.data).tie e p.nextEdge).Leaf = p.Leaf := by
  have hedge := edge_redirect (s := s) he (Nat.ne_of_lt (hfresh e r he))
  funext t d
  refine propext ⟨?_, ?_⟩
  · rintro ⟨x, rx, hx, hc, hs, hd⟩
    rw [hedge] at hx
    split_ifs at hx with hnew hxe
    · cases hx
      cases hc
    · cases hx
      exact ⟨e, r, he, hc, hs, hd⟩
    · exact ⟨x, rx, hx, hc, hs, hd⟩
  · rintro ⟨x, rx, hx, hc, hs, hd⟩
    have hnew := Nat.ne_of_lt (hfresh x rx hx)
    by_cases hxe : x = e
    · subst hxe
      rw [he] at hx
      cases hx
      exact ⟨x, { r with parentEdge := some p.nextEdge }, by rw [hedge, if_neg hnew, if_pos rfl], hc, hs, hd⟩
    · exact ⟨x, rx, by rw [hedge, if_neg hnew, if_neg hxe, hx], hc, hs, hd⟩

theorem leaf_release (hq : p.edge q = some rq) (hc : rq.childEdge = some e) (he : p.edge e = some r) :
    (p.release q e).Leaf = p.Leaf := by
  have hedge := edge_release (q := q) he
  funext t d
  refine propext ⟨?_, ?_⟩
  · rintro ⟨x, rx, hx, hxc, hs, hd⟩
    rw [hedge] at hx
    split_ifs at hx with hxq hxe
    · cases hx
      exact ⟨e, r, he, hxc, hs, hd⟩
    · exact ⟨x, rx, hx, hxc, hs, hd⟩
  · rintro ⟨x, rx, hx, hxc, hs, hd⟩
    have hxq : x ≠ q := by
      rintro rfl
      rw [hq] at hx
      cases hx
      rw [hc] at hxc
      cases hxc
    by_cases hxe : x = e
    · subst hxe
      rw [he] at hx
      cases hx
      exact ⟨x, { r with parentEdge := none }, by rw [hedge, if_neg hxq, if_pos rfl], hxc, hs, hd⟩
    · exact ⟨x, rx, by rw [hedge, if_neg hxq, if_neg hxe, hx], hxc, hs, hd⟩

theorem leaf_modify {f : PortEdge → PortEdge}
    (hf : ∀ r, (f r).childEdge = r.childEdge ∧ (f r).stage = r.stage ∧ (f r).data = r.data) :
    (p.modify e f).Leaf = p.Leaf := by
  funext t d
  refine propext ⟨?_, ?_⟩
  · rintro ⟨x, rx, hx, hc, hs, hd⟩
    rw [edge_modify] at hx
    split_ifs at hx
    · obtain ⟨r, hr, rfl⟩ := Option.map_eq_some_iff.mp hx
      obtain ⟨hfc, hfs, hfd⟩ := hf r
      exact ⟨x, r, hr, hfc.symm.trans hc, hfs.symm.trans hs, hfd.symm.trans hd⟩
    · exact ⟨x, rx, hx, hc, hs, hd⟩
  · rintro ⟨x, rx, hx, hc, hs, hd⟩
    obtain ⟨hfc, hfs, hfd⟩ := hf rx
    by_cases hxe : x = e
    · exact ⟨x, f rx, by rw [edge_modify, if_pos hxe, hx, Option.map_some], hfc.trans hc, hfs.trans hs, hfd.trans hd⟩
    · exact ⟨x, rx, by rw [edge_modify, if_neg hxe, hx], hc, hs, hd⟩

theorem leaf_close (l : List EdgeId) : (p.close s l).Leaf = p.Leaf := by
  have hrenumber : ∀ (l : List EdgeId) (p : Ports) (i : Nat), (p.renumber l i).Leaf = p.Leaf := by
    intro l
    induction l with
    | nil => exact fun p i => rfl
    | cons x l ih => exact fun p i => (ih _ (i + 1)).trans (leaf_modify fun r => ⟨rfl, rfl, rfl⟩)
  exact hrenumber l (p.setPorts s l) 0

end Ports

/-! ### The graph of the stages and the leaves -/

/-- Some leaf of `t` has a data of some leaf of `s`, which writes it. -/
def Graph.LeafFlow (g : Graph) (s t : StageId) : Prop := ∃ d, g.outputs.Leaf s d ∧ g.inputs.Leaf t d

/-- The stage that executes `s`. -/
def Graph.top (g : Graph) (s : StageId) : StageId := (g.parentStage s).getD s

section Feeds

variable {m m' : Model} {p c : StageId} {d : DataId}

theorem Model.Inv.producer_iff_uses (hm : m.Inv) : m.graph.producer d = some p ↔ m.graph.outputs.Uses p d := by
  rw [hm.producer_eq_some_iff]
  constructor
  · rintro ⟨o, q, hq, hp, hd, hs⟩
    exact ⟨o, q, hq, hp, hs, hd⟩
  · rintro ⟨o, q, hq, hp, hs, hd⟩
    exact ⟨o, q, hq, hp, hd, hs⟩

theorem Model.Inv.mem_consumers_iff_uses (hm : m.Inv) : c ∈ m.graph.dataflow.consumers d ↔ m.graph.inputs.Uses c d := by
  constructor
  · intro h
    obtain ⟨e, he, hce⟩ := List.mem_filterMap.mp h
    obtain ⟨r, hr, hd, hp⟩ := hm.wf.edge_of_consumer he
    rw [Graph.consumer_eq hr] at hce
    exact ⟨e, r, hr, hp, Option.some_inj.mp hce, hd⟩
  · rintro ⟨e, r, hr, hp, rfl, rfl⟩
    exact List.mem_filterMap.mpr ⟨e, hm.wf.consumer_of_edge hr hp, Graph.consumer_eq hr⟩

theorem Model.Inv.edges_pos_iff (hm : m.Inv) : 0 < m.graph.dataflow.edges p c ↔
    ∃ d, m.graph.outputs.Uses p d ∧ m.graph.inputs.Uses c d := by
  have hat : ∀ d, 0 < m.graph.dataflow.edgesAt p c d ↔ m.graph.outputs.Uses p d ∧ m.graph.inputs.Uses c d := by
    intro d
    rw [← hm.producer_iff_uses, ← hm.mem_consumers_iff_uses, Dataflow.edgesAt]
    show 0 < (if m.graph.producer d = some p then _ else 0) ↔ _
    by_cases hp : m.graph.producer d = some p
    · simp [hp, List.count_pos_iff]
    · simp [hp]
  have hnonneg : ∀ d, 0 ≤ m.graph.dataflow.edgesAt p c d := by
    intro d
    unfold Dataflow.edgesAt
    split_ifs
    · exact Int.natCast_nonneg _
    · exact le_rfl
  constructor
  · intro h
    obtain ⟨d, -, hd⟩ := Finset.exists_ne_zero_of_sum_ne_zero (ne_of_gt h)
    exact ⟨d, (hat d).mp (lt_of_le_of_ne (hnonneg d) (Ne.symm hd))⟩
  · rintro ⟨d, hout, hin⟩
    have hmem : d ∈ Finset.range m.graph.nextData := by
      obtain ⟨e, r, hr, -, -, rfl⟩ := hin
      exact Finset.mem_range.mpr (hm.wf.inData e r hr)
    exact lt_of_lt_of_le ((hat d).mpr ⟨hout, hin⟩)
      (Finset.single_le_sum (f := m.graph.dataflow.edgesAt p c) (fun x _ => hnonneg x) hmem)

theorem RootInv.feeds_iff_edges (hm : RootInv m) : m.Feeds p c ↔ 0 < m.graph.dataflow.edges p c := by
  have hnext : c ∈ m.nextStageList .insertion (fun a b => decide (a < b)) p ↔ m.Feeds p c := hm.mem_nextStageList
  rw [← hnext, Vpu.mem_nextStageList, (hm.inv.counts p c).1]

/-- Injected stages feed nothing and are fed by nothing. -/
theorem StageInv.not_injected (hm : StageInv m) (h : 0 < m.graph.dataflow.edges p c) :
    m.graph.parentStage p = none ∧ m.graph.parentStage c = none := by
  obtain ⟨hn, hp⟩ := hm.inv.counts p c
  constructor
  · by_contra hinj
    have := hm.silent p hinj c
    omega
  · by_contra hinj
    have := hm.inv.idle c hinj p
    omega

/-- **The graph of the stages**: the leaves, each at the stage that executes it. -/
theorem StageInv.feeds_iff (hm : StageInv m) : m.Feeds p c ↔
    ∃ s t, m.graph.LeafFlow s t ∧ m.graph.top s = p ∧ m.graph.top t = c := by
  rw [hm.feeds_iff_edges]
  constructor
  · intro h
    obtain ⟨hp, hc⟩ := hm.not_injected h
    obtain ⟨d, hout, hin⟩ := hm.inv.edges_pos_iff.mp h
    obtain ⟨s, hs, hsp⟩ := hout.leaf hm.inv.wf.outputs
    obtain ⟨t, ht, htc⟩ := hin.leaf hm.inv.wf.inputs
    refine ⟨s, t, ⟨d, hs, ht⟩, ?_, ?_⟩
    · rcases hsp with rfl | hsp
      · rw [Graph.top, hp, Option.getD_none]
      · rw [Graph.top, hsp, Option.getD_some]
    · rcases htc with rfl | htc
      · rw [Graph.top, hc, Option.getD_none]
      · rw [Graph.top, htc, Option.getD_some]
  · rintro ⟨s, t, ⟨d, hs, ht⟩, rfl, rfl⟩
    obtain ⟨p, hout, hsp⟩ := hs.uses hm.inv.wf.outputs
    obtain ⟨c, hin, htc⟩ := ht.uses hm.inv.wf.inputs
    have h := hm.inv.edges_pos_iff.mpr ⟨d, hout, hin⟩
    obtain ⟨hp, hc⟩ := hm.not_injected h
    have hps : m.graph.top s = p := by
      rcases hsp with rfl | hsp
      · rw [Graph.top, hp, Option.getD_none]
      · rw [Graph.top, hsp, Option.getD_some]
    have hct : m.graph.top t = c := by
      rcases htc with rfl | htc
      · rw [Graph.top, hc, Option.getD_none]
      · rw [Graph.top, htc, Option.getD_some]
    rw [hps, hct]
    exact h

end Feeds

/-! ### What an injection and its reversion leave -/

namespace Model

variable {m m' : Model} {parent child p c : StageId} {i : StageEdgeId}

/-- Every edge is older than the next one, and the leaves are those of `g`. -/
structure SameLeaves (g g' : Graph) : Prop where
  inputs : g'.inputs.Leaf = g.inputs.Leaf
  outputs : g'.outputs.Leaf = g.outputs.Leaf

theorem SameLeaves.flow {g g' : Graph} (h : SameLeaves g g') : g'.LeafFlow = g.LeafFlow := by
  funext s t
  unfold Graph.LeafFlow
  rw [h.inputs, h.outputs]

/-- New edges are younger than the old ones. -/
def Aged (p : Ports) : Prop := ∀ e r, p.edge e = some r → e < p.nextEdge

theorem aged_redirect {q : Ports} {e : EdgeId} {r : PortEdge} (h : Aged q) (he : q.edge e = some r) :
    Aged ((q.add parent r.data).tie e q.nextEdge) := by
  intro x rx hx
  rw [Ports.edge_redirect he (Nat.ne_of_lt (h e r he))] at hx
  show x < q.nextEdge + 1
  split_ifs at hx with hnew hxe
  · exact hnew ▸ Nat.lt_succ_self _
  · subst hxe
    exact Nat.lt_succ_of_lt (h x r he)
  · exact Nat.lt_succ_of_lt (h x rx hx)

theorem redirectInputs_leaves {l : List EdgeId} (hm : Aged m.graph.inputs)
    (h : l.foldlM (redirectInput parent) m = .ok m') :
    m'.graph.inputs.Leaf = m.graph.inputs.Leaf ∧ m'.graph.outputs = m.graph.outputs ∧
      m'.graph.stageEdge = m.graph.stageEdge := by
  refine (foldlM_ok_induct (I := fun _ (m₁ : Model) => Aged m₁.graph.inputs ∧
    m₁.graph.inputs.Leaf = m.graph.inputs.Leaf ∧ m₁.graph.outputs = m.graph.outputs ∧
    m₁.graph.stageEdge = m.graph.stageEdge) h ⟨hm, rfl, rfl, rfl⟩ ?_).2
  rintro - e - m₁ m₂ - ⟨haged, hleaf, hrest⟩ h₂
  obtain ⟨r, o, o', hr, -, -, -, rfl⟩ := redirectInput_ok h₂
  exact ⟨aged_redirect haged hr, (Ports.leaf_redirect hr haged).trans hleaf, hrest⟩

theorem redirectOutputs_leaves {l : List EdgeId} (hm : Aged m.graph.outputs)
    (h : l.foldlM (redirectOutput parent) m = .ok m') :
    m'.graph.outputs.Leaf = m.graph.outputs.Leaf ∧ m'.graph.inputs = m.graph.inputs ∧
      m'.graph.stageEdge = m.graph.stageEdge := by
  refine (foldlM_ok_induct (I := fun _ (m₁ : Model) => Aged m₁.graph.outputs ∧
    m₁.graph.outputs.Leaf = m.graph.outputs.Leaf ∧ m₁.graph.inputs = m.graph.inputs ∧
    m₁.graph.stageEdge = m.graph.stageEdge) h ⟨hm, rfl, rfl, rfl⟩ ?_).2
  rintro - e - m₁ m₂ - ⟨haged, hleaf, hrest⟩ h₂
  obtain ⟨r, o, o', hr, -, -, -, rfl⟩ := redirectOutput_ok h₂
  exact ⟨aged_redirect haged hr, (Ports.leaf_redirect hr haged).trans hleaf, hrest⟩

theorem redirectTempBuffers_ports {l : List EdgeId} (h : l.foldlM (redirectTempBuffer parent) m = .ok m') :
    m'.graph.inputs = m.graph.inputs ∧ m'.graph.outputs = m.graph.outputs ∧
      m'.graph.stageEdge = m.graph.stageEdge := by
  refine foldlM_ok_induct (I := fun _ (m₁ : Model) => m₁.graph.inputs = m.graph.inputs ∧
    m₁.graph.outputs = m.graph.outputs ∧ m₁.graph.stageEdge = m.graph.stageEdge) h ⟨rfl, rfl, rfl⟩ ?_
  rintro - e - m₁ m₂ - hports h₂
  obtain ⟨r, rfl⟩ := redirectTempBuffer_ok h₂
  exact hports

/-- The injection gets the next number. -/
theorem injectStage_leaves (hm : m.Inv) (h : m.injectStage parent child = .ok m') :
    SameLeaves m.graph m'.graph ∧ m'.graph.stageEdge m.graph.nextStageEdge = some ⟨parent, child⟩ := by
  obtain ⟨nc, m₁, m₂, m₃, -, -, -, -, -, -, h₁, h₂, h₃, -, rfl⟩ := injectStage_ok h
  have haged₀ : Aged (m.graph.addStageEdge parent child).inputs := hm.wf.inputs.fresh
  obtain ⟨hleaf₁, hout₁, hedge₁⟩ :=
    redirectInputs_leaves (m := ⟨m.graph.addStageEdge parent child, m.order.reset⟩) haged₀ h₁
  have haged : Aged m₁.graph.outputs := by
    rw [hout₁]
    exact hm.wf.outputs.fresh
  obtain ⟨hleaf₂, hin₂, hedge₂⟩ := redirectOutputs_leaves haged h₂
  obtain ⟨hin₃, hout₃, hedge₃⟩ := redirectTempBuffers_ports h₃
  refine ⟨⟨?_, ?_⟩, ?_⟩
  · show m₃.graph.inputs.Leaf = _
    rw [hin₃, hin₂]
    exact hleaf₁
  · show m₃.graph.outputs.Leaf = _
    rw [hout₃, hleaf₂, hout₁]
    rfl
  · show m₃.graph.stageEdge _ = _
    rw [hedge₃, hedge₂, hedge₁]
    exact Function.update_self ..

theorem revertInputs_leaves (h : m.revertInputs parent child = .ok m') :
    m'.graph.inputs.Leaf = m.graph.inputs.Leaf ∧ m'.graph.outputs = m.graph.outputs := by
  simp only [revertInputs, bind_ok_iff, pure_ok_iff] at h
  obtain ⟨⟨startInd, endInd, m₁⟩, h₁, -, -, rfl⟩ := h
  have hloop := revertEdges_induct (J := fun m₂ => m₂.graph.inputs.Leaf = m.graph.inputs.Leaf ∧
    m₂.graph.outputs = m.graph.outputs) (fun m₂ q rq e r m₃ hJ _ hq hc he _ h₂ => by
      obtain ⟨o, o', -, -, rfl⟩ := revertInput_ok h₂
      exact ⟨(Ports.leaf_release hq hc he).trans hJ.1, hJ.2⟩) ⟨rfl, rfl⟩ h₁
  exact ⟨(Ports.leaf_close _).trans hloop.1, hloop.2⟩

theorem revertOutputs_leaves (h : m.revertOutputs parent child = .ok m') :
    m'.graph.outputs.Leaf = m.graph.outputs.Leaf ∧ m'.graph.inputs = m.graph.inputs := by
  simp only [revertOutputs, bind_ok_iff, pure_ok_iff] at h
  obtain ⟨⟨startInd, endInd, m₁⟩, h₁, -, -, rfl⟩ := h
  have hloop := revertEdges_induct (J := fun m₂ => m₂.graph.outputs.Leaf = m.graph.outputs.Leaf ∧
    m₂.graph.inputs = m.graph.inputs) (fun m₂ q rq e r m₃ hJ _ hq hc he _ h₂ => by
      obtain ⟨o, o', -, -, rfl⟩ := revertOutput_ok h₂
      exact ⟨(Ports.leaf_release hq hc he).trans hJ.1, hJ.2⟩) ⟨rfl, rfl⟩ h₁
  exact ⟨(Ports.leaf_close _).trans hloop.1, hloop.2⟩

theorem revertTempBuffers_ports (h : m.revertTempBuffers parent child = .ok m') :
    m'.graph.inputs = m.graph.inputs ∧ m'.graph.outputs = m.graph.outputs := by
  simp only [revertTempBuffers, bind_ok_iff] at h
  obtain ⟨⟨startInd, endInd, m₁⟩, h₁, h⟩ := h
  have hloop := revertEdges_induct (J := fun m₂ => m₂.graph.inputs = m.graph.inputs ∧
    m₂.graph.outputs = m.graph.outputs) (fun m₂ q rq e r m₃ hJ _ _ _ _ _ h₂ => by
      cases h₂
      exact hJ) ⟨rfl, rfl⟩ h₁
  split at h
  · simp only [ieAssert_bind_ok_iff, pure_ok_iff] at h
    obtain ⟨-, rfl⟩ := h
    exact hloop
  · rw [pure_ok_iff] at h
    rw [← h]
    exact hloop

theorem revertInjection_leaves (h : m.revertInjection i = .ok m') : SameLeaves m.graph m'.graph := by
  obtain ⟨parent, child, nc, m₁, m₂, m₃, -, -, -, h₁, h₂, h₃, rfl⟩ := revertInjection_ok h
  obtain ⟨hleaf₁, hout₁⟩ := revertInputs_leaves h₁
  obtain ⟨hleaf₂, hin₂⟩ := revertOutputs_leaves h₂
  obtain ⟨hin₃, hout₃⟩ := revertTempBuffers_ports h₃
  refine ⟨?_, ?_⟩
  · show m₃.graph.inputs.Leaf = _
    rw [hin₃, hin₂]
    exact hleaf₁
  · show m₃.graph.outputs.Leaf = _
    rw [hout₃, hleaf₂, hout₁]
    rfl

end Model

variable {m m' m'' m₁ : Model} {parent child p c : StageId} {i : StageEdgeId}

/-- An injection makes the child a part of the parent in the graph of the stages. -/
theorem injectStage_feeds (hm : StageInv m) (hm' : StageInv m') (h : m.injectStage parent child = .ok m') :
    m'.Feeds = Contracted m.Feeds parent child := by
  have hleaves := (Model.injectStage_leaves hm.inv h).1.flow
  obtain ⟨-, -, -, hparent⟩ := Model.injectStage_inv hm.inv h
  obtain ⟨nc, -, -, -, hne, -, hnc, hinjected, htop, hchild, -⟩ := Model.injectStage_ok h
  have htops : ∀ s, m'.graph.top s = contract parent child (m.graph.top s) := by
    intro s
    unfold Graph.top contract
    rw [hparent]
    by_cases hs : s = child
    · subst hs
      simp [hchild]
    · rw [if_neg hs]
      cases hps : m.graph.parentStage s with
      | none => simp [hs]
      | some q =>
        have hqc : q ≠ child := by
          rintro rfl
          exact hm.inv.injections.parentStage_ne hnc hinjected s hps
        simp [hqc]
  funext p c
  refine propext ?_
  rw [hm'.feeds_iff, hleaves]
  constructor
  · rintro ⟨s, t, hst, rfl, rfl⟩
    exact ⟨m.graph.top s, m.graph.top t, hm.feeds_iff.mpr ⟨s, t, hst, rfl, rfl⟩, (htops s).symm, (htops t).symm⟩
  · rintro ⟨p₀, c₀, hpc, rfl, rfl⟩
    obtain ⟨s, t, hst, rfl, rfl⟩ := hm.feeds_iff.mp hpc
    exact ⟨s, t, hst, htops s, htops t⟩

/-- An injection that is reverted leaves no trace in the graph of the stages. -/
theorem revert_feeds (hm : StageInv m) (hm₁ : StageInv m₁) (hm'' : StageInv m'')
    (h : m.injectStage parent child = .ok m') (hgraph : m₁.graph = m'.graph)
    (hrevert : m₁.revertInjection m.graph.nextStageEdge = .ok m'') : m''.Feeds = m.Feeds := by
  obtain ⟨hinject, hi⟩ := Model.injectStage_leaves hm.inv h
  have hback := (Model.revertInjection_leaves hrevert).flow
  rw [hgraph, hinject.flow] at hback
  rw [← hgraph] at hi
  obtain ⟨-, -, -, hparent⟩ := Model.injectStage_inv hm.inv h
  obtain ⟨-, -, -, -, hparent'⟩ := Model.revertInjection_inv hm₁.inv hrevert hi
  obtain ⟨-, -, -, -, -, -, -, -, -, hchild, -⟩ := Model.injectStage_ok h
  have htops : m''.graph.top = m.graph.top := by
    funext s
    unfold Graph.top
    rw [hparent', hgraph, hparent]
    by_cases hs : s = child
    · subst hs
      rw [if_pos rfl, hchild]
    · rw [if_neg hs, if_neg hs]
  funext p c
  refine propext ?_
  rw [hm''.feeds_iff, hm.feeds_iff, hback, htops]

end OpenVino.Vpu
