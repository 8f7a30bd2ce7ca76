import OpenVino.Vpu.Model.EditInv

/-!
# What the operations do to the edges

`Model.Inv` says that an operation leaves the model in order. The lemmas here say what it leaves: which edges
there are after it, of which stage and with which data. `replaceStageInputs_effect` is about a loop that
moves readers to another data, `removeStage_effect` about a stage that leaves.
-/

namespace OpenVino.Vpu

namespace Model

variable {m m' : Model} {s : StageId} {d : DataId} {e : EdgeId}

theorem Inv.producer_eq_some_iff (hm : m.Inv) : m.graph.producer d = some s ↔
    ∃ o q, m.graph.outputs.edge o = some q ∧ q.parentEdge = none ∧ q.data = d ∧ q.stage = s := by
  constructor
  · intro h
    obtain ⟨q, hq, rfl⟩ := Option.map_eq_some_iff.mp h
    obtain ⟨o, ho, hoq⟩ := Option.bind_eq_some_iff.mp hq
    obtain ⟨q', hq', hd, hp⟩ := (hm.wf.producers d o).mp ho
    rw [show m.graph.outputs.edge o = some q from hoq] at hq'
    cases hq'
    exact ⟨o, q, hoq, hp, hd, rfl⟩
  · rintro ⟨o, q, ho, hp, rfl, rfl⟩
    exact Graph.producer_eq (hm.wf.producer_of_edge ho hp).2

/-! ### Moving the readers of a data -/

/-- The edges of `l` read `d` now, and nothing else is changed. -/
structure ReadersMoved (m m' : Model) (l : List EdgeId) (d : DataId) : Prop where
  inv : m'.Inv
  same : m.graph.SameStages m'.graph
  data : m'.graph.data = m.graph.data
  outputs : m'.graph.outputs = m.graph.outputs
  ports : m'.graph.inputs.ports = m.graph.inputs.ports
  edge : ∀ x, m'.graph.inputs.edge x =
    if x ∈ l then (m.graph.inputs.edge x).map fun r => { r with data := d } else m.graph.inputs.edge x
  /-- an edge that is moved takes no part in an injection -/
  free : ∀ x ∈ l, ∀ r, m.graph.inputs.edge x = some r → r.parentEdge = none ∧ r.childEdge = none

theorem replaceStageInputs_effect {l : List EdgeId} (hm : m.Inv)
    (h : l.foldlM (fun m e => m.replaceStageInput e d) m = .ok m') : ReadersMoved m m' l d := by
  refine foldlM_ok_induct (I := fun pre m₁ => ReadersMoved m m₁ pre d) h
    ⟨hm, .refl _, rfl, rfl, rfl, fun x => rfl, fun x hx => absurd hx List.not_mem_nil⟩ ?_
  rintro pre e post m₁ m₂ - h₁ h₂
  have hinv := replaceStageInput_inv h₁.inv.toInvExcept h₂ fun _ hc => hc
  obtain ⟨r, o₁, o₂, hr, -, hp, hc, -, -, hm₂⟩ := replaceStageInput_ok h₂
  replace hp := h₁.inv.wf.inputs.parentEdge_of_deref hr hp
  replace hc := h₁.inv.wf.inputs.childEdge_of_deref hr hc
  have hsame : m₁.graph.SameStages m₂.graph := by
    rw [hm₂]
    exact ⟨rfl, rfl, rfl, rfl⟩
  have hedge : ∀ x, m₂.graph.inputs.edge x =
      if x = e then (m₁.graph.inputs.edge x).map fun r => { r with data := d } else m₁.graph.inputs.edge x := by
    intro x
    rw [hm₂]
    exact Ports.edge_modify ..
  refine ⟨h₁.inv.of_same hinv hsame, h₁.same.trans hsame, ?_, ?_, ?_, fun x => ?_, fun x hx rx hrx => ?_⟩
  · rw [hm₂]
    exact h₁.data
  · rw [hm₂]
    exact h₁.outputs
  · rw [hm₂]
    exact h₁.ports
  · rw [hedge, h₁.edge]
    by_cases hxe : x = e <;> by_cases hpre : x ∈ pre <;> simp [hxe, hpre]
    all_goals cases m.graph.inputs.edge e <;> simp_all
  · rcases List.mem_append.mp hx with hpre | hpost
    · exact h₁.free x hpre rx hrx
    · obtain rfl := List.mem_singleton.mp hpost
      by_cases hpre : x ∈ pre
      · exact h₁.free x hpre rx hrx
      · rw [h₁.edge, if_neg hpre, hrx] at hr
        cases hr
        exact ⟨hp, hc⟩

/-- When all readers of a data were moved, every edge with that data is one of them. -/
theorem ReadersMoved.mem_of_data {x : DataId} (hm : m.Inv) (h : ReadersMoved m m' (m.graph.consumerEdges x) d)
    {r : PortEdge} (hr : m.graph.inputs.edge e = some r) (hx : r.data = x) : e ∈ m.graph.consumerEdges x := by
  subst hx
  cases hp : r.parentEdge with
  | none => exact (hm.wf.consumers _ _).mpr ⟨r, hr, rfl, hp⟩
  | some q =>
    -- the parent edge reads the same data, and it is not free
    obtain ⟨rq, hq, hc, hpq, hdata, -⟩ := hm.wf.inputs.parent e r q hr hp
    have hmem : q ∈ m.graph.consumerEdges r.data := (hm.wf.consumers _ _).mpr ⟨rq, hq, hdata, hpq⟩
    rw [(h.free q hmem rq hq).2] at hc
    cases hc

/-! ### Taking a stage out -/

/-- The edges of `s` are gone, and nothing else is changed. -/
structure TakenOut (m m' : Model) (s : StageId) : Prop where
  inv : m'.Inv
  parentStage : m'.graph.parentStage = m.graph.parentStage
  data : m'.graph.data = m.graph.data
  inputs : ∀ x r, m'.graph.inputs.edge x = some r ↔ m.graph.inputs.edge x = some r ∧ r.stage ≠ s
  outputs : ∀ x r, m'.graph.outputs.edge x = some r ↔ m.graph.outputs.edge x = some r ∧ r.stage ≠ s
  inputPorts : ∀ t, t ≠ s → m'.graph.inputs.ports t = m.graph.inputs.ports t
  outputPorts : ∀ t, t ≠ s → m'.graph.outputs.ports t = m.graph.outputs.ports t

theorem edge_erased {p p' : Ports} {inj : StageId → Option StageId} (hp : p.Inv inj)
    (h : ∀ x, p'.edge x = if x ∈ p.ports s then none else p.edge x) (x : EdgeId) (r : PortEdge) :
    p'.edge x = some r ↔ p.edge x = some r ∧ r.stage ≠ s := by
  rw [h]
  constructor
  · intro hx
    split_ifs at hx with hmem
    exact ⟨hx, fun hs => hmem (hp.mem_iff.mpr ⟨r, hx, hs⟩)⟩
  · rintro ⟨hx, hs⟩
    rw [if_neg, hx]
    intro hmem
    obtain ⟨r', hr', hs'⟩ := hp.edge_of_mem hmem
    rw [hx] at hr'
    cases hr'
    exact hs hs'

theorem disconnectInputs_effect {l : List EdgeId} (h : l.foldlM disconnectInput m = .ok m') :
    (∀ x, m'.graph.inputs.edge x = if x ∈ l then none else m.graph.inputs.edge x) ∧
      m'.graph.inputs.ports = m.graph.inputs.ports ∧ m'.graph.outputs = m.graph.outputs ∧
      m'.graph.data = m.graph.data := by
  refine foldlM_ok_induct (I := fun pre (m₁ : Model) =>
    (∀ x, m₁.graph.inputs.edge x = if x ∈ pre then none else m.graph.inputs.edge x) ∧
      m₁.graph.inputs.ports = m.graph.inputs.ports ∧ m₁.graph.outputs = m.graph.outputs ∧
      m₁.graph.data = m.graph.data) h ⟨fun x => rfl, rfl, rfl, rfl⟩ ?_
  rintro pre e - m₁ m₂ - ⟨hedge, hports, hout, hdata⟩ h₂
  obtain ⟨r, o, -, -, rfl⟩ := disconnectInput_ok h₂
  refine ⟨fun x => ?_, hports, hout, hdata⟩
  refine (Ports.edge_erase x).trans ?_
  rw [hedge]
  by_cases hxe : x = e <;> by_cases hpre : x ∈ pre <;> simp [hxe, hpre]

theorem disconnectOutputs_effect {l : List EdgeId} (h : l.foldlM disconnectOutput m = .ok m') :
    (∀ x, m'.graph.outputs.edge x = if x ∈ l then none else m.graph.outputs.edge x) ∧
      m'.graph.outputs.ports = m.graph.outputs.ports ∧ m'.graph.inputs = m.graph.inputs ∧
      m'.graph.data = m.graph.data := by
  refine foldlM_ok_induct (I := fun pre (m₁ : Model) =>
    (∀ x, m₁.graph.outputs.edge x = if x ∈ pre then none else m.graph.outputs.edge x) ∧
      m₁.graph.outputs.ports = m.graph.outputs.ports ∧ m₁.graph.inputs = m.graph.inputs ∧
      m₁.graph.data = m.graph.data) h ⟨fun x => rfl, rfl, rfl, rfl⟩ ?_
  rintro pre e - m₁ m₂ - ⟨hedge, hports, hin, hdata⟩ h₂
  obtain ⟨r, o, -, -, rfl⟩ := disconnectOutput_ok h₂
  refine ⟨fun x => ?_, hports, hin, hdata⟩
  refine (Ports.edge_erase x).trans ?_
  rw [hedge]
  by_cases hxe : x = e <;> by_cases hpre : x ∈ pre <;> simp [hxe, hpre]

theorem disconnectTempBuffers_effect {l : List EdgeId} (h : l.foldlM disconnectTempBuffer m = .ok m') :
    m'.graph.inputs = m.graph.inputs ∧ m'.graph.outputs = m.graph.outputs ∧ m'.graph.data = m.graph.data := by
  refine foldlM_ok_induct (I := fun _ (m₁ : Model) => m₁.graph.inputs = m.graph.inputs ∧
    m₁.graph.outputs = m.graph.outputs ∧ m₁.graph.data = m.graph.data) h ⟨rfl, rfl, rfl⟩ ?_
  rintro - e - m₁ m₂ - heffect h₂
  obtain ⟨r, rfl⟩ := disconnectTempBuffer_ok h₂
  exact heffect

theorem disconnectStage_effect (hm : m.Inv) (hs : m.graph.Apart s) (h : m.disconnectStage s = .ok m') :
    TakenOut m m' s ∧ m.graph.SameStages m'.graph := by
  obtain ⟨hinv, -, -, hsame⟩ := disconnectStage_inv hm hs h
  unfold disconnectStage at h
  simp only [bind_ok_iff, pure_ok_iff] at h
  obtain ⟨-, -, m₁, h₁, m₂, h₂, m₃, h₃, rfl⟩ := h
  obtain ⟨hedge₁, hports₁, hout₁, hdata₁⟩ := disconnectInputs_effect h₁
  obtain ⟨hedge₂, hports₂, hin₂, hdata₂⟩ := disconnectOutputs_effect h₂
  obtain ⟨hin₃, hout₃, hdata₃⟩ := disconnectTempBuffers_effect h₃
  have hinputs : m₃.graph.inputs = m₁.graph.inputs.setPorts s [] := hin₃.trans hin₂
  have houtputs : m₃.graph.outputs = m₂.graph.outputs.setPorts s [] := hout₃
  refine ⟨⟨hinv, hsame.parentStage, hdata₃.trans (hdata₂.trans hdata₁), ?_, ?_, fun t ht => ?_, fun t ht => ?_⟩, hsame⟩
  · refine edge_erased hm.wf.inputs fun x => ?_
    show m₃.graph.inputs.edge x = _
    rw [hinputs]
    exact hedge₁ x
  · refine edge_erased hm.wf.outputs fun x => ?_
    show m₃.graph.outputs.edge x = _
    rw [houtputs]
    refine (hedge₂ x).trans ?_
    show (if x ∈ m₁.graph.outputs.ports s then none else m₁.graph.outputs.edge x) = _
    rw [hout₁]
  · show m₃.graph.inputs.ports t = _
    rw [hinputs]
    refine (Function.update_of_ne ht _ _).trans ?_
    rw [hports₁]
  · show m₃.graph.outputs.ports t = _
    rw [houtputs]
    refine (Function.update_of_ne ht _ _).trans ?_
    rw [hports₂]
    show m₁.graph.outputs.ports t = _
    rw [hout₁]

theorem removeStage_effect (hm : m.Inv) (hs : m.graph.Apart s) (h : m.removeStage s = .ok m') :
    TakenOut m m' s ∧ m'.graph.stage = Function.update m.graph.stage s none := by
  have hinv := removeStage_inv hm hs h
  obtain ⟨m₁, h₁, -, rfl⟩ := removeStage_ok h
  obtain ⟨hout, hsame⟩ := disconnectStage_effect hm hs h₁
  have hparent : (m₁.graph.eraseStage s).parentStage = m.graph.parentStage :=
    (parentStage_eraseStage (by rw [hsame.parentStage]; exact hs.1)).trans hsame.parentStage
  refine ⟨{ hout with inv := hinv, parentStage := hparent }, ?_⟩
  show Function.update m₁.graph.stage s none = _
  rw [hsame.stage]

end Model

end OpenVino.Vpu
