import OpenVino.Base.Dataflow
import OpenVino.Vpu.Model.Edit

/-!
# Well-formed stage graphs

`Graph.WellFormed` ties the edges to what the datas keep of them: `_consumerEdges` of a data lists the
input edges in use for it, and `_producerEdge` is the one output edge in use for it. While a loop takes
edges away, `WellFormedExcept` names the edges that are gone from the lists of the model and still named
by their stage. `Graph.Injections` is the part of the invariant about injected stages.

There is one lemma for each change of the graph (`wf_addInput`, …), and `Graph.dataflow` is what the
graph means: who writes each data and who reads it. The lemmas `flow_…` say what the changes do to it.
-/

namespace OpenVino.Vpu

namespace Graph

/-- The stage that reads by an input edge. -/
def consumer (g : Graph) (e : EdgeId) : Option StageId := (g.inputs.edge e).map PortEdge.stage

/-- Who writes each data and who reads it. -/
def dataflow (g : Graph) : Dataflow StageId where
  size := g.nextData
  producer := g.producer
  consumers d := (g.consumerEdges d).filterMap g.consumer

structure WellFormedExcept (g : Graph) (inj : StageId → Option StageId) (goneIn goneOut : List EdgeId) : Prop where
  inputs : g.inputs.InvExcept inj goneIn
  outputs : g.outputs.InvExcept inj goneOut
  consumers : ∀ d e, e ∈ g.consumerEdges d ↔ g.inputs.Attached e d
  nodup : ∀ d, (g.consumerEdges d).Nodup
  producers : ∀ d e, g.producerEdge d = some e ↔ g.outputs.Attached e d
  inStage : ∀ e r, g.inputs.edge e = some r → (g.stage r.stage).isSome
  outStage : ∀ e r, g.outputs.edge e = some r → (g.stage r.stage).isSome
  inData : ∀ e r, g.inputs.edge e = some r → r.data < g.nextData
  outData : ∀ e r, g.outputs.edge e = some r → r.data < g.nextData
  stage_lt : ∀ s, (g.stage s).isSome → s < g.nextStage
  data_lt : ∀ d, (g.data d).isSome → d < g.nextData

abbrev WellFormed (g : Graph) : Prop := g.WellFormedExcept g.parentStage [] []

variable {g g' : Graph} {inj : StageId → Option StageId} {goneIn goneOut : List EdgeId} {s : StageId}
  {d : DataId} {e q : EdgeId} {r rq : PortEdge}

/-! ### What the datas know -/

theorem WellFormedExcept.producer?_eq (h : g.WellFormedExcept inj goneIn goneOut) {o : EdgeId}
    (ho : g.producerEdge d = some o) : ∃ r, g.outputs.edge o = some r ∧ r.data = d ∧ r.parentEdge = none ∧
      g.producer? d = some r := by
  obtain ⟨r, hr, hd, hp⟩ := (h.producers d o).mp ho
  exact ⟨r, hr, hd, hp, by rw [producer?, Ports.deref, ho, Option.bind_some, hr]⟩

/-- A data that nothing writes has no producer edge. -/
theorem WellFormedExcept.producerEdge_none (h : g.WellFormedExcept inj goneIn goneOut)
    (hd : g.producer? d = none) : g.producerEdge d = none := by
  cases ho : g.producerEdge d with
  | none => rfl
  | some o =>
    obtain ⟨r, -, -, -, hr⟩ := h.producer?_eq ho
    rw [hd] at hr
    cases hr

/-- An output edge in use is the one that the data knows. -/
theorem WellFormedExcept.producer_of_edge (h : g.WellFormedExcept inj goneIn goneOut)
    (he : g.outputs.edge e = some r) (hp : r.parentEdge = none) :
    g.producerEdge r.data = some e ∧ g.producer? r.data = some r := by
  have ho := (h.producers r.data e).mpr ⟨r, he, rfl, hp⟩
  exact ⟨ho, by rw [producer?, Ports.deref, ho, Option.bind_some, he]⟩

/-- An input edge in use is one that the data knows. -/
theorem WellFormedExcept.consumer_of_edge (h : g.WellFormedExcept inj goneIn goneOut)
    (he : g.inputs.edge e = some r) (hp : r.parentEdge = none) : e ∈ g.consumerEdges r.data :=
  (h.consumers r.data e).mpr ⟨r, he, rfl, hp⟩

theorem WellFormedExcept.edge_of_consumer (h : g.WellFormedExcept inj goneIn goneOut)
    (he : e ∈ g.consumerEdges d) : ∃ r, g.inputs.edge e = some r ∧ r.data = d ∧ r.parentEdge = none :=
  (h.consumers d e).mp he

/-- An edge is in the list of one data at most. -/
theorem WellFormedExcept.consumer_unique (h : g.WellFormedExcept inj goneIn goneOut) {d' : DataId}
    (he : g.inputs.edge e = some r) (hd : e ∈ g.consumerEdges d') : d' = r.data := by
  obtain ⟨r', hr', hd', -⟩ := h.edge_of_consumer hd
  rw [he] at hr'
  cases hr'
  exact hd'.symm

/-! ### Input edges -/

section

variable {f : DataId → List EdgeId} {x y : EdgeId} {d' : DataId}

theorem mem_pushAt : x ∈ pushAt f d y d' ↔ (x = y ∧ d' = d) ∨ x ∈ f d' := by
  unfold pushAt
  by_cases hd : d' = d
  · subst hd
    simp [or_comm]
  · simp [hd]

theorem mem_eraseAt (hf : ∀ d, (f d).Nodup) : x ∈ eraseAt f d e d' ↔ x ∈ f d' ∧ (x = e → d' ≠ d) := by
  unfold eraseAt
  by_cases hd : d' = d
  · subst hd
    rw [Function.update_self, (hf d').mem_erase_iff]
    tauto
  · rw [Function.update_of_ne hd]
    tauto

theorem nodup_eraseAt (hf : ∀ d, (f d).Nodup) (d' : DataId) : (eraseAt f d e d').Nodup := by
  unfold eraseAt
  by_cases hd : d' = d
  · subst hd
    rw [Function.update_self]
    exact (hf d').erase e
  · rw [Function.update_of_ne hd]
    exact hf d'

theorem nodup_pushAt (hf : ∀ d, (f d).Nodup) (hy : y ∉ f d) (d' : DataId) : (pushAt f d y d').Nodup := by
  unfold pushAt
  by_cases hd : d' = d
  · subst hd
    rw [Function.update_self, ← List.concat_eq_append]
    exact (hf d').concat hy
  · rw [Function.update_of_ne hd]
    exact hf d'

end

theorem WellFormedExcept.nextEdge_notMem (h : g.WellFormedExcept inj goneIn goneOut) :
    g.inputs.nextEdge ∉ g.consumerEdges d := by
  intro hmem
  obtain ⟨r, hr, -⟩ := h.edge_of_consumer hmem
  rw [h.inputs.edge_nextEdge] at hr
  cases hr

theorem wf_addInput (h : g.WellFormedExcept inj [] goneOut) (hs : (g.stage s).isSome) (hd : (g.data d).isSome) :
    (g.addInput s d).WellFormedExcept inj [] goneOut where
  inputs := Ports.inv_add h.inputs
  outputs := h.outputs
  consumers d' x := by
    show x ∈ pushAt g.consumerEdges d g.inputs.nextEdge d' ↔ (g.inputs.add s d).Attached x d'
    rw [mem_pushAt, h.inputs.attached_add, h.consumers]
  nodup := nodup_pushAt h.nodup h.nextEdge_notMem
  producers := h.producers
  inStage x rx hx := by
    replace hx : (g.inputs.add s d).edge x = some rx := hx
    rw [Ports.edge_add] at hx
    split_ifs at hx
    · cases hx
      exact hs
    · exact h.inStage x rx hx
  outStage := h.outStage
  inData x rx hx := by
    replace hx : (g.inputs.add s d).edge x = some rx := hx
    rw [Ports.edge_add] at hx
    split_ifs at hx
    · cases hx
      exact h.data_lt d hd
    · exact h.inData x rx hx
  outData := h.outData
  stage_lt := h.stage_lt
  data_lt := h.data_lt

/-- The data of an input edge is replaced. -/
theorem wf_replaceInput (h : g.WellFormedExcept inj [] goneOut) (he : g.inputs.edge e = some r)
    (hp : r.parentEdge = none) (hc : r.childEdge = none) (hd : (g.data d).isSome) :
    ({ g.eraseConsumer r.data e with inputs := g.inputs.setData e d }.pushConsumer d e).WellFormedExcept
      inj [] goneOut where
  inputs := Ports.inv_setData h.inputs he hp hc
  outputs := h.outputs
  consumers d' x := by
    show x ∈ pushAt (eraseAt g.consumerEdges r.data e) d e d' ↔ (g.inputs.setData e d).Attached x d'
    rw [mem_pushAt, mem_eraseAt h.nodup, Ports.attached_setData he hp, h.consumers]
    refine or_congr Iff.rfl ?_
    constructor
    · rintro ⟨hx, hne⟩
      refine ⟨?_, hx⟩
      rintro rfl
      exact hne rfl (h.consumer_unique he ((h.consumers d' x).mpr hx))
    · rintro ⟨hne, hx⟩
      exact ⟨hx, fun hxe => absurd hxe hne⟩
  nodup := by
    refine nodup_pushAt (nodup_eraseAt h.nodup) ?_
    show e ∉ eraseAt g.consumerEdges r.data e d
    rw [mem_eraseAt h.nodup]
    rintro ⟨hmem, hne⟩
    exact hne rfl (h.consumer_unique he hmem)
  producers := h.producers
  inStage x rx hx := by
    replace hx : (g.inputs.setData e d).edge x = some rx := hx
    rw [Ports.setData, Ports.edge_modify] at hx
    split_ifs at hx with hxe
    · obtain ⟨r', hr', rfl⟩ := Option.map_eq_some_iff.mp hx
      exact h.inStage x r' hr'
    · exact h.inStage x rx hx
  outStage := h.outStage
  inData x rx hx := by
    replace hx : (g.inputs.setData e d).edge x = some rx := hx
    rw [Ports.setData, Ports.edge_modify] at hx
    split_ifs at hx with hxe
    · obtain ⟨r', hr', rfl⟩ := Option.map_eq_some_iff.mp hx
      exact h.data_lt d hd
    · exact h.inData x rx hx
  outData := h.outData
  stage_lt := h.stage_lt
  data_lt := h.data_lt

/-- An input edge of an injected stage is redirected to a new edge of the parent. -/
theorem wf_redirectInput (h : g.WellFormedExcept inj [] goneOut) (he : g.inputs.edge e = some r)
    (hp : r.parentEdge = none) (hc : r.childEdge = none) (hinj : inj r.stage = some s) (hs : (g.stage s).isSome) :
    { (g.eraseConsumer r.data e).addInput s r.data with
      inputs := (g.inputs.add s r.data).tie e g.inputs.nextEdge }.WellFormedExcept inj [] goneOut where
  inputs := Ports.inv_redirect h.inputs he hp hc hinj
  outputs := h.outputs
  consumers d' x := by
    show x ∈ pushAt (eraseAt g.consumerEdges r.data e) r.data g.inputs.nextEdge d' ↔
      ((g.inputs.add s r.data).tie e g.inputs.nextEdge).Attached x d'
    rw [mem_pushAt, mem_eraseAt h.nodup, h.inputs.attached_redirect he, h.consumers]
    refine or_congr Iff.rfl ?_
    constructor
    · rintro ⟨hx, hne⟩
      refine ⟨?_, hx⟩
      rintro rfl
      exact hne rfl (h.consumer_unique he ((h.consumers d' x).mpr hx))
    · rintro ⟨hne, hx⟩
      exact ⟨hx, fun hxe => absurd hxe hne⟩
  nodup := by
    refine nodup_pushAt (nodup_eraseAt h.nodup) ?_
    show g.inputs.nextEdge ∉ eraseAt g.consumerEdges r.data e r.data
    rw [mem_eraseAt h.nodup]
    rintro ⟨hmem, -⟩
    exact h.nextEdge_notMem hmem
  producers := h.producers
  inStage x rx hx := by
    replace hx : ((g.inputs.add s r.data).tie e g.inputs.nextEdge).edge x = some rx := hx
    rw [Ports.edge_redirect he (Nat.ne_of_lt (h.inputs.fresh e r he))] at hx
    split_ifs at hx with hnew hxe
    · cases hx
      exact hs
    · cases hx
      exact h.inStage e r he
    · exact h.inStage x rx hx
  outStage := h.outStage
  inData x rx hx := by
    replace hx : ((g.inputs.add s r.data).tie e g.inputs.nextEdge).edge x = some rx := hx
    rw [Ports.edge_redirect he (Nat.ne_of_lt (h.inputs.fresh e r he))] at hx
    split_ifs at hx with hnew hxe
    · cases hx
      exact h.inData e r he
    · cases hx
      exact h.inData e r he
    · exact h.inData x rx hx
  outData := h.outData
  stage_lt := h.stage_lt
  data_lt := h.data_lt

/-- An input edge outside an injection goes. -/
theorem wf_dropInput (h : g.WellFormedExcept inj goneIn goneOut) (he : g.inputs.edge e = some r)
    (hp : r.parentEdge = none) (hc : r.childEdge = none) :
    { g.eraseConsumer r.data e with inputs := g.inputs.erase e }.WellFormedExcept inj (e :: goneIn) goneOut where
  inputs := Ports.inv_erase h.inputs he hp hc
  outputs := h.outputs
  consumers d' x := by
    show x ∈ eraseAt g.consumerEdges r.data e d' ↔ (g.inputs.erase e).Attached x d'
    rw [mem_eraseAt h.nodup, Ports.attached_erase, h.consumers]
    constructor
    · rintro ⟨hx, hne⟩
      refine ⟨?_, hx⟩
      rintro rfl
      exact hne rfl (h.consumer_unique he ((h.consumers d' x).mpr hx))
    · rintro ⟨hne, hx⟩
      exact ⟨hx, fun hxe => absurd hxe hne⟩
  nodup := nodup_eraseAt h.nodup
  producers := h.producers
  inStage x rx hx := by
    replace hx : (g.inputs.erase e).edge x = some rx := hx
    rw [Ports.edge_erase] at hx
    split_ifs at hx
    exact h.inStage x rx hx
  outStage := h.outStage
  inData x rx hx := by
    replace hx : (g.inputs.erase e).edge x = some rx := hx
    rw [Ports.edge_erase] at hx
    split_ifs at hx
    exact h.inData x rx hx
  outData := h.outData
  stage_lt := h.stage_lt
  data_lt := h.data_lt

/-- An input edge of the parent goes, and the edge of the injected stage that is tied to it takes its place. -/
theorem wf_releaseInput (h : g.WellFormedExcept inj goneIn goneOut) (hq : g.inputs.edge q = some rq)
    (hc : rq.childEdge = some e) :
    { (g.eraseConsumer rq.data q).pushConsumer rq.data e with
      inputs := g.inputs.release q e }.WellFormedExcept inj (q :: goneIn) goneOut := by
  obtain ⟨r, he, hp, hpq, hdata, -⟩ := h.inputs.tied hq hc
  have hne : e ≠ q := by
    rintro rfl
    rw [he] at hq
    cases hq
    rw [hp] at hpq
    cases hpq
  have hedge : ∀ x rx, (g.inputs.release q e).edge x = some rx →
      ∃ r', g.inputs.edge x = some r' ∧ rx.stage = r'.stage ∧ rx.data = r'.data := by
    intro x rx hx
    rw [Ports.edge_release he] at hx
    split_ifs at hx with hxq hxe
    · cases hx
      exact ⟨r, hxe ▸ he, rfl, rfl⟩
    · exact ⟨rx, hx, rfl, rfl⟩
  exact {
    inputs := Ports.inv_release h.inputs hq hc
    outputs := h.outputs
    consumers d' x := by
      show x ∈ pushAt (eraseAt g.consumerEdges rq.data q) rq.data e d' ↔ (g.inputs.release q e).Attached x d'
      rw [mem_pushAt, mem_eraseAt h.nodup, Ports.attached_release he hp hne, hdata, h.consumers]
      refine or_congr Iff.rfl ?_
      constructor
      · rintro ⟨hx, hxq⟩
        refine ⟨?_, hx⟩
        rintro rfl
        exact hxq rfl ((h.consumer_unique hq ((h.consumers d' x).mpr hx)).trans hdata)
      · rintro ⟨hxq, hx⟩
        exact ⟨hx, fun hxe => absurd hxe hxq⟩
    nodup := by
      refine nodup_pushAt (nodup_eraseAt h.nodup) ?_
      show e ∉ eraseAt g.consumerEdges rq.data q rq.data
      rw [mem_eraseAt h.nodup]
      rintro ⟨hmem, -⟩
      -- a redirected edge is not in the list of its data
      obtain ⟨r', hr', -, hp'⟩ := h.edge_of_consumer hmem
      rw [he] at hr'
      cases hr'
      rw [hp] at hp'
      cases hp'
    producers := h.producers
    inStage x rx hx := by
      obtain ⟨r', hr', hst, -⟩ := hedge x rx hx
      rw [hst]
      exact h.inStage x r' hr'
    outStage := h.outStage
    inData x rx hx := by
      obtain ⟨r', hr', -, hdt⟩ := hedge x rx hx
      rw [hdt]
      exact h.inData x r' hr'
    outData := h.outData
    stage_lt := h.stage_lt
    data_lt := h.data_lt }

theorem wf_closeInput (h : g.WellFormedExcept inj goneIn goneOut) {l : List EdgeId}
    (hgone : ∀ x ∈ goneIn, ∀ t, x ∈ g.inputs.ports t → t = s) (hl : l.Nodup)
    (hmem : ∀ x, x ∈ l ↔ x ∈ g.inputs.ports s ∧ x ∉ goneIn) :
    { g with inputs := g.inputs.close s l }.WellFormedExcept inj [] goneOut where
  inputs := Ports.inv_close h.inputs hgone hl hmem
  outputs := h.outputs
  consumers d' x := by
    rw [Ports.attached_close hl]
    exact h.consumers d' x
  nodup := h.nodup
  producers := h.producers
  inStage x rx hx := by
    obtain ⟨r, i, hr, rfl⟩ := Ports.edge_close_eq_some hl hx
    exact h.inStage x r hr
  outStage := h.outStage
  inData x rx hx := by
    obtain ⟨r, i, hr, rfl⟩ := Ports.edge_close_eq_some hl hx
    exact h.inData x r hr
  outData := h.outData
  stage_lt := h.stage_lt
  data_lt := h.data_lt

/-! ### Output edges -/

/-- One output edge is in use for a data. -/
theorem WellFormedExcept.attached_iff (h : g.WellFormedExcept inj goneIn goneOut)
    (he : g.outputs.edge e = some r) (hp : r.parentEdge = none) {x : EdgeId} :
    g.outputs.Attached x r.data ↔ x = e := by
  rw [← h.producers, (h.producer_of_edge he hp).1, Option.some_inj, eq_comm]

theorem WellFormedExcept.not_attached (h : g.WellFormedExcept inj goneIn goneOut)
    (hd : g.producer? d = none) {x : EdgeId} : ¬ g.outputs.Attached x d := by
  rw [← h.producers, h.producerEdge_none hd]
  simp

theorem wf_addOutput (h : g.WellFormedExcept inj goneIn []) (hs : (g.stage s).isSome) (hd : (g.data d).isSome)
    (hfree : g.producer? d = none) : (g.addOutput s d).WellFormedExcept inj goneIn [] where
  inputs := h.inputs
  outputs := Ports.inv_add h.outputs
  consumers := h.consumers
  nodup := h.nodup
  producers d' x := by
    show Function.update g.producerEdge d (some g.outputs.nextEdge) d' = some x ↔
      (g.outputs.add s d).Attached x d'
    rw [h.outputs.attached_add]
    by_cases hdd : d' = d
    · subst hdd
      simp [h.not_attached hfree, eq_comm]
    · rw [Function.update_of_ne hdd, h.producers]
      simp [hdd]
  inStage := h.inStage
  outStage x rx hx := by
    replace hx : (g.outputs.add s d).edge x = some rx := hx
    rw [Ports.edge_add] at hx
    split_ifs at hx
    · cases hx
      exact hs
    · exact h.outStage x rx hx
  inData := h.inData
  outData x rx hx := by
    replace hx : (g.outputs.add s d).edge x = some rx := hx
    rw [Ports.edge_add] at hx
    split_ifs at hx
    · cases hx
      exact h.data_lt d hd
    · exact h.outData x rx hx
  stage_lt := h.stage_lt
  data_lt := h.data_lt

/-- The data of an output edge is replaced. -/
theorem wf_replaceOutput (h : g.WellFormedExcept inj goneIn []) (he : g.outputs.edge e = some r)
    (hp : r.parentEdge = none) (hc : r.childEdge = none) (hd : (g.data d).isSome)
    (hfree : g.producer? d = none) :
    ({ g.setProducer r.data none with outputs := g.outputs.setData e d }.setProducer d (some e)).WellFormedExcept
      inj goneIn [] where
  inputs := h.inputs
  outputs := Ports.inv_setData h.outputs he hp hc
  consumers := h.consumers
  nodup := h.nodup
  producers d' x := by
    show Function.update (Function.update g.producerEdge r.data none) d (some e) d' = some x ↔
      (g.outputs.setData e d).Attached x d'
    rw [Ports.attached_setData he hp]
    by_cases hdd : d' = d
    · subst hdd
      simp [h.not_attached hfree, eq_comm]
    · rw [Function.update_of_ne hdd]
      by_cases hdr : d' = r.data
      · subst hdr
        rw [Function.update_self, h.attached_iff he hp]
        simp [hdd]
      · rw [Function.update_of_ne hdr, h.producers]
        have hxe : g.outputs.Attached x d' → x ≠ e := by
          rintro ⟨r', hr', hd', -⟩ rfl
          rw [he] at hr'
          cases hr'
          exact hdr hd'.symm
        simp only [hdd, and_false, false_or]
        tauto
  inStage := h.inStage
  outStage x rx hx := by
    replace hx : (g.outputs.setData e d).edge x = some rx := hx
    rw [Ports.setData, Ports.edge_modify] at hx
    split_ifs at hx with hxe
    · obtain ⟨r', hr', rfl⟩ := Option.map_eq_some_iff.mp hx
      exact h.outStage x r' hr'
    · exact h.outStage x rx hx
  inData := h.inData
  outData x rx hx := by
    replace hx : (g.outputs.setData e d).edge x = some rx := hx
    rw [Ports.setData, Ports.edge_modify] at hx
    split_ifs at hx with hxe
    · obtain ⟨r', hr', rfl⟩ := Option.map_eq_some_iff.mp hx
      exact h.data_lt d hd
    · exact h.outData x rx hx
  stage_lt := h.stage_lt
  data_lt := h.data_lt

/-- An output edge of an injected stage is redirected to a new edge of the parent. -/
theorem wf_redirectOutput (h : g.WellFormedExcept inj goneIn []) (he : g.outputs.edge e = some r)
    (hp : r.parentEdge = none) (hc : r.childEdge = none) (hinj : inj r.stage = some s) (hs : (g.stage s).isSome) :
    { (g.setProducer r.data none).addOutput s r.data with
      outputs := (g.outputs.add s r.data).tie e g.outputs.nextEdge }.WellFormedExcept inj goneIn [] where
  inputs := h.inputs
  outputs := Ports.inv_redirect h.outputs he hp hc hinj
  consumers := h.consumers
  nodup := h.nodup
  producers d' x := by
    show Function.update (Function.update g.producerEdge r.data none) r.data (some g.outputs.nextEdge) d' = some x ↔
      ((g.outputs.add s r.data).tie e g.outputs.nextEdge).Attached x d'
    rw [h.outputs.attached_redirect he]
    by_cases hdr : d' = r.data
    · subst hdr
      rw [Function.update_self, h.attached_iff he hp]
      simp [eq_comm]
    · rw [Function.update_of_ne hdr, Function.update_of_ne hdr, h.producers]
      have hxe : g.outputs.Attached x d' → x ≠ e := by
        rintro ⟨r', hr', hd', -⟩ rfl
        rw [he] at hr'
        cases hr'
        exact hdr hd'.symm
      simp only [hdr, and_false, false_or]
      tauto
  inStage := h.inStage
  outStage x rx hx := by
    replace hx : ((g.outputs.add s r.data).tie e g.outputs.nextEdge).edge x = some rx := hx
    rw [Ports.edge_redirect he (Nat.ne_of_lt (h.outputs.fresh e r he))] at hx
    split_ifs at hx with hnew hxe
    · cases hx
      exact hs
    · cases hx
      exact h.outStage e r he
    · exact h.outStage x rx hx
  inData := h.inData
  outData x rx hx := by
    replace hx : ((g.outputs.add s r.data).tie e g.outputs.nextEdge).edge x = some rx := hx
    rw [Ports.edge_redirect he (Nat.ne_of_lt (h.outputs.fresh e r he))] at hx
    split_ifs at hx with hnew hxe
    · cases hx
      exact h.outData e r he
    · cases hx
      exact h.outData e r he
    · exact h.outData x rx hx
  stage_lt := h.stage_lt
  data_lt := h.data_lt

/-- An output edge outside an injection goes. -/
theorem wf_dropOutput (h : g.WellFormedExcept inj goneIn goneOut) (he : g.outputs.edge e = some r)
    (hp : r.parentEdge = none) (hc : r.childEdge = none) :
    { g.setProducer r.data none with outputs := g.outputs.erase e }.WellFormedExcept inj goneIn (e :: goneOut) where
  inputs := h.inputs
  outputs := Ports.inv_erase h.outputs he hp hc
  consumers := h.consumers
  nodup := h.nodup
  producers d' x := by
    show Function.update g.producerEdge r.data none d' = some x ↔ (g.outputs.erase e).Attached x d'
    rw [Ports.attached_erase]
    by_cases hdr : d' = r.data
    · subst hdr
      rw [Function.update_self, h.attached_iff he hp]
      simp
    · rw [Function.update_of_ne hdr, h.producers]
      have hxe : g.outputs.Attached x d' → x ≠ e := by
        rintro ⟨r', hr', hd', -⟩ rfl
        rw [he] at hr'
        cases hr'
        exact hdr hd'.symm
      tauto
  inStage := h.inStage
  outStage x rx hx := by
    replace hx : (g.outputs.erase e).edge x = some rx := hx
    rw [Ports.edge_erase] at hx
    split_ifs at hx
    exact h.outStage x rx hx
  inData := h.inData
  outData x rx hx := by
    replace hx : (g.outputs.erase e).edge x = some rx := hx
    rw [Ports.edge_erase] at hx
    split_ifs at hx
    exact h.outData x rx hx
  stage_lt := h.stage_lt
  data_lt := h.data_lt

/-- An output edge of the parent goes, and the edge of the injected stage that is tied to it takes its place. -/
theorem wf_releaseOutput (h : g.WellFormedExcept inj goneIn goneOut) (hq : g.outputs.edge q = some rq)
    (hc : rq.childEdge = some e) :
    { g.setProducer rq.data (some e) with outputs := g.outputs.release q e }.WellFormedExcept
      inj goneIn (q :: goneOut) := by
  obtain ⟨r, he, hp, hpq, hdata, -⟩ := h.outputs.tied hq hc
  have hne : e ≠ q := by
    rintro rfl
    rw [he] at hq
    cases hq
    rw [hp] at hpq
    cases hpq
  have hedge : ∀ x rx, (g.outputs.release q e).edge x = some rx →
      ∃ r', g.outputs.edge x = some r' ∧ rx.stage = r'.stage ∧ rx.data = r'.data := by
    intro x rx hx
    rw [Ports.edge_release he] at hx
    split_ifs at hx with hxq hxe
    · cases hx
      exact ⟨r, hxe ▸ he, rfl, rfl⟩
    · exact ⟨rx, hx, rfl, rfl⟩
  exact {
    inputs := h.inputs
    outputs := Ports.inv_release h.outputs hq hc
    consumers := h.consumers
    nodup := h.nodup
    producers d' x := by
      show Function.update g.producerEdge rq.data (some e) d' = some x ↔ (g.outputs.release q e).Attached x d'
      rw [Ports.attached_release he hp hne, ← hdata]
      by_cases hdr : d' = rq.data
      · subst hdr
        rw [Function.update_self, h.attached_iff hq hpq]
        simp [eq_comm]
      · rw [Function.update_of_ne hdr, h.producers]
        have hxq : g.outputs.Attached x d' → x ≠ q := by
          rintro ⟨r', hr', hd', -⟩ rfl
          rw [hq] at hr'
          cases hr'
          exact hdr hd'.symm
        simp only [hdr, and_false, false_or]
        tauto
    inStage := h.inStage
    outStage x rx hx := by
      obtain ⟨r', hr', hst, -⟩ := hedge x rx hx
      rw [hst]
      exact h.outStage x r' hr'
    inData := h.inData
    outData x rx hx := by
      obtain ⟨r', hr', -, hdt⟩ := hedge x rx hx
      rw [hdt]
      exact h.outData x r' hr'
    stage_lt := h.stage_lt
    data_lt := h.data_lt }

theorem wf_closeOutput (h : g.WellFormedExcept inj goneIn goneOut) {l : List EdgeId}
    (hgone : ∀ x ∈ goneOut, ∀ t, x ∈ g.outputs.ports t → t = s) (hl : l.Nodup)
    (hmem : ∀ x, x ∈ l ↔ x ∈ g.outputs.ports s ∧ x ∉ goneOut) :
    { g with outputs := g.outputs.close s l }.WellFormedExcept inj goneIn [] where
  inputs := h.inputs
  outputs := Ports.inv_close h.outputs hgone hl hmem
  consumers := h.consumers
  nodup := h.nodup
  producers d' x := by
    rw [Ports.attached_close hl]
    exact h.producers d' x
  inStage := h.inStage
  outStage x rx hx := by
    obtain ⟨r, i, hr, rfl⟩ := Ports.edge_close_eq_some hl hx
    exact h.outStage x r hr
  inData := h.inData
  outData x rx hx := by
    obtain ⟨r, i, hr, rfl⟩ := Ports.edge_close_eq_some hl hx
    exact h.outData x r hr
  stage_lt := h.stage_lt
  data_lt := h.data_lt

end Graph

end OpenVino.Vpu
