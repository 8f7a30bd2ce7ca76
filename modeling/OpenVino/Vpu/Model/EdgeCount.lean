import OpenVino.Vpu.Model.WellFormed

/-!
# The counters of the stage order

`StageOrder.Counts o f` says that the counters of `o` hold `f p c` for `p → c`, in both directions. Each
helper (`linkInput`, `unlinkConsumers`, …) changes `f` by a known amount, and so does each change of the
graph change `Graph.dataflow.edges`; the operations keep the two amounts equal.
-/

namespace OpenVino.Vpu

/-! ### What the changes of a graph do to its dataflow -/

namespace Graph

variable {g : Graph} {s p c : StageId} {d : DataId} {e o : EdgeId} {r : PortEdge}

theorem consumer_eq (he : g.inputs.edge e = some r) : g.consumer e = some r.stage := by
  rw [consumer, he, Option.map_some]

theorem producer_eq_none_iff : g.producer d = none ↔ g.producer? d = none := Option.map_eq_none_iff

theorem producer_eq (h : g.producer? d = some r) : g.producer d = some r.stage := by
  rw [producer, h, Option.map_some]

/-- Only the stages of the input edges in use count. -/
theorem dataflow_inputs {q : Ports}
    (h : ∀ x, ∀ e ∈ g.consumerEdges x, (q.edge e).map PortEdge.stage = g.consumer e) :
    { g with inputs := q }.dataflow = g.dataflow := by
  have hc : ∀ x, (g.consumerEdges x).filterMap { g with inputs := q }.consumer =
      (g.consumerEdges x).filterMap g.consumer := fun x => List.filterMap_congr (h x)
  exact congrArg (Dataflow.mk g.nextData g.producer) (funext hc)

/-- Only the stages of the output edges in use count. -/
theorem dataflow_outputs {q : Ports}
    (h : ∀ x e, g.producerEdge x = some e → (q.edge e).map PortEdge.stage = (g.outputs.edge e).map PortEdge.stage) :
    { g with outputs := q }.dataflow = g.dataflow := by
  have hp : ∀ x, { g with outputs := q }.producer x = g.producer x := by
    intro x
    simp only [producer, producer?, Ports.deref]
    cases hx : g.producerEdge x with
    | none => rfl
    | some e => exact h x e hx
  exact congrArg (fun q => Dataflow.mk g.nextData q fun x => (g.consumerEdges x).filterMap g.consumer) (funext hp)

theorem edges_pushConsumer (hd : d < g.nextData) (he : g.consumer e = some s) :
    (g.pushConsumer d e).dataflow.edges p c =
      g.dataflow.edges p c + if g.producer d = some p ∧ c = s then 1 else 0 := by
  refine Dataflow.edges_addConsumer (f := g.dataflow) rfl hd rfl (fun x hx => ?_) ?_
  · show (pushAt g.consumerEdges d e x).filterMap g.consumer = _
    rw [pushAt, Function.update_of_ne hx]
    rfl
  · show (pushAt g.consumerEdges d e d).filterMap g.consumer = _
    rw [pushAt, Function.update_self, List.filterMap_append, List.filterMap_cons_some he, List.filterMap_nil]
    rfl

theorem edges_eraseConsumer (hd : d < g.nextData) (hmem : e ∈ g.consumerEdges d) (he : g.consumer e = some s) :
    (g.eraseConsumer d e).dataflow.edges p c =
      g.dataflow.edges p c - if g.producer d = some p ∧ c = s then 1 else 0 := by
  refine Dataflow.edges_eraseConsumer (f := g.dataflow) rfl hd rfl (fun x hx => ?_) ?_
  · show (eraseAt g.consumerEdges d e x).filterMap g.consumer = _
    rw [eraseAt, Function.update_of_ne hx]
    rfl
  · show ((g.consumerEdges d).filterMap g.consumer).Perm
      (s :: (eraseAt g.consumerEdges d e d).filterMap g.consumer)
    rw [eraseAt, Function.update_self, ← List.filterMap_cons_some he]
    exact (List.perm_cons_erase hmem).filterMap g.consumer

theorem edges_addInput (hd : d < g.nextData) (hnew : ∀ x, g.inputs.nextEdge ∉ g.consumerEdges x) :
    (g.addInput s d).dataflow.edges p c =
      g.dataflow.edges p c + if g.producer d = some p ∧ c = s then 1 else 0 := by
  have hadd : { g with inputs := g.inputs.add s d }.dataflow = g.dataflow := by
    refine dataflow_inputs fun x e he => ?_
    have hne : e ≠ g.inputs.nextEdge := by
      rintro rfl
      exact hnew x he
    rw [Ports.edge_add, if_neg hne]
    rfl
  rw [← hadd]
  refine edges_pushConsumer (g := { g with inputs := g.inputs.add s d }) hd ?_
  simp [consumer, Ports.edge_add]

theorem producer?_setProducer (x : DataId) (h : Option EdgeId) :
    (g.setProducer d h).producer? x = if x = d then g.outputs.deref h else g.producer? x := by
  simp only [producer?, setProducer]
  by_cases hx : x = d
  · subst hx
    simp
  · simp [hx]

theorem edges_setProducer (hd : d < g.nextData) (hfree : g.producer d = none) (ho : g.outputs.edge o = some r) :
    (g.setProducer d (some o)).dataflow.edges p c =
      g.dataflow.edges p c + if p = r.stage then ((g.dataflow.consumers d).count c : Int) else 0 := by
  refine Dataflow.edges_setProducer (f := g.dataflow) rfl hd rfl (fun x hx => ?_) hfree ?_
  · show ((g.setProducer d (some o)).producer? x).map PortEdge.stage = _
    rw [producer?_setProducer, if_neg hx]
    rfl
  · show ((g.setProducer d (some o)).producer? d).map PortEdge.stage = _
    rw [producer?_setProducer, if_pos rfl, Ports.deref, Option.bind_some, ho, Option.map_some]

theorem edges_clearProducer (hd : d < g.nextData) (hp : g.producer d = some s) :
    (g.setProducer d none).dataflow.edges p c =
      g.dataflow.edges p c - if p = s then ((g.dataflow.consumers d).count c : Int) else 0 := by
  refine Dataflow.edges_clearProducer (f := g.dataflow) rfl hd rfl (fun x hx => ?_) hp ?_
  · show ((g.setProducer d none).producer? x).map PortEdge.stage = _
    rw [producer?_setProducer, if_neg hx]
    rfl
  · show ((g.setProducer d none).producer? d).map PortEdge.stage = _
    rw [producer?_setProducer, if_pos rfl]
    rfl

theorem edges_addOutput (hd : d < g.nextData) (hfree : g.producer d = none)
    (hnew : ∀ x, g.producerEdge x ≠ some g.outputs.nextEdge) :
    (g.addOutput s d).dataflow.edges p c =
      g.dataflow.edges p c + if p = s then ((g.dataflow.consumers d).count c : Int) else 0 := by
  have hadd : { g with outputs := g.outputs.add s d }.dataflow = g.dataflow := by
    refine dataflow_outputs fun x e he => ?_
    have hne : e ≠ g.outputs.nextEdge := by
      rintro rfl
      exact hnew x he
    rw [Ports.edge_add, if_neg hne]
  have hfree' : { g with outputs := g.outputs.add s d }.producer d = none := by
    have := congrArg (fun f => Dataflow.producer f d) hadd
    exact this.trans hfree
  rw [← hadd]
  refine edges_setProducer (g := { g with outputs := g.outputs.add s d })
    (r := ⟨s, d, (g.outputs.ports s).length, none, none⟩) hd hfree' ?_
  simp [Ports.edge_add]

end Graph

/-! ### What the helpers do to the counters -/

namespace StageOrder

/-- Both counters of `p → c` hold `f p c`. -/
def Counts (o : StageOrder) (f : StageId → StageId → Int) : Prop :=
  ∀ p c, (o.nextStages p).get c = f p c ∧ (o.prevStages c).get p = f p c

variable {o o' : StageOrder} {f f' : StageId → StageId → Int} {p c s : StageId}

theorem Counts.congr (h : o.Counts f) (hf : ∀ p c, f' p c = f p c) : o.Counts f' := fun p c => by
  rw [hf]
  exact h p c

theorem Counts.order (h : o.Counts f) (hn : o'.nextStages = o.nextStages) (hp : o'.prevStages = o.prevStages) :
    o'.Counts f := fun p c => by
  rw [hn, hp]
  exact h p c

theorem Counts.updateInitial (h : o.Counts f) : (o.updateInitial s).Counts f := h.order rfl rfl

theorem Counts.eraseInitial (h : o.Counts f) : (o.eraseInitial s).Counts f := h.order rfl rfl

theorem Counts.reset (h : o.Counts f) : o.reset.Counts f := h.order rfl rfl

theorem Counts.link (h : o.Counts f) :
    (o.link p c).Counts fun p' c' => f p' c' + if p' = p ∧ c' = c then 1 else 0 := by
  intro p' c'
  obtain ⟨hn, hp⟩ := h p' c'
  constructor
  · simp only [StageOrder.link]
    by_cases hpp : p' = p
    · subst hpp
      simp [Counter.get_incr, hn]
    · simp [hpp, hn]
  · simp only [StageOrder.link]
    by_cases hcc : c' = c
    · subst hcc
      simp [Counter.get_incr, hp]
    · simp [hcc, hp]

theorem unlink_eq_ok_iff : o.unlink p c = .ok o' ↔ ∃ next prev, (o.nextStages p).decr c = some next ∧
    (o.prevStages c).decr p = some prev ∧ o' = { o with
      nextStages := Function.update o.nextStages p next
      prevStages := Function.update o.prevStages c prev } := by
  unfold unlink
  cases (o.nextStages p).decr c with
  | none => simp
  | some next =>
    cases (o.prevStages c).decr p with
    | none => simp
    | some prev => simp [eq_comm]

theorem Counts.unlink (h : o.Counts f) (ho : o.unlink p c = .ok o') :
    o'.Counts fun p' c' => f p' c' - if p' = p ∧ c' = c then 1 else 0 := by
  obtain ⟨next, prev, hnext, hprev, rfl⟩ := unlink_eq_ok_iff.mp ho
  intro p' c'
  obtain ⟨hn, hp⟩ := h p' c'
  constructor
  · by_cases hpp : p' = p
    · subst hpp
      simp [Counter.get_decr hnext, hn]
    · simp [hpp, hn]
  · by_cases hcc : c' = c
    · subst hcc
      simp [Counter.get_decr hprev, hp]
    · simp [hcc, hp]

/-- Nothing comes before the stages of `P`. -/
def IdleOn (o : StageOrder) (P : StageId → Prop) : Prop := ∀ c, P c → ∀ p, (o.prevStages c).get p = 0

variable {P : StageId → Prop}

theorem IdleOn.order (h : o.IdleOn P) (hp : o'.prevStages = o.prevStages) : o'.IdleOn P := fun c hc p => by
  rw [hp]
  exact h c hc p

theorem IdleOn.link (h : o.IdleOn P) (hc : ¬ P c) : (o.link p c).IdleOn P := by
  intro c' hc' p'
  have hne : c' ≠ c := by
    rintro rfl
    exact hc hc'
  simp only [StageOrder.link, Function.update_of_ne hne]
  exact h c' hc' p'

theorem get_prevStages_unlink (h : o.unlink p c = .ok o') (c' p' : StageId) :
    (o'.prevStages c').get p' = (o.prevStages c').get p' - if c' = c ∧ p' = p then 1 else 0 := by
  obtain ⟨next, prev, -, hprev, rfl⟩ := unlink_eq_ok_iff.mp h
  by_cases hcc : c' = c
  · subst hcc
    simp [Counter.get_decr hprev]
  · simp [hcc]

theorem IdleOn.unlink (h : o.IdleOn P) (ho : o.unlink p c = .ok o') : o'.IdleOn P := by
  intro c' hc' p'
  have hle := get_prevStages_unlink ho c' p'
  have hnonneg := Counter.get_nonneg (o'.prevStages c') p'
  rw [h c' hc' p'] at hle
  split_ifs at hle <;> omega

end StageOrder

namespace Graph

variable {g : Graph} {o o' : StageOrder} {f : StageId → StageId → Int} {s : StageId} {d : DataId}
  {after : StageOrder → StageId → StageOrder} {P : StageId → Prop}

theorem getStage_ok_iff {n : StageNode} : g.getStage s = .ok n ↔ g.stage s = some n := by
  unfold getStage
  cases g.stage s <;> simp

theorem getData_ok_iff {n : DataNode} : g.getData d = .ok n ↔ g.data d = some n := by
  unfold getData
  cases g.data d <;> simp

theorem getEdge_ok_iff {p : Ports} {e : EdgeId} {r : PortEdge} : p.getEdge e = .ok r ↔ p.edge e = some r := by
  unfold Ports.getEdge
  cases p.edge e <;> simp

theorem checkNotInjected_ok_iff {u : Unit} :
    g.checkNotInjected s = .ok u ↔ (g.stage s).isSome ∧ g.parentStage s = none := by
  unfold checkNotInjected
  rw [bind_ok_iff]
  simp only [getStage_ok_iff, ieAssert_ok_iff, Option.isSome_iff_exists, exists_and_right]

theorem linkInput_cases (h : g.linkInput s d o = .ok o') :
    (g.producer d = none ∧ o' = o) ∨ ∃ p, g.producer d = some p ∧ o' = o.link p s ∧
      g.parentStage s = none ∧ g.parentStage p = none := by
  unfold linkInput at h
  cases hp : g.producer d with
  | none =>
    rw [hp] at h
    cases h
    exact .inl ⟨rfl, rfl⟩
  | some p =>
    simp only [hp, bind_ok_iff, checkNotInjected_ok_iff, pure_ok_iff] at h
    obtain ⟨-, hs, -, hps, rfl⟩ := h
    exact .inr ⟨p, rfl, rfl, hs.2, hps.2⟩

theorem linkInput_counts (h : g.linkInput s d o = .ok o') (ho : o.Counts f) :
    o'.Counts fun p c => f p c + if g.producer d = some p ∧ c = s then 1 else 0 := by
  rcases linkInput_cases h with ⟨hp, rfl⟩ | ⟨p, hp, rfl, -, -⟩
  · exact ho.congr fun p c => by simp [hp]
  · exact ho.link.congr fun p' c => by simp [hp, eq_comm]

theorem unlinkInput_cases (h : g.unlinkInput s d o = .ok o') :
    (g.producer d = none ∧ o' = o) ∨ ∃ p, g.producer d = some p ∧ o.unlink p s = .ok o' := by
  unfold unlinkInput at h
  cases hp : g.producer d with
  | none =>
    rw [hp] at h
    cases h
    exact .inl ⟨rfl, rfl⟩
  | some p =>
    simp only [hp, bind_ok_iff] at h
    obtain ⟨-, -, -, -, h⟩ := h
    exact .inr ⟨p, rfl, h⟩

theorem unlinkInput_counts (h : g.unlinkInput s d o = .ok o') (ho : o.Counts f) :
    o'.Counts fun p c => f p c - if g.producer d = some p ∧ c = s then 1 else 0 := by
  rcases unlinkInput_cases h with ⟨hp, rfl⟩ | ⟨p, hp, h⟩
  · exact ho.congr fun p c => by simp [hp]
  · exact (ho.unlink h).congr fun p' c => by simp [hp, eq_comm]

/-- Only stages that are not injected are linked. -/
theorem linkInput_idle (h : g.linkInput s d o = .ok o') (ho : o.IdleOn P) (hP : ∀ c, P c → g.parentStage c ≠ none) :
    o'.IdleOn P := by
  rcases linkInput_cases h with ⟨-, rfl⟩ | ⟨p, -, rfl, hs, -⟩
  · exact ho
  · exact ho.link fun hPs => hP s hPs hs

theorem unlinkInput_idle (h : g.unlinkInput s d o = .ok o') (ho : o.IdleOn P) : o'.IdleOn P := by
  rcases unlinkInput_cases h with ⟨-, rfl⟩ | ⟨p, -, h⟩
  · exact ho
  · exact ho.unlink h

theorem linkConsumer_ok {e : EdgeId} (h : g.linkConsumer s after o e = .ok o') :
    ∃ r, g.inputs.edge e = some r ∧ g.parentStage s = none ∧ g.parentStage r.stage = none ∧
      o' = after (o.link s r.stage) r.stage := by
  simp only [linkConsumer, bind_ok_iff, getEdge_ok_iff, checkNotInjected_ok_iff, pure_ok_iff] at h
  obtain ⟨r, hr, -, hs, -, hc, rfl⟩ := h
  exact ⟨r, hr, hs.2, hc.2, rfl⟩

theorem unlinkConsumer_ok {e : EdgeId} (h : g.unlinkConsumer s after o e = .ok o') :
    ∃ r o₁, g.inputs.edge e = some r ∧ o.unlink s r.stage = .ok o₁ ∧ o' = after o₁ r.stage := by
  simp only [unlinkConsumer, bind_ok_iff, getEdge_ok_iff, pure_ok_iff] at h
  obtain ⟨r, hr, -, -, -, -, o₁, ho₁, rfl⟩ := h
  exact ⟨r, o₁, hr, ho₁, rfl⟩

theorem linkConsumers_idle (h : g.linkConsumers s d after o = .ok o') (ho : o.IdleOn P)
    (hP : ∀ c, P c → g.parentStage c ≠ none) (hafter : ∀ o c, (after o c).prevStages = o.prevStages) :
    o'.IdleOn P := by
  refine foldlM_ok_induct (I := fun _ (o : StageOrder) => o.IdleOn P) h ho fun _ e _ o₁ o₂ _ ho₁ h₁ => ?_
  obtain ⟨r, -, -, hc, rfl⟩ := linkConsumer_ok h₁
  exact (ho₁.link fun hPc => hP _ hPc hc).order (hafter _ _)

theorem unlinkConsumers_idle (h : g.unlinkConsumers s d after o = .ok o') (ho : o.IdleOn P)
    (hafter : ∀ o c, (after o c).prevStages = o.prevStages) : o'.IdleOn P := by
  refine foldlM_ok_induct (I := fun _ (o : StageOrder) => o.IdleOn P) h ho fun _ e _ o₁ o₂ _ ho₁ h₁ => ?_
  obtain ⟨r, o₃, -, h₃, rfl⟩ := unlinkConsumer_ok h₁
  exact (ho₁.unlink h₃).order (hafter _ _)

/-- The part of a list of edges that was walked counts. -/
theorem linkConsumers_counts (h : g.linkConsumers s d after o = .ok o') (ho : o.Counts f)
    (hafter : ∀ o f c, o.Counts f → (after o c).Counts f) :
    o'.Counts fun p c => f p c + if p = s then ((g.dataflow.consumers d).count c : Int) else 0 := by
  refine foldlM_ok_induct (I := fun pre (o : StageOrder) =>
    o.Counts fun p c => f p c + if p = s then ((pre.filterMap g.consumer).count c : Int) else 0) h ?_ ?_
  · exact ho.congr fun p c => by simp
  · rintro pre e post o₁ o₂ - ho₁ h₁
    obtain ⟨r, hr, -, -, rfl⟩ := linkConsumer_ok h₁
    refine (hafter _ _ _ ho₁.link).congr fun p c => ?_
    rw [List.filterMap_append, List.filterMap_cons_some (consumer_eq hr), List.count_append]
    by_cases hp : p = s
    · by_cases hc : c = r.stage
      · simp [hp, hc]
        omega
      · simp [hp, hc, Ne.symm hc]
    · simp [hp]

theorem unlinkConsumers_counts (h : g.unlinkConsumers s d after o = .ok o') (ho : o.Counts f)
    (hafter : ∀ o f c, o.Counts f → (after o c).Counts f) :
    o'.Counts fun p c => f p c - if p = s then ((g.dataflow.consumers d).count c : Int) else 0 := by
  refine foldlM_ok_induct (I := fun pre (o : StageOrder) =>
    o.Counts fun p c => f p c - if p = s then ((pre.filterMap g.consumer).count c : Int) else 0) h ?_ ?_
  · exact ho.congr fun p c => by simp
  · rintro pre e post o₁ o₂ - ho₁ h₁
    obtain ⟨r, o₃, hr, h₃, rfl⟩ := unlinkConsumer_ok h₁
    refine (hafter _ _ _ (ho₁.unlink h₃)).congr fun p c => ?_
    rw [List.filterMap_append, List.filterMap_cons_some (consumer_eq hr), List.count_append]
    by_cases hp : p = s
    · by_cases hc : c = r.stage
      · simp [hp, hc]
        omega
      · simp [hp, hc, Ne.symm hc]
    · simp [hp]

end Graph

end OpenVino.Vpu
