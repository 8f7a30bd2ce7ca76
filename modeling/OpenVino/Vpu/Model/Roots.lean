import OpenVino.Vpu.Model.EditRuns

/-!
# Runs of editing operations: the roots

`_initialStages` is to be the set of listed stages with no previous stage. `StageOrder.RootsExcept o L X`
says so of `o` for the listed stages `L`, but for the stages of `X`, which an operation has changed and not
yet looked at. The helpers move stages into `X` and out of it again; `roots_exact` is the statement about
every run in which no listed stage loses its last producer to `disconnectStage` or `removeStage`.
-/

namespace OpenVino.Vpu

namespace StageOrder

variable {o o' : StageOrder} {L X : StageId → Prop} {p c s : StageId}

def IsRoot (o : StageOrder) (s : StageId) : Prop := ∀ p, (o.prevStages s).get p = 0

def RootsExcept (o : StageOrder) (L X : StageId → Prop) : Prop :=
  ∀ x, ¬ X x → (x ∈ o.initialStages ↔ L x ∧ o.IsRoot x)

theorem RootsExcept.mono {X' : StageId → Prop} (h : o.RootsExcept L X) (hX : ∀ x, X x → X' x) :
    o.RootsExcept L X' := fun x hx => h x fun hX' => hx (hX x hX')

theorem RootsExcept.reset (h : o.RootsExcept L X) : o.reset.RootsExcept L X := h

theorem isRoot_link_of_ne (hs : s ≠ c) : (o.link p c).IsRoot s ↔ o.IsRoot s := by
  unfold IsRoot
  simp only [StageOrder.link, Function.update_of_ne hs]

theorem not_isRoot_link : ¬ (o.link p c).IsRoot c := by
  intro h
  have := h p
  have hnonneg := Counter.get_nonneg (o.prevStages c) p
  simp only [StageOrder.link, Function.update_self, Counter.get_incr, if_true] at this
  omega

theorem isRoot_unlink_of_ne (h : o.unlink p c = .ok o') (hs : s ≠ c) : o'.IsRoot s ↔ o.IsRoot s := by
  unfold IsRoot
  simp only [get_prevStages_unlink h, hs, false_and, if_false, Int.sub_zero]

theorem initialStages_unlink (h : o.unlink p c = .ok o') : o'.initialStages = o.initialStages := by
  obtain ⟨next, prev, -, -, rfl⟩ := unlink_eq_ok_iff.mp h
  rfl

/-- Only a stage that comes after `p` is unlinked from it. -/
theorem get_pos_of_unlink (h : o.unlink p c = .ok o') : 0 < (o.prevStages c).get p := by
  obtain ⟨next, prev, -, hprev, rfl⟩ := unlink_eq_ok_iff.mp h
  exact (Counter.decr_eq_some_iff.mp hprev).1

theorem RootsExcept.link (h : o.RootsExcept L X) : (o.link p c).RootsExcept L (fun x => X x ∨ x = c) := by
  intro x hx
  rw [not_or] at hx
  rw [isRoot_link_of_ne hx.2]
  exact h x hx.1

/-- A linked stage leaves the roots. -/
theorem RootsExcept.link_eraseInitial (h : o.RootsExcept L X) :
    ((o.link p c).eraseInitial c).RootsExcept L (fun x => X x ∧ x ≠ c) := by
  intro x hx
  show x ∈ o.initialStages.erase c ↔ L x ∧ (o.link p c).IsRoot x
  rw [Finset.mem_erase]
  by_cases hxc : x = c
  · subst hxc
    simp [not_isRoot_link]
  · rw [isRoot_link_of_ne hxc, ← h x fun hX => hx ⟨hX, hxc⟩]
    simp [hxc]

theorem RootsExcept.unlink (h : o.RootsExcept L X) (ho : o.unlink p c = .ok o') :
    o'.RootsExcept L (fun x => X x ∨ x = c) := by
  intro x hx
  rw [not_or] at hx
  rw [isRoot_unlink_of_ne ho hx.2, initialStages_unlink ho]
  exact h x hx.1

/-- A listed stage is looked at. -/
theorem RootsExcept.updateInitial (h : o.RootsExcept L X) (hs : L s) :
    (o.updateInitial s).RootsExcept L (fun x => X x ∧ x ≠ s) := by
  intro x hx
  show x ∈ (if (o.prevStages s).isEmpty then insert s o.initialStages else o.initialStages.erase s) ↔ L x ∧ o.IsRoot x
  by_cases hxs : x = s
  · subst hxs
    have hroot : (o.prevStages x).isEmpty ↔ o.IsRoot x := Counter.isEmpty_iff
    by_cases he : (o.prevStages x).isEmpty
    · rw [if_pos he]
      simp [hs, hroot.mp he]
    · rw [if_neg he]
      simp only [Finset.mem_erase, ne_eq, not_true, false_and, false_iff, not_and]
      exact fun _ hr => he (hroot.mpr hr)
  · rw [← h x fun hX => hx ⟨hX, hxs⟩]
    split_ifs <;> simp [hxs]

end StageOrder

namespace Graph

variable {g : Graph} {o o' : StageOrder} {L X : StageId → Prop} {s : StageId} {d : DataId}

theorem linkInput_roots (h : g.linkInput s d o = .ok o') (ho : o.RootsExcept L X) :
    o'.RootsExcept L (fun x => X x ∨ x = s) := by
  rcases linkInput_cases h with ⟨-, rfl⟩ | ⟨p, -, rfl, -, -⟩
  · exact ho.mono fun _ => .inl
  · exact ho.link

theorem unlinkInput_roots (h : g.unlinkInput s d o = .ok o') (ho : o.RootsExcept L X) :
    o'.RootsExcept L (fun x => X x ∨ x = s) := by
  rcases unlinkInput_cases h with ⟨-, rfl⟩ | ⟨p, -, h⟩
  · exact ho.mono fun _ => .inl
  · exact ho.unlink h

/-- The stages that read a data which is written again are no roots. -/
theorem linkConsumers_roots (h : g.linkConsumers s d .eraseInitial o = .ok o') (ho : o.RootsExcept L X) :
    o'.RootsExcept L (fun x => X x ∧ x ∉ g.dataflow.consumers d) := by
  refine foldlM_ok_induct (I := fun pre (o : StageOrder) =>
    o.RootsExcept L fun x => X x ∧ x ∉ pre.filterMap g.consumer) h (ho.mono fun x hx => ⟨hx, by simp⟩) ?_
  rintro pre e post o₁ o₂ - ho₁ h₁
  obtain ⟨r, hr, -, -, rfl⟩ := linkConsumer_ok h₁
  refine ho₁.link_eraseInitial.mono fun x => ?_
  rw [List.filterMap_append, List.filterMap_cons_some (consumer_eq hr), List.filterMap_nil, List.mem_append,
    List.mem_singleton, not_or]
  tauto

/-- The stages that read a data which is no longer written are looked at. -/
theorem unlinkConsumers_updateInitial_roots (h : g.unlinkConsumers s d .updateInitial o = .ok o')
    (ho : o.RootsExcept L X) (hL : ∀ c, 0 < (o.prevStages c).get s → L c) : o'.RootsExcept L X := by
  refine (foldlM_ok_induct (I := fun _ (o : StageOrder) =>
    o.RootsExcept L X ∧ ∀ c, 0 < (o.prevStages c).get s → L c) h ⟨ho, hL⟩ ?_).1
  rintro - e - o₁ o₂ - ⟨ho₁, hL₁⟩ h₁
  obtain ⟨r, o₃, -, h₃, rfl⟩ := unlinkConsumer_ok h₁
  refine ⟨((ho₁.unlink h₃).updateInitial (hL₁ _ (StageOrder.get_pos_of_unlink h₃))).mono fun x => ?_, fun c hc => ?_⟩
  · tauto
  · refine hL₁ c ?_
    replace hc : 0 < (o₃.prevStages c).get s := hc
    rw [StageOrder.get_prevStages_unlink h₃] at hc
    split_ifs at hc <;> omega

/-- The stages that read a data which is no longer written have not been roots. -/
theorem unlinkConsumers_roots (h : g.unlinkConsumers s d (fun o _ => o) o = .ok o') (ho : o.RootsExcept L X) :
    o'.RootsExcept L (fun x => X x ∨ x ∈ g.dataflow.consumers d) ∧
      ∀ x ∈ g.dataflow.consumers d, ¬ X x → x ∉ o'.initialStages := by
  have hall : o'.initialStages = o.initialStages ∧
      (∀ x q, (o'.prevStages x).get q ≤ (o.prevStages x).get q) ∧
      o'.RootsExcept L (fun x => X x ∨ x ∈ g.dataflow.consumers d) ∧
      ∀ x ∈ g.dataflow.consumers d, ¬ X x → x ∉ o.initialStages := by
    refine foldlM_ok_induct (I := fun pre (o₁ : StageOrder) => o₁.initialStages = o.initialStages ∧
      (∀ x q, (o₁.prevStages x).get q ≤ (o.prevStages x).get q) ∧
      o₁.RootsExcept L (fun x => X x ∨ x ∈ pre.filterMap g.consumer) ∧
      ∀ x ∈ pre.filterMap g.consumer, ¬ X x → x ∉ o.initialStages) h
      ⟨rfl, fun _ _ => le_refl _, ho.mono fun _ => .inl, by simp⟩ ?_
    rintro pre e post o₁ o₂ - ⟨hinit, hle, ho₁, hnot⟩ h₁
    obtain ⟨r, o₃, hr, h₃, rfl⟩ := unlinkConsumer_ok h₁
    refine ⟨(StageOrder.initialStages_unlink h₃).trans hinit, fun x q => ?_, ?_, fun x hx hX => ?_⟩
    · rw [StageOrder.get_prevStages_unlink h₃]
      have := hle x q
      split_ifs <;> omega
    · refine (ho₁.unlink h₃).mono fun x => ?_
      rw [List.filterMap_append, List.filterMap_cons_some (consumer_eq hr), List.filterMap_nil, List.mem_append,
        List.mem_singleton]
      tauto
    · rw [List.filterMap_append, List.filterMap_cons_some (consumer_eq hr), List.filterMap_nil, List.mem_append,
        List.mem_singleton] at hx
      rcases hx with hx | rfl
      · exact hnot x hx hX
      · -- it came after `s`
        intro hmem
        have hroot := ((ho _ hX).mp hmem).2 s
        have hpos := StageOrder.get_pos_of_unlink h₃
        have := hle r.stage s
        omega
  obtain ⟨hinit, -, hroots, hnot⟩ := hall
  rw [hinit]
  exact ⟨hroots, hnot⟩

/-- They are no roots when another stage writes the data instead. -/
theorem linkConsumers_roots_of_notMem (h : g.linkConsumers s d (fun o _ => o) o = .ok o')
    (ho : o.RootsExcept L (fun x => X x ∨ x ∈ g.dataflow.consumers d))
    (hnot : ∀ x ∈ g.dataflow.consumers d, ¬ X x → x ∉ o.initialStages) : o'.RootsExcept L X := by
  have hall : o'.initialStages = o.initialStages ∧
      (∀ x, x ∉ g.dataflow.consumers d → (o'.IsRoot x ↔ o.IsRoot x)) ∧
      ∀ x ∈ g.dataflow.consumers d, ¬ o'.IsRoot x := by
    refine foldlM_ok_induct (I := fun pre (o₁ : StageOrder) => o₁.initialStages = o.initialStages ∧
      (∀ x, x ∉ pre.filterMap g.consumer → (o₁.IsRoot x ↔ o.IsRoot x)) ∧
      ∀ x ∈ pre.filterMap g.consumer, ¬ o₁.IsRoot x) h ⟨rfl, fun _ _ => Iff.rfl, by simp⟩ ?_
    rintro pre e post o₁ o₂ - ⟨hinit, hother, hmem⟩ h₁
    obtain ⟨r, hr, -, -, rfl⟩ := linkConsumer_ok h₁
    rw [List.filterMap_append, List.filterMap_cons_some (consumer_eq hr), List.filterMap_nil]
    refine ⟨hinit, fun x hx => ?_, fun x hx => ?_⟩
    · rw [List.mem_append, List.mem_singleton, not_or] at hx
      rw [StageOrder.isRoot_link_of_ne hx.2, hother x hx.1]
    · by_cases hxr : x = r.stage
      · subst hxr
        exact StageOrder.not_isRoot_link
      · rw [StageOrder.isRoot_link_of_ne hxr]
        rw [List.mem_append, List.mem_singleton] at hx
        exact hmem x (hx.resolve_right hxr)
  obtain ⟨hinit, hother, hmem⟩ := hall
  intro x hX
  rw [hinit]
  by_cases hx : x ∈ g.dataflow.consumers d
  · simp [hnot x hx hX, hmem x hx]
  · rw [hother x hx]
    exact ho x (by tauto)

end Graph

namespace Model

variable {m m' : Model} {s parent child : StageId} {d : DataId} {e : EdgeId} {L X : StageId → Prop}

/-- The list of stages holds the stages that are not injected. -/
structure Listed (m : Model) : Prop where
  nodup : m.graph.stagePtrList.Nodup
  mem_iff : ∀ s, s ∈ m.graph.stagePtrList ↔ (m.graph.stage s).isSome ∧ m.graph.parentStage s = none

theorem Listed.of_same (h : m.Listed) (hs : m.graph.SameStages m'.graph) : m'.Listed where
  nodup := by
    rw [hs.stagePtrList]
    exact h.nodup
  mem_iff s := by
    rw [hs.stagePtrList, hs.parentStage, hs.stage]
    exact h.mem_iff s

/-- `_initialStages` is the set of listed stages that no stage comes before. -/
def Rooted (m : Model) : Prop := m.order.RootsExcept (· ∈ m.graph.stagePtrList) fun _ => False

theorem Rooted.of_roots (h : m'.order.RootsExcept (· ∈ m.graph.stagePtrList) X) (hX : ∀ x, ¬ X x)
    (hs : m'.graph.stagePtrList = m.graph.stagePtrList) : m'.Rooted := by
  unfold Rooted
  rw [hs]
  exact h.mono fun x hx => hX x hx

/-! ### Adding and replacing edges -/

theorem addStageInput_roots {r : Model × EdgeId} (h : m.addStageInput s d = .ok r) (hm : m.order.RootsExcept L X)
    (hs : L s) : r.1.order.RootsExcept L (fun x => X x ∧ x ≠ s) := by
  obtain ⟨-, -, o, ho, rfl⟩ := addStageInput_ok h
  refine ((Graph.linkInput_roots ho hm.reset).updateInitial hs).mono fun x => ?_
  tauto

theorem addStageOutput_roots {r : Model × EdgeId} (h : m.addStageOutput s d = .ok r)
    (hm : m.order.RootsExcept L X) : r.1.order.RootsExcept L X := by
  obtain ⟨-, -, -, o, ho, rfl⟩ := addStageOutput_ok h
  exact (Graph.linkConsumers_roots ho hm.reset).mono fun x hx => hx.1

theorem replaceStageInput_roots {r : PortEdge} (h : m.replaceStageInput e d = .ok m') (hm : m.order.RootsExcept L X)
    (hr : m.graph.inputs.edge e = some r) (hs : L r.stage) : m'.order.RootsExcept L X := by
  obtain ⟨r', o₁, o₂, hr', -, -, -, ho₁, ho₂, rfl⟩ := replaceStageInput_ok h
  rw [hr] at hr'
  cases hr'
  refine ((Graph.linkInput_roots ho₂ (Graph.unlinkInput_roots ho₁ hm.reset)).updateInitial hs).mono fun x => ?_
  tauto

theorem replaceStageOutput_roots (h : m.replaceStageOutput e d = .ok m') (hm : m.order.RootsExcept L X)
    (hL : ∀ p c, 0 < (m.order.prevStages c).get p → L c) : m'.order.RootsExcept L X := by
  obtain ⟨r, o₁, o₂, -, -, -, -, -, ho₁, ho₂, rfl⟩ := replaceStageOutput_ok h
  have h₁ := Graph.unlinkConsumers_updateInitial_roots ho₁ hm.reset fun c => hL r.stage c
  exact (Graph.linkConsumers_roots ho₂ h₁).mono fun x hx => hx.1

/-- A stage that comes after another is listed. -/
theorem Inv.listed_of_pos (hm : m.Inv) (hl : m.Listed) {p c : StageId} (h : 0 < (m.order.prevStages c).get p) :
    c ∈ m.graph.stagePtrList := by
  rw [hl.mem_iff]
  constructor
  · by_contra hc
    -- a stage that does not exist reads nothing
    have hzero : m.graph.dataflow.edges p c = 0 := by
      refine Dataflow.edges_eq_zero_of_consumer fun d hd => hc ?_
      obtain ⟨e, -, he⟩ := List.mem_filterMap.mp hd
      obtain ⟨r, hr, rfl⟩ := Option.map_eq_some_iff.mp he
      exact hm.wf.inStage e r hr
    have := (hm.counts p c).2
    omega
  · by_contra hc
    have := hm.idle c hc p
    omega

/-! ### Adding stages -/

theorem addEdges_roots {inputs outputs : List DataId} (h : m.addEdges s inputs outputs = .ok m')
    (hm : m.order.RootsExcept L (· = s)) (hs : L s) (hin : inputs ≠ []) :
    m'.order.RootsExcept L fun _ => False := by
  unfold addEdges at h
  rw [bind_ok_iff] at h
  obtain ⟨m₁, h₁, h₂⟩ := h
  have hroots : m₁.order.RootsExcept L fun x => x = s ∧ inputs = [] := by
    refine foldlM_ok_induct (I := fun pre (m₁ : Model) => m₁.order.RootsExcept L fun x => x = s ∧ pre = []) h₁
      (hm.mono fun x hx => ⟨hx, rfl⟩) ?_
    rintro pre d post m₂ m₃ - hm₂ h₃
    obtain ⟨r, hr, rfl⟩ := map_ok_iff.mp h₃
    refine (addStageInput_roots hr hm₂ hs).mono fun x => ?_
    tauto
  refine foldlM_ok_induct (I := fun _ (m₁ : Model) => m₁.order.RootsExcept L fun _ => False) h₂
    (hroots.mono fun x hx => hin hx.2) ?_
  rintro pre d post m₂ m₃ - hm₂ h₃
  obtain ⟨r, hr, rfl⟩ := map_ok_iff.mp h₃
  exact addStageOutput_roots hr hm₂

/-- The new stage is not listed yet. -/
theorem createStage_roots (hroots : m.Rooted) (category : StageCategory) :
    (m.createStage category).order.RootsExcept
      (fun x => x ∈ m.graph.stagePtrList ∨ x = m.graph.nextStage) (· = m.graph.nextStage) := by
  intro x hx
  show x ∈ m.order.initialStages ↔
    _ ∧ (m.order.reset.addStage m.graph.nextStage).IsRoot x
  rw [hroots x not_false]
  have hroot : (m.order.reset.addStage m.graph.nextStage).IsRoot x ↔ m.order.IsRoot x := by
    unfold StageOrder.IsRoot
    simp only [StageOrder.addStage, StageOrder.reset, Function.update_of_ne hx]
  rw [hroot]
  tauto

theorem createStage_listed (hm : m.Inv) (hl : m.Listed) (category : StageCategory) :
    m.graph.nextStage ∉ m.graph.stagePtrList ∧
      ∀ s, s ∈ m.graph.stagePtrList ++ [m.graph.nextStage] ↔
        ((m.createStage category).graph.stage s).isSome ∧ (m.createStage category).graph.parentStage s = none := by
  have hnone := stage_nextStage hm.toInvExcept
  have hnot : m.graph.nextStage ∉ m.graph.stagePtrList := by
    rw [hl.mem_iff, hnone]
    simp
  refine ⟨hnot, fun s => ?_⟩
  rw [show (m.createStage category).graph = m.graph.addStage category from rfl,
    parentStage_addStage hm.toInvExcept, List.mem_append, List.mem_singleton, hl.mem_iff]
  show _ ↔ (Function.update m.graph.stage m.graph.nextStage _ s).isSome ∧ _
  by_cases hs : s = m.graph.nextStage
  · subst hs
    simp [Graph.parentStage, hnone]
  · rw [Function.update_of_ne hs]
    simp [hs]

theorem addNewStage_roots {category : StageCategory} {inputs outputs : List DataId} (hm : m.Inv) (hl : m.Listed)
    (hroots : m.Rooted) (h : m.addNewStage category inputs outputs = .ok m') : m'.Listed ∧ m'.Rooted := by
  obtain ⟨m₁, hin, h₁, rfl⟩ := addNewStage_ok h
  obtain ⟨hnot, hmem⟩ := createStage_listed hm hl category
  have hsame := (addEdges_inv (createStage_inv hm category) h₁).2
  have hlist : (m₁.listStage m.graph.nextStage).graph.stagePtrList = m.graph.stagePtrList ++ [m.graph.nextStage] :=
    congrArg (· ++ [m.graph.nextStage]) hsame.stagePtrList
  refine ⟨⟨?_, fun s => ?_⟩, ?_⟩
  · rw [hlist, ← List.concat_eq_append]
    exact hl.nodup.concat hnot
  · rw [hlist, hmem, ← hsame.parentStage, ← hsame.stage]
    rfl
  · have := addEdges_roots h₁ (createStage_roots hroots category) (.inr rfl) hin
    unfold Rooted
    rw [hlist, show (m₁.listStage m.graph.nextStage).order = m₁.order from rfl]
    simpa only [List.mem_append, List.mem_singleton] using this

theorem duplicateStage_roots {inputs outputs : List DataId} (hm : m.Inv) (hl : m.Listed) (hroots : m.Rooted)
    (h : m.duplicateStage s inputs outputs = .ok m') : m'.Listed ∧ m'.Rooted := by
  obtain ⟨n, m₁, m₂, hin, h₁, h₂, rfl⟩ := duplicateStage_ok h
  obtain ⟨hnot, hmem⟩ := createStage_listed hm hl n.category
  obtain ⟨hinv₁, hsame₁⟩ := addEdges_inv (insertInitial_inv (createStage_inv hm n.category) _) h₁
  obtain ⟨-, hsame₂, horder⟩ := copyTempBuffers_inv hinv₁ h₂
  have hsame := hsame₁.trans hsame₂
  have hlist : (m₂.listStage m.graph.nextStage).graph.stagePtrList = m.graph.stagePtrList ++ [m.graph.nextStage] :=
    congrArg (· ++ [m.graph.nextStage]) hsame.stagePtrList
  refine ⟨⟨?_, fun s => ?_⟩, ?_⟩
  · rw [hlist, ← List.concat_eq_append]
    exact hl.nodup.concat hnot
  · rw [hlist, hmem]
    show _ ↔ (m₂.graph.stage s).isSome ∧ m₂.graph.parentStage s = none
    rw [hsame.parentStage, hsame.stage]
    rfl
  · have hnew : ((m.createStage n.category).insertInitial m.graph.nextStage).order.RootsExcept
        (fun x => x ∈ m.graph.stagePtrList ∨ x = m.graph.nextStage) (· = m.graph.nextStage) := by
      intro x hx
      exact (Finset.mem_insert.trans (or_iff_right hx)).trans (createStage_roots hroots n.category x hx)
    have := addEdges_roots h₁ hnew (.inr rfl) hin
    unfold Rooted
    rw [hlist, show (m₂.listStage m.graph.nextStage).order = m₁.order from horder]
    simpa only [List.mem_append, List.mem_singleton] using this

/-! ### Injections -/

theorem redirectInputs_roots {l : List EdgeId} (h : l.foldlM (redirectInput parent) m = .ok m')
    (hstage : ∀ x ∈ l, ∃ r, m.graph.inputs.edge x = some r ∧ r.stage = child)
    (hfresh : ∀ x r, m.graph.inputs.edge x = some r → x < m.graph.inputs.nextEdge)
    (hm : m.order.RootsExcept L (· = child)) (hp : L parent) : m'.order.RootsExcept L (· = child) := by
  -- the edges of the child stay its edges, and a new edge has a new number
  refine (foldlM_ok_induct (I := fun _ (m₁ : Model) =>
    (∀ x ∈ l, (m₁.graph.inputs.edge x).map PortEdge.stage = some child ∧ x < m₁.graph.inputs.nextEdge) ∧
    m₁.order.RootsExcept L (· = child)) h ⟨fun x hx => ?_, hm⟩ ?_).2
  · obtain ⟨r, hr, hst⟩ := hstage x hx
    exact ⟨by rw [hr, Option.map_some, hst], hfresh x r hr⟩
  · rintro pre e post m₁ m₂ hl ⟨hkeep, hm₁⟩ h₁
    obtain ⟨r, o, o', hr, ho, -, ho', rfl⟩ := redirectInput_ok h₁
    have hst : r.stage = child := by
      have := (hkeep e (by rw [hl]; simp)).1
      rwa [hr, Option.map_some, Option.some_inj] at this
    refine ⟨fun x hx => ?_, ?_⟩
    · obtain ⟨hsx, hlt⟩ := hkeep x hx
      show (((m₁.graph.inputs.add parent r.data).tie e m₁.graph.inputs.nextEdge).edge x).map PortEdge.stage = _ ∧
        x < m₁.graph.inputs.nextEdge + 1
      rw [Ports.stage_tie, Ports.edge_add, if_neg (Nat.ne_of_lt hlt)]
      exact ⟨hsx, Nat.lt_succ_of_lt hlt⟩
    · refine ((Graph.linkInput_roots ho' (Graph.unlinkInput_roots ho hm₁).reset).updateInitial hp).mono fun x => ?_
      rw [hst]
      tauto

theorem redirectOutputs_roots {l : List EdgeId} (h : l.foldlM (redirectOutput parent) m = .ok m')
    (hm : m.order.RootsExcept L X) : m'.order.RootsExcept L X := by
  refine foldlM_ok_induct (I := fun _ (m₁ : Model) => m₁.order.RootsExcept L X) h hm ?_
  rintro - e - m₁ m₂ - hm₁ h₁
  obtain ⟨r, o, o', -, ho, -, ho', rfl⟩ := redirectOutput_ok h₁
  -- the same stages read the data before and after
  refine (Graph.linkConsumers_roots ho' (Graph.unlinkConsumers_roots ho hm₁).1.reset).mono fun x hx => ?_
  exact hx.1.resolve_right hx.2

theorem injectStage_roots (hm : m.Inv) (hl : m.Listed) (hroots : m.Rooted)
    (h : m.injectStage parent child = .ok m') : m'.Listed ∧ m'.Rooted := by
  obtain ⟨-, hlist, hstage, hpar⟩ := injectStage_inv hm h
  obtain ⟨nc, m₁, m₂, m₃, hne, hp, hnc, -, htop, hchild, h₁, h₂, h₃, -, rfl⟩ := injectStage_ok h
  have hplist : parent ∈ m.graph.stagePtrList := (hl.mem_iff parent).mpr ⟨hp, htop⟩
  refine ⟨⟨?_, fun s => ?_⟩, ?_⟩
  · rw [hlist]
    exact hl.nodup.erase child
  · rw [hlist, hstage, hpar, hl.nodup.mem_erase_iff, hl.mem_iff]
    by_cases hs : s = child <;> simp [hs]
  · have hm₁ : m₁.order.RootsExcept (· ∈ m.graph.stagePtrList) (· = child) := by
      refine redirectInputs_roots h₁ ?_ hm.wf.inputs.fresh ?_ hplist
      · exact fun x hx => hm.wf.inputs.edge_of_mem hx
      · exact hroots.mono fun _ hx => hx.elim
    have hm₂ := redirectOutputs_roots h₂ hm₁
    have horder : m₃.order = m₂.order := by
      refine foldlM_ok_induct (I := fun _ (m₃ : Model) => m₃.order = m₂.order) h₃ rfl ?_
      rintro - e - m₄ m₅ - h₄ h₅
      obtain ⟨r, rfl⟩ := redirectTempBuffer_ok h₅
      exact h₄
    have hm₃ : m₃.order.RootsExcept (· ∈ m.graph.stagePtrList) (· = child) := horder ▸ hm₂
    have hm₄ : (m₃.order.eraseInitial child).RootsExcept (· ∈ m.graph.stagePtrList.erase child) fun _ => False := by
      intro x _
      show x ∈ m₃.order.initialStages.erase child ↔ x ∈ m.graph.stagePtrList.erase child ∧ m₃.order.IsRoot x
      rw [Finset.mem_erase, hl.nodup.mem_erase_iff]
      by_cases hx : x = child
      · simp [hx]
      · rw [hm₃ x hx]
        simp [hx]
    unfold Rooted
    rw [hlist]
    refine (hm₄.updateInitial ?_).mono fun _ hx => hx.1
    rw [hl.nodup.mem_erase_iff]
    exact ⟨hne, hplist⟩

theorem revertInputs_roots (h : m.revertInputs parent child = .ok m')
    (hstage : ∀ q ∈ m.graph.inputs.ports parent, ∃ r, m.graph.inputs.edge q = some r ∧ r.stage = parent)
    (hm : m.order.RootsExcept L fun x => x = parent ∨ x = child) :
    m'.order.RootsExcept L fun x => x = parent ∨ x = child := by
  simp only [revertInputs, bind_ok_iff, pure_ok_iff] at h
  obtain ⟨⟨startInd, endInd, m₁⟩, h₁, -, -, rfl⟩ := h
  refine (revertEdges_induct (J := fun m₂ =>
    (∀ q ∈ m.graph.inputs.ports parent, ∀ r, m₂.graph.inputs.edge q = some r → r.stage = parent) ∧
    m₂.order.RootsExcept L fun x => x = parent ∨ x = child) ?_ ⟨fun q hq r hr => ?_, hm⟩ h₁).2
  · rintro m₂ q rq e r m₃ ⟨hkeep, hm₂⟩ hq hrq - hr hst h₂
    obtain ⟨o, o', ho, ho', rfl⟩ := revertInput_ok h₂
    refine ⟨fun x hx rx hrx => ?_, ?_⟩
    · replace hrx : (m₂.graph.inputs.release q e).edge x = some rx := hrx
      rw [Ports.edge_release hr] at hrx
      split_ifs at hrx with hxq hxe
      · cases hrx
        exact hkeep x hx r (hxe ▸ hr)
      · exact hkeep x hx rx hrx
    · refine (Graph.linkInput_roots ho' (Graph.unlinkInput_roots ho hm₂)).mono fun x => ?_
      rw [hkeep q hq rq hrq, hst]
      tauto
  · obtain ⟨r', hr', hst⟩ := hstage q hq
    rw [hr] at hr'
    cases hr'
    exact hst

theorem revertOutputs_roots (h : m.revertOutputs parent child = .ok m') (hm : m.order.RootsExcept L X)
    (hdata : ∀ q rq e r, m.graph.outputs.edge q = some rq → rq.childEdge = some e → m.graph.outputs.edge e = some r →
      rq.data = r.data) : m'.order.RootsExcept L X := by
  simp only [revertOutputs, bind_ok_iff, pure_ok_iff] at h
  obtain ⟨⟨startInd, endInd, m₁⟩, h₁, -, -, rfl⟩ := h
  refine (revertEdges_induct (J := fun m₂ => (∀ q rq e r, m₂.graph.outputs.edge q = some rq →
    rq.childEdge = some e → m₂.graph.outputs.edge e = some r → rq.data = r.data) ∧
    m₂.order.RootsExcept L X) ?_ ⟨hdata, hm⟩ h₁).2
  rintro m₂ q rq e r m₃ ⟨hkeep, hm₂⟩ - hrq hc hr - h₂
  obtain ⟨o, o', ho, ho', rfl⟩ := revertOutput_ok h₂
  constructor
  · have hold : ∀ x rx, (m₂.graph.outputs.release q e).edge x = some rx →
        ∃ r', m₂.graph.outputs.edge x = some r' ∧ rx.data = r'.data ∧ rx.childEdge = r'.childEdge := by
      intro x rx hrx
      rw [Ports.edge_release hr] at hrx
      split_ifs at hrx with hxq hxe
      · cases hrx
        exact ⟨r, hxe ▸ hr, rfl, rfl⟩
      · exact ⟨rx, hrx, rfl, rfl⟩
    intro x rx y ry hx hcx hy
    obtain ⟨rx', hx', hdx, hcx'⟩ := hold x rx hx
    obtain ⟨ry', hy', hdy, -⟩ := hold y ry hy
    rw [hdx, hdy]
    exact hkeep x rx' y ry' hx' (hcx' ▸ hcx) hy'
  · -- the data that `parent` no longer writes is the one that `child` writes again
    obtain ⟨hroots, hnot⟩ := Graph.unlinkConsumers_roots ho hm₂
    rw [hkeep q rq e r hrq hc hr] at hroots hnot
    exact Graph.linkConsumers_roots_of_notMem ho' hroots hnot

theorem revertInjection_roots {i : StageEdgeId} (hm : m.Inv) (hl : m.Listed) (hroots : m.Rooted)
    (h : m.revertInjection i = .ok m') : m'.Listed ∧ m'.Rooted := by
  obtain ⟨parent, child, nc, m₁, m₂, m₃, hi, hnc, -, h₁, h₂, h₃, hreq⟩ := revertInjection_ok h
  obtain ⟨-, hinj, hlist, hstage, hpar⟩ := revertInjection_inv hm h hi
  have htop : m.graph.parentStage parent = none := hm.injections.top child parent hinj
  have hplist : parent ∈ m.graph.stagePtrList := by
    obtain ⟨n, j, r, hn, hj, hr, rfl⟩ := Graph.parentStage_eq_some_iff.mp hinj
    obtain ⟨-, np, hnp, -⟩ := hm.injections.child child n j r hn hj hr
    exact (hl.mem_iff _).mpr ⟨by rw [hnp]; rfl, htop⟩
  have hchild : child ∉ m.graph.stagePtrList := by
    rw [hl.mem_iff, hinj]
    simp
  refine ⟨⟨?_, fun s => ?_⟩, ?_⟩
  · rw [hlist, ← List.concat_eq_append]
    exact hl.nodup.concat hchild
  · rw [hlist, hstage, hpar, List.mem_append, List.mem_singleton, hl.mem_iff]
    by_cases hs : s = child
    · simp [hs, hnc]
    · simp [hs]
  · have hm₀ : m.order.reset.RootsExcept (· ∈ m.graph.stagePtrList ++ [child]) fun x => x = parent ∨ x = child := by
      intro x hx
      rw [not_or] at hx
      show x ∈ m.order.initialStages ↔ x ∈ m.graph.stagePtrList ++ [child] ∧ m.order.IsRoot x
      rw [List.mem_append, List.mem_singleton, or_iff_left hx.2]
      exact hroots x not_false
    have hm₁ := revertInputs_roots h₁ (fun q hq => hm.wf.inputs.edge_of_mem hq) hm₀
    have hout₁ : m₁.graph.outputs = m.graph.outputs := by
      simp only [revertInputs, bind_ok_iff, pure_ok_iff] at h₁
      obtain ⟨⟨startInd, endInd, m₄⟩, h₄, -, -, rfl⟩ := h₁
      have h₄' : m₄.graph.outputs = m.graph.outputs := by
        refine revertEdges_induct (J := fun m₄ => m₄.graph.outputs = m.graph.outputs) ?_ ?_ h₄
        · rintro m₅ q rq e r m₆ h₅ - - - - - h₆
          obtain ⟨o, o', -, -, rfl⟩ := revertInput_ok h₆
          exact h₅
        · rfl
      exact h₄'
    have hm₂ := revertOutputs_roots h₂ hm₁ (by
      intro q rq e r hq hc he
      rw [hout₁] at hq he
      obtain ⟨r', he', -, -, hd, -⟩ := hm.wf.outputs.tied hq hc
      rw [he] at he'
      cases he'
      exact hd)
    have horder : m₃.order = m₂.order := by
      simp only [revertTempBuffers, bind_ok_iff] at h₃
      obtain ⟨⟨startInd, endInd, m₄⟩, h₄, h₃⟩ := h₃
      have h₄' : m₄.order = m₂.order := by
        refine revertEdges_induct (J := fun m₄ => m₄.order = m₂.order) ?_ rfl h₄
        rintro m₅ q rq e r m₆ h₅ - - - - - h₆
        cases h₆
        exact h₅
      split at h₃
      · obtain ⟨-, h₃⟩ := ieAssert_bind_ok_iff.mp h₃
        cases h₃
        exact h₄'
      · cases h₃
        exact h₄'
    unfold Rooted
    rw [hlist, hreq]
    have hm₃ : m₃.order.RootsExcept (· ∈ m.graph.stagePtrList ++ [child]) fun x => x = parent ∨ x = child :=
      horder ▸ hm₂
    refine ((hm₃.updateInitial (s := parent) ?_).updateInitial (s := child) ?_).mono fun x => ?_
    · exact List.mem_append_left _ hplist
    · exact List.mem_append_right _ (List.mem_singleton.mpr rfl)
    · tauto

/-! ### Taking a stage out -/

/-- Only counters of `s` are lowered. -/
structure Frame (o o' : StageOrder) (s : StageId) : Prop where
  initialStages : o'.initialStages = o.initialStages
  prevStages : ∀ c p, c ≠ s → p ≠ s → (o'.prevStages c).get p = (o.prevStages c).get p

theorem Frame.refl (o : StageOrder) (s : StageId) : Frame o o s := ⟨rfl, fun _ _ _ _ => rfl⟩

theorem Frame.trans {o o' o'' : StageOrder} (h : Frame o o' s) (h' : Frame o' o'' s) : Frame o o'' s :=
  ⟨h'.initialStages.trans h.initialStages, fun c p hc hp => (h'.prevStages c p hc hp).trans (h.prevStages c p hc hp)⟩

theorem Frame.unlink {o o' : StageOrder} {p c : StageId} (h : o.unlink p c = .ok o') (hs : p = s ∨ c = s) :
    Frame o o' s := by
  refine ⟨StageOrder.initialStages_unlink h, fun c' p' hc hp => ?_⟩
  rw [StageOrder.get_prevStages_unlink h]
  rcases hs with rfl | rfl
  · simp [hp]
  · simp [hc]

theorem disconnectInput_frame (h : m.disconnectInput e = .ok m')
    (hs : ∀ r, m.graph.inputs.edge e = some r → r.stage = s) : Frame m.order m'.order s := by
  obtain ⟨r, o, hr, ho, rfl⟩ := disconnectInput_ok h
  rcases Graph.unlinkInput_cases ho with ⟨-, rfl⟩ | ⟨p, -, ho⟩
  · exact .refl _ s
  · exact .unlink ho (.inr (hs r hr))

theorem disconnectOutput_frame (h : m.disconnectOutput e = .ok m')
    (hs : ∀ r, m.graph.outputs.edge e = some r → r.stage = s) : Frame m.order m'.order s := by
  obtain ⟨r, o, hr, ho, rfl⟩ := disconnectOutput_ok h
  refine foldlM_ok_induct (I := fun _ o => Frame m.order o s) ho (.refl _ s) ?_
  rintro - e' - o₁ o₂ - hf h₁
  obtain ⟨r', o₃, -, h₃, rfl⟩ := Graph.unlinkConsumer_ok h₁
  exact hf.trans (.unlink h₃ (.inl (hs r hr)))

theorem disconnectStage_frame (hm : m.Inv) (h : m.disconnectStage s = .ok m') : Frame m.order m'.order s := by
  unfold disconnectStage at h
  simp only [bind_ok_iff, pure_ok_iff] at h
  obtain ⟨-, -, m₁, h₁, m₂, h₂, m₃, h₃, rfl⟩ := h
  -- the edges of the lists are edges of `s` as long as they exist
  have hf₁ : (∀ x ∈ m.graph.inputs.ports s, ∀ r, m₁.graph.inputs.edge x = some r → r.stage = s) ∧
      m₁.graph.outputs = m.graph.outputs ∧ Frame m.order m₁.order s := by
    refine foldlM_ok_induct (I := fun _ (m₁ : Model) =>
      (∀ x ∈ m.graph.inputs.ports s, ∀ r, m₁.graph.inputs.edge x = some r → r.stage = s) ∧
      m₁.graph.outputs = m.graph.outputs ∧ Frame m.order m₁.order s) h₁
      ⟨fun x hx r hr => ?_, rfl, ⟨rfl, fun _ _ _ _ => rfl⟩⟩ ?_
    · obtain ⟨r', hr', hst⟩ := hm.wf.inputs.edge_of_mem hx
      rw [show ({ m with order := m.order.reset } : Model).graph = m.graph from rfl, hr'] at hr
      cases hr
      exact hst
    · rintro pre e post m₄ m₅ hl ⟨hkeep, hout, hf⟩ h₅
      have hf' := disconnectInput_frame (s := s) h₅ (hkeep e (by
        rw [show m.graph.inputs.ports s = pre ++ e :: post from hl]
        simp))
      obtain ⟨r, o, hr, -, rfl⟩ := disconnectInput_ok h₅
      refine ⟨fun x hx rx hrx => ?_, hout, hf.trans hf'⟩
      replace hrx : (m₄.graph.inputs.erase e).edge x = some rx := hrx
      rw [Ports.edge_erase] at hrx
      split_ifs at hrx
      exact hkeep x hx rx hrx
  obtain ⟨-, hout₁, hf₁⟩ := hf₁
  have hf₂ : (∀ x ∈ m₁.graph.outputs.ports s, ∀ r, m₂.graph.outputs.edge x = some r → r.stage = s) ∧
      Frame m₁.order m₂.order s := by
    refine foldlM_ok_induct (I := fun _ (m₂ : Model) =>
      (∀ x ∈ m₁.graph.outputs.ports s, ∀ r, m₂.graph.outputs.edge x = some r → r.stage = s) ∧
      Frame m₁.order m₂.order s) h₂ ⟨fun x hx r hr => ?_, .refl _ s⟩ ?_
    · replace hr : m₁.graph.outputs.edge x = some r := hr
      rw [hout₁] at hx hr
      obtain ⟨r', hr', hst⟩ := hm.wf.outputs.edge_of_mem hx
      rw [hr'] at hr
      cases hr
      exact hst
    · rintro pre e post m₄ m₅ hl ⟨hkeep, hf⟩ h₅
      have hf' := disconnectOutput_frame (s := s) h₅ (hkeep e (by
        rw [show m₁.graph.outputs.ports s = pre ++ e :: post from hl]
        simp))
      obtain ⟨r, o, hr, -, rfl⟩ := disconnectOutput_ok h₅
      refine ⟨fun x hx rx hrx => ?_, hf.trans hf'⟩
      replace hrx : (m₄.graph.outputs.erase e).edge x = some rx := hrx
      rw [Ports.edge_erase] at hrx
      split_ifs at hrx
      exact hkeep x hx rx hrx
  have horder : m₃.order = m₂.order := by
    refine foldlM_ok_induct (I := fun _ (m₃ : Model) => m₃.order = m₂.order) h₃ rfl ?_
    rintro - e - m₄ m₅ - h₄ h₅
    obtain ⟨r, rfl⟩ := disconnectTempBuffer_ok h₅
    exact h₄
  show Frame m.order m₃.order s
  rw [horder]
  exact hf₁.trans hf₂.2

end Model

/-! ### Runs -/

/-- Every stage that comes after `s` also comes after another stage. -/
def KeepsProducers (m : Model) (s : StageId) : Prop :=
  ∀ c, c ≠ s → ((m.order.nextStages s).find? c).isSome → ∃ p, p ≠ s ∧ ((m.order.prevStages c).find? p).isSome

/-- Inputs are added to and replaced in listed stages, and a stage that is disconnected or removed takes no
part in an injection and leaves each stage after it another producer; one that is only disconnected is a root. -/
def RootsKept (m : Model) : EditOp → Prop
  | .addStageInput s _ => s ∈ m.graph.stagePtrList
  | .replaceStageInput e _ => ∀ r, m.graph.inputs.edge e = some r → r.stage ∈ m.graph.stagePtrList
  | .disconnectStage s => m.graph.Apart s ∧ KeepsProducers m s ∧ (m.order.prevStages s).isEmpty
  | .removeStage s => m.graph.Apart s ∧ KeepsProducers m s
  | _ => True

theorem RootsKept.outsideInjections {m : Model} {op : EditOp} (h : RootsKept m op) : OutsideInjections m op := by
  cases op with
  | disconnectStage s => exact h.1
  | removeStage s => exact h.1
  | _ => trivial

namespace Model

variable {m m' : Model} {s : StageId}

/-- The stages after a disconnected stage are no roots when they keep a producer. -/
theorem disconnectStage_isRoot (hm : m.Inv) (hs : m.graph.Apart s) (hkeep : KeepsProducers m s)
    (h : m.disconnectStage s = .ok m') {c : StageId} (hc : c ≠ s) : m'.order.IsRoot c ↔ m.order.IsRoot c := by
  have hframe := disconnectStage_frame hm h
  have hinv := (disconnectStage_inv hm hs h).1
  have hout := (disconnectStage_inv hm hs h).2.2.1
  -- nothing comes after a stage without outputs
  have hzero : (m'.order.prevStages c).get s = 0 := by
    rw [(hinv.counts s c).2]
    refine Dataflow.edges_eq_zero_of_producer fun d hd => ?_
    obtain ⟨r, hr, hst⟩ := Option.map_eq_some_iff.mp hd
    obtain ⟨o, -, ho⟩ := Option.bind_eq_some_iff.mp hr
    have hmem := hinv.wf.outputs.mem_of_edge (show m'.graph.outputs.edge o = some r from ho)
    rw [hst, hout] at hmem
    cases hmem
  constructor
  · intro hroot p
    by_cases hps : p = s
    · subst hps
      by_contra hpos
      have hnext : ((m.order.nextStages p).find? c).isSome := by
        rw [Counter.isSome_find?_iff, (hm.counts p c).1, ← (hm.counts p c).2]
        have := Counter.get_nonneg (m.order.prevStages c) p
        omega
      obtain ⟨q, hq, hqc⟩ := hkeep c hc hnext
      rw [Counter.isSome_find?_iff, ← hframe.prevStages c q hc hq, hroot q] at hqc
      omega
    · rw [← hframe.prevStages c p hc hps]
      exact hroot p
  · intro hroot p
    by_cases hps : p = s
    · subst hps
      exact hzero
    · rw [hframe.prevStages c p hc hps]
      exact hroot p

theorem disconnectStage_roots (hm : m.Inv) (hroots : m.Rooted) (hs : m.graph.Apart s) (hkeep : KeepsProducers m s)
    (h : m.disconnectStage s = .ok m') :
    m'.order.RootsExcept (· ∈ m.graph.stagePtrList) (· = s) := by
  intro c hc
  rw [(disconnectStage_frame hm h).initialStages, disconnectStage_isRoot hm hs hkeep h hc]
  exact hroots c not_false

end Model

structure RootInv (m : Model) : Prop where
  inv : m.Inv
  listed : m.Listed
  rooted : m.Rooted

/-- What an operation that does not change the stages does to the roots. -/
theorem RootInv.of_same {m m' : Model} {X : StageId → Prop} (hm : RootInv m) (hs : m.graph.SameStages m'.graph)
    (hroots : m'.order.RootsExcept (· ∈ m.graph.stagePtrList) X) (hX : ∀ x, ¬ X x) : m'.Listed ∧ m'.Rooted :=
  ⟨hm.listed.of_same hs, .of_roots hroots hX hs.stagePtrList⟩

theorem exec_roots {m m' : Model} {op : EditOp} (hm : RootInv m) (hop : RootsKept m op) (h : op.exec m = .ok m') :
    m'.Listed ∧ m'.Rooted := by
  cases op with
  | addData usage =>
    cases h
    exact hm.of_same ⟨rfl, rfl, rfl, rfl⟩ hm.rooted fun _ => id
  | setDataEdges d parent children =>
    cases h
    exact hm.of_same ⟨rfl, rfl, rfl, rfl⟩ hm.rooted fun _ => id
  | addNewStage category inputs outputs => exact Model.addNewStage_roots hm.inv hm.listed hm.rooted h
  | duplicateStage s inputs outputs => exact Model.duplicateStage_roots hm.inv hm.listed hm.rooted h
  | addStageInput s d =>
    obtain ⟨r, hr, rfl⟩ := map_ok_iff.mp h
    have hroots := Model.addStageInput_roots hr hm.rooted hop
    obtain ⟨-, -, o, -, rfl⟩ := Model.addStageInput_ok hr
    exact hm.of_same ⟨rfl, rfl, rfl, rfl⟩ hroots fun _ hx => hx.1
  | addStageOutput s d =>
    obtain ⟨r, hr, rfl⟩ := map_ok_iff.mp h
    have hroots := Model.addStageOutput_roots hr hm.rooted
    obtain ⟨-, -, -, o, -, rfl⟩ := Model.addStageOutput_ok hr
    exact hm.of_same ⟨rfl, rfl, rfl, rfl⟩ hroots fun _ => id
  | addTempBuffer s =>
    obtain rfl := Model.addTempBuffer_ok h
    exact hm.of_same ⟨rfl, rfl, rfl, rfl⟩ hm.rooted fun _ => id
  | replaceStageInput e d =>
    have h' := h
    obtain ⟨r, o₁, o₂, hr, -, -, -, -, -, rfl⟩ := Model.replaceStageInput_ok h'
    exact hm.of_same ⟨rfl, rfl, rfl, rfl⟩ (Model.replaceStageInput_roots h hm.rooted hr (hop r hr)) fun _ => id
  | replaceStageOutput e d =>
    have hroots := Model.replaceStageOutput_roots h hm.rooted fun p c => hm.inv.listed_of_pos hm.listed
    obtain ⟨r, o₁, o₂, -, -, -, -, -, -, -, rfl⟩ := Model.replaceStageOutput_ok h
    exact hm.of_same ⟨rfl, rfl, rfl, rfl⟩ hroots fun _ => id
  | injectStage parent child => exact Model.injectStage_roots hm.inv hm.listed hm.rooted h
  | revertInjection i => exact Model.revertInjection_roots hm.inv hm.listed hm.rooted h
  | disconnectStage s =>
    obtain ⟨hs, hkeep, hroot⟩ := hop
    obtain ⟨hinv, hin, -, hsame⟩ := Model.disconnectStage_inv hm.inv hs h
    refine ⟨hm.listed.of_same hsame, .of_roots (X := fun _ => False) (fun c _ => ?_) (fun _ => id) hsame.stagePtrList⟩
    by_cases hc : c = s
    · -- the stage was a root, and reads nothing now
      subst hc
      have hroot' : m'.order.IsRoot c := by
        intro p
        rw [(hinv.counts p c).2]
        refine Dataflow.edges_eq_zero_of_consumer fun d hd => ?_
        obtain ⟨e, -, he⟩ := List.mem_filterMap.mp hd
        obtain ⟨r, hr, hst⟩ := Option.map_eq_some_iff.mp he
        have hmem := hinv.wf.inputs.mem_of_edge hr
        rw [hst, hin] at hmem
        cases hmem
      rw [(Model.disconnectStage_frame hm.inv h).initialStages, hm.rooted c not_false]
      exact and_congr_right fun _ => iff_of_true (Counter.isEmpty_iff.mp hroot) hroot'
    · exact Model.disconnectStage_roots hm.inv hm.rooted hs hkeep h c hc
  | removeStage s =>
    obtain ⟨hs, hkeep⟩ := hop
    obtain ⟨m₁, h₁, -, rfl⟩ := Model.removeStage_ok h
    obtain ⟨-, -, -, hsame⟩ := Model.disconnectStage_inv hm.inv hs h₁
    have hlist : (m₁.graph.eraseStage s).stagePtrList = m.graph.stagePtrList.erase s :=
      congrArg (List.erase · s) hsame.stagePtrList
    refine ⟨⟨?_, fun t => ?_⟩, fun c _ => ?_⟩
    · show (m₁.graph.eraseStage s).stagePtrList.Nodup
      rw [hlist]
      exact hm.listed.nodup.erase s
    · show t ∈ (m₁.graph.eraseStage s).stagePtrList ↔
        (Function.update m₁.graph.stage s none t).isSome ∧ (m₁.graph.eraseStage s).parentStage t = none
      rw [hlist, hm.listed.nodup.mem_erase_iff, hm.listed.mem_iff, Model.parentStage_eraseStage (by
        rw [hsame.parentStage]
        exact hs.1), hsame.parentStage]
      by_cases ht : t = s
      · simp [ht]
      · simp [ht, hsame.stage]
    · show c ∈ m₁.order.initialStages.erase s ↔ c ∈ (m₁.graph.eraseStage s).stagePtrList ∧ m₁.order.IsRoot c
      rw [hlist, Finset.mem_erase, hm.listed.nodup.mem_erase_iff]
      by_cases hc : c = s
      · simp [hc]
      · rw [Model.disconnectStage_roots hm.inv hm.rooted hs hkeep h₁ c hc]
        simp [hc]

theorem reachable_rootInv {m : Model} (h : (editSystem RootsKept).Reachable m) : RootInv m := by
  refine h.induct (I := RootInv) ?_ ?_
  · rintro m rfl
    refine ⟨Model.inv_empty, ⟨.nil, fun s => by simp⟩, fun x _ => by simp⟩
  · rintro m m' - hm ⟨op, hop, hexec⟩
    obtain ⟨hlisted, hrooted⟩ := exec_roots hm hop hexec
    exact ⟨exec_inv hm.inv hop.outsideInjections hexec, hlisted, hrooted⟩

/-- **The roots are exact**: in every run whose steps meet `RootsKept`, `_initialStages` is the set of the
stages of the list that have no previous stage. -/
theorem roots_exact {m : Model} (h : (editSystem RootsKept).Reachable m) (s : StageId) :
    s ∈ m.order.initialStages ↔ s ∈ m.graph.stagePtrList ∧ (m.order.prevStages s).isEmpty := by
  rw [(reachable_rootInv h).rooted s not_false, Counter.isEmpty_iff]
  rfl

/-- Stage 2 reads from the stages 0 and 1. -/
def twoProducers : List EditOp :=
  [.addData .Input, .addData .Intermediate, .addData .Intermediate, .addData .Output, .addNewStage .HW [0] [1],
    .addNewStage .SHAVE [0] [2], .addNewStage .SHAVE [1, 2] [3]]

/-- Before the first injection every stage is outside injections. -/
theorem Graph.apart_of_stageEdge {g : Graph} (h : g.stageEdge = fun _ => none) (s : StageId) : g.Apart s := by
  have hnone : ∀ t, g.parentStage t = none := by
    intro t
    unfold Graph.parentStage
    rw [h]
    simp
  exact ⟨hnone s, fun c => by simp [hnone c]⟩

theorem roots_exact_oneOfTwoRemoved : ∃ m m', runEdits twoProducers {} = .ok m ∧ m.removeStage 0 = .ok m' ∧
    (2 ∈ m'.order.initialStages ↔ 2 ∈ m'.graph.stagePtrList ∧ (m'.order.prevStages 2).isEmpty) := by
  obtain ⟨m, hm, hedge, hnext, hprev⟩ : ∃ m, runEdits twoProducers {} = .ok m ∧
      (m.graph.stageEdge = fun _ => none) ∧ (m.order.nextStages 0).entries = [(2, 1)] ∧
      (m.order.prevStages 2).entries = [(0, 1), (1, 1)] := ⟨_, rfl, rfl, rfl, rfl⟩
  have hreach : (editSystem RootsKept).Reachable m := by
    refine reachable_of_runEdits (.init rfl) (fun op hop m => ?_) hm
    simp only [twoProducers, List.mem_cons, List.not_mem_nil, or_false] at hop
    rcases hop with rfl | rfl | rfl | rfl | rfl | rfl | rfl <;> trivial
  have hkeep : KeepsProducers m 0 := by
    intro c _ hc
    rw [Counter.find?, hnext, List.lookup_cons] at hc
    have hc2 : c = 2 := by
      by_contra hne
      simp [beq_false_of_ne hne] at hc
    subst hc2
    exact ⟨1, by decide, by rw [Counter.find?, hprev]; rfl⟩
  obtain ⟨m', hm'⟩ : ∃ m', m.removeStage 0 = .ok m' := by
    cases hm
    exact ⟨_, rfl⟩
  exact ⟨m, m', hm, hm', roots_exact (hreach.step ⟨.removeStage 0, ⟨Graph.apart_of_stageEdge hedge 0, hkeep⟩, hm'⟩) 2⟩

/-- Stage 1 reads what stage 0 writes, and stage 0 is removed. -/
def removedProducer : List EditOp :=
  [.addData .Input, .addData .Intermediate, .addData .Output, .addNewStage .HW [0] [1], .addNewStage .SHAVE [1] [2],
    .removeStage 0]

/-- A stage that has lost its last producer to `removeStage` is not among the roots. -/
theorem roots_inexact : ∃ m, (editSystem fun _ _ => True).Reachable m ∧
    1 ∈ m.graph.stagePtrList ∧ (m.order.prevStages 1).isEmpty ∧ 1 ∉ m.order.initialStages := by
  have hrun : ∃ m, runEdits removedProducer {} = .ok m ∧
    1 ∈ m.graph.stagePtrList ∧ (m.order.prevStages 1).isEmpty ∧ 1 ∉ m.order.initialStages :=
    ⟨_, rfl, by decide, by decide, by decide⟩
  obtain ⟨m, hm, hrest⟩ := hrun
  exact ⟨m, reachable_of_runEdits (.init rfl) (fun _ _ _ => trivial) hm, hrest⟩

end OpenVino.Vpu
