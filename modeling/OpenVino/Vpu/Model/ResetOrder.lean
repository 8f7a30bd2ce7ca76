import OpenVino.Vpu.Model.Roots

/-!
# What an edit does to a built order

An operation that changes the graph of the stages sets `_resetStageOrder` before its first change, and the
helpers leave the flag alone (`exec_reset`). They link no injected stage either, so that no stage ever comes
after an injected one: `Model.Silent`, which is kept by every edit (`exec_silent`). Both are read off the
helpers together, as `StageOrder.Quiet`.
-/

namespace OpenVino.Vpu

/-- The flag is as it was, and nothing is linked after the stages of `P`. -/
structure StageOrder.Quiet (P : StageId → Prop) (o o' : StageOrder) : Prop where
  flag : o'.resetStageOrder = o.resetStageOrder
  next_le : ∀ p, P p → ∀ c, (o'.nextStages p).get c ≤ (o.nextStages p).get c

namespace StageOrder.Quiet

variable {P : StageId → Prop} {o o₁ o' : StageOrder} {p c : StageId}

theorem refl : Quiet P o o := ⟨rfl, fun _ _ _ => le_rfl⟩

theorem trans (h : Quiet P o o₁) (h' : Quiet P o₁ o') : Quiet P o o' :=
  ⟨h'.flag.trans h.flag, fun p hp c => (h'.next_le p hp c).trans (h.next_le p hp c)⟩

theorem of_nextStages (hflag : o'.resetStageOrder = o.resetStageOrder) (hnext : o'.nextStages = o.nextStages) :
    Quiet P o o' := by
  refine ⟨hflag, fun p _ c => ?_⟩
  rw [hnext]

theorem link (hp : ¬ P p) : Quiet P o (o.link p c) := by
  refine ⟨rfl, fun q hq c' => ?_⟩
  have hqp : q ≠ p := by
    rintro rfl
    exact hp hq
  simp only [StageOrder.link, Function.update_of_ne hqp]
  exact le_rfl

theorem unlink (h : o.unlink p c = .ok o') : Quiet P o o' := by
  obtain ⟨next, prev, hnext, -, rfl⟩ := unlink_eq_ok_iff.mp h
  refine ⟨rfl, fun q _ c' => ?_⟩
  show (Function.update o.nextStages p next q).get c' ≤ _
  by_cases hqp : q = p
  · subst hqp
    rw [Function.update_self, Counter.get_decr hnext]
    split_ifs <;> omega
  · rw [Function.update_of_ne hqp]

end StageOrder.Quiet

namespace Graph

open StageOrder (Quiet)

variable {g : Graph} {o o' : StageOrder} {s : StageId} {d : DataId} {after : StageOrder → StageId → StageOrder}
  {P : StageId → Prop}

theorem linkInput_quiet (h : g.linkInput s d o = .ok o') (hP : ∀ p, P p → g.parentStage p ≠ none) :
    Quiet P o o' := by
  rcases linkInput_cases h with ⟨-, rfl⟩ | ⟨p, -, rfl, -, hp⟩
  · exact .refl
  · exact .link fun hPp => hP p hPp hp

theorem unlinkInput_quiet (h : g.unlinkInput s d o = .ok o') : Quiet P o o' := by
  rcases unlinkInput_cases h with ⟨-, rfl⟩ | ⟨p, -, h⟩
  · exact .refl
  · exact .unlink h

theorem linkConsumers_quiet (h : g.linkConsumers s d after o = .ok o') (hP : ∀ p, P p → g.parentStage p ≠ none)
    (hafter : ∀ o c, Quiet P o (after o c)) : Quiet P o o' := by
  apply foldlM_ok_induct (I := fun _ (o₁ : StageOrder) => Quiet P o o₁) h .refl
  rintro - e - o₁ o₂ - ho₁ h₁
  obtain ⟨r, -, hs, -, rfl⟩ := linkConsumer_ok h₁
  exact ho₁.trans ((Quiet.link fun hPs => hP s hPs hs).trans (hafter _ _))

theorem unlinkConsumers_quiet (h : g.unlinkConsumers s d after o = .ok o') (hafter : ∀ o c, Quiet P o (after o c)) :
    Quiet P o o' := by
  apply foldlM_ok_induct (I := fun _ (o₁ : StageOrder) => Quiet P o o₁) h .refl
  rintro - e - o₁ o₂ - ho₁ h₁
  obtain ⟨r, o₃, -, h₃, rfl⟩ := unlinkConsumer_ok h₁
  exact ho₁.trans ((Quiet.unlink h₃).trans (hafter _ _))

end Graph

namespace Model

open StageOrder (Quiet)

variable {m m₁ m' : Model} {s parent child : StageId} {d : DataId} {e : EdgeId} {P : StageId → Prop}

/-- The order that was built last is not to be used. -/
def Reset (m : Model) : Prop := m.order.resetStageOrder = true

/-- An edit that has set the flag, linked nothing after the stages of `P` and left the stages as they were. -/
structure Edits (P : StageId → Prop) (m m' : Model) : Prop where
  quiet : Quiet P m.order.reset m'.order
  same : m.graph.SameStages m'.graph

theorem Edits.reset (h : Edits P m m') : m'.Reset := h.quiet.flag

theorem Edits.trans (h : Edits P m m₁) (h' : Edits P m₁ m') : Edits P m m' where
  quiet := ⟨h'.reset, fun p hp c => (h'.quiet.next_le p hp c).trans (h.quiet.next_le p hp c)⟩
  same := h.same.trans h'.same

/-- A step that leaves the flag alone. -/
theorem Edits.tail (h : Edits P m m₁) (hq : Quiet P m₁.order m'.order) (hs : m₁.graph.SameStages m'.graph) :
    Edits P m m' :=
  ⟨h.quiet.trans hq, h.same.trans hs⟩

/-- Nothing has been done yet. -/
theorem Edits.refl (hm : m.Reset) : Edits P m m := ⟨⟨hm, fun _ _ _ => le_rfl⟩, .refl _⟩

theorem Edits.parentStage (h : Edits P m m') (hP : ∀ p, P p → m.graph.parentStage p ≠ none) :
    ∀ p, P p → m'.graph.parentStage p ≠ none := by
  rw [h.same.parentStage]
  exact hP

/-- A loop each of whose rounds edits. -/
theorem edits_foldlM {α : Type} {f : Model → α → Result Model} {l : List α} (h : l.foldlM f m = .ok m')
    (hm : m.Reset) (hstep : ∀ m₁ m₂ a, Edits P m m₁ → f m₁ a = .ok m₂ → Edits P m₁ m₂) : Edits P m m' := by
  apply foldlM_ok_induct (I := fun _ m₁ => Edits P m m₁) h (.refl hm)
  intro _ a _ m₁ m₂ _ hm₁ h₁
  exact hm₁.trans (hstep m₁ m₂ a hm₁ h₁)

/-! ### Adding and replacing edges -/

theorem addStageInput_edits {r : Model × EdgeId} (h : m.addStageInput s d = .ok r)
    (hP : ∀ p, P p → m.graph.parentStage p ≠ none) : Edits P m r.1 := by
  obtain ⟨-, -, o, ho, rfl⟩ := addStageInput_ok h
  exact ⟨(Graph.linkInput_quiet ho hP).trans (.of_nextStages rfl rfl), rfl, rfl, rfl, rfl⟩

theorem addStageOutput_edits {r : Model × EdgeId} (h : m.addStageOutput s d = .ok r)
    (hP : ∀ p, P p → m.graph.parentStage p ≠ none) : Edits P m r.1 := by
  obtain ⟨-, -, -, o, ho, rfl⟩ := addStageOutput_ok h
  exact ⟨Graph.linkConsumers_quiet ho hP fun _ _ => .of_nextStages rfl rfl, rfl, rfl, rfl, rfl⟩

theorem replaceStageInput_edits (h : m.replaceStageInput e d = .ok m')
    (hP : ∀ p, P p → m.graph.parentStage p ≠ none) : Edits P m m' := by
  obtain ⟨r, o₁, o₂, -, -, -, -, ho₁, ho₂, rfl⟩ := replaceStageInput_ok h
  refine ⟨((Graph.unlinkInput_quiet ho₁).trans (Graph.linkInput_quiet ho₂ ?_)).trans (.of_nextStages rfl rfl),
    rfl, rfl, rfl, rfl⟩
  exact hP

theorem replaceStageOutput_edits (h : m.replaceStageOutput e d = .ok m')
    (hP : ∀ p, P p → m.graph.parentStage p ≠ none) : Edits P m m' := by
  obtain ⟨r, o₁, o₂, -, -, -, -, -, ho₁, ho₂, rfl⟩ := replaceStageOutput_ok h
  refine ⟨(Graph.unlinkConsumers_quiet ho₁ fun _ _ => .of_nextStages rfl rfl).trans
    (Graph.linkConsumers_quiet ho₂ ?_ fun _ _ => .of_nextStages rfl rfl), rfl, rfl, rfl, rfl⟩
  exact hP

theorem addEdges_edits {inputs outputs : List DataId} (h : m.addEdges s inputs outputs = .ok m') (hm : m.Reset)
    (hP : ∀ p, P p → m.graph.parentStage p ≠ none) : Edits P m m' := by
  simp only [addEdges, bind_ok_iff] at h
  obtain ⟨m₁, h₁, h₂⟩ := h
  have hinputs : Edits P m m₁ := by
    apply edits_foldlM h₁ hm
    intro m₂ m₃ d hm₂ h₃
    obtain ⟨r, hr, rfl⟩ := map_ok_iff.mp h₃
    exact addStageInput_edits hr (hm₂.parentStage hP)
  refine hinputs.trans (edits_foldlM h₂ hinputs.reset fun m₂ m₃ d hm₂ h₃ => ?_)
  obtain ⟨r, hr, rfl⟩ := map_ok_iff.mp h₃
  exact addStageOutput_edits hr ((hinputs.trans hm₂).parentStage hP)

theorem copyTempBuffers_edits {t : StageId} (h : (m.graph.tempBuffers.ports s).foldlM (fun m₃ e => do
    let _ ← m₃.graph.tempBuffers.getEdge e
    m₃.addTempBuffer t) m = .ok m') (hm : m.Reset) : Edits P m m' := by
  apply edits_foldlM h hm
  intro m₃ m₄ e hm₃ h₃
  rw [bind_ok_iff] at h₃
  obtain ⟨r, -, h₃⟩ := h₃
  rw [addTempBuffer_ok h₃]
  exact (Edits.refl hm₃.reset).tail .refl ⟨rfl, rfl, rfl, rfl⟩

/-! ### Moving the edges of a stage -/

theorem redirects_edits {m₂ m₃ : Model} (hm : m.Reset) (hP : ∀ p, P p → m.graph.parentStage p ≠ none)
    (h₁ : (m.graph.inputs.ports child).foldlM (redirectInput parent) m = .ok m₁)
    (h₂ : (m₁.graph.outputs.ports child).foldlM (redirectOutput parent) m₁ = .ok m₂)
    (h₃ : (m₂.graph.tempBuffers.ports child).foldlM (redirectTempBuffer parent) m₂ = .ok m₃) : Edits P m m₃ := by
  have hm₁ : Edits P m m₁ := by
    apply edits_foldlM h₁ hm
    intro m₄ m₅ e hm₄ h₄
    obtain ⟨r, o, o', -, ho, -, ho', rfl⟩ := redirectInput_ok h₄
    refine ⟨⟨(Graph.linkInput_quiet (P := fun _ => False) ho' fun _ => False.elim).flag, fun p hp c => ?_⟩,
      rfl, rfl, rfl, rfl⟩
    exact ((Graph.linkInput_quiet ho' (hm₄.parentStage hP)).next_le p hp c).trans
      ((Graph.unlinkInput_quiet ho).next_le p hp c)
  have hm₂ : Edits P m m₂ := by
    refine hm₁.trans (edits_foldlM h₂ hm₁.reset fun m₄ m₅ e hm₄ h₄ => ?_)
    obtain ⟨r, o, o', -, ho, -, ho', rfl⟩ := redirectOutput_ok h₄
    refine ⟨⟨(Graph.linkConsumers_quiet (P := fun _ => False) ho' (fun _ => False.elim)
      fun _ _ => .of_nextStages rfl rfl).flag, fun p hp c => ?_⟩, rfl, rfl, rfl, rfl⟩
    exact ((Graph.linkConsumers_quiet ho' ((hm₁.trans hm₄).parentStage hP)
      fun _ _ => .of_nextStages rfl rfl).next_le p hp c).trans
      ((Graph.unlinkConsumers_quiet ho fun _ _ => .refl).next_le p hp c)
  refine hm₂.trans (edits_foldlM h₃ hm₂.reset fun m₄ m₅ e hm₄ h₄ => ?_)
  obtain ⟨r, rfl⟩ := redirectTempBuffer_ok h₄
  exact (Edits.refl hm₄.reset).tail .refl ⟨rfl, rfl, rfl, rfl⟩

theorem revertInputs_edits (h : m.revertInputs parent child = .ok m') (hm : m.Reset)
    (hP : ∀ p, P p → m.graph.parentStage p ≠ none) : Edits P m m' := by
  simp only [revertInputs, bind_ok_iff, pure_ok_iff] at h
  obtain ⟨⟨startInd, endInd, m₁⟩, h₁, -, -, rfl⟩ := h
  suffices hedits : Edits P m m₁ from hedits.tail .refl ⟨rfl, rfl, rfl, rfl⟩
  apply revertEdges_induct (J := Edits P m) _ (.refl hm) h₁
  intro m₂ q rq e r m₃ hm₂ _ _ _ _ _ h₂
  obtain ⟨o, o', ho, ho', rfl⟩ := revertInput_ok h₂
  exact hm₂.tail ((Graph.unlinkInput_quiet ho).trans (Graph.linkInput_quiet ho' (hm₂.parentStage hP)))
    ⟨rfl, rfl, rfl, rfl⟩

theorem revertOutputs_edits (h : m.revertOutputs parent child = .ok m') (hm : m.Reset)
    (hP : ∀ p, P p → m.graph.parentStage p ≠ none) : Edits P m m' := by
  simp only [revertOutputs, bind_ok_iff, pure_ok_iff] at h
  obtain ⟨⟨startInd, endInd, m₁⟩, h₁, -, -, rfl⟩ := h
  suffices hedits : Edits P m m₁ from hedits.tail .refl ⟨rfl, rfl, rfl, rfl⟩
  apply revertEdges_induct (J := Edits P m) _ (.refl hm) h₁
  intro m₂ q rq e r m₃ hm₂ _ _ _ _ _ h₂
  obtain ⟨o, o', ho, ho', rfl⟩ := revertOutput_ok h₂
  exact hm₂.tail ((Graph.unlinkConsumers_quiet ho fun _ _ => .refl).trans
    (Graph.linkConsumers_quiet ho' (hm₂.parentStage hP) fun _ _ => .refl)) ⟨rfl, rfl, rfl, rfl⟩

theorem revertTempBuffers_edits (h : m.revertTempBuffers parent child = .ok m') (hm : m.Reset) : Edits P m m' := by
  simp only [revertTempBuffers, bind_ok_iff] at h
  obtain ⟨⟨startInd, endInd, m₁⟩, h₁, h⟩ := h
  have hm₁ : Edits P m m₁ := by
    apply revertEdges_induct (J := Edits P m) _ (.refl hm) h₁
    intro m₂ q rq e r m₃ hm₂ _ _ _ _ _ h₂
    cases h₂
    exact hm₂.tail .refl ⟨rfl, rfl, rfl, rfl⟩
  by_cases hstart : 0 ≤ startInd
  · simp only [if_pos hstart, bind_ok_iff, pure_ok_iff] at h
    obtain ⟨-, -, rfl⟩ := h
    exact hm₁.tail .refl ⟨rfl, rfl, rfl, rfl⟩
  · simp only [if_neg hstart, pure_ok_iff] at h
    rwa [← h]

theorem disconnectStage_edits (h : m.disconnectStage s = .ok m') : Edits P m m' := by
  simp only [disconnectStage, bind_ok_iff, pure_ok_iff] at h
  obtain ⟨-, -, m₁, h₁, m₂, h₂, m₃, h₃, rfl⟩ := h
  have hm₁ : Edits P { m with order := m.order.reset } m₁ := by
    apply edits_foldlM h₁ rfl
    intro m₄ m₅ e hm₄ h₄
    obtain ⟨r, o, -, ho, rfl⟩ := disconnectInput_ok h₄
    exact (Edits.refl hm₄.reset).tail (Graph.unlinkInput_quiet ho) ⟨rfl, rfl, rfl, rfl⟩
  have hm₂ := edits_foldlM (P := P) h₂ hm₁.reset fun m₄ m₅ e hm₄ h₄ => by
    obtain ⟨r, o, -, ho, rfl⟩ := disconnectOutput_ok h₄
    exact (Edits.refl hm₄.reset).tail (Graph.unlinkConsumers_quiet ho fun _ _ => .refl) ⟨rfl, rfl, rfl, rfl⟩
  have hm₃ := edits_foldlM (P := P) h₃ hm₂.reset fun m₄ m₅ e hm₄ h₄ => by
    obtain ⟨r, rfl⟩ := disconnectTempBuffer_ok h₄
    exact (Edits.refl hm₄.reset).tail .refl ⟨rfl, rfl, rfl, rfl⟩
  refine ⟨⟨hm₃.reset, fun p hp c => ?_⟩, ?_⟩
  · exact (hm₃.quiet.next_le p hp c).trans ((hm₂.quiet.next_le p hp c).trans (hm₁.quiet.next_le p hp c))
  · -- the edges of a stage are no part of `SameStages`
    have hsame₂ : m₁.graph.SameStages m₂.graph :=
      ⟨hm₂.same.stage, hm₂.same.stageEdge, hm₂.same.nextStageEdge, hm₂.same.stagePtrList⟩
    have hsame₃ : m₂.graph.SameStages m₃.graph :=
      ⟨hm₃.same.stage, hm₃.same.stageEdge, hm₃.same.nextStageEdge, hm₃.same.stagePtrList⟩
    have hsame := Graph.SameStages.trans hm₁.same (hsame₂.trans hsame₃)
    exact ⟨hsame.stage, hsame.stageEdge, hsame.nextStageEdge, hsame.stagePtrList⟩

end Model

/-! ### The flag -/

/-- **An edit that changes the graph of the stages sets the flag.** -/
theorem exec_reset {m m' : Model} {op : EditOp} (h : op.exec m = .ok m') :
    m'.Reset ∨ m'.order = m.order ∧ m'.graph.stagePtrList = m.graph.stagePtrList ∧ m'.graph.stage = m.graph.stage := by
  have hnone : ∀ {g : Graph} (p : StageId), False → g.parentStage p ≠ none := fun _ => False.elim
  cases op with
  | addData usage =>
    cases h
    exact .inr ⟨rfl, rfl, rfl⟩
  | setDataEdges d parent children =>
    cases h
    exact .inr ⟨rfl, rfl, rfl⟩
  | addTempBuffer s =>
    rw [Model.addTempBuffer_ok h]
    exact .inr ⟨rfl, rfl, rfl⟩
  | addNewStage category inputs outputs =>
    obtain ⟨m₁, -, h₁, rfl⟩ := Model.addNewStage_ok h
    exact .inl (Model.addEdges_edits h₁ rfl hnone).reset
  | duplicateStage s inputs outputs =>
    obtain ⟨n, m₁, m₂, -, h₁, h₂, rfl⟩ := Model.duplicateStage_ok h
    exact .inl (Model.copyTempBuffers_edits (P := fun _ => False) h₂ (Model.addEdges_edits h₁ rfl hnone).reset).reset
  | addStageInput s d =>
    obtain ⟨r, hr, rfl⟩ := map_ok_iff.mp h
    exact .inl (Model.addStageInput_edits hr hnone).reset
  | addStageOutput s d =>
    obtain ⟨r, hr, rfl⟩ := map_ok_iff.mp h
    exact .inl (Model.addStageOutput_edits hr hnone).reset
  | replaceStageInput e d => exact .inl (Model.replaceStageInput_edits h hnone).reset
  | replaceStageOutput e d => exact .inl (Model.replaceStageOutput_edits h hnone).reset
  | injectStage parent child =>
    obtain ⟨nc, m₁, m₂, m₃, -, -, -, -, -, -, h₁, h₂, h₃, -, rfl⟩ := Model.injectStage_ok h
    exact .inl (Model.redirects_edits (m := ⟨m.graph.addStageEdge parent child, m.order.reset⟩) rfl hnone h₁ h₂ h₃).reset
  | revertInjection i =>
    obtain ⟨parent, child, nc, m₁, m₂, m₃, -, -, -, h₁, h₂, h₃, rfl⟩ := Model.revertInjection_ok h
    have hm₂ := (Model.revertInputs_edits h₁ rfl hnone).trans
      (Model.revertOutputs_edits h₂ (Model.revertInputs_edits h₁ rfl hnone).reset hnone)
    exact .inl (Model.revertTempBuffers_edits (P := fun _ => False) h₃ hm₂.reset).reset
  | disconnectStage s => exact .inl (Model.disconnectStage_edits (P := fun _ => False) h).reset
  | removeStage s =>
    obtain ⟨m₁, h₁, -, rfl⟩ := Model.removeStage_ok h
    exact .inl (Model.disconnectStage_edits (P := fun _ => False) h₁).reset

/-! ### Injected stages -/

/-- No stage comes after an injected one. -/
def Model.Silent (m : Model) : Prop := ∀ p, m.graph.parentStage p ≠ none → ∀ c, (m.order.nextStages p).get c = 0

theorem Model.Silent.of_edits {m m' : Model} (hs : m.Silent) (h : Model.Edits (m.graph.parentStage · ≠ none) m m') :
    m'.Silent := by
  intro p hp c
  rw [h.same.parentStage] at hp
  have hle := h.quiet.next_le p hp c
  have hnonneg := Counter.get_nonneg (m'.order.nextStages p) c
  have hzero : (m.order.reset.nextStages p).get c = 0 := hs p hp c
  omega

theorem Model.createStage_silent {m : Model} (hm : m.Inv) (hs : m.Silent) (category : StageCategory) :
    (m.createStage category).Silent := by
  intro p hp c
  replace hp : (m.graph.addStage category).parentStage p ≠ none := hp
  rw [parentStage_addStage hm.toInvExcept] at hp
  show (Function.update m.order.nextStages m.graph.nextStage .empty p).get c = 0
  by_cases hnew : p = m.graph.nextStage
  · rw [hnew, Function.update_self, Counter.get_empty]
  · rw [Function.update_of_ne hnew]
    exact hs p hp c

/-- **No stage comes after an injected one**, also after an edit. -/
theorem exec_silent {m m' : Model} {op : EditOp} (hm : m.Inv) (hs : m.Silent) (hop : OutsideInjections m op)
    (h : op.exec m = .ok m') : m'.Silent := by
  cases op with
  | addData usage =>
    cases h
    exact hs
  | setDataEdges d parent children =>
    cases h
    exact hs
  | addTempBuffer s =>
    rw [Model.addTempBuffer_ok h]
    exact hs
  | addNewStage category inputs outputs =>
    obtain ⟨m₁, -, h₁, rfl⟩ := Model.addNewStage_ok h
    show m₁.Silent
    exact (Model.createStage_silent hm hs category).of_edits (Model.addEdges_edits h₁ rfl fun _ hp => hp)
  | duplicateStage s inputs outputs =>
    obtain ⟨n, m₁, m₂, -, h₁, h₂, rfl⟩ := Model.duplicateStage_ok h
    have hm₁ : m₁.Silent := Model.Silent.of_edits (m := (m.createStage n.category).insertInitial m.graph.nextStage)
      (Model.createStage_silent hm hs n.category) (Model.addEdges_edits h₁ rfl fun _ hp => hp)
    show m₂.Silent
    exact hm₁.of_edits (Model.copyTempBuffers_edits h₂
      (Model.addEdges_edits (P := fun _ => False) h₁ rfl fun _ => False.elim).reset)
  | addStageInput s d =>
    obtain ⟨r, hr, rfl⟩ := map_ok_iff.mp h
    exact hs.of_edits (Model.addStageInput_edits hr fun _ hp => hp)
  | addStageOutput s d =>
    obtain ⟨r, hr, rfl⟩ := map_ok_iff.mp h
    exact hs.of_edits (Model.addStageOutput_edits hr fun _ hp => hp)
  | replaceStageInput e d => exact hs.of_edits (Model.replaceStageInput_edits h fun _ hp => hp)
  | replaceStageOutput e d => exact hs.of_edits (Model.replaceStageOutput_edits h fun _ hp => hp)
  | injectStage parent child =>
    obtain ⟨⟨hinv, -, -, hpar⟩, hchild⟩ := Model.injectStage_spec hm h
    obtain ⟨nc, m₁, m₂, m₃, hne, -, hnc, -, -, -, h₁, h₂, h₃, -, rfl⟩ := Model.injectStage_ok h
    have hedits := Model.redirects_edits (P := fun p => p ≠ child ∧ m.graph.parentStage p ≠ none)
      (m := ⟨m.graph.addStageEdge parent child, m.order.reset⟩) rfl (by
        rintro p ⟨hpc, hp⟩
        rw [Graph.parentStage_addStageEdge hm.injections hne (by rw [hnc]; rfl), if_neg hpc]
        exact hp) h₁ h₂ h₃
    intro p hp c
    by_cases hpc : p = child
    · rw [(hinv.counts p c).1, hpc]
      exact hchild c
    · rw [hpar, if_neg hpc] at hp
      have hle := hedits.quiet.next_le p ⟨hpc, hp⟩ c
      have hnonneg := Counter.get_nonneg (m₃.order.nextStages p) c
      have hzero : (m.order.nextStages p).get c = 0 := hs p hp c
      show (m₃.order.nextStages p).get c = 0
      simp only [StageOrder.reset] at hle
      omega
  | revertInjection i =>
    obtain ⟨parent, child, nc, m₁, m₂, m₃, hedge, -, -, h₁, h₂, h₃, rfl⟩ := Model.revertInjection_ok h
    obtain ⟨-, -, -, -, hpar⟩ := Model.revertInjection_inv hm h hedge
    have hP : ∀ p, p ≠ child ∧ m.graph.parentStage p ≠ none →
        ((m.listStage child).graph.unlinkStageEdge i parent child).parentStage p ≠ none := by
      rintro p ⟨hpc, hp⟩
      rw [Graph.parentStage_unlinkStageEdge, if_neg hpc]
      exact hp
    have hm₁ := Model.revertInputs_edits h₁ rfl hP
    have hm₂ := hm₁.trans (Model.revertOutputs_edits h₂ hm₁.reset (hm₁.parentStage hP))
    have hm₃ := hm₂.trans (Model.revertTempBuffers_edits h₃ hm₂.reset)
    intro p hp c
    rw [hpar] at hp
    split_ifs at hp with hpc
    · exact absurd rfl hp
    have hle := hm₃.quiet.next_le p ⟨hpc, hp⟩ c
    have hnonneg := Counter.get_nonneg (m₃.order.nextStages p) c
    have hzero : (m.order.nextStages p).get c = 0 := hs p hp c
    show (m₃.order.nextStages p).get c = 0
    simp only [StageOrder.reset] at hle
    omega
  | disconnectStage s => exact hs.of_edits (Model.disconnectStage_edits h)
  | removeStage s =>
    obtain ⟨m₁, h₁, -, rfl⟩ := Model.removeStage_ok h
    have hedits := Model.disconnectStage_edits (P := (m.graph.parentStage · ≠ none)) h₁
    intro p hp c
    replace hp : (m₁.graph.eraseStage s).parentStage p ≠ none := hp
    rw [Model.parentStage_eraseStage (by rw [hedits.same.parentStage]; exact hop.1)] at hp
    exact hs.of_edits hedits p hp c

end OpenVino.Vpu
