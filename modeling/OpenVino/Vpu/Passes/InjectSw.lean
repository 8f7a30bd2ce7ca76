import OpenVino.Vpu.Model.Leaves

/-!
# Injecting SW stages into HW stages

The pass `injectSw` takes the HW stages in their order and tries to inject one SW stage into each. A SW stage
is a candidate when it passes a test of positions (`indexTest`): the producers of whichever of the two stages
stands later all stand before the other. The candidates are injected one after the other, and each injection
is reverted unless the allocator agrees.

The test says enough: in the graph in which the two stages are one there is no cycle (`indexTest_acyclic`). A
reverted injection gives back the graph of the test, so the positions that the next candidates were judged by
are still those of an order (`injectCandidates_safe`). `injectSw_order` is about the whole pass.
-/

namespace OpenVino.Vpu

open Relation

/-- Where the exception that ends the pass comes from. -/
inductive PassFailure
  | buildStageOrder (e : IEException)
  | other (e : IEException)

abbrev PassResult := Except PassFailure

/-- What the pass asks of its surroundings; the allocator is asked several times. -/
structure InjectSwEnv where
  /-- `stage->getSHAVEsRequirements() == StageSHAVEsRequirements::NeedMax` -/
  needMax : StageId → Bool
  /-- `env.config.injectSwOps.hasValue()` -/
  injectSwOps : Bool
  /-- what `runAllocator(model, true)` does after it has the stages: whether its status is `OK` -/
  allocate : Nat → OrderedModel → Result Bool

namespace InjectSw

structure PassState where
  om : OrderedModel
  swStages : List StageId
  /-- the calls of the allocator so far -/
  calls : Nat := 0

/-- A call of `buildStageOrder`. -/
def order (r : OrderedModel × Result Unit) : PassResult OrderedModel :=
  match r.2 with
  | .ok () => .ok r.1
  | .error e => .error (.buildStageOrder e)

def other {α : Type} (r : Result α) : PassResult α :=
  match r with
  | .ok a => .ok a
  | .error e => .error (.other e)

/-- The loop over the producers of the stage with the index `stageInd`, which is a `kind` stage. -/
def producersBefore (kind : String) (om : OrderedModel) (stageInd boundInd : Int) : List StageId → Result Bool
  | [] => .ok true
  | producer :: producers => do
    let producerInd := om.index producer
    ieAssert (kind ++ "ProducerInd >= 0") (0 ≤ producerInd)
    ieAssert (kind ++ "ProducerInd < " ++ kind ++ "Ind") (producerInd < stageInd)
    if boundInd ≤ producerInd then return false
    producersBefore kind om stageInd boundInd producers

/-- The stages of `stage->prevStages()`. -/
def prevStageList (m : Model) (stage : StageId) : List StageId := (m.order.prevStages stage).entries.map Prod.fst

/-- The test that sets `isOK`. -/
def indexTest (om : OrderedModel) (hwStage swStage : StageId) : Result Bool := do
  let hwInd := om.index hwStage
  ieAssert "hwInd >= 0" (0 ≤ hwInd)
  let swInd := om.index swStage
  ieAssert "swInd >= 0" (0 ≤ swInd)
  ieAssert "swInd != hwInd" (swInd ≠ hwInd)
  if hwInd < swInd then producersBefore "sw" om swInd hwInd (prevStageList om.model swStage)
  else producersBefore "hw" om hwInd swInd (prevStageList om.model hwStage)

def swCandidates (om : OrderedModel) (hwStage : StageId) : List StageId → Result (List StageId)
  | [] => .ok []
  | swStage :: swStages => do
    let isOK ← indexTest om hwStage swStage
    let rest ← swCandidates om hwStage swStages
    return if isOK then swStage :: rest else rest

variable (std : StdSort StageId) (nameCmp : StageId → StageId → Bool) (env : InjectSwEnv)

/-- `runAllocator(model, true)`: it begins with `getStages()`. -/
def runAllocator (st : PassState) : PassResult (PassState × Bool) := do
  let om ← order (st.om.buildStageOrder std nameCmp)
  let ok ← other (env.allocate st.calls om)
  return ({ st with om, calls := st.calls + 1 }, ok)

/-- The loop over the candidates. -/
def injectCandidates (hwStage : StageId) : List StageId → PassState → PassResult PassState
  | [], st => .ok st
  | swStage :: rest, st => do
    let edge := st.om.model.graph.nextStageEdge
    let m ← other (st.om.model.injectStage hwStage swStage)
    let (st, ok) ← runAllocator std nameCmp env { st with om := st.om.edited m }
    if ok then return st
    let m ← other (st.om.model.revertInjection edge)
    injectCandidates hwStage rest { st with om := st.om.edited m }

/-- The injected stages are no candidates any more. -/
def eraseInjected (g : Graph) (swStages : List StageId) (injectedStageEdge : StageEdgeId) : Result (List StageId) := do
  let edge ← g.getStageEdge injectedStageEdge
  if edge.child ∈ swStages then return swStages.erase edge.child
  else throwException "swStagesPos"

/-- A round of the loop over the HW stages. -/
def tryMerge (st : PassState) (hwStage : StageId) : PassResult PassState := do
  let om ← order (st.om.buildStageOrder std nameCmp)
  let candidates ← other (swCandidates om hwStage st.swStages)
  let st ← injectCandidates std nameCmp env hwStage candidates { st with om }
  let hwNode ← other (st.om.model.graph.getStage hwStage)
  let swStages ← other (hwNode.injectedStageEdges.foldlM (eraseInjected st.om.model.graph) st.swStages)
  return { st with swStages }

def nMaxStagesForInjectSw : Nat := 30000

def hasCategory (om : OrderedModel) (s : StageId) (category : StageCategory) : Bool :=
  (om.model.graph.stage s).map StageNode.category = some category

/-- `PassImpl::run` -/
def run (om : OrderedModel) : PassResult OrderedModel := do
  if env.injectSwOps = false ∧ nMaxStagesForInjectSw < om.model.graph.stagePtrList.length then return om
  let om ← order (om.buildStageOrder std nameCmp)
  let hwStages := om.orderedStageList.filter fun s => hasCategory om s .HW
  let swStages := om.orderedStageList.filter fun s =>
    (hasCategory om s .DMA || hasCategory om s .SHAVE) && !env.needMax s
  let st ← hwStages.foldlM (tryMerge std nameCmp env) { om, swStages }
  return st.om

/-! ### Passes that end without an exception of `buildStageOrder` -/

/-- `buildStageOrder` has not thrown, and a value has `I`. -/
def Safe {α : Type} (I : α → Prop) : PassResult α → Prop
  | .ok a => I a
  | .error (.buildStageOrder _) => False
  | .error (.other _) => True

section Safe

variable {α β : Type} {I : α → Prop} {J : β → Prop}

theorem Safe.bind {x : PassResult α} {f : α → PassResult β} (hx : Safe I x) (hf : ∀ a, I a → Safe J (f a)) :
    Safe J (x >>= f) := by
  rcases x with (e | e) | a
  · exact hx.elim
  · trivial
  · exact hf a hx

theorem safe_other {r : Result α} (h : ∀ a, r = .ok a → I a) : Safe I (other r) := by
  cases r with
  | error e => trivial
  | ok a => exact h a rfl

theorem safe_foldlM {f : β → α → PassResult β} (hf : ∀ b a, J b → Safe J (f b a)) (l : List α) {b : β} (hb : J b) :
    Safe J (l.foldlM f b) := by
  induction l generalizing b with
  | nil => exact hb
  | cons a l ih =>
    rw [List.foldlM_cons]
    exact (hf b a hb).bind fun b' hb' => ih hb'

theorem Safe.ne_buildStageOrder {x : PassResult α} (h : Safe I x) (e : IEException) :
    x ≠ .error (.buildStageOrder e) := by
  rintro rfl
  exact h

end Safe

/-! ### The test of positions -/

variable {std nameCmp env} {om om' : OrderedModel} {m' : Model} {hw sw : StageId}

theorem producersBefore_true {kind : String} {stageInd boundInd : Int} {l : List StageId}
    (h : producersBefore kind om stageInd boundInd l = .ok true) : ∀ p ∈ l, om.index p < boundInd := by
  induction l with
  | nil => exact fun p hp => absurd hp List.not_mem_nil
  | cons q l ih =>
    unfold producersBefore at h
    simp only [ieAssert_bind_ok_iff] at h
    obtain ⟨-, -, h⟩ := h
    by_cases hq : boundInd ≤ om.index q
    · rw [if_pos hq, pure_ok_iff] at h
      cases h
    · rw [if_neg hq] at h
      intro p hp
      rcases List.mem_cons.mp hp with rfl | hp
      · omega
      · exact ih h p hp

theorem mem_prevStageList (hm : RootInv om.model) {p c : StageId} (h : om.model.Feeds p c) :
    p ∈ prevStageList om.model c := by
  rw [prevStageList, Counter.mem_keys_iff_isSome_find?, Counter.isSome_find?_iff, (hm.inv.counts p c).2]
  exact hm.feeds_iff_edges.mp h

/-- In the order that was built every stage has a smaller index than the stages it feeds. -/
theorem index_lt (hm : StageInv om.model) (hordered : om.Ordered std nameCmp) {p c : StageId}
    (h : om.model.Feeds p c) : om.index p < om.index c := by
  have hp := hordered.perm.mem_iff.mpr (hm.listed_of_feeds h)
  rw [hordered.index p hp, hordered.index c (hordered.perm.mem_iff.mpr h.1)]
  exact Int.ofNat_lt.mpr (hordered.topological.idxOf_lt hp (hm.mem_nextStageList.mpr h))

/-- **The test**: no cycle comes from making the two stages one. -/
theorem indexTest_acyclic (hm : StageInv om.model) (hordered : om.Ordered std nameCmp)
    (h : indexTest om hw sw = .ok true) : ∀ s, ¬ TransGen (Contracted om.model.Feeds hw sw) s s := by
  unfold indexTest at h
  simp only [ieAssert_bind_ok_iff] at h
  obtain ⟨-, -, hne, h⟩ := h
  refine acyclic_contracted om.index (fun p c hpc => index_lt hm hordered hpc) ?_
  by_cases hlt : om.index hw < om.index sw
  · rw [if_pos hlt] at h
    exact .inl ⟨hlt, fun p hp => producersBefore_true h p (mem_prevStageList hm.toRootInv hp)⟩
  · rw [if_neg hlt] at h
    exact .inr ⟨by omega, fun p hp => producersBefore_true h p (mem_prevStageList hm.toRootInv hp)⟩

theorem swCandidates_ok {l r : List StageId} (h : swCandidates om hw l = .ok r) :
    ∀ sw ∈ r, indexTest om hw sw = .ok true := by
  induction l generalizing r with
  | nil =>
    cases h
    exact fun sw hsw => absurd hsw List.not_mem_nil
  | cons q l ih =>
    unfold swCandidates at h
    simp only [bind_ok_iff, pure_ok_iff] at h
    obtain ⟨isOK, hOK, rest, hrest, rfl⟩ := h
    intro sw hsw
    by_cases hok : isOK
    · rw [if_pos hok] at hsw
      rcases List.mem_cons.mp hsw with rfl | hsw
      · rw [hOK, hok]
      · exact ih hrest sw hsw
    · rw [if_neg hok] at hsw
      exact ih hrest sw hsw

/-! ### Models that have an order -/

/-- A model whose order can be built. -/
structure Orderable (std : StdSort StageId) (nameCmp : StageId → StageId → Bool) (om : OrderedModel) : Prop where
  inv : StageInv om.model
  settled : om.model.Reset ∨ om.Settled std nameCmp
  acyclic : ∀ s, ¬ TransGen om.model.Feeds s s

variable (std nameCmp) in
theorem buildStageOrder_model (om : OrderedModel) : (om.buildStageOrder std nameCmp).1.model = om.model ∨
    (om.buildStageOrder std nameCmp).1.model =
      { om.model with order := { om.model.order with resetStageOrder := false } } := by
  by_cases hflag : om.model.order.resetStageOrder = true
  · right
    by_cases hnil : om.model.graph.stagePtrList = []
    · simp only [OrderedModel.buildStageOrder, if_pos hflag, if_pos hnil]
    by_cases hroots : om.model.initialStageList std nameCmp = []
    · simp only [OrderedModel.buildStageOrder, if_pos hflag, if_neg hnil, if_pos hroots]
    simp only [OrderedModel.buildStageOrder, if_pos hflag, if_neg hnil, if_neg hroots]
    split
    · rfl
    · split_ifs
      · rfl
      · rfl
  · left
    simp only [OrderedModel.buildStageOrder, if_neg hflag]
    split_ifs
    · rfl
    · rfl

theorem feeds_congr {m m' : Model} (h : m'.graph = m.graph) : m'.Feeds = m.Feeds := by
  funext p c
  rw [Model.Feeds, Model.Feeds, h]

/-- **The order can be built**, and the graph stays as it is. -/
theorem Orderable.buildStageOrder (h : Orderable std nameCmp om) :
    (om.buildStageOrder std nameCmp).2 = .ok () ∧ Orderable std nameCmp (om.buildStageOrder std nameCmp).1 ∧
      (om.buildStageOrder std nameCmp).1.Ordered std nameCmp ∧
      (om.buildStageOrder std nameCmp).1.model.graph = om.model.graph := by
  obtain ⟨hgraph, hnext⟩ := OrderedModel.buildStageOrder_graph std nameCmp om
  have hinv : StageInv (om.buildStageOrder std nameCmp).1.model := by
    rcases buildStageOrder_model std nameCmp om with hmodel | hmodel
    · rw [hmodel]
      exact h.inv
    · rw [hmodel]
      exact h.inv.setFlag false
  rcases OrderedModel.buildStageOrder_settled h.settled h.inv with ⟨hok, hordered⟩ | ⟨e, -, -, hshort⟩
  · refine ⟨hok, ⟨hinv, .inr (.inl hordered), ?_⟩, hordered, hgraph⟩
    rw [feeds_congr hgraph]
    exact h.acyclic
  · have hcyclic := hshort.cyclic
    rw [hnext, h.inv.acyclic_iff] at hcyclic
    exact absurd h.acyclic hcyclic

/-- **An injection** that makes no cycle. -/
theorem Orderable.inject (h : Orderable std nameCmp om) (hinject : om.model.injectStage hw sw = .ok m')
    (hacyclic : ∀ s, ¬ TransGen (Contracted om.model.Feeds hw sw) s s) : Orderable std nameCmp (om.edited m') := by
  have hexec : (EditOp.injectStage hw sw).exec om.model = .ok m' := hinject
  have hkept : RootsKept om.model (.injectStage hw sw) := trivial
  have hinv : StageInv m' := exec_stageInv h.inv hkept hexec
  refine ⟨hinv, OrderedModel.edited_settled hexec h.settled, ?_⟩
  rw [OrderedModel.edited, injectStage_feeds h.inv hinv hinject]
  exact hacyclic

/-- **A reverted injection** gives back the graph. -/
theorem Orderable.revert {om₁ : OrderedModel} {m'' : Model} (h : Orderable std nameCmp om)
    (hinject : om.model.injectStage hw sw = .ok m') (h₁ : Orderable std nameCmp om₁)
    (hgraph : om₁.model.graph = m'.graph)
    (hrevert : om₁.model.revertInjection om.model.graph.nextStageEdge = .ok m'') :
    Orderable std nameCmp (om₁.edited m'') ∧ (om₁.edited m'').model.Feeds = om.model.Feeds := by
  have hexec : (EditOp.revertInjection om.model.graph.nextStageEdge).exec om₁.model = .ok m'' := hrevert
  have hkept : RootsKept om₁.model (.revertInjection om.model.graph.nextStageEdge) := trivial
  have hinv : StageInv m'' := exec_stageInv h₁.inv hkept hexec
  have hfeeds := revert_feeds h.inv h₁.inv hinv hinject hgraph hrevert
  refine ⟨⟨hinv, OrderedModel.edited_settled hexec h₁.settled, ?_⟩, hfeeds⟩
  rw [OrderedModel.edited, hfeeds]
  exact h.acyclic

/-! ### The pass -/

theorem safe_order (h : Orderable std nameCmp om) :
    Safe (fun om' => Orderable std nameCmp om' ∧ om'.Ordered std nameCmp ∧ om'.model.graph = om.model.graph)
      (order (om.buildStageOrder std nameCmp)) := by
  obtain ⟨hok, horderable, hordered, hgraph⟩ := h.buildStageOrder
  rw [order, hok]
  exact ⟨horderable, hordered, hgraph⟩

theorem runAllocator_safe {st : PassState} (h : Orderable std nameCmp st.om) :
    Safe (fun r => Orderable std nameCmp r.1.om ∧ r.1.om.model.graph = st.om.model.graph)
      (runAllocator std nameCmp env st) := by
  unfold runAllocator
  refine (safe_order h).bind fun om' hom' => ?_
  refine (safe_other (I := fun _ => True) fun _ _ => trivial).bind fun ok _ => ?_
  exact ⟨hom'.1, hom'.2.2⟩

/-- **The candidates of a round** are judged by the graph before the first of them is injected. -/
theorem injectCandidates_safe {cands : List StageId} (st : PassState) (h : Orderable std nameCmp st.om)
    (hcands : ∀ sw ∈ cands, ∀ s, ¬ TransGen (Contracted st.om.model.Feeds hw sw) s s) :
    Safe (fun st' => Orderable std nameCmp st'.om) (injectCandidates std nameCmp env hw cands st) := by
  induction cands generalizing st with
  | nil => exact h
  | cons sw cands ih =>
    unfold injectCandidates
    refine (safe_other fun m hm => hm).bind fun m hinject => ?_
    have hedited := h.inject hinject (hcands sw List.mem_cons_self)
    refine (runAllocator_safe hedited).bind fun r hr => ?_
    by_cases hok : r.2
    · simp only [if_pos hok]
      exact hr.1
    · simp only [if_neg hok]
      refine (safe_other fun m hm => hm).bind fun m'' hrevert => ?_
      obtain ⟨hback, hfeeds⟩ := h.revert hinject hr.1 hr.2 hrevert
      refine ih _ hback fun sw' hsw' => ?_
      show ∀ s, ¬ TransGen (Contracted (r.1.om.edited m'').model.Feeds hw sw') s s
      rw [hfeeds]
      exact hcands sw' (List.mem_cons_of_mem sw hsw')

theorem tryMerge_safe {st : PassState} (h : Orderable std nameCmp st.om) :
    Safe (fun st' => Orderable std nameCmp st'.om) (tryMerge std nameCmp env st hw) := by
  unfold tryMerge
  refine (safe_order h).bind fun om hom => ?_
  refine (safe_other fun l hl => swCandidates_ok hl).bind fun candidates hcands => ?_
  refine (injectCandidates_safe { st with om } hom.1 fun sw hsw => ?_).bind fun st' hst' => ?_
  · exact indexTest_acyclic hom.1.inv hom.2.1 (hcands sw hsw)
  refine (safe_other (I := fun _ => True) fun _ _ => trivial).bind fun hwNode _ => ?_
  exact (safe_other (I := fun _ => True) fun _ _ => trivial).bind fun swStages _ => hst'

variable (env) in
theorem run_safe (h : Orderable std nameCmp om) :
    Safe (Orderable std nameCmp) (run std nameCmp env om) := by
  unfold run
  by_cases hskip : env.injectSwOps = false ∧ nMaxStagesForInjectSw < om.model.graph.stagePtrList.length
  · rw [if_pos hskip]
    exact h
  · rw [if_neg hskip]
    refine (safe_order h).bind fun om' hom' => ?_
    refine (safe_foldlM (J := fun st => Orderable std nameCmp st.om) (fun st hw hst => tryMerge_safe hst) _
      hom'.1).bind fun st hst => ?_
    exact hst

theorem orderable_of_ok (h : (orderSystem std nameCmp).Reachable om) (hm : StageInv om.model)
    (hok : (om.buildStageOrder std nameCmp).2 = .ok ()) : Orderable std nameCmp om :=
  ⟨hm, reachable_settled h, (buildStageOrder_correct std nameCmp h hm).1.mp hok⟩

/-- **The pass** on a model with exact counters and roots. A SW stage that the test accepts makes no cycle, so
that the order of the stages can be built after its injection. Only the first call of `buildStageOrder` in a
run can throw, as it does without the pass, and what the pass leaves can be ordered. -/
theorem injectSw_order (std : StdSort StageId) (nameCmp : StageId → StageId → Bool) (env : InjectSwEnv)
    {om : OrderedModel} (h : (orderSystem std nameCmp).Reachable om) (hm : StageInv om.model) :
    (∀ hw sw m', (om.buildStageOrder std nameCmp).2 = .ok () →
      indexTest (om.buildStageOrder std nameCmp).1 hw sw = .ok true →
      (om.buildStageOrder std nameCmp).1.model.injectStage hw sw = .ok m' →
      (∀ s, ¬ TransGen m'.Feeds s s) ∧
        (((om.buildStageOrder std nameCmp).1.edited m').buildStageOrder std nameCmp).2 = .ok ()) ∧
    (∀ e, run std nameCmp env om = .error (.buildStageOrder e) → (om.buildStageOrder std nameCmp).2 = .error e) ∧
    ∀ om', (om.buildStageOrder std nameCmp).2 = .ok () → run std nameCmp env om = .ok om' →
      (∀ s, ¬ TransGen om'.model.Feeds s s) ∧ (om'.buildStageOrder std nameCmp).2 = .ok () := by
  refine ⟨fun hw sw m' hok htest hinject => ?_, fun e hrun => ?_, fun om' hok hrun => ?_⟩
  · obtain ⟨-, horderable, hordered, -⟩ := (orderable_of_ok h hm hok).buildStageOrder
    have hedited := horderable.inject hinject (indexTest_acyclic horderable.inv hordered htest)
    exact ⟨hedited.acyclic, hedited.buildStageOrder.1⟩
  · cases hfirst : (om.buildStageOrder std nameCmp).2 with
    | ok u => exact absurd hrun ((run_safe env (orderable_of_ok h hm hfirst)).ne_buildStageOrder e)
    | error e' =>
      unfold run at hrun
      by_cases hskip : env.injectSwOps = false ∧ nMaxStagesForInjectSw < om.model.graph.stagePtrList.length
      · rw [if_pos hskip] at hrun
        cases hrun
      · rw [if_neg hskip, order, hfirst] at hrun
        cases hrun
        rfl
  · have hsafe := run_safe env (orderable_of_ok h hm hok)
    rw [hrun] at hsafe
    exact ⟨hsafe.acyclic, hsafe.buildStageOrder.1⟩

/-- A HW stage and a SHAVE stage that read the same data. -/
def parallelStages : List EditOp :=
  [.addData .Input, .addData .Output, .addData .Output, .addNewStage .HW [0] [1], .addNewStage .SHAVE [0] [2]]

/-- The SHAVE stage is injected, and there is one stage left to order. -/
theorem injectSw_order_parallel : ∃ (m : Model) (om' : OrderedModel), runEdits parallelStages {} = .ok m ∧
    run .insertion (fun a b => decide (a < b)) ⟨fun _ => false, false, fun _ _ => .ok true⟩ { model := m } =
      .ok om' ∧
    om'.model.graph.parentStage 1 = some 0 ∧
    (om'.buildStageOrder .insertion fun a b => decide (a < b)).2 = .ok () := by
  obtain ⟨m, hm, hflag, hok⟩ : ∃ m, runEdits parallelStages {} = .ok m ∧ m.order.resetStageOrder = true ∧
      (OrderedModel.buildStageOrder .insertion (fun a b => decide (a < b)) { model := m }).2 = .ok () :=
    ⟨_, rfl, rfl, rfl⟩
  obtain ⟨om', hrun, hparent⟩ : ∃ om', run .insertion (fun a b => decide (a < b))
      ⟨fun _ => false, false, fun _ _ => .ok true⟩ { model := m } = .ok om' ∧
      om'.model.graph.parentStage 1 = some 0 := by
    cases hm
    exact ⟨_, rfl, rfl⟩
  have hinv : StageInv m := by
    refine reachable_stageInv (reachable_of_runEdits (.init rfl) (fun op hop m => ?_) hm)
    simp only [parallelStages, List.mem_cons, List.not_mem_nil, or_false] at hop
    rcases hop with rfl | rfl | rfl | rfl | rfl <;> trivial
  have hreach : (orderSystem .insertion fun a b => decide (a < b)).Reachable { model := m } := .init hflag
  exact ⟨m, om', hm, hrun, hparent, ((injectSw_order .insertion _ _ hreach hinv).2.2 om' hok hrun).2⟩

end InjectSw

end OpenVino.Vpu
