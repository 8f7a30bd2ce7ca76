import OpenVino.Base.DepthFirst
import OpenVino.Base.StdAlgorithm
import OpenVino.Vpu.Model.ResetOrder

/-!
# The order of the stages

`buildStageOrder` sorts the stages by a depth-first search along `_nextStages` from `_initialStages`
(`runDFS`, a refinement of `Visits`) and caches the list it builds. An exception leaves the flag lowered and
the list unfinished. `Settled` is what keeps such a list from being returned: a list that is not the order of
the model has fewer stages than the model. `buildStageOrder_correct` is about every run of edits and calls.
-/

namespace OpenVino.Vpu

open Relation

/-- A model with what `buildStageOrder` writes. -/
structure OrderedModel where
  model : Model := {}
  orderedStageList : List StageId := []
  index : StageId → Int := fun _ => -1

structure DfsState where
  visitedMap : StageId → Option Bool := fun _ => none
  orderedStageList : List StageId := []

/-- A check during the search: an exception leaves the list as it is. -/
def DfsState.check (s : DfsState) (r : Result Unit) : Except (DfsState × IEException) Unit :=
  r.mapError fun e => (s, e)

namespace Model

variable (std : StdSort StageId) (nameCmp : StageId → StageId → Bool)

/-- The keys of `stage->_nextStages`, which `StageNameCmp` orders. -/
def nextStageList (m : Model) (stage : StageId) : List StageId :=
  std.sort nameCmp ((m.order.nextStages stage).entries.map Prod.fst)

/-- The elements of `_initialStages`, which `StageNameCmp` orders. -/
def initialStageList (m : Model) : List StageId :=
  std.sort nameCmp ((List.range m.graph.nextStage).filter (· ∈ m.order.initialStages))

/-- One round of the loop over the stages after `stage`; `run` is the recursive call. -/
def visitNext (m : Model) (run : DfsState → StageId → Except (DfsState × IEException) DfsState) (stage : StageId)
    (s : DfsState) (nextStage : StageId) : Except (DfsState × IEException) DfsState := do
  s.check (ieAssert "nextStage.second > 0" (0 < (m.order.nextStages stage).get nextStage))
  match s.visitedMap nextStage with
  | some visited => do
    if !visited then s.check (throwException "Graph has cycle")
    return s
  | none => run s nextStage

def runDFS (m : Model) : Nat → DfsState → StageId → Except (DfsState × IEException) DfsState
  | 0, s, _ => .error (s, .outOfFuel)
  | fuel + 1, s, stage => do
    s.check (m.graph.checkNotInjected stage)
    let s := { s with visitedMap := Function.update s.visitedMap stage (some false) }
    let s ← (m.nextStageList std nameCmp stage).foldlM (m.visitNext (m.runDFS fuel) stage) s
    return { visitedMap := Function.update s.visitedMap stage (some true)
             orderedStageList := stage :: s.orderedStageList }

end Model

namespace OrderedModel

variable (std : StdSort StageId) (nameCmp : StageId → StageId → Bool)

/-- `stage->_index = stageInd` for the stages of the list in turn. -/
def numberStages (orderedStageList : List StageId) (index : StageId → Int) : StageId → Int :=
  orderedStageList.zipIdx.foldl (fun f p => Function.update f p.1 (p.2 : Int)) index

def sizeCheck : IEException := .assertionFailed "_orderedStageList.size() == _stagePtrList.size()"

/-- The model after the call, which an exception changes too, and the outcome. -/
def buildStageOrder (om : OrderedModel) : OrderedModel × Result Unit :=
  let m := om.model
  if m.order.resetStageOrder then
    let om := { om with
      model := { m with order := { m.order with resetStageOrder := false } }
      orderedStageList := [] }
    if m.graph.stagePtrList = [] then (om, .ok ())
    else if m.initialStageList std nameCmp = [] then (om, .error (.assertionFailed "!_initialStages.empty()"))
    else
      -- a stage is entered at most once, so that one call more than there are stages is deep enough
      match (m.initialStageList std nameCmp).foldlM (m.runDFS std nameCmp (m.graph.stagePtrList.length + 1)) {} with
      | .error (s, e) => ({ om with orderedStageList := s.orderedStageList }, .error e)
      | .ok s =>
        if s.orderedStageList.length = m.graph.stagePtrList.length then
          ({ om with orderedStageList := s.orderedStageList, index := numberStages s.orderedStageList om.index },
            .ok ())
        else ({ om with orderedStageList := s.orderedStageList }, .error sizeCheck)
  else if om.orderedStageList.length = m.graph.stagePtrList.length then (om, .ok ())
  else (om, .error sizeCheck)

/-- An edit; a stage that it destroys leaves the list. -/
def edited (om : OrderedModel) (m : Model) : OrderedModel :=
  { om with model := m, orderedStageList := om.orderedStageList.filter fun s => (m.graph.stage s).isSome }

end OrderedModel

/-- The counters and the roots of a model are exact. -/
structure StageInv (m : Model) : Prop extends RootInv m where
  silent : m.Silent

theorem exec_stageInv {m m' : Model} {op : EditOp} (hm : StageInv m) (hop : RootsKept m op)
    (h : op.exec m = .ok m') : StageInv m' := by
  obtain ⟨hlisted, hrooted⟩ := exec_roots hm.toRootInv hop h
  exact ⟨⟨exec_inv hm.inv hop.outsideInjections h, hlisted, hrooted⟩,
    exec_silent hm.inv hm.silent hop.outsideInjections h⟩

theorem reachable_stageInv {m : Model} (h : (editSystem RootsKept).Reachable m) : StageInv m := by
  refine h.induct (I := StageInv) ?_ ?_
  · rintro m rfl
    exact ⟨reachable_rootInv (.init rfl), fun p hp => absurd rfl hp⟩
  · rintro m m' - hm ⟨op, hop, hexec⟩
    exact exec_stageInv hm hop hexec

/-- The flag is no part of it. -/
theorem StageInv.setFlag {m : Model} (hm : StageInv m) (b : Bool) :
    StageInv { m with order := { m.order with resetStageOrder := b } } where
  inv := ⟨⟨hm.inv.wf, hm.inv.counts.order rfl rfl, hm.inv.idle.order rfl⟩, hm.inv.injections⟩
  listed := ⟨hm.listed.nodup, hm.listed.mem_iff⟩
  rooted := hm.rooted
  silent := hm.silent

/-- The model is edited and its order built, from any state in which no order is cached. Of an edit that threw
only this is used: that it has changed nothing, or has set the flag before its first change. -/
inductive OrderStep (std : StdSort StageId) (nameCmp : StageId → StageId → Bool) (om : OrderedModel) :
    OrderedModel → Prop
  | edit {op : EditOp} {m : Model} (hexec : op.exec om.model = .ok m) : OrderStep std nameCmp om (om.edited m)
  | editThrew {om' : OrderedModel} (hreset : om'.model.Reset) : OrderStep std nameCmp om om'
  | build (hm : StageInv om.model) : OrderStep std nameCmp om (om.buildStageOrder std nameCmp).1

def orderSystem (std : StdSort StageId) (nameCmp : StageId → StageId → Bool) : System OrderedModel where
  init om := om.model.Reset
  step := OrderStep std nameCmp

/-! ### The graph of the stages -/

/-- Stage `c` of the list reads what `p` writes. -/
def Model.Feeds (m : Model) (p c : StageId) : Prop := c ∈ m.graph.stagePtrList ∧ 0 < m.graph.numEdges p c

section Search

variable {std : StdSort StageId} {nameCmp : StageId → StageId → Bool} {m : Model} {s : DfsState} {p c v : StageId}
  {fuel : Nat} {gray : List StageId}

theorem mem_nextStageList : c ∈ m.nextStageList std nameCmp p ↔ 0 < (m.order.nextStages p).get c := by
  rw [Model.nextStageList, StdSort.mem_sort, Counter.mem_keys_iff_isSome_find?, Counter.isSome_find?_iff]

theorem RootInv.mem_nextStageList (hm : RootInv m) : c ∈ m.nextStageList std nameCmp p ↔ m.Feeds p c := by
  obtain ⟨hn, hp⟩ := hm.inv.counts p c
  have hnum : ∀ h : c ∈ m.graph.stagePtrList, m.graph.dataflow.edges p c = m.graph.numEdges p c := fun h =>
    Graph.edges_eq_numEdges hm.inv.wf ((hm.listed.mem_iff c).mp h).2
  rw [Vpu.mem_nextStageList, Model.Feeds]
  constructor
  · intro h
    have hlisted : c ∈ m.graph.stagePtrList := hm.inv.listed_of_pos hm.listed (p := p) (by omega)
    have := hnum hlisted
    exact ⟨hlisted, by omega⟩
  · rintro ⟨hlisted, hpos⟩
    have := hnum hlisted
    omega

theorem RootInv.edge_iff (hm : RootInv m) : Edge (m.nextStageList std nameCmp) p c ↔ m.Feeds p c :=
  hm.mem_nextStageList

variable (std nameCmp) in
theorem RootInv.acyclic_iff (hm : RootInv m) :
    Acyclic (m.nextStageList std nameCmp) ↔ ∀ s, ¬ TransGen m.Feeds s s := by
  have heq : Edge (m.nextStageList std nameCmp) = m.Feeds := by
    funext p c
    exact propext hm.edge_iff
  rw [Acyclic, heq]

theorem RootInv.mem_initialStageList (hm : RootInv m) :
    v ∈ m.initialStageList std nameCmp ↔ v ∈ m.graph.stagePtrList ∧ ∀ p, v ∉ m.nextStageList std nameCmp p := by
  rw [Model.initialStageList, StdSort.mem_sort, List.mem_filter, decide_eq_true_iff, hm.rooted v not_false]
  have hlt : v ∈ m.graph.stagePtrList → v < m.graph.nextStage := fun h =>
    hm.inv.wf.stage_lt v ((hm.listed.mem_iff v).mp h).1
  have hroot : m.order.IsRoot v ↔ ∀ p, v ∉ m.nextStageList std nameCmp p := by
    refine forall_congr' fun p => ?_
    obtain ⟨hn, hp⟩ := hm.inv.counts p v
    have := Counter.get_nonneg (m.order.prevStages v) p
    rw [Vpu.mem_nextStageList]
    omega
  rw [List.mem_range, hroot]
  tauto

/-- What a stage of the list reads is written by stages of the list. -/
theorem StageInv.listed_of_feeds (hm : StageInv m) (h : m.Feeds p c) : p ∈ m.graph.stagePtrList := by
  obtain ⟨hn, -⟩ := hm.inv.counts p c
  obtain ⟨hlisted, hpos⟩ := h
  have hnum := Graph.edges_eq_numEdges (p := p) hm.inv.wf ((hm.listed.mem_iff c).mp hlisted).2
  rw [hm.listed.mem_iff]
  constructor
  · by_contra hnone
    have hzero : m.graph.dataflow.edges p c = 0 := by
      refine Dataflow.edges_eq_zero_of_producer fun d hd => hnone ?_
      obtain ⟨r, hr, rfl⟩ := Option.map_eq_some_iff.mp hd
      obtain ⟨o, -, ho⟩ := Option.bind_eq_some_iff.mp hr
      exact hm.inv.wf.outStage o r ho
    omega
  · by_contra hinj
    have := hm.silent p hinj c
    omega

variable (std nameCmp m) in
theorem nodup_initialStageList : (m.initialStageList std nameCmp).Nodup :=
  (std.perm nameCmp _).nodup_iff.mpr (List.nodup_range.filter _)

/-! ### The search -/

/-- The state of a search that has the stages `gray` open. -/
structure Searching (std : StdSort StageId) (nameCmp : StageId → StageId → Bool) (m : Model) (gray : List StageId)
    (s : DfsState) : Prop where
  finished : ∀ v, s.visitedMap v = some true ↔ v ∈ s.orderedStageList
  entered : ∀ v, s.visitedMap v = some false ↔ v ∈ gray
  topological : Topological (m.nextStageList std nameCmp) s.orderedStageList
  listed : ∀ v ∈ s.orderedStageList, v ∈ m.graph.stagePtrList

/-- What an exception leaves behind: a list without one of the stages, in a graph with a cycle. -/
def Broken (std : StdSort StageId) (nameCmp : StageId → StageId → Bool) (m : Model) (e : DfsState × IEException) :
    Prop :=
  ¬ Acyclic (m.nextStageList std nameCmp) ∧ e.1.orderedStageList.length < m.graph.stagePtrList.length ∧
    e.2 ≠ .outOfFuel

theorem Searching.length_le (hs : Searching std nameCmp m gray s) :
    s.orderedStageList.length ≤ m.graph.stagePtrList.length :=
  (hs.topological.nodup.subperm hs.listed).length_le

/-- The list has no stage that is open. -/
theorem Searching.length_lt (hs : Searching std nameCmp m gray s) (hv : v ∈ gray) (hlisted : v ∈ m.graph.stagePtrList) :
    s.orderedStageList.length < m.graph.stagePtrList.length := by
  have hnot : v ∉ s.orderedStageList := by
    intro h
    have := (hs.finished v).mpr h
    rw [(hs.entered v).mpr hv] at this
    cases this
  have hsub : v :: s.orderedStageList ⊆ m.graph.stagePtrList := List.cons_subset.mpr ⟨hlisted, hs.listed⟩
  exact ((List.nodup_cons.mpr ⟨hnot, hs.topological.nodup⟩).subperm hsub).length_le

theorem Searching.enter (hs : Searching std nameCmp m gray s) (hnew : s.visitedMap v = none) :
    Searching std nameCmp m (v :: gray) { s with visitedMap := Function.update s.visitedMap v (some false) } := by
  refine ⟨fun u => ?_, fun u => ?_, hs.topological, hs.listed⟩
  · by_cases hu : u = v
    · subst hu
      have := hs.finished u
      rw [hnew] at this
      simpa using this
    · simpa [Function.update_of_ne hu] using hs.finished u
  · by_cases hu : u = v
    · simp [hu]
    · simpa [Function.update_of_ne hu, hu] using hs.entered u

theorem Searching.leave (hs : Searching std nameCmp m (v :: gray) s) (hgray : v ∉ gray)
    (htopo : Topological (m.nextStageList std nameCmp) (v :: s.orderedStageList)) (hv : v ∈ m.graph.stagePtrList) :
    Searching std nameCmp m gray { visitedMap := Function.update s.visitedMap v (some true)
                                   orderedStageList := v :: s.orderedStageList } := by
  refine ⟨fun u => ?_, fun u => ?_, htopo, List.forall_mem_cons.mpr ⟨hv, hs.listed⟩⟩
  · by_cases hu : u = v
    · simp [hu]
    · simpa [Function.update_of_ne hu, hu] using hs.finished u
  · by_cases hu : u = v
    · simp [hu, hgray]
    · simpa [Function.update_of_ne hu, hu] using hs.entered u

/-- **The search from one stage** ends, with a visit or with an exception that a cycle is the cause of. -/
theorem runDFS_cases (hm : RootInv m) (hfuel : m.graph.stagePtrList.length < fuel + gray.length) (hnd : gray.Nodup)
    (hgray : ∀ u ∈ gray, u ∈ m.graph.stagePtrList ∧ TransGen (Edge (m.nextStageList std nameCmp)) u v)
    (hv : v ∈ m.graph.stagePtrList) (hnew : s.visitedMap v = none) (hs : Searching std nameCmp m gray s) :
    (∃ s', m.runDFS std nameCmp fuel s v = .ok s' ∧
      Visits (m.nextStageList std nameCmp) gray [v] s.orderedStageList s'.orderedStageList ∧
      Searching std nameCmp m gray s') ∨
    ∃ e, m.runDFS std nameCmp fuel s v = .error e ∧ Broken std nameCmp m e := by
  induction fuel generalizing v s gray with
  | zero =>
    have := (hnd.subperm fun u hu => (hgray u hu).1).length_le
    omega
  | succ fuel ih =>
    have hout : v ∉ gray := by
      intro h
      rw [(hs.entered v).mpr h] at hnew
      cases hnew
    have hord : v ∉ s.orderedStageList := by
      intro h
      rw [(hs.finished v).mpr h] at hnew
      cases hnew
    have hcheck : m.graph.checkNotInjected v = .ok () :=
      Graph.checkNotInjected_ok_iff.mpr ((hm.listed.mem_iff v).mp hv)
    have hround : ∀ pre c post t, m.nextStageList std nameCmp v = pre ++ c :: post →
        Visits (m.nextStageList std nameCmp) (v :: gray) (pre.map id) s.orderedStageList t.orderedStageList →
        Searching std nameCmp m (v :: gray) t →
        (∃ t', m.visitNext (m.runDFS std nameCmp fuel) v t c = .ok t' ∧
          Visits (m.nextStageList std nameCmp) (v :: gray) [id c] t.orderedStageList t'.orderedStageList ∧
          Searching std nameCmp m (v :: gray) t') ∨
        ∃ e, m.visitNext (m.runDFS std nameCmp fuel) v t c = .error e ∧ Broken std nameCmp m e := by
      intro pre c post t hl _ ht
      have hc : c ∈ m.nextStageList std nameCmp v := by
        rw [hl]
        exact List.mem_append_right _ List.mem_cons_self
      have hedge : Edge (m.nextStageList std nameCmp) v c := hc
      have hpos : 0 < (m.order.nextStages v).get c := mem_nextStageList.mp hc
      have hlisted : c ∈ m.graph.stagePtrList := (hm.mem_nextStageList.mp hc).1
      cases hmark : t.visitedMap c with
      | none =>
        have hrun : m.visitNext (m.runDFS std nameCmp fuel) v t c = m.runDFS std nameCmp fuel t c := by
          simp only [Model.visitNext, ieAssert, if_pos hpos, hmark]
          rfl
        rw [hrun]
        refine ih ?_ (List.nodup_cons.mpr ⟨hout, hnd⟩) ?_ hlisted hmark ht
        · rw [List.length_cons]
          omega
        · intro u hu
          rcases List.mem_cons.mp hu with rfl | hu
          · exact ⟨hv, .single hedge⟩
          · exact ⟨(hgray u hu).1, (hgray u hu).2.tail hedge⟩
      | some visited =>
        cases visited with
        | true =>
          left
          refine ⟨t, ?_, .skip ((ht.finished c).mp hmark) .done, ht⟩
          simp only [Model.visitNext, ieAssert, if_pos hpos, hmark]
          rfl
        | false =>
          -- the stage is open: the search has come back to it
          right
          have hopen := (ht.entered c).mp hmark
          refine ⟨(t, .exception "Graph has cycle"), ?_, fun hacyc => ?_, ht.length_lt hopen hlisted, by simp⟩
          · simp only [Model.visitNext, ieAssert, if_pos hpos, hmark]
            rfl
          · rcases List.mem_cons.mp hopen with rfl | hopen
            · exact hacyc c (.single hedge)
            · exact hacyc c ((hgray c hopen).2.tail hedge)
    rcases Visits.foldlM_cases id DfsState.orderedStageList (Searching std nameCmp m (v :: gray))
      (Broken std nameCmp m) { s with visitedMap := Function.update s.visitedMap v (some false) } hround
      (hs.enter hnew) with ⟨s₁, hrun, hvisits, hs₁⟩ | ⟨e, hrun, he⟩
    · left
      rw [List.map_id] at hvisits
      have hvisit : Visits (m.nextStageList std nameCmp) gray [v] s.orderedStageList (v :: s₁.orderedStageList) :=
        .visit hord hout hvisits .done
      refine ⟨_, ?_, hvisit, hs₁.leave hout (hvisit.topological hs.topological) hv⟩
      rw [Model.runDFS, hcheck]
      simp only [DfsState.check, Except.mapError, bind, Except.bind, hrun]
      rfl
    · right
      refine ⟨e, ?_, he⟩
      rw [Model.runDFS, hcheck]
      simp only [DfsState.check, Except.mapError, bind, Except.bind, hrun]

variable (std nameCmp) in
/-- **The search from the roots.** -/
theorem searchRoots_cases (hm : StageInv m) :
    (∃ s, (m.initialStageList std nameCmp).foldlM (m.runDFS std nameCmp (m.graph.stagePtrList.length + 1)) {} = .ok s ∧
      Searching std nameCmp m [] s ∧
      (Acyclic (m.nextStageList std nameCmp) → ∀ v ∈ m.graph.stagePtrList, v ∈ s.orderedStageList)) ∨
    ∃ e, (m.initialStageList std nameCmp).foldlM (m.runDFS std nameCmp (m.graph.stagePtrList.length + 1)) {} =
      .error e ∧ Broken std nameCmp m e := by
  have hround : ∀ pre v post t, m.initialStageList std nameCmp = pre ++ v :: post →
      Visits (m.nextStageList std nameCmp) [] (pre.map id) [] t.orderedStageList → Searching std nameCmp m [] t →
      (∃ t', m.runDFS std nameCmp (m.graph.stagePtrList.length + 1) t v = .ok t' ∧
        Visits (m.nextStageList std nameCmp) [] [id v] t.orderedStageList t'.orderedStageList ∧
        Searching std nameCmp m [] t') ∨
      ∃ e, m.runDFS std nameCmp (m.graph.stagePtrList.length + 1) t v = .error e ∧ Broken std nameCmp m e := by
    intro pre v post t hl hvisits ht
    obtain ⟨hv, hroot⟩ := hm.mem_initialStageList.mp (hl ▸ List.mem_append_right pre (List.mem_cons_self (l := post)))
    -- a root that is finished already would be one of the roots before it
    have hnot : v ∉ t.orderedStageList := by
      intro hmem
      rcases hvisits.reachable hmem with h | ⟨w, hw, hreach⟩
      · exact absurd h List.not_mem_nil
      · rw [List.map_id] at hw
        rcases hreach.cases_tail with rfl | ⟨u, -, hu⟩
        · have hnd := nodup_initialStageList std nameCmp m
          rw [hl, List.nodup_append'] at hnd
          exact hnd.2.2 hw List.mem_cons_self
        · exact hroot u hu
    have hnew : t.visitedMap v = none := by
      cases hmark : t.visitedMap v with
      | none => rfl
      | some visited =>
        cases visited with
        | true => exact absurd ((ht.finished v).mp hmark) hnot
        | false => exact absurd ((ht.entered v).mp hmark) List.not_mem_nil
    exact runDFS_cases hm.toRootInv (by simp) .nil (fun u hu => absurd hu List.not_mem_nil) hv hnew ht
  have hstart : Searching std nameCmp m [] {} := ⟨by simp, by simp, trivial, by simp⟩
  rcases Visits.foldlM_cases id DfsState.orderedStageList (Searching std nameCmp m []) (Broken std nameCmp m) {} hround
    hstart with ⟨s, hrun, hvisits, hs⟩ | hfail
  · rw [List.map_id] at hvisits
    refine .inl ⟨s, hrun, hs, fun hacyc v hv => ?_⟩
    refine hvisits.mem_of_roots hs.topological (fun v _ => hacyc v) ?_ ?_ (List.mem_toFinset.mpr hv)
    · exact fun u _ c hc => List.mem_toFinset.mpr (hm.mem_nextStageList.mp hc).1
    · intro u hu hroot
      refine hm.mem_initialStageList.mpr ⟨List.mem_toFinset.mp hu, fun p hp => ?_⟩
      exact hroot p (List.mem_toFinset.mpr (hm.listed_of_feeds (hm.mem_nextStageList.mp hp))) hp
  · exact .inr hfail

end Search

/-! ### The built order -/

namespace OrderedModel

variable {std : StdSort StageId} {nameCmp : StageId → StageId → Bool} {om : OrderedModel}

/-- The list is the order of the model. -/
structure Ordered (std : StdSort StageId) (nameCmp : StageId → StageId → Bool) (om : OrderedModel) : Prop where
  perm : om.orderedStageList.Perm om.model.graph.stagePtrList
  topological : Topological (om.model.nextStageList std nameCmp) om.orderedStageList
  index : ∀ s ∈ om.orderedStageList, om.index s = om.orderedStageList.idxOf s
  alive : ∀ s ∈ om.orderedStageList, (om.model.graph.stage s).isSome

/-- There is no order, and the list is too short to be taken for one. -/
structure Unfinished (std : StdSort StageId) (nameCmp : StageId → StageId → Bool) (om : OrderedModel) : Prop where
  cyclic : ¬ Acyclic (om.model.nextStageList std nameCmp)
  short : om.orderedStageList.length < om.model.graph.stagePtrList.length

def Settled (std : StdSort StageId) (nameCmp : StageId → StageId → Bool) (om : OrderedModel) : Prop :=
  om.Ordered std nameCmp ∨ om.Unfinished std nameCmp

/-- **A call that builds the order.** -/
theorem buildStageOrder_cases (hm : StageInv om.model) (hreset : om.model.Reset) :
    ((om.buildStageOrder std nameCmp).2 = .ok () ∧ (om.buildStageOrder std nameCmp).1.Ordered std nameCmp) ∨
    ∃ e, (om.buildStageOrder std nameCmp).2 = .error e ∧ e ≠ .outOfFuel ∧
      (om.buildStageOrder std nameCmp).1.Unfinished std nameCmp := by
  have hflag : om.model.order.resetStageOrder = true := hreset
  by_cases hnil : om.model.graph.stagePtrList = []
  · left
    simp only [buildStageOrder, hflag, if_true, if_pos hnil]
    exact ⟨trivial, by rw [hnil], trivial, by simp, by simp⟩
  by_cases hroots : om.model.initialStageList std nameCmp = []
  · right
    simp only [buildStageOrder, hflag, if_true, if_neg hnil, if_pos hroots]
    refine ⟨_, rfl, by simp, fun hacyc => ?_, List.length_pos_iff.mpr hnil⟩
    -- without a cycle there would be a root
    rcases searchRoots_cases std nameCmp hm with ⟨s, hrun, -, hall⟩ | ⟨e, hrun, -⟩
    · rw [hroots] at hrun
      cases hrun
      obtain ⟨v, hv⟩ := List.exists_mem_of_ne_nil _ hnil
      exact absurd (hall hacyc v hv) List.not_mem_nil
    · rw [hroots] at hrun
      cases hrun
  rcases searchRoots_cases std nameCmp hm with ⟨s, hrun, hs, hall⟩ | ⟨⟨s, e⟩, hrun, he⟩
  · by_cases hlen : s.orderedStageList.length = om.model.graph.stagePtrList.length
    · left
      simp only [buildStageOrder, hflag, if_true, if_neg hnil, if_neg hroots, hrun, if_pos hlen]
      refine ⟨trivial, ?_, hs.topological, fun v hv => ?_, fun v hv => ((hm.listed.mem_iff v).mp (hs.listed v hv)).1⟩
      · exact (hs.topological.nodup.subperm hs.listed).perm_of_length_le (Nat.le_of_eq hlen.symm)
      · show numberStages s.orderedStageList om.index v = _
        rw [numberStages, foldl_zipIdx_update hs.topological.nodup, if_pos hv, Nat.zero_add]
    · right
      simp only [buildStageOrder, hflag, if_true, if_neg hnil, if_neg hroots, hrun, if_neg hlen]
      refine ⟨_, rfl, by simp [sizeCheck], fun hacyc => hlen ?_, Nat.lt_of_le_of_ne hs.length_le hlen⟩
      exact Nat.le_antisymm hs.length_le (hm.listed.nodup.subperm (hall hacyc)).length_le
  · right
    simp only [buildStageOrder, hflag, if_true, if_neg hnil, if_neg hroots, hrun]
    exact ⟨e, rfl, he.2.2, he.1, he.2.1⟩

/-- A call that finds the flag lowered. -/
theorem buildStageOrder_cached (h : om.Settled std nameCmp) (hreset : ¬ om.model.Reset) :
    ((om.buildStageOrder std nameCmp).2 = .ok () ∧ (om.buildStageOrder std nameCmp).1.Ordered std nameCmp) ∨
    ∃ e, (om.buildStageOrder std nameCmp).2 = .error e ∧ e ≠ .outOfFuel ∧
      (om.buildStageOrder std nameCmp).1.Unfinished std nameCmp := by
  have hflag : ¬ om.model.order.resetStageOrder = true := hreset
  rcases h with h | h
  · left
    simp only [buildStageOrder, if_neg hflag, if_pos h.perm.length_eq]
    exact ⟨trivial, h⟩
  · right
    simp only [buildStageOrder, if_neg hflag, if_neg (Nat.ne_of_lt h.short)]
    exact ⟨_, rfl, by simp [sizeCheck], h⟩

/-- Whether the flag is set or not. -/
theorem buildStageOrder_settled (h : om.model.Reset ∨ om.Settled std nameCmp) (hm : StageInv om.model) :
    ((om.buildStageOrder std nameCmp).2 = .ok () ∧ (om.buildStageOrder std nameCmp).1.Ordered std nameCmp) ∨
    ∃ e, (om.buildStageOrder std nameCmp).2 = .error e ∧ e ≠ .outOfFuel ∧
      (om.buildStageOrder std nameCmp).1.Unfinished std nameCmp := by
  by_cases hreset : om.model.Reset
  · exact buildStageOrder_cases hm hreset
  · exact buildStageOrder_cached (h.resolve_left hreset) hreset

variable (std nameCmp om) in
theorem buildStageOrder_graph : (om.buildStageOrder std nameCmp).1.model.graph = om.model.graph ∧
    (om.buildStageOrder std nameCmp).1.model.nextStageList std nameCmp = om.model.nextStageList std nameCmp := by
  by_cases hflag : om.model.order.resetStageOrder = true
  · by_cases hnil : om.model.graph.stagePtrList = []
    · simp only [buildStageOrder, if_pos hflag, if_pos hnil]
      exact ⟨trivial, rfl⟩
    by_cases hroots : om.model.initialStageList std nameCmp = []
    · simp only [buildStageOrder, if_pos hflag, if_neg hnil, if_pos hroots]
      exact ⟨trivial, rfl⟩
    simp only [buildStageOrder, if_pos hflag, if_neg hnil, if_neg hroots]
    split
    · exact ⟨rfl, rfl⟩
    · split_ifs
      · exact ⟨rfl, rfl⟩
      · exact ⟨rfl, rfl⟩
  · simp only [buildStageOrder, if_neg hflag]
    split_ifs
    · exact ⟨rfl, rfl⟩
    · exact ⟨rfl, rfl⟩

/-- **An edit leaves the list alone or sets the flag.** -/
theorem edited_settled {op : EditOp} {m : Model} (hexec : op.exec om.model = .ok m)
    (h : om.model.Reset ∨ om.Settled std nameCmp) : (om.edited m).model.Reset ∨ (om.edited m).Settled std nameCmp := by
  rcases exec_reset hexec with hreset | ⟨horder, hlist, hstage⟩
  · exact .inl hreset
  have hnext : m.nextStageList std nameCmp = om.model.nextStageList std nameCmp := by
    funext s
    rw [Model.nextStageList, Model.nextStageList, horder]
  rcases h with hreset | hordered | hshort
  · left
    show m.order.resetStageOrder = true
    rw [horder]
    exact hreset
  · right
    left
    have hkeep : (om.edited m).orderedStageList = om.orderedStageList := by
      refine List.filter_eq_self.mpr fun s hs => ?_
      rw [hstage]
      exact hordered.alive s hs
    refine ⟨?_, ?_, ?_, ?_⟩
    · rw [hkeep]
      exact hordered.perm.trans (.of_eq hlist.symm)
    · rw [hkeep, edited, hnext]
      exact hordered.topological
    · rw [hkeep]
      exact hordered.index
    · rw [hkeep, edited, hstage]
      exact hordered.alive
  · right
    right
    refine ⟨?_, ?_⟩
    · rw [edited, hnext]
      exact hshort.cyclic
    · refine Nat.lt_of_le_of_lt (List.length_filter_le _ _) ?_
      rw [edited, hlist]
      exact hshort.short

end OrderedModel

theorem reachable_settled {std : StdSort StageId} {nameCmp : StageId → StageId → Bool} {om : OrderedModel}
    (h : (orderSystem std nameCmp).Reachable om) : om.model.Reset ∨ om.Settled std nameCmp := by
  refine h.induct (I := fun om => om.model.Reset ∨ om.Settled std nameCmp) (fun om h => .inl h) ?_
  intro om om' _ h hstep
  cases hstep with
  | edit hexec => exact OrderedModel.edited_settled hexec h
  | editThrew hreset => exact .inl hreset
  | build hm =>
    rcases OrderedModel.buildStageOrder_settled h hm with ⟨-, hordered⟩ | ⟨e, -, -, hshort⟩
    · exact .inr (.inl hordered)
    · exact .inr (.inr hshort)

/-- **`buildStageOrder`** in every run of edits and calls, when the counters and the roots are exact: it returns
if and only if no stage feeds itself, and then the list holds every stage once, producers first. -/
theorem buildStageOrder_correct (std : StdSort StageId) (nameCmp : StageId → StageId → Bool) {om : OrderedModel}
    (h : (orderSystem std nameCmp).Reachable om) (hm : StageInv om.model) :
    ((om.buildStageOrder std nameCmp).2 = .ok () ↔ ∀ s, ¬ TransGen om.model.Feeds s s) ∧
    (om.buildStageOrder std nameCmp).2 ≠ .error .outOfFuel ∧
    ((om.buildStageOrder std nameCmp).2 = .ok () →
      (om.buildStageOrder std nameCmp).1.orderedStageList.Nodup ∧
      (∀ s, s ∈ (om.buildStageOrder std nameCmp).1.orderedStageList ↔ s ∈ om.model.graph.stagePtrList) ∧
      (∀ s ∈ om.model.graph.stagePtrList, (om.buildStageOrder std nameCmp).1.index s =
        (om.buildStageOrder std nameCmp).1.orderedStageList.idxOf s) ∧
      ∀ p c, om.model.Feeds p c → (om.buildStageOrder std nameCmp).1.orderedStageList.idxOf p <
        (om.buildStageOrder std nameCmp).1.orderedStageList.idxOf c) := by
  obtain ⟨hgraph, hnext⟩ := OrderedModel.buildStageOrder_graph std nameCmp om
  rw [← hm.acyclic_iff std nameCmp]
  rcases OrderedModel.buildStageOrder_settled (reachable_settled h) hm with ⟨hok, hordered⟩ | ⟨e, herr, hfuel, hshort⟩
  · have hperm := hordered.perm
    have htopo := hordered.topological
    rw [hgraph] at hperm
    rw [hnext] at htopo
    rw [hok]
    refine ⟨iff_of_true rfl fun v hcycle => ?_, by simp, fun _ => ⟨htopo.nodup, fun s => hperm.mem_iff, ?_, ?_⟩⟩
    · obtain ⟨u, -, hu⟩ := TransGen.tail'_iff.mp hcycle
      exact htopo.acyclic (hperm.mem_iff.mpr (hm.mem_nextStageList.mp hu).1) hcycle
    · exact fun s hs => hordered.index s (hperm.mem_iff.mpr hs)
    · intro p c hpc
      exact htopo.idxOf_lt (hperm.mem_iff.mpr (hm.listed_of_feeds hpc)) (hm.mem_nextStageList.mpr hpc)
  · have hcyclic := hshort.cyclic
    rw [hnext] at hcyclic
    rw [herr]
    refine ⟨iff_of_false (by simp) hcyclic, ?_, fun h => absurd h (by simp)⟩
    intro h
    exact hfuel (Except.error.inj h)

/-- Stage 2 leads into a cycle of the stages 0 and 1. -/
def cyclicStages : List EditOp :=
  [.addData .Intermediate, .addData .Intermediate, .addData .Input, .addData .Intermediate,
    .addNewStage .HW [0, 3] [1], .addNewStage .SHAVE [1] [0], .addNewStage .SHAVE [2] [3]]

/-- The cycle is found, then cut, and the next call gives the order. -/
theorem buildStageOrder_correct_repaired : ∃ m m' : Model, runEdits cyclicStages {} = .ok m ∧
    (OrderedModel.buildStageOrder .insertion (fun a b => decide (a < b)) { model := m }).2 =
      .error (.exception "Graph has cycle") ∧
    (EditOp.replaceStageInput 0 2).exec
      (OrderedModel.buildStageOrder .insertion (fun a b => decide (a < b)) { model := m }).1.model = .ok m' ∧
    ∃ om : OrderedModel, om.model = m' ∧
      (om.buildStageOrder .insertion fun a b => decide (a < b)).1.orderedStageList.Nodup := by
  obtain ⟨m, hm, hflag, hfail, hmodel, hstage⟩ : ∃ m, runEdits cyclicStages {} = .ok m ∧
      m.order.resetStageOrder = true ∧
      (OrderedModel.buildStageOrder .insertion (fun a b => decide (a < b)) { model := m }).2 =
        .error (.exception "Graph has cycle") ∧
      (OrderedModel.buildStageOrder .insertion (fun a b => decide (a < b)) { model := m }).1.model =
        { m with order := { m.order with resetStageOrder := false } } ∧
      ∀ r, m.graph.inputs.edge 0 = some r → r.stage ∈ m.graph.stagePtrList :=
    ⟨_, rfl, rfl, rfl, rfl, by
      intro r hr
      cases hr
      decide⟩
  have hinv : StageInv m := by
    refine reachable_stageInv (reachable_of_runEdits (.init rfl) (fun op hop m => ?_) hm)
    simp only [cyclicStages, List.mem_cons, List.not_mem_nil, or_false] at hop
    rcases hop with rfl | rfl | rfl | rfl | rfl | rfl | rfl <;> trivial
  obtain ⟨m', hexec, hok⟩ : ∃ m', (EditOp.replaceStageInput 0 2).exec
      (OrderedModel.buildStageOrder .insertion (fun a b => decide (a < b)) { model := m }).1.model = .ok m' ∧
      ((OrderedModel.buildStageOrder .insertion (fun a b => decide (a < b)) { model := m }).1.edited m'
        |>.buildStageOrder .insertion fun a b => decide (a < b)).2 = .ok () := by
    cases hm
    exact ⟨_, rfl, rfl⟩
  have hinv' : StageInv m' := by
    have hkept : RootsKept { m with order := { m.order with resetStageOrder := false } }
        (.replaceStageInput 0 2) := hstage
    rw [hmodel] at hexec
    exact exec_stageInv (hinv.setFlag false) hkept hexec
  have hreach := ((System.Reachable.init (S := orderSystem .insertion fun a b => decide (a < b))
    (s := { model := m }) hflag).step (.build hinv)).step (.edit hexec)
  exact ⟨m, m', hm, hfail, hexec, _, rfl, ((buildStageOrder_correct .insertion _ hreach hinv').2.2 hok).1⟩

end OpenVino.Vpu
