import OpenVino.Vpu.Model.Effects
import OpenVino.Vpu.Model.Roots
import OpenVino.Vpu.Model.Strides

/-!
# Merging the Expand stages of one input

The first loop of `processSpecialStages`. It takes the stages in their order; when all other Expand stages
that read the input of the current one write an intermediate data of the same dims, their readers are moved
to the output of the current stage and they are removed. An Expand stage puts its input into its output at
the place its attribute `offset` gives, and the loop does not compare the offsets.

`mergeExpand_spec` says what a round leaves, `mergeExpand_consistent` what this means for the values that
are read, and `mergeExpands_keeps` when every reader finds the tensor it found before.
-/

namespace OpenVino.Vpu

/-- What the merging reads of the stages and datas besides their edges; it changes none of it. -/
structure StageAttrs where
  /-- `stage->type() == StageType::Expand` -/
  isExpand : StageId → Bool
  /-- `stage->attrs().get<DimValues>("offset")` -/
  offset : StageId → DimValues
  /-- `data->desc().dims()` -/
  dims : DataId → DimValues

namespace DimValues

def listed (values : DimValues) : List (Option Int) := (List.range MAX_DIMS_64).map fun ind : Nat => values ind

/-- The coordinates that values name; a dim that is not set counts as zero. -/
def position (values : DimValues) : List Int := (List.range MAX_DIMS_64).map fun ind : Nat => values.val ind

end DimValues

namespace Graph

/-- `stage->input(ind)` -/
def input (g : Graph) (s : StageId) (ind : Nat) : Result DataId := do
  let _ ← g.getStage s
  match (g.inputs.ports s)[ind]? with
  | some e => PortEdge.data <$> g.inputs.getEdge e
  | none => .error (.assertionFailed "ind >= 0 && ind < _inputEdges.size()")

/-- `stage->output(ind)` -/
def output (g : Graph) (s : StageId) (ind : Nat) : Result DataId := do
  let _ ← g.getStage s
  match (g.outputs.ports s)[ind]? with
  | some e => PortEdge.data <$> g.outputs.getEdge e
  | none => .error (.assertionFailed "ind >= 0 && ind < _outputEdges.size()")

end Graph

namespace Model

variable (a : StageAttrs)

/-- The stage by which the edge reads, when it is an Expand stage other than the current one. -/
def otherExpand (g : Graph) (curExpandStage : StageId) (e : EdgeId) : Result (Option StageId) := do
  let edge ← g.inputs.getEdge e
  let _ ← g.getStage edge.stage
  return if a.isExpand edge.stage ∧ edge.stage ≠ curExpandStage then some edge.stage else none

/-- The loop that sets `hasDuplicates`, from a value of it. -/
def hasDuplicates (g : Graph) (curExpandStage : StageId) (output : DataId) : Bool → List EdgeId → Result Bool
  | found, [] => .ok found
  | found, e :: es => do
    match ← otherExpand a g curExpandStage e with
    | none => hasDuplicates g curExpandStage output found es
    | some inputConsumer => do
      let otherOutput ← g.output inputConsumer 0
      let data ← g.getData otherOutput
      if (a.dims otherOutput).listed ≠ (a.dims output).listed then return false
      if data.usage ≠ .Intermediate then return false
      hasDuplicates g curExpandStage output true es

/-- A round of the loop that merges. The loop follows the list of consumers: an edge that has left it is not
visited. -/
def mergeConsumer (curExpandStage : StageId) (input output : DataId) (m : Model) (e : EdgeId) : Result Model := do
  if e ∉ m.graph.consumerEdges input then return m
  match ← otherExpand a m.graph curExpandStage e with
  | none => return m
  | some inputConsumer => do
    let otherOutput ← m.graph.output inputConsumer 0
    let m ← (m.graph.consumerEdges otherOutput).foldlM (fun m e => m.replaceStageInput e output) m
    m.removeStage inputConsumer

/-- A round of the loop over the stages. -/
def mergeExpand (m : Model) (curExpandStage : StageId) : Result Model := do
  if m.graph.stage curExpandStage = none then return m
  if !a.isExpand curExpandStage then return m
  let input ← m.graph.input curExpandStage 0
  let output ← m.graph.output curExpandStage 0
  let found ← hasDuplicates a m.graph curExpandStage output false (m.graph.consumerEdges input)
  if found then (m.graph.consumerEdges input).foldlM (mergeConsumer a curExpandStage input output) m else return m

/-- The loop over the stages of `getStages()`. -/
def mergeExpands (m : Model) (stages : List StageId) : Result Model := stages.foldlM (mergeExpand a) m

end Model

/-! ### What is read from a data -/

/-- The tensor in the output of an Expand stage. -/
structure Padded where
  input : DataId
  dims : List (Option Int)
  position : List Int

variable {a : StageAttrs}

def padded (a : StageAttrs) (g : Graph) (d : DataId) : Option Padded :=
  (g.producer d).bind fun t =>
    if a.isExpand t then
      ((g.inputs.ports t)[0]?.bind g.inputs.edge).map fun r =>
        ⟨r.data, (a.dims d).listed, (a.offset t).position⟩
    else none

/-- An Expand stage as `addExpandStage` makes it: one input and one output, which are not the same; a special
stage is never injected. -/
structure Graph.ExpandStage (g : Graph) (s : StageId) : Prop where
  apart : g.Apart s
  input : ∃ e, g.inputs.ports s = [e]
  output : ∃ o, g.outputs.ports s = [o]
  distinct : ∀ e r o q, g.inputs.edge e = some r → r.stage = s → g.outputs.edge o = some q → q.stage = s →
    q.data ≠ r.data

def ExpandsFormed (a : StageAttrs) (g : Graph) : Prop :=
  ∀ s, (g.stage s).isSome → a.isExpand s → g.ExpandStage s

/-- Every consumer of a stage that `m'` does not have any more reads the padded tensor it read. -/
def KeepsPadded (a : StageAttrs) (m m' : Model) : Prop :=
  ∀ t, (m.graph.stage t).isSome → m'.graph.stage t = none → ∀ d, m.graph.producer d = some t →
    ∀ e ∈ m.graph.consumerEdges d, ∀ r, m.graph.inputs.edge e = some r →
      ∃ r', m'.graph.inputs.edge e = some r' ∧ r'.stage = r.stage ∧ r'.portInd = r.portInd ∧
        e ∈ m'.graph.consumerEdges r'.data ∧ padded a m'.graph r'.data = padded a m.graph d

/-- When the stage has duplicates, those of them whose output is read have its offset. -/
def OffsetsAgree (a : StageAttrs) (m : Model) (curExpandStage : StageId) : Prop :=
  (m.graph.stage curExpandStage).isSome → a.isExpand curExpandStage → ∀ input output,
    m.graph.input curExpandStage 0 = .ok input → m.graph.output curExpandStage 0 = .ok output →
    Model.hasDuplicates a m.graph curExpandStage output false (m.graph.consumerEdges input) = .ok true →
    ∀ e ∈ m.graph.consumerEdges input, ∀ r, m.graph.inputs.edge e = some r → a.isExpand r.stage →
      r.stage ≠ curExpandStage → ∀ d, m.graph.producer d = some r.stage → m.graph.consumerEdges d ≠ [] →
        (a.offset r.stage).position = (a.offset curExpandStage).position

/-! ### What a round leaves -/

open Model (otherExpand hasDuplicates mergeConsumer mergeExpand mergeExpands)

section Loop

variable {m m' m₁ m₂ : Model} {R S : StageId → Prop} {cur t : StageId} {input output d : DataId} {e : EdgeId}

theorem Graph.output_ok {g : Graph} (h : g.output t 0 = .ok d) :
    ∃ o q, (g.outputs.ports t)[0]? = some o ∧ g.outputs.edge o = some q ∧ q.data = d := by
  unfold Graph.output at h
  simp only [bind_ok_iff] at h
  obtain ⟨n, -, h⟩ := h
  split at h
  · rename_i o ho
    obtain ⟨q, hq, rfl⟩ := map_ok_iff.mp h
    exact ⟨o, q, ho, Graph.getEdge_ok_iff.mp hq, rfl⟩
  · cases h

theorem Graph.input_ok {g : Graph} (h : g.input t 0 = .ok d) :
    ∃ e r, (g.inputs.ports t)[0]? = some e ∧ g.inputs.edge e = some r ∧ r.data = d := by
  unfold Graph.input at h
  simp only [bind_ok_iff] at h
  obtain ⟨n, -, h⟩ := h
  split at h
  · rename_i e he
    obtain ⟨r, hr, rfl⟩ := map_ok_iff.mp h
    exact ⟨e, r, he, Graph.getEdge_ok_iff.mp hr, rfl⟩
  · cases h

/-- The one output of an Expand stage. -/
theorem Graph.ExpandStage.producer_iff (hm : m.Inv) (ht : m.graph.ExpandStage t) (hd : m.graph.output t 0 = .ok d)
    (x : DataId) : m.graph.producer x = some t ↔ x = d := by
  obtain ⟨o, q, ho, hq, rfl⟩ := Graph.output_ok hd
  obtain ⟨o', hports⟩ := ht.output
  rw [hports] at ho
  obtain rfl : o' = o := by simpa using ho
  obtain ⟨q', hq', hst⟩ := hm.wf.outputs.edge_of_mem (show o' ∈ m.graph.outputs.ports t by simp [hports])
  rw [hq] at hq'
  cases hq'
  rw [hm.producer_eq_some_iff]
  constructor
  · rintro ⟨o₁, q₁, hq₁, -, rfl, hst₁⟩
    have hmem := hm.wf.outputs.mem_of_edge hq₁
    rw [hst₁, hports, List.mem_singleton] at hmem
    rw [hmem, hq] at hq₁
    cases hq₁
    rfl
  · rintro rfl
    exact ⟨o', q, hq, hm.wf.outputs.parentEdge_none hq (hst ▸ ht.apart.1), rfl, hst⟩

/-- The one edge by which an Expand stage reads. -/
theorem Graph.ExpandStage.edge_unique (hm : m.Inv) (ht : m.graph.ExpandStage t) {e e' : EdgeId} {r r' : PortEdge}
    (hr : m.graph.inputs.edge e = some r) (hr' : m.graph.inputs.edge e' = some r') (hs : r.stage = t)
    (hs' : r'.stage = t) : e = e' := by
  obtain ⟨x, hports⟩ := ht.input
  have h := hm.wf.inputs.mem_of_edge hr
  have h' := hm.wf.inputs.mem_of_edge hr'
  rw [hs, hports, List.mem_singleton] at h
  rw [hs', hports, List.mem_singleton] at h'
  rw [h, h']

/-- The stages of `R` are gone, and what read their outputs reads `output`. -/
structure Merged (m m' : Model) (R : StageId → Prop) (output : DataId) : Prop where
  inv : m'.Inv
  parentStage : m'.graph.parentStage = m.graph.parentStage
  gone : ∀ s, R s → m'.graph.stage s = none
  kept : ∀ s, ¬ R s → m'.graph.stage s = m.graph.stage s
  inputs : ∀ x r', m'.graph.inputs.edge x = some r' ↔ ∃ r, m.graph.inputs.edge x = some r ∧ ¬ R r.stage ∧
    ((∃ t, R t ∧ m.graph.producer r.data = some t) ∧ r' = { r with data := output } ∨
      (∀ t, R t → m.graph.producer r.data ≠ some t) ∧ r' = r)
  outputs : ∀ x q, m'.graph.outputs.edge x = some q ↔ m.graph.outputs.edge x = some q ∧ ¬ R q.stage
  inputPorts : ∀ t, ¬ R t → m'.graph.inputs.ports t = m.graph.inputs.ports t
  outputPorts : ∀ t, ¬ R t → m'.graph.outputs.ports t = m.graph.outputs.ports t

theorem Merged.congr (h : Merged m m' R output) (hR : ∀ s, S s ↔ R s) : Merged m m' S output := by
  obtain rfl : S = R := funext fun s => propext (hR s)
  exact h

theorem Merged.refl (hm : m.Inv) : Merged m m (fun _ => False) output where
  inv := hm
  parentStage := rfl
  gone _ h := h.elim
  kept _ _ := rfl
  inputs x r' := by simp
  outputs x q := by simp
  inputPorts _ _ := rfl
  outputPorts _ _ := rfl

theorem Merged.producer_iff (hm : m.Inv) (h : Merged m m' R output) :
    m'.graph.producer d = some t ↔ m.graph.producer d = some t ∧ ¬ R t := by
  rw [h.inv.producer_eq_some_iff, hm.producer_eq_some_iff]
  simp only [h.outputs]
  constructor
  · rintro ⟨o, q, ⟨hq, hR⟩, hp, hd, rfl⟩
    exact ⟨⟨o, q, hq, hp, hd, rfl⟩, hR⟩
  · rintro ⟨⟨o, q, hq, hp, hd, rfl⟩, hR⟩
    exact ⟨o, q, ⟨hq, hR⟩, hp, hd, rfl⟩

theorem Merged.trans (hm : m.Inv) (h : Merged m m₁ R output) (h' : Merged m₁ m₂ S output) :
    Merged m m₂ (fun s => R s ∨ S s) output where
  inv := h'.inv
  parentStage := h'.parentStage.trans h.parentStage
  gone s hs := by
    by_cases hS : S s
    · exact h'.gone s hS
    · rw [h'.kept s hS]
      exact h.gone s (hs.resolve_right hS)
  kept s hs := (h'.kept s fun hS => hs (.inr hS)).trans (h.kept s fun hR => hs (.inl hR))
  inputs x r' := by
    have hprod : ∀ d t, m₁.graph.producer d = some t ↔ m.graph.producer d = some t ∧ ¬ R t := fun d t =>
      h.producer_iff hm
    simp only [h'.inputs, h.inputs, ne_eq, hprod]
    constructor
    · rintro ⟨r₁, ⟨r, hr, hR, hcase⟩, hS, hcase'⟩
      refine ⟨r, hr, ?_, ?_⟩
      · rcases hcase with ⟨-, rfl⟩ | ⟨-, rfl⟩ <;> exact fun hs => hs.elim hR hS
      · rcases hcase with ⟨⟨t, ht, hp⟩, rfl⟩ | ⟨hnone, rfl⟩
        · refine .inl ⟨⟨t, .inl ht, hp⟩, ?_⟩
          rcases hcase' with ⟨-, rfl⟩ | ⟨-, rfl⟩ <;> rfl
        · rcases hcase' with ⟨⟨t, ht, hp, -⟩, rfl⟩ | ⟨hnone', rfl⟩
          · exact .inl ⟨⟨t, .inr ht, hp⟩, rfl⟩
          · refine .inr ⟨fun t ht hp => ?_, rfl⟩
            by_cases hRt : R t
            · exact hnone t hRt hp
            · exact hnone' t (ht.resolve_left hRt) ⟨hp, hRt⟩
    · rintro ⟨r, hr, hRS, hcase⟩
      rw [not_or] at hRS
      by_cases hW : ∃ t, R t ∧ m.graph.producer r.data = some t
      · refine ⟨{ r with data := output }, ⟨r, hr, hRS.1, .inl ⟨hW, rfl⟩⟩, hRS.2, ?_⟩
        obtain rfl : r' = { r with data := output } := by
          rcases hcase with ⟨-, rfl⟩ | ⟨hnone, rfl⟩
          · rfl
          · obtain ⟨t, ht, hp⟩ := hW
            exact absurd hp (hnone t (.inl ht))
        by_cases hW' : ∃ t, S t ∧ m.graph.producer output = some t ∧ ¬ R t
        · exact .inl ⟨hW', rfl⟩
        · exact .inr ⟨fun t ht hp => hW' ⟨t, ht, hp⟩, rfl⟩
      · have hnone : ∀ t, R t → m.graph.producer r.data ≠ some t := fun t ht hp => hW ⟨t, ht, hp⟩
        refine ⟨r, ⟨r, hr, hRS.1, .inr ⟨hnone, rfl⟩⟩, hRS.2, ?_⟩
        rcases hcase with ⟨⟨t, ht, hp⟩, rfl⟩ | ⟨hnone', rfl⟩
        · have hRt : ¬ R t := fun hRt => hnone t hRt hp
          exact .inl ⟨⟨t, ht.resolve_left hRt, hp, hRt⟩, rfl⟩
        · exact .inr ⟨fun t ht hp => hnone' t (.inr ht) hp.1, rfl⟩
  outputs x q := by
    rw [h'.outputs, h.outputs, and_assoc, ← not_or]
  inputPorts t ht := (h'.inputPorts t fun hS => ht (.inr hS)).trans (h.inputPorts t fun hR => ht (.inl hR))
  outputPorts t ht := (h'.outputPorts t fun hS => ht (.inr hS)).trans (h.outputPorts t fun hR => ht (.inl hR))

theorem otherExpand_ok {g : Graph} {u : Option StageId} (h : otherExpand a g cur e = .ok u) :
    ∃ r, g.inputs.edge e = some r ∧ (g.stage r.stage).isSome ∧
      u = if a.isExpand r.stage ∧ r.stage ≠ cur then some r.stage else none := by
  unfold otherExpand at h
  simp only [bind_ok_iff, Graph.getEdge_ok_iff, Graph.getStage_ok_iff, pure_ok_iff] at h
  obtain ⟨r, hr, n, hn, rfl⟩ := h
  exact ⟨r, hr, by simp [hn], rfl⟩

/-- The readers of one stage are moved, and it is removed. -/
theorem mergeStage_spec (hm : m.Inv) (ht : m.graph.ExpandStage t) (hd : m.graph.output t 0 = .ok d)
    (hmove : (m.graph.consumerEdges d).foldlM (fun m e => m.replaceStageInput e output) m = .ok m₁)
    (hremove : m₁.removeStage t = .ok m') : Merged m m' (· = t) output := by
  have hmoved := Model.replaceStageInputs_effect hm hmove
  have hapart : m₁.graph.Apart t := by
    rw [Graph.Apart, hmoved.same.parentStage]
    exact ht.apart
  obtain ⟨hout, hstage⟩ := Model.removeStage_effect hmoved.inv hapart hremove
  have hwritten : ∀ x, (∃ s, s = t ∧ m.graph.producer x = some s) ↔ x = d := by
    intro x
    rw [← ht.producer_iff hm hd x]
    constructor
    · rintro ⟨s, rfl, hp⟩
      exact hp
    · exact fun hp => ⟨t, rfl, hp⟩
  refine ⟨hout.inv, hout.parentStage.trans hmoved.same.parentStage, ?_, ?_, ?_, ?_, ?_, ?_⟩
  · rintro s rfl
    rw [hstage]
    exact Function.update_self ..
  · intro s hs
    rw [hstage, Function.update_of_ne hs, hmoved.same.stage]
  · intro x r'
    rw [hout.inputs, hmoved.edge]
    by_cases hx : x ∈ m.graph.consumerEdges d
    · rw [if_pos hx]
      obtain ⟨r, hr, hrd, -⟩ := (hm.wf.consumers _ _).mp hx
      simp only [hr, Option.map_some, Option.some.injEq, exists_eq_left', hwritten, hrd, true_and]
      constructor
      · rintro ⟨rfl, hst⟩
        exact ⟨hst, .inl rfl⟩
      · rintro ⟨hst, rfl | ⟨hnone, -⟩⟩
        · exact ⟨rfl, hst⟩
        · exact absurd ((ht.producer_iff hm hd d).mpr rfl) (hnone t rfl)
    · rw [if_neg hx]
      constructor
      · rintro ⟨hr, hst⟩
        refine ⟨r', hr, hst, .inr ⟨?_, rfl⟩⟩
        rintro s rfl hp
        exact hx (hmoved.mem_of_data hm hr ((ht.producer_iff hm hd _).mp hp))
      · rintro ⟨r, hr, hst, hcase⟩
        rcases hcase with ⟨hW, -⟩ | ⟨-, rfl⟩
        · exact absurd (hmoved.mem_of_data hm hr ((hwritten _).mp hW)) hx
        · exact ⟨hr, hst⟩
  · intro x q
    rw [hout.outputs, hmoved.outputs]
  · intro s hs
    rw [hout.inputPorts s hs, hmoved.ports]
  · intro s hs
    rw [hout.outputPorts s hs, hmoved.outputs]

/-- The other Expand stages among the readers `l`. -/
def Duplicate (a : StageAttrs) (m : Model) (cur : StageId) (l : List EdgeId) (s : StageId) : Prop :=
  a.isExpand s ∧ s ≠ cur ∧ ∃ e ∈ l, ∃ r, m.graph.inputs.edge e = some r ∧ r.stage = s

/-- The current stage and its two datas, in a model whose Expand stages are well formed. -/
structure Merging (a : StageAttrs) (m : Model) (cur : StageId) (input output : DataId) : Prop where
  inv : m.Inv
  formed : ExpandsFormed a m.graph
  exists_cur : (m.graph.stage cur).isSome
  isExpand : a.isExpand cur
  input : m.graph.input cur 0 = .ok input
  output : m.graph.output cur 0 = .ok output

theorem Merging.expandStage (h : Merging a m cur input output) : m.graph.ExpandStage cur :=
  h.formed cur h.exists_cur h.isExpand

theorem Merging.producer (h : Merging a m cur input output) : m.graph.producer output = some cur :=
  (h.expandStage.producer_iff h.inv h.output output).mpr rfl

/-- An Expand stage that reads `input` does not write it. -/
theorem Merging.input_ne (h : Merging a m cur input output) {s : StageId} {e : EdgeId} {r : PortEdge}
    (hr : m.graph.inputs.edge e = some r) (hd : r.data = input) (hs : a.isExpand r.stage) (hrs : r.stage = s) :
    m.graph.producer input ≠ some s := by
  subst hrs
  intro hp
  obtain ⟨o, q, hq, -, hqd, hst⟩ := h.inv.producer_eq_some_iff.mp hp
  exact (h.formed r.stage (h.inv.wf.inStage e r hr) hs).distinct e r o q hr rfl hq hst (hqd.trans hd.symm)

theorem Merging.edge (h : Merging a m cur input output) :
    ∃ e r, m.graph.inputs.ports cur = [e] ∧ m.graph.inputs.edge e = some r ∧ r.stage = cur ∧ r.data = input := by
  obtain ⟨e, r, he, hr, hd⟩ := Graph.input_ok h.input
  obtain ⟨e', hports⟩ := h.expandStage.input
  rw [hports] at he
  obtain rfl : e' = e := by simpa using he
  obtain ⟨r', hr', hst⟩ := h.inv.wf.inputs.edge_of_mem (show e' ∈ m.graph.inputs.ports cur by simp [hports])
  rw [hr] at hr'
  cases hr'
  exact ⟨e', r, hports, hr, hst, hd⟩

/-- What reads `input` and is no duplicate is not changed. -/
theorem Merging.edge_kept (h : Merging a m cur input output) {l : List EdgeId}
    (hl : ∀ e ∈ l, e ∈ m.graph.consumerEdges input) (hm' : Merged m m' (Duplicate a m cur l) output) {r : PortEdge}
    (hr : m.graph.inputs.edge e = some r) (hd : r.data = input) (hs : ¬ Duplicate a m cur l r.stage) :
    m'.graph.inputs.edge e = some r := by
  refine (hm'.inputs e r).mpr ⟨r, hr, hs, .inr ⟨?_, rfl⟩⟩
  rintro t ⟨ht, -, e', he', r', hr', hst⟩
  obtain ⟨r'', hr'', hd'', -⟩ := (h.inv.wf.consumers _ _).mp (hl e' he')
  rw [hr'] at hr''
  cases hr''
  rw [hd]
  exact h.input_ne hr' hd'' (hst ▸ ht) hst

theorem Merging.formed_merged (h : Merging a m cur input output) {l : List EdgeId}
    (hl : ∀ e ∈ l, e ∈ m.graph.consumerEdges input) (hm' : Merged m m' (Duplicate a m cur l) output) :
    ExpandsFormed a m'.graph := by
  intro s hs hexpand
  have hR : ¬ Duplicate a m cur l s := by
    intro hR
    rw [hm'.gone s hR] at hs
    cases hs
  rw [hm'.kept s hR] at hs
  have hform := h.formed s hs hexpand
  refine ⟨?_, ?_, ?_, fun e r' o q hr' hst hq hqs => ?_⟩
  · rw [Graph.Apart, hm'.parentStage]
    exact hform.apart
  · rw [hm'.inputPorts s hR]
    exact hform.input
  · rw [hm'.outputPorts s hR]
    exact hform.output
  · obtain ⟨hq, -⟩ := (hm'.outputs o q).mp hq
    obtain ⟨r, hr, -, hcase⟩ := (hm'.inputs e r').mp hr'
    rcases hcase with ⟨⟨t, ht, hp⟩, rfl⟩ | ⟨-, rfl⟩
    · -- only the current stage writes `output`, and it reads `input`
      intro hqd
      have hproducer : m.graph.producer output = some s := h.inv.producer_eq_some_iff.mpr
        ⟨o, q, hq, h.inv.wf.outputs.parentEdge_none hq (hqs ▸ hform.apart.1), hqd, hqs⟩
      rw [h.producer] at hproducer
      cases hproducer
      obtain ⟨e₀, r₀, -, hr₀, hst₀, hd₀⟩ := h.edge
      obtain rfl := hform.edge_unique h.inv hr hr₀ hst hst₀
      rw [hr] at hr₀
      cases hr₀
      obtain ⟨hexp, -, e', he', r'', hr'', hst''⟩ := ht
      obtain ⟨r₁, hr₁, hd₁, -⟩ := (h.inv.wf.consumers _ _).mp (hl e' he')
      rw [hr''] at hr₁
      cases hr₁
      rw [hd₀] at hp
      exact h.input_ne hr'' hd₁ (hst'' ▸ hexp) hst'' hp
    · exact hform.distinct e r' o q hr hst hq hqs

/-- The loop that merges. -/
theorem mergeConsumers_spec (h : Merging a m cur input output)
    (hrun : (m.graph.consumerEdges input).foldlM (mergeConsumer a cur input output) m = .ok m') :
    Merged m m' (Duplicate a m cur (m.graph.consumerEdges input)) output := by
  refine foldlM_ok_induct (I := fun pre m₁ => Merged m m₁ (Duplicate a m cur pre) output) hrun
    ((Merged.refl h.inv).congr fun s => ?_) ?_
  · simp [Duplicate]
  intro pre e post m₁ m₂ hl hpre hround
  have hnd := h.inv.wf.nodup input
  rw [hl, List.nodup_append'] at hnd
  have hsub : ∀ x ∈ pre, x ∈ m.graph.consumerEdges input := fun x hx => by
    rw [hl]
    exact List.mem_append_left _ hx
  obtain ⟨r, hr, hrd, hrp⟩ := (h.inv.wf.consumers input e).mp (by rw [hl]; simp)
  have hmore : ∀ s, Duplicate a m cur (pre ++ [e]) s ↔
      Duplicate a m cur pre s ∨ (a.isExpand r.stage ∧ r.stage ≠ cur) ∧ s = r.stage := by
    intro s
    unfold Duplicate
    simp only [List.mem_append, List.mem_singleton, or_and_right, exists_or, exists_eq_left, hr, Option.some.injEq,
      exists_eq_left']
    constructor
    · rintro ⟨hs, hne, hex | rfl⟩
      · exact .inl ⟨hs, hne, hex⟩
      · exact .inr ⟨⟨hs, hne⟩, rfl⟩
    · rintro (⟨hs, hne, hex⟩ | ⟨⟨hs, hne⟩, rfl⟩)
      · exact ⟨hs, hne, .inl hex⟩
      · exact ⟨hs, hne, .inr rfl⟩
  -- the stage of `e` reads by no other edge
  have hnew : ¬ Duplicate a m cur pre r.stage := by
    rintro ⟨hs, -, e', he', r', hr', hst⟩
    have hform := h.formed r.stage (h.inv.wf.inStage e r hr) hs
    obtain rfl := hform.edge_unique h.inv hr' hr hst rfl
    exact hnd.2.2 he' List.mem_cons_self
  have hr₁ := h.edge_kept hsub hpre hr hrd hnew
  unfold mergeConsumer at hround
  rw [if_neg (not_not.mpr ((hpre.inv.wf.consumers input e).mpr ⟨r, hr₁, hrd, hrp⟩))] at hround
  obtain ⟨u, hu, hround⟩ := bind_ok_iff.mp hround
  obtain ⟨r₁, hr₁', hstage, rfl⟩ := otherExpand_ok hu
  rw [hr₁] at hr₁'
  cases hr₁'
  by_cases hdup : a.isExpand r.stage ∧ r.stage ≠ cur
  · rw [if_pos hdup] at hround
    simp only [bind_ok_iff] at hround
    obtain ⟨d, hd, m₃, hmove, hremove⟩ := hround
    have hstep := mergeStage_spec hpre.inv (h.formed_merged hsub hpre r.stage hstage hdup.1) hd hmove hremove
    refine (hpre.trans h.inv hstep).congr fun s => ?_
    rw [hmore]
    simp [hdup]
  · rw [if_neg hdup, pure_ok_iff] at hround
    subst hround
    exact hpre.congr fun s => by simp [hmore, hdup]

/-- A round returns the model as it is, or the stage has duplicates and they are merged. -/
theorem mergeExpand_spec (hm : m.Inv) (hform : ExpandsFormed a m.graph) (h : mergeExpand a m cur = .ok m') :
    (m' = m ∧ ∀ input output, (m.graph.stage cur).isSome → a.isExpand cur → m.graph.input cur 0 = .ok input →
      m.graph.output cur 0 = .ok output →
      hasDuplicates a m.graph cur output false (m.graph.consumerEdges input) ≠ .ok true) ∨
    ∃ input output, Merging a m cur input output ∧
      hasDuplicates a m.graph cur output false (m.graph.consumerEdges input) = .ok true ∧
      Merged m m' (Duplicate a m cur (m.graph.consumerEdges input)) output := by
  unfold mergeExpand at h
  by_cases hstage : m.graph.stage cur = none
  · rw [if_pos hstage, pure_ok_iff] at h
    refine .inl ⟨h.symm, fun input output hs => ?_⟩
    rw [hstage] at hs
    cases hs
  rw [if_neg hstage] at h
  by_cases hexpand : a.isExpand cur
  · rw [if_neg (by simp [hexpand])] at h
    simp only [bind_ok_iff] at h
    obtain ⟨input, hinput, output, houtput, found, hfound, h⟩ := h
    by_cases hf : found
    · rw [if_pos hf] at h
      have hmerging : Merging a m cur input output :=
        ⟨hm, hform, Option.isSome_iff_ne_none.mpr hstage, hexpand, hinput, houtput⟩
      exact .inr ⟨input, output, hmerging, by rw [hfound, hf], mergeConsumers_spec hmerging h⟩
    · rw [if_neg hf, pure_ok_iff] at h
      refine .inl ⟨h.symm, fun input' output' _ _ hinput' houtput' => ?_⟩
      rw [hinput] at hinput'
      cases hinput'
      rw [houtput] at houtput'
      cases houtput'
      rw [hfound]
      simpa using hf
  · rw [if_pos (by simp [hexpand]), pure_ok_iff] at h
    exact .inl ⟨h.symm, fun input output _ hs => absurd hs hexpand⟩

/-- Duplicates have the dims of the current output. -/
theorem hasDuplicates_dims {g : Graph} {l : List EdgeId} {found : Bool}
    (h : hasDuplicates a g cur output found l = .ok true) : ∀ e ∈ l, ∀ r, g.inputs.edge e = some r →
      a.isExpand r.stage → r.stage ≠ cur →
        ∃ d, g.output r.stage 0 = .ok d ∧ (a.dims d).listed = (a.dims output).listed := by
  induction l generalizing found with
  | nil => exact fun e he => absurd he List.not_mem_nil
  | cons x l ih =>
    intro e he r hr hs hne
    unfold hasDuplicates at h
    obtain ⟨u, hu, h⟩ := bind_ok_iff.mp h
    obtain ⟨rx, hrx, -, rfl⟩ := otherExpand_ok hu
    by_cases hdup : a.isExpand rx.stage ∧ rx.stage ≠ cur
    · rw [if_pos hdup] at h
      simp only [bind_ok_iff] at h
      obtain ⟨d, hd, data, -, h⟩ := h
      by_cases hdims : (a.dims d).listed ≠ (a.dims output).listed
      · rw [if_pos hdims, pure_ok_iff] at h
        cases h
      rw [if_neg hdims] at h
      by_cases husage : data.usage ≠ .Intermediate
      · rw [if_pos husage, pure_ok_iff] at h
        cases h
      rw [if_neg husage] at h
      rcases List.mem_cons.mp he with rfl | he
      · rw [hr] at hrx
        cases hrx
        exact ⟨d, hd, not_not.mp hdims⟩
      · exact ih h e he r hr hs hne
    · rw [if_neg hdup] at h
      rcases List.mem_cons.mp he with rfl | he
      · rw [hr] at hrx
        cases hrx
        exact absurd ⟨hs, hne⟩ hdup
      · exact ih h e he r hr hs hne

theorem padded_eq {g : Graph} {e : EdgeId} {r : PortEdge} (hp : g.producer d = some t) (hs : a.isExpand t)
    (hports : g.inputs.ports t = [e]) (hr : g.inputs.edge e = some r) :
    padded a g d = some ⟨r.data, (a.dims d).listed, (a.offset t).position⟩ := by
  simp [padded, hp, hs, hports, hr]

/-- What is read from the output of a duplicate, before it is merged and after. -/
theorem Merging.padded_duplicate (h : Merging a m cur input output)
    (hfound : hasDuplicates a m.graph cur output false (m.graph.consumerEdges input) = .ok true) {e : EdgeId}
    {r : PortEdge} (he : e ∈ m.graph.consumerEdges input) (hr : m.graph.inputs.edge e = some r)
    (hs : a.isExpand r.stage) (hne : r.stage ≠ cur) (hp : m.graph.producer d = some r.stage) :
    padded a m.graph d = some ⟨input, (a.dims output).listed, (a.offset r.stage).position⟩ := by
  obtain ⟨d', hd', hdims⟩ := hasDuplicates_dims hfound e he r hr hs hne
  have hform := h.formed r.stage (h.inv.wf.inStage e r hr) hs
  obtain rfl := (hform.producer_iff h.inv hd' d).mp hp
  obtain ⟨r', hr', hd, -⟩ := (h.inv.wf.consumers _ _).mp he
  rw [hr] at hr'
  cases hr'
  obtain ⟨e₀, hports⟩ := hform.input
  obtain rfl : e = e₀ := by
    have hmem := h.inv.wf.inputs.mem_of_edge hr
    rwa [hports, List.mem_singleton] at hmem
  rw [padded_eq hp hs hports hr, hd, hdims]

theorem Merging.padded_output (h : Merging a m cur input output) {l : List EdgeId}
    (hl : ∀ e ∈ l, e ∈ m.graph.consumerEdges input) (hm' : Merged m m' (Duplicate a m cur l) output) :
    padded a m'.graph output = some ⟨input, (a.dims output).listed, (a.offset cur).position⟩ := by
  obtain ⟨e, r, hports, hr, hst, hd⟩ := h.edge
  have hcur : ¬ Duplicate a m cur l cur := fun hdup => hdup.2.1 rfl
  have hr' := h.edge_kept hl hm' hr hd (hst ▸ hcur)
  have hports' := (hm'.inputPorts cur hcur).trans hports
  have hp := (hm'.producer_iff h.inv).mpr ⟨h.producer, hcur⟩
  rw [padded_eq hp h.isExpand hports' hr', hd]

/-- A round keeps the padded tensors of all who read from a stage it removes, when the offsets agree and
only then. -/
theorem mergeExpand_keeps_iff (hm : m.Inv) (hform : ExpandsFormed a m.graph) (h : mergeExpand a m cur = .ok m') :
    KeepsPadded a m m' ↔ OffsetsAgree a m cur := by
  rcases mergeExpand_spec hm hform h with ⟨rfl, hnot⟩ | ⟨input, output, hcur, hfound, hmerged⟩
  · refine iff_of_true (fun t ht hgone => ?_) fun hs hexpand input output hin hout hfound => ?_
    · rw [hgone] at ht
      cases ht
    · exact absurd hfound (hnot input output hs hexpand hin hout)
  have hafter := hcur.padded_output (fun e he => he) hmerged
  constructor
  · intro hkeeps _ _ input' output' hin hout _ e he r hr hs hne d hp hread
    rw [hcur.input] at hin
    cases hin
    have hdup : Duplicate a m cur (m.graph.consumerEdges input) r.stage := ⟨hs, hne, e, he, r, hr, rfl⟩
    have hbefore := hcur.padded_duplicate hfound he hr hs hne hp
    obtain ⟨x, hx⟩ := List.exists_mem_of_ne_nil _ hread
    obtain ⟨rx, hrx, hrxd, hrxp⟩ := (hm.wf.consumers _ _).mp hx
    obtain ⟨rx', hrx', -, -, -, heq⟩ :=
      hkeeps r.stage (hm.wf.inStage e r hr) (hmerged.gone _ hdup) d hp x hx rx hrx
    obtain ⟨r₀, hr₀, -, hcase⟩ := (hmerged.inputs x rx').mp hrx'
    rw [hrx] at hr₀
    cases hr₀
    rcases hcase with ⟨-, rfl⟩ | ⟨hnone, -⟩
    · rw [hafter, hbefore] at heq
      injection heq with heq
      exact (congrArg Padded.position heq).symm
    · exact absurd (hrxd ▸ hp) (hnone r.stage hdup)
  · intro hagree t ht hgone d hp e he r hr
    have hdup : Duplicate a m cur (m.graph.consumerEdges input) t := by
      by_contra hkept
      rw [hmerged.kept t hkept] at hgone
      rw [hgone] at ht
      cases ht
    obtain ⟨hs, hne, x, hx, rx, hrx, rfl⟩ := hdup
    obtain ⟨r', hr', hd, hrp⟩ := (hm.wf.consumers _ _).mp he
    rw [hr] at hr'
    cases hr'
    have hbefore := hcur.padded_duplicate hfound hx hrx hs hne hp
    have hoffset := hagree hcur.exists_cur hcur.isExpand input output hcur.input hcur.output hfound x hx rx hrx hs
      hne d hp (List.ne_nil_of_mem he)
    -- a stage that is removed reads `input` only
    have hkept : ¬ Duplicate a m cur (m.graph.consumerEdges input) r.stage := by
      rintro ⟨hs', -, y, hy, ry, hry, hst⟩
      obtain ⟨ry', hry', hyd, -⟩ := (hm.wf.consumers _ _).mp hy
      rw [hry] at hry'
      cases hry'
      obtain rfl := (hform _ (hm.wf.inStage e r hr) hs').edge_unique hm hry hr hst rfl
      rw [hr] at hry
      cases hry
      obtain ⟨rx', hrx', hxd, -⟩ := (hm.wf.consumers _ _).mp hx
      rw [hrx] at hrx'
      cases hrx'
      exact hcur.input_ne hrx hxd hs rfl (by rw [← hyd, hd]; exact hp)
    have hread : m'.graph.inputs.edge e = some { r with data := output } :=
      (hmerged.inputs e _).mpr ⟨r, hr, hkept, .inl ⟨⟨rx.stage, ⟨hs, hne, x, hx, rx, hrx, rfl⟩, hd ▸ hp⟩, rfl⟩⟩
    refine ⟨_, hread, rfl, rfl, (hmerged.inv.wf.consumers _ _).mpr ⟨_, hread, rfl, hrp⟩, ?_⟩
    rw [hbefore, hoffset]
    exact hafter

/-! ### What is read over the whole loop -/

/-- `v` gives every data a tensor, and the output of an Expand stage its padded input. -/
def Consistent {T : Type} (a : StageAttrs) (pad : List (Option Int) → List Int → T → T) (g : Graph) (v : DataId → T) :
    Prop :=
  ∀ d p, padded a g d = some p → v d = pad p.dims p.position (v p.input)

/-- Each edge of `m'` was there in `m`, and what it reads is the same tensor. -/
def ReadsSame {T : Type} (m m' : Model) (v : DataId → T) : Prop :=
  ∀ x r', m'.graph.inputs.edge x = some r' → ∃ r, m.graph.inputs.edge x = some r ∧ r.stage = r'.stage ∧
    r.portInd = r'.portInd ∧ v r'.data = v r.data

variable {T : Type} {pad : List (Option Int) → List Int → T → T} {v : DataId → T}

theorem ReadsSame.trans (h : ReadsSame m m₁ v) (h' : ReadsSame m₁ m₂ v) : ReadsSame m m₂ v := by
  intro x r₂ hr₂
  obtain ⟨r₁, hr₁, hst₁, hport₁, hv₁⟩ := h' x r₂ hr₂
  obtain ⟨r, hr, hst, hport, hv⟩ := h x r₁ hr₁
  exact ⟨r, hr, hst.trans hst₁, hport.trans hport₁, hv₁.trans hv⟩

/-- The tensor of a duplicate is that of the output it is replaced by. -/
theorem Merging.value_eq (h : Merging a m cur input output)
    (hfound : hasDuplicates a m.graph cur output false (m.graph.consumerEdges input) = .ok true)
    (hagree : OffsetsAgree a m cur) (hv : Consistent a pad m.graph v)
    (ht : Duplicate a m cur (m.graph.consumerEdges input) t) (hp : m.graph.producer d = some t)
    (hread : m.graph.consumerEdges d ≠ []) : v d = v output := by
  obtain ⟨hs, hne, e, he, r, hr, rfl⟩ := ht
  have hoffset := hagree h.exists_cur h.isExpand input output h.input h.output hfound e he r hr hs hne d hp hread
  have houtput := h.padded_output (l := []) (fun e he => absurd he List.not_mem_nil)
    ((Merged.refl h.inv).congr fun s => by simp [Duplicate])
  rw [hv d _ (h.padded_duplicate hfound he hr hs hne hp), hv output _ houtput, hoffset]

theorem mergeExpand_consistent (hm : m.Inv) (hform : ExpandsFormed a m.graph) (h : mergeExpand a m cur = .ok m')
    (hagree : OffsetsAgree a m cur) (hv : Consistent a pad m.graph v) :
    m'.Inv ∧ ExpandsFormed a m'.graph ∧ Consistent a pad m'.graph v ∧ ReadsSame m m' v := by
  rcases mergeExpand_spec hm hform h with ⟨rfl, -⟩ | ⟨input, output, hcur, hfound, hmerged⟩
  · exact ⟨hm, hform, hv, fun x r hr => ⟨r, hr, rfl, rfl, rfl⟩⟩
  have hreads : ReadsSame m m' v := by
    intro x r' hr'
    obtain ⟨r, hr, -, ⟨⟨t, ht, hp⟩, rfl⟩ | ⟨-, rfl⟩⟩ := (hmerged.inputs x r').mp hr'
    · refine ⟨r, hr, rfl, rfl, (hcur.value_eq hfound hagree hv ht hp ?_).symm⟩
      cases hpar : r.parentEdge with
      | none => exact List.ne_nil_of_mem ((hm.wf.consumers _ _).mpr ⟨r, hr, rfl, hpar⟩)
      | some q =>
        obtain ⟨rq, hq, -, hnone, hdata, -⟩ := hm.wf.inputs.parent x r q hr hpar
        exact List.ne_nil_of_mem ((hm.wf.consumers _ _).mpr ⟨rq, hq, hdata, hnone⟩)
    · exact ⟨r', hr, rfl, rfl, rfl⟩
  refine ⟨hmerged.inv, hcur.formed_merged (fun e he => he) hmerged, fun d p hp => ?_, hreads⟩
  -- a stage that stays reads the same tensor and writes what it wrote
  obtain ⟨t, ht, hp⟩ := Option.bind_eq_some_iff.mp hp
  obtain ⟨htm, hkept⟩ := (hmerged.producer_iff hm).mp ht
  by_cases hs : a.isExpand t
  · rw [if_pos hs, hmerged.inputPorts t hkept] at hp
    obtain ⟨r', hr', rfl⟩ := Option.map_eq_some_iff.mp hp
    obtain ⟨e, he, hr'⟩ := Option.bind_eq_some_iff.mp hr'
    obtain ⟨r, hr, -, -, hval⟩ := hreads e r' hr'
    have hbefore : padded a m.graph d = some ⟨r.data, (a.dims d).listed, (a.offset t).position⟩ := by
      simp [padded, htm, hs, he, hr]
    rw [hv d _ hbefore, hval]
  · rw [if_neg hs] at hp
    cases hp

/-- In every round of the loop the offsets agree. -/
def AlwaysAgree (a : StageAttrs) : Model → List StageId → Prop
  | _, [] => True
  | m, cur :: stages => OffsetsAgree a m cur ∧ ∀ m', mergeExpand a m cur = .ok m' → AlwaysAgree a m' stages

theorem mergeExpands_consistent {stages : List StageId} (hm : m.Inv) (hform : ExpandsFormed a m.graph)
    (h : mergeExpands a m stages = .ok m') (hagree : AlwaysAgree a m stages) (hv : Consistent a pad m.graph v) :
    m'.Inv ∧ ReadsSame m m' v := by
  induction stages generalizing m with
  | nil =>
    obtain rfl := pure_ok_iff.mp h
    exact ⟨hm, fun x r hr => ⟨r, hr, rfl, rfl, rfl⟩⟩
  | cons cur stages ih =>
    unfold mergeExpands at h
    rw [List.foldlM_cons] at h
    obtain ⟨m₁, h₁, hrest⟩ := bind_ok_iff.mp h
    obtain ⟨hm₁, hform₁, hv₁, hreads⟩ := mergeExpand_consistent hm hform h₁ hagree.1 hv
    obtain ⟨hinv, hreads'⟩ := ih hm₁ hform₁ hrest (hagree.2 m₁ h₁) hv₁
    exact ⟨hinv, hreads.trans hreads'⟩

end Loop

/-- **Merging Expand stages**: a round keeps the padded tensor of every consumer of a stage it removes if and
only if the duplicates whose output is read have the offset of the current stage, and when this is so in every
round of the loop, every edge that is left reads the tensor it read before the loop. -/
theorem mergeExpands_keeps (a : StageAttrs) {m : Model} (hm : m.Inv) (hform : ExpandsFormed a m.graph) :
    (∀ cur m', mergeExpand a m cur = .ok m' → (KeepsPadded a m m' ↔ OffsetsAgree a m cur)) ∧
      ∀ stages m', mergeExpands a m stages = .ok m' → AlwaysAgree a m stages →
        ∀ (T : Type) (pad : List (Option Int) → List Int → T → T) (v : DataId → T),
          Consistent a pad m.graph v → ReadsSame m m' v :=
  ⟨fun _ _ h => mergeExpand_keeps_iff hm hform h,
    fun _ _ h hagree _ _ _ hv => (mergeExpands_consistent hm hform h hagree hv).2⟩

/-- Two Expand stages of one input, each with a reader. -/
def twoExpands : List EditOp :=
  [.addData .Input, .addData .Intermediate, .addData .Intermediate, .addData .Output, .addData .Output,
    .addNewStage .Special [0] [1], .addNewStage .Special [0] [2], .addNewStage .SHAVE [1] [3],
    .addNewStage .SHAVE [2] [4]]

/-- The first stage puts its input at the origin, the second one at channel `n`. -/
def offsetAt (n : Int) : StageAttrs where
  isExpand s := s < 2
  offset s d := if s = 1 ∧ d = 2 then some n else none
  dims _ d := if d = 0 ∨ d = 1 ∨ d = 2 then some 16 else none

theorem twoExpands_formed {m : Model} (h : runEdits twoExpands {} = .ok m) (n : Int) :
    m.Inv ∧ ExpandsFormed (offsetAt n) m.graph := by
  obtain ⟨hedge, hin₀, hin₁, hout₀, hout₁, hread₀, hread₁, hwrite₀, hwrite₁⟩ :
      (m.graph.stageEdge = fun _ => none) ∧ m.graph.inputs.ports 0 = [0] ∧ m.graph.inputs.ports 1 = [1] ∧
      m.graph.outputs.ports 0 = [0] ∧ m.graph.outputs.ports 1 = [1] ∧
      (m.graph.inputs.edge 0).map PortEdge.data = some 0 ∧ (m.graph.inputs.edge 1).map PortEdge.data = some 0 ∧
      (m.graph.outputs.edge 0).map PortEdge.data = some 1 ∧ (m.graph.outputs.edge 1).map PortEdge.data = some 2 := by
    cases h
    exact ⟨rfl, rfl, rfl, rfl, rfl, rfl, rfl, rfl, rfl⟩
  have hinv : m.Inv := by
    refine reachable_inv (reachable_of_runEdits (.init rfl) (fun op hop m => ?_) h)
    simp only [twoExpands, List.mem_cons, List.not_mem_nil, or_false] at hop
    rcases hop with rfl | rfl | rfl | rfl | rfl | rfl | rfl | rfl | rfl <;> trivial
  have hdistinct : ∀ (s : StageId) (x y : EdgeId) (i o : DataId), m.graph.inputs.ports s = [x] →
      m.graph.outputs.ports s = [y] → (m.graph.inputs.edge x).map PortEdge.data = some i →
      (m.graph.outputs.edge y).map PortEdge.data = some o → o ≠ i → m.graph.ExpandStage s := by
    intro s x y i o hx hy hi ho hne
    refine ⟨Graph.apart_of_stageEdge hedge s, ⟨x, hx⟩, ⟨y, hy⟩, fun e r e' q hr hrs hq hqs => ?_⟩
    have he := hinv.wf.inputs.mem_of_edge hr
    have he' := hinv.wf.outputs.mem_of_edge hq
    rw [hrs, hx, List.mem_singleton] at he
    rw [hqs, hy, List.mem_singleton] at he'
    subst he he'
    rw [hr] at hi
    rw [hq] at ho
    cases hi
    cases ho
    exact hne
  refine ⟨hinv, fun s hs hexpand => ?_⟩
  have hlt : s < 2 := of_decide_eq_true hexpand
  obtain rfl | rfl : s = 0 ∨ s = 1 := by
    rcases Nat.lt_succ_iff_lt_or_eq.mp hlt with h | h
    · exact .inl (Nat.lt_one_iff.mp h)
    · exact .inr h
  · exact hdistinct 0 0 0 0 1 hin₀ hout₀ hread₀ hwrite₀ (by decide)
  · exact hdistinct 1 1 1 0 2 hin₁ hout₁ hread₁ hwrite₁ (by decide)

theorem mergeExpands_keeps_sameOffset : ∃ m m', runEdits twoExpands {} = .ok m ∧
    mergeExpand (offsetAt 0) m 0 = .ok m' ∧ m'.graph.stage 1 = none ∧
    (KeepsPadded (offsetAt 0) m m' ↔ OffsetsAgree (offsetAt 0) m 0) := by
  obtain ⟨m, m', hm, hrun, hgone⟩ : ∃ m m', runEdits twoExpands {} = .ok m ∧
    mergeExpand (offsetAt 0) m 0 = .ok m' ∧ m'.graph.stage 1 = none := ⟨_, _, rfl, rfl, rfl⟩
  obtain ⟨hinv, hform⟩ := twoExpands_formed hm 0
  exact ⟨m, m', hm, hrun, hgone, (mergeExpands_keeps (offsetAt 0) hinv hform).1 0 m' hrun⟩

/-- The reader of the second stage finds its tensor at the origin. -/
theorem mergeExpands_moves_offset : ∃ m m', runEdits twoExpands {} = .ok m ∧ m.Inv ∧
    ExpandsFormed (offsetAt 8) m.graph ∧ mergeExpand (offsetAt 8) m 0 = .ok m' ∧
    ¬ KeepsPadded (offsetAt 8) m m' := by
  obtain ⟨m, m', hm, hrun, hs, hgone, hp, he, hr, hpadded, hr', hpadded'⟩ : ∃ m m', runEdits twoExpands {} = .ok m ∧
      mergeExpand (offsetAt 8) m 0 = .ok m' ∧ (m.graph.stage 1).isSome ∧ m'.graph.stage 1 = none ∧
      m.graph.producer 2 = some 1 ∧ 3 ∈ m.graph.consumerEdges 2 ∧
      m.graph.inputs.edge 3 = some ⟨3, 2, 0, none, none⟩ ∧
      (padded (offsetAt 8) m.graph 2).map Padded.position = some ((DimValues.position ((offsetAt 8).offset 1))) ∧
      m'.graph.inputs.edge 3 = some ⟨3, 1, 0, none, none⟩ ∧
      (padded (offsetAt 8) m'.graph 1).map Padded.position = some (DimValues.position ((offsetAt 8).offset 0)) :=
    ⟨_, _, rfl, rfl, rfl, rfl, rfl, by decide, rfl, rfl, rfl, rfl⟩
  obtain ⟨hinv, hform⟩ := twoExpands_formed hm 8
  refine ⟨m, m', hm, hinv, hform, hrun, fun hkeeps => ?_⟩
  obtain ⟨r', hread, -, -, -, heq⟩ := hkeeps 1 hs hgone 2 hp 3 he _ hr
  rw [hr'] at hread
  cases hread
  rw [← heq, hpadded'] at hpadded
  exact absurd hpadded (by decide)

end OpenVino.Vpu
