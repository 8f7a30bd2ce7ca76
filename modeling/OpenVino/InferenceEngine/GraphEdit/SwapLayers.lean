import OpenVino.InferenceEngine.GraphEdit.Heap

/-!
# `CNNNetSwapLayers`

Two neighbours change places: the producers of their inputs (`fixInputs`), the ports of the layers behind
them (`moveReader`), their maps (`swapOutputs`) and their own ports (`swapInputs`). A layer behind only one
of the two reads the other one afterwards, a layer behind both keeps its ports.
-/

namespace OpenVino.InferenceEngine.Heap

namespace Graph

/-- One output of a producer of `lhs`: the entry under the name of `lhs` gets `rhs`, found or not. -/
def renameConsumer (lhs rhs : CNNLayerPtr) (g : Graph) (prevNext : DataPtr) : Result Graph :=
  match (g.data prevNext).inputTo.find? (g.layer lhs).name with
  | none => .error (.undefinedBehaviour "lhs_ptr->second")
  | some _ => pure (g.setInputTo prevNext ((g.data prevNext).inputTo.set (g.layer lhs).name rhs))

/-- The loop over the inputs of `lhs`; it ends at an input without a producer. -/
def fixInputs (lhs rhs : CNNLayerPtr) : List DataPtr → Graph → Result Graph
  | [], g => pure g
  | insData :: rest, g =>
    match (g.data insData).creatorLayer with
    | none => pure g
    | some prev =>
      if prev = rhs then fixInputs lhs rhs rest g
      else do
        let g ← (g.layer prev).outData.foldlM (renameConsumer lhs rhs) g
        fixInputs lhs rhs rest g

/-- A layer behind `lhs`, that is not `rhs` and does not read `rhs`: it gets `rhsOut` for what `lhs` creates. -/
def moveReader (lhs rhs : CNNLayerPtr) (rhsOut : DataPtr) (g : Graph) (next : CNNLayerPtr) : Graph :=
  if next = rhs then g
  else if ∃ d ∈ (g.layer next).insData, (g.data d).creatorLayer = some rhs then g
  else g.setInsData next ((g.layer next).insData.map fun d =>
    if (g.data d).creatorLayer = some lhs then rhsOut else d)

/-- The output references of the two layers, of which the second map is that of `lhs`. -/
def swapOutputs (g : Graph) (lhs rhs : CNNLayerPtr) (rhsOutputs lhsOutputs : StdMap String CNNLayerPtr) :
    StdMap String CNNLayerPtr × StdMap String CNNLayerPtr :=
  let tmp := rhsOutputs.eraseIf (· = lhs)
  let rest := lhsOutputs.eraseIf (· = rhs)
  let rhsOutputs' := if rhs ∈ lhsOutputs.values then rest.set (g.layer lhs).name lhs else rest
  let lhsOutputs' := if lhs ∈ rhsOutputs.values then tmp.set (g.layer rhs).name rhs else tmp
  (rhsOutputs', lhsOutputs')

/-- The input references of the two layers. -/
def swapInputs (g : Graph) (lhs rhs : CNNLayerPtr) (lhsOut rhsOut : DataPtr) : Graph :=
  let lhsInputs := (g.layer lhs).insData
  let rhsInputs := (g.layer rhs).insData
  if ∃ d ∈ lhsInputs, (g.data d).creatorLayer = some rhs then
    let lhsInputs := lhsInputs.filter fun d => (g.data d).creatorLayer ≠ some rhs
    (g.setInsData lhs rhsInputs).setInsData rhs (lhsInputs ++ [lhsOut])
  else if ∃ d ∈ rhsInputs, (g.data d).creatorLayer = some lhs then
    let rhsInputs := rhsInputs.filter fun d => (g.data d).creatorLayer ≠ some lhs
    (g.setInsData lhs (rhsInputs ++ [rhsOut])).setInsData rhs lhsInputs
  else (g.setInsData lhs rhsInputs).setInsData rhs lhsInputs

/-- The layers behind `lhs`, then those behind `rhs`. -/
def moveReaders (g : Graph) (lhs rhs : CNNLayerPtr) (lhsOut rhsOut : DataPtr) : Graph :=
  let g := (g.consumers lhsOut).foldl (moveReader lhs rhs rhsOut) g
  (g.consumers rhsOut).foldl (moveReader rhs lhs lhsOut) g

/-- The references and the dims of the two layers. -/
def swapReferences (g : Graph) (lhs rhs : CNNLayerPtr) (lhsOut rhsOut : DataPtr) : Graph :=
  let outputs := g.swapOutputs lhs rhs (g.data rhsOut).inputTo (g.data lhsOut).inputTo
  let g := (g.setInputTo rhsOut outputs.1).setInputTo lhsOut outputs.2
  let g := g.swapInputs lhs rhs lhsOut rhsOut
  g.setDims lhsOut (g.data rhsOut).dims

/-- The call for two layers with their only outputs. -/
def swapWithOutputs (g : Graph) (lhs rhs : CNNLayerPtr) (lhsOut rhsOut : DataPtr) : Result Graph := do
  let g ← fixInputs lhs rhs (g.layer lhs).insData g
  let g ← fixInputs rhs lhs (g.layer rhs).insData g
  pure ((g.moveReaders lhs rhs lhsOut rhsOut).swapReferences lhs rhs lhsOut rhsOut)

def CNNNetSwapLayers (g : Graph) : Option CNNLayerPtr → Option CNNLayerPtr → Result Graph
  | some lhs, some rhs =>
    if lhs = rhs then pure g
    else if (g.layer lhs).outData.length > 1 then
      throwException ("Unsupported layer for swap operation : " ++ (g.layer lhs).name)
    else if (g.layer rhs).outData.length > 1 then
      throwException ("Unsupported layer for swap operation : " ++ (g.layer rhs).name)
    else
      match (g.layer rhs).outData, (g.layer lhs).outData with
      | rhsOut :: _, lhsOut :: _ => g.swapWithOutputs lhs rhs lhsOut rhsOut
      | _, _ => .error (.undefinedBehaviour "outData.front()")
  | _, _ => throwException "CNNNetSwapLayers : nullptr"

end Graph

namespace Graph

/-! ### The links around the two layers -/

variable {g g' : Graph} {lhs rhs : CNNLayerPtr} {input lhsOut rhsOut : DataPtr}

/-- Two neighbours with one input and one output each: `input`, `lhs`, `lhsOut`, `rhs`, `rhsOut`. -/
structure Neighbours (g : Graph) (lhs rhs : CNNLayerPtr) (input lhsOut rhsOut : DataPtr) : Prop where
  lhs_insData : (g.layer lhs).insData = [input]
  lhs_outData : (g.layer lhs).outData = [lhsOut]
  rhs_insData : (g.layer rhs).insData = [lhsOut]
  rhs_outData : (g.layer rhs).outData = [rhsOut]
  /-- `lhs` is first in a topological order. -/
  no_cycle : input ≠ rhsOut

/-- The producer of `input` has no other output, and `lhs` is entered there under its name and only so. -/
structure SingleProducer (g : Graph) (lhs : CNNLayerPtr) (input : DataPtr) : Prop where
  producer : ∃ prev, (g.data input).creatorLayer = some prev ∧ (g.layer prev).outData = [input]
  entry : ∀ e ∈ (g.data input).inputTo.entries, e.2 = lhs ↔ e.1 = (g.layer lhs).name

structure Swapped (g g' : Graph) (lhs rhs : CNNLayerPtr) (input lhsOut rhsOut : DataPtr) : Prop where
  rhs_ports : (g'.layer rhs).insData = [input]
  lhs_ports : (g'.layer lhs).insData = [rhsOut]
  behind_both : ∀ l, lhsOut ∈ (g.layer l).insData → rhsOut ∈ (g.layer l).insData →
    (g'.layer l).insData = (g.layer l).insData
  behind_one : ∀ l, l ≠ lhs → l ≠ rhs → ¬(lhsOut ∈ (g.layer l).insData ∧ rhsOut ∈ (g.layer l).insData) →
    (g'.layer l).insData = (g.layer l).insData.map (Equiv.swap lhsOut rhsOut)
  consistent : ∀ d l, l ∈ g'.consumers d ↔ d ∈ (g'.layer l).insData

namespace Neighbours

variable (hn : Neighbours g lhs rhs input lhsOut rhsOut) (hg : g.WellFormed)
include hn hg

theorem lhs_creator (d : DataPtr) : (g.data d).creatorLayer = some lhs ↔ d = lhsOut := by
  rw [hg.creator_iff, hn.lhs_outData, List.mem_singleton]

theorem rhs_creator (d : DataPtr) : (g.data d).creatorLayer = some rhs ↔ d = rhsOut := by
  rw [hg.creator_iff, hn.rhs_outData, List.mem_singleton]

theorem input_ne : input ≠ lhsOut := by
  intro h
  refine hg.no_self_loop lhs input ?_ ?_
  · rw [hn.lhs_insData]
    exact List.mem_singleton_self _
  · rw [hn.lhs_outData, h]
    exact List.mem_singleton_self _

theorem outputs_ne : lhsOut ≠ rhsOut := by
  intro h
  refine hg.no_self_loop rhs lhsOut ?_ ?_
  · rw [hn.rhs_insData]
    exact List.mem_singleton_self _
  · rw [hn.rhs_outData, h]
    exact List.mem_singleton_self _

theorem layers_ne : lhs ≠ rhs := by
  intro h
  have hin := hn.lhs_insData
  rw [h, hn.rhs_insData, List.cons.injEq] at hin
  exact hn.input_ne hg hin.1.symm

end Neighbours

/-! ### The readers behind the two layers -/

/-- The ports of a reader that is moved from `a` to `b`. -/
def movedPorts (a b : DataPtr) (insData : List DataPtr) : List DataPtr :=
  if b ∈ insData then insData else insData.map fun d => if d = a then b else d

theorem movedPorts_idem (a b : DataPtr) (insData : List DataPtr) :
    movedPorts a b (movedPorts a b insData) = movedPorts a b insData := by
  by_cases hb : b ∈ insData
  · have hsame : movedPorts a b insData = insData := if_pos hb
    rw [hsame, hsame]
  · have hmap : movedPorts a b insData = insData.map fun d => if d = a then b else d := if_neg hb
    rw [hmap, movedPorts, List.map_map]
    split_ifs with hb'
    · rfl
    · refine List.map_congr_left fun d _ => ?_
      by_cases hd : d = a <;> simp [hd]

/-- The readers that one loop has been through. -/
structure ReadersMoved (g g' : Graph) (other : CNNLayerPtr) (a b : DataPtr) (ls : List CNNLayerPtr) : Prop where
  data_eq : g'.data = g.data
  name_eq : ∀ l, (g'.layer l).name = (g.layer l).name
  insData_eq : ∀ l, (g'.layer l).insData =
    if l ∈ ls ∧ l ≠ other then movedPorts a b (g.layer l).insData else (g.layer l).insData

theorem readersMoved_moveReader {a b : DataPtr} (ha : ∀ d, (g.data d).creatorLayer = some lhs ↔ d = a)
    (hb : ∀ d, (g.data d).creatorLayer = some rhs ↔ d = b) (next : CNNLayerPtr) :
    ReadersMoved g (moveReader lhs rhs b g next) rhs a b [next] := by
  have hreads : (∃ d ∈ (g.layer next).insData, (g.data d).creatorLayer = some rhs) ↔ b ∈ (g.layer next).insData := by
    simp only [hb, exists_eq_right]
  have hmap : (g.layer next).insData.map (fun d => if (g.data d).creatorLayer = some lhs then b else d) =
      (g.layer next).insData.map fun d => if d = a then b else d :=
    List.map_congr_left fun d _ => if_congr (ha d) rfl rfl
  rw [moveReader]
  split_ifs with hnext hread
  · refine ⟨rfl, fun _ => rfl, fun l => (if_neg ?_).symm⟩
    rintro ⟨hl, hl'⟩
    exact hl' ((List.mem_singleton.mp hl).trans hnext)
  · refine ⟨rfl, fun _ => rfl, fun l => ?_⟩
    split_ifs with hl
    · rw [movedPorts, if_pos (by rwa [List.mem_singleton.mp hl.1, ← hreads])]
    · rfl
  · refine ⟨rfl, fun _ => setInsData_name, fun l => ?_⟩
    by_cases hl : l = next
    · subst hl
      rw [setInsData_insData_self, if_pos ⟨List.mem_singleton_self _, hnext⟩, hmap, movedPorts,
        if_neg (by rwa [← hreads])]
    · rw [setInsData_layer_ne hl, if_neg fun h => hl (List.mem_singleton.mp h.1)]

theorem readersMoved_foldl {a b : DataPtr} (ha : ∀ d, (g.data d).creatorLayer = some lhs ↔ d = a)
    (hb : ∀ d, (g.data d).creatorLayer = some rhs ↔ d = b) (ls : List CNNLayerPtr) :
    ReadersMoved g (ls.foldl (moveReader lhs rhs b) g) rhs a b ls := by
  induction ls generalizing g with
  | nil => exact ⟨rfl, fun _ => rfl, fun l => (if_neg fun h => absurd h.1 List.not_mem_nil).symm⟩
  | cons next ls ih =>
    have h₁ := readersMoved_moveReader ha hb next
    have h := ih (g := moveReader lhs rhs b g next) (by simpa only [h₁.data_eq] using ha)
      (by simpa only [h₁.data_eq] using hb)
    rw [List.foldl_cons]
    refine ⟨h.data_eq.trans h₁.data_eq, fun l => (h.name_eq l).trans (h₁.name_eq l), fun l => ?_⟩
    rw [h.insData_eq, h₁.insData_eq]
    by_cases hl : l = next
    · subst hl
      by_cases hl' : l = rhs
      · simp [hl']
      · simp [hl', movedPorts_idem]
    · simp [hl]

/-! ### The call on two neighbours -/

theorem fixInputs_lhs (hn : Neighbours g lhs rhs input lhsOut rhsOut) (hg : g.WellFormed)
    (hp : SingleProducer g lhs input) :
    fixInputs lhs rhs (g.layer lhs).insData g =
      .ok (g.setInputTo input ((g.data input).inputTo.set (g.layer lhs).name rhs)) := by
  obtain ⟨prev, hprev, hout⟩ := hp.producer
  have hne : prev ≠ rhs := by
    rintro rfl
    exact hn.no_cycle ((hn.rhs_creator hg input).mp hprev)
  have hread : lhs ∈ g.consumers input := by
    rw [hg.consistent, hn.lhs_insData]
    exact List.mem_singleton_self _
  obtain ⟨k, hk⟩ := StdMap.mem_values.mp hread
  have hkey : k = (g.layer lhs).name := (hp.entry _ hk).mp rfl
  have hrename : renameConsumer lhs rhs g input =
      .ok (g.setInputTo input ((g.data input).inputTo.set (g.layer lhs).name rhs)) := by
    rw [renameConsumer, StdMap.find?_eq_some (hkey ▸ hk)]
    rfl
  rw [hn.lhs_insData, fixInputs, hprev]
  simp only [hne, if_false, hout, List.foldlM_cons, List.foldlM_nil, hrename, ok_bind]
  rfl

theorem fixInputs_rhs (hn : Neighbours g lhs rhs input lhsOut rhsOut) (hg : g.WellFormed)
    (inputTo : StdMap String CNNLayerPtr) :
    fixInputs rhs lhs ((g.setInputTo input inputTo).layer rhs).insData (g.setInputTo input inputTo) =
      .ok (g.setInputTo input inputTo) := by
  rw [setInputTo_layer, hn.rhs_insData, fixInputs, setInputTo_creatorLayer, (hn.lhs_creator hg lhsOut).mpr rfl]
  simp only [if_true]
  rfl

theorem movedPorts_of_not_mem {a b : DataPtr} {insData : List DataPtr} (hb : b ∉ insData) :
    movedPorts a b insData = insData.map (Equiv.swap a b) := by
  rw [movedPorts, if_neg hb]
  refine List.map_congr_left fun d hd => ?_
  have hdb : d ≠ b := fun h => hb (h ▸ hd)
  by_cases hda : d = a
  · rw [if_pos hda, hda, Equiv.swap_apply_left]
  · rw [if_neg hda, Equiv.swap_apply_of_ne_of_ne hda hdb]

theorem map_swap_of_not_mem {a b : DataPtr} {insData : List DataPtr} (ha : a ∉ insData) (hb : b ∉ insData) :
    insData.map (Equiv.swap a b) = insData := by
  refine (List.map_congr_left fun d hd => ?_).trans (List.map_id insData)
  exact Equiv.swap_apply_of_ne_of_ne (fun h => ha (h ▸ hd)) fun h => hb (h ▸ hd)

/-- The ports of the layers around the two after the readers are moved. -/
structure Behind (g h : Graph) (lhs rhs : CNNLayerPtr) (lhsOut rhsOut : DataPtr) : Prop where
  name_eq : ∀ l, (h.layer l).name = (g.layer l).name
  lhs_insData : (h.layer lhs).insData = (g.layer lhs).insData
  rhs_insData : (h.layer rhs).insData = (g.layer rhs).insData
  behind_both : ∀ l, lhsOut ∈ (g.layer l).insData → rhsOut ∈ (g.layer l).insData →
    (h.layer l).insData = (g.layer l).insData
  behind_one : ∀ l, l ≠ lhs → l ≠ rhs → ¬(lhsOut ∈ (g.layer l).insData ∧ rhsOut ∈ (g.layer l).insData) →
    (h.layer l).insData = (g.layer l).insData.map (Equiv.swap lhsOut rhsOut)

theorem moveReaders_behind {g₁ : Graph} (hn : Neighbours g lhs rhs input lhsOut rhsOut) (hg : g.WellFormed)
    (hlayer : g₁.layer = g.layer) (hcreator : ∀ d, (g₁.data d).creatorLayer = (g.data d).creatorLayer)
    (hlhs : g₁.consumers lhsOut = g.consumers lhsOut) (hrhs : g₁.consumers rhsOut = g.consumers rhsOut) :
    (g₁.moveReaders lhs rhs lhsOut rhsOut).data = g₁.data ∧
      Behind g (g₁.moveReaders lhs rhs lhsOut rhsOut) lhs rhs lhsOut rhsOut := by
  have hc₁ : ∀ d, (g₁.data d).creatorLayer = some lhs ↔ d = lhsOut := by simpa only [hcreator] using hn.lhs_creator hg
  have hc₂ : ∀ d, (g₁.data d).creatorLayer = some rhs ↔ d = rhsOut := by simpa only [hcreator] using hn.rhs_creator hg
  have h₁ := readersMoved_foldl hc₁ hc₂ (g₁.consumers lhsOut)
  have h₂ := readersMoved_foldl (g := (g₁.consumers lhsOut).foldl (moveReader lhs rhs rhsOut) g₁)
    (by simpa only [h₁.data_eq] using hc₂) (by simpa only [h₁.data_eq] using hc₁) (g₁.consumers rhsOut)
  have hmove : g₁.moveReaders lhs rhs lhsOut rhsOut = (g₁.consumers rhsOut).foldl (moveReader rhs lhs lhsOut)
      ((g₁.consumers lhsOut).foldl (moveReader lhs rhs rhsOut) g₁) := by
    have hconsumers : Graph.consumers ((g₁.consumers lhsOut).foldl (moveReader lhs rhs rhsOut) g₁) rhsOut =
        g₁.consumers rhsOut := by
      rw [consumers, h₁.data_eq, consumers]
    rw [moveReaders, hconsumers]
  rw [← hmove] at h₂
  have hports : ∀ l, ((g₁.moveReaders lhs rhs lhsOut rhsOut).layer l).insData =
      if rhsOut ∈ (g.layer l).insData ∧ l ≠ lhs then
        movedPorts rhsOut lhsOut
          (if lhsOut ∈ (g.layer l).insData ∧ l ≠ rhs then movedPorts lhsOut rhsOut (g.layer l).insData
            else (g.layer l).insData)
      else if lhsOut ∈ (g.layer l).insData ∧ l ≠ rhs then movedPorts lhsOut rhsOut (g.layer l).insData
        else (g.layer l).insData := by
    intro l
    rw [h₂.insData_eq, h₁.insData_eq, hlhs, hrhs, hlayer]
    simp only [hg.consistent]
  refine ⟨h₂.data_eq.trans h₁.data_eq, fun l => ?_, ?_, ?_, fun l hl hr => ?_, fun l hl hr hboth => ?_⟩
  · rw [h₂.name_eq, h₁.name_eq, hlayer]
  · have hnot : lhsOut ∉ (g.layer lhs).insData := by
      rw [hn.lhs_insData, List.mem_singleton]
      exact (hn.input_ne hg).symm
    rw [hports, if_neg fun h => h.2 rfl, if_neg fun h => hnot h.1]
  · have hnot : rhsOut ∉ (g.layer rhs).insData := by
      rw [hn.rhs_insData, List.mem_singleton]
      exact (hn.outputs_ne hg).symm
    rw [hports, if_neg fun h => hnot h.1, if_neg fun h => h.2 rfl]
  · have hsame : movedPorts lhsOut rhsOut (g.layer l).insData = (g.layer l).insData := if_pos hr
    have hsame' : movedPorts rhsOut lhsOut (g.layer l).insData = (g.layer l).insData := if_pos hl
    rw [hports, hsame, ite_self, hsame', ite_self]
  · rw [hports]
    by_cases hin : lhsOut ∈ (g.layer l).insData
    · have hout : rhsOut ∉ (g.layer l).insData := fun h => hboth ⟨hin, h⟩
      rw [if_neg fun h => hout h.1, if_pos ⟨hin, hr⟩, movedPorts_of_not_mem hout]
    · rw [if_neg (c := lhsOut ∈ _ ∧ _) fun h => hin h.1]
      by_cases hout : rhsOut ∈ (g.layer l).insData
      · rw [if_pos ⟨hout, hl⟩, movedPorts_of_not_mem hin, Equiv.swap_comm]
      · rw [if_neg fun h => hout h.1, map_swap_of_not_mem hin hout]

/-- What the references of the two layers are after the call. -/
structure References (g h g' : Graph) (lhs rhs : CNNLayerPtr) (input lhsOut rhsOut : DataPtr) : Prop where
  lhs_insData : (g'.layer lhs).insData = [rhsOut]
  rhs_insData : (g'.layer rhs).insData = [input]
  other_insData : ∀ l, l ≠ lhs → l ≠ rhs → (g'.layer l).insData = (h.layer l).insData
  lhsOut_inputTo : (g'.data lhsOut).inputTo = (g.data rhsOut).inputTo.eraseIf (· = lhs)
  rhsOut_inputTo : (g'.data rhsOut).inputTo =
    ((g.data lhsOut).inputTo.eraseIf (· = rhs)).set (g.layer lhs).name lhs
  other_inputTo : ∀ d, d ≠ lhsOut → d ≠ rhsOut → (g'.data d).inputTo = (h.data d).inputTo

theorem swapInputs_eq {h : Graph} (hn : Neighbours g lhs rhs input lhsOut rhsOut) (hg : g.WellFormed)
    (hlhs : (h.layer lhs).insData = [input]) (hrhs : (h.layer rhs).insData = [lhsOut])
    (hcreator : ∀ d, (h.data d).creatorLayer = (g.data d).creatorLayer) :
    h.swapInputs lhs rhs lhsOut rhsOut = (h.setInsData lhs [rhsOut]).setInsData rhs [input] := by
  have hback : ¬∃ d ∈ (h.layer lhs).insData, (h.data d).creatorLayer = some rhs := by
    simp only [hcreator, hn.rhs_creator hg, hlhs, List.mem_singleton]
    rintro ⟨d, rfl, h⟩
    exact hn.no_cycle h
  have hfront : ∃ d ∈ (h.layer rhs).insData, (h.data d).creatorLayer = some lhs := by
    simp only [hcreator, hn.lhs_creator hg, hrhs, List.mem_singleton]
    exact ⟨lhsOut, rfl, rfl⟩
  have hfilter : (h.layer rhs).insData.filter (fun d => (h.data d).creatorLayer ≠ some lhs) = [] := by
    simp [hcreator, hn.lhs_creator hg, hrhs]
  simp only [swapInputs, if_neg hback, if_pos hfront, hfilter, List.nil_append]
  rw [hlhs]

theorem swapReferences_references {h : Graph} (hn : Neighbours g lhs rhs input lhsOut rhsOut) (hg : g.WellFormed)
    (hb : Behind g h lhs rhs lhsOut rhsOut) (hcreator : ∀ d, (h.data d).creatorLayer = (g.data d).creatorLayer)
    (hlhs : (h.data lhsOut).inputTo = (g.data lhsOut).inputTo)
    (hrhs : (h.data rhsOut).inputTo = (g.data rhsOut).inputTo) :
    References g h (h.swapReferences lhs rhs lhsOut rhsOut) lhs rhs input lhsOut rhsOut := by
  have hne := hn.layers_ne hg
  have hout := hn.outputs_ne hg
  have hin : rhs ∈ (g.data lhsOut).inputTo.values := (hg.consistent ..).mpr (by
    rw [hn.rhs_insData]
    exact List.mem_singleton_self _)
  have hnot : lhs ∉ (g.data rhsOut).inputTo.values := by
    intro hmem
    have hread := (hg.consistent rhsOut lhs).mp hmem
    rw [hn.lhs_insData] at hread
    exact hn.no_cycle (List.mem_singleton.mp hread).symm
  have houtputs : h.swapOutputs lhs rhs (h.data rhsOut).inputTo (h.data lhsOut).inputTo =
      (((g.data lhsOut).inputTo.eraseIf (· = rhs)).set (g.layer lhs).name lhs,
        (g.data rhsOut).inputTo.eraseIf (· = lhs)) := by
    simp only [swapOutputs, hlhs, hrhs, if_pos hin, if_neg hnot, hb.name_eq]
  have hinputs : ∀ outputs outputs',
      Graph.swapInputs ((h.setInputTo rhsOut outputs).setInputTo lhsOut outputs') lhs rhs lhsOut rhsOut =
        (((h.setInputTo rhsOut outputs).setInputTo lhsOut outputs').setInsData lhs [rhsOut]).setInsData rhs
          [input] := by
    intro outputs outputs'
    refine swapInputs_eq hn hg ?_ ?_ fun d => ?_
    · rw [setInputTo_layer, setInputTo_layer, hb.lhs_insData, hn.lhs_insData]
    · rw [setInputTo_layer, setInputTo_layer, hb.rhs_insData, hn.rhs_insData]
    · rw [setInputTo_creatorLayer, setInputTo_creatorLayer, hcreator]
  simp only [swapReferences, houtputs, hinputs]
  refine ⟨?_, ?_, fun l hl hr => ?_, ?_, ?_, fun d hd hd' => ?_⟩
  · rw [setDims_layer, setInsData_layer_ne hne, setInsData_insData_self]
  · rw [setDims_layer, setInsData_insData_self]
  · rw [setDims_layer, setInsData_layer_ne hr, setInsData_layer_ne hl, setInputTo_layer, setInputTo_layer]
  · rw [setDims_inputTo, setInsData_data, setInsData_data, setInputTo_inputTo_self]
  · rw [setDims_inputTo, setInsData_data, setInsData_data, setInputTo_data_ne hout.symm, setInputTo_inputTo_self]
  · rw [setDims_inputTo, setInsData_data, setInsData_data, setInputTo_data_ne hd, setInputTo_data_ne hd']

theorem mem_map_swap {a b d : DataPtr} {insData : List DataPtr} :
    d ∈ insData.map (Equiv.swap a b) ↔ Equiv.swap a b d ∈ insData := by
  rw [List.mem_map]
  constructor
  · rintro ⟨x, hx, rfl⟩
    rwa [Equiv.swap_apply_self]
  · exact fun h => ⟨_, h, Equiv.swap_apply_self ..⟩

/-- The ports of a layer that is not one of the two, by what they read. -/
theorem References.mem_insData_iff {h : Graph} (hr : References g h g' lhs rhs input lhsOut rhsOut)
    (hb : Behind g h lhs rhs lhsOut rhsOut) {l : CNNLayerPtr} (hl : l ≠ lhs) (hl' : l ≠ rhs) (d : DataPtr) :
    d ∈ (g'.layer l).insData ↔ Equiv.swap lhsOut rhsOut d ∈ (g.layer l).insData := by
  rw [hr.other_insData l hl hl']
  by_cases hboth : lhsOut ∈ (g.layer l).insData ∧ rhsOut ∈ (g.layer l).insData
  · rw [hb.behind_both l hboth.1 hboth.2]
    by_cases hd : d = lhsOut
    · rw [hd, Equiv.swap_apply_left]
      exact iff_of_true hboth.1 hboth.2
    · by_cases hd' : d = rhsOut
      · rw [hd', Equiv.swap_apply_right]
        exact iff_of_true hboth.2 hboth.1
      · rw [Equiv.swap_apply_of_ne_of_ne hd hd']
  · rw [hb.behind_one l hl hl' hboth, mem_map_swap]

theorem mem_values_eraseIf {m : StdMap String CNNLayerPtr} {l l' : CNNLayerPtr} :
    l ∈ (m.eraseIf (· = l')).values ↔ l ∈ m.values ∧ l ≠ l' := by
  simp only [StdMap.mem_values, StdMap.mem_eraseIf, exists_and_right]

theorem References.mem_consumers_iff {h : Graph} (hr : References g h g' lhs rhs input lhsOut rhsOut)
    (hn : Neighbours g lhs rhs input lhsOut rhsOut) (hg : g.WellFormed) (hp : SingleProducer g lhs input)
    (hkeys : ∀ l ≠ rhs, lhsOut ∈ (g.layer l).insData →
      ∃ e ∈ (g.data lhsOut).inputTo.entries, e.2 = l ∧ e.1 ≠ (g.layer lhs).name)
    (hinput : (h.data input).inputTo = (g.data input).inputTo.set (g.layer lhs).name rhs)
    (hother : ∀ d ≠ input, (h.data d).inputTo = (g.data d).inputTo) (d : DataPtr) (l : CNNLayerPtr) :
    l ∈ g'.consumers d ↔
      l = lhs ∧ d = rhsOut ∨ l = rhs ∧ d = input ∨
        (l ≠ lhs ∧ l ≠ rhs) ∧ Equiv.swap lhsOut rhsOut d ∈ (g.layer l).insData := by
  have hout := hn.outputs_ne hg
  have hin := hn.input_ne hg
  have hlhs : ∀ d, d ∈ (g.layer lhs).insData ↔ d = input := by simp [hn.lhs_insData]
  have hrhs : ∀ d, d ∈ (g.layer rhs).insData ↔ d = lhsOut := by simp [hn.rhs_insData]
  have hread : ∀ d l, l ∈ (g.data d).inputTo.values ↔ d ∈ (g.layer l).insData := hg.consistent
  by_cases hd : d = lhsOut
  · rw [hd, consumers, hr.lhsOut_inputTo, mem_values_eraseIf, Equiv.swap_apply_left, hread]
    constructor
    · rintro ⟨hmem, hl⟩
      refine .inr (.inr ⟨⟨hl, ?_⟩, hmem⟩)
      rintro rfl
      exact hout ((hrhs rhsOut).mp hmem).symm
    · rintro (⟨-, h⟩ | ⟨-, h⟩ | ⟨⟨hl, -⟩, hmem⟩)
      · exact absurd h hout
      · exact absurd h.symm hin
      · exact ⟨hmem, hl⟩
  · by_cases hd' : d = rhsOut
    · rw [hd', consumers, hr.rhsOut_inputTo, Equiv.swap_apply_right, StdMap.mem_values]
      simp only [StdMap.mem_set, StdMap.mem_eraseIf]
      constructor
      · rintro ⟨k, heq | ⟨-, hmem, hl⟩⟩
        · exact .inl ⟨(Prod.ext_iff.mp heq).2, trivial⟩
        · have hmem' := (hread lhsOut l).mp (StdMap.mem_values.mpr ⟨k, hmem⟩)
          refine .inr (.inr ⟨⟨?_, hl⟩, hmem'⟩)
          rintro rfl
          exact hin ((hlhs lhsOut).mp hmem').symm
      · rintro (⟨rfl, -⟩ | ⟨-, h⟩ | ⟨⟨-, hl⟩, hmem⟩)
        · exact ⟨_, .inl rfl⟩
        · exact absurd h.symm hn.no_cycle
        · obtain ⟨e, he, rfl, hkey⟩ := hkeys l hl hmem
          exact ⟨e.1, .inr ⟨hkey, he, hl⟩⟩
    · rw [consumers, hr.other_inputTo d hd hd', Equiv.swap_apply_of_ne_of_ne hd hd']
      by_cases hdi : d = input
      · rw [hdi, hinput, StdMap.mem_values]
        simp only [StdMap.mem_set]
        constructor
        · rintro ⟨k, heq | ⟨hkey, hmem⟩⟩
          · exact .inr (.inl ⟨(Prod.ext_iff.mp heq).2, trivial⟩)
          · have hmem' := (hread input l).mp (StdMap.mem_values.mpr ⟨k, hmem⟩)
            refine .inr (.inr ⟨⟨fun hl => hkey ((hp.entry _ hmem).mp hl), ?_⟩, hmem'⟩)
            rintro rfl
            exact hin ((hrhs input).mp hmem')
        · rintro (⟨-, h⟩ | ⟨rfl, -⟩ | ⟨⟨hl, -⟩, hmem⟩)
          · exact absurd h hn.no_cycle
          · exact ⟨_, .inl rfl⟩
          · obtain ⟨k, hk⟩ := StdMap.mem_values.mp ((hread input l).mpr hmem)
            exact ⟨k, .inr ⟨fun hkey => hl ((hp.entry _ hk).mpr hkey), hk⟩⟩
      · rw [hother d hdi, hread]
        constructor
        · intro hmem
          refine .inr (.inr ⟨⟨?_, ?_⟩, hmem⟩)
          · rintro rfl
            exact hdi ((hlhs d).mp hmem)
          · rintro rfl
            exact hd ((hrhs d).mp hmem)
        · rintro (⟨-, h⟩ | ⟨-, h⟩ | ⟨-, hmem⟩)
          · exact absurd h hd'
          · exact absurd h hdi
          · exact hmem

/-- **Swapping two neighbours**: the call returns, and leaves the two in the other order. -/
theorem swapLayers_swapped (hn : Neighbours g lhs rhs input lhsOut rhsOut) (hg : g.WellFormed)
    (hp : SingleProducer g lhs input)
    (hkeys : ∀ l ≠ rhs, lhsOut ∈ (g.layer l).insData →
      ∃ e ∈ (g.data lhsOut).inputTo.entries, e.2 = l ∧ e.1 ≠ (g.layer lhs).name) :
    ∃ g', g.CNNNetSwapLayers (some lhs) (some rhs) = .ok g' ∧ Swapped g g' lhs rhs input lhsOut rhsOut := by
  have hne := hn.layers_ne hg
  have hout := hn.outputs_ne hg
  have hin := hn.input_ne hg
  obtain ⟨g₁, hg₁⟩ : ∃ g₁, g₁ = g.setInputTo input ((g.data input).inputTo.set (g.layer lhs).name rhs) := ⟨_, rfl⟩
  have hmap : ∀ d ≠ input, (g₁.data d).inputTo = (g.data d).inputTo := by
    intro d hd
    rw [hg₁, setInputTo_data_ne hd]
  have hconsumers : ∀ d ≠ input, g₁.consumers d = g.consumers d := by
    intro d hd
    rw [consumers, hmap d hd, consumers]
  have hlayer : g₁.layer = g.layer := by rw [hg₁, setInputTo_layer]
  have hcreator : ∀ d, (g₁.data d).creatorLayer = (g.data d).creatorLayer := by
    intro d
    rw [hg₁, setInputTo_creatorLayer]
  obtain ⟨hdata, hb⟩ := moveReaders_behind hn hg hlayer hcreator (hconsumers lhsOut hin.symm) (hconsumers rhsOut hn.no_cycle.symm)
  obtain ⟨h, hh⟩ : ∃ h, h = g₁.moveReaders lhs rhs lhsOut rhsOut := ⟨_, rfl⟩
  rw [← hh] at hdata hb
  have hr := swapReferences_references hn hg hb (fun d => by rw [hdata, hcreator])
    (by rw [hdata, hmap _ hin.symm]) (by rw [hdata, hmap _ hn.no_cycle.symm])
  have hfix := fixInputs_lhs hn hg hp
  have hfix' := fixInputs_rhs hn hg ((g.data input).inputTo.set (g.layer lhs).name rhs)
  rw [← hg₁] at hfix hfix'
  refine ⟨h.swapReferences lhs rhs lhsOut rhsOut, ?_, hr.rhs_insData, hr.lhs_insData, fun l hl hl' => ?_,
    fun l hl hl' hboth => ?_, fun d l => ?_⟩
  · simp only [CNNNetSwapLayers, if_neg hne, hn.lhs_outData, hn.rhs_outData, List.length_singleton, gt_iff_lt,
      lt_irrefl, if_false, swapWithOutputs, hfix, hfix', ok_bind, ← hh]
    rfl
  · have hne₁ : l ≠ lhs := by
      rintro rfl
      rw [hn.lhs_insData] at hl
      exact hin (List.mem_singleton.mp hl).symm
    have hne₂ : l ≠ rhs := by
      rintro rfl
      rw [hn.rhs_insData] at hl'
      exact hout (List.mem_singleton.mp hl').symm
    rw [hr.other_insData l hne₁ hne₂, hb.behind_both l hl hl']
  · rw [hr.other_insData l hl hl', hb.behind_one l hl hl' hboth]
  · rw [hr.mem_consumers_iff hn hg hp hkeys (by rw [hdata, hg₁, setInputTo_inputTo_self])
      fun d hd => by rw [hdata, hmap d hd]]
    by_cases hl : l = lhs
    · subst hl
      simp [hr.lhs_insData, hne]
    · by_cases hl' : l = rhs
      · subst hl'
        simp [hr.rhs_insData, hl]
      · simp [hr.mem_insData_iff hb hl hl', hl, hl']

/-! ### Another reader of the first output -/

/-- `sibling` reads the output of `lhs`, as `rhs` does. -/
def withSibling : Graph where
  layer l :=
    [⟨"input", [], [0]⟩, ⟨"lhs", [0], [1]⟩, ⟨"rhs", [1], [2]⟩, ⟨"sibling", [1], []⟩].getD l ⟨"", [], []⟩
  data d :=
    [⟨"input", [1, 8], some 0, StdMap.empty.set "lhs" 1⟩,
      ⟨"lhs", [1, 8], some 1, ⟨[("rhs", 2), ("sibling", 3)], by decide⟩⟩,
      ⟨"rhs", [1, 8], some 2, .empty⟩].getD d ⟨"", [], none, .empty⟩

theorem withSibling_wellFormed : withSibling.WellFormed where
  consistent := by
    rintro (_ | _ | _ | d) (_ | _ | _ | _ | l) <;>
      simp [withSibling, consumers, StdMap.values, StdMap.set, StdMap.setEntry, StdMap.empty]
  creator_iff := by
    rintro (_ | _ | _ | d) (_ | _ | _ | _ | l) <;> simp [withSibling]
  nodup_outData := by
    rintro (_ | _ | _ | _ | l) <;> simp [withSibling]
  no_self_loop := by
    rintro (_ | _ | _ | _ | l) <;> simp [withSibling]

theorem withSibling_neighbours : Neighbours withSibling 1 2 0 1 2 := ⟨rfl, rfl, rfl, rfl, by decide⟩

theorem withSibling_swapped :
    ∃ g', withSibling.CNNNetSwapLayers (some 1) (some 2) = .ok g' ∧ Swapped withSibling g' 1 2 0 1 2 := by
  refine swapLayers_swapped withSibling_neighbours withSibling_wellFormed ⟨⟨0, rfl, rfl⟩, ?_⟩ ?_
  · simp [withSibling, StdMap.set, StdMap.setEntry, StdMap.empty]
  · rintro (_ | _ | _ | _ | l) <;> simp [withSibling]

/-- The edge from `lhs` to `sibling` is not left as it was. -/
theorem sibling_moved : withSibling.WellFormed ∧ Neighbours withSibling 1 2 0 1 2 ∧
    (withSibling.layer 3).insData = [1] ∧
    ∃ g', withSibling.CNNNetSwapLayers (some 1) (some 2) = .ok g' ∧ (g'.layer 3).insData = [2] :=
  ⟨withSibling_wellFormed, withSibling_neighbours, rfl, _, rfl, rfl⟩

end Graph

end OpenVino.InferenceEngine.Heap
