import OpenVino.InferenceEngine.GraphEdit.CopyNodes

/-!
# The edges of the copy

The second traversal of `CNNNetCopy` lets the copy of a layer point to copies only: its outputs to the copies of
their readers and to itself as creator (`remapOutputs_ok`), its ports to the copies of the `Data` they read
(`remapInputs_ok`). `createEdges_edges` is the visit of one layer, `createEdges_loop` the loop.
-/

namespace OpenVino.InferenceEngine.Heap

variable {n : Network} {R pre : List CNNLayerPtr} {φ ψ : Nat → Nat} {s s' : CopyState} {l : CNNLayerPtr}
  {d : DataPtr}

/-- The layers `R` have no link to another layer. -/
structure Closed (n : Network) (R : List CNNLayerPtr) : Prop where
  mem_layers : ∀ l ∈ R, l ∈ n.layers
  readers : ∀ l ∈ R, ∀ d ∈ (n.graph.layer l).outData, ∀ m ∈ n.graph.consumers d, m ∈ R
  creators : ∀ l ∈ R, ∀ d ∈ (n.graph.layer l).insData, ∃ c ∈ R, (n.graph.data d).creatorLayer = some c

/-- The copy of a `Data` that `l` creates. -/
def copyOf (n : Network) (φ : Nat → Nat) (l : CNNLayerPtr) (d : DataPtr) : Data :=
  { n.graph.data d with
    creatorLayer := some (φ l)
    inputTo := (n.graph.data d).inputTo.mapValues φ }

/-! ### The outputs of one layer -/

/-- What remapping an output does. -/
structure OutputRemapped (n : Network) (φ ψ : Nat → Nat) (s s' : CopyState) (l : CNNLayerPtr) (outputs : List DataPtr) :
    Prop where
  layer_eq : s'.graph.layer = s.graph.layer
  data_eq : ∀ d ∈ outputs, s'.graph.data (ψ d) = copyOf n φ l d
  data_other : ∀ x, x ∉ outputs.map ψ → s'.graph.data x = s.graph.data x
  nextLayer_eq : s'.nextLayer = s.nextLayer
  nextData_eq : s'.nextData = s.nextData
  oldToNew_eq : s'.oldToNewLayers = s.oldToNewLayers
  net_eq : s'.net = { s.net with data := s.net.data.setAll (outputs.map fun d => ((n.graph.data d).name, ψ d)) }

theorem remapOutput_ok (hc : Closed n R) (hold : ∀ l ∈ R, s.oldToNewLayers l = some (φ l)) (hl : l ∈ R)
    (hd : d ∈ (n.graph.layer l).outData) (hdata : s.graph.data (ψ d) = n.graph.data d) :
    ∃ s', CopyState.remapOutput (φ l) s (ψ d) = .ok s' ∧ OutputRemapped n φ ψ s s' l [d] := by
  have hreaders : ∀ m ∈ (n.graph.data d).inputTo.values, s.oldToNewLayers m = some (φ m) := fun m hm =>
    hold m (hc.readers l hl d hd m hm)
  have hall : ∀ m ∈ (s.graph.data (ψ d)).inputTo.values, (s.oldToNewLayers m).isSome := by
    intro m hm
    rw [hdata] at hm
    rw [hreaders m hm]
    rfl
  have hmap : (s.graph.data (ψ d)).inputTo.mapValues (fun m => (s.oldToNewLayers m).getD m) =
      (n.graph.data d).inputTo.mapValues φ := by
    rw [hdata]
    refine StdMap.mapValues_congr fun m hm => ?_
    rw [hreaders m hm]
    rfl
  refine ⟨_, if_pos hall, rfl, fun e he => ?_, fun x hx => ?_, rfl, rfl, rfl, ?_⟩
  · rw [List.mem_singleton.mp he, copyOf, hmap]
    simp [Graph.setInputTo, Graph.setCreatorLayer, hdata]
  · have hne : x ≠ ψ d := by simpa using hx
    simp [Graph.setInputTo, Graph.setCreatorLayer, hne]
  · simp [StdMap.setAll, hdata]

theorem OutputRemapped.cons {s₁ : CopyState} {outputs : List DataPtr} (h₁ : OutputRemapped n φ ψ s s₁ l [d])
    (h : OutputRemapped n φ ψ s₁ s' l outputs) (hne : ∀ e ∈ outputs, ψ e ≠ ψ d) :
    OutputRemapped n φ ψ s s' l (d :: outputs) := by
  refine ⟨h.layer_eq.trans h₁.layer_eq, fun e he => ?_, fun x hx => ?_, h.nextLayer_eq.trans h₁.nextLayer_eq,
    h.nextData_eq.trans h₁.nextData_eq, h.oldToNew_eq.trans h₁.oldToNew_eq, ?_⟩
  · rcases List.mem_cons.mp he with rfl | he
    · have hnot : ψ e ∉ outputs.map ψ := by
        intro hmem
        obtain ⟨e', he', heq⟩ := List.mem_map.mp hmem
        exact hne e' he' heq
      rw [h.data_other _ hnot, h₁.data_eq e (List.mem_singleton_self _)]
    · exact h.data_eq e he
  · rw [List.map_cons, List.mem_cons, not_or] at hx
    rw [h.data_other x hx.2, h₁.data_other x (by simpa using hx.1)]
  · rw [h.net_eq, h₁.net_eq]
    rfl

theorem remapOutputs_ok (hc : Closed n R) (hold : ∀ l ∈ R, s.oldToNewLayers l = some (φ l)) (hl : l ∈ R)
    {outputs : List DataPtr} (hmem : ∀ d ∈ outputs, d ∈ (n.graph.layer l).outData) (hnd : (outputs.map ψ).Nodup)
    (hdata : ∀ d ∈ outputs, s.graph.data (ψ d) = n.graph.data d) :
    ∃ s', (outputs.map ψ).foldlM (CopyState.remapOutput (φ l)) s = .ok s' ∧ OutputRemapped n φ ψ s s' l outputs := by
  induction outputs generalizing s with
  | nil => exact ⟨s, rfl, rfl, fun d hd => absurd hd List.not_mem_nil, fun _ _ => rfl, rfl, rfl, rfl, rfl⟩
  | cons d outputs ih =>
    rw [List.map_cons, List.nodup_cons] at hnd
    have hne : ∀ e ∈ outputs, ψ e ≠ ψ d := fun e he heq => hnd.1 (heq ▸ List.mem_map_of_mem he)
    obtain ⟨s₁, hrun, h₁⟩ := remapOutput_ok hc hold hl (hmem d List.mem_cons_self) (hdata d List.mem_cons_self)
    have hdata₁ : ∀ e ∈ outputs, s₁.graph.data (ψ e) = n.graph.data e := by
      intro e he
      rw [h₁.data_other (ψ e) (by simpa using hne e he), hdata e (List.mem_cons_of_mem _ he)]
    obtain ⟨s', hrest, h⟩ := ih (by rwa [h₁.oldToNew_eq]) (fun e he => hmem e (List.mem_cons_of_mem _ he)) hnd.2 hdata₁
    refine ⟨s', ?_, h₁.cons h hne⟩
    rw [List.map_cons, List.foldlM_cons, hrun]
    exact hrest

/-! ### The inputs of one layer -/

theorem findOutDataIdx_ok {c : CNNLayerPtr} (hcreator : (s.graph.data d).creatorLayer = some c)
    (hd : d ∈ (s.graph.layer c).outData) :
    ∃ idx, s.findOutDataIdx d = .ok idx ∧ (s.graph.layer c).outData[idx]? = some d := by
  cases hfind : (s.graph.layer c).outData.findIdx? (· = d) with
  | none => exact absurd (List.findIdx?_eq_none_iff.mp hfind d hd) (by simp)
  | some idx =>
    obtain ⟨hlt, heq, -⟩ := List.findIdx?_eq_some_iff_getElem.mp hfind
    refine ⟨idx, ?_, ?_⟩
    · simp only [CopyState.findOutDataIdx, hcreator, hfind]
      rfl
    · rw [List.getElem?_eq_getElem hlt]
      simpa using heq

theorem remapInput_ok (hn : n.WellFormed) (hk : Kept n s) {c : CNNLayerPtr}
    (hcreator : (n.graph.data d).creatorLayer = some c) (hold : s.oldToNewLayers c = some (φ c))
    (hout : (s.graph.layer (φ c)).outData = (n.graph.layer c).outData.map ψ) : s.remapInput d = .ok (ψ d) := by
  have hd : d ∈ (n.graph.layer c).outData := (hn.graph.creator_iff d c).mp hcreator
  have hdata := hk.data_eq d (n.outData_lt c d hd)
  have hlayer := hk.layer_eq c (n.layers_lt c (n.creator_mem d c hcreator))
  have hcreator' : (s.graph.data d).creatorLayer = some c := by rw [hdata, hcreator]
  obtain ⟨idx, hidx, hget⟩ := findOutDataIdx_ok hcreator' (by rwa [hlayer])
  rw [hlayer] at hget
  have hnew : (s.graph.layer (φ c)).outData[idx]? = some (ψ d) := by
    rw [hout, List.getElem?_map, hget]
    rfl
  simp only [CopyState.remapInput, hcreator', CopyState.newLayer, hold, hidx]
  exact elemAt_ok_iff.mpr ⟨Nat.cast_nonneg idx, hnew⟩

/-! ### One layer -/

/-- The layers `pre` of `R` point to copies, the others as after the first pass. -/
structure Edges (n : Network) (R pre : List CNNLayerPtr) (φ ψ : Nat → Nat) (s : CopyState) : Prop where
  kept : Kept n s
  apart : Apart n R φ ψ s
  name_eq : ∀ l ∈ R, (s.graph.layer (φ l)).name = (n.graph.layer l).name
  outData_eq : ∀ l ∈ R, (s.graph.layer (φ l)).outData = (n.graph.layer l).outData.map ψ
  insData_eq : ∀ l ∈ pre, (s.graph.layer (φ l)).insData = (n.graph.layer l).insData.map ψ
  data_eq : ∀ l ∈ pre, ∀ d ∈ (n.graph.layer l).outData, s.graph.data (ψ d) = copyOf n φ l d
  data_rest : ∀ l ∈ R, l ∉ pre → ∀ d ∈ (n.graph.layer l).outData, s.graph.data (ψ d) = n.graph.data d
  net_layers : ∀ k m, (k, m) ∈ s.net.layers.entries ↔ ∃ l ∈ R, k = (n.graph.layer l).name ∧ m = φ l
  net_data : s.net.data = StdMap.empty.setAll
    (pre.flatMap fun l => (n.graph.layer l).outData.map fun d => ((n.graph.data d).name, ψ d))
  net_inputData : s.net.inputData = .empty
  net_outputData : s.net.outputData = .empty

theorem Nodes.edges (hs : Nodes n R φ ψ s) : Edges n R [] φ ψ s := by
  refine ⟨hs.kept, hs.apart, fun l hl => ?_, fun l hl => ?_, fun l hl => absurd hl List.not_mem_nil,
    fun l hl => absurd hl List.not_mem_nil, fun l hl _ => hs.data_eq l hl, hs.net_layers, hs.net_data,
    hs.net_inputData, hs.net_outputData⟩
  · rw [hs.layer_eq l hl]
  · rw [hs.layer_eq l hl]

theorem createEdges_edges (hn : n.WellFormed) (hc : Closed n R) (hs : Edges n R pre φ ψ s) (hl : l ∈ R)
    (hnot : l ∉ pre) (hpre : ∀ m ∈ pre, m ∈ R) :
    ∃ s', s.createEdges l = .ok s' ∧ Edges n R (pre ++ [l]) φ ψ s' := by
  have hold := hs.apart.oldToNew
  have hnd : ((n.graph.layer l).outData.map ψ).Nodup :=
    (hn.graph.nodup_outData l).map_on fun d hd e he => hs.apart.data_inj l hl l hl d hd e he
  obtain ⟨s₁, hrun, h₁⟩ := remapOutputs_ok hc hold hl (fun d hd => hd) hnd (hs.data_rest l hl hnot)
  have hrange := hs.apart.layer_range l hl
  -- the copies of another layer's outputs are not touched
  have hother : ∀ m ∈ R, m ≠ l → ∀ d ∈ (n.graph.layer m).outData, s₁.graph.data (ψ d) = s.graph.data (ψ d) := by
    intro m hm hne d hd
    refine h₁.data_other _ fun hmem => hne ?_
    obtain ⟨e, he, heq⟩ := List.mem_map.mp hmem
    have hed := hs.apart.data_inj l hl m hm e he d hd heq
    have hcreator := (hn.graph.creator_iff d m).mpr hd
    rw [(hn.graph.creator_iff d l).mpr (hed ▸ he), Option.some.injEq] at hcreator
    exact hcreator.symm
  have hkept : Kept n s₁ := by
    refine ⟨fun m hm => ?_, fun d hd => ?_, ?_, ?_⟩
    · rw [h₁.layer_eq, hs.kept.layer_eq m hm]
    · rw [h₁.data_other d, hs.kept.data_eq d hd]
      intro hmem
      obtain ⟨e, he, heq⟩ := List.mem_map.mp hmem
      have hnew := hs.apart.data_range l hl e he
      omega
    · rw [h₁.nextLayer_eq]
      exact hs.kept.nextLayer_le
    · rw [h₁.nextData_eq]
      exact hs.kept.nextData_le
  have hinputs : (s₁.graph.layer l).insData.mapM s₁.remapInput = .ok ((n.graph.layer l).insData.map ψ) := by
    rw [hkept.layer_eq l (n.layers_lt l (hc.mem_layers l hl))]
    refine mapM_eq_map fun d hd => ?_
    obtain ⟨c, hcR, hcreator⟩ := hc.creators l hl d hd
    have hold₁ : s₁.oldToNewLayers c = some (φ c) := by rw [h₁.oldToNew_eq, hold c hcR]
    exact remapInput_ok hn hkept hcreator hold₁ (by rw [h₁.layer_eq, hs.outData_eq c hcR])
  refine ⟨{ s₁ with graph := s₁.graph.setInsData (φ l) ((n.graph.layer l).insData.map ψ) }, ?_, ?_⟩
  · have hnew : s.newLayer l = .ok (φ l) := by
      rw [CopyState.newLayer, hold l hl]
      rfl
    rw [CopyState.createEdges, hnew, ok_bind, hs.outData_eq l hl, hrun, ok_bind, hinputs]
    rfl
  · refine ⟨⟨fun m hm => ?_, hkept.data_eq, hkept.nextLayer_le, hkept.nextData_le⟩, ⟨?_, ?_, hs.apart.layer_inj,
      hs.apart.data_inj, ?_⟩, fun m hm => ?_, fun m hm => ?_, fun m hm => ?_, fun m hm d hd => ?_,
      fun m hm hm' d hd => ?_, ?_, ?_, ?_, ?_⟩
    · have hne : m ≠ φ l := by omega
      rw [Graph.setInsData_layer_ne hne, hkept.layer_eq m hm]
    · rw [h₁.nextLayer_eq]
      exact hs.apart.layer_range
    · rw [h₁.nextData_eq]
      exact hs.apart.data_range
    · rw [h₁.oldToNew_eq]
      exact hold
    · rw [Graph.setInsData_name, h₁.layer_eq, hs.name_eq m hm]
    · rw [Graph.setInsData_outData, h₁.layer_eq, hs.outData_eq m hm]
    · rcases List.mem_append.mp hm with hm | hm
      · have hne : φ m ≠ φ l := fun heq => hnot (hs.apart.layer_inj m (hpre m hm) l hl heq ▸ hm)
        rw [Graph.setInsData_layer_ne hne, h₁.layer_eq, hs.insData_eq m hm]
      · rw [List.mem_singleton.mp hm, Graph.setInsData_insData_self]
    · rw [Graph.setInsData_data]
      rcases List.mem_append.mp hm with hm | hm
      · have hne : m ≠ l := fun heq => hnot (heq ▸ hm)
        rw [hother m (hpre m hm) hne d hd, hs.data_eq m hm d hd]
      · obtain rfl := List.mem_singleton.mp hm
        exact h₁.data_eq d hd
    · rw [List.mem_append, not_or] at hm'
      have hne : m ≠ l := fun heq => hm'.2 (List.mem_singleton.mpr heq)
      rw [Graph.setInsData_data, hother m hm hne d hd, hs.data_rest m hm hm'.1 d hd]
    · rw [h₁.net_eq]
      exact hs.net_layers
    · rw [h₁.net_eq, hs.net_data, List.flatMap_append, List.flatMap_singleton, StdMap.setAll, StdMap.setAll,
        StdMap.setAll, List.foldl_append]
    · rw [h₁.net_eq, hs.net_inputData]
    · rw [h₁.net_eq, hs.net_outputData]

/-- **The second pass.** -/
theorem createEdges_loop (hn : n.WellFormed) (hc : Closed n R) (hs : Edges n R [] φ ψ s) {order : List CNNLayerPtr}
    (hnd : order.Nodup) (hmem : ∀ l, l ∈ order → l ∈ R) :
    ∃ s', order.foldlM CopyState.createEdges s = .ok s' ∧ Edges n R order φ ψ s' := by
  refine exists_foldlM_ok (I := fun pre s => Edges n R pre φ ψ s) hs fun pre l post s hl hs => ?_
  have hpre : ∀ m ∈ pre, m ∈ R := fun m hm => hmem m (hl ▸ List.mem_append_left _ hm)
  have hnot : l ∉ pre := by
    intro hm
    rw [hl, List.nodup_append'] at hnd
    exact hnd.2.2 hm List.mem_cons_self
  exact createEdges_edges hn hc hs (hmem l (hl ▸ List.mem_append_right _ List.mem_cons_self)) hnot hpre

end OpenVino.InferenceEngine.Heap
