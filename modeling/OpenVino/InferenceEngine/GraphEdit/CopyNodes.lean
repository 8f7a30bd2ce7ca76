import OpenVino.InferenceEngine.GraphEdit.Copy

/-!
# The nodes of the copy

After the first traversal of `CNNNetCopy` every traversed layer `l` has a copy `φ l`, and every `Data` that one
of them creates a copy `ψ d`; the copies still point to the original (`Nodes`). `createNode_nodes` is the visit
of one layer, `createNodes_nodes` the loop.
-/

namespace OpenVino.InferenceEngine.Heap

variable {n : Network} {pre : List CNNLayerPtr} {φ ψ : Nat → Nat}
  {s s' : CopyState} {l : CNNLayerPtr} {d : DataPtr}

/-- A network whose two sides of every link agree, with names that are those of one layer or `Data` only. -/
structure Network.WellFormed (n : Network) : Prop where
  graph : n.graph.WellFormed
  layer_names : ∀ l ∈ n.layers, ∀ m ∈ n.layers, (n.graph.layer l).name = (n.graph.layer m).name → l = m
  data_names : ∀ l ∈ n.layers, ∀ m ∈ n.layers, ∀ d ∈ (n.graph.layer l).outData, ∀ e ∈ (n.graph.layer m).outData,
    (n.graph.data d).name = (n.graph.data e).name → d = e
  created : ∀ l, ∀ d ∈ (n.graph.layer l).insData, ∃ c, (n.graph.data d).creatorLayer = some c

/-- The original is as it was, and the next pointers have grown. -/
structure Kept (n : Network) (s : CopyState) : Prop where
  layer_eq : ∀ l < n.nextLayer, s.graph.layer l = n.graph.layer l
  data_eq : ∀ d < n.nextData, s.graph.data d = n.graph.data d
  nextLayer_le : n.nextLayer ≤ s.nextLayer
  nextData_le : n.nextData ≤ s.nextData

/-- The copies of the layers `pre` and of their outputs are new objects, one for each. -/
structure Apart (n : Network) (pre : List CNNLayerPtr) (φ ψ : Nat → Nat)
    (s : CopyState) : Prop where
  layer_range : ∀ l ∈ pre, n.nextLayer ≤ φ l ∧ φ l < s.nextLayer
  data_range : ∀ l ∈ pre, ∀ d ∈ (n.graph.layer l).outData, n.nextData ≤ ψ d ∧ ψ d < s.nextData
  layer_inj : ∀ l ∈ pre, ∀ m ∈ pre, φ l = φ m → l = m
  data_inj : ∀ l ∈ pre, ∀ m ∈ pre, ∀ d ∈ (n.graph.layer l).outData, ∀ e ∈ (n.graph.layer m).outData, ψ d = ψ e → d = e
  oldToNew : ∀ l ∈ pre, s.oldToNewLayers l = some (φ l)

structure Nodes (n : Network) (pre : List CNNLayerPtr) (φ ψ : Nat → Nat)
    (s : CopyState) : Prop where
  kept : Kept n s
  apart : Apart n pre φ ψ s
  layer_eq : ∀ l ∈ pre, s.graph.layer (φ l) = { n.graph.layer l with outData := (n.graph.layer l).outData.map ψ }
  data_eq : ∀ l ∈ pre, ∀ d ∈ (n.graph.layer l).outData, s.graph.data (ψ d) = n.graph.data d
  net_layers : ∀ k m, (k, m) ∈ s.net.layers.entries ↔ ∃ l ∈ pre, k = (n.graph.layer l).name ∧ m = φ l
  net_data : s.net.data = .empty
  net_inputData : s.net.inputData = .empty
  net_outputData : s.net.outputData = .empty

/-- The copies of a layer's outputs, if its copy is made now. -/
def extend (n : Network) (ψ : Nat → Nat) (l : CNNLayerPtr) (base : Nat) (d : DataPtr) : Nat :=
  if d ∈ (n.graph.layer l).outData then base + (n.graph.layer l).outData.idxOf d else ψ d

theorem map_extend (hn : n.WellFormed) (l : CNNLayerPtr) (base : Nat) :
    (n.graph.layer l).outData.map (extend n ψ l base) = List.range' base (n.graph.layer l).outData.length := by
  refine List.ext_getElem (by simp) fun i hi hi' => ?_
  rw [List.length_map] at hi
  rw [List.getElem_map, List.getElem_range', extend, if_pos (List.getElem_mem hi),
    (hn.graph.nodup_outData l).idxOf_getElem, Nat.one_mul]

theorem extend_of_mem {m : CNNLayerPtr} (hn : n.WellFormed) (hne : m ≠ l) (hd : d ∈ (n.graph.layer m).outData)
    (base : Nat) : extend n ψ l base d = ψ d := by
  refine if_neg fun hmem => hne ?_
  have hm := (hn.graph.creator_iff d m).mpr hd
  rw [(hn.graph.creator_iff d l).mpr hmem, Option.some.injEq] at hm
  exact hm.symm

theorem copyDatas_of_lt {g : Graph} {sources : List DataPtr} {base : Nat} (h : d < base) :
    (g.copyDatas sources base).data d = g.data d := if_neg (Nat.not_le.mpr h)

theorem copyDatas_idxOf {g : Graph} {sources : List DataPtr} {base : Nat} (h : d ∈ sources) :
    (g.copyDatas sources base).data (base + sources.idxOf d) = g.data d := by
  have hget : sources[sources.idxOf d]? = some d := by
    rw [List.getElem?_eq_getElem (List.idxOf_lt_length_iff.mpr h), List.getElem_idxOf]
  have hdata : (g.copyDatas sources base).data (base + sources.idxOf d) =
      ((sources[base + sources.idxOf d - base]?).map g.data).getD (g.data (base + sources.idxOf d)) :=
    if_pos (Nat.le_add_right ..)
  rw [hdata, Nat.add_sub_cancel_left, hget]
  rfl

/-- What the visit of one layer does. -/
structure NodeCreated (s s' : CopyState) (l : CNNLayerPtr) : Prop where
  layer_new : s'.graph.layer s.nextLayer = { s.graph.layer l with
    outData := List.range' s.nextData (s.graph.layer l).outData.length }
  layer_other : ∀ m ≠ s.nextLayer, s'.graph.layer m = s.graph.layer m
  data_lt : ∀ d < s.nextData, s'.graph.data d = s.graph.data d
  data_new : ∀ d ∈ (s.graph.layer l).outData,
    s'.graph.data (s.nextData + (s.graph.layer l).outData.idxOf d) = s.graph.data d
  nextLayer_eq : s'.nextLayer = s.nextLayer + 1
  nextData_eq : s'.nextData = s.nextData + (s.graph.layer l).outData.length
  oldToNew_eq : s'.oldToNewLayers = Function.update s.oldToNewLayers l (some s.nextLayer)
  net_eq : s'.net = { s.net with layers := s.net.layers.set (s.graph.layer l).name s.nextLayer }

theorem createNode_created (s : CopyState) (l : CNNLayerPtr) : ∃ s', s.createNode l = .ok s' ∧ NodeCreated s s' l := by
  refine ⟨_, rfl, ?_, fun m hm => Function.update_of_ne hm .., fun d hd => copyDatas_of_lt hd,
    fun d hd => copyDatas_idxOf hd, rfl, rfl, rfl, ?_⟩
  · exact Function.update_self ..
  · simp [CopyState.injectData]

/-- **One layer of the first pass.** -/
theorem createNode_nodes (hn : n.WellFormed) (hs : Nodes n pre φ ψ s) (hpre : ∀ m ∈ pre, m ∈ n.layers)
    (hl : l ∈ n.layers) (hnot : l ∉ pre) :
    ∃ s', s.createNode l = .ok s' ∧
      Nodes n (pre ++ [l]) (Function.update φ l s.nextLayer) (extend n ψ l s.nextData) s' := by
  obtain ⟨s', hrun, hc⟩ := createNode_created s l
  have hlayer : s.graph.layer l = n.graph.layer l := hs.kept.layer_eq l (n.layers_lt l hl)
  have hnextLayer := hs.kept.nextLayer_le
  have hnextData := hs.kept.nextData_le
  have hnext := hc.nextLayer_eq
  have hnext' := hc.nextData_eq
  rw [hlayer] at hnext'
  have hne : ∀ m ∈ pre, m ≠ l := by
    rintro m hm rfl
    exact hnot hm
  have hφ : ∀ m ∈ pre, Function.update φ l s.nextLayer m = φ m := fun m hm => Function.update_of_ne (hne m hm) ..
  have hψ : ∀ m ∈ pre, ∀ d ∈ (n.graph.layer m).outData, extend n ψ l s.nextData d = ψ d := fun m hm d hd =>
    extend_of_mem hn (hne m hm) hd _
  have hψl : ∀ d ∈ (n.graph.layer l).outData,
      extend n ψ l s.nextData d = s.nextData + (n.graph.layer l).outData.idxOf d := fun d hd => if_pos hd
  have hidx : ∀ d ∈ (n.graph.layer l).outData,
      (n.graph.layer l).outData.idxOf d < (n.graph.layer l).outData.length := fun d hd =>
    List.idxOf_lt_length_iff.mpr hd
  have hmem : ∀ m, m ∈ pre ++ [l] ↔ m ∈ pre ∨ m = l := by simp
  refine ⟨s', hrun, ⟨fun m hm => ?_, fun d hd => ?_, ?_, ?_⟩,
    ⟨fun m hm => ?_, fun m hm d hd => ?_, fun m hm k hk heq => ?_, fun m hm k hk d hd e he heq => ?_, fun m hm => ?_⟩,
    fun m hm => ?_, fun m hm d hd => ?_, fun k m => ?_, ?_, ?_, ?_⟩
  · rw [hc.layer_other m (by omega), hs.kept.layer_eq m hm]
  · rw [hc.data_lt d (by omega), hs.kept.data_eq d hd]
  · omega
  · omega
  · rcases (hmem m).mp hm with hm | rfl
    · rw [hφ m hm]
      have hrange := hs.apart.layer_range m hm
      omega
    · rw [Function.update_self]
      omega
  · rcases (hmem m).mp hm with hm | rfl
    · rw [hψ m hm d hd]
      have hrange := hs.apart.data_range m hm d hd
      omega
    · rw [hψl d hd]
      have hlt := hidx d hd
      omega
  · rcases (hmem m).mp hm with hm' | hm'
    · have hrange := hs.apart.layer_range m hm'
      rw [hφ m hm'] at heq
      rcases (hmem k).mp hk with hk' | hk'
      · rw [hφ k hk'] at heq
        exact hs.apart.layer_inj m hm' k hk' heq
      · rw [hk', Function.update_self] at heq
        omega
    · rw [hm', Function.update_self] at heq
      rcases (hmem k).mp hk with hk' | hk'
      · have hrange := hs.apart.layer_range k hk'
        rw [hφ k hk'] at heq
        omega
      · rw [hm', hk']
  · rcases (hmem m).mp hm with hm' | hm'
    · have hrange := hs.apart.data_range m hm' d hd
      rw [hψ m hm' d hd] at heq
      rcases (hmem k).mp hk with hk' | hk'
      · rw [hψ k hk' e he] at heq
        exact hs.apart.data_inj m hm' k hk' d hd e he heq
      · rw [hψl e (hk' ▸ he)] at heq
        omega
    · rw [hψl d (hm' ▸ hd)] at heq
      rcases (hmem k).mp hk with hk' | hk'
      · have hrange := hs.apart.data_range k hk' e he
        rw [hψ k hk' e he] at heq
        omega
      · rw [hψl e (hk' ▸ he)] at heq
        exact (List.idxOf_inj (hm' ▸ hd)).mp (Nat.add_left_cancel heq)
  · rw [hc.oldToNew_eq]
    rcases (hmem m).mp hm with hm | rfl
    · rw [Function.update_of_ne (hne m hm), hs.apart.oldToNew m hm, hφ m hm]
    · rw [Function.update_self, Function.update_self]
  · rcases (hmem m).mp hm with hm | rfl
    · have hrange := hs.apart.layer_range m hm
      rw [hφ m hm, hc.layer_other (φ m) (by omega), hs.layer_eq m hm, List.map_congr_left (hψ m hm)]
    · rw [Function.update_self, hc.layer_new, hlayer, map_extend hn]
  · rcases (hmem m).mp hm with hm | rfl
    · have hrange := hs.apart.data_range m hm d hd
      rw [hψ m hm d hd, hc.data_lt (ψ d) (by omega), hs.data_eq m hm d hd]
    · have hnew := hc.data_new d (by rwa [hlayer])
      rw [hlayer] at hnew
      rw [hψl d hd, hnew, hs.kept.data_eq d (n.outData_lt m d hd)]
  · simp only [hc.net_eq, hlayer, StdMap.mem_set, hs.net_layers, Prod.mk.injEq]
    constructor
    · rintro (⟨rfl, rfl⟩ | ⟨-, m', hm', rfl, rfl⟩)
      · exact ⟨l, (hmem l).mpr (.inr rfl), rfl, by rw [Function.update_self]⟩
      · exact ⟨m', (hmem m').mpr (.inl hm'), rfl, (hφ m' hm').symm⟩
    · rintro ⟨m', hm', rfl, rfl⟩
      rcases (hmem m').mp hm' with hm' | rfl
      · refine .inr ⟨fun hname => hne m' hm' ?_, m', hm', rfl, hφ m' hm'⟩
        exact hn.layer_names m' (hpre m' hm') l hl hname
      · exact .inl ⟨rfl, by rw [Function.update_self]⟩
  · rw [hc.net_eq, hs.net_data]
  · rw [hc.net_eq, hs.net_inputData]
  · rw [hc.net_eq, hs.net_outputData]

theorem nodes_startCopy (n : Network) (φ ψ : Nat → Nat) : Nodes n [] φ ψ n.startCopy := by
  refine ⟨⟨fun _ _ => rfl, fun _ _ => rfl, Nat.le_refl _, Nat.le_refl _⟩, ⟨?_, ?_, ?_, ?_, ?_⟩, ?_, ?_, ?_, rfl, rfl, rfl⟩
  all_goals simp [Network.startCopy, StdMap.empty]

/-- **The first pass.** -/
theorem createNodes_nodes (hn : n.WellFormed) {order : List CNNLayerPtr} (hnd : order.Nodup)
    (hmem : ∀ l ∈ order, l ∈ n.layers) :
    ∃ s, order.foldlM CopyState.createNode n.startCopy = .ok s ∧ ∃ φ ψ, Nodes n order φ ψ s := by
  refine exists_foldlM_ok (I := fun pre s => ∃ φ ψ, Nodes n pre φ ψ s) ⟨id, id, nodes_startCopy n id id⟩ ?_
  rintro pre l post s hl ⟨φ, ψ, hs⟩
  have hl' : l ∈ order := by
    rw [hl]
    exact List.mem_append_right _ List.mem_cons_self
  have hpre : ∀ m ∈ pre, m ∈ n.layers := by
    intro m hm
    refine hmem m ?_
    rw [hl]
    exact List.mem_append_left _ hm
  have hnot : l ∉ pre := by
    intro hm
    rw [hl, List.nodup_append'] at hnd
    exact hnd.2.2 hm List.mem_cons_self
  obtain ⟨s', hrun, hs'⟩ := createNode_nodes hn hs hpre (hmem l hl') hnot
  exact ⟨s', hrun, _, _, hs'⟩

end OpenVino.InferenceEngine.Heap
