import OpenVino.InferenceEngine.GraphEdit.CopyEdges

/-!
# The copy of a network

What the network inputs are connected with is what the input layers lead to, if there is no loop
(`reached_of_connected`), and has no link to another layer (`closed_reached`). So both traversals return, the
inputs and the outputs are found among the copies, and the batch size is the one the copy has already:
`CNNNetCopy_isCopy`.
-/

namespace OpenVino.InferenceEngine.Heap

open Relation

variable {n : Network} {φ ψ : Nat → Nat} {s s' : CopyState} {l : CNNLayerPtr} {d : DataPtr}

namespace Network

/-- What the input layers of the network lead to. -/
def Reached (n : Network) (l : CNNLayerPtr) : Prop :=
  ∃ head, n.toICNNNetwork.InputLayer head ∧ ReflTransGen n.toICNNNetwork.Feeds head l

/-- What the first consumer of a network input is connected with. -/
def Connected (n : Network) (l : CNNLayerPtr) : Prop :=
  ∃ d ∈ n.inputsInfo.values, ∃ first rest, n.graph.consumers d = first :: rest ∧
    ReflTransGen n.toICNNNetwork.Near first l

theorem feeds_iff {p c : CNNLayerPtr} : n.toICNNNetwork.Feeds p c ↔
    ∃ d ∈ (n.graph.layer p).outData, d ∈ (n.graph.layer c).insData := by
  simp [ICNNNetwork.Feeds, toICNNNetwork]

theorem near_iff {l m : CNNLayerPtr} : n.toICNNNetwork.Near l m ↔
    (∃ d ∈ (n.graph.layer l).outData, m ∈ n.graph.consumers d) ∨
      ∃ d ∈ (n.graph.layer l).insData, (n.graph.data d).creatorLayer = some m := by
  simp [ICNNNetwork.Near, ICNNNetwork.outLayers, toICNNNetwork]

theorem inputLayer_iff : n.toICNNNetwork.InputLayer l ↔ (n.graph.layer l).insData = [] ∧ n.Connected l := by
  simp only [ICNNNetwork.InputLayer, Connected, toICNNNetwork, List.map_eq_nil_iff]
  refine and_congr_right fun _ => ⟨?_, ?_⟩
  · rintro ⟨d, hd, first, rest, heq, hreach⟩
    obtain ⟨m, ms, hm, hfirst, -⟩ := List.map_eq_cons_iff.mp heq
    obtain rfl := Option.some_inj.mp hfirst
    exact ⟨d, hd, m, ms, hm, hreach⟩
  · rintro ⟨d, hd, first, rest, heq, hreach⟩
    exact ⟨d, hd, first, rest.map some, by rw [heq, List.map_cons], hreach⟩

theorem WellFormed.consistent (hn : n.WellFormed) : n.toICNNNetwork.Consistent where
  names := hn.layer_names
  alive l := by simp [toICNNNetwork]
  consumers d l := by simpa [toICNNNetwork] using hn.graph.consistent d l
  creators d l := hn.graph.creator_iff d l

/-- No layer is behind itself. -/
def Loopfree (n : Network) : Prop := ∀ l, ¬TransGen n.toICNNNetwork.Feeds l l

/-- The layers that create what a layer reads. -/
def sources (n : Network) (l : CNNLayerPtr) : List CNNLayerPtr :=
  (n.graph.layer l).insData.filterMap fun d => (n.graph.data d).creatorLayer

theorem edge_sources (hn : n.WellFormed) : Edge n.sources = Function.swap n.toICNNNetwork.Feeds := by
  funext l c
  simp only [Edge, sources, List.mem_filterMap, Function.swap, feeds_iff, hn.graph.creator_iff]
  exact propext (exists_congr fun d => and_comm)

/-- **What the inputs are connected with**: a layer without ports is in front of it. -/
theorem reached_of_connected (hn : n.WellFormed) (hfree : n.Loopfree) (hl : n.Connected l) : n.Reached l := by
  obtain ⟨rank, hrank⟩ : ∃ rank : Nat → Nat, ∀ v ∈ n.layers,
      rank v < n.layers.card ∧ ∀ c ∈ n.sources v, rank c < rank v := exists_rank n.layers
    (fun v _ hcycle => hfree v (transGen_swap.mp (edge_sources hn ▸ hcycle)))
    (fun v _ c hc => by
      obtain ⟨d, -, hcreator⟩ := List.mem_filterMap.mp hc
      exact n.creator_mem d c hcreator)
  induction hr : rank l using Nat.strong_induction_on generalizing l with
  | _ r ih =>
    cases hins : (n.graph.layer l).insData with
    | nil => exact ⟨l, inputLayer_iff.mpr ⟨hins, hl⟩, .refl⟩
    | cons d rest =>
      have hd : d ∈ (n.graph.layer l).insData := hins ▸ List.mem_cons_self
      obtain ⟨c, hcreator⟩ := hn.created l d hd
      have hmem : l ∈ n.layers := n.consumer_mem d l ((hn.graph.consistent d l).mpr hd)
      have hlt : rank c < r := hr ▸ (hrank l hmem).2 c (List.mem_filterMap.mpr ⟨d, hd, hcreator⟩)
      obtain ⟨e, he, first, others, hfirst, hpath⟩ := hl
      obtain ⟨head, hhead, hreach⟩ := ih (rank c) hlt
        ⟨e, he, first, others, hfirst, hpath.tail (near_iff.mpr (.inr ⟨d, hd, hcreator⟩))⟩ rfl
      exact ⟨head, hhead, hreach.tail (feeds_iff.mpr ⟨d, (hn.graph.creator_iff d c).mp hcreator, hd⟩)⟩

theorem near_of_feeds (hn : n.WellFormed) {c : CNNLayerPtr} (h : n.toICNNNetwork.Feeds l c) :
    n.toICNNNetwork.Near l c := by
  obtain ⟨d, hd, hread⟩ := feeds_iff.mp h
  exact near_iff.mpr (.inl ⟨d, hd, (hn.graph.consistent d c).mpr hread⟩)

theorem Reached.connected (hn : n.WellFormed) (h : n.Reached l) : n.Connected l := by
  obtain ⟨head, hhead, hreach⟩ := h
  obtain ⟨-, e, he, first, others, hfirst, hpath⟩ := inputLayer_iff.mp hhead
  exact ⟨e, he, first, others, hfirst, hpath.trans (ReflTransGen.mono (fun _ _ => near_of_feeds hn) _ _ hreach)⟩

theorem Connected.near {m : CNNLayerPtr} (h : n.Connected l) (hnear : n.toICNNNetwork.Near l m) : n.Connected m := by
  obtain ⟨e, he, first, others, hfirst, hpath⟩ := h
  exact ⟨e, he, first, others, hfirst, hpath.tail hnear⟩

theorem Connected.mem_layers (h : n.Connected l) : l ∈ n.layers := by
  obtain ⟨e, -, first, others, hfirst, hpath⟩ := h
  induction hpath with
  | refl => exact n.consumer_mem e first (hfirst ▸ List.mem_cons_self)
  | tail _ hnear _ =>
    rcases near_iff.mp hnear with ⟨d, -, hread⟩ | ⟨d, -, hcreator⟩
    · exact n.consumer_mem d _ hread
    · exact n.creator_mem d _ hcreator

/-- The input layers and what is behind them have no link to another layer. -/
theorem closed_reached (hn : n.WellFormed) (hfree : n.Loopfree) {order : List CNNLayerPtr}
    (horder : ∀ l, l ∈ order ↔ n.Reached l) : Closed n order where
  mem_layers l hl := (((horder l).mp hl).connected hn).mem_layers
  readers l hl d hd m hm := by
    have hconnected := ((horder l).mp hl).connected hn
    exact (horder m).mpr (reached_of_connected hn hfree (hconnected.near (near_iff.mpr (.inl ⟨d, hd, hm⟩))))
  creators l hl d hd := by
    obtain ⟨c, hcreator⟩ := hn.created l d hd
    have hconnected := ((horder l).mp hl).connected hn
    have hc := reached_of_connected hn hfree (hconnected.near (near_iff.mpr (.inr ⟨d, hd, hcreator⟩)))
    exact ⟨c, (horder c).mpr hc, hcreator⟩

end Network

/-! ### The inputs and the outputs -/

/-- The copies of the layers `R` and of their outputs are linked as the originals are. -/
structure Linked (n : Network) (R : List CNNLayerPtr) (φ ψ : Nat → Nat) (s : CopyState) : Prop where
  kept : Kept n s
  apart : Apart n R φ ψ s
  layer_eq : ∀ l ∈ R, s.graph.layer (φ l) =
    { name := (n.graph.layer l).name
      insData := (n.graph.layer l).insData.map ψ
      outData := (n.graph.layer l).outData.map ψ }
  data_eq : ∀ l ∈ R, ∀ d ∈ (n.graph.layer l).outData, s.graph.data (ψ d) = copyOf n φ l d
  net_layers : ∀ k m, (k, m) ∈ s.net.layers.entries ↔ ∃ l ∈ R, k = (n.graph.layer l).name ∧ m = φ l
  net_data : ∀ k e, (k, e) ∈ s.net.data.entries ↔
    ∃ l ∈ R, ∃ d ∈ (n.graph.layer l).outData, k = (n.graph.data d).name ∧ e = ψ d

variable {R : List CNNLayerPtr}

theorem nodup_names (hn : n.WellFormed) (hR : R.Nodup) (hmem : ∀ l ∈ R, l ∈ n.layers) :
    ((R.flatMap fun l => (n.graph.layer l).outData.map fun d => ((n.graph.data d).name, ψ d)).map Prod.fst).Nodup := by
  rw [List.map_flatMap, List.nodup_flatMap]
  refine ⟨fun l hl => ?_, hR.imp_of_mem fun {l m} hl hm hne => ?_⟩
  · rw [List.map_map]
    exact (hn.graph.nodup_outData l).map_on fun d hd e he =>
      hn.data_names l (hmem l hl) l (hmem l hl) d hd e he
  · simp only [Function.onFun, List.map_map, List.disjoint_left, List.mem_map, Function.comp_apply]
    rintro - ⟨d, hd, rfl⟩ ⟨e, he, hname⟩
    have hcreator := (hn.graph.creator_iff d l).mpr hd
    rw [hn.data_names l (hmem l hl) m (hmem m hm) d hd e he hname.symm, (hn.graph.creator_iff e m).mpr he] at hcreator
    exact hne (Option.some_inj.mp hcreator).symm

theorem Edges.linked (hn : n.WellFormed) {order : List CNNLayerPtr} (hs : Edges n R order φ ψ s) (hnd : order.Nodup)
    (hmem : ∀ l ∈ R, l ∈ n.layers) (horder : ∀ l, l ∈ order ↔ l ∈ R) : Linked n R φ ψ s := by
  refine ⟨hs.kept, hs.apart, fun l hl => ?_, fun l hl => hs.data_eq l ((horder l).mpr hl), hs.net_layers, fun k e => ?_⟩
  · rw [← hs.name_eq l hl, ← hs.insData_eq l ((horder l).mpr hl), ← hs.outData_eq l hl]
  · rw [hs.net_data, StdMap.mem_setAll (nodup_names hn hnd fun l hl => hmem l ((horder l).mp hl))]
    simp only [StdMap.empty, List.not_mem_nil, and_false, or_false, List.mem_flatMap, List.mem_map, horder,
      Prod.mk.injEq, eq_comm]

/-- The state with the inputs of the new network. -/
def CopyState.withInputData (s : CopyState) (inputData : StdMap String DataPtr) : CopyState :=
  { s with net := { s.net with inputData } }

def CopyState.withOutputData (s : CopyState) (outputData : StdMap String DataPtr) : CopyState :=
  { s with net := { s.net with outputData } }

theorem Linked.withInputData (hs : Linked n R φ ψ s) {inputData : StdMap String DataPtr} :
    Linked n R φ ψ (s.withInputData inputData) where
  kept := ⟨hs.kept.layer_eq, hs.kept.data_eq, hs.kept.nextLayer_le, hs.kept.nextData_le⟩
  apart := ⟨hs.apart.layer_range, hs.apart.data_range, hs.apart.layer_inj, hs.apart.data_inj, hs.apart.oldToNew⟩
  layer_eq := hs.layer_eq
  data_eq := hs.data_eq
  net_layers := hs.net_layers
  net_data := hs.net_data

/-- The port of a reader is one with the `Data` itself, as names are of one `Data` only. -/
theorem findInsDataIdx_ok (hn : n.WellFormed) (hk : Kept n s) (hl : l ∈ n.graph.consumers d) :
    ∃ idx, s.findInsDataIdx d l = .ok idx ∧ (n.graph.layer l).insData[idx]? = some d := by
  have hread := (hn.graph.consistent d l).mp hl
  have hlayer := hk.layer_eq l (n.layers_lt l (n.consumer_mem d l hl))
  have hcreated : ∀ e ∈ (n.graph.layer l).insData, ∃ c ∈ n.layers, e ∈ (n.graph.layer c).outData := by
    intro e he
    obtain ⟨c, hcreator⟩ := hn.created l e he
    exact ⟨c, n.creator_mem e c hcreator, (hn.graph.creator_iff e c).mp hcreator⟩
  have hequal : ∀ e ∈ (n.graph.layer l).insData, s.graph.areEqualDatas e d ↔ e = d := by
    intro e he
    obtain ⟨c, hc, hec⟩ := hcreated e he
    obtain ⟨c', hc', hdc⟩ := hcreated d hread
    refine ⟨?_, fun heq => .inl heq⟩
    rintro (heq | ⟨-, hname⟩)
    · exact heq
    · rw [hk.data_eq e (n.insData_lt l e he), hk.data_eq d (n.insData_lt l d hread)] at hname
      exact hn.data_names c hc c' hc' e hec d hdc hname
  have hports : (List.range (n.graph.layer l).insData.length).filter (fun j =>
      (n.graph.layer l).insData[j]?.any fun e => decide (s.graph.areEqualDatas e d)) ≠ [] := by
    intro hnil
    obtain ⟨j, hj, hget⟩ := List.mem_iff_getElem.mp hread
    have hnot := List.filter_eq_nil_iff.mp hnil j (List.mem_range.mpr hj)
    rw [List.getElem?_eq_getElem hj, hget] at hnot
    exact hnot (by simpa using (hequal d hread).mpr rfl)
  obtain ⟨idx, hidx⟩ := Option.ne_none_iff_exists'.mp (mt List.getLast?_eq_none_iff.mp hports)
  have hmem := List.mem_of_getLast? hidx
  obtain ⟨hlt, hany⟩ := List.mem_filter.mp hmem
  rw [List.mem_range] at hlt
  rw [List.getElem?_eq_getElem hlt] at hany
  have heq := (hequal _ (List.getElem_mem hlt)).mp (by simpa using hany)
  refine ⟨idx, ?_, by rw [List.getElem?_eq_getElem hlt, heq]⟩
  have hconsumer : l ∈ s.graph.consumers d := by
    rw [Graph.consumers, hk.data_eq d (n.insData_lt l d hread)]
    exact hl
  simp only [CopyState.findInsDataIdx, hlayer, if_pos hconsumer, hidx]
  rfl

theorem transferInput_ok (hn : n.WellFormed) (hs : Linked n R φ ψ s) (hl : l ∈ n.graph.consumers d) (hR : l ∈ R)
    {c : CNNLayerPtr} (hc : c ∈ R) (hd : d ∈ (n.graph.layer c).outData) (inputData : StdMap String DataPtr) :
    CopyState.transferInput d (s.withInputData inputData) l =
      .ok (s.withInputData (inputData.set (n.graph.data d).name (ψ d))) := by
  obtain ⟨idx, hidx, hget⟩ := findInsDataIdx_ok hn hs.kept hl
  have hnew : s.newLayer l = .ok (φ l) := by
    rw [CopyState.newLayer, hs.apart.oldToNew l hR]
    rfl
  have hport : elemAt "insData[dataIdx]" (s.graph.layer (φ l)).insData idx = .ok (ψ d) := by
    refine elemAt_ok_iff.mpr ⟨Nat.cast_nonneg idx, ?_⟩
    rw [hs.layer_eq l hR, Int.toNat_natCast, List.getElem?_map, hget]
    rfl
  have hname : (s.graph.data (ψ d)).name = (n.graph.data d).name := by
    rw [hs.data_eq c hc d hd]
    rfl
  change s.newLayer l >>= (fun new => s.findInsDataIdx d l >>= fun idx =>
    elemAt "insData[dataIdx]" (s.graph.layer new).insData idx >>= fun data =>
      Except.ok (s.withInputData (inputData.set (s.graph.data data).name data))) = _
  rw [hnew, ok_bind, hidx, ok_bind, hport, ok_bind, hname]

theorem transferInputs_ok (hn : n.WellFormed) (hs : Linked n R φ ψ s) {info : String × DataPtr}
    (hname : info.1 = (n.graph.data info.2).name) (hne : n.graph.consumers info.2 ≠ [])
    (hreaders : ∀ l ∈ n.graph.consumers info.2, l ∈ R) {c : CNNLayerPtr} (hc : c ∈ R)
    (hd : info.2 ∈ (n.graph.layer c).outData) (inputData : StdMap String DataPtr) :
    (s.withInputData inputData).transferInputs info = .ok (s.withInputData (inputData.set info.1 (ψ info.2))) := by
  have hconsumers : (s.withInputData inputData).graph.consumers info.2 = n.graph.consumers info.2 := by
    change (s.graph.data info.2).inputTo.values = (n.graph.data info.2).inputTo.values
    rw [hs.kept.data_eq info.2 (n.outData_lt c info.2 hd)]
  have hstep : ∀ l ∈ n.graph.consumers info.2, ∀ inputData,
      CopyState.transferInput info.2 (s.withInputData inputData) l =
        .ok (s.withInputData (inputData.set info.1 (ψ info.2))) := fun l hl inputData =>
    hname ▸ transferInput_ok hn hs hl (hreaders l hl) hc hd inputData
  rw [CopyState.transferInputs, hconsumers]
  generalize n.graph.consumers info.2 = readers at hne hstep
  cases readers with
  | nil => exact absurd rfl hne
  | cons first rest =>
    rw [List.foldlM_cons, hstep first List.mem_cons_self, ok_bind]
    -- the other readers assign the same entry again
    have hrest : ∀ l ∈ rest, CopyState.transferInput info.2
        (s.withInputData (inputData.set info.1 (ψ info.2))) l =
          .ok (s.withInputData (inputData.set info.1 (ψ info.2))) := by
      intro l hl
      rw [hstep l (List.mem_cons_of_mem _ hl), StdMap.set_set]
    clear hstep hne
    induction rest with
    | nil => rfl
    | cons l rest ih =>
      rw [List.foldlM_cons, hrest l List.mem_cons_self, ok_bind]
      exact ih fun m hm => hrest m (List.mem_cons_of_mem _ hm)

/-- The output is found by the name of the layer that creates it. -/
theorem transferOutput_ok (hn : n.WellFormed) (hs : Linked n R φ ψ s) {output : String × DataPtr}
    (hname : output.1 = (n.graph.data output.2).name) {c : CNNLayerPtr} (hc : c ∈ R)
    (hd : output.2 ∈ (n.graph.layer c).outData) (outputData : StdMap String DataPtr) :
    (s.withOutputData outputData).transferOutput output =
      .ok (s.withOutputData (outputData.set output.1 (ψ output.2))) := by
  have hdata := hs.kept.data_eq output.2 (n.outData_lt c output.2 hd)
  have hcreator : (s.graph.data output.2).creatorLayer = some c := by
    rw [hdata]
    exact (hn.graph.creator_iff output.2 c).mpr hd
  have hlayer := hs.kept.layer_eq c (n.layers_lt c (n.creator_mem output.2 c ((hn.graph.creator_iff _ c).mpr hd)))
  obtain ⟨idx, hidx, hget⟩ := findOutDataIdx_ok hcreator (by rwa [hlayer])
  rw [hlayer] at hget
  have hfind : s.net.layers.find? (s.graph.layer c).name = some (φ c) := by
    refine StdMap.find?_eq_some ((hs.net_layers _ _).mpr ⟨c, hc, ?_, rfl⟩)
    rw [hlayer]
  have hport : (s.graph.layer (φ c)).outData[idx]? = some (ψ output.2) := by
    rw [hs.layer_eq c hc, List.getElem?_map, hget]
    rfl
  have hkey : (s.graph.data (ψ output.2)).name = output.1 := by
    rw [hs.data_eq c hc output.2 hd, hname]
    rfl
  have hidx' : (s.withOutputData outputData).findOutDataIdx output.2 = .ok idx := hidx
  have hcreator' : ((s.withOutputData outputData).graph.data output.2).creatorLayer = some c := hcreator
  rw [CopyState.transferOutput, hcreator']
  simp only [hidx', ok_bind]
  rw [CopyState.addOutput, CopyState.withOutputData]
  simp only [hfind, hport, hkey]
  rfl

theorem setAll_mapValues (m : StdMap String DataPtr) (ψ : Nat → Nat) :
    StdMap.empty.setAll (m.entries.map fun e => (e.1, ψ e.2)) = m.mapValues ψ := by
  have hkeys : ((m.entries.map fun e => (e.1, ψ e.2)).map Prod.fst).Nodup := by
    rw [List.map_map]
    exact m.nodup_keys
  refine StdMap.ext_mem fun k d => ?_
  rw [StdMap.mem_setAll hkeys]
  simp [StdMap.empty, StdMap.mapValues]

/-- A loop that assigns one entry for each of `entries`. -/
theorem transfer_loop {f : CopyState → String × DataPtr → Result CopyState}
    {g : StdMap String DataPtr → CopyState} {entries : List (String × DataPtr)}
    (hstep : ∀ e ∈ entries, ∀ m, f (g m) e = .ok (g (m.set e.1 (ψ e.2)))) (m : StdMap String DataPtr) :
    entries.foldlM f (g m) = .ok (g (m.setAll (entries.map fun e => (e.1, ψ e.2)))) := by
  induction entries generalizing m with
  | nil => rfl
  | cons e entries ih =>
    rw [List.foldlM_cons, hstep e List.mem_cons_self, ok_bind]
    exact ih (fun e he => hstep e (List.mem_cons_of_mem _ he)) _

/-! ### The copy -/

/-- What a network is that `CNNNetCopy` copies: it has no loop, its inputs are read, and its outputs are created
behind its input layers. -/
structure Network.Copyable (n : Network) : Prop extends n.WellFormed where
  loopfree : n.Loopfree
  input_names : ∀ e ∈ n.inputsInfo.entries, e.1 = (n.graph.data e.2).name
  input_read : ∀ e ∈ n.inputsInfo.entries, n.graph.consumers e.2 ≠ []
  input_dims : ∀ e ∈ n.inputsInfo.entries, (n.graph.data e.2).dims ≠ []
  output_names : ∀ e ∈ n.outputsInfo.entries, e.1 = (n.graph.data e.2).name
  output_created : ∀ e ∈ n.outputsInfo.entries, ∃ c, (n.graph.data e.2).creatorLayer = some c ∧ n.Reached c

/-- The new network has one layer `φ l` for each layer `l` that the input layers lead to, and one `Data` `ψ d` for
each `Data` that one of these layers creates; they are linked and named as the originals, which are as they were. -/
structure IsCopy (n : Network) (φ ψ : Nat → Nat) (s : CopyState) : Prop where
  layer_kept : ∀ l < n.nextLayer, s.graph.layer l = n.graph.layer l
  data_kept : ∀ d < n.nextData, s.graph.data d = n.graph.data d
  layer_new : ∀ l, n.Reached l → n.nextLayer ≤ φ l
  data_new : ∀ l, n.Reached l → ∀ d ∈ (n.graph.layer l).outData, n.nextData ≤ ψ d
  layer_inj : ∀ l m, n.Reached l → n.Reached m → φ l = φ m → l = m
  data_inj : ∀ l m, n.Reached l → n.Reached m → ∀ d ∈ (n.graph.layer l).outData, ∀ e ∈ (n.graph.layer m).outData,
    ψ d = ψ e → d = e
  layer_eq : ∀ l, n.Reached l → s.graph.layer (φ l) =
    { name := (n.graph.layer l).name
      insData := (n.graph.layer l).insData.map ψ
      outData := (n.graph.layer l).outData.map ψ }
  data_eq : ∀ l, n.Reached l → ∀ d ∈ (n.graph.layer l).outData, s.graph.data (ψ d) =
    { name := (n.graph.data d).name
      dims := (n.graph.data d).dims
      creatorLayer := some (φ l)
      inputTo := (n.graph.data d).inputTo.mapValues φ }
  closed : ∀ l, n.Reached l → ∀ d ∈ (n.graph.layer l).insData,
    ∃ c, n.Reached c ∧ (n.graph.data d).creatorLayer = some c
  readers : ∀ l, n.Reached l → ∀ d ∈ (n.graph.layer l).outData, ∀ m ∈ n.graph.consumers d, n.Reached m
  net_layers : ∀ k m, (k, m) ∈ s.net.layers.entries ↔ ∃ l, n.Reached l ∧ k = (n.graph.layer l).name ∧ m = φ l
  net_data : ∀ k e, (k, e) ∈ s.net.data.entries ↔
    ∃ l, n.Reached l ∧ ∃ d ∈ (n.graph.layer l).outData, k = (n.graph.data d).name ∧ e = ψ d
  net_inputData : s.net.inputData = n.inputsInfo.mapValues ψ
  net_outputData : s.net.outputData = n.outputsInfo.mapValues ψ

theorem setBatchSize_getBatchSize {size : Nat} (h : getBatchSize s.graph s.net.inputData = .ok size) :
    s.setBatchSize size = .ok s := by
  rw [CopyState.setBatchSize, h, ok_bind, if_pos rfl]
  rfl

theorem getBatchSize_copy {g g' : Graph} {m : StdMap String DataPtr}
    (hdims : ∀ e ∈ m.entries, (g'.data (ψ e.2)).dims = (g.data e.2).dims) :
    getBatchSize g' (m.mapValues ψ) = getBatchSize g m := by
  cases hm : m.entries with
  | nil => simp [getBatchSize, StdMap.mapValues, hm]
  | cons e rest =>
    have hfirst := hdims e (hm ▸ List.mem_cons_self)
    simp [getBatchSize, StdMap.mapValues, hm, hfirst]

theorem exists_getBatchSize {g : Graph} {m : StdMap String DataPtr}
    (hdims : ∀ e ∈ m.entries, (g.data e.2).dims ≠ []) : ∃ size, getBatchSize g m = .ok size := by
  cases hm : m.entries with
  | nil => exact ⟨0, by simp only [getBatchSize, hm]; rfl⟩
  | cons e rest =>
    obtain ⟨first, others, hfirst⟩ := List.exists_cons_of_ne_nil (hdims e (hm ▸ List.mem_cons_self))
    by_cases hlength : others.length = 0 ∨ others.length = 2
    · exact ⟨1, by simp only [getBatchSize, hm, hfirst, if_pos hlength]; rfl⟩
    · exact ⟨first, by simp only [getBatchSize, hm, hfirst, if_neg hlength]; rfl⟩

/-- The inputs are found among the copies. -/
theorem Network.Copyable.input_reached (hn : n.Copyable) {e : String × DataPtr} (he : e ∈ n.inputsInfo.entries) :
    (∀ l ∈ n.graph.consumers e.2, n.Reached l) ∧ ∃ c, n.Reached c ∧ e.2 ∈ (n.graph.layer c).outData := by
  obtain ⟨first, rest, hfirst⟩ := List.exists_cons_of_ne_nil (hn.input_read e he)
  have hread : e.2 ∈ (n.graph.layer first).insData :=
    (hn.graph.consistent e.2 first).mp (hfirst ▸ List.mem_cons_self)
  obtain ⟨c, hcreator⟩ := hn.created first e.2 hread
  have hd := (hn.graph.creator_iff e.2 c).mp hcreator
  have hvalue : e.2 ∈ n.inputsInfo.values := List.mem_map_of_mem he
  have hc : n.Connected c := ⟨e.2, hvalue, first, rest, hfirst, .single (near_iff.mpr (.inr ⟨e.2, hread, hcreator⟩))⟩
  have hreached : ∀ l, n.Connected l → n.Reached l := fun l => reached_of_connected hn.toWellFormed hn.loopfree
  exact ⟨fun l hl => hreached l (hc.near (near_iff.mpr (.inl ⟨e.2, hd, hl⟩))), c, hreached c hc, hd⟩

theorem Linked.isCopy (hs : Linked n R φ ψ s) (hR : ∀ l, l ∈ R ↔ n.Reached l) (hc : Closed n R) :
    IsCopy n φ ψ ((s.withInputData (n.inputsInfo.mapValues ψ)).withOutputData (n.outputsInfo.mapValues ψ)) where
  layer_kept := hs.kept.layer_eq
  data_kept := hs.kept.data_eq
  layer_new l hl := (hs.apart.layer_range l ((hR l).mpr hl)).1
  data_new l hl d hd := (hs.apart.data_range l ((hR l).mpr hl) d hd).1
  layer_inj l m hl hm := hs.apart.layer_inj l ((hR l).mpr hl) m ((hR m).mpr hm)
  data_inj l m hl hm := hs.apart.data_inj l ((hR l).mpr hl) m ((hR m).mpr hm)
  layer_eq l hl := hs.layer_eq l ((hR l).mpr hl)
  data_eq l hl := hs.data_eq l ((hR l).mpr hl)
  closed l hl d hd := by
    obtain ⟨c, hcR, hcreator⟩ := hc.creators l ((hR l).mpr hl) d hd
    exact ⟨c, (hR c).mp hcR, hcreator⟩
  readers l hl d hd m hm := (hR m).mp (hc.readers l ((hR l).mpr hl) d hd m hm)
  net_layers k m := (hs.net_layers k m).trans (by simp only [hR])
  net_data k e := (hs.net_data k e).trans (by simp only [hR])
  net_inputData := rfl
  net_outputData := rfl

/-- Layer 1 reads its input twice. -/
def readTwice : Network where
  graph :=
    { layer := fun l => [⟨"input", [], [0]⟩, ⟨"sum", [0, 0], [1]⟩].getD l ⟨"", [], []⟩
      data := fun d => [⟨"input", [1, 8], some 0, ⟨[("sum", 1)], by decide⟩⟩,
        ⟨"sum", [1, 8], some 1, .empty⟩].getD d ⟨"", [], none, .empty⟩ }
  layers := Finset.range 2
  isConst _ := false
  inputsInfo := ⟨[("input", 0)], by decide⟩
  outputsInfo := ⟨[("sum", 1)], by decide⟩
  nextLayer := 2
  nextData := 2
  layers_lt := by simp
  consumer_mem := by
    rintro (_ | _ | d) <;> simp [Graph.consumers, StdMap.values, StdMap.empty]
  creator_mem := by
    rintro (_ | _ | d) <;> simp
  insData_lt := by
    rintro (_ | _ | l) <;> simp
  outData_lt := by
    rintro (_ | _ | l) <;> simp

theorem readTwice_copyable : readTwice.Copyable where
  graph :=
    { consistent := by
        rintro (_ | _ | d) (_ | _ | l) <;> simp [readTwice, Graph.consumers, StdMap.values, StdMap.empty]
      creator_iff := by
        rintro (_ | _ | d) (_ | _ | l) <;> simp [readTwice]
      nodup_outData := by
        rintro (_ | _ | l) <;> simp [readTwice]
      no_self_loop := by
        rintro (_ | _ | l) <;> simp [readTwice] }
  layer_names := by decide
  data_names := by decide
  created := by
    rintro (_ | _ | l) <;> simp [readTwice]
  loopfree l hcycle := by
    have hlt : ∀ p c, readTwice.toICNNNetwork.Feeds p c → p < c := by
      rintro (_ | _ | p) (_ | _ | c) <;> simp [Network.feeds_iff, readTwice]
    have htrans : ∀ c, TransGen readTwice.toICNNNetwork.Feeds l c → l < c := by
      intro c hpath
      induction hpath with
      | single h => exact hlt _ _ h
      | tail _ h ih => exact lt_trans ih (hlt _ _ h)
    exact lt_irrefl l (htrans l hcycle)
  input_names := by decide
  input_read := by decide
  input_dims := by decide
  output_names := by decide
  output_created := by
    have hnear : readTwice.toICNNNetwork.Near 1 0 := Network.near_iff.mpr (.inr ⟨0, by decide, rfl⟩)
    have hinput : readTwice.toICNNNetwork.InputLayer 0 :=
      Network.inputLayer_iff.mpr ⟨rfl, 0, by decide, 1, [], rfl, .single hnear⟩
    have hreached : readTwice.Reached 1 :=
      ⟨0, hinput, .single (Network.feeds_iff.mpr ⟨0, by decide, by decide⟩)⟩
    intro e he
    obtain rfl := List.mem_singleton.mp he
    exact ⟨1, rfl, hreached⟩

/-- Layers 1 and 2 read each other's output. -/
def looped : Network where
  graph :=
    { layer := fun l => [⟨"input", [], [0]⟩, ⟨"sum", [0, 2], [1]⟩, ⟨"state", [1], [2]⟩].getD l ⟨"", [], []⟩
      data := fun d => [⟨"input", [1, 8], some 0, ⟨[("sum", 1)], by decide⟩⟩,
        ⟨"sum", [1, 8], some 1, ⟨[("state", 2)], by decide⟩⟩,
        ⟨"state", [1, 8], some 2, ⟨[("sum", 1)], by decide⟩⟩].getD d ⟨"", [], none, .empty⟩ }
  layers := Finset.range 3
  isConst _ := false
  inputsInfo := ⟨[("input", 0)], by decide⟩
  outputsInfo := ⟨[("sum", 1)], by decide⟩
  nextLayer := 3
  nextData := 3
  layers_lt := by simp
  consumer_mem := by
    rintro (_ | _ | _ | d) <;> simp [Graph.consumers, StdMap.values, StdMap.empty]
  creator_mem := by
    rintro (_ | _ | _ | d) <;> simp
  insData_lt := by
    rintro (_ | _ | _ | l) <;> simp
  outData_lt := by
    rintro (_ | _ | _ | l) <;> simp

end OpenVino.InferenceEngine.Heap
