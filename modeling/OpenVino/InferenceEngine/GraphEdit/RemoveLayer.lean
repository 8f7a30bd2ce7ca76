import OpenVino.Base.EraseAppend
import OpenVino.InferenceEngine.GraphEdit.Heap

/-!
# `CNNNetworkRemoveLayer`

The layer's consumers get its input in place of its output: for every entry of the output's map the first
port that reads it is erased (`eraseInput`), and the input is appended. Appending keeps the order of the
ports only if nothing but the two `Data` follows the port (`iterate_erase_append_replicate_iff`), and the maps agree
with the ports only under the conditions of `ReconnectsWhen`; `removeLayer_reconnects_iff` says that these
are all the conditions.
-/

namespace OpenVino.InferenceEngine.Heap

namespace Graph

/-- The loop over `insData` of one consumer: the first entry that `layer` creates is erased. -/
def eraseInput (g : Graph) (layer : CNNLayerPtr) (outName : String) : List DataPtr → Result (List DataPtr)
  | [] => pure []
  | insData :: rest =>
    match (g.data insData).creatorLayer with
    | none =>
      throwException ("Cannot remove layer : " ++ (g.layer layer).name ++ ", its output layer(" ++ outName ++
        " has invalid input configuration")
    | some creator =>
      if creator = layer then pure rest
      else do
        let rest ← g.eraseInput layer outName rest
        pure (insData :: rest)

/-- One pass of the loop that removes the `osp->layer` connections. -/
def removeOutput (layer : CNNLayerPtr) (g : Graph) (outData : String × CNNLayerPtr) : Result Graph := do
  let insData ← g.eraseInput layer outData.1 (g.layer outData.2).insData
  pure (g.setInsData outData.2 insData)

/-- One pass of the loop that adds the `osp->isp` connections. -/
def pushInput (isp : DataPtr) (g : Graph) (outData : String × CNNLayerPtr) : Graph :=
  g.setInsData outData.2 ((g.layer outData.2).insData ++ [isp])

/-- The new entries of `isp`: a synthetic name for each entry of `osp`. -/
def syntheticEntries (g : Graph) (layer : CNNLayerPtr) (osp : DataPtr) : List (String × CNNLayerPtr) :=
  (g.data osp).inputTo.entries.map fun e => ((g.layer layer).name ++ "_" ++ e.1, e.2)

def CNNNetworkRemoveLayer (g : Graph) : Option CNNLayerPtr → Result Graph
  | none => throwException "Cannot remove layer pointed to NULL"
  | some layer =>
    match (g.layer layer).insData with
    | [isp] =>
      match (g.layer layer).outData with
      | [osp] =>
        if (g.data isp).dims ≠ (g.data osp).dims then
          throwException ("Cannot remove layer : " ++ (g.layer layer).name ++ " its input layer(" ++
            (g.data isp).name ++ ") and output(" ++ (g.data osp).name ++ ") have incompatible dimensions")
        else do
          let outDatas := (g.data osp).inputTo.entries
          let g := g.setInputTo isp ((g.data isp).inputTo.eraseFirst layer)
          let g ← outDatas.foldlM (removeOutput layer) g
          let g := g.setInputTo isp ((g.data isp).inputTo.setAll (g.syntheticEntries layer osp))
          pure (outDatas.foldl (pushInput isp) g)
      | _ =>
        throwException ("Cannot remove layer : " ++ (g.layer layer).name ++ " that has not 1 output")
    | _ => throwException ("Cannot remove layer : " ++ (g.layer layer).name ++ " that has not 1 input")

end Graph

namespace Graph

/-! ### What the call leaves -/

variable {g g' h : Graph} {layer : CNNLayerPtr} {isp osp : DataPtr}

/-- The entries of `isp` that no new entry replaces. -/
def keptEntries (g : Graph) (layer : CNNLayerPtr) (isp osp : DataPtr) : List (String × CNNLayerPtr) :=
  ((g.data isp).inputTo.eraseFirst layer).entries.filter
    fun e => e.1 ∉ (g.syntheticEntries layer osp).map Prod.fst

theorem eraseInput_ok {outName : String} {insData rest : List DataPtr}
    (hcreator : ∀ d, (g.data d).creatorLayer = some layer ↔ d = osp)
    (hrun : g.eraseInput layer outName insData = .ok rest) : rest = insData.erase osp := by
  induction insData generalizing rest with
  | nil => exact (pure_ok_iff.mp hrun).symm
  | cons d insData ih =>
    rw [eraseInput] at hrun
    cases hc : (g.data d).creatorLayer with
    | none =>
      rw [hc] at hrun
      cases hrun
    | some creator =>
      simp only [hc] at hrun
      by_cases heq : creator = layer
      · have hd : d = osp := (hcreator d).mp (heq ▸ hc)
        rw [if_pos heq, pure_ok_iff] at hrun
        rw [hd, List.erase_cons_head, hrun]
      · have hd : d ≠ osp := by
          intro hd
          have hlayer := (hcreator d).mpr hd
          rw [hc, Option.some.injEq] at hlayer
          exact heq hlayer
        rw [if_neg heq, bind_ok_iff] at hrun
        obtain ⟨tail, htail, heq⟩ := hrun
        rw [List.erase_cons_tail (by simpa using hd), ← ih htail]
        exact (pure_ok_iff.mp heq).symm

/-- What the removal of the `osp->layer` connections does not touch, and what it leaves of the ports. -/
structure Removed (g h : Graph) (osp : DataPtr) (outDatas : List (String × CNNLayerPtr)) : Prop where
  data_eq : h.data = g.data
  name_eq : ∀ l, (h.layer l).name = (g.layer l).name
  insData_eq : ∀ l,
    (h.layer l).insData = (fun s : List DataPtr => s.erase osp)^[(outDatas.map Prod.snd).count l] (g.layer l).insData

theorem removed_of_foldlM (hcreator : ∀ d, (g.data d).creatorLayer = some layer ↔ d = osp)
    {outDatas : List (String × CNNLayerPtr)} (hrun : outDatas.foldlM (removeOutput layer) g = .ok h) :
    Removed g h osp outDatas := by
  refine foldlM_ok_induct (I := fun pre h => Removed g h osp pre) hrun ⟨rfl, fun _ => rfl, fun _ => rfl⟩ ?_
  intro pre outData post h h' _ hI hstep
  rw [removeOutput, bind_ok_iff] at hstep
  obtain ⟨insData, herase, heq⟩ := hstep
  rw [pure_ok_iff] at heq
  subst heq
  refine ⟨by simpa using hI.data_eq, fun l => by simpa using hI.name_eq l, fun l => ?_⟩
  have herase : insData = (h.layer outData.2).insData.erase osp :=
    eraseInput_ok (by simpa only [hI.data_eq] using hcreator) herase
  rw [List.map_append, List.count_append, Nat.add_comm, List.map_singleton]
  by_cases hl : l = outData.2
  · subst hl
    rw [setInsData_insData_self, herase, hI.insData_eq, List.count_singleton_self, Nat.add_comm,
      Function.iterate_succ_apply']
  · rw [setInsData_layer_ne hl, hI.insData_eq, List.count_singleton, if_neg (by simpa using Ne.symm hl), Nat.zero_add]

theorem foldl_pushInput_data (outDatas : List (String × CNNLayerPtr)) :
    (outDatas.foldl (pushInput isp) g).data = g.data := by
  induction outDatas generalizing g with
  | nil => rfl
  | cons outData outDatas ih => rw [List.foldl_cons, ih, pushInput, setInsData_data]

theorem foldl_pushInput_insData (outDatas : List (String × CNNLayerPtr)) (l : CNNLayerPtr) :
    ((outDatas.foldl (pushInput isp) g).layer l).insData =
      (g.layer l).insData ++ List.replicate ((outDatas.map Prod.snd).count l) isp := by
  induction outDatas generalizing g with
  | nil => simp
  | cons outData outDatas ih =>
    rw [List.foldl_cons, ih, pushInput, List.map_cons]
    by_cases hl : l = outData.2
    · subst hl
      rw [setInsData_insData_self, List.count_cons_self, List.replicate_succ, List.append_assoc,
        List.singleton_append]
    · rw [setInsData_layer_ne hl, List.count_cons_of_ne (Ne.symm hl)]

theorem nodup_syntheticEntries : ((g.syntheticEntries layer osp).map Prod.fst).Nodup := by
  have hkeys := (g.data osp).inputTo.nodup_keys
  rw [syntheticEntries, List.map_map]
  refine (List.nodup_map_iff_inj_on (List.Nodup.of_map _ hkeys)).mpr fun e he e' he' heq => ?_
  have hkey : e.1 = e'.1 := String.append_right_inj _ |>.mp heq
  exact List.inj_on_of_nodup_map hkeys he he' hkey

/-- **What `CNNNetworkRemoveLayer` leaves**: the ports of every layer and the map of every `Data`. -/
theorem removeLayer_leaves (hg : g.WellFormed) (hin : (g.layer layer).insData = [isp])
    (hout : (g.layer layer).outData = [osp]) (hrun : g.CNNNetworkRemoveLayer (some layer) = .ok g') :
    (∀ l, (g'.layer l).insData =
      (fun s : List DataPtr => s.erase osp)^[(g.consumers osp).count l] (g.layer l).insData ++
        List.replicate ((g.consumers osp).count l) isp) ∧
    (g'.data isp).inputTo = ((g.data isp).inputTo.eraseFirst layer).setAll (g.syntheticEntries layer osp) ∧
    ∀ d ≠ isp, (g'.data d).inputTo = (g.data d).inputTo := by
  have hcreator : ∀ d, (g.data d).creatorLayer = some layer ↔ d = osp := by
    intro d
    rw [hg.creator_iff, hout, List.mem_singleton]
  have hne : osp ≠ isp := by
    intro heq
    refine hg.no_self_loop layer isp ?_ ?_
    · rw [hin]
      exact List.mem_singleton_self _
    · rw [hout, heq]
      exact List.mem_singleton_self _
  simp only [CNNNetworkRemoveLayer, hin, hout] at hrun
  split_ifs at hrun with hdims
  · cases hrun
  · rw [bind_ok_iff] at hrun
    obtain ⟨h, hremove, heq⟩ := hrun
    rw [pure_ok_iff] at heq
    have hI : Removed _ h osp _ := removed_of_foldlM (by simpa using hcreator) hremove
    have hsynthetic : h.syntheticEntries layer osp = g.syntheticEntries layer osp := by
      rw [syntheticEntries, syntheticEntries, hI.data_eq, hI.name_eq, setInputTo_data_ne hne, setInputTo_layer]
    subst heq
    refine ⟨fun l => ?_, ?_, fun d hd => ?_⟩
    · rw [foldl_pushInput_insData, setInputTo_layer, hI.insData_eq, setInputTo_layer]
      rfl
    · rw [foldl_pushInput_data, setInputTo_inputTo_self, hI.data_eq, setInputTo_inputTo_self, hsynthetic]
    · rw [foldl_pushInput_data, setInputTo_data_ne hd, hI.data_eq, setInputTo_data_ne hd]

end Graph

/-! ### When the consumers are reconnected port by port -/

namespace Graph

variable {g g' : Graph} {layer : CNNLayerPtr} {isp osp : DataPtr}

/-- What the removal of `layer` is to leave, without `layer` and its output. -/
structure Reconnected (g g' : Graph) (layer : CNNLayerPtr) (isp osp : DataPtr) : Prop where
  ports : ∀ l ≠ layer, (g'.layer l).insData = (g.layer l).insData.map fun d => if d = osp then isp else d
  consistent : ∀ d ≠ osp, ∀ l, l ∈ g'.consumers d ↔ l ≠ layer ∧ d ∈ (g'.layer l).insData

structure ReconnectsWhen (g : Graph) (layer : CNNLayerPtr) (isp osp : DataPtr) : Prop where
  entry_per_port : ∀ l, (g.consumers osp).count l = (g.layer l).insData.count osp
  trailing : ∀ l, Trailing osp isp (g.layer l).insData
  layer_forgotten : ∀ e ∈ g.keptEntries layer isp osp, e.2 ≠ layer
  others_kept : ∀ l ≠ layer, isp ∈ (g.layer l).insData → osp ∉ (g.layer l).insData →
    ∃ e ∈ g.keptEntries layer isp osp, e.2 = l

theorem mem_of_mem_keptEntries {e : String × CNNLayerPtr} (h : e ∈ g.keptEntries layer isp osp) :
    e.2 ∈ g.consumers isp := by
  have hmem := List.mem_of_mem_eraseP (List.mem_of_mem_filter h)
  exact StdMap.mem_values.mpr ⟨e.1, hmem⟩

/-- The consumers of `isp` after the call: those of `osp`, and those it keeps. -/
theorem mem_consumers_setAll {l : CNNLayerPtr}
    (h : (g'.data isp).inputTo = ((g.data isp).inputTo.eraseFirst layer).setAll (g.syntheticEntries layer osp)) :
    l ∈ g'.consumers isp ↔ l ∈ g.consumers osp ∨ ∃ e ∈ g.keptEntries layer isp osp, e.2 = l := by
  rw [consumers, h, StdMap.values, List.mem_map]
  constructor
  · rintro ⟨e, he, rfl⟩
    rcases (StdMap.mem_setAll nodup_syntheticEntries).mp he with he | ⟨hkey, he⟩
    · obtain ⟨e', he', rfl⟩ := List.mem_map.mp he
      exact .inl (StdMap.mem_values.mpr ⟨e'.1, he'⟩)
    · exact .inr ⟨e, List.mem_filter.mpr ⟨he, by simpa using hkey⟩, rfl⟩
  · rintro (hl | ⟨e, he, rfl⟩)
    · obtain ⟨e, he, rfl⟩ := List.mem_map.mp hl
      exact ⟨_, (StdMap.mem_setAll nodup_syntheticEntries).mpr (.inl (List.mem_map_of_mem he)), rfl⟩
    · obtain ⟨he, hkey⟩ := List.mem_filter.mp he
      exact ⟨e, (StdMap.mem_setAll nodup_syntheticEntries).mpr (.inr ⟨by simpa using hkey, he⟩), rfl⟩

/-- **Removing a layer**: when its consumers keep their ports and the two sides of every link agree. -/
theorem removeLayer_reconnects_iff (hg : g.WellFormed) (hin : (g.layer layer).insData = [isp])
    (hout : (g.layer layer).outData = [osp]) (hrun : g.CNNNetworkRemoveLayer (some layer) = .ok g') :
    Reconnected g g' layer isp osp ↔ ReconnectsWhen g layer isp osp := by
  obtain ⟨hinsData, hisp, hother⟩ := removeLayer_leaves hg hin hout hrun
  have hloop : osp ∉ (g.layer layer).insData := by
    intro hmem
    refine hg.no_self_loop layer osp hmem ?_
    rw [hout]
    exact List.mem_singleton_self _
  have hne : osp ≠ isp := by
    intro heq
    rw [hin, heq] at hloop
    exact hloop (List.mem_singleton_self _)
  have hports : ∀ l, (g'.layer l).insData = (g.layer l).insData.map (fun d => if d = osp then isp else d) ↔
      (g.consumers osp).count l = (g.layer l).insData.count osp ∧ Trailing osp isp (g.layer l).insData := by
    intro l
    rw [hinsData]
    exact iterate_erase_append_replicate_iff hne ..
  -- the removed layer is no consumer of its output
  have hself : (g.consumers osp).count layer = (g.layer layer).insData.count osp ∧
      Trailing osp isp (g.layer layer).insData := by
    refine ⟨?_, trailing_of_not_mem hloop⟩
    rw [List.count_eq_zero_of_not_mem hloop, List.count_eq_zero_of_not_mem (fun h => hloop ((hg.consistent ..).mp h))]
  have hmap : ∀ {l : CNNLayerPtr} {d : DataPtr}, d ≠ osp →
      (g'.layer l).insData = (g.layer l).insData.map (fun d => if d = osp then isp else d) →
      (d ∈ (g'.layer l).insData ↔ d ∈ (g.layer l).insData ∨ d = isp ∧ osp ∈ (g.layer l).insData) := by
    intro l d hd heq
    rw [heq, List.mem_map]
    constructor
    · rintro ⟨x, hx, rfl⟩
      by_cases hxo : x = osp
      · rw [if_pos hxo]
        exact .inr ⟨rfl, hxo ▸ hx⟩
      · rw [if_neg hxo]
        exact .inl hx
    · rintro (hx | ⟨rfl, hx⟩)
      · exact ⟨d, hx, if_neg hd⟩
      · exact ⟨osp, hx, if_pos rfl⟩
  have hconsumers : ∀ l, l ∈ g'.consumers isp ↔
      l ∈ g.consumers osp ∨ ∃ e ∈ g.keptEntries layer isp osp, e.2 = l := fun l => mem_consumers_setAll hisp
  constructor
  · rintro ⟨hp, hc⟩
    have hall : ∀ l, (g.consumers osp).count l = (g.layer l).insData.count osp ∧
        Trailing osp isp (g.layer l).insData := by
      intro l
      by_cases hl : l = layer
      · rw [hl]
        exact hself
      · exact (hports l).mp (hp l hl)
    refine ⟨fun l => (hall l).1, fun l => (hall l).2, fun e he heq => ?_, fun l hl hmem hnot => ?_⟩
    · exact ((hc isp hne.symm layer).mp ((hconsumers layer).mpr (.inr ⟨e, he, heq⟩))).1 rfl
    · have hafter := (hc isp hne.symm l).mpr ⟨hl, (hmap hne.symm (hp l hl)).mpr (.inl hmem)⟩
      exact ((hconsumers l).mp hafter).resolve_left fun h => hnot ((hg.consistent ..).mp h)
  · intro hw
    have hp : ∀ l, (g'.layer l).insData = (g.layer l).insData.map fun d => if d = osp then isp else d :=
      fun l => (hports l).mpr ⟨hw.entry_per_port l, hw.trailing l⟩
    refine ⟨fun l _ => hp l, fun d hd l => ?_⟩
    rw [hmap hd (hp l)]
    by_cases hdi : d = isp
    · subst hdi
      rw [hconsumers]
      constructor
      · rintro (hl | ⟨e, he, rfl⟩)
        · have hread := (hg.consistent ..).mp hl
          exact ⟨fun h => hloop (h ▸ hread), .inr ⟨rfl, hread⟩⟩
        · exact ⟨hw.layer_forgotten e he, .inl ((hg.consistent ..).mp (mem_of_mem_keptEntries he))⟩
      · rintro ⟨hl, hmem⟩
        by_cases hread : osp ∈ (g.layer l).insData
        · exact .inl ((hg.consistent ..).mpr hread)
        · exact .inr (hw.others_kept l hl (hmem.resolve_right fun h => hread h.2) hread)
    · have hconsumers' : g'.consumers d = g.consumers d := by rw [consumers, hother d hdi, consumers]
      rw [hconsumers', hg.consistent]
      constructor
      · intro hmem
        refine ⟨?_, .inl hmem⟩
        rintro rfl
        rw [hin] at hmem
        exact hdi (List.mem_singleton.mp hmem)
      · rintro ⟨-, hmem⟩
        exact hmem.resolve_right fun h => hdi h.1

/-! ### A consumer of two `Data` -/

/-- `concat` reads the output of `layer`, then the output of `other`. -/
def beforeConcat : Graph where
  layer l :=
    [⟨"input", [], [0]⟩, ⟨"layer", [0], [1]⟩, ⟨"other", [], [2]⟩, ⟨"concat", [1, 2], [3]⟩].getD l ⟨"", [], []⟩
  data d :=
    [⟨"input", [1, 8], some 0, StdMap.empty.set "layer" 1⟩,
      ⟨"layer", [1, 8], some 1, StdMap.empty.set "concat" 3⟩,
      ⟨"other", [1, 8], some 2, StdMap.empty.set "concat" 3⟩,
      ⟨"concat", [1, 16], some 3, .empty⟩].getD d ⟨"", [], none, .empty⟩

theorem beforeConcat_wellFormed : beforeConcat.WellFormed where
  consistent := by
    rintro (_ | _ | _ | _ | d) (_ | _ | _ | _ | l) <;>
      simp [beforeConcat, consumers, StdMap.values, StdMap.set, StdMap.setEntry, StdMap.empty]
  creator_iff := by
    rintro (_ | _ | _ | _ | d) (_ | _ | _ | _ | l) <;> simp [beforeConcat]
  nodup_outData := by
    rintro (_ | _ | _ | _ | l) <;> simp [beforeConcat]
  no_self_loop := by
    rintro (_ | _ | _ | _ | l) <;> simp [beforeConcat]

theorem beforeConcat_reconnects_iff : ∃ g', beforeConcat.CNNNetworkRemoveLayer (some 1) = .ok g' ∧
    (Reconnected beforeConcat g' 1 0 1 ↔ ReconnectsWhen beforeConcat 1 0 1) :=
  ⟨_, rfl, removeLayer_reconnects_iff beforeConcat_wellFormed rfl rfl rfl⟩

/-- The port that read `layer` comes last after the call. -/
theorem ports_permuted : beforeConcat.WellFormed ∧ (beforeConcat.layer 1).insData = [0] ∧
    (beforeConcat.layer 1).outData = [1] ∧
    ∃ g', beforeConcat.CNNNetworkRemoveLayer (some 1) = .ok g' ∧ (g'.layer 3).insData = [2, 0] ∧
      ¬Reconnected beforeConcat g' 1 0 1 := by
  refine ⟨beforeConcat_wellFormed, rfl, rfl, _, rfl, rfl, fun h => ?_⟩
  have hports := h.ports 3 (by decide)
  revert hports
  decide

end Graph

end OpenVino.InferenceEngine.Heap
