import OpenVino.InferenceEngine.GraphEdit.Heap

/-!
# `CNNNetworkInsertLayer`

The layer is inserted at one port of `after`: the first connection to `before` is moved (`insertAtPort`). If
`before` does not read that port, the port that it reads is looked for (`insertAtFoundPort`), and the layer
is linked with every output of `after` that nothing reads, always by the first output.
-/

namespace OpenVino.InferenceEngine.Heap

namespace Graph

/-- The ports of `layer` that read `sourceData`, once for each entry for `layer`. -/
def findInsDataIdxes (g : Graph) (sourceData : DataPtr) (layer : CNNLayerPtr) : Result (List Nat) := do
  let insData := (g.layer layer).insData
  let dataIdxes := (g.data sourceData).inputTo.entries.flatMap fun outLayer =>
    if outLayer.2 ≠ layer then []
    else (List.range insData.length).filter fun j => insData[j]?.any fun d => g.areEqualDatas d sourceData
  ieAssert "!dataIdxes.empty()" (dataIdxes ≠ [])
  pure dataIdxes

/-- `layer->outData.front()` -/
def frontOutData (g : Graph) (layer : CNNLayerPtr) : Result DataPtr :=
  match (g.layer layer).outData with
  | [] => .error (.undefinedBehaviour "outData.front()")
  | data :: _ => pure data

/-- One located connection: the ports of the consumer, the new entry and the erased one. -/
def moveConnection (g : Graph) (data : DataPtr) (layerToInsert : CNNLayerPtr) (inputIt : String × CNNLayerPtr) :
    Result Graph := do
  let dataIdxes ← g.findInsDataIdxes data inputIt.2
  let outData ← g.frontOutData layerToInsert
  let insData := dataIdxes.foldl (fun insData x => insData.set x outData) (g.layer inputIt.2).insData
  let g := g.setInsData inputIt.2 insData
  let g := g.setInputTo outData ((g.data outData).inputTo.set inputIt.1 inputIt.2)
  pure (g.setInputTo data ((g.data data).inputTo.erase inputIt.1))

/-- The loop over a copy of the map of `data`, with `bLocated`. -/
def moveConnections (before : Option CNNLayerPtr) (data : DataPtr) (layerToInsert : CNNLayerPtr) :
    List (String × CNNLayerPtr) → Graph → Result (Bool × Graph)
  | [], g => pure (false, g)
  | inputIt :: inputTo, g =>
    match before with
    | none => do
      let g ← g.moveConnection data layerToInsert inputIt
      let (_, g) ← moveConnections none data layerToInsert inputTo g
      pure (true, g)
    | some before =>
      if inputIt.2 ≠ before then moveConnections (some before) data layerToInsert inputTo g
      else do
        let g ← g.moveConnection data layerToInsert inputIt
        pure (true, g)

/-- What is done with the output port that the index selects. -/
def insertAtPort (g : Graph) (before : Option CNNLayerPtr) (layerToInsert : CNNLayerPtr) (data : DataPtr) :
    Result (Bool × Graph) := do
  let (bLocated, g) ← moveConnections before data layerToInsert (g.data data).inputTo.entries g
  if bLocated ∨ (g.data data).inputTo.entries = [] then
    let g := if before = none then g.setInputTo data .empty else g
    let outData ← g.frontOutData layerToInsert
    let g := g.setInputTo data ((g.data data).inputTo.set (g.data outData).name layerToInsert)
    pure (true, g.setInsData layerToInsert ((g.layer layerToInsert).insData ++ [data]))
  else pure (false, g)

/-- The first output of `after` that `before` reads, if there is one. -/
def findPort (g : Graph) (before : CNNLayerPtr) (outData : List DataPtr) : Option DataPtr :=
  outData.find? fun idx => before ∈ g.consumers idx

/-- Inserting into an output that has no child; `front` is the first output of `after`. -/
def linkChildless (front : DataPtr) (layerToInsert : CNNLayerPtr) (g : Graph) (next : DataPtr) : Graph :=
  if (g.data next).inputTo.entries ≠ [] then g
  else
    let g := g.setInputTo next ((g.data next).inputTo.set (g.layer layerToInsert).name layerToInsert)
    g.setInsData layerToInsert ((g.layer layerToInsert).insData ++ [front])

/-- `before` reads the layer's output instead of `idx`. -/
def replaceInput (g : Graph) (before : CNNLayerPtr) (idx outData : DataPtr) : Graph :=
  let g := g.setInputTo idx ((g.data idx).inputTo.eraseFirst before)
  let g := g.setInsData before [outData]
  g.setInputTo outData ((g.data outData).inputTo.set (g.layer before).name before)

/-- The search for the port that `before` reads, when the index did not give it. -/
def insertAtFoundPort (g : Graph) (after before layerToInsert : CNNLayerPtr) : Result (Bool × Graph) := do
  ieAssert "before->insData.size() == 1" ((g.layer before).insData.length = 1)
  match g.findPort before (g.layer after).outData with
  | none => pure (false, g)
  | some idx =>
    let outData ← g.frontOutData layerToInsert
    let g := g.replaceInput before idx outData
    ieAssert "!after->outData.empty()" ((g.layer after).outData ≠ [])
    let front ← g.frontOutData after
    pure (true, (g.layer after).outData.foldl (linkChildless front layerToInsert) g)

/-- `outDataIndex` is `none` for `invalid_data_idx`. -/
def CNNNetworkInsertLayer (g : Graph) (after before : Option CNNLayerPtr) (layerToInsert : CNNLayerPtr)
    (outDataIndex : Option Nat) : Result Graph :=
  match after, before with
  | none, none => throwException "Cannot Insert Layer: before or after layers should be valid layer pointers"
  | none, some before =>
    throwException ("Cannot insert layer between: nullptr and " ++ (g.layer before).name)
  | some after, before => do
    let (bLocated, g) ← match (g.layer after).outData[outDataIndex.getD 0]? with
      | none => pure (false, g)
      | some data => g.insertAtPort before layerToInsert data
    let (bLocated, g) ← match bLocated, before with
      | false, some before => g.insertAtFoundPort after before layerToInsert
      | bLocated, _ => pure (bLocated, g)
    if bLocated then pure g
    else
      throwException ("Cannot insert layer between: " ++ (g.layer after).name ++ " and " ++
        (before.map fun before => (g.layer before).name).getD "nullptr")

end Graph

/-! ### Setting entries of a list -/

theorem getElem?_foldl_set {α : Type*} (v : α) (idxes : List Nat) (l : List α) (j : Nat) :
    (idxes.foldl (fun s x => s.set x v) l)[j]? = if j ∈ idxes ∧ j < l.length then some v else l[j]? := by
  induction idxes generalizing l with
  | nil => simp
  | cons i idxes ih =>
    rw [List.foldl_cons, ih, List.length_set, List.getElem?_set]
    by_cases hij : i = j
    · subst hij
      by_cases hlt : i < l.length
      · simp [hlt]
      · simp [hlt]
    · simp [hij, Ne.symm hij]

theorem foldl_set_eq_map {α : Type*} {p : α → Prop} [DecidablePred p] {v : α} {idxes : List Nat} {l : List α}
    (h : ∀ j, j ∈ idxes ↔ ∃ x, l[j]? = some x ∧ p x) :
    idxes.foldl (fun s x => s.set x v) l = l.map fun x => if p x then v else x := by
  refine List.ext_getElem? fun j => ?_
  rw [getElem?_foldl_set, List.getElem?_map]
  by_cases hlt : j < l.length
  · rw [List.getElem?_eq_getElem hlt, Option.map_some]
    by_cases hp : p l[j]
    · have hj : j ∈ idxes := (h j).mpr ⟨_, List.getElem?_eq_getElem hlt, hp⟩
      rw [if_pos ⟨hj, hlt⟩, if_pos hp]
    · have hj : j ∉ idxes := by
        intro hj
        obtain ⟨x, hx, hpx⟩ := (h j).mp hj
        rw [List.getElem?_eq_getElem hlt, Option.some.injEq] at hx
        exact hp (hx ▸ hpx)
      rw [if_neg fun hc => hj hc.1, if_neg hp]
  · rw [if_neg fun hc => hlt hc.2, List.getElem?_eq_none (not_lt.mp hlt), Option.map_none]

namespace Graph

variable {g g' : Graph} {after before layerToInsert : CNNLayerPtr} {data outData : DataPtr}

/-- A layer that no link names yet, with one output. -/
structure Fresh (g : Graph) (layerToInsert : CNNLayerPtr) (outData : DataPtr) : Prop where
  outData_eq : (g.layer layerToInsert).outData = [outData]
  insData_eq : (g.layer layerToInsert).insData = []
  inputTo_eq : (g.data outData).inputTo = .empty

/-! ### The port of the index -/

theorem findInsDataIdxes_of_reads {l : CNNLayerPtr} (hmem : l ∈ g.consumers data)
    (hread : data ∈ (g.layer l).insData) :
    ∃ idxes, g.findInsDataIdxes data l = .ok idxes ∧
      ∀ j, j ∈ idxes ↔ ∃ x, (g.layer l).insData[j]? = some x ∧ g.areEqualDatas x data := by
  obtain ⟨k, hk⟩ := StdMap.mem_values.mp hmem
  have hports : ∀ j, j ∈ (g.data data).inputTo.entries.flatMap (fun outLayer =>
      if outLayer.2 ≠ l then [] else (List.range (g.layer l).insData.length).filter fun j =>
        (g.layer l).insData[j]?.any fun d => g.areEqualDatas d data) ↔
      ∃ x, (g.layer l).insData[j]? = some x ∧ g.areEqualDatas x data := by
    intro j
    rw [List.mem_flatMap]
    constructor
    · rintro ⟨e, -, he⟩
      by_cases hel : e.2 = l
      · rw [if_neg (not_not.mpr hel), List.mem_filter, Option.any_eq_true] at he
        simpa using he.2
      · rw [if_pos hel] at he
        cases he
    · rintro ⟨x, hx, heq⟩
      refine ⟨(k, l), hk, ?_⟩
      rw [if_neg (not_not.mpr rfl), List.mem_filter, List.mem_range, Option.any_eq_true]
      exact ⟨(List.getElem?_eq_some_iff.mp hx).1, x, hx, by simpa using heq⟩
  obtain ⟨j, hj⟩ := List.mem_iff_getElem?.mp hread
  have hne := List.ne_nil_of_mem ((hports j).mpr ⟨data, hj, .inl rfl⟩)
  exact ⟨_, ieAssert_bind_ok_iff.mpr ⟨hne, rfl⟩, hports⟩

/-- What moving one connection leaves, before the layer is linked. -/
structure MovedConnection (g h : Graph) (before : CNNLayerPtr) (outData data : DataPtr) : Prop where
  insData_before : (h.layer before).insData =
    (g.layer before).insData.map fun x => if g.areEqualDatas x data then outData else x
  layer_other : ∀ l ≠ before, h.layer l = g.layer l
  inputTo_new : ∃ k, (h.data outData).inputTo = StdMap.empty.set k before
  inputTo_data : (h.data data).inputTo = (g.data data).inputTo.eraseFirst before
  name_eq : (h.data outData).name = (g.data outData).name
  data_other : ∀ x ≠ data, x ≠ outData → h.data x = g.data x

/-- What inserting at a port leaves. -/
structure Moved (g g' : Graph) (before layerToInsert : CNNLayerPtr) (outData data : DataPtr) : Prop where
  insData_before : (g'.layer before).insData =
    (g.layer before).insData.map fun x => if g.areEqualDatas x data then outData else x
  insData_new : (g'.layer layerToInsert).insData = [data]
  insData_other : ∀ l ≠ before, l ≠ layerToInsert → (g'.layer l).insData = (g.layer l).insData
  inputTo_new : ∃ k, (g'.data outData).inputTo = StdMap.empty.set k before
  inputTo_data : (g'.data data).inputTo =
    ((g.data data).inputTo.eraseFirst before).set (g.data outData).name layerToInsert
  inputTo_other : ∀ x ≠ data, x ≠ outData → (g'.data x).inputTo = (g.data x).inputTo

theorem moveConnections_of_find {inputTo : List (String × CNNLayerPtr)} {inputIt : String × CNNLayerPtr}
    (h : inputTo.find? (·.2 = before) = some inputIt) :
    moveConnections (some before) data layerToInsert inputTo g =
      g.moveConnection data layerToInsert inputIt >>= fun g => pure (true, g) := by
  induction inputTo with
  | nil => cases h
  | cons e inputTo ih =>
    rw [moveConnections]
    by_cases he : e.2 = before
    · rw [List.find?_cons_of_pos (by simpa using he), Option.some.injEq] at h
      rw [if_neg (not_not.mpr he), h]
    · rw [List.find?_cons_of_neg (by simpa using he)] at h
      rw [if_pos he, ih h]

theorem moveConnections_of_not_mem {inputTo : List (String × CNNLayerPtr)} (h : ∀ e ∈ inputTo, e.2 ≠ before) :
    moveConnections (some before) data layerToInsert inputTo g = .ok (false, g) := by
  induction inputTo with
  | nil => rfl
  | cons e inputTo ih =>
    rw [moveConnections, if_pos (h e List.mem_cons_self), ih fun e he => h e (List.mem_cons_of_mem _ he)]

theorem exists_find_of_mem_consumers (h : before ∈ g.consumers data) :
    ∃ k, (g.data data).inputTo.entries.find? (·.2 = before) = some (k, before) := by
  obtain ⟨k, hk⟩ := StdMap.mem_values.mp h
  cases hfind : (g.data data).inputTo.entries.find? (·.2 = before) with
  | none => exact absurd (List.find?_eq_none.mp hfind _ hk) (by simp)
  | some e =>
    have hb : e.2 = before := by
      have hfound := List.find?_some hfind
      simpa using hfound
    exact ⟨e.1, by rw [← hb]⟩

theorem Fresh.frontOutData_eq (hnew : Fresh g layerToInsert outData) :
    g.frontOutData layerToInsert = .ok outData := by
  rw [frontOutData, hnew.outData_eq]
  rfl

theorem Fresh.ne_of_mem_consumers (hnew : Fresh g layerToInsert outData) (hread : before ∈ g.consumers data) :
    data ≠ outData := by
  intro h
  rw [consumers, h, hnew.inputTo_eq] at hread
  cases hread

theorem Fresh.ne_of_mem_insData (hnew : Fresh g layerToInsert outData) (hport : data ∈ (g.layer before).insData) :
    layerToInsert ≠ before := by
  intro h
  rw [← h, hnew.insData_eq] at hport
  cases hport

theorem moveConnections_moved (hg : g.WellFormed) (hnew : Fresh g layerToInsert outData)
    (hread : before ∈ g.consumers data) :
    ∃ h, moveConnections (some before) data layerToInsert (g.data data).inputTo.entries g = .ok (true, h) ∧
      MovedConnection g h before outData data := by
  obtain ⟨k, hfind⟩ := exists_find_of_mem_consumers hread
  obtain ⟨idxes, hidxes, hports⟩ := findInsDataIdxes_of_reads hread ((hg.consistent ..).mp hread)
  have hne := hnew.ne_of_mem_consumers hread
  apply Exists.intro
  constructor
  · rw [moveConnections_of_find hfind, moveConnection, hidxes, ok_bind, hnew.frontOutData_eq, ok_bind]
    rfl
  · refine ⟨?_, fun l hl => ?_, ⟨k, ?_⟩, ?_, ?_, fun x hx hx' => ?_⟩
    · rw [setInputTo_layer, setInputTo_layer, setInsData_insData_self, foldl_set_eq_map hports]
    · rw [setInputTo_layer, setInputTo_layer, setInsData_layer_ne hl]
    · rw [setInputTo_data_ne hne.symm, setInputTo_inputTo_self, setInsData_data, hnew.inputTo_eq]
    · rw [setInputTo_inputTo_self, setInputTo_data_ne hne, setInsData_data, StdMap.eraseFirst_eq_erase hfind]
    · rw [setInputTo_name, setInputTo_name, setInsData_data]
    · rw [setInputTo_data_ne hx, setInputTo_data_ne hx', setInsData_data]

/-- **The port of the index**: a connection to `before` is moved. -/
theorem insertAtPort_moved (hg : g.WellFormed) (hnew : Fresh g layerToInsert outData)
    (hread : before ∈ g.consumers data) :
    ∃ g', g.insertAtPort (some before) layerToInsert data = .ok (true, g') ∧
      Moved g g' before layerToInsert outData data := by
  obtain ⟨h, hmove, hm⟩ := moveConnections_moved hg hnew hread
  have hne := hnew.ne_of_mem_consumers hread
  have hlayer := hnew.ne_of_mem_insData ((hg.consistent ..).mp hread)
  have hfront : h.frontOutData layerToInsert = .ok outData := by
    rw [frontOutData, hm.layer_other _ hlayer]
    exact hnew.frontOutData_eq
  apply Exists.intro
  constructor
  · rw [insertAtPort, hmove, ok_bind]
    simp only [true_or, if_true, reduceCtorEq, if_false, hfront, ok_bind]
    rfl
  · obtain ⟨k, hk⟩ := hm.inputTo_new
    refine ⟨?_, ?_, fun l hl hl' => ?_, ⟨k, ?_⟩, ?_, fun x hx hx' => ?_⟩
    · rw [setInsData_layer_ne hlayer.symm, setInputTo_layer, hm.insData_before]
    · rw [setInsData_insData_self, setInputTo_layer, hm.layer_other _ hlayer, hnew.insData_eq, List.nil_append]
    · rw [setInsData_layer_ne hl', setInputTo_layer, hm.layer_other l hl]
    · rw [setInsData_data, setInputTo_data_ne hne.symm, hk]
    · rw [setInsData_data, setInputTo_inputTo_self, hm.inputTo_data, hm.name_eq]
    · rw [setInsData_data, setInputTo_data_ne hx, hm.data_other x hx hx']

end Graph

/-! ### What the insertion is to leave -/

namespace Graph

variable {g g' : Graph} {after before layerToInsert : CNNLayerPtr} {data outData : DataPtr}

/-- Only the edge from `data` to `before` is routed through the layer. -/
structure Routed (g g' : Graph) (before layerToInsert : CNNLayerPtr) (outData data : DataPtr) : Prop where
  before_ports : (g'.layer before).insData = (g.layer before).insData.map fun x => if x = data then outData else x
  new_ports : (g'.layer layerToInsert).insData = [data]
  other_ports : ∀ l ≠ before, l ≠ layerToInsert → (g'.layer l).insData = (g.layer l).insData
  consistent : ∀ x l, l ∈ g'.consumers x ↔ x ∈ (g'.layer l).insData

/-- The entries of `data` that inserting at it keeps. -/
def otherEntries (g : Graph) (before : CNNLayerPtr) (outData data : DataPtr) : List (String × CNNLayerPtr) :=
  ((g.data data).inputTo.eraseFirst before).entries.filter fun e => e.1 ≠ (g.data outData).name

structure MovesOne (g : Graph) (before : CNNLayerPtr) (outData data : DataPtr) : Prop where
  alone : ∀ x ∈ (g.layer before).insData, g.areEqualDatas x data → x = data
  before_forgotten : ∀ e ∈ g.otherEntries before outData data, e.2 ≠ before
  others_kept : ∀ l ≠ before, data ∈ (g.layer l).insData → ∃ e ∈ g.otherEntries before outData data, e.2 = l

theorem mem_of_mem_otherEntries {e : String × CNNLayerPtr} (h : e ∈ g.otherEntries before outData data) :
    e.2 ∈ g.consumers data :=
  StdMap.mem_values.mpr ⟨e.1, List.mem_of_mem_eraseP (List.mem_of_mem_filter h)⟩

theorem Fresh.not_mem_insData (hg : g.WellFormed) (hnew : Fresh g layerToInsert outData) (l : CNNLayerPtr) :
    outData ∉ (g.layer l).insData := by
  intro hmem
  exact hnew.ne_of_mem_consumers ((hg.consistent ..).mpr hmem) rfl

theorem map_areEqualDatas_iff (hg : g.WellFormed) (hnew : Fresh g layerToInsert outData) :
    (g.layer before).insData.map (fun x => if g.areEqualDatas x data then outData else x) =
      (g.layer before).insData.map (fun x => if x = data then outData else x) ↔
    ∀ x ∈ (g.layer before).insData, g.areEqualDatas x data → x = data := by
  rw [List.map_inj_left]
  refine forall₂_congr fun x hx => ⟨fun h heq => ?_, fun h => ?_⟩
  · by_contra hne
    rw [if_pos heq, if_neg hne] at h
    exact hnew.not_mem_insData hg before (h ▸ hx)
  · by_cases heq : x = data
    · rw [if_pos heq, if_pos (.inl heq)]
    · rw [if_neg heq, if_neg fun h' => heq (h h')]

theorem mem_map_replace {l : List DataPtr} {x : DataPtr} :
    x ∈ l.map (fun x => if x = data then outData else x) ↔ x ∈ l ∧ x ≠ data ∨ x = outData ∧ data ∈ l := by
  rw [List.mem_map]
  constructor
  · rintro ⟨y, hy, rfl⟩
    by_cases hyd : y = data
    · rw [if_pos hyd]
      exact .inr ⟨rfl, hyd ▸ hy⟩
    · rw [if_neg hyd]
      exact .inl ⟨hy, hyd⟩
  · rintro (⟨hx, hne⟩ | ⟨rfl, hd⟩)
    · exact ⟨x, hx, if_neg hne⟩
    · exact ⟨data, hd, if_pos rfl⟩

theorem Moved.mem_consumers_data (hm : Moved g g' before layerToInsert outData data) {l : CNNLayerPtr} :
    l ∈ g'.consumers data ↔ l = layerToInsert ∨ ∃ e ∈ g.otherEntries before outData data, e.2 = l := by
  rw [consumers, hm.inputTo_data, StdMap.values, List.mem_map]
  constructor
  · rintro ⟨e, he, rfl⟩
    rcases StdMap.mem_set.mp he with rfl | ⟨hkey, he⟩
    · exact .inl rfl
    · exact .inr ⟨e, List.mem_filter.mpr ⟨he, by simpa using hkey⟩, rfl⟩
  · rintro (rfl | ⟨e, he, rfl⟩)
    · exact ⟨_, StdMap.mem_set.mpr (.inl rfl), rfl⟩
    · obtain ⟨he, hkey⟩ := List.mem_filter.mp he
      exact ⟨e, StdMap.mem_set.mpr (.inr ⟨by simpa using hkey, he⟩), rfl⟩

theorem Moved.mem_consumers_new (hm : Moved g g' before layerToInsert outData data) {l : CNNLayerPtr} :
    l ∈ g'.consumers outData ↔ l = before := by
  obtain ⟨k, hk⟩ := hm.inputTo_new
  rw [consumers, hk, StdMap.mem_values_set_of_empty rfl]

theorem Moved.routed_iff (hm : Moved g g' before layerToInsert outData data) (hg : g.WellFormed)
    (hnew : Fresh g layerToInsert outData) (hread : before ∈ g.consumers data) :
    Routed g g' before layerToInsert outData data ↔ MovesOne g before outData data := by
  have hport := (hg.consistent ..).mp hread
  have hne := hnew.ne_of_mem_consumers hread
  have hlayer := hnew.ne_of_mem_insData hport
  constructor
  · intro hr
    refine ⟨(map_areEqualDatas_iff hg hnew).mp (hm.insData_before.symm.trans hr.before_ports), fun e he heq => ?_,
      fun l hl hmem => ?_⟩
    · have hafter := (hr.consistent data before).mp (hm.mem_consumers_data.mpr (.inr ⟨e, he, heq⟩))
      rw [hr.before_ports, mem_map_replace] at hafter
      rcases hafter with ⟨-, h⟩ | ⟨h, -⟩
      · exact h rfl
      · exact hne h
    · have hl' : l ≠ layerToInsert := (hnew.ne_of_mem_insData hmem).symm
      have hafter := (hr.consistent data l).mpr (by rwa [hr.other_ports l hl hl'])
      exact (hm.mem_consumers_data.mp hafter).resolve_left hl'
  · intro hw
    have hbefore := hm.insData_before.trans ((map_areEqualDatas_iff hg hnew).mpr hw.alone)
    refine ⟨hbefore, hm.insData_new, hm.insData_other, fun x l => ?_⟩
    -- the ports of the three kinds of layers after the call
    have hmem : x ∈ (g'.layer l).insData ↔
        l = before ∧ (x ∈ (g.layer before).insData ∧ x ≠ data ∨ x = outData) ∨ l = layerToInsert ∧ x = data ∨
          (l ≠ before ∧ l ≠ layerToInsert) ∧ x ∈ (g.layer l).insData := by
      by_cases hl : l = before
      · subst hl
        rw [hbefore, mem_map_replace]
        simp [hport, hlayer.symm]
      · by_cases hl' : l = layerToInsert
        · subst hl'
          rw [hm.insData_new]
          simp [hl]
        · rw [hm.insData_other l hl hl']
          simp [hl, hl']
    rw [hmem]
    by_cases hx : x = data
    · subst hx
      rw [hm.mem_consumers_data]
      constructor
      · rintro (hl | ⟨e, he, rfl⟩)
        · exact .inr (.inl ⟨hl, rfl⟩)
        · have hmem := (hg.consistent ..).mp (mem_of_mem_otherEntries he)
          exact .inr (.inr ⟨⟨hw.before_forgotten e he, (hnew.ne_of_mem_insData hmem).symm⟩, hmem⟩)
      · rintro (⟨-, ⟨-, h⟩ | h⟩ | ⟨hl, -⟩ | ⟨⟨hl, -⟩, hmem⟩)
        · exact absurd rfl h
        · exact absurd h hne
        · exact .inl hl
        · exact .inr (hw.others_kept l hl hmem)
    · by_cases hx' : x = outData
      · subst hx'
        have hnone := hnew.not_mem_insData hg l
        rw [hm.mem_consumers_new]
        simp [hx, hnone]
      · have hsame : g'.consumers x = g.consumers x := by rw [consumers, hm.inputTo_other x hx hx', consumers]
        rw [hsame, hg.consistent]
        constructor
        · intro hmem
          by_cases hl : l = before
          · exact .inl ⟨hl, .inl ⟨hl ▸ hmem, hx⟩⟩
          · exact .inr (.inr ⟨⟨hl, (hnew.ne_of_mem_insData hmem).symm⟩, hmem⟩)
        · rintro (⟨rfl, ⟨hmem, -⟩ | h⟩ | ⟨-, h⟩ | ⟨-, hmem⟩)
          · exact hmem
          · exact absurd h hx'
          · exact absurd h hx
          · exact hmem

end Graph

end OpenVino.InferenceEngine.Heap
