import OpenVino.InferenceEngine.GraphEdit.InsertLayer

/-!
# The port that `before` reads

When the index does not give a port that `before` reads, the port is looked for, and the layer is linked
with every output of `after` that nothing reads, by the first output (`linkChildless`). That routes the edge
only if the port found is the first output and is left without a reader, and no other output is
(`insertAtFoundPort_routed_iff`). `insertLayer_routed_iff` puts the two cases together.
-/

namespace OpenVino.InferenceEngine.Heap

namespace Graph

variable {g g' : Graph} {after before layerToInsert : CNNLayerPtr} {data outData : DataPtr}

/-! ### The port of the index that `before` does not read -/

theorem insertAtPort_of_childless (hnew : Fresh g layerToInsert outData)
    (hempty : (g.data data).inputTo.entries = []) :
    ∃ g', g.insertAtPort (some before) layerToInsert data = .ok (true, g') ∧
      ∀ l ≠ layerToInsert, (g'.layer l).insData = (g.layer l).insData := by
  apply Exists.intro
  constructor
  · rw [insertAtPort, hempty, moveConnections_of_not_mem fun e he => absurd he List.not_mem_nil, ok_bind]
    simp only [hempty, or_true, if_true, reduceCtorEq, if_false, hnew.frontOutData_eq, ok_bind]
    rfl
  · intro l hl
    rw [setInsData_layer_ne hl, setInputTo_layer]

theorem insertAtPort_of_not_read (hread : before ∉ g.consumers data) (hchild : (g.data data).inputTo.entries ≠ []) :
    g.insertAtPort (some before) layerToInsert data = .ok (false, g) := by
  have hnone : ∀ e ∈ (g.data data).inputTo.entries, e.2 ≠ before := by
    rintro e he rfl
    exact hread (List.mem_map_of_mem he)
  rw [insertAtPort, moveConnections_of_not_mem hnone, ok_bind]
  simp only [hchild, Bool.false_eq_true, or_self, if_false]
  rfl

/-! ### Linking the outputs without a child -/

/-- What linking the childless outputs among `outputs` leaves. -/
structure Linked (g g' : Graph) (layerToInsert : CNNLayerPtr) (front : DataPtr) (outputs : List DataPtr) : Prop where
  name_eq : (g'.layer layerToInsert).name = (g.layer layerToInsert).name
  layer_other : ∀ l ≠ layerToInsert, g'.layer l = g.layer l
  insData_new : (g'.layer layerToInsert).insData = (g.layer layerToInsert).insData ++
    List.replicate (outputs.countP fun x => (g.data x).inputTo.entries = []) front
  inputTo_childless : ∀ x ∈ outputs, (g.data x).inputTo.entries = [] →
    (g'.data x).inputTo = (g.data x).inputTo.set (g.layer layerToInsert).name layerToInsert
  inputTo_other : ∀ x, x ∉ outputs ∨ (g.data x).inputTo.entries ≠ [] → (g'.data x).inputTo = (g.data x).inputTo

theorem linked_linkChildless (front y : DataPtr) :
    Linked g (linkChildless front layerToInsert g y) layerToInsert front [y] := by
  by_cases hchild : (g.data y).inputTo.entries = []
  · rw [linkChildless, if_neg (not_not.mpr hchild)]
    refine ⟨by simp, fun l hl => setInsData_layer_ne hl, ?_, fun x hx _ => ?_, fun x hx => ?_⟩
    · rw [setInsData_insData_self, List.countP_cons_of_pos (by simpa using hchild), List.countP_nil]
      rfl
    · rw [List.mem_singleton.mp hx]
      exact setInputTo_inputTo_self
    · have hne : x ≠ y := by
        rintro rfl
        exact hx.elim (fun h => h (List.mem_singleton_self _)) fun h => h hchild
      rw [setInsData_data, setInputTo_data_ne hne]
  · rw [linkChildless, if_pos hchild]
    refine ⟨rfl, fun _ _ => rfl, ?_, fun x hx hempty => ?_, fun _ _ => rfl⟩
    · rw [List.countP_cons_of_neg (by simpa using hchild), List.countP_nil, List.replicate_zero, List.append_nil]
    · exact absurd (List.mem_singleton.mp hx ▸ hempty) hchild

theorem Linked.cons {g₁ : Graph} {front y : DataPtr} {outputs : List DataPtr}
    (h₁ : Linked g g₁ layerToInsert front [y]) (h : Linked g₁ g' layerToInsert front outputs) (hy : y ∉ outputs) :
    Linked g g' layerToInsert front (y :: outputs) := by
  have hsame : ∀ x ≠ y, (g₁.data x).inputTo = (g.data x).inputTo :=
    fun x hx => h₁.inputTo_other x (.inl fun hmem => hx (List.mem_singleton.mp hmem))
  have hrest : ∀ x ∈ outputs, x ≠ y := fun x hx heq => hy (heq ▸ hx)
  refine ⟨h.name_eq.trans h₁.name_eq, fun l hl => (h.layer_other l hl).trans (h₁.layer_other l hl), ?_,
    fun x hx hempty => ?_, fun x hx => ?_⟩
  · have hcount : outputs.countP (fun x => (g₁.data x).inputTo.entries = []) =
        outputs.countP (fun x => (g.data x).inputTo.entries = []) :=
      List.countP_congr fun x hx => by rw [hsame x (hrest x hx)]
    rw [h.insData_new, h₁.insData_new, hcount, List.append_assoc, ← List.replicate_add, ← List.countP_append,
      List.singleton_append]
  · rcases List.mem_cons.mp hx with rfl | hx
    · exact (h.inputTo_other x (.inl hy)).trans (h₁.inputTo_childless x (List.mem_singleton_self _) hempty)
    · have heq := hsame x (hrest x hx)
      rw [h.inputTo_childless x hx (by rwa [heq]), heq, h₁.name_eq]
  · by_cases hxy : x = y
    · subst hxy
      have hchild := hx.resolve_left fun hmem => hmem List.mem_cons_self
      exact (h.inputTo_other x (.inl hy)).trans (h₁.inputTo_other x (.inr hchild))
    · have heq := hsame x hxy
      rw [← heq] at hx ⊢
      exact h.inputTo_other x (hx.imp_left fun hnot hmem => hnot (List.mem_cons_of_mem _ hmem))

theorem linked_of_foldl {front : DataPtr} {outputs : List DataPtr} (hnodup : outputs.Nodup) :
    Linked g (outputs.foldl (linkChildless front layerToInsert) g) layerToInsert front outputs := by
  induction outputs generalizing g with
  | nil => exact ⟨rfl, fun _ _ => rfl, by simp, fun x hx => absurd hx List.not_mem_nil, fun _ _ => rfl⟩
  | cons y outputs ih =>
    obtain ⟨hy, hnodup⟩ := List.nodup_cons.mp hnodup
    rw [List.foldl_cons]
    exact (linked_linkChildless front y).cons (ih hnodup) hy

/-! ### The port found -/

theorem findPort_eq (hg : g.WellFormed) (hone : (g.layer before).insData = [data]) {outputs : List DataPtr}
    (hmem : data ∈ outputs) : g.findPort before outputs = some data := by
  have hread : ∀ x, before ∈ g.consumers x ↔ x = data := by
    intro x
    rw [hg.consistent, hone, List.mem_singleton]
  obtain ⟨x, hx⟩ := Option.isSome_iff_exists.mp (List.find?_isSome (p := (before ∈ g.consumers ·)) |>.mpr
    ⟨data, hmem, by simpa using (hread data).mpr rfl⟩)
  have hxd : before ∈ g.consumers x := by simpa using List.find?_some (p := (before ∈ g.consumers ·)) hx
  rw [findPort, hx, (hread x).mp hxd]

/-- What taking `data` from `before` leaves. -/
structure Detached (g h : Graph) (before : CNNLayerPtr) (outData data : DataPtr) : Prop where
  insData_before : (h.layer before).insData = [outData]
  layer_other : ∀ l ≠ before, h.layer l = g.layer l
  inputTo_new : (h.data outData).inputTo = StdMap.empty.set (g.layer before).name before
  inputTo_data : (h.data data).inputTo = (g.data data).inputTo.eraseFirst before
  inputTo_other : ∀ x ≠ data, x ≠ outData → (h.data x).inputTo = (g.data x).inputTo

theorem detached_replaceInput (hnew : Fresh g layerToInsert outData) (hne : data ≠ outData) :
    Detached g (g.replaceInput before data outData) before outData data := by
  refine ⟨?_, fun l hl => ?_, ?_, ?_, fun x hx hx' => ?_⟩
  · rw [replaceInput, setInputTo_layer, setInsData_insData_self]
  · rw [replaceInput, setInputTo_layer, setInsData_layer_ne hl, setInputTo_layer]
  · rw [replaceInput, setInputTo_inputTo_self, setInsData_data, setInputTo_data_ne hne.symm, hnew.inputTo_eq,
      setInsData_name, setInputTo_layer]
  · rw [replaceInput, setInputTo_data_ne hne, setInsData_data, setInputTo_inputTo_self]
  · rw [replaceInput, setInputTo_data_ne hx', setInsData_data, setInputTo_data_ne hx]

theorem replaceInput_outData (l : CNNLayerPtr) :
    ((g.replaceInput before data outData).layer l).outData = (g.layer l).outData := by
  rw [replaceInput, setInputTo_layer, setInsData_outData, setInputTo_layer]

theorem insertAtFoundPort_linked (hg : g.WellFormed) (hnew : Fresh g layerToInsert outData)
    (hone : (g.layer before).insData = [data]) (hmem : data ∈ (g.layer after).outData) :
    ∃ g' front rest, g.insertAtFoundPort after before layerToInsert = .ok (true, g') ∧
      (g.layer after).outData = front :: rest ∧
      Linked (g.replaceInput before data outData) g' layerToInsert front (g.layer after).outData := by
  obtain ⟨front, rest, hfront⟩ := List.exists_cons_of_ne_nil (List.ne_nil_of_mem hmem)
  have hafter : ((g.replaceInput before data outData).layer after).outData = (g.layer after).outData :=
    replaceInput_outData after
  have hafterFront : (g.replaceInput before data outData).frontOutData after = .ok front := by
    rw [frontOutData, hafter, hfront]
    rfl
  refine ⟨_, front, rest, ?_, hfront, linked_of_foldl (hg.nodup_outData after)⟩
  rw [insertAtFoundPort, ieAssert_bind_ok_iff, findPort_eq hg hone hmem]
  refine ⟨by rw [hone, List.length_singleton], ?_⟩
  simp only [hnew.frontOutData_eq, ok_bind, ieAssert_bind_ok_iff, hafterFront, hafter]
  exact ⟨List.ne_nil_of_mem hmem, rfl⟩

structure MovesOnly (g : Graph) (after before : CNNLayerPtr) (data : DataPtr) : Prop where
  first_output : (g.layer after).outData.head? = some data
  only_entry : ((g.data data).inputTo.eraseFirst before).entries = []
  others_read : ∀ x ∈ (g.layer after).outData, x ≠ data → (g.data x).inputTo.entries ≠ []

theorem eq_of_mem_consumers_of_only (honly : ((g.data data).inputTo.eraseFirst before).entries = [])
    {l : CNNLayerPtr} (h : l ∈ g.consumers data) : l = before := by
  obtain ⟨k, hk⟩ := StdMap.mem_values.mp h
  by_contra hne
  have hkept : (k, l) ∈ ((g.data data).inputTo.eraseFirst before).entries :=
    (List.mem_eraseP_of_neg (by simpa using hne)).mpr hk
  rw [honly] at hkept
  cases hkept

theorem Linked.routed_iff (hg : g.WellFormed) (hnew : Fresh g layerToInsert outData)
    (hone : (g.layer before).insData = [data]) (hmem : data ∈ (g.layer after).outData) {front : DataPtr}
    {rest : List DataPtr} (hfront : (g.layer after).outData = front :: rest)
    (hl : Linked (g.replaceInput before data outData) g' layerToInsert front (g.layer after).outData) :
    Routed g g' before layerToInsert outData data ↔ MovesOnly g after before data := by
  have hport : data ∈ (g.layer before).insData := hone ▸ List.mem_singleton_self _
  have hread := (hg.consistent ..).mpr hport
  have hne := hnew.ne_of_mem_consumers hread
  have hlayer := hnew.ne_of_mem_insData hport
  have hd : Detached g (g.replaceInput before data outData) before outData data := detached_replaceInput hnew hne
  have hinsNew : (g'.layer layerToInsert).insData = List.replicate ((g.layer after).outData.countP fun x =>
      ((g.replaceInput before data outData).data x).inputTo.entries = []) front := by
    rw [hl.insData_new, hd.layer_other _ hlayer, hnew.insData_eq, List.nil_append]
  have hinsBefore : (g'.layer before).insData = [outData] := by
    rw [hl.layer_other _ hlayer.symm, hd.insData_before]
  have hinsOther : ∀ l ≠ before, l ≠ layerToInsert → (g'.layer l).insData = (g.layer l).insData := by
    intro l hb hn
    rw [hl.layer_other l hn, hd.layer_other l hb]
  have hnotOutput : outData ∉ (g.layer after).outData := by
    intro houtput
    have hcreator := (hg.creator_iff ..).mpr houtput
    have hown := (hg.creator_iff outData layerToInsert).mpr (hnew.outData_eq ▸ List.mem_singleton_self _)
    rw [hown, Option.some.injEq] at hcreator
    rw [← hcreator, hnew.outData_eq] at hmem
    exact hne (List.mem_singleton.mp hmem)
  constructor
  · intro hr
    have hfirst : front = data := by
      have hin : data ∈ (g'.layer layerToInsert).insData := hr.new_ports ▸ List.mem_singleton_self _
      rw [hinsNew] at hin
      exact (List.eq_of_mem_replicate hin).symm
    refine ⟨?_, ?_, fun x hx hxd hempty => ?_⟩
    · rw [hfront, hfirst, List.head?_cons]
    · -- an output that keeps an entry is not linked
      by_contra hchild
      have hin := (hr.consistent data layerToInsert).mpr (hr.new_ports ▸ List.mem_singleton_self _)
      rw [consumers, hl.inputTo_other data (.inr (by rwa [hd.inputTo_data])), hd.inputTo_data] at hin
      obtain ⟨k, hk⟩ := StdMap.mem_values.mp hin
      have hold : layerToInsert ∈ g.consumers data := StdMap.mem_values.mpr ⟨k, List.mem_of_mem_eraseP hk⟩
      exact hnew.ne_of_mem_insData ((hg.consistent ..).mp hold) rfl
    · have hxo : x ≠ outData := fun h => hnotOutput (h ▸ hx)
      have hsame := hd.inputTo_other x hxd hxo
      have hin : layerToInsert ∈ g'.consumers x := by
        rw [consumers, hl.inputTo_childless x hx (by rwa [hsame]), StdMap.mem_values]
        exact ⟨_, StdMap.mem_set.mpr (.inl rfl)⟩
      have hafter := (hr.consistent ..).mp hin
      rw [hr.new_ports] at hafter
      exact hxd (List.mem_singleton.mp hafter)
  · intro hw
    have hfirst : front = data := by simpa [hfront] using hw.first_output
    have hnodup := hg.nodup_outData after
    rw [hfront, List.nodup_cons] at hnodup
    have hcount : (g.layer after).outData.countP (fun x =>
        ((g.replaceInput before data outData).data x).inputTo.entries = []) = 1 := by
      have hrest : rest.countP (fun x => ((g.replaceInput before data outData).data x).inputTo.entries = []) = 0 := by
        refine List.countP_eq_zero.mpr fun x hx => ?_
        have hx' : x ∈ (g.layer after).outData := hfront ▸ List.mem_cons_of_mem _ hx
        have hxd : x ≠ data := fun h => hnodup.1 (hfirst ▸ h ▸ hx)
        have hread := hw.others_read x hx' hxd
        rw [hd.inputTo_other x hxd fun h => hnotOutput (h ▸ hx')]
        simpa using hread
      rw [hfront, List.countP_cons_of_pos (by simpa [hfirst, hd.inputTo_data] using hw.only_entry), hrest]
    rw [hcount, hfirst] at hinsNew
    refine ⟨by simpa [hone] using hinsBefore, hinsNew, hinsOther, fun x l => ?_⟩
    have hports : x ∈ (g'.layer l).insData ↔ l = before ∧ x = outData ∨ l = layerToInsert ∧ x = data ∨
        (l ≠ before ∧ l ≠ layerToInsert) ∧ x ∈ (g.layer l).insData := by
      by_cases hb : l = before
      · subst hb
        simp [hinsBefore, hlayer.symm]
      · by_cases hn : l = layerToInsert
        · subst hn
          simp [hinsNew, hb]
        · simp [hinsOther l hb hn, hb, hn]
    rw [hports]
    by_cases hx : x = data
    · subst hx
      have hconsumers : l ∈ g'.consumers x ↔ l = layerToInsert := by
        rw [consumers, hl.inputTo_childless x hmem (by rw [hd.inputTo_data, hw.only_entry]), hd.inputTo_data,
          StdMap.mem_values_set_of_empty hw.only_entry]
      rw [hconsumers]
      constructor
      · exact fun h => .inr (.inl ⟨h, rfl⟩)
      · rintro (⟨-, h⟩ | ⟨h, -⟩ | ⟨⟨hb, -⟩, hin⟩)
        · exact absurd h hne
        · exact h
        · exact absurd (eq_of_mem_consumers_of_only hw.only_entry ((hg.consistent ..).mpr hin)) hb
    · by_cases hx' : x = outData
      · subst hx'
        have hnone := hnew.not_mem_insData hg l
        have hconsumers : l ∈ g'.consumers x ↔ l = before := by
          rw [consumers, hl.inputTo_other x (.inl hnotOutput), hd.inputTo_new, StdMap.mem_values_set_of_empty rfl]
        rw [hconsumers]
        simp [hx, hnone]
      · have hsame : (g'.data x).inputTo = (g.data x).inputTo := by
          rw [← hd.inputTo_other x hx hx']
          refine hl.inputTo_other x ?_
          by_cases hout : x ∈ (g.layer after).outData
          · rw [hd.inputTo_other x hx hx']
            exact .inr (hw.others_read x hout hx)
          · exact .inl hout
        have hconsumers : g'.consumers x = g.consumers x := by rw [consumers, hsame, consumers]
        rw [hconsumers, hg.consistent]
        constructor
        · intro hin
          refine .inr (.inr ⟨⟨?_, (hnew.ne_of_mem_insData hin).symm⟩, hin⟩)
          rintro rfl
          rw [hone] at hin
          exact hx (List.mem_singleton.mp hin)
        · rintro (⟨-, h⟩ | ⟨-, h⟩ | ⟨-, hin⟩)
          · exact absurd h hx'
          · exact absurd h hx
          · exact hin

/-! ### When one edge is routed -/

/-- The output of `after` that the call is about: the one of the index if `before` reads it, or else the
first that `before` reads. -/
def selectedPort (g : Graph) (after before : CNNLayerPtr) (outDataIndex : Option Nat) : Option DataPtr :=
  ((g.layer after).outData[outDataIndex.getD 0]?.filter fun data => before ∈ g.consumers data).or
    (g.findPort before (g.layer after).outData)

theorem mem_consumers_of_selectedPort {outDataIndex : Option Nat}
    (h : g.selectedPort after before outDataIndex = some data) : before ∈ g.consumers data := by
  rw [selectedPort, Option.or_eq_some_iff] at h
  rcases h with h | ⟨-, h⟩
  · simpa using (Option.filter_eq_some_iff.mp h).2
  · simpa using List.find?_some (p := (before ∈ g.consumers ·)) h

inductive RoutesWhen (g : Graph) (after before : CNNLayerPtr) (outData : DataPtr) (outDataIndex : Option Nat) : Prop
  | atPort (data : DataPtr) (port : (g.layer after).outData[outDataIndex.getD 0]? = some data)
    (read : before ∈ g.consumers data) (moves : MovesOne g before outData data)
  | atFoundPort (data : DataPtr) (port : ∀ x, (g.layer after).outData[outDataIndex.getD 0]? = some x →
      before ∉ g.consumers x ∧ (g.data x).inputTo.entries ≠ []) (one : (g.layer before).insData = [data])
    (moves : MovesOnly g after before data)

/-- The call when the index gives no port to insert at. -/
theorem insertAtFoundPort_routed_iff (hg : g.WellFormed) (hnew : Fresh g layerToInsert outData)
    (hedge : ∃ data ∈ (g.layer after).outData, data ∈ (g.layer before).insData) :
    (∃ g' data, g.insertAtFoundPort after before layerToInsert = .ok (true, g') ∧
      g.findPort before (g.layer after).outData = some data ∧ Routed g g' before layerToInsert outData data) ↔
    ∃ data, (g.layer before).insData = [data] ∧ MovesOnly g after before data := by
  obtain ⟨data, hmem, hport⟩ := hedge
  by_cases hlength : (g.layer before).insData.length = 1
  · obtain ⟨data', hone⟩ := List.length_eq_one_iff.mp hlength
    have hdata : data = data' := by
      rw [hone] at hport
      exact List.mem_singleton.mp hport
    subst hdata
    obtain ⟨g', front, rest, hrun, hfront, hl⟩ := insertAtFoundPort_linked hg hnew hone hmem
    have hiff := hl.routed_iff hg hnew hone hmem hfront
    constructor
    · rintro ⟨g'', data', hrun', hfind, hr⟩
      rw [hrun, Except.ok.injEq, Prod.mk.injEq] at hrun'
      rw [findPort_eq hg hone hmem, Option.some.injEq] at hfind
      obtain ⟨-, rfl⟩ := hrun'
      subst hfind
      exact ⟨data, hone, hiff.mp hr⟩
    · rintro ⟨data', hone', hw⟩
      rw [hone, List.cons.injEq] at hone'
      obtain ⟨rfl, -⟩ := hone'
      exact ⟨g', data, hrun, findPort_eq hg hone hmem, hiff.mpr hw⟩
  · refine iff_of_false ?_ ?_
    · rintro ⟨g', data', hrun, -, -⟩
      rw [insertAtFoundPort, ieAssert_bind_ok_iff] at hrun
      exact hlength hrun.1
    · rintro ⟨data', hone, -⟩
      rw [hone] at hlength
      exact hlength rfl

theorem insertLayer_of_atPort {outDataIndex : Option Nat}
    (hport : (g.layer after).outData[outDataIndex.getD 0]? = some data)
    (hrun : g.insertAtPort (some before) layerToInsert data = .ok (true, g')) :
    g.CNNNetworkInsertLayer (some after) (some before) layerToInsert outDataIndex = .ok g' := by
  simp only [CNNNetworkInsertLayer, hport, hrun, ok_bind]
  rfl

theorem insertLayer_ok_iff_of_not_located {outDataIndex : Option Nat}
    (hport : ∀ x, (g.layer after).outData[outDataIndex.getD 0]? = some x →
      g.insertAtPort (some before) layerToInsert x = .ok (false, g)) :
    g.CNNNetworkInsertLayer (some after) (some before) layerToInsert outDataIndex = .ok g' ↔
      g.insertAtFoundPort after before layerToInsert = .ok (true, g') := by
  have hsecond : (g.insertAtFoundPort after before layerToInsert >>= fun r =>
      if r.1 then pure r.2
      else throwException ("Cannot insert layer between: " ++ (r.2.layer after).name ++ " and " ++
        ((some before).map fun before => (r.2.layer before).name).getD "nullptr")) = .ok g' ↔
      g.insertAtFoundPort after before layerToInsert = .ok (true, g') := by
    rw [bind_ok_iff]
    constructor
    · rintro ⟨⟨bLocated, h⟩, hrun, heq⟩
      cases bLocated with
      | false => cases heq
      | true =>
        have heq' : h = g' := pure_ok_iff.mp heq
        rw [hrun, heq']
    · exact fun hrun => ⟨_, hrun, rfl⟩
  cases hindex : (g.layer after).outData[outDataIndex.getD 0]? with
  | none =>
    simp only [CNNNetworkInsertLayer, hindex]
    exact hsecond
  | some x =>
    simp only [CNNNetworkInsertLayer, hindex, hport x hindex]
    exact hsecond

/-- **Inserting a layer**: when exactly the selected port is routed through it. -/
theorem insertLayer_routed_iff (hg : g.WellFormed) (hnew : Fresh g layerToInsert outData)
    (hedge : ∃ data ∈ (g.layer after).outData, data ∈ (g.layer before).insData) (outDataIndex : Option Nat) :
    (∃ g' data, g.CNNNetworkInsertLayer (some after) (some before) layerToInsert outDataIndex = .ok g' ∧
      g.selectedPort after before outDataIndex = some data ∧ Routed g g' before layerToInsert outData data) ↔
    RoutesWhen g after before outData outDataIndex := by
  by_cases hread : ∃ data, (g.layer after).outData[outDataIndex.getD 0]? = some data ∧ before ∈ g.consumers data
  · obtain ⟨data, hport, hread⟩ := hread
    obtain ⟨g', hrun, hm⟩ := insertAtPort_moved hg hnew hread
    have hcall := insertLayer_of_atPort hport hrun
    have hselected : g.selectedPort after before outDataIndex = some data := by
      rw [selectedPort, hport, Option.filter_some_pos (by simpa using hread), Option.some_or]
    constructor
    · rintro ⟨g'', data', hcall', hselected', hr⟩
      rw [hcall, Except.ok.injEq] at hcall'
      rw [hselected, Option.some.injEq] at hselected'
      subst hcall' hselected'
      exact .atPort data hport hread ((hm.routed_iff hg hnew hread).mp hr)
    · rintro (⟨data', hport', -, hw⟩ | ⟨data', hport', -, -⟩)
      · rw [hport, Option.some.injEq] at hport'
        subst hport'
        exact ⟨g', data, hcall, hselected, (hm.routed_iff hg hnew hread).mpr hw⟩
      · exact absurd hread (hport' data hport).1
  · have hnot : ∀ x, (g.layer after).outData[outDataIndex.getD 0]? = some x → before ∉ g.consumers x :=
      fun x hx hb => hread ⟨x, hx, hb⟩
    by_cases hempty : ∃ x, (g.layer after).outData[outDataIndex.getD 0]? = some x ∧ (g.data x).inputTo.entries = []
    · -- the layer is linked with a port that `before` does not read
      obtain ⟨x, hport, hempty⟩ := hempty
      obtain ⟨g', hrun, hsame⟩ := insertAtPort_of_childless hnew hempty
      have hcall := insertLayer_of_atPort hport hrun
      refine iff_of_false ?_ ?_
      · rintro ⟨g'', data, hcall', hselected, hr⟩
        rw [hcall, Except.ok.injEq] at hcall'
        subst hcall'
        have hdata : data ∈ (g.layer before).insData :=
          (hg.consistent ..).mp (mem_consumers_of_selectedPort hselected)
        have hports := hr.before_ports
        rw [hsame before (hnew.ne_of_mem_insData hdata).symm] at hports
        have hout : outData ∈ (g.layer before).insData := by
          rw [hports]
          exact mem_map_replace.mpr (.inr ⟨rfl, hdata⟩)
        exact hnew.not_mem_insData hg before hout
      · rintro (⟨data, hport', hb, -⟩ | ⟨data, hport', -, -⟩)
        · exact hnot data hport' hb
        · exact (hport' x hport).2 hempty
    · have hchild : ∀ x, (g.layer after).outData[outDataIndex.getD 0]? = some x → (g.data x).inputTo.entries ≠ [] :=
        fun x hx he => hempty ⟨x, hx, he⟩
      have hselected : g.selectedPort after before outDataIndex = g.findPort before (g.layer after).outData := by
        have hnone : ((g.layer after).outData[outDataIndex.getD 0]?.filter
            fun data => before ∈ g.consumers data) = none :=
          Option.filter_eq_none_iff.mpr fun x hx => by simpa using hnot x hx
        rw [selectedPort, hnone, Option.none_or]
      have hcall : ∀ g', g.CNNNetworkInsertLayer (some after) (some before) layerToInsert outDataIndex = .ok g' ↔
          g.insertAtFoundPort after before layerToInsert = .ok (true, g') := fun g' =>
        insertLayer_ok_iff_of_not_located fun x hx => insertAtPort_of_not_read (hnot x hx) (hchild x hx)
      simp only [hselected, hcall]
      rw [insertAtFoundPort_routed_iff hg hnew hedge]
      constructor
      · rintro ⟨data, hone, hw⟩
        exact .atFoundPort data (fun x hx => ⟨hnot x hx, hchild x hx⟩) hone hw
      · rintro (⟨data, hport, hb, -⟩ | ⟨data, -, hone, hw⟩)
        · exact absurd hb (hnot data hport)
        · exact ⟨data, hone, hw⟩

/-! ### The second output of a split -/

/-- `split` has two outputs, one for each of two layers; the last layer is to be inserted. -/
def twoOutputs : Graph where
  layer l :=
    [⟨"split", [], [0, 1]⟩, ⟨"first", [0], []⟩, ⟨"second", [1], []⟩, ⟨"inserted", [], [2]⟩].getD l ⟨"", [], []⟩
  data d :=
    [⟨"split.0", [1, 8], some 0, StdMap.empty.set "first" 1⟩,
      ⟨"split.1", [1, 8], some 0, StdMap.empty.set "second" 2⟩,
      ⟨"inserted", [1, 8], some 3, .empty⟩].getD d ⟨"", [], none, .empty⟩

theorem twoOutputs_wellFormed : twoOutputs.WellFormed where
  consistent := by
    rintro (_ | _ | _ | d) (_ | _ | _ | _ | l) <;>
      simp [twoOutputs, consumers, StdMap.values, StdMap.set, StdMap.setEntry, StdMap.empty]
  creator_iff := by
    rintro (_ | _ | _ | d) (_ | _ | _ | _ | l) <;> simp [twoOutputs]
  nodup_outData := by
    rintro (_ | _ | _ | _ | l) <;> simp [twoOutputs]
  no_self_loop := by
    rintro (_ | _ | _ | _ | l) <;> simp [twoOutputs]

theorem twoOutputs_fresh : Fresh twoOutputs 3 2 := ⟨rfl, rfl, rfl⟩

theorem twoOutputs_routed_iff :
    (∃ g' data, twoOutputs.CNNNetworkInsertLayer (some 0) (some 2) 3 none = .ok g' ∧
      twoOutputs.selectedPort 0 2 none = some data ∧ Routed twoOutputs g' 2 3 2 data) ↔
    RoutesWhen twoOutputs 0 2 2 none :=
  insertLayer_routed_iff twoOutputs_wellFormed twoOutputs_fresh ⟨1, by decide, by decide⟩ none

/-- The inserted layer reads the first output, which `second` never read. -/
theorem first_output_linked : twoOutputs.WellFormed ∧ Fresh twoOutputs 3 2 ∧
    twoOutputs.selectedPort 0 2 none = some 1 ∧
    ∃ g', twoOutputs.CNNNetworkInsertLayer (some 0) (some 2) 3 none = .ok g' ∧ (g'.layer 3).insData = [0] ∧
      ¬Routed twoOutputs g' 2 3 2 1 := by
  refine ⟨twoOutputs_wellFormed, twoOutputs_fresh, rfl, _, rfl, rfl, fun h => ?_⟩
  have hports := h.new_ports
  revert hports
  decide

end Graph

end OpenVino.InferenceEngine.Heap
