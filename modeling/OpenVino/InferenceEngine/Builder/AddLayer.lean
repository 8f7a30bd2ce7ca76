import OpenVino.InferenceEngine.Builder.Network

/-!
# What the methods of the builder do to ids, names and connections

`addLayer_ok`: the id and the name of a new layer are no other layer's, and nothing else changes;
`addLayer_returns`: both searches end, since a scan that met a layer leaves a name longer than that layer's
(`scanNames_false`) and the ids tried are different. `frame` is what the ports are not part of: the ids, the
names and the connections. Writing data to a port leaves it as it is, so `connect` does (`mergePortData_leaves`)
but for the connection that it adds.
-/

namespace OpenVino.InferenceEngine.Builder.Network

open Method

variable {Parameter : Type} {layers : List (Layer Parameter)} {layer : Layer Parameter} {n n' : Network Parameter}
  {id : IdxT} {fuel : Nat} {s t : String} {write : Layer Parameter → Layer Parameter}

/-! ### The search for an id -/

theorem availableId_ok {d : IdxT} (h : availableId layers fuel d = .ok id) : ∀ layer ∈ layers, layer.id ≠ id := by
  induction fuel generalizing d with
  | zero => cases h
  | succ fuel ih =>
    rw [availableId] at h
    split_ifs at h with htaken
    · exact ih h
    · obtain rfl := pure_ok_iff.mp h
      intro layer hl heq
      exact htaken ⟨layer, hl, heq⟩

/-- A search that ran out of fuel met a layer at each id. -/
theorem taken_of_availableId {d : IdxT} (h : ∀ id, availableId layers fuel d ≠ .ok id) (hd : d < 2 ^ 64) {k : Nat}
    (hk : k < fuel) : ∃ layer ∈ layers, layer.id = (d + k) % 2 ^ 64 := by
  induction fuel generalizing d k with
  | zero => omega
  | succ fuel ih =>
    rw [availableId] at h
    split_ifs at h with htaken
    · cases k with
      | zero =>
        rw [Nat.add_zero, Nat.mod_eq_of_lt hd]
        exact htaken
      | succ k =>
        obtain ⟨layer, hl, hid⟩ := ih h (Nat.mod_lt _ (by norm_num)) (Nat.lt_of_succ_lt_succ hk)
        refine ⟨layer, hl, ?_⟩
        rw [hid, Nat.mod_add_mod, Nat.add_assoc, Nat.add_comm 1]
    · exact absurd rfl (h d)

theorem getAvailableId_total {d : IdxT} (hlen : layers.length < 2 ^ 64) (hd : d < 2 ^ 64) :
    ∃ id, getAvailableId layers d = .ok id := by
  by_contra hnone
  rw [not_exists] at hnone
  set d₀ := if d = 2 ^ 64 - 1 then 0 else d
  have hd₀ : d₀ < 2 ^ 64 := by
    simp only [d₀]
    split_ifs
    · norm_num
    · exact hd
  -- the ids from `d₀` on are more than there are layers
  have hsub : (Finset.range (layers.length + 1)).image (fun k => (d₀ + k) % 2 ^ 64) ⊆ (layers.map Layer.id).toFinset := by
    intro id hid
    obtain ⟨k, hk, rfl⟩ := Finset.mem_image.mp hid
    obtain ⟨layer, hl, hid⟩ := taken_of_availableId hnone hd₀ (Finset.mem_range.mp hk)
    rw [List.mem_toFinset]
    exact List.mem_map.mpr ⟨layer, hl, hid⟩
  have hinj : Set.InjOn (fun k => (d₀ + k) % 2 ^ 64) (Finset.range (layers.length + 1)) := by
    intro j hj k hk hjk
    have hj := Finset.mem_range.mp (Finset.mem_coe.mp hj)
    have hk := Finset.mem_range.mp (Finset.mem_coe.mp hk)
    have hmod : d₀ + j ≡ d₀ + k [MOD 2 ^ 64] := hjk
    exact hmod.add_left_cancel'.eq_of_lt_of_lt (by omega) (by omega)
  have hcard := Finset.card_le_card hsub
  rw [Finset.card_image_of_injOn hinj, Finset.card_range] at hcard
  have hle := List.toFinset_card_le (layers.map Layer.id)
  rw [List.length_map] at hle
  omega

/-! ### The search for a name -/

theorem scanNames_true (h : scanNames id layers s = (t, true)) : t = s ∧ ∀ layer ∈ layers, layer.name ≠ s := by
  induction layers with
  | nil => exact ⟨(congrArg Prod.fst h).symm, fun _ hl => absurd hl List.not_mem_nil⟩
  | cons layer layers ih =>
    rw [scanNames] at h
    split_ifs at h with hname
    · cases h
    · obtain ⟨hts, hlayers⟩ := ih h
      refine ⟨hts, fun l hl => ?_⟩
      rcases List.mem_cons.mp hl with rfl | hl
      · exact Ne.symm hname
      · exact hlayers l hl

theorem length_le_scanNames : s.length ≤ (scanNames id layers s).1.length := by
  induction layers generalizing s with
  | nil => exact Nat.le_refl _
  | cons layer layers ih =>
    rw [scanNames]
    split_ifs with hname
    · refine Nat.le_trans ?_ ih
      rw [String.length_append]
      omega
    · exact ih

/-- A scan that met a layer leaves a name that is longer than that layer's. -/
theorem scanNames_false (h : scanNames id layers s = (t, false)) :
    ∃ layer ∈ layers, s.length ≤ layer.name.length ∧ layer.name.length < t.length := by
  induction layers generalizing s with
  | nil => cases h
  | cons layer layers ih =>
    rw [scanNames] at h
    split_ifs at h with hname
    · refine ⟨layer, List.mem_cons_self, by rw [hname], ?_⟩
      have hlong := @length_le_scanNames _ layers id (s ++ ("_" ++ idName id))
      have ht : (scanNames id layers (s ++ ("_" ++ idName id))).1 = t := congrArg Prod.fst h
      have hone : "_".length = 1 := rfl
      rw [ht, String.length_append, String.length_append, hone] at hlong
      rw [← hname]
      omega
    · obtain ⟨l, hl, hlen⟩ := ih h
      exact ⟨l, List.mem_cons_of_mem _ hl, hlen⟩

theorem availableName_ok (h : availableName layers id fuel s = .ok t) : ∀ layer ∈ layers, layer.name ≠ t := by
  induction fuel generalizing s with
  | zero => cases h
  | succ fuel ih =>
    rw [availableName] at h
    rcases hscan : scanNames id layers s with ⟨u, _ | _⟩
    · rw [hscan] at h
      exact ih h
    · rw [hscan] at h
      obtain ⟨hus, hlayers⟩ := scanNames_true hscan
      obtain rfl := pure_ok_iff.mp h
      rw [hus]
      exact hlayers

/-- Only the layers with a name at least as long are still in the way. -/
theorem availableName_total (h : layers.countP (fun layer => s.length ≤ layer.name.length) < fuel) :
    ∃ t, availableName layers id fuel s = .ok t := by
  induction fuel generalizing s with
  | zero => omega
  | succ fuel ih =>
    rw [availableName]
    rcases hscan : scanNames id layers s with ⟨u, _ | _⟩
    · obtain ⟨layer, hl, hle, hlt⟩ := scanNames_false hscan
      apply ih
      refine Nat.lt_of_lt_of_le ?_ (Nat.lt_succ_iff.mp h)
      rw [List.countP_eq_length_filter, List.countP_eq_length_filter]
      have hsub : layers.filter (fun layer => decide (u.length ≤ layer.name.length)) =
          (layers.filter (fun layer => decide (s.length ≤ layer.name.length))).filter
            (fun layer => decide (u.length ≤ layer.name.length)) := by
        rw [List.filter_filter]
        apply List.filter_congr
        intro l _
        simp only [← Bool.decide_and, decide_eq_decide]
        omega
      rw [hsub]
      apply List.length_filter_lt_length_iff_exists.mpr
      exact ⟨layer, List.mem_filter.mpr ⟨hl, by simpa using hle⟩, by simpa using hlt⟩
    · exact ⟨u, rfl⟩

/-! ### `addLayer` -/

theorem exec_addLayer : exec (addLayer layer) n =
    match getAvailableId n.layers layer.id with
    | .error e => (.error e, n)
    | .ok id =>
      match generateAvailableName n.layers layer.name id with
      | .error e => (.error e, n)
      | .ok name => (.ok id, { n with layers := n.layers ++ [{ layer with id, name }] }) := by
  unfold addLayer
  simp only [exec_bind, exec_get, exec_lift]
  cases getAvailableId n.layers layer.id with
  | error e => rfl
  | ok id =>
    cases hname : generateAvailableName n.layers layer.name id with
    | error e => simp only [hname]
    | ok name => simp only [hname, exec_modify, exec_pure]

theorem addLayer_ok (h : exec (addLayer layer) n = (.ok id, n')) :
    ∃ name, id ∉ n.layers.map Layer.id ∧ name ∉ n.layers.map Layer.name ∧
      n' = { n with layers := n.layers ++ [{ layer with id, name }] } := by
  rw [exec_addLayer] at h
  cases hid : getAvailableId n.layers layer.id with
  | error e =>
    rw [hid] at h
    cases h
  | ok id' =>
    cases hname : generateAvailableName n.layers layer.name id' with
    | error e =>
      simp only [hid, hname] at h
      cases h
    | ok name =>
      simp only [hid, hname] at h
      cases h
      refine ⟨name, fun hmem => ?_, fun hmem => ?_, rfl⟩
      · obtain ⟨l, hl, heq⟩ := List.mem_map.mp hmem
        exact availableId_ok hid l hl heq
      · obtain ⟨l, hl, heq⟩ := List.mem_map.mp hmem
        exact availableName_ok hname l hl heq

theorem addLayer_error {e : IEException} (h : exec (addLayer layer) n = (.error e, n')) : n' = n := by
  rw [exec_addLayer] at h
  split at h
  · exact (congrArg Prod.snd h).symm
  · split at h
    · exact (congrArg Prod.snd h).symm
    · cases h

/-- **`addLayer` returns** unless every id is taken. The layer is appended under an id and a name that no other layer
has. -/
theorem addLayer_returns (hlen : n.layers.length < 2 ^ 64) (hid : layer.id < 2 ^ 64) :
    ∃ id name, exec (addLayer layer) n = (.ok id, { n with layers := n.layers ++ [{ layer with id, name }] }) ∧
      id ∉ n.layers.map Layer.id ∧ name ∉ n.layers.map Layer.name := by
  obtain ⟨id, hid⟩ := getAvailableId_total hlen hid
  have hsome : ∃ name, generateAvailableName n.layers layer.name id = .ok name :=
    availableName_total (Nat.lt_succ_of_le List.countP_le_length)
  obtain ⟨name, hname⟩ := hsome
  refine ⟨id, name, ?_, fun hmem => ?_, fun hmem => ?_⟩
  · rw [exec_addLayer, hid]
    simp only [hname]
  · obtain ⟨l, hl, heq⟩ := List.mem_map.mp hmem
    exact availableId_ok hid l hl heq
  · obtain ⟨l, hl, heq⟩ := List.mem_map.mp hmem
    exact availableName_ok hname l hl heq

/-- A layer whose id and name are taken. -/
theorem addLayer_returns_taken :
    let layer : Layer Unit := { id := 0, type := "Input", name := "in" }
    ∃ id name, exec (addLayer layer) { layers := [layer] } = (.ok id, { layers := [layer, { layer with id, name }] }) ∧
      id ≠ 0 ∧ name ≠ "in" := by
  intro layer
  obtain ⟨id, name, hexec, hid, hname⟩ :=
    @addLayer_returns Unit layer { layers := [layer] } (by decide) (by decide)
  exact ⟨id, name, hexec, fun h => hid (List.mem_singleton.mpr h), fun h => hname (List.mem_singleton.mpr h)⟩

/-! ### The frame of the port data -/

/-- The ids and the names of the layers, and the connections. -/
def frame (n : Network Parameter) : List IdxT × List String × List Connection :=
  (n.layers.map Layer.id, n.layers.map Layer.name, n.connections)

theorem map_modify_eq {α β : Type} {f : α → α} {g : α → β} (h : ∀ a, g (f a) = g a) (l : List α) (i : Nat) :
    (l.modify i f).map g = l.map g := by
  apply List.ext_getElem?
  intro j
  simp only [List.getElem?_map, List.getElem?_modify]
  cases l[j]? with
  | none => rfl
  | some a =>
    simp only [Option.map_eq_map, Option.map_some]
    split_ifs
    · rw [h]
    · rfl

theorem modifyLayer_leaves (hid : ∀ layer, (write layer).id = layer.id)
    (hname : ∀ layer, (write layer).name = layer.name) : Leaves frame (modifyLayer id write) := by
  intro n
  simp only [modifyLayer, exec_modify, frame, map_modify_eq hid, map_modify_eq hname]

theorem getLayer_leaves : Leaves frame (getLayer id : Method (Network Parameter) _) := by
  rw [leaves_iff]
  intro v
  refine maintains_get.bind fun n => ?_
  split
  · exact maintains_pure _
  · exact maintains_throw _

/-- The layer that `getLayer` returns is one of the network. -/
theorem mem_of_getLayer (h : exec (getLayer id) n = (.ok layer, n')) : layer ∈ n.layers ∧ layer.id = id ∧ n' = n := by
  unfold getLayer at h
  simp only [exec_bind, exec_get] at h
  split at h
  · next l hl =>
    cases h
    exact ⟨List.mem_of_find?_eq_some hl, by simpa using List.find?_some hl, rfl⟩
  · cases h

variable {info input output : PortInfo} {data : PortData Parameter}

theorem setInputData_leaves : Leaves frame (setInputData info data) := by
  rw [leaves_iff]
  intro v
  refine (leaves_iff.mp getLayer_leaves v).bind fun layer => (maintains_lift _).bind fun _ => ?_
  exact leaves_iff.mp (modifyLayer_leaves (by intro; rfl) (by intro; rfl)) v

theorem setOutputData_leaves : Leaves frame (setOutputData info data) := by
  rw [leaves_iff]
  intro v
  refine (leaves_iff.mp getLayer_leaves v).bind fun layer => (maintains_lift _).bind fun _ => ?_
  exact leaves_iff.mp (modifyLayer_leaves (by intro; rfl) (by intro; rfl)) v

theorem disconnect_frame (n : Network Parameter) (connection : Connection) (fresh : PortData Parameter) : frame (exec (disconnect connection fresh) n).2 =
    (n.layers.map Layer.id, n.layers.map Layer.name, n.connections.erase connection) := by
  unfold disconnect
  simp only [exec_bind, exec_modify]
  have hleaves : Leaves frame (tryCatch (setInputData connection.output fresh) swallow) := by
    rw [leaves_iff]
    intro v
    refine (leaves_iff.mp setInputData_leaves v).tryCatch fun e => ?_
    cases e with
    | exception message => exact maintains_pure ()
    | assertionFailed expression => exact maintains_throw _
    | undefinedBehaviour expression => exact maintains_throw _
    | outOfFuel => exact maintains_throw _
  exact hleaves _

variable [DecidableEq Parameter]

theorem mergePortData_leaves : Leaves frame (mergePortData input output : Method (Network Parameter) Bool) := by
  rw [leaves_iff]
  intro v
  refine (leaves_iff.mp getLayer_leaves v).bind fun srcLayer => (maintains_lift _).bind fun srcPortData => ?_
  refine (leaves_iff.mp getLayer_leaves v).bind fun dstLayer => (maintains_lift _).bind fun dstPortData => ?_
  refine Maintains.ite (fun _ => maintains_pure _) fun _ => Maintains.ite (fun _ => maintains_pure _) fun _ => ?_
  refine (maintains_lift _).bind fun counts => ?_
  rcases counts with _ | ⟨srcDataCount, dstDataCount⟩
  · exact maintains_pure _
  · refine Maintains.ite (fun _ => maintains_get.bind fun n => ?_) fun _ => ?_
    · refine Maintains.bind (Maintains.forM fun connection => ?_) fun _ => ?_
      · refine Maintains.ite (fun _ => maintains_pure _) fun _ => ?_
        exact leaves_iff.mp setInputData_leaves v
      · exact (leaves_iff.mp setOutputData_leaves v).bind fun _ => maintains_pure _
    · exact (leaves_iff.mp setInputData_leaves v).bind fun _ => maintains_pure _

/-- `connect` reads both layers first, so it returns only when both are there. -/
theorem mem_of_mergePortData {merged : Bool} (h : exec (mergePortData input output) n = (.ok merged, n')) :
    input.layer ∈ n.layers.map Layer.id ∧ output.layer ∈ n.layers.map Layer.id := by
  obtain ⟨srcLayer, n₁, hsrc, h₁⟩ := bind_ok h
  obtain ⟨srcPortData, n₂, hport, h₂⟩ := bind_ok h₁
  obtain ⟨dstLayer, n₃, hdst, -⟩ := bind_ok h₂
  obtain ⟨hmem, hid, rfl⟩ := mem_of_getLayer hsrc
  rw [exec_lift] at hport
  obtain rfl := congrArg Prod.snd hport
  obtain ⟨hmem', hid', -⟩ := mem_of_getLayer hdst
  exact ⟨List.mem_map.mpr ⟨srcLayer, hmem, hid⟩, List.mem_map.mpr ⟨dstLayer, hmem', hid'⟩⟩

theorem connect_ok (h : exec (connect input output) n = (.ok (), n')) :
    frame n' = (n.layers.map Layer.id, n.layers.map Layer.name, n.connections ++ [⟨input, output⟩]) ∧
      input.layer ∈ n.layers.map Layer.id ∧ output.layer ∈ n.layers.map Layer.id := by
  obtain ⟨merged, n₁, hmerge, hstore⟩ := bind_ok h
  refine ⟨?_, mem_of_mergePortData hmerge⟩
  have hleaves := @mergePortData_leaves _ input output _ n
  rw [hmerge] at hleaves
  cases merged with
  | false => cases hstore
  | true =>
    have hn : { n₁ with connections := n₁.connections ++ [⟨input, output⟩] } = n' := congrArg Prod.snd hstore
    rw [← hn]
    simp only [frame, Prod.mk.injEq] at hleaves ⊢
    obtain ⟨hids, hnames, hconnections⟩ := hleaves
    exact ⟨hids, hnames, by rw [hconnections]⟩

theorem connect_error {e : IEException} (h : exec (connect input output) n = (.error e, n')) :
    frame n' = frame n := by
  have hleaves := @mergePortData_leaves _ input output _ n
  rcases bind_error h with hmerge | ⟨merged, n₁, hmerge, hstore⟩
  · rw [hmerge] at hleaves
    exact hleaves
  · rw [hmerge] at hleaves
    cases merged with
    | false =>
      obtain rfl := congrArg Prod.snd hstore
      exact hleaves
    | true => cases hstore

end OpenVino.InferenceEngine.Builder.Network
