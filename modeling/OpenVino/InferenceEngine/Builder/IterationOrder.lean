import OpenVino.InferenceEngine.Builder.Iterator

/-!
# Which networks an iteration visits completely

For a network whose connections refer to its layers, the iterator's search is `Marks.forest` on the ids
(`sortedLayers_eq`), so it throws exactly when a layer without an incoming connection leads to a ring of two or
more layers, and else visits what these layers lead to, sources first (`iterate_cases`). `iteratesCompletely_iff`:
an iteration is complete or throws exactly when the network has no ring at all, or a ring that such a layer
leads to. On the same condition `build` returns no network with fewer layers.
-/

namespace OpenVino.InferenceEngine.Builder.Network

open Relation Method

variable {Parameter : Type} {n n' m : Network Parameter} {layer : Layer Parameter}
  {getLayer : IdxT → Result (Option (Layer Parameter))} {fuel : Nat} {u v : IdxT} {s : Marks IdxT}

/-- Ids are distinct, and connections refer to layers of the network. -/
structure Valid (n : Network Parameter) : Prop where
  ids : (n.layers.map Layer.id).Nodup
  source : ∀ connection ∈ n.connections, connection.input.layer ∈ n.layers.map Layer.id
  destination : ∀ connection ∈ n.connections, connection.output.layer ∈ n.layers.map Layer.id

/-- A connection leads from `u` to `v`. -/
def Conn (n : Network Parameter) (u v : IdxT) : Prop :=
  ∃ connection ∈ n.connections, connection.input.layer = u ∧ connection.output.layer = v

def Ringless (n : Network Parameter) : Prop := ∀ u, ¬ TransGen n.Conn u u

/-- A layer that no connection leads to leads to a ring of two or more layers. -/
def HeadReachesRing (n : Network Parameter) : Prop :=
  ∃ head ∈ n.layers.map Layer.id, (∀ u, ¬ n.Conn u head) ∧
    ∃ u, ReflTransGen n.Conn head u ∧ TransGen (fun a b => n.Conn a b ∧ b ≠ a) u u

/-- Each layer of the network once, the source of each connection before its destination. -/
def CompleteOrder (n : Network Parameter) (sorted : List (Layer Parameter)) : Prop :=
  sorted.Perm n.layers ∧ ∀ connection ∈ n.connections,
    (sorted.map Layer.id).idxOf connection.input.layer < (sorted.map Layer.id).idxOf connection.output.layer

/-! ### The search on the ids -/

/-- The other layers that a layer's connections lead to. -/
def nextIds (n : Network Parameter) (u : IdxT) : List IdxT :=
  ((n.getLayerConnections u).map fun connection => connection.output.layer).filter (· ≠ u)

theorem edge_nextIds : Edge n.nextIds = fun a b => n.Conn a b ∧ b ≠ a := by
  funext a b
  simp only [Edge, nextIds, getLayerConnections, Conn, List.mem_filter, List.mem_map, decide_eq_true_eq,
    Bool.or_eq_true, eq_iff_iff]
  constructor
  · rintro ⟨⟨connection, ⟨hmem, hends⟩, rfl⟩, hne⟩
    exact ⟨⟨connection, hmem, hends.resolve_right hne, rfl⟩, hne⟩
  · rintro ⟨⟨connection, hmem, hinput, rfl⟩, hne⟩
    exact ⟨⟨connection, ⟨hmem, .inl hinput⟩, rfl⟩, hne⟩

theorem reflTransGen_conn_iff : ReflTransGen (Edge n.nextIds) u v ↔ ReflTransGen n.Conn u v := by
  rw [edge_nextIds]
  constructor
  · exact ReflTransGen.mono (fun _ _ hab => hab.1) _ _
  · intro h
    induction h with
    | refl => exact .refl
    | tail _ hconn ih =>
      rename_i b c _
      by_cases hcb : c = b
      · rwa [hcb]
      · exact ih.tail ⟨hconn, hcb⟩

theorem find?_id (hn : (n.layers.map Layer.id).Nodup) (hl : layer ∈ n.layers) :
    n.layers.find? (·.id = layer.id) = some layer := by
  cases hfind : n.layers.find? (·.id = layer.id) with
  | none =>
    have hnone := List.find?_eq_none.mp hfind layer hl
    simp at hnone
  | some l =>
    have hid : l.id = layer.id := by simpa using List.find?_some hfind
    rw [List.inj_on_of_nodup_map hn (List.mem_of_find?_eq_some hfind) hl hid]

/-- The state of the iterator for the marks of a search on the ids. -/
def toState (n : Network Parameter) (s : Marks IdxT) : DfsState Parameter where
  visited := s.visited
  sortedLayers := s.order.filterMap fun v => n.layers.find? (·.id = v)

def loopMessage : String := "Sorting not possible, due to existed loop."

def outcome (n : Network Parameter) : Except Stuck (Marks IdxT) → Result (DfsState Parameter)
  | .ok s => .ok (n.toState s)
  | .error .loop => throwException loopMessage
  | .error .outOfFuel => .error .outOfFuel

/-- `getLayer` gives the layers of the network. -/
def Finds (n : Network Parameter) (getLayer : IdxT → Result (Option (Layer Parameter))) : Prop :=
  ∀ layer ∈ n.layers, getLayer layer.id = .ok (some layer)

/-- A round of the loop is a step of the search. -/
theorem visitNext_eq (hget : n.Finds getLayer)
    {run : DfsState Parameter → Layer Parameter → Result (DfsState Parameter)}
    {run' : Marks IdxT → IdxT → Except Stuck (Marks IdxT)} {outLayer : Layer Parameter} {connection : Connection}
    (hrun : ∀ s, run (n.toState s) outLayer = n.outcome (run' s outLayer.id)) (hout : outLayer ∈ n.layers)
    (hid : outLayer.id = connection.output.layer) (hne : connection.output.layer ≠ layer.id) :
    visitNext getLayer run layer (n.toState s) connection = n.outcome (Marks.step run' s outLayer.id) := by
  have hvisited : (n.toState s).visited = s.visited := rfl
  rw [visitNext, if_neg hne, ← hid, hget outLayer hout]
  simp only [bind, Except.bind, Marks.step, hvisited]
  cases s.visited outLayer.id with
  | none => exact hrun s
  | some finished => cases finished <;> rfl

theorem outcome_bind {x : Except Stuck (Marks IdxT)} {f : Marks IdxT → Except Stuck (Marks IdxT)}
    {g : DfsState Parameter → Result (DfsState Parameter)} (h : ∀ t, g (n.toState t) = n.outcome (f t)) :
    n.outcome x >>= g = n.outcome (x >>= f) := by
  cases x with
  | ok t => exact h t
  | error e => cases e <;> rfl

/-- The loop over a layer's connections is the loop over the ids they lead to. -/
theorem foldlM_visitNext {connections : List Connection} (hn : n.Valid) (hget : n.Finds getLayer)
    {run : DfsState Parameter → Layer Parameter → Result (DfsState Parameter)}
    {run' : Marks IdxT → IdxT → Except Stuck (Marks IdxT)}
    (hrun : ∀ s, ∀ l ∈ n.layers, run (n.toState s) l = n.outcome (run' s l.id))
    (hmem : ∀ connection ∈ connections, connection ∈ n.connections) :
    connections.foldlM (visitNext getLayer run layer) (n.toState s) =
      n.outcome (((connections.map fun connection => connection.output.layer).filter (· ≠ layer.id)).foldlM
        (Marks.step run') s) := by
  induction connections generalizing s with
  | nil => rfl
  | cons connection connections ih =>
    have hrest {s : Marks IdxT} := @ih s fun c hc => hmem c (List.mem_cons_of_mem _ hc)
    rw [List.foldlM_cons, List.map_cons]
    by_cases hself : connection.output.layer = layer.id
    · rw [visitNext, if_pos hself, List.filter_cons_of_neg (by simpa using hself)]
      exact hrest
    · obtain ⟨outLayer, hout, hid⟩ := List.mem_map.mp (hn.destination connection (hmem _ List.mem_cons_self))
      rw [visitNext_eq hget (fun s => hrun s outLayer hout) hout hid hself,
        List.filter_cons_of_pos (by simpa using hself), List.foldlM_cons, ← hid]
      exact outcome_bind fun t => hrest

theorem DFS_eq (hn : n.Valid) (hget : n.Finds getLayer) (hl : layer ∈ n.layers) :
    n.DFS getLayer fuel (n.toState s) layer = n.outcome (Marks.search n.nextIds fuel s layer.id) := by
  induction fuel generalizing s layer with
  | zero => rfl
  | succ fuel ih =>
    have hloop := @foldlM_visitNext _ n layer getLayer (s.enter layer.id) (n.getLayerConnections layer.id) hn hget _ _
      (fun s l hl => ih hl) fun c hc => (List.mem_filter.mp hc).1
    rw [DFS, Marks.search]
    change List.foldlM _ (n.toState (s.enter layer.id)) _ >>= _ = _
    rw [hloop]
    refine outcome_bind fun t => ?_
    have hleave : n.toState (t.leave layer.id) =
        { visited := Function.update (n.toState t).visited layer.id (some true)
          sortedLayers := layer :: (n.toState t).sortedLayers } := by
      simp only [toState, Marks.leave, List.filterMap_cons, find?_id hn.ids hl]
    change Except.ok _ = Except.ok (n.toState (t.leave layer.id))
    rw [hleave]

theorem sortedLayers_eq (hn : n.Valid) (hget : n.Finds getLayer) {inputs : List (Layer Parameter)}
    (hinputs : ∀ layer ∈ inputs, layer ∈ n.layers) : n.sortedLayers inputs getLayer =
      (n.outcome (Marks.forest n.nextIds (n.layers.length + 1) (inputs.map Layer.id))).map
        DfsState.sortedLayers := by
  have hfold : ∀ (inputs : List (Layer Parameter)) (s : Marks IdxT), (∀ layer ∈ inputs, layer ∈ n.layers) →
      inputs.foldlM (n.DFS getLayer (n.layers.length + 1)) (n.toState s) =
        n.outcome ((inputs.map Layer.id).foldlM (Marks.search n.nextIds (n.layers.length + 1)) s) := by
    intro inputs
    induction inputs with
    | nil => exact fun s _ => rfl
    | cons layer inputs ih =>
      intro s hmem
      rw [List.foldlM_cons, List.map_cons, List.foldlM_cons, DFS_eq hn hget (hmem _ List.mem_cons_self)]
      exact outcome_bind fun t => ih t fun l hl => hmem l (List.mem_cons_of_mem _ hl)
  have hrun := hfold inputs {} hinputs
  have hstart : n.toState {} = {} := rfl
  rw [sortedLayers, ← hstart, hrun, Marks.forest]
  cases n.outcome ((inputs.map Layer.id).foldlM (Marks.search n.nextIds (n.layers.length + 1)) {}) <;> rfl

/-! ### One iteration -/

theorem map_id_filterMap {order : List IdxT} (h : ∀ v ∈ order, v ∈ n.layers.map Layer.id) :
    (order.filterMap fun v => n.layers.find? (·.id = v)).map Layer.id = order := by
  induction order with
  | nil => rfl
  | cons v order ih =>
    obtain ⟨layer, hl, hid⟩ := List.mem_map.mp (h v List.mem_cons_self)
    have hsome : (n.layers.find? (·.id = v)).isSome := by
      rw [List.find?_isSome]
      exact ⟨layer, hl, by simpa using hid⟩
    obtain ⟨found, hfind⟩ := Option.isSome_iff_exists.mp hsome
    have hfound : found.id = v := by simpa using List.find?_some hfind
    rw [List.filterMap_cons, hfind]
    simp only [List.map_cons, hfound, ih fun u hu => h u (List.mem_cons_of_mem _ hu)]

theorem mem_getInputs_iff : layer ∈ n.getInputs ↔ layer ∈ n.layers ∧ ∀ u, ¬ n.Conn u layer.id := by
  simp only [getInputs, isInputLayer, getLayerConnections, Conn, List.mem_filter, Bool.not_eq_true',
    List.any_eq_false, decide_eq_true_eq, Bool.or_eq_true, not_exists, not_and]
  refine and_congr_right fun _ => ⟨fun h u connection hmem _ hout => ?_, fun h connection hmem hout => ?_⟩
  · exact h connection ⟨hmem, .inr hout⟩ hout
  · exact h _ connection hmem.1 rfl hout

theorem finds_getLayer (hn : n.Valid) : n.Finds fun layerId => (exec (Network.getLayer layerId) n).1.map some := by
  intro layer hl
  unfold Network.getLayer
  simp only [exec_bind, exec_get, find?_id hn.ids hl, exec_pure]
  rfl

theorem headReachesRing_iff :
    n.HeadReachesRing ↔ ∃ head ∈ n.getInputs.map Layer.id, Marks.Loops n.nextIds head := by
  unfold HeadReachesRing Marks.Loops
  rw [edge_nextIds.symm]
  constructor
  · rintro ⟨head, hhead, hfree, u, hreach, hring⟩
    obtain ⟨layer, hl, rfl⟩ := List.mem_map.mp hhead
    exact ⟨_, List.mem_map_of_mem (mem_getInputs_iff.mpr ⟨hl, hfree⟩), u, reflTransGen_conn_iff.mpr hreach, hring⟩
  · rintro ⟨head, hhead, u, hreach, hring⟩
    obtain ⟨layer, hl, rfl⟩ := List.mem_map.mp hhead
    obtain ⟨hmem, hfree⟩ := mem_getInputs_iff.mp hl
    exact ⟨_, List.mem_map_of_mem hmem, hfree, u, reflTransGen_conn_iff.mp hreach, hring⟩

/-- **One iteration**: it throws at a ring that a layer without an incoming connection leads to, and else visits
what these layers lead to. -/
theorem iterate_cases (hn : n.Valid) :
    n.iterate = throwException loopMessage ∧ n.HeadReachesRing ∨
      ∃ sorted, n.iterate = .ok sorted ∧ ¬ n.HeadReachesRing ∧ (∀ layer ∈ sorted, layer ∈ n.layers) ∧
        Topological n.nextIds (sorted.map Layer.id) ∧ ∃ gray, Visits n.nextIds gray (n.getInputs.map Layer.id) []
          (sorted.map Layer.id) := by
  have hclosed : ∀ v ∈ (n.layers.map Layer.id).toFinset, ∀ c ∈ n.nextIds v, c ∈ (n.layers.map Layer.id).toFinset := by
    intro v _ c hc
    have hedge : Edge n.nextIds v c := hc
    rw [edge_nextIds] at hedge
    obtain ⟨⟨connection, hmem, -, rfl⟩, -⟩ := hedge
    exact List.mem_toFinset.mpr (hn.destination connection hmem)
  have hfuel : (n.layers.map Layer.id).toFinset.card < n.layers.length + 1 := by
    rw [List.toFinset_card_of_nodup hn.ids, List.length_map]
    omega
  have hnd : (n.getInputs.map Layer.id).Nodup := hn.ids.sublist (List.filter_sublist.map _)
  have hroots : ∀ r ∈ n.getInputs.map Layer.id, r ∈ (n.layers.map Layer.id).toFinset ∧ ∀ u, r ∉ n.nextIds u := by
    intro r hr
    obtain ⟨layer, hl, rfl⟩ := List.mem_map.mp hr
    obtain ⟨hmem, hfree⟩ := mem_getInputs_iff.mp hl
    refine ⟨List.mem_toFinset.mpr (List.mem_map_of_mem hmem), fun u hu => ?_⟩
    have hedge : Edge n.nextIds u layer.id := hu
    rw [edge_nextIds] at hedge
    exact hfree u hedge.1
  have hiterate := sortedLayers_eq hn (finds_getLayer hn) (n := n) fun layer hl => (mem_getInputs_iff.mp hl).1
  change n.iterate = _ at hiterate
  have hloop := Marks.forest_loop_iff hclosed hfuel hnd hroots
  rw [← headReachesRing_iff] at hloop
  rcases Marks.forest_cases hclosed hfuel hnd hroots with ⟨s, hrun, hvisits⟩ | ⟨hrun, hloops⟩
  · rw [hrun] at hiterate hloop
    have horder : (n.toState s).sortedLayers.map Layer.id = s.order := map_id_filterMap fun v hv =>
      List.mem_toFinset.mp (Marks.forest_subset hclosed hfuel hnd hroots hrun hv)
    refine .inr ⟨(n.toState s).sortedLayers, hiterate, fun h => (by cases hloop.mpr h), fun layer hl => ?_, ?_, [], ?_⟩
    · obtain ⟨v, -, hfind⟩ := List.mem_filterMap.mp hl
      exact List.mem_of_find?_eq_some hfind
    · rw [horder]
      exact hvisits.topological trivial
    · rw [horder]
      exact hvisits
  · rw [hrun] at hiterate
    exact .inl ⟨hiterate, hloop.mp hrun⟩

/-- In a network without rings the heads lead to every layer. -/
theorem completeOrder_of_ringless (hn : n.Valid) (hring : n.Ringless) {sorted : List (Layer Parameter)}
    (hsub : ∀ layer ∈ sorted, layer ∈ n.layers) (htopo : Topological n.nextIds (sorted.map Layer.id))
    {gray : List IdxT} (hvisits : Visits n.nextIds gray (n.getInputs.map Layer.id) [] (sorted.map Layer.id)) :
    n.CompleteOrder sorted := by
  have hconn : ∀ u v, v ∈ n.nextIds u → n.Conn u v := by
    intro u v hv
    have hedge : Edge n.nextIds u v := hv
    rw [edge_nextIds] at hedge
    exact hedge.1
  have hall : ∀ v ∈ (n.layers.map Layer.id).toFinset, v ∈ sorted.map Layer.id := by
    intro v hv
    refine hvisits.mem_of_roots htopo (fun u _ hcycle => hring u (TransGen.mono hconn _ _ hcycle)) ?_ ?_ hv
    · intro u _ c hc
      obtain ⟨connection, hmem, -, rfl⟩ := hconn u c hc
      exact List.mem_toFinset.mpr (hn.destination connection hmem)
    · intro u hu hroot
      obtain ⟨layer, hl, rfl⟩ := List.mem_map.mp (List.mem_toFinset.mp hu)
      refine List.mem_map_of_mem (mem_getInputs_iff.mpr ⟨hl, fun w hw => ?_⟩)
      have hedge : Edge n.nextIds w layer.id := by
        rw [edge_nextIds]
        refine ⟨hw, fun heq => hring w ?_⟩
        rw [heq] at hw
        exact .single hw
      obtain ⟨connection, hmem, rfl, -⟩ := hw
      exact hroot _ (List.mem_toFinset.mpr (hn.source connection hmem)) hedge
  have hnd : sorted.Nodup := List.Nodup.of_map _ htopo.nodup
  refine ⟨(List.perm_ext_iff_of_nodup hnd (List.Nodup.of_map _ hn.ids)).mpr fun layer => ⟨hsub layer, fun hl => ?_⟩,
    fun connection hmem => ?_⟩
  · obtain ⟨l, hlsorted, hid⟩ := List.mem_map.mp (hall _ (List.mem_toFinset.mpr (List.mem_map_of_mem hl)))
    rwa [← List.inj_on_of_nodup_map hn.ids (hsub l hlsorted) hl hid]
  · have hedge : Edge n.nextIds connection.input.layer connection.output.layer := by
      rw [edge_nextIds]
      refine ⟨⟨connection, hmem, rfl, rfl⟩, fun heq => hring connection.input.layer (.single ?_)⟩
      exact ⟨connection, hmem, rfl, heq⟩
    exact htopo.idxOf_lt (hall _ (List.mem_toFinset.mpr (hn.source connection hmem))) hedge

/-- A complete order goes up along connections, so there is no ring. -/
theorem ringless_of_completeOrder {sorted : List (Layer Parameter)} (h : n.CompleteOrder sorted) : n.Ringless := by
  intro u hring
  have hlt : ∀ a b, TransGen n.Conn a b → (sorted.map Layer.id).idxOf a < (sorted.map Layer.id).idxOf b := by
    intro a b hab
    induction hab with
    | single hconn =>
      obtain ⟨connection, hmem, rfl, rfl⟩ := hconn
      exact h.2 connection hmem
    | tail _ hconn ih =>
      obtain ⟨connection, hmem, rfl, rfl⟩ := hconn
      exact ih.trans (h.2 connection hmem)
  exact lt_irrefl _ (hlt u u hring)

/-- The iterator throws, or it visits each layer once, sources first. -/
def IteratesCompletely (n : Network Parameter) : Prop :=
  (∃ message, n.iterate = throwException message) ∨ ∃ sorted, n.iterate = .ok sorted ∧ n.CompleteOrder sorted

theorem iteratesCompletely_iff (hn : n.Valid) :
    n.IteratesCompletely ↔ n.Ringless ∨ n.HeadReachesRing := by
  rcases iterate_cases hn with ⟨hthrow, hheads⟩ | ⟨sorted, hrun, hheads, hsub, htopo, gray, hvisits⟩
  · exact ⟨fun _ => .inr hheads, fun _ => .inl ⟨_, hthrow⟩⟩
  · constructor
    · rintro (⟨message, hthrow⟩ | ⟨sorted', hrun', hcomplete⟩)
      · rw [hrun] at hthrow
        exact absurd hthrow.symm throwException_ne_ok
      · exact .inl (ringless_of_completeOrder hcomplete)
    · rintro (hring | hring)
      · exact .inr ⟨sorted, hrun, completeOrder_of_ringless hn hring hsub htopo hvisits⟩
      · exact absurd hring hheads

/-! ### `build` -/

variable {buildLayer : Layer Parameter → Except String Unit} {inferShapes : InferShapes Parameter}
  {shapes : String → Option SizeVector}

theorem Valid.of_frame (hn : n.Valid) (h : n'.frame = n.frame) : n'.Valid := by
  simp only [frame, Prod.mk.injEq] at h
  obtain ⟨hids, -, hconnections⟩ := h
  exact ⟨hids ▸ hn.ids, by rw [hids, hconnections]; exact hn.source, by rw [hids, hconnections]; exact hn.destination⟩

theorem ringless_of_frame (hring : n.Ringless) (h : n'.frame = n.frame) : n'.Ringless := by
  have hconnections : n'.connections = n.connections := congrArg (fun f => f.2.2) h
  have hconn : n'.Conn = n.Conn := by
    unfold Conn
    rw [hconnections]
  rw [Ringless, hconn]
  exact hring

theorem getLayer_maintains (I : Network Parameter → Prop) (layerId : IdxT) :
    Maintains I (Network.getLayer layerId) := by
  refine maintains_get.bind fun n => ?_
  split
  · exact maintains_pure _
  · exact maintains_throw _

/-- With every layer built, the iterator of `begin() const` is that of `begin()`. -/
theorem beginConst_eq (hn : n.Valid) (hbuild : ∀ layer ∈ n.layers, buildLayer layer = .ok ())
    {sorted : List (Layer Parameter)} (hrun : n.iterate = .ok sorted) : n.beginConst buildLayer = .ok sorted := by
  have hinputs : n.getBuiltInputs buildLayer n.layers = n.getInputs := by
    have hgo : ∀ layers : List (Layer Parameter), (∀ layer ∈ layers, buildLayer layer = .ok ()) →
        n.getBuiltInputs buildLayer layers = layers.filter n.isInputLayer := by
      intro layers
      induction layers with
      | nil => exact fun _ => rfl
      | cons layer layers ih =>
        intro hlayers
        have hrest := ih fun l hl => hlayers l (List.mem_cons_of_mem _ hl)
        by_cases hinput : n.isInputLayer layer
        · rw [getBuiltInputs, if_pos hinput, hlayers layer List.mem_cons_self, List.filter_cons_of_pos hinput, hrest]
        · rw [getBuiltInputs, if_neg hinput, List.filter_cons_of_neg hinput, hrest]
    exact hgo n.layers hbuild
  have hfinds : n.Finds fun layerId => .ok (n.getBuiltLayer buildLayer layerId) := by
    intro layer hl
    simp only [getBuiltLayer, find?_id hn.ids hl, hbuild layer hl]
  have hsub : ∀ layer ∈ n.getInputs, layer ∈ n.layers := fun layer hl => (mem_getInputs_iff.mp hl).1
  rw [beginConst, hinputs, sortedLayers_eq hn hfinds hsub, ← sortedLayers_eq hn (finds_getLayer hn) hsub]
  change endOnException n.iterate = _
  rw [hrun]
  rfl

theorem Maintains.eq_of_exec {α : Type} {x : Method (Network Parameter) α} {r : Result α}
    (h : Maintains (fun s => s = n) x) (hrun : exec x n = (r, n')) : n' = n := by
  have := h n rfl
  rwa [hrun] at this

theorem networkShapeInfer_ok {sts : ShapeStatus} {msg : String}
    (hinfer : ∀ layers shapes, Leaves frame (inferShapes layers shapes))
    (h : exec (networkShapeInfer inferShapes shapes) n = (.ok (sts, msg), n')) :
    n'.frame = n.frame ∧ ∃ sorted, n.iterate = .ok sorted := by
  obtain ⟨n₀, s₀, hget, h⟩ := bind_ok h
  cases hget
  obtain ⟨sorted, s₁, hiterate, h⟩ := bind_ok h
  rw [exec_lift] at hiterate
  have heq : n.iterate = .ok sorted := congrArg Prod.fst hiterate
  obtain rfl := congrArg Prod.snd hiterate
  have hleaves := hinfer sorted shapes n
  rw [h] at hleaves
  exact ⟨hleaves, sorted, heq⟩

/-- A loop of checks that returned. -/
theorem forM_lift_ok {α : Type} {check : α → Result Unit} {l : List α}
    (h : exec (l.forM fun a => (liftM (check a) : Method (Network Parameter) Unit)) n = (.ok (), n')) :
    n' = n ∧ ∀ a ∈ l, check a = .ok () := by
  refine ⟨Maintains.eq_of_exec (Maintains.forM fun _ => maintains_lift _) h, ?_⟩
  induction l generalizing n with
  | nil => exact fun _ ha => absurd ha List.not_mem_nil
  | cons a l ih =>
    obtain ⟨u, s₁, hcheck, hrest⟩ := bind_ok h
    rw [exec_lift] at hcheck
    exact List.forall_mem_cons.mpr ⟨congrArg Prod.fst hcheck, ih hrest⟩

theorem build_of_checkLayer (h : checkLayer buildLayer layer = .ok ()) : buildLayer layer = .ok () := by
  unfold checkLayer at h
  cases hbuild : buildLayer layer with
  | ok u => rfl
  | error what =>
    rw [hbuild] at h
    exact absurd h throwException_ne_ok

/-- What a `validate` that returned has found: the iteration and the layers' own checks did not throw. -/
theorem validate_ok (hinfer : ∀ layers shapes, Leaves frame (inferShapes layers shapes))
    (h : exec (validate buildLayer inferShapes) n = (.ok (), n')) :
    n'.frame = n.frame ∧ (∃ sorted, n.iterate = .ok sorted) ∧ ∀ layer ∈ n'.layers, buildLayer layer = .ok () := by
  obtain ⟨n₀, s₀, hget, h⟩ := bind_ok h
  cases hget
  obtain ⟨_, s₁, hports, h⟩ := bind_ok h
  obtain rfl := (forM_lift_ok hports).1
  obtain ⟨_, s₂, hconnections, h⟩ := bind_ok h
  obtain rfl := Maintains.eq_of_exec (Maintains.forM fun _ => (getLayer_maintains _ _).bind fun _ =>
    (getLayer_maintains _ _).bind fun _ => maintains_pure _) hconnections
  obtain ⟨shapes, s₃, hshapes, h⟩ := bind_ok h
  rw [exec_lift] at hshapes
  obtain rfl := congrArg Prod.snd hshapes
  obtain ⟨⟨sts, msg⟩, n₁, hrun, h⟩ := bind_ok h
  obtain ⟨hframe, hiterate⟩ := networkShapeInfer_ok hinfer hrun
  obtain ⟨n₂, s₄, hget, h⟩ := bind_ok h
  cases hget
  obtain ⟨sts', s₅, hcheck, h⟩ := bind_ok h
  rw [exec_lift] at hcheck
  obtain rfl := congrArg Prod.snd hcheck
  split_ifs at h with hsts
  · cases h
  · obtain ⟨rfl, hall⟩ := forM_lift_ok h
    exact ⟨hframe, hiterate, fun layer hl => build_of_checkLayer (hall layer hl)⟩

/-- `build` returns no network with fewer layers. -/
def BuildsCompletely (n : Network Parameter) (buildLayer : Layer Parameter → Except String Unit)
    (inferShapes : InferShapes Parameter) : Prop :=
  ∀ m n', exec (build buildLayer inferShapes) n = (.ok m, n') → n.layers.length ≤ m.layers.length

theorem buildsCompletely (hn : n.Valid) (hinfer : ∀ layers shapes, Leaves frame (inferShapes layers shapes))
    (hring : n.Ringless ∨ n.HeadReachesRing) : n.BuildsCompletely buildLayer inferShapes := by
  intro m n' h
  obtain ⟨_, n₁, hvalidate, h⟩ := bind_ok h
  obtain ⟨hframe, ⟨sorted, hrun⟩, hbuild⟩ := validate_ok hinfer hvalidate
  have hringless : n.Ringless := by
    refine hring.resolve_right fun hheads => ?_
    rcases iterate_cases hn with ⟨hthrow, -⟩ | ⟨-, -, hnot, -⟩
    · rw [hrun] at hthrow
      exact throwException_ne_ok hthrow.symm
    · exact hnot hheads
  obtain ⟨n₂, s₁, hget, h⟩ := bind_ok h
  cases hget
  rw [exec_lift] at h
  have hcopy : n₁.copy buildLayer = .ok m := congrArg Prod.fst h
  have hn₁ := hn.of_frame hframe
  have hringless₁ := ringless_of_frame hringless hframe
  have hlength : n₁.layers.length = n.layers.length := by
    have := congrArg List.length (congrArg Prod.fst hframe)
    simpa [frame] using this
  rcases (iteratesCompletely_iff hn₁).mpr (.inl hringless₁) with ⟨message, hthrow⟩ | ⟨sorted₁, hrun₁, hcomplete⟩
  · -- the heads of a network without rings lead to none
    rcases iterate_cases hn₁ with ⟨-, head, -, -, u, -, hcycle⟩ | ⟨l, hok, -⟩
    · exact absurd (TransGen.mono (fun _ _ hab => hab.1) _ _ hcycle) (hringless₁ u)
    · rw [hthrow] at hok
      exact absurd hok throwException_ne_ok
  · rw [copy, beginConst_eq hn₁ hbuild hrun₁] at hcopy
    have hm := pure_ok_iff.mp hcopy
    rw [← hm, ← hlength]
    exact (hcomplete.1.length_eq).ge

/-- **When an iteration is complete or an error**, and `build` with it: when there is no ring of connections, or
a layer that no connection leads to leads to a ring of two or more layers. -/
theorem iteratesCompletely_and_buildsCompletely_iff (hn : n.Valid)
    (hinfer : ∀ layers shapes, Leaves frame (inferShapes layers shapes)) :
    n.IteratesCompletely ∧ n.BuildsCompletely buildLayer inferShapes ↔ n.Ringless ∨ n.HeadReachesRing :=
  ⟨fun h => (iteratesCompletely_iff hn).mp h.1,
    fun h => ⟨(iteratesCompletely_iff hn).mpr h, buildsCompletely hn hinfer h⟩⟩

section Example

/-- A port of shape `[1]`. -/
def unitPort (address : Nat) : Port Unit where
  data := {
    address
    data := some {
      address := address + 1
      tensorDesc := {
        dims := [1], layout := .C
        blockingDesc := { blockedDims := [1], strides := [1], order := [0], offsetPaddingToData := [0] } }
      element_size := 4
      cbuffer := none } }

/-- Shape inference that has no implementation for the first layer. -/
def noShapeInfer : InferShapes Unit := fun _ _ => pure (.NOT_FOUND, "Cannot infer shapes!")

/-- An input and a layer that reads it. -/
def addPair : Method (Network Unit) Unit := do
  let input ← addLayer { type := "Input", name := "in", outPorts := [unitPort 10] }
  let _ ← addLayerTo [⟨input, 0⟩] { type := "Sigmoid", name := "sigmoid", inPorts := [unitPort 20] }

/-- Two layers that read each other. -/
def addRing : Method (Network Unit) Unit := do
  let first ← addLayer { type := "TanH", name := "first", inPorts := [unitPort 30], outPorts := [unitPort 40] }
  let second ← addLayerTo [⟨first, 0⟩]
    { type := "TanH", name := "second", inPorts := [unitPort 50], outPorts := [unitPort 60] }
  connect ⟨second, 0⟩ ⟨first, 0⟩

def pairNetwork : Network Unit := (exec addPair {}).2

def ringNetwork : Network Unit := (exec (do addPair; addRing) {}).2

instance (n : Network Unit) : Decidable n.Valid :=
  decidable_of_iff ((n.layers.map Layer.id).Nodup ∧
    (∀ connection ∈ n.connections, connection.input.layer ∈ n.layers.map Layer.id) ∧
    ∀ connection ∈ n.connections, connection.output.layer ∈ n.layers.map Layer.id)
    ⟨fun h => ⟨h.1, h.2.1, h.2.2⟩, fun h => ⟨h.ids, h.source, h.destination⟩⟩

theorem completely_pair :
    pairNetwork.IteratesCompletely ∧ pairNetwork.BuildsCompletely (fun _ => .ok ()) noShapeInfer := by
  refine (iteratesCompletely_and_buildsCompletely_iff (by decide +kernel) fun _ _ _ => rfl).mpr (.inl ?_)
  refine @ringless_of_completeOrder _ _ pairNetwork.layers ⟨.refl _, ?_⟩
  decide +kernel

/-- The ring is left out without an error, and `build` returns two layers of four. -/
theorem ring_left_out : ringNetwork.Valid ∧ ¬ ringNetwork.IteratesCompletely ∧
    ¬ ringNetwork.BuildsCompletely (fun _ => .ok ()) noShapeInfer := by
  have hlayers : ringNetwork.layers.length = 4 := by decide +kernel
  refine ⟨by decide +kernel, ?_, ?_⟩
  · have hvisited : ringNetwork.iterate.toOption.map List.length = some 2 := by decide +kernel
    rintro (⟨message, hthrow⟩ | ⟨sorted, hrun, hcomplete⟩)
    · rw [hthrow] at hvisited
      cases hvisited
    · rw [hrun] at hvisited
      have hlength := Option.some_inj.mp hvisited
      have hperm := hcomplete.1.length_eq
      omega
  · have hbuilt : (exec (build (fun _ => .ok ()) noShapeInfer) ringNetwork).1.toOption.map
        (fun m => m.layers.length) = some 2 := by decide +kernel
    intro hall
    rcases hrun : exec (build (fun _ => .ok ()) noShapeInfer) ringNetwork with ⟨e | m, n'⟩
    · rw [hrun] at hbuilt
      cases hbuilt
    · rw [hrun] at hbuilt
      have hlength : m.layers.length = 2 := Option.some_inj.mp hbuilt
      have hle := hall m n' hrun
      omega

end Example

end OpenVino.InferenceEngine.Builder.Network
