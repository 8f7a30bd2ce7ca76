import OpenVino.Base.Runs
import OpenVino.InferenceEngine.Builder.AddLayer

/-!
# Ids, names and connections over a run of the builder

A `History` is a network with what it does not keep: a number for each layer it made, and for each stored
connection the numbers of the two layers it was made for. `KeepsIdentities` says that ids and names are
distinct and that each stored connection still joins these two layers. Ids and names stay distinct in every
run (`distinct_of_reachable`). A connection stays after a `removeLayer` of one of its layers, and the next layer
may get the free id and the connection with it (`captures_connection`); runs that remove only layers without a
connection keep all identities (`keepsIdentities_of_reachable`), and no other step breaks them
(`keepsIdentities_next_iff`).
-/

namespace OpenVino.InferenceEngine.Builder

open Method

variable {Parameter : Type}

structure Join where
  connection : Connection
  source : Nat
  destination : Nat
deriving DecidableEq

/-- A network, the number of layers it made so far, the number of the last layer made with an id, and the stored
connections with the numbers of their layers. -/
structure History (Parameter : Type) where
  network : Network Parameter := {}
  made : Nat := 0
  serial : IdxT → Nat := fun _ => 0
  joins : List Join := []

inductive Call (Parameter : Type)
  | addLayer (layer : Layer Parameter)
  | addLayerTo (inputs : List PortInfo) (layer : Layer Parameter)
  | connect (input output : PortInfo)
  | disconnect (connection : Connection) (fresh : PortData Parameter)
  | removeLayer (layerId : IdxT)

namespace History

/-! ### The methods with their history -/

/-- A method of the network as a method of the history. -/
def onNetwork {α : Type} (x : Method (Network Parameter) α) : Method (History Parameter) α :=
  ExceptT.mk fun h => ((exec x h.network).1, { h with network := (exec x h.network).2 })

def addLayer (layer : Layer Parameter) : Method (History Parameter) IdxT := do
  let id ← onNetwork (Network.addLayer layer)
  modify fun h => { h with made := h.made + 1, serial := Function.update h.serial id h.made }
  return id

section Calls

variable [DecidableEq Parameter]

def connect (input output : PortInfo) : Method (History Parameter) Unit := do
  onNetwork (Network.connect input output)
  modify fun h => { h with joins := h.joins ++ [⟨⟨input, output⟩, h.serial input.layer, h.serial output.layer⟩] }

def disconnect (connection : Connection) (fresh : PortData Parameter) : Method (History Parameter) Unit := do
  modify fun h => { h with joins := h.joins.eraseP (·.connection = connection) }
  onNetwork (Network.disconnect connection fresh)

def removeLayer (layerId : IdxT) : Method (History Parameter) Unit := onNetwork (Network.removeLayer layerId)

def addLayerTo (inputs : List PortInfo) (layer : Layer Parameter) : Method (History Parameter) IdxT := do
  let layer_id ← addLayer layer
  inputs.zipIdx.forM fun (input, i) => connect input ⟨layer_id, i⟩
  return layer_id

def call : Call Parameter → Method (History Parameter) Unit
  | .addLayer layer => do let _ ← addLayer layer
  | .addLayerTo inputs layer => do let _ ← addLayerTo inputs layer
  | .connect input output => connect input output
  | .disconnect connection fresh => disconnect connection fresh
  | .removeLayer layerId => removeLayer layerId

/-- A call that returned or threw; one that did anything else has no state after it. -/
def next (h : History Parameter) (c : Call Parameter) : Option (History Parameter) :=
  match exec (call c) h with
  | (.ok (), h') => some h'
  | (.error (.exception _), h') => some h'
  | _ => none

/-- The runs of calls that `allowed` lets pass, on an empty network. -/
def editing (allowed : History Parameter → Call Parameter → Prop) : System (History Parameter) :=
  System.ofActions next allowed {}

end Calls


/-! ### The invariants -/

/-- The layer that was made with the number `serial` is in the network, under this id. -/
def HasLayer (h : History Parameter) (id : IdxT) (serial : Nat) : Prop :=
  id ∈ h.network.layers.map Layer.id ∧ h.serial id = serial

/-- The stored connection joins the two layers it was made for. -/
def Joins (h : History Parameter) (j : Join) : Prop :=
  h.HasLayer j.connection.input.layer j.source ∧ h.HasLayer j.connection.output.layer j.destination

structure Distinct (h : History Parameter) : Prop where
  ids : (h.network.layers.map Layer.id).Nodup
  names : (h.network.layers.map Layer.name).Nodup
  stored : h.joins.map Join.connection = h.network.connections

structure KeepsIdentities (h : History Parameter) : Prop extends Distinct h where
  joins : ∀ j ∈ h.joins, h.Joins j

variable {h h' : History Parameter} {layer : Layer Parameter} {inputs : List PortInfo} {input output : PortInfo}
  {connection : Connection} {fresh : PortData Parameter} {layerId : IdxT} {c : Call Parameter}
  {allowed : History Parameter → Call Parameter → Prop}

theorem exec_onNetwork {α : Type} (x : Method (Network Parameter) α) : exec (onNetwork x) h =
    ((exec x h.network).1, { h with network := (exec x h.network).2 }) := rfl

/-- Only the frame of the network matters. -/
theorem Distinct.of_frame (hd : Distinct h) (hnetwork : h'.network.frame = h.network.frame)
    (hjoins : h'.joins = h.joins) : Distinct h' := by
  simp only [Network.frame, Prod.mk.injEq] at hnetwork
  obtain ⟨hids, hnames, hconnections⟩ := hnetwork
  exact ⟨hids ▸ hd.ids, hnames ▸ hd.names, by rw [hjoins, hconnections, hd.stored]⟩

theorem Joins.of_ids {j : Join} (hj : h.Joins j)
    (hids : h'.network.layers.map Layer.id = h.network.layers.map Layer.id) (hserial : h'.serial = h.serial) :
    h'.Joins j := by
  unfold Joins HasLayer at hj ⊢
  rw [hids, hserial]
  exact hj

theorem KeepsIdentities.of_frame (hk : KeepsIdentities h) (hnetwork : h'.network.frame = h.network.frame)
    (hserial : h'.serial = h.serial) (hjoins : h'.joins = h.joins) : KeepsIdentities h' := by
  refine ⟨hk.toDistinct.of_frame hnetwork hjoins, ?_⟩
  rw [hjoins]
  intro j hj
  exact (hk.joins j hj).of_ids (congrArg Prod.fst hnetwork) hserial

theorem keepsIdentities_empty : KeepsIdentities ({} : History Parameter) :=
  ⟨⟨List.nodup_nil, List.nodup_nil, rfl⟩, fun _ hj => absurd hj List.not_mem_nil⟩

/-! ### `addLayer` -/

/-- What `addLayer` can do. -/
theorem addLayer_cases (h : History Parameter) (layer : Layer Parameter) :
    (∃ e, exec (addLayer layer) h = (.error e, h)) ∨
      ∃ id name, id ∉ h.network.layers.map Layer.id ∧ name ∉ h.network.layers.map Layer.name ∧
        exec (addLayer layer) h = (.ok id,
          { h with
            network := { h.network with layers := h.network.layers ++ [{ layer with id, name }] }
            made := h.made + 1
            serial := Function.update h.serial id h.made }) := by
  unfold addLayer
  rw [exec_bind, exec_onNetwork]
  rcases hadd : exec (Network.addLayer layer) h.network with ⟨e | id, n'⟩
  · obtain rfl := Network.addLayer_error hadd
    exact .inl ⟨e, rfl⟩
  · obtain ⟨name, hid, hname, rfl⟩ := Network.addLayer_ok hadd
    exact .inr ⟨id, name, hid, hname, rfl⟩

theorem addLayer_distinct : Maintains Distinct (addLayer layer) := by
  intro h hd
  rcases addLayer_cases h layer with ⟨e, hrun⟩ | ⟨id, name, hid, hname, hrun⟩
  · rw [hrun]
    exact hd
  · rw [hrun]
    refine ⟨?_, ?_, hd.stored⟩
    · rw [List.map_append, List.nodup_append_comm]
      exact List.nodup_cons.mpr ⟨hid, hd.ids⟩
    · rw [List.map_append, List.nodup_append_comm]
      exact List.nodup_cons.mpr ⟨hname, hd.names⟩

/-- The new layer's id is no layer's, so no stored connection has it. -/
theorem addLayer_keepsIdentities : Maintains KeepsIdentities (addLayer layer) := by
  intro h hk
  refine ⟨addLayer_distinct h hk.toDistinct, ?_⟩
  rcases addLayer_cases h layer with ⟨e, hrun⟩ | ⟨id, name, hid, hname, hrun⟩
  · rw [hrun]
    exact hk.joins
  · rw [hrun]
    have hkeep : ∀ i serial, h.HasLayer i serial →
        i ∈ (h.network.layers ++ [{ layer with id, name }]).map Layer.id ∧
          Function.update h.serial id h.made i = serial := by
      intro i serial hi
      have hne : i ≠ id := fun heq => hid (heq ▸ hi.1)
      rw [List.map_append, Function.update_of_ne hne]
      exact ⟨List.mem_append_left _ hi.1, hi.2⟩
    intro j hj
    exact ⟨hkeep _ _ (hk.joins j hj).1, hkeep _ _ (hk.joins j hj).2⟩

/-! ### `disconnect` -/

theorem map_eraseP_eq {α β : Type} [DecidableEq β] (f : α → β) (b : β) (l : List α) :
    (l.eraseP fun a => decide (f a = b)).map f = (l.map f).erase b := by
  rw [List.erase_eq_eraseP, List.eraseP_map]
  congr 2
  funext a
  rw [Function.comp_apply, beq_eq_decide, decide_eq_decide]
  exact eq_comm

theorem disconnect_distinct : Maintains Distinct (disconnect connection fresh) := by
  intro h hd
  have hframe := Network.disconnect_frame h.network connection fresh
  unfold disconnect
  rw [exec_bind, exec_modify]
  simp only [exec_onNetwork]
  simp only [Network.frame, Prod.mk.injEq] at hframe
  obtain ⟨hids, hnames, hconnections⟩ := hframe
  refine ⟨hids ▸ hd.ids, hnames ▸ hd.names, ?_⟩
  rw [hconnections, ← hd.stored]
  exact map_eraseP_eq Join.connection connection h.joins

theorem disconnect_keepsIdentities : Maintains KeepsIdentities (disconnect connection fresh) := by
  intro h hk
  refine ⟨disconnect_distinct h hk.toDistinct, ?_⟩
  have hframe := Network.disconnect_frame h.network connection fresh
  unfold disconnect
  rw [exec_bind, exec_modify]
  simp only [exec_onNetwork]
  intro j hj
  exact (hk.joins j (List.mem_of_mem_eraseP hj)).of_ids (congrArg Prod.fst hframe) rfl

/-! ### `removeLayer` -/

/-- The call does not remove a layer that a stored connection has. -/
def Unconnected (h : History Parameter) : Call Parameter → Prop
  | .removeLayer layerId =>
    ∀ connection ∈ h.network.connections, connection.input.layer ≠ layerId ∧ connection.output.layer ≠ layerId
  | _ => True

instance : ∀ (h : History Parameter) (c : Call Parameter), Decidable (h.Unconnected c)
  | h, .removeLayer layerId => inferInstanceAs (Decidable (∀ connection ∈ h.network.connections,
      connection.input.layer ≠ layerId ∧ connection.output.layer ≠ layerId))
  | _, .addLayer _ => .isTrue trivial
  | _, .addLayerTo _ _ => .isTrue trivial
  | _, .connect _ _ => .isTrue trivial
  | _, .disconnect _ _ => .isTrue trivial

theorem removeLayer_distinct : Maintains Distinct (removeLayer layerId : Method (History Parameter) Unit) := by
  intro h hd
  have hsub := @List.eraseP_sublist _ (fun layer : Layer Parameter => decide (layer.id = layerId)) h.network.layers
  exact ⟨hd.ids.sublist (hsub.map _), hd.names.sublist (hsub.map _), hd.stored⟩

/-- A layer that is removed with a connection leaves it behind. -/
theorem removeLayer_keepsIdentities_iff (hk : KeepsIdentities h) :
    KeepsIdentities (exec (removeLayer layerId) h).2 ↔ h.Unconnected (.removeLayer layerId) := by
  have hids : ((exec (removeLayer layerId) h).2.network.layers.map Layer.id) =
      (h.network.layers.map Layer.id).erase layerId := map_eraseP_eq Layer.id layerId h.network.layers
  have hmem : ∀ i serial, h.HasLayer i serial →
      ((exec (removeLayer layerId) h).2.HasLayer i serial ↔ i ≠ layerId) := by
    intro i serial hi
    unfold HasLayer
    rw [hids, hk.ids.mem_erase_iff]
    exact ⟨fun hr => hr.1.1, fun hne => ⟨⟨hne, hi.1⟩, hi.2⟩⟩
  constructor
  · intro hk' connection hconnection
    rw [← hk.stored] at hconnection
    obtain ⟨j, hj, rfl⟩ := List.mem_map.mp hconnection
    obtain ⟨hsource, hdestination⟩ := hk.joins j hj
    obtain ⟨hsource', hdestination'⟩ := hk'.joins j hj
    exact ⟨(hmem _ _ hsource).mp hsource', (hmem _ _ hdestination).mp hdestination'⟩
  · intro hfree
    refine ⟨removeLayer_distinct h hk.toDistinct, fun j hj => ?_⟩
    obtain ⟨hsource, hdestination⟩ := hk.joins j hj
    have hconnection : j.connection ∈ h.network.connections := hk.stored ▸ List.mem_map_of_mem hj
    obtain ⟨hinput, houtput⟩ := hfree _ hconnection
    exact ⟨(hmem _ _ hsource).mpr hinput, (hmem _ _ hdestination).mpr houtput⟩

/-! ### `connect` -/

variable [DecidableEq Parameter]

theorem connect_cases (h : History Parameter) (input output : PortInfo) :
    (∃ e n', n'.frame = h.network.frame ∧
        exec (connect input output) h = (.error e, { h with network := n' })) ∨
      ∃ n', n'.frame = (h.network.layers.map Layer.id, h.network.layers.map Layer.name,
            h.network.connections ++ [⟨input, output⟩]) ∧
        input.layer ∈ h.network.layers.map Layer.id ∧ output.layer ∈ h.network.layers.map Layer.id ∧
        exec (connect input output) h = (.ok (),
          { h with
            network := n'
            joins := h.joins ++ [⟨⟨input, output⟩, h.serial input.layer, h.serial output.layer⟩] }) := by
  unfold connect
  rw [exec_bind, exec_onNetwork]
  rcases hrun : exec (Network.connect input output) h.network with ⟨e | u, n'⟩
  · exact .inl ⟨e, n', Network.connect_error hrun, rfl⟩
  · obtain ⟨hframe, hin, hout⟩ := Network.connect_ok hrun
    exact .inr ⟨n', hframe, hin, hout, rfl⟩

theorem connect_distinct : Maintains Distinct (connect input output : Method (History Parameter) Unit) := by
  intro h hd
  rcases connect_cases h input output with ⟨e, n', hframe, hrun⟩ | ⟨n', hframe, -, -, hrun⟩
  · rw [hrun]
    exact hd.of_frame hframe rfl
  · rw [hrun]
    simp only [Network.frame, Prod.mk.injEq] at hframe
    obtain ⟨hids, hnames, hconnections⟩ := hframe
    refine ⟨hids ▸ hd.ids, hnames ▸ hd.names, ?_⟩
    rw [hconnections, List.map_append, hd.stored]
    rfl

theorem connect_keepsIdentities :
    Maintains KeepsIdentities (connect input output : Method (History Parameter) Unit) := by
  intro h hk
  refine ⟨connect_distinct h hk.toDistinct, ?_⟩
  rcases connect_cases h input output with ⟨e, n', hframe, hrun⟩ | ⟨n', hframe, hin, hout, hrun⟩
  · rw [hrun]
    have hk' : KeepsIdentities { h with network := n' } := hk.of_frame hframe rfl rfl
    exact hk'.joins
  · rw [hrun]
    have hids : n'.layers.map Layer.id = h.network.layers.map Layer.id := congrArg Prod.fst hframe
    intro j hj
    rcases List.mem_append.mp hj with hj | hj
    · exact (hk.joins j hj).of_ids hids rfl
    · rw [List.mem_singleton.mp hj]
      exact Joins.of_ids (h := h) ⟨⟨hin, rfl⟩, hout, rfl⟩ hids rfl

/-! ### Runs -/

theorem call_distinct (c : Call Parameter) : Maintains Distinct (call c) := by
  cases c with
  | addLayer layer => exact addLayer_distinct.bind fun _ => maintains_pure ()
  | addLayerTo inputs layer =>
    refine Maintains.bind ?_ fun _ => maintains_pure ()
    exact addLayer_distinct.bind fun _ => (Maintains.forM fun _ => connect_distinct).bind fun _ => maintains_pure _
  | connect input output => exact connect_distinct
  | disconnect connection fresh => exact disconnect_distinct
  | removeLayer layerId => exact removeLayer_distinct

theorem call_keepsIdentities_iff (hk : KeepsIdentities h) :
    KeepsIdentities (exec (call c) h).2 ↔ h.Unconnected c := by
  have keeps {x : Method (History Parameter) Unit} (hx : Maintains KeepsIdentities x) :
      KeepsIdentities (exec x h).2 ↔ True := iff_true_intro (hx h hk)
  cases c with
  | addLayer layer => exact keeps (addLayer_keepsIdentities.bind fun _ => maintains_pure ())
  | addLayerTo inputs layer =>
    apply keeps
    refine Maintains.bind ?_ fun _ => maintains_pure ()
    refine addLayer_keepsIdentities.bind fun _ => Maintains.bind ?_ fun _ => maintains_pure _
    exact Maintains.forM fun _ => connect_keepsIdentities
  | connect input output => exact keeps connect_keepsIdentities
  | disconnect connection fresh => exact keeps disconnect_keepsIdentities
  | removeLayer layerId => exact removeLayer_keepsIdentities_iff hk

theorem eq_of_next (hn : next h c = some h') : h' = (exec (call c) h).2 := by
  unfold next at hn
  split at hn
  · next heq => rw [heq, ← Option.some_inj.mp hn]
  · next heq => rw [heq, ← Option.some_inj.mp hn]
  · cases hn

/-- Removing a layer that a stored connection has is the only step that breaks an identity. -/
theorem keepsIdentities_next_iff (hk : KeepsIdentities h) (hn : next h c = some h') :
    KeepsIdentities h' ↔ h.Unconnected c := by
  rw [eq_of_next hn]
  exact call_keepsIdentities_iff hk

/-- **Ids and names are distinct in every run.** -/
theorem distinct_of_reachable (hr : (editing allowed).Reachable h) : Distinct h := by
  refine hr.induct ?_ fun s t _ hs hstep => ?_
  · rintro _ rfl
    exact keepsIdentities_empty.toDistinct
  · obtain ⟨c, -, hn⟩ := hstep
    rw [eq_of_next hn]
    exact call_distinct c s hs

/-- **A run that removes only unconnected layers keeps every identity**: ids and names are distinct, and each
stored connection joins the two layers that it was made for. -/
theorem keepsIdentities_of_reachable (hr : (editing Unconnected).Reachable h) : KeepsIdentities h := by
  refine hr.induct ?_ fun s t _ hs hstep => ?_
  · rintro _ rfl
    exact keepsIdentities_empty
  · obtain ⟨c, hallowed, hn⟩ := hstep
    exact (keepsIdentities_next_iff hs hn).mpr hallowed

/-- Two layers without an id of their own, and a connection of them. -/
def pairCalls : List (Call Unit) :=
  [.addLayer { type := "Input", name := "in", outPorts := [{ data := PortData.create Unit 1 2 }] },
   .addLayer { type := "Sigmoid", name := "sigmoid", inPorts := [{ data := PortData.create Unit 3 4 }] },
   .connect ⟨0, 0⟩ ⟨1, 0⟩]

theorem distinct_of_reachable_pair :
    Distinct ((System.perform next (fun _ _ => True) {} pairCalls).get (by decide +kernel)) :=
  distinct_of_reachable (System.reachable_of_perform (.init rfl) (Option.some_get _).symm)

theorem keepsIdentities_pair :
    KeepsIdentities ((System.perform next Unconnected {} pairCalls).get (by decide +kernel)) :=
  keepsIdentities_of_reachable (System.reachable_of_perform (.init rfl) (Option.some_get _).symm)

/-- The second layer is removed, and a third one gets its id and its connection. -/
theorem captures_connection : ∃ h : History Unit, (editing fun _ _ => True).Reachable h ∧
    ∃ j ∈ h.joins, j.connection ∈ h.network.connections ∧
      j.connection.output.layer ∈ h.network.layers.map Layer.id ∧
      h.serial j.connection.output.layer ≠ j.destination := by
  let calls := pairCalls ++
    [.removeLayer 1,
     .addLayer { type := "Power", name := "power", inPorts := [{ data := PortData.create Unit 5 6 }] }]
  refine ⟨(System.perform next (fun _ _ => True) {} calls).get (by decide +kernel),
    System.reachable_of_perform (.init rfl) (Option.some_get _).symm,
    ⟨⟨⟨0, 0⟩, ⟨1, 0⟩⟩, 0, 1⟩, ?_⟩
  decide +kernel

end History

end OpenVino.InferenceEngine.Builder
