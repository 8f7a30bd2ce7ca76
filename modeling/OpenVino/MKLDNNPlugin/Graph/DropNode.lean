import OpenVino.MKLDNNPlugin.Graph.Graph

/-!
# Dropping a node

`dropNode` takes a node out of the graph and joins its parents with its children. Its inner loop reuses one
reference: `remEdge` is `p_edge`, so that after the first child `p_edge` is the edge to that child. The new
edge to the next child therefore leaves from the port of the node that is dropped, not from the port of its
parent (`ports`). `dropNode_wiring`: the node is bridged as it should be if and only if these ports are the
same.
-/

namespace OpenVino.MKLDNNPlugin.MKLDNNGraph

variable {g g' : MKLDNNGraph} {n q : NodeId} {e c : EdgeId} {cs : List EdgeId}

/-- One round of the loop over the children. The state is the graph and `p_edge`; an edge is alive as long
as the graph owns it or `p_edge` is it. -/
def dropRound (parent : NodeId) (s : MKLDNNGraph × EdgeId) (c : EdgeId) : MKLDNNGraph × EdgeId :=
  let (g, p_edge) := s
  if c ∈ g.graphEdges ∨ c = p_edge then
    let child := g.childOf c
    let inNum := (g.edge p_edge).getInputNum
    let g := (g.drop p_edge).removeEdge p_edge
    let outNum := (g.edge c).getOutputNum
    let g := (g.drop c).removeEdge c
    (g.addEdge ⟨parent, child, inNum, outNum⟩, c)
  else s

def dropNode (g : MKLDNNGraph) (node : NodeId) : MKLDNNGraph :=
  let childs := g.childEdges node
  let parents := g.parentEdges node
  parents.foldl (fun g p_edge =>
    if p_edge ∈ g.graphEdges then (childs.foldl (dropRound (g.parentOf p_edge)) (g, p_edge)).1 else g) g

/-! ### What the loop builds -/

/-- The edges of the graph, by what they join. -/
def wires (g : MKLDNNGraph) : List MKLDNNEdge := g.graphEdges.map g.edge

/-- The edges that the loop adds; `port` is the one that `p_edge` leaves from. -/
def ports (g : MKLDNNGraph) (parent : NodeId) : Int → List EdgeId → List MKLDNNEdge
  | _, [] => []
  | port, c :: cs =>
    ⟨parent, g.childOf c, port, (g.edge c).getOutputNum⟩ :: g.ports parent (g.edge c).getInputNum cs

theorem ports_congr (h : ∀ c ∈ cs, g'.edge c = g.edge c) (parent : NodeId) (port : Int) :
    g'.ports parent port cs = g.ports parent port cs := by
  induction cs generalizing port with
  | nil => rfl
  | cons c cs ih =>
    obtain ⟨hc, hcs⟩ := List.forall_mem_cons.mp h
    rw [ports, ports, childOf, childOf, hc, ih hcs]

theorem ports_eq_map {parent : NodeId} {port : Int} (h : ∀ c ∈ cs.dropLast, (g.edge c).getInputNum = port) :
    g.ports parent port cs = cs.map fun c => ⟨parent, g.childOf c, port, (g.edge c).getOutputNum⟩ := by
  induction cs with
  | nil => rfl
  | cons c cs ih =>
    cases cs with
    | nil => rfl
    | cons c' cs =>
      obtain ⟨hc, hcs⟩ := List.forall_mem_cons.mp h
      rw [ports, hc, ih hcs, List.map_cons, List.map_cons]
      rfl

theorem exists_mem_ports (parent : NodeId) (port : Int) (hc : c ∈ cs.dropLast) :
    ∃ r ∈ g.ports parent port cs, r.parent_port = (g.edge c).getInputNum := by
  induction cs generalizing port with
  | nil => exact absurd hc List.not_mem_nil
  | cons c₁ cs ih =>
    cases cs with
    | nil => exact absurd hc List.not_mem_nil
    | cons c₂ cs =>
      rcases List.mem_cons.mp hc with rfl | hc
      · exact ⟨_, List.mem_cons_of_mem _ (List.mem_cons_self ..), rfl⟩
      · obtain ⟨r, hr, hport⟩ := ih (g.edge c₁).getInputNum hc
        exact ⟨r, List.mem_cons_of_mem _ hr, hport⟩

/-- **The loop over the children**, from an edge `p` that is not one of them. -/
theorem foldl_dropRound {p : EdgeId} (hg : g.Wired) (hcs : ∀ c ∈ cs, c ∈ g.graphEdges) (hnd : cs.Nodup) (hp : p ∉ cs)
    (hne : cs ≠ [] ∨ p ∉ g.graphEdges) :
    (cs.foldl (dropRound q) (g, p)).1.Wired ∧ (cs.foldl (dropRound q) (g, p)).1.wires =
      (g.graphEdges.filter fun x => x ≠ p ∧ x ∉ cs).map g.edge ++ g.ports q (g.edge p).getInputNum cs := by
  induction cs generalizing g p with
  | nil =>
    refine ⟨hg, ?_⟩
    have hkeep : g.graphEdges.filter (fun x => x ≠ p ∧ x ∉ []) = g.graphEdges := by
      apply List.filter_eq_self.mpr
      intro x hx
      simp only [List.not_mem_nil, not_false_eq_true, and_true, decide_eq_true_eq]
      rintro rfl
      exact hne.elim (absurd rfl) (absurd hx)
    rw [hkeep, ports, List.append_nil]
    rfl
  | cons c cs ih =>
    obtain ⟨hc, hcs⟩ := List.forall_mem_cons.mp hcs
    obtain ⟨hcmem, hnd⟩ := List.nodup_cons.mp hnd
    obtain ⟨hpc, hpcs⟩ := not_or.mp (mt List.mem_cons.mpr hp)
    set r : MKLDNNEdge := ⟨q, g.childOf c, (g.edge p).getInputNum, (g.edge c).getOutputNum⟩ with hr
    set g₀ := (((g.drop p).removeEdge p).drop c).removeEdge c with hg₀
    have hround : dropRound q (g, p) c = (g₀.addEdge r, c) := by
      simp only [dropRound, hc, true_or, if_true]
      rfl
    have hwired : g₀.Wired := (hg.dropEdge p).dropEdge c
    have hedges : g₀.graphEdges = g.graphEdges.filter fun x => x ≠ p ∧ x ≠ c := by
      show (g.graphEdges.erase p).erase c = _
      rw [hg.nodup.erase_eq_filter, (hg.nodup.filter _).erase_eq_filter, List.filter_filter]
      apply List.filter_congr
      intro x _
      rw [Bool.eq_iff_iff]
      simp [and_comm]
    have hold : ∀ x ∈ g.graphEdges, (g₀.addEdge r).edge x = g.edge x := fun x hx =>
      Function.update_of_ne (Nat.ne_of_lt (hg.known x hx).2) ..
    have hnew : (g₀.addEdge r).edge g.nextEdge = r := Function.update_self ..
    have hadded : (g₀.addEdge r).graphEdges = g₀.graphEdges ++ [g.nextEdge] := rfl
    -- what is left to do finds the same edges, and `c` is no longer one of them
    have hcs' : ∀ x ∈ cs, x ∈ (g₀.addEdge r).graphEdges := by
      intro x hx
      rw [hadded, hedges]
      apply List.mem_append_left
      refine List.mem_filter.mpr ⟨hcs x hx, decide_eq_true ⟨?_, ?_⟩⟩
      · exact fun hxp => hpcs (hxp ▸ hx)
      · exact fun hxc => hcmem (hxc ▸ hx)
    have hc' : c ∉ (g₀.addEdge r).graphEdges := by
      rw [hadded, hedges, List.mem_append, List.mem_filter, List.mem_singleton, not_or]
      exact ⟨fun h => (of_decide_eq_true h.2).2 rfl, Nat.ne_of_lt (hg.known c hc).2⟩
    have hfresh : g.nextEdge ∉ cs := fun h => Nat.lt_irrefl _ (hg.known _ (hcs _ h)).2
    obtain ⟨hwired', hwires'⟩ := ih (hwired.addEdge r) hcs' hnd hcmem (.inr hc')
    rw [List.foldl_cons, hround]
    refine ⟨hwired', hwires'.trans ?_⟩
    have hkept : ((g₀.addEdge r).graphEdges.filter fun x => x ≠ c ∧ x ∉ cs) =
        (g.graphEdges.filter fun x => x ≠ p ∧ x ∉ c :: cs) ++ [g.nextEdge] := by
      rw [hadded, List.filter_append, List.filter_singleton, decide_eq_true, hedges, List.filter_filter]
      · congr 1
        apply List.filter_congr
        intro x _
        rw [← Bool.decide_and]
        apply decide_eq_decide.mpr
        rw [List.mem_cons, not_or]
        tauto
      · exact ⟨fun h => hc' (h ▸ by simp [hadded]), hfresh⟩
    have hports : (g₀.addEdge r).ports q ((g₀.addEdge r).edge c).getInputNum cs =
        g.ports q (g.edge c).getInputNum cs := by
      rw [hold c hc]
      exact ports_congr (fun x hx => hold x (hcs x hx)) q _
    rw [hkept, hports, List.map_append, List.map_singleton, hnew, List.append_assoc]
    congr 1
    apply List.map_congr_left
    intro x hx
    exact hold x (List.mem_filter.mp hx).1

/-! ### The node is bridged -/

/-- The edges that do not touch `n`. -/
def away (g : MKLDNNGraph) (n : NodeId) : List EdgeId :=
  g.graphEdges.filter fun x => g.parentOf x ≠ n ∧ g.childOf x ≠ n

/-- The edges of `n` are replaced: for each edge of `n` to a child there is one from the port that `e` leaves
from to the port of the child, and the lists of all nodes agree with the edges. -/
def Bridged (g g' : MKLDNNGraph) (n : NodeId) (e : EdgeId) : Prop :=
  g'.Wired ∧ g'.wires.Perm ((g.away n).map g.edge ++
    (g.childEdges n).map fun c => ⟨g.parentOf e, g.childOf c, (g.edge e).getInputNum, (g.edge c).getOutputNum⟩)

/-- **Dropping a node.** In a graph whose lists agree, a node with the parent edge `e`, which does not come
from the node itself, and at least one child edge is bridged if and only if all its child edges but the last
leave from a port with the number of the port that `e` leaves from. -/
theorem dropNode_wiring (hg : g.Wired) (hparents : g.parentEdges n = [e]) (hloop : g.parentOf e ≠ n)
    (hchilds : g.childEdges n ≠ []) :
    g.Bridged (g.dropNode n) n e ↔
      ∀ c ∈ (g.childEdges n).dropLast, (g.edge c).getInputNum = (g.edge e).getInputNum := by
  obtain ⟨he, hen⟩ := hg.mem_parents.mp (hparents ▸ List.mem_singleton_self e)
  have hmem : ∀ c ∈ g.childEdges n, c ∈ g.graphEdges := fun c hc => (hg.mem_children.mp hc).1
  have hout : e ∉ g.childEdges n := fun h => hloop (hg.mem_children.mp h).2
  have hdrop : g.dropNode n = ((g.childEdges n).foldl (dropRound (g.parentOf e)) (g, e)).1 := by
    simp only [dropNode, hparents, List.foldl_cons, List.foldl_nil, he, if_true]
  have haway : (g.graphEdges.filter fun x => x ≠ e ∧ x ∉ g.childEdges n) = g.away n := by
    apply List.filter_congr
    intro x hx
    apply decide_eq_decide.mpr
    have hxe : x = e ↔ g.childOf x = n := by
      rw [← List.mem_singleton, ← hparents, hg.mem_parents]
      exact and_iff_right hx
    have hxc : x ∈ g.childEdges n ↔ g.parentOf x = n := hg.mem_children.trans (and_iff_right hx)
    rw [ne_eq, hxe, hxc]
    exact and_comm
  obtain ⟨hwired, hwires⟩ := foldl_dropRound (q := g.parentOf e) hg hmem (hg.nodup_children n) hout (.inl hchilds)
  rw [Bridged, hdrop, hwires, haway, List.perm_append_left_iff, and_iff_right hwired]
  constructor
  · intro hperm c hc
    obtain ⟨r, hr, hport⟩ := exists_mem_ports _ _ hc
    obtain ⟨c', -, rfl⟩ := List.mem_map.mp (hperm.mem_iff.mp hr)
    exact hport.symm
  · intro hport
    rw [ports_eq_map hport]

/-- Node 0 feeds node 1 from output port `port`, and node 1 feeds nodes 2 and 3. -/
def identityNode (port : Int) : MKLDNNGraph :=
  [⟨0, 1, port, 0⟩, ⟨1, 2, 0, 0⟩, ⟨1, 3, 0, 0⟩].foldl addEdge { graphNodes := [0, 1, 2, 3] }

theorem identityNode_wired (port : Int) : (identityNode port).Wired :=
  wired_foldl_addEdge ⟨rfl, rfl, fun _ => rfl, fun _ => rfl⟩ _

theorem dropNode_wiring_port0 : (identityNode 0).Bridged ((identityNode 0).dropNode 1) 1 1 :=
  (dropNode_wiring (identityNode_wired 0) rfl (by decide) (by decide)).mpr (by decide)

/-- From port 1 of node 0, node 3 is fed from port 0 of it. -/
theorem dropNode_wrongPort : (identityNode 1).Wired ∧ (identityNode 1).parentEdges 1 = [1] ∧
    (identityNode 1).parentOf 1 ≠ 1 ∧ (identityNode 1).childEdges 1 = [2, 3] ∧
    ((identityNode 1).dropNode 1).wires = [⟨0, 2, 1, 0⟩, ⟨0, 3, 0, 0⟩] ∧
    ¬ (identityNode 1).Bridged ((identityNode 1).dropNode 1) 1 1 := by
  refine ⟨identityNode_wired 1, rfl, by decide, rfl, rfl, ?_⟩
  rintro ⟨-, hwires⟩
  revert hwires
  decide

end OpenVino.MKLDNNPlugin.MKLDNNGraph
