import Mathlib.Data.List.Nodup
import Mathlib.Logic.Function.Basic

/-!
# The graph of the MKLDNN plugin

Nodes and edges are numbers. `graphEdges` owns the edges; the lists that a node keeps (`parentEdges`,
`childEdges`) hold weak pointers to them. `Wired` says that the lists of the nodes agree with `graphEdges`,
and is kept by dropping an edge and by adding one.
-/

namespace OpenVino.MKLDNNPlugin

abbrev NodeId := Nat

abbrev EdgeId := Nat

/-- The number of no edge: an empty pointer. -/
def noEdge : EdgeId := 0

structure MKLDNNEdge where
  parent : NodeId
  child : NodeId
  parent_port : Int
  child_port : Int
deriving DecidableEq

namespace MKLDNNEdge

/-- The number of the output port of the parent. -/
def getInputNum (e : MKLDNNEdge) : Int := e.parent_port

/-- The number of the input port of the child. -/
def getOutputNum (e : MKLDNNEdge) : Int := e.child_port

end MKLDNNEdge

/-- Of the dimensions of a node's ports only their number is kept. -/
structure MKLDNNGraph where
  graphNodes : List NodeId := []
  graphEdges : List EdgeId := []
  edge : EdgeId → MKLDNNEdge := fun _ => ⟨0, 0, 0, 0⟩
  nextEdge : EdgeId := 1
  parentEdges : NodeId → List EdgeId := fun _ => []
  childEdges : NodeId → List EdgeId := fun _ => []
  inDims : NodeId → Nat := fun _ => 0
  outDims : NodeId → Nat := fun _ => 0
  execIndex : NodeId → Int := fun _ => -1

namespace MKLDNNGraph

variable {g : MKLDNNGraph} {e x : EdgeId} {n : NodeId}

def parentOf (g : MKLDNNGraph) (e : EdgeId) : NodeId := (g.edge e).parent

def childOf (g : MKLDNNGraph) (e : EdgeId) : NodeId := (g.edge e).child

/-- `edge->drop()` -/
def drop (g : MKLDNNGraph) (e : EdgeId) : MKLDNNGraph :=
  { g with
    childEdges := Function.update g.childEdges (g.parentOf e) ((g.childEdges (g.parentOf e)).erase e)
    parentEdges := Function.update g.parentEdges (g.childOf e) ((g.parentEdges (g.childOf e)).erase e) }

def removeEdge (g : MKLDNNGraph) (e : EdgeId) : MKLDNNGraph := { g with graphEdges := g.graphEdges.erase e }

/-- `MKLDNNEdgePtr newEdge(new MKLDNNEdge(r)); graphEdges.push_back(newEdge); parent->addEdge(newEdge);` -/
def addEdge (g : MKLDNNGraph) (r : MKLDNNEdge) : MKLDNNGraph :=
  { g with
    graphEdges := g.graphEdges ++ [g.nextEdge]
    edge := Function.update g.edge g.nextEdge r
    nextEdge := g.nextEdge + 1
    childEdges := Function.update g.childEdges r.parent (g.childEdges r.parent ++ [g.nextEdge])
    parentEdges := Function.update g.parentEdges r.child (g.parentEdges r.child ++ [g.nextEdge]) }

/-! ### The lists of the nodes -/

/-- The lists of all nodes agree with the edges of the graph. -/
structure Wired (g : MKLDNNGraph) : Prop where
  nodup : g.graphEdges.Nodup
  known : ∀ e ∈ g.graphEdges, e ≠ noEdge ∧ e < g.nextEdge
  fresh : g.nextEdge ≠ noEdge
  parents : ∀ n, (g.parentEdges n).Perm (g.graphEdges.filter fun e => g.childOf e = n)
  children : ∀ n, (g.childEdges n).Perm (g.graphEdges.filter fun e => g.parentOf e = n)

theorem Wired.mem_parents (h : g.Wired) : e ∈ g.parentEdges n ↔ e ∈ g.graphEdges ∧ g.childOf e = n := by
  rw [(h.parents n).mem_iff, List.mem_filter, decide_eq_true_iff]

theorem Wired.mem_children (h : g.Wired) : e ∈ g.childEdges n ↔ e ∈ g.graphEdges ∧ g.parentOf e = n := by
  rw [(h.children n).mem_iff, List.mem_filter, decide_eq_true_iff]

theorem Wired.nodup_children (h : g.Wired) (n : NodeId) : (g.childEdges n).Nodup :=
  (h.children n).nodup_iff.mpr (h.nodup.filter _)

section Lists

variable {lists : NodeId → List EdgeId} {edges : List EdgeId} {f : EdgeId → NodeId}

/-- The lists of the nodes when `e` is taken out. -/
theorem perm_erase (h : ∀ n, (lists n).Perm (edges.filter fun x => f x = n)) (e : EdgeId) (n : NodeId) :
    (Function.update lists (f e) ((lists (f e)).erase e) n).Perm ((edges.erase e).filter fun x => f x = n) := by
  rw [← List.erase_filter]
  by_cases hn : n = f e
  · rw [hn, Function.update_self]
    exact (h (f e)).erase e
  · rw [Function.update_of_ne hn, List.erase_of_not_mem]
    · exact h n
    · intro hmem
      exact hn (of_decide_eq_true (List.mem_filter.mp hmem).2).symm

/-- The lists of the nodes when a new edge `e` at `m` is put in. -/
theorem perm_append (h : ∀ n, (lists n).Perm (edges.filter fun x => f x = n)) {e : EdgeId} {m : NodeId}
    {f' : EdgeId → NodeId} (hf : ∀ x ∈ edges, f' x = f x) (he : f' e = m) (n : NodeId) :
    (Function.update lists m (lists m ++ [e]) n).Perm ((edges ++ [e]).filter fun x => f' x = n) := by
  have hold : edges.filter (fun x => f' x = n) = edges.filter fun x => f x = n :=
    List.filter_congr fun x hx => by rw [hf x hx]
  rw [List.filter_append, hold, List.filter_singleton, he]
  by_cases hn : n = m
  · rw [hn, Function.update_self, decide_eq_true rfl]
    exact (h m).append_right [e]
  · rw [Function.update_of_ne hn, decide_eq_false (Ne.symm hn)]
    simpa using h n

end Lists

theorem Wired.dropEdge (h : g.Wired) (e : EdgeId) : ((g.drop e).removeEdge e).Wired where
  nodup := h.nodup.erase e
  known x hx := h.known x (List.mem_of_mem_erase hx)
  fresh := h.fresh
  parents := perm_erase h.parents e
  children := perm_erase h.children e

theorem Wired.addEdge (h : g.Wired) (r : MKLDNNEdge) : (g.addEdge r).Wired := by
  have hold : ∀ x ∈ g.graphEdges, (g.addEdge r).edge x = g.edge x := fun x hx =>
    Function.update_of_ne (Nat.ne_of_lt (h.known x hx).2) ..
  have hnew : (g.addEdge r).edge g.nextEdge = r := Function.update_self ..
  refine ⟨?_, ?_, Nat.succ_ne_zero _, ?_, ?_⟩
  · refine List.nodup_append.mpr ⟨h.nodup, List.nodup_singleton _, ?_⟩
    intro x hx y hy
    rw [List.mem_singleton.mp hy]
    exact Nat.ne_of_lt (h.known x hx).2
  · intro x hx
    rcases List.mem_append.mp hx with hx | hx
    · exact ⟨(h.known x hx).1, Nat.lt_succ_of_lt (h.known x hx).2⟩
    · rw [List.mem_singleton.mp hx]
      exact ⟨h.fresh, Nat.lt_succ_self _⟩
  · exact perm_append h.parents (fun x hx => congrArg MKLDNNEdge.child (hold x hx)) (congrArg MKLDNNEdge.child hnew)
  · exact perm_append h.children (fun x hx => congrArg MKLDNNEdge.parent (hold x hx)) (congrArg MKLDNNEdge.parent hnew)

/-- A graph whose edges are made one after another. -/
theorem wired_foldl_addEdge (h : g.graphEdges = [] ∧ g.nextEdge = 1 ∧ (∀ n, g.parentEdges n = []) ∧
    ∀ n, g.childEdges n = []) (edges : List MKLDNNEdge) : (edges.foldl MKLDNNGraph.addEdge g).Wired := by
  obtain ⟨hedges, hnext, hparents, hchilds⟩ := h
  have hempty : g.Wired := by
    refine ⟨?_, ?_, ?_, fun n => ?_, fun n => ?_⟩
    · rw [hedges]
      exact List.nodup_nil
    · rw [hedges]
      exact fun e he => absurd he List.not_mem_nil
    · rw [hnext]
      decide
    · rw [hedges, hparents]
      exact .refl _
    · rw [hedges, hchilds]
      exact .refl _
  clear hedges hnext hparents hchilds
  induction edges generalizing g with
  | nil => exact hempty
  | cons r edges ih => exact ih (hempty.addEdge r)

end MKLDNNGraph

end OpenVino.MKLDNNPlugin
