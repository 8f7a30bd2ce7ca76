import OpenVino.Base.DepthFirst
import OpenVino.Base.Exception
import OpenVino.MKLDNNPlugin.Graph.Graph

/-!
# The topological sort

`sortTopologically` orders the nodes by a depth-first search along the child edges (`visitNode`, a
refinement of `Visits`), numbers them, and puts the edges of every node in the order of their ports
(`sortByPort`: the first edge of each port at the index of the port, the others behind). `sortTopologically_correct`:
in a graph without cycles whose nodes have an edge at every port, and at no other, this gives a sorted graph
of the same kind, and so does sorting it once more.
-/

namespace OpenVino.MKLDNNPlugin.MKLDNNGraph

open Relation

/-- `edges[i].lock()`, which has to give an edge. -/
def getEdge (g : MKLDNNGraph) (e : EdgeId) : Result EdgeId :=
  if e ∈ g.graphEdges then .ok e else .error (.exception "Node contains empty edge")

structure VisitState where
  permanent : NodeId → Bool := fun _ => false
  temporary : NodeId → Bool := fun _ => false
  sorted : List NodeId := []

def visitNode (g : MKLDNNGraph) : Nat → VisitState → NodeId → Result VisitState
  | 0, _, _ => .error .outOfFuel
  | fuel + 1, s, node =>
    if s.temporary node then .ok s
    else if s.permanent node then .ok s
    else do
      let s := { s with temporary := Function.update s.temporary node true }
      let s ← (g.childEdges node).foldlM (fun s c => do
        let e ← g.getEdge c
        g.visitNode fuel s (g.childOf e)) s
      return { permanent := Function.update s.permanent node true
               temporary := Function.update s.temporary node false
               sorted := node :: s.sorted }

/-- `if (!res[port]) res[port] = edge; else res.push_back(edge);` -/
def placeEdge (port : EdgeId → Int) (res : List EdgeId) (e : EdgeId) : Result (List EdgeId) :=
  if 0 ≤ port e ∧ port e < res.length then
    .ok (if res[(port e).toNat]? = some noEdge then res.set (port e).toNat e else res ++ [e])
  else .error (.undefinedBehaviour "res[port]")

def sortByPort (g : MKLDNNGraph) (port_num : Nat) (port : EdgeId → Int) (edges : List EdgeId) :
    Result (List EdgeId) :=
  edges.foldlM (fun res x => do
    let e ← g.getEdge x
    placeEdge port res e) (List.replicate port_num noEdge)

/-- The port of an edge at its child. -/
def inPort (g : MKLDNNGraph) (e : EdgeId) : Int := (g.edge e).getOutputNum

/-- The port of an edge at its parent. -/
def outPort (g : MKLDNNGraph) (e : EdgeId) : Int := (g.edge e).getInputNum

def sortEdges (g : MKLDNNGraph) (node : NodeId) : Result MKLDNNGraph := do
  let parents ← g.sortByPort (g.inDims node) g.inPort (g.parentEdges node)
  let childs ← g.sortByPort (g.outDims node) g.outPort (g.childEdges node)
  return { g with
    parentEdges := Function.update g.parentEdges node parents
    childEdges := Function.update g.childEdges node childs }

/-- `for (int i = 0; i < sorted.size(); i++) sorted[i]->execIndex = i;` -/
def numberNodes (sorted : List NodeId) (execIndex : NodeId → Int) : NodeId → Int :=
  sorted.zipIdx.foldl (fun f p => Function.update f p.1 (p.2 : Int)) execIndex

def sortTopologically (g : MKLDNNGraph) : Result MKLDNNGraph := do
  -- a node is entered at most once, so that one call more than there are nodes is deep enough
  let s ← g.graphNodes.foldlM (g.visitNode (g.graphNodes.length + 1)) {}
  let g := { g with graphNodes := s.sorted, execIndex := numberNodes s.sorted g.execIndex }
  g.graphNodes.foldlM sortEdges g

variable {g g' : MKLDNNGraph} {n v : NodeId} {s : VisitState} {fuel : Nat} {gray : List NodeId}
  {rank : NodeId → Nat} {port : EdgeId → Int} {port_num : Nat} {res edges : List EdgeId} {e : EdgeId}

/-! ### The order of the nodes -/

/-- The nodes that an edge leads to. -/
def nextNodes (g : MKLDNNGraph) (n : NodeId) : List NodeId := (g.childEdges n).map g.childOf

/-- The marks during the search: the nodes that are sorted, and those that are open. -/
def Marked (s : VisitState) (gray : List NodeId) : Prop :=
  (∀ n, s.permanent n = decide (n ∈ s.sorted)) ∧ ∀ n, s.temporary n = decide (n ∈ gray)

/-- **A visit in a graph without cycles.** -/
theorem visitNode_ok (hedge : ∀ n, ∀ c ∈ g.childEdges n, c ∈ g.graphEdges) {nodes : List NodeId}
    (hnodes : ∀ v ∈ nodes, ∀ c ∈ g.nextNodes v, c ∈ nodes)
    (hrank : ∀ v ∈ nodes, ∀ c ∈ g.nextNodes v, rank c < rank v) (hfuel : rank v < fuel) (hv : v ∈ nodes)
    (hgray : ∀ u ∈ gray, rank v < rank u) (hs : Marked s gray) :
    ∃ s', g.visitNode fuel s v = .ok s' ∧ Visits g.nextNodes gray [v] s.sorted s'.sorted ∧ Marked s' gray := by
  induction fuel generalizing v gray s with
  | zero => exact absurd hfuel (Nat.not_lt_zero _)
  | succ fuel ih =>
    have hopen : v ∉ gray := fun h => lt_irrefl _ (hgray v h)
    rw [visitNode, if_neg (by simp [hs.2, hopen])]
    by_cases hdone : v ∈ s.sorted
    · rw [if_pos (by simp [hs.1, hdone])]
      exact ⟨s, rfl, .skip hdone .done, hs⟩
    · rw [if_neg (by simp [hs.1, hdone])]
      have hopened : Marked { s with temporary := Function.update s.temporary v true } (v :: gray) := by
        refine ⟨hs.1, fun n => ?_⟩
        by_cases hn : n = v
        · simp [hn]
        · simp [hn, hs.2 n]
      have hround : ∀ s, ∀ c ∈ g.childEdges v, Marked s (v :: gray) →
          ∃ s', (g.getEdge c >>= fun e => g.visitNode fuel s (g.childOf e)) = .ok s' ∧
            Visits g.nextNodes (v :: gray) [g.childOf c] s.sorted s'.sorted ∧ Marked s' (v :: gray) := by
        intro s c hc hs
        have hnext : g.childOf c ∈ g.nextNodes v := List.mem_map_of_mem hc
        have hlt := hrank v hv _ hnext
        rw [getEdge, if_pos (hedge v c hc)]
        refine ih (by omega) (hnodes v hv _ hnext) ?_ hs
        intro u hu
        rcases List.mem_cons.mp hu with rfl | hu
        · exact hlt
        · exact hlt.trans (hgray u hu)
      obtain ⟨s₁, hrun, hvisits, hs₁⟩ := Visits.foldlM_ok g.childOf VisitState.sorted _ hround _ hopened
      refine ⟨_, bind_ok_iff.mpr ⟨s₁, hrun, rfl⟩, .visit hdone hopen hvisits .done, fun n => ?_, fun n => ?_⟩
      · by_cases hn : n = v
        · simp [hn]
        · simp [hn, hs₁.1 n]
      · by_cases hn : n = v
        · simp [hn, hopen]
        · simp [hn, hs₁.2 n]

/-- What the search needs of a graph. -/
structure Layered (g : MKLDNNGraph) : Prop where
  wired : g.Wired
  nodup : g.graphNodes.Nodup
  parents : ∀ e ∈ g.graphEdges, g.parentOf e ∈ g.graphNodes
  children : ∀ e ∈ g.graphEdges, g.childOf e ∈ g.graphNodes
  acyclic : Acyclic g.nextNodes

/-- **The nodes are sorted.** -/
theorem Layered.visits (hg : g.Layered) : ∃ s, g.graphNodes.foldlM (g.visitNode (g.graphNodes.length + 1)) {} = .ok s ∧
    s.sorted.Perm g.graphNodes ∧ Topological g.nextNodes s.sorted := by
  have hedge : ∀ n, ∀ c ∈ g.childEdges n, c ∈ g.graphEdges := fun n c hc => (hg.wired.mem_children.mp hc).1
  have hclosed : ∀ v, ∀ c ∈ g.nextNodes v, c ∈ g.graphNodes := by
    intro v c hc
    obtain ⟨e, he, rfl⟩ := List.mem_map.mp hc
    exact hg.children e (hedge v e he)
  obtain ⟨rank, hrank⟩ := exists_rank g.graphNodes.toFinset (fun v _ => hg.acyclic v)
    (fun v _ c hc => List.mem_toFinset.mpr (hclosed v c hc))
  have hrank' : ∀ v ∈ g.graphNodes, rank v < g.graphNodes.length ∧ ∀ c ∈ g.nextNodes v, rank c < rank v := by
    intro v hv
    rw [← List.toFinset_card_of_nodup hg.nodup]
    exact hrank v (List.mem_toFinset.mpr hv)
  have hround : ∀ s, ∀ v ∈ g.graphNodes, Marked s [] →
      ∃ s', g.visitNode (g.graphNodes.length + 1) s v = .ok s' ∧
        Visits g.nextNodes [] [id v] s.sorted s'.sorted ∧ Marked s' [] := by
    intro s v hv hs
    refine visitNode_ok hedge (fun v _ => hclosed v) (fun v hv => (hrank' v hv).2) ?_ hv ?_ hs
    · exact Nat.lt_succ_of_lt (hrank' v hv).1
    · exact fun u hu => absurd hu List.not_mem_nil
  have hstart : Marked {} [] := ⟨fun n => by simp, fun n => by simp⟩
  obtain ⟨s, hrun, hvisits, -⟩ := Visits.foldlM_ok id VisitState.sorted _ hround {} hstart
  rw [List.map_id] at hvisits
  have htopo : Topological g.nextNodes s.sorted := hvisits.topological trivial
  refine ⟨s, hrun, ?_, htopo⟩
  apply (List.perm_ext_iff_of_nodup htopo.nodup hg.nodup).mpr
  intro v
  constructor
  · intro hv
    rcases hvisits.reachable hv with h | ⟨w, hw, hreach⟩
    · exact absurd h List.not_mem_nil
    · rcases hreach.cases_tail with rfl | ⟨u, -, hlast⟩
      · exact hw
      · exact hclosed u v hlast
  · exact hvisits.mem

/-! ### The numbers of the nodes -/

theorem numberNodes_eq {sorted : List NodeId} {execIndex : NodeId → Int} (hnd : sorted.Nodup) (hn : n ∈ sorted) :
    numberNodes sorted execIndex n = sorted.idxOf n := by
  rw [numberNodes, foldl_zipIdx_update hnd, if_pos hn, Nat.zero_add]

/-! ### The edges in the order of their ports -/

/-- The edges `pre` have been placed. -/
structure Placed (port : EdgeId → Int) (port_num : Nat) (pre res : List EdgeId) : Prop where
  size : port_num ≤ res.length
  slots : ∀ i < port_num, ∀ x, res[i]? = some x → x = noEdge ∨ port x = i
  rest : ∀ i, port_num ≤ i → res[i]? ≠ some noEdge
  perm : (res.filter (· ≠ noEdge)).Perm pre
  taken : ∀ x ∈ pre, res[(port x).toNat]? ≠ some noEdge

theorem placed_replicate : Placed port port_num [] (List.replicate port_num noEdge) where
  size := by simp
  slots i hi x hx := by
    rw [List.getElem?_replicate, if_pos hi, Option.some_inj] at hx
    exact .inl hx.symm
  rest i hi := by
    rw [List.getElem?_replicate, if_neg (by omega)]
    simp
  perm := by simp
  taken x hx := absurd hx List.not_mem_nil

/-- An edge is put into an empty slot. -/
theorem filter_set_perm {k : Nat} (hk : res[k]? = some noEdge) (he : e ≠ noEdge) :
    ((res.set k e).filter (· ≠ noEdge)).Perm (e :: res.filter (· ≠ noEdge)) := by
  induction res generalizing k with
  | nil => simp at hk
  | cons x res ih =>
    cases k with
    | zero =>
      obtain rfl : x = noEdge := by simpa using hk
      simp [he]
    | succ k =>
      have hres := ih (by simpa using hk)
      by_cases hx : x = noEdge
      · simpa [hx] using hres
      · simpa [hx] using (hres.cons x).trans (.swap ..)

theorem Placed.place {pre : List EdgeId} (h : Placed port port_num pre res) (he : e ≠ noEdge)
    (hport : 0 ≤ port e ∧ port e < port_num) :
    ∃ res', placeEdge port res e = .ok res' ∧ Placed port port_num (pre ++ [e]) res' := by
  have hsize := h.size
  obtain ⟨k, hk⟩ : ∃ k : Nat, port e = k := ⟨(port e).toNat, by omega⟩
  have hlt : k < port_num := by omega
  rw [placeEdge, if_pos (by omega), hk, Int.toNat_natCast]
  by_cases hslot : res[k]? = some noEdge
  · refine ⟨_, by rw [if_pos hslot], ?_, ?_, ?_, ?_, ?_⟩
    · rwa [List.length_set]
    · intro i hi x hx
      rw [List.getElem?_set] at hx
      split_ifs at hx with hik
      · right
        rw [← Option.some_inj.mp hx, hk, hik]
      · exact h.slots i hi x hx
    · intro i hi
      rw [List.getElem?_set_ne (by omega)]
      exact h.rest i hi
    · refine (filter_set_perm hslot he).trans ?_
      exact (h.perm.cons e).trans (List.perm_append_singleton e pre).symm
    · intro x hx
      rw [List.getElem?_set]
      split_ifs with hik
      · simpa using he
      · simp
      · rcases List.mem_append.mp hx with hx | hx
        · exact h.taken x hx
        · rw [List.mem_singleton.mp hx, hk, Int.toNat_natCast] at hik
          exact absurd rfl hik
  · have hnew : ∀ i : Nat, res[i]? ≠ some noEdge → (res ++ [e])[i]? ≠ some noEdge := by
      intro i hi
      by_cases hil : i < res.length
      · rwa [List.getElem?_append_left hil]
      · rw [List.getElem?_append_right (by omega)]
        intro hx
        exact he (List.mem_singleton.mp (List.mem_of_getElem? hx)).symm
    refine ⟨_, by rw [if_neg hslot], ?_, ?_, ?_, ?_, ?_⟩
    · rw [List.length_append]
      omega
    · intro i hi x hx
      rw [List.getElem?_append_left (by omega)] at hx
      exact h.slots i hi x hx
    · intro i hi
      exact hnew i (h.rest i hi)
    · rw [List.filter_append]
      simpa [he] using h.perm.append_right [e]
    · intro x hx
      apply hnew
      rcases List.mem_append.mp hx with hx | hx
      · exact h.taken x hx
      · rwa [List.mem_singleton.mp hx, hk, Int.toNat_natCast]

/-- The edges of a node, which has at least one at every port. -/
structure PortsFilled (port : EdgeId → Int) (port_num : Nat) (edges : List EdgeId) : Prop where
  known : ∀ e ∈ edges, 0 ≤ port e ∧ port e < port_num
  filled : ∀ i < port_num, ∃ e ∈ edges, port e = i

/-- **The edges are put in the order of their ports**, and none is lost. -/
theorem sortByPort_ok (hg : g.Wired) (hedges : ∀ e ∈ edges, e ∈ g.graphEdges) (hp : PortsFilled port port_num edges) :
    ∃ res, g.sortByPort port_num port edges = .ok res ∧ res.Perm edges ∧
      ∀ i < port_num, ∃ e, res[i]? = some e ∧ port e = i := by
  suffices ∀ (pre post : List EdgeId) (res : List EdgeId), edges = pre ++ post → Placed port port_num pre res →
      ∃ res', post.foldlM (fun res x => g.getEdge x >>= placeEdge port res) res = .ok res' ∧
        Placed port port_num edges res' by
    obtain ⟨res, hrun, hres⟩ := this [] edges _ rfl placed_replicate
    have hnone : ∀ x ∈ res, x ≠ noEdge := by
      rintro x hx rfl
      obtain ⟨i, hi⟩ := List.mem_iff_getElem?.mp hx
      by_cases hlt : i < port_num
      · obtain ⟨e, he, hport⟩ := hp.filled i hlt
        apply hres.taken e he
        rwa [hport, Int.toNat_natCast]
      · exact hres.rest i (by omega) hi
    have hperm := hres.perm
    rw [List.filter_eq_self.mpr fun x hx => decide_eq_true (hnone x hx)] at hperm
    refine ⟨res, hrun, hperm, fun i hi => ?_⟩
    have hil : i < res.length := hi.trans_le hres.size
    refine ⟨res[i], List.getElem?_eq_getElem hil, ?_⟩
    exact (hres.slots i hi _ (List.getElem?_eq_getElem hil)).resolve_left (hnone _ (List.getElem_mem hil))
  intro pre post
  induction post generalizing pre with
  | nil =>
    intro res hpre hres
    rw [List.append_nil] at hpre
    exact ⟨res, rfl, hpre ▸ hres⟩
  | cons e post ih =>
    intro res hpre hres
    have he : e ∈ edges := by simp [hpre]
    obtain ⟨res₁, hplace, hres₁⟩ := hres.place (hg.known e (hedges e he)).1 (hp.known e he)
    obtain ⟨res', hrun, hres'⟩ := ih (pre ++ [e]) res₁ (by simp [hpre]) hres₁
    refine ⟨res', ?_, hres'⟩
    rw [List.foldlM_cons, getEdge, if_pos (hedges e he)]
    exact bind_ok_iff.mpr ⟨res₁, hplace, hrun⟩

/-! ### The sorted graph -/

/-- The same nodes and edges, in another order. -/
structure Reordered (g g' : MKLDNNGraph) : Prop where
  graphNodes : g'.graphNodes.Perm g.graphNodes
  graphEdges : g'.graphEdges = g.graphEdges
  edge : g'.edge = g.edge
  nextEdge : g'.nextEdge = g.nextEdge
  inDims : g'.inDims = g.inDims
  outDims : g'.outDims = g.outDims
  parentEdges : ∀ n, (g'.parentEdges n).Perm (g.parentEdges n)
  childEdges : ∀ n, (g'.childEdges n).Perm (g.childEdges n)

theorem Reordered.trans {g'' : MKLDNNGraph} (h : Reordered g g') (h' : Reordered g' g'') : Reordered g g'' where
  graphNodes := h'.graphNodes.trans h.graphNodes
  graphEdges := h'.graphEdges.trans h.graphEdges
  edge := h'.edge.trans h.edge
  nextEdge := h'.nextEdge.trans h.nextEdge
  inDims := h'.inDims.trans h.inDims
  outDims := h'.outDims.trans h.outDims
  parentEdges n := (h'.parentEdges n).trans (h.parentEdges n)
  childEdges n := (h'.childEdges n).trans (h.childEdges n)

/-- A graph without cycles whose nodes have an edge at every port, and at no other. -/
structure Sortable (g : MKLDNNGraph) : Prop extends g.Layered where
  inputs : ∀ n ∈ g.graphNodes, PortsFilled g.inPort (g.inDims n) (g.parentEdges n)
  outputs : ∀ n ∈ g.graphNodes, PortsFilled g.outPort (g.outDims n) (g.childEdges n)

/-- The edges of `n` at the first indices are those of the ports with these numbers. -/
def ByPorts (g : MKLDNNGraph) (n : NodeId) : Prop :=
  (∀ i < g.inDims n, ∃ e, (g.parentEdges n)[i]? = some e ∧ g.inPort e = i) ∧
    ∀ i < g.outDims n, ∃ e, (g.childEdges n)[i]? = some e ∧ g.outPort e = i

structure Sorted (g : MKLDNNGraph) : Prop where
  increasing : ∀ e ∈ g.graphEdges, g.execIndex (g.parentOf e) < g.execIndex (g.childOf e)
  byPorts : ∀ n ∈ g.graphNodes, g.ByPorts n

namespace Reordered

theorem inPort (h : Reordered g g') : g'.inPort = g.inPort := by
  funext e
  rw [MKLDNNGraph.inPort, MKLDNNGraph.inPort, h.edge]

theorem outPort (h : Reordered g g') : g'.outPort = g.outPort := by
  funext e
  rw [MKLDNNGraph.outPort, MKLDNNGraph.outPort, h.edge]

theorem childOf (h : Reordered g g') : g'.childOf = g.childOf := by
  funext e
  rw [MKLDNNGraph.childOf, MKLDNNGraph.childOf, h.edge]

theorem parentOf (h : Reordered g g') : g'.parentOf = g.parentOf := by
  funext e
  rw [MKLDNNGraph.parentOf, MKLDNNGraph.parentOf, h.edge]

theorem wired (h : Reordered g g') (hg : g.Wired) : g'.Wired where
  nodup := h.graphEdges ▸ hg.nodup
  known := by
    rw [h.graphEdges, h.nextEdge]
    exact hg.known
  fresh := h.nextEdge ▸ hg.fresh
  parents n := by
    rw [h.graphEdges, h.childOf]
    exact (h.parentEdges n).trans (hg.parents n)
  children n := by
    rw [h.graphEdges, h.parentOf]
    exact (h.childEdges n).trans (hg.children n)

theorem layered (h : Reordered g g') (hg : g.Layered) : g'.Layered where
  wired := h.wired hg.wired
  nodup := h.graphNodes.nodup_iff.mpr hg.nodup
  parents e he := by
    rw [h.graphEdges] at he
    rw [h.parentOf]
    exact h.graphNodes.mem_iff.mpr (hg.parents e he)
  children e he := by
    rw [h.graphEdges] at he
    rw [h.childOf]
    exact h.graphNodes.mem_iff.mpr (hg.children e he)
  acyclic v hcycle := by
    apply hg.acyclic v
    refine TransGen.mono (fun u w huw => ?_) v v hcycle
    rw [Edge, nextNodes, h.childOf] at huw
    exact ((h.childEdges u).map _).mem_iff.mp huw

end Reordered

theorem PortsFilled.of_perm {edges' : List EdgeId} (h : PortsFilled port port_num edges) (hperm : edges'.Perm edges) :
    PortsFilled port port_num edges' where
  known e he := h.known e (hperm.mem_iff.mp he)
  filled i hi := by
    obtain ⟨e, he, hport⟩ := h.filled i hi
    exact ⟨e, hperm.mem_iff.mpr he, hport⟩

theorem Reordered.sortable (h : Reordered g g') (hg : g.Sortable) : g'.Sortable where
  toLayered := h.layered hg.toLayered
  inputs n hn := by
    rw [h.inPort, h.inDims]
    exact (hg.inputs n (h.graphNodes.mem_iff.mp hn)).of_perm (h.parentEdges n)
  outputs n hn := by
    rw [h.outPort, h.outDims]
    exact (hg.outputs n (h.graphNodes.mem_iff.mp hn)).of_perm (h.childEdges n)

/-- The edges of one node are sorted. -/
theorem sortEdges_ok (hg : g.Sortable) (hn : n ∈ g.graphNodes) :
    ∃ g', g.sortEdges n = .ok g' ∧ Reordered g g' ∧ g'.graphNodes = g.graphNodes ∧ g'.execIndex = g.execIndex ∧
      g'.ByPorts n ∧ ∀ m, m ≠ n → g'.parentEdges m = g.parentEdges m ∧ g'.childEdges m = g.childEdges m := by
  obtain ⟨parents, hparents, hpperm, hpslots⟩ := sortByPort_ok hg.wired
    (fun e he => (hg.wired.mem_parents.mp he).1) (hg.inputs n hn)
  obtain ⟨childs, hchilds, hcperm, hcslots⟩ := sortByPort_ok hg.wired
    (fun e he => (hg.wired.mem_children.mp he).1) (hg.outputs n hn)
  refine ⟨_, bind_ok_iff.mpr ⟨parents, hparents, bind_ok_iff.mpr ⟨childs, hchilds, rfl⟩⟩,
    ⟨.refl _, rfl, rfl, rfl, rfl, rfl, fun m => ?_, fun m => ?_⟩, rfl, rfl, ⟨fun i hi => ?_, fun i hi => ?_⟩, ?_⟩
  · by_cases hm : m = n
    · simpa [hm] using hpperm
    · simp [hm]
  · by_cases hm : m = n
    · simpa [hm] using hcperm
    · simp [hm]
  · obtain ⟨e, he, hport⟩ := hpslots i hi
    exact ⟨e, by simpa using he, hport⟩
  · obtain ⟨e, he, hport⟩ := hcslots i hi
    exact ⟨e, by simpa using he, hport⟩
  · intro m hm
    exact ⟨Function.update_of_ne hm .., Function.update_of_ne hm ..⟩

/-- The edges of all nodes are sorted. -/
theorem foldlM_sortEdges_ok {nodes : List NodeId} (hg : g.Sortable) (hnodes : ∀ n ∈ nodes, n ∈ g.graphNodes) :
    ∃ g', nodes.foldlM sortEdges g = .ok g' ∧ Reordered g g' ∧ g'.graphNodes = g.graphNodes ∧
      g'.execIndex = g.execIndex ∧ (∀ n ∈ nodes, g'.ByPorts n) ∧
      ∀ m ∉ nodes, g'.parentEdges m = g.parentEdges m ∧ g'.childEdges m = g.childEdges m := by
  induction nodes generalizing g with
  | nil =>
    have hsame : Reordered g g := ⟨.refl _, rfl, rfl, rfl, rfl, rfl, fun _ => .refl _, fun _ => .refl _⟩
    exact ⟨g, rfl, hsame, rfl, rfl, fun n hn => absurd hn List.not_mem_nil, fun m _ => ⟨rfl, rfl⟩⟩
  | cons n nodes ih =>
    obtain ⟨hn, hnodes⟩ := List.forall_mem_cons.mp hnodes
    obtain ⟨g₁, hrun₁, hre₁, hnodes₁, hexec₁, hports₁, hother₁⟩ := sortEdges_ok hg hn
    obtain ⟨g', hrun, hre, hnodes', hexec, hports, hother⟩ := ih (hre₁.sortable hg) (hnodes₁ ▸ hnodes)
    refine ⟨g', ?_, hre₁.trans hre, hnodes'.trans hnodes₁, hexec.trans hexec₁, ?_, ?_⟩
    · rw [List.foldlM_cons]
      exact bind_ok_iff.mpr ⟨g₁, hrun₁, hrun⟩
    · intro m hm
      by_cases hrest : m ∈ nodes
      · exact hports m hrest
      · -- the lists of `n` are not touched again
        obtain rfl := (List.mem_cons.mp hm).resolve_right hrest
        obtain ⟨hparents, hchilds⟩ := hother m hrest
        rw [ByPorts, hre.inDims, hre.outDims, hre.inPort, hre.outPort, hparents, hchilds]
        exact hports₁
    · intro m hm
      obtain ⟨hmn, hrest⟩ := not_or.mp (mt List.mem_cons.mpr hm)
      obtain ⟨hparents, hchilds⟩ := hother m hrest
      exact ⟨hparents.trans (hother₁ m hmn).1, hchilds.trans (hother₁ m hmn).2⟩

theorem Sortable.sort (hg : g.Sortable) : ∃ g', g.sortTopologically = .ok g' ∧ Reordered g g' ∧ g'.Sorted := by
  obtain ⟨s, hrun, hperm, htopo⟩ := hg.toLayered.visits
  set g₁ : MKLDNNGraph := { g with graphNodes := s.sorted, execIndex := numberNodes s.sorted g.execIndex } with hg₁
  have hre₁ : Reordered g g₁ := ⟨hperm, rfl, rfl, rfl, rfl, rfl, fun _ => .refl _, fun _ => .refl _⟩
  obtain ⟨g', hrun', hre, hnodes, hexec, hports, -⟩ := foldlM_sortEdges_ok (hre₁.sortable hg) fun _ hn => hn
  refine ⟨g', bind_ok_iff.mpr ⟨s, hrun, hrun'⟩, hre₁.trans hre, fun e he => ?_, fun n hn => hports n (hnodes ▸ hn)⟩
  have hmem := hre.graphEdges ▸ he
  have hparent : g.parentOf e ∈ s.sorted := hperm.mem_iff.mpr (hg.parents e hmem)
  have hnext : g.childOf e ∈ g.nextNodes (g.parentOf e) :=
    List.mem_map_of_mem (hg.wired.mem_children.mpr ⟨hmem, rfl⟩)
  rw [hexec, hre.parentOf, hre.childOf]
  show numberNodes s.sorted g.execIndex (g.parentOf e) < numberNodes s.sorted g.execIndex (g.childOf e)
  rw [numberNodes_eq htopo.nodup hparent, numberNodes_eq htopo.nodup (htopo.closed hparent hnext)]
  exact_mod_cast htopo.idxOf_lt hparent hnext

/-- **The topological sort**, of a graph without cycles whose nodes have an edge at every port and at no other:
the nodes are permuted and numbered along the edges, no edge of a node is lost, the edges at the first indices
are those of the ports with these numbers; and the graph can be sorted again, with the same outcome. -/
theorem sortTopologically_correct (hg : g.Sortable) :
    ∃ g', g.sortTopologically = .ok g' ∧ Reordered g g' ∧ g'.Sorted ∧
      ∃ g'', g'.sortTopologically = .ok g'' ∧ Reordered g g'' ∧ g''.Sorted := by
  obtain ⟨g', hrun, hre, hsorted⟩ := hg.sort
  obtain ⟨g'', hrun', hre', hsorted'⟩ := (hre.sortable hg).sort
  exact ⟨g', hrun, hre, hsorted, g'', hrun', hre.trans hre', hsorted'⟩

/-- Node 0 feeds port 1 of node 2, both directly and, port 0, through node 1. -/
def diamond : MKLDNNGraph :=
  [⟨0, 2, 0, 1⟩, ⟨0, 1, 0, 0⟩, ⟨1, 2, 0, 0⟩].foldl addEdge
    { graphNodes := [2, 1, 0], inDims := fun n => n, outDims := fun n => if n = 2 then 0 else 1 }

theorem diamond_sortable : diamond.Sortable := by
  have hwired : diamond.Wired := wired_foldl_addEdge ⟨rfl, rfl, fun _ => rfl, fun _ => rfl⟩ _
  have hup : ∀ {u v}, TransGen (Edge diamond.nextNodes) u v → u < v := by
    have hedges : ∀ e ∈ diamond.graphEdges, diamond.parentOf e < diamond.childOf e := by decide
    have hedge : ∀ {u v}, Edge diamond.nextNodes u v → u < v := by
      intro u v huv
      obtain ⟨e, he, rfl⟩ := List.mem_map.mp huv
      obtain ⟨hmem, rfl⟩ := hwired.mem_children.mp he
      exact hedges e hmem
    intro u v huv
    induction huv with
    | single h => exact hedge h
    | tail _ h ih => exact ih.trans (hedge h)
  refine ⟨⟨hwired, by decide, by decide, by decide, fun v hcycle => lt_irrefl v (hup hcycle)⟩, ?_, ?_⟩
  · have hports : ∀ n ∈ diamond.graphNodes, (∀ e ∈ diamond.parentEdges n, 0 ≤ diamond.inPort e ∧
        diamond.inPort e < diamond.inDims n) ∧
        ∀ i < diamond.inDims n, ∃ e ∈ diamond.parentEdges n, diamond.inPort e = i := by decide
    exact fun n hn => ⟨(hports n hn).1, (hports n hn).2⟩
  · have hports : ∀ n ∈ diamond.graphNodes, (∀ e ∈ diamond.childEdges n, 0 ≤ diamond.outPort e ∧
        diamond.outPort e < diamond.outDims n) ∧
        ∀ i < diamond.outDims n, ∃ e ∈ diamond.childEdges n, diamond.outPort e = i := by decide
    exact fun n hn => ⟨(hports n hn).1, (hports n hn).2⟩

theorem sortTopologically_correct_diamond : ∃ g', diamond.sortTopologically = .ok g' ∧ Reordered diamond g' ∧
    g'.Sorted ∧ ∃ g'', g'.sortTopologically = .ok g'' ∧ Reordered diamond g'' ∧ g''.Sorted :=
  sortTopologically_correct diamond_sortable

end OpenVino.MKLDNNPlugin.MKLDNNGraph
