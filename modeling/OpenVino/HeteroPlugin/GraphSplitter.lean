import OpenVino.InferenceEngine.ElementLoops
import OpenVino.InferenceEngine.GraphTools

/-!
# Subgraphs of a heterogeneous network

`splitGraph` takes the subgraphs of a device one by one, each time the one that `selectSubgraph` picks: the largest
if it is among the first two (`selectsLargest_iff`). `sortSubgraphs` numbers the subgraphs by a depth-first search along
their dependencies. Without a circle of dependencies the search ends, and each subgraph comes after those that it depends
on (`sortSubgraphs_topological`).
-/

namespace OpenVino.HeteroPlugin

open OpenVino.InferenceEngine Relation

/-- The layers of the set, in the order of its iteration. -/
structure LayersSet where
  layers : List CNNLayerPtr
  nodup : layers.Nodup
deriving DecidableEq

def LayersSet.size (s : LayersSet) : Nat := s.layers.length

def LayersSet.empty : LayersSet := ⟨[], List.nodup_nil⟩

variable {subgraphs : List LayersSet}

/-! ### The selection -/

structure GraphSelectionResult where
  selectedGraph : Nat
  continueSelect : Bool

/-- A round of the scan: `s` is `index` and `maxSize`. -/
def selectRound (subgraphs : List LayersSet) (s : Nat × Nat) (i : Nat) : Result (Nat × Nat) := do
  let subgraph ← elemAt "subgraphs[i]" subgraphs i
  return if subgraph.size > s.2 then (1, subgraph.size) else s

def selectSubgraph (subgraphs : List LayersSet) : Result GraphSelectionResult := do
  let first ← elemAt "subgraphs[0]" subgraphs 0
  let s ← (List.range' 1 (subgraphs.length - 1)).foldlM (selectRound subgraphs) (0, first.size)
  return { selectedGraph := s.1, continueSelect := true }

/-- The result is the index of a subgraph that is as large as any. -/
def SelectsLargest (subgraphs : List LayersSet) : Prop :=
  ∃ r g, selectSubgraph subgraphs = .ok r ∧ subgraphs[r.selectedGraph]? = some g ∧ ∀ g' ∈ subgraphs, g'.size ≤ g.size

/-- What the scan knows after the positions `pre`. -/
structure Scanned (subgraphs : List LayersSet) (first : LayersSet) (pre : List Nat) (s : Nat × Nat) : Prop where
  index : s.1 = if s.2 = first.size then 0 else 1
  largest : first.size ≤ s.2 ∧ ∀ i ∈ pre, ∀ g, subgraphs[i]? = some g → g.size ≤ s.2
  attained : ∃ g ∈ subgraphs, g.size = s.2

theorem selectSubgraph_eq {first : LayersSet} {rest : List LayersSet} : ∃ maxSize,
    selectSubgraph (first :: rest) = .ok ⟨if maxSize = first.size then 0 else 1, true⟩ ∧
      (∀ g ∈ first :: rest, g.size ≤ maxSize) ∧ ∃ g ∈ first :: rest, g.size = maxSize := by
  have hscan := exists_foldlM_ok (f := selectRound (first :: rest)) (I := Scanned (first :: rest) first)
    (l := List.range' 1 rest.length) (b := (0, first.size))
    ⟨(if_pos rfl).symm, ⟨le_refl _, fun _ hi => absurd hi List.not_mem_nil⟩, first, List.mem_cons_self, rfl⟩ ?_
  · obtain ⟨s, hrun, hindex, hlargest, hattained⟩ := hscan
    refine ⟨s.2, ?_, fun g hg => ?_, hattained⟩
    · have hfirst : elemAt "subgraphs[0]" (first :: rest) 0 = .ok first := rfl
      rw [selectSubgraph, hfirst, ok_bind, List.length_cons, Nat.add_sub_cancel, hrun, ok_bind, hindex]
      rfl
    · rcases List.mem_cons.mp hg with rfl | hg
      · exact hlargest.1
      · obtain ⟨i, hi, rfl⟩ := List.mem_iff_getElem.mp hg
        refine hlargest.2 (i + 1) ?_ _ ?_
        · exact List.mem_range'_1.mpr ⟨by omega, by omega⟩
        · rw [List.getElem?_cons_succ, List.getElem?_eq_getElem hi]
  · intro pre i post s hl hs
    have hmem : i ∈ List.range' 1 rest.length := by
      rw [hl]
      exact List.mem_append_right _ List.mem_cons_self
    have hi : i < (first :: rest).length := by
      have := List.mem_range'_1.mp hmem
      rw [List.length_cons]
      omega
    obtain ⟨hindex, ⟨hfirst, hlargest⟩, hattained⟩ := hs
    have hround : selectRound (first :: rest) s i =
        .ok (if (first :: rest)[i].size > s.2 then (1, (first :: rest)[i].size) else s) := by
      rw [selectRound, elemAt_eq hi, ok_bind]
      rfl
    refine ⟨_, hround, ?_⟩
    by_cases hgt : (first :: rest)[i].size > s.2
    · rw [if_pos hgt]
      refine ⟨(if_neg (by omega)).symm, ⟨by omega, fun j hj g hg => ?_⟩, _, List.getElem_mem hi, rfl⟩
      rcases List.mem_append.mp hj with hj | hj
      · exact (hlargest j hj g hg).trans hgt.le
      · rw [List.mem_singleton.mp hj, List.getElem?_eq_getElem hi] at hg
        rw [← Option.some.inj hg]
    · rw [if_neg hgt]
      refine ⟨hindex, ⟨hfirst, fun j hj g hg => ?_⟩, hattained⟩
      rcases List.mem_append.mp hj with hj | hj
      · exact hlargest j hj g hg
      · rw [List.mem_singleton.mp hj, List.getElem?_eq_getElem hi] at hg
        rw [← Option.some.inj hg]
        omega

/-- **The selection.** It picks a largest subgraph exactly if there is one among the first two. -/
theorem selectsLargest_iff (hne : subgraphs ≠ []) : SelectsLargest subgraphs ↔
    ∃ i ≤ 1, ∃ g, subgraphs[i]? = some g ∧ ∀ g' ∈ subgraphs, g'.size ≤ g.size := by
  obtain ⟨first, rest, rfl⟩ := List.exists_cons_of_ne_nil hne
  obtain ⟨maxSize, hrun, hlargest, g, hg, hmax⟩ := @selectSubgraph_eq first rest
  constructor
  · rintro ⟨r, g', hr, hget, hall⟩
    rw [hrun] at hr
    obtain rfl := Except.ok.inj hr
    refine ⟨_, ?_, g', hget, hall⟩
    dsimp only
    split_ifs <;> omega
  · rintro ⟨i, hi, g', hget, hall⟩
    have hsize : g'.size = maxSize := by
      have hle := hlargest g' (List.mem_of_getElem? hget)
      have hge := hall g hg
      omega
    by_cases hfirst : maxSize = first.size
    · rw [if_pos hfirst] at hrun
      exact ⟨_, first, hrun, rfl, fun h hh => hfirst ▸ hlargest h hh⟩
    · rw [if_neg hfirst] at hrun
      have hone : i = 1 := by
        by_contra hne
        obtain rfl : i = 0 := by omega
        obtain rfl : first = g' := Option.some.inj hget
        exact hfirst hsize.symm
      rw [hone] at hget
      exact ⟨_, g', hrun, hget, hall⟩

/-- Two subgraphs, the second the larger one. -/
theorem selectsLargest_iff_two : SelectsLargest [⟨[0], by decide⟩, ⟨[1, 2], by decide⟩] :=
  (selectsLargest_iff (by decide)).mpr ⟨1, le_refl 1, ⟨[1, 2], by decide⟩, rfl, by decide⟩

/-- Three subgraphs, of which the last is the largest. -/
theorem largest_not_selected : selectSubgraph
    [⟨[0], by decide⟩, ⟨[1, 2], by decide⟩, ⟨[3, 4, 5], by decide⟩] = .ok { selectedGraph := 1, continueSelect := true } ∧
      ¬SelectsLargest [⟨[0], by decide⟩, ⟨[1, 2], by decide⟩, ⟨[3, 4, 5], by decide⟩] := by
  refine ⟨rfl, ?_⟩
  rintro ⟨r, g, hr, hget, hall⟩
  obtain rfl := Except.ok.inj (show Except.ok _ = Except.ok r from hr)
  obtain rfl := Option.some.inj (show some _ = some g from hget)
  exact absurd (hall ⟨[3, 4, 5], by decide⟩ (by decide)) (by decide)

/-! ### The order -/

structure SubgraphDesc where
  /-- `none` is `static_cast<std::size_t>(-1)`. -/
  topoIndex : Option Nat := none
  dependsOn : List Nat := []

/-- The first other subgraph that contains the layer. -/
def ownerOf (subgraphs : List LayersSet) (i : Nat) (prevLayer : CNNLayerPtr) : Option Nat :=
  (List.range subgraphs.length).find? fun j => i ≠ j ∧ (subgraphs[j]?).any fun g => prevLayer ∈ g.layers

/-- What an input of a layer adds to `descs[i].dependsOn`. -/
def insertDependency (n : ICNNNetwork) (subgraphs : List LayersSet) (i : Nat) (dependsOn : List Nat) :
    Option DataPtr → Result (List Nat)
  | none => .error (.undefinedBehaviour "data->getCreatorLayer()")
  | some data =>
    match (n.getCreatorLayer data).bind (ownerOf subgraphs i) with
    | some j => return if j ∈ dependsOn then dependsOn else dependsOn ++ [j]
    | none => return dependsOn

/-- `descs[i]`, after its inputs have been looked at. -/
def describe (n : ICNNNetwork) (subgraphs : List LayersSet) (i : Nat) (subgraph : LayersSet) : Result SubgraphDesc := do
  let dependsOn ← subgraph.layers.foldlM (fun deps layer =>
    (n.insData layer).foldlM (insertDependency n subgraphs i) deps) []
  return { dependsOn }

structure TopoState where
  subgraphs : List SubgraphDesc
  topoIndex : Nat := 0

/-- `topoVisitSubgraph(subgraphs, subgraphs[i], topoIndex)`; `iterate` is the order in which a set of dependencies is
iterated, and the recursion has at most `fuel` levels. -/
def topoVisitSubgraph (iterate : List Nat → List Nat) : Nat → TopoState → Nat → Result TopoState
  | 0, _, _ => .error .outOfFuel
  | fuel + 1, s, i => do
    let subgraph ← elemAt "subgraphs[dep]" s.subgraphs i
    if subgraph.topoIndex ≠ none then return s
    else do
      let s ← (iterate subgraph.dependsOn).foldlM (topoVisitSubgraph iterate fuel) s
      return {
        subgraphs := s.subgraphs.modify i fun subgraph => { subgraph with topoIndex := some s.topoIndex }
        topoIndex := s.topoIndex + 1 }

/-- `ret[topoIndex] = std::move(subgraphs[i])`. -/
def placeSubgraph (descs : List SubgraphDesc) (subgraphs ret : List LayersSet) (i : Nat) : Result (List LayersSet) := do
  let desc ← elemAt "descs[i]" descs i
  let subgraph ← elemAt "subgraphs[i]" subgraphs i
  match desc.topoIndex with
  | some topoIndex =>
    if topoIndex < ret.length then return ret.set topoIndex subgraph else .error (.undefinedBehaviour "ret[topoIndex]")
  | none => .error (.undefinedBehaviour "ret[topoIndex]")

def sortSubgraphs (n : ICNNNetwork) (iterate : List Nat → List Nat) (fuel : Nat) (subgraphs : List LayersSet) :
    Result (List LayersSet) := do
  let descs ← subgraphs.zipIdx.mapM fun s => describe n subgraphs s.2 s.1
  let s ← (List.range descs.length).foldlM (topoVisitSubgraph iterate fuel) { subgraphs := descs }
  (List.range subgraphs.length).foldlM (placeSubgraph s.subgraphs subgraphs)
    (List.replicate subgraphs.length LayersSet.empty)

/-- A layer of the one consumes a `Data` of a layer of the other. -/
def Depends (n : ICNNNetwork) (g g' : LayersSet) : Prop :=
  ∃ layer ∈ g.layers, ∃ data prevLayer, some data ∈ n.insData layer ∧ n.getCreatorLayer data = some prevLayer ∧
    prevLayer ∈ g'.layers

/-! ### The dependencies -/

section Dependencies

variable {n : ICNNNetwork} {subgraphs : List LayersSet} {g g' : LayersSet} {i j : Nat} {layer : CNNLayerPtr} {data : DataPtr}

/-- The subgraph `i` depends on the subgraph `j`. -/
def DependsAt (n : ICNNNetwork) (subgraphs : List LayersSet) (i j : Nat) : Prop :=
  ∃ g g', subgraphs[i]? = some g ∧ subgraphs[j]? = some g' ∧ i ≠ j ∧ Depends n g g'

/-- The input leads to a layer of the subgraph `j`. -/
def LeadsTo (n : ICNNNetwork) (subgraphs : List LayersSet) (i j : Nat) (input : Option DataPtr) : Prop :=
  ∃ data prevLayer g', input = some data ∧ n.getCreatorLayer data = some prevLayer ∧ i ≠ j ∧
    subgraphs[j]? = some g' ∧ prevLayer ∈ g'.layers

theorem ownerOf_eq_some_iff (hdisjoint : subgraphs.Pairwise fun g g' => List.Disjoint g.layers g'.layers)
    {prevLayer : CNNLayerPtr} : ownerOf subgraphs i prevLayer = some j ↔
      i ≠ j ∧ ∃ g', subgraphs[j]? = some g' ∧ prevLayer ∈ g'.layers := by
  have hany : ∀ k : Nat, ((subgraphs[k]?).any fun g => prevLayer ∈ g.layers) = true ↔
      ∃ g', subgraphs[k]? = some g' ∧ prevLayer ∈ g'.layers := by
    intro k
    cases subgraphs[k]? <;> simp
  -- no two subgraphs contain the layer
  have hunique : ∀ {k l : Nat} {h h' : LayersSet}, subgraphs[k]? = some h → subgraphs[l]? = some h' →
      prevLayer ∈ h.layers → prevLayer ∈ h'.layers → k = l := by
    intro k l h h' hk hl hmem hmem'
    obtain ⟨hklt, rfl⟩ := List.getElem?_eq_some_iff.mp hk
    obtain ⟨hllt, rfl⟩ := List.getElem?_eq_some_iff.mp hl
    rcases lt_trichotomy k l with hlt | heq | hgt
    · exact absurd hmem' (List.pairwise_iff_getElem.mp hdisjoint k l hklt hllt hlt hmem)
    · exact heq
    · exact absurd hmem (List.pairwise_iff_getElem.mp hdisjoint l k hllt hklt hgt hmem')
  unfold ownerOf
  constructor
  · intro hfind
    have hp := List.find?_some hfind
    rw [decide_eq_true_iff, hany] at hp
    exact hp
  · rintro ⟨hne, g', hget, hmem⟩
    have hlt := (List.getElem?_eq_some_iff.mp hget).1
    cases hfind : (List.range subgraphs.length).find? fun j => i ≠ j ∧ (subgraphs[j]?).any fun g => prevLayer ∈ g.layers with
    | none =>
      have hnone := List.find?_eq_none.mp hfind j (List.mem_range.mpr hlt)
      rw [decide_eq_true_iff, hany] at hnone
      exact absurd ⟨hne, g', hget, hmem⟩ hnone
    | some k =>
      have hp := List.find?_some hfind
      rw [decide_eq_true_iff, hany] at hp
      obtain ⟨-, h, hk, hmemk⟩ := hp
      rw [hunique hk hget hmemk hmem]

theorem insertDependency_eq (hdisjoint : subgraphs.Pairwise fun g g' => List.Disjoint g.layers g'.layers)
    {deps : List Nat} {input : Option DataPtr} (hinput : input ≠ none) : ∃ deps',
      insertDependency n subgraphs i deps input = .ok deps' ∧
        ∀ j, j ∈ deps' ↔ j ∈ deps ∨ LeadsTo n subgraphs i j input := by
  obtain ⟨data, rfl⟩ := Option.ne_none_iff_exists'.mp hinput
  have hleads : ∀ j, LeadsTo n subgraphs i j (some data) ↔
      (n.getCreatorLayer data).bind (ownerOf subgraphs i) = some j := by
    intro j
    simp only [Option.bind_eq_some_iff, ownerOf_eq_some_iff hdisjoint]
    constructor
    · rintro ⟨d, prevLayer, g', hd, hcreator, hne, hget, hmem⟩
      obtain rfl := Option.some.inj hd
      exact ⟨prevLayer, hcreator, hne, g', hget, hmem⟩
    · rintro ⟨prevLayer, hcreator, hne, g', hget, hmem⟩
      exact ⟨data, prevLayer, g', rfl, hcreator, hne, hget, hmem⟩
  simp only [hleads]
  unfold insertDependency
  dsimp only
  cases (n.getCreatorLayer data).bind (ownerOf subgraphs i) with
  | none => exact ⟨deps, rfl, fun j => by simp⟩
  | some k =>
    refine ⟨_, rfl, fun j => ?_⟩
    split_ifs with hmem
    · simp only [Option.some.injEq]
      exact ⟨.inl, fun h => h.elim id fun heq => heq ▸ hmem⟩
    · rw [List.mem_append, List.mem_singleton, Option.some.injEq, eq_comm]

theorem describe_eq (hdisjoint : subgraphs.Pairwise fun g g' => List.Disjoint g.layers g'.layers)
    (hlive : ∀ layer ∈ g.layers, none ∉ n.insData layer) (hget : subgraphs[i]? = some g) : ∃ deps,
      describe n subgraphs i g = .ok { dependsOn := deps } ∧ ∀ j, j ∈ deps ↔ DependsAt n subgraphs i j := by
  have hlayer : ∀ layer ∈ g.layers, ∀ deps, ∃ deps',
      (n.insData layer).foldlM (insertDependency n subgraphs i) deps = .ok deps' ∧
        ∀ j, j ∈ deps' ↔ j ∈ deps ∨ ∃ input ∈ n.insData layer, LeadsTo n subgraphs i j input := by
    intro layer hlayer deps
    refine exists_foldlM_ok (I := fun pre deps' => ∀ j, j ∈ deps' ↔ j ∈ deps ∨ ∃ input ∈ pre, LeadsTo n subgraphs i j input)
      (fun j => by simp) fun pre input post b hl hb => ?_
    have hinput : input ≠ none := by
      rintro rfl
      apply hlive layer hlayer
      rw [hl]
      exact List.mem_append_right _ List.mem_cons_self
    obtain ⟨b', hb', hmem⟩ := insertDependency_eq (n := n) hdisjoint hinput
    refine ⟨b', hb', fun j => ?_⟩
    rw [hmem, hb]
    simp only [List.mem_append, List.mem_singleton, or_and_right, exists_or, exists_eq_left, or_assoc]
  obtain ⟨deps, hrun, hdeps⟩ := exists_foldlM_ok (f := fun deps layer =>
      (n.insData layer).foldlM (insertDependency n subgraphs i) deps)
    (I := fun pre deps => ∀ j, j ∈ deps ↔ ∃ layer ∈ pre, ∃ input ∈ n.insData layer, LeadsTo n subgraphs i j input)
    (l := g.layers) (b := []) (fun j => by simp) fun pre layer post b hl hb => by
      obtain ⟨b', hb', hmem⟩ := hlayer layer (by rw [hl]; exact List.mem_append_right _ List.mem_cons_self) b
      refine ⟨b', hb', fun j => ?_⟩
      rw [hmem, hb]
      simp only [List.mem_append, List.mem_singleton, or_and_right, exists_or, exists_eq_left]
  refine ⟨deps, ?_, fun j => ?_⟩
  · rw [describe, hrun, ok_bind]
    rfl
  · rw [hdeps]
    constructor
    · rintro ⟨layer, hlayer, input, hinput, data, prevLayer, g', rfl, hcreator, hne, hget', hmem⟩
      exact ⟨g, g', hget, hget', hne, layer, hlayer, data, prevLayer, hinput, hcreator, hmem⟩
    · rintro ⟨h, g', hget', hgetj, hne, layer, hlayer, data, prevLayer, hinput, hcreator, hmem⟩
      obtain rfl := Option.some.inj (hget.symm.trans hget')
      exact ⟨layer, hlayer, some data, hinput, data, prevLayer, g', rfl, hcreator, hne, hgetj, hmem⟩

end Dependencies

/-! ### The search -/

section Search

variable {iterate : List Nat → List Nat} {next : Nat → List Nat} {N fuel i : Nat} {s : TopoState} {order gray : List Nat}

/-- The subgraphs in `order`, the last one first, have their numbers. -/
structure Numbered (iterate : List Nat → List Nat) (next : Nat → List Nat) (N : Nat) (s : TopoState)
    (order : List Nat) : Prop where
  count : s.topoIndex = order.length
  length : s.subgraphs.length = N
  mem : ∀ i ∈ order, i < N
  next : ∀ i desc, s.subgraphs[i]? = some desc → iterate desc.dependsOn = next i
  index : ∀ i desc, s.subgraphs[i]? = some desc → ∀ k : Nat, desc.topoIndex = some k ↔ order.reverse[k]? = some i

theorem Numbered.topoIndex_ne_none {desc : SubgraphDesc}
    (h : Numbered iterate next N s order) (hdesc : s.subgraphs[i]? = some desc) :
    desc.topoIndex ≠ none ↔ i ∈ order := by
  constructor
  · intro hne
    obtain ⟨k, hk⟩ := Option.ne_none_iff_exists'.mp hne
    exact List.mem_reverse.mp (List.mem_of_getElem? ((h.index i desc hdesc k).mp hk))
  · intro hmem
    obtain ⟨k, hk⟩ := List.mem_iff_getElem?.mp (List.mem_reverse.mpr hmem)
    rw [(h.index i desc hdesc k).mpr hk]
    exact Option.some_ne_none k

/-- The next number goes to a subgraph without one. -/
theorem Numbered.cons (h : Numbered iterate next N s order) (hi : i < N)
    (hnot : i ∉ order) : Numbered iterate next N {
      subgraphs := s.subgraphs.modify i fun subgraph => { subgraph with topoIndex := some s.topoIndex }
      topoIndex := s.topoIndex + 1 } (i :: order) := by
  refine ⟨by rw [h.count, List.length_cons], by rw [List.length_modify, h.length], ?_, ?_, ?_⟩
  · exact List.forall_mem_cons.mpr ⟨hi, h.mem⟩
  · intro j desc hdesc
    rw [List.getElem?_modify] at hdesc
    obtain ⟨old, hold, rfl⟩ := Option.map_eq_some_iff.mp hdesc
    split_ifs <;> exact h.next j old hold
  · intro j desc hdesc k
    rw [List.getElem?_modify] at hdesc
    obtain ⟨old, hold, rfl⟩ := Option.map_eq_some_iff.mp hdesc
    rw [List.reverse_cons]
    by_cases hij : i = j
    · subst hij
      rw [if_pos rfl, Option.some.injEq, h.count]
      constructor
      · rintro rfl
        rw [← List.length_reverse, List.getElem?_concat_length]
      · intro hk
        rcases lt_or_ge k order.reverse.length with hlt | hge
        · rw [List.getElem?_append_left hlt] at hk
          exact absurd (List.mem_reverse.mp (List.mem_of_getElem? hk)) hnot
        · have hlt := (List.getElem?_eq_some_iff.mp hk).1
          rw [List.length_append, List.length_singleton] at hlt
          rw [List.length_reverse] at hlt hge
          omega
    · rw [if_neg hij, h.index j old hold]
      rcases lt_or_ge k order.reverse.length with hlt | hge
      · rw [List.getElem?_append_left hlt]
      · rw [List.getElem?_eq_none hge, List.getElem?_append_right hge]
        constructor
        · intro hcon
          cases hcon
        · intro hcon
          exact absurd (List.mem_singleton.mp (List.mem_of_getElem? hcon)).symm hij

/-- The search comes back, with every subgraph behind its dependencies. -/
theorem topoVisitSubgraph_visits {rank : Nat → Nat}
    (hrank : ∀ u < N, ∀ v ∈ next u, rank v < rank u) (hclosed : ∀ u < N, ∀ v ∈ next u, v < N)
    (hs : Numbered iterate next N s order) (hi : i < N) (hfuel : rank i < fuel) (hgray : ∀ u ∈ gray, rank i < rank u) :
    ∃ s' order', topoVisitSubgraph iterate fuel s i = .ok s' ∧ Visits next gray [i] order order' ∧
      Numbered iterate next N s' order' := by
  induction fuel generalizing s order i gray with
  | zero => exact absurd hfuel (Nat.not_lt_zero _)
  | succ fuel ih =>
    have hlt : i < s.subgraphs.length := by rwa [hs.length]
    have hdesc : s.subgraphs[i]? = some s.subgraphs[i] := List.getElem?_eq_getElem hlt
    unfold topoVisitSubgraph
    rw [elemAt_eq hlt, ok_bind]
    by_cases hmem : i ∈ order
    · rw [if_pos ((hs.topoIndex_ne_none hdesc).mpr hmem)]
      exact ⟨s, order, rfl, .skip hmem .done, hs⟩
    · rw [if_neg fun hne => hmem ((hs.topoIndex_ne_none hdesc).mp hne), hs.next i _ hdesc]
      have hchildren : ∃ t order', (next i).foldlM (topoVisitSubgraph iterate fuel) s = .ok t ∧
          Visits next (i :: gray) (next i) order order' ∧ Numbered iterate next N t order' :=
        Visits.foldlM_related (Numbered iterate next N) (fun t order v hv ht => by
          have hlt := hrank i hi v hv
          refine ih ht (hclosed i hi v hv) (by omega) ?_
          exact List.forall_mem_cons.mpr ⟨hlt, fun u hu => hlt.trans (hgray u hu)⟩) hs
      obtain ⟨t, order₁, hrun, hvisits, ht⟩ := hchildren
      have hnot : i ∉ order₁ := hvisits.gray_not_mem List.mem_cons_self hmem
      rw [hrun, ok_bind]
      refine ⟨_, i :: order₁, rfl, .visit hmem (fun hg => lt_irrefl _ (hgray i hg)) hvisits .done, ht.cons hi hnot⟩

/-- All subgraphs have a place. -/
theorem Numbered.perm_range (hs : Numbered iterate next N s order) (hnodup : order.Nodup) (hall : ∀ i < N, i ∈ order) :
    order.reverse.Perm (List.range N) := by
  rw [List.perm_ext_iff_of_nodup (List.nodup_reverse.mpr hnodup) List.nodup_range]
  intro i
  rw [List.mem_reverse, List.mem_range]
  exact ⟨hs.mem i, hall i⟩

/-- The subgraphs go to their places. -/
theorem Numbered.placeSubgraph_eq {subgraphs : List LayersSet} (hs : Numbered iterate next subgraphs.length s order)
    (hnodup : order.Nodup) (hall : ∀ i < subgraphs.length, i ∈ order) :
    (List.range subgraphs.length).foldlM (placeSubgraph s.subgraphs subgraphs)
      (List.replicate subgraphs.length LayersSet.empty) =
        .ok (order.reverse.map fun i => subgraphs.getD i LayersSet.empty) := by
  have hlength : order.reverse.length = subgraphs.length := by
    rw [(hs.perm_range hnodup hall).length_eq, List.length_range]
  obtain ⟨ret, hrun, hret, hplaced⟩ := exists_range_ok (f := placeSubgraph s.subgraphs subgraphs)
    (I := fun m (ret : List LayersSet) => ret.length = subgraphs.length ∧ ∀ i < m, ∀ k : Nat,
      order.reverse[k]? = some i → ret[k]? = subgraphs[i]?) (n := subgraphs.length)
    (s := List.replicate subgraphs.length LayersSet.empty)
    ⟨List.length_replicate, fun i hi => absurd hi i.not_lt_zero⟩ fun i hi ret ⟨hret, hplaced⟩ => by
      have hlt : i < s.subgraphs.length := by rwa [hs.length]
      obtain ⟨k, hk⟩ := List.mem_iff_getElem?.mp (List.mem_reverse.mpr (hall i hi))
      have hindex := (hs.index i _ (List.getElem?_eq_getElem hlt) k).mpr hk
      have hkret : k < ret.length := by
        rw [hret, ← hlength]
        exact (List.getElem?_eq_some_iff.mp hk).1
      refine ⟨ret.set k subgraphs[i], ?_, by rw [List.length_set, hret], fun j hj l hl => ?_⟩
      · rw [placeSubgraph, elemAt_eq hlt, ok_bind, elemAt_eq hi, ok_bind, hindex]
        exact if_pos hkret
      · rcases Nat.lt_succ_iff_lt_or_eq.mp hj with hj | rfl
        · have hne : k ≠ l := by
            rintro rfl
            rw [hk] at hl
            exact hj.ne (Option.some.inj hl).symm
          rw [List.getElem?_set_ne hne]
          exact hplaced j hj l hl
        · obtain rfl : k = l := by
            have hkl := (hs.index j _ (List.getElem?_eq_getElem hlt) l).mpr hl
            exact Option.some.inj (hindex.symm.trans hkl)
          rw [List.getElem?_set_self hkret, List.getElem?_eq_getElem hi]
  rw [hrun]
  refine congrArg Except.ok (List.ext_getElem (by rw [hret, List.length_map, hlength]) fun k hk hk' => ?_)
  rw [List.length_map] at hk'
  have hi : order.reverse[k] < subgraphs.length := hs.mem _ (List.mem_reverse.mp (List.getElem_mem hk'))
  have hplace := hplaced _ hi k (List.getElem?_eq_getElem hk')
  rw [List.getElem?_eq_getElem hk, List.getElem?_eq_getElem hi] at hplace
  rw [List.getElem_map, List.getD_eq_getElem _ _ hi]
  exact Option.some.inj hplace

end Search

/-! ### The result -/

/-- The layers are distributed over the subgraphs. -/
structure Partition (subgraphs : List LayersSet) : Prop where
  nonempty : ∀ g ∈ subgraphs, g.layers ≠ []
  disjoint : subgraphs.Pairwise fun g g' => List.Disjoint g.layers g'.layers

/-- A subgraph depends on another one. -/
def DependsOther (n : ICNNNetwork) (subgraphs : List LayersSet) (g g' : LayersSet) : Prop :=
  g ∈ subgraphs ∧ g' ∈ subgraphs ∧ g ≠ g' ∧ Depends n g g'

section Sorted

variable {n : ICNNNetwork} {iterate : List Nat → List Nat} {fuel : Nat} {subgraphs : List LayersSet}

theorem Partition.getElem_ne (h : Partition subgraphs) {i j : Nat} {g g' : LayersSet} (hi : subgraphs[i]? = some g)
    (hj : subgraphs[j]? = some g') (hne : i ≠ j) : g ≠ g' := by
  rintro rfl
  obtain ⟨layer, hlayer⟩ := List.exists_mem_of_ne_nil _ (h.nonempty g (List.mem_of_getElem? hi))
  obtain ⟨hilt, hi⟩ := List.getElem?_eq_some_iff.mp hi
  obtain ⟨hjlt, hj⟩ := List.getElem?_eq_some_iff.mp hj
  rcases lt_or_gt_of_ne hne with hlt | hgt
  · have hdisjoint := List.pairwise_iff_getElem.mp h.disjoint i j hilt hjlt hlt
    rw [hi, hj] at hdisjoint
    exact hdisjoint hlayer hlayer
  · have hdisjoint := List.pairwise_iff_getElem.mp h.disjoint j i hjlt hilt hgt
    rw [hi, hj] at hdisjoint
    exact hdisjoint hlayer hlayer

/-- The descriptions of all subgraphs. -/
theorem exists_descs (hpartition : Partition subgraphs)
    (hlive : ∀ g ∈ subgraphs, ∀ layer ∈ g.layers, none ∉ n.insData layer) : ∃ descs,
      (subgraphs.zipIdx.mapM fun s => describe n subgraphs s.2 s.1) = .ok descs ∧ descs.length = subgraphs.length ∧
        ∀ i desc, descs[i]? = some desc → desc.topoIndex = none ∧
          ∀ j, j ∈ desc.dependsOn ↔ DependsAt n subgraphs i j := by
  have hdescribe : ∀ s ∈ subgraphs.zipIdx, ∃ deps, describe n subgraphs s.2 s.1 = .ok { dependsOn := deps } ∧
      ∀ j, j ∈ deps ↔ DependsAt n subgraphs s.2 j := by
    intro s hs
    have hget : subgraphs[s.2]? = some s.1 := List.mem_zipIdx_iff_getElem?.mp hs
    exact describe_eq hpartition.disjoint (hlive _ (List.mem_of_getElem? hget)) hget
  obtain ⟨descs, hdescs⟩ := exists_mapM_ok fun s hs => by
    obtain ⟨deps, hrun, -⟩ := hdescribe s hs
    exact ⟨_, hrun⟩
  have hpairs := mapM_ok_iff.mp hdescs
  have hlength := hpairs.length_eq
  rw [List.length_zipIdx] at hlength
  refine ⟨descs, hdescs, hlength.symm, fun i desc hdesc => ?_⟩
  obtain ⟨hi, rfl⟩ := List.getElem?_eq_some_iff.mp hdesc
  have hi' : i < subgraphs.zipIdx.length := by
    rw [List.length_zipIdx]
    omega
  have hround := (List.forall₂_iff_get.mp hpairs).2 i hi' hi
  obtain ⟨deps, hrun, hdeps⟩ := hdescribe _ (List.getElem_mem hi')
  rw [List.get_eq_getElem, List.get_eq_getElem, hrun] at hround
  rw [List.getElem_zipIdx, Nat.zero_add] at hdeps
  rw [← Except.ok.inj hround]
  exact ⟨rfl, hdeps⟩

/-- A circle of indices is one of subgraphs. -/
theorem acyclic_indices (hpartition : Partition subgraphs)
    (hacyclic : ∀ g, ¬TransGen (DependsOther n subgraphs) g g) (i : Nat) : ¬TransGen (DependsAt n subgraphs) i i := by
  intro hcycle
  refine hacyclic (subgraphs.getD i LayersSet.empty) (hcycle.lift (subgraphs.getD · LayersSet.empty) ?_)
  rintro a b ⟨g, g', hg, hg', hne, hdepends⟩
  have hget : ∀ {k : Nat} {h : LayersSet}, subgraphs[k]? = some h → subgraphs.getD k LayersSet.empty = h := by
    intro k h hk
    rw [List.getD_eq_getElem?_getD, hk, Option.getD_some]
  rw [Function.onFun, hget hg, hget hg']
  exact ⟨List.mem_of_getElem? hg, List.mem_of_getElem? hg', hpartition.getElem_ne hg hg' hne, hdepends⟩

/-- **The order of the subgraphs.** Without a circle of dependencies the search ends, and the result has every subgraph
behind those that it depends on. -/
theorem sortSubgraphs_topological (hpartition : Partition subgraphs)
    (hlive : ∀ g ∈ subgraphs, ∀ layer ∈ g.layers, none ∉ n.insData layer)
    (hacyclic : ∀ g, ¬TransGen (DependsOther n subgraphs) g g) (hiterate : ∀ l, (iterate l).Perm l)
    (hfuel : subgraphs.length ≤ fuel) : ∃ sorted, sortSubgraphs n iterate fuel subgraphs = .ok sorted ∧
      sorted.Perm subgraphs ∧ sorted.Pairwise fun g g' => ¬Depends n g g' := by
  obtain ⟨descs, hdescs, hlength, hentry⟩ := exists_descs hpartition hlive
  set next : Nat → List Nat := fun i => iterate ((descs[i]?).elim [] SubgraphDesc.dependsOn)
  have hnext : ∀ {i j}, j ∈ next i ↔ DependsAt n subgraphs i j := by
    intro i j
    rw [(hiterate _).mem_iff]
    cases hdesc : descs[i]? with
    | none =>
      have hge := List.getElem?_eq_none_iff.mp hdesc
      rw [Option.elim_none]
      constructor
      · exact fun hmem => absurd hmem List.not_mem_nil
      · rintro ⟨g, g', hg, -⟩
        have hlt := (List.getElem?_eq_some_iff.mp hg).1
        omega
    | some desc => exact (hentry i desc hdesc).2 j
  have hedge : Edge next = DependsAt n subgraphs := by
    funext i j
    exact propext hnext
  have hclosed : ∀ i < subgraphs.length, ∀ j ∈ next i, j < subgraphs.length := by
    intro i _ j hj
    obtain ⟨g, g', -, hget, -⟩ := hnext.mp hj
    exact (List.getElem?_eq_some_iff.mp hget).1
  have hacyc : ∀ i ∈ Finset.range subgraphs.length, ¬Relation.TransGen (Edge next) i i := by
    intro i _
    rw [hedge]
    exact acyclic_indices hpartition hacyclic i
  obtain ⟨rank, hrank⟩ := exists_rank (Finset.range subgraphs.length) hacyc
    fun i hi j hj => Finset.mem_range.mpr (hclosed i (Finset.mem_range.mp hi) j hj)
  simp only [Finset.mem_range, Finset.card_range] at hrank
  have hstart : Numbered iterate next subgraphs.length { subgraphs := descs } [] := by
    refine ⟨rfl, hlength, fun i hi => absurd hi List.not_mem_nil, fun i desc hdesc => ?_, fun i desc hdesc k => ?_⟩
    · show iterate desc.dependsOn = iterate ((descs[i]?).elim [] SubgraphDesc.dependsOn)
      rw [show descs[i]? = some desc from hdesc, Option.elim_some]
    · rw [(hentry i desc hdesc).1]
      simp
  have hloop : ∃ s order, (List.range descs.length).foldlM (topoVisitSubgraph iterate fuel)
      ({ subgraphs := descs } : TopoState) = .ok s ∧ Visits next [] (List.range descs.length) [] order ∧
        Numbered iterate next subgraphs.length s order :=
    Visits.foldlM_related (Numbered iterate next subgraphs.length) (fun t order i hi ht => by
      have hi : i < subgraphs.length := by
        rw [← hlength]
        exact List.mem_range.mp hi
      exact topoVisitSubgraph_visits (fun u hu => (hrank u hu).2) hclosed ht hi ((hrank i hi).1.trans_le hfuel)
        fun u hu => absurd hu List.not_mem_nil) hstart
  obtain ⟨s, order, hrun, hvisits, hs⟩ := hloop
  have htopological : Topological next order := hvisits.topological trivial
  have hall : ∀ i < subgraphs.length, i ∈ order := fun i hi => hvisits.mem (List.mem_range.mpr (by omega))
  have hplaced := hs.placeSubgraph_eq htopological.nodup hall
  refine ⟨order.reverse.map fun i => subgraphs.getD i LayersSet.empty, ?_, ?_, ?_⟩
  · rw [sortSubgraphs, hdescs, ok_bind, hrun, ok_bind]
    exact hplaced
  · have hperm := (hs.perm_range htopological.nodup hall).map fun i => subgraphs.getD i LayersSet.empty
    have hself : (List.range subgraphs.length).map (fun i => subgraphs.getD i LayersSet.empty) = subgraphs := by
      apply List.ext_getElem
      · rw [List.length_map, List.length_range]
      · intro i hi hi'
        rw [List.getElem_map, List.getElem_range, List.getD_eq_getElem _ _ hi']
    rwa [hself] at hperm
  · rw [List.pairwise_map, List.pairwise_reverse]
    have hboth := htopological.pairwise.and htopological.nodup
    refine hboth.imp_of_mem fun {a b} ha hb hab hdepends => hab.1 (hnext.mpr ?_)
    have hget : ∀ {k}, k ∈ order → subgraphs[k]? = some (subgraphs.getD k LayersSet.empty) := by
      intro k hk
      have hlt := hs.mem k hk
      rw [List.getD_eq_getElem _ _ hlt, List.getElem?_eq_getElem hlt]
    exact ⟨_, _, hget hb, hget ha, hab.2.symm, hdepends⟩

end Sorted

/-- A layer 0 with a consumer 1. -/
def producerConsumer : ICNNNetwork where
  layers := {0, 1}
  name := toString
  insData layer := if layer = 1 then [some 0] else []
  outData layer := if layer = 0 then [0] else []
  getInputTo data := if data = 0 then [some 1] else []
  getCreatorLayer data := if data = 0 then some 0 else none
  getInputsInfo := []
  inputTo_mem := by
    intro d l hl
    split_ifs at hl
    · rw [List.mem_singleton, Option.some.injEq] at hl
      rw [hl]
      decide
    · exact absurd hl List.not_mem_nil
  creator_mem := by
    intro d l hl
    split_ifs at hl
    rw [← Option.some.inj hl]
    decide

/-- The consumer's subgraph is the first in the list. -/
theorem sortSubgraphs_topological_producerConsumer : ∃ sorted,
    sortSubgraphs producerConsumer id 2 [⟨[1], by decide⟩, ⟨[0], by decide⟩] = .ok sorted ∧
      sorted.Perm [⟨[1], by decide⟩, ⟨[0], by decide⟩] ∧ sorted.Pairwise fun g g' => ¬Depends producerConsumer g g' := by
  refine sortSubgraphs_topological ⟨by decide, List.pairwise_pair.mpr (by simp)⟩ (by decide) (fun g hcycle => ?_) List.Perm.refl (le_refl 2)
  have hstep : ∀ {g g'}, DependsOther producerConsumer [⟨[1], by decide⟩, ⟨[0], by decide⟩] g g' →
      1 ∈ g.layers ∧ 0 ∈ g'.layers ∧ 1 ∉ g'.layers := by
    rintro g g' ⟨-, hg', -, layer, hlayer, data, prevLayer, hdata, hcreator, hmem⟩
    have hone : layer = 1 := by
      by_contra hne
      rw [show producerConsumer.insData layer = [] from if_neg hne] at hdata
      exact absurd hdata List.not_mem_nil
    have hzero : prevLayer = 0 := by
      by_cases hd : data = 0
      · rw [show producerConsumer.getCreatorLayer data = some 0 from if_pos hd] at hcreator
        exact (Option.some.inj hcreator).symm
      · rw [show producerConsumer.getCreatorLayer data = none from if_neg hd] at hcreator
        cases hcreator
    subst hone hzero
    refine ⟨hlayer, hmem, ?_⟩
    rcases List.mem_cons.mp hg' with rfl | hg'
    · exact absurd hmem (by decide)
    · rw [List.mem_singleton.mp hg']
      decide
  obtain ⟨g', hfirst, hrest⟩ := TransGen.head'_iff.mp hcycle
  obtain ⟨hone, -, hnot⟩ := hstep hfirst
  rcases ReflTransGen.cases_head hrest with rfl | ⟨g'', hsecond, -⟩
  · exact hnot hone
  · exact hnot (hstep hsecond).1

end OpenVino.HeteroPlugin
