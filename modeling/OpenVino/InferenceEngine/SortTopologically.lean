import OpenVino.InferenceEngine.InputLayers

/-!
# The topological sort of a `CNNNetwork`

`CNNNetSortTopologically` is the search `Marks.forest` from the input layers (`forestDFS_agrees`); that nothing
leads to an input layer is what makes the missing look at a head's mark do no harm. `sortCorrect_of_consistent`:
it throws exactly when an input layer leads to a cycle, and else returns what the input layers lead to, each
layer once and producers first. An input layer is one without input `Data`: a layer that reads a network input
without a creator, and what only such layers lead to, are left out (`input_left_out`).
-/

namespace OpenVino.InferenceEngine.ICNNNetwork

open Relation

variable {n : ICNNNetwork} {s : Marks CNNLayerPtr} {fuel : Nat} {u v l : CNNLayerPtr}

/-- `p` is the producer and `c` a consumer of the same `Data`. -/
def Feeds (n : ICNNNetwork) (p c : CNNLayerPtr) : Prop := ∃ d ∈ n.outData p, some d ∈ n.insData c

def InputsReachCycle (n : ICNNNetwork) : Prop :=
  ∃ head, n.InputLayer head ∧ ∃ u, ReflTransGen n.Feeds head u ∧ TransGen n.Feeds u u

/-- The layers that the input layers lead to, each once, the producer of a `Data` before its consumers. -/
structure SortedFromInputs (n : ICNNNetwork) (sorted : List CNNLayerPtr) : Prop where
  nodup : sorted.Nodup
  mem_iff : ∀ l, l ∈ sorted ↔ ∃ head, n.InputLayer head ∧ ReflTransGen n.Feeds head l
  before : ∀ p c, p ∈ sorted → n.Feeds p c → sorted.idxOf p < sorted.idxOf c

def loopMessage : String := "Sorting not possible, due to existed loop."

/-- The sort throws exactly when an input layer leads to a cycle, and else sorts what the input layers lead to. -/
def SortCorrect (n : ICNNNetwork) : Prop :=
  n.InputsReachCycle ∧ n.CNNNetSortTopologically = throwException loopMessage ∨
    ¬ n.InputsReachCycle ∧ ∃ sorted, n.CNNNetSortTopologically = .ok sorted ∧ n.SortedFromInputs sorted

/-! ### The search -/

def nextLayers (n : ICNNNetwork) (l : CNNLayerPtr) : List CNNLayerPtr := (n.outLayers l).filterMap id

theorem edge_nextLayers (hn : n.Consistent) : Edge n.nextLayers = n.Feeds := by
  funext p c
  simp only [Edge, nextLayers, outLayers, List.mem_filterMap, id_eq, exists_eq_right, List.mem_flatMap,
    hn.consumers, Feeds]

def ofMarks (s : Marks CNNLayerPtr) : DfsState where
  visited := s.visited
  stackOfVisited := s.order

/-- What the search of the source does when the search on the layers has the result. -/
def Agrees : Except Stuck (Marks CNNLayerPtr) → Result (Bool × DfsState) → Prop
  | .ok s, r => r = .ok (true, ofMarks s)
  | .error .loop, r => ∃ s, r = .ok (false, s)
  | .error .outOfFuel, r => r = .error .outOfFuel

theorem Agrees.bind {x : Except Stuck (Marks CNNLayerPtr)} {r : Result (Bool × DfsState)}
    {f : Marks CNNLayerPtr → Except Stuck (Marks CNNLayerPtr)} {g : DfsState → Result (Bool × DfsState)}
    (h : Agrees x r) (hg : ∀ t, Agrees (f t) (g (ofMarks t))) :
    Agrees (x >>= f) (r >>= fun p => if p.1 then g p.2 else return (false, p.2)) := by
  rcases x with e | t
  · cases e with
    | loop =>
      obtain ⟨s, rfl⟩ := h
      exact ⟨s, rfl⟩
    | outOfFuel =>
      rw [Agrees] at h
      rw [h]
      rfl
  · rw [Agrees] at h
    rw [h]
    exact hg t

theorem visitOut_agrees {run : DfsState → Option CNNLayerPtr → Result (Bool × DfsState)}
    {run' : Marks CNNLayerPtr → CNNLayerPtr → Except Stuck (Marks CNNLayerPtr)}
    (hnull : ∀ s, run s none = .ok (true, s)) (hrun : ∀ s l, Agrees (run' s l) (run (ofMarks s) (some l)))
    (outLayers : List (Option CNNLayerPtr)) (s : Marks CNNLayerPtr) :
    Agrees ((outLayers.filterMap id).foldlM (Marks.step run') s) (visitOut run outLayers (ofMarks s)) := by
  induction outLayers generalizing s with
  | nil => rfl
  | cons outLayerPtr outLayers ih =>
    cases outLayerPtr with
    | none =>
      have hskip : visitOut run (none :: outLayers) (ofMarks s) = visitOut run outLayers (ofMarks s) := by
        rw [visitOut]
        simp only [Option.bind_none, hnull]
        rfl
      rw [hskip]
      exact ih s
    | some l =>
      have hvisited : (ofMarks s).visited = s.visited := rfl
      change Agrees (Marks.step run' s l >>= fun t => (outLayers.filterMap id).foldlM (Marks.step run') t) _
      rw [visitOut, Option.bind_some, hvisited, Marks.step]
      cases s.visited l with
      | none => exact (hrun s l).bind ih
      | some finished =>
        cases finished with
        | true => exact ih s
        | false => exact ⟨ofMarks s, rfl⟩

theorem DFS_null (fuel : Nat) (s : DfsState) : n.DFS fuel s none = .ok (true, s) := by
  unfold DFS
  rfl

theorem DFS_agrees (fuel : Nat) (s : Marks CNNLayerPtr) (l : CNNLayerPtr) :
    Agrees (Marks.search n.nextLayers fuel s l) (n.DFS fuel (ofMarks s) (some l)) := by
  induction fuel generalizing s l with
  | zero => rfl
  | succ fuel ih =>
    rw [DFS, Marks.search]
    have hloop := visitOut_agrees (DFS_null fuel) ih (n.outLayers l) (s.enter l)
    exact @Agrees.bind _ _ (fun t => .ok (t.leave l)) (fun s => .ok (true,
      { visited := Function.update s.visited l (some true)
        stackOfVisited := l :: s.stackOfVisited })) hloop fun t => rfl

theorem forestDFS_agrees (heads : List CNNLayerPtr) (s : Marks CNNLayerPtr) :
    Agrees (heads.foldlM (Marks.search n.nextLayers fuel) s) (n.CNNNetForestDFS fuel heads (ofMarks s)) := by
  induction heads generalizing s with
  | nil => rfl
  | cons head heads ih => exact (DFS_agrees fuel s head).bind ih

/-! ### The sort -/

theorem InputLayer.mem_layers (h : n.InputLayer l) : l ∈ n.layers := by
  obtain ⟨-, d, -, first, rest, hrest, hreach⟩ := h
  rcases hreach.cases_tail with rfl | ⟨u, -, hout | ⟨d', -, hcreator⟩⟩
  · exact n.inputTo_mem d l (hrest ▸ List.mem_cons_self)
  · obtain ⟨d', -, hd'⟩ := List.mem_flatMap.mp hout
    exact n.inputTo_mem d' l hd'
  · exact n.creator_mem d' l hcreator

theorem mem_layers_of_nextLayers {c : CNNLayerPtr} (hc : c ∈ n.nextLayers v) : c ∈ n.layers := by
  obtain ⟨o, ho, hoc⟩ := List.mem_filterMap.mp hc
  obtain ⟨d, -, hd⟩ := List.mem_flatMap.mp ho
  exact n.inputTo_mem d c (by rwa [← show o = some c from hoc])

theorem InputLayer.not_mem_nextLayers (hn : n.Consistent) (h : n.InputLayer l) : l ∉ n.nextLayers u := by
  intro hu
  have hfeeds : n.Feeds u l := edge_nextLayers hn ▸ (hu : Edge n.nextLayers u l)
  obtain ⟨d, -, hd⟩ := hfeeds
  rw [h.1] at hd
  exact absurd hd List.not_mem_nil

/-- **The sort is correct** from the input layers on. -/
theorem sortCorrect_of_consistent (hn : n.Consistent) : n.SortCorrect := by
  obtain ⟨heads, hheads, hnd, hmem⟩ := getAllInputLayers_ok hn
  have hclosed : ∀ v ∈ n.layers, ∀ c ∈ n.nextLayers v, c ∈ n.layers := fun v _ c => mem_layers_of_nextLayers
  have hroots : ∀ r ∈ heads, r ∈ n.layers ∧ ∀ u, r ∉ n.nextLayers u := fun r hr =>
    ⟨((hmem r).mp hr).mem_layers, fun u => ((hmem r).mp hr).not_mem_nextLayers hn⟩
  have hfuel : n.layers.card < n.layers.card + 1 := Nat.lt_succ_self _
  have hagrees :
      Agrees (heads.foldlM (Marks.search n.nextLayers (n.layers.card + 1)) {})
        (n.CNNNetForestDFS (n.layers.card + 1) heads (ofMarks {})) :=
    forestDFS_agrees heads {}
  have hcycle : (∃ r ∈ heads, Marks.Loops n.nextLayers r) ↔ n.InputsReachCycle := by
    simp only [Marks.Loops, InputsReachCycle, edge_nextLayers hn, hmem]
  have hloop := Marks.forest_loop_iff hclosed hfuel hnd hroots
  rw [hcycle] at hloop
  change Agrees (Marks.forest n.nextLayers _ heads) _ at hagrees
  have hsort : n.CNNNetSortTopologically = n.CNNNetForestDFS (n.layers.card + 1) heads (ofMarks {}) >>= fun p =>
      if p.1 then return p.2.stackOfVisited else throwException loopMessage := by
    unfold CNNNetSortTopologically
    rw [hheads]
    rfl
  rw [SortCorrect, hsort]
  rcases Marks.forest_ok_or_loop hclosed hfuel hnd hroots with ⟨s, hrun⟩ | hrun
  · rw [hrun] at hagrees hloop
    rw [Agrees] at hagrees
    rw [hagrees]
    have hmem_iff : ∀ l, l ∈ s.order ↔ ∃ head, n.InputLayer head ∧ ReflTransGen n.Feeds head l := by
      intro l
      rw [Marks.mem_forest_iff hclosed hfuel hnd hroots hrun, edge_nextLayers hn]
      simp only [hmem]
    have htopo := Marks.topological_forest hclosed hfuel hnd hroots hrun
    refine .inr ⟨fun hreach => (by cases hloop.mpr hreach), s.order, rfl, htopo.nodup, hmem_iff, fun p c hp hfeeds => ?_⟩
    have hedge : Edge n.nextLayers p c := by
      rw [edge_nextLayers hn]
      exact hfeeds
    exact htopo.idxOf_lt hp hedge
  · rw [hrun] at hagrees
    obtain ⟨s, hfalse⟩ := hagrees
    rw [hfalse]
    exact .inl ⟨hloop.mp hrun, rfl⟩

section Example

/-- The network of the edges `(Data, creator, consumers)` on the layers below `count`; a consumer is listed in the
order of the names. -/
def ofEdges (count : Nat) (edges : List (DataPtr × Option CNNLayerPtr × List CNNLayerPtr)) (inputs : List DataPtr)
    (hedges : ∀ e ∈ edges, (∀ l ∈ e.2.1, l < count) ∧ ∀ l ∈ e.2.2, l < count) : ICNNNetwork where
  layers := Finset.range count
  name l := toString l
  insData l := (edges.filter fun e => l ∈ e.2.2).map fun e => some e.1
  outData l := (edges.filter fun e => e.2.1 = some l).map Prod.fst
  getInputTo d := (edges.filter fun e => e.1 = d).flatMap fun e => e.2.2.map some
  getCreatorLayer d := (edges.find? fun e => e.1 = d).bind fun e => e.2.1
  getInputsInfo := inputs
  inputTo_mem d l hl := by
    obtain ⟨e, he, hel⟩ := List.mem_flatMap.mp hl
    obtain ⟨k, hk, hkl⟩ := List.mem_map.mp hel
    exact Finset.mem_range.mpr ((hedges e (List.mem_filter.mp he).1).2 l (Option.some_inj.mp hkl ▸ hk))
  creator_mem d l hl := by
    obtain ⟨e, he, hel⟩ := Option.bind_eq_some_iff.mp hl
    exact Finset.mem_range.mpr ((hedges e (List.mem_of_find?_eq_some he)).1 l hel)

theorem consistent_ofEdges {count : Nat} {edges : List (DataPtr × Option CNNLayerPtr × List CNNLayerPtr)}
    {inputs : List DataPtr} {hedges : ∀ e ∈ edges, (∀ l ∈ e.2.1, l < count) ∧ ∀ l ∈ e.2.2, l < count}
    (hnames : ∀ l < count, ∀ m < count, toString l = toString m → l = m) (hnd : (edges.map Prod.fst).Nodup) :
    (ofEdges count edges inputs hedges).Consistent := by
  refine ⟨fun l hl m hm => ?_, fun l => ?_, fun d l => ?_, fun d l => ?_⟩
  · exact hnames l (Finset.mem_range.mp hl) m (Finset.mem_range.mp hm)
  · simp [ofEdges]
  · simp only [ofEdges, List.mem_flatMap, List.mem_filter, decide_eq_true_eq, List.mem_map, Option.some.injEq,
      exists_eq_right]
    constructor
    · rintro ⟨e, ⟨he, rfl⟩, hel⟩
      exact ⟨e, ⟨he, hel⟩, rfl⟩
    · rintro ⟨e, ⟨he, hel⟩, rfl⟩
      exact ⟨e, ⟨he, rfl⟩, hel⟩
  · simp only [ofEdges, Option.bind_eq_some_iff, List.mem_map, List.mem_filter, decide_eq_true_eq]
    constructor
    · rintro ⟨e, he, hel⟩
      exact ⟨e, ⟨List.mem_of_find?_eq_some he, hel⟩, by simpa using List.find?_some he⟩
    · rintro ⟨e, ⟨he, hel⟩, rfl⟩
      have hsome : (edges.find? fun e' => e'.1 = e.1).isSome := by
        rw [List.find?_isSome]
        exact ⟨e, he, by simp⟩
      obtain ⟨e', hfind⟩ := Option.isSome_iff_exists.mp hsome
      have hkey : e'.1 = e.1 := by simpa using List.find?_some hfind
      have heq : e' = e := List.inj_on_of_nodup_map hnd (List.mem_of_find?_eq_some hfind) he hkey
      exact ⟨e', hfind, heq ▸ hel⟩

/-- An input whose `Data` two layers read, and a layer that reads them. -/
def diamond : ICNNNetwork :=
  ofEdges 4 [(10, some 0, [1, 2]), (11, some 1, [3]), (12, some 2, [3]), (13, some 3, [])] [10] (by decide)

theorem sortCorrect_diamond : diamond.SortCorrect :=
  sortCorrect_of_consistent (consistent_ofEdges (by decide +kernel) (by decide))

/-- Layer 2 reads the network input 13, which has no creator, and writes what layer 1 reads. -/
def detached : ICNNNetwork :=
  ofEdges 3 [(10, some 0, [1]), (12, some 2, [1]), (13, none, [2]), (11, some 1, [])] [10, 13] (by decide)

/-- Layer 2 is missing in the order. -/
theorem input_left_out : detached.Consistent ∧ detached.CNNNetSortTopologically = .ok [0, 1] ∧
    13 ∈ detached.getInputsInfo ∧ some 2 ∈ detached.getInputTo 13 ∧ detached.Feeds 2 1 := by
  refine ⟨consistent_ofEdges (by decide +kernel) (by decide), ?_, by decide, by decide, 12, by decide, by decide⟩
  decide +kernel

end Example

end OpenVino.InferenceEngine.ICNNNetwork
