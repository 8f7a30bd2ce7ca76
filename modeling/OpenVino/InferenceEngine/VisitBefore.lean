import OpenVino.InferenceEngine.SortTopologically

/-!
# The traversal with the visit first

`DFSBefore` visits a layer before the layers behind it. What it visits does not depend on what a visit does:
where the search with marks ends with an order, the traversal is one loop over a permutation of it
(`DFSBefore_eq`), and `forestBefore_eq` says so of the traversal from the input layers.
-/

namespace OpenVino.InferenceEngine.ICNNNetwork

open Relation

variable {σ : Type}

structure VisitState (σ : Type) where
  visited : CNNLayerPtr → Option Bool := fun _ => none
  state : σ

/-- The loop over the layers after one; `run` is the recursive call. -/
def visitOutBefore (run : VisitState σ → Option CNNLayerPtr → Result (Bool × VisitState σ)) :
    List (Option CNNLayerPtr) → VisitState σ → Result (Bool × VisitState σ)
  | [], s => return (true, s)
  | outLayerPtr :: outLayers, s =>
    match outLayerPtr.bind s.visited with
    | some true => visitOutBefore run outLayers s
    | some false => return (false, s)
    | none => do
      let (found, s) ← run s outLayerPtr
      if found then visitOutBefore run outLayers s else return (false, s)

/-- `DFS` with the visit before the layers behind. -/
def DFSBefore (n : ICNNNetwork) (visit : σ → CNNLayerPtr → Result σ) :
    Nat → VisitState σ → Option CNNLayerPtr → Result (Bool × VisitState σ)
  | _, s, none => return (true, s)
  | 0, _, some _ => .error .outOfFuel
  | fuel + 1, s, some layer => do
    let state ← visit s.state layer
    let s := { visited := Function.update s.visited layer (some false), state }
    let (found, s) ← visitOutBefore (n.DFSBefore visit fuel) (n.outLayers layer) s
    if found then return (true, { s with visited := Function.update s.visited layer (some true) })
    else return (false, s)

def CNNNetForestDFSBefore (n : ICNNNetwork) (visit : σ → CNNLayerPtr → Result σ) (fuel : Nat) :
    List CNNLayerPtr → VisitState σ → Result (Bool × VisitState σ)
  | [], s => return (true, s)
  | layer :: heads, s => do
    let (found, s) ← n.DFSBefore visit fuel s layer
    if found then n.CNNNetForestDFSBefore visit fuel heads s else return (false, s)

variable {n : ICNNNetwork} {visit : σ → CNNLayerPtr → Result σ} {fuel : Nat} {m m' : Marks CNNLayerPtr}

/-- A run that visits the layers that the search with marks finishes, and leaves the marks of the search. -/
def Traverses (visit : σ → CNNLayerPtr → Result σ) (m m' : Marks CNNLayerPtr)
    (run : VisitState σ → Result (Bool × VisitState σ)) : Prop :=
  ∃ pre : List CNNLayerPtr, m'.order.Perm (pre ++ m.order) ∧
    ∀ state, run ⟨m.visited, state⟩ = pre.foldlM visit state >>= fun state => .ok (true, ⟨m'.visited, state⟩)

theorem Traverses.done : Traverses visit m m fun s => return (true, s) := ⟨[], List.Perm.refl _, fun _ => rfl⟩

theorem Traverses.bind {m₁ : Marks CNNLayerPtr} {run run' : VisitState σ → Result (Bool × VisitState σ)}
    (h : Traverses visit m m₁ run) (h' : Traverses visit m₁ m' run') :
    Traverses visit m m' fun s => run s >>= fun p => if p.1 then run' p.2 else return (false, p.2) := by
  obtain ⟨pre, hperm, hrun⟩ := h
  obtain ⟨pre', hperm', hrun'⟩ := h'
  refine ⟨pre ++ pre', ?_, fun state => ?_⟩
  · rw [List.append_assoc]
    exact (hperm'.trans (hperm.append_left pre')).trans (List.perm_append_comm_assoc ..)
  · simp only [List.foldlM_append, hrun, bind_assoc, ok_bind, if_true, hrun']

/-- The loop over the layers after one, if the recursive call traverses what the search does. -/
theorem visitOutBefore_traverses {run : VisitState σ → Option CNNLayerPtr → Result (Bool × VisitState σ)}
    {run' : Marks CNNLayerPtr → CNNLayerPtr → Except Stuck (Marks CNNLayerPtr)}
    (hnull : ∀ s, run s none = .ok (true, s))
    (hrun : ∀ m m' l, run' m l = .ok m' → Traverses visit m m' fun s => run s (some l))
    {outLayers : List (Option CNNLayerPtr)} (hsearch : (outLayers.filterMap id).foldlM (Marks.step run') m = .ok m') :
    Traverses visit m m' (visitOutBefore run outLayers) := by
  induction outLayers generalizing m with
  | nil =>
    obtain rfl := Except.ok.inj hsearch
    exact .done
  | cons outLayerPtr outLayers ih =>
    cases outLayerPtr with
    | none =>
      obtain ⟨pre, hperm, hpre⟩ := ih hsearch
      refine ⟨pre, hperm, fun state => ?_⟩
      rw [visitOutBefore, ← hpre]
      simp only [Option.bind_none, hnull]
      rfl
    | some l =>
      change (Marks.step run' m l >>= fun t => (outLayers.filterMap id).foldlM (Marks.step run') t) = .ok m' at hsearch
      rw [Marks.step] at hsearch
      cases hmark : m.visited l with
      | none =>
        rw [hmark] at hsearch
        cases hfirst : run' m l with
        | error e =>
          rw [hfirst] at hsearch
          cases hsearch
        | ok m₁ =>
          rw [hfirst] at hsearch
          obtain ⟨pre, hperm, hpre⟩ := (hrun m m₁ l hfirst).bind (ih hsearch)
          refine ⟨pre, hperm, fun state => ?_⟩
          rw [visitOutBefore, ← hpre]
          simp only [Option.bind_some, hmark]
      | some finished =>
        rw [hmark] at hsearch
        cases finished with
        | false => cases hsearch
        | true =>
          obtain ⟨pre, hperm, hpre⟩ := ih hsearch
          refine ⟨pre, hperm, fun state => ?_⟩
          rw [visitOutBefore, ← hpre]
          simp only [Option.bind_some, hmark]

theorem DFSBefore_null (fuel : Nat) (s : VisitState σ) : n.DFSBefore visit fuel s none = .ok (true, s) := by
  unfold DFSBefore
  rfl

theorem DFSBefore_traverses (m m' : Marks CNNLayerPtr) (l : CNNLayerPtr)
    (hsearch : Marks.search n.nextLayers fuel m l = .ok m') :
    Traverses visit m m' fun s => n.DFSBefore visit fuel s (some l) := by
  induction fuel generalizing m m' l with
  | zero => cases hsearch
  | succ fuel ih =>
    rw [Marks.search] at hsearch
    cases hloop : (n.nextLayers l).foldlM (Marks.step (Marks.search n.nextLayers fuel)) (m.enter l) with
    | error e =>
      rw [hloop] at hsearch
      cases hsearch
    | ok m₁ =>
      rw [hloop] at hsearch
      obtain rfl : m₁.leave l = m' := Except.ok.inj hsearch
      obtain ⟨pre, hperm, hpre⟩ := visitOutBefore_traverses (DFSBefore_null fuel) (fun m m' l => ih m m' l) hloop
      refine ⟨l :: pre, (hperm.cons l), fun state => ?_⟩
      change n.DFSBefore visit (fuel + 1) ⟨m.visited, state⟩ (some l) = _
      rw [DFSBefore, List.foldlM_cons, bind_assoc]
      refine bind_congr fun state' => ?_
      have hrun := hpre state'
      rw [Marks.enter] at hrun
      simp only [hrun, bind_assoc, ok_bind, if_true]
      rfl

theorem forestBefore_traverses {heads : List CNNLayerPtr}
    (hsearch : heads.foldlM (Marks.search n.nextLayers fuel) m = .ok m') :
    Traverses visit m m' (n.CNNNetForestDFSBefore visit fuel heads) := by
  induction heads generalizing m with
  | nil =>
    obtain rfl := Except.ok.inj hsearch
    exact .done
  | cons head heads ih =>
    rw [List.foldlM_cons] at hsearch
    cases hfirst : Marks.search n.nextLayers fuel m head with
    | error e =>
      rw [hfirst] at hsearch
      cases hsearch
    | ok m₁ =>
      rw [hfirst] at hsearch
      exact (DFSBefore_traverses m m₁ head hfirst).bind (ih hsearch)

/-- **The traversal from the input layers**: one loop over what they lead to, each layer once. -/
theorem forestBefore_eq (hn : n.Consistent) (hacyclic : ¬n.InputsReachCycle) {heads : List CNNLayerPtr}
    (hheads : n.CNNNetGetAllInputLayers = .ok heads) (visit : σ → CNNLayerPtr → Result σ) :
    ∃ order : List CNNLayerPtr, order.Nodup ∧
      (∀ l, l ∈ order ↔ ∃ head, n.InputLayer head ∧ ReflTransGen n.Feeds head l) ∧
      ∃ visited, ∀ state, n.CNNNetForestDFSBefore visit (n.layers.card + 1) heads ⟨fun _ => none, state⟩ =
        order.foldlM visit state >>= fun state => .ok (true, ⟨visited, state⟩) := by
  obtain ⟨heads', hheads', hnd, hmem⟩ := getAllInputLayers_ok hn
  obtain rfl := Except.ok.inj (hheads.symm.trans hheads')
  have hclosed : ∀ v ∈ n.layers, ∀ c ∈ n.nextLayers v, c ∈ n.layers := fun v _ c => mem_layers_of_nextLayers
  have hroots : ∀ r ∈ heads, r ∈ n.layers ∧ ∀ u, r ∉ n.nextLayers u := fun r hr =>
    ⟨((hmem r).mp hr).mem_layers, fun u => ((hmem r).mp hr).not_mem_nextLayers hn⟩
  have hfuel : n.layers.card < n.layers.card + 1 := Nat.lt_succ_self _
  rcases Marks.forest_ok_or_loop hclosed hfuel hnd hroots with ⟨s, hrun⟩ | hrun
  · have htraverses : Traverses visit {} s (n.CNNNetForestDFSBefore visit (n.layers.card + 1) heads) :=
      forestBefore_traverses hrun
    obtain ⟨pre, hperm, hpre⟩ := htraverses
    rw [List.append_nil] at hperm
    refine ⟨pre, hperm.nodup_iff.mp (Marks.topological_forest hclosed hfuel hnd hroots hrun).nodup, fun l => ?_,
      s.visited, hpre⟩
    rw [← hperm.mem_iff, Marks.mem_forest_iff hclosed hfuel hnd hroots hrun, edge_nextLayers hn]
    simp only [hmem]
  · obtain ⟨r, hr, u, hreach, hcycle⟩ := (Marks.forest_loop_iff hclosed hfuel hnd hroots).mp hrun
    rw [edge_nextLayers hn] at hreach hcycle
    exact absurd ⟨r, (hmem r).mp hr, u, hreach, hcycle⟩ hacyclic

end OpenVino.InferenceEngine.ICNNNetwork
