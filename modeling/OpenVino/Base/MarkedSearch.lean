import Mathlib.Logic.Function.Basic
import OpenVino.Base.DepthFirst

/-!
# Depth-first search with marks

`search` is the depth-first search that marks a vertex unfinished when it enters it and finished when it leaves
it, and gives up when an edge leads to an unfinished one; `forest` starts it at each root, without a look at
the root's mark. `search_cases`: it ends, with a visit (`Visits`) or with a cycle that can be reached.
`forest_cases` is that for roots that nothing leads to, and `forest_loop_iff`, `mem_forest_iff` say which of
the two happens and what the order holds.
-/

namespace OpenVino

open Relation

/-- Why a search ends without an order. -/
inductive Stuck
  | loop
  | outOfFuel

structure Marks (V : Type) where
  visited : V → Option Bool := fun _ => none
  order : List V := []

namespace Marks

variable {V : Type} [DecidableEq V]

def enter (s : Marks V) (v : V) : Marks V := { s with visited := Function.update s.visited v (some false) }

def leave (s : Marks V) (v : V) : Marks V where
  visited := Function.update s.visited v (some true)
  order := v :: s.order

/-- The search goes on to `c`, by `run` if it was not there before. -/
def step (run : Marks V → V → Except Stuck (Marks V)) (s : Marks V) (c : V) : Except Stuck (Marks V) :=
  match s.visited c with
  | some true => .ok s
  | some false => .error .loop
  | none => run s c

def search (next : V → List V) : Nat → Marks V → V → Except Stuck (Marks V)
  | 0, _, _ => .error .outOfFuel
  | fuel + 1, s, v => do
    let s ← (next v).foldlM (step (search next fuel)) (s.enter v)
    return s.leave v

def forest (next : V → List V) (fuel : Nat) (roots : List V) : Except Stuck (Marks V) :=
  roots.foldlM (search next fuel) {}

variable {next : V → List V} {gray roots : List V} {s t : Marks V} {u v : V} {fuel : Nat} {vs : Finset V}

/-- The marks of a search that has the vertices `gray` open. -/
structure Open (gray : List V) (s : Marks V) : Prop where
  finished : ∀ v, s.visited v = some true ↔ v ∈ s.order
  entered : ∀ v, s.visited v = some false ↔ v ∈ gray

omit [DecidableEq V] in
theorem Open.visited_eq_none (hs : Open gray s) (horder : v ∉ s.order) (hgray : v ∉ gray) : s.visited v = none := by
  cases hmark : s.visited v with
  | none => rfl
  | some b =>
    cases b with
    | true => exact absurd ((hs.finished v).mp hmark) horder
    | false => exact absurd ((hs.entered v).mp hmark) hgray

omit [DecidableEq V] in
theorem Open.not_mem (hs : Open gray s) (hnew : s.visited v = none) : v ∉ s.order ∧ v ∉ gray := by
  constructor
  · intro hv
    rw [(hs.finished v).mpr hv] at hnew
    cases hnew
  · intro hv
    rw [(hs.entered v).mpr hv] at hnew
    cases hnew

theorem Open.enter (hs : Open gray s) (horder : v ∉ s.order) : Open (v :: gray) (s.enter v) := by
  refine ⟨fun u => ?_, fun u => ?_⟩
  · by_cases hu : u = v
    · simp [Marks.enter, hu, horder]
    · simpa [Marks.enter, Function.update_of_ne hu] using hs.finished u
  · by_cases hu : u = v
    · simp [Marks.enter, hu]
    · simpa [Marks.enter, Function.update_of_ne hu, hu] using hs.entered u

theorem Open.leave (hs : Open (v :: gray) s) (hgray : v ∉ gray) : Open gray (s.leave v) := by
  refine ⟨fun u => ?_, fun u => ?_⟩
  · by_cases hu : u = v
    · simp [Marks.leave, hu]
    · simpa [Marks.leave, Function.update_of_ne hu, hu] using hs.finished u
  · by_cases hu : u = v
    · simp [Marks.leave, hu, hgray]
    · simpa [Marks.leave, Function.update_of_ne hu, hu] using hs.entered u

/-- A cycle that `v` leads to. -/
def Loops (next : V → List V) (v : V) : Prop :=
  ∃ u, ReflTransGen (Edge next) v u ∧ TransGen (Edge next) u u

omit [DecidableEq V] in
theorem Loops.head (hv : v ∈ next u) (h : Loops next v) : Loops next u := by
  obtain ⟨w, hreach, hcycle⟩ := h
  exact ⟨w, .head hv hreach, hcycle⟩

/-- **The search from one vertex** ends, with a visit or at a cycle. -/
theorem search_cases (hclosed : ∀ v ∈ vs, ∀ c ∈ next v, c ∈ vs) (hfuel : vs.card < fuel + gray.length)
    (hnd : gray.Nodup) (hgray : ∀ u ∈ gray, u ∈ vs ∧ TransGen (Edge next) u v) (hv : v ∈ vs)
    (hnew : s.visited v = none) (hs : Open gray s) :
    (∃ t, search next fuel s v = .ok t ∧ Visits next gray [v] s.order t.order ∧ Open gray t) ∨
      ∃ e, search next fuel s v = .error e ∧ e = .loop ∧ Loops next v := by
  induction fuel generalizing v s gray with
  | zero =>
    have hle := Finset.card_le_card (fun u hu => (hgray u (List.mem_toFinset.mp hu)).1 : gray.toFinset ⊆ vs)
    rw [List.toFinset_card_of_nodup hnd] at hle
    omega
  | succ fuel ih =>
    obtain ⟨horder, hout⟩ := hs.not_mem hnew
    have hround : ∀ pre c post t, next v = pre ++ c :: post →
        Visits next (v :: gray) (pre.map id) (s.enter v).order t.order → Open (v :: gray) t →
        (∃ t', step (search next fuel) t c = .ok t' ∧ Visits next (v :: gray) [id c] t.order t'.order ∧
          Open (v :: gray) t') ∨
        ∃ e, step (search next fuel) t c = .error e ∧ e = .loop ∧ Loops next v := by
      intro pre c post t hl _ ht
      have hc : c ∈ next v := by
        rw [hl]
        exact List.mem_append_right _ List.mem_cons_self
      have hedge : Edge next v c := hc
      unfold step
      cases hmark : t.visited c with
      | none =>
        have hcases := ih (v := c) (s := t) (by rw [List.length_cons]; omega) (List.nodup_cons.mpr ⟨hout, hnd⟩) ?_
          (hclosed v hv c hc) hmark ht
        · rcases hcases with hok | ⟨e, herror, he, hloops⟩
          · exact .inl hok
          · exact .inr ⟨e, herror, he, hloops.head hc⟩
        · intro u hu
          rcases List.mem_cons.mp hu with rfl | hu
          · exact ⟨hv, .single hedge⟩
          · exact ⟨(hgray u hu).1, (hgray u hu).2.tail hedge⟩
      | some finished =>
        cases finished with
        | true => exact .inl ⟨t, rfl, .skip ((ht.finished c).mp hmark) .done, ht⟩
        | false =>
          -- the vertex is open: the search has come back to it
          refine .inr ⟨.loop, rfl, rfl, v, .refl, ?_⟩
          rcases List.mem_cons.mp ((ht.entered c).mp hmark) with rfl | hopen
          · exact .single hedge
          · exact .head hedge (hgray c hopen).2
    rcases Visits.foldlM_cases id Marks.order (Open (v :: gray)) (fun e => e = Stuck.loop ∧ Loops next v) (s.enter v)
      hround (hs.enter horder) with ⟨t, hrun, hvisits, ht⟩ | ⟨e, hrun, he⟩
    · rw [List.map_id] at hvisits
      refine .inl ⟨t.leave v, ?_, .visit horder hout hvisits .done, ht.leave hout⟩
      rw [search, hrun]
      rfl
    · refine .inr ⟨e, ?_, he⟩
      rw [search, hrun]
      rfl

section Forest

variable (hclosed : ∀ v ∈ vs, ∀ c ∈ next v, c ∈ vs) (hfuel : vs.card < fuel) (hnd : roots.Nodup)
  (hroots : ∀ r ∈ roots, r ∈ vs ∧ ∀ u, r ∉ next u)

include hclosed hfuel hnd hroots

/-- **The search from the roots.** -/
theorem forest_cases :
    (∃ s, forest next fuel roots = .ok s ∧ Visits next [] roots [] s.order) ∨
      forest next fuel roots = .error .loop ∧ ∃ r ∈ roots, Loops next r := by
  have hround : ∀ pre r post t, roots = pre ++ r :: post → Visits next [] (pre.map id) [] t.order → Open [] t →
      (∃ t', search next fuel t r = .ok t' ∧ Visits next [] [id r] t.order t'.order ∧ Open [] t') ∨
      ∃ e, search next fuel t r = .error e ∧ e = .loop ∧ ∃ r ∈ roots, Loops next r := by
    intro pre r post t hl hvisits ht
    have hr : r ∈ roots := hl ▸ List.mem_append_right pre List.mem_cons_self
    obtain ⟨hrvs, hroot⟩ := hroots r hr
    -- a root that is finished already would be one of the roots before it
    have hnot : r ∉ t.order := by
      intro hmem
      rcases hvisits.reachable hmem with h | ⟨w, hw, hreach⟩
      · exact absurd h List.not_mem_nil
      · rw [List.map_id] at hw
        rcases hreach.cases_tail with rfl | ⟨u, -, hu⟩
        · rw [hl, List.nodup_append'] at hnd
          exact hnd.2.2 hw List.mem_cons_self
        · exact hroot u hu
    rcases search_cases hclosed (by simpa using hfuel : vs.card < fuel + ([] : List V).length) .nil (fun u hu => absurd hu List.not_mem_nil) hrvs
      (ht.visited_eq_none hnot List.not_mem_nil) ht with hok | ⟨e, herror, he, hloops⟩
    · exact .inl hok
    · exact .inr ⟨e, herror, he, r, hr, hloops⟩
  rcases Visits.foldlM_cases id Marks.order (Open []) (fun e => e = Stuck.loop ∧ ∃ r ∈ roots, Loops next r) {} hround
    ⟨by simp, by simp⟩ with ⟨s, hrun, hvisits, -⟩ | ⟨e, hrun, rfl, hloops⟩
  · rw [List.map_id] at hvisits
    exact .inl ⟨s, hrun, hvisits⟩
  · exact .inr ⟨hrun, hloops⟩

theorem mem_forest_iff (h : forest next fuel roots = .ok s) :
    v ∈ s.order ↔ ∃ r ∈ roots, ReflTransGen (Edge next) r v := by
  rcases forest_cases hclosed hfuel hnd hroots with ⟨s', hrun, hvisits⟩ | ⟨hrun, -⟩
  · obtain rfl := Except.ok.inj (h.symm.trans hrun)
    constructor
    · intro hv
      exact (hvisits.reachable hv).resolve_left List.not_mem_nil
    · rintro ⟨r, hr, hreach⟩
      exact (hvisits.topological trivial).closed_trans (hvisits.mem hr) hreach
  · rw [h] at hrun
    cases hrun

theorem forest_subset (h : forest next fuel roots = .ok s) (hv : v ∈ s.order) : v ∈ vs := by
  obtain ⟨r, hr, hreach⟩ := (mem_forest_iff hclosed hfuel hnd hroots h).mp hv
  clear hv
  induction hreach with
  | refl => exact (hroots r hr).1
  | tail _ hedge ih => exact hclosed _ ih _ hedge

theorem topological_forest (h : forest next fuel roots = .ok s) : Topological next s.order := by
  rcases forest_cases hclosed hfuel hnd hroots with ⟨s', hrun, hvisits⟩ | ⟨hrun, -⟩
  · obtain rfl := Except.ok.inj (h.symm.trans hrun)
    exact hvisits.topological trivial
  · rw [h] at hrun
    cases hrun

/-- The search fails exactly when a root leads to a cycle. -/
theorem forest_loop_iff : forest next fuel roots = .error .loop ↔ ∃ r ∈ roots, Loops next r := by
  constructor
  · intro h
    rcases forest_cases hclosed hfuel hnd hroots with ⟨s, hrun, -⟩ | ⟨-, hloops⟩
    · rw [h] at hrun
      cases hrun
    · exact hloops
  · rintro ⟨r, hr, u, hreach, hcycle⟩
    rcases forest_cases hclosed hfuel hnd hroots with ⟨s, hrun, hvisits⟩ | ⟨hrun, -⟩
    · have hu : u ∈ s.order := (mem_forest_iff hclosed hfuel hnd hroots hrun).mpr ⟨r, hr, hreach⟩
      exact absurd hcycle ((hvisits.topological trivial).acyclic hu)
    · exact hrun

/-- There is an order or a loop. -/
theorem forest_ok_or_loop : (∃ s, forest next fuel roots = .ok s) ∨ forest next fuel roots = .error .loop := by
  rcases forest_cases hclosed hfuel hnd hroots with ⟨s, hrun, -⟩ | ⟨hrun, -⟩
  · exact .inl ⟨s, hrun⟩
  · exact .inr hrun

end Forest

end Marks

end OpenVino
