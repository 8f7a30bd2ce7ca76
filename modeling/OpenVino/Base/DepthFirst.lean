import Mathlib.Data.Finset.Card
import Mathlib.Data.Finset.Max
import Mathlib.Data.Finset.Filter
import Mathlib.Data.List.Nodup
import Mathlib.Logic.Relation
import Mathlib.Tactic.SplitIfs

/-!
# Depth-first search

`Visits next gray ws order order'` is the big-step semantics of a depth-first search along `next` that has
the vertices `gray` open and the vertices `ws` still to look at: a vertex that is finished goes to the front
of the order. `Visits.topological` is what such a search yields, `Topological.acyclic` what an order says
about cycles. `exists_rank` bounds the depth of the search in a graph without cycles, and there it comes to
every vertex from those without predecessors (`Visits.mem_of_roots`).
-/

namespace OpenVino

open Relation

variable {V : Type*} {next : V → List V} {gray ws order order' : List V} {u v : V}

def Edge (next : V → List V) (u v : V) : Prop := v ∈ next u

def Acyclic (next : V → List V) : Prop := ∀ v, ¬ TransGen (Edge next) v v

/-- Every vertex stands before its successors, which are all in the list. -/
def Topological (next : V → List V) : List V → Prop
  | [] => True
  | v :: order => v ∉ order ∧ (∀ c ∈ next v, c ∈ order) ∧ Topological next order

/-! ### Orders -/

namespace Topological

theorem nodup (h : Topological next order) : order.Nodup := by
  induction order with
  | nil => exact List.nodup_nil
  | cons v order ih => exact List.nodup_cons.mpr ⟨h.1, ih h.2.2⟩

theorem closed (h : Topological next order) (hu : u ∈ order) (hv : v ∈ next u) : v ∈ order := by
  induction order with
  | nil => exact absurd hu List.not_mem_nil
  | cons w order ih =>
    apply List.mem_cons_of_mem
    rcases List.mem_cons.mp hu with rfl | hu
    · exact h.2.1 v hv
    · exact ih h.2.2 hu

theorem closed_trans (h : Topological next order) (hu : u ∈ order) (huv : ReflTransGen (Edge next) u v) :
    v ∈ order := by
  induction huv with
  | refl => exact hu
  | tail _ hv ih => exact h.closed ih hv

/-- A vertex of the order lies on no cycle. -/
theorem acyclic (h : Topological next order) (hv : v ∈ order) : ¬ TransGen (Edge next) v v := by
  induction order with
  | nil => exact absurd hv List.not_mem_nil
  | cons w order ih =>
    rcases List.mem_cons.mp hv with rfl | hv
    · intro hcycle
      obtain ⟨c, hc, hback⟩ := TransGen.head'_iff.mp hcycle
      exact h.1 (h.2.2.closed_trans (h.2.1 c hc) hback)
    · exact ih h.2.2 hv

/-- No vertex stands before one that leads to it. -/
theorem pairwise (h : Topological next order) : order.Pairwise fun u v => u ∉ next v := by
  induction order with
  | nil => exact List.Pairwise.nil
  | cons w order ih => exact List.pairwise_cons.mpr ⟨fun v hv hw => h.1 (h.2.2.closed hv hw), ih h.2.2⟩

/-- A vertex has a smaller index than each of its successors. -/
theorem idxOf_lt [DecidableEq V] (h : Topological next order) (hu : u ∈ order) (hv : v ∈ next u) :
    order.idxOf u < order.idxOf v := by
  induction order with
  | nil => exact absurd hu List.not_mem_nil
  | cons w order ih =>
    have hvw : v ≠ w := by
      rintro rfl
      rcases List.mem_cons.mp hu with rfl | hu
      · exact h.1 (h.2.1 u hv)
      · exact h.1 (h.2.2.closed hu hv)
    by_cases huw : u = w
    · rw [huw, List.idxOf_cons_self, List.idxOf_cons_ne _ hvw.symm]
      omega
    · rw [List.idxOf_cons_ne _ (Ne.symm huw), List.idxOf_cons_ne _ hvw.symm]
      have := ih h.2.2 ((List.mem_cons.mp hu).resolve_left huw)
      omega

end Topological

/-! ### The search -/

inductive Visits (next : V → List V) : List V → List V → List V → List V → Prop
  | done {gray order : List V} : Visits next gray [] order order
  | skip {v : V} {gray ws order order' : List V} (hv : v ∈ order) (rest : Visits next gray ws order order') :
    Visits next gray (v :: ws) order order'
  | visit {v : V} {gray ws order order₁ order' : List V} (hv : v ∉ order) (hgray : v ∉ gray)
    (children : Visits next (v :: gray) (next v) order order₁)
    (rest : Visits next gray ws (v :: order₁) order') : Visits next gray (v :: ws) order order'

namespace Visits

theorem trans {ws' : List V} {order'' : List V} (h : Visits next gray ws order order')
    (h' : Visits next gray ws' order' order'') : Visits next gray (ws ++ ws') order order'' := by
  induction h with
  | done => exact h'
  | skip hv _ ih => exact .skip hv (ih h')
  | visit hv hgray children _ _ ih => exact .visit hv hgray children (ih h')

/-- What was finished before stays in the order. -/
theorem suffix (h : Visits next gray ws order order') : order <:+ order' := by
  induction h with
  | done => exact List.suffix_rfl
  | skip _ _ ih => exact ih
  | visit _ _ _ _ ihchildren ihrest => exact (ihchildren.trans (List.suffix_cons ..)).trans ihrest

theorem gray_not_mem (h : Visits next gray ws order order') (hu : u ∈ gray) (ho : u ∉ order) : u ∉ order' := by
  induction h with
  | done => exact ho
  | skip _ _ ih => exact ih hu ho
  | visit _ hgray _ _ ihchildren ihrest =>
    refine ihrest hu fun hmem => ?_
    rcases List.mem_cons.mp hmem with rfl | hmem
    · exact hgray hu
    · exact ihchildren (List.mem_cons_of_mem _ hu) ho hmem

theorem mem (h : Visits next gray ws order order') (hv : v ∈ ws) : v ∈ order' := by
  induction h with
  | done => exact absurd hv List.not_mem_nil
  | skip hmem rest ih =>
    rcases List.mem_cons.mp hv with rfl | hv
    · exact rest.suffix.mem hmem
    · exact ih hv
  | visit _ _ _ rest _ ih =>
    rcases List.mem_cons.mp hv with rfl | hv
    · exact rest.suffix.mem (List.mem_cons_self ..)
    · exact ih hv

/-- **The order is topological.** -/
theorem topological (h : Visits next gray ws order order') (ho : Topological next order) :
    Topological next order' := by
  induction h with
  | done => exact ho
  | skip _ _ ih => exact ih ho
  | visit hv _ children _ ihchildren ihrest =>
    exact ihrest ⟨children.gray_not_mem (List.mem_cons_self ..) hv, fun c hc => children.mem hc, ihchildren ho⟩

/-- Only what can be reached is visited. -/
theorem reachable (h : Visits next gray ws order order') (hu : u ∈ order') :
    u ∈ order ∨ ∃ w ∈ ws, ReflTransGen (Edge next) w u := by
  induction h with
  | done => exact .inl hu
  | skip _ _ ih =>
    rcases ih hu with ho | ⟨w, hw, hreach⟩
    · exact .inl ho
    · exact .inr ⟨w, List.mem_cons_of_mem _ hw, hreach⟩
  | visit _ _ _ _ ihchildren ihrest =>
    rcases ihrest hu with ho | ⟨w, hw, hreach⟩
    · rcases List.mem_cons.mp ho with rfl | ho
      · exact .inr ⟨u, List.mem_cons_self .., .refl⟩
      · rcases ihchildren ho with ho | ⟨w, hw, hreach⟩
        · exact .inl ho
        · exact .inr ⟨_, List.mem_cons_self .., .head hw hreach⟩
    · exact .inr ⟨w, List.mem_cons_of_mem _ hw, hreach⟩

/-- A loop whose rounds visit a vertex each, or fail with an error of `E`. -/
theorem foldlM_cases {ε σ α : Type} {f : σ → α → Except ε σ} {l : List α} (vertex : α → V) (sorted : σ → List V)
    (I : σ → Prop) (E : ε → Prop) (s : σ)
    (hround : ∀ pre a post t, l = pre ++ a :: post → Visits next gray (pre.map vertex) (sorted s) (sorted t) → I t →
      (∃ t', f t a = .ok t' ∧ Visits next gray [vertex a] (sorted t) (sorted t') ∧ I t') ∨
        ∃ e, f t a = .error e ∧ E e) (hs : I s) :
    (∃ s', l.foldlM f s = .ok s' ∧ Visits next gray (l.map vertex) (sorted s) (sorted s') ∧ I s') ∨
      ∃ e, l.foldlM f s = .error e ∧ E e := by
  suffices ∀ post pre t, l = pre ++ post → Visits next gray (pre.map vertex) (sorted s) (sorted t) → I t →
      (∃ s', post.foldlM f t = .ok s' ∧ Visits next gray (l.map vertex) (sorted s) (sorted s') ∧ I s') ∨
        ∃ e, post.foldlM f t = .error e ∧ E e from this l [] s rfl .done hs
  intro post
  induction post with
  | nil =>
    intro pre t hl hvisits ht
    rw [List.append_nil] at hl
    exact .inl ⟨t, rfl, hl ▸ hvisits, ht⟩
  | cons a post ih =>
    intro pre t hl hvisits ht
    rcases hround pre a post t hl hvisits ht with ⟨t', hrun, hvisit, ht'⟩ | ⟨e, hrun, he⟩
    · have hvisits' := hvisits.trans hvisit
      rw [List.foldlM_cons, hrun]
      refine ih (pre ++ [a]) t' (by rw [hl, List.append_assoc, List.singleton_append]) ?_ ht'
      rwa [List.map_append]
    · rw [List.foldlM_cons, hrun]
      exact .inr ⟨e, rfl, he⟩

/-- A loop each of whose rounds visits a vertex, of states that stand for an order. -/
theorem foldlM_related {ε σ : Type} {f : σ → V → Except ε σ} (R : σ → List V → Prop)
    (hround : ∀ s order, ∀ v ∈ ws, R s order →
      ∃ s' order', f s v = .ok s' ∧ Visits next gray [v] order order' ∧ R s' order') {s : σ} (hs : R s order) :
    ∃ s' order', ws.foldlM f s = .ok s' ∧ Visits next gray ws order order' ∧ R s' order' := by
  induction ws generalizing s order with
  | nil => exact ⟨s, order, rfl, .done, hs⟩
  | cons v ws ih =>
    obtain ⟨t, order₁, hrun, hvisit, ht⟩ := hround s order v List.mem_cons_self hs
    obtain ⟨s', order', hrest, hvisits, hs'⟩ := ih (fun s order w hw => hround s order w (List.mem_cons_of_mem _ hw)) ht
    refine ⟨s', order', ?_, hvisit.trans hvisits, hs'⟩
    rw [List.foldlM_cons, hrun]
    exact hrest

/-- A loop each of whose rounds visits a vertex. -/
theorem foldlM_ok {ε σ α : Type} {f : σ → α → Except ε σ} {l : List α} (vertex : α → V) (sorted : σ → List V)
    (I : σ → Prop) (hround : ∀ s, ∀ a ∈ l, I s →
      ∃ s', f s a = .ok s' ∧ Visits next gray [vertex a] (sorted s) (sorted s') ∧ I s') (s : σ) (hs : I s) :
    ∃ s', l.foldlM f s = .ok s' ∧ Visits next gray (l.map vertex) (sorted s) (sorted s') ∧ I s' := by
  refine (foldlM_cases vertex sorted I (fun _ => False) s (fun pre a post t hl _ ht => .inl ?_) hs).resolve_right ?_
  · refine hround t a ?_ ht
    rw [hl]
    exact List.mem_append_right _ (List.mem_cons_self ..)
  · rintro ⟨e, -, he⟩
    exact he

end Visits

/-! ### Graphs without cycles -/

/-- A finite graph without cycles is ranked by the number of vertices that can be reached. -/
theorem exists_rank (vs : Finset V) (hacyc : ∀ v ∈ vs, ¬ TransGen (Edge next) v v)
    (hclosed : ∀ v ∈ vs, ∀ c ∈ next v, c ∈ vs) :
    ∃ rank : V → Nat, ∀ v ∈ vs, rank v < vs.card ∧ ∀ c ∈ next v, rank c < rank v := by
  classical
  refine ⟨fun v => (vs.filter fun u => TransGen (Edge next) v u).card, fun v hv => ⟨?_, fun c hc => ?_⟩⟩
  · apply Finset.card_lt_card
    refine Finset.filter_ssubset.mpr ⟨v, hv, hacyc v hv⟩
  · apply Finset.card_lt_card
    refine (Finset.ssubset_iff_of_subset ?_).mpr ⟨c, ?_, ?_⟩
    · intro u hu
      rw [Finset.mem_filter] at hu ⊢
      exact ⟨hu.1, .head hc hu.2⟩
    · exact Finset.mem_filter.mpr ⟨hclosed v hv c hc, .single hc⟩
    · intro hcycle
      exact hacyc c (hclosed v hv c hc) (Finset.mem_filter.mp hcycle).2

/-- Visits that start at every vertex without a predecessor reach every vertex. -/
theorem Visits.mem_of_roots {vs : Finset V} (h : Visits next gray ws order order') (ho : Topological next order')
    (hacyc : ∀ v ∈ vs, ¬ TransGen (Edge next) v v) (hclosed : ∀ v ∈ vs, ∀ c ∈ next v, c ∈ vs)
    (hroots : ∀ v ∈ vs, (∀ u ∈ vs, v ∉ next u) → v ∈ ws) (hv : v ∈ vs) : v ∈ order' := by
  classical
  obtain ⟨rank, hrank⟩ := exists_rank vs hacyc hclosed
  by_contra hnot
  -- a vertex of the highest rank among those that are missing
  obtain ⟨u, hu, hmax⟩ := Finset.exists_max_image (vs.filter (· ∉ order')) rank ⟨v, Finset.mem_filter.mpr ⟨hv, hnot⟩⟩
  obtain ⟨huvs, huo⟩ := Finset.mem_filter.mp hu
  refine huo (h.mem (hroots u huvs fun w hw huw => ?_))
  by_cases hwo : w ∈ order'
  · exact huo (ho.closed hwo huw)
  · have hle := hmax w (Finset.mem_filter.mpr ⟨hw, hwo⟩)
    have hlt := (hrank w hw).2 u huw
    omega

/-! ### Numbers -/

/-- The vertices of a list are numbered in turn. -/
theorem foldl_zipIdx_update [DecidableEq V] (hnd : order.Nodup) (k : Nat) (f : V → Int) :
    (order.zipIdx k).foldl (fun f p => Function.update f p.1 (p.2 : Int)) f v =
      if v ∈ order then ((k + order.idxOf v : Nat) : Int) else f v := by
  induction order generalizing k f with
  | nil => rfl
  | cons u order ih =>
    obtain ⟨hu, hnd⟩ := List.nodup_cons.mp hnd
    rw [List.zipIdx_cons, List.foldl_cons, ih hnd]
    by_cases hvu : v = u
    · rw [hvu, if_neg hu, if_pos (List.mem_cons_self ..), List.idxOf_cons_self, Function.update_self]
      rfl
    · simp only [Function.update_of_ne hvu, List.idxOf_cons_ne _ (Ne.symm hvu), List.mem_cons, hvu, false_or]
      split_ifs
      · omega
      · rfl

end OpenVino
