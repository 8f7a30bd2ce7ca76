import Mathlib.Logic.Relation
import Mathlib.Order.MinMax
import Mathlib.Tactic.SplitIfs

/-!
# Roots and contractions of relations

A relation that relates an element to one at most is followed from there like a pointer; `Root R a r` says that
the way from `a` ends at `r`. A root is the only one (`Root.unique`) and the same for connected elements
(`Root.of_eqvGen`), and where every element has one the relation has no infinite way (`wellFounded_of_root`).

`Contracted R a b` is the graph of `R` after `b` has become a part of `a`. When `R` respects a rank, as it
does along a topological order, `acyclic_contracted` says when no cycle comes from it: whichever of the two
stands later, what leads to it stands before the other.
-/

namespace OpenVino

/-! ### Roots -/

section

open Relation

variable {α : Type*} {R : α → α → Prop} {a b r r' : α}

structure Root (R : α → α → Prop) (a r : α) : Prop where
  path : ReflTransGen R a r
  stuck : ∀ b, ¬ R r b

theorem Root.self (h : ∀ b, ¬ R r b) : Root R r r := ⟨.refl, h⟩

theorem Root.head (hab : R a b) (h : Root R b r) : Root R a r := ⟨h.path.head hab, h.stuck⟩

theorem eq_of_stuck (hstuck : ∀ b, ¬ R r b) (h : ReflTransGen R r r') : r = r' := by
  rcases h.cases_head with h | ⟨b, hb, -⟩
  · exact h
  · exact absurd hb (hstuck b)

theorem Root.unique (hR : Relator.RightUnique R) (h : Root R a r) (h' : Root R a r') : r = r' := by
  rcases ReflTransGen.total_of_right_unique hR h.path h'.path with hrr | hrr
  · exact eq_of_stuck h.stuck hrr
  · exact (eq_of_stuck h'.stuck hrr).symm

theorem Root.tail (hR : Relator.RightUnique R) (hab : R a b) (h : Root R a r) : Root R b r := by
  rcases h.path.cases_head with rfl | ⟨c, hac, hcr⟩
  · exact absurd hab (h.stuck b)
  · rw [hR hab hac]
    exact ⟨hcr, h.stuck⟩

theorem root_iff_of_eqvGen (hR : Relator.RightUnique R) (h : EqvGen R a b) : Root R a r ↔ Root R b r := by
  induction h with
  | rel a b hab => exact ⟨fun h => h.tail hR hab, fun h => h.head hab⟩
  | refl a => exact Iff.rfl
  | symm a b _ ih => exact ih.symm
  | trans a b c _ _ ih ih' => exact ih.trans ih'

theorem Root.eqvGen (h : Root R a r) : EqvGen R a r := by
  have hpath := h.path
  induction hpath using ReflTransGen.head_induction_on with
  | refl => exact .refl r
  | head hac hcr ih => exact (EqvGen.rel _ _ hac).trans _ _ _ (ih ⟨hcr, h.stuck⟩)

theorem Root.not_loop (hR : Relator.RightUnique R) (h : Root R a r) : ¬ R a a := by
  have hpath := h.path
  induction hpath using ReflTransGen.head_induction_on with
  | refl => exact h.stuck r
  | head hac hcr ih =>
    intro hloop
    exact ih ⟨hcr, h.stuck⟩ (hR hloop hac ▸ hloop)

/-- **No infinite way.** -/
theorem wellFounded_of_root (hR : Relator.RightUnique R) (h : ∀ a, ∃ r, Root R a r) :
    WellFounded fun b a => R a b := by
  refine ⟨fun a => ?_⟩
  obtain ⟨r, hpath, hstuck⟩ := h a
  induction hpath using ReflTransGen.head_induction_on with
  | refl => exact ⟨_, fun b hb => absurd hb (hstuck b)⟩
  | head hac _ ih => exact ⟨_, fun b hb => hR hac hb ▸ ih⟩

end

/-! ### Contractions -/

open Relation

variable {V : Type*} {R : V → V → Prop} {a b : V}

/-- A relation that raises a rank has no cycle. -/
theorem acyclic_of_rank {K : Type*} [Preorder K] (rank : V → K) (h : ∀ p c, R p c → rank p < rank c) :
    ∀ v, ¬ TransGen R v v := by
  have htrans : ∀ p c, TransGen R p c → rank p < rank c := by
    intro p c hpc
    induction hpc with
    | single hpc => exact h _ _ hpc
    | tail _ hbc ih => exact lt_trans ih (h _ _ hbc)
  exact fun v hv => lt_irrefl _ (htrans v v hv)

variable [DecidableEq V]

/-- The vertex that `v` is a part of. -/
def contract (a b v : V) : V := if v = b then a else v

def Contracted (R : V → V → Prop) (a b : V) (p c : V) : Prop :=
  ∃ p₀ c₀, R p₀ c₀ ∧ contract a b p₀ = p ∧ contract a b c₀ = c

theorem acyclic_contracted {K : Type*} [LinearOrder K] (rank : V → K) (hrank : ∀ p c, R p c → rank p < rank c)
    (h : (rank a < rank b ∧ ∀ p, R p b → rank p < rank a) ∨ (rank b < rank a ∧ ∀ p, R p a → rank p < rank b)) :
    ∀ v, ¬ TransGen (Contracted R a b) v v := by
  -- the vertex `a` takes the smaller of the two ranks
  refine acyclic_of_rank (fun v => if v = a then min (rank a) (rank b) else rank v) ?_
  rintro - - ⟨p, c, hpc, rfl, rfl⟩
  have hlt := hrank p c hpc
  have hsource : (if contract a b p = a then min (rank a) (rank b) else rank (contract a b p)) ≤ rank p := by
    unfold contract
    by_cases hpb : p = b
    · subst hpb
      simp
    · by_cases hpa : p = a
      · subst hpa
        simp [hpb]
      · simp [hpb, hpa]
  have htarget : rank p < if contract a b c = a then min (rank a) (rank b) else rank (contract a b c) := by
    unfold contract
    by_cases hcb : c = b
    · subst hcb
      rw [if_pos rfl, if_pos rfl, lt_min_iff]
      rcases h with ⟨-, hb⟩ | ⟨hba, -⟩
      · exact ⟨hb p hpc, hlt⟩
      · exact ⟨hlt.trans hba, hlt⟩
    · by_cases hca : c = a
      · subst hca
        rw [if_neg hcb, if_pos rfl, lt_min_iff]
        rcases h with ⟨hab, -⟩ | ⟨-, ha⟩
        · exact ⟨hlt, hlt.trans hab⟩
        · exact ⟨hlt, ha p hpc⟩
      · rw [if_neg hcb, if_neg hca]
        exact hlt
  exact lt_of_le_of_lt hsource htarget

end OpenVino
