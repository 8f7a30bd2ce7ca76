import Mathlib.Algebra.BigOperators.Group.Finset.Basic
import Mathlib.Algebra.Order.Ring.Int

/-!
# Dataflow between stages

A `Dataflow` says of each data, by number, which stage writes it and which stages read it, a stage once
for each time it reads. `edges p c` is the number of times that `c` reads something that `p` writes. One
lemma for each way a dataflow changes says by how much `edges` changes; all of them come from
`edges_update`: only the data that is changed counts.
-/

namespace OpenVino

structure Dataflow (σ : Type) where
  size : Nat
  producer : Nat → Option σ
  consumers : Nat → List σ

namespace Dataflow

variable {σ : Type} [DecidableEq σ] {f f' : Dataflow σ} {d : Nat} {s p c : σ}

/-- The edges from `p` to `c` through the data `d`. -/
def edgesAt (f : Dataflow σ) (p c : σ) (d : Nat) : Int :=
  if f.producer d = some p then ((f.consumers d).count c : Int) else 0

def edges (f : Dataflow σ) (p c : σ) : Int := ∑ d ∈ Finset.range f.size, f.edgesAt p c d

theorem edges_update (hsize : f'.size = f.size) (hd : d < f.size)
    (hp : ∀ x, x ≠ d → f'.producer x = f.producer x) (hc : ∀ x, x ≠ d → f'.consumers x = f.consumers x) :
    f'.edges p c = f.edges p c + (f'.edgesAt p c d - f.edgesAt p c d) := by
  have hmem : d ∈ Finset.range f.size := Finset.mem_range.mpr hd
  have hrest : ∑ x ∈ (Finset.range f.size).erase d, f'.edgesAt p c x =
      ∑ x ∈ (Finset.range f.size).erase d, f.edgesAt p c x := by
    refine Finset.sum_congr rfl fun x hx => ?_
    have hne := Finset.ne_of_mem_erase hx
    rw [edgesAt, edgesAt, hp x hne, hc x hne]
  rw [edges, edges, hsize, ← Finset.add_sum_erase _ _ hmem, ← Finset.add_sum_erase _ (f.edgesAt p c) hmem, hrest]
  omega

/-- A stage reads `d` once more. -/
theorem edges_addConsumer (hsize : f'.size = f.size) (hd : d < f.size) (hp : f'.producer = f.producer)
    (hc : ∀ x, x ≠ d → f'.consumers x = f.consumers x) (hcd : f'.consumers d = f.consumers d ++ [s]) :
    f'.edges p c = f.edges p c + if f.producer d = some p ∧ c = s then 1 else 0 := by
  rw [edges_update hsize hd (fun x _ => by rw [hp]) hc, edgesAt, edgesAt, hp, hcd]
  by_cases hpd : f.producer d = some p
  · by_cases hcs : c = s
    · simp [hpd, hcs]
    · simp [hpd, hcs, Ne.symm hcs]
  · simp [hpd]

/-- A stage reads `d` once less. -/
theorem edges_eraseConsumer (hsize : f'.size = f.size) (hd : d < f.size) (hp : f'.producer = f.producer)
    (hc : ∀ x, x ≠ d → f'.consumers x = f.consumers x) (hcd : (f.consumers d).Perm (s :: f'.consumers d)) :
    f'.edges p c = f.edges p c - if f.producer d = some p ∧ c = s then 1 else 0 := by
  rw [edges_update hsize hd (fun x _ => by rw [hp]) hc, edgesAt, edgesAt, hp, hcd.count_eq, List.count_cons]
  by_cases hpd : f.producer d = some p
  · by_cases hcs : c = s
    · simp [hpd, hcs, sub_eq_add_neg]
    · simp [hpd, hcs, Ne.symm hcs]
  · simp [hpd]

/-- A stage begins to write `d`. -/
theorem edges_setProducer (hsize : f'.size = f.size) (hd : d < f.size) (hc : f'.consumers = f.consumers)
    (hp : ∀ x, x ≠ d → f'.producer x = f.producer x) (hnone : f.producer d = none)
    (hpd : f'.producer d = some s) :
    f'.edges p c = f.edges p c + if p = s then ((f.consumers d).count c : Int) else 0 := by
  rw [edges_update hsize hd hp (fun x _ => by rw [hc]), edgesAt, edgesAt, hnone, hpd, hc]
  by_cases hps : p = s
  · simp [hps]
  · simp [hps, Ne.symm hps]

/-- A stage ceases to write `d`. -/
theorem edges_clearProducer (hsize : f'.size = f.size) (hd : d < f.size) (hc : f'.consumers = f.consumers)
    (hp : ∀ x, x ≠ d → f'.producer x = f.producer x) (hpd : f.producer d = some s)
    (hnone : f'.producer d = none) :
    f'.edges p c = f.edges p c - if p = s then ((f.consumers d).count c : Int) else 0 := by
  rw [edges_update hsize hd hp (fun x _ => by rw [hc]), edgesAt, edgesAt, hnone, hpd]
  by_cases hps : p = s
  · simp [hps, sub_eq_add_neg]
  · simp [hps, Ne.symm hps]

/-- A data that nothing reads or writes is added. -/
theorem edges_addData (hsize : f'.size = f.size + 1) (hp : f'.producer = f.producer)
    (hc : f'.consumers = f.consumers) (hnone : f.consumers f.size = []) : f'.edges p c = f.edges p c := by
  have hlast : f'.edgesAt p c f.size = 0 := by
    simp [edgesAt, hc, hnone]
  rw [edges, hsize, Finset.sum_range_succ, hlast, add_zero, edges]
  refine Finset.sum_congr rfl fun x _ => ?_
  rw [edgesAt, edgesAt, hp, hc]

theorem edges_eq_zero_of_producer (h : ∀ d, f.producer d ≠ some p) : f.edges p c = 0 :=
  Finset.sum_eq_zero fun d _ => if_neg (h d)

theorem edges_eq_zero_of_consumer (h : ∀ d, c ∉ f.consumers d) : f.edges p c = 0 :=
  Finset.sum_eq_zero fun d _ => by simp [edgesAt, List.count_eq_zero_of_not_mem (h d)]

end Dataflow

end OpenVino
