import Mathlib.Data.List.Flatten
import Mathlib.Data.List.Nodup
import Mathlib.Logic.Function.Basic
import Mathlib.Order.Nat

/-!
# Networks of nodes

A `Node` gives values to the keys it writes, by a function of the values under the keys it reads. A valuation is
consistent with a network when it satisfies every node, which says nothing of an order of execution. `Rising`
is such an order: every node reads below the rank of what it writes, and the ranks rise along the network.
A network in such an order has a consistent valuation for any values of the keys that it does not write
(`Rising.exists_consistent`).
-/

namespace OpenVino

structure Node (P V : Type) where
  reads : List P
  writes : List P
  fn : List V → List V

namespace Node

variable {P V : Type}

def Holds (v : P → V) (n : Node P V) : Prop := n.writes.map v = n.fn (n.reads.map v)

def Consistent (v : P → V) (ns : List (Node P V)) : Prop := ∀ n ∈ ns, n.Holds v

/-! ### Running a node -/

section Run

variable [DecidableEq P]

/-- The keys get the values one by one. -/
def assign : List P → List V → (P → V) → P → V
  | p :: ps, x :: xs, v => Function.update (assign ps xs v) p x
  | _, _, v => v

theorem assign_of_not_mem {ps : List P} {xs : List V} {v : P → V} {p : P} (h : p ∉ ps) : assign ps xs v p = v p := by
  induction ps generalizing xs with
  | nil => rfl
  | cons q ps ih =>
    cases xs with
    | nil => rfl
    | cons x xs =>
      rw [List.mem_cons, not_or] at h
      rw [assign, Function.update_of_ne h.1, ih h.2]

theorem map_assign {ps : List P} {xs : List V} {v : P → V} (hnd : ps.Nodup) (hlen : xs.length = ps.length) :
    ps.map (assign ps xs v) = xs := by
  induction ps generalizing xs with
  | nil => rw [List.length_eq_zero_iff.mp hlen, List.map_nil]
  | cons p ps ih =>
    obtain ⟨hp, hnd⟩ := List.nodup_cons.mp hnd
    cases xs with
    | nil => simp at hlen
    | cons x xs =>
      have hrest : ps.map (assign (p :: ps) (x :: xs) v) = ps.map (assign ps xs v) := by
        refine List.map_congr_left fun q hq => ?_
        have hne : q ≠ p := fun h => hp (h ▸ hq)
        rw [assign, Function.update_of_ne hne]
      rw [List.map_cons, hrest, ih hnd (by simpa using hlen), assign, Function.update_self]

def run (n : Node P V) (v : P → V) : P → V := assign n.writes (n.fn (n.reads.map v)) v

end Run

/-! ### Networks in order -/

variable {rank : P → Nat} {lo mid hi : Nat} {n : Node P V} {ns ms : List (Node P V)}

def level (rank : P → Nat) (n : Node P V) : Nat := (n.writes.map rank).headD 0

/-- The node reads below its level, and writes at it. -/
structure Ranked (rank : P → Nat) (n : Node P V) : Prop where
  reads_lt : ∀ p ∈ n.reads, rank p < n.level rank
  writes_eq : ∀ p ∈ n.writes, rank p = n.level rank
  nodup : n.writes.Nodup
  length_fn : ∀ xs, xs.length = n.reads.length → (n.fn xs).length = n.writes.length

theorem Ranked.holds_run [DecidableEq P] (h : n.Ranked rank) (v : P → V) : n.Holds (n.run v) := by
  have hreads : n.reads.map (n.run v) = n.reads.map v := by
    refine List.map_congr_left fun p hp => assign_of_not_mem fun hmem => ?_
    have hlt := h.reads_lt p hp
    rw [h.writes_eq p hmem] at hlt
    omega
  rw [Holds, hreads]
  exact map_assign h.nodup (h.length_fn _ (by rw [List.length_map]))

/-- The levels of the nodes rise from `lo` on and stay below `hi`. -/
def Rising (rank : P → Nat) : Nat → List (Node P V) → Nat → Prop
  | lo, [], hi => lo ≤ hi
  | lo, n :: ns, hi => lo ≤ n.level rank ∧ n.Ranked rank ∧ Rising rank (n.level rank + 1) ns hi

theorem Rising.mono (h : Rising rank mid ns hi) (hlo : lo ≤ mid) : Rising rank lo ns hi := by
  cases ns with
  | nil => exact le_trans hlo h
  | cons n ns => exact ⟨le_trans hlo h.1, h.2⟩

theorem Rising.append (h : Rising rank lo ns mid) (h' : Rising rank mid ms hi) : Rising rank lo (ns ++ ms) hi := by
  induction ns generalizing lo with
  | nil => exact h'.mono h
  | cons n ns ih => exact ⟨h.1, h.2.1, ih h.2.2⟩

/-- Blocks one behind the other. -/
theorem Rising.flatMap {start : Nat → Nat} {block : Nat → List (Node P V)} {k : Nat}
    (h : ∀ i < k, Rising rank (start i) (block i) (start (i + 1))) :
    Rising rank (start 0) ((List.range k).flatMap block) (start k) := by
  induction k with
  | zero => exact le_refl (start 0)
  | succ k ih =>
    rw [List.range_succ, List.flatMap_append, List.flatMap_singleton]
    exact (ih fun i hi => h i (by omega)).append (h k (by omega))

theorem Rising.le_rank (h : Rising rank lo ns hi) {p : P} (hp : ∃ n ∈ ns, p ∈ n.writes) : lo ≤ rank p := by
  induction ns generalizing lo with
  | nil => simp at hp
  | cons n ns ih =>
    obtain ⟨hlo, hn, hns⟩ := h
    obtain ⟨m, hm, hpm⟩ := hp
    rcases List.mem_cons.mp hm with rfl | hm
    · rw [hn.writes_eq p hpm]
      exact hlo
    · have hle := ih hns ⟨m, hm, hpm⟩
      omega

/-- **Consistent valuations.** A network in order has one for any values of what it does not write. -/
theorem Rising.exists_consistent (h : Rising rank lo ns hi) (v : P → V) :
    ∃ w, Consistent w ns ∧ ∀ p, (∀ n ∈ ns, p ∉ n.writes) → w p = v p := by
  classical
  induction ns generalizing lo v with
  | nil => exact ⟨v, by simp [Consistent], fun p _ => rfl⟩
  | cons n ns ih =>
    obtain ⟨-, hn, hns⟩ := h
    obtain ⟨w, hw, hkeep⟩ := ih hns (n.run v)
    -- What the rest writes has a higher rank than all that `n` reads and writes.
    have hlow : ∀ p, rank p ≤ n.level rank → w p = n.run v p := by
      intro p hp
      apply hkeep
      intro m hm hpm
      have hle := hns.le_rank ⟨m, hm, hpm⟩
      omega
    refine ⟨w, ?_, fun p hp => ?_⟩
    · intro m hm
      rcases List.mem_cons.mp hm with rfl | hm
      · have hwrites : m.writes.map w = m.writes.map (m.run v) :=
          List.map_congr_left fun p hp => hlow p (hn.writes_eq p hp).le
        have hreads : m.reads.map w = m.reads.map (m.run v) :=
          List.map_congr_left fun p hp => hlow p (hn.reads_lt p hp).le
        rw [Holds, hwrites, hreads]
        exact hn.holds_run v
      · exact hw m hm
    · rw [hkeep p fun m hm => hp m (List.mem_cons_of_mem n hm), run]
      exact assign_of_not_mem (hp n List.mem_cons_self)

end Node

end OpenVino
