import OpenVino.Base.Scatter
import OpenVino.Base.StdAlgorithm
import OpenVino.InferenceEngine.SizeT

/-!
# The heap of the smallest values

`FixedMaxHeap` holds at most `capacity` values. A value that is pushed on a full heap takes the place of the
largest one, when it is smaller. `Smallest` is what the pushes keep: the values that were dropped are not
smaller than those that are held (`push_smallest`, `pushes_smallest`). `fixedMaxHeap_keepsSmallest` is about
every sequence of pushes; in it every call of a heap function of the standard library finds a heap.
-/

namespace OpenVino.Vpu

open OpenVino.InferenceEngine (elemAt elemAt_ok_iff)

structure FixedMaxHeap (T : Type) where
  capacity : Nat
  v : List T := []
deriving DecidableEq

namespace FixedMaxHeap

variable {T : Type} (std : StdHeap T) (lt : T → T → Bool)

def push (h : FixedMaxHeap T) (val : T) : Result (FixedMaxHeap T × Bool) := do
  if h.capacity = 0 then return (h, false)
  if h.v.length < h.capacity then
    let v ← std.pushHeap lt (h.v ++ [val])
    return ({ h with v }, true)
  let front ← elemAt "v.front()" h.v 0
  if lt val front = false then return (h, false)
  let v ← std.popHeap lt h.v
  let v ← writeAt "v[_capacity - 1]" v (h.capacity - 1) val
  let v ← std.pushHeap lt v
  return ({ h with v }, true)

def sorted (h : FixedMaxHeap T) : Result (List T) := std.sortHeap lt h.v

/-- A heap that is built with a capacity, and the values pushed on it in turn. -/
def pushes (capacity : Nat) (vals : List T) : Result (FixedMaxHeap T) :=
  vals.foldlM (fun h val => Prod.fst <$> h.push std lt val) { capacity }

/-- What is held after `vals` were pushed. -/
structure Smallest (capacity : Nat) (vals : List T) (h : FixedMaxHeap T) : Prop where
  capacity_eq : h.capacity = capacity
  isHeap : IsHeap lt h.v
  length : h.v.length = min capacity vals.length
  dropped : ∃ dropped, (h.v ++ dropped).Perm vals ∧ ∀ d ∈ dropped, ∀ k ∈ h.v, lt d k = false

variable {lt} {capacity : Nat} {vals : List T} {h : FixedMaxHeap T}

theorem Smallest.start (capacity : Nat) : Smallest lt capacity [] ({ capacity } : FixedMaxHeap T) where
  capacity_eq := rfl
  isHeap i hi := absurd hi (Nat.not_lt_zero i)
  length := (Nat.min_zero capacity).symm
  dropped := ⟨[], .refl [], fun _ hd => absurd hd List.not_mem_nil⟩

/-- There is room. -/
theorem push_room (val : T) (hlt : StrictWeakOrder lt) (hh : Smallest lt capacity vals h) (hroom : h.v.length < capacity) :
    ∃ h', h.push std lt val = .ok (h', true) ∧ Smallest lt capacity (vals ++ [val]) h' := by
  have hcap := hh.capacity_eq
  have hlen := hh.length
  obtain ⟨w, hpush, hperm, hheap⟩ := std.pushHeap_ok val hlt hh.isHeap
  obtain ⟨dropped, hall, -⟩ := hh.dropped
  -- nothing was dropped so far
  have hnone : dropped = [] := by
    have hsum := hall.length_eq
    rw [List.length_append] at hsum
    exact List.eq_nil_of_length_eq_zero (by omega)
  rw [hnone, List.append_nil] at hall
  refine ⟨{ h with v := w }, ?_, hcap, hheap, ?_, [], ?_, fun d hd => absurd hd List.not_mem_nil⟩
  · rw [push, if_neg (by omega), if_pos (by omega), hpush]
    rfl
  · rw [hperm.length_eq, List.length_append, List.length_append, List.length_singleton]
    omega
  · rw [List.append_nil]
    exact hperm.trans (hall.append_right [val])

/-- The heap is full and the value not smaller than the largest one. -/
theorem push_discard {val : T} (hlt : StrictWeakOrder lt) (hh : Smallest lt capacity vals h) {a : T} {rest : List T}
    (hv : h.v = a :: rest) (hfull : h.v.length = capacity) (hval : lt val a = false) :
    h.push std lt val = .ok (h, false) ∧ Smallest lt capacity (vals ++ [val]) h := by
  have hcap := hh.capacity_eq
  have hpos : 0 < h.v.length := by
    rw [hv]
    exact Nat.succ_pos _
  obtain ⟨dropped, hall, hlarge⟩ := hh.dropped
  have hfront : elemAt "v.front()" h.v 0 = .ok a := by
    rw [hv]
    rfl
  refine ⟨?_, hcap, hh.isHeap, ?_, dropped ++ [val], ?_, fun d hd k hk => ?_⟩
  · rw [push, if_neg (by omega), if_neg (by omega), hfront, ok_bind, if_pos hval]
    rfl
  · have hlen := hh.length
    rw [List.length_append, List.length_singleton]
    omega
  · rw [← List.append_assoc]
    exact hall.append_right [val]
  · rcases List.mem_append.mp hd with hd | hd
    · exact hlarge d hd k hk
    · rw [List.mem_singleton.mp hd]
      have hmax : lt a k = false := by
        have hheap := hh.isHeap
        rw [hv] at hheap hk
        exact hheap.front_max hlt hk
      exact hlt.trans k a val hmax hval

/-- The heap is full and the value takes the place of the largest one. -/
theorem push_replace {val : T} (hlt : StrictWeakOrder lt) (hh : Smallest lt capacity vals h) {a : T} {rest : List T}
    (hv : h.v = a :: rest) (hfull : h.v.length = capacity) (hval : lt val a = true) :
    ∃ h', h.push std lt val = .ok (h', true) ∧ Smallest lt capacity (vals ++ [val]) h' := by
  have hcap := hh.capacity_eq
  have hlen := hh.length
  have hrest : rest.length + 1 = capacity := by
    rw [← hfull, hv, List.length_cons]
  have hheap : IsHeap lt (a :: rest) := by
    rw [← hv]
    exact hh.isHeap
  obtain ⟨w, hpop, hwrest, hw⟩ := std.popHeap_ok hlt hheap
  obtain ⟨w', hpush, hperm, hheap'⟩ := std.pushHeap_ok val hlt hw
  obtain ⟨dropped, hall, hlarge⟩ := hh.dropped
  have hfront : elemAt "v.front()" h.v 0 = .ok a := by
    rw [hv]
    rfl
  have hwlen : w.length = h.capacity - 1 := by
    rw [hwrest.length_eq]
    omega
  have hwrite : writeAt "v[_capacity - 1]" (w ++ [a]) (h.capacity - 1) val = .ok (w ++ [val]) := by
    rw [← hwlen, writeAt_ok (by simp), List.set_append_right _ _ le_rfl, Nat.sub_self, List.set_cons_zero]
  have hback : lt a val = false := (hlt.total a val).resolve_left (by simp [hval])
  have hkept : w'.Perm (rest ++ [val]) := hperm.trans (hwrest.append_right [val])
  refine ⟨{ h with v := w' }, ?_, hcap, hheap', ?_, a :: dropped, ?_, fun d hd k hk => ?_⟩
  · rw [push, if_neg (by omega), if_neg (by omega), hfront, ok_bind, if_neg (by simp [hval]), hv, hpop, ok_bind,
      hwrite, ok_bind, hpush]
    rfl
  · rw [hkept.length_eq, List.length_append, List.length_append, List.length_singleton]
    omega
  · -- the old values come to the front, the new one to the end
    have hold : (a :: rest ++ dropped).Perm vals := by
      rw [← hv]
      exact hall
    have hswap : (rest ++ [val] ++ a :: dropped).Perm (a :: rest ++ dropped ++ [val]) := by
      have hmove : (rest ++ ([val] ++ a :: dropped)).Perm (rest ++ (a :: dropped ++ [val])) :=
        List.perm_append_comm.append_left rest
      rw [List.append_assoc]
      refine hmove.trans ?_
      rw [List.cons_append, List.cons_append, List.cons_append, List.append_assoc]
      exact List.perm_middle
    exact (hkept.append_right _).trans (hswap.trans (hold.append_right [val]))
  · have hmax : ∀ x ∈ a :: rest, lt a x = false := fun x hx => hheap.front_max hlt hx
    have hafter : ∀ x ∈ rest ++ [val], lt a x = false := by
      intro x hx
      rcases List.mem_append.mp hx with hx | hx
      · exact hmax x (List.mem_cons_of_mem a hx)
      · rw [List.mem_singleton.mp hx]
        exact hback
    have hak := hafter k (hkept.mem_iff.mp hk)
    rcases List.mem_cons.mp hd with rfl | hd
    · exact hak
    · have hda : lt d a = false := hlarge d hd a (by rw [hv]; exact List.mem_cons_self)
      exact hlt.trans k a d hak hda

/-- **A push** keeps the smallest values. -/
theorem push_smallest (hlt : StrictWeakOrder lt) (hcap : 1 ≤ capacity) (hh : Smallest lt capacity vals h) (val : T) :
    ∃ r, h.push std lt val = .ok r ∧ Smallest lt capacity (vals ++ [val]) r.1 := by
  by_cases hroom : h.v.length < capacity
  · obtain ⟨h', hpush, hh'⟩ := push_room std val hlt hh hroom
    exact ⟨_, hpush, hh'⟩
  · have hlen := hh.length
    obtain ⟨a, rest, hv⟩ := List.exists_cons_of_length_pos (l := h.v) (by omega)
    cases hval : lt val a with
    | false =>
      obtain ⟨hpush, hh'⟩ := push_discard std hlt hh hv (by omega) hval
      exact ⟨_, hpush, hh'⟩
    | true =>
      obtain ⟨h', hpush, hh'⟩ := push_replace std hlt hh hv (by omega) hval
      exact ⟨_, hpush, hh'⟩

theorem foldlM_push_smallest (hlt : StrictWeakOrder lt) (hcap : 1 ≤ capacity) (hh : Smallest lt capacity vals h)
    (more : List T) : ∃ h', more.foldlM (fun h val => Prod.fst <$> h.push std lt val) h = .ok h' ∧
      Smallest lt capacity (vals ++ more) h' := by
  induction more generalizing vals h with
  | nil =>
    rw [List.append_nil]
    exact ⟨h, rfl, hh⟩
  | cons val more ih =>
    obtain ⟨r, hpush, hr⟩ := push_smallest std hlt hcap hh val
    obtain ⟨h', hrun, hh'⟩ := ih hr
    refine ⟨h', ?_, ?_⟩
    · rw [List.foldlM_cons, hpush]
      exact hrun
    · rw [List.append_assoc] at hh'
      exact hh'

/-- **Any sequence of pushes** on a heap with room for a value: no call is undefined, and what is held is as many
of the values as there is room for, none of the others being smaller. `sorted` returns them in order. -/
theorem fixedMaxHeap_keepsSmallest (std : StdHeap T) {lt : T → T → Bool} (hlt : StrictWeakOrder lt) {capacity : Nat}
    (hcap : 1 ≤ capacity) (vals : List T) :
    ∃ h, pushes std lt capacity vals = .ok h ∧ h.v.length = min capacity vals.length ∧
      (∃ dropped, (h.v ++ dropped).Perm vals ∧ ∀ d ∈ dropped, ∀ k ∈ h.v, lt d k = false) ∧
      ∃ s, h.sorted std lt = .ok s ∧ s.Perm h.v ∧ s.Pairwise fun a b => lt b a = false := by
  obtain ⟨h, hrun, hh⟩ := foldlM_push_smallest std hlt hcap (Smallest.start capacity) vals
  exact ⟨h, hrun, hh.length, hh.dropped, std.sortHeap_ok hlt hh.isHeap⟩

/-- The heap is full after two pushes; a value goes, and one is not taken. -/
theorem fixedMaxHeap_keepsSmallest_two :
    ∃ s, pushes .binary (fun a b : Nat => decide (a < b)) 2 [4, 7, 1, 4] = .ok ⟨2, [4, 1]⟩ ∧
      FixedMaxHeap.sorted .binary (fun a b => decide (a < b)) ⟨2, [4, 1]⟩ = .ok s ∧
      s.Pairwise fun a b => decide (b < a) = false := by
  have hrun : pushes .binary (fun a b : Nat => decide (a < b)) 2 [4, 7, 1, 4] = .ok ⟨2, [4, 1]⟩ := by decide
  obtain ⟨h, hpushes, -, -, s, hsorted, -, horder⟩ :=
    fixedMaxHeap_keepsSmallest .binary (StrictWeakOrder.of_key (fun a : Nat => a)) (by decide : 1 ≤ 2) [4, 7, 1, 4]
  rw [hrun] at hpushes
  obtain rfl := Except.ok.inj hpushes
  exact ⟨s, hrun, hsorted, horder⟩

end FixedMaxHeap

end OpenVino.Vpu
