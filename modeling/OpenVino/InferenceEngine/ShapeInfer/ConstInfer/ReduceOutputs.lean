import OpenVino.InferenceEngine.ShapeInfer.ConstInfer.ReduceAxes

/-!
# Reduction by outputs

`reducedValue` is what a reduction is about: the fold over the elements that go into an output, in their order. With
the outputs split between the threads each of them gets this value (`reduceOutputs_eq`).
-/

namespace OpenVino.InferenceEngine.ShapeInfer

namespace ReduceConstInfer

open Axes

variable {w : Nat} {L : Axes} {D K v d : SizeVector} {xs : List (BitVec 32)} {zs out : List (BitVec w)}
  {init : BitVec w} {reduceType : ReduceType} {nthr : Nat}

/-- The elements that go into the output `d`. -/
def elements (L : Axes) (d : SizeVector) : List SizeVector := (box (sizes L)).filter fun v => project (kept L) v = d

/-- The fold over them. -/
def reducedValue (reduceType : ReduceType) (init : BitVec w) (L : Axes) (xs : List (BitVec 32)) (d : SizeVector) :
    BitVec w :=
  ((elements L d).map fun v => xs.getD (encode (sizes L) v) 0).foldl (func1 reduceType) init

theorem add_zeros (h : d.length = K.length) : add d (decode K 0) = d := by
  rw [decode_zero, ← h]
  clear h
  induction d with
  | nil => rfl
  | cons x d ih =>
    show (x + 0) :: add d (List.replicate d.length 0) = x :: d
    rw [Nat.add_zero, ih]

theorem not_mem_of_box (h : v ∈ box D) : 0 ∉ D := fun h0 =>
  (prod_pos_of_lt (mem_box.mp h)).ne' (List.prod_eq_zero_iff.mpr h0)

theorem range_append_range' {a b : Nat} (h : a ≤ b) : List.range a ++ List.range' a (b - a) = List.range b := by
  rw [List.range_eq_range', List.range_eq_range', show b = a + (b - a) by omega, ← List.range'_append]
  simp

/-- The walk for one output. -/
theorem reduceElement_eq (hd : d ∈ box (kept L)) (hsmall : (sizes L).prod < 2 ^ 64) (hxs : xs.length = (sizes L).prod) :
    reduceElement (sizes L) (BlockingDesc.fillStrides (sizes L)) xs (reduced L).prod (reducedFrom 0 L) init reduceType d =
      .ok (reducedValue reduceType init L xs d) := by
  let val (i : Nat) : BitVec 32 := xs.getD (encode (sizes L) (add d (decode (reduced L) i))) 0
  let I (pre : List Nat) (s : Cursor × BitVec w) : Prop :=
    s.1.counters = add d (decode (reduced L) pre.length) ∧ Synced (sizes L) s.1 ∧
      s.2 = ((List.range pre.length).map val).foldl (func1 reduceType) init
  have hlength : d.length = (reduced L).length := by rw [(mem_box.mp hd).length_eq, length_kept, length_reduced]
  have hstart : I [] (({ counters := d } : Cursor), init) := ⟨(add_zeros hlength).symm, synced_of_update rfl, rfl⟩
  have hvalue : ((List.range (reduced L).prod).map val).foldl (func1 reduceType) init = reducedValue reduceType init L xs d := by
    rw [reducedValue, elements, filter_box hd, box_eq_map_decode, List.map_map, List.map_map]
    rfl
  unfold reduceElement
  suffices ∃ s, (List.range (reduced L).prod).foldlM (fun s _ => do
      let cursor ← s.1.refresh (sizes L) (BlockingDesc.fillStrides (sizes L))
      let y ← elemAt "src_data[src_idx]" xs cursor.idx
      let cursor ← cursor.advance (sizes L) (reducedFrom 0 L) (moveSource (BlockingDesc.fillStrides (sizes L)))
      return (cursor, func1 reduceType s.2 y)) (({ counters := d } : Cursor), init) = .ok s ∧
      I (List.range (reduced L).prod) s by
    obtain ⟨s, hrun, -, -, hs⟩ := this
    rw [hrun, ok_bind, hs, List.length_range, hvalue]
    rfl
  refine exists_foldlM_ok hstart fun pre i post s hrange hI => ?_
  obtain ⟨hcounters, hsynced, hs⟩ := hI
  have hi : pre.length < (reduced L).prod := by
    have hlen := congrArg List.length hrange
    rw [List.length_range, List.length_append, List.length_cons] at hlen
    omega
  have hmem : add d (decode (reduced L) pre.length) ∈ box (sizes L) := add_mem_box hd (decode_mem_box hi)
  have hzero := not_mem_of_box hmem
  have hlengths : s.1.counters.length = (sizes L).length := by
    rw [hcounters]
    exact (mem_box.mp hmem).length_eq
  obtain ⟨hit, carried, hcarry⟩ := carry_decode (i := pre.length) hd (by omega)
  rw [refresh_ok hsynced hzero hsmall hlengths, ok_bind, hcounters, project_self (mem_box.mp hmem)]
  have hread : elemAt "src_data[src_idx]" xs (encode (sizes L) (add d (decode (reduced L) pre.length)) : Nat) =
      .ok (val pre.length) := by
    have hlt := encode_lt (mem_box.mp hmem)
    rw [elemAt_ok_iff]
    refine ⟨Nat.cast_nonneg _, ?_⟩
    rw [Int.toNat_natCast, List.getElem?_eq_getElem (hxs ▸ hlt)]
    exact congrArg some (List.getD_eq_getElem _ _ (hxs ▸ hlt)).symm
  obtain ⟨c, hadvance, hc, hsynced'⟩ := advance_ok (moves_source hzero hsmall) (mem_box.mp hmem).length_eq
    (congrArg _ (project_self (mem_box.mp hmem)).symm) hcarry
  rw [hread, ok_bind, hadvance, ok_bind]
  refine ⟨_, rfl, ?_, hsynced', ?_⟩
  · rw [hc, List.length_append, List.length_singleton]
  · rw [List.length_append, List.length_singleton, List.range_succ, List.map_append, List.foldl_append, ← hs]
    rfl

theorem unravel_eq {e : String} {i : Nat} (hD : 0 ∉ D) : unravel e D i = .ok (decode D i) := by
  unfold unravel
  rw [if_neg hD, parallel_it_init_eq]
  rfl

theorem assign_ok {α : Type} {e : String} {l : List α} {i : Nat} {a : α} (h : i < l.length) :
    assign e l i a = .ok (l.set i a) := if_pos h

theorem prod_pos_of_not_mem (hK : 0 ∉ K) : 0 < K.prod :=
  Nat.pos_of_ne_zero fun h => hK (List.prod_eq_zero_iff.mp h)

/-- The place of a round in its loop. -/
theorem index_of_range' {a n i : Nat} {pre post : List Nat} (h : List.range' a n = pre ++ i :: post) :
    i = a + pre.length ∧ pre.length < n := by
  have hget : (List.range' a n)[pre.length]? = some i := by rw [h]; simp
  obtain ⟨hlt, heq⟩ := List.getElem?_eq_some_iff.mp hget
  rw [List.length_range'] at hlt
  rw [List.getElem_range'] at heq
  omega

/-- A thread writes the outputs of its part. -/
theorem outputPart_ok {ithr a b : Nat} {done : List Nat} (hK : 0 ∉ kept L) (hsmall : (sizes L).prod < 2 ^ 64)
    (hxs : xs.length = (sizes L).prod) (hzs : zs.length = (kept L).prod)
    (hpart : splitter (kept L).prod nthr ithr = (a, b)) (hb : b ≤ (kept L).prod)
    (hout : Written zs (fun j => reducedValue reduceType init L xs (decode (kept L) j)) done out) :
    ∃ out', outputPart nthr (sizes L) (BlockingDesc.fillStrides (sizes L)) xs (kept L).prod (reduced L).prod
        (reducedFrom 0 L) (kept L) init reduceType ithr out = .ok out' ∧
      Written zs (fun j => reducedValue reduceType init L xs (decode (kept L) j)) (done ++ List.range' a (b - a)) out' := by
  let I (pre : List Nat) (s : Outputs w) : Prop := s.dst_counters = decode (kept L) (a + pre.length)
  have hstart : I [] { dst_counters := decode (kept L) a, dst_data := out } := rfl
  unfold outputPart
  simp only [hpart]
  rw [unravel_eq hK, ok_bind]
  obtain ⟨s, hrun, hwritten, -⟩ := Written.foldlM (v := Outputs.dst_data) (I := I) hout hstart
    (f := fun (s : Outputs w) dst_idx => do
      let reduce_prod ← reduceElement (sizes L) (BlockingDesc.fillStrides (sizes L)) xs (reduced L).prod (reducedFrom 0 L)
        init reduceType s.dst_counters
      let dst_data ← assign "dst_data[dst_idx]" s.dst_data dst_idx reduce_prod
      let next ← carry (kept L) (List.range (kept L).length).reverse s.dst_counters
      return { dst_counters := next.2.2, dst_data }) (l := List.range' a (b - a)) fun pre i post s hrange hI hlength => by
    obtain ⟨rfl, hpre⟩ := index_of_range' hrange
    have hi : a + pre.length < (kept L).prod := by omega
    obtain ⟨hit, carried, hcarry⟩ := carry_all (D := kept L) (i := a + pre.length) (prod_pos_of_not_mem hK)
    have hI : s.dst_counters = decode (kept L) (a + pre.length) := hI
    rw [hI, reduceElement_eq (decode_mem_box hi) hsmall hxs, ok_bind, assign_ok (by omega), ok_bind, hcarry, ok_bind]
    refine ⟨_, rfl, rfl, ?_⟩
    show _ = _
    rw [List.length_append, List.length_singleton, Nat.add_assoc]
  rw [hrun, ok_bind]
  exact ⟨_, rfl, hwritten⟩

/-- The threads together write all outputs. -/
theorem reduceOutputs_eq (hK : 0 ∉ kept L) (hsmall : (sizes L).prod < 2 ^ 64) (hxs : xs.length = (sizes L).prod)
    (hzs : zs.length = (kept L).prod) (hnthr : 1 ≤ nthr) (hfits : (kept L).prod + nthr ≤ 2 ^ 64) :
    (List.range nthr).foldlM (fun dst_data ithr =>
      outputPart nthr (sizes L) (BlockingDesc.fillStrides (sizes L)) xs (kept L).prod (reduced L).prod
        (reducedFrom 0 L) (kept L) init reduceType ithr dst_data) zs =
      .ok ((List.range (kept L).prod).map fun j => reducedValue reduceType init L xs (decode (kept L) j)) := by
  obtain ⟨f, hzero, hend, hmono, hparts⟩ := exists_parts hnthr hfits
  have hle : ∀ i ≤ nthr, f i ≤ (kept L).prod := by
    intro i hi
    rw [← hend]
    induction hi using Nat.decreasingInduction with
    | self => exact le_rfl
    | of_succ k hk ih => exact (hmono k hk).trans ih
  let I (pre : List Nat) (out : List (BitVec w)) : Prop :=
    Written zs (fun j => reducedValue reduceType init L xs (decode (kept L) j)) (List.range (f pre.length)) out
  have hstart : I [] zs := by
    show Written _ _ (List.range (f 0)) _
    rw [hzero]
    exact Written.start zs _
  obtain ⟨out, hrun, hout⟩ := exists_foldlM_ok hstart (l := List.range nthr) (f := fun dst_data ithr =>
      outputPart nthr (sizes L) (BlockingDesc.fillStrides (sizes L)) xs (kept L).prod (reduced L).prod
        (reducedFrom 0 L) (kept L) init reduceType ithr dst_data) fun pre i post out hrange hI => by
    rw [List.range_eq_range'] at hrange
    obtain ⟨rfl, hpre⟩ := index_of_range' hrange
    rw [Nat.zero_add]
    obtain ⟨out', hrun, hout'⟩ := outputPart_ok hK hsmall hxs hzs (hparts _ hpre) (hle _ hpre) hI
    refine ⟨out', hrun, ?_⟩
    rw [range_append_range' (hmono _ hpre)] at hout'
    show Written _ _ (List.range (f _)) _
    rwa [List.length_append]
  have hout : Written zs _ (List.range (f (List.range nthr).length)) out := hout
  rw [List.length_range, hend] at hout
  rw [hrun, hout.eq_map hzs]

end ReduceConstInfer

end OpenVino.InferenceEngine.ShapeInfer
