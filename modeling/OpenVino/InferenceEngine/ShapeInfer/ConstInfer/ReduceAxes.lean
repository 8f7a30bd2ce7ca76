import OpenVino.Base.Writes
import OpenVino.InferenceEngine.ShapeInfer.ConstInfer.Reduce
import OpenVino.InferenceEngine.TensorOffset

/-!
# The axes of a reduction

With the reduced axes set to one the shape is the one of the outputs (`Axes.kept`), with the others set to one it is
the one of the walk for one output (`Axes.reduced`), and an index of the tensor is the sum of an index of each
(`filter_box`). The counters of a walk go through these sums in their order (`carry_reducedFrom`), and the index of a
`Cursor` belongs to its counters (`Synced`) whether it is moved or put together anew.
-/

namespace OpenVino.InferenceEngine.ShapeInfer

namespace ReduceConstInfer

/-- For each axis, whether it is reduced, and its size. -/
abbrev Axes := List (Bool × Nat)

namespace Axes

def sizes (L : Axes) : SizeVector := L.map Prod.snd

def kept (L : Axes) : SizeVector := L.map fun a => if a.1 then 1 else a.2

def reduced (L : Axes) : SizeVector := L.map fun a => if a.1 then a.2 else 1

/-- The places of the reduced axes, counted from `k`. -/
def reducedFrom : Nat → Axes → List Nat
  | _, [] => []
  | k, a :: L => if a.1 then k :: reducedFrom (k + 1) L else reducedFrom (k + 1) L

/-- All axes, as reduced ones. -/
def all (dims : SizeVector) : Axes := dims.map (true, ·)

end Axes

open Axes

variable {L : Axes} {D K v w d c counters : SizeVector} {n : Nat}

/-- The index of the output that an element goes into. -/
def project (K v : SizeVector) : SizeVector := v.zipWith (· % ·) K

def add (d w : SizeVector) : SizeVector := d.zipWith (· + ·) w

theorem length_sizes : L.sizes.length = L.length := List.length_map _

theorem length_kept : L.kept.length = L.length := List.length_map _

theorem length_reduced : L.reduced.length = L.length := List.length_map _

@[simp] theorem sizes_cons {a : Bool × Nat} : sizes (a :: L) = a.2 :: sizes L := rfl

@[simp] theorem kept_reduced {X : Nat} : kept ((true, X) :: L) = 1 :: kept L := rfl

@[simp] theorem kept_kept {X : Nat} : kept ((false, X) :: L) = X :: kept L := rfl

@[simp] theorem reduced_reduced {X : Nat} : reduced ((true, X) :: L) = X :: reduced L := rfl

@[simp] theorem reduced_kept {X : Nat} : reduced ((false, X) :: L) = 1 :: reduced L := rfl

theorem prod_sizes : (sizes L).prod = (kept L).prod * (reduced L).prod := by
  induction L with
  | nil => rfl
  | cons a L ih =>
    obtain ⟨_ | _, X⟩ := a
    · rw [sizes_cons, kept_kept, reduced_kept, List.prod_cons, List.prod_cons, List.prod_cons, ih]
      ring
    · rw [sizes_cons, kept_reduced, reduced_reduced, List.prod_cons, List.prod_cons, List.prod_cons, ih]
      ring

theorem sizes_all : (Axes.all D).sizes = D := by
  rw [sizes, Axes.all, List.map_map]
  exact List.map_id D

theorem reduced_all : (Axes.all D).reduced = D := by
  rw [reduced, Axes.all, List.map_map]
  exact List.map_id D

theorem kept_all : (Axes.all D).kept = List.replicate D.length 1 := by
  rw [kept, Axes.all, List.map_map]
  exact List.map_const'

theorem reducedFrom_all {k : Nat} : reducedFrom k (Axes.all D) = List.range' k D.length := by
  induction D generalizing k with
  | nil => rfl
  | cons X D ih =>
    rw [List.length_cons, List.range'_succ, ← ih]
    rfl

/-! ### Indices -/

theorem flatMap_single {α : Type} {l : List Nat} {a : Nat} (f : Nat → List α) (hl : l.Nodup) (ha : a ∈ l) :
    l.flatMap (fun x => if x = a then f x else []) = f a := by
  induction l with
  | nil => exact absurd ha List.not_mem_nil
  | cons x l ih =>
    obtain ⟨hx, hl⟩ := List.nodup_cons.mp hl
    rw [List.flatMap_cons]
    rcases List.mem_cons.mp ha with heq | ha
    · subst heq
      have hrest : l.flatMap (fun x => if x = a then f x else []) = [] :=
        List.flatMap_eq_nil_iff.mpr fun y hy => if_neg fun heq : y = a => hx (heq ▸ hy)
      rw [if_pos rfl, hrest, List.append_nil]
    · rw [if_neg fun heq : x = a => hx (heq ▸ ha), List.nil_append, ih hl ha]

/-- The elements that go into one output, in their order. -/
theorem filter_box (hd : d ∈ box (kept L)) :
    (box (sizes L)).filter (fun v => project (kept L) v = d) = (box (reduced L)).map (add d) := by
  induction L generalizing d with
  | nil =>
    obtain rfl := List.mem_singleton.mp hd
    rfl
  | cons a L ih =>
    obtain ⟨r, X⟩ := a
    have hmap : ∀ {M e x : Nat} {d' : SizeVector}, d' ∈ box (kept L) →
        ((box (sizes L)).map (x :: ·)).filter (fun v => project (M :: kept L) v = e :: d') =
          if x % M = e then ((box (reduced L)).map (add d')).map (x :: ·) else [] := by
      intro M e x d' hd'
      rw [← ih hd', List.filter_map]
      have hproject : ∀ v, project (M :: kept L) (x :: v) = x % M :: project (kept L) v := fun _ => rfl
      split_ifs with hx
      · simp [Function.comp_def, hproject, hx]
      · simp [Function.comp_def, hproject, hx]
    rw [mem_box] at hd
    rw [sizes_cons, box, List.filter_flatMap]
    rcases r with _ | _
    · rw [kept_kept] at hd
      obtain ⟨d₀, d', hd₀, hd', rfl⟩ := List.forall₂_cons_right_iff.mp hd
      rw [kept_kept, reduced_kept, box, List.range_one, List.flatMap_singleton, List.map_map]
      have hrows : ∀ x ∈ List.range X, ((box (sizes L)).map (x :: ·)).filter (fun v => project (X :: kept L) v = d₀ :: d') =
          if x = d₀ then ((box (reduced L)).map (add d')).map (x :: ·) else [] := by
        intro x hx
        rw [hmap (mem_box.mpr hd'), Nat.mod_eq_of_lt (List.mem_range.mp hx)]
      rw [List.flatMap_congr hrows, flatMap_single _ List.nodup_range (List.mem_range.mpr hd₀), List.map_map]
      rfl
    · rw [kept_reduced] at hd
      obtain ⟨d₀, d', hd₀, hd', rfl⟩ := List.forall₂_cons_right_iff.mp hd
      obtain rfl : d₀ = 0 := by omega
      rw [kept_reduced, reduced_reduced, box, List.map_flatMap]
      refine List.flatMap_congr fun x _ => ?_
      rw [hmap (mem_box.mpr hd'), if_pos (Nat.mod_one x), List.map_map, List.map_map]
      refine List.map_congr_left fun w _ => ?_
      show x :: add d' w = (0 + x) :: add d' w
      rw [Nat.zero_add]

theorem add_mem_box (hd : d ∈ box (kept L)) (hw : w ∈ box (reduced L)) : add d w ∈ box (sizes L) := by
  have hmem : add d w ∈ (box (sizes L)).filter (fun v => project (kept L) v = d) := by
    rw [filter_box hd]
    exact List.mem_map_of_mem hw
  exact (List.mem_filter.mp hmem).1

/-! ### The counters -/

theorem carry_append {as bs : List Nat} : carry D (as ++ bs) c = (do
    let next ← carry D as c
    if next.1.isSome then return next
    else
      let rest ← carry D bs next.2.2
      return (rest.1, next.2.1 || rest.2.1, rest.2.2)) := by
  induction as generalizing c with
  | nil =>
    rw [List.nil_append, carry]
    simp
  | cons a as ih =>
    rw [List.cons_append, carry, carry]
    rcases elemAt "counters[axis]" c a with _ | counter
    · rfl
    · rcases elemAt "dims[axis]" D a with _ | dim
      · rfl
      · simp only [ok_bind]
        by_cases hlt : counter + 1 < dim
        · rw [if_pos hlt, if_pos hlt]
          rfl
        · rw [if_neg hlt, if_neg hlt, ih]
          rcases carry D as (c.set a 0) with _ | ⟨_ | _, carried, c'⟩
          · rfl
          · simp only [ok_bind, pure_bind, Option.isSome_none, Bool.false_eq_true, if_false]
            rcases carry D bs c' with _ | rest
            · rfl
            · rfl
          · rfl

theorem parallel_it_step_of_carry {x X : Nat} (h : (parallel_it_step w D).1 = true) :
    parallel_it_step (x :: w) (X :: D) = ((x + 1) % X == 0, (x + 1) % X :: (parallel_it_step w D).2) := by
  rw [parallel_it_step]
  rcases hstep : parallel_it_step w D with ⟨carry, xs⟩
  rw [hstep] at h
  obtain rfl : carry = true := h
  rfl

theorem parallel_it_step_of_not_carry {x X : Nat} (h : (parallel_it_step w D).1 = false) :
    parallel_it_step (x :: w) (X :: D) = (false, x :: (parallel_it_step w D).2) := by
  rw [parallel_it_step]
  rcases hstep : parallel_it_step w D with ⟨carry, xs⟩
  rw [hstep] at h
  obtain rfl : carry = false := h
  rfl

/-- The loop over the reduced axes takes an index of the walk to the next one, and resets all when it was the last. -/
theorem carry_reducedFrom {pre preD : SizeVector} (hpre : preD.length = pre.length) (hd : d ∈ box (kept L))
    (hw : w ∈ box (reduced L)) : ∃ hit carried,
      carry (preD ++ sizes L) (reducedFrom pre.length L).reverse (pre ++ add d w) =
        .ok (hit, carried, pre ++ add d (parallel_it_step w (reduced L)).2) ∧
      (hit = none ↔ (parallel_it_step w (reduced L)).1 = true) := by
  induction L generalizing pre preD d w with
  | nil =>
    obtain rfl := List.mem_singleton.mp hd
    obtain rfl := List.mem_singleton.mp hw
    exact ⟨none, false, rfl, by simp [parallel_it_step]⟩
  | cons a L ih =>
    obtain ⟨r, X⟩ := a
    rw [mem_box] at hd hw
    rcases r with _ | _
    · rw [kept_kept] at hd
      rw [reduced_kept] at hw
      obtain ⟨d₀, d', -, hd', rfl⟩ := List.forall₂_cons_right_iff.mp hd
      obtain ⟨w₀, w', hw₀, hw', rfl⟩ := List.forall₂_cons_right_iff.mp hw
      obtain rfl : w₀ = 0 := by omega
      obtain ⟨hit, carried, hrun, hnone⟩ := ih
        (show (preD ++ [X]).length = (pre ++ [d₀]).length by simp [hpre])
        (mem_box.mpr hd') (mem_box.mpr hw')
      have hstep : parallel_it_step (0 :: w') (1 :: reduced L) =
          ((parallel_it_step w' (reduced L)).1, 0 :: (parallel_it_step w' (reduced L)).2) := by
        rw [parallel_it_step]
        rcases parallel_it_step w' (reduced L) with ⟨_ | _, xs⟩
        · rfl
        · rfl
      refine ⟨hit, carried, ?_, by rw [reduced_kept, hstep]; exact hnone⟩
      rw [reduced_kept, hstep, sizes_cons]
      simpa [add, reducedFrom] using hrun
    · rw [kept_reduced] at hd
      rw [reduced_reduced] at hw
      obtain ⟨d₀, d', hd₀, hd', rfl⟩ := List.forall₂_cons_right_iff.mp hd
      obtain ⟨w₀, w', hw₀, hw', rfl⟩ := List.forall₂_cons_right_iff.mp hw
      obtain rfl : d₀ = 0 := by omega
      obtain ⟨hit, carried, hrun, hnone⟩ := ih
        (show (preD ++ [X]).length = (pre ++ [w₀]).length by simp [hpre])
        (mem_box.mpr hd') (mem_box.mpr hw')
      have hrun : carry (preD ++ X :: sizes L) (reducedFrom (pre.length + 1) L).reverse (pre ++ w₀ :: add d' w') =
          .ok (hit, carried, pre ++ w₀ :: add d' (parallel_it_step w' (reduced L)).2) := by
        simpa using hrun
      have hadd : ∀ x xs, add (0 :: d') (x :: xs) = x :: add d' xs := fun x xs => by
        show (0 + x) :: add d' xs = _
        rw [Nat.zero_add]
      have haxes : (reducedFrom pre.length ((true, X) :: L)).reverse = (reducedFrom (pre.length + 1) L).reverse ++ [pre.length] := by
        rw [reducedFrom, if_pos rfl, List.reverse_cons]
      rw [haxes, carry_append, sizes_cons, hadd, hrun, ok_bind, reduced_reduced]
      rcases hcarry : (parallel_it_step w' (reduced L)).1 with _ | _
      · -- A counter behind this axis has been advanced.
        have hsome : hit.isSome := by
          rw [Option.isSome_iff_ne_none]
          exact fun h => Bool.false_ne_true (hcarry.symm.trans (hnone.mp h))
        rw [parallel_it_step_of_not_carry hcarry, if_pos hsome, hadd]
        exact ⟨hit, carried, rfl, by rw [hnone, hcarry]⟩
      · obtain rfl := hnone.mpr hcarry
        have hcounter : elemAt "counters[axis]" (pre ++ w₀ :: add d' (parallel_it_step w' (reduced L)).2) pre.length = .ok w₀ :=
          elemAt_ok_iff.mpr ⟨Nat.cast_nonneg _, by simp⟩
        have hdim : elemAt "dims[axis]" (preD ++ X :: sizes L) pre.length = .ok X :=
          elemAt_ok_iff.mpr ⟨Nat.cast_nonneg _, by simp [← hpre]⟩
        rw [parallel_it_step_of_carry hcarry, hadd]
        simp only [Option.isSome_none, Bool.false_eq_true, if_false, carry, hcounter, hdim, ok_bind]
        by_cases hlt : w₀ + 1 < X
        · refine ⟨some pre.length, carried || false, ?_, ?_⟩
          · rw [if_pos hlt, Nat.mod_eq_of_lt hlt]
            simp [pure, Except.pure, bind, Except.bind]
          · simp [Nat.mod_eq_of_lt hlt]
        · have hlast : w₀ + 1 = X := by omega
          refine ⟨none, carried || true, ?_, ?_⟩
          · rw [if_neg hlt, hlast, Nat.mod_self]
            simp [pure, Except.pure, bind, Except.bind]
          · simp [hlast]

theorem carry_decode {i : Nat} (hd : d ∈ box (kept L)) (hpos : 0 < (reduced L).prod) : ∃ hit carried,
    carry (sizes L) (reducedFrom 0 L).reverse (add d (decode (reduced L) i)) =
      .ok (hit, carried, add d (decode (reduced L) (i + 1))) := by
  have hdecode : decode (reduced L) i = decode (reduced L) (i % (reduced L).prod) := by
    conv_lhs => rw [← Nat.div_add_mod' i (reduced L).prod, decode_mul_add]
  have hmem : decode (reduced L) i ∈ box (reduced L) := by
    rw [hdecode]
    exact decode_mem_box (Nat.mod_lt _ hpos)
  obtain ⟨hit, carried, hrun, -⟩ := carry_reducedFrom
    (show ([] : SizeVector).length = ([] : SizeVector).length from rfl) hd hmem
  rw [parallel_it_step_decode hpos] at hrun
  exact ⟨hit, carried, hrun⟩

theorem zero_add (w : SizeVector) : add (List.replicate w.length 0) w = w := by
  induction w with
  | nil => rfl
  | cons x w ih =>
    show (0 + x) :: add (List.replicate w.length 0) w = x :: w
    rw [Nat.zero_add, ih]

/-- The loop over all axes. -/
theorem carry_all {i : Nat} (hpos : 0 < D.prod) : ∃ hit carried,
    carry D (List.range D.length).reverse (decode D i) = .ok (hit, carried, decode D (i + 1)) := by
  have horigin : List.replicate D.length 0 ∈ box (kept (Axes.all D)) := by
    rw [kept_all, mem_box, List.forall₂_iff_get]
    refine ⟨by rw [List.length_replicate, List.length_replicate], fun j _ _ => ?_⟩
    simp
  obtain ⟨hit, carried, hrun⟩ := carry_decode (i := i) horigin (by rwa [reduced_all])
  have hadd : ∀ j, add (List.replicate D.length 0) (decode D j) = decode D j := fun j => by
    rw [← length_decode (D := D) (k := j)]
    exact zero_add _
  rw [sizes_all, reducedFrom_all, reduced_all, hadd, hadd, ← List.range_eq_range'] at hrun
  exact ⟨hit, carried, hrun⟩

/-! ### The index of a cursor -/

theorem project_cons {X x : Nat} : project (X :: K) (x :: v) = x % X :: project K v := rfl

theorem length_project (h : v.length = K.length) : (project K v).length = K.length := by
  rw [project, List.length_zipWith, h, min_self]

theorem project_lt (hK : 0 ∉ K) (h : v.length = K.length) : List.Forall₂ (· < ·) (project K v) K := by
  induction K generalizing v with
  | nil =>
    obtain rfl := List.eq_nil_of_length_eq_zero h
    exact .nil
  | cons X K ih =>
    obtain ⟨hX, hK⟩ := List.ne_and_not_mem_of_not_mem_cons hK
    rcases v with _ | ⟨x, v⟩
    · cases h
    · exact .cons (Nat.mod_lt x (Nat.pos_of_ne_zero (Ne.symm hX))) (ih hK (Nat.succ.inj h))

theorem project_self (hv : List.Forall₂ (· < ·) v D) : project D v = v := by
  induction hv with
  | nil => rfl
  | cons hd _ ih => rw [project_cons, ih, Nat.mod_eq_of_lt hd]

/-- With the strides of the shape, the index is the number of the counters in it. -/
theorem sum_strides (h : v.length = K.length) :
    ∑ j ∈ Finset.range K.length, v.getD j 0 % K.getD j 0 * (BlockingDesc.fillStrides K).getD j 0 ≡
      encode K (project K v) [MOD 2 ^ 64] := by
  induction K generalizing v with
  | nil => rfl
  | cons X K ih =>
    rcases v with _ | ⟨x, v⟩
    · cases h
    · obtain ⟨stride, hstrides, hmod, -⟩ := BlockingDesc.fillStrides_cons (D := K) X
      rw [List.length_cons, Finset.sum_range_succ', hstrides, project_cons, encode, Nat.add_comm]
      exact (hmod.mul_left (x % X)).add (ih (Nat.succ.inj h))

theorem getElem?_of_lt {l : SizeVector} {j : Nat} (h : j < l.length) : l[j]? = some (l.getD j 0) := by
  rw [List.getElem?_eq_getElem h, List.getD_eq_getElem _ _ h]

theorem elemAt_getD {e : String} {l : SizeVector} {j : Nat} (h : j < l.length) : elemAt e l j = .ok (l.getD j 0) :=
  elemAt_ok_iff.mpr ⟨Nat.cast_nonneg j, getElem?_of_lt h⟩

theorem lt_length_strides {a : Nat} (h : a < K.length) : a < (BlockingDesc.fillStrides K).length := by
  rwa [BlockingDesc.length_fillStrides]

theorem index_eq (hK : 0 ∉ K) (hsmall : K.prod < 2 ^ 64) (hc : c.length = K.length) :
    index K (BlockingDesc.fillStrides K) c = .ok (encode K (project K c)) := by
  let I (pre : List Nat) (idx : Nat) : Prop :=
    idx = toSizeT (∑ j ∈ Finset.range pre.length, c.getD j 0 % K.getD j 0 * (BlockingDesc.fillStrides K).getD j 0 : Nat)
  have hrun : ∃ idx, index K (BlockingDesc.fillStrides K) c = .ok idx ∧ I (List.range K.length) idx := by
    have hstart : I [] 0 := rfl
    unfold index
    refine exists_foldlM_ok hstart fun pre j post idx hrange hI => ?_
    have hj : pre.length = j ∧ j < K.length := by
      have hget : (List.range K.length)[pre.length]? = some j := by rw [hrange]; simp
      obtain ⟨hlt, heq⟩ := List.getElem?_eq_some_iff.mp hget
      rw [List.length_range] at hlt
      rw [List.getElem_range] at heq
      exact ⟨heq, heq ▸ hlt⟩
    obtain ⟨rfl, hj⟩ := hj
    have hdim : K.getD pre.length 0 ≠ 0 := by
      rw [List.getD_eq_getElem _ _ hj]
      exact fun h => hK (h ▸ List.getElem_mem hj)
    rw [elemAt_getD (hc ▸ hj), ok_bind, elemAt_getD hj, ok_bind, elemAt_getD (lt_length_strides hj), ok_bind,
      if_neg hdim]
    refine ⟨_, rfl, ?_⟩
    show _ = toSizeT _
    rw [hI, List.length_append, List.length_singleton, Finset.sum_range_succ]
    exact toSizeT_congr ((toSizeT_modEq.add_right _).trans (Nat.ModEq.refl _))
  obtain ⟨idx, hrun, hidx⟩ := hrun
  rw [hrun, hidx, List.length_range]
  exact congrArg _ (toSizeT_eq_of_modEq (sum_strides hc) ((encode_lt (project_lt hK hc)).trans hsmall))

/-- The index belongs to the counters, unless it is to be put together anew. -/
def Synced (K : SizeVector) (c : Cursor) : Prop := c.update_idx = false → c.idx = encode K (project K c.counters)

theorem synced_of_update {c : Cursor} (h : c.update_idx = true) : Synced K c :=
  fun hc => Bool.noConfusion (h.symm.trans hc)

/-- `move` takes the index along when a counter advances, and is defined at every axis. -/
structure Moves (D K : SizeVector) (move : Nat → Nat → Result Nat) : Prop where
  exact : ∀ {v : SizeVector} {a x X : Nat}, v.length = D.length → v[a]? = some x → D[a]? = some X → x + 1 < X →
    move (encode K (project K v)) a = .ok (encode K (project K (v.set a (x + 1))))
  total : ∀ idx a, a < D.length → ∃ idx', move idx a = .ok idx'

theorem refresh_ok {c : Cursor} (hc : Synced K c) (hK : 0 ∉ K) (hsmall : K.prod < 2 ^ 64)
    (hlength : c.counters.length = K.length) : c.refresh K (BlockingDesc.fillStrides K) =
      .ok { counters := c.counters, idx := encode K (project K c.counters), update_idx := false } := by
  unfold Cursor.refresh
  split_ifs with hupdate
  · rw [index_eq hK hsmall hlength]
    rfl
  · have hupdate : c.update_idx = false := by simpa using hupdate
    rw [← hc hupdate, ← hupdate]
    rfl

theorem carry_not_carried {axes : List Nat} {hit : Option Nat} {v' : SizeVector} (h : carry D axes v = .ok (hit, false, v')) :
    hit = none ∧ v' = v ∨ ∃ a x X, hit = some a ∧ v[a]? = some x ∧ D[a]? = some X ∧ x + 1 < X ∧ v' = v.set a (x + 1) := by
  rcases axes with _ | ⟨a, axes⟩
  · obtain ⟨rfl, hrest⟩ := Prod.mk.inj (pure_ok_iff.mp h)
    exact .inl ⟨rfl, (Prod.mk.inj hrest).2.symm⟩
  · rw [carry] at h
    simp only [bind_ok_iff, elemAt_ok_iff] at h
    obtain ⟨x, ⟨-, hx⟩, X, ⟨-, hX⟩, h⟩ := h
    split_ifs at h with hlt
    · obtain ⟨rfl, hrest⟩ := Prod.mk.inj (pure_ok_iff.mp h)
      exact .inr ⟨a, x, X, rfl, hx, hX, hlt, (Prod.mk.inj hrest).2.symm⟩
    · obtain ⟨next, -, h⟩ := bind_ok_iff.mp h
      obtain ⟨-, h⟩ := Prod.mk.inj (pure_ok_iff.mp h)
      exact absurd (Prod.mk.inj h).1 (by decide)

theorem carry_hit_lt {axes : List Nat} {a : Nat} {carried : Bool} {v' : SizeVector}
    (h : carry D axes v = .ok (some a, carried, v')) : a < D.length := by
  induction axes generalizing v carried v' with
  | nil =>
    obtain ⟨h, -⟩ := Prod.mk.inj (pure_ok_iff.mp h)
    cases h
  | cons b axes ih =>
    rw [carry] at h
    simp only [bind_ok_iff, elemAt_ok_iff] at h
    obtain ⟨x, ⟨-, hx⟩, X, ⟨-, hX⟩, h⟩ := h
    split_ifs at h with hlt
    · obtain ⟨h, -⟩ := Prod.mk.inj (pure_ok_iff.mp h)
      obtain rfl := Option.some_inj.mp h
      exact (List.getElem?_eq_some_iff.mp hX).1
    · obtain ⟨⟨hit, carried', v''⟩, hnext, h⟩ := bind_ok_iff.mp h
      obtain ⟨rfl, -⟩ := Prod.mk.inj (pure_ok_iff.mp h)
      exact ih hnext

theorem advance_ok {idx : Nat} {axes : List Nat} {hit : Option Nat} {carried : Bool} {v' : SizeVector}
    {move : Nat → Nat → Result Nat} (hmove : Moves D K move) (hlength : v.length = D.length)
    (hidx : idx = encode K (project K v)) (hcarry : carry D axes.reverse v = .ok (hit, carried, v')) :
    ∃ c, Cursor.advance { counters := v, idx, update_idx := false } D axes move = .ok c ∧ c.counters = v' ∧ Synced K c := by
  unfold Cursor.advance
  rw [hcarry, ok_bind]
  rcases carried with _ | _
  · rcases carry_not_carried hcarry with ⟨rfl, rfl⟩ | ⟨a, x, X, rfl, hx, hX, hlt, rfl⟩
    · exact ⟨_, rfl, rfl, fun _ => hidx⟩
    · have hexact := hmove.exact hlength hx hX hlt
      dsimp only
      rw [hidx, hexact]
      exact ⟨_, rfl, rfl, fun _ => rfl⟩
  · rcases hit with _ | a
    · exact ⟨_, rfl, rfl, synced_of_update rfl⟩
    · obtain ⟨idx', hmoved⟩ := hmove.total idx a (carry_hit_lt hcarry)
      dsimp only
      rw [hmoved]
      exact ⟨_, rfl, rfl, synced_of_update rfl⟩

/-! ### How an index moves -/

theorem encode_set {a y : Nat} (h : v.length = K.length) (ha : a < K.length) :
    encode K (v.set a y) + v.getD a 0 * (K.drop (a + 1)).prod = encode K v + y * (K.drop (a + 1)).prod := by
  induction K generalizing v a with
  | nil => exact absurd ha (Nat.not_lt_zero a)
  | cons X K ih =>
    rcases v with _ | ⟨x, v⟩
    · cases h
    · rcases a with _ | a
      · rw [List.set_cons_zero, List.getD_cons_zero, encode, encode, List.drop_succ_cons, List.drop_zero]
        omega
      · have hrest := ih (Nat.succ.inj h) (Nat.lt_of_succ_lt_succ ha)
        rw [List.set_cons_succ, List.getD_cons_succ, encode, encode, List.drop_succ_cons]
        omega

theorem stride_modEq {a : Nat} (ha : a < K.length) :
    (BlockingDesc.fillStrides K).getD a 0 ≡ (K.drop (a + 1)).prod [MOD 2 ^ 64] := by
  induction K generalizing a with
  | nil => exact absurd ha (Nat.not_lt_zero a)
  | cons X K ih =>
    obtain ⟨stride, hstrides, hmod, -⟩ := BlockingDesc.fillStrides_cons (D := K) X
    rw [hstrides]
    rcases a with _ | a
    · exact hmod
    · exact ih (Nat.lt_of_succ_lt_succ ha)

theorem project_set {a y : Nat} (h : v.length = K.length) :
    project K (v.set a y) = (project K v).set a (y % K.getD a 0) := by
  induction K generalizing v a with
  | nil =>
    obtain rfl := List.eq_nil_of_length_eq_zero h
    rfl
  | cons X K ih =>
    rcases v with _ | ⟨x, v⟩
    · cases h
    · rcases a with _ | a
      · rfl
      · rw [List.set_cons_succ, project_cons, ih (Nat.succ.inj h), project_cons, List.set_cons_succ, List.getD_cons_succ]

/-- A counter that advances moves the index by the stride. -/
theorem encode_advance {a x : Nat} (hK : 0 ∉ K) (hsmall : K.prod < 2 ^ 64) (h : v.length = K.length) (hx : v[a]? = some x)
    (hlt : x + 1 < K.getD a 0) : toSizeT (encode K (project K v) + (BlockingDesc.fillStrides K).getD a 0 : Nat) =
      encode K (project K (v.set a (x + 1))) := by
  have ha : a < K.length := by
    obtain ⟨ha, -⟩ := List.getElem?_eq_some_iff.mp hx
    exact h ▸ ha
  have hvalue : (project K v).getD a 0 = x := by
    rw [List.getD_eq_getElem?_getD, project, List.getElem?_zipWith, hx, getElem?_of_lt ha]
    exact Nat.mod_eq_of_lt (by omega)
  have hset := encode_set (y := x + 1) (length_project h) ha
  rw [hvalue] at hset
  have hbound := encode_lt (project_lt hK (by rw [List.length_set]; exact h : (v.set a (x + 1)).length = K.length))
  rw [project_set h, Nat.mod_eq_of_lt hlt] at hbound ⊢
  refine toSizeT_eq_of_modEq (((stride_modEq ha).add_left _).trans ?_) (hbound.trans hsmall)
  rw [Nat.succ_mul] at hset
  rw [show encode K (project K v) + (K.drop (a + 1)).prod = encode K ((project K v).set a (x + 1)) by omega]

theorem moves_source (hD : 0 ∉ D) (hsmall : D.prod < 2 ^ 64) : Moves D D (moveSource (BlockingDesc.fillStrides D)) := by
  refine ⟨fun {v a x X} hv hx hX hlt => ?_, fun idx a ha => ?_⟩
  · have ha := (List.getElem?_eq_some_iff.mp hX).1
    have hdim : D.getD a 0 = X := by rw [List.getD_eq_getElem?_getD, hX, Option.getD_some]
    rw [moveSource, elemAt_getD (lt_length_strides ha), ok_bind,
      encode_advance hD hsmall hv hx (hdim ▸ hlt)]
    rfl
  · rw [moveSource, elemAt_getD (lt_length_strides ha)]
    exact ⟨_, rfl⟩

theorem kept_getD (L : Axes) (a : Nat) : (kept L).getD a 0 ≤ 1 ∨ (kept L).getD a 0 = (sizes L).getD a 0 := by
  induction L generalizing a with
  | nil => exact .inr rfl
  | cons b L ih =>
    obtain ⟨r, X⟩ := b
    rcases a with _ | a
    · rcases r with _ | _
      · exact .inr rfl
      · exact .inl (le_refl 1)
    · rcases r with _ | _
      · exact ih a
      · exact ih a

theorem moves_target (hK : 0 ∉ kept L) (hsmall : (kept L).prod < 2 ^ 64) :
    Moves (sizes L) (kept L) (moveTarget (kept L) (BlockingDesc.fillStrides (kept L))) := by
  have hlengths : (sizes L).length = (kept L).length := by rw [length_sizes, length_kept]
  refine ⟨fun {v a x X} hv hx hX hlt => ?_, fun idx a ha => ?_⟩
  · have ha := (List.getElem?_eq_some_iff.mp hX).1
    have hdim : (sizes L).getD a 0 = X := by rw [List.getD_eq_getElem?_getD, hX, Option.getD_some]
    rw [hlengths] at ha hv
    rw [moveTarget, elemAt_getD ha, ok_bind]
    split_ifs with hone
    · -- A reduced axis: the index of the output stays.
      have hne : (kept L).getD a 0 ≠ 0 := by
        rw [List.getD_eq_getElem _ _ ha]
        exact fun h => hK (h ▸ List.getElem_mem ha)
      have hone : (kept L).getD a 0 = 1 := by omega
      have hvalue : (project (kept L) v)[a]? = some 0 := by
        rw [project, List.getElem?_zipWith, hx, getElem?_of_lt ha, hone]
        exact congrArg some (Nat.mod_one x)
      obtain ⟨hlt', hvalue⟩ := List.getElem?_eq_some_iff.mp hvalue
      have hset := List.set_getElem_self hlt'
      rw [hvalue] at hset
      rw [project_set hv, hone, Nat.mod_one, hset]
      rfl
    · have hkept := (kept_getD L a).resolve_left hone
      rw [elemAt_getD (lt_length_strides ha), ok_bind,
        encode_advance hK hsmall hv hx (by rw [hkept, hdim]; exact hlt)]
      rfl
  · rw [hlengths] at ha
    rw [moveTarget, elemAt_getD ha, ok_bind]
    split_ifs
    · exact ⟨_, rfl⟩
    · rw [elemAt_getD (lt_length_strides ha)]
      exact ⟨_, rfl⟩

end ReduceConstInfer

end OpenVino.InferenceEngine.ShapeInfer
