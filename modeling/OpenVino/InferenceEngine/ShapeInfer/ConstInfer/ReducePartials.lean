import OpenVino.InferenceEngine.ShapeInfer.ConstInfer.ReduceOutputs

/-!
# Reduction by elements

With the elements split between the threads, each thread adds the elements of its `part` to partial results of its own
(`partials_accumulated`), and at the end the partial results of an output are combined in the order of the threads
(`reducePartials_eq`).
-/

namespace OpenVino.InferenceEngine.ShapeInfer

namespace ReduceConstInfer

open Axes

variable {w : Nat} {L : Axes} {D K v d : SizeVector} {xs : List (BitVec 32)} {zs out : List (BitVec w)}
  {z : BitVec w} {t : ReduceType} {nthr : Nat}

/-- The output that the element goes into, by numbers. -/
def outputOf (L : Axes) (e : Nat) : Nat := encode (kept L) (project (kept L) (decode (sizes L) e))

/-- The elements of the thread `ithr`. -/
def part (n nthr ithr : Nat) : List Nat :=
  List.range' (splitter n nthr ithr).1 ((splitter n nthr ithr).2 - (splitter n nthr ithr).1)

/-- The partial result of a thread. -/
def partialValue (t : ReduceType) (z : BitVec w) (L : Axes) (xs : List (BitVec 32)) (nthr ithr d : Nat) :
    BitVec w :=
  (((part (sizes L).prod nthr ithr).filter (outputOf L · = d)).map (xs.getD · 0)).foldl (func1 t) z

/-- What becomes of the partial results of an output. -/
def combinedValue (t : ReduceType) (z : BitVec w) (L : Axes) (xs : List (BitVec 32)) (nthr d : Nat) : BitVec w :=
  (List.range' 1 (nthr - 1)).foldl
    (fun x ithr => func2 t x ((partialValue t z L xs nthr ithr d).setWidth 32))
    (partialValue t z L xs nthr 0 d)

theorem length_projected {e : Nat} : (decode (sizes L) e).length = (kept L).length := by
  rw [length_decode, length_sizes, length_kept]

theorem outputOf_lt (hK : 0 ∉ kept L) (e : Nat) : outputOf L e < (kept L).prod := encode_lt (project_lt hK length_projected)

/-! ### The elements of a thread -/

/-- The place of the partial result that a thread adds an element to. -/
def target (L : Axes) (p : Nat × Nat) : Nat := p.1 * (kept L).prod + outputOf L p.2

/-- The partial results, with these elements of these threads added. -/
def Partials (t : ReduceType) (z : BitVec w) (L : Axes) (xs : List (BitVec 32)) (nthr : Nat)
    (done : List (Nat × Nat)) (out : List (BitVec w)) : Prop :=
  Accumulated (func1 t) (List.replicate (nthr * (kept L).prod) z) (target L) (fun p => xs.getD p.2 0) done out

theorem accumulate_ok {i e : Nat} (hi : i < out.length) (he : e < xs.length) : ∃ x, out[i]? = some x ∧
    accumulate xs t out i e = .ok (out.set i (func1 t x (xs.getD e 0))) := by
  refine ⟨out[i], List.getElem?_eq_getElem hi, ?_⟩
  have hx : elemAt "reduce_prod[i]" out (i : Nat) = .ok out[i] :=
    elemAt_ok_iff.mpr ⟨Nat.cast_nonneg i, List.getElem?_eq_getElem hi⟩
  have hy : elemAt "src_data[src_idx]" xs (e : Nat) = .ok (xs.getD e 0) :=
    elemAt_ok_iff.mpr ⟨Nat.cast_nonneg e, by rw [Int.toNat_natCast, List.getElem?_eq_getElem he, List.getD_eq_getElem _ _ he]⟩
  unfold accumulate
  rw [hx, ok_bind, hy, ok_bind, assign_ok hi]

theorem target_lt {ithr e : Nat} (hK : 0 ∉ kept L) (hithr : ithr < nthr) : target L (ithr, e) < nthr * (kept L).prod := by
  have hlt := outputOf_lt hK e
  have hle := Nat.mul_le_mul_right (kept L).prod (show ithr + 1 ≤ nthr from hithr)
  rw [Nat.succ_mul] at hle
  show ithr * (kept L).prod + outputOf L e < _
  omega

theorem sourceSize_eq {X : Nat} (hsmall : (X :: D).prod < 2 ^ 64) :
    sourceSize (X :: D) (BlockingDesc.fillStrides (X :: D)) = .ok (X :: D).prod := by
  obtain ⟨stride, hstrides, hmod, -⟩ := BlockingDesc.fillStrides_cons (D := D) X
  have hsize : toSizeT (stride * X : Nat) = (X :: D).prod := by
    refine toSizeT_eq_of_modEq ?_ hsmall
    rw [List.prod_cons, Nat.mul_comm X]
    exact hmod.mul_right X
  rw [hstrides, ← hsize]
  rfl

/-- What a thread of the team needs: its part ends inside the tensor. -/
theorem exists_thread_parts {n : Nat} (hnthr : 1 ≤ nthr) (hfits : n + nthr ≤ 2 ^ 64) :
    (∀ ithr < nthr, ∀ e ∈ part n nthr ithr, e < n) ∧ (List.range nthr).flatMap (part n nthr) = List.range n := by
  obtain ⟨f, hzero, hend, hmono, hparts⟩ := exists_parts hnthr hfits
  have hpart : ∀ ithr < nthr, part n nthr ithr = List.range' (f ithr) (f (ithr + 1) - f ithr) := by
    intro ithr hithr
    rw [part, hparts ithr hithr]
  have hall : (List.range nthr).flatMap (part n nthr) = List.range n := by
    have hflat := flatMap_range' hzero hmono
    rw [hend] at hflat
    rw [← hflat]
    exact List.flatMap_congr fun ithr hithr => hpart ithr (List.mem_range.mp hithr)
  refine ⟨fun ithr hithr e he => ?_, hall⟩
  have hmem : e ∈ (List.range nthr).flatMap (part n nthr) := List.mem_flatMap.mpr ⟨ithr, List.mem_range.mpr hithr, he⟩
  rw [hall] at hmem
  exact List.mem_range.mp hmem

theorem wholePart_ok {ithr : Nat} {done : List (Nat × Nat)} (hL : sizes L ≠ []) (hone : (kept L).prod = 1)
    (hsmall : (sizes L).prod < 2 ^ 64) (hxs : xs.length = (sizes L).prod) (hithr : ithr < nthr)
    (hin : ∀ e ∈ part (sizes L).prod nthr ithr, e < (sizes L).prod) (hout : Partials t z L xs nthr done out) :
    ∃ out', wholePart nthr (sizes L) (BlockingDesc.fillStrides (sizes L)) xs t ithr out = .ok out' ∧
      Partials t z L xs nthr (done ++ (part (sizes L).prod nthr ithr).map (ithr, ·)) out' := by
  have hK : 0 ∉ kept L := fun h => absurd (List.prod_eq_zero_iff.mpr h) (by rw [hone]; decide)
  have htarget : ∀ e, target L (ithr, e) = ithr := fun e => by
    have hlt := outputOf_lt hK e
    show ithr * (kept L).prod + outputOf L e = ithr
    rw [hone] at hlt ⊢
    omega
  obtain ⟨X, D, hD⟩ := List.exists_cons_of_ne_nil hL
  unfold wholePart
  rw [hD, sourceSize_eq (hD ▸ hsmall), ok_bind, ← hD]
  obtain ⟨out', hrun, hout', -⟩ := Accumulated.foldlM (v := id) (I := fun _ _ => True) (s := out) hout trivial
    (l := (part (sizes L).prod nthr ithr).map (ithr, ·)) (g := fun reduce_prod p => accumulate xs t reduce_prod ithr p.2)
    fun pre p post s hl _ hlength => by
    have hp : p ∈ (part (sizes L).prod nthr ithr).map (ithr, ·) := hl ▸ List.mem_append_right pre List.mem_cons_self
    obtain ⟨e, he, rfl⟩ := List.mem_map.mp hp
    rw [List.length_replicate] at hlength
    have hlt : ithr < s.length := by
      show ithr < (id s).length
      rwa [hlength, hone, Nat.mul_one]
    obtain ⟨x, hx, hrun⟩ := accumulate_ok (t := t) hlt (hxs ▸ hin e he)
    rw [htarget]
    exact ⟨_, x, hrun, hx, rfl, trivial⟩
  rw [List.foldlM_map] at hrun
  exact ⟨out', hrun, hout'⟩

theorem not_mem_kept (h : 0 ∉ sizes L) : 0 ∉ kept L := by
  intro hK
  refine h (List.prod_eq_zero_iff.mp ?_)
  rw [prod_sizes, List.prod_eq_zero_iff.mpr hK, Nat.zero_mul]

theorem kept_prod_le (h : 0 ∉ sizes L) : (kept L).prod ≤ (sizes L).prod := by
  have hpos := prod_pos_of_not_mem h
  rw [prod_sizes] at hpos ⊢
  exact Nat.le_mul_of_pos_right _ (Nat.pos_of_mul_pos_left hpos)

theorem inputPart_ok {ithr : Nat} {done : List (Nat × Nat)} (hL : sizes L ≠ []) (hD : 0 ∉ sizes L)
    (hsmall : (sizes L).prod < 2 ^ 64) (hxs : xs.length = (sizes L).prod) (hithr : ithr < nthr)
    (hin : ∀ e ∈ part (sizes L).prod nthr ithr, e < (sizes L).prod) (hout : Partials t z L xs nthr done out) :
    ∃ out', inputPart nthr (sizes L) (BlockingDesc.fillStrides (sizes L)) xs (kept L).prod (kept L) t ithr out =
        .ok out' ∧
      Partials t z L xs nthr (done ++ (part (sizes L).prod nthr ithr).map (ithr, ·)) out' := by
  have hK := not_mem_kept hD
  have hKsmall : (kept L).prod < 2 ^ 64 := (kept_prod_le hD).trans_lt hsmall
  have hlengths : (sizes L).length = (kept L).length := by rw [length_sizes, length_kept]
  obtain ⟨X, D, hsizes⟩ := List.exists_cons_of_ne_nil hL
  unfold inputPart
  dsimp only
  have hsource : sourceSize (sizes L) (BlockingDesc.fillStrides (sizes L)) = .ok (sizes L).prod := by
    rw [hsizes]
    exact sourceSize_eq (hsizes ▸ hsmall)
  rw [hsource, ok_bind, unravel_eq hD, ok_bind]
  let a := (splitter (sizes L).prod nthr ithr).1
  let I (pre : List (Nat × Nat)) (s : Walk w) : Prop :=
    s.cursor.counters = decode (sizes L) (a + pre.length) ∧ Synced (kept L) s.cursor
  let s₀ : Walk w := { cursor := { counters := decode (sizes L) a }, reduce_prod := out }
  have hstart : I [] s₀ := ⟨rfl, synced_of_update rfl⟩
  obtain ⟨s', hrun, hout', -⟩ := Accumulated.foldlM (v := Walk.reduce_prod) (I := I) (s := s₀) hout hstart
    (l := (part (sizes L).prod nthr ithr).map (ithr, ·)) (g := fun (s : Walk w) p => do
      let cursor ← s.cursor.refresh (kept L) (BlockingDesc.fillStrides (kept L))
      let reduce_prod ← accumulate xs t s.reduce_prod (ithr * (kept L).prod + cursor.idx) p.2
      let cursor ← cursor.advance (sizes L) (List.range (sizes L).length)
        (moveTarget (kept L) (BlockingDesc.fillStrides (kept L)))
      return { cursor, reduce_prod }) fun pre p post s hl hI hlength => by
    obtain ⟨hcounters, hsynced⟩ := hI
    have hp : p ∈ (part (sizes L).prod nthr ithr).map (ithr, ·) := hl ▸ List.mem_append_right pre List.mem_cons_self
    obtain ⟨e, he, rfl⟩ := List.mem_map.mp hp
    have hplace : e = a + pre.length := by
      have hget := congrArg (·[pre.length]?) hl
      simp only [part, List.getElem?_map, List.getElem?_append_right (le_refl _), Nat.sub_self, List.getElem?_cons_zero] at hget
      obtain ⟨e', he', heq⟩ := Option.map_eq_some_iff.mp hget
      obtain ⟨hlt, hvalue⟩ := List.getElem?_eq_some_iff.mp he'
      rw [List.getElem_range', Nat.one_mul] at hvalue
      rw [← (Prod.mk.inj heq).2, ← hvalue]
    rw [← hplace] at hcounters
    have hcount : s.cursor.counters.length = (kept L).length := by rw [hcounters, length_projected]
    rw [List.length_replicate] at hlength
    obtain ⟨x, hx, haccumulate⟩ := accumulate_ok (t := t) (i := target L (ithr, e))
      (hlength.symm ▸ target_lt hK hithr) (hxs ▸ hin e he)
    obtain ⟨hit, carried, hcarry⟩ := carry_all (D := sizes L) (i := e) (prod_pos_of_not_mem hD)
    obtain ⟨c, hadvance, hc, hsynced'⟩ := advance_ok (moves_target hK hKsmall) length_decode rfl hcarry
    refine ⟨{ cursor := c, reduce_prod := _ }, x, ?_, hx, rfl, ?_, hsynced'⟩
    · rw [refresh_ok hsynced hK hKsmall hcount, ok_bind, hcounters]
      have htarget : ithr * (kept L).prod + encode (kept L) (project (kept L) (decode (sizes L) e)) = target L (ithr, e) := rfl
      dsimp only
      rw [htarget, haccumulate, ok_bind, hadvance]
      rfl
    · rw [hc, hplace, List.length_append, List.length_singleton, Nat.add_assoc]
  rw [List.foldlM_map] at hrun
  refine ⟨s'.reduce_prod, ?_, hout'⟩
  have hrun' := congrArg (· >>= fun s : Walk w => (pure s.reduce_prod : Result _)) hrun
  exact hrun'

/-! ### All threads -/

/-- The pairs of the threads and their elements. -/
def pairs (n nthr : Nat) : List (Nat × Nat) := (List.range nthr).flatMap fun ithr => (part n nthr ithr).map (ithr, ·)

theorem partials_accumulated (hL : sizes L ≠ []) (hD : (kept L).prod = 1 ∨ 0 ∉ sizes L)
    (hsmall : (sizes L).prod < 2 ^ 64) (hxs : xs.length = (sizes L).prod) (hnthr : 1 ≤ nthr)
    (hfits : (sizes L).prod + nthr ≤ 2 ^ 64) :
    ∃ out, (List.range nthr).foldlM (fun reduce_prod ithr =>
        if (kept L).prod = 1 then
          wholePart nthr (sizes L) (BlockingDesc.fillStrides (sizes L)) xs t ithr reduce_prod
        else inputPart nthr (sizes L) (BlockingDesc.fillStrides (sizes L)) xs (kept L).prod (kept L) t ithr reduce_prod)
        (List.replicate (nthr * (kept L).prod) z) = .ok out ∧
      Partials t z L xs nthr (pairs (sizes L).prod nthr) out := by
  obtain ⟨hin, -⟩ := exists_thread_parts hnthr hfits
  let I (pre : List Nat) (out : List (BitVec w)) : Prop := Partials t z L xs nthr
    ((List.range pre.length).flatMap fun ithr => (part (sizes L).prod nthr ithr).map (ithr, ·)) out
  have hstart : I [] (List.replicate (nthr * (kept L).prod) z) := Accumulated.start _ _ _ _
  obtain ⟨out, hrun, hout⟩ := exists_foldlM_ok hstart (l := List.range nthr) (f := fun reduce_prod ithr =>
        if (kept L).prod = 1 then
          wholePart nthr (sizes L) (BlockingDesc.fillStrides (sizes L)) xs t ithr reduce_prod
        else inputPart nthr (sizes L) (BlockingDesc.fillStrides (sizes L)) xs (kept L).prod (kept L) t ithr reduce_prod)
    fun pre ithr post out hrange hI => by
    rw [List.range_eq_range'] at hrange
    obtain ⟨rfl, hpre⟩ := index_of_range' hrange
    rw [Nat.zero_add]
    have hnext : ∀ {out'}, Partials t z L xs nthr
        (((List.range pre.length).flatMap fun ithr => (part (sizes L).prod nthr ithr).map (ithr, ·)) ++
          (part (sizes L).prod nthr pre.length).map (pre.length, ·)) out' → I (pre ++ [pre.length]) out' := by
      intro out' h
      show Partials _ _ _ _ _ _ _
      rwa [List.length_append, List.length_singleton, List.range_succ, List.flatMap_append, List.flatMap_singleton]
    split_ifs with hone
    · obtain ⟨out', hrun, hout'⟩ := wholePart_ok hL hone hsmall hxs hpre (hin _ hpre) hI
      exact ⟨out', hrun, hnext hout'⟩
    · obtain ⟨out', hrun, hout'⟩ := inputPart_ok hL (hD.resolve_left hone) hsmall hxs hpre (hin _ hpre) hI
      exact ⟨out', hrun, hnext hout'⟩
  have hout : Partials t z L xs nthr
    ((List.range (List.range nthr).length).flatMap fun ithr => (part (sizes L).prod nthr ithr).map (ithr, ·)) out := hout
  rw [List.length_range] at hout
  exact ⟨out, hrun, hout⟩

/-- The partial results of the threads. -/
theorem Partials.getElem? {ithr e : Nat} (hK : 0 ∉ kept L) (h : Partials t z L xs nthr (pairs (sizes L).prod nthr) out)
    (hithr : ithr < nthr) (he : e < (kept L).prod) :
    out[ithr * (kept L).prod + e]? = some (partialValue t z L xs nthr ithr e) := by
  have hlt : ithr * (kept L).prod + e < nthr * (kept L).prod := by
    have hle := Nat.mul_le_mul_right (kept L).prod (show ithr + 1 ≤ nthr from hithr)
    rw [Nat.succ_mul] at hle
    omega
  have hvalue := h.value (ithr * (kept L).prod + e) z (by rw [List.getElem?_replicate, if_pos hlt])
  have hsame : ∀ u e', target L (u, e') = ithr * (kept L).prod + e ↔ u = ithr ∧ outputOf L e' = e := by
    intro u e'
    have hlt' := outputOf_lt hK e'
    show u * (kept L).prod + outputOf L e' = _ ↔ _
    have hdiv : ∀ {i j}, j < (kept L).prod → (i * (kept L).prod + j) / (kept L).prod = i := by
      intro i j hj
      rw [Nat.mul_comm, Nat.mul_add_div (by omega), Nat.div_eq_of_lt hj, Nat.add_zero]
    constructor
    · intro heq
      obtain rfl : u = ithr := (hdiv hlt').symm.trans ((congrArg (· / (kept L).prod) heq).trans (hdiv he))
      exact ⟨rfl, Nat.add_left_cancel heq⟩
    · rintro ⟨rfl, rfl⟩
      rfl
  have hfilter : (pairs (sizes L).prod nthr).filter (target L · = ithr * (kept L).prod + e) =
      ((part (sizes L).prod nthr ithr).filter (outputOf L · = e)).map (ithr, ·) := by
    rw [pairs, List.filter_flatMap]
    have hrows : ∀ u ∈ List.range nthr,
        ((part (sizes L).prod nthr u).map (u, ·)).filter (target L · = ithr * (kept L).prod + e) =
          if u = ithr then ((part (sizes L).prod nthr u).filter (outputOf L · = e)).map (u, ·) else [] := by
      intro u _
      rw [List.filter_map]
      split_ifs with ht
      · simp [Function.comp_def, hsame, ht]
      · simp [Function.comp_def, hsame, ht]
    rw [List.flatMap_congr hrows, flatMap_single _ List.nodup_range (List.mem_range.mpr hithr)]
  rw [hfilter, List.map_map] at hvalue
  exact hvalue

/-! ### The combination -/

theorem elemAt_ok {α : Type} {e : String} {l : List α} {i : Nat} {a : α} (h : l[i]? = some a) : elemAt e l i = .ok a :=
  elemAt_ok_iff.mpr ⟨Nat.cast_nonneg i, h⟩

/-- The loop over the partial results of one output changes the first of them. -/
theorem combine_ok {work e : Nat} {p : Nat → BitVec w} (he : e < work)
    (hp : ∀ ithr < nthr, out[e + ithr * work]? = some (p ithr)) (hnthr : 1 ≤ nthr) : ∃ out',
      combine nthr work t e out = .ok out' ∧ out'.length = out.length ∧ (∀ j, j ≠ e → out'[j]? = out[j]?) ∧
      out'[e]? = some ((List.range' 1 (nthr - 1)).foldl (fun x ithr => func2 t x ((p ithr).setWidth 32)) (p 0)) := by
  let f (x y : BitVec w) : BitVec w := func2 t x (y.setWidth 32)
  have hfirst : out[e]? = some (p 0) := by simpa using hp 0 hnthr
  have hkept : ∀ {done : List Nat} {out' : List (BitVec w)} {j : Nat},
      Accumulated f out (fun _ => e) p done out' → j ≠ e → out'[j]? = out[j]? := by
    intro done out' j h hj
    rcases hx : out[j]? with _ | x
    · rw [List.getElem?_eq_none_iff] at hx ⊢
      rwa [h.length]
    · rw [h.value j x hx]
      simp [Ne.symm hj]
  let I (pre : List Nat) (out' : List (BitVec w)) : Prop := Accumulated f out (fun _ => e) p pre out'
  have hstart : I [] out := Accumulated.start _ _ _ _
  obtain ⟨out', hrun, hout'⟩ := exists_foldlM_ok hstart (l := List.range' 1 (nthr - 1)) (f := fun reduce_prod (ithr : Nat) => do
      let x ← elemAt "reduce_prod[dst_idx]" reduce_prod e
      let y ← elemAt "reduce_prod[dst_idx + ithr]" reduce_prod (e + ithr * work : Nat)
      assign "reduce_prod[dst_idx]" reduce_prod e (func2 t x (y.setWidth 32))) fun pre ithr post s hrange hI => by
    obtain ⟨rfl, hpre⟩ := index_of_range' hrange
    have hx := hI.value e _ hfirst
    have hfar : e + (1 + pre.length) * work ≠ e := by
      have hpos := Nat.mul_le_mul_right work (show 1 ≤ 1 + pre.length by omega)
      omega
    have hy := (hkept hI hfar).trans (hp _ (by omega))
    rw [elemAt_ok hx, ok_bind, elemAt_ok hy, ok_bind, assign_ok (List.getElem?_eq_some_iff.mp hx).1]
    exact ⟨_, rfl, hI.set hx⟩
  refine ⟨out', hrun, hout'.length, fun j hj => hkept hout' hj, ?_⟩
  have hvalue := hout'.value e _ hfirst
  rw [List.filter_eq_self.mpr fun _ _ => by simp, List.foldl_map] at hvalue
  exact hvalue

/-- **Reduction by elements.** Each output gets the combination of its partial results. -/
theorem reducePartials_eq (hL : sizes L ≠ []) (hK : 0 ∉ kept L) (hD : (kept L).prod = 1 ∨ 0 ∉ sizes L)
    (hsmall : (sizes L).prod < 2 ^ 64) (hxs : xs.length = (sizes L).prod) (hzs : zs.length = (kept L).prod) (hnthr : 1 ≤ nthr)
    (hfits : (sizes L).prod + nthr ≤ 2 ^ 64) :
    reducePartials nthr (sizes L) (BlockingDesc.fillStrides (sizes L)) xs (kept L).prod (kept L) z t zs =
      .ok ((List.range (kept L).prod).map (combinedValue t z L xs nthr)) := by
  obtain ⟨out, hrun, hout⟩ := partials_accumulated (z := z) (t := t) hL hD hsmall hxs hnthr hfits
  unfold reducePartials
  rw [hrun, ok_bind]
  let I (pre : List Nat) (s : List (BitVec w) × List (BitVec w)) : Prop := ∀ j, pre.length ≤ j → s.1[j]? = out[j]?
  have hstart : I [] (out, zs) := fun j _ => rfl
  obtain ⟨s, hloop, hwritten, -⟩ := Written.foldlM (v := Prod.snd) (I := I) (s := (out, zs))
    (Written.start zs (combinedValue t z L xs nthr)) hstart (l := List.range (kept L).prod)
    (f := fun s (dst_idx : Nat) => do
      let reduce_prod ← combine nthr (kept L).prod t dst_idx s.1
      let x ← elemAt "reduce_prod[dst_idx]" reduce_prod dst_idx
      let dst_data ← assign "dst_data[dst_idx]" s.2 dst_idx x
      return (reduce_prod, dst_data)) fun pre e post s hrange hI hlength => by
    rw [List.range_eq_range'] at hrange
    obtain ⟨he, hpre⟩ := index_of_range' hrange
    rw [Nat.zero_add] at he
    subst he
    have hp : ∀ ithr < nthr, s.1[pre.length + ithr * (kept L).prod]? =
        some (partialValue t z L xs nthr ithr pre.length) := by
      intro ithr hithr
      rw [hI _ (Nat.le_add_right _ _), Nat.add_comm]
      exact hout.getElem? hK hithr hpre
    obtain ⟨out', hcombine, -, hkept, hvalue⟩ := combine_ok (t := t) hpre hp hnthr
    rw [hcombine, ok_bind, elemAt_ok hvalue, ok_bind, assign_ok (by omega), ok_bind]
    refine ⟨_, rfl, rfl, fun j hj => ?_⟩
    rw [List.length_append, List.length_singleton] at hj
    rw [hkept j (by omega), hI j (by omega)]
  rw [hloop, ok_bind]
  rw [List.nil_append] at hwritten
  exact congrArg _ (hwritten.eq_map hzs)

end ReduceConstInfer

end OpenVino.InferenceEngine.ShapeInfer
