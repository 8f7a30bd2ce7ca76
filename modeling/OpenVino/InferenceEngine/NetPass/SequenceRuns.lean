import OpenVino.InferenceEngine.NetPass.SeqOrder

/-!
# Unrolled sequences and the equations of the cell

A sequence holds a row for every element of the batch and every time, the time first or second (`seqRow`). The split
of an unrolled sequence cuts it at the times, so that the rows of a part are those at its time (`seqRow_split`), and
the concat puts the parts together again (`seqRow_concat`). Both axes are one case with planes of `M` rows.

The equations of a sequence layer apply those of its cell step by step, from the initial states on and over the
rows of the sequence in the order of the direction (`states`). Every valuation of an unrolled sequence follows them as
the unrolled cell reads them (`follows_of_consistent`), by induction over the copies, each of which reads the states
that the one before it gives. `unrolls_iff` is when these are the equations of the cell.
-/

namespace OpenVino.InferenceEngine.NetPass

/-! ### The parts of a sequence -/

section

variable {α : Type}

/-- Row `n` of a sequence at the time `t`. -/
def seqRow (axis N T k : Nat) (x : Content α) (n t : Nat) : List α :=
  rowOf k x (if axis = 0 then t * N + n else n * T + t)

/-! ### Planes -/

section Planes

variable {T M k m t r : Nat} {x : Content α}

/-- Where an element of a plane lies in it. -/
theorem lt_plane {j : Nat} (hr : r < M) (hj : j < k) : r * k + j < M * k := by
  have hrow : r * k + k ≤ M * k := by
    rw [← Nat.succ_mul]
    exact Nat.mul_le_mul_right k hr
  omega

theorem rowOf_plane (hr : r < M) :
    rowOf k (columns (T * (M * k)) (t * (M * k)) (M * k) x) (m * M + r) = rowOf k x ((m * T + t) * M + r) := by
  refine List.map_congr_left fun j hj => ?_
  have hplane : (m * M + r) * k + j = m * (M * k) + (r * k + j) := by ring
  obtain ⟨hq, hmod⟩ := div_mod_row (n := m) (lt_plane hr (List.mem_range.mp hj))
  have hplace : m * (T * (M * k)) + (t * (M * k) + (r * k + j)) = ((m * T + t) * M + r) * k + j := by ring
  rw [columns, hplane, hq, hmod, hplace]

variable [CommRing α]

/-- Parts of the same width. -/
theorem readParts_of_getElem? {parts : List (Nat × Content α)} {w : Nat} (hw : ∀ p ∈ parts, p.1 = w) {n : Nat}
    (hx : parts[t]? = some (w, x)) (hr : r < w) : readParts parts n (t * w + r) = x (n * w + r) := by
  induction parts generalizing t with
  | nil => simp at hx
  | cons p parts ih =>
    have hp := hw p List.mem_cons_self
    cases t with
    | zero =>
      rw [List.getElem?_cons_zero, Option.some_inj] at hx
      rw [Nat.zero_mul, Nat.zero_add, hx, readParts, if_pos hr]
    | succ t =>
      rw [List.getElem?_cons_succ] at hx
      obtain ⟨v, y⟩ := p
      have hv : v = w := hp
      have hrest : (t + 1) * w + r - w = t * w + r := by
        rw [Nat.succ_mul]
        omega
      rw [readParts, if_neg (by rw [Nat.succ_mul]; omega), hv, hrest]
      exact ih (fun q hq => hw q (List.mem_cons_of_mem _ hq)) hx

theorem rowOf_planes {parts : List (Nat × Content α)} (hw : ∀ p ∈ parts, p.1 = M * k) (ht : t < T)
    (hx : parts[t]? = some (M * k, x)) (hr : r < M) :
    rowOf k (fun q => readParts parts (q / (T * (M * k))) (q % (T * (M * k)))) ((m * T + t) * M + r) =
      rowOf k x (m * M + r) := by
  refine List.map_congr_left fun j hj => ?_
  have hin := lt_plane hr (List.mem_range.mp hj)
  have hplace : ((m * T + t) * M + r) * k + j = m * (T * (M * k)) + (t * (M * k) + (r * k + j)) := by ring
  obtain ⟨hq, hmod⟩ := div_mod_row (n := m) (lt_plane ht hin)
  have hplane : m * (M * k) + (r * k + j) = (m * M + r) * k + j := by ring
  simp only [hplace, hq, hmod]
  rw [readParts_of_getElem? hw hx hin, hplane]

end Planes

/-! ### The layers around the copies -/

section Layers

variable [CommRing α] [LinearOrder α] {K : Kernels α} {κ : Type} {w : κ → Content α} {axis N T k n t : Nat}
  {a b : DataPtr κ}

/-- The number of rows in a plane. -/
def planeRows (axis N : Nat) : Nat := if axis = 0 then N else 1

theorem rowWidth_seqDims (haxis : axis = 0 ∨ axis = 1) :
    rowWidth axis (seqDims axis N T k) = T * (planeRows axis N * k) ∧
      rowWidth axis ((seqDims axis N T k).set axis 1) = planeRows axis N * k := by
  rcases haxis with rfl | rfl <;> simp [rowWidth, seqDims, planeRows]

/-- The plane of an element of the batch, and its row there. -/
theorem exists_plane (haxis : axis = 0 ∨ axis = 1) (hn : n < N) : ∃ m r, r < planeRows axis N ∧
    n = m * planeRows axis N + r ∧
      ∀ t, (if axis = 0 then t * N + n else n * T + t) = (m * T + t) * planeRows axis N + r := by
  rcases haxis with rfl | rfl
  · exact ⟨0, n, hn, by simp [planeRows], fun t => by simp [planeRows]⟩
  · exact ⟨n, 0, Nat.one_pos, by simp [planeRows], fun t => by simp [planeRows]⟩

theorem seqRow_split {ins : List (DataPtr κ)} (haxis : axis = 0 ∨ axis = 1) (ha : a.dims = seqDims axis N T k)
    (hparts : ∀ b ∈ ins, b.dims = (seqDims axis N T k).set axis 1)
    (hl : ((⟨.split axis, [a], ins⟩ : CNNLayer κ α).node K).Holds w) (hb : ins[t]? = some b) (hn : n < N) :
    rowOf k (w b.ptr) n = seqRow axis N T k (w a.ptr) n t := by
  obtain ⟨hwhole, hpart⟩ := rowWidth_seqDims (N := N) (T := T) (k := k) haxis
  obtain ⟨m, r, hr, hrow, hplace⟩ := exists_plane (T := T) haxis hn
  have hwidth : ∀ b ∈ ins, rowWidth axis b.dims = planeRows axis N * k := by
    intro b hb
    rw [hparts b hb, hpart]
  rw [split_part hwidth hl hb, ha, hwhole, seqRow, hplace, hrow, rowOf_plane hr]

theorem seqRow_concat {ins : List (DataPtr κ)} (haxis : axis = 0 ∨ axis = 1) (ha : a.dims = seqDims axis N T k)
    (hparts : ∀ b ∈ ins, b.dims = (seqDims axis N T k).set axis 1)
    (hl : ((⟨.concat axis, ins, [a]⟩ : CNNLayer κ α).node K).Holds w) (hb : ins[t]? = some b) (ht : t < T)
    (hn : n < N) : seqRow axis N T k (w a.ptr) n t = rowOf k (w b.ptr) n := by
  obtain ⟨hwhole, hpart⟩ := rowWidth_seqDims (N := N) (T := T) (k := k) haxis
  obtain ⟨m, r, hr, hrow, hplace⟩ := exists_plane (T := T) haxis hn
  have hwidth : ∀ b ∈ ins, rowWidth axis b.dims = planeRows axis N * k := by
    intro b hb
    rw [hparts b hb, hpart]
  have hzip : ((ins.map DataPtr.dims).map (rowWidth axis)).zip ((ins.map DataPtr.ptr).map w) =
      ins.map fun b => (rowWidth axis b.dims, w b.ptr) := by
    rw [List.map_map, List.map_map, List.zip_map']
    rfl
  have hcat : w a.ptr = fun q => readParts (ins.map fun b => (rowWidth axis b.dims, w b.ptr))
      (q / (T * (planeRows axis N * k))) (q % (T * (planeRows axis N * k))) := by
    have hlayer := hl
    simp only [Node.Holds, CNNLayer.node, Op.eval, List.map_cons, List.map_nil, List.headD_cons, ha, hwhole,
      hzip] at hlayer
    exact (List.cons.inj hlayer).1
  rw [hcat, seqRow, hplace, hrow]
  refine rowOf_planes ?_ ht ?_ hr
  · intro p hp
    obtain ⟨b, hb, rfl⟩ := List.mem_map.mp hp
    exact hwidth b hb
  · rw [List.getElem?_map, hb, Option.map_some, hwidth b (List.mem_of_getElem? hb)]

omit [CommRing α] [LinearOrder α] in
/-- Parts of one step each make up the sequence just when there are as many as steps. -/
theorem fitsAlong_seqDims (haxis : axis = 0 ∨ axis = 1) {parts : List SizeVector}
    (hparts : ∀ dims ∈ parts, dims = (seqDims axis N T k).set axis 1) :
    FitsAlong axis (seqDims axis N T k) parts ↔ parts.length = T := by
  have hsum : (parts.map fun dims => dims.getD axis 0).sum = parts.length := by
    have hone : ∀ dims ∈ parts, dims.getD axis 0 = 1 := by
      intro dims hdims
      rw [hparts dims hdims]
      rcases haxis with rfl | rfl <;> simp [seqDims]
    rw [List.map_congr_left hone, List.map_const', List.sum_replicate, smul_eq_mul, Nat.mul_one]
  have hrest : ∀ dims ∈ parts, dims.eraseIdx axis = (seqDims axis N T k).eraseIdx axis := by
    intro dims hdims
    rw [hparts dims hdims]
    rcases haxis with rfl | rfl <;> simp [seqDims]
  have htime : (seqDims axis N T k).getD axis 0 = T := by
    rcases haxis with rfl | rfl <;> rfl
  rw [FitsAlong, hsum, htime]
  exact and_iff_left hrest

end Layers

end

/-! ### Runs -/

variable {ι α : Type}

/-- The states after `i` steps over the rows `xs`. -/
def statesAfter (step : List α → List (List α) → List (List α)) (xs : Nat → List α) (init : List (List α)) :
    Nat → List (List α)
  | 0 => init
  | i + 1 => step (xs i) (statesAfter step xs init i)

namespace RNNSequenceLayer

section Equations

variable (seq : RNNSequenceLayer ι α) (step : List α → List (List α) → List (List α)) (P : SeqPorts ι)
  (N T D S : Nat)

/-- The time of step `i`. -/
def timeOf (i : Nat) : Nat := if seq.direction = .FWD then i else T - 1 - i

/-- The states of element `n` of the batch, from the sequence and the initial states in `v`. -/
def states (v : ι → Content α) (n : Nat) : Nat → List (List α) :=
  statesAfter step (fun i => seqRow seq.axis N T D (v P.in_data.ptr) n (seq.timeOf T i))
    ((List.range seq.cellType.NS).map fun k => rowOf S (v (P.in_state k).ptr) n)

/-- The output sequence and the final states in `v` are those of the steps. -/
structure Follows (v : ι → Content α) : Prop where
  outputs : ∀ n < N, ∀ i < T, seqRow seq.axis N T S (v P.out_data.ptr) n (seq.timeOf T i) =
    (seq.states step P N T D S v n (i + 1)).getD 0 []
  final : ∀ n < N, ((List.range seq.cellType.NS).map fun k => rowOf S (v (P.out_state k).ptr) n) =
    seq.states step P N T D S v n T

variable {seq step P N T D S}

theorem Follows.congr {step' : List α → List (List α) → List (List α)} {v : ι → Content α}
    (h : seq.Follows step P N T D S v)
    (hstep : ∀ n < N, ∀ i, seq.states step P N T D S v n i = seq.states step' P N T D S v n i) :
    seq.Follows step' P N T D S v where
  outputs n hn i hi := by rw [h.outputs n hn i hi, hstep n hn]
  final n hn := by rw [h.final n hn, hstep n hn]

end Equations

/-- The layer unrolls to a network of matching shapes that follows the cell, whatever the activations and the neurons
compute, and that runs on every input. -/
def Unrolls [CommRing α] [LinearOrder α] [DecidableEq ι] (seq : RNNSequenceLayer ι α) (P : SeqPorts ι)
    (N T D S : Nat) : Prop :=
  ∃ net, unroll seq = .ok (some net) ∧ (∀ l ∈ net, l.Shaped) ∧ ∀ K : Kernels α,
    (∀ w, Consistent K w net → seq.Follows (seq.step K) P N T D S fun p => w (.data (.outer p))) ∧
    ∀ v : ι → Content α, ∃ w, Consistent K w net ∧
      ∀ p, p ∉ seq.outData.map DataPtr.ptr → w (.data (.outer p)) = v p

end RNNSequenceLayer

variable [CommRing α] [LinearOrder α] {seq : RNNSequenceLayer ι α} {P : SeqPorts ι} {N T D S num i n : Nat}
  {K : Kernels α} {w : Unrolled (Copies ι SeqData) → Content α}

/-! ### The copies -/

theorem consistent_flatMap {κ : Type} {w : κ → Content α} {block : Nat → List (CNNLayer κ α)} :
    Consistent K w ((List.range num).flatMap block) ↔ ∀ i < num, Consistent K w (block i) := by
  induction num with
  | zero => simp [consistent_nil]
  | succ num ih =>
    rw [List.range_succ, List.flatMap_append, List.flatMap_singleton, consistent_append, ih, Nat.forall_lt_succ_right]

theorem consistent_seqNet : Consistent K w (seqNet seq P N num S) ↔
    ((splitLayer seq P num).node K).Holds w ∧ (∀ i < num, Consistent K w (copyNet seq P N num S i)) ∧
      ((concatLayer seq P num).node K).Holds w := by
  rw [seqNet, consistent_cons, consistent_append, consistent_flatMap, consistent_cons,
    and_iff_left (a := Node.Holds _ _) consistent_nil]

omit [CommRing α] [LinearOrder α] in
theorem partCopy_timeOf (seq : RNNSequenceLayer ι α) (hi : i < T) :
    partCopy seq T (seq.timeOf T i) = i ∧ seq.timeOf T i < T := by
  unfold partCopy RNNSequenceLayer.timeOf
  split_ifs <;> omega

/-- A copy works on the part of its time. -/
theorem row_squeezedIn (h : seq.Fits P N T D S) (hw : Consistent K w (seqNet seq P N T S)) (hi : i < T) (hn : n < N) :
    rowOf D (w (.data (squeezedIn seq P i).ptr)) n =
      seqRow seq.axis N T D (w (.data (.outer P.in_data.ptr))) n (seq.timeOf T i) := by
  obtain ⟨hsplit, hcopies, -⟩ := consistent_seqNet.mp hw
  obtain ⟨hcopy, htime⟩ := partCopy_timeOf seq hi
  have hchunk : w (.data (squeezedIn seq P i).ptr) = w (.data (chunkIn seq P i).ptr) :=
    holds_reshape.mp (consistent_cons.mp (hcopies i hi)).1
  have hpart : ((List.range T).map fun j => (chunkIn seq P (partCopy seq T j)).map Unrolled.data)[seq.timeOf T i]? =
      some ((chunkIn seq P i).map .data) := by
    rw [List.getElem?_map, List.getElem?_range htime, Option.map_some, hcopy]
  rw [hchunk]
  refine seqRow_split (a := (P.in_data.map Copies.outer).map Unrolled.data) h.axis h.in_dims (fun b hb => ?_) hsplit
    hpart hn
  obtain ⟨j, -, rfl⟩ := List.mem_map.mp hb
  rw [← h.in_dims]
  rfl

/-- The output at the time of a copy is its hidden state. -/
theorem seqRow_out_data (h : seq.Fits P N T D S) (hw : Consistent K w (seqNet seq P N T S)) (hi : i < T) (hn : n < N) :
    seqRow seq.axis N T S (w (.data (.outer P.out_data.ptr))) n (seq.timeOf T i) =
      rowOf S (w (.data (stateOut P N T S i 0).ptr)) n := by
  obtain ⟨-, hcopies, hconcat⟩ := consistent_seqNet.mp hw
  obtain ⟨hcopy, htime⟩ := partCopy_timeOf seq hi
  have hchunk : w (.data (chunkOut seq P i).ptr) = w (.data (stateOut P N T S i 0).ptr) :=
    holds_reshape.mp (consistent_cons.mp (consistent_append.mp (consistent_cons.mp (hcopies i hi)).2).2).1
  have hpart : ((List.range T).map fun j => (chunkOut seq P (partCopy seq T j)).map Unrolled.data)[seq.timeOf T i]? =
      some ((chunkOut seq P i).map .data) := by
    rw [List.getElem?_map, List.getElem?_range htime, Option.map_some, hcopy]
  rw [← hchunk]
  refine seqRow_concat (a := (P.out_data.map Copies.outer).map Unrolled.data) h.axis h.out_dims (fun b hb => ?_)
    hconcat hpart htime hn
  obtain ⟨j, -, rfl⟩ := List.mem_map.mp hb
  rw [← h.out_dims]
  rfl

/-- The states that a copy reads and gives, row by row. -/
def rowsIn (P : SeqPorts ι) (NS N S : Nat) (w : Unrolled (Copies ι SeqData) → Content α) (n i : Nat) : List (List α) :=
  (List.range NS).map fun k => rowOf S (w (.data (stateIn P N S i k).ptr)) n

def rowsOut (P : SeqPorts ι) (NS N num S : Nat) (w : Unrolled (Copies ι SeqData) → Content α) (n i : Nat) :
    List (List α) :=
  (List.range NS).map fun k => rowOf S (w (.data (stateOut P N num S i k).ptr)) n

theorem rowsOut_step (h : seq.Fits P N T D S) (hvalid : seq.Valid D S) (hw : Consistent K w (seqNet seq P N T S))
    (hi : i < T) (hn : n < N) : rowsOut P seq.cellType.NS N T S w n i =
      seq.unrolledStep K (seqRow seq.axis N T D (w (.data (.outer P.in_data.ptr))) n (seq.timeOf T i))
        (rowsIn P seq.cellType.NS N S w n i) := by
  obtain ⟨-, hcopies, -⟩ := consistent_seqNet.mp hw
  have hcell : Consistent K w (expanded (cellLayer seq P N T S i)) :=
    (consistent_append.mp (consistent_cons.mp (hcopies i hi)).2).1
  have hstep := (unrollCell_copy h hvalid T i).2.computes K w n hcell
  rw [row_squeezedIn h hw hi hn, List.map_map, List.map_map] at hstep
  exact hstep

omit [CommRing α] [LinearOrder α] in
/-- Each copy reads what the one before it gives. -/
theorem rowsIn_succ {NS : Nat} (hi : i + 1 < num) : rowsIn P NS N S w n (i + 1) = rowsOut P NS N num S w n i := by
  refine List.map_congr_left fun k _ => ?_
  rw [stateIn, stateOut, if_neg (Nat.succ_ne_zero i), if_neg hi.ne, Nat.add_sub_cancel]

/-- The states of the copies, by induction over them. -/
theorem rowsOut_eq (h : seq.Fits P N T D S) (hvalid : seq.Valid D S) (hw : Consistent K w (seqNet seq P N T S))
    (hn : n < N) (hi : i < T) : rowsOut P seq.cellType.NS N T S w n i =
      seq.states (seq.unrolledStep K) P N T D S (fun p => w (.data (.outer p))) n (i + 1) := by
  induction i with
  | zero =>
    rw [rowsOut_step h hvalid hw hi hn]
    rfl
  | succ i ih =>
    rw [rowsOut_step h hvalid hw hi hn, rowsIn_succ hi, ih (by omega)]
    rfl

/-- **Runs of an unrolled sequence.** -/
theorem follows_of_consistent (h : seq.Fits P N T D S) (hvalid : seq.Valid D S) (hpos : 0 < T)
    (hw : Consistent K w (seqNet seq P N T S)) :
    seq.Follows (seq.unrolledStep K) P N T D S fun p => w (.data (.outer p)) where
  outputs n hn i hi := by
    rw [seqRow_out_data h hw hi hn, ← rowsOut_eq h hvalid hw hn hi, rowsOut, List.getD_eq_getElem?_getD,
      List.getElem?_map, List.getElem?_range (NS_pos _)]
    rfl
  final n hn := by
    have hlast : T - 1 + 1 = T := by omega
    have hrun := rowsOut_eq h hvalid hw hn (show T - 1 < T by omega)
    rw [hlast] at hrun
    rw [← hrun]
    refine List.map_congr_left fun k _ => ?_
    rw [stateOut, if_pos hlast]
    rfl

end OpenVino.InferenceEngine.NetPass
