import OpenVino.InferenceEngine.NetPass.SeqLinks
import OpenVino.InferenceEngine.NetPass.UnrolledCell

/-!
# Unrolled sequences

`unroll` runs the three passes. What they make of a sequence layer is `seqNet`, one unrolled cell between two reshapes
for each copy of the body (`unroll_eq`).
-/

namespace OpenVino.InferenceEngine.NetPass

open SeqData

variable {ι α : Type} [CommRing α] [LinearOrder α]

/-- The sequence becomes a TensorIterator, the TensorIterator copies of its body, and the cells their layers. -/
def unroll [DecidableEq ι] (seq : RNNSequenceLayer ι α) :
    Result (Option (List (CNNLayer (Unrolled (Copies ι SeqData)) α))) := do
  let ti ← unrollSeq seq
  match ← unrollTI ti with
  | none => return none
  | some net =>
    let layers ← net.mapM unrollCell
    return some layers.flatten

/-- What `unrollCell` puts in the place of a layer. -/
def expanded (l : CNNLayer ι α) : List (CNNLayer (Unrolled ι) α) := (unrollCell l).toOption.getD []

theorem expanded_split {axis : Nat} {a : DataPtr ι} {n : Nat} {f : Nat → DataPtr ι} :
    expanded (⟨.split axis, [a], (List.range n).map f⟩ : CNNLayer ι α) =
      [⟨.split axis, [a.map .data], (List.range n).map fun j => (f j).map .data⟩] := by
  have houts : ((List.range n).map f).map (DataPtr.map Unrolled.data) = (List.range n).map fun j => (f j).map .data :=
    List.map_map
  rw [← houts]
  rfl

theorem expanded_concat {axis : Nat} {a : DataPtr ι} {n : Nat} {f : Nat → DataPtr ι} :
    expanded (⟨.concat axis, (List.range n).map f, [a]⟩ : CNNLayer ι α) =
      [⟨.concat axis, (List.range n).map fun j => (f j).map .data, [a.map .data]⟩] := by
  have hins : ((List.range n).map f).map (DataPtr.map Unrolled.data) = (List.range n).map fun j => (f j).map .data :=
    List.map_map
  rw [← hins]
  rfl

section Net

variable (seq : RNNSequenceLayer ι α) (P : SeqPorts ι) (N num S : Nat)

def squeezedIn (i : Nat) : DataPtr (Copies ι SeqData) := (squeezed seq.axis P.in_data.dims).map (.copy i)

/-- The cell of copy `i`. -/
def cellLayer (i : Nat) : CNNLayer (Copies ι SeqData) α :=
  ⟨.cell seq.toRNNCellBase, squeezedIn seq P i :: (List.range seq.cellType.NS).map (stateIn P N S i),
    (List.range seq.cellType.NS).map (stateOut P N num S i)⟩

def copyNet (i : Nat) : List (CNNLayer (Unrolled (Copies ι SeqData)) α) :=
  ⟨.reshape, [(chunkIn seq P i).map .data], [(squeezedIn seq P i).map .data]⟩ ::
    (expanded (cellLayer seq P N num S i) ++
      [⟨.reshape, [(stateOut P N num S i 0).map .data], [(chunkOut seq P i).map .data]⟩])

def splitLayer : CNNLayer (Unrolled (Copies ι SeqData)) α :=
  ⟨.split seq.axis, [(P.in_data.map .outer).map .data],
    (List.range num).map fun j => (chunkIn seq P (partCopy seq num j)).map .data⟩

def concatLayer : CNNLayer (Unrolled (Copies ι SeqData)) α :=
  ⟨.concat seq.axis, (List.range num).map fun j => (chunkOut seq P (partCopy seq num j)).map .data,
    [(P.out_data.map .outer).map .data]⟩

def seqNet : List (CNNLayer (Unrolled (Copies ι SeqData)) α) :=
  splitLayer seq P num :: ((List.range num).flatMap (copyNet seq P N num S) ++ [concatLayer seq P num])

end Net

variable {seq : RNNSequenceLayer ι α} {P : SeqPorts ι} {N T D S num i : Nat}

/-! ### The copies -/

omit [CommRing α] [LinearOrder α] in
theorem dims_squeezedIn (h : seq.Fits P N T D S) : (squeezedIn seq P i).dims = [N, D] := by
  have hdims : (squeezedIn seq P i).dims = P.in_data.dims.eraseIdx seq.axis := rfl
  rw [hdims, h.in_dims]
  rcases h.axis with haxis | haxis <;> rw [haxis] <;> rfl

omit [CommRing α] [LinearOrder α] in
theorem dims_stateIn (h : seq.Fits P N T D S) {k : Nat} (hk : k < seq.cellType.NS) :
    (stateIn P N S i k).dims = [N, S] := by
  unfold stateIn
  split_ifs
  · exact h.in_state_dims k hk
  · rfl

/-- The cell of a copy unrolls. -/
theorem unrollCell_copy (h : seq.Fits P N T D S) (hvalid : seq.Valid D S) (num i : Nat) :
    unrollCell (cellLayer seq P N num S i) = .ok (expanded (cellLayer seq P N num S i)) ∧
      UnrolledAs seq.toRNNCellBase D S (squeezedIn seq P i) ((List.range seq.cellType.NS).map (stateIn P N S i))
        ((List.range seq.cellType.NS).map (stateOut P N num S i)) (expanded (cellLayer seq P N num S i)) := by
  have hdims : ∀ d ∈ (List.range seq.cellType.NS).map (stateIn P N S i), d.dims = [N, S] := by
    intro d hd
    obtain ⟨k, hk, rfl⟩ := List.mem_map.mp hd
    exact dims_stateIn h (List.mem_range.mp hk)
  have houts : ((List.range seq.cellType.NS).map (stateOut P N num S i)).length = seq.cellType.NS := by simp
  obtain ⟨net, hnet, has⟩ := unrollCell_ok hvalid (dims_squeezedIn h (i := i)) (by simp) houts hdims
  have hexpanded : expanded (cellLayer seq P N num S i) = net := by
    unfold expanded cellLayer
    rw [hnet]
    rfl
  rw [hexpanded]
  exact ⟨hnet, has⟩

/-! ### The network -/

theorem flatten_expanded :
    ((seqLayers seq P N num S).map expanded).flatten = seqNet seq P N num S := by
  have hcopy : ∀ i, ((copyLayers seq P N num S i).map expanded).flatten = copyNet seq P N num S i := by
    intro i
    have hlayers : copyLayers seq P N num S i =
        [⟨.reshape, [chunkIn seq P i], [squeezedIn seq P i]⟩, cellLayer seq P N num S i,
          ⟨.reshape, [stateOut P N num S i 0], [chunkOut seq P i]⟩] := rfl
    rw [hlayers]
    rfl
  have hcopies : (((List.range num).flatMap (copyLayers seq P N num S)).map expanded).flatten =
      (List.range num).flatMap (copyNet seq P N num S) := by
    rw [← List.flatMap_def, List.flatMap_assoc]
    exact List.flatMap_congr fun i _ => by rw [List.flatMap_def, hcopy]
  unfold seqLayers seqNet splitLayer concatLayer
  rw [List.cons_append, List.map_cons, List.map_append, List.flatten_cons, List.flatten_append, hcopies, expanded_split,
    List.map_cons, List.map_nil, expanded_concat]
  rfl

theorem mapM_unrollCell (h : seq.Fits P N T D S) (hvalid : seq.Valid D S) :
    (seqLayers seq P N num S).mapM unrollCell = .ok ((seqLayers seq P N num S).map expanded) := by
  refine mapM_eq_map fun l hl => ?_
  unfold seqLayers at hl
  rw [List.mem_append, List.mem_cons, List.mem_flatMap, List.mem_singleton] at hl
  rcases hl with (rfl | ⟨i, -, hl⟩) | rfl
  · rfl
  · simp only [copyLayers, List.mem_cons, List.not_mem_nil, or_false] at hl
    rcases hl with rfl | rfl | rfl
    · rfl
    · exact (unrollCell_copy h hvalid num i).1
    · rfl
  · rfl

/-- **The unrolled sequence.** -/
theorem unroll_eq [DecidableEq ι] (h : seq.Fits P N T D S) (hvalid : seq.Valid D S) (hpos : 0 < num)
    (hnum : (foldCounts [T, T] 1).getD (-1) = num) : unroll seq = .ok (some (seqNet seq P N num S)) := by
  have hcount := getNumIteration_seq h
  rw [hnum] at hcount
  rw [unroll, unrollSeq_eq h, ok_bind, unrollTI_seq hcount hpos, ok_bind]
  simp only [mapM_unrollCell h hvalid, ok_bind, flatten_expanded]
  rfl

end OpenVino.InferenceEngine.NetPass
