import OpenVino.InferenceEngine.NetPass.UnrollSeq

/-!
# The links of an unrolled sequence

`unrollTI_seq`: the TensorIterator of a sequence unrolls to `seqLayers`, where each copy of the cell reads the states
that the copy before it gives, and the last one gives those of the layer. `getNumIteration_seq` is the number of
copies, which is the length of the sequence as long as that is an `int` (`foldCounts_two`).
-/

namespace OpenVino.InferenceEngine.NetPass

open SeqData

variable {ι α : Type} {seq : RNNSequenceLayer ι α} {P : SeqPorts ι} {N T D S num : Nat}

/-! ### The rules -/

theorem iteratedPort_axis_ne (axis : Nat) (direct : Direction) : (iteratedPort axis direct).axis ≠ -1 := by
  have haxis : (iteratedPort axis direct).axis = axis := rfl
  omega

theorem classifyRules_seq (axis : Nat) (direct : Direction) (n : Nat) :
    classifyRules (iteratedPort axis direct :: (List.range n).map statePort)
      ((List.range n).map fun (i : Nat) => 1 + (i : Int)) =
        ⟨[iteratedPort axis direct], [], (List.range n).map statePort⟩ := by
  have hiter := iteratedPort_axis_ne axis direct
  have haxis : ∀ i, (statePort i).axis = -1 := fun i => rfl
  have hport : ∀ i, (statePort i).to_ = 1 + (i : Int) := fun i => rfl
  have hall : (List.range n).filter (fun i => decide (i < n)) = List.range n := List.filter_eq_self.mpr (by simp)
  unfold classifyRules
  simp [List.filter_map, Function.comp_def, hiter, haxis, hport, hall]

theorem to_statePort :
    ((List.range num).map statePort).map PortMap.to_ = (List.range num).map fun (i : Nat) => 1 + (i : Int) := by
  rw [List.map_map]
  rfl

theorem from_statePort :
    ((List.range num).map statePort).map PortMap.from_ = (List.range num).map fun (i : Nat) => 1 + (i : Int) := by
  rw [List.map_map]
  rfl

/-- A loop over the states. -/
theorem mapM_statePort {β : Type} {f : PortMap → Result β} {g : Nat → β} {n : Nat}
    (h : ∀ k < n, f (statePort k) = .ok (g k)) : ((List.range n).map statePort).mapM f = .ok ((List.range n).map g) := by
  rw [List.mapM_map]
  exact mapM_eq_map fun k hk => h k (List.mem_range.mp hk)

theorem body_idx_eq (axis j : Nat) : body_idx (iteratedPort axis seq.direction) num j = partCopy seq num j := by
  unfold body_idx partCopy iteratedPort
  by_cases hd : seq.direction = .FWD
  · simp only [if_pos hd, if_true]
  · simp only [if_neg hd]
    rfl

/-- The links into the copies, and those out of the last one. -/
def innerLinks (seq : RNNSequenceLayer ι α) (P : SeqPorts ι) (N num S : Nat) : List (Link (Copies ι SeqData)) :=
  ((List.range seq.cellType.NS).map fun k => (List.range (num - 1)).map fun i =>
    ((outState [N, S] k).map (Copies.copy i), (inState [N, S] k).map (Copies.copy (i + 1)))).flatten ++
  (List.range seq.cellType.NS).map fun k => ((P.in_state k).map Copies.outer, (inState [N, S] k).map (Copies.copy 0))

def outerLinks (seq : RNNSequenceLayer ι α) (P : SeqPorts ι) (N num S : Nat) : List (Link (Copies ι SeqData)) :=
  (List.range seq.cellType.NS).map fun k =>
    ((P.out_state k).map Copies.outer, (outState [N, S] k).map (Copies.copy (num - 1)))

theorem unrollTI_links [DecidableEq ι] (hnum : getNumIteration (seqTI seq P N S).ports = .ok (num : Int))
    (hpos : 0 < num) : unrollTI (seqTI seq P N S) = .ok (some ((outerLinks seq P N num S).foldl giveOutput
      (combineAll (innerLinks seq P N num S)
        (⟨.split seq.axis, [P.in_data.map .outer], (List.range num).map fun j => chunkIn seq P (partCopy seq num j)⟩ ::
          (List.range num).flatMap (CopyTIBody (seqTI seq P N S).body)) ++
        [⟨.concat seq.axis, (List.range num).map fun j => chunkOut seq P (partCopy seq num j),
          [P.out_data.map .outer]⟩]))) := by
  have hclassIn : classifyInputRules (seqTI seq P N S) =
      ⟨[iteratedPort seq.axis seq.direction], [], (List.range seq.cellType.NS).map statePort⟩ := by
    rw [classifyInputRules, seqTI, to_statePort, classifyRules_seq]
  have hclassOut : classifyOutputRules (seqTI seq P N S) =
      ⟨[iteratedPort seq.axis seq.direction], [], (List.range seq.cellType.NS).map statePort⟩ := by
    rw [classifyOutputRules, seqTI, from_statePort, classifyRules_seq]
  have hback : ((List.range seq.cellType.NS).map statePort).mapM (backLinks (seqTI seq P N S) num) =
      .ok ((List.range seq.cellType.NS).map fun k => (List.range (num - 1)).map fun i =>
        ((outState [N, S] k).map (Copies.copy i), (inState [N, S] k).map (Copies.copy (i + 1)))) := by
    refine mapM_statePort fun k hk => ?_
    simp only [backLinks, statePort, seqTI, seqBody, elemAt_state hk, ok_bind]
    rfl
  have hfirst : ((List.range seq.cellType.NS).map statePort).mapM (firstLink (seqTI seq P N S) num) =
      .ok ((List.range seq.cellType.NS).map fun k =>
        ((P.in_state k).map Copies.outer, (inState [N, S] k).map (Copies.copy 0))) := by
    refine mapM_statePort fun k hk => ?_
    simp only [firstLink, statePort, seqTI, seqBody, elemAt_state hk, ok_bind, if_neg hpos.ne']
    rfl
  have hlast : ((List.range seq.cellType.NS).map statePort).mapM (lastLink (seqTI seq P N S) num) =
      .ok (outerLinks seq P N num S) := by
    refine mapM_statePort fun k hk => ?_
    simp only [lastLink, statePort, seqTI, seqBody, elemAt_state hk, ok_bind]
    rfl
  have hsplit : inputSplit (seqTI seq P N S) num (iteratedPort seq.axis seq.direction) =
      .ok ⟨.split seq.axis, [P.in_data.map .outer],
        (List.range num).map fun j => chunkIn seq P (partCopy seq num j)⟩ := by
    unfold inputSplit
    simp only [body_idx_eq]
    rfl
  have hconcat : outputConcat (seqTI seq P N S) num (iteratedPort seq.axis seq.direction) =
      .ok ⟨.concat seq.axis, (List.range num).map fun j => chunkOut seq P (partCopy seq num j),
        [P.out_data.map .outer]⟩ := by
    unfold outputConcat
    simp only [body_idx_eq]
    rfl
  unfold unrollTI
  rw [hnum, ok_bind, if_neg (by omega), if_neg (by omega), Int.toNat_natCast]
  have hedges : (seqTI seq P N S).back_edges = (List.range seq.cellType.NS).map statePort := rfl
  simp only [hclassIn, hclassOut, hedges, List.mapM_cons, List.mapM_nil, hsplit, hconcat, hback, hfirst, hlast, ok_bind,
    pure_bind]
  rfl

/-! ### Where the links lead -/

theorem mem_innerLinks {link : Link (Copies ι SeqData)} : link ∈ innerLinks seq P N num S ↔
    ∃ k < seq.cellType.NS,
      (∃ i < num - 1, link = ((outState [N, S] k).map (Copies.copy i), (inState [N, S] k).map (Copies.copy (i + 1)))) ∨
        link = ((P.in_state k).map Copies.outer, (inState [N, S] k).map (Copies.copy 0)) := by
  simp only [innerLinks, List.mem_append, List.mem_flatten, List.mem_map, List.mem_range, exists_exists_and_eq_and]
  constructor
  · rintro (⟨k, hk, i, hi, rfl⟩ | ⟨k, hk, rfl⟩)
    · exact ⟨k, hk, .inl ⟨i, hi, rfl⟩⟩
    · exact ⟨k, hk, .inr rfl⟩
  · rintro ⟨k, hk, ⟨i, hi, rfl⟩ | rfl⟩
    · exact .inl ⟨k, hk, i, hi, rfl⟩
    · exact .inr ⟨k, hk, rfl⟩

variable [DecidableEq ι]

theorem redirectAll_inner_of_ne {d : DataPtr (Copies ι SeqData)} (h : ∀ i k, d.ptr ≠ .copy i (.state_in k)) :
    redirectAll (innerLinks seq P N num S) d = d := by
  refine redirectAll_of_not_slave fun link hlink heq => ?_
  obtain ⟨k, -, ⟨i, -, rfl⟩ | rfl⟩ := mem_innerLinks.mp hlink
  · exact h (i + 1) k (by rw [← heq]; rfl)
  · exact h 0 k (by rw [← heq]; rfl)

/-- A copy reads the states that the copy before it gives. -/
theorem redirectAll_inState {i k : Nat} (hi : i < num) (hk : k < seq.cellType.NS) :
    redirectAll (innerLinks seq P N num S) ((inState [N, S] k).map (Copies.copy i)) = stateIn P N S i k := by
  have hslave : ∀ (i j k k' : Nat), (inState [N, S] k).map (Copies.copy i : SeqData → Copies ι SeqData) =
      (inState [N, S] k').map (Copies.copy j) → i = j ∧ k = k' := by
    intro i j k k' h
    simpa [DataPtr.map, inState] using h
  refine redirectAll_of_mem (mem_innerLinks.mpr ⟨k, hk, ?_⟩) (fun link hlink heq => ?_) fun link hlink heq => ?_
  · cases i with
    | zero => exact .inr rfl
    | succ i => exact .inl ⟨i, by omega, rfl⟩
  · obtain ⟨k', -, ⟨j, -, rfl⟩ | rfl⟩ := mem_innerLinks.mp hlink
    · obtain ⟨rfl, rfl⟩ := hslave _ _ _ _ heq
      rfl
    · obtain ⟨rfl, rfl⟩ := hslave _ _ _ _ heq
      rfl
  · have hptr := congrArg DataPtr.ptr heq
    unfold stateIn at hptr
    obtain ⟨k', -, ⟨j, -, rfl⟩ | rfl⟩ := mem_innerLinks.mp hlink <;> split_ifs at hptr <;>
      simp [inState, outState] at hptr

theorem redirectAll_outer_of_ne {d : DataPtr (Copies ι SeqData)}
    (h : ∀ k, d.ptr ≠ .copy (num - 1) (.out_state k)) : redirectAll (outerLinks seq P N num S) d = d := by
  refine redirectAll_of_not_slave fun link hlink heq => ?_
  obtain ⟨k, -, rfl⟩ := List.mem_map.mp hlink
  exact h k (by rw [← heq]; rfl)

/-- The last copy gives the states of the layer. -/
theorem redirectAll_outState {i k : Nat} (hpos : 0 < num) (hk : k < seq.cellType.NS) :
    redirectAll (outerLinks seq P N num S) ((outState [N, S] k).map (Copies.copy i)) = stateOut P N num S i k := by
  unfold stateOut
  by_cases hi : i + 1 = num
  · have hlast : num - 1 = i := by omega
    rw [if_pos hi]
    refine redirectAll_of_mem (List.mem_map.mpr ⟨k, List.mem_range.mpr hk, by rw [hlast]⟩) ?_ ?_
    · intro link hlink heq
      obtain ⟨k', -, rfl⟩ := List.mem_map.mp hlink
      have hk' : k' = k := by simpa [DataPtr.map, outState, hlast] using heq
      rw [hk']
    · intro link hlink heq
      obtain ⟨k', -, rfl⟩ := List.mem_map.mp hlink
      simp [DataPtr.map] at heq
  · rw [if_neg hi]
    refine redirectAll_outer_of_ne fun k' heq => ?_
    have hcopy : i = num - 1 ∧ k = k' := by simpa [outState] using heq
    omega

theorem redirectAll_stateIn {i k : Nat} (hi : i < num) :
    redirectAll (outerLinks seq P N num S) (stateIn P N S i k) = stateIn P N S i k := by
  refine redirectAll_outer_of_ne fun k' heq => ?_
  unfold stateIn at heq
  split_ifs at heq with h
  · simp at heq
  · have hcopy : i - 1 = num - 1 ∧ k = k' := by simpa [outState] using heq
    omega

/-- The layers of a copy once its ports are linked. -/
theorem copy_linked {i : Nat} (hi : i < num) :
    ((CopyTIBody (seqTI seq P N S).body i).map fun l =>
      { l with insData := l.insData.map (redirectAll (innerLinks seq P N num S)) }).map (fun l =>
        { l with
          insData := l.insData.map (redirectAll (outerLinks seq P N num S))
          outData := l.outData.map (redirectAll (outerLinks seq P N num S)) }) = copyLayers seq P N num S i := by
  have hpos : 0 < num := by omega
  have hin : ∀ d : DataPtr SeqData, (∀ k, d.ptr ≠ .state_in k) →
      redirectAll (innerLinks seq P N num S) (d.map (Copies.copy i)) = d.map (Copies.copy i) := by
    refine fun d hd => redirectAll_inner_of_ne fun j k heq => hd k ?_
    simpa using (by simpa using heq : i = j ∧ d.ptr = .state_in k).2
  have hout : ∀ d : DataPtr SeqData, (∀ k, d.ptr ≠ .out_state k) →
      redirectAll (outerLinks seq P N num S) (d.map (Copies.copy i)) = d.map (Copies.copy i) := by
    refine fun d hd => redirectAll_outer_of_ne fun k heq => hd k ?_
    simpa using (by simpa using heq : i = num - 1 ∧ d.ptr = .out_state k).2
  have hbody_in : ∀ k, (body_in seq.axis P.in_data.dims).ptr ≠ .state_in k := by simp [body_in]
  have hbody_in' : ∀ k, (body_in seq.axis P.in_data.dims).ptr ≠ .out_state k := by simp [body_in]
  have hsqueezed : ∀ k, (squeezed seq.axis P.in_data.dims).ptr ≠ .state_in k := by simp [squeezed]
  have hsqueezed' : ∀ k, (squeezed seq.axis P.in_data.dims).ptr ≠ .out_state k := by simp [squeezed]
  have hbody_out : ∀ k, (body_out seq.axis P.out_data.dims).ptr ≠ .out_state k := by simp [body_out]
  have hstate : ∀ j k, (outState [N, S] j).ptr ≠ .state_in k := by simp [outState]
  have hins : ((List.range seq.cellType.NS).map (inState [N, S])).map
      (fun d => redirectAll (outerLinks seq P N num S) (redirectAll (innerLinks seq P N num S)
        (d.map (Copies.copy i)))) = (List.range seq.cellType.NS).map (stateIn P N S i) := by
    rw [List.map_map]
    refine List.map_congr_left fun k hk => ?_
    rw [Function.comp_apply, redirectAll_inState hi (List.mem_range.mp hk), redirectAll_stateIn hi]
  have houts : ((List.range seq.cellType.NS).map (outState [N, S])).map
      (fun d => redirectAll (outerLinks seq P N num S) (d.map (Copies.copy i))) =
        (List.range seq.cellType.NS).map (stateOut P N num S i) := by
    rw [List.map_map]
    refine List.map_congr_left fun k hk => ?_
    rw [Function.comp_apply, redirectAll_outState hpos (List.mem_range.mp hk)]
  simp only [CopyTIBody, seqTI, seqBody, CNNLayer.map, List.map_cons, List.map_nil, copyLayers, chunkIn, chunkOut,
    hin _ hbody_in, hin _ hsqueezed, hin _ (hstate 0), hout _ hbody_in', hout _ hsqueezed', hout _ hbody_out,
    redirectAll_outState hpos (NS_pos seq.cellType)]
  simp only [List.map_map, Function.comp_def] at hins houts ⊢
  rw [hins, houts]

/-- **The unrolled TensorIterator.** -/
theorem unrollTI_seq (hnum : getNumIteration (seqTI seq P N S).ports = .ok (num : Int)) (hpos : 0 < num) :
    unrollTI (seqTI seq P N S) = .ok (some (seqLayers seq P N num S)) := by
  have hchunkIn : ∀ j, redirectAll (outerLinks seq P N num S) (chunkIn seq P j) = chunkIn seq P j :=
    fun j => redirectAll_outer_of_ne (by simp [chunkIn, body_in])
  have hchunkOut : ∀ j, redirectAll (outerLinks seq P N num S) (chunkOut seq P j) = chunkOut seq P j :=
    fun j => redirectAll_outer_of_ne (by simp [chunkOut, body_out])
  have hinner : ∀ d : DataPtr ι, redirectAll (innerLinks seq P N num S) (d.map .outer) = d.map .outer :=
    fun d => redirectAll_inner_of_ne (by simp)
  have houter : ∀ d : DataPtr ι, redirectAll (outerLinks seq P N num S) (d.map .outer) = d.map .outer :=
    fun d => redirectAll_outer_of_ne (by simp)
  have hcopies : (((List.range num).flatMap (CopyTIBody (seqTI seq P N S).body)).map fun l =>
      { l with insData := l.insData.map (redirectAll (innerLinks seq P N num S)) }).map (fun l =>
        { l with
          insData := l.insData.map (redirectAll (outerLinks seq P N num S))
          outData := l.outData.map (redirectAll (outerLinks seq P N num S)) }) =
        (List.range num).flatMap (copyLayers seq P N num S) := by
    rw [List.map_flatMap, List.map_flatMap]
    exact List.flatMap_congr fun i hi => copy_linked (List.mem_range.mp hi)
  rw [unrollTI_links hnum hpos, combineAll_eq, foldl_giveOutput, List.map_append, List.map_cons, List.map_cons, hcopies,
    seqLayers]
  simp only [List.map_cons, List.map_nil, List.map_map, Function.comp_def, hchunkIn, hchunkOut, hinner, houter]

/-! ### The number of copies -/

theorem getD_seqDims {axis k : Nat} (h : axis = 0 ∨ axis = 1) : (seqDims axis N T k).getD axis 0 = T := by
  rcases h with rfl | rfl <;> rfl

theorem lt_length_seqDims {axis k : Nat} (h : axis = 0 ∨ axis = 1) : axis < (seqDims axis N T k).length := by
  rcases h with rfl | rfl <;> simp [seqDims]

/-- A port whose Data is there. -/
theorem readable_iterated {data : Int → Result Data} {d : Data} {axis k : Nat} (direct : Direction)
    (haxis : axis = 0 ∨ axis = 1) (hd : data 0 = .ok d) (hdims : d.dims = seqDims axis N T k) :
    (iteratedPort axis direct).Readable data ∧ (iteratedPort axis direct).count data = T := by
  have hport : (iteratedPort axis direct).from_ = 0 := rfl
  have hax : (iteratedPort axis direct).axis = axis := rfl
  have hstride : (iteratedPort axis direct).stride = 1 ∨ (iteratedPort axis direct).stride = -1 := by
    unfold iteratedPort
    simp only
    split_ifs
    · exact .inl rfl
    · exact .inr rfl
  refine ⟨⟨⟨d, by rw [hport, hd]⟩, ?_, fun _ => ?_⟩, ?_⟩
  · intro d' hd' _
    rw [hport, hd] at hd'
    cases hd'
    rw [hax, hdims, Int.toNat_natCast]
    exact ⟨Int.natCast_nonneg axis, lt_length_seqDims haxis⟩
  · rcases hstride with h | h <;> rw [h] <;> decide
  · have hone : (iteratedPort axis direct).stride.natAbs = 1 := by
      rcases hstride with h | h <;> rw [h] <;> rfl
    rw [PortMap.count, hone, Nat.div_one, PortMap.size, hport, hd]
    simp only
    rw [hdims, hax, Int.toNat_natCast, getD_seqDims haxis]

theorem readable_state {data : Int → Result Data} {d : Data} {k : Nat} (hd : data (1 + k) = .ok d) :
    (statePort k).Readable data where
  found := ⟨d, hd⟩
  axis _ _ h := absurd rfl h
  stride h := absurd rfl h

omit [DecidableEq ι] in
theorem getNumIteration_seq (h : seq.Fits P N T D S) :
    getNumIteration (seqTI seq P N S).ports = .ok ((foldCounts [T, T] 1).getD (-1)) := by
  have hin : (seqTI seq P N S).ports.lockInsData 0 = .ok ⟨"", P.in_data.dims⟩ := rfl
  have hout : (seqTI seq P N S).ports.getOutData 0 = .ok ⟨"", P.out_data.dims⟩ := rfl
  have hinState : ∀ k < seq.cellType.NS,
      (seqTI seq P N S).ports.lockInsData (1 + k) = .ok ⟨"", (P.in_state k).dims⟩ := by
    intro k hk
    unfold TensorIterator.lockInsData TILayer.ports seqTI
    simp only [List.map_cons, List.map_map, elemAt_state hk, ok_bind]
    rfl
  have houtState : ∀ k < seq.cellType.NS,
      (seqTI seq P N S).ports.getOutData (1 + k) = .ok ⟨"", (P.out_state k).dims⟩ := by
    intro k hk
    unfold TensorIterator.getOutData TILayer.ports seqTI
    simp only [List.map_cons, List.map_map, elemAt_state hk]
    rfl
  obtain ⟨hreadIn, hcountIn⟩ := readable_iterated seq.direction h.axis hin h.in_dims
  obtain ⟨hreadOut, hcountOut⟩ := readable_iterated seq.direction h.axis hout h.out_dims
  have hreadable : (seqTI seq P N S).ports.Readable := by
    constructor
    · intro rule hrule
      rcases List.mem_cons.mp hrule with rfl | hrule
      · exact hreadIn
      · obtain ⟨k, hk, rfl⟩ := List.mem_map.mp hrule
        exact readable_state (hinState k (List.mem_range.mp hk))
    · intro rule hrule
      rcases List.mem_cons.mp hrule with rfl | hrule
      · exact hreadOut
      · obtain ⟨k, hk, rfl⟩ := List.mem_map.mp hrule
        exact readable_state (houtState k (List.mem_range.mp hk))
  have hfilter : (iteratedPort seq.axis seq.direction :: (List.range seq.cellType.NS).map statePort).filter
      (fun rule => decide rule.Iterated) = [iteratedPort seq.axis seq.direction] := by
    have hiter : (iteratedPort seq.axis seq.direction).Iterated := iteratedPort_axis_ne _ _
    have hstate : ∀ k, ¬ (statePort k).Iterated := fun k hk => hk rfl
    simp [hiter, List.filter_map, Function.comp_def, hstate]
  have hcounts : (seqTI seq P N S).ports.counts = [T, T] := by
    have hinputs : (seqTI seq P N S).ports.input_port_map.filter (fun rule => decide rule.Iterated) =
        [iteratedPort seq.axis seq.direction] := hfilter
    have houtputs : (seqTI seq P N S).ports.output_port_map.filter (fun rule => decide rule.Iterated) =
        [iteratedPort seq.axis seq.direction] := hfilter
    rw [TensorIterator.counts, hinputs, houtputs, List.map_singleton, List.map_singleton, hcountIn, hcountOut]
    rfl
  rw [getNumIteration_eq hreadable, hcounts]

theorem foldCounts_two (hT : T < 2 ^ 31) : (foldCounts [T, T] 1).getD (-1) = T := by
  have hcommon : ∀ c ∈ [T, T], c = T := by simp
  obtain ⟨r, hr, -, hall⟩ := foldCounts_of_common hT hcommon
  rw [hr, Option.getD_some, ← hall T List.mem_cons_self]

/-- The count of a sequence whose length is no `int`. -/
theorem foldCounts_two_large (hT : 2 ^ 31 ≤ T) :
    (foldCounts [T, T] 1).getD (-1) < 0 ∨ (foldCounts [T, T] 1).getD (-1) = 1 := by
  by_cases hone : toInt T = 1
  · right
    rw [foldCounts, if_pos rfl, foldCounts, if_pos hone, foldCounts, hone]
    rfl
  · left
    rw [foldCounts, if_pos rfl, foldCounts, if_neg hone]
    split_ifs with hne
    · decide
    · rw [foldCounts, Option.getD_some]
      by_contra hneg
      have hcast := natCast_eq_toInt (not_not.mp hne).symm (by omega)
      obtain ⟨-, hlt⟩ := fitsInt_toInt T
      omega

end OpenVino.InferenceEngine.NetPass
