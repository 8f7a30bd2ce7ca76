import OpenVino.InferenceEngine.NetPass.SequenceRuns

/-!
# When an unrolled sequence follows its cell

`unrolls_iff`: the sequence has a length that is a positive `int`, and an LSTM has no clip. The unrolled LSTM does not
clip the input of its last activation (`clippedKernels` tells the two apart), and `getNumIteration` counts in `int`,
so that from `2 ^ 31` steps on it finds no number of copies or one copy (`foldCounts_two_large`).
-/

namespace OpenVino.InferenceEngine.NetPass

variable {ι α : Type} [CommRing α] [LinearOrder α]

/-! ### Where the steps agree -/

namespace RNNCellBase

/-- Without elements there is nothing to clip. -/
theorem unrolledStep_of_nil (K : Kernels α) (cell : RNNCellBase α) (x : List α) {states : List (List α)}
    (h : states.getD 0 [] = []) :
    cell.unrolledStep K x states = cell.step K x states ∧ (cell.step K x states).getD 0 [] = [] := by
  cases htype : cell.cellType with
  | LSTM =>
    simp only [unrolledStep, step, htype, h]
    simp [lstmHiddenState, lstmHiddenUnclipped, activated, gate]
  | GRU =>
    simp only [unrolledStep, step, htype, h]
    simp [gruHiddenState, updateGate, activated, gate]
  | GRU_LBR =>
    simp only [unrolledStep, step, htype, h]
    simp [gruHiddenState, updateGate, activated, gate]
  | RNN =>
    simp only [unrolledStep, step, htype, h]
    simp [activated, gate]

end RNNCellBase

section Agree

variable {seq : RNNSequenceLayer ι α} {P : SeqPorts ι} {N T D S n : Nat} {K : Kernels α} {v : ι → Content α}

theorem states_unrolledStep (hclip : seq.cellType = .LSTM → seq.clip = 0 ∨ S = 0) (i : Nat) :
    seq.states (seq.unrolledStep K) P N T D S v n i = seq.states (seq.step K) P N T D S v n i := by
  by_cases hS : S = 0
  · have hnil : seq.states (seq.unrolledStep K) P N T D S v n i = seq.states (seq.step K) P N T D S v n i ∧
        (seq.states (seq.step K) P N T D S v n i).getD 0 [] = [] := by
      induction i with
      | zero =>
        refine ⟨rfl, ?_⟩
        rw [RNNSequenceLayer.states, statesAfter, List.getD_eq_getElem?_getD, List.getElem?_map,
          List.getElem?_range (NS_pos _), hS]
        rfl
      | succ i ih =>
        obtain ⟨hstep, hempty⟩ := RNNCellBase.unrolledStep_of_nil K seq.toRNNCellBase
          (seqRow seq.axis N T D (v P.in_data.ptr) n (seq.timeOf T i)) ih.2
        refine ⟨?_, hempty⟩
        calc seq.states (seq.unrolledStep K) P N T D S v n (i + 1)
            = seq.unrolledStep K (seqRow seq.axis N T D (v P.in_data.ptr) n (seq.timeOf T i))
                (seq.states (seq.unrolledStep K) P N T D S v n i) := rfl
          _ = _ := by rw [ih.1, hstep]; rfl
    exact hnil.1
  · have hsteps : seq.unrolledStep K = seq.step K := by
      funext x states
      exact RNNCellBase.unrolledStep_eq K _ (fun htype => (hclip htype).resolve_right hS) x states
    rw [hsteps]

end Agree

variable {seq : RNNSequenceLayer ι α} {P : SeqPorts ι} {N T D S num : Nat}

/-! ### Shapes -/

omit [CommRing α] [LinearOrder α] in
theorem shaped_splitLayer (h : seq.Fits P N T D S) : (splitLayer seq P num).Shaped ↔ num = T := by
  have hparts : ∀ dims ∈ ((splitLayer seq P num).outData.map DataPtr.dims),
      dims = (seqDims seq.axis N T D).set seq.axis 1 := by
    intro dims hdims
    obtain ⟨d, hd, rfl⟩ := List.mem_map.mp hdims
    obtain ⟨j, -, rfl⟩ := List.mem_map.mp hd
    rw [← h.in_dims]
    rfl
  have hfits := fitsAlong_seqDims h.axis hparts
  rw [← h.in_dims] at hfits
  have hcount : ((splitLayer seq P num).outData.map DataPtr.dims).length = num := by simp [splitLayer]
  rw [hcount] at hfits
  exact hfits

omit [CommRing α] [LinearOrder α] in
theorem shaped_concatLayer (h : seq.Fits P N T D S) : (concatLayer seq P T).Shaped := by
  have hparts : ∀ dims ∈ ((concatLayer seq P T).insData.map DataPtr.dims),
      dims = (seqDims seq.axis N T S).set seq.axis 1 := by
    intro dims hdims
    obtain ⟨d, hd, rfl⟩ := List.mem_map.mp hdims
    obtain ⟨j, -, rfl⟩ := List.mem_map.mp hd
    rw [← h.out_dims]
    rfl
  have hfits := (fitsAlong_seqDims h.axis hparts).mpr (by simp [concatLayer])
  rw [← h.out_dims] at hfits
  exact hfits

theorem shaped_seqNet (h : seq.Fits P N T D S) (hvalid : seq.Valid D S) :
    ∀ l ∈ seqNet seq P N T S, l.Shaped := by
  intro l hl
  rw [seqNet, List.mem_cons, List.mem_append, List.mem_singleton, List.mem_flatMap] at hl
  rcases hl with rfl | ⟨i, -, hl⟩ | rfl
  · exact (shaped_splitLayer h).mpr rfl
  · rw [copyNet, List.mem_cons, List.mem_append, List.mem_singleton] at hl
    rcases hl with rfl | hl | rfl
    · trivial
    · exact (unrollCell_copy h hvalid T i).2.shaped l hl
    · trivial
  · exact shaped_concatLayer h

/-! ### Lengths -/

variable [DecidableEq ι]

theorem unrolls_of_length (h : seq.Fits P N T D S) (hvalid : seq.Valid D S) (hapart : seq.Apart) (hpos : 0 < T)
    (hT : T < 2 ^ 31) (hclip : seq.cellType = .LSTM → seq.clip = 0 ∨ N = 0 ∨ S = 0) : seq.Unrolls P N T D S := by
  refine ⟨_, unroll_eq h hvalid hpos (foldCounts_two hT), shaped_seqNet h hvalid, fun K => ⟨fun w hw => ?_, ?_⟩⟩
  · refine (follows_of_consistent h hvalid hpos hw).congr fun n hn i => ?_
    refine states_unrolledStep (fun htype => ?_) i
    rcases hclip htype with hzero | hN | hS
    · exact .inl hzero
    · omega
    · exact .inr hS
  · exact exists_consistent_seqNet h hvalid hapart hpos K

/-- Without copies there is no body for the first states. -/
theorem unroll_zero (h : seq.Fits P N 0 D S) {r : Option (List (CNNLayer (Unrolled (Copies ι SeqData)) α))} :
    unroll seq ≠ .ok r := by
  intro hrun
  have hcount := getNumIteration_seq h
  have hzero : (foldCounts [0, 0] 1).getD (-1) = 0 := rfl
  rw [hzero] at hcount
  rw [unroll, unrollSeq_eq h, ok_bind] at hrun
  obtain ⟨net, hnet, -⟩ := bind_ok_iff.mp hrun
  rw [unrollTI, hcount, ok_bind, if_neg (by omega), if_neg (by omega)] at hnet
  obtain ⟨splits, -, hnet⟩ := bind_ok_iff.mp hnet
  obtain ⟨shared, -, hnet⟩ := bind_ok_iff.mp hnet
  obtain ⟨back, -, hnet⟩ := bind_ok_iff.mp hnet
  obtain ⟨first, hfirst, -⟩ := bind_ok_iff.mp hnet
  have hclass : (classifyInputRules (seqTI seq P N S)).third_class = (List.range seq.cellType.NS).map statePort := by
    rw [classifyInputRules, seqTI, to_statePort, classifyRules_seq]
  obtain ⟨k, hk⟩ := Nat.exists_eq_succ_of_ne_zero (NS_pos seq.cellType).ne'
  rw [hclass, hk, List.range_succ_eq_map, List.map_cons, List.mapM_cons] at hfirst
  obtain ⟨link, hlink, -⟩ := bind_ok_iff.mp hfirst
  rw [firstLink] at hlink
  obtain ⟨d, -, hlink⟩ := bind_ok_iff.mp hlink
  obtain ⟨d', -, hlink⟩ := bind_ok_iff.mp hlink
  simp at hlink

/-- A length that is no `int`. -/
theorem not_unrolls_of_large (h : seq.Fits P N T D S) (hvalid : seq.Valid D S) (hT : 2 ^ 31 ≤ T) :
    ¬ seq.Unrolls P N T D S := by
  rintro ⟨net, hnet, hshaped, -⟩
  rcases foldCounts_two_large hT with hneg | hone
  · have hcount := getNumIteration_seq h
    rw [unroll, unrollSeq_eq h, ok_bind, unrollTI, hcount, ok_bind] at hnet
    split_ifs at hnet
    · cases hnet
    · cases hnet
  · rw [unroll_eq h hvalid Nat.one_pos hone] at hnet
    cases hnet
    have hlength := (shaped_splitLayer h).mp (hshaped _ List.mem_cons_self)
    omega

/-! ### Clipped LSTMs -/

/-- Activations that tell what is inside the clip from what is outside. -/
def clippedKernels (c : α) : Kernels α where
  activation _ z := if -c ≤ z ∧ z ≤ c then 1 else 0
  neuron _ _ _ := 0

theorem activation_inside {c z : α} {f : String} (h : -c ≤ z) (h' : z ≤ c) :
    (clippedKernels c).activation f z = 1 := if_pos ⟨h, h'⟩

theorem activation_outside {c z : α} {f : String} (h : c < z) : (clippedKernels c).activation f z = 0 :=
  if_neg fun hz => h.not_ge hz.2

section Clipped

variable [IsStrictOrderedRing α] {cell : RNNCellBase α}

/-- One step from a cell state at the clip: behind it, the last activation sees an element outside the clip. -/
theorem clipped_hidden (hclip : 0 < cell.clip) {x h : List α} {S : Nat} (hS : h.length = S) :
    cell.lstmHiddenState (clippedKernels cell.clip) x h (List.replicate S cell.clip) = List.replicate S 1 ∧
      cell.lstmHiddenUnclipped (clippedKernels cell.clip) x h (List.replicate S cell.clip) =
        List.replicate S 0 := by
  have hgates : ∀ i g, cell.activated (clippedKernels cell.clip) i
      (cell.gate (clippedKernels cell.clip) S g (x ++ h)) = List.replicate S 1 := by
    intro i g
    have hgate : cell.gate (clippedKernels cell.clip) S g (x ++ h) = List.replicate S 0 := by
      rw [RNNCellBase.gate, clippedKernels, List.map_const', List.length_range]
    have hzero : cell.clipped 0 = 0 := by
      rw [RNNCellBase.clipped, if_neg hclip.ne', min_eq_left hclip.le, max_eq_right (neg_nonpos.mpr hclip.le)]
    rw [hgate, RNNCellBase.activated, List.map_replicate, hzero, RNNCellBase.act,
      activation_inside (neg_nonpos.mpr hclip.le) hclip.le]
  have hCt : cell.lstmCellState (clippedKernels cell.clip) x h (List.replicate S cell.clip) =
      List.replicate S (cell.clip + 1) := by
    simp only [RNNCellBase.lstmCellState, hS, hgates, List.zipWith_replicate', one_mul]
  have hlarge : cell.clip < cell.clip + 1 := lt_add_one _
  have hbound : -cell.clip ≤ cell.clip := (neg_nonpos.mpr hclip.le).trans hclip.le
  constructor
  · have hclipped : cell.clipped (cell.clip + 1) = cell.clip := by
      rw [RNNCellBase.clipped, if_neg hclip.ne', min_eq_right hlarge.le, max_eq_right hbound]
    rw [RNNCellBase.lstmHiddenState, hS, hgates, hCt, RNNCellBase.activated, List.map_replicate, hclipped,
      RNNCellBase.act, activation_inside hbound (le_refl _), List.zipWith_replicate', one_mul]
  · rw [RNNCellBase.lstmHiddenUnclipped, hS, hgates, hCt, List.map_replicate, RNNCellBase.act,
      activation_outside hlarge, List.zipWith_replicate', one_mul]

theorem not_unrolls_of_clip (h : seq.Fits P N T D S) (hvalid : seq.Valid D S) (hapart : seq.Apart) (hpos : 0 < T)
    (hT : T < 2 ^ 31) (htype : seq.cellType = .LSTM) (hclip : seq.clip ≠ 0) (hN : 0 < N) (hS : 0 < S) :
    ¬ seq.Unrolls P N T D S := by
  rintro ⟨net, hnet, -, hruns⟩
  rw [unroll_eq h hvalid hpos (foldCounts_two hT)] at hnet
  cases hnet
  obtain ⟨hfollows, hinputs⟩ := hruns (clippedKernels seq.clip)
  -- Everything that the layer reads is at the clip.
  obtain ⟨w, hw, hvalues⟩ := hinputs fun _ _ => seq.clip
  have hrows : ((List.range CellType.LSTM.NS).map fun k => rowOf S (w (.data (.outer (P.in_state k).ptr))) 0) =
      [List.replicate S seq.clip, List.replicate S seq.clip] := by
    have hrow : ∀ k < CellType.LSTM.NS,
        rowOf S (w (.data (.outer (P.in_state k).ptr))) 0 = List.replicate S seq.clip := by
      intro k hk
      have hin : P.in_state k ∈ seq.insData := by
        rw [h.insData, htype]
        exact List.mem_cons_of_mem _ (List.mem_map_of_mem (List.mem_range.mpr hk))
      rw [hvalues _ (hapart.inputs _ hin), rowOf, List.map_const', List.length_range]
    rw [List.map_congr_left fun k hk => hrow k (List.mem_range.mp hk)]
    rfl
  have hcode := (follows_of_consistent h hvalid hpos hw).outputs 0 hN 0 hpos
  have hcell := (hfollows w hw).outputs 0 hN 0 hpos
  rw [hcode] at hcell
  simp only [RNNSequenceLayer.states, statesAfter, hrows, RNNCellBase.unrolledStep, RNNCellBase.step, htype,
    List.getD_cons_zero, List.getD_cons_succ] at hcell
  obtain ⟨hspec, hunclipped⟩ := clipped_hidden (lt_of_le_of_ne hvalid.clip hclip.symm)
    (x := seqRow seq.axis N T D (w (.data (.outer P.in_data.ptr))) 0 (seq.timeOf T 0))
    (List.length_replicate (n := S) (a := seq.clip))
  rw [hspec, hunclipped] at hcell
  have hhead := congrArg List.head? hcell
  rw [List.head?_replicate, List.head?_replicate, if_neg hS.ne', if_neg hS.ne', Option.some_inj] at hhead
  exact zero_ne_one hhead

/-- **Unrolled sequences follow the cell** when the length is a positive `int` and no LSTM is clipped. -/
theorem unrolls_iff (h : seq.Fits P N T D S) (hvalid : seq.Valid D S) (hapart : seq.Apart) :
    seq.Unrolls P N T D S ↔
      0 < T ∧ T < 2 ^ 31 ∧ (seq.cellType = .LSTM → seq.clip = 0 ∨ N = 0 ∨ S = 0) := by
  constructor
  · intro hunrolls
    have hpos : 0 < T := by
      by_contra hzero
      obtain rfl : T = 0 := by omega
      obtain ⟨net, hnet, -⟩ := hunrolls
      exact unroll_zero h hnet
    have hT : T < 2 ^ 31 := by
      by_contra hlarge
      exact not_unrolls_of_large h hvalid (by omega) hunrolls
    refine ⟨hpos, hT, fun htype => ?_⟩
    by_contra hcond
    rw [not_or, not_or] at hcond
    exact not_unrolls_of_clip h hvalid hapart hpos hT htype hcond.1 (by omega) (by omega) hunrolls
  · rintro ⟨hpos, hT, hclip⟩
    exact unrolls_of_length h hvalid hapart hpos hT hclip

end Clipped

/-! ### One element everywhere -/

def unitPorts (T : Nat) : SeqPorts Nat where
  in_data := ⟨0, [1, T, 1]⟩
  in_state k := ⟨1 + k, [1, 1]⟩
  out_data := ⟨3, [1, T, 1]⟩
  out_state k := ⟨4 + k, [1, 1]⟩

def unitSeq (t : CellType) (clip : Int) (direction : Direction) (T : Nat) : RNNSequenceLayer Nat Int where
  cellType := t
  weights := List.replicate (t.G * 2) 1
  biases := List.replicate t.biases 0
  activations := List.replicate t.activations "tanh"
  clip := clip
  axis := 1
  direction := direction
  insData := (unitPorts T).in_data :: (List.range t.NS).map (unitPorts T).in_state
  outData := (unitPorts T).out_data :: (List.range t.NS).map (unitPorts T).out_state

section Unit

variable {t : CellType} {clip : Int} {direction : Direction} {T : Nat}

theorem unitSeq_fits (hdirection : direction ≠ .BDR) :
    (unitSeq t clip direction T).Fits (unitPorts T) 1 T 1 1 where
  axis := .inr rfl
  direction := hdirection
  insData := rfl
  outData := rfl
  in_dims := rfl
  out_dims := rfl
  in_state_dims _ _ := rfl
  out_state_dims _ _ := rfl

theorem unitSeq_valid (hclip : 0 ≤ clip) : (unitSeq t clip direction T).Valid 1 1 where
  clip := hclip
  activations := List.length_replicate
  weights := by simp [unitSeq]
  biases := by simp [unitSeq]

theorem unitSeq_apart : (unitSeq t clip direction T).Apart where
  nodup := by cases t <;> simp [unitSeq, unitPorts, CellType.NS, List.range_succ]
  inputs := by cases t <;> simp [unitSeq, unitPorts, CellType.NS, List.range_succ]

end Unit

theorem unrolls_backwardGru : (unitSeq .GRU_LBR 1 .BWD 3).Unrolls (unitPorts 3) 1 3 1 1 :=
  (unrolls_iff (unitSeq_fits (by decide)) (unitSeq_valid (by decide)) unitSeq_apart).mpr (by decide)

theorem not_unrolls_clippedLstm : ¬ (unitSeq .LSTM 1 .FWD 1).Unrolls (unitPorts 1) 1 1 1 1 :=
  not_unrolls_of_clip (unitSeq_fits (by decide)) (unitSeq_valid (by decide)) unitSeq_apart (by decide) (by decide) rfl
    (by decide) (by decide) (by decide)

end OpenVino.InferenceEngine.NetPass
