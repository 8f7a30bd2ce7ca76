import OpenVino.InferenceEngine.NetPass.CellOrder
import OpenVino.InferenceEngine.NetPass.GruRows

/-!
# Unrolled cells

`unrollCell_ok` collects what the layers of every unrolled cell are good for (`UnrolledAs`): they compute a step, their
shapes go together, and they stand in order.
-/

namespace OpenVino.InferenceEngine.NetPass

variable {ι α : Type} [CommRing α] [LinearOrder α]

/-- `net` stands for a cell that reads `x` and the states `hs` and gives the states `outs`. -/
structure UnrolledAs (cell : RNNCellBase α) (D S : Nat) (x : DataPtr ι) (hs outs : List (DataPtr ι))
    (net : List (CNNLayer (Unrolled ι) α)) : Prop where
  computes : ∀ (K : Kernels α) (w : Unrolled ι → Content α) (n : Nat), Consistent K w net →
    outs.map (fun o => rowOf S (w (.data o.ptr)) n) =
      cell.unrolledStep K (rowOf D (w (.data x.ptr)) n) (hs.map fun h => rowOf S (w (.data h.ptr)) n)
  shaped : ∀ l ∈ net, l.Shaped
  rising : ∀ (K : Kernels α) (rank : Unrolled ι → Nat) (b : Nat),
    (∀ o, outs[0]? = some o → ∀ name, rank (.part o.ptr name) = b + name.order) →
    (∀ d ∈ x :: hs, rank (.data d.ptr) ≤ b) →
    (∀ k o, outs[k]? = some o → rank (.data o.ptr) = b + stateOrder k) →
    Node.Rising rank (b + 1) (net.map (CNNLayer.node K)) (b + 26)

/-! ### Shapes -/

section Shapes

variable {κ : Type} {a b c : DataPtr κ} {N D S : Nat}

omit [CommRing α] [LinearOrder α] in
theorem shaped_concat (ha : a.dims = [N, D]) (hb : b.dims = [N, S]) (hc : c.dims = [N, D + S]) :
    (⟨.concat 1, [a, b], [c]⟩ : CNNLayer κ α).Shaped := by
  simp [CNNLayer.Shaped, FitsAlong, ha, hb, hc]

theorem shaped_clip {clip : α} : ∀ l ∈ (link_with_clip clip a b).2, l.Shaped := by
  unfold link_with_clip
  split_ifs
  · simp
  · simp [CNNLayer.Shaped]

end Shapes

variable {cell : RNNCellBase α} {x h c h' c' : DataPtr ι} {N D S : Nat} {f g f' : String}

theorem unrolledAs_rnn (htype : cell.cellType = .RNN) (hx : x.dims = [N, D]) (hh : h.dims = [N, S])
    (hf : cell.activations.getD 0 "" = f) :
    UnrolledAs cell D S x [h] [h'] (rnnCellLayers cell N D S f x h h') where
  computes K w n hw := by
    have hrow := row_rnnCell (n := n) hx hh hf hw
    simp only [List.map_cons, List.map_nil, RNNCellBase.unrolledStep, RNNCellBase.step, htype, List.getD_cons_zero,
      length_rowOf, hrow]
  shaped l hl := by
    simp only [rnnCellLayers, List.mem_append, List.mem_cons, List.not_mem_nil, or_false] at hl
    rcases hl with ((rfl | rfl) | hl) | rfl
    · exact shaped_concat hx hh rfl
    · trivial
    · exact shaped_clip l hl
    · trivial
  rising K rank b hpart hins houts := by
    exact rising_rnnCell (hpart h' rfl) (hins x (by simp)) (hins h (by simp)) (houts 0 h' rfl)

theorem unrolledAs_lstm (htype : cell.cellType = .LSTM) (hx : x.dims = [N, D]) (hh : h.dims = [N, S])
    (hf : cell.activations.getD 0 "" = f) (hg : cell.activations.getD 1 "" = g)
    (hf' : cell.activations.getD 2 "" = f') :
    UnrolledAs cell D S x [h, c] [h', c'] (lstmCellLayers cell N D S f g f' x h c h' c') where
  computes K w n hw := by
    obtain ⟨hCt, hHt⟩ := row_lstmCell (n := n) hx hh hf hg hf' hw
    simp only [List.map_cons, List.map_nil, RNNCellBase.unrolledStep, RNNCellBase.lstmHiddenUnclipped, htype,
      List.getD_cons_zero, List.getD_cons_succ, length_rowOf, hCt, hHt]
  shaped l hl := by
    simp only [lstmCellLayers, List.mem_append, List.mem_cons, List.not_mem_nil, or_false] at hl
    rcases hl with ((rfl | rfl) | hl) | rfl | rfl | rfl | rfl | rfl | rfl | rfl | rfl | rfl | rfl
    · exact shaped_concat hx hh rfl
    · trivial
    · exact shaped_clip l hl
    · have hdims : (link_with_clip cell.clip (⟨.part h'.ptr .fc, [N, S * 4]⟩ : DataPtr (Unrolled ι))
          ⟨.part h'.ptr .split_clip, [N, S * 4]⟩).1.dims = [N, S * 4] := dims_link_with_clip rfl rfl
      simp only [CNNLayer.Shaped, FitsAlong, List.map_cons, List.map_nil, List.headD_cons, hdims]
      refine ⟨?_, by simp⟩
      simp only [List.getD_cons_succ, List.getD_cons_zero, List.sum_cons, List.sum_nil]
      omega
    all_goals trivial
  rising K rank b hpart hins houts :=
    rising_lstmCell (hpart h' rfl) (hins x (by simp)) (hins h (by simp)) (hins c (by simp)) (houts 0 h' rfl)
      (houts 1 c' rfl)

theorem shaped_gates {W B : List α} (hx : x.dims = [N, D]) (hh : h.dims = [N, S]) :
    ∀ l ∈ gruGateLayers cell N D S f W B x h h', l.Shaped := by
  intro l hl
  simp only [gruGateLayers, List.mem_append, List.mem_cons, List.not_mem_nil, or_false] at hl
  rcases hl with ((rfl | rfl) | hl) | rfl | rfl
  · exact shaped_concat hx hh rfl
  · trivial
  · exact shaped_clip l hl
  · trivial
  · simp only [CNNLayer.Shaped, FitsAlong, List.map_cons, List.map_nil, List.headD_cons]
    refine ⟨?_, by simp⟩
    simp only [List.getD_cons_succ, List.getD_cons_zero, List.sum_cons, List.sum_nil]
    omega

omit [LinearOrder α] in
theorem shaped_output : ∀ l ∈ (gruOutputLayers N S h h' : List (CNNLayer (Unrolled ι) α)), l.Shaped := by
  intro l hl
  simp only [gruOutputLayers, List.mem_cons, List.not_mem_nil, or_false] at hl
  rcases hl with rfl | rfl | rfl | rfl <;> trivial

theorem unrolledAs_gru (htype : cell.cellType = .GRU) (hx : x.dims = [N, D]) (hh : h.dims = [N, S])
    (hW : cell.weights.length = 3 * S * (D + S)) (hB : cell.biases.length = 3 * S)
    (hf : cell.activations.getD 0 "" = f) (hg : cell.activations.getD 1 "" = g) :
    UnrolledAs cell D S x [h] [h'] (gateLayers cell 3 N D S f x h h' ++
      gruCandidateLayers cell N D S g (outputRows cell D S) (regionRows cell.biases (3 * S) S 0 2 0 1 1 S) x h h' ++
      gruOutputLayers N S h h') where
  computes K w n hw := by
    rw [consistent_append, consistent_append] at hw
    obtain ⟨⟨hgates, hcand⟩, hout⟩ := hw
    obtain ⟨hz, hr⟩ := row_gates (n := n) hx hh hW hB (by omega) hf hgates
    have hrow := row_output hout hz (row_candidate hx hW hB hg hcand hr)
    simp only [List.map_cons, List.map_nil, RNNCellBase.unrolledStep, RNNCellBase.step, htype, List.getD_cons_zero,
      hrow]
  shaped l hl := by
    rw [List.mem_append, List.mem_append] at hl
    rcases hl with (hl | hl) | hl
    · exact shaped_gates hx hh l hl
    · simp only [gruCandidateLayers, List.mem_append, List.mem_cons, List.not_mem_nil, or_false] at hl
      rcases hl with ((rfl | rfl | rfl) | hl) | rfl
      · trivial
      · exact shaped_concat hx rfl rfl
      · trivial
      · exact shaped_clip l hl
      · trivial
    · exact shaped_output l hl
  rising K rank b hpart hins houts := by
    rw [List.map_append, List.map_append]
    exact ((rising_gruGates (hpart h' rfl) (hins x (by simp)) (hins h (by simp))).append
      (rising_gruCandidate (hpart h' rfl) (hins x (by simp)) (hins h (by simp)))).append
      (rising_gruOutput (hpart h' rfl) (hins h (by simp)) (houts 0 h' rfl))

theorem unrolledAs_gruLinear (htype : cell.cellType = .GRU_LBR) (hx : x.dims = [N, D]) (hh : h.dims = [N, S])
    (hW : cell.weights.length = 3 * S * (D + S)) (hB : cell.biases.length = 4 * S)
    (hf : cell.activations.getD 0 "" = f) (hg : cell.activations.getD 1 "" = g) :
    UnrolledAs cell D S x [h] [h'] (gateLayers cell 4 N D S f x h h' ++
      gruLinearCandidateLayers cell N S g (regionRows (outputRows cell D S) (S * (D + S)) (D + S) 0 0 0 1 S D)
        (regionRows cell.biases (4 * S) S 0 2 0 1 1 S)
        (regionRows (outputRows cell D S) (S * (D + S)) (D + S) 0 0 D 1 S S)
        (regionRows cell.biases (4 * S) S 0 3 0 1 1 S) x h h' ++
      gruOutputLayers N S h h') where
  computes K w n hw := by
    rw [consistent_append, consistent_append] at hw
    obtain ⟨⟨hgates, hcand⟩, hout⟩ := hw
    obtain ⟨hz, hr⟩ := row_gates (n := n) hx hh hW hB (by omega) hf hgates
    have hrow := row_output hout hz (row_linearCandidate hx hh hW hB hg hcand hr)
    simp only [List.map_cons, List.map_nil, RNNCellBase.unrolledStep, RNNCellBase.step, htype, List.getD_cons_zero,
      hrow]
  shaped l hl := by
    rw [List.mem_append, List.mem_append] at hl
    rcases hl with (hl | hl) | hl
    · exact shaped_gates hx hh l hl
    · simp only [gruLinearCandidateLayers, List.mem_append, List.mem_cons, List.not_mem_nil, or_false] at hl
      rcases hl with ((rfl | rfl | rfl | rfl) | hl) | rfl
      · trivial
      · trivial
      · trivial
      · trivial
      · exact shaped_clip l hl
      · trivial
    · exact shaped_output l hl
  rising K rank b hpart hins houts := by
    rw [List.map_append, List.map_append]
    exact ((rising_gruGates (hpart h' rfl) (hins x (by simp)) (hins h (by simp))).append
      (rising_gruLinearCandidate (hpart h' rfl) (hins x (by simp)) (hins h (by simp)))).append
      (rising_gruOutput (hpart h' rfl) (hins h (by simp)) (houts 0 h' rfl))

/-! ### Every cell -/

/-- **Unrolled cells.** -/
theorem unrollCell_ok {hs outs : List (DataPtr ι)} (hvalid : cell.Valid D S) (hx : x.dims = [N, D])
    (hhs : hs.length = cell.cellType.NS) (houts : outs.length = cell.cellType.NS) (hdims : ∀ h ∈ hs, h.dims = [N, S]) :
    ∃ net, unrollCell ⟨.cell cell, x :: hs, outs⟩ = .ok net ∧ UnrolledAs cell D S x hs outs net := by
  have hact := hvalid.activations
  have hW := hvalid.weights
  have hB := hvalid.biases
  cases htype : cell.cellType with
  | RNN =>
    rw [htype] at hhs houts hact
    obtain ⟨h, rfl⟩ := List.length_eq_one_iff.mp hhs
    obtain ⟨h', rfl⟩ := List.length_eq_one_iff.mp houts
    obtain ⟨f, hf⟩ := List.length_eq_one_iff.mp hact
    have hh := hdims h List.mem_cons_self
    refine ⟨rnnCellLayers cell N D S f x h h', ?_, unrolledAs_rnn htype hx hh (by rw [hf]; rfl)⟩
    simp only [unrollCell, htype, unrollRNNCellBody, elemAt_zero, elemAt_one, ok_bind, hx, hh, hf]
    rfl
  | LSTM =>
    rw [htype] at hhs houts hact
    obtain ⟨h, c, rfl⟩ := List.length_eq_two.mp hhs
    obtain ⟨h', c', rfl⟩ := List.length_eq_two.mp houts
    obtain ⟨f, g, f', hf⟩ := List.length_eq_three.mp hact
    have hh := hdims h List.mem_cons_self
    refine ⟨lstmCellLayers cell N D S f g f' x h c h' c', ?_,
      unrolledAs_lstm htype hx hh (by rw [hf]; rfl) (by rw [hf]; rfl) (by rw [hf]; rfl)⟩
    simp only [unrollCell, htype, unrollLSTMCellBody, elemAt_zero, elemAt_one, elemAt_two, ok_bind, hx, hh, hf]
    rfl
  | GRU =>
    rw [htype] at hhs houts hact hW hB
    obtain ⟨h, rfl⟩ := List.length_eq_one_iff.mp hhs
    obtain ⟨h', rfl⟩ := List.length_eq_one_iff.mp houts
    obtain ⟨f, g, hf⟩ := List.length_eq_two.mp hact
    have hh := hdims h List.mem_cons_self
    refine ⟨_, ?_, unrolledAs_gru htype hx hh hW hB (by rw [hf]) (by rw [hf])⟩
    have hlenW : cell.weights.length = [3, S, D + S].prod := by simp [hW, CellType.G, Nat.mul_assoc]
    have hlenB : cell.biases.length = [3, S].prod := by simp [hB, CellType.biases, CellType.G]
    simp only [unrollCell, htype, unrollGRUCellBody, elemAt_zero, elemAt_one, ok_bind, hx, hh, hf,
      wrap_as_tensor_ok hlenW, Bool.false_eq_true, if_false, wrap_as_tensor_ok hlenB, make_region_copy_three,
      make_region_copy_two]
    rfl
  | GRU_LBR =>
    rw [htype] at hhs houts hact hW hB
    obtain ⟨h, rfl⟩ := List.length_eq_one_iff.mp hhs
    obtain ⟨h', rfl⟩ := List.length_eq_one_iff.mp houts
    obtain ⟨f, g, hf⟩ := List.length_eq_two.mp hact
    have hh := hdims h List.mem_cons_self
    refine ⟨_, ?_, unrolledAs_gruLinear htype hx hh hW hB (by rw [hf]) (by rw [hf])⟩
    have hlenW : cell.weights.length = [3, S, D + S].prod := by simp [hW, CellType.G, Nat.mul_assoc]
    have hlenB : cell.biases.length = [4, S].prod := by simp [hB, CellType.biases]
    simp only [unrollCell, htype, unrollGRUCellBody, elemAt_zero, elemAt_one, ok_bind, hx, hh, hf,
      wrap_as_tensor_ok hlenW, if_true, wrap_as_tensor_ok hlenB, make_region_copy_three, make_region_copy_two]
    rfl

end OpenVino.InferenceEngine.NetPass
