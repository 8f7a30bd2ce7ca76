import OpenVino.InferenceEngine.NetPass.CellRows

/-!
# What an unrolled GRU cell computes

The two forms of the cell share their gates (`gru_gates`) and the layers behind the candidate (`gru_output`).
Between them stands the candidate, for which the weights are cut once more when the reset gate comes after the
matrix product.
-/

namespace OpenVino.InferenceEngine.NetPass

variable {ι κ α : Type} [CommRing α] [LinearOrder α] {K : Kernels α} {cell : RNNCellBase α} {n N D S : Nat}

section Layers

variable {w : κ → Content α} {x h concat fc clip act z r : DataPtr κ} {f : String} {weights biases : List α}

/-- The update gate and the reset gate. -/
theorem gru_gates (hx : x.dims = [N, D]) (hh : h.dims = [N, S]) (hact : cell.activations.getD 0 "" = f)
    (hrows : ∀ g < 2, ∀ s < S, rowAt (D + S) weights (g * S + s) = cell.gateRow (D + S) S g s)
    (hbiases : ∀ g < 2, ∀ s < S, biases.getD (g * S + s) 0 = cell.gateBias S g s)
    (hcd : concat.dims = [N, D + S]) (hfd : fc.dims = [N, S * 2]) (had : act.dims = [N, 2 * S])
    (hzd : z.dims = [N, S]) (hrd : r.dims = [N, S])
    (hconcat : ((⟨.concat 1, [x, h], [concat]⟩ : CNNLayer κ α).node K).Holds w)
    (hfc : ((⟨.fullyConnected weights biases, [concat], [fc]⟩ : CNNLayer κ α).node K).Holds w)
    (hclip : Consistent K w (link_with_clip cell.clip fc clip).2)
    (ha : ((⟨.activation f, [(link_with_clip cell.clip fc clip).1], [act]⟩ : CNNLayer κ α).node K).Holds w)
    (hsplit : ((⟨.split 1, [act], [z, r]⟩ : CNNLayer κ α).node K).Holds w) :
    rowOf S (w z.ptr) n = cell.updateGate K (rowOf D (w x.ptr) n) (rowOf S (w h.ptr) n) ∧
      rowOf S (w r.ptr) n = cell.resetGate K (rowOf D (w x.ptr) n) (rowOf S (w h.ptr) n) := by
  have hdims : ∀ b ∈ [z, r], b.dims = [N, S] := by simp [hzd, hrd]
  have hgate : ∀ (b : DataPtr κ) (g : Nat), g < 2 → [z, r][g]? = some b → rowOf S (w b.ptr) n =
      cell.activated K 0 (cell.gate K S g (rowOf D (w x.ptr) n ++ rowOf S (w h.ptr) n)) := by
    intro b g hg hb
    have hslice : (List.range S).map (fun s => K.neuron (rowAt (D + S) weights (g * S + s))
        (biases.getD (g * S + s) 0) (rowOf D (w x.ptr) n ++ rowOf S (w h.ptr) n)) =
        cell.gate K S g (rowOf D (w x.ptr) n ++ rowOf S (w h.ptr) n) := by
      rw [RNNCellBase.gate, List.length_append, length_rowOf, length_rowOf]
      refine List.map_congr_left fun s hs => ?_
      rw [hrows g hg s (List.mem_range.mp hs), hbiases g hg s (List.mem_range.mp hs)]
    rw [row_split (G := 2) rfl (by rw [had, Nat.mul_comm]) hdims hsplit hb, row_activation ha, row_clip hclip,
      row_fullyConnected hcd hfd hfc, row_concat hx hh hcd hconcat, activated_eq 0 hact]
    unfold RNNCellBase.activated
    rw [← List.map_drop, ← List.map_take, slice_map_range _ hg, hslice]
  unfold RNNCellBase.updateGate RNNCellBase.resetGate
  rw [length_rowOf]
  exact ⟨hgate z 0 (by omega) rfl, hgate r 1 (by omega) rfl⟩

variable {pwr mul mul_u out : DataPtr κ}

/-- Ht = (1 - zt) (.) ht + zt (.) Ht-1 -/
theorem gru_output (hpwr : ((⟨.power 1 (-1) 1, [z], [pwr]⟩ : CNNLayer κ α).node K).Holds w)
    (hmul : ((⟨.eltwise .Prod, [act, pwr], [mul]⟩ : CNNLayer κ α).node K).Holds w)
    (hmul_u : ((⟨.eltwise .Prod, [z, h], [mul_u]⟩ : CNNLayer κ α).node K).Holds w)
    (hsum : ((⟨.eltwise .Sum, [mul, mul_u], [out]⟩ : CNNLayer κ α).node K).Holds w) {candidate : List α}
    (hz : rowOf S (w z.ptr) n = cell.updateGate K (rowOf D (w x.ptr) n) (rowOf S (w h.ptr) n))
    (hcand : rowOf S (w act.ptr) n = cell.activated K 1 candidate) :
    rowOf S (w out.ptr) n = cell.gruHiddenState K candidate (rowOf D (w x.ptr) n) (rowOf S (w h.ptr) n) := by
  have hone : (fun q : α => 1 + -1 * q) = (1 - ·) := by
    funext q
    ring
  rw [row_sum hsum, row_prod hmul, row_prod hmul_u, row_power hpwr, hz, hcand, hone,
    List.zipWith_comm_of_comm mul_comm (l := cell.activated K 1 candidate)]
  rfl

end Layers

section Weights

omit [CommRing α] [LinearOrder α]

/-- The rows and the biases that are cut out of the stacked gates. -/
theorem gateRow_region (hW : cell.weights.length = 3 * S * (D + S)) {o k g s : Nat} (hfit : o + k ≤ 3) (hg : g < k)
    (hs : s < S) : rowAt (D + S) (regionRows cell.weights (S * (D + S)) (D + S) o 0 0 k S (D + S)) (g * S + s) =
      cell.gateRow (D + S) S (o + g) s := by
  rw [rowAt_regionRows_whole hW hfit (by omega) hg hs, Nat.zero_add]
  rfl

theorem gateBias_region [CommRing α] {bG o k g s : Nat} (hB : cell.biases.length = bG * S) (hfit : o + k ≤ bG)
    (hg : g < k) (hs : s < S) :
    (regionRows cell.biases (bG * S) S 0 o 0 1 k S).getD (g * S + s) 0 = cell.gateBias S (o + g) s := by
  rw [getD_regionRows hB hfit hg hs]
  rfl

/-- The weights of the output gate. -/
def outputRows (cell : RNNCellBase α) (D S : Nat) : List α :=
  regionRows cell.weights (S * (D + S)) (D + S) 2 0 0 1 S (D + S)

theorem outputRows_columns (hW : cell.weights.length = 3 * S * (D + S)) {off k s : Nat} (hfit : off + k ≤ D + S)
    (hs : s < S) : rowAt k (regionRows (outputRows cell D S) (S * (D + S)) (D + S) 0 0 off 1 S k) s =
      ((cell.gateRow (D + S) S 2 s).drop off).take k := by
  have hlen : (outputRows cell D S).length = 1 * S * (D + S) := length_regionRows hW (by omega) (by omega) (by omega)
  have hrow := gateRow_region hW (o := 2) (k := 1) (g := 0) (by omega) (by omega) hs
  rw [Nat.zero_mul, Nat.zero_add] at hrow
  have hcut : rowAt k (regionRows (outputRows cell D S) (S * (D + S)) (D + S) 0 0 off 1 S k) (0 * S + s) =
      ((rowAt (D + S) (outputRows cell D S) ((0 + 0) * S + (0 + s))).drop off).take k :=
    rowAt_regionRows hlen (by omega) (by omega) hfit (by omega) hs
  rw [Nat.zero_add, Nat.zero_mul, Nat.zero_add, Nat.zero_add] at hcut
  rw [hcut, ← hrow]
  rfl

theorem length_gateRow (hW : cell.weights.length = 3 * S * (D + S)) {g s : Nat} (hg : g < 3) (hs : s < S) :
    (cell.gateRow (D + S) S g s).length = D + S := by
  refine length_rowAt ?_
  rw [hW]
  refine Nat.mul_le_mul_right (D + S) ?_
  have hle : (g + 1) * S ≤ 3 * S := Nat.mul_le_mul_right S hg
  rw [Nat.succ_mul] at hle
  omega

end Weights

section Cells

variable {w : Unrolled ι → Content α} {x h h' : DataPtr ι} {f g : String}

/-- The weights and the biases of the first two gates. -/
def gateLayers (cell : RNNCellBase α) (bG N D S : Nat) (f : String) (x h h' : DataPtr ι) :
    List (CNNLayer (Unrolled ι) α) :=
  gruGateLayers cell N D S f (regionRows cell.weights (S * (D + S)) (D + S) 0 0 0 2 S (D + S))
    (regionRows cell.biases (bG * S) S 0 0 0 1 2 S) x h h'

theorem row_gates {bG : Nat} (hx : x.dims = [N, D]) (hh : h.dims = [N, S])
    (hW : cell.weights.length = 3 * S * (D + S)) (hB : cell.biases.length = bG * S) (hbG : 2 ≤ bG)
    (hf : cell.activations.getD 0 "" = f) (hw : Consistent K w (gateLayers cell bG N D S f x h h')) :
    rowOf S (w (.part h'.ptr (.split 0))) n =
        cell.updateGate K (rowOf D (w (.data x.ptr)) n) (rowOf S (w (.data h.ptr)) n) ∧
      rowOf S (w (.part h'.ptr (.split 1))) n =
        cell.resetGate K (rowOf D (w (.data x.ptr)) n) (rowOf S (w (.data h.ptr)) n) := by
  simp only [gateLayers, gruGateLayers, consistent_append, consistent_cons, consistent_nil, and_true] at hw
  obtain ⟨⟨⟨hconcat, hfc⟩, hclip⟩, hact, hsplit⟩ := hw
  exact gru_gates (n := n) (x := x.map Unrolled.data) (h := h.map Unrolled.data) hx hh hf
    (fun k hk s hs => by simpa using gateRow_region (o := 0) hW (by omega) hk hs)
    (fun k hk s hs => by simpa using gateBias_region (o := 0) hB (by omega) hk hs)
    rfl rfl rfl rfl rfl hconcat hfc hclip hact hsplit

theorem row_output {candidate : List α} (hw : Consistent K w (gruOutputLayers N S h h'))
    (hz : rowOf S (w (.part h'.ptr (.split 0))) n =
      cell.updateGate K (rowOf D (w (.data x.ptr)) n) (rowOf S (w (.data h.ptr)) n))
    (ho : rowOf S (w (.part h'.ptr .act_o)) n = cell.activated K 1 candidate) :
    rowOf S (w (.data h'.ptr)) n =
      cell.gruHiddenState K candidate (rowOf D (w (.data x.ptr)) n) (rowOf S (w (.data h.ptr)) n) := by
  simp only [gruOutputLayers, consistent_cons, consistent_nil, and_true] at hw
  obtain ⟨hpwr, hmul, hmul_u, hsum⟩ := hw
  exact gru_output (x := x.map Unrolled.data) (h := h.map Unrolled.data) hpwr hmul hmul_u hsum hz ho

theorem row_candidate (hx : x.dims = [N, D]) (hW : cell.weights.length = 3 * S * (D + S))
    (hB : cell.biases.length = 3 * S) (hg : cell.activations.getD 1 "" = g)
    (hw : Consistent K w (gruCandidateLayers cell N D S g (outputRows cell D S)
      (regionRows cell.biases (3 * S) S 0 2 0 1 1 S) x h h'))
    (hr : rowOf S (w (.part h'.ptr (.split 1))) n =
      cell.resetGate K (rowOf D (w (.data x.ptr)) n) (rowOf S (w (.data h.ptr)) n)) :
    rowOf S (w (.part h'.ptr .act_o)) n = cell.activated K 1
      (cell.gruCandidate K (rowOf D (w (.data x.ptr)) n) (rowOf S (w (.data h.ptr)) n)) := by
  simp only [gruCandidateLayers, consistent_append, consistent_cons, consistent_nil, and_true] at hw
  obtain ⟨⟨⟨hmul_r, hconcat, hfc⟩, hclip⟩, hact⟩ := hw
  have hxr := row_concat (n := n) (a := x.map Unrolled.data) hx rfl rfl hconcat
  rw [row_prod hmul_r, hr] at hxr
  simp only [DataPtr.map_ptr] at hxr
  have hgate : (List.range S).map (fun s => K.neuron (rowAt (D + S) (outputRows cell D S) s)
      ((regionRows cell.biases (3 * S) S 0 2 0 1 1 S).getD s 0) (rowOf (D + S) (w (.part h'.ptr .concat_h)) n)) =
      cell.gruCandidate K (rowOf D (w (.data x.ptr)) n) (rowOf S (w (.data h.ptr)) n) := by
    rw [RNNCellBase.gruCandidate, RNNCellBase.gate, length_rowOf, ← hxr, length_rowOf]
    refine List.map_congr_left fun s hs => ?_
    have hrow := gateRow_region (o := 2) (k := 1) (g := 0) hW (by omega) (by omega) (List.mem_range.mp hs)
    have hbias := gateBias_region (o := 2) (k := 1) (g := 0) hB (by omega) (by omega) (List.mem_range.mp hs)
    rw [Nat.zero_mul, Nat.zero_add] at hrow hbias
    rw [outputRows, hrow, hbias]
  rw [row_activation hact, row_clip hclip, row_fullyConnected rfl rfl hfc, hgate, activated_eq 1 hg]

theorem row_linearCandidate (hx : x.dims = [N, D]) (hh : h.dims = [N, S])
    (hW : cell.weights.length = 3 * S * (D + S)) (hB : cell.biases.length = 4 * S)
    (hg : cell.activations.getD 1 "" = g)
    (hw : Consistent K w (gruLinearCandidateLayers cell N S g
      (regionRows (outputRows cell D S) (S * (D + S)) (D + S) 0 0 0 1 S D)
      (regionRows cell.biases (4 * S) S 0 2 0 1 1 S)
      (regionRows (outputRows cell D S) (S * (D + S)) (D + S) 0 0 D 1 S S)
      (regionRows cell.biases (4 * S) S 0 3 0 1 1 S) x h h'))
    (hr : rowOf S (w (.part h'.ptr (.split 1))) n =
      cell.resetGate K (rowOf D (w (.data x.ptr)) n) (rowOf S (w (.data h.ptr)) n)) :
    rowOf S (w (.part h'.ptr .act_o)) n = cell.activated K 1
      (cell.gruLinearCandidate K (rowOf D (w (.data x.ptr)) n) (rowOf S (w (.data h.ptr)) n)) := by
  simp only [gruLinearCandidateLayers, consistent_append, consistent_cons, consistent_nil, and_true] at hw
  obtain ⟨⟨⟨hfc_whr, hmul_r, hfc_whw, hsum_h⟩, hclip⟩, hact⟩ := hw
  have hbias : ∀ g < 2, ∀ s < S, (regionRows cell.biases (4 * S) S 0 (2 + g) 0 1 1 S).getD s 0 =
      cell.gateBias S (2 + g) s := by
    intro g hg s hs
    simpa using gateBias_region (k := 1) (g := 0) hB (by omega) (by omega) hs
  have hwhw : rowOf S (w (.part h'.ptr .fc_whw)) n = (List.range S).map fun s => K.neuron
      ((cell.gateRow (D + S) S 2 s).take D) (cell.gateBias S 2 s) (rowOf D (w (.data x.ptr)) n) := by
    rw [row_fullyConnected (a := x.map Unrolled.data) hx rfl hfc_whw]
    refine List.map_congr_left fun s hs => ?_
    rw [List.mem_range] at hs
    have hrow := outputRows_columns hW (show 0 + D ≤ D + S by omega) hs
    rw [List.drop_zero] at hrow
    exact congrArg₂ (K.neuron · · _) hrow (hbias 0 (by omega) s hs)
  have hwhr : rowOf S (w (.part h'.ptr .fc_whr)) n = (List.range S).map fun s => K.neuron
      ((cell.gateRow (D + S) S 2 s).drop D) (cell.gateBias S 3 s) (rowOf S (w (.data h.ptr)) n) := by
    rw [row_fullyConnected (a := h.map Unrolled.data) hh rfl hfc_whr]
    refine List.map_congr_left fun s hs => ?_
    rw [List.mem_range] at hs
    have hrow := outputRows_columns hW (Nat.le_refl (D + S)) hs
    have hlen : ((cell.gateRow (D + S) S 2 s).drop D).length = S := by
      rw [List.length_drop, length_gateRow hW (by omega) hs, Nat.add_sub_cancel_left]
    rw [List.take_of_length_le hlen.le] at hrow
    exact congrArg₂ (K.neuron · · _) hrow (hbias 1 (by omega) s hs)
  rw [row_activation hact, row_clip hclip, row_sum hsum_h, row_prod hmul_r, hr, hwhw, hwhr,
    List.zipWith_comm_of_comm mul_comm, activated_eq 1 hg]
  simp only [RNNCellBase.gruLinearCandidate, length_rowOf]

end Cells

end OpenVino.InferenceEngine.NetPass
