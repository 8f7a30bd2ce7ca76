import OpenVino.InferenceEngine.NetPass.UnrollCell

/-!
# What unrolled RNN and LSTM cells compute

One lemma for each layer says what a row of its output is; `row_rnnCell` and `row_lstmCell` chain them. They speak of
every consistent valuation, so of every order in which the layers are run.
-/

namespace OpenVino.InferenceEngine.NetPass

variable {ι α : Type} [CommRing α] [LinearOrder α] {K : Kernels α}

/-! ### One layer -/

section Layers

variable {κ : Type} {w : κ → Content α} {a b c d : DataPtr κ} {n N D S o wd : Nat}

theorem consistent_nil : Consistent K w ([] : List (CNNLayer κ α)) := by
  simp [Consistent, Node.Consistent]

theorem consistent_cons {l : CNNLayer κ α} {net : List (CNNLayer κ α)} :
    Consistent K w (l :: net) ↔ (l.node K).Holds w ∧ Consistent K w net := by
  simp [Consistent, Node.Consistent]

theorem consistent_append {net net' : List (CNNLayer κ α)} :
    Consistent K w (net ++ net') ↔ Consistent K w net ∧ Consistent K w net' := by
  simp [Consistent, Node.Consistent, or_imp, forall_and]

theorem row_activation {type : String} (hl : ((⟨.activation type, [a], [b]⟩ : CNNLayer κ α).node K).Holds w) :
    rowOf wd (w b.ptr) n = (rowOf wd (w a.ptr) n).map (K.activation type) := by
  have hb : w b.ptr = fun q => K.activation type (w a.ptr q) := by
    simpa [Node.Holds, CNNLayer.node, Op.eval] using hl
  rw [hb, rowOf_map]

theorem row_clamp {lo hi : α} (hl : ((⟨.clamp lo hi, [a], [b]⟩ : CNNLayer κ α).node K).Holds w) :
    rowOf wd (w b.ptr) n = (rowOf wd (w a.ptr) n).map fun z => max lo (min z hi) := by
  have hb : w b.ptr = fun q => max lo (min (w a.ptr q) hi) := by
    simpa [Node.Holds, CNNLayer.node, Op.eval] using hl
  rw [hb, ← rowOf_map]

theorem row_power {scale offset : α}
    (hl : ((⟨.power 1 scale offset, [a], [b]⟩ : CNNLayer κ α).node K).Holds w) :
    rowOf wd (w b.ptr) n = (rowOf wd (w a.ptr) n).map fun z => offset + scale * z := by
  have hb : w b.ptr = fun q => offset + scale * w a.ptr q := by
    simpa [Node.Holds, CNNLayer.node, Op.eval] using hl
  rw [hb, ← rowOf_map]

theorem row_sum (hl : ((⟨.eltwise .Sum, [a, b], [c]⟩ : CNNLayer κ α).node K).Holds w) :
    rowOf wd (w c.ptr) n = List.zipWith (· + ·) (rowOf wd (w a.ptr) n) (rowOf wd (w b.ptr) n) := by
  have hc : w c.ptr = fun q => w a.ptr q + w b.ptr q := by
    simpa [Node.Holds, CNNLayer.node, Op.eval] using hl
  rw [hc, ← rowOf_zipWith]

theorem row_prod (hl : ((⟨.eltwise .Prod, [a, b], [c]⟩ : CNNLayer κ α).node K).Holds w) :
    rowOf wd (w c.ptr) n = List.zipWith (· * ·) (rowOf wd (w a.ptr) n) (rowOf wd (w b.ptr) n) := by
  have hc : w c.ptr = fun q => w a.ptr q * w b.ptr q := by
    simpa [Node.Holds, CNNLayer.node, Op.eval] using hl
  rw [hc, ← rowOf_zipWith]

theorem rowWidth_one {k : Nat} : rowWidth 1 [N, k] = k := by
  simp [rowWidth]

theorem row_concat (ha : a.dims = [N, D]) (hb : b.dims = [N, S]) (hc : c.dims = [N, D + S])
    (hl : ((⟨.concat 1, [a, b], [c]⟩ : CNNLayer κ α).node K).Holds w) :
    rowOf (D + S) (w c.ptr) n = rowOf D (w a.ptr) n ++ rowOf S (w b.ptr) n := by
  have hcat : w c.ptr = fun q => readParts [(D, w a.ptr), (S, w b.ptr)] (q / (D + S)) (q % (D + S)) := by
    simpa [Node.Holds, CNNLayer.node, Op.eval, ha, hb, hc, rowWidth] using hl
  rw [hcat, rowOf_readParts (by simp)]
  simp

theorem row_fullyConnected {weights biases : List α} (ha : a.dims = [N, D]) (hb : b.dims = [N, o])
    (hl : ((⟨.fullyConnected weights biases, [a], [b]⟩ : CNNLayer κ α).node K).Holds w) :
    rowOf o (w b.ptr) n =
      (List.range o).map fun j => K.neuron (rowAt D weights j) (biases.getD j 0) (rowOf D (w a.ptr) n) := by
  have hfc : w b.ptr = neurons K D o weights biases (w a.ptr) := by
    simpa [Node.Holds, CNNLayer.node, Op.eval, ha, hb, rowWidth] using hl
  rw [hfc, rowOf_neurons]

theorem holds_reshape : ((⟨.reshape, [a], [b]⟩ : CNNLayer κ α).node K).Holds w ↔ w b.ptr = w a.ptr := by
  simp [Node.Holds, CNNLayer.node, Op.eval]

/-- The parts of a split into equal parts. -/
theorem split_part {axis : Nat} {outs : List (DataPtr κ)} (houts : ∀ b ∈ outs, rowWidth axis b.dims = S)
    (hl : ((⟨.split axis, [a], outs⟩ : CNNLayer κ α).node K).Holds w) {g : Nat} (hb : outs[g]? = some b) :
    w b.ptr = columns (rowWidth axis a.dims) (g * S) S (w a.ptr) := by
  have hlt := (List.getElem?_eq_some_iff.mp hb).1
  have hparts : outs.map (fun b => w b.ptr) =
      splitColumns (rowWidth axis a.dims) (w a.ptr) 0 (outs.map fun b => rowWidth axis b.dims) := by
    simpa [Node.Holds, CNNLayer.node, Op.eval, Function.comp_def] using hl
  have hpart := congrArg (fun l => l[g]?) hparts
  rw [List.getElem?_map, hb, getElem?_splitColumns (S := S) (by simpa using houts) (by simpa using hlt),
    Nat.zero_add] at hpart
  exact Option.some.inj hpart

theorem row_split {outs : List (DataPtr κ)} {G g : Nat} (hG : outs.length = G) (ha : a.dims = [N, S * G])
    (houts : ∀ b ∈ outs, b.dims = [N, S]) (hl : ((⟨.split 1, [a], outs⟩ : CNNLayer κ α).node K).Holds w)
    (hb : outs[g]? = some b) : rowOf S (w b.ptr) n = ((rowOf (S * G) (w a.ptr) n).drop (g * S)).take S := by
  have hlt := (List.getElem?_eq_some_iff.mp hb).1
  have hfit : g * S + S ≤ S * G := by
    rw [← Nat.succ_mul, Nat.mul_comm S, ← hG]
    exact Nat.mul_le_mul_right S hlt
  have hwidths : ∀ b ∈ outs, rowWidth 1 b.dims = S := by
    intro b hb
    rw [houts b hb, rowWidth_one]
  rw [split_part hwidths hl hb, ha, rowWidth_one, rowOf_columns hfit]

/-- Behind the clip stands the clipped row. -/
theorem row_clip {cell : RNNCellBase α} (hl : Consistent K w (link_with_clip cell.clip a b).2) :
    rowOf wd (w (link_with_clip cell.clip a b).1.ptr) n = (rowOf wd (w a.ptr) n).map cell.clipped := by
  unfold link_with_clip RNNCellBase.clipped at *
  by_cases hc : cell.clip = 0
  · simp only [if_pos hc, List.map_id']
  · simp only [if_neg hc] at hl ⊢
    exact row_clamp (consistent_cons.mp hl).1

theorem dims_link_with_clip {clip : α} {dims : SizeVector} (ha : a.dims = dims) (hb : b.dims = dims) :
    (link_with_clip clip a b).1.dims = dims := by
  unfold link_with_clip
  split_ifs
  · exact ha
  · exact hb

end Layers

/-! ### Gates -/

section Gates

variable {cell : RNNCellBase α} {D S : Nat}

/-- A slice of what is made for every index. -/
theorem slice_map_range {β : Type} (f : Nat → β) {g G : Nat} (hg : g < G) :
    (((List.range (S * G)).map f).drop (g * S)).take S = (List.range S).map fun s => f (g * S + s) := by
  have hle : g * S + S ≤ S * G := by
    rw [← Nat.succ_mul, Nat.mul_comm S]
    exact Nat.mul_le_mul_right S hg
  apply List.ext_getElem
  · simp only [List.length_take, List.length_drop, List.length_map, List.length_range]
    omega
  · intro k _ _
    simp only [List.getElem_take, List.getElem_drop, List.getElem_map, List.getElem_range]

omit [LinearOrder α] in
theorem gate_eq (g : Nat) {xs : List α} (hxs : xs.length = D) :
    cell.gate K S g xs =
      (List.range S).map fun s => K.neuron (rowAt D cell.weights (g * S + s)) (cell.biases.getD (g * S + s) 0) xs := by
  subst hxs
  rfl

omit [CommRing α] [LinearOrder α] in
theorem act_eq (i : Nat) {f : String} (hf : cell.activations.getD i "" = f) : cell.act K i = K.activation f := by
  subst hf
  rfl

theorem activated_eq (i : Nat) {f : String} {zs : List α} (hf : cell.activations.getD i "" = f) :
    (zs.map cell.clipped).map (K.activation f) = cell.activated K i zs := by
  rw [← act_eq i hf, List.map_map]
  rfl

end Gates

/-! ### The cells -/

section Cells

variable {cell : RNNCellBase α} {w : Unrolled ι → Content α} {x h c h' c' : DataPtr ι} {n N D S : Nat} {f g f' : String}

theorem row_rnnCell (hx : x.dims = [N, D]) (hh : h.dims = [N, S]) (hf : cell.activations.getD 0 "" = f)
    (hw : Consistent K w (rnnCellLayers cell N D S f x h h')) :
    rowOf S (w (.data h'.ptr)) n =
      cell.activated K 0 (cell.gate K S 0 (rowOf D (w (.data x.ptr)) n ++ rowOf S (w (.data h.ptr)) n)) := by
  simp only [rnnCellLayers, consistent_append, consistent_cons, consistent_nil, and_true] at hw
  obtain ⟨⟨⟨hconcat, hfc⟩, hclip⟩, hout⟩ := hw
  have hxh := row_concat (n := n) (a := x.map Unrolled.data) (b := h.map Unrolled.data) hx hh rfl hconcat
  simp only [DataPtr.map_ptr] at hxh
  have hlength : (rowOf D (w (.data x.ptr)) n ++ rowOf S (w (.data h.ptr)) n).length = D + S := by simp
  have hgate : cell.gate K S 0 _ = _ := gate_eq 0 hlength
  simp only [Nat.zero_mul, Nat.zero_add] at hgate
  calc rowOf S (w (.data h'.ptr)) n = (rowOf S (w _) n).map (K.activation f) := row_activation hout
    _ = _ := by rw [row_clip hclip, row_fullyConnected rfl rfl hfc, hxh, hgate, activated_eq 0 hf]

/-- The hidden state comes from the cell state as it is: nothing is clipped in front of the last activation. -/
theorem row_lstmCell (hx : x.dims = [N, D]) (hh : h.dims = [N, S]) (hf : cell.activations.getD 0 "" = f)
    (hg : cell.activations.getD 1 "" = g) (hf' : cell.activations.getD 2 "" = f')
    (hw : Consistent K w (lstmCellLayers cell N D S f g f' x h c h' c')) :
    let Ct := cell.lstmCellState K (rowOf D (w (.data x.ptr)) n) (rowOf S (w (.data h.ptr)) n)
      (rowOf S (w (.data c.ptr)) n)
    rowOf S (w (.data c'.ptr)) n = Ct ∧
      rowOf S (w (.data h'.ptr)) n = List.zipWith (· * ·)
        (cell.activated K 0 (cell.gate K S 3 (rowOf D (w (.data x.ptr)) n ++ rowOf S (w (.data h.ptr)) n)))
        (Ct.map (cell.act K 2)) := by
  simp only [lstmCellLayers, consistent_append, consistent_cons, consistent_nil, and_true] at hw
  obtain ⟨⟨⟨hconcat, hfc⟩, hclip⟩, hsplit, hact_f, hact_i, hact_c, hact_o, hmul_ic, hmul_f, hsum, hact_x, hmul⟩ := hw
  have hxh := row_concat (n := n) (a := x.map Unrolled.data) (b := h.map Unrolled.data) hx hh rfl hconcat
  simp only [DataPtr.map_ptr] at hxh
  have hgate : ∀ k < 4, rowOf S (w (.part h'.ptr (.split k))) n = (cell.gate K S k
      (rowOf D (w (.data x.ptr)) n ++ rowOf S (w (.data h.ptr)) n)).map cell.clipped := by
    intro k hk
    have hpart := row_split (n := n) (g := k) (G := 4) (b := ⟨.part h'.ptr (.split k), [N, S]⟩) rfl
      (dims_link_with_clip rfl rfl) (by simp) hsplit (by interval_cases k <;> rfl)
    rw [hpart, row_clip hclip, ← List.map_drop, ← List.map_take, row_fullyConnected rfl rfl hfc, hxh,
      slice_map_range _ hk, gate_eq k (D := D + S) (by simp)]
  have hCt : rowOf S (w (.data c'.ptr)) n = cell.lstmCellState K (rowOf D (w (.data x.ptr)) n)
      (rowOf S (w (.data h.ptr)) n) (rowOf S (w (.data c.ptr)) n) := by
    calc rowOf S (w (.data c'.ptr)) n = List.zipWith (· + ·) (rowOf S (w (.part h'.ptr .mul_f)) n)
          (rowOf S (w (.part h'.ptr .mul_ic)) n) := row_sum hsum
      _ = _ := by
        rw [row_prod hmul_f, row_prod hmul_ic, row_activation hact_f, row_activation hact_i, row_activation hact_c,
          hgate 0 (by omega), hgate 1 (by omega), hgate 2 (by omega), activated_eq 0 hf, activated_eq 0 hf,
          activated_eq 1 hg]
        simp only [RNNCellBase.lstmCellState, length_rowOf, DataPtr.map_ptr]
  refine ⟨hCt, ?_⟩
  calc rowOf S (w (.data h'.ptr)) n = List.zipWith (· * ·) (rowOf S (w (.part h'.ptr .act_x)) n)
        (rowOf S (w (.part h'.ptr .act_o)) n) := row_prod hmul
    _ = _ := by
      rw [row_activation hact_x, row_activation hact_o, hgate 3 (by omega), activated_eq 0 hf, DataPtr.map_ptr, hCt,
        List.zipWith_comm_of_comm mul_comm, act_eq 2 hf']

end Cells

end OpenVino.InferenceEngine.NetPass
