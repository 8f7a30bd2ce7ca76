import OpenVino.InferenceEngine.NetPass.UnrollCell

/-!
# The layers of a cell in order

The layers of an unrolled cell stand in an order in which each reads what the ones before it give: with the ranks
`Part.order` from some start on they are `Rising`. So they have a consistent valuation whatever the cell reads.
-/

namespace OpenVino.InferenceEngine.NetPass

variable {ι κ α : Type} [CommRing α] [LinearOrder α] {K : Kernels α}

/-! ### One layer -/

section Layers

variable {rank : κ → Nat} {lo hi : Nat} {ns : List (Node κ (Content α))}

/-- Layers with one output. -/
def Op.Single : Op α → Prop
  | .split _ => False
  | .cell _ => False
  | _ => True

theorem Op.Single.length_eval {op : Op α} (h : op.Single) (ins outs : List SizeVector) (xs : List (Content α)) :
    (op.eval K ins outs xs).length = 1 := by
  cases op with
  | split _ => exact absurd h id
  | cell _ => exact absurd h id
  | eltwise operation => cases operation <;> rfl
  | _ => rfl

theorem rising_single {op : Op α} {ins : List (DataPtr κ)} {o : DataPtr κ} (hop : op.Single)
    (hlo : lo ≤ rank o.ptr) (hins : ∀ d ∈ ins, rank d.ptr < rank o.ptr)
    (hns : Node.Rising rank (rank o.ptr + 1) ns hi) :
    Node.Rising rank lo ((⟨op, ins, [o]⟩ : CNNLayer κ α).node K :: ns) hi := by
  refine ⟨hlo, ⟨?_, ?_, ?_, ?_⟩, hns⟩
  · intro p hp
    obtain ⟨d, hd, rfl⟩ := List.mem_map.mp hp
    exact hins d hd
  · intro p hp
    rw [List.mem_singleton.mp hp]
    rfl
  · exact List.nodup_singleton _
  · intro xs _
    exact hop.length_eval _ _ xs

omit [CommRing α] [LinearOrder α] in
theorem length_splitColumns {whole off : Nat} {x : Content α} {ws : List Nat} :
    (splitColumns whole x off ws).length = ws.length := by
  induction ws generalizing off with
  | nil => rfl
  | cons w ws ih => rw [splitColumns, List.length_cons, List.length_cons, ih]

theorem rising_split {axis : Nat} {i o : DataPtr κ} {outs : List (DataPtr κ)} (hlo : lo ≤ rank o.ptr)
    (hi' : rank i.ptr < rank o.ptr) (houts : ∀ d ∈ outs, rank d.ptr = rank o.ptr)
    (hnd : ((o :: outs).map DataPtr.ptr).Nodup) (hns : Node.Rising rank (rank o.ptr + 1) ns hi) :
    Node.Rising rank lo ((⟨.split axis, [i], o :: outs⟩ : CNNLayer κ α).node K :: ns) hi := by
  refine ⟨hlo, ⟨?_, ?_, hnd, ?_⟩, hns⟩
  · intro p hp
    rw [List.mem_singleton.mp hp]
    exact hi'
  · intro p hp
    obtain ⟨d, hd, rfl⟩ := List.mem_map.mp hp
    rcases List.mem_cons.mp hd with rfl | hd
    · rfl
    · exact houts d hd
  · intro xs _
    simp [CNNLayer.node, Op.eval, length_splitColumns]

omit [CommRing α] [LinearOrder α] in
theorem rising_nil (h : lo ≤ hi) : Node.Rising rank lo ([] : List (Node κ (Content α))) hi := h

/-- The layer of a clip, if there is one, and what follows. -/
theorem rising_clip {clip : α} {a b : DataPtr κ} {r : Nat} (hr : rank b.ptr = r) (hlo : lo ≤ r) (hab : rank a.ptr < r)
    (hns : rank (link_with_clip clip a b).1.ptr ≤ r → Node.Rising rank (r + 1) ns hi) :
    Node.Rising rank lo ((link_with_clip clip a b).2.map (CNNLayer.node K) ++ ns) hi := by
  subst hr
  unfold link_with_clip at *
  split_ifs at *
  · exact (hns hab.le).mono (by omega)
  · exact rising_single trivial hlo (by simpa using hab) (hns (le_refl _))

end Layers

/-! ### The cells -/

/-- The places of the Data of a cell. -/
def Part.order : Part → Nat
  | .concat => 1
  | .fc => 2
  | .fc_ur => 2
  | .split_clip => 3
  | .act_clip => 3
  | .act_ur_clip => 3
  | .act_ur => 4
  | .split _ => 5
  | .act_f => 6
  | .fc_whr => 6
  | .act_i => 7
  | .mul_r => 7
  | .act_c => 8
  | .fc_whw => 8
  | .concat_h => 8
  | .sum_h => 9
  | .fc_o => 9
  | .act_o_clip => 10
  | .act_o => 15
  | .mul_ic => 16
  | .pwr => 16
  | .mul_f => 17
  | .mul => 17
  | .mul_u => 18
  | .act_x => 19

/-- The places of the new hidden state and, in an LSTM, the new cell state. -/
def stateOrder (k : Nat) : Nat := if k = 0 then 25 else 18

section Cells

variable {cell : RNNCellBase α} {rank : Unrolled ι → Nat} {b N D S : Nat} {x h c h' c' : DataPtr ι} {f g f' : String}
  {W₁ B₁ W₂ B₂ : List α}

theorem rising_rnnCell (hpart : ∀ name, rank (.part h'.ptr name) = b + name.order) (hx : rank (.data x.ptr) ≤ b)
    (hh : rank (.data h.ptr) ≤ b) (hh' : rank (.data h'.ptr) = b + 25) :
    Node.Rising rank (b + 1) ((rnnCellLayers cell N D S f x h h').map (CNNLayer.node K)) (b + 26) := by
  simp only [rnnCellLayers, List.map_append, List.map_cons, List.map_nil, List.cons_append, List.nil_append]
  refine rising_single trivial ?_ ?_ (rising_single trivial ?_ ?_ (rising_clip (r := b + 3) (hpart .act_clip) ?_ ?_
    fun hclip => rising_single trivial ?_ ?_ (rising_nil ?_)))
  all_goals simp only [List.mem_cons, List.not_mem_nil, or_false, forall_eq_or_imp, forall_eq, DataPtr.map_ptr, hpart,
    Part.order]
  all_goals omega

theorem rising_lstmCell (hpart : ∀ name, rank (.part h'.ptr name) = b + name.order) (hx : rank (.data x.ptr) ≤ b)
    (hh : rank (.data h.ptr) ≤ b) (hc : rank (.data c.ptr) ≤ b) (hh' : rank (.data h'.ptr) = b + 25)
    (hc' : rank (.data c'.ptr) = b + 18) :
    Node.Rising rank (b + 1) ((lstmCellLayers cell N D S f g f' x h c h' c').map (CNNLayer.node K)) (b + 26) := by
  simp only [lstmCellLayers, List.map_append, List.map_cons, List.map_nil, List.cons_append, List.nil_append]
  refine rising_single trivial ?_ ?_ (rising_single trivial ?_ ?_ (rising_clip (r := b + 3) (hpart .split_clip) ?_ ?_
    fun hclip => rising_split ?_ ?_ ?_ (by simp) (rising_single trivial ?_ ?_ (rising_single trivial ?_ ?_
    (rising_single trivial ?_ ?_ (rising_single trivial ?_ ?_ (rising_single trivial ?_ ?_ (rising_single trivial ?_ ?_
    (rising_single trivial ?_ ?_ (rising_single trivial ?_ ?_ (rising_single trivial ?_ ?_ (rising_nil ?_))))))))))))
  all_goals simp only [List.mem_cons, List.not_mem_nil, or_false, forall_eq_or_imp, forall_eq, DataPtr.map_ptr, hpart,
    Part.order, and_self]
  all_goals omega

theorem rising_gruGates (hpart : ∀ name, rank (.part h'.ptr name) = b + name.order) (hx : rank (.data x.ptr) ≤ b)
    (hh : rank (.data h.ptr) ≤ b) :
    Node.Rising rank (b + 1) ((gruGateLayers cell N D S f W₁ B₁ x h h').map (CNNLayer.node K)) (b + 6) := by
  simp only [gruGateLayers, List.map_append, List.map_cons, List.map_nil, List.cons_append, List.nil_append]
  refine rising_single trivial ?_ ?_ (rising_single trivial ?_ ?_ (rising_clip (r := b + 3) (hpart .act_ur_clip) ?_ ?_
    fun hclip => rising_single trivial ?_ ?_ (rising_split ?_ ?_ ?_ (by simp) (rising_nil ?_))))
  all_goals simp only [List.mem_cons, List.not_mem_nil, or_false, forall_eq_or_imp, forall_eq, DataPtr.map_ptr, hpart,
    Part.order]
  all_goals omega

theorem rising_gruCandidate (hpart : ∀ name, rank (.part h'.ptr name) = b + name.order)
    (hx : rank (.data x.ptr) ≤ b) (hh : rank (.data h.ptr) ≤ b) :
    Node.Rising rank (b + 6) ((gruCandidateLayers cell N D S g W₁ B₁ x h h').map (CNNLayer.node K)) (b + 16) := by
  simp only [gruCandidateLayers, List.map_append, List.map_cons, List.map_nil, List.cons_append, List.nil_append]
  refine rising_single trivial ?_ ?_ (rising_single trivial ?_ ?_ (rising_single trivial ?_ ?_
    (rising_clip (r := b + 10) (hpart .act_o_clip) ?_ ?_ fun hclip => rising_single trivial ?_ ?_ (rising_nil ?_))))
  all_goals simp only [List.mem_cons, List.not_mem_nil, or_false, forall_eq_or_imp, forall_eq, DataPtr.map_ptr, hpart,
    Part.order]
  all_goals omega

theorem rising_gruLinearCandidate (hpart : ∀ name, rank (.part h'.ptr name) = b + name.order)
    (hx : rank (.data x.ptr) ≤ b) (hh : rank (.data h.ptr) ≤ b) :
    Node.Rising rank (b + 6) ((gruLinearCandidateLayers cell N S g W₁ B₁ W₂ B₂ x h h').map (CNNLayer.node K))
      (b + 16) := by
  simp only [gruLinearCandidateLayers, List.map_append, List.map_cons, List.map_nil, List.cons_append,
    List.nil_append]
  refine rising_single trivial ?_ ?_ (rising_single trivial ?_ ?_ (rising_single trivial ?_ ?_
    (rising_single trivial ?_ ?_ (rising_clip (r := b + 10) (hpart .act_o_clip) ?_ ?_
    fun hclip => rising_single trivial ?_ ?_ (rising_nil ?_)))))
  all_goals simp only [List.mem_cons, List.not_mem_nil, or_false, forall_eq_or_imp, forall_eq, DataPtr.map_ptr, hpart,
    Part.order]
  all_goals omega

theorem rising_gruOutput (hpart : ∀ name, rank (.part h'.ptr name) = b + name.order) (hh : rank (.data h.ptr) ≤ b)
    (hh' : rank (.data h'.ptr) = b + 25) :
    Node.Rising rank (b + 16) ((gruOutputLayers N S h h').map (CNNLayer.node K)) (b + 26) := by
  simp only [gruOutputLayers, List.map_cons, List.map_nil]
  refine rising_single trivial ?_ ?_ (rising_single trivial ?_ ?_ (rising_single trivial ?_ ?_
    (rising_single trivial ?_ ?_ (rising_nil ?_))))
  all_goals simp only [List.mem_cons, List.not_mem_nil, or_false, forall_eq_or_imp, forall_eq, DataPtr.map_ptr, hpart,
    Part.order]
  all_goals omega

end Cells

end OpenVino.InferenceEngine.NetPass
