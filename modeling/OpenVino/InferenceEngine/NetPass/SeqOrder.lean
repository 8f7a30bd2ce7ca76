import OpenVino.InferenceEngine.NetPass.UnrolledSeq

/-!
# The layers of an unrolled sequence in order

The split stands first, then copy behind copy, the concat last. `seqRank` gives every copy a range of its own
(`base`), in which the Data of its cell follow `Part.order`. So an unrolled sequence has a consistent valuation for
every reading of the Data that the layer does not give (`exists_consistent_seqNet`).
-/

namespace OpenVino.InferenceEngine.NetPass

open SeqData

variable {ι α : Type}

/-- Each Data has one creator, and no layer reads what it gives. -/
structure RNNSequenceLayer.Apart (seq : RNNSequenceLayer ι α) : Prop where
  nodup : (seq.outData.map DataPtr.ptr).Nodup
  inputs : ∀ d ∈ seq.insData, d.ptr ∉ seq.outData.map DataPtr.ptr

/-! ### Ranks -/

/-- Where the ranks of copy `i` start. -/
def base (i : Nat) : Nat := 40 * i + 2

section Rank

variable [DecidableEq ι] (seq : RNNSequenceLayer ι α) (P : SeqPorts ι) (num : Nat)

def outerRank (p : ι) : Nat :=
  if p = P.out_data.ptr then base num
  else if p = (P.out_state 0).ptr then base (num - 1) + 25
  else if p ∈ seq.outData.map DataPtr.ptr then base (num - 1) + 18
  else 0

def copyRank (i : Nat) : SeqData → Nat
  | .data_in => 1
  | .resh1 => base i
  | .out_state k => base i + stateOrder k
  | .resh2 => base i + 26
  | .state_in _ => 0

def seqRank : Unrolled (Copies ι SeqData) → Nat
  | .data (.outer p) => outerRank seq P num p
  | .data (.copy i p) => copyRank i p
  | .part (.outer _) name => base (num - 1) + name.order
  | .part (.copy i _) name => base i + name.order

variable {seq P num} {N T D S : Nat}

theorem outerRank_of_not_mem (h : seq.Fits P N T D S) {p : ι} (hp : p ∉ seq.outData.map DataPtr.ptr) :
    outerRank seq P num p = 0 := by
  have hout := h.outData
  have hdata : p ≠ P.out_data.ptr := fun heq => hp (by simp [hout, heq])
  have hstate : p ≠ (P.out_state 0).ptr := by
    intro heq
    have hmem : P.out_state 0 ∈ seq.outData := by
      rw [hout]
      exact List.mem_cons_of_mem _ (List.mem_map_of_mem (List.mem_range.mpr (NS_pos _)))
    exact hp (heq ▸ List.mem_map_of_mem hmem)
  rw [outerRank, if_neg hdata, if_neg hstate, if_neg hp]

theorem outerRank_out_data : outerRank seq P num P.out_data.ptr = base num := by
  rw [outerRank, if_pos rfl]

theorem outerRank_out_state (h : seq.Fits P N T D S) (hnd : (seq.outData.map DataPtr.ptr).Nodup) {k : Nat}
    (hk : k < seq.cellType.NS) : outerRank seq P num (P.out_state k).ptr = base (num - 1) + stateOrder k := by
  have hout : seq.outData.map DataPtr.ptr =
      P.out_data.ptr :: (List.range seq.cellType.NS).map fun k => (P.out_state k).ptr := by
    rw [h.outData, List.map_cons, List.map_map]
    rfl
  have hmem : ∀ k < seq.cellType.NS,
      (P.out_state k).ptr ∈ (List.range seq.cellType.NS).map fun k => (P.out_state k).ptr :=
    fun k hk => List.mem_map_of_mem (List.mem_range.mpr hk)
  rw [hout, List.nodup_cons] at hnd
  have hdata : (P.out_state k).ptr ≠ P.out_data.ptr := fun heq => hnd.1 (heq ▸ hmem k hk)
  rw [outerRank, if_neg hdata, stateOrder]
  by_cases hzero : k = 0
  · rw [if_pos (by rw [hzero]), if_pos hzero]
  · have hstate : (P.out_state k).ptr ≠ (P.out_state 0).ptr := fun heq =>
      hzero (List.inj_on_of_nodup_map hnd.2 (List.mem_range.mpr hk) (List.mem_range.mpr (NS_pos _)) heq)
    rw [if_neg hstate, if_neg hzero, if_pos]
    rw [hout]
    exact List.mem_cons_of_mem _ (hmem k hk)

theorem rank_in_state (h : seq.Fits P N T D S) (hapart : seq.Apart) {k : Nat} (hk : k < seq.cellType.NS) :
    outerRank seq P num (P.in_state k).ptr = 0 := by
  refine outerRank_of_not_mem h (hapart.inputs _ ?_)
  rw [h.insData]
  exact List.mem_cons_of_mem _ (List.mem_map_of_mem (List.mem_range.mpr hk))

theorem rank_in_data (h : seq.Fits P N T D S) (hapart : seq.Apart) : outerRank seq P num P.in_data.ptr = 0 := by
  refine outerRank_of_not_mem h (hapart.inputs _ ?_)
  rw [h.insData]
  exact List.mem_cons_self

theorem rank_stateIn (h : seq.Fits P N T D S) (hapart : seq.Apart) {i k : Nat} (hk : k < seq.cellType.NS) :
    seqRank seq P num (.data (stateIn P N S i k).ptr) ≤ base i := by
  unfold stateIn
  by_cases hi : i = 0
  · rw [if_pos hi, DataPtr.map_ptr, seqRank, rank_in_state h hapart hk]
    exact Nat.zero_le _
  · rw [if_neg hi, DataPtr.map_ptr, seqRank, outState, copyRank, stateOrder, base, base]
    split_ifs <;> omega

theorem rank_stateOut (h : seq.Fits P N T D S) (hapart : seq.Apart) {i k : Nat} (hk : k < seq.cellType.NS) :
    seqRank seq P num (.data (stateOut P N num S i k).ptr) = base i + stateOrder k := by
  unfold stateOut
  by_cases hi : i + 1 = num
  · have hlast : num - 1 = i := by omega
    rw [if_pos hi, DataPtr.map_ptr, seqRank, outerRank_out_state h hapart.nodup hk, hlast]
  · rw [if_neg hi]
    rfl

theorem rank_part {i k : Nat} {name : Part} :
    seqRank seq P num (.part (stateOut P N num S i k).ptr name) = base i + name.order := by
  unfold stateOut
  by_cases hi : i + 1 = num
  · have hlast : num - 1 = i := by omega
    rw [if_pos hi, DataPtr.map_ptr, seqRank, hlast]
  · rw [if_neg hi]
    rfl

end Rank

/-! ### The network -/

theorem partCopy_lt (seq : RNNSequenceLayer ι α) {num j : Nat} (hj : j < num) : partCopy seq num j < num := by
  unfold partCopy
  split_ifs <;> omega

theorem partCopy_inj (seq : RNNSequenceLayer ι α) {num j j' : Nat} (hj : j < num) (hj' : j' < num)
    (h : partCopy seq num j = partCopy seq num j') : j = j' := by
  unfold partCopy at h
  split_ifs at h <;> omega

section Order

variable [CommRing α] [LinearOrder α] [DecidableEq ι] {seq : RNNSequenceLayer ι α} {P : SeqPorts ι}
  {N T D S num : Nat} {K : Kernels α}

theorem rising_copyNet (h : seq.Fits P N T D S) (hvalid : seq.Valid D S) (hapart : seq.Apart) (i : Nat) :
    Node.Rising (seqRank seq P num) (base i) ((copyNet seq P N num S i).map (CNNLayer.node K)) (base (i + 1)) := by
  have hsqueezed : seqRank seq P num (.data (squeezedIn seq P i).ptr) = base i := rfl
  have hchunkIn : seqRank seq P num (.data (chunkIn seq P i).ptr) = 1 := rfl
  have hchunkOut : seqRank seq P num (.data (chunkOut seq P i).ptr) = base i + 26 := rfl
  have hstate : seqRank seq P num (.data (stateOut P N num S i 0).ptr) = base i + stateOrder 0 :=
    rank_stateOut h hapart (NS_pos _)
  have hcell := (unrollCell_copy h hvalid num i).2.rising K (seqRank seq P num) (base i)
    (fun o ho name => ?_) (fun d hd => ?_) fun k o ho => ?_
  · rw [copyNet, List.map_cons, List.map_append, List.map_cons, List.map_nil]
    have hhidden : stateOrder 0 = 25 := rfl
    refine rising_single trivial ?_ ?_ ((hcell.mono ?_).append (rising_single trivial ?_ ?_ (rising_nil ?_)))
    all_goals simp only [List.mem_singleton, forall_eq, DataPtr.map_ptr, hsqueezed, hchunkIn, hchunkOut, hstate,
      hhidden, base]
    all_goals omega
  · rw [List.getElem?_map, List.getElem?_range (NS_pos _), Option.map_some, Option.some_inj] at ho
    rw [← ho, rank_part]
  · rcases List.mem_cons.mp hd with rfl | hd
    · exact hsqueezed.le
    · obtain ⟨k, hk, rfl⟩ := List.mem_map.mp hd
      exact rank_stateIn h hapart (List.mem_range.mp hk)
  · rw [List.getElem?_map, Option.map_eq_some_iff] at ho
    obtain ⟨j, hj, rfl⟩ := ho
    obtain ⟨hlt, hjk⟩ := List.getElem?_eq_some_iff.mp hj
    rw [List.length_range] at hlt
    rw [List.getElem_range] at hjk
    subst hjk
    exact rank_stateOut h hapart hlt

theorem rising_seqNet (h : seq.Fits P N T D S) (hvalid : seq.Valid D S) (hapart : seq.Apart) (hpos : 0 < num) :
    Node.Rising (seqRank seq P num) 1 ((seqNet seq P N num S).map (CNNLayer.node K)) (base num + 1) := by
  have hcopies : Node.Rising (seqRank seq P num) (base 0)
      (((List.range num).flatMap (copyNet seq P N num S)).map (CNNLayer.node K)) (base num) := by
    rw [List.map_flatMap]
    exact Node.Rising.flatMap fun i _ => rising_copyNet h hvalid hapart i
  have hsplit : ∀ ns, Node.Rising (seqRank seq P num) 2 ns (base num + 1) →
      Node.Rising (seqRank seq P num) 1 ((splitLayer seq P num).node K :: ns) (base num + 1) := by
    intro ns hns
    obtain ⟨k, rfl⟩ := Nat.exists_eq_succ_of_ne_zero hpos.ne'
    unfold splitLayer
    rw [List.range_succ_eq_map, List.map_cons]
    refine rising_split (le_refl 1) ?_ ?_ ?_ hns
    · rw [DataPtr.map_ptr, DataPtr.map_ptr, seqRank, rank_in_data h hapart]
      exact Nat.one_pos
    · intro d hd
      obtain ⟨j, -, rfl⟩ := List.mem_map.mp hd
      rfl
    · rw [← List.map_cons (f := fun j => (chunkIn seq P (partCopy seq (k + 1) j)).map Unrolled.data),
        ← List.range_succ_eq_map, List.map_map]
      refine List.Nodup.map_on (fun j hj j' hj' heq => ?_) List.nodup_range
      refine partCopy_inj seq (List.mem_range.mp hj) (List.mem_range.mp hj') ?_
      simpa [chunkIn, body_in] using heq
  have hconcat : Node.Rising (seqRank seq P num) (base num) [(concatLayer seq P num).node K] (base num + 1) := by
    have hout : seqRank seq P num (.data (.outer P.out_data.ptr)) = base num := outerRank_out_data
    refine rising_single trivial hout.ge (fun d hd => ?_) (rising_nil ?_)
    · obtain ⟨j, hj, rfl⟩ := List.mem_map.mp hd
      have hlt := partCopy_lt seq (List.mem_range.mp hj)
      have hchunk : seqRank seq P num (.data (chunkOut seq P (partCopy seq num j)).ptr) =
        base (partCopy seq num j) + 26 := rfl
      simp only [DataPtr.map_ptr, hchunk, hout, base]
      omega
    · simp only [DataPtr.map_ptr, hout]
      exact le_refl _
  rw [seqNet, List.map_cons, List.map_append, List.map_singleton]
  exact hsplit _ (hcopies.append hconcat)

/-- The values around the layer, and nothing in it. -/
def outerValues (v : ι → Content α) : Unrolled (Copies ι SeqData) → Content α
  | .data (.outer p) => v p
  | _ => 0

/-- **Consistent valuations** of an unrolled sequence. -/
theorem exists_consistent_seqNet (h : seq.Fits P N T D S) (hvalid : seq.Valid D S) (hapart : seq.Apart)
    (hpos : 0 < num) (K : Kernels α) (v : ι → Content α) :
    ∃ w, Consistent K w (seqNet seq P N num S) ∧
      ∀ p, p ∉ seq.outData.map DataPtr.ptr → w (.data (.outer p)) = v p := by
  have hrising := rising_seqNet (K := K) h hvalid hapart hpos
  obtain ⟨w, hw, hkeep⟩ := hrising.exists_consistent (outerValues v)
  refine ⟨w, hw, fun p hp => ?_⟩
  apply hkeep
  intro n hn hmem
  have hle := hrising.le_rank ⟨n, hn, hmem⟩
  rw [seqRank, outerRank_of_not_mem h hp] at hle
  omega

end Order

end OpenVino.InferenceEngine.NetPass
