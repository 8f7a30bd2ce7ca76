import OpenVino.Base.Placement
import OpenVino.GNAPlugin.Binding

/-!
# What a request reserves

`demand heap X` is what the requests bound to `X` ask of it, without overflow: the farthest end that the
traversal sees. The traversal adds up the offsets of siblings too, so it may see more than is asked, never
less (`le_demand`). `room` is the demand rounded up to the alignment of `X`. `Fits` bounds what the code
computes with `ALIGN`, whose quotient is an `int`; under it the first stage of `commit` leaves a
padding with which `X` reserves its room (`reserved_withPadding`), whatever the order of the visits.
-/

namespace OpenVino.GNAPlugin

open InferenceEngine (toInt toInt_of_lt toSizeT_natCast)

/-! ### `ALIGN` -/

/-- The multiple of `pad` is one that `ALIGN` computes: fewer than `2 ^ 31` times `pad`. -/
structure Aligns (memSize : Nat) (pad : ℕ+) : Prop where
  int : roundUp memSize pad < 2 ^ 31 * pad
  size : roundUp memSize pad + pad ≤ 2 ^ 64

instance (memSize : Nat) (pad : ℕ+) : Decidable (Aligns memSize pad) :=
  decidable_of_iff (roundUp memSize pad < 2 ^ 31 * pad ∧ roundUp memSize pad + pad ≤ 2 ^ 64)
    ⟨fun h => ⟨h.1, h.2⟩, fun h => ⟨h.int, h.size⟩⟩

namespace Aligns

variable {m k : Nat} {p : ℕ+}

theorem ALIGN_eq (h : Aligns m p) : ALIGN m p = roundUp m p := by
  have hpos := p.pos
  have hle := le_roundUp (m := m) hpos
  have hsize := h.size
  have hquot : (m + p - 1) % 2 ^ 64 / p = m ⌈/⌉ (p : Nat) := by
    rw [Nat.mod_eq_of_lt (by omega)]
    rfl
  have hint : m ⌈/⌉ (p : Nat) < 2 ^ 31 := Nat.lt_of_mul_lt_mul_right h.int
  rw [ALIGN, hquot, toInt_of_lt hint, ← Nat.cast_mul]
  apply toSizeT_natCast
  change roundUp m p < 2 ^ 64
  omega

theorem mono (h : Aligns k p) (hmk : m ≤ k) : Aligns m p :=
  ⟨lt_of_le_of_lt (roundUp_mono p.pos hmk) h.int, le_trans (Nat.add_le_add_right (roundUp_mono p.pos hmk) _) h.size⟩

theorem of_roundUp (h : Aligns m p) : Aligns (roundUp m p) p := by
  have hround : roundUp (roundUp m p) p = roundUp m p := roundUp_of_dvd p.pos (dvd_roundUp m p)
  exact ⟨hround.symm ▸ h.int, hround.symm ▸ h.size⟩

theorem lt (h : Aligns m p) : m < 2 ^ 64 := by
  have hle := le_roundUp (m := m) p.pos
  have hsize := h.size
  have := p.pos
  omega

end Aligns

/-! ### The demand of a request -/

namespace FutureHeap

variable {n : Nat} {heap : FutureHeap n} {r b d e X : Fin n} {o : Nat} {L : List (Fin n × Fin n)}

structure Extent where
  offset : Nat
  demand : Nat

/-- A visit of the first stage without overflow. -/
def reach (heap : FutureHeap n) (X : Fin n) (g : Extent) (visit : Fin n × Fin n) : Extent :=
  let offset := (if X = visit.1 then 0 else g.offset) + (heap visit.2).offset
  { offset, demand := max g.demand (offset + roundUp (heap visit.2).size (heap visit.2).alignment) }

/-- The bytes asked of `X`, by itself and by what is bound to it. -/
def demand (heap : FutureHeap n) (X : Fin n) : Nat :=
  match heap.visits X with
  | .ok visits => (visits.foldl (heap.reach X) ⟨0, (heap X).size⟩).demand
  | .error _ => 0

def room (heap : FutureHeap n) (X : Fin n) : Nat := roundUp (heap.demand X) (heap X).alignment

theorem demand_eq (hL : heap.visits X = .ok L) :
    heap.demand X = (L.foldl (heap.reach X) ⟨0, (heap X).size⟩).demand := by
  rw [demand, hL]

theorem demand_le_foldl (L : List (Fin n × Fin n)) (g : Extent) : g.demand ≤ (L.foldl (heap.reach X) g).demand := by
  induction L generalizing g with
  | nil => exact le_rfl
  | cons visit L ih => exact le_trans (le_max_left _ _) (ih (heap.reach X g visit))

theorem reach_first (heap : FutureHeap n) (b : Fin n) {g : Extent} {start : Nat}
    (hstart : X = r ∧ start = 0 ∨ X ≠ r ∧ start ≤ g.offset) :
    start + (heap b).offset ≤ (heap.reach X g (r, b)).offset ∧
      start + (heap b).offset + (heap b).size ≤ (heap.reach X g (r, b)).demand := by
  have hround := le_roundUp (m := (heap b).size) (heap b).alignment.pos
  have hfrom : start ≤ if X = r then 0 else g.offset := by
    rcases hstart with ⟨rfl, rfl⟩ | ⟨hr, hle⟩
    · exact Nat.zero_le _
    · rwa [if_neg hr]
  refine ⟨Nat.add_le_add_right hfrom _, le_trans ?_ (le_max_right _ _)⟩
  exact Nat.add_le_add (Nat.add_le_add_right hfrom _) hround

/-- Every request of a walk is seen at its place or behind it: the offset is reset at the requests bound to `X` itself
and grows below any other. -/
theorem Walk.reach_le {cs : List (Fin n)} (w : Walk heap r cs L) (hX : ¬ (heap X).Bound)
    (hcs : ∀ b ∈ cs, heap.Binds r b) (g : Extent) {start : Nat} (hstart : X = r ∧ start = 0 ∨ X ≠ r ∧ start ≤ g.offset) :
    (X ≠ r → start ≤ (L.foldl (heap.reach X) g).offset) ∧ ∀ b ∈ cs,
      start + (heap b).offset + (heap b).size ≤ (L.foldl (heap.reach X) g).demand ∧
      ((heap b).ptr_in ≠ (heap b).ptr_out → ∀ o e d, heap.Chain b o e → heap.Binds e d →
        start + (heap b).offset + o + (heap d).offset + (heap d).size ≤ (L.foldl (heap.reach X) g).demand) := by
  induction w generalizing g start with
  | nil r =>
    refine ⟨fun hr => ?_, fun b hb => absurd hb List.not_mem_nil⟩
    rcases hstart with ⟨rfl, -⟩ | ⟨-, hle⟩
    · exact absurd rfl hr
    · exact hle
  | @self r b cs L hself rest ih =>
    obtain ⟨hoff₁, hdem₁⟩ := reach_first heap b hstart
    have hstart₁ : X = r ∧ start = 0 ∨ X ≠ r ∧ start ≤ (heap.reach X g (r, b)).offset :=
      hstart.imp_right fun h => ⟨h.1, by omega⟩
    obtain ⟨hoff, hrest⟩ := ih (fun d hd => hcs d (List.mem_cons_of_mem _ hd)) _ hstart₁
    refine ⟨hoff, fun d hd => ?_⟩
    rcases List.mem_cons.mp hd with rfl | hd
    · exact ⟨hdem₁.trans (demand_le_foldl L _), fun hne => absurd hself hne⟩
    · exact hrest d hd
  | @descend r b cs L L' hne sub rest ihsub ihrest =>
    obtain ⟨hoff₁, hdem₁⟩ := reach_first heap b hstart
    have hXb : X ≠ b := fun h => hX (h ▸ (hcs b List.mem_cons_self).1)
    obtain ⟨hoff₂, hsub⟩ := ihsub (fun d hd => mem_binded.mp hd) (heap.reach X g (r, b)) (Or.inr ⟨hXb, hoff₁⟩)
    rw [List.foldl_cons, List.foldl_append]
    have hstart₂ : X = r ∧ start = 0 ∨ X ≠ r ∧ start ≤ (L.foldl (heap.reach X) (heap.reach X g (r, b))).offset :=
      hstart.imp_right fun h => ⟨h.1, by have := hoff₂ hXb; omega⟩
    obtain ⟨hoff₃, hrest⟩ := ihrest (fun d hd => hcs d (List.mem_cons_of_mem _ hd)) _ hstart₂
    refine ⟨hoff₃, fun d hd => ?_⟩
    rcases List.mem_cons.mp hd with rfl | hd
    · refine ⟨hdem₁.trans ((demand_le_foldl L _).trans (demand_le_foldl L' _)), fun _ o e f hchain hf => ?_⟩
      apply le_trans _ (demand_le_foldl L' _)
      rcases hchain.cases_head with ⟨rfl, rfl⟩ | ⟨k, o', hk, hbelow, rfl⟩
      · have hseen := (hsub f (mem_binded.mpr hf)).1
        omega
      · have hseen := (hsub k (mem_binded.mpr hk.1)).2 hk.2 o' e f hbelow hf
        omega
    · exact hrest d hd

/-- The demand covers the request itself and the whole range of every request bound to it. -/
theorem size_le_demand (hL : heap.visits X = .ok L) : (heap X).size ≤ heap.demand X := by
  rw [demand_eq hL]
  exact demand_le_foldl L ⟨0, (heap X).size⟩

theorem le_demand (hL : heap.visits X = .ok L) (hX : ¬ (heap X).Bound) (hchain : heap.Chain X o e)
    (hd : heap.Binds e d) : o + (heap d).offset + (heap d).size ≤ heap.demand X := by
  obtain ⟨-, hseen⟩ := (walk_of_iterate_binded hL).reach_le hX (fun b hb => mem_binded.mp hb)
    ⟨0, (heap X).size⟩ (Or.inl ⟨rfl, rfl⟩)
  rw [demand_eq hL]
  rcases hchain.cases_head with ⟨rfl, rfl⟩ | ⟨b, o', hb, hbelow, rfl⟩
  · exact (hseen d (mem_binded.mpr hd)).1
  · have h := (hseen b (mem_binded.mpr hb.1)).2 hb.2 o' e d hbelow hd
    omega

/-! ### The first stage -/

def withPadding (heap : FutureHeap n) (padding : Fin n → Nat) : FutureHeap n :=
  fun i => { heap i with padding := padding i }

theorem visits_withPadding (padding : Fin n → Nat) : (heap.withPadding padding).visits r = heap.visits r :=
  iterate_binded_congr (fun _ => rfl) (fun _ => rfl) fun _ => rfl

/-- The padding the first stage leaves to a request whose visits are `L`. -/
def grown (heap : FutureHeap n) (X : Fin n) (L : List (Fin n × Fin n)) : Nat :=
  (L.foldl (heap.grow X) ⟨0, (heap X).padding⟩).padding

/-- What the first stage leaves: the bound requests as they are, the others with the padding they have grown to. -/
def Expands (heap : FutureHeap n) (padding : Fin n → Nat) : Prop :=
  ∀ i, ((heap i).Bound ∧ padding i = (heap i).padding) ∨
    (¬ (heap i).Bound ∧ ∃ L, heap.visits i = .ok L ∧ padding i = heap.grown i L)

/-- The loop of the first stage so far: the requests of `pre` have grown. -/
structure Expanding (heap : FutureHeap n) (pre : List (Fin n)) (padding : Fin n → Nat) : Prop where
  done : ∀ i ∈ pre, ((heap i).Bound ∧ padding i = (heap i).padding) ∨
    (¬ (heap i).Bound ∧ ∃ L, heap.visits i = .ok L ∧ padding i = heap.grown i L)
  rest : ∀ i, i ∉ pre → padding i = (heap i).padding

theorem Expanding.nil (heap : FutureHeap n) : Expanding heap [] fun i => (heap i).padding :=
  ⟨fun _ hi => absurd hi List.not_mem_nil, fun _ _ => rfl⟩

theorem Expanding.bound {pre : List (Fin n)} {padding : Fin n → Nat} (h : Expanding heap pre padding)
    (hi : (heap X).Bound) (hpre : X ∉ pre) : Expanding heap (pre ++ [X]) padding := by
  refine ⟨fun i hmem => ?_, fun i hmem => h.rest i fun hi => hmem (List.mem_append_left _ hi)⟩
  rcases List.mem_append.mp hmem with hmem | hmem
  · exact h.done i hmem
  · obtain rfl := List.mem_singleton.mp hmem
    exact Or.inl ⟨hi, h.rest i hpre⟩

theorem Expanding.grow {pre : List (Fin n)} {padding : Fin n → Nat} (h : Expanding heap pre padding)
    (hX : ¬ (heap X).Bound) (hL : heap.visits X = .ok L) :
    Expanding heap (pre ++ [X]) (Function.update padding X (heap.grown X L)) := by
  refine ⟨fun i hmem => ?_, fun i hmem => ?_⟩
  · by_cases hi : i = X
    · subst hi
      exact Or.inr ⟨hX, L, hL, Function.update_self ..⟩
    · rw [Function.update_of_ne hi]
      rcases List.mem_append.mp hmem with hmem | hmem
      · exact h.done i hmem
      · exact absurd (List.mem_singleton.mp hmem) hi
  · rw [Function.update_of_ne fun hi => hmem (List.mem_append_right _ (List.mem_singleton.mpr hi))]
    exact h.rest i fun hi => hmem (List.mem_append_left _ hi)

theorem withPadding_update (padding : Fin n → Nat) (X : Fin n) (k : Nat) :
    Function.update (heap.withPadding padding) X { heap.withPadding padding X with padding := k } =
      heap.withPadding (Function.update padding X k) := by
  funext i
  by_cases hi : i = X
  · subst hi
    simp [withPadding]
  · simp [withPadding, hi]

/-- One round of the first stage, when the traversal ends. -/
theorem expandRequest_ok {pre : List (Fin n)} {padding : Fin n → Nat} (h : Expanding heap pre padding)
    (hpre : X ∉ pre) {heap' : FutureHeap n} (hrun : (heap.withPadding padding).expandRequest X = .ok heap') :
    ∃ padding', heap' = heap.withPadding padding' ∧ Expanding heap (pre ++ [X]) padding' := by
  unfold expandRequest at hrun
  by_cases hX : (heap.withPadding padding X).Bound
  · rw [if_pos hX] at hrun
    exact ⟨padding, (Except.ok.inj hrun).symm, h.bound hX hpre⟩
  · rw [if_neg hX, bind_ok_iff] at hrun
    obtain ⟨L, hL, hrun⟩ := hrun
    rw [visits_withPadding] at hL
    have hgrown : (heap.withPadding padding X).padding = (heap X).padding := h.rest X hpre
    rw [pure_ok_iff, hgrown] at hrun
    refine ⟨Function.update padding X (heap.grown X L), ?_, h.grow hX hL⟩
    rw [← hrun, ← withPadding_update]
    rfl

theorem not_mem_of_finRange {pre post : List (Fin n)} (h : List.finRange n = pre ++ X :: post) : X ∉ pre := by
  rw [mem_before_iff h]
  exact lt_irrefl X

theorem expand_ok {heap' : FutureHeap n} (h : heap.expand = .ok heap') :
    ∃ padding, heap' = heap.withPadding padding ∧ heap.Expands padding := by
  suffices ∃ padding, heap' = heap.withPadding padding ∧ Expanding heap (List.finRange n) padding by
    obtain ⟨padding, hheap, hdone⟩ := this
    exact ⟨padding, hheap, fun i => hdone.done i (List.mem_finRange i)⟩
  refine foldlM_ok_induct (I := fun pre s => ∃ padding, s = heap.withPadding padding ∧ Expanding heap pre padding) h
    ⟨_, rfl, .nil heap⟩ ?_
  rintro pre X post s s' hl ⟨padding, rfl, hI⟩ hrun
  exact expandRequest_ok hI (not_mem_of_finRange hl) hrun

theorem exists_expand (hq : heap.Bindable) : ∃ heap', heap.expand = .ok heap' := by
  obtain ⟨heap', hrun, -⟩ := exists_foldlM_ok (f := expandRequest) (l := List.finRange n) (b := heap)
    (I := fun pre s => ∃ padding, s = heap.withPadding padding ∧ Expanding heap pre padding) ⟨_, rfl, .nil heap⟩ (by
      rintro pre X post s hl ⟨padding, rfl, hI⟩
      obtain ⟨L, hL⟩ := exists_visits hq.below X
      suffices ∃ s', (heap.withPadding padding).expandRequest X = .ok s' by
        obtain ⟨s', hs'⟩ := this
        exact ⟨s', hs', expandRequest_ok hI (not_mem_of_finRange hl) hs'⟩
      unfold expandRequest
      by_cases hX : ((heap.withPadding padding) X).Bound
      · exact ⟨_, if_pos hX⟩
      · rw [if_neg hX, visits_withPadding, hL]
        exact ⟨_, rfl⟩)
  exact ⟨heap', hrun⟩

/-! ### What the code reserves -/

/-- The code computes with the locals of the visitor what `reach` says: the padding is what the rounded demand has
over the rounded size. -/
structure Grows (heap : FutureHeap n) (X : Fin n) (g : Growth) (e : Extent) : Prop where
  offset : g.offset = e.offset
  size : (heap X).size ≤ e.demand
  padding : roundUp (heap X).size (heap X).alignment + g.padding = roundUp e.demand (heap X).alignment

theorem bytes_eq {re : MemRequest} {p : ℕ+} (h : Aligns re.size p) : re.bytes = re.size :=
  Nat.mod_eq_of_lt h.lt

/-- A grown request is rounded up to its rounded demand. -/
theorem Grows.align {g : Growth} {e : Extent} (h : Grows heap X g e) (hdemand : Aligns e.demand (heap X).alignment) :
    ALIGN (((heap X).bytes + g.padding) % 2 ^ 64) (heap X).alignment = roundUp e.demand (heap X).alignment := by
  have hpos := (heap X).alignment.pos
  have hpadding : (heap X).size + g.padding = (heap X).size +
      (roundUp e.demand (heap X).alignment - roundUp (heap X).size (heap X).alignment) := by
    have := h.padding
    omega
  have hle : (heap X).size + g.padding ≤ roundUp e.demand (heap X).alignment := by
    have hsize := le_roundUp (m := (heap X).size) hpos
    have := h.padding
    omega
  have hsum : Aligns ((heap X).size + g.padding) (heap X).alignment := hdemand.of_roundUp.mono hle
  rw [bytes_eq (hdemand.mono h.size), Nat.mod_eq_of_lt hsum.lt, hsum.ALIGN_eq, hpadding]
  exact roundUp_add_sub hpos (dvd_roundUp _ _) (roundUp_mono hpos h.size)

theorem Grows.step {g : Growth} {e : Extent} {visit : Fin n × Fin n} (h : Grows heap X g e)
    (hbound : Aligns (heap visit.2).size (heap visit.2).alignment)
    (hdemand : Aligns (heap.reach X e visit).demand (heap X).alignment) :
    Grows heap X (heap.grow X g visit) (heap.reach X e visit) := by
  have hpos := (heap X).alignment.pos
  have hwithPad := h.align (hdemand.mono (le_max_left _ _))
  have hnoPad := (hdemand.mono (h.size.trans (le_max_left _ _))).ALIGN_eq
  set from' := if X = visit.1 then 0 else e.offset
  set offset' := from' + (heap visit.2).offset with hoffset'
  set current := offset' + roundUp (heap visit.2).size (heap visit.2).alignment with hcurrent
  have hreach : (heap.reach X e visit).demand = max e.demand current := rfl
  rw [hreach] at hdemand
  have hlt := hdemand.lt
  have hcur : current ≤ max e.demand current := le_max_right _ _
  have hoff : ((if X = visit.1 then 0 else g.offset) + (heap visit.2).offset) % 2 ^ 64 = offset' := by
    rw [h.offset]
    exact Nat.mod_eq_of_lt (by omega)
  have hmax : Aligns (max (roundUp e.demand (heap X).alignment) current) (heap X).alignment := by
    apply hdemand.of_roundUp.mono
    exact max_le (roundUp_mono hpos (le_max_left _ _)) (hcur.trans (le_roundUp hpos))
  have hround : roundUp (max (roundUp e.demand (heap X).alignment) current) (heap X).alignment =
      roundUp (max e.demand current) (heap X).alignment := by
    rw [roundUp_max hpos, roundUp_max hpos, roundUp_of_dvd hpos (dvd_roundUp _ _)]
  refine ⟨hoff, h.size.trans (le_max_left _ _), ?_⟩
  have hgrow : (heap.grow X g visit).padding =
      (roundUp (max e.demand current) (heap X).alignment + 2 ^ 64 - roundUp (heap X).size (heap X).alignment) %
        2 ^ 64 := by
    unfold grow
    dsimp only
    rw [hoff, bytes_eq hbound, hbound.ALIGN_eq, hwithPad, bytes_eq (hdemand.mono (h.size.trans (le_max_left _ _))),
      hnoPad, Nat.mod_eq_of_lt (show current < 2 ^ 64 by omega), hmax.ALIGN_eq, hround]
  have hle := roundUp_mono hpos (h.size.trans (le_max_left e.demand current))
  have hsize := hdemand.size
  rw [hgrow, hreach]
  omega

theorem Grows.foldl {g : Growth} {e : Extent} (h : Grows heap X g e)
    (hbound : ∀ visit ∈ L, Aligns (heap visit.2).size (heap visit.2).alignment)
    (hdemand : Aligns (L.foldl (heap.reach X) e).demand (heap X).alignment) :
    Grows heap X (L.foldl (heap.grow X) g) (L.foldl (heap.reach X) e) := by
  induction L generalizing g e with
  | nil => exact h
  | cons visit L ih =>
    apply ih _ (fun v hv => hbound v (List.mem_cons_of_mem _ hv)) hdemand
    exact h.step (hbound visit List.mem_cons_self) (hdemand.mono (demand_le_foldl L _))

theorem Walk.bound {cs : List (Fin n)} (w : Walk heap r cs L) (hcs : ∀ b ∈ cs, heap.Binds r b) :
    ∀ visit ∈ L, (heap visit.2).Bound := by
  induction w with
  | nil r => exact fun _ h => absurd h List.not_mem_nil
  | @self r b cs L _ rest ih =>
    have hb := hcs b List.mem_cons_self
    exact List.forall_mem_cons.mpr ⟨hb.1, ih fun d hd => hcs d (List.mem_cons_of_mem _ hd)⟩
  | @descend r b cs L L' _ sub rest ihsub ihrest =>
    have hb := hcs b List.mem_cons_self
    refine List.forall_mem_cons.mpr ⟨hb.1, List.forall_mem_append.mpr ⟨ihsub fun d hd => mem_binded.mp hd, ?_⟩⟩
    exact ihrest fun d hd => hcs d (List.mem_cons_of_mem _ hd)

/-- The requests of the two sections. -/
def InRW (heap : FutureHeap n) (i : Fin n) : Prop := ¬ (heap i).Bound ∧ (heap i).region = .REGION_RW

def InRO (heap : FutureHeap n) (i : Fin n) : Prop := ¬ (heap i).Bound ∧ (heap i).region = .REGION_RO

instance : DecidablePred heap.InRW := fun _ => inferInstanceAs (Decidable (_ ∧ _))

instance : DecidablePred heap.InRO := fun _ => inferInstanceAs (Decidable (_ ∧ _))

/-- Whatever the code rounds up stays below `2 ^ 31` times its alignment, and the heap below `2 ^ 64` bytes. -/
structure Fits (heap : FutureHeap n) (page_alignment : ℕ+) : Prop where
  bound : ∀ b, (heap b).Bound → Aligns (heap b).size (heap b).alignment
  demand : ∀ X, ¬ (heap X).Bound → Aligns (heap.demand X) (heap X).alignment
  rw : Aligns (lengthOf heap.room heap.InRW) page_alignment
  ro : Aligns (lengthOf heap.room heap.InRO) page_alignment
  total : roundUp (lengthOf heap.room heap.InRW) page_alignment + roundUp (lengthOf heap.room heap.InRO) page_alignment <
    2 ^ 64

/-- After the first stage a request reserves its room. -/
theorem reserved_withPadding {page_alignment : ℕ+} {padding : Fin n → Nat} (hq : heap.Bindable)
    (hfits : heap.Fits page_alignment) (hexp : heap.Expands padding) (hX : ¬ (heap X).Bound) :
    (heap.withPadding padding).reserved X = heap.room X := by
  rcases hexp X with ⟨hb, -⟩ | ⟨-, L, hL, hpadding⟩
  · exact absurd hb hX
  · have hdemand := hfits.demand X hX
    rw [demand_eq hL] at hdemand
    have hstart : Grows heap X ⟨0, (heap X).padding⟩ ⟨0, (heap X).size⟩ := by
      refine ⟨rfl, le_rfl, ?_⟩
      rw [(hq.queued X).padding_eq]
      rfl
    have hgrows := hstart.foldl (fun visit hv => hfits.bound _ ((walk_of_iterate_binded hL).bound
      (fun b hb => mem_binded.mp hb) visit hv)) hdemand
    rw [room, demand_eq hL, ← hgrows.align hdemand]
    change ALIGN (((heap X).bytes + padding X) % 2 ^ 64) (heap X).alignment = _
    rw [hpadding]
    rfl

end FutureHeap

end OpenVino.GNAPlugin
