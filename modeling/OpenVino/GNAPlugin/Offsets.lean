import OpenVino.GNAPlugin.Reserve

/-!
# Where the requests are placed

One round of `setupOffsets` (`setupRequest_cases`) either skips its request, or sets pointers only, or also places
the request at the current offset. Pointers and sizes of bound requests are all that the visits change
(`Resized`), so the request at `i` is placed behind what the requests of its section before it take (`placed_rw`,
`placed_ro`), and `commit` returns for every well-founded queue (`exists_commit`).

Sizes are padded to the own alignment of a request, starts are not: `offsets_aligned_iff` says when every request
starts at a multiple of its alignment.
-/

namespace OpenVino.GNAPlugin

open InferenceEngine (toSizeT)

variable {n : Nat} {heap heap' : FutureHeap n} {i r b X : Fin n} {L : List (Fin n × Fin n)} {s s' : Setup n}
  {total : Nat} {filter : MemRequest → Bool} {page_alignment : ℕ+}

/-! ### What the visits change -/

/-- The heap with other sizes of bound requests. -/
structure FutureHeap.Resized (heap heap' : FutureHeap n) : Prop where
  keeps : ∀ i, heap' i =
    { heap i with num_elements := (heap' i).num_elements, element_size := (heap' i).element_size }
  unbound : ∀ i, ¬ (heap i).Bound → heap' i = heap i

namespace FutureHeap.Resized

theorem refl (heap : FutureHeap n) : heap.Resized heap := ⟨fun _ => rfl, fun _ _ => rfl⟩

theorem type_eq (h : heap.Resized heap') (i : Fin n) : (heap' i).type = (heap i).type := by
  rw [h.keeps i]

theorem region_eq (h : heap.Resized heap') (i : Fin n) : (heap' i).region = (heap i).region := by
  rw [h.keeps i]

theorem ptr_out_eq (h : heap.Resized heap') (i : Fin n) : (heap' i).ptr_out = (heap i).ptr_out := by
  rw [h.keeps i]

theorem ptr_in_eq (h : heap.Resized heap') (i : Fin n) : (heap' i).ptr_in = (heap i).ptr_in := by
  rw [h.keeps i]

theorem offset_eq (h : heap.Resized heap') (i : Fin n) : (heap' i).offset = (heap i).offset := by
  rw [h.keeps i]

theorem bound_iff (h : heap.Resized heap') (i : Fin n) : (heap' i).Bound ↔ (heap i).Bound := by
  rw [MemRequest.Bound, MemRequest.Bound, h.type_eq i]

theorem visits_eq (h : heap.Resized heap') (i : Fin n) : heap'.visits i = heap.visits i :=
  iterate_binded_congr h.type_eq h.ptr_out_eq h.ptr_in_eq

theorem resolve (h : heap.Resized s.heap) (hb : (heap b).Bound) : heap.Resized (s.resolve (r, b)).heap := by
  refine ⟨fun i => ?_, fun i hi => ?_⟩
  · by_cases hib : i = b
    · subst hib
      simp only [Setup.resolve, Function.update_self]
      rw [h.keeps i]
    · simp only [Setup.resolve, Function.update_of_ne hib]
      exact h.keeps i
  · have hib : i ≠ b := fun hib => hi (hib ▸ hb)
    simp only [Setup.resolve, Function.update_of_ne hib]
    exact h.unbound i hi

theorem foldl (h : heap.Resized s.heap) (hL : ∀ visit ∈ L, (heap visit.2).Bound) :
    heap.Resized (L.foldl Setup.resolve s).heap := by
  induction L generalizing s with
  | nil => exact h
  | cons visit L ih =>
    exact ih (h.resolve (hL visit List.mem_cons_self)) fun v hv => hL v (List.mem_cons_of_mem _ hv)

end FutureHeap.Resized

theorem bound_of_visits (hL : heap.visits X = .ok L) : ∀ visit ∈ L, (heap visit.2).Bound :=
  (FutureHeap.walk_of_iterate_binded hL).bound fun _ hb => FutureHeap.mem_binded.mp hb

namespace Setup

theorem foldl_resolve_frame (L : List (Fin n × Fin n)) (s : Setup n) : (L.foldl resolve s).offset = s.offset ∧
    (L.foldl resolve s).placed = s.placed ∧ (L.foldl resolve s).writes = s.writes := by
  induction L generalizing s with
  | nil => exact ⟨rfl, rfl, rfl⟩
  | cons visit L ih => exact ih (s.resolve visit)

theorem place_heap (s : Setup n) (i : Fin n) : (s.place i).heap = s.heap := by
  rw [place]

theorem place_cells (s : Setup n) (i : Fin n) : (s.place i).cells = s.cells := by
  rw [place]

theorem place_offset (s : Setup n) (i : Fin n) : (s.place i).offset = (s.offset + s.heap.reserved i) % 2 ^ 64 := rfl

theorem place_placed (s : Setup n) (i : Fin n) : (s.place i).placed = Function.update s.placed i (some s.offset) := rfl

/-- The pointer of a request that is not bound is set to the offset before the visits. -/
def cellsFor (s : Setup n) (i : Fin n) : Ptr → Option Nat :=
  if (s.heap i).Bound then s.cells else Function.update s.cells (s.heap i).ptr_out (some s.offset)

/-- The state from which the visits start. -/
def aim (s : Setup n) (i : Fin n) : Setup n := { s with cells := s.cellsFor i }

theorem setupPointer_ok (h : setupPointer total s i = .ok s') : ∃ L, s.heap.visits i = .ok L ∧
    s' = { s with
      cells := (L.foldl resolve (s.aim i)).cells
      heap := (L.foldl resolve (s.aim i)).heap
      writes := s.writes ++ contents (s.heap i) i (s.cellsFor i (s.heap i).ptr_out)
        (if (s.heap i).Bound then (s.heap i).bytes else (total + 2 ^ 64 - s.offset) % 2 ^ 64) (s.heap i).bytes } := by
  unfold setupPointer at h
  rw [bind_ok_iff] at h
  obtain ⟨L, hL, h⟩ := h
  rw [pure_ok_iff] at h
  refine ⟨L, hL, h.symm.trans ?_⟩
  obtain ⟨hoffset, hplaced, hwrites⟩ := foldl_resolve_frame L (s.aim i)
  unfold aim cellsFor at hoffset hplaced hwrites ⊢
  rw [hoffset, hplaced, hwrites]

/-- What one round of `setupOffsets` does. -/
theorem setupRequest_cases (h : setupRequest total filter s i = .ok s') :
    ((s.heap i).type = REQUEST_BIND ∨ filter (s.heap i) = true) ∧ s' = s ∨
    ((s.heap i).type ≠ REQUEST_BIND ∧ filter (s.heap i) = false) ∧ ∃ s₁,
      ((s.heap i).ptr_out = nullptr ∧ s₁ = s ∨ (s.heap i).ptr_out ≠ nullptr ∧ setupPointer total s i = .ok s₁) ∧
      s' = if (s.heap i).Bound then s₁ else s₁.place i := by
  unfold setupRequest at h
  by_cases hskip : (s.heap i).type = REQUEST_BIND ∨ filter (s.heap i) = true
  · rw [if_pos hskip] at h
    exact Or.inl ⟨hskip, (Except.ok.inj h).symm⟩
  · rw [if_neg hskip, bind_ok_iff] at h
    obtain ⟨s₁, hs₁, h⟩ := h
    rw [pure_ok_iff] at h
    push Not at hskip
    refine Or.inr ⟨⟨hskip.1, Bool.eq_false_iff.mpr hskip.2⟩, s₁, ?_, h.symm⟩
    by_cases hp : (s.heap i).ptr_out = nullptr
    · rw [if_pos hp] at hs₁
      exact Or.inl ⟨hp, (Except.ok.inj hs₁).symm⟩
    · rw [if_neg hp] at hs₁
      exact Or.inr ⟨hp, hs₁⟩

end Setup

/-! ### One section -/

/-- A call of `setupOffsets` places the requests of a section. -/
def Selects (heap : FutureHeap n) (filter : MemRequest → Bool) (p : Fin n → Prop) : Prop :=
  ∀ heap', heap.Resized heap' → ∀ i, p i ↔ ¬ (heap i).Bound ∧ filter (heap' i) = false

theorem selects_rw (heap : FutureHeap n) : Selects heap notReadWrite heap.InRW := by
  intro heap' h i
  simp only [FutureHeap.InRW, notReadWrite, h.bound_iff, h.region_eq]
  by_cases hb : (heap i).Bound <;> simp [hb]

theorem selects_ro (heap : FutureHeap n) : Selects heap notReadOnly heap.InRO := by
  intro heap' h i
  simp only [FutureHeap.InRO, notReadOnly, h.bound_iff, h.region_eq]
  by_cases hb : (heap i).Bound <;> simp [hb]

theorem FutureHeap.InRW.not_inRO (h : heap.InRW i) : ¬ heap.InRO i := by
  intro hro
  have hregion := h.2
  rw [hro.2] at hregion
  cases hregion

theorem type_ne_of_not_bound (hi : ¬ (heap i).Bound) : (heap i).type ≠ REQUEST_BIND := by
  intro htype
  apply hi
  rw [MemRequest.Bound, htype]
  decide

/-- The bytes that the code takes of its section for a request, the padding of the first stage included. -/
def FutureHeap.taken (heap : FutureHeap n) (X : Fin n) : Nat :=
  match heap.visits X with
  | .ok visits => ALIGN (((heap X).bytes + heap.grown X visits) % 2 ^ 64) (heap X).alignment
  | .error _ => 0

theorem reserved_eq_taken {padding : Fin n → Nat} (hexp : heap.Expands padding) (hX : ¬ (heap X).Bound) :
    (heap.withPadding padding).reserved X = heap.taken X := by
  rcases hexp X with ⟨hb, -⟩ | ⟨-, L, hL, hpadding⟩
  · exact absurd hb hX
  · rw [FutureHeap.taken, hL]
    change ALIGN (((heap X).bytes + padding X) % 2 ^ 64) (heap X).alignment = _
    rw [hpadding]

/-- The loop of one section that starts at `base`, after the requests of `pre`. -/
structure Placing (heap : FutureHeap n) (p : Fin n → Prop) [DecidablePred p] (base : Nat) (before : Fin n → Option Nat)
    (pre : List (Fin n)) (s : Setup n) : Prop where
  resized : heap.Resized s.heap
  offset : s.offset = (base + (pre.map fun j => if p j then heap.reserved j else 0).sum) % 2 ^ 64
  done : ∀ i ∈ pre, p i → s.placed i = some ((base + startOf heap.reserved p i) % 2 ^ 64)
  rest : ∀ i, i ∉ pre ∨ ¬ p i → s.placed i = before i

variable {p : Fin n → Prop} [DecidablePred p] {base : Nat} {before : Fin n → Option Nat} {pre post : List (Fin n)}

theorem Placing.skip (h : Placing heap p base before pre s) (hi : ¬ p i) (hresized : heap.Resized s'.heap)
    (hoffset : s'.offset = s.offset) (hplaced : s'.placed = s.placed) : Placing heap p base before (pre ++ [i]) s' := by
  refine ⟨hresized, ?_, fun j hj hp => ?_, fun j hj => ?_⟩
  · rw [hoffset, h.offset, List.map_append, List.sum_append]
    simp [hi]
  · rw [hplaced]
    rcases List.mem_append.mp hj with hj | hj
    · exact h.done j hj hp
    · exact absurd (List.mem_singleton.mp hj ▸ hp) hi
  · rw [hplaced]
    apply h.rest j
    rcases hj with hj | hj
    · exact Or.inl fun hmem => hj (List.mem_append_left _ hmem)
    · exact Or.inr hj

theorem Placing.place (h : Placing heap p base before pre s) (hl : List.finRange n = pre ++ i :: post) (hi : p i)
    (hb : ¬ (heap i).Bound) (hresized : heap.Resized s'.heap) (hoffset : s'.offset = s.offset)
    (hplaced : s'.placed = s.placed) : Placing heap p base before (pre ++ [i]) (s'.place i) := by
  have hreserved : s'.heap.reserved i = heap.reserved i := by
    rw [FutureHeap.reserved, FutureHeap.reserved, hresized.unbound i hb]
  rw [← Setup.place_heap s' i] at hresized
  refine ⟨hresized, ?_, fun j hj hp => ?_, fun j hj => ?_⟩
  · rw [Setup.place_offset, hoffset, h.offset, hreserved, List.map_append, List.sum_append, List.map_singleton, List.sum_singleton,
      if_pos hi, ← add_assoc, Nat.mod_add_mod]
  · rw [Setup.place_placed]
    by_cases hji : j = i
    · subst hji
      rw [Function.update_self, hoffset, h.offset, sum_before hl]
    · rw [Function.update_of_ne hji, hplaced]
      rcases List.mem_append.mp hj with hj | hj
      · exact h.done j hj hp
      · exact absurd (List.mem_singleton.mp hj) hji
  · rw [Setup.place_placed]
    have hji : j ≠ i := by
      rintro rfl
      rcases hj with hj | hj
      · exact hj (List.mem_append_right _ (List.mem_singleton.mpr rfl))
      · exact hj hi
    rw [Function.update_of_ne hji, hplaced]
    apply h.rest j
    rcases hj with hj | hj
    · exact Or.inl fun hmem => hj (List.mem_append_left _ hmem)
    · exact Or.inr hj

theorem Placing.step (hsel : Selects heap filter p) (h : Placing heap p base before pre s)
    (hl : List.finRange n = pre ++ i :: post) (hrun : Setup.setupRequest total filter s i = .ok s') :
    Placing heap p base before (pre ++ [i]) s' := by
  rcases Setup.setupRequest_cases hrun with ⟨hskip, rfl⟩ | ⟨⟨htype, hfilter⟩, s₁, hs₁, rfl⟩
  · apply h.skip _ h.resized rfl rfl
    intro hi
    obtain ⟨hb, hfilter⟩ := (hsel _ h.resized i).mp hi
    rcases hskip with htype | htrue
    · exact type_ne_of_not_bound hb (h.resized.type_eq i ▸ htype)
    · rw [hfilter] at htrue
      exact Bool.false_ne_true htrue
  · have hframe : heap.Resized s₁.heap ∧ s₁.offset = s.offset ∧ s₁.placed = s.placed := by
      rcases hs₁ with ⟨-, rfl⟩ | ⟨-, hpointer⟩
      · exact ⟨h.resized, rfl, rfl⟩
      · obtain ⟨L, hL, rfl⟩ := Setup.setupPointer_ok hpointer
        rw [h.resized.visits_eq] at hL
        exact ⟨FutureHeap.Resized.foldl (s := s.aim i) h.resized (bound_of_visits hL), rfl, rfl⟩
    obtain ⟨hresized, hoffset, hplaced⟩ := hframe
    by_cases hb : (heap i).Bound
    · rw [if_pos ((h.resized.bound_iff i).mpr hb)]
      exact h.skip (fun hi => ((hsel _ h.resized i).mp hi).1 hb) hresized hoffset hplaced
    · rw [if_neg fun hsb => hb ((h.resized.bound_iff i).mp hsb)]
      exact h.place hl ((hsel _ h.resized i).mpr ⟨hb, hfilter⟩) hb hresized hoffset hplaced

theorem setupOffsets_placing (base : Nat) (hlt : base < 2 ^ 64) (hsel : Selects heap filter p)
    (hrun : Setup.setupOffsets total filter s = .ok s') (hresized : heap.Resized s.heap) (hbase : s.offset = base) :
    Placing heap p base s.placed (List.finRange n) s' := by
  refine foldlM_ok_induct hrun ⟨hresized, ?_, fun i hi => absurd hi List.not_mem_nil, fun _ _ => rfl⟩
    fun pre i post t t' hl hI hstep => hI.step hsel hl hstep
  rw [List.map_nil, List.sum_nil, add_zero, Nat.mod_eq_of_lt hlt, hbase]

/-! ### The whole commit -/

theorem commit_ok {m : GNAMemory n} (h : commit page_alignment heap = .ok m) : ∃ padding rw, heap.Expands padding ∧
    m.sections = (heap.withPadding padding).updateSectionsSizes page_alignment ∧
    m.total = (m.sections.rw_section_size + m.sections.ro_section_size) % 2 ^ 64 ∧
    Setup.setupOffsets m.total notReadWrite
      { heap := heap.withPadding padding, cells := fun _ => none, offset := 0, placed := fun _ => none, writes := [] } =
        .ok rw ∧
    Setup.setupOffsets m.total notReadOnly { rw with offset := m.sections.rw_section_size } = .ok m.setup := by
  unfold commit at h
  simp only [bind_ok_iff, pure_ok_iff] at h
  obtain ⟨heap', hexpand, rw, hrw, setup, hsetup, rfl⟩ := h
  obtain ⟨padding, rfl, hexp⟩ := FutureHeap.expand_ok hexpand
  exact ⟨padding, rw, hexp, rfl, rfl, hrw, hsetup⟩

theorem countRequest_eq (hbound : ∀ i, (heap i).Bound → (heap i).type ≠ REQUEST_BIND → heap.reserved i = 0)
    (hregion : ∀ i, (heap i).region = .REGION_RW ∨ (heap i).region = .REGION_RO) (a c : Nat) (i : Fin n) :
    heap.countRequest ⟨a % 2 ^ 64, c % 2 ^ 64⟩ i = ⟨(a + if heap.InRW i then heap.reserved i else 0) % 2 ^ 64,
      (c + if heap.InRO i then heap.reserved i else 0) % 2 ^ 64⟩ := by
  unfold FutureHeap.countRequest
  by_cases hb : (heap i).Bound
  · have hrw : ¬ heap.InRW i := fun h => h.1 hb
    have hro : ¬ heap.InRO i := fun h => h.1 hb
    rw [if_neg hrw, if_neg hro, add_zero, add_zero]
    by_cases htype : (heap i).type = REQUEST_BIND
    · rw [if_pos htype]
    · rw [if_neg htype, hbound i hb htype, add_zero, add_zero, Nat.mod_mod, Nat.mod_mod, ite_self]
  · rw [if_neg (type_ne_of_not_bound hb)]
    rcases hregion i with hr | hr
    · have hrw : heap.InRW i := ⟨hb, hr⟩
      have hro : ¬ heap.InRO i := hrw.not_inRO
      rw [if_pos hr, if_pos hrw, if_neg hro, Nat.mod_add_mod, add_zero]
    · have hro : heap.InRO i := ⟨hb, hr⟩
      have hrw : ¬ heap.InRW i := fun h => h.not_inRO hro
      rw [if_neg (by simp [hr]), if_neg hrw, if_pos hro, Nat.mod_add_mod, add_zero]

theorem foldl_countRequest (hbound : ∀ i, (heap i).Bound → (heap i).type ≠ REQUEST_BIND → heap.reserved i = 0)
    (hregion : ∀ i, (heap i).region = .REGION_RW ∨ (heap i).region = .REGION_RO) (l : List (Fin n)) (a c : Nat) :
    l.foldl heap.countRequest ⟨a % 2 ^ 64, c % 2 ^ 64⟩ =
      ⟨(a + (l.map fun j => if heap.InRW j then heap.reserved j else 0).sum) % 2 ^ 64,
        (c + (l.map fun j => if heap.InRO j then heap.reserved j else 0).sum) % 2 ^ 64⟩ := by
  induction l generalizing a c with
  | nil => rfl
  | cons i l ih =>
    rw [List.foldl_cons, countRequest_eq hbound hregion, ih, List.map_cons, List.map_cons, List.sum_cons, List.sum_cons,
      add_assoc, add_assoc]

/-- Bound requests add nothing to a section. -/
theorem reserved_of_bound {padding : Fin n → Nat} (hq : ∀ i, Queued (heap i)) (hexp : heap.Expands padding)
    (hb : (heap i).Bound) (htype : (heap i).type ≠ REQUEST_BIND) : (heap.withPadding padding).reserved i = 0 := by
  rcases (hq i).bound_cases hb with h | ⟨-, -, -, hsize, hpad, halign⟩
  · exact absurd h htype
  · rcases hexp i with ⟨-, hpadding⟩ | ⟨hno, -⟩
    · change ALIGN (((heap i).size % 2 ^ 64 + padding i) % 2 ^ 64) (heap i).alignment = 0
      rw [hsize, hpadding, hpad, halign]
      decide
    · exact absurd hb hno

theorem updateSectionsSizes_eq {padding : Fin n → Nat} (hq : ∀ i, Queued (heap i)) (hexp : heap.Expands padding) :
    (heap.withPadding padding).updateSectionsSizes page_alignment =
      ⟨ALIGN (lengthOf heap.taken heap.InRW % 2 ^ 64) page_alignment,
        ALIGN (lengthOf heap.taken heap.InRO % 2 ^ 64) page_alignment⟩ := by
  have hrw : lengthOf (heap.withPadding padding).reserved (heap.withPadding padding).InRW =
      lengthOf heap.taken heap.InRW :=
    lengthOf_congr (p := heap.InRW) fun j hj => reserved_eq_taken hexp hj.1
  have hro : lengthOf (heap.withPadding padding).reserved (heap.withPadding padding).InRO =
      lengthOf heap.taken heap.InRO :=
    lengthOf_congr (p := heap.InRO) fun j hj => reserved_eq_taken hexp hj.1
  have hfold := foldl_countRequest (fun i hb htype => reserved_of_bound hq hexp hb htype) (fun i => (hq i).region_eq)
    (List.finRange n) 0 0
  rw [sum_finRange, sum_finRange, zero_add, zero_add, Nat.zero_mod, hrw, hro] at hfold
  unfold FutureHeap.updateSectionsSizes
  rw [hfold]

theorem ALIGN_lt (m : Nat) (q : ℕ+) : ALIGN m q < 2 ^ 64 := by
  unfold ALIGN toSizeT
  omega

theorem rw_section_size_lt {m : GNAMemory n} (h : commit page_alignment heap = .ok m) :
    m.sections.rw_section_size < 2 ^ 64 := by
  obtain ⟨padding, -, -, hsections, -⟩ := commit_ok h
  rw [hsections]
  simp only [FutureHeap.updateSectionsSizes]
  apply ALIGN_lt

/-- The requests start where the running sums of what is taken before them end. -/
theorem placed_ok (hq : ∀ i, Queued (heap i)) {m : GNAMemory n} (h : commit page_alignment heap = .ok m) :
    m.sections = ⟨ALIGN (lengthOf heap.taken heap.InRW % 2 ^ 64) page_alignment,
      ALIGN (lengthOf heap.taken heap.InRO % 2 ^ 64) page_alignment⟩ ∧
    (∀ i, heap.InRW i → m.setup.placed i = some (startOf heap.taken heap.InRW i % 2 ^ 64)) ∧
    ∀ i, heap.InRO i →
      m.setup.placed i = some ((m.sections.rw_section_size + startOf heap.taken heap.InRO i) % 2 ^ 64) := by
  obtain ⟨padding, rw, hexp, hsections, htotal, hrw, hro⟩ := commit_ok h
  rw [updateSectionsSizes_eq hq hexp] at hsections
  have hfirst := setupOffsets_placing 0 (by norm_num) (selects_rw (heap.withPadding padding)) hrw (.refl _) rfl
  have hlt := rw_section_size_lt h
  have hsecond := setupOffsets_placing m.sections.rw_section_size hlt
    (selects_ro (heap.withPadding padding)) hro hfirst.resized rfl
  refine ⟨hsections, fun i hi => ?_, fun i hi => ?_⟩
  · have hplaced := hfirst.done i (List.mem_finRange i) hi
    rw [hsecond.rest i (Or.inr hi.not_inRO)]
    rw [zero_add, startOf_congr fun j hj => reserved_eq_taken hexp hj.1] at hplaced
    exact hplaced
  · have hplaced := hsecond.done i (List.mem_finRange i) hi
    rw [startOf_congr fun j hj => reserved_eq_taken hexp hj.1] at hplaced
    exact hplaced

theorem exists_setupRequest (hwf : WellFounded heap.Below) (h : heap.Resized s.heap) (i : Fin n) :
    ∃ s', Setup.setupRequest total filter s i = .ok s' ∧ heap.Resized s'.heap := by
  obtain ⟨L, hL⟩ := FutureHeap.exists_visits hwf i
  have hpointer : ∃ s₁, Setup.setupPointer total s i = .ok s₁ ∧ heap.Resized s₁.heap := by
    unfold Setup.setupPointer
    rw [h.visits_eq, hL]
    exact ⟨_, rfl, FutureHeap.Resized.foldl (s := s.aim i) h (bound_of_visits hL)⟩
  obtain ⟨s₁, hs₁, hresized⟩ := hpointer
  unfold Setup.setupRequest
  by_cases hskip : (s.heap i).type = REQUEST_BIND ∨ filter (s.heap i) = true
  · exact ⟨s, if_pos hskip, h⟩
  · rw [if_neg hskip]
    have hfirst : ∃ s₂, (if (s.heap i).ptr_out = nullptr then .ok s else Setup.setupPointer total s i) = .ok s₂ ∧
        heap.Resized s₂.heap := by
      by_cases hp : (s.heap i).ptr_out = nullptr
      · exact ⟨s, if_pos hp, h⟩
      · exact ⟨s₁, (if_neg hp).trans hs₁, hresized⟩
    obtain ⟨s₂, hs₂, hresized₂⟩ := hfirst
    refine ⟨if (s.heap i).Bound then s₂ else s₂.place i, ?_, ?_⟩
    · rw [hs₂]
      rfl
    · by_cases hb : (s.heap i).Bound
      · rwa [if_pos hb]
      · rwa [if_neg hb, Setup.place_heap]

theorem exists_setupOffsets (hwf : WellFounded heap.Below) (h : heap.Resized s.heap) (total : Nat)
    (filter : MemRequest → Bool) : ∃ s', Setup.setupOffsets total filter s = .ok s' ∧ heap.Resized s'.heap :=
  exists_foldlM_ok (I := fun _ (s : Setup n) => heap.Resized s.heap) h fun _ i _ _ _ hs => exists_setupRequest hwf hs i

/-- For a well-founded queue the traversals end, and `commit` returns. -/
theorem exists_commit (hq : heap.Bindable) (page_alignment : ℕ+) : ∃ m, commit page_alignment heap = .ok m := by
  obtain ⟨heap', hexpand⟩ := FutureHeap.exists_expand hq
  obtain ⟨padding, rfl, -⟩ := FutureHeap.expand_ok hexpand
  have hwf : WellFounded (heap.withPadding padding).Below := hq.below
  let sections := (heap.withPadding padding).updateSectionsSizes page_alignment
  let total := (sections.rw_section_size + sections.ro_section_size) % 2 ^ 64
  let init : Setup n :=
    { heap := heap.withPadding padding, cells := fun _ => none, offset := 0, placed := fun _ => none, writes := [] }
  obtain ⟨rw, hrw, hresized⟩ := exists_setupOffsets (s := init) hwf (.refl _) total notReadWrite
  obtain ⟨setup, hsetup, -⟩ :=
    exists_setupOffsets (s := { rw with offset := sections.rw_section_size }) hwf hresized total notReadOnly
  refine ⟨⟨sections, total, setup⟩, ?_⟩
  unfold commit
  rw [hexpand]
  change (Setup.setupOffsets total notReadWrite init >>= _) = _
  rw [hrw]
  change (Setup.setupOffsets total notReadOnly { rw with offset := sections.rw_section_size } >>= _) = _
  rw [hsetup]
  rfl

end OpenVino.GNAPlugin
