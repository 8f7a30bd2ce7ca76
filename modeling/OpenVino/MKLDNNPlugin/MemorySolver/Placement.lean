import OpenVino.Base.Placement
import OpenVino.MKLDNNPlugin.MemorySolver.Depth

/-!
# The placement loop of `solve`

A box that is lifted goes to the top of a placed box that was above its old place (`LiftedOver`). So a
pass of the `do … while` loop that moves the box leaves fewer placed boxes above it, which bounds the
number of passes (`lift_ok`), and a pass that does not move it has found it apart from every placed box
that shares a slot with it. `Placement.Inv` is the invariant of the loop over the boxes.
-/

namespace OpenVino.MKLDNNPlugin

/-! ### Lifting one box -/

section Lift

variable {b b' b'' old : Box} {slot olds : List Box} {p p' : Bool}

/-- The end of a placed box, whose `id` is its offset. -/
def Box.top (b : Box) : Int := b.id + b.size

def Box.Apart (b c : Box) : Prop := b.top ≤ c.id ∨ c.top ≤ b.id

theorem Box.Apart.symm (h : b.Apart old) : old.Apart b := Or.symm h

theorem Box.Apart.disjoint (h : b.Apart old) : Disjoint (Set.Ico b.id b.top) (Set.Ico old.id old.top) := by
  rw [Set.disjoint_left]
  rintro x ⟨hb, hbx⟩ ⟨ho, hox⟩
  rcases h with h | h <;> omega

/-- `b` was moved up to the top of one of `olds`. -/
def LiftedOver (olds : List Box) (b b' : Box) : Prop :=
  b.id < b'.id ∧ ∃ old ∈ olds, b' = { b with id := old.top }

theorem LiftedOver.trans (h : LiftedOver olds b b') (h' : LiftedOver olds b' b'') : LiftedOver olds b b'' := by
  obtain ⟨hlt, old, hold, rfl⟩ := h
  obtain ⟨hlt', old', hold', rfl⟩ := h'
  exact ⟨hlt.trans hlt', old', hold', rfl⟩

theorem LiftedOver.mono (h : LiftedOver slot b b') (hsub : ∀ x ∈ slot, x ∈ olds) : LiftedOver olds b b' := by
  obtain ⟨hlt, old, hold, rfl⟩ := h
  exact ⟨hlt, old, hsub old hold, rfl⟩

theorem LiftedOver.slots (h : LiftedOver olds b b') : b'.start = b.start ∧ b'.finish = b.finish := by
  obtain ⟨-, old, -, rfl⟩ := h
  exact ⟨rfl, rfl⟩

/-- What a loop over `olds` does to the box and to `popped_up`. -/
def Lifts (olds : List Box) (s s' : Box × Bool) : Prop :=
  s' = s ∧ (∀ old ∈ olds, s.1.Apart old) ∨ s'.2 = true ∧ LiftedOver olds s.1 s'.1

theorem popupTogetherWith_cases (b old : Box) :
    popupTogetherWith b old = (b, false) ∧ b.Apart old ∨
      popupTogetherWith b old = ({ b with id := old.top }, true) ∧ b.id < old.top := by
  unfold popupTogetherWith
  split_ifs with h
  · exact .inr ⟨rfl, h.2⟩
  · refine .inl ⟨rfl, ?_⟩
    unfold Box.Apart Box.top
    omega

theorem Lifts.append {l₁ l₂ : List Box} {s s' s'' : Box × Bool} (h : Lifts l₁ s s') (h' : Lifts l₂ s' s'') :
    Lifts (l₁ ++ l₂) s s'' := by
  have hleft : ∀ x ∈ l₁, x ∈ l₁ ++ l₂ := fun x hx => List.mem_append_left _ hx
  have hright : ∀ x ∈ l₂, x ∈ l₁ ++ l₂ := fun x hx => List.mem_append_right _ hx
  rcases h with ⟨rfl, hapart⟩ | ⟨hp, hlift⟩ <;> rcases h' with ⟨rfl, hapart'⟩ | ⟨hp', hlift'⟩
  · refine .inl ⟨rfl, fun old hold => ?_⟩
    rcases List.mem_append.mp hold with hold | hold
    · exact hapart old hold
    · exact hapart' old hold
  · exact .inr ⟨hp', hlift'.mono hright⟩
  · exact .inr ⟨hp, hlift.mono hleft⟩
  · exact .inr ⟨hp', (hlift.mono hleft).trans (hlift'.mono hright)⟩

theorem liftInSlot_lifts (slot : List Box) (s : Box × Bool) : Lifts slot s (liftInSlot s slot) := by
  induction slot generalizing s with
  | nil => exact .inl ⟨rfl, by simp⟩
  | cons old slot ih =>
    have hfirst : Lifts [old] s ((popupTogetherWith s.1 old).1, s.2 || (popupTogetherWith s.1 old).2) := by
      rcases popupTogetherWith_cases s.1 old with ⟨heq, hapart⟩ | ⟨heq, hlt⟩ <;> rw [heq]
      · exact .inl ⟨by simp, by simpa using hapart⟩
      · exact .inr ⟨by simp, hlt, old, by simp, rfl⟩
    exact hfirst.append (ih _)

end Lift

/-! ### The time slots -/

section Slots

variable {time_slots : List (List Box)} {placed : List Box} {b box : Box} {i : Int}

theorem mem_slots : i ∈ box.slots ↔ box.start ≤ i ∧ i ≤ box.finish := by
  simp only [Box.slots, List.mem_map, List.mem_range]
  constructor
  · rintro ⟨k, hk, rfl⟩
    omega
  · intro h
    exact ⟨(i - box.start).toNat, by omega, by omega⟩

/-- Each slot holds the placed boxes that are alive there. -/
def SlotsInv (time_slots : List (List Box)) (placed : List Box) : Prop :=
  ∀ (k : Nat) (hk : k < time_slots.length), ∀ b, b ∈ time_slots[k] ↔ b ∈ placed ∧ (k : Int) ∈ b.slots

theorem slotAt_ok (hi : 0 ≤ i) (hlt : i < time_slots.length) :
    ∃ hk : i.toNat < time_slots.length, slotAt time_slots i = .ok time_slots[i.toNat] := by
  have hk : i.toNat < time_slots.length := by omega
  exact ⟨hk, by rw [slotAt, if_pos hi, List.getElem?_eq_getElem hk]⟩

theorem liftOnce_ok (hslots : SlotsInv time_slots placed) (hstart : 0 ≤ box.start)
    (hfinish : box.finish < time_slots.length) :
    ∃ olds s, liftOnce time_slots box = .ok s ∧ Lifts olds (box, false) s ∧
      (∀ b, b ∈ olds ↔ b ∈ placed ∧ ∃ i ∈ box.slots, i ∈ b.slots) := by
  have hrun : ∀ (is : List Int) (s : Box × Bool), (∀ i ∈ is, 0 ≤ i ∧ i < time_slots.length) →
      ∃ olds s', (is.foldlM (fun s i_slot => do
          let slot ← slotAt time_slots i_slot
          pure (liftInSlot s slot)) s : Result (Box × Bool)) = .ok s' ∧ Lifts olds s s' ∧
        ∀ b, b ∈ olds ↔ b ∈ placed ∧ ∃ i ∈ is, i ∈ b.slots := by
    intro is
    induction is with
    | nil => exact fun s _ => ⟨[], s, rfl, .inl ⟨rfl, by simp⟩, by simp⟩
    | cons i is ih =>
      intro s his
      obtain ⟨hi, hlt⟩ := his i List.mem_cons_self
      obtain ⟨hk, hslot⟩ := slotAt_ok hi hlt
      obtain ⟨olds, s', hloop, hlifts, hmem⟩ :=
        ih (liftInSlot s time_slots[i.toNat]) fun j hj => his j (List.mem_cons_of_mem _ hj)
      refine ⟨time_slots[i.toNat] ++ olds, s', ?_, (liftInSlot_lifts _ s).append hlifts, fun b => ?_⟩
      · rw [List.foldlM_cons, hslot]
        exact hloop
      · have hcast : ((i.toNat : Nat) : Int) = i := Int.toNat_of_nonneg hi
        rw [List.mem_append, hmem, hslots i.toNat hk, hcast]
        simp only [List.mem_cons, exists_eq_or_imp]
        tauto
  refine hrun box.slots (box, false) fun i hi => ?_
  have := mem_slots.mp hi
  omega

/-- The placed boxes above the place of `b`. -/
def above (placed : List Box) (b : Box) : List Box := placed.filter fun old => b.id < old.top

theorem above_lt {b' : Box} (h : LiftedOver placed b b') : (above placed b').length < (above placed b).length := by
  obtain ⟨hlt, old, hold, rfl⟩ := h
  simp only at hlt
  have hsub : above placed { b with id := old.top } =
      (above placed b).filter fun o => old.top < o.top := by
    unfold above
    rw [List.filter_filter]
    refine List.filter_congr fun o _ => ?_
    rw [← Bool.decide_and, decide_eq_decide]
    simp only
    omega
  rw [hsub]
  refine List.length_filter_lt_length_iff_exists.mpr ⟨old, ?_, by simp⟩
  exact List.mem_filter.mpr ⟨hold, by simpa using hlt⟩

/-- **The lifting loop ends**: its result is apart from each placed box that shares a slot with it, and
is the box itself or one moved to the top of a placed box. -/
theorem lift_ok (box : Box) (hslots : SlotsInv time_slots placed) (hstart : 0 ≤ box.start)
    (hfinish : box.finish < time_slots.length) {passes : Nat} (hpasses : (above placed box).length < passes) :
    ∃ box', lift time_slots passes box = .ok box' ∧ (box' = box ∨ LiftedOver placed box box') ∧
      ∀ b ∈ placed, (∃ i ∈ box.slots, i ∈ b.slots) → box'.Apart b := by
  induction passes generalizing box with
  | zero => exact absurd hpasses (Nat.not_lt_zero _)
  | succ passes ih =>
    obtain ⟨olds, ⟨box₁, popped_up⟩, hpass, hlifts, hmem⟩ := liftOnce_ok hslots hstart hfinish
    rcases hlifts with ⟨hsame, hapart⟩ | ⟨hpopped, hlift⟩
    · obtain ⟨rfl, rfl⟩ := Prod.mk.inj hsame
      refine ⟨box₁, ?_, .inl rfl, fun b hb hshare => hapart b ((hmem b).mpr ⟨hb, hshare⟩)⟩
      rw [lift, hpass]
      rfl
    · simp only at hpopped hlift
      subst hpopped
      replace hlift : LiftedOver placed box box₁ := hlift.mono fun b hb => ((hmem b).mp hb).1
      obtain ⟨hs, hf⟩ := hlift.slots
      have hslots_eq : box₁.slots = box.slots := by rw [Box.slots, Box.slots, hs, hf]
      have hfewer := above_lt hlift
      obtain ⟨box', hloop, hcases, hapart⟩ := ih box₁ (hs ▸ hstart) (hf ▸ hfinish) (by omega)
      refine ⟨box', ?_, .inr ?_, hslots_eq ▸ hapart⟩
      · rw [lift, hpass]
        exact hloop
      · rcases hcases with rfl | hnext
        · exact hlift
        · exact hlift.trans hnext

theorem addToSlots_ok (box : Box) (hslots : SlotsInv time_slots placed) (hstart : 0 ≤ box.start)
    (hfinish : box.finish < time_slots.length) :
    ∃ time_slots', addToSlots time_slots box = .ok time_slots' ∧ time_slots'.length = time_slots.length ∧
      SlotsInv time_slots' (placed ++ [box]) := by
  have hrun : ∀ (is : List Int) (ts : List (List Box)), (∀ i ∈ is, 0 ≤ i ∧ i < ts.length) →
      ∃ ts', (is.foldlM (fun time_slots i_slot => do
          let slot ← slotAt time_slots i_slot
          pure (time_slots.set i_slot.toNat (slot ++ [box]))) ts : Result (List (List Box))) = .ok ts' ∧
        ts'.length = ts.length ∧ ∀ (k : Nat) (_ : k < ts'.length) (_ : k < ts.length) b,
          b ∈ ts'[k] ↔ b ∈ ts[k] ∨ b = box ∧ (k : Int) ∈ is := by
    intro is
    induction is with
    | nil => exact fun ts _ => ⟨ts, rfl, rfl, by simp⟩
    | cons i is ih =>
      intro ts his
      obtain ⟨hi, hlt⟩ := his i List.mem_cons_self
      obtain ⟨hk, hslot⟩ := slotAt_ok hi hlt
      obtain ⟨ts', hloop, hlen, hmem⟩ := ih (ts.set i.toNat (ts[i.toNat] ++ [box])) fun j hj => by
        rw [List.length_set]
        exact his j (List.mem_cons_of_mem _ hj)
      refine ⟨ts', ?_, by rw [hlen, List.length_set], fun k hk hk' b => ?_⟩
      · rw [List.foldlM_cons, hslot]
        exact hloop
      · rw [hmem k hk (by rwa [List.length_set]) b, List.getElem_set, List.mem_cons]
        split_ifs with hik
        · subst hik
          have hcast : ((i.toNat : Nat) : Int) = i := Int.toNat_of_nonneg hi
          rw [List.mem_append, List.mem_singleton, hcast]
          tauto
        · have hne : ¬ (k : Int) = i := by omega
          tauto
  obtain ⟨ts', hloop, hlen, hmem⟩ := hrun box.slots time_slots fun i hi => by
    have := mem_slots.mp hi
    omega
  refine ⟨ts', hloop, hlen, fun k hk b => ?_⟩
  rw [hmem k hk (hlen ▸ hk) b, hslots k (hlen ▸ hk) b, List.mem_append, List.mem_singleton]
  constructor
  · rintro (⟨hb, hi⟩ | ⟨rfl, hi⟩)
    · exact ⟨.inl hb, hi⟩
    · exact ⟨.inr rfl, hi⟩
  · rintro ⟨hb | rfl, hi⟩
    · exact .inl ⟨hb, hi⟩
    · exact .inr ⟨rfl, hi⟩

end Slots

end OpenVino.MKLDNNPlugin
