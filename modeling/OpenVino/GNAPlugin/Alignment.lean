import OpenVino.GNAPlugin.Offsets

/-!
# Which requests start aligned

`commit` pads the size of a request to the alignment of the request and starts the next one where the padded size
ends. `aligned_iff`: with powers of two, the requests that are aligned at least as much as `i` keep the alignment
of `i`, so `i` starts at a multiple of its alignment exactly when what the less aligned requests before it take
adds up to one, for a read-only request together with the read-write section. `second_not_aligned`: eight bytes
aligned to eight bytes, then a request aligned to sixteen.
-/

namespace OpenVino.GNAPlugin

open GNAMemRequestsQueue
open InferenceEngine (toSizeT)

variable {n : Nat} {heap : FutureHeap n} {i j : Fin n} {m : GNAMemory n} {page_alignment : ℕ+}

/-- Every request that is not bound starts at a multiple of its alignment. -/
def GNAMemory.Aligned (m : GNAMemory n) (heap : FutureHeap n) : Prop :=
  ∀ i, ¬ (heap i).Bound → ∃ p, m.setup.placed i = some p ∧ ((heap i).alignment : Nat) ∣ p

/-- What requests less aligned than `i` take of the section before `i`. -/
def FutureHeap.lessAligned (heap : FutureHeap n) (p : Fin n → Prop) [DecidablePred p] (i : Fin n) : Nat :=
  startOf heap.taken (fun j => p j ∧ (heap j).alignment < (heap i).alignment) i

def FutureHeap.rwSize (heap : FutureHeap n) (page_alignment : ℕ+) : Nat :=
  ALIGN (lengthOf heap.taken heap.InRW % 2 ^ 64) page_alignment

/-- An alignment that a `size_t` can hold. -/
def FutureHeap.PowersOfTwo (heap : FutureHeap n) : Prop := ∀ i, ∃ k < 64, ((heap i).alignment : Nat) = 2 ^ k

theorem dvd_ALIGN {q : ℕ+} (h : (q : Nat) ∣ 2 ^ 64) (k : Nat) : (q : Nat) ∣ ALIGN k q := by
  unfold ALIGN toSizeT
  rw [← Int.natCast_dvd_natCast, Int.toNat_of_nonneg (Int.emod_nonneg _ (by norm_num))]
  apply (EuclideanDomain.dvd_mod_iff _).mpr
  · exact dvd_mul_left _ _
  · exact_mod_cast h

theorem dvd_taken (h : ((heap i).alignment : Nat) ∣ 2 ^ 64) : ((heap i).alignment : Nat) ∣ heap.taken i := by
  unfold FutureHeap.taken
  cases heap.visits i with
  | ok visits => exact dvd_ALIGN h _
  | error e => exact dvd_zero _

namespace FutureHeap.PowersOfTwo

theorem dvd_size (h : heap.PowersOfTwo) (i : Fin n) : ((heap i).alignment : Nat) ∣ 2 ^ 64 := by
  obtain ⟨k, hk, hi⟩ := h i
  rw [hi]
  exact pow_dvd_pow 2 hk.le

theorem dvd_of_le (h : heap.PowersOfTwo) (hij : (heap i).alignment ≤ (heap j).alignment) :
    ((heap i).alignment : Nat) ∣ (heap j).alignment := by
  obtain ⟨k, -, hi⟩ := h i
  obtain ⟨l, -, hj⟩ := h j
  have hle : 2 ^ k ≤ 2 ^ l := hi ▸ hj ▸ (PNat.coe_le_coe _ _).mpr hij
  rw [hi, hj]
  exact pow_dvd_pow 2 ((Nat.pow_le_pow_iff_right (by norm_num)).mp hle)

/-- Only the less aligned requests can take the next one off its alignment. -/
theorem dvd_startOf_iff (h : heap.PowersOfTwo) (p : Fin n → Prop) [DecidablePred p] (base : Nat) :
    ((heap i).alignment : Nat) ∣ (base + startOf heap.taken p i) % 2 ^ 64 ↔
      ((heap i).alignment : Nat) ∣ base + heap.lessAligned p i := by
  rw [Nat.dvd_mod_iff (h.dvd_size i), startOf_split fun j => (heap j).alignment < (heap i).alignment, ← add_assoc]
  apply Nat.dvd_add_iff_left _ |>.symm
  apply dvd_startOf
  intro j hj
  exact (h.dvd_of_le (not_lt.mp hj.2)).trans (dvd_taken (h.dvd_size j))

end FutureHeap.PowersOfTwo

/-- **Alignment of the starts.** The requests all start aligned exactly when, before each of them, the less aligned
requests of its section take a multiple of its alignment. -/
theorem aligned_iff (hq : ∀ i, Queued (heap i)) (hpow : heap.PowersOfTwo) (h : commit page_alignment heap = .ok m) :
    m.Aligned heap ↔ ∀ i, (heap.InRW i → ((heap i).alignment : Nat) ∣ heap.lessAligned heap.InRW i) ∧
      (heap.InRO i → ((heap i).alignment : Nat) ∣ heap.rwSize page_alignment + heap.lessAligned heap.InRO i) := by
  obtain ⟨hsections, hrw, hro⟩ := placed_ok hq h
  have hsize : m.sections.rw_section_size = heap.rwSize page_alignment := by
    rw [hsections, FutureHeap.rwSize]
  have hstartRW : ∀ i, heap.InRW i → m.setup.placed i = some ((0 + startOf heap.taken heap.InRW i) % 2 ^ 64) := by
    intro i hi
    rw [zero_add, hrw i hi]
  rw [hsize] at hro
  constructor
  · intro haligned i
    refine ⟨fun hi => ?_, fun hi => ?_⟩
    · obtain ⟨p, hp, hdvd⟩ := haligned i hi.1
      rw [hstartRW i hi] at hp
      rw [← Option.some_inj.mp hp, hpow.dvd_startOf_iff, zero_add] at hdvd
      exact hdvd
    · obtain ⟨p, hp, hdvd⟩ := haligned i hi.1
      rw [hro i hi] at hp
      rw [← Option.some_inj.mp hp, hpow.dvd_startOf_iff] at hdvd
      exact hdvd
  · intro hdvd i hi
    rcases (hq i).region_eq with hregion | hregion
    · refine ⟨_, hstartRW i ⟨hi, hregion⟩, ?_⟩
      rw [hpow.dvd_startOf_iff, zero_add]
      exact (hdvd i).1 ⟨hi, hregion⟩
    · refine ⟨_, hro i ⟨hi, hregion⟩, ?_⟩
      rw [hpow.dvd_startOf_iff]
      exact (hdvd i).2 ⟨hi, hregion⟩

/-- Eight bytes for the pointer at 1, then eight bytes aligned to sixteen for the pointer at 2. -/
def eightThenSixteen : FutureHeap 2 := ![reserve_ptr .memory 1 8 8, reserve_ptr .memory 2 8 16]

theorem queued_eightThenSixteen : ∀ i, Queued (eightThenSixteen i) := by
  intro i
  fin_cases i <;> exact .reserve_ptr ..

theorem powersOfTwo_eightThenSixteen : eightThenSixteen.PowersOfTwo := by
  intro i
  fin_cases i
  · exact ⟨3, by norm_num, rfl⟩
  · exact ⟨4, by norm_num, rfl⟩

def secondPlaced (r : Result (GNAMemory 2)) : Option Nat :=
  match r with
  | .ok m => m.setup.placed 1
  | .error _ => none

theorem commits_eightThenSixteen : ∃ m, commit 1 eightThenSixteen = .ok m ∧ m.setup.placed 1 = some 8 := by
  have hsecond : secondPlaced (commit 1 eightThenSixteen) = some 8 := by decide +kernel
  cases hcommit : commit 1 eightThenSixteen with
  | ok m =>
    rw [hcommit] at hsecond
    exact ⟨m, rfl, hsecond⟩
  | error e =>
    rw [hcommit] at hsecond
    cases hsecond

theorem aligned_iff_eightThenSixteen : ∃ m, commit 1 eightThenSixteen = .ok m ∧ (m.Aligned eightThenSixteen ↔
    ∀ i, (eightThenSixteen.InRW i →
        ((eightThenSixteen i).alignment : Nat) ∣ eightThenSixteen.lessAligned eightThenSixteen.InRW i) ∧
      (eightThenSixteen.InRO i → ((eightThenSixteen i).alignment : Nat) ∣
        eightThenSixteen.rwSize 1 + eightThenSixteen.lessAligned eightThenSixteen.InRO i)) := by
  obtain ⟨m, hm, -⟩ := commits_eightThenSixteen
  exact ⟨m, hm, aligned_iff queued_eightThenSixteen powersOfTwo_eightThenSixteen hm⟩

/-- The second request starts at 8. -/
theorem second_not_aligned : ¬ ∀ (n : Nat) (page_alignment : ℕ+) (heap : FutureHeap n) (m : GNAMemory n),
    (∀ i, Queued (heap i)) → heap.PowersOfTwo → commit page_alignment heap = .ok m → m.Aligned heap := by
  intro hall
  obtain ⟨m, hm, hplaced⟩ := commits_eightThenSixteen
  obtain ⟨p, hp, hdvd⟩ :=
    hall 2 1 eightThenSixteen m queued_eightThenSixteen powersOfTwo_eightThenSixteen hm 1 (by decide)
  rw [hplaced] at hp
  rw [← Option.some_inj.mp hp] at hdvd
  revert hdvd
  decide

end OpenVino.GNAPlugin
