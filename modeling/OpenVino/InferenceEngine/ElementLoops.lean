import OpenVino.InferenceEngine.SizeT

/-!
# Loops with an index

`for (size_t i = 0; i < n; i++)` is a loop over `List.range n`. `range_ok_induct` and `exists_range_ok` carry an invariant
that speaks of the index through it. A loop that reads the element at its index and nothing else of the index is
the loop over the elements (`foldlM_elements`, `forM_elements`).
-/

namespace OpenVino.InferenceEngine

variable {α σ : Type} {e : String} {l : List α} {i n : Nat}

theorem elemAt_eq (h : i < l.length) : elemAt e l i = .ok l[i] :=
  elemAt_ok_iff.mpr ⟨Nat.cast_nonneg _, by rw [Int.toNat_natCast, List.getElem?_eq_getElem h]⟩

theorem elemAt_outside (h : l.length ≤ i) : elemAt e l i = .error (.undefinedBehaviour e) := by
  rw [elemAt, if_pos (Nat.cast_nonneg _), Int.toNat_natCast, List.getElem?_eq_none h]

theorem length_of_range {pre post : List Nat} (h : List.range n = pre ++ i :: post) : pre.length = i ∧ i < n := by
  have hlength := congrArg List.length h
  rw [List.length_range, List.length_append, List.length_cons] at hlength
  have hget : (List.range n)[pre.length]? = some i := by
    rw [h, List.getElem?_append_right (le_refl _), Nat.sub_self, List.getElem?_cons_zero]
  rw [List.getElem?_range (by omega)] at hget
  have hindex := Option.some_inj.mp hget
  omega

/-- A loop with an index that returned. -/
theorem range_ok_induct {f : σ → Nat → Result σ} {I : Nat → σ → Prop} {s s' : σ}
    (h : (List.range n).foldlM f s = .ok s') (h₀ : I 0 s)
    (hstep : ∀ i < n, ∀ s s', I i s → f s i = .ok s' → I (i + 1) s') : I n s' := by
  have hrun := foldlM_ok_induct (I := fun pre s => I pre.length s) h h₀ fun pre i post s s' hl hpre hf => by
    obtain ⟨hlength, hlt⟩ := length_of_range hl
    rw [hlength] at hpre
    rw [List.length_append, hlength]
    exact hstep i hlt s s' hpre hf
  rwa [List.length_range] at hrun

/-- A loop with an index whose every round returns. -/
theorem exists_range_ok {f : σ → Nat → Result σ} {I : Nat → σ → Prop} {s : σ} (h₀ : I 0 s)
    (hstep : ∀ i < n, ∀ s, I i s → ∃ s', f s i = .ok s' ∧ I (i + 1) s') :
    ∃ s', (List.range n).foldlM f s = .ok s' ∧ I n s' := by
  have hrun := exists_foldlM_ok (f := f) (I := fun pre s => I pre.length s) (l := List.range n) h₀
    fun pre i post s hl hpre => by
      obtain ⟨hlength, hlt⟩ := length_of_range hl
      rw [hlength] at hpre
      rw [List.length_append, hlength]
      exact hstep i hlt s hpre
  rwa [List.length_range] at hrun

theorem foldlM_elements {g : σ → α → Result σ} {s : σ} : (List.range l.length).foldlM (fun s i => do
      let a ← elemAt e l i
      g s a) s = l.foldlM g s := by
  suffices ∀ n k s, k + n = l.length → (List.range' k n).foldlM (fun s i => do
      let a ← elemAt e l i
      g s a) s = (l.drop k).foldlM g s by
    rw [List.range_eq_range', this l.length 0 s (Nat.zero_add _), List.drop_zero]
  intro n
  induction n with
  | zero =>
    intro k s hk
    rw [List.drop_of_length_le (by omega)]
    rfl
  | succ n ih =>
    intro k s hk
    have hlt : k < l.length := by omega
    rw [List.range'_succ, List.foldlM_cons, elemAt_eq hlt, ok_bind, List.drop_eq_getElem_cons hlt, List.foldlM_cons]
    congr 1
    funext s'
    exact ih (k + 1) s' (by omega)

theorem forM_eq_foldlM {f : α → Result Unit} : l.forM f = l.foldlM (fun _ a => f a) () := by
  induction l with
  | nil => rfl
  | cons a l ih =>
    have hcons : (a :: l).forM f = f a >>= fun _ => l.forM f := rfl
    rw [hcons, ih]
    rfl

theorem forM_elements {f : α → Result Unit} : (List.range l.length).forM (fun i => do
      let a ← elemAt e l i
      f a) = l.forM f := by
  rw [forM_eq_foldlM, forM_eq_foldlM]
  exact foldlM_elements

/-- A loop of checks ends with the error of the first that fails. -/
theorem forM_error_iff {f : α → Result Unit} {x : IEException} : l.forM f = .error x ↔
    ∃ pre a post, l = pre ++ a :: post ∧ (∀ b ∈ pre, f b = .ok ()) ∧ f a = .error x := by
  induction l with
  | nil =>
    constructor
    · intro h
      cases h
    · rintro ⟨pre, a, post, h, -⟩
      exact absurd h.symm (List.append_ne_nil_of_right_ne_nil _ (List.cons_ne_nil _ _))
  | cons a l ih =>
    have hcons : (a :: l).forM f = f a >>= fun _ => l.forM f := rfl
    rw [hcons]
    constructor
    · intro h
      cases ha : f a with
      | error y =>
        rw [ha] at h
        exact ⟨[], a, l, rfl, fun b hb => absurd hb List.not_mem_nil, ha.trans h⟩
      | ok u =>
        rw [ha] at h
        obtain ⟨pre, b, post, rfl, hpre, hb⟩ := ih.mp h
        exact ⟨a :: pre, b, post, rfl, List.forall_mem_cons.mpr ⟨ha, hpre⟩, hb⟩
    · rintro ⟨pre, b, post, hl, hpre, hb⟩
      rcases List.cons_eq_append_iff.mp hl with ⟨rfl, hl⟩ | ⟨pre, rfl, rfl⟩
      · obtain ⟨rfl, -⟩ := List.cons.inj hl
        rw [hb]
        rfl
      · obtain ⟨ha, hpre⟩ := List.forall_mem_cons.mp hpre
        rw [ha, ok_bind]
        exact ih.mpr ⟨pre, b, post, rfl, hpre, hb⟩

theorem forM_ok {f : α → Result Unit} (h : ∀ a ∈ l, f a = .ok ()) : l.forM f = .ok () := by
  cases hrun : l.forM f with
  | ok u => rfl
  | error x =>
    obtain ⟨pre, a, post, rfl, -, ha⟩ := forM_error_iff.mp hrun
    rw [h a (List.mem_append_right _ List.mem_cons_self)] at ha
    cases ha

end OpenVino.InferenceEngine
