import Mathlib.Data.List.Forall2
import Mathlib.Tactic.Basic

/-!
# Calls that return or throw

`Result α` is the outcome of a call: a value, or what happens instead of a return. `ieAssert` is the
`IE_ASSERT` macro. The two lemmas read a returned value back through `>>=`, one step at a time, so a
proof about a function that returned peels its statements off without unfolding the monad.
-/

namespace OpenVino

/-- What a call does other than return: an exception leaves it, it does something the language leaves
undefined, or a loop has not ended after the passes the model allows it. -/
inductive IEException
  | assertionFailed (expression : String)
  | exception (message : String)
  | undefinedBehaviour (expression : String)
  | outOfFuel
deriving DecidableEq

abbrev Result := Except IEException

def ieAssert (expression : String) (c : Prop) [Decidable c] : Result Unit :=
  if c then .ok () else .error (.assertionFailed expression)

def throwException {α : Type*} (message : String) : Result α := .error (.exception message)

variable {α β : Type}

theorem ok_bind {a : α} {f : α → Result β} : (.ok a : Result α) >>= f = f a := rfl

theorem bind_ok_iff {x : Result α} {f : α → Result β} {r : β} :
    (x >>= f) = .ok r ↔ ∃ a, x = .ok a ∧ f a = .ok r := by
  cases x <;> simp [bind, Except.bind]

theorem map_ok_iff {x : Result α} {f : α → β} {r : β} : f <$> x = .ok r ↔ ∃ a, x = .ok a ∧ f a = r := by
  cases x <;> simp [Functor.map, Except.map]

theorem ieAssert_ok_iff {e : String} {c : Prop} [Decidable c] {u : Unit} : ieAssert e c = .ok u ↔ c := by
  unfold ieAssert
  split <;> simp_all

theorem ieAssert_bind_ok_iff {e : String} {c : Prop} [Decidable c] {f : Unit → Result β} {r : β} :
    (ieAssert e c >>= f) = .ok r ↔ c ∧ f () = .ok r := by
  unfold ieAssert
  split <;> simp_all [bind, Except.bind]

theorem ieAssert_bind_ne_outOfFuel {e : String} {c : Prop} [Decidable c] {f : Unit → Result β}
    (h : c → f () ≠ .error .outOfFuel) : (ieAssert e c >>= f) ≠ .error .outOfFuel := by
  by_cases hc : c
  · simpa [ieAssert, hc, bind, Except.bind] using h hc
  · simp [ieAssert, hc, bind, Except.bind]

/-- A check that throws before the rest of a function. -/
theorem throw_guard_ok_iff {c : Prop} [Decidable c] {m : String} {rest : Result β} {r : β} :
    (if c then throwException m >>= fun _ : PUnit => rest else rest) = .ok r ↔ ¬c ∧ rest = .ok r := by
  by_cases hc : c <;> simp [hc, throwException, bind, Except.bind]

theorem pure_ok_iff {a b : α} : (pure a : Result α) = .ok b ↔ a = b := by
  simp [pure, Except.pure]

/-- A loop over a list that returned: what holds at the start and is kept by every round holds at the end. -/
theorem foldlM_ok_induct {f : β → α → Result β} {I : List α → β → Prop} {l : List α} {b b' : β}
    (h : l.foldlM f b = .ok b') (h₀ : I [] b)
    (hstep : ∀ pre a post b b', l = pre ++ a :: post → I pre b → f b a = .ok b' → I (pre ++ [a]) b') : I l b' := by
  suffices ∀ (pre post : List α) (b : β), l = pre ++ post → I pre b → post.foldlM f b = .ok b' → I l b' from
    this [] l b rfl h₀ h
  intro pre post
  induction post generalizing pre with
  | nil =>
    intro b hl hI hrun
    rw [List.foldlM_nil, pure_ok_iff] at hrun
    rw [hl, List.append_nil, ← hrun]
    exact hI
  | cons a post ih =>
    intro b hl hI hrun
    rw [List.foldlM_cons, bind_ok_iff] at hrun
    obtain ⟨b₁, hb₁, hrest⟩ := hrun
    refine ih (pre ++ [a]) b₁ ?_ (hstep pre a post b b₁ hl hI hb₁) hrest
    rw [hl, List.append_assoc, List.singleton_append]

theorem mem_mapM_ok {f : α → Result β} {l : List α} {r : List β} {y : β} (h : l.mapM f = .ok r) (hy : y ∈ r) :
    ∃ x ∈ l, f x = .ok y := by
  induction l generalizing r with
  | nil =>
    rw [List.mapM_nil, pure_ok_iff] at h
    exact absurd (h ▸ hy) List.not_mem_nil
  | cons x l ih =>
    rw [List.mapM_cons] at h
    simp only [bind_ok_iff, pure_ok_iff] at h
    obtain ⟨z, hz, r', hr', rfl⟩ := h
    rcases List.mem_cons.mp hy with rfl | hy
    · exact ⟨x, List.mem_cons_self, hz⟩
    · obtain ⟨w, hw, hwy⟩ := ih hr' hy
      exact ⟨w, List.mem_cons_of_mem _ hw, hwy⟩

/-- The results of a loop that returned, each with the round that gave it. -/
theorem mapM_ok_iff {f : α → Result β} {l : List α} {r : List β} :
    l.mapM f = .ok r ↔ List.Forall₂ (fun x y => f x = .ok y) l r := by
  induction l generalizing r with
  | nil => rw [List.mapM_nil, pure_ok_iff, List.forall₂_nil_left_iff, eq_comm]
  | cons x l ih =>
    simp only [List.mapM_cons, bind_ok_iff, pure_ok_iff, List.forall₂_cons_left_iff]
    constructor
    · rintro ⟨y, hy, ys, hys, rfl⟩
      exact ⟨y, ys, hy, ih.mp hys, rfl⟩
    · rintro ⟨y, ys, hy, hys, rfl⟩
      exact ⟨y, hy, ys, ih.mpr hys, rfl⟩

theorem mapM_eq_map {f : α → Result β} {g : α → β} {l : List α} (h : ∀ x ∈ l, f x = .ok (g x)) :
    l.mapM f = .ok (l.map g) := by
  rw [mapM_ok_iff, List.forall₂_map_right_iff, List.forall₂_same]
  exact h

theorem mapM_range_ok {f : Nat → Result β} {n : Nat} {r : List β} (h : (List.range n).mapM f = .ok r) :
    r.length = n ∧ ∀ i < n, ∃ y, r[i]? = some y ∧ f i = .ok y := by
  have hpairs := mapM_ok_iff.mp h
  have hlength := hpairs.length_eq
  rw [List.length_range] at hlength
  refine ⟨hlength.symm, fun i hi => ?_⟩
  have hget := (List.forall₂_iff_get.mp hpairs).2 i (by rwa [List.length_range]) (by omega)
  simp only [List.get_eq_getElem, List.getElem_range] at hget
  exact ⟨r[i], List.getElem?_eq_getElem (by omega), hget⟩

theorem exists_mapM_ok {f : α → Result β} {l : List α} (h : ∀ x ∈ l, ∃ y, f x = .ok y) : ∃ r, l.mapM f = .ok r := by
  induction l with
  | nil => exact ⟨[], rfl⟩
  | cons x l ih =>
    obtain ⟨y, hy⟩ := h x List.mem_cons_self
    obtain ⟨r, hr⟩ := ih fun z hz => h z (List.mem_cons_of_mem _ hz)
    refine ⟨y :: r, ?_⟩
    rw [List.mapM_cons, hy, hr]
    rfl

/-- A loop whose every round returns. -/
theorem exists_foldlM_ok {f : β → α → Result β} {I : List α → β → Prop} {l : List α} {b : β} (h₀ : I [] b)
    (hstep : ∀ pre a post b, l = pre ++ a :: post → I pre b → ∃ b', f b a = .ok b' ∧ I (pre ++ [a]) b') :
    ∃ b', l.foldlM f b = .ok b' ∧ I l b' := by
  suffices ∀ (pre post : List α) (b : β), l = pre ++ post → I pre b → ∃ b', post.foldlM f b = .ok b' ∧ I l b' from
    this [] l b rfl h₀
  intro pre post
  induction post generalizing pre with
  | nil =>
    intro b hl hI
    refine ⟨b, rfl, ?_⟩
    rw [hl, List.append_nil]
    exact hI
  | cons a post ih =>
    intro b hl hI
    obtain ⟨b₁, hb₁, hI₁⟩ := hstep pre a post b hl hI
    obtain ⟨b', hb', hI'⟩ := ih (pre ++ [a]) b₁ (by rw [hl, List.append_assoc, List.singleton_append]) hI₁
    refine ⟨b', ?_, hI'⟩
    rw [List.foldlM_cons, hb₁]
    exact hb'

/-- Every round of a loop that returned has returned. -/
theorem exists_of_foldlM_ok {f : β → α → Result β} {l : List α} {b b' : β} (h : l.foldlM f b = .ok b') :
    ∀ a ∈ l, ∃ b₁ b₂, f b₁ a = .ok b₂ := by
  refine foldlM_ok_induct (I := fun pre _ => ∀ a ∈ pre, ∃ b₁ b₂, f b₁ a = .ok b₂) h
    (fun a ha => absurd ha List.not_mem_nil) fun pre a post b₁ b₂ _ hpre hround => ?_
  rw [List.forall_mem_append, List.forall_mem_singleton]
  exact ⟨hpre, b₁, b₂, hround⟩

/-- Loops whose rounds do the same. -/
theorem foldlM_congr {f g : β → α → Result β} {l : List α} (h : ∀ b, ∀ a ∈ l, f b a = g b a) (b : β) :
    l.foldlM f b = l.foldlM g b := by
  induction l generalizing b with
  | nil => rfl
  | cons a l ih =>
    rw [List.foldlM_cons, List.foldlM_cons, h b a List.mem_cons_self]
    congr 1
    funext b'
    exact ih (fun b a ha => h b a (List.mem_cons_of_mem _ ha)) b'

/-- Nested loops as one loop. -/
theorem foldlM_flatMap {α β γ : Type} {m : Type → Type} [Monad m] [LawfulMonad m] (f : β → γ → m β) (g : α → List γ)
    (l : List α) (b : β) : (l.flatMap g).foldlM f b = l.foldlM (fun b a => (g a).foldlM f b) b := by
  induction l generalizing b with
  | nil => rfl
  | cons a l ih =>
    rw [List.flatMap_cons, List.foldlM_append, List.foldlM_cons]
    congr 1
    funext b'
    exact ih b'

theorem throwException_ne_ok {m : String} {a : α} : throwException m ≠ .ok a := by
  simp [throwException]

end OpenVino
