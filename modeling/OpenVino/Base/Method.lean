import Mathlib.Tactic.SplitIfs
import OpenVino.Base.Exception

/-!
# Methods of an object

A `Method σ α` works on an object of type `σ` and returns or throws; what it wrote before it threw stays
written. `Method.exec` runs it on an object. `Maintains` is the rule of invariants: a method that is put
together from methods that maintain an invariant maintains it (`Maintains.bind`, `Maintains.forM`).

`Method.bind_ok` and `Method.bind_error` take one run apart.
-/

namespace OpenVino

abbrev Method (σ : Type) := ExceptT IEException (StateM σ)

namespace Method

variable {σ τ α β φ : Type} {x y : Method σ α} {f : α → Method σ β} {I : σ → Prop} {s t : σ}

def exec (x : Method σ α) (s : σ) : Result α × σ := StateT.run (ExceptT.run x) s

/-! ### The statements, one by one -/

@[simp] theorem exec_pure (a : α) (s : σ) : exec (pure a : Method σ α) s = (.ok a, s) := rfl

@[simp] theorem exec_get (s : σ) : exec (get : Method σ σ) s = (.ok s, s) := rfl

@[simp] theorem exec_modify (g : σ → σ) (s : σ) : exec (modify g : Method σ Unit) s = (.ok (), g s) := rfl

@[simp] theorem exec_throw (e : IEException) (s : σ) : exec (throw e : Method σ α) s = (.error e, s) := rfl

@[simp] theorem exec_lift (r : Result α) (s : σ) : exec (liftM r : Method σ α) s = (r, s) := by
  cases r <;> rfl

theorem exec_bind (x : Method σ α) (f : α → Method σ β) (s : σ) :
    exec (x >>= f) s = match exec x s with
      | (.ok a, t) => exec (f a) t
      | (.error e, t) => (.error e, t) := by
  simp only [exec, ExceptT.run_bind, StateT.run_bind]
  cases StateT.run (ExceptT.run x) s with
  | mk r t => cases r <;> rfl

theorem exec_forM_cons (b : β) (l : List β) (body : β → Method σ PUnit) (s : σ) :
    exec ((b :: l).forM body) s = match exec (body b) s with
      | (.ok _, t) => exec (l.forM body) t
      | (.error e, t) => (.error e, t) := by
  change exec (body b >>= fun _ => l.forM body) s = _
  rw [exec_bind]
  rcases exec (body b) s with ⟨_ | _, _⟩ <;> rfl

theorem exec_tryCatch (x : Method σ α) (handler : IEException → Method σ α) (s : σ) :
    exec (tryCatch x handler) s = match exec x s with
      | (.ok a, t) => (.ok a, t)
      | (.error e, t) => exec (handler e) t := by
  simp only [exec, tryCatch, tryCatchThe, MonadExceptOf.tryCatch, ExceptT.tryCatch, ExceptT.run, ExceptT.mk,
    StateT.run_bind]
  cases StateT.run x s with
  | mk r t => cases r <;> rfl

/-- A run of `x >>= f` that returned is a run of `x` and one of `f`. -/
theorem bind_ok {b : β} (h : exec (x >>= f) s = (.ok b, t)) :
    ∃ a s', exec x s = (.ok a, s') ∧ exec (f a) s' = (.ok b, t) := by
  rw [exec_bind] at h
  rcases hx : exec x s with ⟨e | a, s'⟩
  · rw [hx] at h
    cases h
  · rw [hx] at h
    exact ⟨a, s', rfl, h⟩

/-- Two runs of a method on one object. -/
theorem ok_unique {a b : α} {s' : σ} (h : exec x s = (.ok a, t)) (h' : exec x s = (.ok b, s')) : b = a ∧ s' = t := by
  rw [h, Prod.mk.injEq, Except.ok.injEq] at h'
  exact ⟨h'.1.symm, h'.2.symm⟩

theorem get_ok {a : σ} (h : exec (get : Method σ σ) s = (.ok a, t)) : a = s ∧ t = s :=
  ok_unique (exec_get s) h

theorem lift_ok {r : Result α} {a : α} (h : exec (liftM r : Method σ α) s = (.ok a, t)) : r = .ok a ∧ t = s := by
  rw [exec_lift, Prod.mk.injEq] at h
  exact ⟨h.1, h.2.symm⟩

theorem forM_cons_ok {b : β} {l : List β} {body : β → Method σ PUnit} (h : exec ((b :: l).forM body) s = (.ok (), t)) :
    ∃ s', exec (body b) s = (.ok (), s') ∧ exec (l.forM body) s' = (.ok (), t) := by
  obtain ⟨a, s', hb, hl⟩ := bind_ok (x := body b) (f := fun _ => l.forM body) h
  exact ⟨s', hb, hl⟩

theorem forM_append_ok {l₁ l₂ : List β} {body : β → Method σ PUnit}
    (h : exec ((l₁ ++ l₂).forM body) s = (.ok (), t)) :
    ∃ s', exec (l₁.forM body) s = (.ok (), s') ∧ exec (l₂.forM body) s' = (.ok (), t) := by
  induction l₁ generalizing s with
  | nil => exact ⟨s, rfl, h⟩
  | cons b l₁ ih =>
    obtain ⟨s', hb, hl⟩ := forM_cons_ok h
    obtain ⟨s'', hl₁, hl₂⟩ := ih hl
    refine ⟨s'', ?_, hl₂⟩
    rw [exec_forM_cons, hb]
    exact hl₁

theorem bind_error {e : IEException} (h : exec (x >>= f) s = (.error e, t)) :
    exec x s = (.error e, t) ∨ ∃ a s', exec x s = (.ok a, s') ∧ exec (f a) s' = (.error e, t) := by
  rw [exec_bind] at h
  rcases hx : exec x s with ⟨e' | a, s'⟩
  · rw [hx] at h
    cases h
    exact .inl rfl
  · rw [hx] at h
    exact .inr ⟨a, s', rfl, h⟩

/-! ### Invariants -/

/-- The method keeps the invariant, also when it throws. -/
def Maintains (I : σ → Prop) (x : Method σ α) : Prop := ∀ s, I s → I (exec x s).2

theorem maintains_pure (a : α) : Maintains I (pure a : Method σ α) := fun _ hs => hs

theorem maintains_get : Maintains I (get : Method σ σ) := fun _ hs => hs

theorem maintains_throw (e : IEException) : Maintains I (throw e : Method σ α) := fun _ hs => hs

theorem maintains_lift (r : Result α) : Maintains I (liftM r : Method σ α) := by
  intro s hs
  rw [exec_lift]
  exact hs

theorem Maintains.bind (hx : Maintains I x) (hf : ∀ a, Maintains I (f a)) : Maintains I (x >>= f) := by
  intro s hs
  have hxs := hx s hs
  rw [exec_bind]
  rcases h : exec x s with ⟨e | a, t⟩
  · rw [h] at hxs
    exact hxs
  · rw [h] at hxs
    exact hf a t hxs

theorem Maintains.ite {c : Prop} [Decidable c] (hx : c → Maintains I x) (hy : ¬c → Maintains I y) :
    Maintains I (if c then x else y) := by
  split_ifs with hc
  · exact hx hc
  · exact hy hc

theorem Maintains.tryCatch {handler : IEException → Method σ α} (hx : Maintains I x)
    (hh : ∀ e, Maintains I (handler e)) : Maintains I (tryCatch x handler) := by
  intro s hs
  have hxs := hx s hs
  rw [exec_tryCatch]
  rcases h : exec x s with ⟨e | a, t⟩
  · rw [h] at hxs
    exact hh e t hxs
  · rw [h] at hxs
    exact hxs

theorem Maintains.forM_mem {l : List β} {body : β → Method σ PUnit} (hbody : ∀ b ∈ l, Maintains I (body b)) :
    Maintains I (l.forM body) := by
  induction l with
  | nil => exact maintains_pure _
  | cons b l ih =>
    obtain ⟨hb, hl⟩ := List.forall_mem_cons.mp hbody
    exact hb.bind fun _ => ih hl

theorem Maintains.forM {l : List β} {body : β → Method σ PUnit} (hbody : ∀ b, Maintains I (body b)) :
    Maintains I (l.forM body) :=
  .forM_mem fun b _ => hbody b

/-- The method leaves what `view` sees of the object as it is. -/
def Leaves (view : σ → φ) (x : Method σ α) : Prop := ∀ s, view (exec x s).2 = view s

theorem leaves_iff {view : σ → φ} : Leaves view x ↔ ∀ v, Maintains (fun s => view s = v) x := by
  constructor
  · intro h v s hs
    rw [← hs]
    exact h s
  · intro h s
    exact h (view s) s rfl

end Method

end OpenVino
