import OpenVino.GNAPlugin.Memory

/-!
# What is bound to what

`Below r b`: `b` is bound to the pointer of `r` and not the initializer of that pointer. When the relation is
well founded the recursion of `iterate_binded` ends (`exists_visits`), and its visits are a `Walk` from the
reference down, so what a visit hands from a request to the one bound to it reaches every request below
(`Walk.spread`). `HangsAt X o c`: the pointer variable `c` is bound, over any number of requests, to the pointer of
the request `X`, `o` bytes behind it. When every variable is filled for one request only, it hangs in one
place (`HangsAt.unique`), and `hung` is that place.
-/

namespace OpenVino.GNAPlugin.FutureHeap

variable {n : Nat} {heap : FutureHeap n} {fuel : Nat} {r b d X Y : Fin n} {c : Ptr} {o o' : Nat}

def Below (heap : FutureHeap n) (r b : Fin n) : Prop := heap.Binds r b ∧ (heap b).ptr_in ≠ (heap b).ptr_out

theorem mem_binded : b ∈ heap.binded r ↔ heap.Binds r b := by
  simp [binded]

/-! ### The walk of the visitor -/

/-- The visits to the requests of a list, all bound to `r`, and to what is bound to them. -/
inductive Walk (heap : FutureHeap n) : Fin n → List (Fin n) → List (Fin n × Fin n) → Prop
  | nil (r : Fin n) : Walk heap r [] []
  | self {r b : Fin n} {cs : List (Fin n)} {L : List (Fin n × Fin n)} (h : (heap b).ptr_in = (heap b).ptr_out) (rest : Walk heap r cs L) :
      Walk heap r (b :: cs) ((r, b) :: L)
  | descend {r b : Fin n} {cs : List (Fin n)} {L L' : List (Fin n × Fin n)} (h : (heap b).ptr_in ≠ (heap b).ptr_out)
      (sub : Walk heap b (heap.binded b) L) (rest : Walk heap r cs L') : Walk heap r (b :: cs) ((r, b) :: (L ++ L'))

theorem walk_of_iterate_binded {L : List (Fin n × Fin n)} (h : heap.iterate_binded fuel r = .ok L) :
    Walk heap r (heap.binded r) L := by
  induction fuel generalizing r L with
  | zero => cases h
  | succ fuel ih =>
    rw [iterate_binded, bind_ok_iff] at h
    obtain ⟨visits, hvisits, hL⟩ := h
    rw [pure_ok_iff] at hL
    subst hL
    generalize heap.binded r = cs at hvisits
    induction cs generalizing visits with
    | nil =>
      rw [List.mapM_nil, pure_ok_iff] at hvisits
      rw [← hvisits]
      exact .nil r
    | cons b cs ihcs =>
      rw [List.mapM_cons] at hvisits
      simp only [bind_ok_iff, pure_ok_iff] at hvisits
      obtain ⟨first, hfirst, rest, hrest, rfl⟩ := hvisits
      rw [List.flatten_cons]
      by_cases hself : (heap b).ptr_in = (heap b).ptr_out
      · rw [if_pos hself] at hfirst
        obtain rfl := Except.ok.inj hfirst
        exact .self hself (ihcs rest hrest)
      · rw [if_neg hself, bind_ok_iff] at hfirst
        obtain ⟨L, hL, hfirst⟩ := hfirst
        rw [pure_ok_iff] at hfirst
        rw [← hfirst]
        exact .descend hself (ih hL) (ihcs rest hrest)

/-- `iterate_binded` reads the types and the pointers only. -/
theorem iterate_binded_congr {heap' : FutureHeap n} (htype : ∀ i, (heap' i).type = (heap i).type)
    (hout : ∀ i, (heap' i).ptr_out = (heap i).ptr_out) (hin : ∀ i, (heap' i).ptr_in = (heap i).ptr_in) :
    heap'.iterate_binded fuel r = heap.iterate_binded fuel r := by
  have hbinded : heap'.binded = heap.binded := by
    funext r
    apply List.filter_congr
    intro b _
    rw [decide_eq_decide]
    simp only [Binds, MemRequest.Bound, htype, hout, hin]
  induction fuel generalizing r with
  | zero => rfl
  | succ fuel ih => simp only [iterate_binded, hbinded, ih, hout, hin]

open Classical in
/-- What is below a request shrinks on the way down, so a recursion as deep as the queue is long ends. -/
theorem exists_iterate_binded (hwf : WellFounded heap.Below)
    (hfuel : (Finset.univ.filter (Relation.TransGen heap.Below r)).card < fuel) :
    ∃ L, heap.iterate_binded fuel r = .ok L := by
  induction fuel generalizing r with
  | zero => exact absurd hfuel (Nat.not_lt_zero _)
  | succ fuel ih =>
    suffices ∃ visits, (heap.binded r).mapM (fun re =>
        if (heap re).ptr_in = (heap re).ptr_out then .ok [(r, re)]
        else do
          let below ← heap.iterate_binded fuel re
          return (r, re) :: below) = .ok visits by
      obtain ⟨visits, hvisits⟩ := this
      refine ⟨visits.flatten, ?_⟩
      rw [iterate_binded, hvisits]
      rfl
    apply exists_mapM_ok
    intro b hb
    by_cases hself : (heap b).ptr_in = (heap b).ptr_out
    · exact ⟨[(r, b)], if_pos hself⟩
    · have hbelow : heap.Below r b := ⟨mem_binded.mp hb, hself⟩
      have hsub : Finset.univ.filter (Relation.TransGen heap.Below b) ⊂
          Finset.univ.filter (Relation.TransGen heap.Below r) := by
        refine Finset.ssubset_iff_of_subset ?_ |>.mpr ⟨b, ?_, ?_⟩
        · intro d hd
          simp only [Finset.mem_filter, Finset.mem_univ, true_and] at hd ⊢
          exact Relation.TransGen.head hbelow hd
        · simpa using Relation.TransGen.single hbelow
        · simpa using hwf.transGen.irrefl.irrefl b
      obtain ⟨L, hL⟩ := ih (lt_of_lt_of_le (Finset.card_lt_card hsub) (Nat.lt_succ_iff.mp hfuel))
      refine ⟨(r, b) :: L, ?_⟩
      rw [if_neg hself, hL]
      rfl

theorem exists_visits (hwf : WellFounded heap.Below) (r : Fin n) : ∃ L, heap.visits r = .ok L := by
  classical
  apply exists_iterate_binded hwf
  exact Nat.lt_succ_of_le ((Finset.card_filter_le _ _).trans_eq (Finset.card_fin n))

section Spread

variable {σ : Type} {visit : σ → Fin n × Fin n → σ} {P : σ → Fin n → Prop} {I : σ → Prop} {s : σ}
  {L : List (Fin n × Fin n)}

/-- What a visit hands from the reference to the bound request, without taking it from another, reaches every request
bound to one below the start of the walk. -/
theorem Walk.spread (hstep : ∀ s r b, heap.Binds r b → I s → P s r →
      I (visit s (r, b)) ∧ P (visit s (r, b)) b ∧ ∀ d, P s d → P (visit s (r, b)) d)
    {cs : List (Fin n)} (w : Walk heap r cs L) (hcs : ∀ b ∈ cs, heap.Binds r b) (hI : I s) (hr : P s r) :
    I (L.foldl visit s) ∧ (∀ d, P s d → P (L.foldl visit s) d) ∧
      ∀ b ∈ cs, P (L.foldl visit s) b ∧ ((heap b).ptr_in ≠ (heap b).ptr_out → ∀ e d,
        Relation.ReflTransGen heap.Below b e → heap.Binds e d → P (L.foldl visit s) d) := by
  induction w generalizing s with
  | nil r => exact ⟨hI, fun d hd => hd, fun b hb => absurd hb List.not_mem_nil⟩
  | @self r b cs L hself rest ih =>
    obtain ⟨hI₁, hb₁, hkeep₁⟩ := hstep s r b (hcs b List.mem_cons_self) hI hr
    obtain ⟨hI₂, hkeep₂, hcs₂⟩ := ih (fun d hd => hcs d (List.mem_cons_of_mem _ hd)) hI₁ (hkeep₁ r hr)
    refine ⟨hI₂, fun d hd => hkeep₂ d (hkeep₁ d hd), fun d hd => ?_⟩
    rcases List.mem_cons.mp hd with rfl | hd
    · exact ⟨hkeep₂ d hb₁, fun hne => absurd hself hne⟩
    · exact hcs₂ d hd
  | @descend r b cs L L' hne sub rest ihsub ihrest =>
    obtain ⟨hI₁, hb₁, hkeep₁⟩ := hstep s r b (hcs b List.mem_cons_self) hI hr
    obtain ⟨hI₂, hkeep₂, hbelow₂⟩ := ihsub (fun d hd => mem_binded.mp hd) hI₁ hb₁
    obtain ⟨hI₃, hkeep₃, hcs₃⟩ :=
      ihrest (fun d hd => hcs d (List.mem_cons_of_mem _ hd)) hI₂ (hkeep₂ r (hkeep₁ r hr))
    rw [List.foldl_cons, List.foldl_append]
    refine ⟨hI₃, fun d hd => hkeep₃ d (hkeep₂ d (hkeep₁ d hd)), fun d hd => ?_⟩
    rcases List.mem_cons.mp hd with rfl | hd
    · refine ⟨hkeep₃ d (hkeep₂ d hb₁), fun _ e f hde hf => hkeep₃ f ?_⟩
      rcases hde.cases_head with rfl | ⟨g, hg, hge⟩
      · exact (hbelow₂ f (mem_binded.mpr hf)).1
      · exact (hbelow₂ g (mem_binded.mpr hg.1)).2 hg.2 e f hge hf
    · exact hcs₃ d hd

theorem spread_visits (hstep : ∀ s r b, heap.Binds r b → I s → P s r →
      I (visit s (r, b)) ∧ P (visit s (r, b)) b ∧ ∀ d, P s d → P (visit s (r, b)) d)
    (hL : heap.visits r = .ok L) (hI : I s) (hr : P s r) :
    I (L.foldl visit s) ∧ (∀ d, P s d → P (L.foldl visit s) d) ∧
      ∀ e d, Relation.ReflTransGen heap.Below r e → heap.Binds e d → P (L.foldl visit s) d := by
  obtain ⟨hI', hkeep, hbelow⟩ :=
    (walk_of_iterate_binded hL).spread hstep (fun d hd => mem_binded.mp hd) hI hr
  refine ⟨hI', hkeep, fun e d hre hd => ?_⟩
  rcases hre.cases_head with rfl | ⟨g, hg, hge⟩
  · exact (hbelow d (mem_binded.mpr hd)).1
  · exact (hbelow g (mem_binded.mpr hg.1)).2 hg.2 e d hge hd

end Spread

/-! ### Where a variable hangs -/

/-- The pointer variable `c` is bound to the pointer of the request `X`, which is not bound, `o` bytes behind it. -/
inductive HangsAt (heap : FutureHeap n) (X : Fin n) : Nat → Ptr → Prop
  | root (hX : ¬ (heap X).Bound) (hp : (heap X).ptr_out ≠ nullptr) : HangsAt heap X 0 (heap X).ptr_out
  | bind {o : Nat} {b : Fin n} (h : HangsAt heap X o (heap b).ptr_in) (hb : (heap b).Bound)
      (hne : (heap b).ptr_in ≠ (heap b).ptr_out) : HangsAt heap X (o + (heap b).offset) (heap b).ptr_out

/-- No pointer variable is filled for two requests, initializers of a requested pointer apart. -/
def Distinct (heap : FutureHeap n) : Prop :=
  ∀ i j, ¬ ((heap i).Bound ∧ (heap i).ptr_in = (heap i).ptr_out) → ¬ ((heap j).Bound ∧ (heap j).ptr_in = (heap j).ptr_out) →
    (heap i).ptr_out = (heap j).ptr_out → (heap i).ptr_out ≠ nullptr → i = j

/-- The binding relation, from a request to one that `bind_ptr` binds to its pointer. -/
def BoundTo (heap : FutureHeap n) (r b : Fin n) : Prop := heap.Binds r b ∧ (heap b).type = REQUEST_BIND

instance (heap : FutureHeap n) (r b : Fin n) : Decidable (heap.BoundTo r b) := inferInstanceAs (Decidable (_ ∧ _))

instance (heap : FutureHeap n) : Decidable heap.Distinct :=
  inferInstanceAs (Decidable (∀ i j, ¬ (_ ∧ _) → ¬ (_ ∧ _) → _ = _ → _ ≠ _ → i = j))

theorem wellFounded_of_rank (rank : Fin n → Nat) (h : ∀ r b, heap.BoundTo r b → rank r < rank b) :
    WellFounded heap.BoundTo :=
  Subrelation.wf (fun {r b} hrb => h r b hrb) (measure rank).wf

/-- A queue of requests that the interface pushed, whose binding relation is well founded. -/
structure Bindable (heap : FutureHeap n) : Prop where
  queued : ∀ i, Queued (heap i)
  wellFounded : WellFounded heap.BoundTo

/-- Every pointer variable of the queue is filled for one request. -/
structure Bindable.Single (heap : FutureHeap n) : Prop extends Bindable heap where
  distinct : heap.Distinct

theorem Bindable.below (hq : heap.Bindable) : WellFounded heap.Below := by
  refine Subrelation.wf (fun {r b} h => ?_) hq.wellFounded
  rcases (hq.queued b).bound_cases h.1.1 with htype | ⟨-, hself, -⟩
  · exact ⟨h.1, htype⟩
  · exact absurd hself h.2

/-- A request bound to its own pointer is an initializer. -/
theorem Bindable.offset_of_self (hq : heap.Bindable) (hb : (heap b).Bound) (h : (heap b).ptr_in = (heap b).ptr_out) :
    (heap b).offset = 0 := by
  rcases (hq.queued b).bound_cases hb with htype | ⟨-, -, hoffset, -⟩
  · exact absurd ⟨⟨hb, h⟩, htype⟩ (hq.wellFounded.irrefl.irrefl b)
  · exact hoffset

/-- The request `e` is bound, over any number of requests, to `r`, and the offsets on the way add up to `o`. -/
inductive Chain (heap : FutureHeap n) (r : Fin n) : Nat → Fin n → Prop
  | refl : Chain heap r 0 r
  | tail {o : Nat} {e d : Fin n} (h : Chain heap r o e) (hd : heap.Below e d) : Chain heap r (o + (heap d).offset) d

namespace Chain

theorem reflTransGen (h : heap.Chain r o d) : Relation.ReflTransGen heap.Below r d := by
  induction h with
  | refl => exact .refl
  | tail _ hd ih => exact ih.tail hd

theorem cases_head (h : heap.Chain r o d) :
    (r = d ∧ o = 0) ∨ ∃ b o', heap.Below r b ∧ heap.Chain b o' d ∧ o = (heap b).offset + o' := by
  induction h with
  | refl => exact Or.inl ⟨rfl, rfl⟩
  | @tail o e d _ hd ih =>
    right
    rcases ih with ⟨rfl, rfl⟩ | ⟨b, o', hb, hchain, rfl⟩
    · exact ⟨d, 0, hd, .refl, by omega⟩
    · exact ⟨b, o' + (heap d).offset, hb, hchain.tail hd, by omega⟩

end Chain

namespace HangsAt

theorem holder (h : heap.HangsAt X o c) : ∃ r, (heap r).ptr_out = c ∧ heap.Chain X o r := by
  induction h with
  | root => exact ⟨X, rfl, .refl⟩
  | @bind o b _ hb hne ih =>
    obtain ⟨r, hr, hXr⟩ := ih
    exact ⟨b, rfl, hXr.tail ⟨⟨hb, hr.symm⟩, hne⟩⟩

theorem ptr_ne (h : heap.HangsAt X o c) : (heap X).ptr_out ≠ nullptr := by
  induction h with
  | root _ hp => exact hp
  | bind _ _ _ ih => exact ih

theorem ne_nullptr (hq : heap.Bindable) (h : heap.HangsAt X o c) : c ≠ nullptr := by
  cases h with
  | root _ hp => exact hp
  | @bind _ b _ hb _ => exact ((hq.queued b).ptrs_ne hb).1

theorem not_bound (h : heap.HangsAt X o c) : ¬ (heap X).Bound := by
  induction h with
  | root hX => exact hX
  | bind _ _ _ ih => exact ih

/-- A variable hangs in one place. -/
theorem unique (hq : Bindable.Single heap) (h : heap.HangsAt X o c) (h' : heap.HangsAt Y o' c) : X = Y ∧ o = o' := by
  induction h generalizing o' with
  | root hX hp =>
    generalize hc : (heap X).ptr_out = c at h'
    cases h' with
    | root hY => exact ⟨hq.distinct X Y (fun h => hX h.1) (fun h => hY h.1) hc hp, rfl⟩
    | @bind _ b _ hb hne =>
      have hXb := hq.distinct X b (fun h => hX h.1) (fun h => hne h.2) hc hp
      exact absurd hb (hXb ▸ hX)
  | @bind o b hin hb hne ih =>
    generalize hc : (heap b).ptr_out = c at h'
    have hp := ((hq.queued b).ptrs_ne hb).1
    cases h' with
    | root hY =>
      have hbY := hq.distinct b Y (fun h => hne h.2) (fun h => hY h.1) hc hp
      exact absurd hb (hbY ▸ hY)
    | @bind _ b' hin' hb' hne' =>
      obtain rfl := hq.distinct b b' (fun h => hne h.2) (fun h => hne' h.2) hc hp
      obtain ⟨rfl, rfl⟩ := ih hin'
      exact ⟨rfl, rfl⟩

end HangsAt

open Classical in
/-- Where a variable hangs, when it does. -/
noncomputable def hung (heap : FutureHeap n) (c : Ptr) : Option (Fin n × Nat) :=
  if h : ∃ p : Fin n × Nat, heap.HangsAt p.1 p.2 c then some h.choose else none

theorem hung_eq_some_iff (hq : Bindable.Single heap) : heap.hung c = some (X, o) ↔ heap.HangsAt X o c := by
  unfold hung
  by_cases h : ∃ p : Fin n × Nat, heap.HangsAt p.1 p.2 c
  · rw [dif_pos h, Option.some_inj]
    refine ⟨fun he => ?_, fun hX => ?_⟩
    · have hspec := h.choose_spec
      rwa [he] at hspec
    · obtain ⟨hfst, hsnd⟩ := h.choose_spec.unique hq hX
      exact Prod.ext hfst hsnd
  · rw [dif_neg h]
    exact ⟨fun he => absurd he (Option.some_ne_none _).symm, fun hX => absurd ⟨(X, o), hX⟩ h⟩

theorem hung_root (hq : Bindable.Single heap) (hX : ¬ (heap X).Bound) (hp : (heap X).ptr_out ≠ nullptr) :
    heap.hung (heap X).ptr_out = some (X, 0) :=
  (hung_eq_some_iff hq).mpr (.root hX hp)

/-- A bound request hangs where the request it is bound to does, its offset further. -/
theorem hung_bind (hq : Bindable.Single heap) (hb : (heap b).Bound) :
    heap.hung (heap b).ptr_out = (heap.hung (heap b).ptr_in).map fun p => (p.1, p.2 + (heap b).offset) := by
  by_cases hne : (heap b).ptr_in = (heap b).ptr_out
  · rw [hne, hq.toBindable.offset_of_self hb hne]
    exact Option.map_id'.symm
  · cases hin : heap.hung (heap b).ptr_in with
    | some p =>
      obtain ⟨X, o⟩ := p
      exact (hung_eq_some_iff hq).mpr (((hung_eq_some_iff hq).mp hin).bind hb hne)
    | none =>
      rw [Option.map_none, Option.eq_none_iff_forall_ne_some]
      rintro ⟨X, o⟩ hout
      have h' := (hung_eq_some_iff hq).mp hout
      have hp := ((hq.queued b).ptrs_ne hb).1
      generalize hc : (heap b).ptr_out = c at h'
      cases h' with
      | root hX =>
        have hbX := hq.distinct b X (fun h => hne h.2) (fun h => hX h.1) hc hp
        exact absurd hb (hbX ▸ hX)
      | @bind _ b' hin' hb' hne' =>
        obtain rfl := hq.distinct b b' (fun h => hne h.2) (fun h => hne' h.2) hc hp
        rw [(hung_eq_some_iff hq).mpr hin'] at hin
        exact absurd hin (Option.some_ne_none _)

end OpenVino.GNAPlugin.FutureHeap
