import OpenVino.Vpu.IntrusivePtrList

/-!
# Runs over intrusive lists

The operations on lists and iterators with the assertions that they make (`Asserts`), and what they do to lists and to
places in them (`Shape.step`). In every run that meets the assertions the pointers stand for the lists, and an iterator
whose item is erased has been moved on to the next one (`performs_represents`).
-/

set_option linter.unusedSectionVars false

namespace OpenVino.Vpu

open PtrLists

variable {ι ν κ : Type} [DecidableEq ι] [DecidableEq ν] [DecidableEq κ]

/-! ### Actions -/

inductive PtrListAction (ι ν κ : Type) where
  | pushBack (l : ν) (x : ι)
  | pushFront (l : ν) (x : ι)
  | erase (l : ν) (x : ι)
  | begin_ (k : κ) (l : ν)
  | increment (k : κ)
  | destroy (k : κ)
  | move (k other : κ)

namespace PtrLists

def perform (s : PtrLists ι ν κ) : PtrListAction ι ν κ → PtrLists ι ν κ
  | .pushBack l x => s.push_back l x
  | .pushFront l x => s.push_front l x
  | .erase l x => s.erase l x
  | .begin_ k l => s.begin_ k l
  | .increment k => s.increment k
  | .destroy k => s.destroy k
  | .move k other => s.moveIter k other

/-- The iterator `k` enters an item. -/
def stand (s : PtrLists ι ν κ) (k : κ) (o : Option ι) (b : Bool) : PtrLists ι ν κ :=
  (s.modifyNode? o fun v => { v with iter := some k }).setIter k ⟨o, b⟩

section Stand

variable {s : PtrLists ι ν κ} {k other : κ} {x : ι} {l : ν}

theorem setIter_setIter {v w : PtrListIterator ι} : (s.setIter k v).setIter k w = s.setIter k w := by
  simp only [setIter, Function.update_idem]

theorem begin_eq : s.begin_ k l = s.stand k (s.list l).front false := by
  unfold begin_ stand
  cases (s.list l).front <;> rfl

theorem advance_eq {b : Bool} (hcur : (s.iter k).cur = some x) :
    (s.advance k).setIter k { (s.advance k).iter k with skipNextAdvanced := b } =
      (s.destroy k).stand k (s.node x).next b := by
  have hnext : ((s.modifyNode x fun v => { v with iter := none }).node x).next = (s.node x).next := by
    rw [node_modifyNode, if_pos rfl]
  unfold advance PtrLists.destroy stand
  simp only [hcur, hnext, modifyNode?]
  cases (s.node x).next with
  | none =>
    dsimp only
    rw [setIter_setIter, setIter_setIter, iter_setIter, if_pos rfl]
  | some z =>
    dsimp only
    rw [setIter_setIter, iter_setIter, if_pos rfl]
    exact setIter_setIter.symm

theorem moveIter_eq (hne : k ≠ other) :
    s.moveIter k other = (s.destroy other).stand k (s.iter other).cur (s.iter other).skipNextAdvanced := by
  have hiter : s.iter other = ⟨(s.iter other).cur, (s.iter other).skipNextAdvanced⟩ := rfl
  unfold moveIter PtrLists.destroy stand
  rw [hiter]
  cases (s.iter other).cur with
  | none => simp only [modifyNode?, setIter, Function.update_comm hne]
  | some x =>
    simp only [modifyNode?, setIter, modifyNode, Function.update_comm hne, Function.update_idem, Function.update_self]

end Stand

/-- What `advance` asserts. -/
def AdvanceAsserts (s : PtrLists ι ν κ) (k : κ) : Prop :=
  ∃ x, (s.iter k).cur = some x ∧ (s.node x).iter = some k ∧ ∀ y, (s.node x).next = some y → (s.node y).iter = none

/-- What an action asserts. An iterator is made where none is. -/
def Asserts (s : PtrLists ι ν κ) : PtrListAction ι ν κ → Prop
  | .pushBack _ x => (s.node x).list = none
  | .pushFront _ x => (s.node x).list = none
  | .erase l x => (s.node x).list = some l ∧ ∀ k, (s.node x).iter = some k → s.AdvanceAsserts k
  | .begin_ k l => (s.iter k).cur = none ∧ ∀ x, (s.list l).front = some x → (s.node x).iter = none
  | .increment k => (s.iter k).skipNextAdvanced = true ∨ s.AdvanceAsserts k
  | .destroy k => ∀ x, (s.iter k).cur = some x → (s.node x).iter = some k
  | .move k other =>
    k ≠ other ∧ (s.iter k).cur = none ∧ ∀ x, (s.iter other).cur = some x → (s.node x).iter = some other

def performs (s : PtrLists ι ν κ) (acts : List (PtrListAction ι ν κ)) : PtrLists ι ν κ := acts.foldl perform s

def AllAssert (s : PtrLists ι ν κ) : List (PtrListAction ι ν κ) → Prop
  | [] => True
  | a :: acts => s.Asserts a ∧ (s.perform a).AllAssert acts

end PtrLists

/-! ### Lists and places in them -/

/-- An iterator: the list and the item that it stands on, and whether it has been moved on. -/
structure Place (ι ν : Type) where
  item : Option (ν × ι) := none
  moved : Bool := false

structure Shape (ι ν κ : Type) where
  list : ν → List ι := fun _ => []
  place : κ → Place ι ν := fun _ => {}

namespace Shape

/-- The item behind the one that is stood on. -/
def behind (σ : Shape ι ν κ) (p : Option (ν × ι)) : Option (ν × ι) :=
  p.bind fun q => (nextIn (σ.list q.1) q.2).map fun y => (q.1, y)

def setPlace (σ : Shape ι ν κ) (k : κ) (p : Place ι ν) : Shape ι ν κ :=
  { σ with place := Function.update σ.place k p }

def step (σ : Shape ι ν κ) : PtrListAction ι ν κ → Shape ι ν κ
  | .pushBack l x => { σ with list := Function.update σ.list l (σ.list l ++ [x]) }
  | .pushFront l x => { σ with list := Function.update σ.list l (x :: σ.list l) }
  | .erase l x =>
    { list := Function.update σ.list l ((σ.list l).erase x)
      place := fun k => if (σ.place k).item = some (l, x) then ⟨σ.behind (some (l, x)), true⟩ else σ.place k }
  | .begin_ k l => σ.setPlace k ⟨(σ.list l).head?.map fun x => (l, x), false⟩
  | .increment k =>
    σ.setPlace k ⟨if (σ.place k).moved then (σ.place k).item else σ.behind (σ.place k).item, false⟩
  | .destroy k => σ.setPlace k {}
  | .move k other => (σ.setPlace k (σ.place other)).setPlace other {}

def steps (σ : Shape ι ν κ) (acts : List (PtrListAction ι ν κ)) : Shape ι ν κ := acts.foldl step σ

@[simp] theorem list_setPlace {σ : Shape ι ν κ} {k : κ} {p : Place ι ν} : (σ.setPlace k p).list = σ.list := rfl

@[simp] theorem place_setPlace {σ : Shape ι ν κ} {k k' : κ} {p : Place ι ν} :
    (σ.setPlace k p).place k' = if k' = k then p else σ.place k' := by
  simp only [setPlace, Function.update_apply]

theorem setPlace_setPlace {σ : Shape ι ν κ} {k : κ} {p q : Place ι ν} : (σ.setPlace k p).setPlace k q = σ.setPlace k q := by
  simp only [setPlace, Function.update_idem]

theorem setPlace_comm {σ : Shape ι ν κ} {k k' : κ} (h : k ≠ k') {p q : Place ι ν} :
    (σ.setPlace k p).setPlace k' q = (σ.setPlace k' q).setPlace k p := by
  simp only [setPlace, Function.update_comm h]

end Shape

/-- The pointers stand for the lists and the places. -/
structure Represents (s : PtrLists ι ν κ) (σ : Shape ι ν κ) : Prop where
  linked : s.Linked σ.list
  iter : ∀ k, s.iter k = ⟨(σ.place k).item.map Prod.snd, (σ.place k).moved⟩
  registered : ∀ k x, (s.node x).iter = some k ↔ (s.iter k).cur = some x
  listed : ∀ k l x, (σ.place k).item = some (l, x) → x ∈ σ.list l

namespace Represents

variable {s : PtrLists ι ν κ} {σ : Shape ι ν κ} {l : ν} {x y : ι} {k other : κ} (h : Represents s σ)

include h

theorem cur_eq (k : κ) : (s.iter k).cur = (σ.place k).item.map Prod.snd := by
  rw [h.iter]

/-- An iterator stands on an item in the list where it has started. -/
theorem cur_iff (hx : x ∈ σ.list l) : (s.iter k).cur = some x ↔ (σ.place k).item = some (l, x) := by
  rw [h.cur_eq, Option.map_eq_some_iff]
  constructor
  · intro hcur
    obtain ⟨⟨m, y⟩, hplace, hyx⟩ := hcur
    have hym : x ∈ σ.list m := by
      rw [← hyx]
      exact h.listed k m y hplace
    rw [hplace, ← h.linked.list_eq hx hym, ← hyx]
  · intro hplace
    exact ⟨(l, x), hplace, by dsimp only⟩

/-- The next item by the links is the one behind it in its list. -/
theorem next_eq (k : κ) : ((s.iter k).cur.bind fun x => (s.node x).next) = (σ.behind (σ.place k).item).map Prod.snd := by
  rw [h.cur_eq, Shape.behind]
  cases hplace : (σ.place k).item with
  | none => rfl
  | some q =>
    rw [Option.map_some, Option.bind_some, Option.bind_some, h.linked.next_of_mem (h.listed k q.1 q.2 hplace),
      Option.map_map]
    exact Option.map_id'.symm

/-- Pushes leave the iterators alone. -/
theorem push (u : PtrLists ι ν κ) (c : ν → List ι) (hu : u.Linked c) (hiter : u.iter = s.iter)
    (hnode : ∀ y, (u.node y).iter = (s.node y).iter) (hsub : ∀ l x, x ∈ σ.list l → x ∈ c l) :
    Represents u { σ with list := c } where
  linked := hu
  iter k := by rw [hiter]; exact h.iter k
  registered k x := by rw [hiter, hnode]; exact h.registered k x
  listed k l x hplace := hsub l x (h.listed k l x hplace)

theorem registered_unique (hk : (s.node x).iter = some k) (hcur : (s.iter other).cur = some x) : other = k := by
  have hother := (h.registered other x).mpr hcur
  rw [hk] at hother
  exact (Option.some_inj.mp hother).symm

theorem not_next_self (hx : x ∈ σ.list l) : (s.node x).next ≠ some x := by
  rw [h.linked.next_of_mem hx]
  exact fun hnext => nextIn_ne (h.linked.nodup l) hnext rfl

/-! #### Leaving and entering -/

/-- An iterator leaves its item. -/
theorem destroy (hassert : s.Asserts (.destroy k)) : Represents (s.destroy k) (σ.step (.destroy k)) := by
  refine ⟨h.linked.of_sameLinks (sameLinks_modifyNode?.trans sameLinks_setIter), fun k' => ?_, fun k' z => ?_,
    fun k' m z => ?_⟩
  · rw [PtrLists.destroy, iter_setIter, iter_modifyNode?, Shape.step, Shape.place_setPlace]
    by_cases hk : k' = k
    · rw [if_pos hk, if_pos hk]
      rfl
    · rw [if_neg hk, if_neg hk, h.iter]
  · rw [PtrLists.destroy, iter_setIter, iter_modifyNode?, node_setIter, node_modifyNode?]
    by_cases hk : k' = k
    · rw [if_pos hk, hk]
      refine iff_of_false (fun hcon => ?_) (Option.some_ne_none z).symm
      split_ifs at hcon with hz
      exact hz ((h.registered k z).mp hcon)
    · rw [if_neg hk]
      by_cases hz : (s.iter k).cur = some z
      · rw [if_pos hz]
        exact iff_of_false (Option.some_ne_none k').symm fun hcon => hk (h.registered_unique (hassert z hz) hcon)
      · rw [if_neg hz]
        exact h.registered k' z
  · rw [Shape.step, Shape.place_setPlace, Shape.list_setPlace]
    by_cases hk : k' = k
    · rw [if_pos hk]
      exact fun hcon => absurd hcon (Option.some_ne_none (m, z)).symm
    · rw [if_neg hk]
      exact h.listed k' m z

/-- An iterator that stands nowhere enters an item on which none stands. -/
theorem stand {p : Option (ν × ι)} {b : Bool} (hnone : (s.iter k).cur = none) (hp : ∀ m z, p = some (m, z) → z ∈ σ.list m)
    (hfree : ∀ z, p.map Prod.snd = some z → (s.node z).iter = none) :
    Represents (s.stand k (p.map Prod.snd) b) (σ.setPlace k ⟨p, b⟩) := by
  refine ⟨h.linked.of_sameLinks (sameLinks_modifyNode?.trans sameLinks_setIter), fun k' => ?_, fun k' z => ?_,
    fun k' m z => ?_⟩
  · rw [PtrLists.stand, iter_setIter, iter_modifyNode?, Shape.place_setPlace]
    by_cases hk : k' = k
    · rw [if_pos hk, if_pos hk]
    · rw [if_neg hk, if_neg hk, h.iter]
  · rw [PtrLists.stand, iter_setIter, iter_modifyNode?, node_setIter, node_modifyNode?]
    by_cases hk : k' = k
    · rw [if_pos hk, hk]
      by_cases hz : p.map Prod.snd = some z
      · rw [if_pos hz]
        exact iff_of_true rfl hz
      · rw [if_neg hz, h.registered, hnone]
        exact iff_of_false (Option.some_ne_none z).symm hz
    · rw [if_neg hk]
      by_cases hz : p.map Prod.snd = some z
      · rw [if_pos hz, ← h.registered, hfree z hz]
        exact iff_of_false (fun hcon => hk (Option.some_inj.mp hcon).symm) (Option.some_ne_none k').symm
      · rw [if_neg hz]
        exact h.registered k' z
  · rw [Shape.place_setPlace, Shape.list_setPlace]
    by_cases hk : k' = k
    · rw [if_pos hk]
      exact hp m z
    · rw [if_neg hk]
      exact h.listed k' m z

omit h in
theorem behind_mem {p : Option (ν × ι)} (m : ν) (z : ι) (hp : σ.behind p = some (m, z)) : z ∈ σ.list m := by
  obtain ⟨q, -, hq⟩ := Option.bind_eq_some_iff.mp hp
  obtain ⟨w, hw, hwz⟩ := Option.map_eq_some_iff.mp hq
  rw [Prod.mk.injEq] at hwz
  rw [← hwz.1, ← hwz.2]
  exact nextIn_mem hw

/-- An iterator leaves its item and enters the next one. -/
theorem advance {b : Bool} (hassert : s.AdvanceAsserts k) :
    Represents ((s.advance k).setIter k { (s.advance k).iter k with skipNextAdvanced := b })
      (σ.setPlace k ⟨σ.behind (σ.place k).item, b⟩) := by
  obtain ⟨x, hcur, hxk, hnextfree⟩ := hassert
  have hbehind := h.next_eq k
  rw [hcur, Option.bind_some] at hbehind
  have hleft := h.destroy (k := k) fun z hz => by
    rw [← Option.some_inj.mp (hcur.symm.trans hz)]
    exact hxk
  have hnone : ((s.destroy k).iter k).cur = none := by
    rw [PtrLists.destroy, iter_setIter, if_pos rfl]
  have hstood := hleft.stand (p := σ.behind (σ.place k).item) (b := b) hnone behind_mem fun z hz => ?_
  · rw [Shape.step, Shape.setPlace_setPlace, ← hbehind] at hstood
    rw [advance_eq hcur]
    exact hstood
  · rw [← hbehind] at hz
    rw [PtrLists.destroy, node_setIter, node_modifyNode?]
    split_ifs
    · rfl
    · exact hnextfree z hz

theorem begin_ (hassert : s.Asserts (.begin_ k l)) : Represents (s.begin_ k l) (σ.step (.begin_ k l)) := by
  have hfront : ((σ.list l).head?.map fun x => (l, x)).map Prod.snd = (s.list l).front := by
    rw [h.linked.front, Option.map_map]
    exact Option.map_id'
  have hstood := h.stand (p := (σ.list l).head?.map fun x => (l, x)) (b := false) hassert.1 (fun m z hp => ?_)
    (by rw [hfront]; exact hassert.2)
  · rw [hfront] at hstood
    rw [begin_eq]
    exact hstood
  · obtain ⟨y, hy, hyz⟩ := Option.map_eq_some_iff.mp hp
    rw [Prod.mk.injEq] at hyz
    rw [← hyz.1, ← hyz.2]
    exact List.mem_of_head? hy

theorem moveIter (hassert : s.Asserts (.move k other)) :
    Represents (s.moveIter k other) (σ.step (.move k other)) := by
  obtain ⟨hne, hnone, hreg⟩ := hassert
  have hstood := (h.destroy hreg).stand (k := k) (p := (σ.place other).item) (b := (σ.place other).moved) ?_
    (h.listed other) fun z hz => ?_
  · rw [Shape.step, ← h.cur_eq] at hstood
    rw [moveIter_eq hne, Shape.step, Shape.setPlace_comm hne]
    have hmoved : (s.iter other).skipNextAdvanced = (σ.place other).moved := by rw [h.iter]
    rw [hmoved]
    exact hstood
  · rw [PtrLists.destroy, iter_setIter, if_neg hne, iter_modifyNode?, hnone]
  · rw [← h.cur_eq] at hz
    rw [PtrLists.destroy, node_setIter, node_modifyNode?, if_pos hz]

theorem increment (hassert : s.Asserts (.increment k)) :
    Represents (s.increment k) (σ.step (.increment k)) := by
  have hmoved : (s.iter k).skipNextAdvanced = (σ.place k).moved := by rw [h.iter]
  unfold PtrLists.increment
  rw [Shape.step, hmoved]
  by_cases hskip : (σ.place k).moved = true
  · rw [if_pos hskip, if_pos hskip]
    refine ⟨h.linked.of_sameLinks sameLinks_setIter, fun k' => ?_, fun k' z => ?_, fun k' m z => ?_⟩
    · rw [iter_setIter, Shape.place_setPlace]
      by_cases hk : k' = k
      · rw [if_pos hk, if_pos hk]
        exact congrArg (PtrListIterator.mk · false) (h.cur_eq k)
      · rw [if_neg hk, if_neg hk, h.iter]
    · rw [iter_setIter, node_setIter, h.registered]
      by_cases hk : k' = k
      · rw [if_pos hk, hk]
      · rw [if_neg hk]
    · rw [Shape.place_setPlace, Shape.list_setPlace]
      by_cases hk : k' = k
      · rw [if_pos hk]
        exact h.listed k m z
      · rw [if_neg hk]
        exact h.listed k' m z
  · rw [if_neg hskip, if_neg hskip]
    rcases hassert with hcon | hassert
    · rw [hmoved] at hcon
      exact absurd hcon hskip
    · exact h.advance hassert

/-! #### Removals -/

/-- An item leaves on which no iterator stands. -/
theorem unlinkNode (hx : x ∈ σ.list l) (hfree : (s.node x).iter = none) (u : PtrLists ι ν κ)
    (hu : u.Linked (Function.update σ.list l ((σ.list l).erase x))) (hiter : u.iter = s.iter)
    (hnode : ∀ y, (u.node y).iter = if y = x then none else (s.node y).iter) :
    Represents u { σ with list := Function.update σ.list l ((σ.list l).erase x) } := by
  refine ⟨hu, fun k => ?_, fun k y => ?_, fun k m y hplace => ?_⟩
  · rw [hiter]
    exact h.iter k
  · rw [hiter, hnode, ← h.registered]
    by_cases hyx : y = x
    · rw [if_pos hyx, hyx, hfree]
    · rw [if_neg hyx]
  · have hy := h.listed k m y hplace
    dsimp only
    by_cases hm : m = l
    · subst hm
      rw [Function.update_self, (h.linked.nodup m).mem_erase_iff]
      refine ⟨?_, hy⟩
      rintro rfl
      have hcur := (h.cur_iff hy).mpr hplace
      rw [← h.registered, hfree] at hcur
      cases hcur
    · rw [Function.update_of_ne hm]
      exact hy

theorem erase (hassert : s.Asserts (.erase l x)) : Represents (s.erase l x) (σ.step (.erase l x)) := by
  have hx : x ∈ σ.list l := (h.linked.list_iff x l).mp hassert.1
  have hlinked := h.linked.erase hx
  have hiter : (s.erase l x).iter = (s.released x).iter := by
    rw [erase_eq, iter_setList, iter_unlinkNode]
  have hnode : ∀ y, ((s.erase l x).node y).iter = if y = x then none else ((s.released x).node y).iter := by
    intro y
    rw [erase_eq, node_setList, (h.linked.of_sameLinks sameLinks_released).node_unlinkNode]
    split_ifs <;> rfl
  suffices hr : Represents (s.released x) { σ with place := (σ.step (.erase l x)).place } ∧
      ((s.released x).node x).iter = none from hr.1.unlinkNode hx hr.2 _ hlinked hiter hnode
  cases hreg : (s.node x).iter with
  | none =>
    have hplace : (σ.step (.erase l x)).place = σ.place := by
      funext k
      refine if_neg fun hplace => ?_
      have hcur := (h.cur_iff hx).mpr hplace
      rw [← h.registered, hreg] at hcur
      cases hcur
    rw [released, hreg, hplace]
    exact ⟨h, hreg⟩
  | some k =>
    have hcur := (h.registered k x).mp hreg
    have hitem := (h.cur_iff hx).mp hcur
    have hplace : (σ.step (.erase l x)).place = (σ.setPlace k ⟨σ.behind (σ.place k).item, true⟩).place := by
      funext k'
      rw [Shape.place_setPlace, hitem]
      by_cases hk : k' = k
      · rw [if_pos hk, hk]
        exact if_pos hitem
      · rw [if_neg hk]
        exact if_neg fun hplace => hk (h.registered_unique hreg ((h.cur_iff hx).mpr hplace))
    rw [released, hreg, hplace]
    refine ⟨h.advance (b := true) (hassert.2 k hreg), ?_⟩
    dsimp only
    rw [itemUnlinked, advance_eq hcur, PtrLists.stand, node_setIter, node_modifyNode?, if_neg (h.not_next_self hx),
      PtrLists.destroy, node_setIter, node_modifyNode?, if_pos hcur]

/-! #### Pushes -/

omit h in
theorem iter_push_back : (s.push_back l x).iter = s.iter := by
  unfold push_back
  cases (s.list l).back with
  | none => rfl
  | some b =>
    dsimp only
    rw [iter_setList, apply_ite PtrLists.iter, updateFront, linkAfter]
    simp only [iter_modifyNode, iter_modifyNode?, ite_self]

omit h in
theorem iter_push_front : (s.push_front l x).iter = s.iter := by
  unfold push_front
  cases (s.list l).front with
  | none => rfl
  | some b =>
    dsimp only
    rw [iter_setList, linkBefore]
    simp only [iter_modifyNode, iter_modifyNode?]

omit h in
theorem mem_update_of_imp {c : ν → List ι} {new : List ι} (hnew : ∀ x ∈ c l, x ∈ new) (m : ν) (x : ι)
    (hx : x ∈ c m) : x ∈ Function.update c l new m := by
  by_cases hm : m = l
  · rw [hm, Function.update_self]
    exact hnew x (hm ▸ hx)
  · rw [Function.update_of_ne hm]
    exact hx

theorem push_back (hx : (s.node x).list = none) : Represents (s.push_back l x) (σ.step (.pushBack l x)) := by
  refine h.push _ _ (h.linked.push_back hx) iter_push_back (fun y => ?_) (mem_update_of_imp fun y hy =>
    List.mem_append_left _ hy)
  rw [h.linked.node_push_back hx]
  by_cases hyx : y = x
  · rw [if_pos hyx, hyx]
  · rw [if_neg hyx]
    split_ifs <;> rfl

theorem push_front (hx : (s.node x).list = none) : Represents (s.push_front l x) (σ.step (.pushFront l x)) := by
  refine h.push _ _ (h.linked.push_front hx) iter_push_front (fun y => ?_) (mem_update_of_imp fun y hy =>
    List.mem_cons_of_mem x hy)
  rw [h.linked.node_push_front hx]
  by_cases hyx : y = x
  · rw [if_pos hyx, hyx]
  · rw [if_neg hyx]
    split_ifs <;> rfl

/-- Each action does to the pointers what it stands for. -/
theorem perform {a : PtrListAction ι ν κ} (hassert : s.Asserts a) : Represents (s.perform a) (σ.step a) := by
  cases a with
  | pushBack l x => exact h.push_back hassert
  | pushFront l x => exact h.push_front hassert
  | erase l x => exact h.erase hassert
  | begin_ k l => exact h.begin_ hassert
  | increment k => exact h.increment hassert
  | destroy k => exact h.destroy hassert
  | move k other => exact h.moveIter hassert

omit h in
theorem performs (h : Represents s σ) {acts : List (PtrListAction ι ν κ)} (hacts : s.AllAssert acts) :
    Represents (s.performs acts) (σ.steps acts) := by
  induction acts generalizing s σ with
  | nil => exact h
  | cons a acts ih => exact ih (h.perform hacts.1) hacts.2

end Represents

theorem represents_empty : Represents ({} : PtrLists ι ν κ) {} where
  linked := linked_empty
  iter _ := rfl
  registered _ _ := iff_of_false (Option.some_ne_none _).symm (Option.some_ne_none _).symm
  listed _ _ _ hplace := absurd hplace (Option.some_ne_none _).symm

/-- **Runs.** In every run that meets the assertions, the links from the front of a list give its items and those from
the back give them the other way round, its size is their number, and `has` finds these. An iterator stands on an item of
the list where it has started. -/
theorem performs_represents {acts : List (PtrListAction ι ν κ)} (hacts : ({} : PtrLists ι ν κ).AllAssert acts) :
    let s := ({} : PtrLists ι ν κ).performs acts
    let σ := ({} : Shape ι ν κ).steps acts
    (∀ l, (σ.list l).Nodup ∧ (s.list l).size = (σ.list l).length ∧ (∀ x, s.has l x = decide (x ∈ σ.list l)) ∧
      ∀ n, (s.list l).size ≤ n → follow (fun x => (s.node x).next) n (s.list l).front = σ.list l ∧
        follow (fun x => (s.node x).prev) n (s.list l).back = (σ.list l).reverse) ∧
    ∀ k, (s.iter k).cur = (σ.place k).item.map Prod.snd ∧ ∀ l x, (σ.place k).item = some (l, x) → x ∈ σ.list l := by
  intro s σ
  have h : Represents s σ := represents_empty.performs hacts
  refine ⟨fun l => ⟨h.linked.nodup l, h.linked.size l, fun x => ?_, fun n hn => ?_⟩, fun k => ⟨h.cur_eq k, h.listed k⟩⟩
  · rw [has, decide_eq_decide]
    exact h.linked.list_iff x l
  · rw [h.linked.size] at hn
    rw [h.linked.front, h.linked.back]
    exact ⟨follow_nextIn (h.linked.nodup l) (fun x hx => h.linked.next_of_mem hx) hn,
      follow_prevIn (h.linked.nodup l) (fun x hx => h.linked.prev_of_mem hx) hn⟩

/-- Two items are pushed, an iterator stands on the first, and this one is erased. -/
theorem performs_represents_two :
    let s := ({} : PtrLists Nat Unit Unit).performs [.pushBack () 1, .pushFront () 0, .begin_ () (), .erase () 0]
    follow (fun x => (s.node x).next) 1 (s.list ()).front = [1] ∧ (s.iter ()).cur = some 1 := by
  have hacts : ({} : PtrLists Nat Unit Unit).AllAssert
      [.pushBack () 1, .pushFront () 0, .begin_ () (), .erase () 0] := by
    refine ⟨rfl, rfl, ⟨rfl, fun x hx => ?_⟩, ⟨rfl, fun k _ => ⟨0, rfl, rfl, fun y hy => ?_⟩⟩, trivial⟩
    · obtain rfl : 0 = x := Option.some_inj.mp hx
      rfl
    · obtain rfl : 1 = y := Option.some_inj.mp hy
      rfl
  obtain ⟨hlist, hiter⟩ := performs_represents hacts
  exact ⟨((hlist ()).2.2.2 1 (by decide)).1, (hiter ()).1⟩

end OpenVino.Vpu
