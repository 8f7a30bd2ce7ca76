import Mathlib
import OpenVino.Base.LinkedList
import OpenVino.Base.Runs

/-!
# Intrusive lists

`IntrusivePtrList`: the items hold the links, and the iterator that stands on an item is told when the item leaves its
list. `Linked` ties the links to lists; a push puts an item at an end (`Linked.push_back`, `Linked.push_front`), and a
removal takes it out (`Linked.erase`).
-/

set_option linter.unusedSectionVars false

namespace OpenVino.Vpu

/-! ### Nodes, lists and iterators -/

structure IntrusivePtrListNode (ι ν κ : Type) where
  list : Option ν := none
  iter : Option κ := none
  prev : Option ι := none
  next : Option ι := none

structure IntrusivePtrList (ι : Type) where
  front : Option ι := none
  back : Option ι := none
  size : Nat := 0

/-- `IntrusivePtrList::Iterator`. -/
structure PtrListIterator (ι : Type) where
  cur : Option ι := none
  skipNextAdvanced : Bool := false

/-- The nodes of the items `ι`, the lists `ν` that they can be in, and the iterators `κ`. -/
structure PtrLists (ι ν κ : Type) where
  node : ι → IntrusivePtrListNode ι ν κ := fun _ => {}
  list : ν → IntrusivePtrList ι := fun _ => {}
  iter : κ → PtrListIterator ι := fun _ => {}

namespace PtrLists

variable {ι ν κ : Type} [DecidableEq ι] [DecidableEq ν] [DecidableEq κ]

def modifyNode (s : PtrLists ι ν κ) (x : ι) (f : IntrusivePtrListNode ι ν κ → IntrusivePtrListNode ι ν κ) :
    PtrLists ι ν κ := { s with node := Function.update s.node x (f (s.node x)) }

def setList (s : PtrLists ι ν κ) (l : ν) (v : IntrusivePtrList ι) : PtrLists ι ν κ :=
  { s with list := Function.update s.list l v }

def setIter (s : PtrLists ι ν κ) (k : κ) (v : PtrListIterator ι) : PtrLists ι ν κ :=
  { s with iter := Function.update s.iter k v }

def modifyNode? (s : PtrLists ι ν κ) (x : Option ι)
    (f : IntrusivePtrListNode ι ν κ → IntrusivePtrListNode ι ν κ) : PtrLists ι ν κ :=
  match x with
  | none => s
  | some x => s.modifyNode x f

/-! ### Links -/

def linkBefore (s : PtrLists ι ν κ) (x nextNode : ι) : PtrLists ι ν κ :=
  let s := s.modifyNode x fun v => { v with prev := (s.node nextNode).prev, next := some nextNode }
  let s := s.modifyNode nextNode fun v => { v with prev := some x }
  let s := s.modifyNode? (s.node x).prev fun v => { v with next := some x }
  s.modifyNode x fun v => { v with list := (s.node nextNode).list }

def linkAfter (s : PtrLists ι ν κ) (x prevNode : ι) : PtrLists ι ν κ :=
  let s := s.modifyNode x fun v => { v with prev := some prevNode, next := (s.node prevNode).next }
  let s := s.modifyNode prevNode fun v => { v with next := some x }
  let s := s.modifyNode? (s.node x).next fun v => { v with prev := some x }
  s.modifyNode x fun v => { v with list := (s.node prevNode).list }

def updateFront (s : PtrLists ι ν κ) (x frontNode : ι) : PtrLists ι ν κ :=
  let s := s.modifyNode x fun v => { v with prev := some frontNode }
  s.modifyNode frontNode fun v => { v with next := some x }

/-! ### Iterators -/

/-- Only an iterator that stands on an item is advanced. -/
def advance (s : PtrLists ι ν κ) (k : κ) : PtrLists ι ν κ :=
  match (s.iter k).cur with
  | none => s
  | some cur =>
    let s := s.modifyNode cur fun v => { v with iter := none }
    match (s.node cur).next with
    | none => s.setIter k { s.iter k with cur := none }
    | some next => (s.modifyNode next fun v => { v with iter := some k }).setIter k { s.iter k with cur := some next }

def itemUnlinked (s : PtrLists ι ν κ) (k : κ) : PtrLists ι ν κ :=
  let s := s.advance k
  s.setIter k { s.iter k with skipNextAdvanced := true }

/-- `begin()`. -/
def begin_ (s : PtrLists ι ν κ) (k : κ) (l : ν) : PtrLists ι ν κ :=
  (s.setIter k { cur := (s.list l).front }).modifyNode? (s.list l).front fun v => { v with iter := some k }

/-- `operator++`. -/
def increment (s : PtrLists ι ν κ) (k : κ) : PtrLists ι ν κ :=
  let s := if (s.iter k).skipNextAdvanced then s else s.advance k
  s.setIter k { s.iter k with skipNextAdvanced := false }

/-- `~Iterator`. -/
def destroy (s : PtrLists ι ν κ) (k : κ) : PtrLists ι ν κ :=
  (s.modifyNode? (s.iter k).cur fun v => { v with iter := none }).setIter k {}

/-- `Iterator(Iterator&& other)`. -/
def moveIter (s : PtrLists ι ν κ) (k other : κ) : PtrLists ι ν κ :=
  ((s.modifyNode? (s.iter other).cur fun v => { v with iter := some k }).setIter k (s.iter other)).setIter other {}

/-! ### Lists -/

def push_back (s : PtrLists ι ν κ) (l : ν) (x : ι) : PtrLists ι ν κ :=
  match (s.list l).back with
  | none =>
    (s.modifyNode x fun v => { v with list := some l }).setList l ⟨some x, some x, (s.list l).size + 1⟩
  | some back =>
    let s' := s.linkAfter x back
    let s' := if (s.list l).front = (s.list l).back then s'.updateFront x back else s'
    s'.setList l { s.list l with back := some x, size := (s.list l).size + 1 }

def push_front (s : PtrLists ι ν κ) (l : ν) (x : ι) : PtrLists ι ν κ :=
  match (s.list l).front with
  | none =>
    (s.modifyNode x fun v => { v with list := some l }).setList l ⟨some x, some x, (s.list l).size + 1⟩
  | some front =>
    (s.linkBefore x front).setList l { s.list l with front := some x, size := (s.list l).size + 1 }

def unlink (s : PtrLists ι ν κ) (x : ι) : PtrLists ι ν κ :=
  let s := match (s.node x).iter with
    | none => s
    | some k => s.itemUnlinked k
  let prev := (s.node x).prev
  let next := (s.node x).next
  let s := s.modifyNode? prev fun v => if v.next = some x then { v with next } else v
  let s := s.modifyNode? next fun v => if v.prev = some x then { v with prev } else v
  s.modifyNode x fun _ => {}

def erase (s : PtrLists ι ν κ) (l : ν) (x : ι) : PtrLists ι ν κ :=
  let front := if (s.list l).front = some x then (s.node x).next else (s.list l).front
  let back := if (s.list l).back = some x then (s.node x).prev else (s.list l).back
  (s.setList l ⟨front, back, (s.list l).size - 1⟩).unlink x

def has (s : PtrLists ι ν κ) (l : ν) (x : ι) : Bool := (s.node x).list = some l

/-! ### What the pointers stand for -/

/-- The links of the items are those of the lists `c`. -/
structure Linked (s : PtrLists ι ν κ) (c : ν → List ι) : Prop where
  nodup : ∀ l, (c l).Nodup
  list_iff : ∀ x l, (s.node x).list = some l ↔ x ∈ c l
  front : ∀ l, (s.list l).front = (c l).head?
  back : ∀ l, (s.list l).back = (c l).getLast?
  size : ∀ l, (s.list l).size = (c l).length
  next_of_mem : ∀ {l x}, x ∈ c l → (s.node x).next = nextIn (c l) x
  prev_of_mem : ∀ {l x}, x ∈ c l → (s.node x).prev = prevIn (c l) x
  free : ∀ {x}, (s.node x).list = none → (s.node x).next = none ∧ (s.node x).prev = none

variable {s u : PtrLists ι ν κ} {c : ν → List ι} {l m : ν} {x y z : ι} {k : κ}

section Fields

variable {f : IntrusivePtrListNode ι ν κ → IntrusivePtrListNode ι ν κ} {o : Option ι} {v : IntrusivePtrList ι}
  {i : PtrListIterator ι}

@[simp] theorem node_modifyNode : (s.modifyNode x f).node y = if y = x then f (s.node x) else s.node y := by
  simp only [modifyNode, Function.update_apply]

@[simp] theorem list_modifyNode : (s.modifyNode x f).list = s.list := rfl

@[simp] theorem iter_modifyNode : (s.modifyNode x f).iter = s.iter := rfl

@[simp] theorem node_modifyNode? : (s.modifyNode? o f).node y = if o = some y then f (s.node y) else s.node y := by
  cases o with
  | none => rw [modifyNode?, if_neg (Option.some_ne_none y).symm]
  | some x =>
    rw [modifyNode?, node_modifyNode]
    by_cases hyx : y = x
    · rw [if_pos hyx, if_pos (congrArg some hyx.symm), hyx]
    · rw [if_neg hyx, if_neg fun h => hyx (Option.some_inj.mp h).symm]

@[simp] theorem list_modifyNode? : (s.modifyNode? o f).list = s.list := by
  cases o <;> rfl

@[simp] theorem iter_modifyNode? : (s.modifyNode? o f).iter = s.iter := by
  cases o <;> rfl

@[simp] theorem node_setList : (s.setList l v).node = s.node := rfl

@[simp] theorem iter_setList : (s.setList l v).iter = s.iter := rfl

@[simp] theorem list_setList : (s.setList l v).list m = if m = l then v else s.list m := by
  simp only [setList, Function.update_apply]

@[simp] theorem node_setIter : (s.setIter k i).node = s.node := rfl

@[simp] theorem list_setIter : (s.setIter k i).list = s.list := rfl

@[simp] theorem iter_setIter {k' : κ} : (s.setIter k i).iter k' = if k' = k then i else s.iter k' := by
  simp only [setIter, Function.update_apply]

end Fields

theorem linked_empty : ({} : PtrLists ι ν κ).Linked fun _ => [] where
  nodup _ := List.nodup_nil
  list_iff _ _ := iff_of_false (Option.some_ne_none _).symm List.not_mem_nil
  front _ := rfl
  back _ := rfl
  size _ := rfl
  next_of_mem h := by cases h
  prev_of_mem h := by cases h
  free _ := ⟨rfl, rfl⟩

section Linked

variable (h : s.Linked c)

include h

/-- An item is in one list at most. -/
theorem Linked.list_eq (hl : x ∈ c l) (hm : x ∈ c m) : l = m := by
  rw [← h.list_iff] at hl hm
  exact Option.some_inj.mp (hl.symm.trans hm)

theorem Linked.notMem (hx : (s.node x).list = none) (l : ν) : x ∉ c l := by
  intro hmem
  rw [← h.list_iff, hx] at hmem
  cases hmem

/-- The last item has no next one. -/
theorem Linked.next_last (hx : (c l).getLast? = some x) : (s.node x).next = none := by
  rw [h.next_of_mem (List.mem_of_getLast? hx)]
  obtain ⟨a, ha⟩ := List.getLast?_eq_some_iff.mp hx
  have hxa : x ∉ a := by
    have hnodup := h.nodup l
    rw [ha] at hnodup
    exact fun hxa => (List.nodup_append.mp hnodup).2.2 x hxa x (List.mem_singleton.mpr rfl) rfl
  rw [ha, nextIn_self hxa, List.head?_nil]

theorem Linked.prev_first (hx : (c l).head? = some x) : (s.node x).prev = none := by
  rw [h.prev_of_mem (List.mem_of_head? hx)]
  obtain ⟨a, ha⟩ := List.head?_eq_some_iff.mp hx
  have hxa : x ∉ a.reverse := by
    have hnodup := h.nodup l
    rw [ha] at hnodup
    rw [List.mem_reverse]
    exact (List.nodup_cons.mp hnodup).1
  rw [ha, prevIn, List.reverse_cons, nextIn_self hxa, List.head?_nil]

/-- One list is edited: its items have the links of the new contents, the ones that have left it have none, and the
others are as before. -/
theorem Linked.edit {new : List ι} (hnodup : new.Nodup) (hnew : ∀ y ∈ new, y ∉ c l → (s.node y).list = none)
    (hlist : ∀ y, (u.node y).list = if y ∈ new then some l else if y ∈ c l then none else (s.node y).list)
    (hhead : u.list l = ⟨new.head?, new.getLast?, new.length⟩) (hheads : ∀ m, m ≠ l → u.list m = s.list m)
    (hlinks : ∀ y ∈ new, (u.node y).next = nextIn new y ∧ (u.node y).prev = prevIn new y)
    (hgone : ∀ y ∈ c l, y ∉ new → (u.node y).next = none ∧ (u.node y).prev = none)
    (hrest : ∀ y, y ∉ c l → y ∉ new → (u.node y).next = (s.node y).next ∧ (u.node y).prev = (s.node y).prev) :
    u.Linked (Function.update c l new) := by
  have hself : Function.update c l new l = new := Function.update_self l new c
  have hother : ∀ {m}, m ≠ l → Function.update c l new m = c m := fun {m} hm => Function.update_of_ne hm new c
  -- an item of another list has kept its links
  have hkept : ∀ {y m}, m ≠ l → y ∈ c m → (u.node y).next = nextIn (c m) y ∧ (u.node y).prev = prevIn (c m) y := by
    intro y m hm hy
    have hyc : y ∉ c l := fun hyc => hm (h.list_eq hy hyc)
    have hynew : y ∉ new := fun hynew => by
      rw [← h.list_iff, hnew y hynew hyc] at hy
      cases hy
    obtain ⟨hnext, hprev⟩ := hrest y hyc hynew
    rw [hnext, hprev]
    exact ⟨h.next_of_mem hy, h.prev_of_mem hy⟩
  have hlinks' : ∀ {y m}, y ∈ Function.update c l new m →
      (u.node y).next = nextIn (Function.update c l new m) y ∧ (u.node y).prev = prevIn (Function.update c l new m) y := by
    intro y m hy
    by_cases hm : m = l
    · rw [hm, hself] at hy ⊢
      exact hlinks y hy
    · rw [hother hm] at hy ⊢
      exact hkept hm hy
  refine ⟨fun m => ?_, fun y m => ?_, fun m => ?_, fun m => ?_, fun m => ?_, fun hy => (hlinks' hy).1,
    fun hy => (hlinks' hy).2, fun {y} hfree => ?_⟩
  · by_cases hm : m = l
    · rw [hm, hself]
      exact hnodup
    · rw [hother hm]
      exact h.nodup m
  · rw [hlist]
    by_cases hm : m = l
    · subst hm
      rw [hself]
      split_ifs with hy hyc
      · exact iff_of_true rfl hy
      · exact iff_of_false not_false hy
      · exact iff_of_false (fun hcon => hyc ((h.list_iff y m).mp hcon)) hy
    · rw [hother hm, ← h.list_iff y m]
      split_ifs with hy hyc
      · refine iff_of_false (fun hcon => hm (Option.some_inj.mp hcon).symm) fun hcon => ?_
        by_cases hyc : y ∈ c l
        · exact hm (h.list_eq ((h.list_iff y m).mp hcon) hyc)
        · rw [hnew y hy hyc] at hcon
          cases hcon
      · exact iff_of_false not_false fun hcon => hm (h.list_eq ((h.list_iff y m).mp hcon) hyc)
      · exact Iff.rfl
  · by_cases hm : m = l
    · rw [hm, hself, hhead]
    · rw [hother hm, hheads m hm, h.front]
  · by_cases hm : m = l
    · rw [hm, hself, hhead]
    · rw [hother hm, hheads m hm, h.back]
  · by_cases hm : m = l
    · rw [hm, hself, hhead]
    · rw [hother hm, hheads m hm, h.size]
  · rw [hlist] at hfree
    split_ifs at hfree with hy hyc
    · exact hgone y hyc hy
    · obtain ⟨hnext, hprev⟩ := hrest y hyc hy
      rw [hnext, hprev]
      exact h.free hfree

/-- One item more. -/
theorem Linked.insert {new : List ι} (hx : (s.node x).list = none) (hmem : ∀ y, y ∈ new ↔ y = x ∨ y ∈ c l)
    (hnodup : new.Nodup) (hlist : ∀ y, (u.node y).list = if y = x then some l else (s.node y).list)
    (hhead : u.list l = ⟨new.head?, new.getLast?, new.length⟩) (hheads : ∀ m, m ≠ l → u.list m = s.list m)
    (hlinks : ∀ y ∈ new, (u.node y).next = nextIn new y ∧ (u.node y).prev = prevIn new y)
    (hrest : ∀ y, y ∉ c l → y ≠ x → (u.node y).next = (s.node y).next ∧ (u.node y).prev = (s.node y).prev) :
    u.Linked (Function.update c l new) := by
  refine h.edit hnodup (fun y hy hyc => ?_) (fun y => ?_) hhead hheads hlinks
    (fun y hy hcon => absurd ((hmem y).mpr (.inr hy)) hcon) fun y hyc hy => hrest y hyc fun hyx => hy ((hmem y).mpr (.inl hyx))
  · rcases (hmem y).mp hy with rfl | hcon
    · exact hx
    · exact absurd hcon hyc
  · rw [hlist]
    by_cases hyx : y = x
    · rw [if_pos hyx, if_pos ((hmem y).mpr (.inl hyx))]
    · rw [if_neg hyx]
      by_cases hyc : y ∈ c l
      · rw [if_pos ((hmem y).mpr (.inr hyc)), (h.list_iff y l).mpr hyc]
      · rw [if_neg (fun hy => ((hmem y).mp hy).elim hyx hyc), if_neg hyc]

/-! ### Pushes -/

theorem Linked.node_push_back (hx : (s.node x).list = none) (y : ι) : (s.push_back l x).node y =
    if y = x then { s.node x with list := some l, prev := (c l).getLast?, next := none }
    else if (c l).getLast? = some y then { s.node y with next := some x } else s.node y := by
  obtain ⟨hnext, hprev⟩ := h.free hx
  unfold push_back
  rw [h.back]
  cases hback : (c l).getLast? with
  | none =>
    simp only [node_setList, node_modifyNode]
    split_ifs with hyx hcon
    · simp [hnext, hprev]
    · cases hcon
    · rfl
  | some b =>
    have hb : (s.node b).list = some l := (h.list_iff b l).mpr (List.mem_of_getLast? hback)
    have hbx : b ≠ x := by
      rintro rfl
      rw [hx] at hb
      cases hb
    have hbnext := h.next_last hback
    have hlink : ∀ y, (s.linkAfter x b).node y =
        if y = x then { s.node x with list := some l, prev := some b, next := none }
        else if y = b then { s.node b with next := some x } else s.node y := by
      intro y
      unfold linkAfter
      simp only [node_modifyNode, node_modifyNode?, if_neg hbx.symm, if_neg hbx, if_true, hbnext]
      by_cases hyx : y = x
      · simp [hyx, hb]
      · simp [hyx]
    have hfront : ∀ y, ((s.linkAfter x b).updateFront x b).node y = (s.linkAfter x b).node y := by
      intro y
      unfold updateFront
      by_cases hyb : y = b
      · subst hyb
        simp [hlink, hbx]
      · by_cases hyx : y = x
        · subst hyx
          simp [hlink, hyb]
        · simp [hlink, hyb, hyx]
    have hnode : (if (s.list l).front = some b then (s.linkAfter x b).updateFront x b else s.linkAfter x b).node y =
        (s.linkAfter x b).node y := by
      split_ifs
      · exact hfront y
      · rfl
    dsimp only
    rw [node_setList, hnode, hlink]
    simp only [Option.some_inj, eq_comm (a := b)]
    split_ifs with hyx hyb
    · rfl
    · rw [hyb]
    · rfl

theorem Linked.list_push_back (m : ν) : (s.push_back l x).list m =
    if m = l then ⟨(c l ++ [x]).head?, some x, (c l).length + 1⟩ else s.list m := by
  unfold push_back
  rw [h.back, h.front, h.size]
  cases hback : (c l).getLast? with
  | none =>
    rw [List.getLast?_eq_none_iff.mp hback]
    simp
  | some b =>
    obtain ⟨a, ha⟩ := List.getLast?_eq_some_iff.mp hback
    have hfirst : (c l ++ [x]).head? = (c l).head? := by
      rw [ha]
      cases a <;> rfl
    have hlist : (s.linkAfter x b).list = s.list := by simp [linkAfter]
    have hlist' : ((s.linkAfter x b).updateFront x b).list = s.list := by simp [updateFront, hlist]
    simp only [list_setList, apply_ite PtrLists.list, hlist, hlist', ite_self, hfirst, ← h.front]

/-- **A push at the end.** -/
theorem Linked.push_back (hx : (s.node x).list = none) :
    (s.push_back l x).Linked (Function.update c l (c l ++ [x])) := by
  have hxl := h.notMem hx l
  have hnode := h.node_push_back (l := l) hx
  have hmem : ∀ y, y ∈ c l ++ [x] ↔ y = x ∨ y ∈ c l := fun y => by
    rw [List.mem_append, List.mem_singleton, or_comm]
  refine h.insert hx hmem ?_ (fun y => ?_) ?_ (fun m hm => ?_) (fun y hy => ?_) fun y hyl hyx => ?_
  · exact List.nodup_append.mpr ⟨h.nodup l, List.nodup_singleton x, fun y hy z hz => by
      rintro rfl
      exact hxl (List.mem_singleton.mp hz ▸ hy)⟩
  · rw [hnode]
    split_ifs <;> rfl
  · rw [h.list_push_back, if_pos rfl, List.getLast?_concat, List.length_append, List.length_singleton]
  · rw [h.list_push_back, if_neg hm]
  · rw [hnode, nextIn_concat (h.nodup l) hxl, prevIn_concat]
    by_cases hyx : y = x
    · subst hyx
      rw [if_pos rfl, if_neg fun hcon => hxl (List.mem_of_getLast? hcon), if_pos rfl, nextIn_of_notMem hxl]
      exact ⟨rfl, rfl⟩
    · have hyl := ((hmem y).mp hy).resolve_left hyx
      rw [if_neg hyx, if_neg (Ne.symm hyx)]
      split_ifs
      · exact ⟨rfl, h.prev_of_mem hyl⟩
      · exact ⟨h.next_of_mem hyl, h.prev_of_mem hyl⟩
  · rw [hnode, if_neg hyx, if_neg fun hcon => hyl (List.mem_of_getLast? hcon)]
    exact ⟨rfl, rfl⟩

theorem Linked.node_push_front (hx : (s.node x).list = none) (y : ι) : (s.push_front l x).node y =
    if y = x then { s.node x with list := some l, prev := none, next := (c l).head? }
    else if (c l).head? = some y then { s.node y with prev := some x } else s.node y := by
  obtain ⟨hnext, hprev⟩ := h.free hx
  unfold push_front
  rw [h.front]
  cases hfront : (c l).head? with
  | none =>
    simp only [node_setList, node_modifyNode]
    split_ifs with hyx hcon
    · simp [hnext, hprev]
    · cases hcon
    · rfl
  | some b =>
    have hb : (s.node b).list = some l := (h.list_iff b l).mpr (List.mem_of_head? hfront)
    have hbx : b ≠ x := by
      rintro rfl
      rw [hx] at hb
      cases hb
    have hbprev := h.prev_first hfront
    have hlink : (s.linkBefore x b).node y =
        if y = x then { s.node x with list := some l, prev := none, next := some b }
        else if y = b then { s.node b with prev := some x } else s.node y := by
      unfold linkBefore
      simp only [node_modifyNode, node_modifyNode?, if_neg hbx.symm, if_neg hbx, if_true, hbprev]
      by_cases hyx : y = x
      · simp [hyx, hb]
      · simp [hyx]
    dsimp only
    rw [node_setList, hlink]
    simp only [Option.some_inj, eq_comm (a := b)]
    split_ifs with hyx hyb
    · rfl
    · rw [hyb]
    · rfl

theorem Linked.list_push_front (m : ν) : (s.push_front l x).list m =
    if m = l then ⟨some x, (x :: c l).getLast?, (c l).length + 1⟩ else s.list m := by
  unfold push_front
  rw [h.front, h.size]
  cases hfront : (c l).head? with
  | none =>
    rw [List.head?_eq_none_iff.mp hfront]
    simp
  | some b =>
    obtain ⟨a, ha⟩ := List.head?_eq_some_iff.mp hfront
    have hlast : (x :: c l).getLast? = (c l).getLast? := by rw [ha, List.getLast?_cons_cons]
    have hlist : (s.linkBefore x b).list = s.list := by simp [linkBefore]
    simp only [list_setList, hlist, hlast, ← h.back]

/-- **A push at the front.** -/
theorem Linked.push_front (hx : (s.node x).list = none) :
    (s.push_front l x).Linked (Function.update c l (x :: c l)) := by
  have hxl := h.notMem hx l
  have hnode := h.node_push_front (l := l) hx
  refine h.insert hx (fun y => List.mem_cons) (List.nodup_cons.mpr ⟨hxl, h.nodup l⟩) (fun y => ?_) ?_ (fun m hm => ?_)
    (fun y hy => ?_) fun y hyl hyx => ?_
  · rw [hnode]
    split_ifs <;> rfl
  · rw [h.list_push_front, if_pos rfl, List.head?_cons, List.length_cons]
  · rw [h.list_push_front, if_neg hm]
  · rw [hnode, nextIn, prevIn_cons (h.nodup l) hxl]
    by_cases hyx : y = x
    · subst hyx
      rw [if_pos rfl, if_neg fun hcon => hxl (List.mem_of_head? hcon), if_pos rfl, prevIn_of_notMem hxl]
      exact ⟨rfl, rfl⟩
    · have hyl := (List.mem_cons.mp hy).resolve_left hyx
      rw [if_neg hyx, if_neg (Ne.symm hyx)]
      split_ifs
      · exact ⟨h.next_of_mem hyl, rfl⟩
      · exact ⟨h.next_of_mem hyl, h.prev_of_mem hyl⟩
  · rw [hnode, if_neg hyx, if_neg fun hcon => hyl (List.mem_of_head? hcon)]
    exact ⟨rfl, rfl⟩

end Linked

/-! ### Iterators and links -/

/-- The same links and lists, with other iterators. -/
structure SameLinks (s u : PtrLists ι ν κ) : Prop where
  list : u.list = s.list
  node : ∀ x, (u.node x).list = (s.node x).list ∧ (u.node x).prev = (s.node x).prev ∧ (u.node x).next = (s.node x).next

theorem SameLinks.trans {v : PtrLists ι ν κ} (h : SameLinks s u) (h' : SameLinks u v) : SameLinks s v := by
  refine ⟨h'.list.trans h.list, fun x => ?_⟩
  obtain ⟨hlist, hprev, hnext⟩ := h.node x
  obtain ⟨hlist', hprev', hnext'⟩ := h'.node x
  exact ⟨hlist'.trans hlist, hprev'.trans hprev, hnext'.trans hnext⟩

theorem sameLinks_modifyNode? {o : Option ι} {r : Option κ} :
    SameLinks s (s.modifyNode? o fun v => { v with iter := r }) := by
  refine ⟨list_modifyNode?, fun x => ?_⟩
  rw [node_modifyNode?]
  split_ifs <;> exact ⟨rfl, rfl, rfl⟩

theorem sameLinks_modifyNode {r : Option κ} : SameLinks s (s.modifyNode x fun v => { v with iter := r }) :=
  sameLinks_modifyNode? (o := some x)

theorem sameLinks_setIter {i : PtrListIterator ι} : SameLinks s (s.setIter k i) := ⟨rfl, fun _ => ⟨rfl, rfl, rfl⟩⟩

theorem sameLinks_advance : SameLinks s (s.advance k) := by
  unfold advance
  cases (s.iter k).cur with
  | none => exact ⟨rfl, fun _ => ⟨rfl, rfl, rfl⟩⟩
  | some cur =>
    dsimp only
    split
    · exact sameLinks_modifyNode.trans sameLinks_setIter
    · exact sameLinks_modifyNode.trans (sameLinks_modifyNode.trans sameLinks_setIter)

theorem sameLinks_itemUnlinked : SameLinks s (s.itemUnlinked k) := sameLinks_advance.trans sameLinks_setIter

theorem Linked.of_sameLinks (h : s.Linked c) (hsame : SameLinks s u) : u.Linked c where
  nodup := h.nodup
  list_iff x l := by rw [(hsame.node x).1, h.list_iff]
  front l := by rw [hsame.list, h.front]
  back l := by rw [hsame.list, h.back]
  size l := by rw [hsame.list, h.size]
  next_of_mem hx := by rw [(hsame.node _).2.2, h.next_of_mem hx]
  prev_of_mem hx := by rw [(hsame.node _).2.1, h.prev_of_mem hx]
  free hx := by
    rw [(hsame.node _).1] at hx
    rw [(hsame.node _).2.1, (hsame.node _).2.2]
    exact h.free hx

/-! ### Removals -/

/-- The iterator that stands on an item leaves it. -/
def released (s : PtrLists ι ν κ) (x : ι) : PtrLists ι ν κ :=
  match (s.node x).iter with
  | none => s
  | some k => s.itemUnlinked k

/-- `unlink` without the iterator. -/
def unlinkNode (s : PtrLists ι ν κ) (x : ι) : PtrLists ι ν κ :=
  let u := s.modifyNode? (s.node x).prev fun v => if v.next = some x then { v with next := (s.node x).next } else v
  let u := u.modifyNode? (s.node x).next fun v => if v.prev = some x then { v with prev := (s.node x).prev } else v
  u.modifyNode x fun _ => {}

theorem unlink_eq : s.unlink x = (s.released x).unlinkNode x := rfl

theorem sameLinks_released : SameLinks s (s.released x) := by
  unfold released
  split
  · exact ⟨rfl, fun _ => ⟨rfl, rfl, rfl⟩⟩
  · exact sameLinks_itemUnlinked

theorem released_setList {v : IntrusivePtrList ι} : (s.setList l v).released x = (s.released x).setList l v := by
  unfold released
  rw [node_setList]
  cases (s.node x).iter with
  | none => rfl
  | some k =>
    simp only [itemUnlinked, advance, iter_setList]
    cases (s.iter k).cur with
    | none => rfl
    | some cur =>
      dsimp only
      have hnext : (((s.setList l v).modifyNode cur fun v => { v with iter := none }).node cur).next =
          ((s.modifyNode cur fun v => { v with iter := none }).node cur).next := rfl
      rw [hnext]
      cases ((s.modifyNode cur fun v => { v with iter := none }).node cur).next <;> rfl

theorem unlinkNode_setList {v : IntrusivePtrList ι} : (s.setList l v).unlinkNode x = (s.unlinkNode x).setList l v := by
  unfold unlinkNode
  rw [node_setList]
  cases (s.node x).prev <;> cases (s.node x).next <;> rfl

theorem erase_eq : s.erase l x = ((s.released x).unlinkNode x).setList l
    ⟨if (s.list l).front = some x then (s.node x).next else (s.list l).front,
      if (s.list l).back = some x then (s.node x).prev else (s.list l).back, (s.list l).size - 1⟩ := by
  rw [erase, unlink_eq, released_setList, unlinkNode_setList]

theorem Linked.mem_of_links (h : s.Linked c) (hx : (s.node x).next ≠ none ∨ (s.node x).prev ≠ none) : ∃ l, x ∈ c l := by
  cases hl : (s.node x).list with
  | some l => exact ⟨l, (h.list_iff x l).mp hl⟩
  | none =>
    obtain ⟨hnext, hprev⟩ := h.free hl
    rw [hnext, hprev] at hx
    exact absurd rfl (hx.elim id id)

theorem Linked.next_eq_some_iff (h : s.Linked c) : (s.node y).next = some x ↔ (s.node x).prev = some y := by
  constructor
  · intro hnext
    obtain ⟨l, hl⟩ := h.mem_of_links (.inl (by rw [hnext]; exact Option.some_ne_none x))
    rw [h.next_of_mem hl] at hnext
    rw [h.prev_of_mem (nextIn_mem hnext)]
    exact (nextIn_eq_some_iff (h.nodup l)).mp hnext
  · intro hprev
    obtain ⟨l, hl⟩ := h.mem_of_links (.inr (by rw [hprev]; exact Option.some_ne_none y))
    rw [h.prev_of_mem hl, prevIn_eq_some_iff (h.nodup l)] at hprev
    rw [h.next_of_mem (mem_of_nextIn hprev)]
    exact hprev

theorem Linked.node_unlinkNode (h : s.Linked c) (y : ι) : (s.unlinkNode x).node y =
    if y = x then {} else { s.node y with
      next := if (s.node y).next = some x then (s.node x).next else (s.node y).next
      prev := if (s.node y).prev = some x then (s.node x).prev else (s.node y).prev } := by
  unfold unlinkNode
  simp only [node_modifyNode, node_modifyNode?]
  by_cases hyx : y = x
  · rw [if_pos hyx, if_pos hyx]
  · rw [if_neg hyx, if_neg hyx]
    simp only [← h.next_eq_some_iff (x := x), h.next_eq_some_iff (y := x)]
    by_cases hnext : (s.node y).next = some x
    · by_cases hprev : (s.node y).prev = some x
      · simp only [if_pos hnext, if_pos hprev]
      · simp only [if_pos hnext, if_neg hprev]
    · by_cases hprev : (s.node y).prev = some x
      · simp only [if_neg hnext, if_pos hprev]
      · simp only [if_neg hnext, if_neg hprev]

theorem list_unlinkNode : (s.unlinkNode x).list = s.list := by simp [unlinkNode]

theorem iter_unlinkNode : (s.unlinkNode x).iter = s.iter := by simp [unlinkNode]

/-- **A removal.** -/
theorem Linked.erase (h : s.Linked c) (hx : x ∈ c l) :
    (s.erase l x).Linked (Function.update c l ((c l).erase x)) := by
  have hr : (s.released x).Linked c := h.of_sameLinks sameLinks_released
  have hnode := fun y => hr.node_unlinkNode (x := x) y
  have hnodup := h.nodup l
  rw [erase_eq]
  refine hr.edit (hnodup.erase x) ?_ ?_ ?_ ?_ ?_ ?_ ?_
  · intro y hy hyc
    exact absurd (List.mem_of_mem_erase hy) hyc
  · intro y
    rw [node_setList, hnode]
    by_cases hyx : y = x
    · rw [if_pos hyx, if_neg fun hy => (hnodup.mem_erase_iff.mp hy).1 hyx, hyx, if_pos hx]
    · rw [if_neg hyx]
      by_cases hyl : y ∈ c l
      · rw [if_pos (hnodup.mem_erase_iff.mpr ⟨hyx, hyl⟩)]
        exact (hr.list_iff y l).mpr hyl
      · rw [if_neg fun hy => hyl (hnodup.mem_erase_iff.mp hy).2, if_neg hyl]
  · rw [list_setList, if_pos rfl, head?_erase, getLast?_erase hnodup, List.length_erase_of_mem hx, h.front, h.back,
      h.size, h.next_of_mem hx, h.prev_of_mem hx]
  · intro m hm
    rw [list_setList, if_neg hm, list_unlinkNode]
  · intro y hy
    obtain ⟨hyx, hyl⟩ := hnodup.mem_erase_iff.mp hy
    rw [node_setList, hnode, if_neg hyx, nextIn_erase hnodup hyx, prevIn_erase hnodup hyx, hr.next_of_mem hyl,
      hr.prev_of_mem hyl, hr.next_of_mem hx, hr.prev_of_mem hx]
    exact ⟨rfl, rfl⟩
  · intro y hyl hy
    have hyx : y = x := by
      by_contra hyx
      exact hy (hnodup.mem_erase_iff.mpr ⟨hyx, hyl⟩)
    rw [node_setList, hnode, if_pos hyx]
    exact ⟨rfl, rfl⟩
  · intro y hyl hy
    have hyx : y ≠ x := by
      rintro rfl
      exact hyl hx
    have hnext : ((s.released x).node y).next ≠ some x := by
      intro hnext
      have hxy := hr.next_eq_some_iff.mp hnext
      rw [hr.prev_of_mem hx] at hxy
      exact hyl (mem_of_nextIn ((prevIn_eq_some_iff hnodup).mp hxy))
    have hprev : ((s.released x).node y).prev ≠ some x := by
      intro hprev
      have hxy := hr.next_eq_some_iff.mpr hprev
      rw [hr.next_of_mem hx] at hxy
      exact hyl (nextIn_mem hxy)
    rw [node_setList, hnode, if_neg hyx]
    exact ⟨if_neg hnext, if_neg hprev⟩

end PtrLists

end OpenVino.Vpu
