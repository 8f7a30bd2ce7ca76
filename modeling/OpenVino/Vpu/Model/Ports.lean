import Mathlib.Data.List.Nodup
import Mathlib.Data.List.Basic
import Mathlib.Logic.Function.Basic

/-!
# Ports of stages

The edges between the stages of a model and their datas come in three kinds (inputs, outputs, temporary
buffers) that are kept alike: an edge knows its stage, its data and its index among the edges of the
stage, and while the stage is injected into another one, its edge is tied to an edge of that stage by
`parentEdge` and `childEdge`. `Ports` is one such kind: the edges that exist and, for each stage, the
list of its edges.

`Ports.Inv` is the invariant, relative to `inj`, which gives for an injected stage the stage it is
injected into. There is one lemma for each way in which the edges are changed: `inv_add`, `inv_setData`,
`inv_redirect`, `inv_clear` and `inv_revert`.
-/

namespace OpenVino.Vpu

abbrev StageId := Nat
abbrev DataId := Nat
abbrev EdgeId := Nat

/-- A `StageInputEdge` (`consumer`, `input`), a `StageOutputEdge` (`producer`, `output`) or a
`StageTempBufferEdge` (`stage`, `tempBuffer`). -/
structure PortEdge where
  stage : StageId
  data : DataId
  portInd : Nat
  parentEdge : Option EdgeId := none
  childEdge : Option EdgeId := none

/-- `edge` is the list of the model that owns the edges: a handle to an edge that is not in it has
expired, and compares equal to `nullptr`. -/
structure Ports where
  edge : EdgeId → Option PortEdge := fun _ => none
  ports : StageId → List EdgeId := fun _ => []
  nextEdge : EdgeId := 0

namespace Ports

variable {p : Ports} {s : StageId} {d : DataId} {e q : EdgeId} {r : PortEdge}

/-- A new edge at the end of the edges of `s`. -/
def add (p : Ports) (s : StageId) (d : DataId) : Ports where
  edge := Function.update p.edge p.nextEdge (some ⟨s, d, (p.ports s).length, none, none⟩)
  ports := Function.update p.ports s (p.ports s ++ [p.nextEdge])
  nextEdge := p.nextEdge + 1

def modify (p : Ports) (e : EdgeId) (f : PortEdge → PortEdge) : Ports :=
  { p with edge := Function.update p.edge e ((p.edge e).map f) }

def setData (p : Ports) (e : EdgeId) (d : DataId) : Ports := p.modify e fun r => { r with data := d }

/-- `e->_parentEdge = q; q->_childEdge = e;` -/
def tie (p : Ports) (e q : EdgeId) : Ports :=
  (p.modify e fun r => { r with parentEdge := some q }).modify q fun r => { r with childEdge := some e }

/-- `e->_parentEdge = nullptr;` -/
def untie (p : Ports) (e : EdgeId) : Ports := p.modify e fun r => { r with parentEdge := none }

/-- The edge leaves the list that owns it. -/
def erase (p : Ports) (e : EdgeId) : Ports := { p with edge := Function.update p.edge e none }

def setPorts (p : Ports) (s : StageId) (l : List EdgeId) : Ports :=
  { p with ports := Function.update p.ports s l }

/-- `for (int i = 0; …; ++i) edges[i]->_portInd = i;` on the rest of the edges from index `i` on. -/
def renumber (p : Ports) : List EdgeId → Nat → Ports
  | [], _ => p
  | e :: es, i => renumber (p.modify e fun r => { r with portInd := i }) es (i + 1)

/-- The record a handle leads to; `none` for a null or an expired handle. -/
def deref (p : Ports) (h : Option EdgeId) : Option PortEdge := h.bind p.edge

/-- The edge is in use for `d`: it exists and has not been redirected. -/
def Attached (p : Ports) (e : EdgeId) (d : DataId) : Prop :=
  ∃ r, p.edge e = some r ∧ r.data = d ∧ r.parentEdge = none

/-! ### The invariant -/

/-- The invariant while a list of edges is walked that still names the edges `gone`, erased on the way. -/
structure InvExcept (p : Ports) (inj : StageId → Option StageId) (gone : List EdgeId) : Prop where
  mem : ∀ s e, (e ∈ p.ports s ∧ e ∉ gone) ↔ ∃ r, p.edge e = some r ∧ r.stage = s
  nodup : ∀ s, (p.ports s).Nodup
  fresh : ∀ e r, p.edge e = some r → e < p.nextEdge
  /-- a redirected edge belongs to an injected stage and shares its data with its parent edge -/
  parent : ∀ e r q, p.edge e = some r → r.parentEdge = some q →
    ∃ rq, p.edge q = some rq ∧ rq.childEdge = some e ∧ rq.parentEdge = none ∧ rq.data = r.data ∧
      inj r.stage = some rq.stage
  child : ∀ q rq e, p.edge q = some rq → rq.childEdge = some e →
    ∃ r, p.edge e = some r ∧ r.parentEdge = some q
  portInd : ∀ s i e r, (p.ports s)[i]? = some e → p.edge e = some r → r.portInd = i

abbrev Inv (p : Ports) (inj : StageId → Option StageId) : Prop := InvExcept p inj []

variable {inj inj' : StageId → Option StageId} {gone : List EdgeId} {rq : PortEdge}

theorem inv_empty : Inv {} inj := by
  refine ⟨?_, ?_, ?_, ?_, ?_, ?_⟩ <;> simp

theorem InvExcept.mem_iff (h : p.Inv inj) : e ∈ p.ports s ↔ ∃ r, p.edge e = some r ∧ r.stage = s := by
  rw [← h.mem s e]
  simp

theorem InvExcept.edge_of_mem (h : p.Inv inj) (he : e ∈ p.ports s) : ∃ r, p.edge e = some r ∧ r.stage = s :=
  h.mem_iff.mp he

/-- An edge is in the list of one stage. -/
theorem InvExcept.ports_unique (h : p.Inv inj) {t : StageId} (hs : e ∈ p.ports s) (ht : e ∈ p.ports t) : t = s := by
  obtain ⟨r, hr, hrs⟩ := h.edge_of_mem hs
  obtain ⟨r', hr', hrt⟩ := h.edge_of_mem ht
  rw [hr] at hr'
  cases hr'
  exact hrt.symm.trans hrs

theorem InvExcept.mem_of_edge (h : p.Inv inj) (he : p.edge e = some r) : e ∈ p.ports r.stage :=
  h.mem_iff.mpr ⟨r, he, rfl⟩

theorem InvExcept.parentEdge_none (h : p.InvExcept inj gone) (he : p.edge e = some r)
    (hs : inj r.stage = none) : r.parentEdge = none := by
  cases hp : r.parentEdge with
  | none => rfl
  | some q =>
    obtain ⟨rq, -, -, -, -, hinj⟩ := h.parent e r q he hp
    rw [hs] at hinj
    cases hinj

/-- A handle to a parent or child edge has not expired. -/
theorem InvExcept.parentEdge_of_deref (h : p.InvExcept inj gone) (he : p.edge e = some r)
    (hp : p.deref r.parentEdge = none) : r.parentEdge = none := by
  cases hq : r.parentEdge with
  | none => rfl
  | some q =>
    obtain ⟨rq, hrq, -⟩ := h.parent e r q he hq
    rw [hq, deref, Option.bind_some, hrq] at hp
    cases hp

theorem InvExcept.childEdge_of_deref (h : p.InvExcept inj gone) (he : p.edge e = some r)
    (hc : p.deref r.childEdge = none) : r.childEdge = none := by
  cases hq : r.childEdge with
  | none => rfl
  | some q =>
    obtain ⟨rq, hrq, -⟩ := h.child e r q he hq
    rw [hq, deref, Option.bind_some, hrq] at hc
    cases hc

/-- The tied edges know each other. -/
theorem InvExcept.tied (h : p.InvExcept inj gone) (hq : p.edge q = some rq) (hc : rq.childEdge = some e) :
    ∃ r, p.edge e = some r ∧ r.parentEdge = some q ∧ rq.parentEdge = none ∧ rq.data = r.data ∧
      inj r.stage = some rq.stage := by
  obtain ⟨r, he, hparent⟩ := h.child q rq e hq hc
  obtain ⟨rq', hq', -, hnone, hdata, hinj⟩ := h.parent e r q he hparent
  rw [hq] at hq'
  cases hq'
  exact ⟨r, he, hparent, hnone, hdata, hinj⟩

/-- A stage without injected stages has no edge that another edge is tied to. -/
theorem InvExcept.childEdge_none (h : p.InvExcept inj gone) (he : p.edge e = some r)
    (hs : ∀ c, inj c ≠ some r.stage) : r.childEdge = none := by
  cases hc : r.childEdge with
  | none => rfl
  | some e' =>
    obtain ⟨r', -, -, -, -, hinj⟩ := h.tied he hc
    exact absurd hinj (hs _)

/-- More stages are injected. -/
theorem InvExcept.inject (h : p.InvExcept inj gone) (hinj : ∀ s t, inj s = some t → inj' s = some t) : p.InvExcept inj' gone where
  mem := h.mem
  nodup := h.nodup
  fresh := h.fresh
  parent e r q he hp := by
    obtain ⟨rq, hq, hc, hn, hd, hi⟩ := h.parent e r q he hp
    exact ⟨rq, hq, hc, hn, hd, hinj _ _ hi⟩
  child := h.child
  portInd := h.portInd

/-! ### Adding and changing edges -/

@[simp] theorem ports_modify (f : PortEdge → PortEdge) : (p.modify e f).ports = p.ports := rfl

@[simp] theorem nextEdge_modify (f : PortEdge → PortEdge) : (p.modify e f).nextEdge = p.nextEdge := rfl

theorem edge_modify (f : PortEdge → PortEdge) (x : EdgeId) :
    (p.modify e f).edge x = if x = e then (p.edge x).map f else p.edge x := by
  unfold modify
  by_cases h : x = e
  · subst h
    simp
  · simp [h]

theorem stage_setData (x : EdgeId) :
    ((p.setData e d).edge x).map PortEdge.stage = (p.edge x).map PortEdge.stage := by
  rw [setData, edge_modify]
  split_ifs
  · rw [Option.map_map]
    rfl
  · rfl

theorem stage_tie (x : EdgeId) :
    ((p.tie e q).edge x).map PortEdge.stage = (p.edge x).map PortEdge.stage := by
  rw [tie, edge_modify, edge_modify]
  split_ifs <;> simp only [Option.map_map] <;> rfl

theorem edge_add (x : EdgeId) :
    (p.add s d).edge x = if x = p.nextEdge then some ⟨s, d, (p.ports s).length, none, none⟩ else p.edge x := by
  unfold add
  by_cases h : x = p.nextEdge
  · subst h
    simp
  · simp [h]

theorem ports_add (t : StageId) :
    (p.add s d).ports t = if t = s then p.ports t ++ [p.nextEdge] else p.ports t := by
  unfold add
  by_cases h : t = s
  · subst h
    simp
  · simp [h]

theorem InvExcept.edge_nextEdge (h : p.InvExcept inj gone) : p.edge p.nextEdge = none := by
  cases he : p.edge p.nextEdge with
  | none => rfl
  | some r => exact absurd (h.fresh _ r he) (Nat.lt_irrefl _)

/-- The old edges are not changed by a new one. -/
theorem InvExcept.edge_add_old (h : p.InvExcept inj gone) (he : p.edge e = some r) :
    (p.add s d).edge e = some r := by
  have hne : e ≠ p.nextEdge := Nat.ne_of_lt (h.fresh e r he)
  rw [edge_add, if_neg hne, he]

theorem InvExcept.attached_add (h : p.InvExcept inj gone) {x : EdgeId} {d' : DataId} :
    (p.add s d).Attached x d' ↔ (x = p.nextEdge ∧ d' = d) ∨ p.Attached x d' := by
  unfold Attached
  rw [edge_add]
  by_cases hx : x = p.nextEdge
  · subst hx
    simp [h.edge_nextEdge, eq_comm]
  · simp [hx]

theorem inv_add (h : p.Inv inj) : (p.add s d).Inv inj where
  mem t e := by
    simp only [List.not_mem_nil, not_false_eq_true, and_true, edge_add, ports_add]
    by_cases he : e = p.nextEdge
    · subst he
      have hnew : ∀ t, p.nextEdge ∉ p.ports t := by
        intro t hmem
        obtain ⟨r, hr, -⟩ := h.edge_of_mem hmem
        rw [h.edge_nextEdge] at hr
        cases hr
      by_cases ht : t = s
      · subst ht
        simp
      · have hts : ¬ s = t := fun hst => ht hst.symm
        simp [ht, hts, hnew t]
    · rw [if_neg he, ← h.mem_iff]
      by_cases ht : t = s <;> simp [ht, he]
  nodup t := by
    rw [ports_add]
    by_cases ht : t = s
    · rw [if_pos ht, ← List.concat_eq_append]
      refine (h.nodup t).concat fun hmem => ?_
      obtain ⟨r, hr, -⟩ := h.edge_of_mem hmem
      rw [h.edge_nextEdge] at hr
      cases hr
    · rw [if_neg ht]
      exact h.nodup t
  fresh e r he := by
    rw [edge_add] at he
    split_ifs at he with hnew
    · exact hnew ▸ Nat.lt_succ_self _
    · exact Nat.lt_succ_of_lt (h.fresh e r he)
  parent e r q he hp := by
    rw [edge_add] at he
    split_ifs at he with hnew
    · cases he
      cases hp
    · obtain ⟨rq, hq, hrest⟩ := h.parent e r q he hp
      exact ⟨rq, h.edge_add_old hq, hrest⟩
  child q rq e hq hc := by
    rw [edge_add] at hq
    split_ifs at hq with hnew
    · cases hq
      cases hc
    · obtain ⟨r, he, hp⟩ := h.child q rq e hq hc
      exact ⟨r, h.edge_add_old he, hp⟩
  portInd t i e r hget he := by
    rw [ports_add] at hget
    rw [edge_add] at he
    split_ifs at he with hnew
    · cases he
      -- the new edge is the last one of `s`
      split_ifs at hget with ht
      · rw [List.getElem?_append] at hget
        split_ifs at hget with hlt
        · obtain ⟨r, hr, -⟩ := h.edge_of_mem (List.mem_of_getElem? hget)
          rw [hnew, h.edge_nextEdge] at hr
          cases hr
        · have hi : i - (p.ports t).length = 0 := by
            by_contra hpos
            rw [List.getElem?_eq_none (by simp; omega)] at hget
            cases hget
          simp only [← ht]
          omega
      · obtain ⟨r, hr, -⟩ := h.edge_of_mem (List.mem_of_getElem? hget)
        rw [hnew, h.edge_nextEdge] at hr
        cases hr
    · split_ifs at hget with ht
      · rw [List.getElem?_append] at hget
        split_ifs at hget with hlt
        · exact h.portInd t i e r hget he
        · have hmem := List.mem_singleton.mp (List.mem_of_getElem? hget)
          exact absurd hmem hnew
      · exact h.portInd t i e r hget he

theorem attached_setData (he : p.edge e = some r) (hp : r.parentEdge = none) {x : EdgeId} {d' : DataId} :
    (p.setData e d).Attached x d' ↔ (x = e ∧ d' = d) ∨ (x ≠ e ∧ p.Attached x d') := by
  unfold Attached
  rw [setData, edge_modify]
  by_cases hx : x = e
  · subst hx
    simp [he, hp, eq_comm]
  · simp [hx]

/-- The data of an edge outside an injection is replaced. -/
theorem inv_setData (h : p.Inv inj) (he : p.edge e = some r) (hp : r.parentEdge = none)
    (hc : r.childEdge = none) : (p.setData e d).Inv inj where
  mem t x := by
    simp only [List.not_mem_nil, not_false_eq_true, and_true, setData, edge_modify]
    by_cases hx : x = e
    · subst hx
      rw [if_pos rfl, he]
      have := h.mem_iff (s := t) (e := x)
      rw [he] at this
      simpa using this
    · rw [if_neg hx]
      exact h.mem_iff
  nodup := h.nodup
  fresh x rx hx := by
    rw [setData, edge_modify] at hx
    split_ifs at hx with hxe
    · subst hxe
      exact h.fresh x r he
    · exact h.fresh x rx hx
  parent x rx q hx hpx := by
    rw [setData, edge_modify] at hx
    split_ifs at hx with hxe
    · subst hxe
      rw [he] at hx
      cases hx
      rw [hp] at hpx
      cases hpx
    · obtain ⟨rq, hq, hcq, hrest⟩ := h.parent x rx q hx hpx
      have hqe : q ≠ e := by
        rintro rfl
        rw [he] at hq
        cases hq
        rw [hc] at hcq
        cases hcq
      exact ⟨rq, by rw [setData, edge_modify, if_neg hqe, hq], hcq, hrest⟩
  child q rq x hq hcq := by
    rw [setData, edge_modify] at hq
    split_ifs at hq with hqe
    · subst hqe
      rw [he] at hq
      cases hq
      rw [hc] at hcq
      cases hcq
    · obtain ⟨rx, hx, hpx⟩ := h.child q rq x hq hcq
      have hxe : x ≠ e := by
        rintro rfl
        rw [he] at hx
        cases hx
        rw [hp] at hpx
        cases hpx
      exact ⟨rx, by rw [setData, edge_modify, if_neg hxe, hx], hpx⟩
  portInd t i x rx hget hx := by
    rw [setData, edge_modify] at hx
    split_ifs at hx with hxe
    · subst hxe
      rw [he] at hx
      cases hx
      exact h.portInd t i x r hget he
    · exact h.portInd t i x rx hget hx

theorem edge_redirect (he : p.edge e = some r) (hne : e ≠ p.nextEdge) (x : EdgeId) :
    ((p.add s r.data).tie e p.nextEdge).edge x =
      if x = p.nextEdge then some ⟨s, r.data, (p.ports s).length, none, some e⟩
      else if x = e then some { r with parentEdge := some p.nextEdge } else p.edge x := by
  rw [tie, edge_modify, edge_modify, edge_add]
  by_cases hx : x = p.nextEdge
  · subst hx
    simp [Ne.symm hne]
  · by_cases hxe : x = e
    · subst hxe
      simp [hx, he]
    · simp [hx, hxe]

theorem InvExcept.attached_redirect (h : p.InvExcept inj gone) (he : p.edge e = some r) {x : EdgeId}
    {d' : DataId} : ((p.add s r.data).tie e p.nextEdge).Attached x d' ↔
      (x = p.nextEdge ∧ d' = r.data) ∨ (x ≠ e ∧ p.Attached x d') := by
  unfold Attached
  rw [edge_redirect he (Nat.ne_of_lt (h.fresh e r he))]
  by_cases hx : x = p.nextEdge
  · subst hx
    simp [h.edge_nextEdge, eq_comm]
  · by_cases hxe : x = e
    · subst hxe
      simp [hx]
    · simp [hx, hxe]

/-- An edge of an injected stage is redirected to a new edge of the stage it is injected into. -/
theorem inv_redirect (h : p.Inv inj) (he : p.edge e = some r) (hp : r.parentEdge = none)
    (hc : r.childEdge = none) (hinj : inj r.stage = some s) :
    ((p.add s r.data).tie e p.nextEdge).Inv inj := by
  have hadd : (p.add s r.data).Inv inj := inv_add h
  have hne : e ≠ p.nextEdge := Nat.ne_of_lt (h.fresh e r he)
  have hedge := edge_redirect (s := s) he hne
  have hold : ∀ x rx, p.edge x = some rx → x ≠ p.nextEdge := fun x rx hx => Nat.ne_of_lt (h.fresh x rx hx)
  refine ⟨fun t x => ?_, hadd.nodup, fun x rx hx => ?_, fun x rx q hx hpx => ?_, fun q rq x hq hcq => ?_,
    fun t i x rx hget hx => ?_⟩
  · have := hadd.mem t x
    rw [edge_add] at this
    refine this.trans ?_
    rw [hedge]
    by_cases hx : x = p.nextEdge
    · subst hx
      simp
    · by_cases hxe : x = e
      · subst hxe
        simp [hx, he]
      · simp [hx, hxe]
  · rw [hedge] at hx
    show x < p.nextEdge + 1
    split_ifs at hx with hnew hxe
    · exact lt_of_eq_of_lt hnew (Nat.lt_succ_self _)
    · exact Nat.lt_succ_of_lt (hxe ▸ h.fresh e r he)
    · exact Nat.lt_succ_of_lt (h.fresh x rx hx)
  · rw [hedge] at hx
    split_ifs at hx with hnew hxe
    · cases hx
      cases hpx
    · cases hx
      cases hpx
      refine ⟨⟨s, r.data, (p.ports s).length, none, some e⟩, ?_, ?_, rfl, rfl, hinj⟩
      · rw [hedge, if_pos rfl]
      · rw [hxe]
    · obtain ⟨rq, hq, hcq, hrest⟩ := h.parent x rx q hx hpx
      have hqe : q ≠ e := by
        rintro rfl
        rw [he] at hq
        cases hq
        rw [hc] at hcq
        cases hcq
      exact ⟨rq, by rw [hedge, if_neg (hold q rq hq), if_neg hqe, hq], hcq, hrest⟩
  · rw [hedge] at hq
    split_ifs at hq with hnew hqe
    · cases hq
      cases hcq
      refine ⟨{ r with parentEdge := some p.nextEdge }, ?_, by rw [hnew]⟩
      rw [hedge, if_neg hne, if_pos rfl]
    · cases hq
      rw [hc] at hcq
      cases hcq
    · obtain ⟨rx, hx, hpx⟩ := h.child q rq x hq hcq
      have hxe : x ≠ e := by
        rintro rfl
        rw [he] at hx
        cases hx
        rw [hp] at hpx
        cases hpx
      exact ⟨rx, by rw [hedge, if_neg (hold x rx hx), if_neg hxe, hx], hpx⟩
  · rw [hedge] at hx
    have hadd_ind := hadd.portInd t i x
    split_ifs at hx with hnew hxe
    · cases hx
      exact hadd_ind ⟨s, r.data, (p.ports s).length, none, none⟩ hget (by rw [edge_add, if_pos hnew])
    · cases hx
      exact hadd_ind r hget (by rw [edge_add, if_neg (hxe ▸ hne), hxe, he])
    · exact hadd_ind _ hget (by rw [edge_add, if_neg hnew, hx])

/-! ### Taking edges away -/

theorem edge_erase (x : EdgeId) : (p.erase e).edge x = if x = e then none else p.edge x := by
  unfold erase
  by_cases h : x = e
  · subst h
    simp
  · simp [h]

theorem attached_erase {x : EdgeId} : (p.erase e).Attached x d ↔ x ≠ e ∧ p.Attached x d := by
  unfold Attached
  rw [edge_erase]
  by_cases hx : x = e <;> simp [hx]

/-- An edge outside an injection is erased; the list of its stage still names it. -/
theorem inv_erase (h : p.InvExcept inj gone) (he : p.edge e = some r) (hp : r.parentEdge = none)
    (hc : r.childEdge = none) : (p.erase e).InvExcept inj (e :: gone) where
  mem t x := by
    rw [edge_erase, List.mem_cons, not_or]
    have := h.mem t x
    by_cases hx : x = e
    · simp [hx]
    · rw [if_neg hx, ← this]
      simp only [hx, not_false_eq_true, true_and]
      rfl
  nodup := h.nodup
  fresh x rx hx := by
    rw [edge_erase] at hx
    split_ifs at hx
    exact h.fresh x rx hx
  parent x rx q hx hpx := by
    rw [edge_erase] at hx
    split_ifs at hx with hxe
    obtain ⟨rq, hq, hcq, hrest⟩ := h.parent x rx q hx hpx
    have hqe : q ≠ e := by
      rintro rfl
      rw [he] at hq
      cases hq
      rw [hc] at hcq
      cases hcq
    exact ⟨rq, by rw [edge_erase, if_neg hqe, hq], hcq, hrest⟩
  child q rq x hq hcq := by
    rw [edge_erase] at hq
    split_ifs at hq with hqe
    obtain ⟨rx, hx, hpx⟩ := h.child q rq x hq hcq
    have hxe : x ≠ e := by
      rintro rfl
      rw [he] at hx
      cases hx
      rw [hp] at hpx
      cases hpx
    exact ⟨rx, by rw [edge_erase, if_neg hxe, hx], hpx⟩
  portInd t i x rx hget hx := by
    rw [edge_erase] at hx
    split_ifs at hx
    exact h.portInd t i x rx hget hx

/-- The edge `q` goes, and the edge `e` tied to it is in use again. -/
def release (p : Ports) (q e : EdgeId) : Ports := (p.untie e).erase q

theorem edge_release (he : p.edge e = some r) (x : EdgeId) :
    (p.release q e).edge x =
      if x = q then none else if x = e then some { r with parentEdge := none } else p.edge x := by
  rw [release, edge_erase, untie, edge_modify]
  by_cases hxe : x = e
  · subst hxe
    simp [he]
  · simp [hxe]

theorem attached_release (he : p.edge e = some r) (hp : r.parentEdge = some q) (hne : e ≠ q) {x : EdgeId} :
    (p.release q e).Attached x d ↔ (x = e ∧ d = r.data) ∨ (x ≠ q ∧ p.Attached x d) := by
  unfold Attached
  rw [edge_release he]
  by_cases hxe : x = e
  · subst hxe
    simp [hne, he, hp, eq_comm]
  · by_cases hxq : x = q <;> simp [hxq, hxe, Ne.symm hne]

/-- An edge of the stage that has others injected into it and the edge tied to it part. -/
theorem inv_release (h : p.InvExcept inj gone) (hq : p.edge q = some rq) (hc : rq.childEdge = some e) :
    (p.release q e).InvExcept inj (q :: gone) := by
  obtain ⟨r, he, hp, hpq, hdata, hinj⟩ := h.tied hq hc
  have hne : e ≠ q := by
    rintro rfl
    rw [he] at hq
    cases hq
    rw [hp] at hpq
    cases hpq
  have hedge := edge_release (q := q) he
  have hstage : ∀ x t, (∃ rx, (p.release q e).edge x = some rx ∧ rx.stage = t) ↔
      x ≠ q ∧ ∃ rx, p.edge x = some rx ∧ rx.stage = t := by
    intro x t
    rw [hedge]
    by_cases hxq : x = q
    · simp [hxq]
    · by_cases hxe : x = e
      · subst hxe
        simp [hxq, he]
      · simp [hxq, hxe]
  refine ⟨fun t x => ?_, h.nodup, fun x rx hx => ?_, fun x rx q' hx hpx => ?_, fun q' rq' x hq' hcq => ?_,
    fun t i x rx hget hx => ?_⟩
  · rw [hstage, ← h.mem t x, List.mem_cons, not_or]
    show (x ∈ p.ports t ∧ _) ↔ _
    tauto
  · rw [hedge] at hx
    split_ifs at hx with hxq hxe
    · exact hxe ▸ h.fresh e r he
    · exact h.fresh x rx hx
  · rw [hedge] at hx
    split_ifs at hx with hxq hxe
    · cases hx
      cases hpx
    · obtain ⟨rq', hq', hcq', hpq', hrest⟩ := h.parent x rx q' hx hpx
      have hqq : q' ≠ q := by
        rintro rfl
        rw [hq] at hq'
        cases hq'
        rw [hc] at hcq'
        cases hcq'
        exact hxe rfl
      have hqe : q' ≠ e := by
        rintro rfl
        rw [he] at hq'
        cases hq'
        rw [hp] at hpq'
        cases hpq'
      exact ⟨rq', by rw [hedge, if_neg hqq, if_neg hqe, hq'], hcq', hpq', hrest⟩
  · rw [hedge] at hq'
    split_ifs at hq' with hqq hqe
    · cases hq'
      obtain ⟨rx, hx, hpx⟩ := h.child e r x he hcq
      -- the child of `e` would be tied to an edge with a parent edge
      obtain ⟨rq', hq', -, hnone, -⟩ := h.parent x rx e hx hpx
      rw [he] at hq'
      cases hq'
      rw [hp] at hnone
      cases hnone
    · obtain ⟨rx, hx, hpx⟩ := h.child q' rq' x hq' hcq
      have hxe : x ≠ e := by
        rintro rfl
        rw [he] at hx
        cases hx
        rw [hp] at hpx
        cases hpx
        exact hqq rfl
      have hxq : x ≠ q := by
        rintro rfl
        rw [hq] at hx
        cases hx
        rw [hpq] at hpx
        cases hpx
      exact ⟨rx, by rw [hedge, if_neg hxq, if_neg hxe, hx], hpx⟩
  · rw [hedge] at hx
    split_ifs at hx with hxq hxe
    · cases hx
      subst hxe
      exact h.portInd t i x r hget he
    · exact h.portInd t i x rx hget hx

theorem ports_renumber (l : List EdgeId) (i : Nat) : (p.renumber l i).ports = p.ports := by
  induction l generalizing p i with
  | nil => rfl
  | cons x l ih => exact (ih (i + 1)).trans rfl

theorem nextEdge_renumber (l : List EdgeId) (i : Nat) : (p.renumber l i).nextEdge = p.nextEdge := by
  induction l generalizing p i with
  | nil => rfl
  | cons x l ih => exact (ih (i + 1)).trans rfl

theorem edge_renumber {l : List EdgeId} (hl : l.Nodup) (i : Nat) (x : EdgeId) :
    (p.renumber l i).edge x =
      if x ∈ l then (p.edge x).map fun r => { r with portInd := i + l.idxOf x } else p.edge x := by
  induction l generalizing p i with
  | nil => simp [renumber]
  | cons y l ih =>
    obtain ⟨hy, hl⟩ := List.nodup_cons.mp hl
    rw [renumber, ih hl, edge_modify]
    by_cases hx : x = y
    · subst hx
      simp [hy]
    · by_cases hxl : x ∈ l
      · have hidx : i + 1 + l.idxOf x = i + (l.idxOf x + 1) := by omega
        simp [hx, hxl, List.idxOf_cons_ne _ (Ne.symm hx), hidx]
      · simp [hx, hxl]

/-- The list of a stage loses the edges that are gone, and what is left is numbered anew. -/
def close (p : Ports) (s : StageId) (l : List EdgeId) : Ports := (p.setPorts s l).renumber l 0

theorem edge_close {l : List EdgeId} (hl : l.Nodup) (x : EdgeId) :
    (p.close s l).edge x = if x ∈ l then (p.edge x).map fun r => { r with portInd := l.idxOf x } else p.edge x := by
  rw [close, edge_renumber hl]
  simp only [Nat.zero_add]
  rfl

/-- Only the port index of an edge is changed. -/
theorem edge_close_eq_some {l : List EdgeId} (hl : l.Nodup) {x : EdgeId} {r' : PortEdge}
    (hx : (p.close s l).edge x = some r') : ∃ r i, p.edge x = some r ∧ r' = { r with portInd := i } := by
  rw [edge_close hl] at hx
  split_ifs at hx
  · obtain ⟨r, hr, rfl⟩ := Option.map_eq_some_iff.mp hx
    exact ⟨r, _, hr, rfl⟩
  · exact ⟨r', r'.portInd, hx, rfl⟩

theorem stage_close {l : List EdgeId} (hl : l.Nodup) (x : EdgeId) :
    ((p.close s l).edge x).map PortEdge.stage = (p.edge x).map PortEdge.stage := by
  rw [edge_close hl]
  split_ifs
  · rw [Option.map_map]
    rfl
  · rfl

theorem edge_close_of_eq_some {l : List EdgeId} (hl : l.Nodup) {x : EdgeId} (hx : p.edge x = some r) :
    ∃ i, (p.close s l).edge x = some { r with portInd := i } := by
  rw [edge_close hl, hx]
  split_ifs
  · exact ⟨_, rfl⟩
  · exact ⟨r.portInd, rfl⟩

theorem attached_close {l : List EdgeId} (hl : l.Nodup) {x : EdgeId} :
    (p.close s l).Attached x d ↔ p.Attached x d := by
  constructor
  · rintro ⟨r', hx, hd, hp⟩
    obtain ⟨r, i, hr, rfl⟩ := edge_close_eq_some hl hx
    exact ⟨r, hr, hd, hp⟩
  · rintro ⟨r, hx, hd, hp⟩
    obtain ⟨i, hi⟩ := edge_close_of_eq_some (s := s) hl hx
    exact ⟨_, hi, hd, hp⟩

theorem ports_close (l : List EdgeId) (t : StageId) :
    (p.close s l).ports t = if t = s then l else p.ports t := by
  rw [close, ports_renumber]
  exact Function.update_apply ..

theorem inv_close {l : List EdgeId} (h : p.InvExcept inj gone) (hgone : ∀ x ∈ gone, ∀ t, x ∈ p.ports t → t = s)
    (hl : l.Nodup) (hmem : ∀ x, x ∈ l ↔ x ∈ p.ports s ∧ x ∉ gone) : (p.close s l).Inv inj where
  mem t x := by
    have hstage : (∃ r, (p.close s l).edge x = some r ∧ r.stage = t) ↔ ∃ r, p.edge x = some r ∧ r.stage = t := by
      constructor
      · rintro ⟨r', hr', hst⟩
        obtain ⟨r, i, hr, rfl⟩ := edge_close_eq_some hl hr'
        exact ⟨r, hr, hst⟩
      · rintro ⟨r, hr, hst⟩
        obtain ⟨i, hi⟩ := edge_close_of_eq_some (s := s) hl hr
        exact ⟨_, hi, hst⟩
    rw [hstage, ← h.mem, ports_close]
    by_cases ht : t = s
    · subst ht
      simp [hmem]
    · have : x ∈ p.ports t → x ∉ gone := fun hx hxg => ht (hgone x hxg t hx)
      simp [ht]
      tauto
  nodup t := by
    rw [ports_close]
    split_ifs
    · exact hl
    · exact h.nodup t
  fresh x r' hx := by
    obtain ⟨r, i, hr, -⟩ := edge_close_eq_some hl hx
    rw [close, nextEdge_renumber]
    exact h.fresh x r hr
  parent x r' q hx hp := by
    obtain ⟨r, i, hr, rfl⟩ := edge_close_eq_some hl hx
    obtain ⟨rq, hq, hrest⟩ := h.parent x r q hr hp
    obtain ⟨j, hj⟩ := edge_close_of_eq_some (s := s) hl hq
    exact ⟨_, hj, hrest⟩
  child q rq' x hq hc := by
    obtain ⟨rq, i, hrq, rfl⟩ := edge_close_eq_some hl hq
    obtain ⟨r, hx, hp⟩ := h.child q rq x hrq hc
    obtain ⟨j, hj⟩ := edge_close_of_eq_some (s := s) hl hx
    exact ⟨_, hj, hp⟩
  portInd t i x r' hget hx := by
    rw [ports_close] at hget
    rw [edge_close hl] at hx
    split_ifs at hget with ht
    · rw [if_pos (List.mem_of_getElem? hget)] at hx
      obtain ⟨r, -, rfl⟩ := Option.map_eq_some_iff.mp hx
      obtain ⟨hi, hxi⟩ := List.getElem?_eq_some_iff.mp hget
      rw [← hxi]
      exact hl.idxOf_getElem i hi
    · split_ifs at hx with hxl
      · -- an edge of another stage is not one of the edges that are left
        obtain ⟨r, hr, -⟩ := Option.map_eq_some_iff.mp hx
        have hxs := hmem x |>.mp hxl
        obtain ⟨r1, hr1, hs1⟩ := (h.mem s x).mp hxs
        obtain ⟨r2, hr2, hs2⟩ := (h.mem t x).mp ⟨List.mem_of_getElem? hget, hxs.2⟩
        rw [hr1] at hr2
        cases hr2
        exact absurd (hs2.symm.trans hs1) ht
      · exact h.portInd t i x r' hget hx

/-- A stage none of whose edges is redirected need not be injected. -/
theorem InvExcept.eject (h : p.InvExcept inj gone) (hinj : ∀ t, t ≠ s → inj' t = inj t)
    (hs : ∀ e r, p.edge e = some r → r.stage = s → r.parentEdge = none) : p.InvExcept inj' gone where
  mem := h.mem
  nodup := h.nodup
  fresh := h.fresh
  parent e r q he hp := by
    obtain ⟨rq, hq, hc, hn, hd, hi⟩ := h.parent e r q he hp
    refine ⟨rq, hq, hc, hn, hd, ?_⟩
    rw [hinj _ fun hst => ?_, hi]
    rw [hs e r he hst] at hp
    cases hp
  child := h.child
  portInd := h.portInd

end Ports

end OpenVino.Vpu
