import OpenVino.MKLDNNPlugin.Graph.AllocateWithReuse
import OpenVino.MKLDNNPlugin.Graph.BaseEdge

/-!
# Which edges are views on others

`Allocate` calls `init` on every edge: the edge and its siblings at the same port become views on the base that
`getBaseEdge` finds. A port is then untouched, owned by one of its edges or shared from another port
(`PortState`), and what an edge is a view on leads to a memory of its own (`Terminal`): either it has been
given one, or it is settled and will be its own base. `init_inv` is the step, `initEdges_inv` the run.
-/

namespace OpenVino.MKLDNNPlugin

open MKLDNNEdge Relation

variable {δ : Type}

namespace Allocation

variable {al al' : Allocation} {e b s x : EdgeId} {edges : List EdgeId}

def changeStatus (al : Allocation) (e : EdgeId) (state : Status) : Result Allocation :=
  if state = .NotAllocated then throwException "Incorrect behaviour! Use method sharedMemFrom()"
  else if state = .Validated then throwException "Incorrect behaviour! Use method validate()"
  else if al.status e ≠ .Uninitialized ∧ state = .NeedAllocation then .ok al
  else
    let memoryFromEdge :=
      if al.status e = .NotAllocated then Function.update al.memoryFromEdge e none else al.memoryFromEdge
    .ok { al with memoryFromEdge, status := Function.update al.status e state }

def sharedMemFrom (al : Allocation) (e edge : EdgeId) : Allocation :=
  { al with
    memoryFromEdge := Function.update al.memoryFromEdge e (some edge)
    status := Function.update al.status e .NotAllocated }

/-- One round of the loop over the edges at the same port. -/
def shareAtPort (edgePtr : EdgeId) (al : Allocation) (edge : EdgeId) : Result Allocation := do
  if al.status edge ≠ .NeedAllocation ∧ al.status edge ≠ .Uninitialized then
    let sharedEdge ← al.getSharedEdge edge
    if sharedEdge ≠ edgePtr then
      throwException "Unsupported behavior. Cannot mark edge as not allocated!"
    return al
  else if edge ≠ edgePtr then return al.sharedMemFrom edge edgePtr
  else return al

end Allocation

namespace MKLDNNGraph

variable {g : MKLDNNGraph} {impl : NodeImpl δ} {configs configs' : Configs δ} {al al' : Allocation}
  {e b r s x y : EdgeId} {fuel : Nat} {edges done : List EdgeId}

/-- `e->init()` -/
def init (g : MKLDNNGraph) (impl : NodeImpl δ) (fuel : Nat) (s : Allocation × Configs δ) (e : EdgeId) :
    Result (Allocation × Configs δ) := do
  let (al, configs) := s
  if al.status e ≠ .NeedAllocation ∧ al.status e ≠ .Uninitialized then return (al, configs)
  let (edgePtr, configs) ← g.getBaseEdge impl fuel e LOOK_BOTH configs
  let al ← (if edgePtr = e then al.changeStatus e .NeedAllocation else return al.sharedMemFrom e edgePtr)
  let port := (g.edge e).getInputNum
  if port < 0 then return (al, configs)
  let edges_at_same_port ← g.getChildEdgesAtPort (g.parentOf e) port
  let al ← edges_at_same_port.foldlM (Allocation.shareAtPort edgePtr) al
  return (al, configs)

/-- `for (auto& edge : graphEdges) edge->init();` -/
def initEdges (g : MKLDNNGraph) (impl : NodeImpl δ) (fuel : Nat) (s : Allocation × Configs δ) :
    Result (Allocation × Configs δ) :=
  g.graphEdges.foldlM (g.init impl fuel) s

/-! ### The loop over a port -/

/-- `e` is a view on `b`. -/
def ViewOn (al : Allocation) (e b : EdgeId) : Prop := al.status e = .NotAllocated ∧ al.memoryFromEdge e = some b

/-- `e` may still get a memory of its own, or be made a view. -/
def Open (al : Allocation) (e : EdgeId) : Prop := al.status e = .Uninitialized ∨ al.status e = .NeedAllocation

/-- The edge is as before. -/
def Same (al al' : Allocation) (e : EdgeId) : Prop :=
  al'.status e = al.status e ∧ al'.memoryFromEdge e = al.memoryFromEdge e

theorem Same.trans {al'' : Allocation} (h : Same al al' e) (h' : Same al' al'' e) : Same al al'' e :=
  ⟨h'.1.trans h.1, h'.2.trans h.2⟩

theorem ViewOn.of_same (h : ViewOn al e b) (hs : Same al al' e) : ViewOn al' e b :=
  ⟨hs.1.trans h.1, hs.2.trans h.2⟩

theorem ViewOn.not_open (h : ViewOn al e b) : ¬ Open al e := by
  unfold Open
  rw [h.1]
  decide

theorem same_sharedMemFrom (hne : x ≠ e) : Same al (al.sharedMemFrom e b) x :=
  ⟨Function.update_of_ne hne .., Function.update_of_ne hne ..⟩

theorem viewOn_sharedMemFrom : ViewOn (al.sharedMemFrom e b) e b :=
  ⟨Function.update_self .., Function.update_self ..⟩

/-- What a round does to its edge, and that it leaves the others. -/
theorem shareAtPort_spec (hrun : Allocation.shareAtPort b al s = .ok al') :
    (∀ x, x ≠ s → Same al al' x) ∧ (s ≠ b → Open al s → ViewOn al' s b) ∧ (s = b → Same al al' s) ∧
      (¬ Open al s → Same al al' s ∧ al.memoryFromEdge s = some b) := by
  unfold Allocation.shareAtPort at hrun
  have hopen : (al.status s ≠ .NeedAllocation ∧ al.status s ≠ .Uninitialized) ↔ ¬ Open al s := by
    unfold Open
    tauto
  by_cases ho : Open al s
  · rw [if_neg (hopen.not.mpr (not_not_intro ho))] at hrun
    by_cases hs : s = b
    · rw [if_neg (not_not_intro hs), pure_ok_iff] at hrun
      rw [← hrun]
      exact ⟨fun _ _ => ⟨rfl, rfl⟩, fun h => absurd hs h, fun _ => ⟨rfl, rfl⟩, fun h => absurd ho h⟩
    · rw [if_pos hs, pure_ok_iff] at hrun
      rw [← hrun]
      exact ⟨fun x hx => same_sharedMemFrom hx, fun _ _ => viewOn_sharedMemFrom, fun h => absurd h hs,
        fun h => absurd ho h⟩
  · rw [if_pos (hopen.mpr ho)] at hrun
    simp only [bind_ok_iff] at hrun
    obtain ⟨shared, hshared, hrun⟩ := hrun
    by_cases hb : shared = b
    · have hal : al' = al := by simpa [hb, pure, Except.pure, bind, Except.bind] using hrun.symm
      have hmem : al.memoryFromEdge s = some b := by
        unfold Allocation.getSharedEdge at hshared
        split at hshared
        · rename_i e' he'
          rw [he', Except.ok.inj hshared, hb]
        · cases hshared
      rw [hal]
      exact ⟨fun _ _ => ⟨rfl, rfl⟩, fun _ h => absurd h ho, fun _ => ⟨rfl, rfl⟩, fun _ => ⟨⟨rfl, rfl⟩, hmem⟩⟩
    · simp [hb, throwException, bind, Except.bind] at hrun

/-- **The loop over a port.** -/
theorem sharePort_spec (hnodup : edges.Nodup) (hrun : edges.foldlM (Allocation.shareAtPort b) al = .ok al') :
    (∀ x, x ∉ edges → Same al al' x) ∧ (∀ s ∈ edges, s ≠ b → Open al s → ViewOn al' s b) ∧ Same al al' b ∧
      ∀ s ∈ edges, ¬ Open al s → Same al al' s ∧ al.memoryFromEdge s = some b := by
  induction edges generalizing al with
  | nil =>
    rw [List.foldlM_nil, pure_ok_iff] at hrun
    rw [← hrun]
    exact ⟨fun _ _ => ⟨rfl, rfl⟩, by simp, ⟨rfl, rfl⟩, by simp⟩
  | cons edge edges ih =>
    obtain ⟨hnot, hnodup⟩ := List.nodup_cons.mp hnodup
    rw [List.foldlM_cons, bind_ok_iff] at hrun
    obtain ⟨al₁, hround, hrun⟩ := hrun
    obtain ⟨hothers, hview, hbase, hkept⟩ := shareAtPort_spec hround
    obtain ⟨hothers', hview', hbase', hkept'⟩ := ih hnodup hrun
    have hedge := hothers' edge hnot
    refine ⟨fun x hx => ?_, List.forall_mem_cons.mpr ⟨fun hne ho => ?_, fun s hs hne ho => ?_⟩, ?_,
      List.forall_mem_cons.mpr ⟨fun ho => ?_, fun s hs ho => ?_⟩⟩
    · obtain ⟨hx, hx'⟩ := not_or.mp (List.mem_cons.not.mp hx)
      exact (hothers x hx).trans (hothers' x hx')
    · exact (hview hne ho).of_same hedge
    · have hsame := hothers s fun h => hnot (h ▸ hs)
      refine hview' s hs hne ?_
      rwa [Open, hsame.1]
    · by_cases hb : b = edge
      · rw [hb] at hbase ⊢
        exact (hbase rfl).trans hedge
      · exact (hothers b hb).trans hbase'
    · exact ⟨(hkept ho).1.trans hedge, (hkept ho).2⟩
    · have hsame := hothers s fun h => hnot (h ▸ hs)
      obtain ⟨hs', hmem⟩ := hkept' s hs (by rwa [Open, hsame.1])
      exact ⟨hsame.trans hs', hsame.2.symm.trans hmem⟩

/-! ### One edge -/

/-- What `init` does with the edges at the port of `e`, of which `b` is the base. -/
structure Inits (g : MKLDNNGraph) (e b : EdgeId) (al al' : Allocation) : Prop where
  others : ∀ x, x ∉ g.siblings e → Same al al' x
  views : ∀ s ∈ g.siblings e, s ≠ b → s = e ∨ Open al s → ViewOn al' s b
  base : b ≠ e → Same al al' b
  own : b = e → al'.status e = .NeedAllocation
  kept : ∀ s ∈ g.siblings e, s ≠ e → ¬ Open al s → Same al al' s ∧ al.memoryFromEdge s = some b

theorem nodup_siblings (hw : g.Wired) (e : EdgeId) : (g.siblings e).Nodup := (hw.nodup_children _).filter _

/-- The step before the loop. -/
theorem beforeLoop_spec (ho : Open al e)
    (hrun : (if b = e then al.changeStatus e .NeedAllocation else pure (al.sharedMemFrom e b)) = .ok al') :
    (∀ x, x ≠ e → Same al al' x) ∧ (b ≠ e → ViewOn al' e b) ∧ (b = e → al'.status e = .NeedAllocation) := by
  by_cases hb : b = e
  · rw [if_pos hb, Allocation.changeStatus, if_neg (by decide), if_neg (by decide)] at hrun
    rcases ho with ho | ho
    · rw [if_neg (fun h => h.1 ho), ho] at hrun
      rw [← Except.ok.inj hrun]
      exact ⟨fun x hx => ⟨Function.update_of_ne hx .., rfl⟩, fun h => absurd hb h, fun _ => Function.update_self ..⟩
    · rw [if_pos ⟨by simp [ho], rfl⟩] at hrun
      rw [← Except.ok.inj hrun]
      exact ⟨fun _ _ => ⟨rfl, rfl⟩, fun h => absurd hb h, fun _ => ho⟩
  · rw [if_neg hb, pure_ok_iff] at hrun
    rw [← hrun]
    exact ⟨fun x hx => same_sharedMemFrom hx, fun _ => viewOn_sharedMemFrom, fun h => absurd h hb⟩

/-- **What `init` does.** -/
theorem init_cases (hw : g.Wired) (he : e ∈ g.graphEdges) (hrun : g.init impl fuel (al, configs) e = .ok (al', configs')) :
    ¬ Open al e ∧ al' = al ∧ configs' = configs ∨
      Open al e ∧ ∃ b, g.getBaseEdge impl fuel e LOOK_BOTH configs = .ok (b, configs') ∧ g.Inits e b al al' := by
  have hopen : (al.status e ≠ .NeedAllocation ∧ al.status e ≠ .Uninitialized) ↔ ¬ Open al e := by
    unfold Open
    tauto
  dsimp only [init] at hrun
  by_cases ho : Open al e
  · rw [if_neg (hopen.not.mpr (not_not_intro ho))] at hrun
    simp only [bind_ok_iff] at hrun
    obtain ⟨⟨b, configs₁⟩, hbase, al₁, hbefore, hrun⟩ := hrun
    obtain ⟨hothers, hview, hown⟩ := beforeLoop_spec ho hbefore
    rw [if_neg (not_lt.mpr (getBaseEdge_port hbase))] at hrun
    simp only [bind_ok_iff, pure_ok_iff] at hrun
    obtain ⟨edges, hedges, al₂, hloop, hrun⟩ := hrun
    obtain ⟨rfl, rfl⟩ := Prod.mk.inj hrun
    rw [getChildEdgesAtPort_ok hedges, ← siblings] at hloop
    obtain ⟨hothers', hviews, hsame, hkept⟩ := sharePort_spec (nodup_siblings hw e) hloop
    have hself := mem_siblings_self hw he
    refine .inr ⟨ho, b, hbase, fun x hx => ?_, fun s hs hne hor => ?_, fun hb => ?_, fun hb => ?_, fun s hs hne hno => ?_⟩
    · exact (hothers x fun h => hx (h ▸ hself)).trans (hothers' x hx)
    · by_cases hse : s = e
      · rw [hse] at hne ⊢
        have hv := hview (Ne.symm hne)
        exact hv.of_same (hkept e hself hv.not_open).1
      · refine hviews s hs hne ?_
        rw [Open, (hothers s hse).1]
        exact hor.resolve_left hse
    · exact (hothers b hb).trans hsame
    · rw [← hown hb, ← hb, hsame.1]
    · have hsame' := hothers s hne
      obtain ⟨hs', hmem⟩ := hkept s hs (by rwa [Open, hsame'.1])
      exact ⟨hsame'.trans hs', hsame'.2.symm.trans hmem⟩
  · rw [if_pos (hopen.mpr ho), pure_ok_iff] at hrun
    obtain ⟨rfl, rfl⟩ := Prod.mk.inj hrun
    exact .inl ⟨ho, rfl, rfl⟩

/-! ### The invariant -/

/-- The other edges at the port of `r` are views on `r`. -/
structure Owned (g : MKLDNNGraph) (al : Allocation) (done : List EdgeId) (r : EdgeId) : Prop where
  isOpen : Open al r
  views : ∀ s ∈ g.siblings r, s ≠ r → ViewOn al s r
  used : r ∈ done ∨ ∃ s ∈ g.siblings r, s ≠ r

def Untouched (g : MKLDNNGraph) (al : Allocation) (e : EdgeId) : Prop :=
  ∀ s ∈ g.siblings e, al.status s = .Uninitialized

/-- The states of the port of `e`. -/
inductive PortState (g : MKLDNNGraph) (al : Allocation) (done : List EdgeId) (e : EdgeId) : Prop
  | untouched (h : g.Untouched al e)
  | owned (r : EdgeId) (hr : r ∈ g.siblings e) (h : g.Owned al done r)
  | shared (b : EdgeId) (hb : b ∈ g.graphEdges) (h : ∀ s ∈ g.siblings e, ViewOn al s b)

/-- `r` has a memory of its own, or will have. -/
def Terminal (g : MKLDNNGraph) (al : Allocation) (configs : Configs δ) (done : List EdgeId) (r : EdgeId) : Prop :=
  g.Owned al done r ∨ g.Untouched al r ∧ g.Settled configs r

/-- The state after `init` on the edges `done`. -/
structure Inited (g : MKLDNNGraph) (al : Allocation) (configs : Configs δ) (done : List EdgeId) : Prop where
  inited : ∀ e ∈ done, al.status e ≠ .Uninitialized
  port : ∀ e ∈ g.graphEdges, g.PortState al done e
  rooted : ∀ e ∈ g.graphEdges, ¬ Open al e →
    ∃ r ∈ g.graphEdges, ReflTransGen (ViewOn al) e r ∧ g.Terminal al configs done r

/-- Where both ends of an edge are in place, the list of all child edges has an edge of the same port at the
index that is the port. -/
def PortsFit (g : MKLDNNGraph) (configs : Configs δ) : Prop :=
  ∀ e ∈ g.graphEdges, 0 ≤ g.down configs e → 0 ≤ g.up configs e →
    ∀ b ∈ g.graphEdges, g.getChildEdgeAt (g.parentOf e) (g.edge e).getInputNum = .ok b →
      (g.edge b).getInputNum = (g.edge e).getInputNum

section Invariant

variable {done' : List EdgeId}

theorem Owned.congr (h : g.Owned al done r) (hsame : ∀ s ∈ g.siblings r, Same al al' s) (hself : r ∈ g.siblings r)
    (hdone : done ⊆ done') : g.Owned al' done' r := by
  refine ⟨?_, fun s hs hne => (h.views s hs hne).of_same (hsame s hs), h.used.imp_left fun hr => hdone hr⟩
  rw [Open, (hsame r hself).1]
  exact h.isOpen

theorem Untouched.congr (h : g.Untouched al e) (hsame : ∀ s ∈ g.siblings e, Same al al' s) : g.Untouched al' e :=
  fun s hs => (hsame s hs).1.trans (h s hs)

theorem PortState.congr (hw : g.Wired) (h : g.PortState al done e) (hsame : ∀ s ∈ g.siblings e, Same al al' s)
    (hdone : done ⊆ done') : g.PortState al' done' e := by
  cases h with
  | untouched h => exact .untouched (h.congr hsame)
  | owned r hr h =>
    have heq := siblings_eq hw hr
    refine .owned r hr (h.congr ?_ ?_ hdone)
    · rwa [heq]
    · rwa [heq]
  | shared b hb h => exact .shared b hb fun s hs => (h s hs).of_same (hsame s hs)

theorem Terminal.congr (h : g.Terminal al configs done r) (hsame : ∀ s ∈ g.siblings r, Same al al' s)
    (hself : r ∈ g.siblings r) (hdone : done ⊆ done') (hc : Cleared configs configs') :
    g.Terminal al' configs' done' r := by
  rcases h with h | ⟨h, hsettled⟩
  · exact .inl (h.congr hsame hself hdone)
  · exact .inr ⟨h.congr hsame, hsettled.mono hc⟩

/-- An edge that is not a view owns its port, unless nothing there has been touched. -/
theorem PortState.of_open (hw : g.Wired) (he : e ∈ g.graphEdges) (h : g.PortState al done e) (ho : Open al e) :
    g.Untouched al e ∨ g.Owned al done e := by
  have hself := mem_siblings_self hw he
  cases h with
  | untouched h => exact .inl h
  | owned r hr h =>
    by_cases hre : e = r
    · rw [hre]
      exact .inr h
    · exact absurd ho (h.views e (siblings_eq hw hr ▸ hself) hre).not_open
  | shared b _ h => exact absurd ho (h e hself).not_open

theorem PortsFit.mono (h : g.PortsFit configs) (hc : Cleared configs configs') : g.PortsFit configs' := by
  intro e he hdown hup
  refine h e he ?_ ?_
  · by_contra hneg
    exact absurd (hc.ins _ _ (not_le.mp hneg)) (not_lt.mpr hdown)
  · by_contra hneg
    exact absurd (hc.outs _ _ (not_le.mp hneg)) (not_lt.mpr hup)

theorem getChildEdgeAt_mem {n : NodeId} {idx : Int} (h : g.getChildEdgeAt n idx = .ok b) : b ∈ g.childEdges n := by
  unfold getChildEdgeAt at h
  split at h
  · split at h
    · rename_i e he
      rw [← Except.ok.inj h]
      exact List.mem_of_getElem? he
    · exact absurd h throwException_ne_ok
  · exact absurd h throwException_ne_ok

/-- The base of an edge is at its own port, or settled. -/
theorem base_cases (hw : g.Wired) (hfit : g.PortsFit configs) (he : e ∈ g.graphEdges)
    (hrun : g.getBaseEdge impl fuel e LOOK_BOTH configs = .ok (b, configs')) :
    Cleared configs configs' ∧ b ∈ g.graphEdges ∧ (b ∈ g.siblings e ∨ g.Settled configs' b) := by
  by_cases hboth : 0 ≤ g.down configs e ∧ 0 ≤ g.up configs e
  · obtain ⟨hbase, rfl⟩ := getBaseEdge_of_both hboth.1 hboth.2 hrun
    obtain ⟨hb, hparent⟩ := hw.mem_children.mp (getChildEdgeAt_mem hbase)
    have hport := hfit e he hboth.1 hboth.2 b hb hbase
    exact ⟨.refl _, hb, .inl (hw.mem_atPort.mpr ⟨hb, hparent, hport⟩)⟩
  · have hlooks : g.Looks configs e LOOK_BOTH :=
      ⟨by omega, fun h => absurd h (by decide), fun h => absurd h (by decide)⟩
    obtain ⟨hc, hb, hfound⟩ := getBaseEdge_finds hw he hlooks hrun
    exact ⟨hc, hb, .inr (hfound.resolve_right fun h => absurd h.1 (by decide))⟩

/-- An edge whose port `init` reaches for the first time, or the owner of its port that becomes its own base. -/
theorem Inits.port_cases (hw : g.Wired) (hinv : g.Inited al configs done) (he : e ∈ g.graphEdges) (hnew : e ∉ done)
    (ho : Open al e) (hi : g.Inits e b al al') : g.Untouched al e ∨ g.Owned al done e ∧ b = e := by
  refine ((hinv.port e he).of_open hw he ho).imp_right fun howned => ⟨howned, ?_⟩
  obtain ⟨s, hs, hne⟩ := howned.used.resolve_left hnew
  have hview := howned.views s hs hne
  exact (Option.some.inj (hview.2.symm.trans (hi.kept s hs hne hview.not_open).2)).symm

/-- An edge that was a view is the same view. -/
theorem Inits.viewOn (ho : Open al e) (hi : g.Inits e b al al') (h : ViewOn al x y) : ViewOn al' x y := by
  by_cases hx : x ∈ g.siblings e
  · have hne : x ≠ e := fun heq => h.not_open (heq ▸ ho)
    exact h.of_same (hi.kept x hx hne h.not_open).1
  · exact h.of_same (hi.others x hx)

/-- The base that is at the port of `e` is then its owner. -/
theorem Inits.owned (hw : g.Wired) (he : e ∈ g.graphEdges) (ho : Open al e) (hi : g.Inits e b al al')
    (hport : g.Untouched al e ∨ g.Owned al done e ∧ b = e) (hb : b ∈ g.siblings e) :
    g.Owned al' (done ++ [e]) b := by
  have heq := siblings_eq hw hb
  rcases hport with hfree | ⟨howned, rfl⟩
  · refine ⟨?_, fun s hs hne => hi.views s (heq ▸ hs) hne (.inr (.inl (hfree s (heq ▸ hs)))), ?_⟩
    · by_cases hbe : b = e
      · exact .inr (hbe ▸ hi.own hbe)
      · exact .inl ((hi.base hbe).1.trans (hfree b hb))
    · by_cases hbe : b = e
      · exact .inl (by simp [hbe])
      · exact .inr ⟨e, heq ▸ mem_siblings_self hw he, Ne.symm hbe⟩
  · exact ⟨.inr (hi.own rfl), fun s hs hne => hi.viewOn ho (howned.views s hs hne), .inl (by simp)⟩

theorem Inits.port (hw : g.Wired) (he : e ∈ g.graphEdges) (hbase : b ∈ g.graphEdges) (ho : Open al e)
    (hi : g.Inits e b al al') (hport : g.Untouched al e ∨ g.Owned al done e ∧ b = e) (h : g.PortState al done x) :
    g.PortState al' (done ++ [e]) x := by
  by_cases hx : ∃ s ∈ g.siblings x, s ∈ g.siblings e
  · obtain ⟨s, hsx, hse⟩ := hx
    have heq : g.siblings x = g.siblings e := (siblings_eq hw hsx).symm.trans (siblings_eq hw hse)
    by_cases hb : b ∈ g.siblings e
    · exact .owned b (heq ▸ hb) (hi.owned hw he ho hport hb)
    · rcases hport with hfree | ⟨-, rfl⟩
      · refine .shared b hbase fun s hs => ?_
        rw [heq] at hs
        exact hi.views s hs (fun h => hb (h ▸ hs)) (.inr (.inl (hfree s hs)))
      · exact absurd (mem_siblings_self hw he) hb
  · exact h.congr hw (fun s hs => hi.others s fun hse => hx ⟨s, hs, hse⟩) (List.subset_append_left ..)

/-- What had, or will have, a memory of its own still does. -/
theorem Inits.terminal (hw : g.Wired) (he : e ∈ g.graphEdges) (hnew : e ∉ done) (ho : Open al e)
    (hi : g.Inits e b al al') (hport : g.Untouched al e ∨ g.Owned al done e ∧ b = e) (hc : Cleared configs configs')
    (hbase : ∀ r, g.Settled configs r → e ∈ g.siblings r → b = r) (hr : r ∈ g.graphEdges)
    (h : g.Terminal al configs done r) : g.Terminal al' configs' (done ++ [e]) r := by
  have hself := mem_siblings_self hw hr
  by_cases hre : r ∈ g.siblings e
  · have heq := siblings_eq hw hre
    have he' : e ∈ g.siblings r := heq ▸ mem_siblings_self hw he
    suffices hb : b = r by
      exact .inl (hb ▸ hi.owned hw he ho hport (hb ▸ hre))
    rcases hport with hfree | ⟨howned, hbe⟩
    · rcases h with h | ⟨-, hsettled⟩
      · -- an owner of an untouched port is alone there
        by_cases heqr : e = r
        · obtain ⟨s, hs, hne⟩ := h.used.resolve_left (heqr ▸ hnew)
          exact absurd (.inl (hfree s (heq ▸ hs))) (h.views s hs hne).not_open
        · exact absurd ho (h.views e he' heqr).not_open
      · exact hbase r hsettled he'
    · rw [hbe]
      by_contra heqr
      rcases h with h | ⟨hfree, -⟩
      · exact absurd ho (h.views e he' heqr).not_open
      · exact absurd (.inl (hfree r hself)) (howned.views r hre (Ne.symm heqr)).not_open
  · refine h.congr (fun s hs => hi.others s fun hse => hre ?_) hself (List.subset_append_left ..) hc
    rwa [← siblings_eq hw hse, siblings_eq hw hs]

/-- An edge that has become a view is one on the base. -/
theorem Inits.viewOn_of_open (hi : g.Inits e b al al') (ho : Open al x) (hno : ¬ Open al' x) : ViewOn al' x b := by
  have hx : x ∈ g.siblings e := by
    by_contra hx
    exact hno (by rwa [Open, (hi.others x hx).1])
  refine hi.views x hx (fun hxb => hno ?_) (.inr ho)
  by_cases hbe : b = e
  · rw [hxb, hbe]
    exact .inr (hi.own hbe)
  · rw [hxb] at ho ⊢
    rwa [Open, (hi.base hbe).1]

theorem Inits.uninitialized (hw : g.Wired) (he : e ∈ g.graphEdges) (hi : g.Inits e b al al')
    (hzero : al'.status x = .Uninitialized) : al.status x = .Uninitialized ∧ x ≠ e := by
  by_cases hx : x ∈ g.siblings e
  · by_cases hxb : x = b
    · have hbe : b ≠ e := by
        intro hbe
        rw [hxb, hbe, hi.own hbe] at hzero
        cases hzero
      rw [hxb] at hzero ⊢
      exact ⟨(hi.base hbe).1 ▸ hzero, hbe⟩
    · have hor : ¬ (x = e ∨ Open al x) := fun hor => (hi.views x hx hxb hor).not_open (.inl hzero)
      obtain ⟨hne, hno⟩ := not_or.mp hor
      exact ⟨(hi.kept x hx hne hno).1.1 ▸ hzero, hne⟩
  · refine ⟨(hi.others x hx).1 ▸ hzero, fun h => hx ?_⟩
    rw [h]
    exact mem_siblings_self hw he

/-- **One edge.** -/
theorem init_inv (hw : g.Wired) (hfit : g.PortsFit configs) (hinv : g.Inited al configs done) (he : e ∈ g.graphEdges)
    (hnew : e ∉ done) (hrun : g.init impl fuel (al, configs) e = .ok (al', configs')) :
    g.Inited al' configs' (done ++ [e]) ∧ Cleared configs configs' := by
  have hsub : done ⊆ done ++ [e] := List.subset_append_left ..
  rcases init_cases hw he hrun with ⟨ho, rfl, rfl⟩ | ⟨ho, b, hbase, hi⟩
  · have hsame : ∀ x, Same al' al' x := fun _ => ⟨rfl, rfl⟩
    refine ⟨⟨fun x hx => ?_, fun x hx => ?_, fun x hx hno => ?_⟩, .refl _⟩
    · rcases List.mem_append.mp hx with hx | hx
      · exact hinv.inited x hx
      · rw [List.mem_singleton.mp hx]
        exact fun h => ho (.inl h)
    · exact (hinv.port x hx).congr hw (fun s _ => hsame s) hsub
    · obtain ⟨r, hr, hpath, hterm⟩ := hinv.rooted x hx hno
      exact ⟨r, hr, hpath, hterm.congr (fun s _ => hsame s) (mem_siblings_self hw hr) hsub (.refl _)⟩
  · obtain ⟨hc, hb, hat⟩ := base_cases hw hfit he hbase
    have hport := hi.port_cases hw hinv he hnew ho
    have hterminal : ∀ r ∈ g.graphEdges, g.Terminal al configs done r → g.Terminal al' configs' (done ++ [e]) r :=
      fun r hr => hi.terminal hw he hnew ho hport hc (fun r hr hre => (getBaseEdge_of_settled hw hr hre hbase).1) hr
    have hrooted : ∀ x ∈ g.graphEdges, ¬ Open al x →
        ∃ r ∈ g.graphEdges, ReflTransGen (ViewOn al') x r ∧ g.Terminal al' configs' (done ++ [e]) r := by
      intro x hx hno
      obtain ⟨r, hr, hpath, hterm⟩ := hinv.rooted x hx hno
      exact ⟨r, hr, hpath.lift id fun _ _ hv => hi.viewOn ho hv, hterminal r hr hterm⟩
    refine ⟨⟨fun x hx hzero => ?_, fun x hx => hi.port hw he hb ho hport (hinv.port x hx), fun x hx hno => ?_⟩, hc⟩
    · obtain ⟨hzero, hne⟩ := hi.uninitialized hw he hzero
      exact hinv.inited x ((List.mem_append.mp hx).resolve_right fun h => hne (List.mem_singleton.mp h)) hzero
    · by_cases hox : Open al x
      · have hview := hi.viewOn_of_open hox hno
        suffices ∃ r ∈ g.graphEdges, ReflTransGen (ViewOn al') b r ∧ g.Terminal al' configs' (done ++ [e]) r by
          obtain ⟨r, hr, hpath, hterm⟩ := this
          exact ⟨r, hr, hpath.head hview, hterm⟩
        by_cases hbs : b ∈ g.siblings e
        · exact ⟨b, hb, .refl, .inl (hi.owned hw he ho hport hbs)⟩
        · by_cases hob : Open al b
          · have hout : ∀ s ∈ g.siblings b, Same al al' s := by
              intro s hs
              refine hi.others s fun hse => hbs ?_
              rw [← siblings_eq hw hse, siblings_eq hw hs]
              exact mem_siblings_self hw hb
            refine ⟨b, hb, .refl, ?_⟩
            rcases (hinv.port b hb).of_open hw hb hob with hfree | howned
            · exact .inr ⟨hfree.congr hout, hat.resolve_left hbs⟩
            · exact .inl (howned.congr hout (mem_siblings_self hw hb) hsub)
          · exact hrooted b hb hob
      · exact hrooted x hx hox

/-- **All edges.** -/
theorem initEdges_inv (hw : g.Wired) (hfit : g.PortsFit configs) (hfresh : ∀ e ∈ g.graphEdges, al.status e = .Uninitialized)
    (hrun : g.initEdges impl fuel (al, configs) = .ok (al', configs')) : g.Inited al' configs' g.graphEdges := by
  have hinit : g.Inited al configs [] := by
    refine ⟨by simp, fun e he => .untouched fun s hs => ?_, fun e he hno => absurd (.inl (hfresh e he)) hno⟩
    exact hfresh s (hw.mem_atPort.mp hs).1
  refine (foldlM_ok_induct (I := fun done s => g.Inited s.1 s.2 done ∧ g.PortsFit s.2) hrun ⟨hinit, hfit⟩ ?_).1
  rintro pre e post ⟨al₁, configs₁⟩ ⟨al₂, configs₂⟩ hedges ⟨hinv, hfit⟩ hround
  have hnodup := hw.nodup
  rw [hedges] at hnodup
  have hnew : e ∉ pre := fun h => (List.nodup_append.mp hnodup).2.2 e h e List.mem_cons_self rfl
  obtain ⟨hinv', hc⟩ := init_inv hw hfit hinv (hedges ▸ List.mem_append_right _ List.mem_cons_self) hnew hround
  exact ⟨hinv', hfit.mono hc⟩

end Invariant

end MKLDNNGraph

end OpenVino.MKLDNNPlugin
