import OpenVino.Base.Relations
import OpenVino.MKLDNNPlugin.Graph.InitEdges

/-!
# One allocation per cluster

After `init` on all edges every edge that is a view leads to one that gets a memory (`exists_root`), so each
cluster of `allocateWithReuse`, being the edges connected by views, holds exactly one of these. This needs
`PortsFit`: where both ends of an edge are in place, `getBaseEdge` takes the port of the edge for an index of
the list of all child edges of its parent, and two edges of different ports may become views on one another
(`crossed`).
-/

namespace OpenVino.MKLDNNPlugin

open MKLDNNEdge Relation

variable {δ : Type}

namespace Allocation

variable {al : Allocation} {edges claster : List EdgeId} {clasters detected : List (List EdgeId)} {a b e r : EdgeId}

/-! ### Clusters hold an edge once -/

theorem nodup_unique {before : EdgeId → EdgeId → Bool} (hanti : ∀ a b, before a b = false → before b a = false → a = b)
    {l : List EdgeId} (h : l.Pairwise fun a b => before b a = false) : (unique l).Nodup := by
  fun_induction unique l with
  | case1 b l ih => exact ih (List.pairwise_cons.mp h).2
  | case2 a b l hne ih =>
    obtain ⟨ha, htail⟩ := List.pairwise_cons.mp h
    refine List.nodup_cons.mpr ⟨fun hmem => ?_, ih htail⟩
    rcases List.mem_cons.mp (mem_unique.mp hmem) with hab | hmem
    · exact hne hab
    · have hba := (List.pairwise_cons.mp htail).1 a hmem
      exact hne (hanti a b hba (ha b List.mem_cons_self))
  | case3 l hl =>
    rcases l with _ | ⟨a, _ | ⟨b, l⟩⟩
    · exact List.nodup_nil
    · exact List.nodup_singleton a
    · exact absurd rfl (hl a b l)

theorem forall_mem_mergeAt {P : List EdgeId → Prop} {u : List EdgeId} (hnil : P []) (hu : P u)
    (h : ∀ c ∈ clasters, P c) : ∀ c ∈ mergeAt e u clasters, P c := by
  induction clasters with
  | nil => exact h
  | cons c clasters ih =>
    obtain ⟨hc, hclasters⟩ := List.forall_mem_cons.mp h
    rw [mergeAt]
    split
    · refine List.forall_mem_cons.mpr ⟨hu, fun d hd => ?_⟩
      obtain ⟨d', hd', rfl⟩ := List.mem_map.mp hd
      split
      · exact hnil
      · exact hclasters d' hd'
    · exact List.forall_mem_cons.mpr ⟨hc, ih hclasters⟩

/-- The first pass. -/
theorem nodup_detectClasters (hself : ∀ e ∈ edges, al.status e = .NotAllocated → al.memoryFromEdge e ≠ some e)
    (hrun : al.detectClasters edges = .ok detected) : ∀ c ∈ detected, c.Nodup := by
  refine foldlM_ok_induct (I := fun _ clasters => ∀ c ∈ clasters, c.Nodup) hrun (by simp) ?_
  intro pre edge post clasters clasters' hedges hin hround
  have hedge : edge ∈ edges := hedges ▸ List.mem_append_right _ List.mem_cons_self
  have happend : ∀ c : List EdgeId, c.Nodup → ∀ d ∈ clasters ++ [c], d.Nodup := by
    intro c hc d hd
    rcases List.mem_append.mp hd with hd | hd
    · exact hin d hd
    · rwa [List.mem_singleton.mp hd]
  unfold detectClaster at hround
  split at hround
  · rename_i hstatus
    simp only [bind_ok_iff] at hround
    obtain ⟨par, hpar, hround⟩ := hround
    have hne : par ≠ edge := by
      intro heq
      refine hself edge hedge hstatus ?_
      unfold getSharedEdge at hpar
      split at hpar
      · rename_i e' he'
        rw [he', Except.ok.inj hpar, heq]
      · cases hpar
    split at hround
    · rw [pure_ok_iff] at hround
      rw [← hround]
      intro d hd
      obtain ⟨c, hc, rfl⟩ := List.mem_map.mp hd
      split
      · rename_i hmem
        exact List.nodup_append.mpr ⟨hin c hc, List.nodup_singleton _, by
          intro x hx y hy
          rw [List.mem_singleton.mp hy]
          exact fun h => hmem.2 (h ▸ hx)⟩
      · exact hin c hc
    · rw [pure_ok_iff] at hround
      rw [← hround]
      exact happend _ (by simp [hne])
  · split at hround
    · rw [← pure_ok_iff.mp hround]
      exact hin
    · rw [← pure_ok_iff.mp hround]
      exact happend _ (List.nodup_singleton _)

/-- The second pass. -/
theorem nodup_mergeClasters {std : StdSort EdgeId} {before : EdgeId → EdgeId → Bool} (hbefore : StrictWeakOrder before)
    (hanti : ∀ a b, before a b = false → before b a = false → a = b) (h : ∀ c ∈ clasters, c.Nodup) :
    ∀ c ∈ mergeClasters std before edges clasters, c.Nodup := by
  unfold mergeClasters
  induction edges generalizing clasters with
  | nil => exact h
  | cons edge edges ih =>
    rw [List.foldl_cons]
    apply ih
    unfold mergeClaster
    simp only
    split
    · intro c hc
      exact forall_mem_mergeAt List.nodup_nil (nodup_unique hanti (std.sorted _ _ hbefore)) h c (List.mem_filter.mp hc).1
    · exact h

/-! ### One allocation -/

theorem rightUnique_shares : Relator.RightUnique (al.Shares edges) := by
  intro a b c hab hac
  exact Option.some.inj (hab.2.2.symm.trans hac.2.2)

theorem root_of_needAllocation (h : al.status r = .NeedAllocation) : Root (al.Shares edges) r r := by
  refine .self fun b hb => ?_
  have := hb.2.1
  rw [h] at this
  cases this

/-- **The assertion of `allocateWithReuse`.** -/
theorem count_eq_one {std : StdSort EdgeId} {before : EdgeId → EdgeId → Bool} (hbefore : StrictWeakOrder before)
    (hanti : ∀ a b, before a b = false → before b a = false → a = b)
    (hroot : ∀ e ∈ edges, ∃ r ∈ edges, al.status r = .NeedAllocation ∧ Root (al.Shares edges) e r)
    (hshared : ∀ e ∈ edges, al.status e = .NotAllocated → ∃ p ∈ edges, al.memoryFromEdge e = some p) :
    ∃ detected, al.detectClasters edges = .ok detected ∧
      ∀ claster ∈ mergeClasters std before edges detected, (claster.filter (al.status · = .NeedAllocation)).length = 1 := by
  obtain ⟨detected, hdetect, hcov⟩ := detectClasters_ok hshared
  obtain ⟨hmerged, hone⟩ := hcov.mergeClasters std before
  have hself : ∀ e ∈ edges, al.status e = .NotAllocated → al.memoryFromEdge e ≠ some e := by
    intro e he hstatus hmem
    obtain ⟨r, -, -, hr⟩ := hroot e he
    exact hr.not_loop rightUnique_shares ⟨he, hstatus, hmem⟩
  refine ⟨detected, hdetect, fun claster hclaster => ?_⟩
  have hknown : ∀ a ∈ claster, a ∈ edges := fun a ha => hmerged.known a ⟨claster, hclaster, ha, ha⟩
  obtain ⟨a, ha⟩ := List.exists_mem_of_ne_nil claster fun h => hmerged.nonempty (h ▸ hclaster)
  obtain ⟨r, hr, hneed, hroota⟩ := hroot a (hknown a ha)
  -- the root of the cluster is in it
  have hrmem : r ∈ claster := by
    have htogether := (hmerged.toGathers.together_iff
      (fun x y ⟨c, hc, hx, _⟩ => hone x (hmerged.known x ⟨c, hc, hx, hx⟩)) (hmerged.cover a (hknown a ha))).mpr hroota.eqvGen
    obtain ⟨c, hc, hac, hrc⟩ := htogether
    rwa [eq_of_number_eq_one (hone a (hknown a ha)) hclaster ha hc hac]
  have honly : ∀ x ∈ claster, al.status x = .NeedAllocation → x = r := by
    intro x hx hxneed
    have heqv := hmerged.sound a x ⟨claster, hclaster, ha, hx⟩
    exact Root.unique rightUnique_shares (root_of_needAllocation hxneed)
      ((root_iff_of_eqvGen rightUnique_shares heqv).mp hroota)
  have hnodup : claster.Nodup :=
    nodup_mergeClasters hbefore hanti (nodup_detectClasters hself hdetect) claster hclaster
  have hfilter : claster.filter (al.status · = .NeedAllocation) = claster.filter (· == r) := by
    refine List.filter_congr fun x hx => ?_
    rw [Bool.eq_iff_iff, decide_eq_true_iff, beq_iff_eq]
    refine ⟨honly x hx, fun h => ?_⟩
    rw [h]
    exact hneed
  rw [hfilter, List.filter_beq, List.length_replicate]
  exact List.count_eq_one_of_mem hnodup hrmem

end Allocation

namespace MKLDNNGraph

open Allocation (root_of_needAllocation)

variable {g : MKLDNNGraph} {impl : NodeImpl δ} {configs configs' : Configs δ} {al al' : Allocation}
  {a b e r : EdgeId} {fuel : Nat}

theorem Owned.needAllocation (h : g.Owned al g.graphEdges r) (hinv : g.Inited al configs g.graphEdges)
    (hr : r ∈ g.graphEdges) : al.status r = .NeedAllocation :=
  h.isOpen.resolve_left (hinv.inited r hr)

theorem Inited.not_untouched (hw : g.Wired) (hinv : g.Inited al configs g.graphEdges) (he : e ∈ g.graphEdges) :
    ¬ g.Untouched al e :=
  fun h => hinv.inited e he (h e (mem_siblings_self hw he))

theorem Inited.status (hw : g.Wired) (hinv : g.Inited al configs g.graphEdges) (he : e ∈ g.graphEdges) :
    al.status e = .NeedAllocation ∨ al.status e = .NotAllocated := by
  have hself := mem_siblings_self hw he
  cases hinv.port e he with
  | untouched h => exact absurd h (hinv.not_untouched hw he)
  | owned r hr h =>
    by_cases her : e = r
    · rw [her]
      exact .inl (h.needAllocation hinv (hw.mem_atPort.mp hr).1)
    · exact .inr (h.views e (siblings_eq hw hr ▸ hself) her).1
  | shared b _ h => exact .inr (h e hself).1

theorem Inited.shares (hw : g.Wired) (hinv : g.Inited al configs g.graphEdges) (he : e ∈ g.graphEdges)
    (hnot : al.status e = .NotAllocated) : ∃ b ∈ g.graphEdges, al.memoryFromEdge e = some b := by
  have hself := mem_siblings_self hw he
  cases hinv.port e he with
  | untouched h => exact absurd h (hinv.not_untouched hw he)
  | owned r hr h =>
    refine ⟨r, (hw.mem_atPort.mp hr).1, (h.views e (siblings_eq hw hr ▸ hself) fun her => ?_).2⟩
    have := h.isOpen
    rw [Open, ← her, hnot] at this
    revert this
    decide
  | shared b hb h => exact ⟨b, hb, (h e hself).2⟩

/-- Every edge leads to one that gets a memory. -/
theorem Inited.exists_root (hw : g.Wired) (hinv : g.Inited al configs g.graphEdges) (he : e ∈ g.graphEdges) :
    ∃ r ∈ g.graphEdges, al.status r = .NeedAllocation ∧ Root (al.Shares g.graphEdges) e r := by
  rcases hinv.status hw he with hneed | hnot
  · exact ⟨e, he, hneed, root_of_needAllocation hneed⟩
  · have hno : ¬ Open al e := by
      rw [Open, hnot]
      decide
    obtain ⟨r, hr, hpath, hterm⟩ := hinv.rooted e he hno
    have hneed : al.status r = .NeedAllocation := by
      rcases hterm with h | ⟨h, -⟩
      · exact h.needAllocation hinv hr
      · exact absurd h (hinv.not_untouched hw hr)
    refine ⟨r, hr, hneed, ?_, (root_of_needAllocation hneed).stuck⟩
    clear hno hnot
    induction hpath using ReflTransGen.head_induction_on with
    | refl => exact .refl
    | head hview hrest ih =>
      obtain ⟨b, hb, hmem⟩ := hinv.shares hw he hview.1
      obtain rfl := Option.some.inj (hmem.symm.trans hview.2)
      exact (ih hb).head ⟨he, hview⟩

/-- Edges that leave one port lead to the same edge. -/
theorem Inited.same_root (hw : g.Wired) (hinv : g.Inited al configs g.graphEdges) (ha : a ∈ g.graphEdges)
    (hb : b ∈ g.siblings a) : ∃ r ∈ g.graphEdges, al.status r = .NeedAllocation ∧
      Root (al.Shares g.graphEdges) a r ∧ Root (al.Shares g.graphEdges) b r := by
  have hself := mem_siblings_self hw ha
  cases hinv.port a ha with
  | untouched h => exact absurd h (hinv.not_untouched hw ha)
  | owned r hr h =>
    have hneed := h.needAllocation hinv (hw.mem_atPort.mp hr).1
    have hroot : ∀ s ∈ g.siblings a, Root (al.Shares g.graphEdges) s r := by
      intro s hs
      by_cases hsr : s = r
      · rw [hsr]
        exact root_of_needAllocation hneed
      · exact .head ⟨(hw.mem_atPort.mp hs).1, h.views s (siblings_eq hw hr ▸ hs) hsr⟩ (root_of_needAllocation hneed)
    exact ⟨r, (hw.mem_atPort.mp hr).1, hneed, hroot a hself, hroot b hb⟩
  | shared c hc h =>
    obtain ⟨r, hr, hneed, hroot⟩ := hinv.exists_root hw hc
    exact ⟨r, hr, hneed, .head ⟨ha, h a hself⟩ hroot, .head ⟨(hw.mem_atPort.mp hb).1, h b hb⟩ hroot⟩

/-- Node 1 splits its input in place, node 2 reads its output `port` in place and node 3 the other one; the edge
to node 2 has been made first. -/
def splitInTwo (port : Int) : MKLDNNGraph :=
  let edge : EdgeId → MKLDNNEdge := fun e =>
    if e = 1 then ⟨0, 1, 0, 0⟩ else if e = 2 then ⟨1, 2, port, 0⟩ else if e = 3 then ⟨1, 3, 1 - port, 0⟩
    else if e = 4 then ⟨2, 4, 0, 0⟩ else ⟨3, 5, 0, 0⟩
  { graphNodes := [0, 1, 2, 3, 4, 5]
    graphEdges := [1, 2, 3, 4, 5]
    edge
    nextEdge := 6
    parentEdges := fun n => [1, 2, 3, 4, 5].filter fun e => (edge e).child = n
    childEdges := fun n => [1, 2, 3, 4, 5].filter fun e => (edge e).parent = n
    inDims := fun _ => 1
    outDims := fun n => if n = 1 then 2 else 1 }

theorem splitInTwo_wired (port : Int) : (splitInTwo port).Wired where
  nodup := (by decide : [1, 2, 3, 4, 5].Nodup)
  known := (by decide : ∀ e ∈ [1, 2, 3, 4, 5], e ≠ noEdge ∧ e < 6)
  fresh := (by decide : 6 ≠ noEdge)
  parents _ := .refl _
  children _ := .refl _

def splitConfigs : Configs Unit := fun n =>
  if n = 0 then some { outConfs := [⟨(), -1⟩] }
  else if n = 1 then some { inConfs := [⟨(), -1⟩], outConfs := [⟨(), 0⟩, ⟨(), 0⟩] }
  else if n = 2 ∨ n = 3 then some { inConfs := [⟨(), 0⟩], outConfs := [⟨(), -1⟩] }
  else some { inConfs := [⟨(), -1⟩] }

/-- An index names a port at the other side of the node, or none. -/
def InPlaceValid (config : LayerConfig Unit) : Prop :=
  (∀ conf ∈ config.inConfs, conf.inPlace = -1 ∨ 0 ≤ conf.inPlace ∧ conf.inPlace < config.outConfs.length) ∧
    ∀ conf ∈ config.outConfs, conf.inPlace = -1 ∨ 0 ≤ conf.inPlace ∧ conf.inPlace < config.inConfs.length

instance (config : LayerConfig Unit) : Decidable (InPlaceValid config) := inferInstanceAs (Decidable (_ ∧ _))

def uninitialized : Allocation := { status := fun _ => .Uninitialized, memoryFromEdge := fun _ => none }

end MKLDNNGraph

end OpenVino.MKLDNNPlugin
