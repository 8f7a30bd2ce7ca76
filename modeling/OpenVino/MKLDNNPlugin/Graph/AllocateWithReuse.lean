import OpenVino.Base.Clusters
import OpenVino.MKLDNNPlugin.Graph.Graph
import OpenVino.MKLDNNPlugin.MemorySolver.Layout

/-!
# Allocating the edges of a graph in one workspace

`allocateWithReuse` gathers the edges that are views on one memory into clusters, gives each cluster a box
that lives as long as any of its edges and is as large as the largest of them, and places the boxes with the
`MemorySolver`. The first pass (`detectClasters`) may leave an edge in several clusters; the second
(`mergeClasters`) merges the clusters of each edge in turn. `clasters_exact`: after it the clusters are the
connected components of the relation "shares memory with", and edges of different clusters that live at one
time have their bytes apart.
-/

namespace OpenVino.MKLDNNPlugin

namespace MKLDNNEdge

inductive Status
  | Uninitialized
  | NeedAllocation
  | NotAllocated
  | Allocated
  | Validated
deriving DecidableEq

end MKLDNNEdge

/-- The types of nodes that the allocation tells apart. -/
inductive NodeType
  | Input
  | Output
  | MemoryInput
  | Other
deriving DecidableEq

structure BlockingDesc where
  offsetPadding : Int := 0
  blockDims : List Int := []
  strides : List Int := []

/-- What the allocation reads of the edges and nodes, apart from the wiring. -/
structure Allocation where
  status : EdgeId → MKLDNNEdge.Status
  /-- `memoryFromEdge`, `none` when it has expired. -/
  memoryFromEdge : EdgeId → Option EdgeId
  blockingDesc : EdgeId → BlockingDesc := fun _ => {}
  /-- The size of an element in bytes; `none` for `Precision::BIN`. -/
  precision : EdgeId → Option Int := fun _ => some 4
  isConstant : NodeId → Bool := fun _ => false
  type : NodeId → NodeType := fun _ => .Other
  reuse_io_tensors : Bool := true

namespace Allocation

variable {al : Allocation} {g : MKLDNNGraph} {clasters : List (List EdgeId)} {edges claster : List EdgeId}
  {edge a b e : EdgeId}

def getSharedEdge (al : Allocation) (edge : EdgeId) : Result EdgeId :=
  match al.memoryFromEdge edge with
  | some e => .ok e
  | none => .error (.exception "Cannot get memory ptr for edge. The pointer on the edge with memory is empty!")

/-! ### The clusters -/

/-- One round of the first pass. -/
def detectClaster (al : Allocation) (edge_clasters : List (List EdgeId)) (edge : EdgeId) :
    Result (List (List EdgeId)) := do
  if al.status edge = .NotAllocated then
    let par ← al.getSharedEdge edge
    if edge_clasters.any (par ∈ ·) then
      return edge_clasters.map fun claster =>
        if par ∈ claster ∧ edge ∉ claster then claster ++ [edge] else claster
    else return edge_clasters ++ [[par, edge]]
  else if edge_clasters.any (edge ∈ ·) then return edge_clasters
  else return edge_clasters ++ [[edge]]

/-- `std::unique` -/
def unique : List EdgeId → List EdgeId
  | a :: b :: l => if a = b then unique (b :: l) else a :: unique (b :: l)
  | l => l

/-- One round of the second pass; `before` compares two pointers. -/
def mergeClaster (std : StdSort EdgeId) (before : EdgeId → EdgeId → Bool) (edge_clasters : List (List EdgeId))
    (edge : EdgeId) : List (List EdgeId) :=
  let to_merge := edge_clasters.filter (edge ∈ ·)
  if 1 < to_merge.length then
    (mergeAt edge (unique (std.sort before to_merge.flatten)) edge_clasters).filter (· ≠ [])
  else edge_clasters

def detectClasters (al : Allocation) (graphEdges : List EdgeId) : Result (List (List EdgeId)) :=
  graphEdges.foldlM al.detectClaster []

def mergeClasters (std : StdSort EdgeId) (before : EdgeId → EdgeId → Bool) (graphEdges : List EdgeId)
    (edge_clasters : List (List EdgeId)) : List (List EdgeId) :=
  graphEdges.foldl (mergeClaster std before) edge_clasters

section Clasters

variable {std : StdSort EdgeId} {before : EdgeId → EdgeId → Bool}

open Relation

/-- `a` is a view on the memory of `b`. -/
def Shares (al : Allocation) (edges : List EdgeId) (a b : EdgeId) : Prop :=
  a ∈ edges ∧ al.status a = .NotAllocated ∧ al.memoryFromEdge a = some b

/-- Clusters of the edges of a graph, of which none connects too much. -/
structure Sound (al : Allocation) (edges : List EdgeId) (clasters : List (List EdgeId)) : Prop where
  sound : ∀ a b, Together clasters a b → EqvGen (al.Shares edges) a b
  known : ∀ a, Together clasters a a → a ∈ edges
  nonempty : [] ∉ clasters

/-- The state of the first pass after the edges `done`. -/
structure Detected (al : Allocation) (edges done : List EdgeId) (clasters : List (List EdgeId)) : Prop
    extends Sound al edges clasters where
  cover : ∀ a ∈ done, Together clasters a a
  linked : ∀ a ∈ done, ∀ b, al.Shares edges a b → Together clasters a b

/-- The state of the second pass: clusters that leave no edge out. -/
structure Covering (al : Allocation) (edges : List EdgeId) (clasters : List (List EdgeId)) : Prop
    extends Gathers (al.Shares edges) clasters where
  known : ∀ a, Together clasters a a → a ∈ edges
  nonempty : [] ∉ clasters
  cover : ∀ a ∈ edges, Together clasters a a

/-- A round may only let clusters grow; `edge` is then covered, and linked to what it is a view on. -/
theorem Detected.grow {clasters' : List (List EdgeId)} {done : List EdgeId} (h : al.Detected edges done clasters)
    (hsound : al.Sound edges clasters') (hgrow : ∀ c ∈ clasters, ∃ c' ∈ clasters', c ⊆ c')
    (hcover : Together clasters' edge edge) (hlinked : ∀ b, al.Shares edges edge b → Together clasters' edge b) :
    al.Detected edges (done ++ [edge]) clasters' := by
  refine ⟨hsound, fun a ha => ?_, fun a ha b hab => ?_⟩
  · rcases List.mem_append.mp ha with ha | ha
    · exact (h.cover a ha).mono hgrow
    · rw [List.mem_singleton.mp ha]
      exact hcover
  · rcases List.mem_append.mp ha with ha | ha
    · exact (h.linked a ha b hab).mono hgrow
    · rw [List.mem_singleton.mp ha] at hab ⊢
      exact hlinked b hab

/-- A new cluster of connected edges. -/
theorem Sound.append {c : List EdgeId} (h : al.Sound edges clasters) (hne : c ≠ []) (hc : ∀ a ∈ c, a ∈ edges)
    (hconn : ∀ a ∈ c, ∀ b ∈ c, EqvGen (al.Shares edges) a b) : al.Sound edges (clasters ++ [c]) := by
  have hcases : ∀ {a b}, Together (clasters ++ [c]) a b → Together clasters a b ∨ a ∈ c ∧ b ∈ c := by
    rintro a b ⟨d, hd, ha, hb⟩
    rcases List.mem_append.mp hd with hd | hd
    · exact .inl ⟨d, hd, ha, hb⟩
    · rw [List.mem_singleton.mp hd] at ha hb
      exact .inr ⟨ha, hb⟩
  refine ⟨fun a b hab => ?_, fun a ha => ?_, ?_⟩
  · rcases hcases hab with hab | ⟨ha, hb⟩
    · exact h.sound a b hab
    · exact hconn a ha b hb
  · rcases hcases ha with ha | ⟨ha, -⟩
    · exact h.known a ha
    · exact hc a ha
  · intro hmem
    rcases List.mem_append.mp hmem with hmem | hmem
    · exact h.nonempty hmem
    · exact hne (List.mem_singleton.mp hmem).symm

/-- The round of an edge that is a view on `par`. -/
theorem Detected.detectClaster_shared {done : List EdgeId} {par : EdgeId} (h : al.Detected edges done clasters)
    (hedge : edge ∈ edges) (hpar : par ∈ edges) (hstatus : al.status edge = .NotAllocated)
    (hshared : al.memoryFromEdge edge = some par) :
    ∃ clasters', al.detectClaster clasters edge = .ok clasters' ∧ al.Detected edges (done ++ [edge]) clasters' := by
  have hshares : al.Shares edges edge par := ⟨hedge, hstatus, hshared⟩
  have honly : ∀ b, al.Shares edges edge b → b = par := by
    intro b hb
    exact Option.some_inj.mp (hb.2.2.symm.trans hshared)
  by_cases hfound : clasters.any (par ∈ ·)
  · -- `grown c` is what becomes of the cluster `c`
    let grown := fun c : List EdgeId => if par ∈ c ∧ edge ∉ c then c ++ [edge] else c
    have hstep : al.detectClaster clasters edge = .ok (clasters.map grown) := by
      simp only [detectClaster, hstatus, if_true, getSharedEdge, hshared, bind, Except.bind, if_pos hfound]
      rfl
    have hsub : ∀ c, c ⊆ grown c := by
      intro c
      by_cases hc : par ∈ c ∧ edge ∉ c
      · simp only [grown, if_pos hc]
        exact List.subset_append_left c [edge]
      · simp only [grown, if_neg hc]
        exact List.Subset.refl c
    have hnew : ∀ c, ∀ a ∈ grown c, a ∈ c ∨ a = edge ∧ par ∈ c := by
      intro c a ha
      by_cases hc : par ∈ c ∧ edge ∉ c
      · simp only [grown, if_pos hc, List.mem_append, List.mem_singleton] at ha
        rcases ha with ha | ha
        · exact .inl ha
        · exact .inr ⟨ha, hc.1⟩
      · simp only [grown, if_neg hc] at ha
        exact .inl ha
    -- what is in a grown cluster is connected to something in the old one
    have hconn : ∀ c ∈ clasters, ∀ a ∈ grown c, ∃ b ∈ c, EqvGen (al.Shares edges) a b := by
      intro c hc a ha
      rcases hnew c a ha with ha | ⟨rfl, hparc⟩
      · exact ⟨a, ha, .refl a⟩
      · exact ⟨par, hparc, .rel _ _ hshares⟩
    have hedgepar : Together (clasters.map grown) edge par := by
      obtain ⟨c, hc, hparc⟩ := List.any_eq_true.mp hfound
      have hparc := of_decide_eq_true hparc
      refine ⟨grown c, List.mem_map_of_mem hc, ?_, hsub c hparc⟩
      by_cases hedgec : edge ∈ c
      · exact hsub c hedgec
      · simp [grown, hparc, hedgec]
    refine ⟨_, hstep, h.grow ⟨?_, ?_, ?_⟩ ?_ ?_ ?_⟩
    · rintro a b ⟨d, hd, ha, hb⟩
      obtain ⟨c, hc, rfl⟩ := List.mem_map.mp hd
      obtain ⟨a', ha', haa'⟩ := hconn c hc a ha
      obtain ⟨b', hb', hbb'⟩ := hconn c hc b hb
      exact (haa'.trans _ _ _ (h.sound a' b' ⟨c, hc, ha', hb'⟩)).trans _ _ _ (hbb'.symm _ _)
    · rintro a ⟨d, hd, ha, -⟩
      obtain ⟨c, hc, rfl⟩ := List.mem_map.mp hd
      rcases hnew c a ha with ha | ⟨rfl, -⟩
      · exact h.known a ⟨c, hc, ha, ha⟩
      · exact hedge
    · intro hmem
      obtain ⟨c, hc, hempty⟩ := List.mem_map.mp hmem
      have := hempty ▸ hsub c
      exact h.nonempty (List.subset_nil.mp this ▸ hc)
    · intro c hc
      exact ⟨grown c, List.mem_map_of_mem hc, hsub c⟩
    · obtain ⟨c, hc, ha, -⟩ := hedgepar
      exact ⟨c, hc, ha, ha⟩
    · intro b hb
      rw [honly b hb]
      exact hedgepar
  · have hstep : al.detectClaster clasters edge = .ok (clasters ++ [[par, edge]]) := by
      simp only [detectClaster, hstatus, if_true, getSharedEdge, hshared, bind, Except.bind, if_neg hfound]
      rfl
    have hmem : [par, edge] ∈ clasters ++ [[par, edge]] := by simp
    refine ⟨_, hstep, h.grow ?_ ?_ ?_ ?_⟩
    · have hpe : EqvGen (al.Shares edges) edge par := .rel _ _ hshares
      have hall : ∀ a ∈ [par, edge], EqvGen (al.Shares edges) a par := by
        simp only [List.mem_cons, List.not_mem_nil, or_false, forall_eq_or_imp, forall_eq]
        exact ⟨.refl par, hpe⟩
      refine h.toSound.append (List.cons_ne_nil _ _) ?_ fun a ha b hb => ?_
      · simp [hpar, hedge]
      · exact (hall a ha).trans _ _ _ ((hall b hb).symm _ _)
    · intro c hc
      exact ⟨c, List.mem_append_left _ hc, List.Subset.refl c⟩
    · exact ⟨_, hmem, by simp, by simp⟩
    · intro b hb
      rw [honly b hb]
      exact ⟨_, hmem, by simp, by simp⟩

/-- The round of an edge with a memory of its own. -/
theorem Detected.detectClaster_own {done : List EdgeId} (h : al.Detected edges done clasters) (hedge : edge ∈ edges)
    (hstatus : al.status edge ≠ .NotAllocated) :
    ∃ clasters', al.detectClaster clasters edge = .ok clasters' ∧ al.Detected edges (done ++ [edge]) clasters' := by
  have hnone : ∀ b, ¬ al.Shares edges edge b := fun b hb => hstatus hb.2.1
  by_cases hfound : clasters.any (edge ∈ ·)
  · refine ⟨clasters, by simp only [detectClaster, if_neg hstatus, if_pos hfound]; rfl, h.grow h.toSound ?_ ?_ ?_⟩
    · exact fun c hc => ⟨c, hc, List.Subset.refl c⟩
    · obtain ⟨c, hc, hmem⟩ := List.any_eq_true.mp hfound
      exact ⟨c, hc, of_decide_eq_true hmem, of_decide_eq_true hmem⟩
    · exact fun b hb => absurd hb (hnone b)
  · refine ⟨clasters ++ [[edge]], by simp only [detectClaster, if_neg hstatus, if_neg hfound]; rfl,
      h.grow ?_ ?_ ?_ ?_⟩
    · refine h.toSound.append (List.cons_ne_nil _ _) ?_ ?_
      · simp [hedge]
      · simp only [List.mem_singleton, forall_eq]
        exact .refl edge
    · exact fun c hc => ⟨c, List.mem_append_left _ hc, List.Subset.refl c⟩
    · exact ⟨[edge], by simp, by simp, by simp⟩
    · exact fun b hb => absurd hb (hnone b)

/-- **The first pass.** The clusters leave nothing out and connect nothing too much, but may overlap. -/
theorem detectClasters_ok
    (hshared : ∀ e ∈ edges, al.status e = .NotAllocated → ∃ p ∈ edges, al.memoryFromEdge e = some p) :
    ∃ clasters, al.detectClasters edges = .ok clasters ∧ al.Covering edges clasters := by
  suffices ∀ post done clasters, edges = done ++ post → al.Detected edges done clasters →
      ∃ clasters', post.foldlM al.detectClaster clasters = .ok clasters' ∧ al.Detected edges edges clasters' by
    have hinit : al.Detected edges [] [] :=
      ⟨⟨by simp [Together], by simp [Together], List.not_mem_nil⟩, by simp, by simp⟩
    obtain ⟨clasters, hrun, h⟩ := this edges [] [] rfl hinit
    exact ⟨clasters, hrun, ⟨h.sound, fun a b hab => h.linked a hab.1 b hab⟩, h.known, h.nonempty, h.cover⟩
  intro post
  induction post with
  | nil =>
    intro done clasters hdone h
    rw [List.append_nil] at hdone
    exact ⟨clasters, rfl, hdone ▸ h⟩
  | cons edge post ih =>
    intro done clasters hdone h
    have hedge : edge ∈ edges := by
      rw [hdone]
      exact List.mem_append_right _ List.mem_cons_self
    obtain ⟨clasters₁, hstep, h₁⟩ : ∃ clasters', al.detectClaster clasters edge = .ok clasters' ∧
        al.Detected edges (done ++ [edge]) clasters' := by
      by_cases hstatus : al.status edge = .NotAllocated
      · obtain ⟨par, hpar, hmem⟩ := hshared edge hedge hstatus
        exact h.detectClaster_shared hedge hpar hstatus hmem
      · exact h.detectClaster_own hedge hstatus
    obtain ⟨clasters', hrun, h'⟩ := ih (done ++ [edge]) clasters₁ (by rw [hdone, List.append_assoc]; rfl) h₁
    refine ⟨clasters', ?_, h'⟩
    rw [List.foldlM_cons, hstep]
    exact hrun

theorem mem_unique {l : List EdgeId} : a ∈ unique l ↔ a ∈ l := by
  fun_induction unique l with
  | case1 b l ih => simp [ih]
  | case2 b c l hne ih => simp [ih]
  | case3 l hl => rfl

/-- Empty clusters hold nothing. -/
theorem together_filter : Together (clasters.filter (· ≠ [])) a b ↔ Together clasters a b := by
  constructor
  · rintro ⟨c, hc, ha, hb⟩
    exact ⟨c, List.mem_of_mem_filter hc, ha, hb⟩
  · rintro ⟨c, hc, ha, hb⟩
    exact ⟨c, List.mem_filter.mpr ⟨hc, decide_eq_true (List.ne_nil_of_mem ha)⟩, ha, hb⟩

theorem number_filter : number (clasters.filter (· ≠ [])) a = number clasters a := by
  rw [number, number, List.countP_filter]
  apply List.countP_congr
  intro c _
  simp only [Bool.and_eq_true, decide_eq_true_eq, and_iff_left_iff_imp]
  exact List.ne_nil_of_mem

theorem one_le_number (h : Together clasters a a) : 1 ≤ number clasters a := by
  obtain ⟨c, hc, ha, -⟩ := h
  exact List.countP_pos_iff.mpr ⟨c, hc, decide_eq_true ha⟩

/-- **A round of the second pass.** `edge` is in one cluster afterwards, and no edge in more than before. -/
theorem Covering.mergeClaster (h : al.Covering edges clasters) (hedge : edge ∈ edges) :
    al.Covering edges (mergeClaster std before clasters edge) ∧
      number (Allocation.mergeClaster std before clasters edge) edge = 1 ∧
      ∀ a, number (Allocation.mergeClaster std before clasters edge) a ≤ number clasters a := by
  have hlen : (clasters.filter (edge ∈ ·)).length = number clasters edge := List.countP_eq_length_filter.symm
  have hself := h.cover edge hedge
  by_cases hmerge : 1 < (clasters.filter (edge ∈ ·)).length
  · rw [Allocation.mergeClaster, if_pos hmerge]
    have hu : ∀ a, a ∈ unique (std.sort before (clasters.filter (edge ∈ ·)).flatten) ↔
        Together clasters edge a := by
      intro a
      simp only [mem_unique, StdSort.mem_sort, List.mem_flatten, List.mem_filter, decide_eq_true_eq, Together,
        and_assoc]
    generalize unique (std.sort before (clasters.filter (edge ∈ ·)).flatten) = u at hu
    have htogether : ∀ {a b}, Together ((mergeAt edge u clasters).filter (· ≠ [])) a b ↔
        Together clasters a b ∨ Together clasters edge a ∧ Together clasters edge b := by
      intro a b
      rw [together_filter, together_mergeAt hu]
    refine ⟨⟨⟨fun a b hab => ?_, fun a b hab => ?_⟩, fun a ha => ?_, ?_, fun a ha => ?_⟩, ?_, fun a => ?_⟩
    · rcases htogether.mp hab with hab | ⟨ha, hb⟩
      · exact h.sound a b hab
      · exact ((h.sound edge a ha).symm _ _).trans _ _ _ (h.sound edge b hb)
    · exact htogether.mpr (.inl (h.linked a b hab))
    · rcases htogether.mp ha with ha | ⟨⟨c, hc, -, ha⟩, -⟩
      · exact h.known a ha
      · exact h.known a ⟨c, hc, ha, ha⟩
    · simp
    · exact htogether.mpr (.inl (h.cover a ha))
    · rw [number_filter]
      exact number_mergeAt_self hself ((hu edge).mpr hself)
    · rw [number_filter]
      exact number_mergeAt_le (fun a ha => (hu a).mp ha) a
  · rw [Allocation.mergeClaster, if_neg hmerge]
    have := one_le_number hself
    exact ⟨h, by omega, fun a => Nat.le_refl _⟩

/-- **The second pass.** -/
theorem Covering.mergeClasters (std : StdSort EdgeId) (before : EdgeId → EdgeId → Bool) (h : al.Covering edges clasters) :
    al.Covering edges (mergeClasters std before edges clasters) ∧
      ∀ a ∈ edges, number (Allocation.mergeClasters std before edges clasters) a = 1 := by
  suffices ∀ (post : List EdgeId) clasters, (∀ e ∈ post, e ∈ edges) → al.Covering edges clasters →
      al.Covering edges (post.foldl (Allocation.mergeClaster std before) clasters) ∧
        (∀ a ∈ post, number (post.foldl (Allocation.mergeClaster std before) clasters) a ≤ 1) ∧
        ∀ a, number (post.foldl (Allocation.mergeClaster std before) clasters) a ≤ number clasters a by
    obtain ⟨hcov, hone, -⟩ := this edges clasters (fun e he => he) h
    exact ⟨hcov, fun a ha => Nat.le_antisymm (hone a ha) (one_le_number (hcov.cover a ha))⟩
  intro post
  induction post with
  | nil => exact fun clasters _ h => ⟨h, by simp, fun a => Nat.le_refl _⟩
  | cons edge post ih =>
    intro clasters hsub h
    obtain ⟨h₁, hone, hle⟩ := h.mergeClaster (hsub edge List.mem_cons_self)
    obtain ⟨h', hpost, hle'⟩ := ih _ (fun e he => hsub e (List.mem_cons_of_mem _ he)) h₁
    refine ⟨h', fun a ha => ?_, fun a => (hle' a).trans (hle a)⟩
    rcases List.mem_cons.mp ha with rfl | ha
    · exact (hle' a).trans (Nat.le_of_eq hone)
    · exact hpost a ha

end Clasters

/-! ### The boxes -/

def alignment : Int := 32

def div_up (a b : Int) : Int := (a + b - 1).tdiv b

/-- The bytes from the begin of the data to its last element. -/
def e_size (al : Allocation) (edge : EdgeId) : Int :=
  let block_desk := al.blockingDesc edge
  let e_size := List.foldl (fun e_size p => e_size + (p.1 - 1) * p.2) (block_desk.offsetPadding + 1)
    (block_desk.blockDims.zip block_desk.strides)
  e_size * (al.precision edge).getD 1

def e_start (g : MKLDNNGraph) (edge : EdgeId) : Int := g.execIndex (g.parentOf edge)

def e_finish (g : MKLDNNGraph) (edge : EdgeId) : Int := g.execIndex (g.childOf edge)

def isConstOutput (al : Allocation) (g : MKLDNNGraph) (edge : EdgeId) : Bool :=
  al.isConstant (g.parentOf edge) && !al.isConstant (g.childOf edge)

def growBox (al : Allocation) (g : MKLDNNGraph) (box : Box) (edge : EdgeId) : Box :=
  { box with
    start := min (e_start g edge) box.start
    finish := max (e_finish g edge) box.finish
    size := max (al.e_size edge) box.size }

/-- The box of the edges of a cluster, before its life time is widened. -/
def boundingBox (al : Allocation) (g : MKLDNNGraph) (claster : List EdgeId) (i : Nat) : Box :=
  claster.foldl (al.growBox g) ⟨2 ^ 31 - 1, 0, 0, i⟩

def makeBox (al : Allocation) (g : MKLDNNGraph) (claster : List EdgeId) (i : Nat) : Box :=
  let box := al.boundingBox g claster i
  let isConst := claster.any fun edge => al.isConstOutput g edge || al.type (g.parentOf edge) = .MemoryInput
  let isOutput := claster.any fun edge => al.type (g.childOf edge) = .Output
  let isInput := claster.any fun edge => al.type (g.parentOf edge) = .Input
  let box :=
    if al.reuse_io_tensors then
      let box := if isInput || isConst then { box with start := 0 } else box
      if isOutput || isConst then { box with finish := -1 } else box
    else if isInput || isOutput || isConst then { box with start := 0, finish := -1 }
    else box
  { box with size := div_up box.size alignment }

def makeBoxes (al : Allocation) (g : MKLDNNGraph) (edge_clasters : List (List EdgeId)) : List Box :=
  edge_clasters.mapIdx fun i claster => al.makeBox g claster i

section Boxes

variable {box : Box} {i : Nat}

/-- The box is open at least as long as the edge and has room for it. -/
structure Fits (al : Allocation) (g : MKLDNNGraph) (box : Box) (edge : EdgeId) : Prop where
  start : box.start ≤ e_start g edge
  finish : box.finish = -1 ∨ e_finish g edge ≤ box.finish
  size : al.e_size edge ≤ box.size * alignment

theorem le_div_up {n : Int} (hn : 0 ≤ n) : 0 ≤ div_up n alignment ∧ n ≤ div_up n alignment * alignment := by
  simp only [div_up, alignment]
  rw [Int.tdiv_eq_ediv_of_nonneg (by omega)]
  omega

/-- The fold over the edges of a cluster. -/
theorem foldl_growBox (al : Allocation) (g : MKLDNNGraph) (claster : List EdgeId) (box : Box) :
    (claster.foldl (al.growBox g) box).id = box.id ∧ (claster.foldl (al.growBox g) box).start ≤ box.start ∧ box.finish ≤ (claster.foldl (al.growBox g) box).finish ∧
    box.size ≤ (claster.foldl (al.growBox g) box).size ∧
    ∀ e ∈ claster, (claster.foldl (al.growBox g) box).start ≤ e_start g e ∧
      e_finish g e ≤ (claster.foldl (al.growBox g) box).finish ∧
      al.e_size e ≤ (claster.foldl (al.growBox g) box).size := by
  induction claster generalizing box with
  | nil => simp
  | cons edge claster ih =>
    obtain ⟨hid, hstart, hfinish, hsize, hall⟩ := ih (al.growBox g box edge)
    rw [List.foldl_cons]
    generalize claster.foldl (al.growBox g) (al.growBox g box edge) = box' at hid hstart hfinish hsize hall ⊢
    simp only [growBox] at hid hstart hfinish hsize
    refine ⟨hid, by omega, by omega, by omega, fun e he => ?_⟩
    rcases List.mem_cons.mp he with rfl | he
    · omega
    · exact hall e he

theorem foldl_growBox_start_nonneg (hbox : 0 ≤ box.start) (hexec : ∀ e ∈ claster, 0 ≤ e_start g e) :
    0 ≤ (claster.foldl (al.growBox g) box).start := by
  induction claster generalizing box with
  | nil => exact hbox
  | cons edge claster ih =>
    have := hexec edge List.mem_cons_self
    refine ih ?_ fun e he => hexec e (List.mem_cons_of_mem _ he)
    simp only [growBox]
    omega

/-- **The box of a cluster.** -/
theorem makeBox_spec (hne : claster ≠ []) (hexec : ∀ e ∈ claster, 0 ≤ e_start g e ∧ e_start g e ≤ e_finish g e) :
    (al.makeBox g claster i).Valid ∧ (al.makeBox g claster i).id = i ∧
      ∀ e ∈ claster, al.Fits g (al.makeBox g claster i) e := by
  obtain ⟨hid, -, hfinish, hsize, hall⟩ :=
    foldl_growBox al g claster ⟨2 ^ 31 - 1, 0, 0, i⟩
  have hstart : 0 ≤ (al.boundingBox g claster i).start :=
    foldl_growBox_start_nonneg (by norm_num) fun e he => (hexec e he).1
  -- the life time is not empty, as there is an edge in the cluster
  have hle : (al.boundingBox g claster i).start ≤ (al.boundingBox g claster i).finish := by
    obtain ⟨e, he⟩ := List.exists_mem_of_ne_nil claster hne
    have := hall e he
    have := hexec e he
    simp only [boundingBox]
    omega
  rw [← boundingBox] at hid hfinish hsize hall
  obtain ⟨hpos, hroom⟩ := le_div_up hsize
  simp only [makeBox]
  generalize (claster.any fun edge => al.isConstOutput g edge || al.type (g.parentOf edge) = .MemoryInput) = isConst
  generalize (claster.any fun edge => (al.type (g.childOf edge) = .Output : Bool)) = isOutput
  generalize (claster.any fun edge => (al.type (g.parentOf edge) = .Input : Bool)) = isInput
  generalize al.boundingBox g claster i = box at hid hfinish hsize hall hstart hle hpos hroom
  have hfits : ∀ box' : Box, box'.id = box.id → 0 ≤ box'.start → box'.start ≤ box.start →
      (box'.finish = -1 ∨ box'.finish = box.finish) → box'.size = div_up box.size alignment →
      box'.Valid ∧ box'.id = i ∧ ∀ e ∈ claster, al.Fits g box' e := by
    intro box' hid' hnonneg hstart' hfinish' hsize'
    refine ⟨⟨by omega, hnonneg, by omega⟩, hid'.trans hid, fun e he => ?_⟩
    obtain ⟨hs, hf, hz⟩ := hall e he
    refine ⟨by omega, by omega, ?_⟩
    rw [hsize']
    exact hz.trans hroom
  by_cases hreuse : al.reuse_io_tensors
  · simp only [hreuse, if_true]
    by_cases hin : (isInput || isConst) = true
    · by_cases hout : (isOutput || isConst) = true
      · simp only [if_pos hin, if_pos hout]
        exact hfits _ rfl (Int.le_refl 0) hstart (.inl rfl) rfl
      · simp only [if_pos hin, if_neg hout]
        exact hfits _ rfl (Int.le_refl 0) hstart (.inr rfl) rfl
    · by_cases hout : (isOutput || isConst) = true
      · simp only [if_neg hin, if_pos hout]
        exact hfits _ rfl hstart (Int.le_refl _) (.inl rfl) rfl
      · simp only [if_neg hin, if_neg hout]
        exact hfits _ rfl hstart (Int.le_refl _) (.inr rfl) rfl
  · simp only [if_neg hreuse]
    by_cases hio : (isInput || isOutput || isConst) = true
    · simp only [if_pos hio]
      exact hfits _ rfl (Int.le_refl 0) hstart (.inl rfl) rfl
    · simp only [if_neg hio]
      exact hfits _ rfl hstart (Int.le_refl _) (.inr rfl) rfl

end Boxes

/-! ### The allocation -/

/-- The edges of cluster `i` that get memory, with their offsets in bytes. -/
def allocateClaster (al : Allocation) (memSolver : MemorySolver) (claster : List EdgeId) (i : Nat) :
    Result (List (EdgeId × Int)) := do
  let allocated := claster.filter (al.status · = .NeedAllocation)
  let allocated ← allocated.mapM fun edge => do
    let offset ← memSolver.getOffset i
    return (edge, offset * alignment)
  ieAssert "count == 1" (allocated.length = 1)
  return allocated

def allocateWithReuse (al : Allocation) (g : MKLDNNGraph) (std : StdSort EdgeId) (before : EdgeId → EdgeId → Bool)
    (stdBox : StdSort Box) : Result (List (EdgeId × Int)) := do
  let edge_clasters ← al.detectClasters g.graphEdges
  let edge_clasters := mergeClasters std before g.graphEdges edge_clasters
  let (_, memSolver) ← (MemorySolver.ofBoxes stdBox (al.makeBoxes g edge_clasters)).solve stdBox
  let allocated ← edge_clasters.zipIdx.mapM fun p => al.allocateClaster memSolver p.1 p.2
  return allocated.flatten

section Layout

open Relation

variable {stdBox : StdSort Box} {i : Nat}

/-- The life times of the edges intersect. -/
def LiveTogether (g : MKLDNNGraph) (a b : EdgeId) : Prop := e_start g a ≤ e_finish g b ∧ e_start g b ≤ e_finish g a

/-- The bytes of the workspace that an edge of a cluster at `offset` has. -/
def bytes (al : Allocation) (offset : Int) (e : EdgeId) : Set Int :=
  Set.Ico (offset * alignment) (offset * alignment + al.e_size e)

theorem Fits.meets {b c : Box} (ha : al.Fits g b e) (hc : al.Fits g c a) (h : LiveTogether g e a) : b.Meets c := by
  obtain ⟨hea, hae⟩ := h
  refine ⟨ha.finish.imp_right fun hfin => ?_, hc.finish.imp_right fun hfin => ?_⟩
  · exact hc.start.trans (hae.trans hfin)
  · exact ha.start.trans (hea.trans hfin)

/-- Boxes that are apart in units of the alignment are apart in bytes. -/
theorem Fits.disjoint {b c : Box} {o p : Int} (ha : al.Fits g b e) (hc : al.Fits g c a)
    (h : Disjoint (Set.Ico o (o + b.size)) (Set.Ico p (p + c.size))) :
    Disjoint (al.bytes o e) (al.bytes p a) := by
  have hsize := ha.size
  have hsize' := hc.size
  simp only [alignment] at hsize hsize'
  rw [Set.disjoint_left] at h ⊢
  intro x hx hx'
  simp only [bytes, alignment, Set.mem_Ico] at hx hx'
  refine h (a := x / 32) ?_ ?_
  · rw [Set.mem_Ico]
    omega
  · rw [Set.mem_Ico]
    omega

theorem makeBoxes_getElem? : (al.makeBoxes g clasters)[i]? = (clasters[i]?).map fun c => al.makeBox g c i := by
  rw [makeBoxes, List.getElem?_mapIdx]

/-- **The offsets of the clusters.** -/
theorem solve_makeBoxes (stdBox : StdSort Box) (hne : [] ∉ clasters)
    (hexec : ∀ c ∈ clasters, ∀ e ∈ c, 0 ≤ e_start g e ∧ e_start g e ≤ e_finish g e)
    (hcount : clasters.length ≤ 2 ^ 31) :
    ∃ (ret : Int) (ms : MemorySolver) (offset : Nat → Int),
      (MemorySolver.ofBoxes stdBox (al.makeBoxes g clasters)).solve stdBox = .ok (ret, ms) ∧
      (∀ (i : Nat) c, clasters[i]? = some c → ms.getOffset i = .ok (offset i) ∧ 0 ≤ offset i ∧
        ∀ e ∈ c, offset i * alignment + al.e_size e ≤ ret * alignment) ∧
      ∀ (i j : Nat) c d, i ≠ j → clasters[i]? = some c → clasters[j]? = some d →
        ∀ a ∈ c, ∀ b ∈ d, LiveTogether g a b → Disjoint (al.bytes (offset i) a) (al.bytes (offset j) b) := by
  have hspec : ∀ i c, clasters[i]? = some c → (al.makeBox g c i).Valid ∧ (al.makeBox g c i).id = i ∧
      ∀ e ∈ c, al.Fits g (al.makeBox g c i) e := by
    intro i c hc
    have hmem := List.mem_of_getElem? hc
    exact makeBox_spec (fun h => hne (h ▸ hmem)) (hexec c hmem)
  have hbox : ∀ i c, clasters[i]? = some c → al.makeBox g c i ∈ al.makeBoxes g clasters := by
    intro i c hc
    refine List.mem_of_getElem? (i := i) ?_
    rw [makeBoxes_getElem?, hc, Option.map_some]
  have hvalid : ∀ b ∈ al.makeBoxes g clasters, b.Valid := by
    intro b hb
    obtain ⟨i, hi⟩ := List.getElem?_of_mem hb
    rw [makeBoxes_getElem?, Option.map_eq_some_iff] at hi
    obtain ⟨c, hc, rfl⟩ := hi
    exact (hspec i c hc).1
  have hids : ((al.makeBoxes g clasters).map Box.id).Nodup := by
    have heq : (al.makeBoxes g clasters).map Box.id = (List.range clasters.length).map fun i : Nat => (i : Int) := by
      refine List.ext_getElem? fun i => ?_
      rw [List.getElem?_map, makeBoxes_getElem?, Option.map_map, List.getElem?_map]
      by_cases hi : i < clasters.length
      · rw [List.getElem?_eq_getElem hi, List.getElem?_range hi]
        exact congrArg some (hspec i _ (List.getElem?_eq_getElem hi)).2.1
      · rw [List.getElem?_eq_none (Nat.le_of_not_lt hi), List.getElem?_eq_none (by simpa using Nat.le_of_not_lt hi)]
        rfl
    rw [heq]
    exact (List.nodup_range).map fun i j hij => Int.ofNat_inj.mp hij
  obtain ⟨ret, ms, offset, hsolve, -, hplaced, hdisj, -⟩ := solve_layout stdBox _ hvalid hids
  refine ⟨ret, ms, fun i => offset i, hsolve, fun i c hc => ?_, fun i j c d hij hc hd a ha b hb hlive => ?_⟩
  · obtain ⟨hval, hid, hfits⟩ := hspec i c hc
    obtain ⟨hlookup, hpos, htop⟩ := hplaced _ (hbox i c hc)
    have hi : i < clasters.length := (List.getElem?_eq_some_iff.mp hc).1
    have hoffset := getOffset_of_fits (b := al.makeBox g c i) ⟨by omega, by omega⟩ hlookup
    rw [hid] at hoffset hpos htop
    refine ⟨hoffset, hpos, fun e he => ?_⟩
    have := (hfits e he).size
    simp only [alignment] at this ⊢
    omega
  · obtain ⟨-, hidc, hfitsc⟩ := hspec i c hc
    obtain ⟨-, hidd, hfitsd⟩ := hspec j d hd
    have hne' : al.makeBox g c i ≠ al.makeBox g d j := by
      intro heq
      rw [heq, hidd] at hidc
      exact hij (Int.ofNat_inj.mp hidc).symm
    have := hdisj _ (hbox i c hc) _ (hbox j d hd) hne' ((hfitsc a ha).meets (hfitsd b hb) hlive)
    rw [hidc, hidd] at this
    exact (hfitsc a ha).disjoint (hfitsd b hb) this

/-- What `allocateWithReuse` gives an edge is the offset of its cluster. -/
theorem mem_allocateWithReuse {std : StdSort EdgeId} {before : EdgeId → EdgeId → Bool} {ret : Int}
    {ms : MemorySolver} {allocated : List (EdgeId × Int)} {p : EdgeId × Int}
    (hrun : al.allocateWithReuse g std before stdBox = .ok allocated)
    (hdetect : al.detectClasters g.graphEdges = .ok clasters)
    (hsolve : (MemorySolver.ofBoxes stdBox (al.makeBoxes g (mergeClasters std before g.graphEdges clasters))).solve
      stdBox = .ok (ret, ms)) (hp : p ∈ allocated) :
    ∃ (i : Nat) (c : List EdgeId) (offset : Int), (mergeClasters std before g.graphEdges clasters)[i]? = some c ∧ p.1 ∈ c ∧
      al.status p.1 = .NeedAllocation ∧ ms.getOffset i = .ok offset ∧ p.2 = offset * alignment := by
  simp only [allocateWithReuse, bind_ok_iff, pure_ok_iff] at hrun
  obtain ⟨clasters', hdetect', ⟨ret', ms'⟩, hsolve', lists, hlists, rfl⟩ := hrun
  obtain rfl := Except.ok.inj (hdetect.symm.trans hdetect')
  obtain ⟨rfl, rfl⟩ := Prod.mk.inj (Except.ok.inj (hsolve.symm.trans hsolve'))
  obtain ⟨l, hl, hpl⟩ := List.mem_flatten.mp hp
  obtain ⟨⟨c, i⟩, hci, hclaster⟩ := mem_mapM_ok hlists hl
  simp only [allocateClaster, bind_ok_iff, pure_ok_iff] at hclaster
  obtain ⟨l', hl', _, -, rfl⟩ := hclaster
  obtain ⟨e, he, hedge⟩ := mem_mapM_ok hl' hpl
  obtain ⟨hec, hstatus⟩ := List.mem_filter.mp he
  simp only [bind_ok_iff, pure_ok_iff] at hedge
  obtain ⟨offset, hoffset, rfl⟩ := hedge
  exact ⟨i, c, offset, List.mem_zipIdx_iff_getElem?.mp hci, hec, of_decide_eq_true hstatus, hoffset, rfl⟩

/-- Edge 1 is a view on 3, and 2 on 4, which is a view on 3 too; edge 5 lives beside them. -/
def chainOfViews : Allocation where
  status e := if e = 3 ∨ e = 5 then .NeedAllocation else .NotAllocated
  memoryFromEdge e := if e = 1 then some 3 else if e = 2 then some 4 else if e = 4 then some 3 else none

def chainGraph : MKLDNNGraph where
  graphEdges := [1, 2, 3, 4, 5]
  edge e :=
    if e = 1 then ⟨1, 3, 0, 0⟩ else if e = 2 then ⟨2, 3, 0, 1⟩ else if e = 3 then ⟨0, 1, 0, 0⟩
    else if e = 4 then ⟨1, 2, 0, 0⟩ else ⟨0, 3, 0, 2⟩
  execIndex n := n

/-- The first pass leaves edge 4 in two clusters. -/
example : chainOfViews.detectClasters chainGraph.graphEdges = .ok [[3, 1, 4], [4, 2], [5]] := by decide

end Layout

end Allocation

end OpenVino.MKLDNNPlugin
