import OpenVino.Base.Runs
import OpenVino.Vpu.Model.Revert
import Mathlib.Algebra.BigOperators.Ring.Finset

/-!
# Runs of editing operations: the counters

`editSystem` is the transition system of the editing operations, from the empty model; `allowed` restricts
the calls. `edges_eq_numEdges` reads the number that the invariant is about off the list of input edges of a
stage, and `edgeCount_exact` is the resulting statement about every run in which `disconnectStage` and
`removeStage` leave injections alone.
-/

namespace OpenVino.Vpu

/-- Each step is a call that returned. -/
def editSystem (allowed : Model → EditOp → Prop) : System Model where
  init m := m = {}
  step m m' := ∃ op, allowed m op ∧ op.exec m = .ok m'

def runEdits (ops : List EditOp) (m : Model) : Result Model := ops.foldlM EditOp.exec m

/-- A stage that is disconnected takes no part in an injection. -/
def OutsideInjections (m : Model) : EditOp → Prop
  | .disconnectStage s => m.graph.Apart s
  | .removeStage s => m.graph.Apart s
  | _ => True

theorem reachable_of_runEdits {allowed : Model → EditOp → Prop} {ops : List EditOp} {m m' : Model}
    (hm : (editSystem allowed).Reachable m) (hall : ∀ op ∈ ops, ∀ m, allowed m op) (h : runEdits ops m = .ok m') :
    (editSystem allowed).Reachable m' := by
  refine foldlM_ok_induct (I := fun _ m => (editSystem allowed).Reachable m) h hm ?_
  rintro pre op post m₁ m₂ rfl hm₁ h₁
  exact hm₁.step ⟨op, hall op (by simp) m₁, h₁⟩

/-! ### The invariant over runs -/

theorem exec_inv {m m' : Model} {op : EditOp} (hm : m.Inv) (hop : OutsideInjections m op) (h : op.exec m = .ok m') :
    m'.Inv := by
  cases op with
  | addData usage =>
    cases h
    exact hm.of_same (m.addData_inv hm.toInvExcept usage) ⟨rfl, rfl, rfl, rfl⟩
  | setDataEdges d parent children =>
    cases h
    exact hm.of_same (m.setDataEdges_inv hm.toInvExcept parent children) ⟨rfl, rfl, rfl, rfl⟩
  | addNewStage category inputs outputs => exact Model.addNewStage_inv hm h
  | duplicateStage s inputs outputs => exact Model.duplicateStage_inv hm h
  | addStageInput s d =>
    obtain ⟨r, hr, rfl⟩ := map_ok_iff.mp h
    have hinv := Model.addStageInput_inv hm.toInvExcept hr fun _ hc => hc
    obtain ⟨-, -, o, -, rfl⟩ := Model.addStageInput_ok hr
    exact hm.of_same hinv ⟨rfl, rfl, rfl, rfl⟩
  | addStageOutput s d =>
    obtain ⟨r, hr, rfl⟩ := map_ok_iff.mp h
    have hinv := Model.addStageOutput_inv hm.toInvExcept hr fun _ hc => hc
    obtain ⟨-, -, -, o, -, rfl⟩ := Model.addStageOutput_ok hr
    exact hm.of_same hinv ⟨rfl, rfl, rfl, rfl⟩
  | addTempBuffer s =>
    have hinv := Model.addTempBuffer_inv hm.toInvExcept h
    obtain rfl := Model.addTempBuffer_ok h
    exact hm.of_same hinv ⟨rfl, rfl, rfl, rfl⟩
  | replaceStageInput e d =>
    have hinv := Model.replaceStageInput_inv hm.toInvExcept h fun _ hc => hc
    obtain ⟨r, o₁, o₂, -, -, -, -, -, -, rfl⟩ := Model.replaceStageInput_ok h
    exact hm.of_same hinv ⟨rfl, rfl, rfl, rfl⟩
  | replaceStageOutput e d =>
    have hinv := Model.replaceStageOutput_inv hm.toInvExcept h fun _ hc => hc
    obtain ⟨r, o₁, o₂, -, -, -, -, -, -, -, rfl⟩ := Model.replaceStageOutput_ok h
    exact hm.of_same hinv ⟨rfl, rfl, rfl, rfl⟩
  | injectStage parent child => exact (Model.injectStage_inv hm h).1
  | revertInjection i =>
    obtain ⟨parent, child, -, -, -, -, hi, -⟩ := Model.revertInjection_ok h
    exact (Model.revertInjection_inv hm h hi).1
  | disconnectStage s => exact (Model.disconnectStage_inv hm hop h).1
  | removeStage s => exact Model.removeStage_inv hm hop h

theorem reachable_inv {m : Model} (h : (editSystem OutsideInjections).Reachable m) : m.Inv := by
  refine h.induct (I := Model.Inv) ?_ ?_
  · rintro m rfl
    exact Model.inv_empty
  · rintro m m' - hm ⟨op, hop, hexec⟩
    exact exec_inv hm hop hexec

/-! ### The number of edges -/

/-- A list of edges, counted by the number that each leads to. -/
theorem sum_countP (l : List EdgeId) (f : EdgeId → Option Nat) (Q : Nat → Prop) [DecidablePred Q] {n : Nat}
    (h : ∀ e ∈ l, ∀ d, f e = some d → d < n) :
    ∑ d ∈ Finset.range n, (if Q d then (l.countP fun e => f e = some d : Int) else 0) =
      l.countP fun e => (f e).any fun d => Q d := by
  induction l with
  | nil => simp
  | cons e l ih =>
    obtain ⟨he, hl⟩ := List.forall_mem_cons.mp h
    simp only [List.countP_cons, Nat.cast_add]
    rw [← ih hl]
    have hsplit : ∀ d, (if Q d then ((l.countP fun e => f e = some d : Nat) : Int) +
        ((if decide (f e = some d) = true then 1 else 0 : Nat) : Int) else 0) =
        (if Q d then ((l.countP fun e => f e = some d : Nat) : Int) else 0) +
          if f e = some d ∧ Q d then 1 else 0 := by
      intro d
      by_cases hQ : Q d <;> by_cases hd : f e = some d <;> simp [hQ, hd]
    rw [Finset.sum_congr rfl fun d _ => hsplit d, Finset.sum_add_distrib]
    congr 1
    cases hf : f e with
    | none => simp
    | some d₀ =>
      have hd₀ := he d₀ hf
      have hone : ∀ d, (if some d₀ = some d ∧ Q d then (1 : Int) else 0) = if d₀ = d then (if Q d₀ then 1 else 0) else 0 := by
        intro d
        by_cases hd : d₀ = d
        · subst hd
          simp
        · simp [hd]
      rw [Finset.sum_congr rfl fun d _ => hone d, Finset.sum_ite_eq, if_pos (Finset.mem_range.mpr hd₀)]
      by_cases hQ : Q d₀ <;> simp [hQ]

namespace Graph

/-- The number of input edges of `c` whose data is written by `p`. -/
def numEdges (g : Graph) (p c : StageId) : Nat :=
  (g.inputs.ports c).countP fun e => ((g.inputs.edge e).map PortEdge.data).any fun d => g.producer d = some p

variable {g : Graph} {p c : StageId}

/-- A stage that is not injected reads `d` by the edges of its own list. -/
theorem count_consumers (h : g.WellFormed) (hc : g.parentStage c = none) (d : DataId) :
    (g.dataflow.consumers d).count c =
      (g.inputs.ports c).countP fun e => (g.inputs.edge e).map PortEdge.data = some d := by
  have hcount : (g.dataflow.consumers d).count c = (g.consumerEdges d).countP fun e => g.consumer e = some c := by
    show ((g.consumerEdges d).filterMap g.consumer).count c = _
    rw [List.count_filterMap]
    refine List.countP_congr fun e _ => ?_
    simp
  rw [hcount, List.countP_eq_length_filter, List.countP_eq_length_filter]
  refine List.Perm.length_eq ((List.perm_ext_iff_of_nodup ((h.nodup d).filter _) ((h.inputs.nodup c).filter _)).mpr ?_)
  intro e
  simp only [List.mem_filter, decide_eq_true_eq]
  constructor
  · rintro ⟨he, hce⟩
    obtain ⟨r, hr, hd, -⟩ := h.edge_of_consumer he
    rw [consumer_eq hr, Option.some_inj] at hce
    refine ⟨hce ▸ h.inputs.mem_of_edge hr, ?_⟩
    rw [hr, Option.map_some, hd]
  · rintro ⟨he, hde⟩
    obtain ⟨r, hr, hst⟩ := h.inputs.edge_of_mem he
    rw [hr, Option.map_some, Option.some_inj] at hde
    have hp := h.inputs.parentEdge_none hr (hst ▸ hc)
    exact ⟨hde ▸ h.consumer_of_edge hr hp, by rw [consumer_eq hr, hst]⟩

theorem edges_eq_numEdges (h : g.WellFormed) (hc : g.parentStage c = none) :
    g.dataflow.edges p c = g.numEdges p c := by
  refine Eq.trans ?_ (sum_countP (n := g.nextData) (g.inputs.ports c) (fun e => (g.inputs.edge e).map PortEdge.data)
    (fun d => g.producer d = some p) ?_)
  · refine Finset.sum_congr rfl fun d _ => ?_
    rw [Dataflow.edgesAt, count_consumers h hc]
    rfl
  · intro e _ d hd
    obtain ⟨r, hr, rfl⟩ := Option.map_eq_some_iff.mp hd
    exact h.inData e r hr

end Graph

/-- The entry of a map that counts. -/
def entry (n : Nat) : Option Int := if n = 0 then none else some n

theorem find?_eq_entry {m : Counter StageId} {s : StageId} {n : Nat} (h : m.get s = n) : m.find? s = entry n := by
  rw [Counter.find?_eq, h, entry]
  simp

/-- **The counters are exact**: in every run in which only stages outside injections are disconnected or
removed, the entries of `_nextStages` and `_prevStages` are the number of input edges by which a stage reads
from another, with no entry at zero; a stage that is injected has no entry. -/
theorem edgeCount_exact {m : Model} (h : (editSystem OutsideInjections).Reachable m) (p c : StageId) :
    (m.order.nextStages p).find? c = (m.order.prevStages c).find? p ∧
      (m.order.nextStages p).find? c = if m.graph.parentStage c = none then entry (m.graph.numEdges p c) else none := by
  have hm := reachable_inv h
  obtain ⟨hn, hp⟩ := hm.counts p c
  have heq : (m.order.nextStages p).find? c = (m.order.prevStages c).find? p := by
    rw [Counter.find?_eq, Counter.find?_eq, hn, hp]
  refine ⟨heq, ?_⟩
  by_cases hc : m.graph.parentStage c = none
  · rw [Graph.edges_eq_numEdges hm.wf hc] at hn
    rw [find?_eq_entry hn, if_pos hc]
  · have hzero : (m.order.prevStages c).get p = (0 : Nat) := hm.idle c hc p
    rw [heq, find?_eq_entry hzero, if_neg hc]
    rfl

/-- Stage 1 reads what stage 0 writes, and is injected into stage 2. -/
def injectedReader : List EditOp :=
  [.addData .Input, .addData .Intermediate, .addData .Output, .addData .Output, .addNewStage .HW [0] [1],
    .addNewStage .SHAVE [1] [2], .addNewStage .HW [0] [3], .injectStage 2 1]

theorem edgeCount_exact_injectedReader : ∃ m, runEdits injectedReader {} = .ok m ∧
    (m.order.nextStages 0).find? 2 = (m.order.prevStages 2).find? 0 ∧
      (m.order.nextStages 0).find? 2 = if m.graph.parentStage 2 = none then entry (m.graph.numEdges 0 2) else none := by
  obtain ⟨m, hm⟩ : ∃ m, runEdits injectedReader {} = .ok m := ⟨_, rfl⟩
  refine ⟨m, hm, edgeCount_exact (reachable_of_runEdits (.init rfl) ?_ hm) 0 2⟩
  intro op hop m
  simp only [injectedReader, List.mem_cons, List.not_mem_nil, or_false] at hop
  rcases hop with rfl | rfl | rfl | rfl | rfl | rfl | rfl | rfl <;> trivial

/-- Stage 1, injected into stage 0, is disconnected: its data 2 has no writer, although an edge of stage 0
still names it. Stage 2 becomes the writer and stage 3 reads from both; then that edge is replaced. -/
def disconnectedChild : List EditOp :=
  [.addData .Input, .addData .Intermediate, .addData .Intermediate, .addData .Output, .addData .Output,
    .addNewStage .HW [0] [1], .addNewStage .SHAVE [0] [2], .injectStage 0 1, .disconnectStage 1,
    .addNewStage .SHAVE [0] [2], .addNewStage .SHAVE [1, 2] [3], .replaceStageOutput 2 4]

/-- Stage 0 is disconnected while stage 1 is injected into it, and the edge of stage 1 is no longer tied: to
replace it takes data 2 from its new writer, stage 2. Stage 3 reads from stage 2 by two datas. -/
def disconnectedParent : List EditOp :=
  [.addData .Input, .addData .Intermediate, .addData .Intermediate, .addData .Intermediate, .addData .Output,
    .addData .Output, .addData .Output, .addNewStage .HW [0] [1], .addNewStage .SHAVE [0] [2], .injectStage 0 1,
    .disconnectStage 0, .addNewStage .SHAVE [0] [2, 3], .replaceStageOutput 1 4, .addNewStage .SHAVE [2, 3] [5],
    .replaceStageOutput 3 6]

/-- The counters are not exact after a stage was injected, nor after a stage of an injection was
disconnected: `c` reads from `p` by one edge, and `_nextStages` of `p` has no entry for it. -/
theorem edgeCount_inexact :
    (∃ m, (editSystem fun _ _ => True).Reachable m ∧ m.graph.numEdges 0 1 = 1 ∧ (m.order.nextStages 0).find? 1 = none) ∧
    (∃ m, (editSystem fun _ _ => True).Reachable m ∧ m.graph.parentStage 3 = none ∧ m.graph.numEdges 0 3 = 1 ∧
      (m.order.nextStages 0).find? 3 = none) ∧
    ∃ m, (editSystem fun _ _ => True).Reachable m ∧ m.graph.parentStage 3 = none ∧ m.graph.numEdges 2 3 = 1 ∧
      (m.order.nextStages 2).find? 3 = none := by
  have hreach : ∀ ops m, runEdits ops {} = .ok m → (editSystem fun _ _ => True).Reachable m := fun ops m =>
    reachable_of_runEdits (.init rfl) fun _ _ _ => trivial
  exact ⟨⟨_, hreach injectedReader _ rfl, rfl, rfl⟩, ⟨_, hreach disconnectedChild _ rfl, rfl, rfl, rfl⟩,
    ⟨_, hreach disconnectedParent _ rfl, rfl, rfl, rfl⟩⟩

end OpenVino.Vpu
