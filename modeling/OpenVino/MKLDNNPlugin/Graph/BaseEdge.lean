import OpenVino.InferenceEngine.SizeT
import OpenVino.MKLDNNPlugin.Graph.Graph

/-!
# The edge that an edge is a view on

`getBaseEdge` follows the `inPlace` indices of the selected configurations: down through a child that works in
place, up through a parent that does, and at the end to the siblings at the same port. On its way it clears the
opposite index of the nodes it passes. `Settled`: nothing at the port of an edge is in place any more and the
edge is the first one there. Unless both ends of an edge are in place, its base is settled from then on
(`getBaseEdge_finds`), and every edge at its port has it as its base (`getBaseEdge_of_settled`).
-/

namespace OpenVino.MKLDNNPlugin

open InferenceEngine (elemAt elemAt_ok_iff)

/-- The configuration of a port. -/
structure DataConfig (δ : Type) where
  desc : δ
  inPlace : Int := -1

structure LayerConfig (δ : Type) where
  inConfs : List (DataConfig δ) := []
  outConfs : List (DataConfig δ) := []

/-- The configurations of the selected primitive descriptors, `none` where none is selected. -/
abbrev Configs (δ : Type) := NodeId → Option (LayerConfig δ)

variable {δ : Type}

/-- `getSelectedPrimitiveDescriptor()->getConfig()` -/
def selectedConfig (configs : Configs δ) (n : NodeId) : Result (LayerConfig δ) :=
  match configs n with
  | some config => .ok config
  | none => .error (.undefinedBehaviour "getSelectedPrimitiveDescriptor()->getConfig()")

theorem selectedConfig_ok_iff {configs : Configs δ} {n : NodeId} {config : LayerConfig δ} :
    selectedConfig configs n = .ok config ↔ configs n = some config := by
  unfold selectedConfig
  split <;> simp_all

/-! ### In-place indices -/

def inPlaceAt (confs : List (DataConfig δ)) (port : Int) : Int :=
  if 0 ≤ port then (confs[port.toNat]?).elim (-1) (·.inPlace) else -1

/-- `confs[port].inPlace = -1` -/
def clearInPlace (confs : List (DataConfig δ)) (port : Int) : List (DataConfig δ) :=
  confs.modify port.toNat ({ · with inPlace := -1 })

theorem inPlaceAt_of_elemAt {e : String} {confs : List (DataConfig δ)} {port : Int} {conf : DataConfig δ}
    (h : elemAt e confs port = .ok conf) : inPlaceAt confs port = conf.inPlace := by
  obtain ⟨hport, hget⟩ := elemAt_ok_iff.mp h
  rw [inPlaceAt, if_pos hport, hget]
  rfl

theorem inPlaceAt_clear {confs : List (DataConfig δ)} {port : Int} : inPlaceAt (clearInPlace confs port) port < 0 := by
  unfold inPlaceAt clearInPlace
  split
  · rw [List.getElem?_modify_eq]
    cases confs[port.toNat]? <;> simp
  · decide

/-- Clearing an index sets none. -/
theorem inPlaceAt_clear_neg {confs : List (DataConfig δ)} {port q : Int} (h : inPlaceAt confs q < 0) :
    inPlaceAt (clearInPlace confs port) q < 0 := by
  by_cases hq : q = port
  · rw [hq]
    exact inPlaceAt_clear
  · unfold inPlaceAt clearInPlace at *
    split
    · rename_i hpos
      rw [if_pos hpos] at h
      by_cases hn : port.toNat = q.toNat
      · rw [List.getElem?_modify, hn]
        cases confs[q.toNat]? <;> simp
      · rwa [List.getElem?_modify_ne _ _ hn]
    · decide

/-- No port is in place in `config'` that is not in `config`. -/
structure LayerConfig.Clears (config config' : LayerConfig δ) : Prop where
  ins : ∀ port, inPlaceAt config.inConfs port < 0 → inPlaceAt config'.inConfs port < 0
  outs : ∀ port, inPlaceAt config.outConfs port < 0 → inPlaceAt config'.outConfs port < 0

/-- The configurations that `getBaseEdge` hands to `initDescriptor`: of an input and an output that are in
place with one another, one is cleared. -/
inductive Resets (current : LayerConfig δ) : LayerConfig δ → Prop
  | out (port q : Int) (hin : inPlaceAt current.inConfs port = q) (hq : 0 ≤ q)
      (hout : 0 ≤ inPlaceAt current.outConfs q) :
      Resets current { current with outConfs := clearInPlace current.outConfs q }
  | into (port q : Int) (hout : inPlaceAt current.outConfs port = q) (hq : 0 ≤ q)
      (hin : 0 ≤ inPlaceAt current.inConfs q) :
      Resets current { current with inConfs := clearInPlace current.inConfs q }

/-- The virtual `initDescriptor` of the nodes: from the selected configuration and the one that is passed, the
one that is selected then. -/
structure NodeImpl (δ : Type) where
  initDescriptor : NodeId → LayerConfig δ → LayerConfig δ → Result (LayerConfig δ)
  clears : ∀ {n : NodeId} {current config result : LayerConfig δ}, Resets current config →
    initDescriptor n current config = .ok result → config.Clears result

/-- What `MKLDNNNode::initDescriptor` does for a node without descriptors of the library. -/
def NodeImpl.plain : NodeImpl δ where
  initDescriptor _ _ config := .ok config
  clears _ h := by
    obtain rfl := Except.ok.inj h
    exact ⟨fun _ h => h, fun _ h => h⟩

/-! ### `getBaseEdge` -/

structure LOOK where
  up : Bool
  down : Bool
  no_recurrent : Bool := false

def LOOK_UP : LOOK := { up := true, down := false }

def LOOK_DOWN : LOOK := { up := false, down := true }

def LOOK_BOTH : LOOK := { up := true, down := true }

/-- `LOOK_BOTH | LOOK_NO_RECURRENT` -/
def LOOK_BOTH_NO_RECURRENT : LOOK := { LOOK_BOTH with no_recurrent := true }

namespace MKLDNNGraph

variable {g : MKLDNNGraph} {impl : NodeImpl δ} {configs configs' : Configs δ} {e b s first : EdgeId} {n : NodeId}
  {port : Int} {look : LOOK} {fuel : Nat}

/-- The edges that leave an output port. -/
def atPort (g : MKLDNNGraph) (n : NodeId) (port : Int) : List EdgeId :=
  (g.childEdges n).filter fun e => (g.edge e).getInputNum = port

/-- `node->getChildEdgesAtPort(port)` -/
def getChildEdgesAtPort (g : MKLDNNGraph) (n : NodeId) (port : Int) : Result (List EdgeId) :=
  if port < 0 ∨ (g.outDims n : Int) ≤ port then throwException "Node contains less output ports"
  else .ok (g.atPort n port)

/-- `node->getParentEdgesAtPort(port)` -/
def getParentEdgesAtPort (g : MKLDNNGraph) (n : NodeId) (port : Int) : Result (List EdgeId) :=
  if port < 0 ∨ (g.inDims n : Int) ≤ port then throwException "Node contains less input ports"
  else .ok ((g.parentEdges n).filter fun e => (g.edge e).getOutputNum = port)

/-- `node->getChildEdgeAt(idx)` -/
def getChildEdgeAt (g : MKLDNNGraph) (n : NodeId) (idx : Int) : Result EdgeId :=
  if 0 ≤ idx then
    match (g.childEdges n)[idx.toNat]? with
    | some e => .ok e
    | none => throwException "Node contains less child edges"
  else throwException "Node contains less child edges"

/-- An edge of `ch_edges` whose child works in place, the last one, else `ch_edges[0]`. -/
def nextChildEdge (g : MKLDNNGraph) (configs : Configs δ) (ch_edges : List EdgeId) : Result EdgeId := do
  let next_ch_edge ← elemAt "ch_edges[0]" ch_edges 0
  ch_edges.foldlM (fun next_ch_edge ch_edge => do
    let chch_conf ← selectedConfig configs (g.childOf ch_edge)
    let conf ← elemAt "chch_conf.inConfs[ch_edge->getOutputNum()]" chch_conf.inConfs (g.edge ch_edge).getOutputNum
    return if 0 ≤ conf.inPlace then ch_edge else next_ch_edge) next_ch_edge

/-- The loop over the edges at the port of `e`; `first` is `edges_for_same_port[0]`. -/
def siblingBase (base : EdgeId → Configs δ → Result (EdgeId × Configs δ)) (e first : EdgeId) :
    List EdgeId → Configs δ → Result (EdgeId × Configs δ)
  | [], configs => .ok (first, configs)
  | edge :: edges, configs => do
    if edge ≠ e then
      let (b, configs) ← base edge configs
      if b ≠ edge ∧ b ≠ first then return (b, configs)
      else siblingBase base e first edges configs
    else siblingBase base e first edges configs

/-- `e->getBaseEdge(look)`, with the configurations it leaves. -/
def getBaseEdge (g : MKLDNNGraph) (impl : NodeImpl δ) :
    Nat → EdgeId → LOOK → Configs δ → Result (EdgeId × Configs δ)
  | 0, _, _, _ => .error .outOfFuel
  | fuel + 1, e, look, configs => do
    let parentConfig ← selectedConfig configs (g.parentOf e)
    let childConfig ← selectedConfig configs (g.childOf e)
    let inputNum := (g.edge e).getInputNum
    let outputNum := (g.edge e).getOutputNum
    let inConf ← elemAt "childConfig.inConfs[outputNum]" childConfig.inConfs outputNum
    let outConf ← elemAt "parentConfig.outConfs[inputNum]" parentConfig.outConfs inputNum
    if 0 ≤ inConf.inPlace ∧ 0 ≤ outConf.inPlace then
      -- the port of the edge serves as an index of the list of all child edges
      let base ← g.getChildEdgeAt (g.parentOf e) inputNum
      return (base, configs)
    else if 0 ≤ inConf.inPlace ∧ look.down then
      let next_port_idx := inConf.inPlace
      let conf ← elemAt "childConfig.outConfs[next_port_idx]" childConfig.outConfs next_port_idx
      let configs ← (if 0 ≤ conf.inPlace then do
          let config ← impl.initDescriptor (g.childOf e) childConfig
            { childConfig with outConfs := clearInPlace childConfig.outConfs next_port_idx }
          return Function.update configs (g.childOf e) (some config)
        else return configs)
      let ch_edges ← g.getChildEdgesAtPort (g.childOf e) next_port_idx
      let next_ch_edge ← g.nextChildEdge configs ch_edges
      getBaseEdge g impl fuel next_ch_edge LOOK_DOWN configs
    else if 0 ≤ outConf.inPlace ∧ look.up then
      let next_port_idx := outConf.inPlace
      let conf ← elemAt "parentConfig.inConfs[next_port_idx]" parentConfig.inConfs next_port_idx
      let configs ← (if 0 ≤ conf.inPlace then do
          let config ← impl.initDescriptor (g.parentOf e) parentConfig
            { parentConfig with inConfs := clearInPlace parentConfig.inConfs next_port_idx }
          return Function.update configs (g.parentOf e) (some config)
        else return configs)
      let edges ← g.getParentEdgesAtPort (g.parentOf e) next_port_idx
      let next ← elemAt "getParentEdgesAtPort(next_port_idx)[0]" edges 0
      getBaseEdge g impl fuel next LOOK_UP configs
    else
      let edges_for_same_port ← g.getChildEdgesAtPort (g.parentOf e) inputNum
      let first ← elemAt "edges_for_same_port[0]" edges_for_same_port 0
      if look.no_recurrent then return (first, configs)
      else
        siblingBase (fun edge => getBaseEdge g impl fuel edge LOOK_BOTH_NO_RECURRENT) e first
          edges_for_same_port configs

end MKLDNNGraph

/-! ### Indices are only ever cleared -/

def inputInPlace (configs : Configs δ) (n : NodeId) (port : Int) : Int :=
  (configs n).elim (-1) fun config => inPlaceAt config.inConfs port

def outputInPlace (configs : Configs δ) (n : NodeId) (port : Int) : Int :=
  (configs n).elim (-1) fun config => inPlaceAt config.outConfs port

structure Cleared (configs configs' : Configs δ) : Prop where
  ins : ∀ n port, inputInPlace configs n port < 0 → inputInPlace configs' n port < 0
  outs : ∀ n port, outputInPlace configs n port < 0 → outputInPlace configs' n port < 0

section Cleared

variable {configs configs' configs'' : Configs δ} {n : NodeId} {config config' : LayerConfig δ} {p q : Int}

theorem Cleared.refl (configs : Configs δ) : Cleared configs configs := ⟨fun _ _ h => h, fun _ _ h => h⟩

theorem Cleared.trans (h : Cleared configs configs') (h' : Cleared configs' configs'') : Cleared configs configs'' :=
  ⟨fun n p hp => h'.ins n p (h.ins n p hp), fun n p hp => h'.outs n p (h.outs n p hp)⟩

theorem Cleared.update (hconfig : configs n = some config) (h : config.Clears config') :
    Cleared configs (Function.update configs n (some config')) := by
  refine ⟨fun m port hport => ?_, fun m port hport => ?_⟩ <;> by_cases hm : m = n
  · rw [hm, inputInPlace, hconfig] at hport
    rw [hm, inputInPlace, Function.update_self]
    exact h.ins port hport
  · rwa [inputInPlace, Function.update_of_ne hm]
  · rw [hm, outputInPlace, hconfig] at hport
    rw [hm, outputInPlace, Function.update_self]
    exact h.outs port hport
  · rwa [outputInPlace, Function.update_of_ne hm]

theorem Resets.clears (h : Resets config config') : config.Clears config' := by
  cases h with
  | out => exact ⟨fun _ h => h, fun _ h => inPlaceAt_clear_neg h⟩
  | into => exact ⟨fun _ h => inPlaceAt_clear_neg h, fun _ h => h⟩

theorem LayerConfig.Clears.trans {config'' : LayerConfig δ} (h : config.Clears config') (h' : config'.Clears config'') :
    config.Clears config'' :=
  ⟨fun p hp => h'.ins p (h.ins p hp), fun p hp => h'.outs p (h.outs p hp)⟩

/-- The step of `getBaseEdge` that resets a configuration. -/
theorem reset_spec {impl : NodeImpl δ} {c : Prop} [Decidable c] (hconfig : configs n = some config)
    (hresets : c → Resets config config')
    (hrun : (if c then do
        let result ← impl.initDescriptor n config config'
        return Function.update configs n (some result)
      else return configs) = .ok configs'') :
    Cleared configs configs'' ∧
      (c → ∃ result, config'.Clears result ∧ configs'' = Function.update configs n (some result)) ∧
      (¬ c → configs'' = configs) := by
  by_cases hc : c
  · rw [if_pos hc, bind_ok_iff] at hrun
    obtain ⟨result, hinit, hrun⟩ := hrun
    rw [pure_ok_iff] at hrun
    have hclears := impl.clears (hresets hc) hinit
    rw [← hrun]
    exact ⟨.update hconfig ((hresets hc).clears.trans hclears), fun _ => ⟨result, hclears, rfl⟩, (absurd hc ·)⟩
  · rw [if_neg hc, pure_ok_iff] at hrun
    rw [← hrun]
    exact ⟨.refl configs, (absurd · hc), fun _ => rfl⟩

end Cleared

namespace MKLDNNGraph

variable {g : MKLDNNGraph} {impl : NodeImpl δ} {configs configs' : Configs δ} {e b s first : EdgeId} {n : NodeId}
  {port : Int} {look : LOOK} {fuel : Nat} {edges : List EdgeId}

/-- The index of the child's input that the edge leads to. -/
def down (g : MKLDNNGraph) (configs : Configs δ) (e : EdgeId) : Int :=
  inputInPlace configs (g.childOf e) (g.edge e).getOutputNum

/-- The index of the parent's output that the edge comes from. -/
def up (g : MKLDNNGraph) (configs : Configs δ) (e : EdgeId) : Int :=
  outputInPlace configs (g.parentOf e) (g.edge e).getInputNum

/-- The edges that leave the same port as `e`. -/
def siblings (g : MKLDNNGraph) (e : EdgeId) : List EdgeId := g.atPort (g.parentOf e) (g.edge e).getInputNum

theorem getChildEdgesAtPort_ok (h : g.getChildEdgesAtPort n port = .ok edges) : edges = g.atPort n port := by
  unfold getChildEdgesAtPort at h
  split at h
  · exact absurd h throwException_ne_ok
  · exact (Except.ok.inj h).symm

theorem Wired.mem_atPort (hw : g.Wired) :
    e ∈ g.atPort n port ↔ e ∈ g.graphEdges ∧ g.parentOf e = n ∧ (g.edge e).getInputNum = port := by
  rw [atPort, List.mem_filter, hw.mem_children, decide_eq_true_iff, and_assoc]

theorem siblings_eq (hw : g.Wired) (h : s ∈ g.siblings e) : g.siblings s = g.siblings e := by
  obtain ⟨-, hparent, hport⟩ := hw.mem_atPort.mp h
  rw [siblings, hparent, hport, siblings]

theorem up_eq (hw : g.Wired) (h : s ∈ g.siblings e) : g.up configs s = g.up configs e := by
  obtain ⟨-, hparent, hport⟩ := hw.mem_atPort.mp h
  rw [up, hparent, hport, up]

theorem mem_siblings_self (hw : g.Wired) (he : e ∈ g.graphEdges) : e ∈ g.siblings e :=
  hw.mem_atPort.mpr ⟨he, rfl, rfl⟩

/-- Nothing at the port of `b` is in place, and `b` is the first edge there. -/
structure Settled (g : MKLDNNGraph) (configs : Configs δ) (b : EdgeId) : Prop where
  head : (g.siblings b).head? = some b
  up : g.up configs b < 0
  down : ∀ s ∈ g.siblings b, g.down configs s < 0

theorem Settled.mono (h : g.Settled configs b) (hc : Cleared configs configs') : g.Settled configs' b :=
  ⟨h.head, hc.outs _ _ h.up, fun s hs => hc.ins _ _ (h.down s hs)⟩

theorem Settled.of_head (hw : g.Wired) (hhead : (g.siblings e).head? = some b) (hup : g.up configs e < 0)
    (hdown : ∀ s ∈ g.siblings e, g.down configs s < 0) : g.Settled configs b := by
  have hb : b ∈ g.siblings e := List.mem_of_mem_head? hhead
  have heq := siblings_eq hw hb
  refine ⟨by rw [heq, hhead], by rwa [up_eq hw hb], ?_⟩
  rwa [heq]

theorem head?_of_elemAt {m : String} (h : elemAt m edges 0 = .ok first) : edges.head? = some first := by
  obtain ⟨-, h⟩ := elemAt_ok_iff.mp h
  rwa [List.head?_eq_getElem?]

theorem mem_of_nextChildEdge (h : g.nextChildEdge configs edges = .ok b) : b ∈ edges := by
  rw [nextChildEdge, bind_ok_iff] at h
  obtain ⟨next, hnext, hrun⟩ := h
  have hmem := List.mem_of_mem_head? (head?_of_elemAt hnext)
  refine foldlM_ok_induct (I := fun _ next => next ∈ edges) hrun hmem ?_
  intro pre a post next next' hedges hin hround
  simp only [bind_ok_iff, pure_ok_iff] at hround
  obtain ⟨chch_conf, -, conf, -, rfl⟩ := hround
  split
  · rw [hedges]
    exact List.mem_append_right _ List.mem_cons_self
  · exact hin

/-! ### The base is settled -/

/-- What a call of `getBaseEdge` relies on: not both ends of the edge are in place, and an end that the call does
not look at is not. -/
structure Looks (g : MKLDNNGraph) (configs : Configs δ) (e : EdgeId) (look : LOOK) : Prop where
  oneEnd : g.down configs e < 0 ∨ g.up configs e < 0
  down : look.down = false → g.down configs e < 0
  up : look.up = false ∨ look.no_recurrent = true → g.up configs e < 0

/-- What it finds: an edge that is settled, or, when it does not ask the siblings, the first of them. -/
def Finds (g : MKLDNNGraph) (configs : Configs δ) (e : EdgeId) (look : LOOK) (b : EdgeId) (configs' : Configs δ) :
    Prop :=
  Cleared configs configs' ∧ b ∈ g.graphEdges ∧ (g.Settled configs' b ∨
    look.no_recurrent = true ∧ g.down configs e < 0 ∧ (g.siblings e).head? = some b ∧ configs' = configs)

/-- The loop over the siblings, of which those not in `edges` are done. -/
theorem siblingBase_spec (hw : g.Wired) {base : EdgeId → Configs δ → Result (EdgeId × Configs δ)}
    (hbase : ∀ s configs b configs', s ∈ g.graphEdges → g.Looks configs s LOOK_BOTH_NO_RECURRENT →
      base s configs = .ok (b, configs') → g.Finds configs s LOOK_BOTH_NO_RECURRENT b configs')
    (hfirst : (g.siblings e).head? = some first) (hsub : ∀ s ∈ edges, s ∈ g.siblings e) (hup : g.up configs e < 0)
    (hself : g.down configs e < 0) (hdone : ∀ s ∈ g.siblings e, s ∉ edges → g.down configs s < 0)
    (hrun : siblingBase base e first edges configs = .ok (b, configs')) :
    Cleared configs configs' ∧ b ∈ g.graphEdges ∧ g.Settled configs' b := by
  induction edges generalizing configs with
  | nil =>
    obtain ⟨rfl, rfl⟩ := Prod.mk.inj (Except.ok.inj hrun)
    have hfirst' := hw.mem_atPort.mp (List.mem_of_mem_head? hfirst)
    exact ⟨.refl configs, hfirst'.1, .of_head hw hfirst hup fun s hs => hdone s hs List.not_mem_nil⟩
  | cons edge edges ih =>
    obtain ⟨hedge, hsub⟩ := List.forall_mem_cons.mp hsub
    rw [siblingBase] at hrun
    by_cases heq : edge = e
    · rw [if_neg (not_not_intro heq)] at hrun
      refine ih hsub hup hself (fun s hs hnot => ?_) hrun
      by_cases hse : s = e
      · rwa [hse]
      · exact hdone s hs fun hmem => hnot ((List.mem_cons.mp hmem).resolve_left fun h => hse (h.trans heq))
    · rw [if_pos heq, bind_ok_iff] at hrun
      obtain ⟨⟨b₁, configs₁⟩, hcall, hrun⟩ := hrun
      have hup' : g.up configs edge < 0 := by rwa [up_eq hw hedge]
      obtain ⟨hcleared, hb₁, hfound⟩ := hbase edge configs b₁ configs₁ (hw.mem_atPort.mp hedge).1
        ⟨.inr hup', fun h => absurd h (by decide), fun _ => hup'⟩ hcall
      by_cases hret : b₁ ≠ edge ∧ b₁ ≠ first
      · simp only [if_pos hret, pure_ok_iff] at hrun
        obtain ⟨rfl, rfl⟩ := Prod.mk.inj hrun
        refine ⟨hcleared, hb₁, hfound.resolve_right fun ⟨_, _, hhead, _⟩ => hret.2 ?_⟩
        rw [siblings_eq hw hedge, hfirst] at hhead
        exact (Option.some.inj hhead).symm
      · simp only [if_neg hret] at hrun
        -- the base is an edge at this port: either way `edge` leads nowhere
        have hdown : g.down configs₁ edge < 0 := by
          rcases hfound with hsettled | ⟨-, hdown, -, rfl⟩
          · refine hsettled.down edge ?_
            have hb : b₁ ∈ g.siblings edge := by
              by_cases h : b₁ = edge
              · rw [h]
                exact mem_siblings_self hw (hw.mem_atPort.mp hedge).1
              · have h := not_not.mp fun hne => hret ⟨h, hne⟩
                rw [h, siblings_eq hw hedge]
                exact List.mem_of_mem_head? hfirst
            rw [siblings_eq hw hb]
            exact mem_siblings_self hw (hw.mem_atPort.mp hedge).1
          · exact hdown
        have hrest : ∀ s ∈ g.siblings e, s ∉ edges → g.down configs₁ s < 0 := by
          intro s hs hnot
          by_cases hse : s = edge
          · rwa [hse]
          · exact hcleared.ins _ _ (hdone s hs fun hmem => hnot ((List.mem_cons.mp hmem).resolve_left hse))
        obtain ⟨hcleared', hb, hsettled⟩ := ih hsub (hcleared.outs _ _ hup) (hcleared.ins _ _ hself) hrest hrun
        exact ⟨hcleared.trans hcleared', hb, hsettled⟩

/-- **The base is settled.** One case for each way `getBaseEdge` goes on. -/
theorem getBaseEdge_finds (hw : g.Wired) (he : e ∈ g.graphEdges) (hlooks : g.Looks configs e look)
    (hrun : g.getBaseEdge impl fuel e look configs = .ok (b, configs')) : g.Finds configs e look b configs' := by
  induction fuel generalizing e look configs b configs' with
  | zero => cases hrun
  | succ fuel ih =>
    simp only [getBaseEdge, bind_ok_iff] at hrun
    obtain ⟨parentConfig, hparent, childConfig, hchild, inConf, hin, outConf, hout, hrun⟩ := hrun
    rw [selectedConfig_ok_iff] at hparent hchild
    have hdown : g.down configs e = inConf.inPlace := by
      rw [down, inputInPlace, hchild]
      exact inPlaceAt_of_elemAt hin
    have hup : g.up configs e = outConf.inPlace := by
      rw [up, outputInPlace, hparent]
      exact inPlaceAt_of_elemAt hout
    have hone := hlooks.oneEnd
    rw [hdown, hup] at hone
    rw [if_neg (by omega)] at hrun
    by_cases hgodown : 0 ≤ inConf.inPlace ∧ look.down = true
    · rw [if_pos hgodown] at hrun
      simp only [bind_ok_iff] at hrun
      obtain ⟨conf, hconf, configs₁, hreset, ch_edges, hedges, next, hnext, hrun⟩ := hrun
      obtain ⟨hcleared, hdo, hskip⟩ := reset_spec hchild
        (fun hc => .out _ _ (inPlaceAt_of_elemAt hin) hgodown.1 (by rwa [inPlaceAt_of_elemAt hconf])) hreset
      have hport : outputInPlace configs₁ (g.childOf e) inConf.inPlace < 0 := by
        by_cases hc : 0 ≤ conf.inPlace
        · obtain ⟨result, hclears, rfl⟩ := hdo hc
          rw [outputInPlace, Function.update_self]
          exact hclears.outs _ inPlaceAt_clear
        · rw [hskip hc, outputInPlace, hchild, Option.elim_some, inPlaceAt_of_elemAt hconf]
          omega
      rw [getChildEdgesAtPort_ok hedges] at hnext
      obtain ⟨hmem, hparent', hport'⟩ := hw.mem_atPort.mp (mem_of_nextChildEdge hnext)
      have hup' : g.up configs₁ next < 0 := by rwa [up, hparent', hport']
      obtain ⟨hcleared', hb, hfound⟩ := ih hmem ⟨.inr hup', fun h => absurd h (by decide), fun _ => hup'⟩ hrun
      exact ⟨hcleared.trans hcleared', hb, .inl (hfound.resolve_right fun h => absurd h.1 (by decide))⟩
    rw [if_neg hgodown] at hrun
    have hdownneg : inConf.inPlace < 0 := by
      by_contra hpos
      have := hlooks.down (by simpa using fun h => hgodown ⟨by omega, h⟩)
      omega
    by_cases hgoup : 0 ≤ outConf.inPlace ∧ look.up = true
    · rw [if_pos hgoup] at hrun
      simp only [bind_ok_iff] at hrun
      obtain ⟨conf, hconf, configs₁, hreset, edges, hedges, next, hnext, hrun⟩ := hrun
      obtain ⟨hcleared, hdo, hskip⟩ := reset_spec hparent
        (fun hc => .into _ _ (inPlaceAt_of_elemAt hout) hgoup.1 (by rwa [inPlaceAt_of_elemAt hconf])) hreset
      have hport : inputInPlace configs₁ (g.parentOf e) outConf.inPlace < 0 := by
        by_cases hc : 0 ≤ conf.inPlace
        · obtain ⟨result, hclears, rfl⟩ := hdo hc
          rw [inputInPlace, Function.update_self]
          exact hclears.ins _ inPlaceAt_clear
        · rw [hskip hc, inputInPlace, hparent, Option.elim_some, inPlaceAt_of_elemAt hconf]
          omega
      have hmem := List.mem_of_mem_head? (head?_of_elemAt hnext)
      rw [getParentEdgesAtPort] at hedges
      split at hedges
      · exact absurd hedges throwException_ne_ok
      rw [← Except.ok.inj hedges, List.mem_filter, hw.mem_parents, decide_eq_true_iff] at hmem
      obtain ⟨⟨hmem, hchild'⟩, hport'⟩ := hmem
      have hdown' : g.down configs₁ next < 0 := by rwa [down, hchild', hport']
      obtain ⟨hcleared', hb, hfound⟩ := ih hmem ⟨.inl hdown', fun _ => hdown', fun h => absurd h (by decide)⟩ hrun
      exact ⟨hcleared.trans hcleared', hb, .inl (hfound.resolve_right fun h => absurd h.1 (by decide))⟩
    rw [if_neg hgoup] at hrun
    have hupneg : outConf.inPlace < 0 := by
      by_contra hpos
      have := hlooks.up (.inl (by simpa using fun h => hgoup ⟨by omega, h⟩))
      omega
    simp only [bind_ok_iff] at hrun
    obtain ⟨edges, hedges, first, hfirst, hrun⟩ := hrun
    have hfirst := head?_of_elemAt hfirst
    rw [getChildEdgesAtPort_ok hedges] at hfirst hrun
    by_cases hno : look.no_recurrent = true
    · rw [if_pos hno, pure_ok_iff] at hrun
      obtain ⟨rfl, rfl⟩ := Prod.mk.inj hrun
      exact ⟨.refl configs, (hw.mem_atPort.mp (List.mem_of_mem_head? hfirst)).1, .inr ⟨hno, by omega, hfirst, rfl⟩⟩
    · rw [if_neg hno] at hrun
      obtain ⟨hcleared, hb, hsettled⟩ := siblingBase_spec hw (fun s configs b configs' hs hl hr => ih hs hl hr) hfirst
        (fun s hs => hs) (by omega) (by omega) (fun s hs hnot => absurd hs hnot) hrun
      exact ⟨hcleared, hb, .inl hsettled⟩

theorem siblingBase_of_first {base : EdgeId → Configs δ → Result (EdgeId × Configs δ)}
    (hbase : ∀ s ∈ edges, ∀ b configs', base s configs = .ok (b, configs') → b = first ∧ configs' = configs)
    (hrun : siblingBase base e first edges configs = .ok (b, configs')) : b = first ∧ configs' = configs := by
  induction edges with
  | nil =>
    obtain ⟨rfl, rfl⟩ := Prod.mk.inj (Except.ok.inj hrun)
    exact ⟨rfl, rfl⟩
  | cons edge edges ih =>
    obtain ⟨hedge, hedges⟩ := List.forall_mem_cons.mp hbase
    rw [siblingBase] at hrun
    by_cases heq : edge = e
    · rw [if_neg (not_not_intro heq)] at hrun
      exact ih hedges hrun
    · rw [if_pos heq, bind_ok_iff] at hrun
      obtain ⟨⟨b₁, configs₁⟩, hcall, hrun⟩ := hrun
      obtain ⟨rfl, rfl⟩ := hedge b₁ configs₁ hcall
      simp only [ne_eq, not_true_eq_false, and_false, if_false] at hrun
      exact ih hedges hrun

/-- A settled edge is the base of every edge at its port. -/
theorem getBaseEdge_of_settled (hw : g.Wired) {r : EdgeId} (hr : g.Settled configs r) (he : e ∈ g.siblings r)
    (hrun : g.getBaseEdge impl fuel e look configs = .ok (b, configs')) : b = r ∧ configs' = configs := by
  induction fuel generalizing e look b configs' with
  | zero => cases hrun
  | succ fuel ih =>
    simp only [getBaseEdge, bind_ok_iff] at hrun
    obtain ⟨parentConfig, hparent, childConfig, hchild, inConf, hin, outConf, hout, hrun⟩ := hrun
    rw [selectedConfig_ok_iff] at hparent hchild
    have hdown := hr.down e he
    have hup := hr.up
    rw [down, inputInPlace, hchild, Option.elim_some, inPlaceAt_of_elemAt hin] at hdown
    rw [← up_eq hw he, up, outputInPlace, hparent, Option.elim_some, inPlaceAt_of_elemAt hout] at hup
    rw [if_neg (by omega), if_neg (by omega), if_neg (by omega)] at hrun
    simp only [bind_ok_iff] at hrun
    obtain ⟨edges, hedges, first, hfirst, hrun⟩ := hrun
    have hfirst := head?_of_elemAt hfirst
    have hhead := hr.head
    rw [getChildEdgesAtPort_ok hedges, ← siblings] at hfirst hrun
    rw [← siblings_eq hw he, hfirst, Option.some_inj] at hhead
    rw [hhead] at hrun
    by_cases hno : look.no_recurrent = true
    · rw [if_pos hno, pure_ok_iff] at hrun
      obtain ⟨rfl, rfl⟩ := Prod.mk.inj hrun
      exact ⟨rfl, rfl⟩
    · rw [if_neg hno] at hrun
      refine siblingBase_of_first (fun s hs b configs' hcall => ih ?_ hcall) hrun
      rwa [← siblings_eq hw he]

/-- With both ends of the edge in place, the list of all child edges is read at the port of the edge. -/
theorem getBaseEdge_of_both (hdown : 0 ≤ g.down configs e) (hup : 0 ≤ g.up configs e)
    (hrun : g.getBaseEdge impl fuel e look configs = .ok (b, configs')) :
    g.getChildEdgeAt (g.parentOf e) (g.edge e).getInputNum = .ok b ∧ configs' = configs := by
  cases fuel with
  | zero => cases hrun
  | succ fuel =>
    simp only [getBaseEdge, bind_ok_iff] at hrun
    obtain ⟨parentConfig, hparent, childConfig, hchild, inConf, hin, outConf, hout, hrun⟩ := hrun
    rw [selectedConfig_ok_iff] at hparent hchild
    rw [down, inputInPlace, hchild, Option.elim_some, inPlaceAt_of_elemAt hin] at hdown
    rw [up, outputInPlace, hparent, Option.elim_some, inPlaceAt_of_elemAt hout] at hup
    rw [if_pos ⟨hdown, hup⟩, bind_ok_iff] at hrun
    obtain ⟨base, hbase, hrun⟩ := hrun
    obtain ⟨rfl, rfl⟩ := Prod.mk.inj (pure_ok_iff.mp hrun)
    exact ⟨hbase, rfl⟩

theorem getBaseEdge_port (hrun : g.getBaseEdge impl fuel e look configs = .ok (b, configs')) :
    0 ≤ (g.edge e).getInputNum := by
  cases fuel with
  | zero => cases hrun
  | succ fuel =>
    simp only [getBaseEdge, bind_ok_iff] at hrun
    obtain ⟨parentConfig, -, childConfig, -, inConf, -, outConf, hout, -⟩ := hrun
    exact (elemAt_ok_iff.mp hout).1

end MKLDNNGraph

end OpenVino.MKLDNNPlugin
