import OpenVino.InferenceEngine.NetPass.Layers
import OpenVino.InferenceEngine.TensorIterator.NumIteration

/-!
# Unrolling a TensorIterator

`unrollTI` puts one copy of the body for each iteration in the place of the layer. The Data of a copy are known by
its number (`Copies`). Splits and concats connect the iterated ports, and `CombineData` the others: what it does
to a network is a renaming of the inputs of its layers (`combineAll_eq`), found by `redirectAll_of_mem`.
-/

namespace OpenVino.InferenceEngine.NetPass

structure TIBody (β α : Type) where
  layers : List (CNNLayer β α)
  inputs : List (DataPtr β)
  outputs : List (DataPtr β)

structure TILayer (ι β α : Type) where
  insData : List (DataPtr ι)
  outData : List (DataPtr ι)
  input_port_map : List PortMap
  output_port_map : List PortMap
  back_edges : List PortMap
  body : TIBody β α

/-- The Data of a network in which a layer is unrolled: its own, and those of the copies of the body. -/
inductive Copies (ι β : Type)
  | outer (p : ι)
  | copy (i : Nat) (p : β)
deriving DecidableEq

variable {ι β α : Type}

/-- The layer as `getNumIteration` sees it, which reads no names. -/
def TILayer.ports (ti : TILayer ι β α) : TensorIterator where
  insData := ti.insData.map fun d => some ⟨"", d.dims⟩
  outData := ti.outData.map fun d => ⟨"", d.dims⟩
  input_port_map := ti.input_port_map
  output_port_map := ti.output_port_map
  body := ⟨[], []⟩

structure RuleClassSet where
  first_class : List PortMap
  second_class : List PortMap
  third_class : List PortMap

/-- The iterated rules, those without a back edge and those with one. -/
def classifyRules (rules : List PortMap) (ports_with_backedge : List Int) : RuleClassSet where
  first_class := rules.filter fun rule => rule.axis ≠ -1
  second_class := rules.filter fun rule => rule.axis = -1 ∧ rule.to_ ∉ ports_with_backedge
  third_class := rules.filter fun rule => rule.axis = -1 ∧ rule.to_ ∈ ports_with_backedge

def classifyInputRules (ti : TILayer ι β α) : RuleClassSet :=
  classifyRules ti.input_port_map (ti.back_edges.map PortMap.to_)

def classifyOutputRules (ti : TILayer ι β α) : RuleClassSet :=
  classifyRules ti.output_port_map (ti.back_edges.map PortMap.from_)

def CopyTIBody (body : TIBody β α) (i : Nat) : List (CNNLayer (Copies ι β) α) :=
  body.layers.map (CNNLayer.map (Copies.copy i))

def body_idx (rule : PortMap) (num j : Nat) : Nat := if rule.stride = 1 then j else num - 1 - j

/-- A master and its slave. -/
abbrev Link (ι : Type) := DataPtr ι × DataPtr ι

section Links

variable [DecidableEq ι]

def combineAll (links : List (Link ι)) (net : List (CNNLayer ι α)) : List (CNNLayer ι α) :=
  links.foldl (fun net link => CombineData link.1 link.2 net) net

/-- An output of the last copy becomes an output of the layer. -/
def giveOutput (net : List (CNNLayer ι α)) (link : Link ι) : List (CNNLayer ι α) :=
  CombineData link.1 link.2 (net.map fun l => { l with outData := l.outData.map (redirect link.1 link.2) })

end Links

section Rounds

variable (ti : TILayer ι β α) (num : Nat) (rule : PortMap)

/-- The round of each loop over the rules. The copies have the ports of the body. -/
def inputSplit : Result (CNNLayer (Copies ι β) α) := do
  let in_data ← elemAt "ti->insData[rule.from]" ti.insData rule.from_
  let chunk ← elemAt "body_list[body_idx].inputs[rule.to]" ti.body.inputs rule.to_
  return ⟨.split rule.axis.toNat, [in_data.map .outer],
    (List.range num).map fun j => chunk.map (Copies.copy (body_idx rule num j))⟩

def inputLinks : Result (List (Link (Copies ι β))) := do
  let in_data ← elemAt "ti->insData[rule.from]" ti.insData rule.from_
  let chunk ← elemAt "body_list[j].inputs[rule.to]" ti.body.inputs rule.to_
  return (List.range num).map fun j => (in_data.map .outer, chunk.map (Copies.copy j))

def backLinks : Result (List (Link (Copies ι β))) := do
  let from_data ← elemAt "body_list[i-1].outputs[rule.from]" ti.body.outputs rule.from_
  let to_data ← elemAt "body_list[i].inputs[rule.to]" ti.body.inputs rule.to_
  return (List.range (num - 1)).map fun i => (from_data.map (Copies.copy i), to_data.map (Copies.copy (i + 1)))

def firstLink : Result (Link (Copies ι β)) := do
  let from_data ← elemAt "ti->insData[rule.from]" ti.insData rule.from_
  let to_data ← elemAt "body_list[0].inputs[rule.to]" ti.body.inputs rule.to_
  if num = 0 then .error (.undefinedBehaviour "body_list[0]")
  else return (from_data.map .outer, to_data.map (Copies.copy 0))

def outputConcat : Result (CNNLayer (Copies ι β) α) := do
  let out_data ← elemAt "ti->outData[rule.from]" ti.outData rule.from_
  let chunk ← elemAt "body_list[body_idx].outputs[rule.to]" ti.body.outputs rule.to_
  return ⟨.concat rule.axis.toNat, (List.range num).map fun j => chunk.map (Copies.copy (body_idx rule num j)),
    [out_data.map .outer]⟩

def outputLinks : Result (List (Link (Copies ι β))) := do
  let out_data ← elemAt "ti->outData[rule.from]" ti.outData rule.from_
  let chunk ← elemAt "body_list[j].outputs[rule.to]" ti.body.outputs rule.to_
  return (List.range num).map fun j => (chunk.map (Copies.copy j), out_data.map .outer)

def lastLink : Result (Link (Copies ι β)) := do
  let from_data ← elemAt "ti->outData[rule.from]" ti.outData rule.from_
  let to_data ← elemAt "body_list[num-1].outputs[rule.to]" ti.body.outputs rule.to_
  return (from_data.map .outer, to_data.map (Copies.copy (num - 1)))

end Rounds

/-- `none` is the return of false. -/
def unrollTI [DecidableEq ι] [DecidableEq β] (ti : TILayer ι β α) :
    Result (Option (List (CNNLayer (Copies ι β) α))) := do
  let iterations ← getNumIteration ti.ports
  if iterations = -1 then return none
  else if iterations < 0 then throwException "cannot create std::vector larger than max_size()"
  else
    let num := iterations.toNat
    let inputs := classifyInputRules ti
    let splits ← inputs.first_class.mapM (inputSplit ti num)
    let shared ← inputs.second_class.mapM (inputLinks ti num)
    let back ← ti.back_edges.mapM (backLinks ti num)
    let first ← inputs.third_class.mapM (firstLink ti num)
    let net := combineAll (shared.flatten ++ back.flatten ++ first)
      (splits ++ (List.range num).flatMap (CopyTIBody ti.body))
    let outputs := classifyOutputRules ti
    let concats ← outputs.first_class.mapM (outputConcat ti num)
    let given ← outputs.second_class.mapM (outputLinks ti num)
    let last ← outputs.third_class.mapM (lastLink ti num)
    return some (last.foldl giveOutput (combineAll given.flatten (net ++ concats)))

/-! ### Links -/

section Links

variable [DecidableEq ι] {links : List (Link ι)} {m d : DataPtr ι}

def redirectAll (links : List (Link ι)) (d : DataPtr ι) : DataPtr ι :=
  links.foldl (fun d link => redirect link.1 link.2 d) d

theorem redirectAll_nil : redirectAll ([] : List (Link ι)) = id := rfl

theorem combineAll_eq (links : List (Link ι)) (net : List (CNNLayer ι α)) :
    combineAll links net = net.map fun l => { l with insData := l.insData.map (redirectAll links) } := by
  induction links generalizing net with
  | nil => simp [combineAll, redirectAll_nil]
  | cons link links ih =>
    rw [combineAll, List.foldl_cons, ← combineAll, ih, CombineData, List.map_map]
    refine List.map_congr_left fun l _ => ?_
    simp only [Function.comp_apply, List.map_map]
    rfl

theorem foldl_giveOutput (links : List (Link ι)) (net : List (CNNLayer ι α)) :
    links.foldl giveOutput net = net.map fun l =>
      { l with insData := l.insData.map (redirectAll links), outData := l.outData.map (redirectAll links) } := by
  induction links generalizing net with
  | nil => simp [redirectAll_nil]
  | cons link links ih =>
    rw [List.foldl_cons, ih, giveOutput, CombineData, List.map_map, List.map_map]
    refine List.map_congr_left fun l _ => ?_
    simp only [Function.comp_apply, List.map_map]
    rfl

/-- What no link has for its slave stays. -/
theorem redirectAll_of_not_slave (h : ∀ link ∈ links, link.2 ≠ d) : redirectAll links d = d := by
  induction links with
  | nil => rfl
  | cons link links ih =>
    rw [List.forall_mem_cons] at h
    rw [redirectAll, List.foldl_cons, redirect, if_neg (Ne.symm h.1)]
    exact ih h.2

/-- A slave becomes its master, when it has one and the master is nobody's slave. -/
theorem redirectAll_of_mem (hmem : (m, d) ∈ links) (hone : ∀ link ∈ links, link.2 = d → link.1 = m)
    (hm : ∀ link ∈ links, link.2 ≠ m) : redirectAll links d = m := by
  induction links with
  | nil => simp at hmem
  | cons link links ih =>
    rw [List.forall_mem_cons] at hone hm
    rw [redirectAll, List.foldl_cons, redirect]
    by_cases hd : d = link.2
    · rw [if_pos hd, hone.1 hd.symm]
      exact redirectAll_of_not_slave hm.2
    · rw [if_neg hd]
      refine ih ?_ hone.2 hm.2
      rcases List.mem_cons.mp hmem with rfl | hmem
      · exact absurd rfl hd
      · exact hmem

end Links

end OpenVino.InferenceEngine.NetPass
