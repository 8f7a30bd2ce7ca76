import Mathlib
import OpenVino.Base.Exception
import OpenVino.Base.MarkedSearch

/-!
# The graph tools of a `CNNNetwork`

The layers and the `Data` of a network point at each other: a layer has its input and output `Data`, a `Data`
its creator and its consumers. `CNNNetGetAllInputLayers` collects the layers without input `Data` around the
first consumer of each network input, in the order of their names; `CNNNetSortTopologically` is the reversed
post-order of a depth-first search from them. A layer or a `Data` is its address.
-/

namespace OpenVino.InferenceEngine

abbrev CNNLayerPtr := Nat

abbrev DataPtr := Nat

/-- A network, with the layers that its pointers can lead to. -/
structure ICNNNetwork where
  layers : Finset CNNLayerPtr
  name : CNNLayerPtr → String
  /-- The weak pointers of a layer, `none` for one whose `Data` is gone. -/
  insData : CNNLayerPtr → List (Option DataPtr)
  outData : CNNLayerPtr → List DataPtr
  /-- The values of the map, in the order of its keys. -/
  getInputTo : DataPtr → List (Option CNNLayerPtr)
  getCreatorLayer : DataPtr → Option CNNLayerPtr
  getInputsInfo : List DataPtr
  inputTo_mem : ∀ d, ∀ l, some l ∈ getInputTo d → l ∈ layers
  creator_mem : ∀ d, ∀ l, getCreatorLayer d = some l → l ∈ layers

namespace ICNNNetwork

variable (n : ICNNNetwork)

/-- The layers that `OutLayersIterator` gives. -/
def outLayers (layer : CNNLayerPtr) : List (Option CNNLayerPtr) := (n.outData layer).flatMap n.getInputTo

/-! ### The input layers -/

/-- The creators of a layer's inputs that are still to be looked at. -/
def creatorLayers (layer : CNNLayerPtr) : List (Option DataPtr) → Result (List (Option CNNLayerPtr))
  | [] => return []
  | none :: _ => throwException ("Data inserted into layer " ++ n.name layer ++ " is nullptr")
  | some data :: insData => do
    let parents ← creatorLayers layer insData
    match n.getCreatorLayer data with
    | some creatorLayer => return some creatorLayer :: parents
    | none => return parents

/-- `CNNLayerSet::insert`, of a set in the order of the names. -/
def insertLayer (layer : CNNLayerPtr) : List CNNLayerPtr → List CNNLayerPtr
  | [] => [layer]
  | l :: ls =>
    if n.name layer < n.name l then layer :: l :: ls
    else if n.name l < n.name layer then l :: insertLayer layer ls
    else l :: ls

structure QueueState where
  visited : Finset CNNLayerPtr := ∅
  layers : List (Option CNNLayerPtr) := []
  inputLayers : List CNNLayerPtr := []

def cycleDFS (s : QueueState) : Result QueueState :=
  match s.layers with
  | [] => return s
  | none :: layers => return { s with layers }
  | some cnnLayer :: layers =>
    if cnnLayer ∈ s.visited then return { s with layers }
    else do
      let parents ← n.creatorLayers cnnLayer (n.insData cnnLayer)
      return {
        visited := insert cnnLayer s.visited
        layers := layers ++ (n.outLayers cnnLayer ++ parents)
        inputLayers :=
          if n.insData cnnLayer = [] then n.insertLayer cnnLayer s.inputLayers else s.inputLayers }

/-- `while (!layers.empty()) cycleDFS();` -/
def drainQueue : Nat → QueueState → Result QueueState
  | 0, s => if s.layers = [] then return s else .error .outOfFuel
  | fuel + 1, s =>
    if s.layers = [] then return s
    else do
      let s ← n.cycleDFS s
      drainQueue fuel s

/-- How many layers one call of `cycleDFS` puts into the queue. -/
def degree (layer : CNNLayerPtr) : Nat := (n.outLayers layer).length + (n.insData layer).length

/-- `UnorderedDFS`; a layer's neighbours are put into the queue once. -/
def UnorderedDFS (s : QueueState) (layer : Option CNNLayerPtr) : Result QueueState :=
  n.drainQueue ((∑ l ∈ n.layers, n.degree l) + 1) { s with layers := s.layers ++ [layer] }

/-- The search from the first consumer of a network input. -/
def secondLayerDFS (s : QueueState) (input : DataPtr) : Result QueueState :=
  match n.getInputTo input with
  | [] => return s
  | secondLayer :: _ => n.UnorderedDFS s secondLayer

def CNNNetGetAllInputLayers : Result (List CNNLayerPtr) := do
  let s ← n.getInputsInfo.foldlM n.secondLayerDFS {}
  return s.inputLayers

/-! ### The search -/

structure DfsState where
  visited : CNNLayerPtr → Option Bool := fun _ => none
  stackOfVisited : List CNNLayerPtr := []

/-- The loop over the layers after one, with what it returns; `run` is the recursive call. -/
def visitOut (run : DfsState → Option CNNLayerPtr → Result (Bool × DfsState)) :
    List (Option CNNLayerPtr) → DfsState → Result (Bool × DfsState)
  | [], s => return (true, s)
  | outLayerPtr :: outLayers, s =>
    match outLayerPtr.bind s.visited with
    | some true => visitOut run outLayers s
    | some false => return (false, s)
    | none => do
      let (found, s) ← run s outLayerPtr
      if found then visitOut run outLayers s else return (false, s)

/-- `DFS` with the visit after the layers behind; `stackOfVisited` is in the order after the reversal. -/
def DFS : Nat → DfsState → Option CNNLayerPtr → Result (Bool × DfsState)
  | _, s, none => return (true, s)
  | 0, _, some _ => .error .outOfFuel
  | fuel + 1, s, some layer => do
    let s := { s with visited := Function.update s.visited layer (some false) }
    let (found, s) ← visitOut (DFS fuel) (n.outLayers layer) s
    if found then
      return (true, {
        visited := Function.update s.visited layer (some true)
        stackOfVisited := layer :: s.stackOfVisited })
    else return (false, s)

def CNNNetForestDFS (fuel : Nat) : List CNNLayerPtr → DfsState → Result (Bool × DfsState)
  | [], s => return (true, s)
  | layer :: heads, s => do
    let (found, s) ← n.DFS fuel s layer
    if found then CNNNetForestDFS fuel heads s else return (false, s)

def CNNNetSortTopologically : Result (List CNNLayerPtr) := do
  let heads ← n.CNNNetGetAllInputLayers
  -- a layer is entered at most once, so that one call more than there are layers is deep enough
  let (res, s) ← n.CNNNetForestDFS (n.layers.card + 1) heads {}
  if res then return s.stackOfVisited
  else throwException "Sorting not possible, due to existed loop."

end ICNNNetwork

end OpenVino.InferenceEngine
