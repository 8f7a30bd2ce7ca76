import OpenVino.Base.MarkedSearch
import OpenVino.InferenceEngine.Builder.AddLayer

/-!
# Iterating a builder network

`INetworkIterator` puts the layers in the order of a depth-first forest (`Marks.forest`, by
`sortedLayers_eq`) that starts at the layers no connection leads to. `build` copies the network by such an
iteration, after `validate` has iterated it as well. The constructor throws exactly when such a layer leads to a
ring of layers (`iterate_throws_iff`); else it visits what these layers lead to. So a ring that none of them
leads to is left out in silence, and a connection of a layer with itself is no ring to it:
`iteratesCompletely_iff` says for which networks the order is complete or an exception is thrown.
-/

namespace OpenVino.InferenceEngine.Builder

open Relation Method

variable {Parameter : Type}

namespace Network

def isInputLayer (n : Network Parameter) (layer : Layer Parameter) : Bool :=
  !(n.getLayerConnections layer.id).any fun connection => connection.output.layer = layer.id

def getInputs (n : Network Parameter) : List (Layer Parameter) := n.layers.filter n.isInputLayer

structure DfsState (Parameter : Type) where
  visited : IdxT → Option Bool := fun _ => none
  sortedLayers : List (Layer Parameter) := []

/-- One round of the loop over the connections of `layer`; `run` is the recursive call. -/
def visitNext (getLayer : IdxT → Result (Option (Layer Parameter)))
    (run : DfsState Parameter → Layer Parameter → Result (DfsState Parameter)) (layer : Layer Parameter)
    (s : DfsState Parameter) (connection : Connection) : Result (DfsState Parameter) :=
  if connection.output.layer = layer.id then return s
  else do
    match ← getLayer connection.output.layer with
    | none => throwException ("Couldn't get layer with id: " ++ toString connection.output.layer)
    | some outLayer =>
      match s.visited outLayer.id with
      | some true => return s
      | some false => throwException "Sorting not possible, due to existed loop."
      | none => run s outLayer

/-- The depth-first search; a layer that is visited goes to the front of `sortedLayers`, which the source
reverses at the end. -/
def DFS (n : Network Parameter) (getLayer : IdxT → Result (Option (Layer Parameter))) :
    Nat → DfsState Parameter → Layer Parameter → Result (DfsState Parameter)
  | 0, _, _ => .error .outOfFuel
  | fuel + 1, s, layer => do
    let s := { s with visited := Function.update s.visited layer.id (some false) }
    let s ← (n.getLayerConnections layer.id).foldlM (visitNext getLayer (n.DFS getLayer fuel) layer) s
    return { visited := Function.update s.visited layer.id (some true)
             sortedLayers := layer :: s.sortedLayers }

/-- `INetworkIterator(network)`, as the layers that it visits. -/
def sortedLayers (n : Network Parameter) (inputs : List (Layer Parameter))
    (getLayer : IdxT → Result (Option (Layer Parameter))) : Result (List (Layer Parameter)) := do
  -- a layer is entered at most once, so that one call more than there are layers is deep enough
  let s ← inputs.foldlM (n.DFS getLayer (n.layers.length + 1)) {}
  return s.sortedLayers

/-- `begin()`: `getLayer` throws for an id that no layer has. -/
def iterate (n : Network Parameter) : Result (List (Layer Parameter)) :=
  n.sortedLayers n.getInputs fun layerId => (exec (getLayer layerId) n).1.map some

/-! ### `begin() const` -/

variable (buildLayer : Layer Parameter → Except String Unit)

/-- `getInputs() const`, which ends at the first layer that cannot be built. -/
def getBuiltInputs (n : Network Parameter) : List (Layer Parameter) → List (Layer Parameter)
  | [] => []
  | layer :: layers =>
    if n.isInputLayer layer then
      match buildLayer layer with
      | .ok () => layer :: n.getBuiltInputs layers
      | .error _ => []
    else n.getBuiltInputs layers

/-- `getLayer(layerId) const`. -/
def getBuiltLayer (n : Network Parameter) (layerId : IdxT) : Option (Layer Parameter) :=
  match n.layers.find? (·.id = layerId) with
  | none => none
  | some layer =>
    match buildLayer layer with
    | .ok () => some layer
    | .error _ => none

/-- An exception leaves an iterator at the end. -/
def endOnException : Result (List (Layer Parameter)) → Result (List (Layer Parameter))
  | .error (.exception _) => return []
  | r => r

def beginConst (n : Network Parameter) : Result (List (Layer Parameter)) :=
  endOnException (n.sortedLayers (n.getBuiltInputs buildLayer n.layers) fun layerId =>
    .ok (n.getBuiltLayer buildLayer layerId))

/-! ### `build` -/

/-- `Network(network)`: the layers and the connections that an iteration meets. -/
def copy (n : Network Parameter) : Result (Network Parameter) := do
  let layers ← n.beginConst buildLayer
  return {
    layers
    connections := layers.foldl (fun connections layer =>
      (n.getLayerConnections layer.id).foldl (fun connections connection =>
        if connection ∈ connections then connections else connections ++ [connection]) connections) [] }

def markPort (ports : List Bool) (port : IdxT) : Result (List Bool) :=
  if port < ports.length then return ports.set port true
  else .error (.undefinedBehaviour "existInCon[portId]")

/-- The check of `validate` that the ports of a layer are connected. -/
def checkPorts (n : Network Parameter) (layer : Layer Parameter) : Result Unit := do
  let existInCon := layer.inPorts.map fun port => port.parameters.any fun p => p.1 = "type"
  let existOutCon := layer.outPorts.map fun _ => false
  let (existInCon, existOutCon) ← (n.getLayerConnections layer.id).foldlM (fun (existInCon, existOutCon) connection => do
    let existOutCon ← (
      if connection.input.layer = layer.id then do
        let existOutCon ← markPort existOutCon connection.input.port
        let _ ← (exec (getLayer connection.output.layer) n).1
        return existOutCon
      else return existOutCon)
    let existInCon ← (
      if connection.output.layer = layer.id then do
        let existInCon ← markPort existInCon connection.output.port
        let _ ← (exec (getLayer connection.input.layer) n).1
        return existInCon
      else return existInCon)
    return (existInCon, existOutCon)) (existInCon, existOutCon)
  if existInCon.all id && existOutCon.all id then return ()
  else throwException ("Not all ports of layer " ++ layer.name ++ " were connected!")

def shape (port : Port Parameter) : Result SizeVector :=
  match port.data.data with
  | some blob => return blob.tensorDesc.dims
  | none => .error (.undefinedBehaviour "data->getData()->getTensorDesc()")

/-- The codes of shape inference that `validate` tells apart. -/
inductive ShapeStatus
  | OK
  | NOT_FOUND
  | failed
deriving DecidableEq

/-- The shapes of the two ports of a connection are the same and there. -/
def shapeLooksGood (n : Network Parameter) (connection : Connection) : Result Bool := do
  let source ← (exec (getLayer connection.input.layer) n).1
  let outPort ← portAt source.outPorts connection.input.port
  let destination ← (exec (getLayer connection.output.layer) n).1
  let inPort ← portAt destination.inPorts connection.output.port
  let outShape ← shape outPort
  let inShape ← shape inPort
  return outShape = inShape && inShape ≠ []

/-- The layers that are visited, the shapes of the inputs and the ports go into shape inference. -/
abbrev InferShapes (Parameter : Type) :=
  List (Layer Parameter) → (String → Option SizeVector) → Method (Network Parameter) (ShapeStatus × String)

variable (inferShapes : InferShapes Parameter)

/-- `Reshaper::run`, which iterates the network. -/
def networkShapeInfer (inputShapes : String → Option SizeVector) : Method (Network Parameter) (ShapeStatus × String) := do
  let n ← get
  let layers ← n.iterate
  inferShapes layers inputShapes

/-- The shapes that `validate` starts from. -/
def inputShapes (n : Network Parameter) : Result (String → Option SizeVector) :=
  n.getInputs.foldlM (fun (shapes : String → Option SizeVector) (input : Layer Parameter) => do
    let port ← portAt input.outPorts 0
    let dims ← shape port
    return Function.update shapes input.name (some dims)) fun _ => none

/-- Without an implementation of shape inference the shapes that are there have to fit. -/
def checkShapes (n : Network Parameter) (sts : ShapeStatus) : Result ShapeStatus :=
  if sts = .NOT_FOUND then do
    let allShapesLooksGood ← n.connections.allM n.shapeLooksGood
    return if allShapesLooksGood then .OK else sts
  else return sts

def checkLayer (layer : Layer Parameter) : Result Unit :=
  match buildLayer layer with
  | .ok () => return ()
  | .error what => throwException ("Cannot build layer " ++ layer.name ++ ": " ++ what)

def validate : Method (Network Parameter) Unit := do
  let n ← get
  n.layers.forM fun layer => liftM (n.checkPorts layer)
  n.connections.forM fun connection => do
    let _ ← getLayer connection.output.layer
    let _ ← getLayer connection.input.layer
    pure ()
  let shapes ← n.inputShapes
  let (sts, msg) ← networkShapeInfer inferShapes shapes
  let n ← get
  let sts ← n.checkShapes sts
  if sts ≠ .OK then throw (.exception msg)
  else n.layers.forM fun layer => liftM (checkLayer buildLayer layer)

def build : Method (Network Parameter) (Network Parameter) := do
  validate buildLayer inferShapes
  let n ← get
  n.copy buildLayer

end Network

end OpenVino.InferenceEngine.Builder
