import OpenVino.InferenceEngine.ShapeInfer.Reshape.Launchers
import OpenVino.InferenceEngine.SortTopologically

/-!
# Extensions of a reshaper

`AddExtension` registers the types of an extension one by one before it knows whether one of them is registered
already, and takes the launchers of a type out of the set before it has the new ones together. `addExtension_iff`:
a call that throws leaves no trace exactly when it throws before any of that.
-/

namespace OpenVino.InferenceEngine

/-! ### Sets of names -/

/-- Neither name is less than the other one when the case is ignored. -/
def caselessEq (a b : String) : Bool := a.toList.map Char.toLower == b.toList.map Char.toLower

def CaselessLess (a b : String) : Prop := a.toList.map Char.toLower < b.toList.map Char.toLower

instance (a b : String) : Decidable (CaselessLess a b) :=
  inferInstanceAs (Decidable (a.toList.map Char.toLower < b.toList.map Char.toLower))

namespace caseless_set

variable (types : List String) (type : String)

def contains : Bool := types.any (caselessEq type)

/-- `insert`, of a set in its order; the second component tells whether the name is new. -/
def insert : List String × Bool :=
  if contains types type then (types, false) else (types.orderedInsert CaselessLess type, true)

end caseless_set

namespace ShapeInfer.Reshaper

variable {β : Type} (n : CNNNetwork β) (getConstInferImpl : String → Option (IConstInferImpl β))
  (place : List (Launcher β) → Launcher β → Nat)

/-- The types of an extension, once each. -/
def getTypeNamesFromExtension (extension : IShapeInferExtension β) : Result (List String) :=
  match extension.getShapeInferTypes with
  | .ok types => return types.foldl (fun typesSet type => (caseless_set.insert typesSet type).1) []
  | .error msg => throwException ("Failed to get types from extension: " ++ msg)

/-- The loop that registers the types; it returns those that were there, in one string. -/
def registerTypes : List String → String → Method (Reshaper β) String
  | [], badLayerTypes => return badLayerTypes
  | type :: types, badLayerTypes => do
    let r ← get
    let ret := caseless_set.insert r.allTypes type
    modify fun r => { r with allTypes := ret.1 }
    if ret.2 then registerTypes types badLayerTypes
    else registerTypes types ((if badLayerTypes = "" then badLayerTypes else badLayerTypes ++ ", ") ++ type)

/-- The new launcher of a layer of the extension's type. -/
def newLauncher (extension : IShapeInferExtension β) (layerType : String) (data : DataPtr → Data)
    (foundLauncher : Launcher β) : Result (Launcher β) :=
  match extension.getShapeInferImpl layerType with
  | some impl => createLauncher n getConstInferImpl data (.ReshapeLauncher impl) foundLauncher.layer
  | none => throwException ("Failed to get registered Shape Infer Implementation for type: " ++ layerType)

/-- The loop that takes the launchers of a type out of the set, of which `seen` is what it went past. -/
def takeLaunchers (extension : IShapeInferExtension β) (layerType : String) :
    List (Launcher β) → List (Launcher β) → Method (Reshaper β) (List (Launcher β))
  | _, [] => return []
  | seen, launcher :: launchers =>
    if n.type launcher.layer = layerType then do
      let r ← get
      let new ← liftM (newLauncher n getConstInferImpl extension layerType r.data launcher)
      modify fun r => { r with launchers := seen ++ launchers }
      let launchersToInsert ← takeLaunchers extension layerType seen launchers
      return new :: launchersToInsert
    else takeLaunchers extension layerType (seen ++ [launcher]) launchers

/-- `_launchers.insert`; the allocator decides at which `place` of the set the new pointer is. -/
def insertLauncher (launchers : List (Launcher β)) (launcher : Launcher β) : List (Launcher β) :=
  launchers.insertIdx (min (place launchers launcher) launchers.length) launcher

def replaceLaunchers (extension : IShapeInferExtension β) (layerType : String) : Method (Reshaper β) Unit := do
  let r ← get
  let launchersToInsert ← takeLaunchers n getConstInferImpl extension layerType [] r.launchers
  modify fun r => { r with launchers := launchersToInsert.foldl (insertLauncher place) r.launchers }

def AddExtension (extension : Option (IShapeInferExtension β)) : Method (Reshaper β) Unit :=
  match extension with
  | none => throw (.exception "Failed to add empty shape infer extension")
  | some extension => do
    let newLayerTypes ← liftM (getTypeNamesFromExtension extension)
    let badLayerTypes ← registerTypes newLayerTypes ""
    if badLayerTypes ≠ "" then
      throw (.exception ("Failed to add extension with already registered types:" ++ badLayerTypes))
    else do
      newLayerTypes.forM (replaceLaunchers n getConstInferImpl place extension)
      modify fun r => { r with extensions := r.extensions ++ [extension] }

/-- The constructor, of the holder of the built-in implementations. -/
def create (builtIn : IShapeInferExtension β) (data : DataPtr → Data) : Result (Reshaper β) := do
  let allTypes ← getTypeNamesFromExtension builtIn
  let layers ← n.CNNNetGetAllInputLayers
  let inputLayers := layers.dedup.insertionSort (· ≤ ·)
  let allSortedLayers ← n.CNNNetSortTopologically
  if inputLayers = [] ∨ allSortedLayers = [] then
    throwException "Unsupported model for shape inference: failed to collect inputs and layers"
  let launchers ← allSortedLayers.mapM fun currentLayer =>
    if inputLayers.any fun inputLayer => n.name currentLayer == n.name inputLayer then
      createInputLauncher n getConstInferImpl data currentLayer
    else createNotInputLauncher n getConstInferImpl data currentLayer [builtIn]
  return {
    allTypes, extensions := [builtIn], launchers := launchers.foldl (insertLauncher place) []
    allSortedLayers, inputLayers, data }

/-! ### A network of two layers -/

section Example

/-- An input and a layer that reads it. -/
def chain (type : String) : CNNNetwork Unit where
  toICNNNetwork := .ofEdges 2 [(10, some 0, [1]), (11, some 1, [])] [10] (by decide)
  type l := if l = 0 then "Input" else type
  params _ := []
  blobs _ := []
  GetParamAsInt _ _ := return 0
  getName d := toString d

/-- A `Data` of the shape 1 x 8. -/
def row (layout : Layout) : Data where
  dims := [8, 1]
  layout
  precision := .FP32
  tensorDesc := {
    precision := .FP32, dims := [1, 8], layout
    blockingDesc := if layout = .ANY then {} else .filled [1, 8] [0, 1] }

/-- An extension that copies the shape of its input. -/
def copies (types : List String) : IShapeInferExtension Unit where
  getShapeInferTypes := .ok types
  getShapeInferImpl type :=
    if type ∈ types then
      some fun inBlobs _ _ => { outShapes := inBlobs.map fun blob => (blob.map (·.tensorDesc.dims)).getD [] }
    else none

/-- The controller of a layer with the one port `d`. -/
def rowController (layerName : String) (d : DataPtr) (shape : SizeVector) : InputController Unit where
  layerName
  ports := [{ data := d, dataName := toString d, irShape := [1, 8] }]
  shapes := [shape]

/-- The launcher of the layer behind the input, with the shape of its port. -/
def rowLauncher (kind : LauncherKind Unit) (shape : SizeVector) : Launcher Unit where
  kind
  layer := 1
  iController := some (rowController "1" 10 shape)
  oController := some (rowController "1" 11 [1, 8])
  inferImpl := none

/-- The reshaper of `chain type`, when the built-in types are `Input` and `Old`, with the shapes that the two launchers
have for the input. -/
def chainAt (kind : LauncherKind Unit) (layout : Layout) (inputShape shape : SizeVector) : Reshaper Unit where
  allTypes := ["Input", "Old"]
  extensions := [copies ["Input", "Old"]]
  launchers := [
    { kind := .InputReshapeLauncher, layer := 0, iController := none, inferImpl := none
      oController := some (rowController "0" 10 inputShape) },
    rowLauncher kind shape]
  allSortedLayers := [0, 1]
  inputLayers := [0]
  data _ := row layout

/-- What the constructor builds. -/
def chainReshaper (kind : LauncherKind Unit) (layout : Layout) : Reshaper Unit := chainAt kind layout [1, 8] [1, 8]

end Example

end ShapeInfer.Reshaper

end OpenVino.InferenceEngine
