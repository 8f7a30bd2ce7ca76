import OpenVino.Base.Method
import OpenVino.InferenceEngine.ShapeInfer.Reshape.Controllers

/-!
# The reshaper of a network

`Reshaper.run` walks the layers in their topological order three times: it takes the shapes of the network inputs,
infers the shapes of each layer and hands them to the layers that read them, and applies what was inferred to the
`Data`. What the launchers keep between two runs are the blobs that constant inference gave them.
-/

namespace OpenVino.InferenceEngine

def TensorDesc.getLayoutByDims (dims : SizeVector) : Layout :=
  match dims.length with
  | 0 => .SCALAR
  | 1 => .C
  | 2 => .NC
  | 3 => .CHW
  | 4 => .NCHW
  | 5 => .NCDHW
  | _ => .BLOCKED

def TensorDesc.reshape (t : TensorDesc) (dims : SizeVector) (layout : Layout) : Result TensorDesc :=
  if t.blockingDesc.offsetPaddingToData.any (· ≠ 0) then throwException "Cannot reshape a non-packaged blob!"
  else do
    let layout := if layout = .ANY then t.layout else layout
    let blockingDesc ← BlockingDesc.ofLayout dims layout
    return { t with blockingDesc, layout, dims }

/-- `details::equal`, with the case ignored. -/
def details.equal (lhs rhs : String) : Bool := lhs.toList.map Char.toLower == rhs.toList.map Char.toLower

/-- `*pointer`, of a pointer that can be null. -/
def deref {α : Type} (expression : String) : Option α → Result α
  | some a => .ok a
  | none => .error (.undefinedBehaviour expression)

/-- `std::equal` of the first range with as much of the second one, which is not looked at before it is needed. -/
def stdEqual {α : Type} [DecidableEq α] (expression : String) : List α → List α → Result Bool
  | [], _ => return true
  | _ :: _, [] => .error (.undefinedBehaviour expression)
  | a :: as, b :: bs => if a = b then stdEqual expression as bs else return false

namespace ShapeInfer

/-- A network, with what the layers say about themselves. -/
structure CNNNetwork (β : Type) extends ICNNNetwork where
  type : CNNLayerPtr → String
  params : CNNLayerPtr → List (String × String)
  blobs : CNNLayerPtr → List (String × Blob β)
  GetParamAsInt : CNNLayerPtr → String → Result Int
  getName : DataPtr → String

variable {β : Type}

/-- What `inferShapes` returns: the message of a status other than `OK`, and the shapes. -/
structure InferredShapes where
  error : Option String := none
  outShapes : List SizeVector

abbrev IShapeInferImpl (β : Type) :=
  List (Option (Blob β)) → List (String × String) → List (String × Blob β) → InferredShapes

/-- `infer`: what it writes into each of the output blobs. -/
abbrev IConstInferImpl (β : Type) :=
  List (Option (Blob β)) → List (String × String) → List (String × Blob β) → List TensorDesc → Result (Nat → β)

structure IShapeInferExtension (β : Type) where
  /-- The message of a status other than `OK`, or the types. -/
  getShapeInferTypes : Except String (List String)
  /-- `none` for a status other than `OK` and for a null pointer. -/
  getShapeInferImpl : String → Option (IShapeInferImpl β)

inductive LauncherKind (β : Type)
  | ReshapeLauncher (reshapeImpl : IShapeInferImpl β)
  | FakeReshapeLauncher
  | InputReshapeLauncher
  | ConstReshapeLauncher
  | OutMemoryReshapeLauncher

structure Launcher (β : Type) where
  kind : LauncherKind β
  layer : CNNLayerPtr
  iController : Option (InputController β)
  oController : Option (InputController β)
  inferImpl : Option (IConstInferImpl β)

/-- The members of a `Reshaper`, and the `Data` that the pointers of its network lead to. -/
structure Reshaper (β : Type) where
  allTypes : List String
  extensions : List (IShapeInferExtension β)
  /-- In the order of the addresses. -/
  launchers : List (Launcher β)
  allSortedLayers : List CNNLayerPtr
  inputLayers : List CNNLayerPtr
  data : DataPtr → Data

namespace Launcher

variable (launcher : Launcher β)

/-- A call that the input and the constant launcher pass to their output controller, and the others to their input
controller. -/
def named (f : InputController β → Result (InputController β)) : Result (Launcher β) :=
  match launcher.kind with
  | .InputReshapeLauncher | .ConstReshapeLauncher => do
    let c ← deref "_oController" launcher.oController
    let c ← f c
    return { launcher with oController := some c }
  | _ => do
    let c ← deref "_iController" launcher.iController
    let c ← f c
    return { launcher with iController := some c }

def setShapeByName (shape : SizeVector) (dataName : String) : Result (Launcher β) :=
  launcher.named fun c => c.setShapeByName shape dataName

def setBlobByName (blob : Option (Blob β)) (dataName : String) : Result (Launcher β) :=
  launcher.named fun c => c.setBlobByName blob dataName

def setIRShapeByName (dataName : String) : Result (Launcher β) :=
  launcher.named fun c => do
    let foundShape ← c.getIRShapeByName dataName
    c.setShapeByName foundShape dataName

/-- `reset`, on the controllers that the launcher has. -/
def reset : Launcher β :=
  { launcher with
    iController := launcher.iController.map InputController.reset
    oController := launcher.oController.map InputController.reset }

end Launcher

namespace Reshaper

variable (n : CNNNetwork β)

/-! ### The launchers by the names of their layers -/

def find (layerName : String) (launchers : List (Launcher β)) : Option (Launcher β) :=
  launchers.find? fun launcher => n.name launcher.layer == layerName

/-- The launcher that `find` finds under this name, written anew. -/
def replace (launcher : Launcher β) : List (Launcher β) → List (Launcher β)
  | [] => []
  | l :: launchers =>
    if n.name l.layer = n.name launcher.layer then launcher :: launchers else l :: replace launcher launchers

def findLauncher (message layerName : String) : Method (Reshaper β) (Launcher β) := do
  let r ← get
  match find n layerName r.launchers with
  | some launcher => return launcher
  | none => throw (.exception message)

def getLauncherByLayerName (layerName : String) : Method (Reshaper β) (Launcher β) :=
  findLauncher n ("Failed to reshape layer ('" ++ layerName ++ "'): can't find the corresponding launcher") layerName

def store (launcher : Launcher β) : Method (Reshaper β) Unit :=
  modify fun r => { r with launchers := replace n launcher r.launchers }

/-- A call on a launcher. -/
def update (launcher : Launcher β) (f : Launcher β → Result (Launcher β)) : Method (Reshaper β) Unit := do
  let launcher ← liftM (f launcher)
  store n launcher

/-! ### Propagation -/

/-- The loops over the consumers of the output `Data`; `f` is the call on the launcher of a consumer. -/
def propagate (c : InputController β) (f : Port β → Nat → Launcher β → Result (Launcher β)) :
    Method (Reshaper β) Unit :=
  c.ports.zipIdx.forM fun (port, idx) =>
    (n.getInputTo port.data).forM fun
      | none => throw (.exception "Failed to propagate shapes: connected layer is null")
      | some layer => do
        let launcher ← findLauncher n ("Failed to find ReshapeLauncher for layer: '" ++ n.name layer ++ "'") (n.name layer)
        update n launcher (f port idx)

def propagateShapes (c : InputController β) : Method (Reshaper β) Unit := do
  liftM c.checkCorrespondence
  propagate n c fun port idx launcher => do
    let shape ← elemAt "_shapes[idx]" c.shapes idx
    launcher.setShapeByName shape port.dataName

def propagateBlobs (c : InputController β) : Method (Reshaper β) Unit :=
  propagate n c fun port _ launcher => launcher.setBlobByName port.inferedData port.dataName

/-! ### `reshape` -/

def ReshapeLauncher.reshape (launcher : Launcher β) (reshapeImpl : IShapeInferImpl β) :
    Method (Reshaper β) Unit := do
  let r ← get
  let i ← liftM (deref "_iController" launcher.iController)
  let o ← liftM (deref "_oController" launcher.oController)
  let i ← liftM (i.getBlobs r.data true)
  let inferred := reshapeImpl i.blobs (n.params launcher.layer) (n.blobs launcher.layer)
  let o := o.setShapes inferred.outShapes
  store n { launcher with iController := some i, oController := some o }
  match inferred.error with
  | some msg =>
    throw (.exception ("Failed to infer shapes for " ++ n.type launcher.layer ++ " layer (" ++
      n.name launcher.layer ++ ") with error: " ++ msg))
  | none => propagateShapes n o

/-- The loop over the ports of a layer without an implementation. -/
def checkShapes (type : String) : List SizeVector → List SizeVector → Result Unit
  | [], _ => return ()
  | _ :: _, [] => .error (.undefinedBehaviour "iShapesIR[i]")
  | newInShape :: iShapes, irInShape :: iShapesIR => do
    let equal ← stdEqual "*irInShape.end()" newInShape irInShape
    if equal then checkShapes type iShapes iShapesIR
    else throwException ("Failed to infer shapes for layer with type: " ++ type ++
      ". Use @IShapeInferExtension class to register shape infer function for this layer")

def FakeReshapeLauncher.reshape (launcher : Launcher β) : Method (Reshaper β) Unit := do
  let i ← liftM (deref "_iController" launcher.iController)
  let o ← liftM (deref "_oController" launcher.oController)
  let iShapes ← liftM (i.getShapes true)
  liftM (checkShapes (n.type launcher.layer) iShapes i.getIRShapes)
  let o := o.setShapes o.getIRShapes
  store n { launcher with oController := some o }
  propagateShapes n o

/-- The loop over the shapes of an input: what is empty takes the shape of the IR. -/
def fillEmpty : List SizeVector → List SizeVector → List SizeVector
  | oShape :: oShapes, oIRShape :: oIRShapes =>
    (if oShape = [] then oIRShape else oShape) :: fillEmpty oShapes oIRShapes
  | oShapes, _ => oShapes

def InputReshapeLauncher.reshape (launcher : Launcher β) : Method (Reshaper β) Unit := do
  let o ← liftM (deref "_oController" launcher.oController)
  let o := o.setShapes (fillEmpty o.shapes o.getIRShapes)
  store n { launcher with oController := some o }
  propagateShapes n o

def ConstReshapeLauncher.reshape (launcher : Launcher β) : Method (Reshaper β) Unit := do
  let o ← liftM (deref "_oController" launcher.oController)
  let oShapes := o.shapes
  let o := if oShapes = [] then o.setShapes o.getIRShapes else o
  store n { launcher with oController := some o }
  if oShapes ≠ o.getIRShapes then
    throw (.exception ("Failed to set different shapes for Const layer, original shapes:" ++
      toString o.getIRShapes ++ " new shapes:" ++ toString oShapes))
  else propagateShapes n o

def reshape (launcher : Launcher β) : Method (Reshaper β) Unit :=
  match launcher.kind with
  | .ReshapeLauncher reshapeImpl => ReshapeLauncher.reshape n launcher reshapeImpl
  | .FakeReshapeLauncher => FakeReshapeLauncher.reshape n launcher
  | .InputReshapeLauncher => InputReshapeLauncher.reshape n launcher
  | .ConstReshapeLauncher => ConstReshapeLauncher.reshape n launcher
  | .OutMemoryReshapeLauncher => return ()

/-! ### `constInfer` -/

def getInferImpl (launcher : Launcher β) : Result (IConstInferImpl β) :=
  match launcher.inferImpl with
  | some inferImpl => return inferImpl
  | none => throwException ("Failed to find reference implementation for `" ++ n.name launcher.layer ++
      "` Layer with `" ++ n.type launcher.layer ++ "` Type on constant propagation")

/-- The output blobs, once they are written. -/
def written (descs : List TensorDesc) (contents : Nat → β) : List (Blob β) :=
  descs.zipIdx.map fun (desc, i) => { tensorDesc := desc, buffer := some (contents i) }

def ReshapeLauncher.constInfer (launcher : Launcher β) : Method (Reshaper β) Unit := do
  let r ← get
  let i ← liftM (deref "_iController" launcher.iController)
  if i.isDataAvailable || n.type launcher.layer == "Const" || n.type launcher.layer == "Shape" then
    let o ← liftM (deref "_oController" launcher.oController)
    let outBlobs ← liftM (o.createBlobs r.data)
    let inferImpl ← liftM (getInferImpl n launcher)
    let i ← liftM (i.getBlobs r.data false)
    let contents ← liftM (inferImpl i.blobs (n.params launcher.layer) (n.blobs launcher.layer) outBlobs)
    let o := o.setBlobs (written outBlobs contents)
    store n { launcher with iController := some i, oController := some o }
    propagateBlobs n o

def OutputOnlyReshapeLauncher.constInfer (launcher : Launcher β) : Method (Reshaper β) Unit := do
  let r ← get
  if n.type launcher.layer == "Const" then
    let o ← liftM (deref "_oController" launcher.oController)
    let outBlobs ← liftM (o.createBlobs r.data)
    let inferImpl ← liftM (getInferImpl n launcher)
    let contents ← liftM (inferImpl [] (n.params launcher.layer) (n.blobs launcher.layer) outBlobs)
    let shapes ← liftM (o.getShapes true)
    let outBlobs ← liftM ((outBlobs.zip shapes).mapM fun (desc, shape) =>
      desc.reshape shape (TensorDesc.getLayoutByDims shape))
    let o := o.setBlobs (written outBlobs contents)
    store n { launcher with oController := some o }
    propagateBlobs n o

def constInfer (launcher : Launcher β) : Method (Reshaper β) Unit :=
  match launcher.kind with
  | .ReshapeLauncher _ => ReshapeLauncher.constInfer n launcher
  | .InputReshapeLauncher | .ConstReshapeLauncher => OutputOnlyReshapeLauncher.constInfer n launcher
  | .FakeReshapeLauncher | .OutMemoryReshapeLauncher => return ()

/-! ### `applyChanges` -/

/-- `Data::setDims`; `dims` is set before the descriptor can refuse. -/
def setDims (d : DataPtr) (a_dims : SizeVector) : Method (Reshaper β) Unit := do
  modify fun r => { r with data := Function.update r.data d { r.data d with dims := a_dims.reverse } }
  let r ← get
  let tensorDesc ← liftM ((r.data d).tensorDesc.setDims a_dims)
  modify fun r => { r with data := Function.update r.data d { r.data d with tensorDesc } }

def InputController.applyChanges (c : InputController β) : Method (Reshaper β) Unit := do
  liftM c.checkCorrespondence
  (c.ports.zip c.shapes).forM fun (port, shape) => setDims port.data shape

def checkLayer (launcher : Launcher β) (layer : CNNLayerPtr) : Result Unit := do
  let oldParams := n.params launcher.layer
  let newParams := n.params layer
  let equal ← (
    if oldParams ≠ [] ∧ newParams ≠ [] then stdEqual "*newParams.end()" oldParams newParams else return true)
  if equal = false ∨ n.name launcher.layer ≠ n.name layer ∨ n.type launcher.layer ≠ n.type layer ∨
      oldParams.length ≠ newParams.length then
    throwException "Can't apply changes for layer with another params"
  else return ()

/-- `applyChanges`, on the controllers that the launcher has. -/
def applyChanges (launcher : Launcher β) (layer : CNNLayerPtr) : Method (Reshaper β) Unit := do
  liftM (checkLayer n launcher layer)
  launcher.iController.toList.forM InputController.applyChanges
  launcher.oController.toList.forM InputController.applyChanges

/-! ### `run` -/

def resetAll : Method (Reshaper β) Unit :=
  modify fun r => { r with launchers := r.launchers.map Launcher.reset }

def setInputShapes (inputShapes : String → Option SizeVector) : Method (Reshaper β) Unit := do
  let r ← get
  r.inputLayers.forM fun input =>
    (n.outData input).forM fun outData => do
      let dataName := n.getName outData
      let foundLauncher ← getLauncherByLayerName n (n.name input)
      match inputShapes dataName with
      | some shape => update n foundLauncher (·.setShapeByName shape dataName)
      | none => update n foundLauncher (·.setIRShapeByName dataName)

/-- The loop over the sorted layers that calls `reshape` and `constInfer`. -/
def inferLayers (layers : List CNNLayerPtr) : Method (Reshaper β) Unit :=
  layers.forM fun layer => do
    let foundLauncher ← getLauncherByLayerName n (n.name layer)
    reshape n foundLauncher
    let foundLauncher ← getLauncherByLayerName n (n.name layer)
    constInfer n foundLauncher

def applyLayers (layers : List CNNLayerPtr) : Method (Reshaper β) Unit :=
  layers.forM fun layer => do
    let foundLauncher ← getLauncherByLayerName n (n.name layer)
    applyChanges n foundLauncher layer

def run (inputShapes : String → Option SizeVector) : Method (Reshaper β) Unit := do
  resetAll
  setInputShapes n inputShapes
  let r ← get
  inferLayers n r.allSortedLayers
  applyLayers n r.allSortedLayers

/-! ### The constructor -/

section Constructor

variable (getConstInferImpl : String → Option (IConstInferImpl β)) (data : DataPtr → Data)

def createInputController (layer : CNNLayerPtr) : Result (InputController β) :=
  InputController.create n.getName data (n.insData layer) (n.name layer)

def createOutputController (layer : CNNLayerPtr) : Result (InputController β) :=
  InputController.create n.getName data ((n.outData layer).map some) (n.name layer)

/-- The constructor of a launcher with both controllers. -/
def createLauncher (kind : LauncherKind β) (layer : CNNLayerPtr) : Result (Launcher β) := do
  let i ← createInputController n data layer
  let o ← createOutputController n data layer
  return { kind, layer, iController := some i, oController := some o, inferImpl := getConstInferImpl (n.type layer) }

/-- The constructor of the input and the constant launcher. -/
def createOutputOnlyLauncher (kind : LauncherKind β) (layer : CNNLayerPtr) : Result (Launcher β) := do
  if n.insData layer ≠ [] then
    throwException ("Failed to init reshape launcher: layer type (`" ++ n.type layer ++
      "`) is supposed to not have inputs, but actually it has")
  let o ← createOutputController n data layer
  return { kind, layer, iController := none, oController := some o, inferImpl := getConstInferImpl (n.type layer) }

def createOutMemoryLauncher (layer : CNNLayerPtr) : Result (Launcher β) := do
  let index ← n.GetParamAsInt layer "index"
  if !details.equal (n.type layer) "memory" ∧ index ≠ 0 then
    throwException ("Failed to init reshape launcher: layer type (`" ++ n.type layer ++ "`) is not `Memory` as output")
  if n.outData layer ≠ [] then
    throwException ("Failed to init reshape launcher: layer type (`" ++ n.type layer ++
      "`) is supposed to not have outputs, but actually it has")
  let i ← createInputController n data layer
  return { kind := .OutMemoryReshapeLauncher, layer, iController := some i, oController := none
           inferImpl := getConstInferImpl (n.type layer) }

/-- Whether the layer is a `Memory` with an index other than zero. -/
def isInputMemory (layer : CNNLayerPtr) : Result Bool :=
  if details.equal (n.type layer) "memory" then (· ≠ 0) <$> n.GetParamAsInt layer "index" else return false

def createNotInputLauncher (layer : CNNLayerPtr) (extensions : List (IShapeInferExtension β)) :
    Result (Launcher β) := do
  let inputMemory ← isInputMemory n layer
  if inputMemory || details.equal (n.type layer) "const" || details.equal (n.type layer) "input" then
    throwException ("Failed to reshape: Layer with type `" ++ n.type layer ++
      "` can't be intermediate layer in network")
  match extensions.findSome? (·.getShapeInferImpl (n.type layer)) with
  | some impl =>
    if details.equal (n.type layer) "memory" then createOutMemoryLauncher n getConstInferImpl data layer
    else createLauncher n getConstInferImpl data (.ReshapeLauncher impl) layer
  | none => createLauncher n getConstInferImpl data .FakeReshapeLauncher layer

def createInputLauncher (layer : CNNLayerPtr) : Result (Launcher β) := do
  let inputMemory ← isInputMemory n layer
  if inputMemory then createOutputOnlyLauncher n getConstInferImpl data .InputReshapeLauncher layer
  else if details.equal (n.type layer) "const" then
    createOutputOnlyLauncher n getConstInferImpl data .ConstReshapeLauncher layer
  else if details.equal (n.type layer) "input" then
    createOutputOnlyLauncher n getConstInferImpl data .InputReshapeLauncher layer
  else throwException ("Failed to reshape: Layer with type `" ++ n.type layer ++
    "` can't be input. Supported input types: Input, Const and Memory(with index=1)")

end Constructor

end Reshaper

end ShapeInfer

end OpenVino.InferenceEngine
