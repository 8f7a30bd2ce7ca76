import OpenVino.Base.StdMap
import OpenVino.InferenceEngine.GraphTools

/-!
# The layers and `Data` that the graph tools edit

Every link is kept twice: a layer lists the `Data` of its input ports, and a `Data` maps names to the layers
that read it. `Graph.WellFormed` is what a network keeps between the two: a layer is a consumer of the
`Data` of its ports and of no other, and the creator of its outputs.
-/

namespace OpenVino.InferenceEngine.Heap

structure CNNLayer where
  name : String
  insData : List DataPtr
  outData : List DataPtr

structure Data where
  name : String
  dims : List Nat
  creatorLayer : Option CNNLayerPtr
  inputTo : StdMap String CNNLayerPtr

structure Graph where
  layer : CNNLayerPtr → CNNLayer
  data : DataPtr → Data

namespace Graph

variable (g : Graph)

def setInsData (l : CNNLayerPtr) (insData : List DataPtr) : Graph :=
  { g with layer := Function.update g.layer l { g.layer l with insData } }

def setInputTo (d : DataPtr) (inputTo : StdMap String CNNLayerPtr) : Graph :=
  { g with data := Function.update g.data d { g.data d with inputTo } }

def setDims (d : DataPtr) (dims : List Nat) : Graph :=
  { g with data := Function.update g.data d { g.data d with dims } }

def setCreatorLayer (d : DataPtr) (creatorLayer : Option CNNLayerPtr) : Graph :=
  { g with data := Function.update g.data d { g.data d with creatorLayer } }

/-- The layers that a `Data` is mapped to. -/
def consumers (d : DataPtr) : List CNNLayerPtr := (g.data d).inputTo.values

def areEqualDatas (source target : DataPtr) : Prop :=
  source = target ∨
    (g.data source).dims.length = (g.data target).dims.length ∧ (g.data source).name = (g.data target).name

instance (source target : DataPtr) : Decidable (g.areEqualDatas source target) :=
  inferInstanceAs (Decidable (_ ∨ _))

structure WellFormed : Prop where
  consistent : ∀ d l, l ∈ g.consumers d ↔ d ∈ (g.layer l).insData
  creator_iff : ∀ d l, (g.data d).creatorLayer = some l ↔ d ∈ (g.layer l).outData
  nodup_outData : ∀ l, (g.layer l).outData.Nodup
  no_self_loop : ∀ l, ∀ d ∈ (g.layer l).insData, d ∉ (g.layer l).outData

/-! ### What an assignment changes -/

variable {g} {l l' : CNNLayerPtr} {d d' : DataPtr} {insData : List DataPtr}
  {inputTo : StdMap String CNNLayerPtr}

@[simp] theorem setInsData_data : (g.setInsData l insData).data = g.data := rfl

@[simp] theorem setInputTo_layer : (g.setInputTo d inputTo).layer = g.layer := rfl

@[simp] theorem setInsData_insData_self : ((g.setInsData l insData).layer l).insData = insData := by
  simp [setInsData]

theorem setInsData_layer_ne (h : l' ≠ l) : (g.setInsData l insData).layer l' = g.layer l' :=
  Function.update_of_ne h ..

@[simp] theorem setInsData_outData : ((g.setInsData l insData).layer l').outData = (g.layer l').outData := by
  by_cases h : l' = l
  · subst h
    simp [setInsData]
  · rw [setInsData_layer_ne h]

@[simp] theorem setInsData_name : ((g.setInsData l insData).layer l').name = (g.layer l').name := by
  by_cases h : l' = l
  · subst h
    simp [setInsData]
  · rw [setInsData_layer_ne h]

@[simp] theorem setInputTo_inputTo_self : ((g.setInputTo d inputTo).data d).inputTo = inputTo := by
  simp [setInputTo]

theorem setInputTo_data_ne (h : d' ≠ d) : (g.setInputTo d inputTo).data d' = g.data d' :=
  Function.update_of_ne h ..

@[simp] theorem setInputTo_creatorLayer :
    ((g.setInputTo d inputTo).data d').creatorLayer = (g.data d').creatorLayer := by
  by_cases h : d' = d
  · subst h
    simp [setInputTo]
  · rw [setInputTo_data_ne h]

@[simp] theorem setInputTo_name : ((g.setInputTo d inputTo).data d').name = (g.data d').name := by
  by_cases h : d' = d
  · subst h
    simp [setInputTo]
  · rw [setInputTo_data_ne h]

@[simp] theorem setDims_layer {dims : List Nat} : (g.setDims d dims).layer = g.layer := rfl

@[simp] theorem setDims_inputTo {dims : List Nat} :
    ((g.setDims d dims).data d').inputTo = (g.data d').inputTo := by
  by_cases h : d' = d
  · subst h
    simp [setDims]
  · simp [setDims, h]

end Graph

end OpenVino.InferenceEngine.Heap
