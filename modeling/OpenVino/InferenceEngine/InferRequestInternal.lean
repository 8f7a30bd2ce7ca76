import OpenVino.InferenceEngine.Layouts

/-!
# The blobs of an infer request

`InferRequestInternal` keeps a blob for each input and output of the network, and for an input whose blobs are
pre-processed also the blob the user gave (`preProcData`). `SetBlob` checks a blob and stores it in one of the three
maps. A blob is the object its pointer points to, with what the checks read of it; `isApplicable`, which checks a
blob to be pre-processed against the input's own, is a parameter.
-/

namespace OpenVino.InferenceEngine

inductive ColorFormat
  | RAW | RGB | BGR | RGBX | BGRX | NV12
deriving DecidableEq

inductive ResizeAlgorithm
  | NO_RESIZE | RESIZE_BILINEAR | RESIZE_AREA
deriving DecidableEq

structure Blob where
  pointee : Nat
  tensorDesc : TensorDesc
  isCompoundBlob : Bool := false
  /-- `buffer()` is not null. -/
  allocated : Bool := true
deriving DecidableEq

def product (dims : List Nat) : Nat := if dims = [] then 0 else dims.prod % 2 ^ 64

def Blob.size (b : Blob) : Nat := if b.tensorDesc.layout = .SCALAR then 1 else product b.tensorDesc.dims

structure PreProcessInfo where
  resizeAlgorithm : ResizeAlgorithm := .NO_RESIZE
  colorFormat : ColorFormat := .RAW

structure InputInfo where
  tensorDesc : TensorDesc
  preProcess : PreProcessInfo := {}

def preProcessingRequired (info : InputInfo) (blob : Blob) : Bool :=
  let inputColorFormat := info.preProcess.colorFormat
  let networkColorFormat := ColorFormat.BGR
  let colorFormatSpecified := inputColorFormat != .RAW
  info.preProcess.resizeAlgorithm != .NO_RESIZE
    || (colorFormatSpecified && inputColorFormat != networkColorFormat)
    || (colorFormatSpecified && info.tensorDesc.layout != blob.tensorDesc.layout)

structure InferRequestInternal where
  networkInputs : List (String × InputInfo)
  networkOutputs : List (String × TensorDesc)
  inputs : String → Option Blob := fun _ => none
  outputs : String → Option Blob := fun _ => none
  /-- The ROI blob of each input that has one. -/
  preProcData : String → Option Blob := fun _ => none

namespace InferRequestInternal

/-- An input or an output of the network, an input first. -/
def findInputAndOutputBlobByName (r : InferRequestInternal) (name : String) : Result (InputInfo ⊕ TensorDesc) :=
  if r.networkInputs = [] ∨ r.networkOutputs = [] then
    throwException "Internal error: network inputs and outputs is not set"
  else
    match r.networkInputs.lookup name, r.networkOutputs.lookup name with
    | some foundInput, _ => .ok (.inl foundInput)
    | none, some foundOutput => .ok (.inr foundOutput)
    | none, none => throwException "[NOT_FOUND] Failed to find input or output with name: "

/-- An exception that is thrown unless `c` holds. -/
def require (c : Prop) [Decidable c] (message : String) : Result Unit :=
  if c then .ok () else throwException message

def compoundNotSupported : String :=
  "[NOT_IMPLEMENTED] cannot set compound blob: supported only for input pre-processing"

def setInputBlob (isApplicable : Blob → Blob → Result Unit) (r : InferRequestInternal) (name : String)
    (foundInput : InputInfo) (data : Blob) : Result InferRequestInternal := do
  require (foundInput.tensorDesc.precision = data.tensorDesc.precision)
    "[PARAMETER_MISMATCH] Failed to set Blob with precision not corresponding to user input precision"
  let preProcRequired := preProcessingRequired foundInput data
  require (data.isCompoundBlob → preProcRequired) compoundNotSupported
  if preProcRequired then
    match r.inputs name with
    | none => .error (.undefinedBehaviour "PreProcessData::isApplicable(data, _inputs[name])")
    | some input =>
      isApplicable data input
      return { r with preProcData := Function.update r.preProcData name (some data) }
  else
    require (data.size = product foundInput.tensorDesc.dims)
      "Input blob size is not equal network input size ("
    return { r with inputs := Function.update r.inputs name (some data) }

def setOutputBlob (r : InferRequestInternal) (name : String) (foundOutput : TensorDesc) (data : Blob) :
    Result InferRequestInternal := do
  require (data.isCompoundBlob = false) compoundNotSupported
  require (data.size = product foundOutput.dims) "Output blob size is not equal network output size ("
  require (foundOutput.precision = data.tensorDesc.precision)
    "[PARAMETER_MISMATCH] Failed to set Blob with precision not corresponding to user output precision"
  return { r with outputs := Function.update r.outputs name (some data) }

def SetBlob (isApplicable : Blob → Blob → Result Unit) (r : InferRequestInternal) (name : String)
    (data : Option Blob) : Result InferRequestInternal :=
  match data with
  | none => throwException "[NOT_ALLOCATED] Failed to set empty blob with name: "
  | some data => do
    require (data.isCompoundBlob ∨ data.allocated) "Input data was not allocated. Input name: "
    require (data.size ≠ 0) "Input data is empty. Input name: "
    match ← r.findInputAndOutputBlobByName name with
    | .inl foundInput => r.setInputBlob isApplicable name foundInput data
    | .inr foundOutput => r.setOutputBlob name foundOutput data

/-- The three ways in which `SetBlob` stores a blob. -/
theorem SetBlob_ok {isApplicable : Blob → Blob → Result Unit} {r r' : InferRequestInternal} {name : String}
    {data : Option Blob} (h : r.SetBlob isApplicable name data = .ok r') :
    ∃ b, data = some b ∧
      ((∃ info, r.networkInputs.lookup name = some info ∧
        (r' = { r with preProcData := Function.update r.preProcData name (some b) } ∧ (r.inputs name).isSome ∨
          r' = { r with inputs := Function.update r.inputs name (some b) })) ∨
      r.networkInputs.lookup name = none ∧ r' = { r with outputs := Function.update r.outputs name (some b) }) := by
  cases data with
  | none => exact absurd h throwException_ne_ok
  | some b =>
    refine ⟨b, rfl, ?_⟩
    simp only [SetBlob, bind_ok_iff] at h
    obtain ⟨-, -, -, -, found, hfound, h⟩ := h
    unfold findInputAndOutputBlobByName at hfound
    split at hfound
    · exact absurd hfound throwException_ne_ok
    split at hfound
    · next info hinfo =>
      cases hfound
      refine .inl ⟨info, hinfo, ?_⟩
      simp only [setInputBlob, bind_ok_iff] at h
      obtain ⟨-, -, -, -, h⟩ := h
      split at h
      · split at h
        · cases h
        · next input hinput =>
          simp only [bind_ok_iff, pure_ok_iff] at h
          obtain ⟨-, -, rfl⟩ := h
          exact .inl ⟨rfl, by rw [hinput]; rfl⟩
      · simp only [bind_ok_iff, pure_ok_iff] at h
        obtain ⟨-, -, rfl⟩ := h
        exact .inr rfl
    · next hnone hout =>
      cases hfound
      simp only [setOutputBlob, bind_ok_iff, pure_ok_iff] at h
      obtain ⟨-, -, -, -, -, -, rfl⟩ := h
      exact .inr ⟨hnone, rfl⟩
    · exact absurd hfound throwException_ne_ok

end InferRequestInternal

end OpenVino.InferenceEngine
