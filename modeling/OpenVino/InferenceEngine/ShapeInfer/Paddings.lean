import OpenVino.InferenceEngine.ShapeInfer.WindowShapes

/-!
# The paddings of a layer with a window

`getPaddings` reads the mode of padding from the parameters of the layer and computes the paddings of the modes
other than `valid` from the dims of the first input.
-/

namespace OpenVino.InferenceEngine

structure Paddings where
  begin : PropertyVector
  end_ : PropertyVector
deriving DecidableEq

/-- What `getPaddingsInternal` reads of a layer; `autoPad` is the parameter `auto_pad`, where there is one, and
`insData` has the dims of the inputs that still exist. -/
structure PaddedLayer where
  type : String
  autoPad : Option String
  kernel : PropertyVector
  stride : PropertyVector
  padding : PropertyVector
  padsEnd : PropertyVector
  getKernel : ℕ → Result UInt32
  insData : List (Option SizeVector)

/-- `getKernel` of a layer with dilations. -/
def getKernel (layer : ConvolutionLayer) (i : ℕ) : Result UInt32 := do
  let kernel ← layer.kernel.get i
  if i < layer.dilation.size then
    let dilation ← layer.dilation.get i
    return dilatedKernel kernel dilation
  else return kernel

section Internal

/-- What is missing to the last window, before it is rounded to `float`. -/
def missing (kernel stride sh : Int) : Result Int := do
  if stride = 0 then .error (.undefinedBehaviour "sh % stride")
  let rm := sh.tmod stride
  let rest ← intArith "kernel - rm" (kernel - (if rm = 0 then stride else rm))
  return max rest 0

/-- The two halves of `PA`. -/
def splitPadding (mode : String) (missing : Int) : UInt32 × UInt32 :=
  let PA := nearest missing
  let pBegin := nearest (PA * (1 / 2))
  let pEnd := nearest (PA - pBegin)
  if mode = "same_upper" then (.ofNat ⌊pBegin⌋₊, .ofNat ⌈pEnd⌉₊)
  else if mode = "same_lower" then (.ofNat ⌈pBegin⌉₊, .ofNat ⌊pEnd⌋₊)
  else (.ofNat ⌊pBegin⌋₊, .ofNat ⌊pEnd⌋₊)

/-- One round of the loop over the axes. -/
def axisPadding (layer : PaddedLayer) (mode : String) (shapes : List Int) (i : ℕ) : Result (UInt32 × UInt32) := do
  let kernel ← layer.getKernel i
  let stride ← if i < layer.stride.size then layer.stride.get i else pure 1
  let sh ← elemAt "shapes[i]" shapes i
  let sh ← if layer.type = "Deconvolution" then intArith "sh *= stride" (sh * toInt stride.toNat) else pure sh
  let PA ← missing (toInt kernel.toNat) (toInt stride.toNat) sh
  return splitPadding mode PA

/-- The dims of the innermost axes, as `int`. -/
def innerShapes (shape : SizeVector) : List Int := (shape.drop 2).reverse.map toInt

def autoPaddings (layer : PaddedLayer) (mode : String) : Result Paddings := do
  if (3 < layer.insData.length ∨ layer.insData = []) ∧ layer.type ≠ "DeformableConvolution" then
    throwException "number of inputs should be in range [1, 3]"
  if (4 < layer.insData.length ∨ layer.insData = []) ∧ layer.type = "DeformableConvolution" then
    throwException "number of inputs should be in range [2, 4]"
  match layer.insData.getD 0 none with
  | none => throwException "input is empty"
  | some shape =>
    if shape.length < 4 ∨ 5 < shape.length then throwException "input shape must be 4D or 5D"
    let pads ← (List.range layer.kernel.size).mapM (axisPadding layer mode (innerShapes shape))
    let padBegin ← (pads.map Prod.fst).foldlM PropertyVector.insert .empty
    let padEnd ← (pads.map Prod.snd).foldlM PropertyVector.insert .empty
    return ⟨padBegin, padEnd⟩

/-- The handler puts the type of the layer before the message. -/
def withType {α : Type} (type : String) : Result α → Result α
  | .ok a => .ok a
  | .error (.exception message) => .error (.exception s!"Failed to calculate padding for {type}: {message}")
  | .error e => .error e

def getPaddingsInternal (layer : PaddedLayer) : Result Paddings :=
  withType layer.type <|
    match layer.autoPad with
    | some mode =>
      if mode = "valid" then do
        let zeros ← (List.replicate layer.kernel.size 0).foldlM PropertyVector.insert .empty
        return ⟨zeros, zeros⟩
      else autoPaddings layer mode
    | none => .ok ⟨layer.padding, layer.padsEnd⟩

end Internal

/-- `getPaddings` of a convolution or a deconvolution with the given parameters and inputs. -/
def ConvolutionLayer.getPaddings (type : String) (params : LayerParams) (layer : ConvolutionLayer)
    (insData : List (Option SizeVector)) : Result Paddings :=
  getPaddingsInternal {
    type, insData
    autoPad := params.strings.lookup "auto_pad"
    kernel := layer.kernel
    stride := layer.stride
    padding := layer.padding
    padsEnd := layer.padsEnd
    getKernel := InferenceEngine.getKernel layer }

def PoolingLayer.getPaddings (params : LayerParams) (layer : PoolingLayer)
    (insData : List (Option SizeVector)) : Result Paddings :=
  getPaddingsInternal {
    type := "Pooling", insData
    autoPad := params.strings.lookup "auto_pad"
    kernel := layer.kernel
    stride := layer.stride
    padding := layer.padding
    padsEnd := layer.padsEnd
    getKernel := layer.kernel.get }

end OpenVino.InferenceEngine
