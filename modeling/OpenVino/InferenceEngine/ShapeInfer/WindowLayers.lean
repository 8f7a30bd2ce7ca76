import OpenVino.InferenceEngine.SizeT

/-!
# Layers with a window

Convolution, deconvolution and pooling as their validators build them from the parameters of the layer. A
`PropertyVector` holds one value for each spatial axis, the innermost axis first, and the parameters list the
axes the other way round. The parameters are what `GetParamAsUInts` and `GetParamAsString` parse.
-/

namespace OpenVino.InferenceEngine

/-! ### One value for each axis -/

/-- The values that `insert` has put at the axes 0, 1, 2 and so on. -/
structure PropertyVector where
  axises : List UInt32
  length_le : axises.length ≤ 12
deriving DecidableEq

namespace PropertyVector

def empty : PropertyVector := ⟨[], Nat.zero_le 12⟩

def pair (x y : UInt32) : PropertyVector := ⟨[x, y], Nat.le_add_left 2 10⟩

def size (v : PropertyVector) : ℕ := v.axises.length

/-- `operator[]`. -/
def get (v : PropertyVector) (index : ℕ) : Result UInt32 :=
  match v.axises[index]? with
  | some x => .ok x
  | none => throwException s!"Property index ({index}) is out of bounds"

theorem length_append_le {l : List UInt32} {x : UInt32} (h : l.length < 12) : (l ++ [x]).length ≤ 12 := by
  rw [List.length_append]
  exact h

/-- `insert` at the first axis that has no value. -/
def insert (v : PropertyVector) (x : UInt32) : Result PropertyVector :=
  if h : v.axises.length < 12 then .ok ⟨v.axises ++ [x], length_append_le h⟩
  else throwException "Layer Property insertion at(axis) should be in [0,12)"

/-- The loop of the validators over the values of a parameter, the last one first. -/
def insertReversed (values : List UInt32) : Result PropertyVector := values.reverse.foldlM insert empty

/-- The same loop for the strides. -/
def insertStrides (values : List UInt32) : Result PropertyVector :=
  values.reverse.foldlM (fun v x =>
    if x = 0 then throwException "Stride could not be 0.\nIn layer " else v.insert x) empty

/-- The value at an axis, where there is one. -/
def value (v : PropertyVector) (i : ℕ) : UInt32 := v.axises.getD i 0

theorem get_ok_iff {v : PropertyVector} {i : ℕ} {x : UInt32} : v.get i = .ok x ↔ i < v.size ∧ v.value i = x := by
  unfold get size value
  by_cases hi : i < v.axises.length
  · simp [hi]
  · simp [hi, throwException]

theorem get_bind_ok_iff {β : Type} {v : PropertyVector} {i : ℕ} {f : UInt32 → Result β} {r : β} :
    (v.get i >>= f) = .ok r ↔ i < v.size ∧ f (v.value i) = .ok r := by
  simp only [bind_ok_iff, get_ok_iff]
  constructor
  · rintro ⟨x, ⟨hi, rfl⟩, h⟩
    exact ⟨hi, h⟩
  · rintro ⟨hi, h⟩
    exact ⟨_, ⟨hi, rfl⟩, h⟩

theorem insert_ok {v w : PropertyVector} {x : UInt32} (h : v.insert x = .ok w) : w.axises = v.axises ++ [x] := by
  unfold insert at h
  split_ifs at h with hlt
  · rw [← Except.ok.inj h]
  · exact absurd h throwException_ne_ok

theorem insert_all_ok {values : List UInt32} {v : PropertyVector} (h : values.foldlM insert empty = .ok v) :
    v.axises = values := by
  apply foldlM_ok_induct (I := fun pre v => v.axises = pre) h rfl
  intro pre x post v w hl hv hw
  rw [insert_ok hw, hv]

end PropertyVector

/-! ### Parameters -/

structure LayerParams where
  uints : List (String × List UInt32)
  strings : List (String × String)

namespace LayerParams

variable (params : LayerParams)

def getParamAsUInt (param : String) : Result UInt32 :=
  match params.uints.lookup param with
  | some (value :: _) => .ok value
  | some [] => throwException s!"Cannot parse parameter {param} from IR for layer . Value  cannot be casted to unsigned int."
  | none => throwException s!"No such parameter name '{param}' for layer "

def getParamAsUIntOr (param : String) (default : UInt32) : UInt32 :=
  match params.uints.lookup param with
  | some (value :: _) => value
  | _ => default

def getParamAsUInts (param : String) (default : List UInt32) : List UInt32 :=
  match params.uints.lookup param with
  | some (value :: values) => value :: values
  | _ => default

def getParamAsString (param : String) (default : String) : String :=
  match params.strings.lookup param with
  | some value => if value = "" then default else value
  | none => default

end LayerParams

/-! ### Convolution and deconvolution -/

structure ConvolutionLayer where
  kernel : PropertyVector
  padding : PropertyVector
  padsEnd : PropertyVector
  stride : PropertyVector
  dilation : PropertyVector
  outDepth : UInt32
  group : UInt32
  autoPad : String
deriving DecidableEq

def oneForZero (stride : UInt32) : UInt32 := if stride = 0 then 1 else stride

/-- `parseParams` of the validators of convolution and deconvolution: the two forms of the parameters. -/
def ConvolutionValidator.parseParams (params : LayerParams) : Result ConvolutionLayer := do
  let outDepth ← params.getParamAsUInt "output"
  let kernels := params.getParamAsUInts "kernel" []
  let autoPad := params.getParamAsString "auto_pad" ""
  let group := params.getParamAsUIntOr "group" 1
  if kernels = [] then
    let kernelX ← params.getParamAsUInt "kernel-x"
    let kernelY ← params.getParamAsUInt "kernel-y"
    let padX := params.getParamAsUIntOr "pad-x" 0
    let padY := params.getParamAsUIntOr "pad-y" 0
    return {
      kernel := .pair kernelX kernelY
      stride := .pair (oneForZero (params.getParamAsUIntOr "stride-x" 1))
        (oneForZero (params.getParamAsUIntOr "stride-y" 1))
      padding := .pair padX padY
      padsEnd := .pair (params.getParamAsUIntOr "pad-r" padX) (params.getParamAsUIntOr "pad-b" padY)
      dilation := .pair (params.getParamAsUIntOr "dilation-x" 1) (params.getParamAsUIntOr "dilation-y" 1)
      outDepth, group, autoPad }
  else
    let kernel ← PropertyVector.insertReversed kernels
    let default0 := List.replicate kernel.size 0
    let default1 := List.replicate kernel.size 1
    let stride ← PropertyVector.insertStrides (params.getParamAsUInts "strides" default1)
    let padsBegin := params.getParamAsUInts "pads_begin" default0
    let padding ← PropertyVector.insertReversed padsBegin
    let padsEnd ← PropertyVector.insertReversed (params.getParamAsUInts "pads_end" padsBegin)
    let dilation ← PropertyVector.insertReversed (params.getParamAsUInts "dilations" default1)
    return { kernel, stride, padding, padsEnd, dilation, outDepth, group, autoPad }

/-- `details::product` of a vector that is not empty. -/
def details.product (dims : SizeVector) : ℕ := dims.prod % 2 ^ 64

/-- `checkWeightable` for ranks 4 and 5. `weights` and `biases` are the dims of the blobs that the layer has. -/
def checkWeightable (inShapes : List SizeVector) (weights biases : Option SizeVector)
    (outputs groups : UInt32) (kernel : PropertyVector) : Result Unit := do
  let [firstInputShape] := inShapes
    | throwException s!"Number of inputs ({inShapes.length}) is not equal to expected ones (1)"
  if ¬(firstInputShape.length = 4 ∨ firstInputShape.length = 5) then
    throwException s!"Input shape {firstInputShape} has unexpected size, supported sizes: (4,5)"
  if let some dims := weights then
    if dims = [] then throwException "Weights can't be empty"
    let whole := kernel.axises.foldl (fun size k => size * k.toNat % 2 ^ 64)
      (outputs.toNat * firstInputShape.getD 1 0 % 2 ^ 64)
    let expectedWeightsSize := if groups = 0 then whole else whole / groups.toNat
    if expectedWeightsSize ≠ details.product dims then
      throwException s!"New shapes {firstInputShape} not matching weights size: {expectedWeightsSize} vs {details.product dims}"
  if let some dims := biases then
    if dims = [] then throwException "Biases can't be empty"
    if outputs.toNat ≠ details.product dims then
      throwException s!"Number of outputs ({outputs}) don't match biases size: {details.product dims}"

/-- `validate` of the shape inference: `checkParams` reads again what `parseParams` has read. -/
def ConvolutionValidator.validate (params : LayerParams) (inShapes : List SizeVector)
    (weights biases : Option SizeVector) : Result ConvolutionLayer := do
  let layer ← ConvolutionValidator.parseParams params
  if inShapes.length ∉ [1, 2, 3] then
    throwException s!"Number of inputs ({inShapes.length}) is not equal to expected ones"
  checkWeightable inShapes weights biases layer.outDepth layer.group layer.kernel
  return layer

/-! ### Pooling -/

structure PoolingLayer where
  kernel : PropertyVector
  padding : PropertyVector
  padsEnd : PropertyVector
  stride : PropertyVector
  autoPad : String
  params : LayerParams

def orElse (value default : UInt32) : UInt32 := if value = 0 then default else value

/-- `parseParams` of pooling. The custom form has an empty handler for what it throws, so a layer without
`kernel_size` is left without its properties; its stride may be 0. -/
def PoolingValidator.parseParams (params : LayerParams) : Result PoolingLayer := do
  let autoPad := params.getParamAsString "auto_pad" ""
  let kernels := params.getParamAsUInts "kernel" []
  let alg := params.getParamAsString "pool-method" "max"
  if kernels = [] then
    if params.uints.lookup "kernel-x" = none then
      match params.uints.lookup "kernel_size" with
      | some (kernelSize :: _) =>
        let stride := params.getParamAsUIntOr "stride" 1
        let pad := params.getParamAsUIntOr "pad" 0
        return {
          kernel := .pair (orElse (params.getParamAsUIntOr "kernel_w" 0) kernelSize)
            (orElse (params.getParamAsUIntOr "kernel_h" 0) kernelSize)
          stride := .pair (orElse (params.getParamAsUIntOr "stride_w" 0) stride)
            (orElse (params.getParamAsUIntOr "stride_h" 0) stride)
          padding := .pair (orElse (params.getParamAsUIntOr "pad_w" 0) pad)
            (orElse (params.getParamAsUIntOr "pad_h" 0) pad)
          padsEnd := .pair 0 0
          autoPad, params }
      | _ => return { kernel := .empty, stride := .empty, padding := .empty, padsEnd := .empty, autoPad, params }
    else
      let kernelX ← params.getParamAsUInt "kernel-x"
      let kernelY ← params.getParamAsUInt "kernel-y"
      let padX := params.getParamAsUIntOr "pad-x" 0
      let padY := params.getParamAsUIntOr "pad-y" 0
      if alg ≠ "max" ∧ alg ≠ "avg" then throwException "Layer with type Pooling has incorrect pool-type!"
      return {
        kernel := .pair kernelX kernelY
        stride := .pair (oneForZero (params.getParamAsUIntOr "stride-x" 1))
          (oneForZero (params.getParamAsUIntOr "stride-y" 1))
        padding := .pair padX padY
        padsEnd := .pair (params.getParamAsUIntOr "pad-r" padX) (params.getParamAsUIntOr "pad-b" padY)
        autoPad, params }
  else
    let kernel ← PropertyVector.insertReversed kernels
    let default0 := List.replicate kernel.size 0
    let default1 := List.replicate kernel.size 1
    let stride ← PropertyVector.insertStrides (params.getParamAsUInts "strides" default1)
    let padsBegin := params.getParamAsUInts "pads_begin" default0
    let padding ← PropertyVector.insertReversed padsBegin
    let padsEnd ← PropertyVector.insertReversed (params.getParamAsUInts "pads_end" padsBegin)
    if alg ≠ "max" ∧ alg ≠ "avg" then throwException "Layer with type Pooling has incorrect pad-type!"
    return { kernel, stride, padding, padsEnd, autoPad, params }

def PoolingValidator.validate (params : LayerParams) (inShapes : List SizeVector) : Result PoolingLayer := do
  let layer ← PoolingValidator.parseParams params
  if inShapes.length ∉ [1, 2] then
    throwException s!"Number of inputs ({inShapes.length}) is not equal to expected ones"
  return layer

end OpenVino.InferenceEngine
