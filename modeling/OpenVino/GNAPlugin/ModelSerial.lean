import OpenVino.Base.ByteStream

/-!
# Writing and reading a GNA model

`GNAModelSerial`: `Export` writes a header, the layers of a network, its states and the memory block they point
into; `ReadHeader` and `Import` read them back, with offsets in the place of pointers. The structures of the layers
belong to the GNA library: `GnaApi` holds the sizes of their fields and the numbers of its kinds of layers.
-/

namespace OpenVino.GNAPlugin

/-- The kinds of layers that have a branch of their own. -/
inductive intel_layer_kind_t
  | INTEL_AFFINE
  | INTEL_AFFINE_DIAGONAL
  | INTEL_CONVOLUTIONAL
  | INTEL_RECURRENT
  | INTEL_INTERLEAVE
  | INTEL_DEINTERLEAVE
  | INTEL_COPY

/-- The sizes in bytes of the fields that the header of the GNA library declares, and its kinds of layers. -/
structure GnaApi where
  (nInputColumns nInputRows nOutputColumns nOutputRows nBytesPerInput nBytesPerOutput : Nat)
  (nBytesPerIntermediateOutput nBytesPerWeight nBytesPerBias nSegments nFilterCoefficients : Nat)
  (nBytesFilterCoefficient nBytesBias nFilters nFeatureMaps nFeatureMapRows nFeatureMapColumns : Nat)
  (nFilterRows nPoolSize nPoolStride poolType : Nat)
  layerKind : BitVec 32 → Option intel_layer_kind_t

/-- An address, or an offset from the base of the memory block. -/
abbrev Word := BitVec (8 * 8)

section Structures

variable (api : GnaApi)

structure intel_pwl_func_t where
  nSegments : BitVec (8 * api.nSegments)
  pSegments : Word

structure intel_affine_layer_t where
  nBytesPerWeight : BitVec (8 * api.nBytesPerWeight)
  nBytesPerBias : BitVec (8 * api.nBytesPerBias)
  pWeights : Word
  pBiases : Word
  pwl : intel_pwl_func_t api

structure intel_convolutional_layer_t where
  nFilterCoefficients : BitVec (8 * api.nFilterCoefficients)
  nBytesFilterCoefficient : BitVec (8 * api.nBytesFilterCoefficient)
  nBytesBias : BitVec (8 * api.nBytesBias)
  nFilters : BitVec (8 * api.nFilters)
  nFeatureMaps : BitVec (8 * api.nFeatureMaps)
  nFeatureMapRows : BitVec (8 * api.nFeatureMapRows)
  nFeatureMapColumns : BitVec (8 * api.nFeatureMapColumns)
  nFilterRows : BitVec (8 * api.nFilterRows)
  pFilters : Word
  pBiases : Word
  nPoolSize : BitVec (8 * api.nPoolSize)
  nPoolStride : BitVec (8 * api.nPoolStride)
  poolType : BitVec (8 * api.poolType)
  pwl : intel_pwl_func_t api

/-- What `pLayerStruct` points to. -/
inductive LayerStruct
  | affine (affine : intel_affine_layer_t api)
  | convolution (convolution : intel_convolutional_layer_t api)

structure intel_nnet_layer_t where
  nInputColumns : BitVec (8 * api.nInputColumns)
  nInputRows : BitVec (8 * api.nInputRows)
  nOutputColumns : BitVec (8 * api.nOutputColumns)
  nOutputRows : BitVec (8 * api.nOutputRows)
  nBytesPerInput : BitVec (8 * api.nBytesPerInput)
  nBytesPerOutput : BitVec (8 * api.nBytesPerOutput)
  nBytesPerIntermediateOutput : BitVec (8 * api.nBytesPerIntermediateOutput)
  nLayerKind : BitVec (8 * 4)
  pLayerStruct : LayerStruct api
  pInputs : Word
  pOutputsIntermediate : Word
  pOutputs : Word

end Structures

/-! ### The header -/

structure ModelHeader.EndPoint where
  scaleFactor : BitVec (8 * 4)
  descriptor_offset : Word
  element_size : BitVec (8 * 4)
  elements_count : BitVec (8 * 4)

structure ModelHeader where
  gnam : BitVec (8 * 4)
  headerSize : BitVec (8 * 4)
  major : BitVec (8 * 2)
  minor : BitVec (8 * 4)
  gnaMemSize : BitVec (8 * 8)
  layersCount : BitVec (8 * 8)
  nGroup : BitVec (8 * 4)
  nRotateRows : BitVec (8 * 4)
  nRotateColumns : BitVec (8 * 4)
  input : ModelHeader.EndPoint
  output : ModelHeader.EndPoint

/-- The characters `GNAM` as they stand in memory, the first one at the lowest address. -/
def gna_header_magic : BitVec (8 * 4) := 0x4d414e47

def HEADER_MAJOR : BitVec (8 * 2) := 1
def HEADER_MINOR : BitVec (8 * 4) := 1

/-- `sizeof(ModelHeader)`, which is packed. -/
def ModelHeader.size : Nat := 82

namespace GNAModelSerial

open intel_layer_kind_t

variable (api : GnaApi)

/-! ### Import -/

def throwIs {α : Type} (e : IEException) : Istream α := fun _ => .error e

def readEndPoint : Istream ModelHeader.EndPoint := do
  let scaleFactor ← readBits 4
  let descriptor_offset ← readBits 8
  let element_size ← readBits 4
  let elements_count ← readBits 4
  return { scaleFactor, descriptor_offset, element_size, elements_count }

/-- `readBits(header, is)`: the fields one after the other. -/
def readModelHeader : Istream ModelHeader := do
  let gnam ← readBits 4
  let headerSize ← readBits 4
  let major ← readBits 2
  let minor ← readBits 4
  let gnaMemSize ← readBits 8
  let layersCount ← readBits 8
  let nGroup ← readBits 4
  let nRotateRows ← readBits 4
  let nRotateColumns ← readBits 4
  let input ← readEndPoint
  let output ← readEndPoint
  return { gnam, headerSize, major, minor, gnaMemSize, layersCount, nGroup, nRotateRows, nRotateColumns, input, output }

/-- A character written as a `short` in hexadecimal digits, at least two. -/
def hexShort (c : BitVec 8) : String :=
  let digits := String.ofList (Nat.toDigits 16 (c.signExtend 16).toNat)
  if digits.length < 2 then "0" ++ digits else digits

/-- The messages stand without the name of the function in front of them. -/
def ReadHeader : Istream ModelHeader := do
  let header ← readModelHeader
  if header.gnam ≠ gna_header_magic then
    throwIs (.exception ("Imported file unsupported: magic number should be GNAM(0x474e414d), but was 0x" ++
      String.join ((bytesOf header.gnam).map hexShort)))
  else if header.major.toNat < 1 then
    throwIs (.exception "Imported file unsupported: major version sould be > 1")
  else if header.headerSize.toNat < ModelHeader.size then
    throwIs (.exception ("Unsupported header size minimal value is : " ++ toString ModelHeader.size ++
      ", but read: " ++ toString header.headerSize.toNat))
  else do
    -- forward compatible
    let _ ← readBytes (header.headerSize.toNat - ModelHeader.size)
    return header

/-- The pointer is computed from whatever number stands in the stream. -/
def readOffset (base : Word) : Istream Word := do
  let offset ← readBits 8
  return base + offset

def readPwl (base : Word) : Istream (intel_pwl_func_t api) := do
  let nSegments ← readBits api.nSegments
  if nSegments ≠ 0 then do
    let pSegments ← readOffset base
    return { nSegments, pSegments }
  else return { nSegments, pSegments := 0 }

def readAffine (base : Word) : Istream (LayerStruct api) := do
  let nBytesPerWeight ← readBits api.nBytesPerWeight
  let nBytesPerBias ← readBits api.nBytesPerBias
  let pWeights ← readOffset base
  let pBiases ← readOffset base
  let pwl ← readPwl api base
  return .affine { nBytesPerWeight, nBytesPerBias, pWeights, pBiases, pwl }

def readConvolution (base : Word) : Istream (LayerStruct api) := do
  let nFilterCoefficients ← readBits api.nFilterCoefficients
  let nBytesFilterCoefficient ← readBits api.nBytesFilterCoefficient
  let nBytesBias ← readBits api.nBytesBias
  let nFilters ← readBits api.nFilters
  let nFeatureMaps ← readBits api.nFeatureMaps
  let nFeatureMapRows ← readBits api.nFeatureMapRows
  let nFeatureMapColumns ← readBits api.nFeatureMapColumns
  let nFilterRows ← readBits api.nFilterRows
  let pFilters ← readOffset base
  let pBiases ← readOffset base
  let nPoolSize ← readBits api.nPoolSize
  let nPoolStride ← readBits api.nPoolStride
  let poolType ← readBits api.poolType
  let pwl ← readPwl api base
  return .convolution {
    nFilterCoefficients, nBytesFilterCoefficient, nBytesBias, nFilters, nFeatureMaps, nFeatureMapRows
    nFeatureMapColumns, nFilterRows, pFilters, pBiases, nPoolSize, nPoolStride, poolType, pwl }

def readLayerStruct (base : Word) (nLayerKind : BitVec (8 * 4)) : Istream (LayerStruct api) :=
  match api.layerKind nLayerKind with
  | some INTEL_AFFINE_DIAGONAL | some INTEL_AFFINE => readAffine api base
  | some INTEL_CONVOLUTIONAL => readConvolution api base
  | some INTEL_RECURRENT => throwIs (.exception "Importing of recurrent layer not supported")
  | some INTEL_INTERLEAVE => throwIs (.exception "Importing of interleave layer not supported")
  | some INTEL_DEINTERLEAVE => throwIs (.exception "Importing of deinterleave layer not supported")
  | some INTEL_COPY => throwIs (.exception "Importing of copy layer not supported")
  | none => throwIs (.exception
      ("Importing of unknown GNA layer kind(" ++ toString nLayerKind.toNat ++ ")  not supported"))

def readLayer (base : Word) : Istream (intel_nnet_layer_t api) := do
  let nInputColumns ← readBits api.nInputColumns
  let nInputRows ← readBits api.nInputRows
  let nOutputColumns ← readBits api.nOutputColumns
  let nOutputRows ← readBits api.nOutputRows
  let nBytesPerInput ← readBits api.nBytesPerInput
  let nBytesPerOutput ← readBits api.nBytesPerOutput
  let nBytesPerIntermediateOutput ← readBits api.nBytesPerIntermediateOutput
  let nLayerKind ← readBits 4
  let pLayerStruct ← readLayerStruct api base nLayerKind
  let pInputs ← readOffset base
  let pOutputsIntermediate ← readOffset base
  let pOutputs ← readOffset base
  return {
    nInputColumns, nInputRows, nOutputColumns, nOutputRows, nBytesPerInput, nBytesPerOutput
    nBytesPerIntermediateOutput, nLayerKind, pLayerStruct, pInputs, pOutputsIntermediate, pOutputs }

/-- An element of `MemoryType`: a segment with its size. -/
structure State where
  pSegment : Word
  segmentSz : BitVec (8 * 4)

/-- The loop over the states, from the counter `i` on. The counter is an `int`, which has a last value. -/
def readStates (base : Word) : Nat → Nat → Istream (List State)
  | _, 0 => return []
  | i, n + 1 => do
    let pSegment ← readOffset base
    let segmentSz ← readBits 4
    if i = 2 ^ 31 - 1 then throwIs (.undefinedBehaviour "i++")
    else do
      let states ← readStates base (i + 1) n
      return { pSegment, segmentSz } :: states

/-- What `Import` sets: the layers, the states if there is somewhere to put them, and the memory block. -/
structure Imported where
  layers : List (intel_nnet_layer_t api)
  states : List State
  memory : List (BitVec 8)

/-- `pstates` says whether the states have a holder. -/
def Import (nLayers : Nat) (pstates : Bool) (basePointer : Word) (gnaGraphSize : Nat) : Istream (Imported api) := do
  let layers ← readMany (readLayer api basePointer) nLayers
  let nStates ← readBits 4
  let states ← readStates basePointer 0 nStates.toNat
  let memory ← readBytes gnaGraphSize
  return { layers, states := if pstates then states else [], memory }

/-! ### Export -/

structure RuntimeEndPoint where
  scaleFactor : BitVec (8 * 4)
  descriptor_ptr : Word
  element_size : BitVec (8 * 4)
  elements_count : BitVec (8 * 4)

/-- What an export writes apart from the memory block. -/
structure Network where
  layers : List (intel_nnet_layer_t api)
  nGroup : BitVec (8 * 4)
  input : RuntimeEndPoint
  output : RuntimeEndPoint
  nRotateRows : BitVec (8 * 4)
  nRotateColumns : BitVec (8 * 4)
  states : List State

/-- A pointer as a stream prints it. -/
def printPointer (pointer : Word) : String :=
  if pointer = 0 then "0" else "0x" ++ String.ofList (Nat.toDigits 16 pointer.toNat)

variable {api}

section Export

variable (basePointer : Word) (gnaGraphSize : Nat)

def getOffsetFromBase (pointer : Word) (name : String) : Result Word :=
  let offset := pointer - basePointer
  if offset.toNat > gnaGraphSize then
    throwException ("offset to " ++ name ++ "(0x" ++ printPointer pointer ++
      ") not in range segment retuned from GNAAlloc(0x" ++ printPointer basePointer ++ "-0x" ++
      printPointer (basePointer + BitVec.ofNat (8 * 8) gnaGraphSize) ++ ")")
  else return offset

def writeOffset (pointer : Word) (name : String) : Result (List (BitVec 8)) := do
  let offset ← getOffsetFromBase basePointer gnaGraphSize pointer name
  return bytesOf offset

def writePwl (value : intel_pwl_func_t api) : Result (List (BitVec 8)) := do
  -- export require certain offset, since offset from base to nullptr cannot be correct, we are not store it at all
  let offset ← (
    if value.nSegments ≠ 0 then writeOffset basePointer gnaGraphSize value.pSegments "value.pSegments" else return [])
  return bytesOf value.nSegments ++ offset

def writeAffine (affine : intel_affine_layer_t api) : Result (List (BitVec 8)) := do
  let pWeights ← writeOffset basePointer gnaGraphSize affine.pWeights "affine.affine.pWeights"
  let pBiases ← writeOffset basePointer gnaGraphSize affine.pBiases "affine.affine.pBiases"
  let pwl ← writePwl basePointer gnaGraphSize affine.pwl
  return bytesOf affine.nBytesPerWeight ++ bytesOf affine.nBytesPerBias ++ pWeights ++ pBiases ++ pwl

def writeConvolution (convolution : intel_convolutional_layer_t api) : Result (List (BitVec 8)) := do
  let pFilters ← writeOffset basePointer gnaGraphSize convolution.pFilters "convolution.pFilters"
  let pBiases ← writeOffset basePointer gnaGraphSize convolution.pBiases "convolution.pBiases"
  let pwl ← writePwl basePointer gnaGraphSize convolution.pwl
  return bytesOf convolution.nFilterCoefficients ++ bytesOf convolution.nBytesFilterCoefficient ++
    bytesOf convolution.nBytesBias ++ bytesOf convolution.nFilters ++ bytesOf convolution.nFeatureMaps ++
    bytesOf convolution.nFeatureMapRows ++ bytesOf convolution.nFeatureMapColumns ++
    bytesOf convolution.nFilterRows ++ pFilters ++ pBiases ++ bytesOf convolution.nPoolSize ++
    bytesOf convolution.nPoolStride ++ bytesOf convolution.poolType ++ pwl

/-- The structure is read as the one that the kind stands for, whatever it is. -/
def writeLayerStruct (nLayerKind : BitVec (8 * 4)) (pLayerStruct : LayerStruct api) : Result (List (BitVec 8)) :=
  match api.layerKind nLayerKind, pLayerStruct with
  | some INTEL_AFFINE_DIAGONAL, .affine affine | some INTEL_AFFINE, .affine affine =>
    writeAffine basePointer gnaGraphSize affine
  | some INTEL_CONVOLUTIONAL, .convolution convolution => writeConvolution basePointer gnaGraphSize convolution
  | some INTEL_AFFINE_DIAGONAL, _ | some INTEL_AFFINE, _ | some INTEL_CONVOLUTIONAL, _ =>
    .error (.undefinedBehaviour "reinterpret_cast")
  | some INTEL_RECURRENT, _ => throwException "Exporting of recurrent layer not supported"
  | some INTEL_INTERLEAVE, _ => throwException "Exporting of interleave layer not supported"
  | some INTEL_DEINTERLEAVE, _ => throwException "Exporting of deinterleave layer not supported"
  | some INTEL_COPY, _ => throwException "Exporting of copy layer not supported"
  | none, _ =>
    throwException ("Exporting of unknown GNA layer kind(" ++ toString nLayerKind.toNat ++ ")  not supported")

def writeLayer (layer : intel_nnet_layer_t api) : Result (List (BitVec 8)) := do
  let pLayerStruct ← writeLayerStruct basePointer gnaGraphSize layer.nLayerKind layer.pLayerStruct
  let pInputs ← writeOffset basePointer gnaGraphSize layer.pInputs "layer.pInputs"
  let pOutputsIntermediate ←
    writeOffset basePointer gnaGraphSize layer.pOutputsIntermediate "layer.pOutputsIntermediate"
  let pOutputs ← writeOffset basePointer gnaGraphSize layer.pOutputs "layer.pOutputs"
  return bytesOf layer.nInputColumns ++ bytesOf layer.nInputRows ++ bytesOf layer.nOutputColumns ++
    bytesOf layer.nOutputRows ++ bytesOf layer.nBytesPerInput ++ bytesOf layer.nBytesPerOutput ++
    bytesOf layer.nBytesPerIntermediateOutput ++ bytesOf layer.nLayerKind ++ pLayerStruct ++ pInputs ++
    pOutputsIntermediate ++ pOutputs

def writeState (state : State) : Result (List (BitVec 8)) := do
  let pSegment ← writeOffset basePointer gnaGraphSize state.pSegment "state.first"
  return pSegment ++ bytesOf state.segmentSz

def convert_to_serial (ep : RuntimeEndPoint) : Result ModelHeader.EndPoint := do
  let descriptor_offset ← getOffsetFromBase basePointer gnaGraphSize ep.descriptor_ptr "ep.descriptor_ptr"
  return {
    elements_count := ep.elements_count, element_size := ep.element_size, descriptor_offset
    scaleFactor := ep.scaleFactor }

end Export

def writeEndPoint (ep : ModelHeader.EndPoint) : List (BitVec 8) :=
  bytesOf ep.scaleFactor ++ bytesOf ep.descriptor_offset ++ bytesOf ep.element_size ++ bytesOf ep.elements_count

def writeModelHeader (header : ModelHeader) : List (BitVec 8) :=
  bytesOf header.gnam ++ bytesOf header.headerSize ++ bytesOf header.major ++ bytesOf header.minor ++
    bytesOf header.gnaMemSize ++ bytesOf header.layersCount ++ bytesOf header.nGroup ++
    bytesOf header.nRotateRows ++ bytesOf header.nRotateColumns ++ writeEndPoint header.input ++
    writeEndPoint header.output

/-- The block at `basePointer` has the bytes `memory`, as many as `gnaGraphSize` says. -/
def Export (net : Network api) (basePointer : Word) (memory : List (BitVec 8)) : Result (List (BitVec 8)) := do
  let gnaGraphSize := memory.length
  let input ← convert_to_serial basePointer gnaGraphSize net.input
  let output ← convert_to_serial basePointer gnaGraphSize net.output
  let header : ModelHeader := {
    gnam := gna_header_magic, major := HEADER_MAJOR, minor := HEADER_MINOR
    gnaMemSize := BitVec.ofNat (8 * 8) gnaGraphSize, layersCount := BitVec.ofNat (8 * 8) net.layers.length
    nGroup := net.nGroup, input, output, headerSize := BitVec.ofNat (8 * 4) ModelHeader.size
    nRotateRows := net.nRotateRows, nRotateColumns := net.nRotateColumns }
  let layers ← net.layers.mapM (writeLayer basePointer gnaGraphSize)
  let states ← net.states.mapM (writeState basePointer gnaGraphSize)
  return writeModelHeader header ++ layers.flatten ++ bytesOf (BitVec.ofNat (8 * 4) net.states.length) ++
    states.flatten ++ memory

end GNAModelSerial

end OpenVino.GNAPlugin
