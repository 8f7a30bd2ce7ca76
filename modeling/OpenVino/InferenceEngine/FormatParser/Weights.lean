import OpenVino.Base.StdString
import OpenVino.InferenceEngine.InferRequestInternal
import OpenVino.InferenceEngine.ShapeInfer.Reshape.Controllers
import OpenVino.InferenceEngine.TensorOffset

/-!
# The weights of a network

`FormatParser` reads for each layer where its weights, its biases and its other blobs stand in the file of the weights,
and `SetWeights` makes blobs of these segments once it has the file. `readSegments` is the part of `Parse` that reads
them; the body of a `TensorIterator` is parsed and gets its weights in the same way.

The end of a segment is computed in `size_t`, but an attribute is read as a signed number that is not negative, so it
has no more than 63 bits (`GetUInt64Attr_lt`), and the sum of two does not wrap (`segments_inside`).
-/

namespace OpenVino.InferenceEngine

def Precision.FromStr : String → Precision
  | "Q78" => .Q78
  | "U8" => .U8
  | "I8" => .I8
  | "I16" => .I16
  | "I32" => .I32
  | "I64" => .I64
  | "U16" => .U16
  | "FP32" => .FP32
  | "FP16" => .FP16
  | "MIXED" => .MIXED
  | "BIN" => .BIN
  | _ => .UNSPECIFIED

namespace FormatParser

/-! ### The document -/

/-- An element `weights`, `biases` or below `blobs`, with its attributes. -/
structure BlobNode where
  name : String
  size : Option String := none
  offset : Option String := none
  precision : Option String := none

/-- An element `layer`: what is read of it for its blobs. `weightable` is whether the layer made of it is a
`WeightableLayer`, and `outPorts` has the precisions of its output ports. -/
inductive LayerNode
  | mk (name type : String) (precision : Option String) (outPorts : List (Option String)) (weightable : Bool)
      (biases weights : Option BlobNode) (blobs : List BlobNode) (bodyPrecision : Option String) (body : List LayerNode)

/-! ### Reading -/

structure WeightSegment where
  precision : Precision
  start : Nat
  size : Nat

def WeightSegment.getEnd (segment : WeightSegment) : Nat := toSizeT (segment.start + segment.size : Nat)

/-- What is known about a layer when its weights come; `internalWeightSet` gives them to the body. -/
inductive LayerParseParameters
  | mk (name type : String) (weightable : Bool) (blobs : List (String × WeightSegment))
      (internalWeightSet : List LayerParseParameters)

def GetUInt64Attr (name str : String) (attr : Option String) (defVal : Nat) : Result Nat :=
  match attr with
  | none => return defVal
  | some str_value => do
    let (int_value, idx) ← StdString.stoll str_value
    if idx ≠ str_value.length ∨ int_value < 0 then
      throwException ("node <" ++ name ++ "> has attribute \"" ++ str ++ "\" = \"" ++ str_value ++
        "\" which is not an unsigned 64 bit integer")
    else return int_value.toNat

/-- `map[key] = value`. -/
def assignKey {α : Type} (map : List (String × α)) (key : String) (value : α) : List (String × α) :=
  map.filter (·.1 ≠ key) ++ [(key, value)]

def ParseSegment (precision : Precision) (blobs : List (String × WeightSegment)) (blob : BlobNode) :
    Result (List (String × WeightSegment)) := do
  let size ← GetUInt64Attr blob.name "size" blob.size 0
  let start ← GetUInt64Attr blob.name "offset" blob.offset 0
  if size = 0 then return blobs
  else
    let preStr := blob.precision.getD ""
    return assignKey blobs blob.name
      { precision := if preStr = "" then precision else Precision.FromStr preStr, start, size }

/-- The precision of a layer after its ports: for a `Const` it is that of its output. -/
def portPrecision (type : String) (precision : Precision) (outPorts : List (Option String)) : Precision :=
  outPorts.foldl (fun precision port =>
    if type = "Const" ∧ port.getD "" ≠ "" then Precision.FromStr (port.getD "") else precision) precision

def LayerParseParameters.name : LayerParseParameters → String
  | .mk name _ _ _ _ => name

mutual

/-- The blobs that `ParseGenericParams` reads, and for a body what its parser reads. -/
def readLayer (defPrecision : Precision) : LayerNode → Result LayerParseParameters
  | .mk name type precision outPorts weightable biases weights blobs bodyPrecision body => do
    let preStr := precision.getD ""
    let precision := if preStr = "" then defPrecision else Precision.FromStr preStr
    if precision = .MIXED then throwException ("Layer precision must not be MIXED, at layer name: " ++ name)
    let precision := portPrecision type precision outPorts
    let segments ← (biases.toList ++ weights.toList ++ blobs).foldlM (ParseSegment precision) []
    let internalWeightSet ← readLayers (Precision.FromStr (bodyPrecision.getD precision.name)) body
    return .mk name type weightable segments internalWeightSet

/-- A later layer of the same name takes the place of an earlier one. -/
def readLayers (defPrecision : Precision) : List LayerNode → Result (List LayerParseParameters)
  | [] => return []
  | node :: nodes => do
    let lprms ← readLayer defPrecision node
    let rest ← readLayers defPrecision nodes
    return if rest.any fun later => later.name = lprms.name then rest else lprms :: rest

end

/-- What `Parse` reads for the blobs, of the attribute `precision` of the network and its layers. -/
def readSegments (precision : Option String) (layers : List LayerNode) : Result (List LayerParseParameters) :=
  readLayers (Precision.FromStr (precision.getD "UNSPECIFIED")) layers

/-! ### Making the blobs -/

/-- A `TBlobProxy` of the weights: the place of its first byte, and its elements. -/
structure BlobProxy where
  offset : Nat
  size : Nat
  element_size : Nat

/-- The constructor of the proxy, with `checkWindow`. -/
def BlobProxy.create (weightsSize offset noOfElement element_size : Nat) : Result BlobProxy :=
  let sizeInBytes := toSizeT (product [noOfElement] * element_size : Nat)
  if weightsSize < toSizeT (sizeInBytes + offset : Nat) then
    throwException ("cannot create proxy, offsetInBytes=" ++ toString offset ++ ", sizeInBytes=" ++ toString sizeInBytes ++
      ", out of original object size=" ++ toString weightsSize)
  else return { offset, size := noOfElement, element_size }

def GetTypedBlobFromSegment (blobTypeSize weightsSize : Nat) (segment : WeightSegment) : Result BlobProxy :=
  if weightsSize < segment.getEnd then
    throwException "segment exceeds given buffer limits. Please, validate weights file"
  else BlobProxy.create weightsSize segment.start (segment.size / blobTypeSize) blobTypeSize

def GetBlobFromSegment (weightsSize : Nat) (segment : WeightSegment) : Result BlobProxy :=
  match segment.precision with
  | .FP32 => GetTypedBlobFromSegment 4 weightsSize segment
  | .I64 => GetTypedBlobFromSegment 8 weightsSize segment
  | .I32 => GetTypedBlobFromSegment 4 weightsSize segment
  | .I16 | .Q78 | .FP16 => GetTypedBlobFromSegment 2 weightsSize segment
  | .U8 => GetTypedBlobFromSegment 1 weightsSize segment
  | .I8 | .BIN => GetTypedBlobFromSegment 1 weightsSize segment
  | _ => throwException ("precision " ++ segment.precision.name ++ " is not supported...")

/-- The weights of a `WeightableLayer`. -/
def getWeights (type : String) (weightsSize : Nat) (segment : WeightSegment) : Result BlobProxy :=
  if type = "BinaryConvolution" then
    if weightsSize < segment.getEnd then
      throwException "segment exceeds given buffer limits. Please, validate weights file"
    else BlobProxy.create weightsSize segment.start segment.size 1
  else GetBlobFromSegment weightsSize segment

mutual

/-- A round of the loop of `SetWeights`; the blobs that it creates. -/
def setLayer (weightsSize : Nat) : LayerParseParameters → Result (List BlobProxy)
  | .mk _ type weightable blobs internalWeightSet => do
    let weights ← (
      if weightable then (blobs.lookup "weights").toList.mapM (getWeights type weightsSize) else return [])
    let biases ← (
      if weightable then (blobs.lookup "biases").toList.mapM (GetBlobFromSegment weightsSize) else return [])
    let all ← blobs.mapM fun s => GetBlobFromSegment weightsSize s.2
    let internal ← SetWeights weightsSize internalWeightSet
    return weights ++ biases ++ all ++ internal

/-- The loop over the layers, of weights of this size. -/
def SetWeights (weightsSize : Nat) : List LayerParseParameters → Result (List BlobProxy)
  | [] => return []
  | lprms :: rest => do
    let blobs ← setLayer weightsSize lprms
    let others ← SetWeights weightsSize rest
    return blobs ++ others

end

/-! ### Segments in the file -/

/-- The bytes of the blob are bytes of the weights. -/
def BlobProxy.Inside (weightsSize : Nat) (blob : BlobProxy) : Prop :=
  blob.offset + blob.size * blob.element_size ≤ weightsSize

/-- Both numbers have at most 63 bits. -/
def WeightSegment.Short (segment : WeightSegment) : Prop := segment.start < 2 ^ 63 ∧ segment.size < 2 ^ 63

theorem GetUInt64Attr_lt {name str : String} {attr : Option String} {defVal n : Nat} (hdef : defVal < 2 ^ 63)
    (h : GetUInt64Attr name str attr defVal = .ok n) : n < 2 ^ 63 := by
  rcases attr with _ | value
  · exact pure_ok_iff.mp h ▸ hdef
  · obtain ⟨⟨int_value, idx⟩, hstoll, h⟩ := bind_ok_iff.mp h
    obtain ⟨-, hlt⟩ := StdString.stoll_bounds hstoll
    dsimp only at h
    split_ifs at h with hbad
    · exact absurd h throwException_ne_ok
    · have hvalue := pure_ok_iff.mp h
      omega

theorem assignKey_forall {α : Type} {P : α → Prop} {map : List (String × α)} {key : String} {value : α}
    (hmap : ∀ p ∈ map, P p.2) (hvalue : P value) : ∀ p ∈ assignKey map key value, P p.2 := by
  intro p hp
  rcases List.mem_append.mp hp with hp | hp
  · exact hmap p (List.mem_filter.mp hp).1
  · obtain rfl := List.mem_singleton.mp hp
    exact hvalue

theorem ParseSegment_short {precision : Precision} {blobs blobs' : List (String × WeightSegment)} {blob : BlobNode}
    (hblobs : ∀ p ∈ blobs, p.2.Short) (h : ParseSegment precision blobs blob = .ok blobs') : ∀ p ∈ blobs', p.2.Short := by
  obtain ⟨size, hsize, h⟩ := bind_ok_iff.mp h
  obtain ⟨start, hstart, h⟩ := bind_ok_iff.mp h
  have hsize := GetUInt64Attr_lt (by decide) hsize
  have hstart := GetUInt64Attr_lt (by decide) hstart
  split_ifs at h
  · rwa [← pure_ok_iff.mp h]
  · rw [← pure_ok_iff.mp h]
    exact assignKey_forall hblobs ⟨hstart, hsize⟩

theorem create_inside {weightsSize segmentSize blobTypeSize : Nat} {segment : WeightSegment} {blob : BlobProxy}
    (hsegment : segment.Short) (hend : ¬weightsSize < segment.getEnd) (hle : segmentSize * blobTypeSize ≤ segment.size)
    (h : BlobProxy.create weightsSize segment.start segmentSize blobTypeSize = .ok blob) : blob.Inside weightsSize := by
  obtain ⟨hstart, hsize⟩ := hsegment
  unfold BlobProxy.create at h
  dsimp only at h
  rw [WeightSegment.getEnd, toSizeT_natCast (by omega)] at hend
  split_ifs at h
  · exact absurd h throwException_ne_ok
  · obtain rfl := pure_ok_iff.mp h
    show segment.start + segmentSize * blobTypeSize ≤ weightsSize
    omega

theorem GetTypedBlobFromSegment_inside {blobTypeSize weightsSize : Nat} {segment : WeightSegment} {blob : BlobProxy}
    (hsegment : segment.Short) (h : GetTypedBlobFromSegment blobTypeSize weightsSize segment = .ok blob) :
    blob.Inside weightsSize := by
  unfold GetTypedBlobFromSegment at h
  split_ifs at h with hend
  · exact absurd h throwException_ne_ok
  · exact create_inside hsegment hend (Nat.div_mul_le_self _ _) h

theorem GetBlobFromSegment_inside {weightsSize : Nat} {segment : WeightSegment} {blob : BlobProxy}
    (hsegment : segment.Short) (h : GetBlobFromSegment weightsSize segment = .ok blob) : blob.Inside weightsSize := by
  unfold GetBlobFromSegment at h
  split at h
  all_goals first
    | exact GetTypedBlobFromSegment_inside hsegment h
    | exact absurd h throwException_ne_ok

theorem getWeights_inside {type : String} {weightsSize : Nat} {segment : WeightSegment} {blob : BlobProxy}
    (hsegment : segment.Short) (h : getWeights type weightsSize segment = .ok blob) : blob.Inside weightsSize := by
  unfold getWeights at h
  split_ifs at h with htype hend
  · exact absurd h throwException_ne_ok
  · exact create_inside hsegment hend (by rw [Nat.mul_one]) h
  · exact GetBlobFromSegment_inside hsegment h

/-! ### The document and the weights -/

/-- All segments of a layer and of its body are short. -/
inductive AllShort : LayerParseParameters → Prop
  | mk {name type weightable blobs internalWeightSet} : (∀ p ∈ blobs, WeightSegment.Short p.2) →
      (∀ lprms ∈ internalWeightSet, AllShort lprms) → AllShort (.mk name type weightable blobs internalWeightSet)

mutual

theorem readLayer_short {defPrecision : Precision} {node : LayerNode} {lprms : LayerParseParameters}
    (h : readLayer defPrecision node = .ok lprms) : AllShort lprms := by
  obtain ⟨name, type, precision, outPorts, weightable, biases, weights, blobs, bodyPrecision, body⟩ := node
  rw [readLayer] at h
  dsimp only at h
  obtain ⟨-, h⟩ := throw_guard_ok_iff.mp h
  obtain ⟨segments, hsegments, h⟩ := bind_ok_iff.mp h
  obtain ⟨internalWeightSet, hbody, h⟩ := bind_ok_iff.mp h
  rw [← pure_ok_iff.mp h]
  refine .mk ?_ (readLayers_short hbody)
  exact foldlM_ok_induct (I := fun _ blobs => ∀ p ∈ blobs, WeightSegment.Short p.2) hsegments
    (fun p hp => absurd hp List.not_mem_nil) fun _ _ _ _ _ _ hblobs hblob => ParseSegment_short hblobs hblob

theorem readLayers_short {defPrecision : Precision} {nodes : List LayerNode} {lprms : List LayerParseParameters}
    (h : readLayers defPrecision nodes = .ok lprms) : ∀ p ∈ lprms, AllShort p := by
  rcases nodes with _ | ⟨node, nodes⟩
  · rw [readLayers] at h
    rw [← pure_ok_iff.mp h]
    exact fun p hp => absurd hp List.not_mem_nil
  · rw [readLayers] at h
    obtain ⟨first, hfirst, h⟩ := bind_ok_iff.mp h
    obtain ⟨rest, hrest, h⟩ := bind_ok_iff.mp h
    have hrest := readLayers_short hrest
    rw [← pure_ok_iff.mp h]
    split_ifs
    · exact hrest
    · exact List.forall_mem_cons.mpr ⟨readLayer_short hfirst, hrest⟩

end

mutual

theorem setLayer_inside {weightsSize : Nat} {lprms : LayerParseParameters} {created : List BlobProxy}
    (hshort : AllShort lprms) (h : setLayer weightsSize lprms = .ok created) : ∀ blob ∈ created, blob.Inside weightsSize := by
  obtain ⟨name, type, weightable, blobs, internalWeightSet⟩ := lprms
  obtain ⟨hblobs, hbody⟩ := hshort
  rw [setLayer] at h
  obtain ⟨weights, hweights, h⟩ := bind_ok_iff.mp h
  obtain ⟨biases, hbiases, h⟩ := bind_ok_iff.mp h
  obtain ⟨all, hall, h⟩ := bind_ok_iff.mp h
  obtain ⟨internal, hinternal, h⟩ := bind_ok_iff.mp h
  have hinternal := SetWeights_inside hbody hinternal
  have hfound : ∀ {key segment}, segment ∈ (blobs.lookup key).toList → WeightSegment.Short segment := by
    intro key segment hsegment
    obtain ⟨l₁, l₂, hsplit, -⟩ := List.lookup_eq_some_iff.mp (Option.mem_toList.mp hsegment)
    exact hblobs (key, segment) (hsplit ▸ List.mem_append_right l₁ List.mem_cons_self)
  have hweights : ∀ blob ∈ weights, blob.Inside weightsSize := by
    intro blob hblob
    split_ifs at hweights
    · obtain ⟨segment, hsegment, hrun⟩ := mem_mapM_ok hweights hblob
      exact getWeights_inside (hfound hsegment) hrun
    · exact absurd (pure_ok_iff.mp hweights ▸ hblob) List.not_mem_nil
  have hbiases : ∀ blob ∈ biases, blob.Inside weightsSize := by
    intro blob hblob
    split_ifs at hbiases
    · obtain ⟨segment, hsegment, hrun⟩ := mem_mapM_ok hbiases hblob
      exact GetBlobFromSegment_inside (hfound hsegment) hrun
    · exact absurd (pure_ok_iff.mp hbiases ▸ hblob) List.not_mem_nil
  have hall : ∀ blob ∈ all, blob.Inside weightsSize := by
    intro blob hblob
    obtain ⟨p, hp, hrun⟩ := mem_mapM_ok hall hblob
    exact GetBlobFromSegment_inside (hblobs p hp) hrun
  rw [← pure_ok_iff.mp h]
  exact List.forall_mem_append.mpr
    ⟨List.forall_mem_append.mpr ⟨List.forall_mem_append.mpr ⟨hweights, hbiases⟩, hall⟩, hinternal⟩

theorem SetWeights_inside {weightsSize : Nat} {lprms : List LayerParseParameters} {created : List BlobProxy}
    (hshort : ∀ p ∈ lprms, AllShort p) (h : SetWeights weightsSize lprms = .ok created) :
    ∀ blob ∈ created, blob.Inside weightsSize := by
  rcases lprms with _ | ⟨first, rest⟩
  · rw [SetWeights] at h
    rw [← pure_ok_iff.mp h]
    exact fun blob hblob => absurd hblob List.not_mem_nil
  · rw [SetWeights] at h
    obtain ⟨blobs, hblobs, h⟩ := bind_ok_iff.mp h
    obtain ⟨others, hothers, h⟩ := bind_ok_iff.mp h
    obtain ⟨hfirst, hrest⟩ := List.forall_mem_cons.mp hshort
    have hblobs := setLayer_inside hfirst hblobs
    have hothers := SetWeights_inside hrest hothers
    rw [← pure_ok_iff.mp h]
    exact List.forall_mem_append.mpr ⟨hblobs, hothers⟩

end

/-- **Weights.** Of every document and file of weights, the blobs that are created lie in the weights. -/
theorem segments_inside {precision : Option String} {layers : List LayerNode} {lprms : List LayerParseParameters}
    {weightsSize : Nat} {created : List BlobProxy} (hread : readSegments precision layers = .ok lprms)
    (hset : SetWeights weightsSize lprms = .ok created) : ∀ blob ∈ created, blob.Inside weightsSize :=
  SetWeights_inside (readLayers_short hread) hset

theorem segments_inside_convolution : ∃ created : List BlobProxy, created =
    [{ offset := 0, size := 4, element_size := 4 }, { offset := 16, size := 2, element_size := 2 },
      { offset := 16, size := 2, element_size := 2 }, { offset := 0, size := 4, element_size := 4 }] ∧
    ∀ blob ∈ created, blob.Inside 20 :=
  ⟨_, rfl, @segments_inside (some "FP32")
    [.mk "conv" "Convolution" none [none] true
      (some { name := "biases", size := some "4", offset := some "16", precision := some "FP16" })
      (some { name := "weights", size := some "16", offset := some "0" }) [] none []] _ 20 _ rfl rfl⟩

end FormatParser

end OpenVino.InferenceEngine
