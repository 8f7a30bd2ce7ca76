import OpenVino.MKLDNNPlugin.Graph.EdgeDescs

/-!
# The split node

`mkldnn_split_node.cpp`: a split whose outputs are views of its input. `initSupportedPrimitiveDescriptors` offers
the reference implementation, the plain layout and, for the channels of four or five dimensions, the layouts in
blocks of 8 and 16 channels; of the strides only those from the axis on are fixed. `initOptimalPrimitiveDescriptor`
takes the descriptor of the producer where it agrees with the offered one and a packed one otherwise, and lays the
outputs behind one another in it.

The formats of the outputs and the names of the data types are left out; the base class and the producer are
parameters.
-/

namespace OpenVino.MKLDNNPlugin

open InferenceEngine (SizeVector toSizeT elemAt TensorDesc)

/-! ### Comparing descriptors -/

def isUninitTensorDesc (desc : TensorDesc) : Result Bool := do
  if desc.layout = .ANY then return true
  if desc.blockingDesc.offsetPadding = notInit then return true
  (List.range desc.blockingDesc.order.length).anyM fun i : Nat => do
    let offset ← elemAt "getOffsetPaddingToData()[i]" desc.blockingDesc.offsetPaddingToData i
    if offset = notInit then return true
    let stride ← elemAt "getStrides()[i]" desc.blockingDesc.strides i
    return stride = notInit

def isInitConfig (config : LayerConfig TensorDesc) : Result Bool :=
  (config.inConfs ++ config.outConfs).allM fun dc => do
    let uninit ← isUninitTensorDesc dc.desc
    return !uninit

/-- The values are the same, or one of them is not known. -/
def agree (a b : Nat) : Bool := a = b ∨ a = notInit ∨ b = notInit

def entriesAgree (getter : String) (l1 l2 : SizeVector) (i : Nat) : Result Bool := do
  let x1 ← elemAt ("in1Block." ++ getter ++ "()[i]") l1 i
  let x2 ← elemAt ("in2Block." ++ getter ++ "()[i]") l2 i
  return agree x1 x2

/-- A pass of the loop of `initTensorsAreEqual`. -/
def blocksAgree (batch1 : Nat) (in1Block in2Block : InferenceEngine.BlockingDesc) (i : Nat) : Result Bool := do
  let dims ← entriesAgree "getBlockDims" in1Block.blockedDims in2Block.blockedDims i
  if !dims then return false
  let offsets ← entriesAgree "getOffsetPaddingToData" in1Block.offsetPaddingToData in2Block.offsetPaddingToData i
  if !offsets then return false
  let strides ← (if batch1 ≤ i then entriesAgree "getStrides" in1Block.strides in2Block.strides i else pure true)
  if !strides then return false
  entriesAgree "getOrder" in1Block.order in2Block.order i

def initTensorsAreEqual (desc1 desc2 : TensorDesc) : Result Bool := do
  if desc1.dims ≠ desc2.dims ∨ desc1.precision ≠ desc2.precision then return false
  if desc1.layout = .SCALAR ∧ desc2.layout = .SCALAR then return true
  if desc1.layout = .ANY ∨ desc2.layout = .ANY then return true
  let dim ← elemAt "desc1.getDims()[0]" desc1.dims 0
  if desc1.blockingDesc.blockedDims.length ≠ desc2.blockingDesc.blockedDims.length then return false
  let same ← (List.range desc1.blockingDesc.blockedDims.length).allM
    (blocksAgree (if dim = 1 then 1 else 0) desc1.blockingDesc desc2.blockingDesc)
  return same && agree desc1.blockingDesc.offsetPadding desc2.blockingDesc.offsetPadding

/-! ### The descriptors that are offered -/

inductive ImplDescType
  | ref | unknown

structure PrimitiveDescInfo where
  config : LayerConfig TensorDesc
  implementationType : ImplDescType

/-- `MKLDNNDims::size()` -/
def dimsSize (dims : MKLDNNDims) : Result Int :=
  dims.foldlM (fun size dim => ptrdiffArith "size *= dims[i]" (size * dim)) 1

/-- The strides from the axis on are packed, those before it are not known. -/
def splitStrides (axis : Nat) : SizeVector → SizeVector
  | [] => []
  | [_] => [1]
  | _ :: dim :: dims =>
    let strides := splitStrides (axis - 1) (dim :: dims)
    (if 0 < axis then notInit else toSizeT (strides.headD 0 * dim : Nat)) :: strides

/-- `TensorDesc(Precision::FP32, dims, {blkDims, order, offset, offsets, strides})` -/
def viewDesc (dims blkDims order strides : SizeVector) : Result TensorDesc := do
  let blocking ← InferenceEngine.BlockingDesc.ofStrides blkDims order notInit (order.map fun _ => 0) strides
  TensorDesc.ofBlocking .FP32 dims blocking

/-- `srcDims` and `dstFirstDims` are the dimensions of the first edges on either side. -/
structure MKLDNNSplitNode where
  name : String
  axis : Nat
  srcDims : MKLDNNDims
  dstFirstDims : MKLDNNDims
  outDims : List MKLDNNDims

namespace MKLDNNSplitNode

variable (node : MKLDNNSplitNode)

/-- A pass of the first loop over the outputs, on `outConfs` and `axis_size`. -/
def addOutput (s : List (DataConfig TensorDesc) × Int) (o_Dims : MKLDNNDims) :
    Result (List (DataConfig TensorDesc) × Int) := do
  if node.dstFirstDims.length ≠ o_Dims.length then
    throwException ("Split " ++ node.name ++ " supports only output blob with equal number of dimensions")
  let desc ← memoryTensorDesc o_Dims .f32 .any
  let dim ← elemAt "o_Dims[axis]" o_Dims node.axis
  let axis_size ← ptrdiffArith "axis_size += o_Dims[axis]" (s.2 + dim)
  if ∃ j < node.dstFirstDims.length, j ≠ node.axis ∧ o_Dims.getD j 0 ≠ node.dstFirstDims.getD j 0 then
    throwException ("Split " ++ node.name ++ " has incorrect output dimensions")
  -- `axis_size` is an `int`
  return (s.1 ++ [{ desc := desc }], axis_size.bmod (2 ^ 32))

/-- The views of the outputs in blocks of `sizeS` channels, up to the first one that is not made of such blocks. -/
def blockedOuts (sizeS : Nat) (order strides : SizeVector) :
    List SizeVector → List (DataConfig TensorDesc) → Result (Bool × List (DataConfig TensorDesc))
  | dims :: outDims, conf :: confs => do
    if dims.getD 1 0 % sizeS ≠ 0 then return (false, conf :: confs)
    let desc ← viewDesc dims (MKLDNNMemoryDesc.channelBlocks dims sizeS) order strides
    let (canInplace, confs) ← blockedOuts sizeS order strides outDims confs
    return (canInplace, { conf with desc } :: confs)
  | _, confs => return (true, confs)

/-- A pass of the loop over the sizes of the blocks, on `supportedPrimitiveDescriptors` and `config.outConfs`. -/
def addBlocked (s : List PrimitiveDescInfo × List (DataConfig TensorDesc)) (sizeS : Nat) :
    Result (List PrimitiveDescInfo × List (DataConfig TensorDesc)) := do
  let src := node.srcDims.map toSizeT
  if src.getD 1 0 % sizeS ≠ 0 then return s
  let blkDims := MKLDNNMemoryDesc.channelBlocks src sizeS
  let order := List.range src.length ++ [1]
  let strides := splitStrides node.axis blkDims
  let desc ← viewDesc src blkDims order strides
  let (canInplace, outConfs) ← blockedOuts sizeS order strides (node.outDims.map (·.map toSizeT)) s.2
  let pd := { config := { inConfs := [{ desc }], outConfs }, implementationType := .unknown }
  return (if canInplace then s.1 ++ [pd] else s.1, outConfs)

def initSupportedPrimitiveDescriptors : Result (List PrimitiveDescInfo) := do
  let desc ← memoryTensorDesc node.srcDims .f32 .any
  if node.srcDims.length < 2 then throwException ("Split " ++ node.name ++ " isn't supported 1d blobs")
  let (outConfs, axis_size) ← node.outDims.foldlM node.addOutput ([], 0)
  let dstSize ← dimsSize (node.dstFirstDims.set node.axis axis_size)
  let srcSize ← dimsSize node.srcDims
  if dstSize ≠ srcSize then throwException "The sizes of input blob and sum of output blobs are not equal."
  let ref := { config := { inConfs := [{ desc }], outConfs }, implementationType := .ref }
  let src := node.srcDims.map toSizeT
  let order := List.range src.length
  let strides := splitStrides node.axis src
  let desc ← viewDesc src src order strides
  let outConfs ← (node.outDims.map (·.map toSizeT)).mapM fun dims => do
    let desc ← viewDesc dims dims order strides
    return { desc, inPlace := 0 }
  let plain := { config := { inConfs := [{ desc }], outConfs }, implementationType := .unknown }
  if (src.length ≠ 4 ∧ src.length ≠ 5) ∨ node.axis ≠ 1 then return [ref, plain]
  let (pds, _) ← [8, 16].foldlM node.addBlocked ([ref, plain], outConfs)
  return pds

/-! ### The descriptors that are used -/

/-- The other end of the input edge: its port, the configuration that is selected there, and the one that
`initOptimalPrimitiveDescriptor` of the producer makes of it. -/
structure ParentPort where
  num : Int
  config : Option (LayerConfig TensorDesc)
  optimal : LayerConfig TensorDesc

/-- The descriptor that is taken over from the producer. -/
def ParentPort.takenDesc (parent : ParentPort) (desc : TensorDesc) : Result (Option TensorDesc) := do
  match parent.config with
  | none => return none
  | some config =>
    if parent.num < 0 then return none
    let conf ← elemAt "outConfs[num]" config.outConfs parent.num
    let uninit ← isUninitTensorDesc conf.desc
    let conf ← (
      if uninit ∧ 0 ≤ conf.inPlace then elemAt "outConfs[num]" parent.optimal.outConfs parent.num else pure conf)
    let uninit ← isUninitTensorDesc conf.desc
    if uninit then return none
    let same ← initTensorsAreEqual conf.desc desc
    return if same then some conf.desc else none

/-- A pass of the loop over the inputs. -/
def initInput (parent : ParentPort) (conf : DataConfig TensorDesc) : Result (DataConfig TensorDesc) := do
  if conf.desc.layout = .ANY then return conf
  let uninit ← isUninitTensorDesc conf.desc
  if !uninit then return conf
  let taken ← parent.takenDesc conf.desc
  match taken with
  | some desc => return { conf with desc }
  | none =>
    let blocking ← InferenceEngine.BlockingDesc.ofOrder conf.desc.blockingDesc.blockedDims conf.desc.blockingDesc.order
    let desc ← TensorDesc.ofBlocking conf.desc.precision conf.desc.dims blocking
    return { conf with desc }

/-- The loop over the outputs, which starts at `offset`. -/
def initOutputs (input : InferenceEngine.BlockingDesc) :
    Nat → List (DataConfig TensorDesc) → Result (List (DataConfig TensorDesc))
  | _, [] => return []
  | offset, conf :: confs => do
    let blocking ← InferenceEngine.BlockingDesc.ofStrides conf.desc.blockingDesc.blockedDims
      conf.desc.blockingDesc.order (toSizeT (input.offsetPadding + offset : Nat)) input.offsetPaddingToData input.strides
    let desc ← TensorDesc.ofBlocking conf.desc.precision conf.desc.dims blocking
    let axisSize := (desc.blockingDesc.blockedDims.drop node.axis).foldl (fun size dim => toSizeT (size * dim : Nat)) 1
    let confs ← initOutputs input (toSizeT (offset + axisSize : Nat)) confs
    return { conf with desc } :: confs

/-- The comparison of `MKLDNNNode::initDescriptor`. -/
def checkDescs (selected confs : List (DataConfig TensorDesc)) : Result Unit :=
  (selected.zip confs).forM fun (selectedConf, conf) => do
    if selectedConf.desc.layout ≠ .ANY then
      let same ← initTensorsAreEqual selectedConf.desc conf.desc
      if !same then throwException ("Incorrect descriptor for node: " ++ node.name)

/-- `MKLDNNNode::initDescriptor` of a node without descriptors of its own. -/
def initDescriptor (selected config : LayerConfig TensorDesc) : Result (LayerConfig TensorDesc) := do
  if selected.inConfs.length ≠ config.inConfs.length ∨ selected.outConfs.length ≠ config.outConfs.length then
    return selected
  node.checkDescs selected.inConfs config.inConfs
  node.checkDescs selected.outConfs config.outConfs
  return config

/-- The configuration after `initOptimalPrimitiveDescriptor`; `base` is that of the class `MKLDNNNode`. -/
def initOptimalPrimitiveDescriptor (base : LayerConfig TensorDesc → Result (LayerConfig TensorDesc))
    (parent : ParentPort) (selected : LayerConfig TensorDesc) : Result (LayerConfig TensorDesc) := do
  let conf ← elemAt "outConfs[0]" selected.outConfs 0
  if conf.inPlace < 0 then base selected
  else
    let initialised ← isInitConfig selected
    if initialised then return selected
    let inConfs ← selected.inConfs.mapM (initInput parent)
    if selected.outConfs.length ≠ node.outDims.length then
      throwException ("Invalid config for Split layer " ++ node.name)
    let input ← elemAt "config.inConfs[0]" inConfs 0
    let outConfs ← node.initOutputs input.desc.blockingDesc 0 selected.outConfs
    node.initDescriptor selected { inConfs, outConfs }

end MKLDNNSplitNode

end OpenVino.MKLDNNPlugin
