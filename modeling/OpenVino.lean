import OpenVino.GNAPlugin.Alignment
import OpenVino.GNAPlugin.ConcatAlign
import OpenVino.GNAPlugin.ExportImport
import OpenVino.GNAPlugin.Initializers
import OpenVino.HeteroPlugin.ChainRuns
import OpenVino.HeteroPlugin.GraphSplitter
import OpenVino.HeteroPlugin.OneBlob
import OpenVino.InferenceEngine.AsyncRequest.ExactlyOnce
import OpenVino.InferenceEngine.Builder.Identity
import OpenVino.InferenceEngine.Builder.IterationOrder
import OpenVino.InferenceEngine.FormatParser.Weights
import OpenVino.InferenceEngine.GraphEdit.CopyNetwork
import OpenVino.InferenceEngine.GraphEdit.InsertAtFoundPort
import OpenVino.InferenceEngine.GraphEdit.RemoveLayer
import OpenVino.InferenceEngine.GraphEdit.SwapLayers
import OpenVino.InferenceEngine.NetPass.SequenceEquivalence
import OpenVino.InferenceEngine.ShapeInfer.ConstInfer.ConcatSplit
import OpenVino.InferenceEngine.ShapeInfer.ConstInfer.Permute
import OpenVino.InferenceEngine.ShapeInfer.ConstInfer.ReduceMeaning
import OpenVino.InferenceEngine.ShapeInfer.ConstInfer.StridedSliceUsual
import OpenVino.InferenceEngine.ShapeInfer.FlattenShape
import OpenVino.InferenceEngine.ShapeInfer.Reshape.AddExtension
import OpenVino.InferenceEngine.ShapeInfer.Reshape.FakeLaunchers
import OpenVino.InferenceEngine.ShapeInfer.ReshapeMask
import OpenVino.InferenceEngine.ShapeInfer.SqueezeShape
import OpenVino.InferenceEngine.ShapeInfer.WindowFits
import OpenVino.InferenceEngine.TaskExecutor
import OpenVino.InferenceEngine.TaskSynchronizer
import OpenVino.InferenceEngine.TensorIterator.ShapeProp
import OpenVino.MKLDNNPlugin.Graph.DropNode
import OpenVino.MKLDNNPlugin.Graph.EdgeDescRuns
import OpenVino.MKLDNNPlugin.Graph.OneAllocation
import OpenVino.MKLDNNPlugin.Graph.SortTopologically
import OpenVino.MKLDNNPlugin.MemorySolver.MaxDepth
import OpenVino.MKLDNNPlugin.RoundTrip
import OpenVino.MKLDNNPlugin.Split.SplitViews
import OpenVino.Vpu.Allocator.Shaves
import OpenVino.Vpu.FixedMaxHeap
import OpenVino.Vpu.Hw.OutChannelTiles
import OpenVino.Vpu.Hw.PoolTiles
import OpenVino.Vpu.Hw.Weights
import OpenVino.Vpu.Passes.InjectSw
import OpenVino.Vpu.Passes.MergeExpands
import OpenVino.Vpu.Passes.ReplaceDeconv
import OpenVino.Vpu.Passes.ReshapeDilationConv
import OpenVino.Vpu.Passes.SplitGroupedConv
import OpenVino.Vpu.PtrListRuns
