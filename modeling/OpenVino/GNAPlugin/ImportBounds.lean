import OpenVino.GNAPlugin.SerialFormat

/-!
# Pointers of an imported GNA model

`Import` adds to the base of the memory block whatever number stands in the stream. `pointersInside_iff`: the
pointers of an imported model lie in the block if and only if the offsets in the stream do, which nothing checks.
-/

namespace OpenVino.GNAPlugin

variable {api : GnaApi}

theorem intel_pwl_func_t.pointers_map (f : Word → Word) (pwl : intel_pwl_func_t api) :
    (pwl.map f).pointers = pwl.pointers.map f := by
  unfold intel_pwl_func_t.pointers intel_pwl_func_t.map
  by_cases hn : pwl.nSegments ≠ 0
  · simp only [if_pos hn, List.map_cons, List.map_nil]
  · simp only [if_neg hn, List.map_nil]

theorem LayerStruct.pointers_map (f : Word → Word) (s : LayerStruct api) : (s.map f).pointers = s.pointers.map f := by
  cases s with
  | affine a =>
    simp only [LayerStruct.map, LayerStruct.pointers, intel_pwl_func_t.pointers_map, List.map_append, List.map_cons,
      List.map_nil]
  | convolution c =>
    simp only [LayerStruct.map, LayerStruct.pointers, intel_pwl_func_t.pointers_map, List.map_append, List.map_cons,
      List.map_nil]

theorem intel_nnet_layer_t.pointers_map (f : Word → Word) (layer : intel_nnet_layer_t api) :
    (layer.map f).pointers = layer.pointers.map f := by
  simp only [intel_nnet_layer_t.map, intel_nnet_layer_t.pointers, LayerStruct.pointers_map, List.map_append,
    List.map_cons, List.map_nil]

namespace GNAModelSerial

variable {base : Word} {gnaGraphSize : Nat}

/-- The pointers that an import sets. -/
def Imported.pointers (imported : Imported api) : List Word :=
  imported.layers.flatMap intel_nnet_layer_t.pointers ++ imported.states.map State.pSegment

/-- The offsets in a file, of the states only where they are kept. -/
def SerialModel.offsets (file : SerialModel api) (pstates : Bool) : List Word :=
  file.layers.flatMap intel_nnet_layer_t.pointers ++ if pstates then file.states.map State.pSegment else []

theorem SerialModel.pointers_relocate (file : SerialModel api) (pstates : Bool) :
    (file.relocate pstates base).pointers = (file.offsets pstates).map (base + ·) := by
  unfold SerialModel.relocate Imported.pointers SerialModel.offsets
  rw [List.map_append, List.flatMap_map, List.map_flatMap]
  congr 1
  · apply List.flatMap_congr
    intro layer _
    exact intel_nnet_layer_t.pointers_map _ layer
  · cases pstates with
    | true =>
      simp only [if_true, List.map_map]
      rfl
    | false => rfl

/-- In `[base, base + gnaGraphSize]`. -/
def InBlock (base : Word) (gnaGraphSize : Nat) (p : Word) : Prop :=
  base.toNat ≤ p.toNat ∧ p.toNat ≤ base.toNat + gnaGraphSize

theorem inBlock_add_iff (hblock : base.toNat + gnaGraphSize < 2 ^ 64) (offset : Word) :
    InBlock base gnaGraphSize (base + offset) ↔ offset.toNat ≤ gnaGraphSize := by
  have hoffset : offset.toNat < 2 ^ 64 := offset.isLt
  have hadd : (base + offset).toNat = (base.toNat + offset.toNat) % 2 ^ 64 := BitVec.toNat_add base offset
  rw [InBlock, hadd]
  -- a sum that wraps lies below the base
  by_cases hwrap : base.toNat + offset.toNat < 2 ^ 64
  · rw [Nat.mod_eq_of_lt hwrap]
    omega
  · omega

/-- **GNA import.** The pointers that an import sets lie in the memory block if and only if, wherever the stream holds
a model that is read to its end, the offsets of the model are at most the size of the block. -/
theorem pointersInside_iff (is : List (BitVec 8)) (nLayers : Nat) (pstates : Bool) (base : Word) (gnaGraphSize : Nat)
    (hblock : base.toNat + gnaGraphSize < 2 ^ 64) :
    (∀ imported is', Import api nLayers pstates base gnaGraphSize is = .ok (imported, is') →
        ∀ p ∈ imported.pointers, InBlock base gnaGraphSize p) ↔
      ∀ (file : SerialModel api) (is' : List (BitVec 8)), is = file.encode ++ is' → file.layers.length = nLayers →
        (∀ layer ∈ file.layers, layer.Supported) → file.states.length < 2 ^ 31 → file.memory.length = gnaGraphSize →
        ∀ offset ∈ file.offsets pstates, offset.toNat ≤ gnaGraphSize := by
  constructor
  · intro h file is' his hlayers hsupported hstates hmemory offset hoffset
    have hread : Import api nLayers pstates base gnaGraphSize is = .ok (file.relocate pstates base, is') :=
      Import_iff.mpr ⟨file, hlayers, hsupported, hstates, hmemory, his, rfl⟩
    rw [← inBlock_add_iff hblock]
    apply h _ _ hread
    rw [SerialModel.pointers_relocate]
    exact List.mem_map_of_mem hoffset
  · intro h imported is' hread p hp
    obtain ⟨file, hlayers, hsupported, hstates, hmemory, his, rfl⟩ := Import_iff.mp hread
    rw [SerialModel.pointers_relocate] at hp
    obtain ⟨offset, hoffset, rfl⟩ := List.mem_map.mp hp
    rw [inBlock_add_iff hblock]
    exact h file is' his hlayers hsupported hstates hmemory offset hoffset

/-- The fields of four bytes that a library of one kind of layer declares. -/
def affineApi : GnaApi where
  nInputColumns := 4
  nInputRows := 4
  nOutputColumns := 4
  nOutputRows := 4
  nBytesPerInput := 4
  nBytesPerOutput := 4
  nBytesPerIntermediateOutput := 4
  nBytesPerWeight := 4
  nBytesPerBias := 4
  nSegments := 4
  nFilterCoefficients := 4
  nBytesFilterCoefficient := 4
  nBytesBias := 4
  nFilters := 4
  nFeatureMaps := 4
  nFeatureMapRows := 4
  nFeatureMapColumns := 4
  nFilterRows := 4
  nPoolSize := 4
  nPoolStride := 4
  poolType := 4
  layerKind kind := if kind = 0 then some .INTEL_AFFINE else none

/-- A file of one affine layer, without a table, whose weights stand at `weights`. -/
def affineFile (weights : Word) : SerialModel affineApi where
  layers := [{
    nInputColumns := 1#32, nInputRows := 8#32, nOutputColumns := 1#32, nOutputRows := 8#32, nBytesPerInput := 2#32
    nBytesPerOutput := 4#32, nBytesPerIntermediateOutput := 4#32, nLayerKind := 0
    pLayerStruct := .affine {
      nBytesPerWeight := 2#32, nBytesPerBias := 4#32, pWeights := weights, pBiases := 0
      pwl := { nSegments := 0#32, pSegments := 0 } }
    pInputs := 0, pOutputsIntermediate := 0, pOutputs := 0 }]
  states := []
  memory := []

theorem affineFile_supported (weights : Word) : ∀ layer ∈ (affineFile weights).layers, layer.Supported := by
  intro layer hlayer
  obtain rfl := List.mem_singleton.mp hlayer
  exact .inr rfl

/-- The number in the place of the weights is far behind the block. -/
theorem weights_outside : ¬∀ imported is',
    Import affineApi 1 true 4096 0 (affineFile 0x7fffffff).encode = .ok (imported, is') →
      ∀ p ∈ imported.pointers, InBlock 4096 0 p := by
  intro h
  have hread : Import affineApi 1 true 4096 0 (affineFile 0x7fffffff).encode =
      .ok ((affineFile 0x7fffffff).relocate true 4096, []) :=
    Import_iff.mpr ⟨affineFile 0x7fffffff, rfl, affineFile_supported _, by decide, rfl, by rw [List.append_nil], rfl⟩
  have hweights := h _ _ hread (4096 + 0x7fffffff) List.mem_cons_self
  exact absurd hweights.2 (by decide)

theorem pointersInside_iff_affine : (∀ imported is',
    Import affineApi 1 true 4096 0 (affineFile 0).encode = .ok (imported, is') →
      ∀ p ∈ imported.pointers, InBlock 4096 0 p) ↔
    ∀ (file : SerialModel affineApi) (is' : List (BitVec 8)), (affineFile 0).encode = file.encode ++ is' →
      file.layers.length = 1 → (∀ layer ∈ file.layers, layer.Supported) → file.states.length < 2 ^ 31 →
      file.memory.length = 0 → ∀ offset ∈ file.offsets true, offset.toNat ≤ 0 :=
  pointersInside_iff (affineFile 0).encode 1 true 4096 0 (by decide)

end GNAModelSerial

end OpenVino.GNAPlugin
