import OpenVino.GNAPlugin.ModelSerial

/-!
# The format of a GNA model

What stands in a stream for the layers and states of a network: `encode` writes the structures with offsets in the
place of pointers, and `relocate` turns these into pointers of a block. `Import_iff`: an import that returns has read
such an encoding, and has relocated it.
-/

namespace OpenVino.GNAPlugin

open intel_layer_kind_t

variable {api : GnaApi} {base : Word}

/-! ### The structures -/

/-- An activation table without segments has no pointer. -/
def intel_pwl_func_t.map (f : Word → Word) (pwl : intel_pwl_func_t api) : intel_pwl_func_t api :=
  { pwl with pSegments := if pwl.nSegments ≠ 0 then f pwl.pSegments else 0 }

def intel_pwl_func_t.encode (pwl : intel_pwl_func_t api) : List (BitVec 8) :=
  bytesOf pwl.nSegments ++ if pwl.nSegments ≠ 0 then bytesOf pwl.pSegments else []

def intel_pwl_func_t.pointers (pwl : intel_pwl_func_t api) : List Word :=
  if pwl.nSegments ≠ 0 then [pwl.pSegments] else []

namespace LayerStruct

def map (f : Word → Word) : LayerStruct api → LayerStruct api
  | affine a => affine { a with pWeights := f a.pWeights, pBiases := f a.pBiases, pwl := a.pwl.map f }
  | convolution c => convolution { c with pFilters := f c.pFilters, pBiases := f c.pBiases, pwl := c.pwl.map f }

def encode : LayerStruct api → List (BitVec 8)
  | affine a =>
    bytesOf a.nBytesPerWeight ++ bytesOf a.nBytesPerBias ++ bytesOf a.pWeights ++ bytesOf a.pBiases ++ a.pwl.encode
  | convolution c =>
    bytesOf c.nFilterCoefficients ++ bytesOf c.nBytesFilterCoefficient ++ bytesOf c.nBytesBias ++
      bytesOf c.nFilters ++ bytesOf c.nFeatureMaps ++ bytesOf c.nFeatureMapRows ++ bytesOf c.nFeatureMapColumns ++
      bytesOf c.nFilterRows ++ bytesOf c.pFilters ++ bytesOf c.pBiases ++ bytesOf c.nPoolSize ++
      bytesOf c.nPoolStride ++ bytesOf c.poolType ++ c.pwl.encode

def pointers : LayerStruct api → List Word
  | affine a => [a.pWeights, a.pBiases] ++ a.pwl.pointers
  | convolution c => [c.pFilters, c.pBiases] ++ c.pwl.pointers

/-- The structure is one of those that belong to the kind. -/
def Of (kind : Option intel_layer_kind_t) : LayerStruct api → Prop
  | affine _ => kind = some INTEL_AFFINE_DIAGONAL ∨ kind = some INTEL_AFFINE
  | convolution _ => kind = some INTEL_CONVOLUTIONAL

end LayerStruct

namespace intel_nnet_layer_t

def map (f : Word → Word) (layer : intel_nnet_layer_t api) : intel_nnet_layer_t api :=
  { layer with
    pLayerStruct := layer.pLayerStruct.map f, pInputs := f layer.pInputs
    pOutputsIntermediate := f layer.pOutputsIntermediate, pOutputs := f layer.pOutputs }

variable (layer : intel_nnet_layer_t api)

def encode : List (BitVec 8) :=
  bytesOf layer.nInputColumns ++ bytesOf layer.nInputRows ++ bytesOf layer.nOutputColumns ++
    bytesOf layer.nOutputRows ++ bytesOf layer.nBytesPerInput ++ bytesOf layer.nBytesPerOutput ++
    bytesOf layer.nBytesPerIntermediateOutput ++ bytesOf layer.nLayerKind ++ layer.pLayerStruct.encode ++
    bytesOf layer.pInputs ++ bytesOf layer.pOutputsIntermediate ++ bytesOf layer.pOutputs

def pointers : List Word :=
  layer.pLayerStruct.pointers ++ [layer.pInputs, layer.pOutputsIntermediate, layer.pOutputs]

/-- The layer is of a kind that is written and read, and has the structure of this kind. -/
def Supported : Prop := layer.pLayerStruct.Of (api.layerKind layer.nLayerKind)

end intel_nnet_layer_t

namespace GNAModelSerial

def State.map (f : Word → Word) (state : State) : State := { state with pSegment := f state.pSegment }

def State.encode (state : State) : List (BitVec 8) := bytesOf state.pSegment ++ bytesOf state.segmentSz

/-! ### The readers -/

variable {is is' : List (BitVec 8)}

theorem readOffset_iff {p : Word} :
    readOffset base is = .ok (p, is') ↔ ∃ offset, is = bytesOf offset ++ is' ∧ p = base + offset := by
  rw [readOffset, readBits_bind_iff]
  constructor
  · rintro ⟨offset, is₁, rfl, h⟩
    obtain ⟨rfl, rfl⟩ := pure_run_iff.mp h
    exact ⟨offset, rfl, rfl⟩
  · rintro ⟨offset, rfl, rfl⟩
    exact ⟨offset, is', rfl, rfl⟩

theorem readOffset_bind_iff {β : Type} {f : Word → Istream β} {b : β} :
    (readOffset base >>= f) is = .ok (b, is') ↔
      ∃ offset is₁, is = bytesOf offset ++ is₁ ∧ f (base + offset) is₁ = .ok (b, is') := by
  rw [bind_run_iff]
  constructor
  · rintro ⟨p, is₁, hp, h⟩
    obtain ⟨offset, his, rfl⟩ := readOffset_iff.mp hp
    exact ⟨offset, is₁, his, h⟩
  · rintro ⟨offset, is₁, his, h⟩
    exact ⟨base + offset, is₁, readOffset_iff.mpr ⟨offset, his, rfl⟩, h⟩

theorem reads_readPwl :
    Reads (readPwl api base) (fun _ => True) intel_pwl_func_t.encode (intel_pwl_func_t.map (base + ·)) := by
  intro is pwl is'
  rw [readPwl, readBits_bind_iff]
  constructor
  · rintro ⟨nSegments, is₁, rfl, h⟩
    by_cases hn : nSegments ≠ 0
    · rw [if_pos hn, readOffset_bind_iff] at h
      obtain ⟨offset, is₂, rfl, hpure⟩ := h
      obtain ⟨rfl, rfl⟩ := pure_run_iff.mp hpure
      refine ⟨⟨nSegments, offset⟩, trivial, ?_, ?_⟩
      · simp only [intel_pwl_func_t.encode, if_pos hn, List.append_assoc]
      · simp only [intel_pwl_func_t.map, if_pos hn]
    · rw [if_neg hn] at h
      obtain ⟨rfl, rfl⟩ := pure_run_iff.mp h
      refine ⟨⟨nSegments, 0⟩, trivial, ?_, ?_⟩
      · simp only [intel_pwl_func_t.encode, if_neg hn, List.append_nil]
      · simp only [intel_pwl_func_t.map, if_neg hn]
  · rintro ⟨⟨nSegments, offset⟩, -, rfl, rfl⟩
    simp only [intel_pwl_func_t.encode, intel_pwl_func_t.map]
    by_cases hn : nSegments ≠ 0
    · refine ⟨nSegments, bytesOf offset ++ is', by rw [if_pos hn, List.append_assoc], ?_⟩
      rw [if_pos hn, readOffset_bind_iff, if_pos hn]
      exact ⟨offset, is', rfl, rfl⟩
    · refine ⟨nSegments, is', by rw [if_neg hn, List.append_nil], ?_⟩
      rw [if_neg hn, if_neg hn]
      rfl

theorem reads_readAffine : Reads (readAffine api base) (fun _ => True)
    (fun a : intel_affine_layer_t api => (LayerStruct.affine a).encode)
    (fun a : intel_affine_layer_t api => (LayerStruct.affine a).map (base + ·)) := by
  intro is r is'
  simp only [readAffine, readBits_bind_iff, readOffset_bind_iff]
  constructor
  · rintro ⟨nBytesPerWeight, _, rfl, nBytesPerBias, _, rfl, pWeights, _, rfl, pBiases, _, rfl, h⟩
    obtain ⟨pwl', is₁, hpwl, h'⟩ := bind_run_iff.mp h
    obtain ⟨pwl, -, rfl, rfl⟩ := (reads_readPwl _ _ _).mp hpwl
    obtain ⟨rfl, rfl⟩ := pure_run_iff.mp h'
    refine ⟨⟨nBytesPerWeight, nBytesPerBias, pWeights, pBiases, pwl⟩, trivial, ?_, rfl⟩
    simp only [LayerStruct.encode, List.append_assoc]
  · rintro ⟨⟨nBytesPerWeight, nBytesPerBias, pWeights, pBiases, pwl⟩, -, rfl, rfl⟩
    simp only [LayerStruct.encode, List.append_assoc]
    refine ⟨nBytesPerWeight, _, rfl, nBytesPerBias, _, rfl, pWeights, _, rfl, pBiases, _, rfl, bind_run_iff.mpr ?_⟩
    exact ⟨pwl.map (base + ·), is', (reads_readPwl _ _ _).mpr ⟨pwl, trivial, rfl, rfl⟩, rfl⟩

theorem reads_readConvolution : Reads (readConvolution api base) (fun _ => True)
    (fun c : intel_convolutional_layer_t api => (LayerStruct.convolution c).encode)
    (fun c : intel_convolutional_layer_t api => (LayerStruct.convolution c).map (base + ·)) := by
  intro is r is'
  simp only [readConvolution, readBits_bind_iff, readOffset_bind_iff]
  constructor
  · rintro ⟨nFilterCoefficients, _, rfl, nBytesFilterCoefficient, _, rfl, nBytesBias, _, rfl, nFilters, _, rfl,
      nFeatureMaps, _, rfl, nFeatureMapRows, _, rfl, nFeatureMapColumns, _, rfl, nFilterRows, _, rfl, pFilters, _, rfl,
      pBiases, _, rfl, nPoolSize, _, rfl, nPoolStride, _, rfl, poolType, _, rfl, h⟩
    obtain ⟨pwl', is₁, hpwl, h'⟩ := bind_run_iff.mp h
    obtain ⟨pwl, -, rfl, rfl⟩ := (reads_readPwl _ _ _).mp hpwl
    obtain ⟨rfl, rfl⟩ := pure_run_iff.mp h'
    refine ⟨⟨nFilterCoefficients, nBytesFilterCoefficient, nBytesBias, nFilters, nFeatureMaps, nFeatureMapRows,
      nFeatureMapColumns, nFilterRows, pFilters, pBiases, nPoolSize, nPoolStride, poolType, pwl⟩, trivial, ?_, rfl⟩
    simp only [LayerStruct.encode, List.append_assoc]
  · rintro ⟨c, -, rfl, rfl⟩
    simp only [LayerStruct.encode, List.append_assoc]
    refine ⟨c.nFilterCoefficients, _, rfl, c.nBytesFilterCoefficient, _, rfl, c.nBytesBias, _, rfl, c.nFilters, _, rfl,
      c.nFeatureMaps, _, rfl, c.nFeatureMapRows, _, rfl, c.nFeatureMapColumns, _, rfl, c.nFilterRows, _, rfl,
      c.pFilters, _, rfl, c.pBiases, _, rfl, c.nPoolSize, _, rfl, c.nPoolStride, _, rfl, c.poolType, _, rfl,
      bind_run_iff.mpr ?_⟩
    exact ⟨c.pwl.map (base + ·), is', (reads_readPwl _ _ _).mpr ⟨c.pwl, trivial, rfl, rfl⟩, rfl⟩

theorem reads_readLayerStruct (nLayerKind : BitVec (8 * 4)) : Reads (readLayerStruct api base nLayerKind)
    (LayerStruct.Of (api.layerKind nLayerKind)) LayerStruct.encode (LayerStruct.map (base + ·)) := by
  have hthrow : ∀ {e : IEException} {is r is'}, ¬(throwIs e : Istream (LayerStruct api)) is = .ok (r, is') := by
    intro e is r is' h
    cases h
  intro is r is'
  unfold readLayerStruct
  rcases hkind : api.layerKind nLayerKind with _ | kind
  · refine iff_of_false hthrow ?_
    rintro ⟨a | c, hof, -⟩
    · exact absurd hof (by simp [LayerStruct.Of])
    · exact absurd hof (by simp [LayerStruct.Of])
  have haffine : kind = INTEL_AFFINE_DIAGONAL ∨ kind = INTEL_AFFINE →
      (readAffine api base is = .ok (r, is') ↔ ∃ s, LayerStruct.Of (some kind) s ∧ is = s.encode ++ is' ∧
        r = s.map (base + ·)) := by
    intro h
    rw [reads_readAffine]
    constructor
    · rintro ⟨a, -, his, hr⟩
      exact ⟨.affine a, by simpa [LayerStruct.Of] using h, his, hr⟩
    · rintro ⟨a | c, hof, his, hr⟩
      · exact ⟨a, trivial, his, hr⟩
      · rcases h with rfl | rfl <;> cases hof
  cases kind with
  | INTEL_AFFINE => exact haffine (.inr rfl)
  | INTEL_AFFINE_DIAGONAL => exact haffine (.inl rfl)
  | INTEL_CONVOLUTIONAL =>
    show readConvolution api base is = .ok (r, is') ↔ _
    rw [reads_readConvolution]
    constructor
    · rintro ⟨c, -, his, hr⟩
      exact ⟨.convolution c, rfl, his, hr⟩
    · rintro ⟨a | c, hof, his, hr⟩
      · exact absurd hof (by simp [LayerStruct.Of])
      · exact ⟨c, trivial, his, hr⟩
  | INTEL_RECURRENT | INTEL_INTERLEAVE | INTEL_DEINTERLEAVE | INTEL_COPY =>
    refine iff_of_false hthrow ?_
    rintro ⟨a | c, hof, -⟩
    · exact absurd hof (by simp [LayerStruct.Of])
    · exact absurd hof (by simp [LayerStruct.Of])

theorem reads_readLayer : Reads (readLayer api base) intel_nnet_layer_t.Supported intel_nnet_layer_t.encode
    (intel_nnet_layer_t.map (base + ·)) := by
  intro is r is'
  simp only [readLayer, readBits_bind_iff]
  constructor
  · rintro ⟨nInputColumns, _, rfl, nInputRows, _, rfl, nOutputColumns, _, rfl, nOutputRows, _, rfl, nBytesPerInput, _, rfl,
      nBytesPerOutput, _, rfl, nBytesPerIntermediateOutput, _, rfl, nLayerKind, _, rfl, h⟩
    obtain ⟨s', is₁, hs, h'⟩ := bind_run_iff.mp h
    obtain ⟨s, hof, rfl, rfl⟩ := (reads_readLayerStruct _ _ _ _).mp hs
    simp only [readOffset_bind_iff] at h'
    obtain ⟨pInputs, _, rfl, pOutputsIntermediate, _, rfl, pOutputs, _, rfl, hpure⟩ := h'
    obtain ⟨rfl, rfl⟩ := pure_run_iff.mp hpure
    refine ⟨⟨nInputColumns, nInputRows, nOutputColumns, nOutputRows, nBytesPerInput, nBytesPerOutput,
      nBytesPerIntermediateOutput, nLayerKind, s, pInputs, pOutputsIntermediate, pOutputs⟩, hof, ?_, rfl⟩
    simp only [intel_nnet_layer_t.encode, List.append_assoc]
  · rintro ⟨l, hof, rfl, rfl⟩
    simp only [intel_nnet_layer_t.encode, List.append_assoc]
    refine ⟨l.nInputColumns, _, rfl, l.nInputRows, _, rfl, l.nOutputColumns, _, rfl, l.nOutputRows, _, rfl,
      l.nBytesPerInput, _, rfl, l.nBytesPerOutput, _, rfl, l.nBytesPerIntermediateOutput, _, rfl, l.nLayerKind, _, rfl,
      bind_run_iff.mpr ⟨l.pLayerStruct.map (base + ·), _,
        (reads_readLayerStruct _ _ _ _).mpr ⟨l.pLayerStruct, hof, rfl, rfl⟩, ?_⟩⟩
    simp only [readOffset_bind_iff]
    exact ⟨l.pInputs, _, rfl, l.pOutputsIntermediate, _, rfl, l.pOutputs, is', rfl, rfl⟩

theorem reads_readStates (i n : Nat) : Reads (readStates base i n)
    (fun states : List State => states.length = n ∧ (i + n < 2 ^ 31 ∨ n = 0 ∨ 2 ^ 31 ≤ i)) (List.flatMap State.encode)
      (List.map (State.map (base + ·))) := by
  induction n generalizing i with
  | zero =>
    intro is states is'
    rw [readStates, pure_run_iff]
    constructor
    · rintro ⟨rfl, rfl⟩
      exact ⟨[], ⟨rfl, .inr (.inl rfl)⟩, rfl, rfl⟩
    · rintro ⟨states, ⟨hlen, -⟩, rfl, rfl⟩
      obtain rfl := List.length_eq_zero_iff.mp hlen
      exact ⟨rfl, rfl⟩
  | succ n ih =>
    intro is states is'
    simp only [readStates, readOffset_bind_iff, readBits_bind_iff]
    constructor
    · rintro ⟨pSegment, _, rfl, segmentSz, is₁, rfl, h⟩
      by_cases hi : i = 2 ^ 31 - 1
      · rw [if_pos hi] at h
        cases h
      · rw [if_neg hi, bind_run_iff] at h
        obtain ⟨rest', is₂, hrest, hpure⟩ := h
        obtain ⟨rest, ⟨hlen, hrange⟩, rfl, rfl⟩ := (ih _ _ _ _).mp hrest
        obtain ⟨rfl, rfl⟩ := pure_run_iff.mp hpure
        refine ⟨⟨pSegment, segmentSz⟩ :: rest, ⟨by rw [List.length_cons, hlen], by omega⟩, ?_, rfl⟩
        simp only [List.flatMap_cons, State.encode, List.append_assoc]
    · rintro ⟨states, ⟨hlen, hrange⟩, rfl, rfl⟩
      obtain ⟨state, rest, rfl⟩ := List.exists_cons_of_length_eq_add_one hlen
      simp only [List.flatMap_cons, State.encode, List.append_assoc]
      refine ⟨state.pSegment, _, rfl, state.segmentSz, _, rfl, ?_⟩
      rw [if_neg (by omega), bind_run_iff]
      refine ⟨rest.map (State.map (base + ·)), is', (ih _ _ _ _).mpr ⟨rest, ⟨by simpa using hlen, by omega⟩, rfl, rfl⟩,
        rfl⟩

/-! ### The import -/

/-- A file behind its header: the layers and the states with offsets, and the contents of the memory block. -/
structure SerialModel (api : GnaApi) where
  layers : List (intel_nnet_layer_t api)
  states : List State
  memory : List (BitVec 8)

namespace SerialModel

variable (file : SerialModel api)

def encode : List (BitVec 8) :=
  file.layers.flatMap intel_nnet_layer_t.encode ++ bytesOf (BitVec.ofNat (8 * 4) file.states.length) ++
    file.states.flatMap State.encode ++ file.memory

def relocate (pstates : Bool) (base : Word) : Imported api where
  layers := file.layers.map (intel_nnet_layer_t.map (base + ·))
  states := if pstates then file.states.map (State.map (base + ·)) else []
  memory := file.memory

end SerialModel

/-- What an import has read, and what it makes of it. -/
theorem Import_iff {nLayers gnaGraphSize : Nat} {pstates : Bool} {imported : Imported api} :
    Import api nLayers pstates base gnaGraphSize is = .ok (imported, is') ↔
      ∃ file : SerialModel api, file.layers.length = nLayers ∧ (∀ layer ∈ file.layers, layer.Supported) ∧
        file.states.length < 2 ^ 31 ∧ file.memory.length = gnaGraphSize ∧ is = file.encode ++ is' ∧
        imported = file.relocate pstates base := by
  rw [Import, bind_run_iff]
  constructor
  · rintro ⟨layers', is₁, hlayers, h⟩
    obtain ⟨layers, ⟨hlen, hsupported⟩, rfl, rfl⟩ := (reads_readLayer.readMany _ _ _ _).mp hlayers
    obtain ⟨nStates, is₂, rfl, h₂⟩ := readBits_bind_iff.mp h
    obtain ⟨states', is₃, hstates, h₃⟩ := bind_run_iff.mp h₂
    obtain ⟨states, ⟨hlen', hrange⟩, rfl, rfl⟩ := (reads_readStates _ _ _ _ _).mp hstates
    obtain ⟨memory, is₄, hmemory, h₄⟩ := bind_run_iff.mp h₃
    obtain ⟨hsize, rfl⟩ := readBytes_iff.mp hmemory
    obtain ⟨rfl, rfl⟩ := pure_run_iff.mp h₄
    refine ⟨⟨layers, states, memory⟩, hlen, hsupported, by dsimp only; omega, hsize, ?_, rfl⟩
    have hcount : BitVec.ofNat (8 * 4) states.length = nStates := by
      rw [hlen', BitVec.ofNat_toNat, BitVec.setWidth_eq]
    simp only [SerialModel.encode, hcount, List.append_assoc]
  · rintro ⟨⟨layers, states, memory⟩, hlen, hsupported, hcount, rfl, rfl, rfl⟩
    simp only [SerialModel.encode, List.append_assoc]
    refine ⟨_, _, (reads_readLayer.readMany _ _ _ _).mpr ⟨layers, ⟨hlen, hsupported⟩, rfl, rfl⟩, ?_⟩
    refine readBits_bind_iff.mpr ⟨BitVec.ofNat (8 * 4) states.length, _, rfl, bind_run_iff.mpr ?_⟩
    have htoNat : (BitVec.ofNat (8 * 4) states.length).toNat = states.length := by
      rw [BitVec.toNat_ofNat, Nat.mod_eq_of_lt (by dsimp only at hcount; omega)]
    refine ⟨_, memory ++ is', (reads_readStates _ _ _ _ _).mpr ⟨states, ⟨htoNat.symm, ?_⟩, rfl, rfl⟩,
      bind_run_iff.mpr ⟨memory, is', readBytes_iff.mpr ⟨rfl, rfl⟩, rfl⟩⟩
    dsimp only at hcount
    omega

end GNAModelSerial

end OpenVino.GNAPlugin
