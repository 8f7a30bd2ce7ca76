import OpenVino.InferenceEngine.ShapeInfer.Reshape.Extensions

/-!
# Changing the batch size

`CNNNetworkImpl::setBatchSize` multiplies the first dimension of every `Data` with the quotient of the new and the
old batch and rounds it up. It stops at the first `Data` that cannot take its new dimensions, and the ones in front
of it keep theirs. The way back restores a dimension if and only if it was scaled without rounding
(`scaled_scaled_iff`).
-/

namespace OpenVino.InferenceEngine

open ShapeInfer (Data)

/-- `static_cast<size_t>(std::ceil(size * diff))`, with the quotient `diff` not rounded. -/
def scaled (size originalBatchSize first : Nat) : Nat := ⌈(size : ℚ) * ((first : ℚ) / (originalBatchSize : ℚ))⌉₊

section Scaled

variable {size original first k : Nat}

theorem scaled_le_iff (horiginal : 0 < original) : scaled size original first ≤ k ↔ size * first ≤ k * original := by
  have hpos : (0 : ℚ) < original := by exact_mod_cast horiginal
  rw [scaled, Nat.ceil_le, ← mul_div_assoc, div_le_iff₀ hpos]
  exact_mod_cast Iff.rfl

theorem le_scaled_mul (horiginal : 0 < original) : size * first ≤ scaled size original first * original :=
  (scaled_le_iff horiginal).mp le_rfl

theorem scaled_original (horiginal : 0 < original) : scaled size original original = size := by
  apply le_antisymm
  · rw [scaled_le_iff horiginal]
  · exact Nat.le_of_mul_le_mul_right (le_scaled_mul horiginal) horiginal

/-- The way back gives no less than the dimension was, and the same if and only if nothing was rounded. -/
theorem scaled_scaled_iff (hsize : 0 < size) (horiginal : 0 < original) :
    scaled original size (scaled size original first) = first ↔ original ∣ size * first := by
  have hthere : size * first ≤ scaled size original first * original := le_scaled_mul horiginal
  have hback : first ≤ scaled original size (scaled size original first) := by
    have hmul : original * scaled size original first ≤ scaled original size (scaled size original first) * size :=
      le_scaled_mul hsize
    refine Nat.le_of_mul_le_mul_right ?_ hsize
    rw [Nat.mul_comm] at hmul
    rw [Nat.mul_comm]
    exact hthere.trans hmul
  rw [← hback.ge_iff_eq', scaled_le_iff hsize]
  constructor
  · intro h
    refine ⟨scaled size original first, le_antisymm ?_ ?_⟩
    · rw [Nat.mul_comm original]
      exact hthere
    · rw [Nat.mul_comm size]
      exact h
  · rintro ⟨m, hm⟩
    have hle : scaled size original first ≤ m := by
      rw [scaled_le_iff horiginal, hm, Nat.mul_comm]
    rw [Nat.mul_comm first, hm]
    exact Nat.mul_le_mul_left _ hle

end Scaled

/-- An entry of `_data`, with the type of the layer that creates it. -/
structure NetworkData where
  data : Data
  creatorLayer : Option String := none
deriving DecidableEq

namespace NetworkData

variable (layer : NetworkData)

def getDims : SizeVector := layer.data.tensorDesc.dims

def isConst : Bool := layer.creatorLayer.any (caselessEq · "Const")

end NetworkData

/-- The status codes that `setBatchSize` can return. -/
inductive CNNNetworkImpl.StatusCode
  | OK
  | GENERAL_ERROR
  | PARAMETER_MISMATCH
  | UNEXPECTED
deriving DecidableEq

/-- The `Data` of the first entry of `_inputData`: one of those in `_data`, or another one. -/
inductive InputData
  | listed (i : Nat)
  | other (data : Data)
deriving DecidableEq

/-- The `_data` of a network in the order of the map. -/
structure CNNNetworkImpl where
  data : List NetworkData
  inputData : Option InputData
deriving DecidableEq

namespace CNNNetworkImpl

/-- `Data::setDims` writes the reversed dimensions before the tensor descriptor can refuse the new ones. What the
`catch` clauses answer to an exception stands beside the new state. -/
def setDims (data : Data) (a_dims : SizeVector) : Result (StatusCode × Data) :=
  match data.tensorDesc.setDims a_dims with
  | .ok tensorDesc => return (.OK, { data with dims := a_dims.reverse, tensorDesc })
  | .error (.exception _) => return (.GENERAL_ERROR, { data with dims := a_dims.reverse })
  | .error e => .error e

/-- A round of the loop of `setBatchSize`. -/
def rescale (size originalBatchSize : Nat) (layer : NetworkData) : Result (StatusCode × NetworkData) :=
  if layer.isConst then return (.OK, layer)
  else
    match layer.getDims with
    | [] => return (.UNEXPECTED, layer)
    | first :: rest =>
      if originalBatchSize = 0 ∨ 2 ^ 64 ≤ scaled size originalBatchSize first then
        .error (.undefinedBehaviour "static_cast<size_t>(std::ceil(size * diff))")
      else do
        let r ← setDims layer.data (scaled size originalBatchSize first :: rest)
        return (r.1, { layer with data := r.2 })

def rescaleAll (size originalBatchSize : Nat) : List NetworkData → Result (StatusCode × List NetworkData)
  | [] => return (.OK, [])
  | layer :: layers => do
    let r ← rescale size originalBatchSize layer
    if r.1 ≠ .OK then return (r.1, r.2 :: layers)
    else do
      let rs ← rescaleAll size originalBatchSize layers
      return (rs.1, r.2 :: rs.2)

variable (net : CNNNetworkImpl)

/-- `_inputData.cbegin()->second->getTensorDesc().getDims()`. -/
def inputDims : InputData → Result SizeVector
  | .listed i => do
    let layer ← elemAt "_inputData.cbegin()->second" net.data i
    let desc ← layer.data.getTensorDesc
    return desc.dims
  | .other data => do
    let desc ← data.getTensorDesc
    return desc.dims

/-- An exception that leaves a function declared `noexcept`. -/
def terminate {α : Type} : Result α := .error (.assertionFailed "noexcept")

def getBatchSize : Result Nat :=
  match net.inputData with
  | none => return 0
  | some input =>
    match net.inputDims input with
    | .error (.exception _) => terminate
    | .error e => .error e
    | .ok dims =>
      -- 3D input layout doesn't have batch notation for input so batch is 1
      if dims.length = 3 ∨ dims.length = 1 then return 1
      else
        match dims with
        | [] => terminate
        | batch :: _ => return batch

def setBatchSize (size : Nat) : Result (StatusCode × CNNNetworkImpl) := do
  let originalBatchSize ← net.getBatchSize
  if originalBatchSize = size then return (.OK, net)
  else
    match net.inputData with
    | none => .error (.undefinedBehaviour "_inputData.cbegin()->second")
    | some input => do
      let dims ← net.inputDims input
      if dims.length = 3 ∨ dims.length = 1 then return (.PARAMETER_MISMATCH, net)
      else do
        let r ← rescaleAll size originalBatchSize net.data
        return (r.1, { net with data := r.2 })

/-- The dimensions of every `Data`. -/
def dims : List SizeVector := net.data.map NetworkData.getDims

end CNNNetworkImpl

/-! ### Layouts that take the dimensions -/

/-- A layout takes dimensions by their number. -/
theorem BlockingDesc.ofLayout_isOk_iff {v : SizeVector} {layout : Layout} (hv : v ≠ []) :
    (∃ d, ofLayout v layout = .ok d) ↔ layout = .SCALAR ∨ TensorDesc.consistentLayout layout v.length := by
  rcases v with _ | ⟨v0, _ | ⟨v1, _ | ⟨v2, _ | ⟨v3, _ | ⟨v4, _ | ⟨v5, v⟩⟩⟩⟩⟩⟩
  · exact absurd rfl hv
  all_goals
    cases layout <;>
      simp [ofLayout, fillDesc, throwException, TensorDesc.consistentLayout, pure, Except.pure, List.range_succ]

namespace TensorDesc

variable {t t' : TensorDesc} {v w : SizeVector}

theorem setDims_fields (h : t.setDims v = .ok t') :
    t'.layout = t.layout ∧ t'.precision = t.precision ∧ t'.dims = if t.layout = .SCALAR then t.dims else v := by
  obtain ⟨d, -, h⟩ := bind_ok_iff.mp h
  obtain rfl := pure_ok_iff.mp h
  exact ⟨rfl, rfl, rfl⟩

theorem setDims_scalar_iff (hlayout : t.layout = .SCALAR) (hv : v ≠ []) : (∃ t', t.setDims v = .ok t') ↔ v = [1] := by
  have hlen : 0 < v.length := List.length_pos_iff.mpr hv
  have hguard : (v.length > 1 ∨ v.length = 1 ∧ v ≠ [1]) ↔ v ≠ [1] := by
    constructor
    · rintro (h | ⟨-, h⟩) rfl
      · exact absurd h (by decide)
      · exact h rfl
    · intro h
      by_cases hone : v.length = 1
      · exact .inr ⟨hone, h⟩
      · exact .inl (by omega)
  unfold setDims
  rw [if_neg (by rw [hlayout]; decide)]
  by_cases h : v = [1]
  · rw [if_neg (by rw [hguard]; exact fun h' => h'.2 h), hlayout, h]
    exact iff_of_true ⟨_, rfl⟩ rfl
  · rw [if_pos ⟨hlayout, hguard.mpr h⟩]
    refine iff_of_false ?_ h
    rintro ⟨t', h⟩
    cases h

theorem setDims_again (hlayout : t.layout ≠ .SCALAR) (hv : v ≠ []) (hlen : w.length = v.length)
    (h : t.setDims v = .ok t') : ∃ t'', t'.setDims w = .ok t'' := by
  have hw : w ≠ [] := by
    rw [← List.length_pos_iff, hlen]
    exact List.length_pos_iff.mpr hv
  obtain ⟨d, hd, h⟩ := bind_ok_iff.mp h
  obtain rfl := pure_ok_iff.mp h
  suffices ∃ d', (if t.layout = .BLOCKED then
      BlockingDesc.ofOrder (if d.blockedDims = [] then w else d.blockedDims)
        (if d.order = [] then List.range (if d.blockedDims = [] then w else d.blockedDims).length else d.order)
      else BlockingDesc.ofLayout w t.layout) = .ok d' by
    obtain ⟨d', hd'⟩ := this
    unfold setDims
    simp only [hlayout, false_and, if_false]
    split_ifs at hd' ⊢ <;> exact ⟨_, by rw [hd']; rfl⟩
  simp only [hlayout, false_and, if_false] at hd
  by_cases hblocked : t.layout = .BLOCKED
  · rw [if_pos hblocked] at hd ⊢
    have hdims : (if t.blockingDesc.blockedDims = [] then v else t.blockingDesc.blockedDims) ≠ [] := by
      split_ifs with h'
      · exact hv
      · exact h'
    generalize (if t.blockingDesc.blockedDims = [] then v else t.blockingDesc.blockedDims) = newDims at hd hdims
    have horder : (if t.blockingDesc.order = [] then List.range newDims.length else t.blockingDesc.order) ≠ [] := by
      split_ifs with h'
      · simpa using hdims
      · exact h'
    generalize (if t.blockingDesc.order = [] then List.range newDims.length else t.blockingDesc.order) = newOrder
      at hd horder
    -- the blocks are kept, so that the same descriptor is built again
    rcases BlockingDesc.ofOrder_ok hd with ⟨hnil | hnil, -⟩ | ⟨-, -, rfl⟩
    · exact absurd hnil hdims
    · exact absurd hnil horder
    · refine ⟨BlockingDesc.filled newDims newOrder, ?_⟩
      show BlockingDesc.ofOrder (if newDims = [] then w else newDims)
        (if newOrder = [] then List.range (if newDims = [] then w else newDims).length else newOrder) = _
      rw [if_neg hdims, if_neg horder]
      exact hd
  · rw [if_neg hblocked] at hd ⊢
    rw [BlockingDesc.ofLayout_isOk_iff hw, hlen, ← BlockingDesc.ofLayout_isOk_iff hv]
    exact ⟨d, hd⟩

end TensorDesc

/-! ### One `Data` -/

namespace NetworkData

variable (size originalBatchSize : Nat) (layer : NetworkData)

def first : Nat := layer.getDims.headD 0

/-- The dimensions that a round leaves to a `Data` that takes them: a scalar layout takes them and keeps its own. -/
def rescaledDims : SizeVector :=
  if layer.isConst ∨ layer.data.tensorDesc.layout = .SCALAR ∨ layer.getDims = [] then layer.getDims
  else scaled size originalBatchSize layer.first :: layer.getDims.tail

/-- The new first dimension exists and fits in a `size_t`. -/
def Scales : Prop :=
  layer.getDims ≠ [] ∧ originalBatchSize ≠ 0 ∧ scaled size originalBatchSize layer.first < 2 ^ 64

def Takes : Prop :=
  layer.isConst ∨ layer.Scales size originalBatchSize ∧ ∃ desc,
    layer.data.tensorDesc.setDims (scaled size originalBatchSize layer.first :: layer.getDims.tail) = .ok desc

def Refuses : Prop :=
  ¬layer.isConst ∧ (layer.getDims = [] ∨ layer.Scales size originalBatchSize ∧ ∃ message,
    layer.data.tensorDesc.setDims (scaled size originalBatchSize layer.first :: layer.getDims.tail) =
      .error (.exception message))

/-- The `Data` takes the way back too, if it takes the new dimensions. -/
def TakesBack : Prop :=
  layer.isConst ∨
    if layer.data.tensorDesc.layout = .SCALAR then scaled originalBatchSize size layer.first = 1
    else scaled originalBatchSize size (scaled size originalBatchSize layer.first) < 2 ^ 64

/-- The first dimension is scaled without rounding, if it is scaled. -/
def Divides : Prop :=
  layer.isConst ∨ layer.data.tensorDesc.layout = .SCALAR ∨ originalBatchSize ∣ size * layer.first

end NetworkData

namespace CNNNetworkImpl

variable {size originalBatchSize : Nat} {layer layer' : NetworkData} {st : StatusCode}

theorem rescale_of_ne_nil (hconst : ¬layer.isConst) (hdims : layer.getDims ≠ []) :
    rescale size originalBatchSize layer =
      if originalBatchSize = 0 ∨ 2 ^ 64 ≤ scaled size originalBatchSize layer.first then
        .error (.undefinedBehaviour "static_cast<size_t>(std::ceil(size * diff))")
      else do
        let r ← setDims layer.data (scaled size originalBatchSize layer.first :: layer.getDims.tail)
        return (r.1, { layer with data := r.2 }) := by
  obtain ⟨first, rest, h⟩ := List.exists_cons_of_ne_nil hdims
  rw [rescale, if_neg hconst, NetworkData.first, h]
  rfl

theorem rescale_of_scales (hconst : ¬layer.isConst) (hscales : layer.Scales size originalBatchSize) :
    rescale size originalBatchSize layer = do
      let r ← setDims layer.data (scaled size originalBatchSize layer.first :: layer.getDims.tail)
      return (r.1, { layer with data := r.2 }) := by
  obtain ⟨hdims, horiginal, hlt⟩ := hscales
  rw [rescale_of_ne_nil hconst hdims, if_neg (not_or.mpr ⟨horiginal, Nat.not_le.mpr hlt⟩)]

/-- What a round leaves, of a `Data` that takes its dimensions. -/
def Rescaled (size originalBatchSize : Nat) (layer layer' : NetworkData) : Prop :=
  layer.isConst ∧ layer' = layer ∨ ¬layer.isConst ∧ layer.Scales size originalBatchSize ∧ ∃ desc,
    layer.data.tensorDesc.setDims (scaled size originalBatchSize layer.first :: layer.getDims.tail) = .ok desc ∧
    layer' = { layer with data := { layer.data with
      dims := (scaled size originalBatchSize layer.first :: layer.getDims.tail).reverse, tensorDesc := desc } }

theorem rescale_ok_iff : rescale size originalBatchSize layer = .ok (.OK, layer') ↔
    Rescaled size originalBatchSize layer layer' := by
  by_cases hconst : layer.isConst
  · rw [rescale, if_pos hconst, Rescaled, pure_ok_iff, Prod.mk.injEq, and_iff_right rfl]
    simp [hconst, eq_comm]
  by_cases hscales : layer.Scales size originalBatchSize
  · rw [rescale_of_scales hconst hscales, Rescaled, setDims]
    rcases hset : layer.data.tensorDesc.setDims (scaled size originalBatchSize layer.first :: layer.getDims.tail) with
      e | desc
    · rcases e with _ | message | _ | _ <;> simp [hconst, bind, Except.bind, pure, Except.pure]
    · simp [hconst, hscales, bind, Except.bind, pure, Except.pure, eq_comm]
  · refine iff_of_false ?_ ?_
    · by_cases hdims : layer.getDims = []
      · rw [rescale, if_neg hconst, hdims]
        simp [pure, Except.pure]
      · have hrange : originalBatchSize = 0 ∨ 2 ^ 64 ≤ scaled size originalBatchSize layer.first := by
          by_contra hrange
          rw [not_or, not_le] at hrange
          exact hscales ⟨hdims, hrange⟩
        rw [rescale_of_ne_nil hconst hdims, if_pos hrange]
        simp
    · rintro (⟨hconst', -⟩ | ⟨-, hscales', -⟩)
      · exact hconst hconst'
      · exact hscales hscales'

theorem refuses_of_rescale (h : rescale size originalBatchSize layer = .ok (st, layer')) (hst : st ≠ .OK) :
    layer.Refuses size originalBatchSize ∧ layer'.getDims = layer.getDims := by
  by_cases hconst : layer.isConst
  · rw [rescale, if_pos hconst] at h
    exact absurd (Prod.mk.inj (pure_ok_iff.mp h)).1.symm hst
  by_cases hdims : layer.getDims = []
  · rw [rescale, if_neg hconst, hdims] at h
    obtain ⟨-, rfl⟩ := Prod.mk.inj (pure_ok_iff.mp h)
    exact ⟨⟨hconst, .inl hdims⟩, rfl⟩
  by_cases hscales : layer.Scales size originalBatchSize
  · rw [rescale_of_scales hconst hscales, setDims] at h
    rcases hset : layer.data.tensorDesc.setDims (scaled size originalBatchSize layer.first :: layer.getDims.tail) with
      e | desc
    · rw [hset] at h
      rcases e with _ | message | _ | _
      · cases h
      · obtain ⟨-, rfl⟩ := Prod.mk.inj (pure_ok_iff.mp h)
        exact ⟨⟨hconst, .inr ⟨hscales, message, hset⟩⟩, rfl⟩
      · cases h
      · cases h
    · rw [hset] at h
      exact absurd (Prod.mk.inj (pure_ok_iff.mp h)).1.symm hst
  · rw [rescale_of_ne_nil hconst hdims] at h
    split_ifs at h with hrange
    rw [not_or, not_le] at hrange
    exact absurd ⟨hdims, hrange⟩ hscales

theorem exists_rescale_of_refuses (h : layer.Refuses size originalBatchSize) :
    ∃ st layer', rescale size originalBatchSize layer = .ok (st, layer') ∧ st ≠ .OK := by
  obtain ⟨hconst, hdims | ⟨hscales, message, hset⟩⟩ := h
  · refine ⟨.UNEXPECTED, layer, ?_, by decide⟩
    rw [rescale, if_neg hconst, hdims]
    rfl
  · refine ⟨.GENERAL_ERROR, { layer with data := { layer.data with
      dims := (scaled size originalBatchSize layer.first :: layer.getDims.tail).reverse } }, ?_, by decide⟩
    rw [rescale_of_scales hconst hscales, setDims, hset]
    rfl

theorem exists_rescaled_iff : (∃ layer', Rescaled size originalBatchSize layer layer') ↔
    layer.Takes size originalBatchSize := by
  constructor
  · rintro ⟨layer', ⟨hconst, -⟩ | ⟨-, hscales, desc, hset, -⟩⟩
    · exact .inl hconst
    · exact .inr ⟨hscales, desc, hset⟩
  · intro h
    by_cases hconst : layer.isConst
    · exact ⟨layer, .inl ⟨hconst, rfl⟩⟩
    · obtain ⟨hscales, desc, hset⟩ := h.resolve_left hconst
      exact ⟨_, .inr ⟨hconst, hscales, desc, hset, rfl⟩⟩

theorem getDims_of_rescaled (h : Rescaled size originalBatchSize layer layer') :
    layer'.getDims = layer.rescaledDims size originalBatchSize := by
  rcases h with ⟨hconst, rfl⟩ | ⟨hconst, hscales, desc, hset, rfl⟩
  · rw [NetworkData.rescaledDims, if_pos (.inl hconst)]
  · obtain ⟨-, -, hdims⟩ := TensorDesc.setDims_fields hset
    show desc.dims = _
    rw [hdims, NetworkData.rescaledDims]
    by_cases hlayout : layer.data.tensorDesc.layout = .SCALAR
    · rw [if_pos hlayout, if_pos (.inr (.inl hlayout))]
      rfl
    · rw [if_neg hlayout, if_neg (by simp [hconst, hlayout, hscales.1])]

/-- A scalar layout takes only the dimension 1, whatever its own dimensions are. -/
theorem rescaled_scalar (h : Rescaled size originalBatchSize layer layer') (hconst : ¬layer.isConst)
    (hlayout : layer.data.tensorDesc.layout = .SCALAR) : layer.getDims.tail = [] := by
  obtain ⟨hconst', -⟩ | ⟨-, -, desc, hset, -⟩ := h
  · exact absurd hconst' hconst
  · have hone := (TensorDesc.setDims_scalar_iff hlayout (List.cons_ne_nil _ _)).mp ⟨desc, hset⟩
    exact (List.cons.inj hone).2

/-- The way back of a `Data` that took its new dimensions. -/
theorem takes_of_rescaled_iff (hsize : 0 < size) (h : Rescaled size originalBatchSize layer layer') :
    layer'.Takes originalBatchSize size ↔ layer.TakesBack size originalBatchSize := by
  have hdims' := getDims_of_rescaled h
  have htail := rescaled_scalar h
  rcases h with ⟨hconst, rfl⟩ | ⟨hconst, hscales, desc, hset, hlayer'⟩
  · exact iff_of_true (.inl hconst) (.inl hconst)
  have hcreator : layer'.isConst = layer.isConst := by rw [hlayer']; rfl
  have hdesc : layer'.data.tensorDesc = desc := by rw [hlayer']
  obtain ⟨hlayout', -, -⟩ := TensorDesc.setDims_fields hset
  rw [NetworkData.Takes, NetworkData.TakesBack, hcreator, or_iff_right hconst, or_iff_right hconst,
    NetworkData.Scales, hdesc, hdims', NetworkData.first, hdims', NetworkData.rescaledDims]
  by_cases hlayout : layer.data.tensorDesc.layout = .SCALAR
  · rw [if_pos (.inr (.inl hlayout)), if_pos hlayout, htail hconst hlayout]
    rw [hlayout] at hlayout'
    rw [TensorDesc.setDims_scalar_iff hlayout' (List.cons_ne_nil _ _), List.singleton_inj]
    constructor
    · rintro ⟨-, h⟩
      exact h
    · intro h
      refine ⟨⟨hscales.1, hsize.ne', ?_⟩, h⟩
      rw [NetworkData.first] at h
      rw [h]
      decide
  · rw [if_neg (by simp [hconst, hlayout, hscales.1]), if_neg hlayout]
    constructor
    · rintro ⟨⟨-, -, h⟩, -⟩
      exact h
    · intro h
      refine ⟨⟨List.cons_ne_nil _ _, hsize.ne', h⟩, ?_⟩
      exact TensorDesc.setDims_again hlayout (List.cons_ne_nil _ _) (by simp) hset

/-- There and back, the dimensions are the same if and only if nothing was rounded. -/
theorem getDims_there_and_back_iff {layer'' : NetworkData} (hsize : 0 < size)
    (h : Rescaled size originalBatchSize layer layer') (h' : Rescaled originalBatchSize size layer' layer'') :
    layer''.getDims = layer.getDims ↔ layer.Divides size originalBatchSize := by
  rw [getDims_of_rescaled h', NetworkData.rescaledDims, getDims_of_rescaled h, NetworkData.first,
    getDims_of_rescaled h, NetworkData.rescaledDims, NetworkData.Divides]
  rcases h with ⟨hconst, rfl⟩ | ⟨hconst, hscales, desc, hset, hlayer'⟩
  · simp [hconst]
  have hcreator : layer'.isConst = layer.isConst := by rw [hlayer']; rfl
  have hlayout' : layer'.data.tensorDesc.layout = layer.data.tensorDesc.layout := by
    rw [hlayer']
    exact (TensorDesc.setDims_fields hset).1
  rw [hcreator, hlayout']
  by_cases hlayout : layer.data.tensorDesc.layout = .SCALAR
  · simp [hlayout]
  obtain ⟨first, rest, hdims⟩ := List.exists_cons_of_ne_nil hscales.1
  rw [← scaled_scaled_iff hsize (Nat.pos_of_ne_zero hscales.2.1)]
  simp [hconst, hlayout, hdims, NetworkData.first]

/-! ### The loop -/

variable {layers layers' : List NetworkData}

/-- The loop ends, or it stops at the first `Data` that refuses its dimensions. -/
theorem rescaleAll_cases (h : rescaleAll size originalBatchSize layers = .ok (st, layers')) :
    st = .OK ∧ List.Forall₂ (Rescaled size originalBatchSize) layers layers' ∨
      st ≠ .OK ∧ ∃ front front' layer layer' back, layers = front ++ layer :: back ∧
        List.Forall₂ (Rescaled size originalBatchSize) front front' ∧ layer.Refuses size originalBatchSize ∧
        layer'.getDims = layer.getDims ∧ layers' = front' ++ layer' :: back := by
  induction layers generalizing layers' with
  | nil =>
    obtain ⟨rfl, rfl⟩ := Prod.mk.inj (pure_ok_iff.mp h)
    exact .inl ⟨rfl, .nil⟩
  | cons layer layers ih =>
    rw [rescaleAll] at h
    obtain ⟨⟨st₁, layer'⟩, hround, h⟩ := bind_ok_iff.mp h
    by_cases hst₁ : st₁ = .OK
    · subst hst₁
      rw [if_neg (by simp)] at h
      obtain ⟨⟨st₂, rest'⟩, hrest, h⟩ := bind_ok_iff.mp h
      obtain ⟨rfl, rfl⟩ := Prod.mk.inj (pure_ok_iff.mp h)
      have hlayer := rescale_ok_iff.mp hround
      rcases ih hrest with ⟨hst, hall⟩ | ⟨hst, front, front', x, x', back, rfl, hfront, hx, hx', rfl⟩
      · exact .inl ⟨hst, .cons hlayer hall⟩
      · exact .inr ⟨hst, layer :: front, layer' :: front', x, x', back, rfl, .cons hlayer hfront, hx, hx', rfl⟩
    · rw [if_pos hst₁] at h
      obtain ⟨rfl, rfl⟩ := Prod.mk.inj (pure_ok_iff.mp h)
      obtain ⟨hrefuses, hdims⟩ := refuses_of_rescale hround hst₁
      exact .inr ⟨hst₁, [], [], layer, layer', layers, rfl, .nil, hrefuses, hdims, rfl⟩

theorem rescaleAll_append {front front' : List NetworkData}
    (hfront : List.Forall₂ (Rescaled size originalBatchSize) front front') (back : List NetworkData) :
    rescaleAll size originalBatchSize (front ++ back) = do
      let rs ← rescaleAll size originalBatchSize back
      return (rs.1, front' ++ rs.2) := by
  induction hfront with
  | nil =>
    rw [List.nil_append]
    rcases rescaleAll size originalBatchSize back with e | rs
    · rfl
    · rfl
  | cons hlayer _ ih =>
    rw [List.cons_append, rescaleAll, rescale_ok_iff.mpr hlayer, ok_bind, if_neg (by simp), ih]
    rcases rescaleAll size originalBatchSize back with e | rs
    · rfl
    · rfl

theorem rescaleAll_of_forall₂ (h : List.Forall₂ (Rescaled size originalBatchSize) layers layers') :
    rescaleAll size originalBatchSize layers = .ok (.OK, layers') := by
  have hloop := rescaleAll_append h []
  rw [List.append_nil] at hloop
  rw [hloop]
  show Except.ok (StatusCode.OK, layers' ++ []) = _
  rw [List.append_nil]

theorem exists_forall₂_of_takes (h : ∀ layer ∈ layers, layer.Takes size originalBatchSize) :
    ∃ layers', List.Forall₂ (Rescaled size originalBatchSize) layers layers' := by
  induction layers with
  | nil => exact ⟨[], .nil⟩
  | cons layer layers ih =>
    obtain ⟨layer', hlayer⟩ := exists_rescaled_iff.mpr (h layer List.mem_cons_self)
    obtain ⟨layers', hlayers⟩ := ih fun x hx => h x (List.mem_cons_of_mem _ hx)
    exact ⟨layer' :: layers', .cons hlayer hlayers⟩

theorem forall_takes_of_forall₂ (h : List.Forall₂ (Rescaled size originalBatchSize) layers layers') :
    ∀ layer ∈ layers, layer.Takes size originalBatchSize := by
  induction h with
  | nil => exact fun layer hlayer => absurd hlayer List.not_mem_nil
  | cons hlayer _ ih =>
    exact List.forall_mem_cons.mpr ⟨exists_rescaled_iff.mp ⟨_, hlayer⟩, ih⟩

theorem map_getDims_iff (h : List.Forall₂ (Rescaled size originalBatchSize) layers layers') :
    layers'.map NetworkData.getDims = layers.map NetworkData.getDims ↔
      ∀ layer ∈ layers, layer.rescaledDims size originalBatchSize = layer.getDims := by
  induction h with
  | nil => simp
  | cons hlayer _ ih =>
    rw [List.map_cons, List.map_cons, List.cons.injEq, ih, List.forall_mem_cons, getDims_of_rescaled hlayer]

theorem map_getDims_there_and_back_iff {layers'' : List NetworkData} (hsize : 0 < size)
    (h : List.Forall₂ (Rescaled size originalBatchSize) layers layers')
    (h' : List.Forall₂ (Rescaled originalBatchSize size) layers' layers'') :
    layers''.map NetworkData.getDims = layers.map NetworkData.getDims ↔
      ∀ layer ∈ layers, layer.Divides size originalBatchSize := by
  induction h generalizing layers'' with
  | nil =>
    cases h'
    simp
  | cons hlayer _ ih =>
    obtain ⟨layer'', rest'', hlayer', hrest', rfl⟩ := List.forall₂_cons_left_iff.mp h'
    rw [List.map_cons, List.map_cons, List.cons.injEq, ih hrest', List.forall_mem_cons,
      getDims_there_and_back_iff hsize hlayer hlayer']

theorem forall_takesBack_iff (hsize : 0 < size)
    (h : List.Forall₂ (Rescaled size originalBatchSize) layers layers') :
    (∀ layer' ∈ layers', layer'.Takes originalBatchSize size) ↔
      ∀ layer ∈ layers, layer.TakesBack size originalBatchSize := by
  induction h with
  | nil => simp
  | cons hlayer _ ih =>
    rw [List.forall_mem_cons, List.forall_mem_cons, ih, takes_of_rescaled_iff hsize hlayer]

/-! ### The call -/

variable {net net' : CNNNetworkImpl} {batch : Nat}

/-- The first input has its batch in its dimensions. -/
def HasBatch (net : CNNNetworkImpl) : Prop :=
  ∃ input dims, net.inputData = some input ∧ net.inputDims input = .ok dims ∧ ¬(dims.length = 3 ∨ dims.length = 1)

/-- The `Data` of the first input is rescaled with the others. -/
def InputRescaled (net : CNNNetworkImpl) : Prop :=
  ∃ i layer, net.inputData = some (.listed i) ∧ net.data[i]? = some layer ∧ ¬layer.isConst

theorem setBatchSize_same (h : net.getBatchSize = .ok batch) : net.setBatchSize batch = .ok (.OK, net) := by
  rw [setBatchSize, h, ok_bind, if_pos rfl]
  rfl

theorem setBatchSize_of_hasBatch (h : net.getBatchSize = .ok batch) (hne : batch ≠ size) (hbatch : net.HasBatch) :
    net.setBatchSize size = do
      let r ← rescaleAll size batch net.data
      return (r.1, { net with data := r.2 }) := by
  obtain ⟨input, dims, hinput, hdims, hlen⟩ := hbatch
  rw [setBatchSize, h, ok_bind, if_neg hne, hinput]
  show (net.inputDims input >>= _) = _
  rw [hdims, ok_bind, if_neg hlen]

theorem setBatchSize_of_not_hasBatch (h : net.getBatchSize = .ok batch) (hne : batch ≠ size) (hbatch : ¬net.HasBatch)
    (hset : net.setBatchSize size = .ok (st, net')) : st ≠ .OK ∧ net' = net := by
  rw [setBatchSize, h, ok_bind, if_neg hne] at hset
  rcases hinput : net.inputData with _ | input
  · rw [hinput] at hset
    cases hset
  · rw [hinput] at hset
    obtain ⟨dims, hdims, hset⟩ := bind_ok_iff.mp hset
    have hlen : dims.length = 3 ∨ dims.length = 1 := by
      by_contra hlen
      exact hbatch ⟨input, dims, hinput, hdims, hlen⟩
    rw [if_pos hlen] at hset
    obtain ⟨rfl, rfl⟩ := Prod.mk.inj (pure_ok_iff.mp hset)
    exact ⟨by decide, rfl⟩

/-- With its batch in the dimensions, the first of them is the batch size. -/
theorem inputDims_of_hasBatch (h : net.getBatchSize = .ok batch) (hbatch : net.HasBatch) :
    ∃ input rest, net.inputData = some input ∧ net.inputDims input = .ok (batch :: rest) ∧
      ¬((batch :: rest).length = 3 ∨ (batch :: rest).length = 1) := by
  obtain ⟨input, dims, hinput, hdims, hlen⟩ := hbatch
  rw [getBatchSize, hinput] at h
  dsimp only at h
  rw [hdims] at h
  dsimp only at h
  rw [if_neg hlen] at h
  rcases dims with _ | ⟨d, rest⟩
  · cases h
  · obtain rfl := pure_ok_iff.mp h
    exact ⟨input, rest, hinput, hdims, hlen⟩

theorem getBatchSize_of_inputDims {input : InputData} {rest : SizeVector} (hinput : net.inputData = some input)
    (hdims : net.inputDims input = .ok (batch :: rest))
    (hlen : ¬((batch :: rest).length = 3 ∨ (batch :: rest).length = 1)) :
    net.getBatchSize = .ok batch ∧ net.HasBatch := by
  refine ⟨?_, input, batch :: rest, hinput, hdims, hlen⟩
  rw [getBatchSize, hinput]
  dsimp only
  rw [hdims]
  dsimp only
  rw [if_neg hlen]
  rfl

theorem getTensorDesc_ok {data : Data} {desc : TensorDesc} (h : data.getTensorDesc = .ok desc) :
    desc.dims = data.tensorDesc.dims ∧
      ¬(data.tensorDesc.layout = .ANY ∧ data.layout ≠ .ANY) ∧
      ¬(data.tensorDesc.precision = .UNSPECIFIED ∧ data.precision ≠ .UNSPECIFIED) := by
  unfold Data.getTensorDesc at h
  dsimp only at h
  split_ifs at h with hempty hprecision
  · exact absurd h throwException_ne_ok
  · obtain rfl := pure_ok_iff.mp h
    rw [not_or, not_or] at hempty
    exact ⟨rfl, hempty.2⟩
  · obtain rfl := pure_ok_iff.mp h
    rw [not_or, not_or] at hempty
    exact ⟨rfl, hempty.2⟩

theorem exists_getTensorDesc {data : Data} (hdims : data.tensorDesc.dims ≠ [])
    (hlayout : ¬(data.tensorDesc.layout = .ANY ∧ data.layout ≠ .ANY))
    (hprecision : ¬(data.tensorDesc.precision = .UNSPECIFIED ∧ data.precision ≠ .UNSPECIFIED)) :
    ∃ desc, data.getTensorDesc = .ok desc ∧ desc.dims = data.tensorDesc.dims := by
  unfold Data.getTensorDesc
  dsimp only
  rw [if_neg (by simp only [hdims, false_and, hlayout, hprecision, or_self, not_false_eq_true])]
  split_ifs
  · exact ⟨_, rfl, rfl⟩
  · exact ⟨_, rfl, rfl⟩

theorem exists_getElem?_of_forall₂ {i : Nat} (h : List.Forall₂ (Rescaled size originalBatchSize) layers layers')
    (hi : layers[i]? = some layer) : ∃ layer', layers'[i]? = some layer' ∧ Rescaled size originalBatchSize layer layer' := by
  obtain ⟨hlt, hget⟩ := List.getElem?_eq_some_iff.mp hi
  have hlt' : i < layers'.length := by
    rw [← h.length_eq]
    exact hlt
  refine ⟨layers'[i], List.getElem?_eq_getElem hlt', ?_⟩
  rw [← hget]
  exact h.get hlt hlt'

/-- After the loop the input has the new batch if it is rescaled, and the old one otherwise. -/
theorem getBatchSize_after (h : net.getBatchSize = .ok batch) (hbatch : net.HasBatch)
    (hloop : List.Forall₂ (Rescaled size batch) net.data layers') :
    (net.InputRescaled → ({ net with data := layers' } : CNNNetworkImpl).getBatchSize = .ok size ∧
        ({ net with data := layers' } : CNNNetworkImpl).HasBatch) ∧
      (¬net.InputRescaled → ({ net with data := layers' } : CNNNetworkImpl).getBatchSize = .ok batch) := by
  obtain ⟨input, rest, hinput, hdims, hlen⟩ := inputDims_of_hasBatch h hbatch
  rcases input with i | data
  · obtain ⟨layer, hlayer, hdims⟩ := bind_ok_iff.mp hdims
    obtain ⟨desc, hdesc, hdims⟩ := bind_ok_iff.mp hdims
    have hrest : desc.dims = batch :: rest := pure_ok_iff.mp hdims
    obtain ⟨-, hget⟩ := elemAt_ok_iff.mp hlayer
    rw [Int.toNat_natCast] at hget
    obtain ⟨layer', hget', hrescaled⟩ := exists_getElem?_of_forall₂ hloop hget
    obtain ⟨heq, hlayout, hprecision⟩ := getTensorDesc_ok hdesc
    have hgetDims : layer.getDims = batch :: rest := heq.symm.trans hrest
    -- the dimensions of the input in the new network
    have hafter : ∀ {d : Nat} {desc' : TensorDesc}, layer'.data.getTensorDesc = .ok desc' → desc'.dims = d :: rest →
        ({ net with data := layers' } : CNNNetworkImpl).getBatchSize = .ok d ∧
          ({ net with data := layers' } : CNNNetworkImpl).HasBatch := by
      intro d desc' hdesc' hdims'
      have hinput' : ({ net with data := layers' } : CNNNetworkImpl).inputDims (.listed i) = .ok (d :: rest) := by
        rw [inputDims, elemAt_ok_iff.mpr ⟨Int.natCast_nonneg i, by rw [Int.toNat_natCast]; exact hget'⟩, ok_bind,
          hdesc', ok_bind, hdims']
        rfl
      exact getBatchSize_of_inputDims hinput hinput' (by simpa using hlen)
    rcases hrescaled with ⟨hconst, rfl⟩ | ⟨hconst, hscales, desc', hset, rfl⟩
    · refine ⟨?_, fun _ => (hafter hdesc hrest).1⟩
      rintro ⟨i', layer', hlisted, hget₂, hconst'⟩
      rw [hinput] at hlisted
      cases hlisted
      rw [hget] at hget₂
      obtain rfl := Option.some.inj hget₂
      exact absurd hconst hconst'
    · refine ⟨fun _ => ?_, fun h => absurd ⟨i, layer, hinput, hget, hconst⟩ h⟩
      have hbatch_pos : 0 < batch := Nat.pos_of_ne_zero hscales.2.1
      have hnew : scaled size batch layer.first :: layer.getDims.tail = size :: rest := by
        rw [NetworkData.first, hgetDims]
        exact congrArg (· :: rest) (scaled_original hbatch_pos)
      rw [hnew] at hset
      obtain ⟨hlayout', hprecision', hdims'⟩ := TensorDesc.setDims_fields hset
      have hscalar : layer.data.tensorDesc.layout ≠ .SCALAR := by
        intro hscalar
        have hone := (TensorDesc.setDims_scalar_iff hscalar (List.cons_ne_nil _ _)).mp ⟨_, hset⟩
        rw [(List.cons.inj hone).2] at hlen
        exact hlen (.inr rfl)
      rw [if_neg hscalar] at hdims'
      rw [hnew] at hafter
      obtain ⟨desc₂, hdesc₂, hdims₂⟩ := @exists_getTensorDesc
        { layer.data with dims := (size :: rest).reverse, tensorDesc := desc' }
        (by simp [hdims']) (by simpa [hlayout'] using hlayout) (by simpa [hprecision'] using hprecision)
      exact hafter hdesc₂ (hdims₂.trans hdims')
  · constructor
    · rintro ⟨i, layer, hlisted, -⟩
      rw [hinput] at hlisted
      cases hlisted
    · intro _
      have hinput' : ({ net with data := layers' } : CNNNetworkImpl).inputDims (.other data) = .ok (batch :: rest) := hdims
      exact (@getBatchSize_of_inputDims { net with data := layers' } batch _ rest hinput hinput' hlen).1

/-- In front of a `Data` that refuses its new dimensions, the others have theirs already. -/
def KeptBeforeRefusal (net : CNNNetworkImpl) (size batch : Nat) : Prop :=
  ∀ front layer back, net.data = front ++ layer :: back → (∀ x ∈ front, x.Takes size batch) →
    layer.Refuses size batch → ∀ x ∈ front, x.rescaledDims size batch = x.getDims

/-- The dimensions are scaled without rounding or the way back is refused; where the input is not rescaled, the
way back does nothing. -/
def RestoredBack (net : CNNNetworkImpl) (size batch : Nat) : Prop :=
  (net.InputRescaled → (∀ x ∈ net.data, x.TakesBack size batch) → ∀ x ∈ net.data, x.Divides size batch) ∧
    (¬net.InputRescaled → ∀ x ∈ net.data, x.rescaledDims size batch = x.getDims)

theorem unchanged_iff (hget : net.getBatchSize = .ok batch) (hne : batch ≠ size) (hbatch : net.HasBatch) :
    (∀ st net', net.setBatchSize size = .ok (st, net') → st ≠ .OK → net'.dims = net.dims) ↔
      net.KeptBeforeRefusal size batch := by
  have hcall := setBatchSize_of_hasBatch hget hne hbatch
  constructor
  · intro h front layer back hdata hfront hrefuses
    obtain ⟨front', hfront'⟩ := exists_forall₂_of_takes hfront
    obtain ⟨st, layer', hround, hst⟩ := exists_rescale_of_refuses hrefuses
    have hloop : rescaleAll size batch net.data = .ok (st, front' ++ layer' :: back) := by
      rw [hdata, rescaleAll_append hfront', rescaleAll, hround, ok_bind, if_pos hst]
      rfl
    rw [hloop] at hcall
    have hdims : (front' ++ layer' :: back).map NetworkData.getDims = net.dims := h _ _ hcall hst
    rw [dims, hdata, List.map_append, List.map_append] at hdims
    exact (map_getDims_iff hfront').mp (List.append_inj hdims (by simp [hfront'.length_eq])).1
  · intro h st net' hset hst
    rw [hcall] at hset
    obtain ⟨⟨st₁, layers'⟩, hloop, hset⟩ := bind_ok_iff.mp hset
    obtain ⟨rfl, rfl⟩ := Prod.mk.inj (pure_ok_iff.mp hset)
    rcases rescaleAll_cases hloop with
      ⟨rfl, -⟩ | ⟨-, front, front', layer, layer', back, hdata, hfront, hrefuses, hlayer', rfl⟩
    · exact absurd rfl hst
    · have hkept := h front layer back hdata (forall_takes_of_forall₂ hfront) hrefuses
      show (front' ++ layer' :: back).map NetworkData.getDims = net.data.map NetworkData.getDims
      rw [hdata, List.map_append, List.map_append, List.map_cons, List.map_cons, hlayer',
        (map_getDims_iff hfront).mpr hkept]

theorem restored_iff (hsize : 1 ≤ size) (hget : net.getBatchSize = .ok batch) (hne : batch ≠ size)
    (hbatch : net.HasBatch) :
    (∀ net', net.setBatchSize size = .ok (.OK, net') → ∀ net'', net'.setBatchSize batch = .ok (.OK, net'') →
        net''.dims = net.dims) ↔
      ((∀ x ∈ net.data, x.Takes size batch) → net.RestoredBack size batch) := by
  have hcall := setBatchSize_of_hasBatch hget hne hbatch
  constructor
  · intro h htakes
    obtain ⟨layers', hlayers'⟩ := exists_forall₂_of_takes htakes
    rw [rescaleAll_of_forall₂ hlayers'] at hcall
    have hback := h _ hcall
    obtain ⟨hafter, hafter'⟩ := getBatchSize_after hget hbatch hlayers'
    refine ⟨fun hinput hall => ?_, fun hinput => ?_⟩
    · obtain ⟨layers'', hlayers''⟩ := exists_forall₂_of_takes ((forall_takesBack_iff hsize hlayers').mpr hall)
      have hcall' := setBatchSize_of_hasBatch (hafter hinput).1 (Ne.symm hne) (hafter hinput).2
      rw [rescaleAll_of_forall₂ hlayers''] at hcall'
      exact (map_getDims_there_and_back_iff hsize hlayers' hlayers'').mp (hback _ hcall')
    · exact (map_getDims_iff hlayers').mp (hback _ (setBatchSize_same (hafter' hinput)))
  · intro h net' hset net'' hback
    rw [hcall] at hset
    obtain ⟨⟨st₁, layers'⟩, hloop, hset⟩ := bind_ok_iff.mp hset
    obtain ⟨rfl, rfl⟩ := Prod.mk.inj (pure_ok_iff.mp hset)
    rcases rescaleAll_cases hloop with ⟨-, hall⟩ | ⟨hst, -⟩
    · obtain ⟨hrescaled, hother⟩ := h (forall_takes_of_forall₂ hall)
      obtain ⟨hafter, hafter'⟩ := getBatchSize_after hget hbatch hall
      by_cases hinput : net.InputRescaled
      · rw [setBatchSize_of_hasBatch (hafter hinput).1 (Ne.symm hne) (hafter hinput).2] at hback
        obtain ⟨⟨st₂, layers''⟩, hloop', hback⟩ := bind_ok_iff.mp hback
        obtain ⟨rfl, rfl⟩ := Prod.mk.inj (pure_ok_iff.mp hback)
        rcases rescaleAll_cases hloop' with ⟨-, hall'⟩ | ⟨hst, -⟩
        · refine (map_getDims_there_and_back_iff hsize hall hall').mpr (hrescaled hinput ?_)
          exact (forall_takesBack_iff hsize hall).mp (forall_takes_of_forall₂ hall')
        · exact absurd rfl hst
      · rw [setBatchSize_same (hafter' hinput)] at hback
        cases hback
        exact (map_getDims_iff hall).mpr (hother hinput)
    · exact absurd rfl hst

/-- A call that fails changes no dimensions, and after one that succeeds the old batch brings them back. -/
def AllOrNothing (net : CNNNetworkImpl) (size : Nat) : Prop :=
  ∀ st net', net.setBatchSize size = .ok (st, net') →
    (st ≠ .OK → net'.dims = net.dims) ∧
      (st = .OK → ∀ batch, net.getBatchSize = .ok batch → 1 ≤ batch → ∀ net'',
        net'.setBatchSize batch = .ok (.OK, net'') → net''.dims = net.dims)

/-- An input of two dimensions, with its name in front of the others. -/
def fromInput (layers : List NetworkData) : CNNNetworkImpl where
  data := { data := {
      dims := [3, 1], layout := .NC, precision := .FP32
      tensorDesc := { dims := [1, 3], layout := .NC } } } :: layers
  inputData := some (.listed 0)

end CNNNetworkImpl

end OpenVino.InferenceEngine
