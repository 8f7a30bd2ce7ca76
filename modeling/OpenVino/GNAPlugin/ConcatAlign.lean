import OpenVino.Base.ShiftedIdentity
import OpenVino.Base.StdString
import OpenVino.InferenceEngine.ShapeInfer.Reshape.Extensions

/-!
# The align filters of a concat

`InsertConcatAligningFilterPass::run` keeps a running offset over the inputs of a concat. An input that does not start
at a multiple of 64 bytes gets a filter that writes some zeros in front of it. An input is what its round finds: the
dimensions of its `Data` and the layer that makes it.

The pass skips a network input that is not aligned, and with it the step of the offset. `alignsConcats_iff`: the
filters put the inputs at their places if and only if nothing that needs a place follows a skipped input, apart from
integers that overflow. `ALIGN64` belongs to the GNA library.

The filters share the macro `ALIGN` where it rounds up in `int`, and the loop that writes the ones of a filter's
weights: its counter is an `int`, its index a `size_t` that advances by one more than a row.
-/

namespace OpenVino.GNAPlugin

/-! ### What the filters share -/

section

open InferenceEngine

/-- The macro `ALIGN` with a literal for `pad`, of a number of an unsigned type of `w` bits: the product is one of
`int`, as its second factor is. -/
def alignInt (w memSize pad : Nat) : Result Int :=
  intArith "static_cast<int>(((memSize) + pad -1) / pad) * pad" (toInt ((memSize + pad - 1) % 2 ^ w / pad) * pad)

/-- `for (int i = 0; i != n; i++) { filterWeights[idx] = 1.0f; idx += stride; }`, from the counter `i` on. -/
def writeOnes (stride : Nat) : Nat → Nat → Nat → List ℚ → Result (List ℚ)
  | _, 0, _, filterWeights => return filterWeights
  | i, n + 1, idx, filterWeights =>
    if idx < filterWeights.length then
      if i = 2 ^ 31 - 1 then .error (.undefinedBehaviour "i++")
      else writeOnes stride (i + 1) n (toSizeT (idx + stride)) (filterWeights.set idx 1)
    else .error (.undefinedBehaviour "filterWeights[idx]")

variable {stride i n idx : Nat} {W W' : List ℚ}

/-- The counter cannot count further than an `int`. -/
theorem lt_of_writeOnes (h : writeOnes stride i n idx W = .ok W') (hi : i < 2 ^ 31) : i + n < 2 ^ 31 ∨ n = 0 := by
  induction n generalizing i idx W with
  | zero => exact .inr rfl
  | succ n ih =>
    unfold writeOnes at h
    split_ifs at h with hidx hlast
    rcases ih h (by omega) with hlt | rfl
    · exact .inl (by omega)
    · exact .inl (by omega)

theorem writeOnes_ok (hlen : W.length ≤ 2 ^ 64) (hi : i + n < 2 ^ 31) (hplaces : ∀ k < n, idx + k * stride < W.length) :
    ∃ W', writeOnes stride i n idx W = .ok W' ∧ W'.length = W.length ∧
      (∀ k < n, W'.getD (idx + k * stride) 0 = 1) ∧
      ∀ j, (∀ k < n, j ≠ idx + k * stride) → W'.getD j 0 = W.getD j 0 := by
  induction n generalizing i idx W with
  | zero =>
    exact ⟨W, rfl, rfl, fun k hk => absurd hk (Nat.not_lt_zero k), fun j _ => rfl⟩
  | succ n ih =>
    have hidx : idx < W.length := by simpa using hplaces 0 (Nat.succ_pos n)
    have hnext : ∀ k, idx + stride + k * stride = idx + (k + 1) * stride := fun k => by ring
    unfold writeOnes
    rw [if_pos hidx, if_neg (by omega)]
    by_cases hn : n = 0
    · subst hn
      refine ⟨W.set idx 1, rfl, List.length_set, fun k hk => ?_, fun j hj => ?_⟩
      · obtain rfl : k = 0 := by omega
        rw [Nat.zero_mul, Nat.add_zero, List.getD_eq_getElem _ _ (by rwa [List.length_set]), List.getElem_set_self]
      · have hne : idx ≠ j := fun h => hj 0 Nat.one_pos (by omega)
        simp [List.getD_eq_getElem?_getD, List.getElem?_set_ne hne]
    -- the index has a next place, so it does not wrap
    have hlt : idx + stride < W.length := by simpa using hplaces 1 (by omega)
    have hmod : toSizeT ((idx : Int) + stride) = idx + stride := by
      rw [← Nat.cast_add]
      exact toSizeT_natCast (by omega)
    obtain ⟨W', hrun, hlen', hone, hkept⟩ := @ih (i + 1) (idx + stride) (W.set idx 1) (by rwa [List.length_set]) (by omega)
      (fun k hk => by rw [List.length_set, hnext]; exact hplaces (k + 1) (by omega))
    rw [hmod]
    refine ⟨W', hrun, by rw [hlen', List.length_set], fun k hk => ?_, fun j hj => ?_⟩
    · rcases k with _ | k
      · rw [Nat.zero_mul, Nat.add_zero]
        by_cases hagain : ∃ k < n, idx = idx + stride + k * stride
        · obtain ⟨k, hk', heq⟩ := hagain
          rw [heq]
          exact hone k hk'
        · push Not at hagain
          rw [hkept idx hagain, List.getD_eq_getElem _ _ (by rwa [List.length_set]), List.getElem_set_self]
      · rw [← hnext]
        exact hone k (by omega)
    · have hne : idx ≠ j := fun h => hj 0 (Nat.succ_pos n) (by omega)
      rw [hkept j fun k hk => by rw [hnext]; exact hj (k + 1) (by omega)]
      simp [List.getD_eq_getElem?_getD, List.getElem?_set_ne hne]

/-- The weights of a filter: zeros, and ones on a diagonal that starts at row `r₀` and column `c₀`. -/
theorem writeOnes_isShift {rows cols r₀ c₀ : Nat} (hn : n < 2 ^ 31) (hsize : rows * cols ≤ 2 ^ 64)
    (hcols : c₀ + n ≤ cols) (hrows : r₀ + n ≤ rows) :
    ∃ W, writeOnes (cols + 1) 0 n (r₀ * cols + c₀) (List.replicate (rows * cols) 0) = .ok W ∧
      IsShift W rows cols r₀ c₀ n := by
  obtain ⟨W, hrun, hlen, hone, hkept⟩ := @writeOnes_ok (cols + 1) 0 n (r₀ * cols + c₀) (List.replicate (rows * cols) 0)
    (by rwa [List.length_replicate]) (by omega) (fun k hk => by
      rw [List.length_replicate]
      exact strided_lt hcols hrows hk)
  refine ⟨W, hrun, isShift_of_strided (by rw [hlen, List.length_replicate]) hcols hone fun j hj => ?_⟩
  rw [hkept j hj, List.getD_eq_getElem?_getD, List.getElem?_replicate]
  split_ifs <;> rfl

end

/-! ### Concats -/

open InferenceEngine StdString

structure PrevLayer where
  name : String
  type : String

structure ConcatInput where
  dims : SizeVector
  creatorLayer : Option PrevLayer

/-- A concat align filter, with its two parameters and the dimensions of its output. -/
structure ConcatAlignFilter where
  name : String
  output_offset : String
  original_num_rows : String
  weights : List ℚ
  dims : SizeVector

namespace InsertConcatAligningFilterPass

def isInput (layer : PrevLayer) : Bool := caselessEq layer.type "input"

def isConcat (type : String) : Bool := caselessEq type "concat"

/-- `details::product`. -/
def product (dims : SizeVector) : Nat := dims.foldl (fun res dim => toSizeT (res * dim)) 1

section Pass

variable (ALIGN64 : Nat → Nat → Result Int)

/-- A filter for an input at `offset`, which is `aligned` when rounded up. -/
def makeFilter (quantized : Bool) (numOfFilterLayers offset : Nat) (aligned : Int) (prevLayer : PrevLayer) :
    SizeVector → Result ConcatAlignFilter
  | [batch, num_rows_in] => do
    let aligned64_offset := toSizeT (max 0 (← intArith "ALIGN64(offset) - 64" (aligned - 64)))
    let num_rows_padded := toSizeT (offset - aligned64_offset) / 2
    let num_rows_out := toSizeT (num_rows_padded + num_rows_in)
    let filterWeights ← writeOnes (toSizeT (num_rows_in + 1)) 0 num_rows_in (toSizeT (num_rows_padded * num_rows_in))
      (List.replicate (toSizeT (num_rows_out * num_rows_in)) 0)
    return {
      name := "ConcatAlignFilter_" ++ to_string numOfFilterLayers
      -- encodes offset to beginning of split layer input
      output_offset := to_string (toSizeT (aligned64_offset / 2 * if quantized then 2 else 4))
      -- encodes original output size
      original_num_rows := to_string num_rows_in
      weights := filterWeights
      dims := [batch, num_rows_out] }
  | dims => throwException ("unsupported concat input of dims.size()=" ++ toString dims.length ++ ", layer=" ++
      prevLayer.name)

/-- The rounds for the inputs of a concat, from the counter of the filters and the offset on; `none` stands for an
input without a filter. The offset is a `uint32_t`. -/
def alignInputs (name : String) (quantized : Bool) :
    Nat → Nat → List (Option ConcatInput) → Result (Nat × List (Option ConcatAlignFilter))
  | numOfFilterLayers, _, [] => return (numOfFilterLayers, [])
  | _, _, none :: _ => throwException ("cannot get insdata for layer: " ++ name)
  | numOfFilterLayers, offset, some concatInput :: inputs =>
    if concatInput.dims = [] then .error (.undefinedBehaviour "++dims.begin()")
    else do
      let outputSize := product concatInput.dims.tail
      let aligned ← ALIGN64 32 offset
      if aligned % 2 ^ 32 = offset then do
        let rest ← alignInputs name quantized numOfFilterLayers ((offset + outputSize * 2) % 2 ^ 32) inputs
        return (rest.1, none :: rest.2)
      else
        match concatInput.creatorLayer with
        | none => .error (.undefinedBehaviour "prevLayer->name")
        | some prevLayer =>
          if isInput prevLayer then do
            -- input layer parameters are copied not using GNA-primitives - so nothing to allign here.
            let rest ← alignInputs name quantized numOfFilterLayers offset inputs
            return (rest.1, none :: rest.2)
          else do
            let filter ← makeFilter quantized numOfFilterLayers offset aligned prevLayer concatInput.dims
            let rest ← alignInputs name quantized (numOfFilterLayers + 1) ((offset + outputSize * 2) % 2 ^ 32) inputs
            return (rest.1, some filter :: rest.2)

structure Layer where
  name : String
  type : String
  insData : List (Option ConcatInput)

def alignLayers (quantized : Bool) : Nat → List Layer → Result (List (List (Option ConcatAlignFilter)))
  | _, [] => return []
  | numOfFilterLayers, l :: layers =>
    if isConcat l.type then do
      let r ← alignInputs ALIGN64 l.name quantized numOfFilterLayers 0 l.insData
      let rest ← alignLayers quantized r.1 layers
      return r.2 :: rest
    else do
      let rest ← alignLayers quantized numOfFilterLayers layers
      return l.insData.map (fun _ => none) :: rest

/-- The filters of each layer, input by input. `disabled` is the policy `DISABLED_FOR_FP32`. -/
def run (disabled quantized : Bool) (layers : List Layer) : Result (List (List (Option ConcatAlignFilter))) :=
  -- aligning specific not required in fp32 mode
  if disabled && !quantized then return layers.map fun l => l.insData.map fun _ => none
  else alignLayers ALIGN64 quantized 0 layers

end Pass

/-! ### Two-dimensional inputs of batch 1 -/

structure Input2D where
  size : BitVec 64
  prevLayer : PrevLayer

namespace Input2D

variable (input : Input2D)

def toInput : Option ConcatInput := some { dims := [1, input.size.toNat], creatorLayer := some input.prevLayer }

/-- The number of elements. -/
def elements : Nat := input.size.toNat

end Input2D

structure Layer2D where
  name : String
  type : String
  inputs : List Input2D

def Layer2D.toLayer (l : Layer2D) : Layer := { name := l.name, type := l.type, insData := l.inputs.map Input2D.toInput }

/-- The filter of an input of `n` elements has its output where `t` elements stand in front of the input, and its matrix
writes zeros and then the input there. -/
def Puts (f : ConcatAlignFilter) (quantized : Bool) (t n : Nat) : Prop :=
  ∃ offset padded, f.output_offset = to_string ((offset * if quantized then 2 else 4 : Nat)) ∧ offset + padded = t ∧
    f.original_num_rows = to_string n ∧ f.dims = [1, padded + n] ∧ f.weights.length = (padded + n) * n ∧
    ∀ x : ℕ → ℚ, ∀ r < padded + n, ∑ c ∈ Finset.range n, f.weights.getD (r * n + c) 0 * x c =
      if r < padded then 0 else x (r - padded)

/-- What an input at `t` elements needs. -/
def PutAt (quantized : Bool) (t : Nat) (input : Input2D) : Option ConcatAlignFilter → Prop
  | none => 64 ∣ 2 * t ∨ isInput input.prevLayer
  | some f => Puts f quantized t input.elements

/-- The filters are right; `t` is the sum of the sizes of the inputs before. -/
def Aligned (quantized : Bool) : Nat → List Input2D → List (Option ConcatAlignFilter) → Prop
  | _, [], [] => True
  | t, input :: inputs, f :: fs => PutAt quantized t input f ∧ Aligned quantized (t + input.elements) inputs fs
  | _, _, _ => False

/-- `ALIGN64` of so many bytes, as a `uint32_t`, is an `int`. -/
def Rounds (bytes : Nat) : Prop := bytes % 2 ^ 32 ≤ 2 ^ 31 - 64 ∨ 2 ^ 32 - 64 < bytes % 2 ^ 32

/-- The inputs can be put at their places; `t` is the sum of the sizes of the inputs before, `skipped` the part of it
that belongs to network inputs which stood at a place that is not aligned when the skipped ones take no room. -/
def Fits : Nat → Nat → List Input2D → Prop
  | _, _, [] => True
  | t, skipped, input :: inputs =>
    Rounds (2 * (t - skipped)) ∧
      if 64 ∣ 2 * (t - skipped) then
        (64 ∣ 2 * t ∨ isInput input.prevLayer) ∧ Fits (t + input.elements) skipped inputs
      else if isInput input.prevLayer then Fits (t + input.elements) (skipped + input.elements) inputs
      else skipped = 0 ∧ 2 * t < 2 ^ 32 ∧ input.elements < 2 ^ 31 ∧ Fits (t + input.elements) skipped inputs

/-! ### One filter -/

theorem alignInt_eq {offset : Nat} (h : Rounds offset) (hlt : offset < 2 ^ 32) :
    alignInt 32 offset 64 = .ok (((offset + 63) % 2 ^ 32 / 64 * 64 : Nat) : Int) := by
  rw [Rounds, Nat.mod_eq_of_lt hlt] at h
  have hblocks : (offset + 64 - 1) % 2 ^ 32 / 64 < 2 ^ 31 := by omega
  rw [alignInt, toInt_of_lt hblocks, intArith, if_pos]
  · rfl
  · unfold FitsInt
    have : offset + 64 - 1 = offset + 63 := rfl
    rcases h with h | h
    · rw [Nat.mod_eq_of_lt (by omega)]
      omega
    · omega

theorem alignInt_overflow {offset : Nat} (h : ¬Rounds offset) (hlt : offset < 2 ^ 32) :
    ∃ e, alignInt 32 offset 64 = .error (.undefinedBehaviour e) := by
  rw [Rounds, Nat.mod_eq_of_lt hlt] at h
  have hblocks : (offset + 64 - 1) % 2 ^ 32 / 64 < 2 ^ 31 := by omega
  refine ⟨"static_cast<int>(((memSize) + pad -1) / pad) * pad", ?_⟩
  rw [alignInt, toInt_of_lt hblocks, intArith, if_neg]
  unfold FitsInt
  rw [Nat.mod_eq_of_lt (by omega)]
  omega

theorem lt_of_makeFilter {quantized : Bool} {k offset batch n : Nat} {aligned : Int} {prevLayer : PrevLayer}
    {f : ConcatAlignFilter} (h : makeFilter quantized k offset aligned prevLayer [batch, n] = .ok f) : n < 2 ^ 31 := by
  obtain ⟨difference, -, h⟩ := bind_ok_iff.mp h
  obtain ⟨W, hW, -⟩ := bind_ok_iff.mp h
  rcases lt_of_writeOnes hW (by decide) with hlt | rfl
  · omega
  · decide

theorem to_string_injective : Function.Injective to_string := by
  intro i j h
  have hi := scan_to_string i
  rw [h, scan_to_string j] at hi
  exact (Prod.mk.inj (Option.some.inj hi)).1.symm

/-- The offset of the filter's output: rounded down, or the start where rounding up has wrapped. -/
theorem exists_aligned64_offset {offset : Nat} (hrounds : Rounds offset) (hlt : offset < 2 ^ 32)
    (hunaligned : ¬64 ∣ offset) :
    ∃ aligned, intArith "ALIGN64(offset) - 64" ((((offset + 63) % 2 ^ 32 / 64 * 64 : Nat) : Int) - 64) = .ok aligned ∧
      64 ∣ toSizeT (max 0 aligned) ∧ toSizeT (max 0 aligned) ≤ offset := by
  refine ⟨_, intArith_ok_iff.mpr ⟨?_, rfl⟩, ?_⟩
  · rw [Rounds, Nat.mod_eq_of_lt hlt] at hrounds
    unfold FitsInt
    omega
  · by_cases hwrap : offset + 63 < 2 ^ 32
    · have hdown : ((((offset + 63) % 2 ^ 32 / 64 * 64 : Nat) : Int) - 64) = ((offset / 64 * 64 : Nat) : Int) := by
        rw [Nat.mod_eq_of_lt hwrap]
        omega
      rw [hdown, max_eq_right (Nat.cast_nonneg _), toSizeT_natCast (by omega)]
      exact ⟨Nat.dvd_mul_left _ _, Nat.div_mul_le_self _ _⟩
    · have hzero : (offset + 63) % 2 ^ 32 / 64 * 64 = 0 := by omega
      rw [hzero]
      exact ⟨dvd_zero _, Nat.zero_le _⟩

/-- The filter of an input at an offset that is not aligned. -/
theorem makeFilter_ok {quantized : Bool} {k offset n : Nat} {aligned difference : Int} {prevLayer : PrevLayer}
    (hlt : offset < 2 ^ 32) (heven : 2 ∣ offset) (hn : n < 2 ^ 31)
    (hdifference : intArith "ALIGN64(offset) - 64" (aligned - 64) = .ok difference)
    (hdvd : 64 ∣ toSizeT (max 0 difference)) (hle : toSizeT (max 0 difference) ≤ offset) :
    ∃ f, makeFilter quantized k offset aligned prevLayer [1, n] = .ok f ∧ ∀ t, Puts f quantized t n ↔ 2 * t = offset := by
  rw [makeFilter, hdifference, ok_bind]
  generalize toSizeT (max 0 difference) = a at hdvd hle
  obtain ⟨padded, hpadded⟩ : ∃ padded, padded = (offset - a) / 2 := ⟨_, rfl⟩
  have hpadded_eq : toSizeT ((offset : Int) - a) / 2 = padded := by
    rw [← Nat.cast_sub hle, toSizeT_natCast (by omega), hpadded]
  have hrows : toSizeT ((padded : Int) + n) = padded + n := by
    rw [← Nat.cast_add]
    exact toSizeT_natCast (by omega)
  have hbound : (padded + n) * n < 2 ^ 63 := by
    calc (padded + n) * n ≤ (padded + n) * 2 ^ 31 := Nat.mul_le_mul_left _ hn.le
      _ < 2 ^ 32 * 2 ^ 31 := Nat.mul_lt_mul_of_pos_right (by omega) (by decide)
  have hweights : toSizeT (((padded + n : Nat) : Int) * n) = (padded + n) * n := by
    rw [← Nat.cast_mul]
    exact toSizeT_natCast (by omega)
  have hstart : toSizeT ((padded : Int) * n) = padded * n + 0 := by
    rw [← Nat.cast_mul]
    exact toSizeT_natCast (by
      have : padded * n ≤ (padded + n) * n := Nat.mul_le_mul_right _ (by omega)
      omega)
  have hstride : toSizeT ((n : Int) + 1) = n + 1 := by
    rw [← Nat.cast_succ]
    exact toSizeT_natCast (by omega)
  obtain ⟨W, hW, hshift⟩ := @writeOnes_isShift n (padded + n) n padded 0 hn (by omega) (by omega) (by omega)
  have hoffset : toSizeT ((a : Int) / 2 * if quantized then 2 else 4) = a / 2 * if quantized then 2 else 4 := by
    cases quantized with
    | true =>
      simp only [if_true]
      unfold toSizeT
      omega
    | false =>
      simp only [Bool.false_eq_true, if_false]
      unfold toSizeT
      omega
  refine ⟨{
    name := "ConcatAlignFilter_" ++ to_string k
    output_offset := to_string ((a / 2 * if quantized then 2 else 4 : Nat))
    original_num_rows := to_string n, weights := W, dims := [1, padded + n] }, ?_, fun t => ?_⟩
  · dsimp only
    rw [hpadded_eq, hrows, hweights, hstart, hstride, hW, ok_bind, hoffset]
    rfl
  · constructor
    · rintro ⟨offset', padded', hparam, hsum, -, hdims, -⟩
      have hpadded' : padded' = padded := by
        have := (List.cons.inj (List.cons.inj hdims).2).1
        omega
      have hoffset' : offset' = a / 2 := by
        have heq := Int.natCast_inj.mp (to_string_injective hparam)
        cases quantized with
        | true =>
          simp only [if_true] at heq
          omega
        | false =>
          simp only [Bool.false_eq_true, if_false] at heq
          omega
      omega
    · intro ht
      refine ⟨a / 2, padded, rfl, by omega, rfl, rfl, hshift.length, fun x r hr => ?_⟩
      rw [hshift.sum_mul (by omega) x hr]
      by_cases hrow : r < padded
      · rw [if_neg (by omega), if_pos hrow]
      · rw [if_pos (by omega), if_neg hrow, Nat.zero_add]

/-! ### The inputs of a concat -/

theorem product_singleton (n : Nat) (hn : n < 2 ^ 64) : product [n] = n := by
  show toSizeT (((1 : Nat) : Int) * n) = n
  rw [Nat.cast_one, one_mul, toSizeT_natCast hn]

section Concat

variable {ALIGN64 : Nat → Nat → Result Int} {name : String} {quantized : Bool}

/-- The offset as a number of bytes that wraps. -/
theorem advance_offset {t skipped n : Nat} (h : skipped ≤ t) :
    (2 * (t - skipped) % 2 ^ 32 + n * 2) % 2 ^ 32 = 2 * (t + n - skipped) % 2 ^ 32 := by
  rw [Nat.mod_add_mod]
  congr 1
  omega

/-- A round that hands on the filters of the others behind its own. -/
theorem exists_cons_iff {rest : Result (Nat × List (Option ConcatAlignFilter))} {f : Option ConcatAlignFilter}
    {t : Nat} {input : Input2D} {inputs : List Input2D} :
    (∃ r, (rest >>= fun rest => (return (rest.1, f :: rest.2) : Result (Nat × List (Option ConcatAlignFilter)))) = .ok r ∧
        Aligned quantized t (input :: inputs) r.2) ↔
      PutAt quantized t input f ∧ ∃ r, rest = .ok r ∧ Aligned quantized (t + input.elements) inputs r.2 := by
  constructor
  · rintro ⟨r, hr, h⟩
    obtain ⟨rest', hrest, hpure⟩ := bind_ok_iff.mp hr
    obtain rfl := pure_ok_iff.mp hpure
    obtain ⟨hput, haligned⟩ := h
    exact ⟨hput, rest', hrest, haligned⟩
  · rintro ⟨hput, r, rfl, haligned⟩
    exact ⟨(r.1, f :: r.2), rfl, hput, haligned⟩

theorem alignInputs_iff (hALIGN64 : ∀ w n, ALIGN64 w n = alignInt w n 64) {inputs : List Input2D}
    {numOfFilterLayers t skipped : Nat} (hskipped : skipped ≤ t) :
    (∃ r, alignInputs ALIGN64 name quantized numOfFilterLayers (2 * (t - skipped) % 2 ^ 32)
        (inputs.map Input2D.toInput) = .ok r ∧ Aligned quantized t inputs r.2) ↔ Fits t skipped inputs := by
  induction inputs generalizing numOfFilterLayers t skipped with
  | nil => exact iff_of_true ⟨_, rfl, trivial⟩ trivial
  | cons input inputs ih =>
    have hsize : product [input.size.toNat] = input.elements := product_singleton _ input.size.isLt
    obtain ⟨offset, hoffset⟩ : ∃ offset, offset = 2 * (t - skipped) % 2 ^ 32 := ⟨_, rfl⟩
    have hlt : offset < 2 ^ 32 := by omega
    have hadvance : (offset + input.elements * 2) % 2 ^ 32 = 2 * (t + input.elements - skipped) % 2 ^ 32 := by
      rw [hoffset]
      exact advance_offset hskipped
    have hskip : offset = 2 * (t + input.elements - (skipped + input.elements)) % 2 ^ 32 := by
      rw [hoffset]
      congr 2
      omega
    have hrounds_iff : Rounds (2 * (t - skipped)) ↔ Rounds offset := by
      unfold Rounds
      rw [hoffset, Nat.mod_mod]
    have hdvd_iff : 64 ∣ 2 * (t - skipped) ↔ 64 ∣ offset := by omega
    rw [← hoffset, Fits, hrounds_iff, List.map_cons, Input2D.toInput, alignInputs, if_neg (by simp)]
    dsimp only [List.tail_cons]
    rw [hsize, hALIGN64]
    by_cases hrounds : Rounds offset
    swap
    · obtain ⟨e, he⟩ := alignInt_overflow hrounds hlt
      rw [he]
      refine iff_of_false ?_ (fun h => hrounds h.1)
      rintro ⟨r, hr, -⟩
      cases hr
    rw [and_iff_right hrounds, alignInt_eq hrounds hlt, ok_bind]
    by_cases hdvd : 64 ∣ offset
    · have hsame : ((((offset + 63) % 2 ^ 32 / 64 * 64 : Nat) : Int)) % 2 ^ 32 = offset := by
        rw [Rounds, Nat.mod_eq_of_lt hlt] at hrounds
        omega
      rw [if_pos hsame, if_pos (hdvd_iff.mpr hdvd), hadvance, exists_cons_iff,
        @ih numOfFilterLayers (t + input.elements) skipped (by omega)]
      rfl
    have hdiffers : ¬((((offset + 63) % 2 ^ 32 / 64 * 64 : Nat) : Int)) % 2 ^ 32 = offset := by omega
    rw [if_neg hdiffers, if_neg fun h => hdvd (hdvd_iff.mp h)]
    by_cases hinput : isInput input.prevLayer
    · rw [if_pos hinput, if_pos hinput, exists_cons_iff, hskip,
        @ih numOfFilterLayers (t + input.elements) (skipped + input.elements) (by omega)]
      exact and_iff_right (.inr hinput)
    rw [if_neg hinput, if_neg hinput, hadvance]
    by_cases hn : input.elements < 2 ^ 31
    · obtain ⟨difference, hdifference, hdown, hle⟩ := exists_aligned64_offset hrounds hlt hdvd
      obtain ⟨f, hf, hputs⟩ := @makeFilter_ok quantized numOfFilterLayers offset input.elements _ difference
        input.prevLayer hlt (by omega) hn hdifference hdown hle
      have hmake : makeFilter quantized numOfFilterLayers offset (((offset + 63) % 2 ^ 32 / 64 * 64 : Nat) : Int)
          input.prevLayer [1, input.size.toNat] = .ok f := hf
      rw [hmake, ok_bind, exists_cons_iff, @ih (numOfFilterLayers + 1) (t + input.elements) skipped (by omega),
        ← and_assoc, ← and_assoc, and_congr_left_iff]
      intro _
      rw [PutAt, hputs, hoffset]
      omega
    · refine iff_of_false ?_ fun h => hn h.2.2.1
      rintro ⟨r, hr, -⟩
      obtain ⟨f, hf, -⟩ := bind_ok_iff.mp hr
      exact hn (lt_of_makeFilter hf)

end Concat

/-! ### The pass -/

/-- No input needs a filter. -/
def NoneNeeded : Nat → List Input2D → Prop
  | _, [] => True
  | t, input :: inputs => (64 ∣ 2 * t ∨ isInput input.prevLayer) ∧ NoneNeeded (t + input.elements) inputs

/-- The pass returns, and every concat has the filters that put its inputs at their places. -/
def AlignsConcats (ALIGN64 : Nat → Nat → Result Int) (disabled quantized : Bool) (layers : List Layer2D) : Prop :=
  ∃ filters, run ALIGN64 disabled quantized (layers.map Layer2D.toLayer) = .ok filters ∧
    List.Forall₂ (fun l fs => isConcat l.type → Aligned quantized 0 l.inputs fs) layers filters

variable {ALIGN64 : Nat → Nat → Result Int} {quantized : Bool}

theorem aligned_none_iff {inputs : List Input2D} {t : Nat} :
    Aligned quantized t inputs (inputs.map fun _ => none) ↔ NoneNeeded t inputs := by
  induction inputs generalizing t with
  | nil => exact Iff.rfl
  | cons input inputs ih =>
    rw [List.map_cons, Aligned, NoneNeeded, ih]
    rfl

theorem alignLayers_iff (hALIGN64 : ∀ w n, ALIGN64 w n = alignInt w n 64) {layers : List Layer2D}
    {numOfFilterLayers : Nat} :
    (∃ filters, alignLayers ALIGN64 quantized numOfFilterLayers (layers.map Layer2D.toLayer) = .ok filters ∧
        List.Forall₂ (fun l fs => isConcat l.type → Aligned quantized 0 l.inputs fs) layers filters) ↔
      ∀ l ∈ layers, isConcat l.type → Fits 0 0 l.inputs := by
  induction layers generalizing numOfFilterLayers with
  | nil => exact iff_of_true ⟨[], rfl, .nil⟩ fun l hl => absurd hl List.not_mem_nil
  | cons l layers ih =>
    rw [List.map_cons, List.forall_mem_cons, alignLayers, show l.toLayer.type = l.type from rfl,
      show l.toLayer.name = l.name from rfl]
    by_cases hconcat : isConcat l.type
    · have hfits := fun k => @alignInputs_iff ALIGN64 l.name quantized hALIGN64 l.inputs k 0 0 le_rfl
      rw [if_pos hconcat, ← hfits numOfFilterLayers]
      constructor
      · rintro ⟨filters, hrun, hall⟩
        obtain ⟨r, hr, hrun⟩ := bind_ok_iff.mp hrun
        obtain ⟨rest, hrest, hpure⟩ := bind_ok_iff.mp hrun
        obtain rfl := pure_ok_iff.mp hpure
        obtain ⟨hhead, htail⟩ := List.forall₂_cons.mp hall
        exact ⟨fun _ => ⟨r, hr, hhead hconcat⟩, ih.mp ⟨rest, hrest, htail⟩⟩
      · rintro ⟨hhead, htail⟩
        obtain ⟨r, hr, haligned⟩ := hhead hconcat
        obtain ⟨rest, hrest, hall⟩ := (@ih r.1).mpr htail
        refine ⟨r.2 :: rest, bind_ok_iff.mpr ⟨r, hr, ?_⟩, .cons (fun _ => haligned) hall⟩
        rw [hrest]
        rfl
    · rw [if_neg hconcat, and_iff_right fun h => absurd h hconcat]
      constructor
      · rintro ⟨filters, hrun, hall⟩
        obtain ⟨rest, hrest, hpure⟩ := bind_ok_iff.mp hrun
        obtain rfl := pure_ok_iff.mp hpure
        exact ih.mp ⟨rest, hrest, (List.forall₂_cons.mp hall).2⟩
      · intro htail
        obtain ⟨rest, hrest, hall⟩ := (@ih numOfFilterLayers).mpr htail
        refine ⟨(l.toLayer.insData.map fun _ => none) :: rest, ?_, .cons (fun h => absurd h hconcat) hall⟩
        rw [hrest]
        rfl

/-- **Concat align filters.** The filters put the inputs of every concat at their places if and only if no input that needs a place
follows a network input that was skipped, and no integer overflows. Where the pass is disabled, no input needs a
filter. -/
theorem alignsConcats_iff (ALIGN64 : Nat → Nat → Result Int) (disabled quantized : Bool) (layers : List Layer2D)
    (hALIGN64 : ∀ w n, ALIGN64 w n = alignInt w n 64) :
    AlignsConcats ALIGN64 disabled quantized layers ↔ ∀ l ∈ layers, isConcat l.type →
      if disabled && !quantized then NoneNeeded 0 l.inputs else Fits 0 0 l.inputs := by
  unfold AlignsConcats run
  by_cases hdisabled : (disabled && !quantized) = true
  · simp only [if_pos hdisabled]
    have hnone : ∀ l : Layer2D, (l.toLayer.insData.map fun _ => (none : Option ConcatAlignFilter)) =
        l.inputs.map fun _ => none := by
      intro l
      rw [Layer2D.toLayer, List.map_map]
      rfl
    constructor
    · rintro ⟨filters, hrun, hall⟩ l hl hconcat
      obtain rfl := pure_ok_iff.mp hrun
      rw [List.map_map, List.forall₂_map_right_iff, List.forall₂_same] at hall
      have haligned := hall l hl hconcat
      rwa [Function.comp_apply, hnone, aligned_none_iff] at haligned
    · intro h
      refine ⟨_, rfl, ?_⟩
      rw [List.map_map, List.forall₂_map_right_iff, List.forall₂_same]
      intro l hl hconcat
      rw [Function.comp_apply, hnone, aligned_none_iff]
      exact h l hl hconcat
  · simp only [if_neg hdisabled]
    exact alignLayers_iff hALIGN64

/-- A concat of three inputs of eight elements; `type` is the type of the layer that makes the second one. -/
def threeInputs (type : String) : List Layer2D :=
  [{ name := "concat", type := "Concat", inputs := [
    { size := 8, prevLayer := { name := "first", type := "ReLU" } },
    { size := 8, prevLayer := { name := "second", type := type } },
    { size := 8, prevLayer := { name := "third", type := "ReLU" } }] }]

/-- The network input takes no room, so the third input is put at its place. -/
theorem third_input_misplaced : ¬AlignsConcats (fun w n => alignInt w n 64) false true (threeInputs "Input") := by
  intro h
  have hfits := (alignLayers_iff fun _ _ => rfl).mp h _ List.mem_cons_self (by decide)
  have hinput : isInput { name := "second", type := "Input" } = true := by decide
  have hfirst : isInput { name := "first", type := "ReLU" } = false := by decide
  have hthird : isInput { name := "third", type := "ReLU" } = false := by decide
  simp [Fits, Rounds, Input2D.elements, hinput, hfirst, hthird] at hfits

theorem alignsConcats_iff_three : AlignsConcats (fun w n => alignInt w n 64) false true (threeInputs "ReLU") ↔
    ∀ l ∈ threeInputs "ReLU", isConcat l.type → if (false && !true) then NoneNeeded 0 l.inputs else Fits 0 0 l.inputs :=
  alignsConcats_iff (fun w n => alignInt w n 64) false true (threeInputs "ReLU") fun _ _ => rfl

end InsertConcatAligningFilterPass

end OpenVino.GNAPlugin
