import OpenVino.InferenceEngine.TensorIterator.NumIteration

/-!
# Shape inference of a TensorIterator

`inferShapesImpl` is `TensorIteratorShapeProp::inferShapesImpl`: it hands the body the shapes of one iteration and
multiplies the body's output sizes by its own `num_iteration`, which is that of the last iterated input, or 1 when
no input is iterated. The reshaper of the body is a parameter, `runNoApply`, which takes the shapes of the body's
inputs by name and gives the shape of a data of the body.

`oneMeaning_iff` compares that number with the one of `getNumIteration`: the two are one number, the count of every
iterated port, exactly when the counts are met by the fold (`CountsMeet`) and the last iterated input has it
(`ShapesMeet`).
-/

namespace OpenVino.InferenceEngine

abbrev RunNoApply := (String → Option SizeVector) → Result (Data → Result SizeVector)

/-- A negative bound counts from the end of the axis. -/
def rangeBound (expression : String) (bound size : Int) : Result Int :=
  if bound < 0 then do
    let shifted ← intArith expression (bound + size)
    intArith expression (shifted + 1)
  else return bound

/-- `std::abs(end - start) / std::abs(port_map.stride)` -/
def rangeCount (port_map : PortMap) (size : Int) : Result Int := do
  let start ← rangeBound "port_map.start + size + 1" port_map.start size
  let end_ ← rangeBound "port_map.end + size + 1" port_map.end_ size
  let length ← intArith "end - start" (end_ - start)
  let length ← intArith "std::abs(end - start)" |length|
  let step ← intArith "std::abs(port_map.stride)" |port_map.stride|
  if step = 0 then .error (.undefinedBehaviour "std::abs(end - start) / std::abs(port_map.stride)")
  else return length / step

/-- The state of the loop over the input ports. -/
structure BodyInputs where
  num_iteration : Int := 1
  newInShapes : String → Option SizeVector := fun _ => none

def inputRound (ti : TensorIterator) (inShapes : List SizeVector) (s : BodyInputs) (port_map : PortMap) :
    Result BodyInputs := do
  let int_data ← elemAt "ti.body.inputs[int_port]" ti.body.inputs port_map.to_
  let shape ← elemAt "inShapes[ext_port]" inShapes port_map.from_
  if port_map.Iterated then
    let size ← elemAt "shape[port_map.axis]" shape port_map.axis
    let num_iteration ← rangeCount port_map (toInt size)
    return {
      num_iteration
      newInShapes := Function.update s.newInShapes int_data.name
        (some (shape.set port_map.axis.toNat (toSizeT port_map.part_size))) }
  else return { s with newInShapes := Function.update s.newInShapes int_data.name (some shape) }

def bodyInputs (ti : TensorIterator) (inShapes : List SizeVector) : Result BodyInputs :=
  ti.input_port_map.foldlM (inputRound ti inShapes) {}

/-- The shape of the body's output for the whole layer. -/
def outputShape (num_iteration : Int) (port_map : PortMap) (shape : SizeVector) : Result SizeVector :=
  if port_map.Iterated then do
    let size ← elemAt "shape[port_map.axis]" shape port_map.axis
    return shape.set port_map.axis.toNat (size * toSizeT num_iteration % 2 ^ 64)
  else return shape

def outputRound (ti : TensorIterator) (getResultShapeFor : Data → Result SizeVector) (num_iteration : Int)
    (outShapes : List SizeVector) (port_map : PortMap) : Result (List SizeVector) := do
  let int_out_data ← elemAt "ti.body.outputs[int_port]" ti.body.outputs port_map.to_
  let shape ← outputShape num_iteration port_map (← getResultShapeFor int_out_data)
  let _ ← elemAt "outShapes[ext_port]" outShapes port_map.from_
  return outShapes.set port_map.from_.toNat shape

def inferShapesImpl (ti : TensorIterator) (runNoApply : RunNoApply) (inShapes : List SizeVector) :
    Result (List SizeVector) := do
  let s ← bodyInputs ti inShapes
  let getResultShapeFor ← runNoApply s.newInShapes
  ti.output_port_map.foldlM (outputRound ti getResultShapeFor s.num_iteration)
    (List.replicate ti.output_port_map.length [])

/-! ### One number of iterations -/

/-- The range of the rule is the whole axis: the bounds have their defaults for the sign of the stride. -/
def PortMap.CoversAxis (rule : PortMap) : Prop :=
  (0 < rule.stride → rule.start = 0 ∧ rule.end_ = -1) ∧ (rule.stride < 0 → rule.start = -1 ∧ rule.end_ = 0)

def TensorIterator.CoversAxes (ti : TensorIterator) : Prop :=
  ∀ rule ∈ ti.input_port_map ++ ti.output_port_map, rule.Iterated → rule.CoversAxis

/-- Along the axis of each iterated output, the inferred shape is `n` times that of the body, for every body. -/
def OutputSizes (ti : TensorIterator) (inShapes : List SizeVector) (n : Int) : Prop :=
  ∀ (runNoApply : RunNoApply) (outShapes : List SizeVector), inferShapesImpl ti runNoApply inShapes = .ok outShapes →
    ∀ s getResultShapeFor, bodyInputs ti inShapes = .ok s → runNoApply s.newInShapes = .ok getResultShapeFor →
    ∀ rule ∈ ti.output_port_map, rule.Iterated → ∀ int_out_data shape size, ti.body.outputs[rule.to_.toNat]? = some int_out_data →
      getResultShapeFor int_out_data = .ok shape → shape[rule.axis.toNat]? = some size →
    ∃ out, outShapes[rule.from_.toNat]? = some out ∧ out[rule.axis.toNat]? = some (size * toSizeT n % 2 ^ 64)

/-- `getNumIteration` returns the count of every iterated port, or -1 when they have none in common, and shape
inference repeats the body as often. -/
def OneMeaning (ti : TensorIterator) (inShapes : List SizeVector) : Prop :=
  (∀ r, getNumIteration ti = .ok r → OneCount ti.counts r) ∧
    ∀ n, getNumIteration ti = .ok n → 0 ≤ n → ti.CoversAxes → OutputSizes ti inShapes n

/-- Every port and data that the rules name is there, and every output of the layer has one rule. -/
structure TensorIterator.WellFormed (ti : TensorIterator) (inShapes : List SizeVector) : Prop extends ti.Readable where
  alive : ti.insData.map (Option.map Data.dims) = inShapes.map some
  bodyInputs : ∀ rule ∈ ti.input_port_map, 0 ≤ rule.to_ ∧ rule.to_.toNat < ti.body.inputs.length
  bodyOutputs : ∀ rule ∈ ti.output_port_map, 0 ≤ rule.to_ ∧ rule.to_.toNat < ti.body.outputs.length
  nodup : (ti.output_port_map.map PortMap.from_).Nodup
  length : ti.output_port_map.length = ti.outData.length

/-- The number of iterations of shape inference when the ranges are whole axes. -/
def TensorIterator.shapeCount (ti : TensorIterator) : Nat :=
  match (ti.input_port_map.filter PortMap.Iterated).getLast? with
  | some rule => (toInt (rule.size ti.lockInsData)).natAbs / rule.stride.natAbs
  | none => 1

/-- The last iterated input has the count of all iterated ports, or, without one, that count is 1. Nothing is asked
where the sizes leave `int` or no output is iterated. -/
def TensorIterator.ShapesMeet (ti : TensorIterator) : Prop :=
  ∀ n < 2 ^ 31, (∀ c ∈ ti.counts, c = n) → ti.CoversAxes → (∃ rule ∈ ti.output_port_map, rule.Iterated) →
    (∀ rule ∈ ti.input_port_map, rule.Iterated → toInt (rule.size ti.lockInsData) ≠ -2 ^ 31) → ti.shapeCount = n

/-! ### The loop over the inputs -/

theorem rangeBound_zero (e : String) (size : Int) : rangeBound e 0 size = .ok 0 := by
  unfold rangeBound
  rw [if_neg (by omega)]
  rfl

theorem rangeBound_end {e : String} {size : Int} (hfit : FitsInt size) (hmin : size ≠ -2 ^ 31) :
    rangeBound e (-1) size = .ok size := by
  obtain ⟨hle, hlt⟩ := hfit
  have hshift : intArith e (-1 + size) = .ok (-1 + size) := intArith_ok_iff.mpr ⟨⟨by omega, by omega⟩, rfl⟩
  have hback : intArith e (-1 + size + 1) = .ok size := intArith_ok_iff.mpr ⟨⟨by omega, by omega⟩, by omega⟩
  unfold rangeBound
  rw [if_pos (by omega), hshift]
  exact hback

theorem size_ne_of_rangeBound {e : String} {size s : Int} (h : rangeBound e (-1) size = .ok s) : size ≠ -2 ^ 31 := by
  unfold rangeBound at h
  rw [if_pos (by omega), bind_ok_iff] at h
  obtain ⟨shifted, hshifted, -⟩ := h
  obtain ⟨⟨hle, -⟩, -⟩ := intArith_ok_iff.mp hshifted
  omega

theorem rangeCount_eq {rule : PortMap} {size : Int} (hcov : rule.CoversAxis) (hne : rule.stride ≠ 0)
    (hmag : |rule.stride| < 2 ^ 31) (hfit : FitsInt size) (hmin : size ≠ -2 ^ 31) :
    rangeCount rule size = .ok (size.natAbs / rule.stride.natAbs : Nat) := by
  have hbounds : ∃ start end_, rangeBound "port_map.start + size + 1" rule.start size = .ok start ∧
      rangeBound "port_map.end + size + 1" rule.end_ size = .ok end_ ∧ (end_ - start).natAbs = size.natAbs := by
    rcases lt_or_gt_of_ne hne with hneg | hpos
    · obtain ⟨hstart, hend⟩ := hcov.2 hneg
      rw [hstart, hend]
      exact ⟨size, 0, rangeBound_end hfit hmin, rangeBound_zero _ _, by omega⟩
    · obtain ⟨hstart, hend⟩ := hcov.1 hpos
      rw [hstart, hend]
      exact ⟨0, size, rangeBound_zero _ _, rangeBound_end hfit hmin, by omega⟩
  obtain ⟨start, end_, hstart, hend, hlength⟩ := hbounds
  obtain ⟨hle, hlt⟩ := hfit
  rw [Int.abs_eq_natAbs] at hmag
  have hdiff : intArith "end - start" (end_ - start) = .ok (end_ - start) :=
    intArith_ok_iff.mpr ⟨⟨by omega, by omega⟩, rfl⟩
  have habs : intArith "std::abs(end - start)" |end_ - start| = .ok (size.natAbs : Int) := by
    rw [Int.abs_eq_natAbs, hlength]
    exact intArith_ok_iff.mpr ⟨⟨by omega, by omega⟩, rfl⟩
  have hstep : intArith "std::abs(port_map.stride)" |rule.stride| = .ok (rule.stride.natAbs : Int) := by
    rw [Int.abs_eq_natAbs]
    exact intArith_ok_iff.mpr ⟨⟨by omega, hmag⟩, rfl⟩
  unfold rangeCount
  rw [hstart, hend]
  simp only [bind, Except.bind, hdiff, habs, hstep]
  rw [if_neg (by omega)]
  rfl

theorem size_ne_of_rangeCount {rule : PortMap} {size k : Int} (hcov : rule.CoversAxis) (hne : rule.stride ≠ 0)
    (h : rangeCount rule size = .ok k) : size ≠ -2 ^ 31 := by
  simp only [rangeCount, bind_ok_iff] at h
  obtain ⟨start, hstart, end_, hend, -⟩ := h
  rcases lt_or_gt_of_ne hne with hneg | hpos
  · rw [(hcov.2 hneg).1] at hstart
    exact size_ne_of_rangeBound hstart
  · rw [(hcov.1 hpos).2] at hend
    exact size_ne_of_rangeBound hend

variable {ti : TensorIterator} {inShapes : List SizeVector} {rule : PortMap}

namespace TensorIterator.WellFormed

/-- The shape of an input is that of its data, and it has the axis of the rule. -/
theorem inShapes_eq (h : ti.WellFormed inShapes) (hr : rule ∈ ti.input_port_map) :
    ∃ shape, elemAt "inShapes[ext_port]" inShapes rule.from_ = .ok shape ∧
      (rule.Iterated → elemAt "shape[port_map.axis]" shape rule.axis = .ok (rule.size ti.lockInsData)) := by
  obtain ⟨d, hd⟩ := (h.inputs rule hr).found
  have hlock := hd
  simp only [TensorIterator.lockInsData, bind_ok_iff, elemAt_ok_iff] at hlock
  obtain ⟨data, ⟨hpos, hdata⟩, hlock⟩ := hlock
  cases data with
  | none => cases hlock
  | some data =>
    obtain rfl : data = d := by simpa [pure, Except.pure] using hlock
    refine ⟨data.dims, elemAt_ok_iff.mpr ⟨hpos, ?_⟩, fun hit => ?_⟩
    · have hshape := congrArg (·[rule.from_.toNat]?) h.alive
      simpa [hdata, eq_comm] using hshape
    · obtain ⟨haxis, hlt⟩ := (h.inputs rule hr).axis data hd hit
      rw [elemAt_ok_iff, PortMap.size, hd]
      exact ⟨haxis, by simp [hlt]⟩

theorem inputRound_ok (h : ti.WellFormed inShapes) (hcov : ti.CoversAxes) (hr : rule ∈ ti.input_port_map)
    (hmin : rule.Iterated → toInt (rule.size ti.lockInsData) ≠ -2 ^ 31) (s : BodyInputs) :
    ∃ s', inputRound ti inShapes s rule = .ok s' ∧ s'.num_iteration =
      if rule.Iterated then (((toInt (rule.size ti.lockInsData)).natAbs / rule.stride.natAbs : Nat) : Int)
      else s.num_iteration := by
  obtain ⟨hto, hlt⟩ := h.bodyInputs rule hr
  obtain ⟨shape, hshape, haxis⟩ := h.inShapes_eq hr
  have hbody : elemAt "ti.body.inputs[int_port]" ti.body.inputs rule.to_ = .ok ti.body.inputs[rule.to_.toNat] :=
    elemAt_ok_iff.mpr ⟨hto, List.getElem?_eq_getElem hlt⟩
  unfold inputRound
  rw [hbody, hshape]
  simp only [bind, Except.bind]
  by_cases hit : rule.Iterated
  · obtain ⟨hne, hmag⟩ := (h.inputs rule hr).stride hit
    have hcount := rangeCount_eq (hcov rule (List.mem_append_left _ hr) hit) hne hmag (fitsInt_toInt _) (hmin hit)
    rw [if_pos hit, haxis hit]
    simp only [hcount, if_pos hit]
    exact ⟨_, rfl, rfl⟩
  · rw [if_neg hit, if_neg hit]
    exact ⟨_, rfl, rfl⟩

/-- **The last iterated input decides** the number of iterations of shape inference. -/
theorem bodyInputs_ok (h : ti.WellFormed inShapes) (hcov : ti.CoversAxes)
    (hmin : ∀ rule ∈ ti.input_port_map, rule.Iterated → toInt (rule.size ti.lockInsData) ≠ -2 ^ 31) :
    ∃ s, OpenVino.InferenceEngine.bodyInputs ti inShapes = .ok s ∧ s.num_iteration = ti.shapeCount := by
  suffices ∀ (rules : List PortMap) (s : BodyInputs), (∀ rule ∈ rules, rule ∈ ti.input_port_map) →
      ∃ s', rules.foldlM (inputRound ti inShapes) s = .ok s' ∧ s'.num_iteration =
        match (rules.filter PortMap.Iterated).getLast? with
        | some rule => (((toInt (rule.size ti.lockInsData)).natAbs / rule.stride.natAbs : Nat) : Int)
        | none => s.num_iteration by
    obtain ⟨s, hs, hnum⟩ := this ti.input_port_map {} fun _ hr => hr
    refine ⟨s, hs, ?_⟩
    rw [hnum, TensorIterator.shapeCount]
    cases (ti.input_port_map.filter PortMap.Iterated).getLast? <;> rfl
  intro rules
  induction rules with
  | nil => exact fun s _ => ⟨s, rfl, rfl⟩
  | cons rule rules ih =>
    intro s hsub
    have hr := hsub rule List.mem_cons_self
    obtain ⟨s₁, hround, hnum₁⟩ := h.inputRound_ok hcov hr (hmin rule hr) s
    obtain ⟨s', hrest, hnum⟩ := ih s₁ fun r hr => hsub r (List.mem_cons_of_mem rule hr)
    refine ⟨s', by rw [List.foldlM_cons, hround]; exact hrest, ?_⟩
    rw [hnum]
    by_cases hit : rule.Iterated
    · rw [List.filter_cons_of_pos (by simpa using hit), List.getLast?_cons]
      cases (rules.filter PortMap.Iterated).getLast? with
      | none => rw [hnum₁, if_pos hit]; rfl
      | some last => rfl
    · rw [List.filter_cons_of_neg (by simpa using hit), hnum₁, if_neg hit]

theorem size_ne_of_bodyInputs {s : BodyInputs} (h : ti.WellFormed inShapes) (hcov : ti.CoversAxes)
    (hs : OpenVino.InferenceEngine.bodyInputs ti inShapes = .ok s) : ∀ rule ∈ ti.input_port_map, rule.Iterated →
      toInt (rule.size ti.lockInsData) ≠ -2 ^ 31 := by
  suffices hall : ∀ rule ∈ ti.input_port_map, rule ∈ ti.input_port_map → rule.Iterated →
      toInt (rule.size ti.lockInsData) ≠ -2 ^ 31 from fun rule hr => hall rule hr hr
  refine foldlM_ok_induct (I := fun pre _ => ∀ rule ∈ pre, rule ∈ ti.input_port_map → rule.Iterated →
    toInt (rule.size ti.lockInsData) ≠ -2 ^ 31) hs (by simp) ?_
  intro pre rule post s s' _ hpre hround r hr hmem hit
  rcases List.mem_append.mp hr with hr | hr
  · exact hpre r hr hmem hit
  obtain rfl := List.mem_singleton.mp hr
  obtain ⟨shape, hshape, haxis⟩ := h.inShapes_eq hmem
  simp only [inputRound, bind_ok_iff, if_pos hit, hshape] at hround
  obtain ⟨-, -, shape', hshape', size, hsize, k, hcount, -⟩ := hround
  cases hshape'
  rw [haxis hit] at hsize
  cases hsize
  exact size_ne_of_rangeCount (hcov r (List.mem_append_left _ hmem) hit) ((h.inputs r hmem).stride hit).1 hcount

end TensorIterator.WellFormed

/-! ### The loop over the outputs -/

variable {getResultShapeFor : Data → Result SizeVector} {num_iteration : Int} {outShapes outShapes' : List SizeVector}

theorem outputRound_ok (h : outputRound ti getResultShapeFor num_iteration outShapes rule = .ok outShapes') :
    ∃ int_out_data shape out, ti.body.outputs[rule.to_.toNat]? = some int_out_data ∧
      getResultShapeFor int_out_data = .ok shape ∧ outputShape num_iteration rule shape = .ok out ∧
      rule.from_.toNat < outShapes.length ∧ outShapes' = outShapes.set rule.from_.toNat out := by
  simp only [outputRound, bind_ok_iff, pure_ok_iff, elemAt_ok_iff] at h
  obtain ⟨int_out_data, ⟨-, hdata⟩, shape, hshape, out, hout, old, ⟨-, hold⟩, rfl⟩ := h
  exact ⟨int_out_data, shape, out, hdata, hshape, hout, (List.getElem?_eq_some_iff.mp hold).1, rfl⟩

/-- The shape of each output of the layer is the one that its own rule has written. -/
theorem foldlM_outputRound (hpos : ∀ rule ∈ ti.output_port_map, 0 ≤ rule.from_)
    (hnd : (ti.output_port_map.map PortMap.from_).Nodup)
    (h : ti.output_port_map.foldlM (outputRound ti getResultShapeFor num_iteration) outShapes = .ok outShapes') :
    ∀ rule ∈ ti.output_port_map, ∃ int_out_data shape out, ti.body.outputs[rule.to_.toNat]? = some int_out_data ∧
      getResultShapeFor int_out_data = .ok shape ∧ outputShape num_iteration rule shape = .ok out ∧
      outShapes'[rule.from_.toNat]? = some out := by
  refine foldlM_ok_induct (I := fun pre outShapes => ∀ rule ∈ pre, ∃ int_out_data shape out,
    ti.body.outputs[rule.to_.toNat]? = some int_out_data ∧ getResultShapeFor int_out_data = .ok shape ∧
    outputShape num_iteration rule shape = .ok out ∧ outShapes[rule.from_.toNat]? = some out) h (by simp) ?_
  intro pre rule post outShapes outShapes' hl hpre hround r hr
  obtain ⟨int_out_data, shape, out, hdata, hshape, hout, hlt, rfl⟩ := outputRound_ok hround
  rcases List.mem_append.mp hr with hr | hr
  · obtain ⟨d, sh, o, hd, hsh, ho, hwritten⟩ := hpre r hr
    refine ⟨d, sh, o, hd, hsh, ho, ?_⟩
    have hne : r.from_ ≠ rule.from_ := by
      rw [hl, List.map_append, List.map_cons, List.nodup_append'] at hnd
      intro heq
      exact hnd.2.2 (List.mem_map_of_mem hr) (heq ▸ List.mem_cons_self)
    have hr₀ := hpos r (hl ▸ List.mem_append_left _ hr)
    have hrule := hpos rule (hl ▸ List.mem_append_right pre List.mem_cons_self)
    rw [List.getElem?_set_ne (by omega)]
    exact hwritten
  · obtain rfl := List.mem_singleton.mp hr
    exact ⟨int_out_data, shape, out, hdata, hshape, hout, List.getElem?_set_self hlt⟩

/-- **The inferred sizes** along the axes of the iterated outputs. -/
theorem outputSizes_of_num (h : ti.WellFormed inShapes) {n : Int}
    (hnum : ∀ s, bodyInputs ti inShapes = .ok s → (∃ rule ∈ ti.output_port_map, rule.Iterated) → s.num_iteration = n) :
    OutputSizes ti inShapes n := by
  intro runNoApply outShapes hinfer s getResultShapeFor hs hrun rule hr hit int_out_data shape size hdata hshape hsize
  simp only [inferShapesImpl, bind_ok_iff] at hinfer
  obtain ⟨s', hs', getResult, hget, hloop⟩ := hinfer
  rw [hs] at hs'
  cases hs'
  rw [hrun] at hget
  cases hget
  have hpos : ∀ rule ∈ ti.output_port_map, 0 ≤ rule.from_ := by
    intro r hr
    obtain ⟨d, hd⟩ := (h.outputs r hr).found
    exact (elemAt_ok_iff.mp hd).1
  obtain ⟨d, sh, out, hd, hsh, hout, hwritten⟩ := foldlM_outputRound hpos h.nodup hloop rule hr
  rw [hdata] at hd
  cases hd
  rw [hshape] at hsh
  cases hsh
  simp only [outputShape, if_pos hit, bind_ok_iff, pure_ok_iff, elemAt_ok_iff] at hout
  obtain ⟨size', ⟨-, hsize'⟩, rfl⟩ := hout
  rw [hsize] at hsize'
  cases hsize'
  refine ⟨_, hwritten, ?_⟩
  rw [List.getElem?_set_self (List.getElem?_eq_some_iff.mp hsize).1, hnum s hs ⟨rule, hr, hit⟩]

/-- A rank that has the axes of all rules. -/
def rankAbove (rules : List PortMap) : Nat := (rules.map fun rule => rule.axis.toNat + 1).sum

theorem axis_lt_rankAbove {rules : List PortMap} (hr : rule ∈ rules) : rule.axis.toNat < rankAbove rules :=
  Nat.lt_of_succ_le (List.le_sum_of_mem (List.mem_map_of_mem (f := fun rule => rule.axis.toNat + 1) hr))

/-- The outputs of a body that have size 1 along every axis. -/
def unitShapes (ti : TensorIterator) : Data → Result SizeVector :=
  fun _ => .ok (List.replicate (rankAbove ti.output_port_map) 1)

theorem exists_outputRound (h : ti.WellFormed inShapes) (hr : rule ∈ ti.output_port_map)
    (hlen : outShapes.length = ti.output_port_map.length) :
    ∃ outShapes', outputRound ti (unitShapes ti) num_iteration outShapes rule = .ok outShapes' ∧
      outShapes'.length = ti.output_port_map.length := by
  obtain ⟨hto, hlt⟩ := h.bodyOutputs rule hr
  obtain ⟨d, hd⟩ := (h.outputs rule hr).found
  obtain ⟨hfrom, hget⟩ := elemAt_ok_iff.mp hd
  have hlt' := (List.getElem?_eq_some_iff.mp hget).1
  rw [← h.length, ← hlen] at hlt'
  have hbody : elemAt "ti.body.outputs[int_port]" ti.body.outputs rule.to_ = .ok ti.body.outputs[rule.to_.toNat] :=
    elemAt_ok_iff.mpr ⟨hto, List.getElem?_eq_getElem hlt⟩
  have hold : elemAt "outShapes[ext_port]" outShapes rule.from_ = .ok outShapes[rule.from_.toNat] :=
    elemAt_ok_iff.mpr ⟨hfrom, List.getElem?_eq_getElem hlt'⟩
  have hshape : ∃ out, outputShape num_iteration rule (List.replicate (rankAbove ti.output_port_map) 1) = .ok out := by
    unfold outputShape
    by_cases hit : rule.Iterated
    · have haxis : elemAt "shape[port_map.axis]" (List.replicate (rankAbove ti.output_port_map) 1) rule.axis =
          .ok 1 := by
        refine elemAt_ok_iff.mpr ⟨((h.outputs rule hr).axis d hd hit).1, ?_⟩
        rw [List.getElem?_replicate, if_pos (axis_lt_rankAbove hr)]
      rw [if_pos hit, haxis]
      exact ⟨_, rfl⟩
    · rw [if_neg hit]
      exact ⟨_, rfl⟩
  obtain ⟨out, hout⟩ := hshape
  refine ⟨outShapes.set rule.from_.toNat out, ?_, by rw [List.length_set, hlen]⟩
  unfold outputRound unitShapes
  simp only [hbody, bind, Except.bind, hout, hold]
  rfl

/-- A body whose outputs have size 1 along every axis shows the number of iterations itself. -/
theorem exists_inferShapesImpl (h : ti.WellFormed inShapes) {s : BodyInputs} (hs : bodyInputs ti inShapes = .ok s) :
    ∃ outShapes, inferShapesImpl ti (fun _ => .ok (unitShapes ti)) inShapes = .ok outShapes := by
  suffices ∀ (rules : List PortMap) (outShapes : List SizeVector), (∀ rule ∈ rules, rule ∈ ti.output_port_map) →
      outShapes.length = ti.output_port_map.length →
      ∃ outShapes', rules.foldlM (outputRound ti (unitShapes ti) s.num_iteration) outShapes = .ok outShapes' by
    obtain ⟨outShapes, hout⟩ := this ti.output_port_map (List.replicate ti.output_port_map.length [])
      (fun _ hr => hr) (by simp)
    refine ⟨outShapes, ?_⟩
    simp only [inferShapesImpl, hs, bind, Except.bind]
    exact hout
  intro rules
  induction rules with
  | nil => exact fun outShapes _ _ => ⟨outShapes, rfl⟩
  | cons rule rules ih =>
    intro outShapes hsub hlen
    obtain ⟨outShapes₁, hround, hlen₁⟩ := exists_outputRound h (hsub rule List.mem_cons_self) hlen
    obtain ⟨outShapes', hrest⟩ := ih outShapes₁ (fun r hr => hsub r (List.mem_cons_of_mem rule hr)) hlen₁
    exact ⟨outShapes', by rw [List.foldlM_cons, hround]; exact hrest⟩

/-! ### The comparison -/

theorem mem_counts_of_output (hr : rule ∈ ti.output_port_map) (hit : rule.Iterated) :
    rule.count ti.getOutData ∈ ti.counts :=
  List.mem_append_right _ (List.mem_map_of_mem (List.mem_filter.mpr ⟨hr, by simpa using hit⟩))

theorem shapeCount_lt (ti : TensorIterator) : ti.shapeCount < 2 ^ 64 := by
  unfold TensorIterator.shapeCount
  cases (ti.input_port_map.filter PortMap.Iterated).getLast? with
  | none => norm_num
  | some rule =>
    obtain ⟨hle, hlt⟩ := fitsInt_toInt (rule.size ti.lockInsData)
    have hdiv := Nat.div_le_self (toInt (rule.size ti.lockInsData)).natAbs rule.stride.natAbs
    simp only
    omega

/-- When the sizes are right for every body, the last iterated input has the common count. -/
theorem shapesMeet_of_outputSizes (h : ti.WellFormed inShapes)
    (hsizes : ∀ n, getNumIteration ti = .ok n → 0 ≤ n → ti.CoversAxes → OutputSizes ti inShapes n) :
    ti.ShapesMeet := by
  rintro n hn hall hcov ⟨rule, hr, hit⟩ hmin
  obtain ⟨r, hfold, hpos, hr'⟩ := foldCounts_of_common hn hall
  have hcount := mem_counts_of_output hr hit
  have hrn : r = n := by
    rw [← hr' _ hcount, hall _ hcount]
  have hnum : getNumIteration ti = .ok r := by
    rw [getNumIteration_eq h.toReadable, hfold]
    rfl
  obtain ⟨s, hs, hs_num⟩ := h.bodyInputs_ok hcov hmin
  obtain ⟨outShapes, hinfer⟩ := exists_inferShapesImpl h hs
  obtain ⟨-, hlt⟩ := h.bodyOutputs rule hr
  -- the body output of size 1 is scaled by either number
  have haxis : (List.replicate (rankAbove ti.output_port_map) 1)[rule.axis.toNat]? = some 1 := by
    rw [List.getElem?_replicate, if_pos (axis_lt_rankAbove hr)]
  obtain ⟨out, hout, hsize⟩ := hsizes r hnum hpos hcov _ outShapes hinfer s _ hs rfl rule hr hit _ _ 1
    (List.getElem?_eq_getElem hlt) rfl haxis
  have hshape := outputSizes_of_num (n := ti.shapeCount) h fun s' hs' _ => by
    rw [hs] at hs'
    cases hs'
    exact hs_num
  obtain ⟨out', hout', hsize'⟩ := hshape _ outShapes hinfer s _ hs rfl rule hr hit _ _ 1
    (List.getElem?_eq_getElem hlt) rfl haxis
  rw [hout] at hout'
  cases hout'
  rw [hsize, hrn, toSizeT_natCast (by omega), toSizeT_natCast (shapeCount_lt ti)] at hsize'
  have hk := shapeCount_lt ti
  have heq := Option.some_inj.mp hsize'
  omega

/-- **One number of iterations**, exactly: the fold over the ports meets the counts, and the last iterated input
has the count that all ports share. -/
theorem oneMeaning_iff (h : ti.WellFormed inShapes) :
    OneMeaning ti inShapes ↔ CountsMeet ti.counts ∧ ti.ShapesMeet := by
  constructor
  · rintro ⟨hcount, hsizes⟩
    exact ⟨(oneCount_iff ti.counts).mp (hcount _ (getNumIteration_eq h.toReadable)), shapesMeet_of_outputSizes h hsizes⟩
  · rintro ⟨hmeet, hshapes⟩
    have hone : ∀ r, getNumIteration ti = .ok r → OneCount ti.counts r ∧ FitsInt r := by
      intro r hr
      rw [getNumIteration_eq h.toReadable] at hr
      cases hr
      exact ⟨(oneCount_iff ti.counts).mpr hmeet, fitsInt_foldCounts ti.counts⟩
    refine ⟨fun r hr => (hone r hr).1, fun n hn hpos hcov => outputSizes_of_num h fun s hs hout => ?_⟩
    obtain ⟨hcount, -, hlt⟩ := hone n hn
    rcases hcount with ⟨-, hall⟩ | ⟨hneg, -⟩
    · have hmin := h.size_ne_of_bodyInputs hcov hs
      obtain ⟨s', hs', hnum⟩ := h.bodyInputs_ok hcov hmin
      rw [hs] at hs'
      cases hs'
      rw [hnum, hshapes n.toNat (by omega) (fun c hc => by have := hall c hc; omega) hcov hout hmin]
      omega
    · omega

/-- An input of 5 slices and an output that collects them. -/
def evenPorts : TensorIterator where
  insData := [some ⟨"x", [5, 4]⟩]
  outData := [⟨"z", [5, 4]⟩]
  input_port_map := [{ from_ := 0, to_ := 0, axis := 0 }]
  output_port_map := [{ from_ := 0, to_ := 0, axis := 0, stride := -1, start := -1, end_ := 0 }]
  body := { inputs := [⟨"a", [1, 4]⟩], outputs := [⟨"c", [1, 4]⟩] }

theorem oneMeaning_iff_evenPorts : OneMeaning evenPorts [[5, 4]] := by
  have hcounts : evenPorts.counts = [5, 5] := by decide
  refine (oneMeaning_iff ?_).mpr ⟨.inl ⟨5, by norm_num, by simp [hcounts]⟩, fun n _ hall _ _ _ => ?_⟩
  · constructor
    · constructor
      · intro rule hr
        obtain rfl := List.mem_singleton.mp hr
        exact ⟨⟨_, rfl⟩, by rintro d ⟨⟩ -; decide, by decide⟩
      · intro rule hr
        obtain rfl := List.mem_singleton.mp hr
        exact ⟨⟨_, rfl⟩, by rintro d ⟨⟩ -; decide, by decide⟩
    all_goals decide
  · rw [hcounts] at hall
    rw [← hall 5 List.mem_cons_self]
    decide

/-- Two iterated inputs of 1 and 5 slices. -/
def mixedInputs : TensorIterator where
  insData := [some ⟨"x", [1, 4]⟩, some ⟨"y", [5, 4]⟩]
  outData := [⟨"z", [4]⟩]
  input_port_map := [{ from_ := 0, to_ := 0, axis := 0 }, { from_ := 1, to_ := 1, axis := 0 }]
  output_port_map := [{ from_ := 0, to_ := 0 }]
  body := { inputs := [⟨"a", [1, 4]⟩, ⟨"b", [1, 4]⟩], outputs := [⟨"c", [4]⟩] }

/-- The counts 1 and 5 are taken for 5 iterations. -/
theorem mixedInputs_not_oneMeaning :
    getNumIteration mixedInputs = .ok 5 ∧ mixedInputs.counts = [1, 5] ∧ ¬ OneMeaning mixedInputs [[1, 4], [5, 4]] := by
  have hnum : getNumIteration mixedInputs = .ok 5 := by decide
  have hcounts : mixedInputs.counts = [1, 5] := by decide
  refine ⟨hnum, hcounts, fun h => ?_⟩
  rcases h.1 5 hnum with ⟨-, hall⟩ | ⟨hneg, -⟩
  · rw [hcounts] at hall
    exact absurd (hall 1 List.mem_cons_self) (by decide)
  · exact absurd hneg (by decide)

end OpenVino.InferenceEngine
