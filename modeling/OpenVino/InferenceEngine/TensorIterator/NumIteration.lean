import OpenVino.InferenceEngine.SizeT

/-!
# The TensorIterator layer and its number of iterations

The layer repeats its `body` over slices of its inputs. A `PortMap` rule ties an external port `from_` of the
layer to a port `to_` of the body, and when its `axis` is not -1 the body gets the tensor in parts of `stride`
along that axis.

`getNumIteration` folds over the iterated ports of both maps, first the inputs. Its `iter_num` starts at 1, which
also means that no port has set it yet: a port whose count is 1 leaves it unset, and the next port overwrites it
instead of being compared. `getNumIteration_eq` reduces the two loops to `foldCounts` on the list of counts,
`foldCounts_eq` says what that fold returns, and `oneCount_iff` is the exact condition under which the returned
value is the count of every iterated port, or -1 when they have none in common.
-/

namespace OpenVino.InferenceEngine

/-! ### The layer -/

structure Data where
  name : String
  dims : SizeVector

structure PortMap where
  from_ : Int
  to_ : Int
  axis : Int := -1
  stride : Int := 1
  start : Int := 0
  end_ : Int := -1
  part_size : Int := 1

/-- The rule cuts its tensor into the slices of the iterations. -/
def PortMap.Iterated (rule : PortMap) : Prop := rule.axis ≠ -1

instance (rule : PortMap) : Decidable rule.Iterated := inferInstanceAs (Decidable (¬ _))

structure Body where
  inputs : List Data
  outputs : List Data

/-- A data of `insData` is `none` once it has expired. -/
structure TensorIterator where
  insData : List (Option Data)
  outData : List Data
  input_port_map : List PortMap
  output_port_map : List PortMap
  body : Body

namespace TensorIterator

variable (ti : TensorIterator)

def lockInsData (i : Int) : Result Data := do
  match ← elemAt "ti.insData[rule.from]" ti.insData i with
  | none => .error (.assertionFailed "data")
  | some data => return data

def getOutData (i : Int) : Result Data := elemAt "ti.outData[rule.from]" ti.outData i

end TensorIterator

/-! ### The number of iterations -/

/-- `size / step` of a rule over a tensor of the given dims. -/
def sizeByStep (rule : PortMap) (dims : SizeVector) : Result Nat := do
  let size ← elemAt "shape[rule.axis]" dims rule.axis
  let step ← intArith "std::abs(rule.stride)" |rule.stride|
  if step = 0 then .error (.undefinedBehaviour "size / step") else return size / toSizeT step

/-- One of the two loops; `none` is the early return of -1. -/
def countRules (data : Int → Result Data) : List PortMap → Int → Result (Option Int)
  | [], iter_num => return some iter_num
  | rule :: rules, iter_num =>
    if rule.Iterated then do
      let cur_iter_size ← sizeByStep rule (← data rule.from_).dims
      if iter_num = 1 then countRules data rules (toInt cur_iter_size)
      else if toSizeT iter_num ≠ cur_iter_size then return none
      else countRules data rules iter_num
    else countRules data rules iter_num

def getNumIteration (ti : TensorIterator) : Result Int := do
  match ← countRules ti.lockInsData ti.input_port_map 1 with
  | none => return -1
  | some iter_num =>
    match ← countRules ti.getOutData ti.output_port_map iter_num with
    | none => return -1
    | some iter_num => return iter_num

/-! ### The counts of the ports -/

/-- What `getNumIteration` reads of a rule is there: the data, its axis, and a stride that has a magnitude. -/
structure PortMap.Readable (data : Int → Result Data) (rule : PortMap) : Prop where
  found : ∃ d, data rule.from_ = .ok d
  axis : ∀ d, data rule.from_ = .ok d → rule.Iterated → 0 ≤ rule.axis ∧ rule.axis.toNat < d.dims.length
  stride : rule.Iterated → rule.stride ≠ 0 ∧ |rule.stride| < 2 ^ 31

/-- The size of the data along the rule's axis. -/
def PortMap.size (data : Int → Result Data) (rule : PortMap) : Nat :=
  match data rule.from_ with
  | .ok d => d.dims.getD rule.axis.toNat 0
  | .error _ => 0

/-- The number of whole strides along the rule's axis. -/
def PortMap.count (data : Int → Result Data) (rule : PortMap) : Nat := rule.size data / rule.stride.natAbs

/-- The counts of the iterated ports, inputs first. -/
def TensorIterator.counts (ti : TensorIterator) : List Nat :=
  (ti.input_port_map.filter PortMap.Iterated).map (PortMap.count ti.lockInsData) ++
    (ti.output_port_map.filter PortMap.Iterated).map (PortMap.count ti.getOutData)

theorem sizeByStep_eq {data : Int → Result Data} {rule : PortMap} (h : rule.Readable data) (hit : rule.Iterated) :
    ∃ d, data rule.from_ = .ok d ∧ sizeByStep rule d.dims = .ok (rule.count data) := by
  obtain ⟨d, hd⟩ := h.found
  obtain ⟨hpos, hlt⟩ := h.axis d hd hit
  obtain ⟨hne, hmag⟩ := h.stride hit
  refine ⟨d, hd, ?_⟩
  have hsize : elemAt "shape[rule.axis]" d.dims rule.axis = .ok (rule.size data) := by
    rw [elemAt_ok_iff, PortMap.size, hd]
    exact ⟨hpos, by simp [hlt]⟩
  have habs : |rule.stride| = (rule.stride.natAbs : Int) := Int.abs_eq_natAbs rule.stride
  rw [habs] at hmag
  have hstep : intArith "std::abs(rule.stride)" |rule.stride| = .ok (rule.stride.natAbs : Int) := by
    rw [habs, intArith_ok_iff]
    exact ⟨⟨by omega, hmag⟩, rfl⟩
  unfold sizeByStep
  rw [hsize, hstep]
  simp only [bind, Except.bind]
  rw [if_neg (by omega), toSizeT_natCast (by omega)]
  rfl

/-! ### The fold over the counts -/

/-- The loops on the counts alone. -/
def foldCounts : List Nat → Int → Option Int
  | [], iter_num => some iter_num
  | c :: cs, iter_num =>
    if iter_num = 1 then foldCounts cs (toInt c)
    else if toSizeT iter_num ≠ c then none
    else foldCounts cs iter_num

theorem countRules_eq {data : Int → Result Data} {rules : List PortMap} (h : ∀ rule ∈ rules, rule.Readable data)
    (iter_num : Int) : countRules data rules iter_num =
      .ok (foldCounts ((rules.filter PortMap.Iterated).map (PortMap.count data)) iter_num) := by
  induction rules generalizing iter_num with
  | nil => rfl
  | cons rule rules ih =>
    have ih := ih fun r hr => h r (List.mem_cons_of_mem rule hr)
    by_cases hit : rule.Iterated
    · obtain ⟨d, hd, hcount⟩ := sizeByStep_eq (h rule List.mem_cons_self) hit
      rw [countRules, if_pos hit, hd, List.filter_cons_of_pos (by simpa using hit), List.map_cons, foldCounts]
      simp only [bind, Except.bind, hcount]
      split_ifs
      · exact ih _
      · rfl
      · exact ih _
    · rw [countRules, if_neg hit, List.filter_cons_of_neg (by simpa using hit)]
      exact ih _

theorem foldCounts_append (cs ds : List Nat) (iter_num : Int) :
    foldCounts (cs ++ ds) iter_num = (foldCounts cs iter_num).bind (foldCounts ds) := by
  induction cs generalizing iter_num with
  | nil => rfl
  | cons c cs ih =>
    rw [List.cons_append, foldCounts, foldCounts]
    split_ifs
    · exact ih _
    · rfl
    · exact ih _

/-- The maps of the layer name ports that it has. -/
structure TensorIterator.Readable (ti : TensorIterator) : Prop where
  inputs : ∀ rule ∈ ti.input_port_map, rule.Readable ti.lockInsData
  outputs : ∀ rule ∈ ti.output_port_map, rule.Readable ti.getOutData

theorem getNumIteration_eq {ti : TensorIterator} (h : ti.Readable) :
    getNumIteration ti = .ok ((foldCounts ti.counts 1).getD (-1)) := by
  rw [getNumIteration, countRules_eq h.inputs, TensorIterator.counts, foldCounts_append]
  cases foldCounts ((ti.input_port_map.filter PortMap.Iterated).map (PortMap.count ti.lockInsData)) 1 with
  | none => rfl
  | some iter_num =>
    simp only [bind, Except.bind, countRules_eq h.outputs, Option.bind]
    cases foldCounts ((ti.output_port_map.filter PortMap.Iterated).map (PortMap.count ti.getOutData)) iter_num <;> rfl

/-- Once it is set, the number of iterations is compared with every further count. -/
theorem foldCounts_of_ne_one (cs : List Nat) {iter_num : Int} (h : iter_num ≠ 1) :
    foldCounts cs iter_num = if ∀ c ∈ cs, c = toSizeT iter_num then some iter_num else none := by
  induction cs with
  | nil => rfl
  | cons c cs ih =>
    rw [foldCounts, if_neg h, ih]
    by_cases hc : c = toSizeT iter_num
    · rw [if_neg (not_not.mpr hc.symm)]
      simp [hc]
    · rw [if_pos (Ne.symm hc), if_neg fun hall => hc (hall c List.mem_cons_self)]

/-- **The fold**: the counts that `int` takes for 1 are skipped, the next one is kept and compared with the rest. -/
theorem foldCounts_eq (cs : List Nat) : foldCounts cs 1 =
    match cs.dropWhile (toInt · = 1) with
    | [] => some 1
    | c :: rest => foldCounts rest (toInt c) := by
  induction cs with
  | nil => rfl
  | cons c cs ih =>
    rw [foldCounts, if_pos rfl]
    by_cases hc : toInt c = 1
    · rw [hc, ih, List.dropWhile_cons_of_pos (by simpa using hc)]
    · rw [List.dropWhile_cons_of_neg (by simpa using hc)]

theorem toInt_ne_one_of_dropWhile {cs rest : List Nat} {c : Nat} (h : cs.dropWhile (toInt · = 1) = c :: rest) :
    toInt c ≠ 1 := by
  intro hc
  have hhead := List.head?_dropWhile_not (fun c => decide (toInt c = 1)) cs
  rw [h] at hhead
  simp only [List.head?_cons, decide_eq_false_iff_not] at hhead
  exact hhead hc

/-- The fold ends without a number when a later count differs from the kept one. -/
theorem foldCounts_of_dropWhile {cs rest : List Nat} {c : Nat} (h : cs.dropWhile (toInt · = 1) = c :: rest) :
    ((∀ d ∈ rest, d = toSizeT (toInt c)) ∧ foldCounts cs 1 = some (toInt c)) ∨
      ((∃ d ∈ rest, d ≠ toSizeT (toInt c)) ∧ foldCounts cs 1 = none) := by
  rw [foldCounts_eq, h]
  simp only
  rw [foldCounts_of_ne_one rest (toInt_ne_one_of_dropWhile h)]
  by_cases hall : ∀ d ∈ rest, d = toSizeT (toInt c)
  · exact .inl ⟨hall, if_pos hall⟩
  · right
    refine ⟨?_, if_neg hall⟩
    push Not at hall
    exact hall

theorem fitsInt_foldCounts (cs : List Nat) : FitsInt ((foldCounts cs 1).getD (-1)) := by
  cases hdrop : cs.dropWhile (toInt · = 1) with
  | nil =>
    rw [foldCounts_eq, hdrop]
    exact ⟨by norm_num, by norm_num⟩
  | cons c rest =>
    rcases foldCounts_of_dropWhile hdrop with ⟨-, hr⟩ | ⟨-, hr⟩
    · rw [hr, Option.getD_some]
      exact fitsInt_toInt c
    · rw [hr, Option.getD_none]
      exact ⟨by norm_num, by norm_num⟩

/-! ### When the fold is the common count -/

/-- `r` is the count of every port, or -1 when the counts are not all equal. -/
def OneCount (cs : List Nat) (r : Int) : Prop :=
  (0 ≤ r ∧ ∀ c ∈ cs, (c : Int) = r) ∨ (r = -1 ∧ ¬ ∃ n, ∀ c ∈ cs, c = n)

/-- The counts that the fold gets right: equal ones below 2³¹, or different ones of which the fold sees a difference
after the ports it skips. -/
def CountsMeet (cs : List Nat) : Prop :=
  (∃ n < 2 ^ 31, ∀ c ∈ cs, c = n) ∨
    ((¬ ∃ n, ∀ c ∈ cs, c = n) ∧ ∃ c rest, cs.dropWhile (toInt · = 1) = c :: rest ∧
      (toInt c = -1 ∨ ∃ d ∈ rest, d ≠ toSizeT (toInt c)))

theorem foldCounts_of_common {cs : List Nat} {n : Nat} (hn : n < 2 ^ 31) (h : ∀ c ∈ cs, c = n) :
    ∃ r, foldCounts cs 1 = some r ∧ 0 ≤ r ∧ ∀ c ∈ cs, (c : Int) = r := by
  have hint : toInt n = n := toInt_of_lt hn
  cases hdrop : cs.dropWhile (toInt · = 1) with
  | nil =>
    refine ⟨1, by rw [foldCounts_eq, hdrop], by omega, fun c hc => ?_⟩
    rw [List.dropWhile_eq_nil_iff] at hdrop
    have hone : toInt c = 1 := by simpa using hdrop c hc
    rw [h c hc] at hone ⊢
    omega
  | cons c rest =>
    have hsub : ∀ d ∈ c :: rest, d = n := by
      intro d hd
      rw [← hdrop] at hd
      exact h d ((List.dropWhile_sublist _).mem hd)
    have hc := hsub c List.mem_cons_self
    rcases foldCounts_of_dropWhile hdrop with ⟨-, hr⟩ | ⟨⟨d, hd, hne⟩, -⟩
    · refine ⟨toInt c, hr, ?_, fun d hd => ?_⟩
      · rw [hc]
        omega
      · rw [hc, h d hd]
        omega
    · rw [hc, hint, toSizeT_natCast (by omega)] at hne
      exact absurd (hsub d (List.mem_cons_of_mem c hd)) hne

/-- **The count, exactly.** -/
theorem oneCount_iff (cs : List Nat) : OneCount cs ((foldCounts cs 1).getD (-1)) ↔ CountsMeet cs := by
  obtain ⟨-, hlt⟩ := fitsInt_foldCounts cs
  constructor
  · rintro (⟨hpos, hall⟩ | ⟨hneg, hdiff⟩)
    · refine .inl ⟨((foldCounts cs 1).getD (-1)).toNat, by omega, fun c hc => ?_⟩
      have hr := hall c hc
      omega
    · refine .inr ⟨hdiff, ?_⟩
      cases hdrop : cs.dropWhile (toInt · = 1) with
      | nil =>
        rw [foldCounts_eq, hdrop] at hneg
        exact absurd hneg (by decide)
      | cons c rest =>
        refine ⟨c, rest, rfl, ?_⟩
        rcases foldCounts_of_dropWhile hdrop with ⟨-, hr⟩ | ⟨hd, -⟩
        · rw [hr, Option.getD_some] at hneg
          exact .inl hneg
        · exact .inr hd
  · rintro (⟨n, hn, h⟩ | ⟨hdiff, c, rest, hdrop, hc⟩)
    · obtain ⟨r, hr, hpos, hall⟩ := foldCounts_of_common hn h
      rw [hr]
      exact .inl ⟨hpos, hall⟩
    · refine .inr ⟨?_, hdiff⟩
      rcases foldCounts_of_dropWhile hdrop with ⟨hall, hr⟩ | ⟨-, hr⟩
      · rcases hc with hc | ⟨d, hd, hne⟩
        · rw [hr, Option.getD_some]
          exact hc
        · exact absurd (hall d hd) hne
      · rw [hr]
        rfl

end OpenVino.InferenceEngine
