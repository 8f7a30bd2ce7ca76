import OpenVino.Base.Exception
import OpenVino.Base.LowDigits
import Mathlib.Data.List.Perm.Subperm

/-!
# Codes of dimension orders

`DimsOrder` of `data_desc.cpp`. An order is a 64-bit code of 4-bit digits, the innermost dim in the lowest
one, each digit one more than its dim. Every accessor walks the code from its lowest digit and stops at the
first zero digit (or after `MAX_DIMS_64`), so all of them read the same `lowDigits` (`lowDigits_code`).

`isOrderCodeValid` looks for a repeated dim among these digits and is meant to look for a digit that is set
above them, but its second loop ends where it should refuse the code.
-/

namespace OpenVino.Vpu

abbrev StorageOrder64 := BitVec 64

def MAX_DIMS_64 : Nat := 64 / 4 - 1

/-- A `Dim` is its underlying `int`: `W` is 0, `H` 1, `C` 2, `N` 3 and `D` 4. -/
abbrev Dim := Int

/-- How a `Dim` is printed; a value without a name is printed as a number. -/
def Dim.print (d : Dim) : String :=
  if d = -1 then "Invalid"
  else if d = 0 then "W"
  else if d = 1 then "H"
  else if d = 2 then "C"
  else if d = 3 then "N"
  else if d = 4 then "D"
  else toString d

structure DimsOrder where
  code : StorageOrder64
deriving DecidableEq

/-- The digit of a code at position `i`. -/
def digit (code : StorageOrder64) (i : Nat) : Nat := ((code >>> (i * 4)) &&& 0xF).toNat

def ORDER_MASK : StorageOrder64 := BitVec.allOnes 64 >>> (64 / 4 - MAX_DIMS_64)

def maskOrder (fullOrder : StorageOrder64) (size : Nat) : StorageOrder64 :=
  fullOrder &&& (~~~ORDER_MASK ||| ~~~(BitVec.allOnes 64 <<< (size * 4)))

/-! ### Validity -/

/-- The first loop of `isOrderCodeValid`: `none` is `return false`, else the `length` it ends with. -/
def usedDimsLoop : Nat → StorageOrder64 → List Dim → Nat → Option Nat
  | 0, _, _, length => some length
  | left + 1, orderCopy, usedDims, length =>
    let digit : Dim := (orderCopy &&& 0xF).toNat
    if digit = 0 then some length
    else if digit - 1 ∈ usedDims then none
    else usedDimsLoop left (orderCopy >>> 4) ((digit - 1) :: usedDims) (length + 1)

/-- The second loop of `isOrderCodeValid`: its last `orderCopy`, which nothing reads. -/
def undefDigitsLoop : Nat → StorageOrder64 → StorageOrder64
  | 0, orderCopy => orderCopy
  | left + 1, orderCopy =>
    let digit := (orderCopy &&& 0xF).toNat
    if digit ≠ 0 then orderCopy else undefDigitsLoop left (orderCopy >>> 4)

def isOrderCodeValid (order : StorageOrder64) : Bool :=
  if order = 0 then false
  else
    match usedDimsLoop MAX_DIMS_64 order [] 0 with
    | none => false
    | some length =>
      let _orderCopy := undefDigitsLoop (MAX_DIMS_64 - length) (order >>> (4 * length))
      true

namespace DimsOrder

def fromCode (code : StorageOrder64) : Result DimsOrder := do
  ieAssert "isOrderCodeValid(code)" (isOrderCodeValid code)
  pure ⟨code⟩

def C : Result DimsOrder := fromCode 0x3
def NC : Result DimsOrder := fromCode 0x43
def CHW : Result DimsOrder := fromCode 0x321
def NCHW : Result DimsOrder := fromCode 0x4321
def NCDHW : Result DimsOrder := fromCode 0x43521

def fullOrderDefault : StorageOrder64 := maskOrder 0x0fedcba987654321 MAX_DIMS_64

def fromNumDims (numDims : Nat) : Result DimsOrder :=
  if numDims = 1 then C
  else if numDims = 2 then NC
  else if numDims = 3 then CHW
  else if numDims = 4 then NCHW
  else if numDims = 5 then NCDHW
  else fromCode (maskOrder fullOrderDefault numDims)

/-- The loop of `fromPermutation`, from a code and the shift it has come to. -/
def permutationCode : StorageOrder64 → Nat → List Dim → StorageOrder64
  | code, _, [] => code
  | code, sh, d :: perm => permutationCode (code + (((BitVec.ofInt 64 d + 1) &&& 0xF) <<< sh)) (sh + 4) perm

/-- A code has room for sixteen digits: a shift by more is undefined. -/
def fromPermutation (perm : List Dim) : Result DimsOrder :=
  if perm.length > 16 then .error (.undefinedBehaviour "<< sh")
  else fromCode (permutationCode 0 0 perm)

/-! ### Accessors -/

def numDimsLoop : Nat → StorageOrder64 → Nat → Nat
  | 0, _, out => out
  | left + 1, code, out =>
    let digit := (code &&& 0xF).toNat
    if digit = 0 then out else numDimsLoop left (code >>> 4) (out + 1)

def numDims (order : DimsOrder) : Nat := numDimsLoop MAX_DIMS_64 order.code 0

/-- The loop of `hasDim` and `dimInd`, which return `true` and `i` where it finds the digit of the dim. -/
def dimIndLoop (d : Dim) : Nat → StorageOrder64 → Nat → Option Nat
  | 0, _, _ => none
  | left + 1, code, i =>
    let digit := (code &&& 0xF).toNat
    if digit = 0 then none
    else if (digit : Int) = d + 1 then some i
    else dimIndLoop d left (code >>> 4) (i + 1)

def hasDim (order : DimsOrder) (d : Dim) : Bool := (dimIndLoop d MAX_DIMS_64 order.code 0).isSome

def digitName (curDim : Nat) : String :=
  if curDim = 1 then "W"
  else if curDim = 2 then "H"
  else if curDim = 3 then "C"
  else if curDim = 4 then "N"
  else if curDim = 5 then "D"
  else toString curDim

/-- `printTo`: the digits from the highest one that is set. -/
def print (order : DimsOrder) : String :=
  String.join ((((List.range MAX_DIMS_64).reverse.map (digit order.code)).dropWhile (· = 0)).map digitName)

def dimInd (order : DimsOrder) (d : Dim) : Result Nat :=
  match dimIndLoop d MAX_DIMS_64 order.code 0 with
  | some i => pure i
  | none => throwException ("Dim " ++ Dim.print d ++ " is not avaialble in layout " ++ order.print)

def toPermutationLoop : Nat → StorageOrder64 → List Dim
  | 0, _ => []
  | left + 1, code =>
    let digit := (code &&& 0xF).toNat
    if digit = 0 then [] else ((digit : Int) - 1) :: toPermutationLoop left (code >>> 4)

def toPermutation (order : DimsOrder) : List Dim := toPermutationLoop MAX_DIMS_64 order.code

end DimsOrder

/-! ### The loops -/

theorem toNat_and_digit (code : StorageOrder64) : (code &&& 0xF).toNat = code.toNat % 16 := by
  rw [BitVec.toNat_and]
  exact Nat.and_two_pow_sub_one_eq_mod code.toNat 4

theorem toNat_shift_digit (code : StorageOrder64) : (code >>> 4).toNat = code.toNat / 16 := by
  rw [BitVec.toNat_ushiftRight, Nat.shiftRight_eq_div_pow]

theorem digit_eq (code : StorageOrder64) (i : Nat) : digit code i = digitAt 16 code.toNat i := by
  unfold digit digitAt
  rw [toNat_and_digit, BitVec.toNat_ushiftRight, Nat.shiftRight_eq_div_pow, mul_comm, pow_mul]
  norm_num

/-- The dims that the digits of a walk stand for. -/
def dimsOf (digits : List Nat) : List Dim := digits.map fun digit : Nat => (digit : Int) - 1

@[simp] theorem length_dimsOf (digits : List Nat) : (dimsOf digits).length = digits.length := by
  rw [dimsOf, List.length_map]

theorem nodup_dimsOf_iff {digits : List Nat} : (dimsOf digits).Nodup ↔ digits.Nodup := by
  unfold dimsOf
  refine List.nodup_map_iff fun a b hab => ?_
  have hsub : (a : Int) - 1 = b - 1 := hab
  omega

variable {left : Nat} {code : StorageOrder64}

namespace DimsOrder

theorem toPermutationLoop_eq (left : Nat) (code : StorageOrder64) :
    toPermutationLoop left code = dimsOf (lowDigits 16 left code.toNat) := by
  induction left generalizing code with
  | zero => rfl
  | succ left ih =>
    rw [toPermutationLoop, lowDigits, toNat_and_digit, ih, toNat_shift_digit]
    split_ifs <;> rfl

theorem numDimsLoop_eq (left : Nat) (code : StorageOrder64) (out : Nat) :
    numDimsLoop left code out = out + (lowDigits 16 left code.toNat).length := by
  induction left generalizing code out with
  | zero => rfl
  | succ left ih =>
    rw [numDimsLoop, lowDigits, toNat_and_digit, ih, toNat_shift_digit]
    split_ifs
    · rfl
    · rw [List.length_cons]
      omega

theorem dimIndLoop_eq (d : Dim) (left : Nat) (code : StorageOrder64) (i : Nat) :
    dimIndLoop d left code i = ((toPermutationLoop left code).idxOf? d).map (i + ·) := by
  induction left generalizing code i with
  | zero => rfl
  | succ left ih =>
    rw [dimIndLoop, toPermutationLoop, ih]
    split_ifs with hzero hfound
    · rfl
    · have hd : ((code &&& 0xF).toNat : Int) - 1 = d := by omega
      simp only [List.idxOf?_cons, hd, beq_self_eq_true, if_true, Option.map_some, Nat.add_zero]
    · have hne : ((code &&& 0xF).toNat : Int) - 1 ≠ d := by omega
      simp only [List.idxOf?_cons, beq_iff_eq, if_neg hne, Option.map_map]
      congr 1
      funext k
      simp only [Function.comp_apply]
      omega

end DimsOrder

theorem usedDimsLoop_eq (left : Nat) (code : StorageOrder64) (usedDims : List Dim) (length : Nat) :
    usedDimsLoop left code usedDims length =
      if (DimsOrder.toPermutationLoop left code).Nodup ∧
          ∀ d ∈ DimsOrder.toPermutationLoop left code, d ∉ usedDims then
        some (length + (DimsOrder.toPermutationLoop left code).length)
      else none := by
  induction left generalizing code usedDims length with
  | zero => simp [usedDimsLoop, DimsOrder.toPermutationLoop]
  | succ left ih =>
    rw [usedDimsLoop, DimsOrder.toPermutationLoop]
    simp only [Int.natCast_eq_zero]
    generalize (code &&& 0xF).toNat = low
    by_cases hzero : low = 0
    · simp [hzero]
    · simp only [if_neg hzero, List.nodup_cons, List.mem_cons, forall_eq_or_imp, List.length_cons, ih,
        not_or]
      by_cases hused : (low : Int) - 1 ∈ usedDims
      · simp [hused]
      · rw [if_neg hused, add_assoc, add_comm 1]
        refine if_congr ?_ rfl rfl
        constructor
        · rintro ⟨hnodup, hnew⟩
          exact ⟨⟨fun hmem => (hnew _ hmem).1 rfl, hnodup⟩, hused, fun d hd => (hnew d hd).2⟩
        · rintro ⟨⟨hlow, hnodup⟩, -, hnew⟩
          exact ⟨hnodup, fun d hd => ⟨fun he => hlow (he ▸ hd), hnew d hd⟩⟩

/-- **What `isOrderCodeValid` checks**: the code is not zero and no dim repeats before the first zero
digit. -/
theorem isOrderCodeValid_iff (code : StorageOrder64) :
    isOrderCodeValid code = true ↔ code ≠ 0 ∧ (lowDigits 16 MAX_DIMS_64 code.toNat).Nodup := by
  unfold isOrderCodeValid
  rw [usedDimsLoop_eq, DimsOrder.toPermutationLoop_eq]
  simp only [nodup_dimsOf_iff]
  by_cases hzero : code = 0
  · simp [hzero]
  · by_cases hnodup : (lowDigits 16 MAX_DIMS_64 code.toNat).Nodup <;> simp [hnodup]


namespace DimsOrder

variable {order : DimsOrder} {d : Dim} {i : Nat}

theorem fromCode_ok_iff : fromCode code = .ok order ↔ isOrderCodeValid code = true ∧ order = ⟨code⟩ := by
  unfold fromCode
  rw [ieAssert_bind_ok_iff, pure_ok_iff]
  exact and_congr_right fun _ => eq_comm

/-! ### The accessors agree with the permutation -/

theorem toPermutation_eq (order : DimsOrder) :
    order.toPermutation = dimsOf (lowDigits 16 MAX_DIMS_64 order.code.toNat) :=
  toPermutationLoop_eq _ _

theorem numDims_eq (order : DimsOrder) : order.numDims = order.toPermutation.length := by
  rw [toPermutation_eq, length_dimsOf, numDims, numDimsLoop_eq, Nat.zero_add]

theorem hasDim_iff : order.hasDim d = true ↔ d ∈ order.toPermutation := by
  unfold hasDim toPermutation
  rw [dimIndLoop_eq]
  simp

theorem dimInd_ok_iff : order.dimInd d = .ok i ↔ order.toPermutation.idxOf? d = some i := by
  unfold dimInd toPermutation
  rw [dimIndLoop_eq]
  cases h : (toPermutationLoop MAX_DIMS_64 order.code).idxOf? d with
  | none => simp [throwException]
  | some k => simp [pure_ok_iff]

theorem dimInd_ok_iff_getElem? (hnodup : order.toPermutation.Nodup) :
    order.dimInd d = .ok i ↔ order.toPermutation[i]? = some d := by
  rw [dimInd_ok_iff, List.idxOf?_eq_some_iff, List.getElem?_eq_some_iff]
  constructor
  · rintro ⟨hi, hd, -⟩
    exact ⟨hi, hd⟩
  · rintro ⟨hi, hd⟩
    refine ⟨hi, hd, fun j hj hdj => ?_⟩
    have hsame := hnodup.getElem_inj_iff.mp (hdj.trans hd.symm)
    omega

/-! ### The round trip -/

theorem and_digit_of_dim {digit : Nat} (hpos : digit ≠ 0) (hlt : digit < 16) :
    ((BitVec.ofInt 64 ((digit : Int) - 1) + 1) &&& 0xF : StorageOrder64) = BitVec.ofNat 64 digit := by
  have hall : ∀ digit : Nat, digit < 16 → digit ≠ 0 →
      ((BitVec.ofInt 64 ((digit : Int) - 1) + 1) &&& 0xF : StorageOrder64) = BitVec.ofNat 64 digit := by
    decide
  exact hall digit hlt hpos

/-- The loop of `fromPermutation` adds the digits above those it has set: induction on the dims, `code` has
no digit from `sh` on. -/
theorem permutationCode_toNat (digits : List Nat) (hdigits : ∀ digit ∈ digits, digit ≠ 0 ∧ digit < 16)
    (sh : Nat) (hcode : code.toNat < 2 ^ sh) (hfit : sh + 4 * digits.length ≤ 64) :
    (permutationCode code sh (dimsOf digits)).toNat = code.toNat + 2 ^ sh * Nat.ofDigits 16 digits := by
  induction digits generalizing code sh with
  | nil => simp [permutationCode, dimsOf]
  | cons digit digits ih =>
    obtain ⟨hpos, hlt⟩ := hdigits digit List.mem_cons_self
    rw [List.length_cons] at hfit
    have hstep : permutationCode code sh (dimsOf (digit :: digits)) =
        permutationCode (code + BitVec.ofNat 64 digit <<< sh) (sh + 4) (dimsOf digits) := by
      simp only [dimsOf, List.map_cons, permutationCode]
      rw [and_digit_of_dim hpos hlt]
    have hpow : 2 ^ (sh + 4) ≤ 2 ^ 64 := Nat.pow_le_pow_right (by omega) (by omega)
    have hsum : code.toNat + digit * 2 ^ sh < 2 ^ (sh + 4) := by
      have hle : digit * 2 ^ sh ≤ 15 * 2 ^ sh := Nat.mul_le_mul_right _ (by omega)
      rw [pow_add]
      omega
    have hdigit : (BitVec.ofNat 64 digit <<< sh).toNat = digit * 2 ^ sh := by
      rw [BitVec.toNat_shiftLeft, BitVec.toNat_ofNat, Nat.mod_eq_of_lt (by omega : digit < 2 ^ 64),
        Nat.shiftLeft_eq]
      exact Nat.mod_eq_of_lt (by omega)
    have hcode' : (code + BitVec.ofNat 64 digit <<< sh).toNat = code.toNat + digit * 2 ^ sh := by
      rw [BitVec.toNat_add, hdigit]
      exact Nat.mod_eq_of_lt (by omega)
    rw [hstep, ih (fun d hd => hdigits d (List.mem_cons_of_mem _ hd)) (sh + 4) (by rwa [hcode']) (by omega),
      hcode', Nat.ofDigits_cons, pow_add]
    ring

theorem lowDigits_code_lt {digit : Nat} {left : Nat} (h : digit ∈ lowDigits 16 left code.toNat) :
    digit ≠ 0 ∧ digit < 16 := by
  obtain ⟨i, hi, rfl⟩ := mem_lowDigits_iff.mp h
  exact ⟨(getElem?_lowDigits hi).2, Nat.mod_lt _ (by omega)⟩

/-- **`fromPermutation` after `toPermutation`** keeps the digits below the first zero digit. -/
theorem fromPermutation_toPermutation (order : DimsOrder) :
    order.toPermutation.length ≤ 15 ∧
      (permutationCode 0 0 order.toPermutation).toNat =
        Nat.ofDigits 16 (lowDigits 16 MAX_DIMS_64 order.code.toNat) := by
  have hlen : (lowDigits 16 MAX_DIMS_64 order.code.toNat).length ≤ 15 := length_lowDigits_le _ _ _
  rw [toPermutation_eq]
  refine ⟨by simpa using hlen, ?_⟩
  rw [permutationCode_toNat _ (fun digit => lowDigits_code_lt) 0 (by simp) (by omega)]
  simp

theorem fromNumDims_numDims {n : Nat} (hpos : 1 ≤ n) (hle : n ≤ 15) :
    ∃ order, fromNumDims n = .ok order ∧ order.numDims = n := by
  have hall : ∀ n < 16, n ≠ 0 → (fromNumDims n).toOption.map numDims = some n := by decide
  have hn := hall n (by omega) (by omega)
  obtain ⟨order, horder, hnum⟩ := Option.map_eq_some_iff.mp hn
  refine ⟨order, ?_, hnum⟩
  cases h : fromNumDims n with
  | error e => simp [h, Except.toOption] at horder
  | ok o => simpa [h, Except.toOption] using horder

end DimsOrder

/-! ### The codes that are orders -/

/-- **What a code of an order is**: its nonzero digits are pairwise distinct and are the lowest ones. -/
structure IsOrderCode (code : StorageOrder64) : Prop where
  distinct : ∀ i j, i < j → digit code i ≠ 0 → digit code i ≠ digit code j
  gapless : ∃ n, 0 < n ∧ ∀ i, digit code i ≠ 0 ↔ i < n

/-- Two of the digits before the first zero digit are equal. -/
def RepeatsDim (code : StorageOrder64) : Prop :=
  ∃ i j, i < j ∧ j < MAX_DIMS_64 ∧ (∀ k ≤ j, digit code k ≠ 0) ∧ digit code i = digit code j

/-- No digit is set above a zero digit, and none in the position that no accessor reads. -/
def NothingAbove (code : StorageOrder64) : Prop :=
  (∀ i j, i < j → digit code i = 0 → digit code j = 0) ∧ digit code MAX_DIMS_64 = 0

/-- The number of digits before the first zero digit. -/
def lowLength (code : StorageOrder64) : Nat := (lowDigits 16 MAX_DIMS_64 code.toNat).length

theorem lowLength_le (code : StorageOrder64) : lowLength code ≤ MAX_DIMS_64 := length_lowDigits_le _ _ _

theorem digit_ne_zero_of_lt {i : Nat} (h : i < lowLength code) : digit code i ≠ 0 := by
  rw [digit_eq]
  exact (getElem?_lowDigits h).2

theorem digit_lowLength (h : lowLength code < MAX_DIMS_64) : digit code (lowLength code) = 0 := by
  rw [digit_eq]
  exact digitAt_length_lowDigits h

theorem digit_lt (code : StorageOrder64) (i : Nat) : digit code i < 16 := by
  rw [digit_eq]
  exact Nat.mod_lt _ (by omega)

theorem eq_zero_iff_digit : code = 0 ↔ ∀ i, digit code i = 0 := by
  constructor
  · rintro rfl i
    simp [digit]
  · intro h
    refine BitVec.eq_of_toNat_eq ?_
    exact eq_zero_of_digitAt (by omega : 1 < 16) fun i => digit_eq code i ▸ h i

theorem repeatsDim_iff : RepeatsDim code ↔ ¬(lowDigits 16 MAX_DIMS_64 code.toNat).Nodup := by
  rw [nodup_lowDigits_iff]
  push Not
  constructor
  · rintro ⟨i, j, hij, hj, hset, hsame⟩
    refine ⟨i, j, hij, ?_, by rwa [digit_eq, digit_eq] at hsame⟩
    by_contra hlow
    exact hset _ (not_lt.mp hlow) (digit_lowLength (lt_of_le_of_lt (not_lt.mp hlow) hj))
  · rintro ⟨i, j, hij, hj, hsame⟩
    refine ⟨i, j, hij, hj.trans_le (lowLength_le code), fun k hk => ?_, by rwa [digit_eq, digit_eq]⟩
    exact digit_ne_zero_of_lt (lt_of_le_of_lt hk hj)

theorem nothingAbove_iff : NothingAbove code ↔ ∀ i, lowLength code ≤ i → digit code i = 0 := by
  constructor
  · rintro ⟨hgap, htop⟩ i hi
    have hlow : digit code (lowLength code) = 0 := by
      rcases (lowLength_le code).lt_or_eq with hlt | heq
      · exact digit_lowLength hlt
      · rwa [heq]
    rcases hi.lt_or_eq with hlt | rfl
    · exact hgap _ _ hlt hlow
    · exact hlow
  · intro h
    refine ⟨fun i j hij hi => ?_, h _ (lowLength_le code)⟩
    by_contra hj
    have hlt : i < lowLength code := by
      by_contra hle
      exact hj (h j (by omega))
    exact digit_ne_zero_of_lt hlt hi

/-- Distinct digits leave no room for a sixteenth: they are the first fifteen at most. -/
theorem IsOrderCode.length_le (h : IsOrderCode code) {n : Nat} (hn : ∀ i, digit code i ≠ 0 ↔ i < n) :
    n ≤ MAX_DIMS_64 := by
  have hnodup : ((List.range n).map (digit code)).Nodup := by
    refine List.Nodup.map_on (fun i hi j hj hsame => ?_) List.nodup_range
    rcases Nat.lt_trichotomy i j with hij | hij | hij
    · exact absurd hsame (h.distinct i j hij ((hn i).mpr (List.mem_range.mp hi)))
    · exact hij
    · exact absurd hsame.symm (h.distinct j i hij ((hn j).mpr (List.mem_range.mp hj)))
  have hsub : (List.range n).map (digit code) ⊆ (List.range MAX_DIMS_64).map (· + 1) := by
    intro d hd
    obtain ⟨i, hi, rfl⟩ := List.mem_map.mp hd
    have hpos := (hn i).mpr (List.mem_range.mp hi)
    have hlt := digit_lt code i
    exact List.mem_map.mpr ⟨digit code i - 1, List.mem_range.mpr (by unfold MAX_DIMS_64; omega), by omega⟩
  simpa using (hnodup.subperm hsub).length_le

theorem isOrderCode_iff :
    IsOrderCode code ↔
      code ≠ 0 ∧ (lowDigits 16 MAX_DIMS_64 code.toNat).Nodup ∧
        ∀ i, lowLength code ≤ i → digit code i = 0 := by
  constructor
  · intro h
    obtain ⟨n, hpos, hn⟩ := h.gapless
    have hle := h.length_le hn
    have hlen : lowLength code = n := by
      refine le_antisymm (not_lt.mp fun hlt => ?_) (not_lt.mp fun hlt => ?_)
      · exact lt_irrefl n ((hn n).mp (digit_ne_zero_of_lt hlt))
      · exact (hn _).mpr hlt (digit_lowLength (hlt.trans_le hle))
    refine ⟨fun hzero => (hn 0).mpr hpos (eq_zero_iff_digit.mp hzero 0), ?_, fun i hi => ?_⟩
    · refine nodup_lowDigits_iff.mpr fun i j hij hj => ?_
      rw [← digit_eq, ← digit_eq]
      exact h.distinct i j hij (digit_ne_zero_of_lt (hij.trans hj))
    · by_contra hset
      exact absurd ((hn i).mp hset) (by omega)
  · rintro ⟨hzero, hnodup, habove⟩
    have hset : ∀ i, digit code i ≠ 0 ↔ i < lowLength code := fun i =>
      ⟨fun hi => not_le.mp fun hle => hi (habove i hle), digit_ne_zero_of_lt⟩
    refine ⟨fun i j hij hi => ?_, lowLength code, Nat.pos_of_ne_zero fun hlen => ?_, hset⟩
    · by_cases hj : j < lowLength code
      · rw [digit_eq, digit_eq]
        exact nodup_lowDigits_iff.mp hnodup i j hij hj
      · rwa [habove j (by omega)]
    · exact hzero (eq_zero_iff_digit.mpr fun i => habove i (by omega))

namespace DimsOrder

/-- **The dimension orders as they are meant**: `fromCode` takes the codes of orders and no others, and on
what it takes all functions agree with the permutation. -/
structure CodeMeetsPermutation (code : StorageOrder64) : Prop where
  accepted_iff : (∃ order, fromCode code = .ok order) ↔ IsOrderCode code
  round_trip : ∀ order, fromCode code = .ok order → fromPermutation order.toPermutation = .ok order
  numDims : ∀ order, fromCode code = .ok order → order.numDims = order.toPermutation.length
  fromNumDims : ∀ order, fromCode code = .ok order →
    ∃ order', fromNumDims order.numDims = .ok order' ∧
      order'.toPermutation.length = order.toPermutation.length
  hasDim : ∀ order, fromCode code = .ok order → ∀ d, order.hasDim d = true ↔ d ∈ order.toPermutation
  dimInd : ∀ order, fromCode code = .ok order →
    ∀ d i, order.dimInd d = .ok i ↔ order.toPermutation[i]? = some d

theorem codeMeetsPermutation_of_isOrderCode (h : IsOrderCode code) : CodeMeetsPermutation code := by
  obtain ⟨hzero, hnodup, habove⟩ := isOrderCode_iff.mp h
  have hvalid : isOrderCodeValid code = true := (isOrderCodeValid_iff code).mpr ⟨hzero, hnodup⟩
  have hok : fromCode code = .ok ⟨code⟩ := fromCode_ok_iff.mpr ⟨hvalid, rfl⟩
  have horder : ∀ order, fromCode code = .ok order → order = ⟨code⟩ := fun order ho =>
    (fromCode_ok_iff.mp ho).2
  have hlen : lowLength code ≠ 0 := fun hlen =>
    hzero (eq_zero_iff_digit.mpr fun i => habove i (by omega))
  refine ⟨iff_of_true ⟨_, hok⟩ h, fun order ho => ?_, fun order _ => numDims_eq order, fun order ho => ?_,
    fun order _ d => hasDim_iff, fun order ho d i => ?_⟩
  · obtain rfl := horder order ho
    obtain ⟨hle, hcode⟩ := fromPermutation_toPermutation ⟨code⟩
    have hwhole : Nat.ofDigits 16 (lowDigits 16 MAX_DIMS_64 code.toNat) = code.toNat :=
      (ofDigits_lowDigits_eq_iff (by omega)).mpr fun i hi => digit_eq code i ▸ habove i hi
    have hsame : permutationCode 0 0 (toPermutation ⟨code⟩) = code :=
      BitVec.eq_of_toNat_eq (hcode.trans hwhole)
    unfold fromPermutation
    rw [if_neg (by omega), hsame, hok]
  · obtain rfl := horder order ho
    have hnum : DimsOrder.numDims ⟨code⟩ = lowLength code := by
      rw [numDims_eq, toPermutation_eq, length_dimsOf, lowLength]
    obtain ⟨order', ho', hnum'⟩ := fromNumDims_numDims (n := DimsOrder.numDims ⟨code⟩) (by omega)
      (by rw [hnum]; exact lowLength_le code)
    exact ⟨order', ho', by rw [← numDims_eq, ← numDims_eq, hnum']⟩
  · obtain rfl := horder order ho
    refine dimInd_ok_iff_getElem? ?_
    rw [toPermutation_eq]
    exact nodup_dimsOf_iff.mpr hnodup

/-- **When a code is treated as it is meant**: a dim repeats among the digits that are looked at, and the
code is refused, or no digit is set above them. -/
theorem codeMeetsPermutation_iff (code : StorageOrder64) :
    CodeMeetsPermutation code ↔ RepeatsDim code ∨ NothingAbove code := by
  rw [repeatsDim_iff, nothingAbove_iff]
  constructor
  · intro h
    by_contra hnot
    obtain ⟨hnodup, habove⟩ := not_or.mp hnot
    have hzero : code ≠ 0 := fun hzero => habove fun i _ => eq_zero_iff_digit.mp hzero i
    have hvalid : isOrderCodeValid code = true :=
      (isOrderCodeValid_iff code).mpr ⟨hzero, not_not.mp hnodup⟩
    have horder := h.accepted_iff.mp ⟨⟨code⟩, fromCode_ok_iff.mpr ⟨hvalid, rfl⟩⟩
    exact habove (isOrderCode_iff.mp horder).2.2
  · intro h
    by_cases horder : IsOrderCode code
    · exact codeMeetsPermutation_of_isOrderCode horder
    · have hrefused : ∀ order, fromCode code ≠ .ok order := by
        intro order ho
        obtain ⟨hzero, hnodup⟩ := (isOrderCodeValid_iff code).mp (fromCode_ok_iff.mp ho).1
        rcases h with hrepeat | habove
        · exact hrepeat hnodup
        · exact horder (isOrderCode_iff.mpr ⟨hzero, hnodup, habove⟩)
      have hnone {P : DimsOrder → Prop} : ∀ order, fromCode code = .ok order → P order := fun order ho =>
        absurd ho (hrefused order)
      refine ⟨iff_of_false (fun ho => ?_) horder, hnone, hnone, hnone, hnone, hnone⟩
      obtain ⟨order, ho⟩ := ho
      exact hrefused order ho

/-- `W` above a gap of two digits: the code is taken, and its permutation names another order. -/
theorem gap_accepted :
    fromCode 0x1003 = .ok ⟨0x1003⟩ ∧ ¬IsOrderCode 0x1003 ∧
      fromPermutation (toPermutation ⟨0x1003⟩) = .ok ⟨0x3⟩ ∧ ¬CodeMeetsPermutation 0x1003 := by
  have hok : fromCode 0x1003 = .ok ⟨0x1003⟩ := by decide
  have hback : fromPermutation (toPermutation ⟨0x1003⟩) = .ok ⟨0x3⟩ := by decide
  refine ⟨hok, fun h => ?_, hback, fun h => ?_⟩
  · obtain ⟨n, -, hn⟩ := h.gapless
    have hlow : ¬(digit 0x1003 1 ≠ 0) := by decide
    have htop : digit 0x1003 3 ≠ 0 := by decide
    have := (hn 3).mp htop
    exact hlow ((hn 1).mpr (by omega))
  · have hround := h.round_trip _ hok
    rw [hback] at hround
    exact absurd hround (by decide)

end DimsOrder

end OpenVino.Vpu
