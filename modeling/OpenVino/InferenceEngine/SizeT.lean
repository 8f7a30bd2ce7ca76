import Mathlib
import OpenVino.Base.Exception

/-!
# `int` and `size_t`

The machine integers of the plain C++ code are `Int` and `Nat` with the conversions written out: `toInt` and
`toSizeT` wrap, and `intArith` is arithmetic on `int`, undefined when the value does not fit. The wrapped
value of a sum, a difference or a product is that of the exact one, so an expression is wrapped once.
-/

namespace OpenVino.InferenceEngine

def toInt (n : Nat) : Int := (n : Int).bmod (2 ^ 32)

def toSizeT (i : Int) : Nat := (i % 2 ^ 64).toNat

/-- The value is one of `int`. -/
def FitsInt (i : Int) : Prop := -2 ^ 31 ≤ i ∧ i < 2 ^ 31

instance (i : Int) : Decidable (FitsInt i) := inferInstanceAs (Decidable (_ ∧ _))

def intArith (expression : String) (i : Int) : Result Int :=
  if FitsInt i then .ok i else .error (.undefinedBehaviour expression)

/-- `operator[]` of a vector. -/
def elemAt {α : Type} (expression : String) (l : List α) (i : Int) : Result α :=
  if 0 ≤ i then
    match l[i.toNat]? with
    | some a => .ok a
    | none => .error (.undefinedBehaviour expression)
  else .error (.undefinedBehaviour expression)

theorem toInt_of_lt {n : Nat} (h : n < 2 ^ 31) : toInt n = n := by
  unfold toInt
  apply Int.bmod_eq_of_le <;> omega

theorem fitsInt_toInt (n : Nat) : FitsInt (toInt n) := by
  have hlt := @Int.bmod_lt (n : Int) (2 ^ 32) (by norm_num)
  have hle := @Int.le_bmod (n : Int) (2 ^ 32) (by norm_num)
  unfold FitsInt toInt
  omega

theorem toSizeT_natCast {n : Nat} (h : n < 2 ^ 64) : toSizeT n = n := by
  unfold toSizeT
  omega

/-- A count compared with its own conversion to `int` and back. -/
theorem natCast_eq_toInt {n : Nat} (h : n = toSizeT (toInt n)) (hpos : 0 ≤ toInt n) : (n : Int) = toInt n := by
  obtain ⟨-, hlt⟩ := fitsInt_toInt n
  unfold toSizeT at h
  omega

theorem intArith_ok_iff {e : String} {i r : Int} : intArith e i = .ok r ↔ FitsInt i ∧ i = r := by
  unfold intArith
  split_ifs with h
  · simp [h]
  · simp [h]

theorem elemAt_ok_iff {α : Type} {e : String} {l : List α} {i : Int} {a : α} :
    elemAt e l i = .ok a ↔ 0 ≤ i ∧ l[i.toNat]? = some a := by
  unfold elemAt
  by_cases hi : 0 ≤ i
  · cases h : l[i.toNat]? with
    | none => simp [hi]
    | some b => simp [hi]
  · simp [hi]

section Elements

variable {α : Type} {e : String} {a b c : α} {l : List α}

theorem elemAt_zero : elemAt e (a :: l) 0 = .ok a := rfl

theorem elemAt_one : elemAt e (a :: b :: l) 1 = .ok b := rfl

theorem elemAt_two : elemAt e (a :: b :: c :: l) 2 = .ok c := rfl

end Elements

abbrev SizeVector := List Nat

end OpenVino.InferenceEngine
