import OpenVino.InferenceEngine.SizeT

/-!
# Arithmetic on `int`

Quotients of `int`s, and the functions of `utils/numeric.hpp` that the model and the tilings of the plugin share. What they return when nothing overflows is
the multiple above a number (`alignVal_ok`) and the quotient rounded up (`divUp_ok`).
-/

namespace OpenVino.Vpu

open OpenVino.InferenceEngine (FitsInt intArith intArith_ok_iff)

/-- `/` of two `int`s. -/
def intDiv (expression : String) (a b : Int) : Result Int :=
  if b = 0 then .error (.undefinedBehaviour expression) else intArith expression (a.tdiv b)

/-- `%` of two `int`s. -/
def intRem (expression : String) (a b : Int) : Result Int :=
  if b = 0 then .error (.undefinedBehaviour expression) else intArith expression (a.tmod b)

def isPowerOfTwo (val : Int) : Bool := val > 0 && val.toNat &&& (val.toNat - 1) = 0

/-- `(val + (align - 1)) & ~(align - 1)`, for a power of two. -/
def alignVal (val align : Int) : Result Int := do
  ieAssert "isPowerOfTwo(align)" (isPowerOfTwo align)
  let sum ← intArith "val + (align - 1)" (val + (align - 1))
  pure (sum - sum % align)

def divUp (a b : Int) : Result Int := do
  ieAssert "b > 0" (b > 0)
  let sum ← intArith "a + b" (a + b)
  let sum ← intArith "a + b - 1" (sum - 1)
  pure (sum.tdiv b)

variable {val align a b r : Int}

theorem intRem_ok {e : String} (h : intRem e a b = .ok r) : r = a.tmod b := by
  unfold intRem at h
  split_ifs at h with hb
  exact (intArith_ok_iff.mp h).2.symm

theorem alignVal_ok (h : alignVal val align = .ok r) : 0 < align ∧ r = (val + (align - 1)) / align * align := by
  obtain ⟨hpower, h⟩ := ieAssert_bind_ok_iff.mp h
  simp only [bind_ok_iff, pure_ok_iff, intArith_ok_iff] at h
  obtain ⟨sum, ⟨-, rfl⟩, rfl⟩ := h
  have hpos : 0 < align := by
    rw [isPowerOfTwo, Bool.and_eq_true, decide_eq_true_eq] at hpower
    exact hpower.1
  refine ⟨hpos, ?_⟩
  have hsplit := Int.mul_ediv_add_emod (val + (align - 1)) align
  rw [Int.mul_comm] at hsplit
  omega

theorem divUp_ok (h : divUp a b = .ok r) : 0 < b ∧ r = (a + b - 1).tdiv b := by
  obtain ⟨hpos, h⟩ := ieAssert_bind_ok_iff.mp h
  simp only [bind_ok_iff, pure_ok_iff, intArith_ok_iff] at h
  obtain ⟨sum, ⟨-, rfl⟩, sum', ⟨-, rfl⟩, rfl⟩ := h
  exact ⟨hpos, rfl⟩

end OpenVino.Vpu
