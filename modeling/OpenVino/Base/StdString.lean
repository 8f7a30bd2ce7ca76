import Mathlib
import OpenVino.Base.Exception

/-!
# Numbers as text

The conversions between integers and strings of the C++ standard library. `scan` is what `strtoll` does: it skips the
white space, takes a sign and as many digits as there are, and also says how much of the text it has taken. What
`to_string` writes is read back as it was (`scan_to_string`).
-/

namespace OpenVino.StdString

def isspace (c : Char) : Bool := c = ' ' || c = '\t' || c = '\n' || c = '\x0b' || c = '\x0c' || c = '\r'

/-- The sign, and how many characters it has. -/
def sign : List Char → Int × Nat
  | '-' :: _ => (-1, 1)
  | '+' :: _ => (1, 1)
  | _ => (1, 0)

/-- The number that the text starts with, and the place behind it. -/
def scan (str : List Char) : Option (Int × Nat) :=
  let spaces := (str.takeWhile isspace).length
  let number := str.drop spaces
  let digits := (number.drop (sign number).2).takeWhile Char.isDigit
  if digits = [] then none
  else some ((sign number).1 * (Nat.ofDigitChars 10 digits 0 : Nat), spaces + (sign number).2 + digits.length)

def stoll (str : String) : Result (Int × Nat) :=
  match scan str.toList with
  | none => throwException "stoll"
  | some (value, idx) =>
    if -2 ^ 63 ≤ value ∧ value < 2 ^ 63 then return (value, idx) else throwException "stoll"

def to_string (i : Int) : String :=
  String.ofList (if i < 0 then '-' :: Nat.toDigits 10 i.natAbs else Nat.toDigits 10 i.natAbs)

/-! ### Reading back -/

theorem not_isspace_of_isDigit {c : Char} (h : c.isDigit = true) : isspace c = false := by
  by_contra hspace
  have hspace : isspace c = true := by simpa using hspace
  simp only [isspace, Bool.or_eq_true, decide_eq_true_eq] at hspace
  rcases hspace with ((((rfl | rfl) | rfl) | rfl) | rfl) | rfl
  all_goals exact absurd h (by decide)

theorem sign_of_isDigit {c : Char} {str : List Char} (h : c.isDigit = true) : sign (c :: str) = (1, 0) := by
  unfold sign
  split
  · next heq =>
    obtain ⟨rfl, -⟩ := List.cons.inj heq
    exact absurd h (by decide)
  · next heq =>
    obtain ⟨rfl, -⟩ := List.cons.inj heq
    exact absurd h (by decide)
  · rfl

theorem stoll_bounds {str : String} {value : Int} {idx : Nat} (h : stoll str = .ok (value, idx)) :
    -2 ^ 63 ≤ value ∧ value < 2 ^ 63 := by
  unfold stoll at h
  split at h
  · exact absurd h throwException_ne_ok
  · split_ifs at h with hbounds
    · obtain ⟨rfl, -⟩ := Prod.mk.inj (Except.ok.inj h)
      exact hbounds
    · exact absurd h throwException_ne_ok

/-- A text of digits, behind a minus or not. -/
theorem scan_digits {digits : List Char} (hne : digits ≠ []) (hdigits : ∀ c ∈ digits, c.isDigit = true) :
    scan digits = some (((Nat.ofDigitChars 10 digits 0 : Nat) : Int), digits.length) ∧
      scan ('-' :: digits) = some (-((Nat.ofDigitChars 10 digits 0 : Nat) : Int), digits.length + 1) := by
  have htake : digits.takeWhile Char.isDigit = digits := List.takeWhile_eq_self_iff.mpr hdigits
  obtain ⟨c, rest, rfl⟩ := List.exists_cons_of_ne_nil hne
  have hspaces : (c :: rest).takeWhile isspace = [] := by
    rw [List.takeWhile_cons, not_isspace_of_isDigit (hdigits c List.mem_cons_self)]
    rfl
  have hminus : ('-' :: c :: rest).takeWhile isspace = [] := rfl
  have hsign : sign (c :: rest) = (1, 0) := sign_of_isDigit (hdigits c List.mem_cons_self)
  have hnegative : sign ('-' :: c :: rest) = (-1, 1) := rfl
  constructor
  · simp only [scan, hspaces, List.length_nil, List.drop_zero, hsign, htake, hne, if_false]
    rw [one_mul, Nat.zero_add]
  · simp only [scan, hminus, List.length_nil, List.drop_zero, hnegative, List.drop_succ_cons, htake, hne, if_false]
    rw [neg_one_mul, Nat.zero_add, Nat.add_comm]

theorem scan_to_string (i : Int) : scan (to_string i).toList = some (i, (to_string i).toList.length) := by
  obtain ⟨hdigits, hminus⟩ := scan_digits (Nat.toDigits_ne_nil (n := i.natAbs) (b := 10))
    (fun c hc => Nat.isDigit_of_mem_toDigits (by decide) (by decide) hc)
  rw [Nat.ofDigitChars_ten_toDigits] at hdigits hminus
  unfold to_string
  rw [String.toList_ofList]
  by_cases hi : i < 0
  · rw [if_pos hi, hminus, List.length_cons]
    congr 2
    omega
  · rw [if_neg hi, hdigits]
    congr 2
    omega

end OpenVino.StdString
