import Mathlib
import OpenVino.Base.Exception

/-!
# Streams of bytes

Numbers of a given width in bytes, the lowest byte first, and readers that take such numbers from the front of a
stream. A reader throws when the stream is too short. `readBits_bind_iff` says of a program that starts with a
number what it read: with the lemma for each of its reads, a whole program is turned into a statement about the
bytes in front of the stream, in both directions.
-/

namespace OpenVino

/-! ### Numbers as bytes -/

def ofBytes : List (BitVec 8) → Nat
  | [] => 0
  | b :: bytes => b.toNat + 256 * ofBytes bytes

/-- The low bytes of a number, as many as asked for. -/
def toBytes : Nat → Nat → List (BitVec 8)
  | 0, _ => []
  | w + 1, n => BitVec.ofNat 8 n :: toBytes w (n / 256)

@[simp] theorem length_toBytes (w n : Nat) : (toBytes w n).length = w := by
  induction w generalizing n with
  | zero => rfl
  | succ w ih => rw [toBytes, List.length_cons, ih]

theorem ofBytes_toBytes (w n : Nat) : ofBytes (toBytes w n) = n % 256 ^ w := by
  induction w generalizing n with
  | zero => rw [Nat.pow_zero, Nat.mod_one]; rfl
  | succ w ih =>
    have hhead : (BitVec.ofNat 8 n).toNat = n % 256 := BitVec.toNat_ofNat n 8
    rw [toBytes, ofBytes, ih, hhead, Nat.pow_succ, Nat.mul_comm (256 ^ w), Nat.mod_mul]

theorem ofBytes_lt (bytes : List (BitVec 8)) : ofBytes bytes < 256 ^ bytes.length := by
  induction bytes with
  | nil => exact Nat.one_pos
  | cons b bytes ih =>
    have hb := b.isLt
    rw [ofBytes, List.length_cons, Nat.pow_succ]
    omega

theorem toBytes_ofBytes (bytes : List (BitVec 8)) : toBytes bytes.length (ofBytes bytes) = bytes := by
  induction bytes with
  | nil => rfl
  | cons b bytes ih =>
    have hb := b.isLt
    have hdiv : ofBytes (b :: bytes) / 256 = ofBytes bytes := by
      rw [ofBytes]
      omega
    rw [List.length_cons, toBytes, hdiv, ih, ofBytes]
    congr 1
    apply BitVec.eq_of_toNat_eq
    rw [BitVec.toNat_ofNat]
    omega

/-- The bytes of an object of `w` bytes. -/
def bytesOf {w : Nat} (x : BitVec (8 * w)) : List (BitVec 8) := toBytes w x.toNat

@[simp] theorem length_bytesOf {w : Nat} (x : BitVec (8 * w)) : (bytesOf x).length = w := length_toBytes w _

theorem toNat_lt_pow {w : Nat} (x : BitVec (8 * w)) : x.toNat < 256 ^ w := by
  have hx := x.isLt
  rwa [Nat.pow_mul] at hx

theorem ofNat_ofBytes_bytesOf {w : Nat} (x : BitVec (8 * w)) : BitVec.ofNat (8 * w) (ofBytes (bytesOf x)) = x := by
  rw [bytesOf, ofBytes_toBytes, Nat.mod_eq_of_lt (toNat_lt_pow x), BitVec.ofNat_toNat, BitVec.setWidth_eq]

theorem bytesOf_ofNat_ofBytes {w : Nat} {bytes : List (BitVec 8)} (h : bytes.length = w) :
    bytesOf (BitVec.ofNat (8 * w) (ofBytes bytes)) = bytes := by
  subst h
  have hlt := ofBytes_lt bytes
  rw [bytesOf, BitVec.toNat_ofNat, Nat.pow_mul, Nat.mod_eq_of_lt hlt, toBytes_ofBytes]

/-! ### Readers -/

abbrev Istream := StateT (List (BitVec 8)) Result

section Readers

variable {α β : Type} {is is' : List (BitVec 8)} {w : Nat}

/-- `is.read`, of a stream that throws when it cannot. -/
def readBytes (n : Nat) : Istream (List (BitVec 8)) := fun is =>
  if n ≤ is.length then .ok (is.take n, is.drop n) else throwException "basic_ios::clear"

def readBits (w : Nat) : Istream (BitVec (8 * w)) := do
  let tmp ← readBytes w
  return BitVec.ofNat (8 * w) (ofBytes tmp)

theorem readBytes_iff {n : Nat} {bytes : List (BitVec 8)} :
    readBytes n is = .ok (bytes, is') ↔ bytes.length = n ∧ is = bytes ++ is' := by
  unfold readBytes
  constructor
  · intro h
    split_ifs at h with hn
    · obtain ⟨rfl, rfl⟩ := Prod.mk.inj (Except.ok.inj h)
      exact ⟨by simpa using hn, (List.take_append_drop n is).symm⟩
    · exact absurd h throwException_ne_ok
  · rintro ⟨rfl, rfl⟩
    rw [if_pos (by simp), List.take_left, List.drop_left]

theorem bind_run_iff {p : Istream α} {f : α → Istream β} {b : β} :
    (p >>= f) is = .ok (b, is') ↔ ∃ a is₁, p is = .ok (a, is₁) ∧ f a is₁ = .ok (b, is') := by
  show (p is >>= fun r => f r.1 r.2) = .ok (b, is') ↔ _
  rw [bind_ok_iff]
  constructor
  · rintro ⟨⟨a, is₁⟩, hp, hf⟩
    exact ⟨a, is₁, hp, hf⟩
  · rintro ⟨a, is₁, hp, hf⟩
    exact ⟨(a, is₁), hp, hf⟩

theorem pure_run_iff {a b : α} : (pure a : Istream α) is = .ok (b, is') ↔ a = b ∧ is = is' := by
  show Except.ok (a, is) = Except.ok (b, is') ↔ _
  rw [Except.ok.injEq, Prod.mk.injEq]

theorem readBits_iff {x : BitVec (8 * w)} : readBits w is = .ok (x, is') ↔ is = bytesOf x ++ is' := by
  unfold readBits
  rw [bind_run_iff]
  constructor
  · rintro ⟨bytes, is₁, hread, h⟩
    obtain ⟨hlen, rfl⟩ := readBytes_iff.mp hread
    obtain ⟨rfl, rfl⟩ := pure_run_iff.mp h
    rw [bytesOf_ofNat_ofBytes hlen]
  · rintro rfl
    refine ⟨bytesOf x, is', readBytes_iff.mpr ⟨length_bytesOf x, rfl⟩, pure_run_iff.mpr ⟨?_, rfl⟩⟩
    exact ofNat_ofBytes_bytesOf x

/-- What a program that starts with a number has read. -/
theorem readBits_bind_iff {f : BitVec (8 * w) → Istream β} {b : β} :
    (readBits w >>= f) is = .ok (b, is') ↔ ∃ x is₁, is = bytesOf x ++ is₁ ∧ f x is₁ = .ok (b, is') := by
  rw [bind_run_iff]
  simp only [readBits_iff]

/-- From the encoding of a valid `c`, and from nothing else, the reader gets `value c`. -/
def Reads {γ : Type} (p : Istream α) (Valid : γ → Prop) (encode : γ → List (BitVec 8)) (value : γ → α) : Prop :=
  ∀ is a is', p is = .ok (a, is') ↔ ∃ c, Valid c ∧ is = encode c ++ is' ∧ a = value c

def readMany (p : Istream α) : Nat → Istream (List α)
  | 0 => return []
  | n + 1 => do
    let a ← p
    let as ← readMany p n
    return a :: as

theorem Reads.readMany {γ : Type} {p : Istream α} {Valid : γ → Prop} {encode : γ → List (BitVec 8)} {value : γ → α}
    (hp : Reads p Valid encode value) (n : Nat) :
    Reads (readMany p n) (fun cs : List γ => cs.length = n ∧ ∀ c ∈ cs, Valid c) (List.flatMap encode)
      (List.map value) := by
  induction n with
  | zero =>
    intro is as is'
    rw [OpenVino.readMany, pure_run_iff]
    constructor
    · rintro ⟨rfl, rfl⟩
      exact ⟨[], ⟨rfl, fun c hc => absurd hc List.not_mem_nil⟩, rfl, rfl⟩
    · rintro ⟨cs, ⟨hlen, -⟩, rfl, rfl⟩
      obtain rfl := List.length_eq_zero_iff.mp hlen
      exact ⟨rfl, rfl⟩
  | succ n ih =>
    intro is as is'
    rw [OpenVino.readMany, bind_run_iff]
    constructor
    · rintro ⟨a, is₁, ha, h⟩
      obtain ⟨c, hc, rfl, rfl⟩ := (hp _ _ _).mp ha
      obtain ⟨as, is₂, has, h⟩ := bind_run_iff.mp h
      obtain ⟨cs, ⟨hlen, hcs⟩, rfl, rfl⟩ := (ih _ _ _).mp has
      obtain ⟨rfl, rfl⟩ := pure_run_iff.mp h
      refine ⟨c :: cs, ⟨by rw [List.length_cons, hlen], List.forall_mem_cons.mpr ⟨hc, hcs⟩⟩, ?_, rfl⟩
      rw [List.flatMap_cons, List.append_assoc]
    · rintro ⟨cs, ⟨hlen, hcs⟩, rfl, rfl⟩
      obtain ⟨c, cs, rfl⟩ := List.exists_cons_of_length_eq_add_one hlen
      obtain ⟨hc, hcs⟩ := List.forall_mem_cons.mp hcs
      refine ⟨value c, cs.flatMap encode ++ is', (hp _ _ _).mpr ⟨c, hc, ?_, rfl⟩, bind_run_iff.mpr
        ⟨cs.map value, is', (ih _ _ _).mpr ⟨cs, ⟨by simpa using hlen, hcs⟩, rfl, rfl⟩, rfl⟩⟩
      rw [List.flatMap_cons, List.append_assoc]

end Readers

end OpenVino
