import OpenVino.Base.Interleave
import OpenVino.InferenceEngine.ElementLoops
import OpenVino.InferenceEngine.ShapeInfer.ConstInfer.BroadcastOffset
import OpenVino.InferenceEngine.TensorOffset

/-!
# Blobs of bytes

Most of the constant inference moves elements and does not look at them: its blobs are bytes, and an element is as many
of them as its precision says. `Stores` says what a blob has in its memory.
-/

namespace OpenVino.InferenceEngine

/-- `sizeof` of the `value_type` of a precision. A custom precision, which brings its own number of bits, has none. -/
def Precision.typeSize : Precision → Nat
  | FP32 | I32 => 4
  | FP16 | Q78 | I16 | U16 => 2
  | U8 | I8 | BIN => 1
  | I64 => 8
  | UNSPECIFIED | MIXED | CUSTOM => 0

def Precision.bitsSize (precision : Precision) : Nat := (if precision = BIN then 1 else 8) * precision.typeSize

def Precision.size (precision : Precision) : Result Nat :=
  if precision.bitsSize = 0 then throwException (" cannot estimate element if precision is " ++ precision.name)
  else return precision.bitsSize / 8

namespace ShapeInfer

abbrev ByteBlob := Blob (List (BitVec 8))

/-- `element_size`, of a blob whose type is that of its precision. -/
def ByteBlob.element_size (blob : ByteBlob) : Nat := blob.tensorDesc.precision.typeSize

/-- What the pointer to the memory of a blob points to. -/
def ByteBlob.memory (blob : ByteBlob) : List (BitVec 8) := blob.buffer.getD []

/-- `memcpy(dst + i, src + j, n)`. -/
def memcpy (dst : List (BitVec 8)) (i : Nat) (src : List (BitVec 8)) (j n : Nat) : Result (List (BitVec 8)) :=
  if i + n ≤ dst.length ∧ j + n ≤ src.length then return overlay dst i ((src.drop j).take n)
  else .error (.undefinedBehaviour "memcpy")

variable {dst src : List (BitVec 8)} {blob : ByteBlob} {precision : Precision} {shape : SizeVector}
  {bytes : List (BitVec 8)} {i j n s : Nat}

theorem memcpy_eq (hdst : i + n ≤ dst.length) (hsrc : j + n ≤ src.length) :
    memcpy dst i src j n = .ok (overlay dst i ((src.drop j).take n)) := by
  rw [memcpy, if_pos ⟨hdst, hsrc⟩]
  rfl

/-- Elements that are copied one after the other are copied together. -/
theorem memcpy_append {k : Nat} (hdst : (i + k + 1) * s ≤ dst.length) (hsrc : (j + k + 1) * s ≤ src.length) :
    memcpy (overlay dst (i * s) ((src.drop (j * s)).take (k * s))) ((i + k) * s) src ((j + k) * s) s =
      .ok (overlay dst (i * s) ((src.drop (j * s)).take ((k + 1) * s))) := by
  rw [Nat.succ_mul] at hdst hsrc
  rw [Nat.add_mul] at hdst hsrc
  have htaken : ((src.drop (j * s)).take (k * s)).length = k * s := by
    rw [List.length_take_of_le]
    rw [List.length_drop]
    omega
  have hinside : i * s + ((src.drop (j * s)).take (k * s)).length ≤ dst.length := by omega
  have hlength := length_overlay hinside
  have happend := @overlay_overlay _ dst ((src.drop (j * s)).take (k * s)) ((src.drop (j * s + k * s)).take s) (i * s)
    hinside
  rw [htaken] at happend
  rw [Nat.add_mul, Nat.add_mul, memcpy_eq (by omega) (by omega), happend, Nat.succ_mul, List.take_add, List.drop_drop]

/-- A loop that writes rows to different places, in any order. -/
theorem foldlM_overlay {ι : Type} {calls : List ι} {f : ι → Nat} {row : ι → List (BitVec 8)}
    {write : List (BitVec 8) → ι → Result (List (BitVec 8))} (hnodup : (calls.map f).Nodup)
    (hdst : ∀ c ∈ calls, (f c + 1) * s ≤ dst.length) (hrow : ∀ c ∈ calls, (row c).length = s)
    (hwrite : ∀ out : List (BitVec 8), out.length = dst.length → ∀ c ∈ calls,
      write out c = .ok (overlay out (f c * s) (row c))) :
    ∃ out, calls.foldlM write dst = .ok out ∧ out.length = dst.length ∧
      (∀ c ∈ calls, rowAt s out (f c) = row c) ∧ ∀ i ∉ calls.map f, rowAt s out i = rowAt s dst i := by
  induction calls generalizing dst with
  | nil => exact ⟨dst, rfl, rfl, fun c hc => absurd hc List.not_mem_nil, fun _ _ => rfl⟩
  | cons c calls ih =>
    obtain ⟨hdstHead, hdstTail⟩ := List.forall_mem_cons.mp hdst
    obtain ⟨hrowHead, hrowTail⟩ := List.forall_mem_cons.mp hrow
    rw [List.map_cons, List.nodup_cons] at hnodup
    rw [Nat.succ_mul] at hdstHead
    have hlength : (overlay dst (f c * s) (row c)).length = dst.length := length_overlay (by rwa [hrowHead])
    obtain ⟨out, hrun, hout, hwritten, hkept⟩ := @ih (overlay dst (f c * s) (row c)) hnodup.2 (by rwa [hlength]) hrowTail
      fun out hout c' hc' => hwrite out (hout.trans hlength) c' (List.mem_cons_of_mem _ hc')
    refine ⟨out, ?_, hout.trans hlength, List.forall_mem_cons.mpr ⟨?_, hwritten⟩, fun i hi => ?_⟩
    · rw [List.foldlM_cons, hwrite dst rfl c List.mem_cons_self]
      exact hrun
    · rw [hkept _ hnodup.1, rowAt_overlay_self (by omega) hrowHead]
    · rw [List.map_cons, List.mem_cons, not_or] at hi
      rw [hkept i hi.2, rowAt_overlay_of_ne hdstHead hrowHead hi.1]

/-- A loop that copies elements to different places, in any order. -/
theorem foldlM_memcpy {ι : Type} {calls : List ι} {f g : ι → Nat} (hnodup : (calls.map f).Nodup)
    (hdst : ∀ c ∈ calls, (f c + 1) * s ≤ dst.length) (hsrc : ∀ c ∈ calls, (g c + 1) * s ≤ src.length) :
    ∃ out, calls.foldlM (fun out c => memcpy out (f c * s) src (g c * s) s) dst = .ok out ∧ out.length = dst.length ∧
      (∀ c ∈ calls, rowAt s out (f c) = rowAt s src (g c)) ∧ ∀ i ∉ calls.map f, rowAt s out i = rowAt s dst i := by
  refine foldlM_overlay hnodup hdst (fun c hc => length_rowAt (hsrc c hc)) fun out hout c hc => ?_
  have hinside := hdst c hc
  have hinside' := hsrc c hc
  rw [Nat.succ_mul] at hinside hinside'
  exact memcpy_eq (by omega) hinside'

/-- The blob has these dimensions and these bytes in its memory. No object has `2 ^ 63` bytes. -/
structure Stores (blob : ByteBlob) (precision : Precision) (shape : SizeVector) (bytes : List (BitVec 8)) : Prop where
  element : blob.tensorDesc.precision = precision
  dims : blob.tensorDesc.dims = shape
  scalar : blob.tensorDesc.layout = .SCALAR → shape.prod = 1
  buffer : blob.buffer = some bytes
  length : bytes.length = shape.prod * precision.typeSize
  small : bytes.length < 2 ^ 63

theorem Stores.memory (h : Stores blob precision shape bytes) : blob.memory = bytes := by
  rw [ByteBlob.memory, h.buffer]
  rfl

theorem Stores.element_size (h : Stores blob precision shape bytes) : blob.element_size = precision.typeSize := by
  rw [ByteBlob.element_size, h.element]

theorem Stores.prod_lt (h : Stores blob precision shape bytes) (hs : 0 < precision.typeSize) : shape.prod < 2 ^ 63 := by
  have hlength := h.length
  have hsmall := h.small
  have hle := Nat.le_mul_of_pos_right shape.prod hs
  omega

theorem Stores.size (h : Stores blob precision shape bytes) (hs : 0 < precision.typeSize) (hne : shape ≠ []) :
    blob.size = shape.prod := by
  unfold Blob.size
  split_ifs with hscalar
  · exact (h.scalar hscalar).symm
  · have hlt := h.prod_lt hs
    rw [h.dims, product, if_neg hne, Nat.mod_eq_of_lt (by omega)]

/-- Other bytes in the memory. -/
theorem Stores.write {bytes' : List (BitVec 8)} (h : Stores blob precision shape bytes)
    (hlength : bytes'.length = bytes.length) : Stores { blob with buffer := some bytes' } precision shape bytes' :=
  ⟨h.element, h.dims, h.scalar, rfl, hlength.trans h.length, hlength ▸ h.small⟩

end ShapeInfer

end OpenVino.InferenceEngine
