import Mathlib

/-!
# The requests of the GNA memory

`MemRequest` with its three constructors, and the requests that the calls of `GNAMemRequestsQueue` push. A
pointer is the address of a variable or of data outside the heap. `ofInitializer` makes the request of an
initializer; which function it is does not matter here, a request stands for its own. An alignment is
positive: every size is divided by one.

`Queued`: the requests the interface can push. `Queued.bound_cases`: a bound request is a bind, or the
initializer of a requested pointer, which has no bytes and no offset of its own.
-/

namespace OpenVino.GNAPlugin

abbrev Ptr := Nat

def nullptr : Ptr := 0

def REQUEST_STORE : BitVec 8 := 0x1
def REQUEST_ALLOCATE : BitVec 8 := 0x2
def REQUEST_BIND : BitVec 8 := 0x4
def REQUEST_INITIALIZER : BitVec 8 := 0x8

inductive rRegion
  | REGION_RO
  | REGION_RW
  | REGION_AUTO
deriving DecidableEq

structure MemRequest where
  region : rRegion
  type : BitVec 8
  ptr_out : Ptr
  ptr_in : Ptr
  /-- The bytes of the value of a `push_value`. -/
  data : List (BitVec 8)
  element_size : Nat
  num_elements : Nat
  alignment : ℕ+
  offset : Nat
  /-- expansion in bytes due to large depended layers -/
  padding : Nat

/-- The alignment of a call that names none. -/
def unaligned : ℕ+ := 1

namespace MemRequest

variable (region : rRegion) (req : BitVec 8) (ptr_out ptr_in : Ptr) (element_size num_elements : Nat)
  (alignment : ℕ+) (offset : Nat)

def ofPointers : MemRequest :=
  { region, type := req, ptr_out, ptr_in, data := [], element_size, num_elements, alignment, offset, padding := 0 }

def ofElement (element : List (BitVec 8)) : MemRequest :=
  { region, type := REQUEST_STORE, ptr_out, ptr_in := nullptr, data := element
    element_size := element.length % 2 ^ 8, num_elements, alignment, offset := 0, padding := 0 }

def ofInitializer (regionSize : Nat) : MemRequest :=
  { region, type := REQUEST_INITIALIZER ||| req, ptr_out, ptr_in := ptr_out, data := [], element_size := 1
    num_elements := regionSize, alignment, offset := 0, padding := 0 }

/-- The test `_type & REQUEST_BIND`. -/
def Bound (re : MemRequest) : Prop := re.type &&& REQUEST_BIND ≠ 0

instance (re : MemRequest) : Decidable re.Bound := inferInstanceAs (Decidable (_ ≠ _))

/-- The bytes the request asks for. -/
def size (re : MemRequest) : Nat := re.num_elements * re.element_size

/-- `_num_elements * _element_size` as the code computes it. -/
def bytes (re : MemRequest) : Nat := re.size % 2 ^ 64

end MemRequest

/-! ### The calls of the queue -/

/-- The two queues: the memory itself and its `readonly()` front end. -/
inductive GNAMemRequestsQueue
  | memory
  | readonly

namespace GNAMemRequestsQueue

def regionType : GNAMemRequestsQueue → rRegion
  | memory => .REGION_RW
  | readonly => .REGION_RO

variable (queue : GNAMemRequestsQueue) (ptr_out ptr_in source dest : Ptr) (num_bytes offset : Nat) (alignment : ℕ+)

def push_initializer : MemRequest :=
  .ofInitializer queue.regionType REQUEST_INITIALIZER ptr_out alignment num_bytes

def push_ptr : MemRequest :=
  .ofPointers queue.regionType REQUEST_STORE ptr_out ptr_in 1 num_bytes alignment 0

/-- `local_copy` is where the storage of the queue keeps its copy of the input. -/
def push_local_ptr (local_copy : Ptr) : MemRequest :=
  .ofPointers queue.regionType REQUEST_STORE ptr_out local_copy 1 num_bytes alignment 0

def reserve_ptr : MemRequest :=
  .ofPointers queue.regionType REQUEST_ALLOCATE ptr_out nullptr 1 num_bytes alignment 0

def bind_ptr : MemRequest :=
  .ofPointers queue.regionType REQUEST_BIND source dest 1 num_bytes unaligned offset

def bind_initializer : MemRequest :=
  .ofInitializer queue.regionType REQUEST_BIND ptr_out unaligned 0

def push_value (value : List (BitVec 8)) (num_elements : Nat) : MemRequest :=
  .ofElement queue.regionType ptr_out num_elements alignment value

end GNAMemRequestsQueue

open GNAMemRequestsQueue

/-- A request that a call on a queue pushes. What is bound, and what it is bound to, is a variable, so its address is
not null. -/
inductive Queued : MemRequest → Prop
  | push_initializer (queue ptr_out num_bytes alignment) : Queued (push_initializer queue ptr_out num_bytes alignment)
  | push_ptr (queue ptr_out ptr_in num_bytes alignment) : Queued (push_ptr queue ptr_out ptr_in num_bytes alignment)
  | push_local_ptr (queue ptr_out num_bytes alignment local_copy) :
      Queued (push_local_ptr queue ptr_out num_bytes alignment local_copy)
  | reserve_ptr (queue ptr_out num_bytes alignment) : Queued (reserve_ptr queue ptr_out num_bytes alignment)
  | bind_ptr (queue source dest num_bytes offset) (hs : source ≠ nullptr) (hd : dest ≠ nullptr) :
      Queued (bind_ptr queue source dest num_bytes offset)
  | bind_initializer (queue ptr_out) (hp : ptr_out ≠ nullptr) : Queued (bind_initializer queue ptr_out)
  | push_value (queue ptr_out alignment value num_elements) :
      Queued (push_value queue ptr_out alignment value num_elements)

namespace Queued

variable {re : MemRequest}

theorem padding_eq (h : Queued re) : re.padding = 0 := by
  cases h <;> rfl

theorem region_eq (h : Queued re) : re.region = .REGION_RW ∨ re.region = .REGION_RO := by
  have hqueue : ∀ queue : GNAMemRequestsQueue, queue.regionType = .REGION_RW ∨ queue.regionType = .REGION_RO := by
    intro queue
    cases queue with
    | memory => exact Or.inl rfl
    | readonly => exact Or.inr rfl
  cases h <;> exact hqueue _

theorem not_bound_of_type
    (h : re.type = REQUEST_STORE ∨ re.type = REQUEST_ALLOCATE ∨ re.type = REQUEST_INITIALIZER ||| REQUEST_INITIALIZER) :
    ¬ re.Bound := by
  unfold MemRequest.Bound
  rcases h with h | h | h <;> rw [h] <;> decide

theorem ptrs_ne (h : Queued re) (hb : re.Bound) : re.ptr_out ≠ nullptr ∧ re.ptr_in ≠ nullptr := by
  cases h with
  | bind_ptr _ _ _ _ _ hs hd => exact ⟨hs, hd⟩
  | bind_initializer _ _ hp => exact ⟨hp, hp⟩
  | reserve_ptr => exact absurd hb (not_bound_of_type (Or.inr (Or.inl rfl)))
  | push_initializer => exact absurd hb (not_bound_of_type (Or.inr (Or.inr rfl)))
  | _ => exact absurd hb (not_bound_of_type (Or.inl rfl))

/-- A bound request is a bind, or an initializer with no bytes of its own. -/
theorem bound_cases (h : Queued re) (hb : re.Bound) : re.type = REQUEST_BIND ∨
    (re.type = REQUEST_INITIALIZER ||| REQUEST_BIND ∧
      re.ptr_in = re.ptr_out ∧ re.offset = 0 ∧ re.size = 0 ∧ re.padding = 0 ∧ re.alignment = unaligned) := by
  cases h with
  | bind_ptr => exact Or.inl rfl
  | bind_initializer => exact Or.inr ⟨rfl, rfl, rfl, rfl, rfl, rfl⟩
  | reserve_ptr => exact absurd hb (not_bound_of_type (Or.inr (Or.inl rfl)))
  | push_initializer => exact absurd hb (not_bound_of_type (Or.inr (Or.inr rfl)))
  | _ => exact absurd hb (not_bound_of_type (Or.inl rfl))

end Queued

end OpenVino.GNAPlugin
