import OpenVino.InferenceEngine.SizeT
import OpenVino.GNAPlugin.MemRequests

/-!
# `GNAMemory::commit`

The queue of `n` requests is a function on `Fin n`, and a pointer variable that `commit` has not set to an
address of the heap holds `none`; `some p` is `p` bytes from the start of the heap. `iterate_binded` lists the
calls of its visitor: what the visitors change is nothing the recursion reads. It has no check for circular
dependencies, so it can run out of fuel. `Setup` is what the two `setupOffsets` loops change. Its `placed`
is no variable of the source: it remembers where `offset` stood when a request that is not bound got its place.
Its `writes` are the writes into the heap, in order. The allocation itself is taken to succeed.
-/

namespace OpenVino.GNAPlugin

open InferenceEngine (toInt toSizeT)

variable {n : Nat}

/-- The macro: the quotient is cast to `int`. -/
def ALIGN (memSize : Nat) (pad : ℕ+) : Nat :=
  toSizeT (toInt ((memSize + pad - 1) % 2 ^ 64 / pad) * pad)

abbrev FutureHeap (n : Nat) := Fin n → MemRequest

/-! ### Bound requests -/

namespace FutureHeap

variable (heap : FutureHeap n)

/-- `b` is bound to the pointer of `r`. -/
def Binds (r b : Fin n) : Prop := (heap b).Bound ∧ (heap b).ptr_in = (heap r).ptr_out

instance (r b : Fin n) : Decidable (heap.Binds r b) := inferInstanceAs (Decidable (_ ∧ _))

def binded (reference : Fin n) : List (Fin n) := (List.finRange n).filter fun re => heap.Binds reference re

def iterate_binded : Nat → Fin n → Result (List (Fin n × Fin n))
  | 0, _ => .error .outOfFuel
  | fuel + 1, reference => do
    let visits ← (heap.binded reference).mapM fun re =>
      -- primitive loop check
      if (heap re).ptr_in = (heap re).ptr_out then .ok [(reference, re)]
      else do
        let below ← iterate_binded fuel re
        return (reference, re) :: below
    return visits.flatten

def visits (reference : Fin n) : Result (List (Fin n × Fin n)) := heap.iterate_binded (n + 1) reference

/-! ### The first stage: bound requests that need a larger buffer -/

/-- The locals of the visitor: the offset it adds up and the padding of the originated request. -/
structure Growth where
  offset : Nat
  padding : Nat

def grow (originated : Fin n) (g : Growth) (visit : Fin n × Fin n) : Growth :=
  let root := heap originated
  let binded := heap visit.2
  let offset := ((if originated = visit.1 then 0 else g.offset) + binded.offset) % 2 ^ 64
  let current := (offset + ALIGN binded.bytes binded.alignment) % 2 ^ 64
  let original_no_pad := ALIGN root.bytes root.alignment
  let original_with_pad := ALIGN ((root.bytes + g.padding) % 2 ^ 64) root.alignment
  { offset
    padding := (ALIGN (max original_with_pad current) root.alignment + 2 ^ 64 - original_no_pad) % 2 ^ 64 }

def expandRequest (originated : Fin n) : Result (FutureHeap n) :=
  if (heap originated).Bound then .ok heap
  else do
    let visits ← heap.visits originated
    let grown := visits.foldl (heap.grow originated) ⟨0, (heap originated).padding⟩
    return Function.update heap originated { heap originated with padding := grown.padding }

def expand : Result (FutureHeap n) := (List.finRange n).foldlM expandRequest heap

/-! ### The sizes of the sections -/

/-- What a request takes of its section. -/
def reserved (re : Fin n) : Nat := ALIGN (((heap re).bytes + (heap re).padding) % 2 ^ 64) (heap re).alignment

structure Sections where
  rw_section_size : Nat
  ro_section_size : Nat

def countRequest (sizes : Sections) (re : Fin n) : Sections :=
  if (heap re).type = REQUEST_BIND then sizes
  else if (heap re).region = .REGION_RW then
    { sizes with rw_section_size := (sizes.rw_section_size + heap.reserved re) % 2 ^ 64 }
  else { sizes with ro_section_size := (sizes.ro_section_size + heap.reserved re) % 2 ^ 64 }

def updateSectionsSizes (page_alignment : ℕ+) : Sections :=
  let sizes := (List.finRange n).foldl heap.countRequest ⟨0, 0⟩
  ⟨ALIGN sizes.rw_section_size page_alignment, ALIGN sizes.ro_section_size page_alignment⟩

end FutureHeap

/-! ### The second stage: offsets and pointers -/

inductive Write (n : Nat)
  | ie_memcpy (request : Fin n) (dest : Option Nat) (destsz count : Nat)
  /-- The value of a `push_value`, once for every element. -/
  | fill (request : Fin n) (dest : Option Nat)
  | initializer (request : Fin n) (data : Option Nat) (size : Nat)
deriving DecidableEq

structure Setup (n : Nat) where
  heap : FutureHeap n
  /-- What the pointer variables hold. -/
  cells : Ptr → Option Nat
  offset : Nat
  placed : Fin n → Option Nat
  writes : List (Write n)

namespace Setup

/-- The visitor that sets the pointer of a bound request. -/
def resolve (s : Setup n) (visit : Fin n × Fin n) : Setup n :=
  let reference := s.heap visit.1
  let binded := s.heap visit.2
  { s with
    cells := Function.update s.cells binded.ptr_out
      ((s.cells reference.ptr_out).map fun p => (binded.offset + p) % 2 ^ 64)
    heap := Function.update s.heap visit.2
      { binded with num_elements := reference.num_elements, element_size := reference.element_size } }

/-- The `switch` over the type without the bind bit. -/
def contents (re : MemRequest) (request : Fin n) (cptr : Option Nat) (cptr_avail_size sz : Nat) : List (Write n) :=
  if re.type &&& ~~~REQUEST_BIND = REQUEST_STORE then
    if re.ptr_in ≠ nullptr then [.ie_memcpy request cptr cptr_avail_size sz] else [.fill request cptr]
  else if re.type &&& ~~~REQUEST_BIND = REQUEST_INITIALIZER then [.initializer request cptr sz]
  else []

/-- What is done for a request whose pointer is not null. -/
def setupPointer (total : Nat) (s : Setup n) (request : Fin n) : Result (Setup n) := do
  let re := s.heap request
  let cells := if re.Bound then s.cells else Function.update s.cells re.ptr_out (some s.offset)
  let cptr_avail_size := if re.Bound then re.bytes else (total + 2 ^ 64 - s.offset) % 2 ^ 64
  let visits ← s.heap.visits request
  let resolved := visits.foldl resolve { s with cells }
  return { resolved with
    writes := resolved.writes ++ contents re request (cells re.ptr_out) cptr_avail_size re.bytes }

def place (s : Setup n) (request : Fin n) : Setup n :=
  { s with
    offset := (s.offset + s.heap.reserved request) % 2 ^ 64
    placed := Function.update s.placed request (some s.offset) }

/-- One round of the loop of `setupOffsets`. -/
def setupRequest (total : Nat) (filter : MemRequest → Bool) (s : Setup n) (request : Fin n) : Result (Setup n) :=
  let re := s.heap request
  if re.type = REQUEST_BIND ∨ filter re then .ok s
  else do
    let s' ← (if re.ptr_out = nullptr then .ok s else setupPointer total s request)
    return if re.Bound then s' else s'.place request

def setupOffsets (total : Nat) (filter : MemRequest → Bool) (s : Setup n) : Result (Setup n) :=
  (List.finRange n).foldlM (setupRequest total filter) s

end Setup

/-- The filters of the two calls: what they let through is set up. -/
def notReadWrite (request : MemRequest) : Bool := !request.Bound && request.region ≠ .REGION_RW

def notReadOnly (request : MemRequest) : Bool := request.Bound || request.region ≠ .REGION_RO

structure GNAMemory (n : Nat) where
  sections : FutureHeap.Sections
  total : Nat
  setup : Setup n

def commit (page_alignment : ℕ+) (future_heap : FutureHeap n) : Result (GNAMemory n) := do
  let heap ← future_heap.expand
  let sections := heap.updateSectionsSizes page_alignment
  let total := (sections.rw_section_size + sections.ro_section_size) % 2 ^ 64
  let rw ← Setup.setupOffsets total notReadWrite
    { heap, cells := fun _ => none, offset := 0, placed := fun _ => none, writes := [] }
  let setup ← Setup.setupOffsets total notReadOnly { rw with offset := sections.rw_section_size }
  return { sections, total, setup }

end OpenVino.GNAPlugin
