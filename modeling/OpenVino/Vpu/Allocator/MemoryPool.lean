import OpenVino.Base.Exception
import Mathlib.Data.List.Basic

/-!
# The memory pools of the VPU allocator

`allocator/structs.hpp` and the pool half of `Allocator`: `allocateMem` (best fit from the free pool,
else a new chunk behind `curMemOffset`), `checkMemPool`, `addNewChunk`, `freeMem` with its coalescing
loop, and `selfCheck`.

A chunk is named by its list node: `posInList` is `_posInList`, which is also what a `MemChunk*` points
to, and `nextNode` supplies a fresh one for each `emplace`. An `int` is an `Int`: every sum the functions
form is bounded by `_maxCmxSize` or `DDR_MAX_SIZE` before it is formed.
-/

namespace OpenVino.Vpu

inductive MemoryType
  | DDR
  | CMX
deriving DecidableEq

def MemoryType.name : MemoryType → String
  | .DDR => "DDR"
  | .CMX => "CMX"

def DDR_MAX_SIZE : Int := 512 * 1024 * 1024
def CMX_SLICE_SIZE : Int := 128 * 1024
def DATA_ALIGNMENT : Int := 64

structure MemChunk where
  memType : MemoryType
  pointer : Int
  offset : Int
  size : Int
  inUse : Int
  posInList : Nat
deriving DecidableEq

structure FreeMemory where
  offset : Int
  size : Int
deriving DecidableEq

structure MemoryPool where
  curMemOffset : Int := 0
  memUsed : Int := 0
  allocatedChunks : List MemChunk := []
  freePool : List FreeMemory := []
deriving DecidableEq

def MemoryPool.clear (_ : MemoryPool) : MemoryPool := {}

/-- The members of `Allocator` that the pool functions read and write. -/
structure MemPools where
  maxCmxSize : Int
  ddrMemoryPool : MemoryPool := {}
  cmxMemoryPool : MemoryPool := {}
  lockedSHAVEs : Int := 0
  nextNode : Nat := 0
deriving DecidableEq

namespace MemPools

/-- `_memPools.at(memType)` -/
def pool (a : MemPools) : MemoryType → MemoryPool
  | .DDR => a.ddrMemoryPool
  | .CMX => a.cmxMemoryPool

def setPool (a : MemPools) (t : MemoryType) (p : MemoryPool) : MemPools :=
  match t with
  | .DDR => { a with ddrMemoryPool := p }
  | .CMX => { a with cmxMemoryPool := p }

end MemPools

/-! ### Allocation -/

/-- The scan of `checkMemPool` from index `i` on: `best` is `*minMemIt` with its position, and its size is
`minMemSizeToUse`. A later block replaces it only if it is strictly smaller. -/
def findMinMem (size : Int) : List FreeMemory → Nat → Option (FreeMemory × Nat) → Option (FreeMemory × Nat)
  | [], _, best => best
  | mem :: rest, i, best =>
    if mem.size ≥ size ∧ best.all (fun b => mem.size < b.1.size) then
      findMinMem size rest (i + 1) (some (mem, i))
    else findMinMem size rest (i + 1) best

/-- `addNewChunk` on a pool; `node` is the list node that `emplace` creates. -/
def addNewChunk (memPool : MemoryPool) (memType : MemoryType) (offset pointer size inUse : Int) (node : Nat) :
    MemChunk × MemoryPool :=
  let newChunk : MemChunk := ⟨memType, pointer, offset, size, inUse, node⟩
  (newChunk, { memPool with allocatedChunks := memPool.allocatedChunks ++ [newChunk] })

namespace MemPools

/-- `pointer` of `checkMemPool` -/
def carvedPointer (a : MemPools) (memType : MemoryType) (offset size : Int) : Result Int := do
  match memType with
  | .DDR => pure offset
  | .CMX =>
    ieAssert "offset + size <= _maxCmxSize" (offset + size ≤ a.maxCmxSize)
    pure (a.maxCmxSize - offset - size)

def checkMemPool (a : MemPools) (memPool : MemoryPool) (memType : MemoryType) (size inUse : Int) :
    Result (Option (MemChunk × MemoryPool)) := do
  match findMinMem size memPool.freePool 0 none with
  | none => pure none
  | some (minMem, minMemIt) =>
    let offset := minMem.offset + minMem.size - size
    let pointer ← a.carvedPointer memType offset size
    let (chunk, memPool) := addNewChunk memPool memType offset pointer size inUse a.nextNode
    let rest := minMem.size - size
    -- the chunk is carved from the tail of the block; an emptied block is erased
    let freePool :=
      if rest = 0 then memPool.freePool.eraseIdx minMemIt
      else memPool.freePool.set minMemIt { minMem with size := rest }
    pure (some (chunk, { memPool with freePool }))

/-- `freeSpace` of `allocateMem`: what is left behind `curMemOffset`. -/
def freeSpace (a : MemPools) (memType : MemoryType) : Result Int := do
  let memPool := a.pool memType
  match memType with
  | .CMX =>
    let shavesCMX := a.lockedSHAVEs * CMX_SLICE_SIZE
    ieAssert "memPool->curMemOffset + shavesCMX <= _maxCmxSize"
      (memPool.curMemOffset + shavesCMX ≤ a.maxCmxSize)
    pure (a.maxCmxSize - (memPool.curMemOffset + shavesCMX))
  | .DDR =>
    ieAssert "memPool->curMemOffset <= DDR_MAX_SIZE" (memPool.curMemOffset ≤ DDR_MAX_SIZE)
    pure (DDR_MAX_SIZE - memPool.curMemOffset)

/-- `pointer` of `allocateMem` -/
def newPointer (a : MemPools) (memType : MemoryType) (size : Int) : Result Int := do
  let memPool := a.pool memType
  match memType with
  | .CMX =>
    ieAssert "memPool->curMemOffset + size <= _maxCmxSize" (memPool.curMemOffset + size ≤ a.maxCmxSize)
    pure (a.maxCmxSize - (memPool.curMemOffset + size))
  | .DDR => pure memPool.curMemOffset

/-- `Allocator::allocateMem`; `none` is the null pointer. -/
def allocateMem (a : MemPools) (memType : MemoryType) (size inUse : Int) :
    Result (Option MemChunk × MemPools) := do
  let memPool := a.pool memType
  match ← a.checkMemPool memPool memType size inUse with
  | some (chunk, memPool) =>
    let memPool := { memPool with memUsed := max memPool.memUsed (chunk.offset + chunk.size) }
    pure (some chunk, { a.setPool memType memPool with nextNode := a.nextNode + 1 })
  | none =>
    let freeSpace ← a.freeSpace memType
    if size > freeSpace then
      pure (none, a)
    else
      let pointer ← a.newPointer memType size
      let (chunk, memPool) :=
        addNewChunk memPool memType memPool.curMemOffset pointer size inUse a.nextNode
      let memPool := { memPool with curMemOffset := memPool.curMemOffset + size }
      let memPool := { memPool with memUsed := max memPool.memUsed (chunk.offset + chunk.size) }
      pure (some chunk, { a.setPool memType memPool with nextNode := a.nextNode + 1 })

end MemPools

/-! ### Deallocation -/

/-- One pass of the `for` loop of `freeMem`: the first block that touches `newMem` is joined to it and
erased; `none` when the loop ends with `found == false`. -/
def joinFirst (newMem : FreeMemory) : List FreeMemory → Result (Option (FreeMemory × List FreeMemory))
  | [] => pure none
  | mem :: rest => do
    ieAssert "newMem.offset != memPoolIt->offset" (newMem.offset ≠ mem.offset)
    if newMem.offset + newMem.size = mem.offset then
      pure (some ({ newMem with size := newMem.size + mem.size }, rest))
    else if mem.offset + mem.size = newMem.offset then
      pure (some (⟨mem.offset, newMem.size + mem.size⟩, rest))
    else
      let joined ← joinFirst newMem rest
      pure (joined.map fun r => (r.1, mem :: r.2))

/-- The `while (true)` loop of `freeMem`. Each joined block leaves the free pool, so one pass more than
there are blocks is enough (`coalesce_ok`). -/
def coalesce : Nat → FreeMemory → List FreeMemory → Result (FreeMemory × List FreeMemory)
  | 0, newMem, freePool => pure (newMem, freePool)
  | passes + 1, newMem, freePool => do
    match ← joinFirst newMem freePool with
    | none => pure (newMem, freePool)
    | some (newMem, freePool) => coalesce passes newMem freePool

/-- The `if (!found)` branch: what could not be joined any further is given back or kept as a free block. -/
def MemoryPool.giveBack (memPool : MemoryPool) (newMem : FreeMemory) (freePool : List FreeMemory) :
    MemoryPool :=
  if newMem.offset + newMem.size = memPool.curMemOffset then
    { memPool with freePool, curMemOffset := newMem.offset }
  else { memPool with freePool := freePool ++ [newMem] }

namespace MemPools

/-- `Allocator::freeMem` -/
def freeMem (a : MemPools) (chunk : MemChunk) : Result MemPools := do
  let memPool := a.pool chunk.memType
  let (newMem, freePool) ←
    coalesce (memPool.freePool.length + 1) ⟨chunk.offset, chunk.size⟩ memPool.freePool
  let memPool := memPool.giveBack newMem freePool
  ieAssert "chunk->_posInList != memPool->allocatedChunks.end()"
    (memPool.allocatedChunks.any (·.posInList = chunk.posInList))
  let allocatedChunks := memPool.allocatedChunks.eraseP (·.posInList = chunk.posInList)
  pure (a.setPool chunk.memType { memPool with allocatedChunks })

/-- `Allocator::selfCheck`; `_memPools` lists DDR before CMX. -/
def selfCheck (a : MemPools) : Result Unit := do
  if a.lockedSHAVEs > 0 then
    throwException "Internal error in SHAVEs allocation"
  for t in [MemoryType.DDR, MemoryType.CMX] do
    if !(a.pool t).freePool.isEmpty || (a.pool t).curMemOffset > 0 then
      throwException ("Internal error in " ++ t.name ++ " allocation")

end MemPools

end OpenVino.Vpu
