import OpenVino.Vpu.Allocator.PoolRuns
import OpenVino.Vpu.Model.Graph

/-!
# SHAVEs and CMX

`AllocatorForShaves` locks whole CMX slices from the end of the memory that the CMX pool fills from its
start. `Accounted` is what the two keep between them: behind `curMemOffset` and the locked slices nothing
is handed out (`bound`), and no range of a pool passes the end of its memory (`within`). Every call keeps
it (`Accounted.lock`, `Accounted.allocateMem`, `Accounted.freeMem`), so it holds in every state that the
calls reach in any order, and under it no assertion fires.
-/

namespace OpenVino.Vpu

def SHAVES_LIMITATION_FOR_HW : Int := 2

inductive StageSHAVEsRequirements
  | NotNeeded
  | OnlyOne
  | TwoOrOne
  | CanBeLimited
  | NeedMax
deriving DecidableEq

/-- `Resources`, as the compile environment fills them: it refuses a number of SHAVEs below one or above
the number of slices. -/
structure Resources where
  numCMXSlices : Int
  numSHAVEs : Int
  numSHAVEs_pos : 1 ≤ numSHAVEs
  numSHAVEs_le : numSHAVEs ≤ numCMXSlices

/-- What `allocateSHAVEs` reads and writes of a stage: its category, those of its neighbours, and the
numbers of SHAVEs of the parent stage (if it is injected), of itself and of its injected children. -/
structure SHAVEsStage where
  category : StageCategory
  prevStages : List StageCategory := []
  nextStages : List StageCategory := []
  parentNumSHAVEs : Option Int := none
  numSHAVEs : Int := 0
  childrenNumSHAVEs : List Int := []

namespace SHAVEsStage

/-- `StageNode::setNumSHAVEs` -/
def setNumSHAVEs (stage : SHAVEsStage) (resources : Resources) (numSHAVEs : Int) : Result SHAVEsStage := do
  match stage.parentNumSHAVEs with
  | none => ieAssert "numSHAVEs <= totalNumSHAVEs" (numSHAVEs ≤ resources.numSHAVEs)
  | some parent => ieAssert "numSHAVEs == _parentStageEdge->parent()->_numSHAVEs" (numSHAVEs = parent)
  pure { stage with
    numSHAVEs, childrenNumSHAVEs := stage.childrenNumSHAVEs.map fun _ => numSHAVEs }

def needToLimit (stage : SHAVEsStage) : Bool :=
  stage.category = .HW || stage.prevStages.any (· = .HW) || stage.nextStages.any (· = .HW)

end SHAVEsStage

/-- `necessarySHAVEsNum` of `allocateSHAVEs`; `none` is `return false`. -/
def necessarySHAVEsNum (resources : Resources) (stage : SHAVEsStage) (reqs : StageSHAVEsRequirements)
    (numAvailableSHAVEs : Int) : Option Int :=
  match reqs with
  | .NeedMax => if numAvailableSHAVEs < resources.numSHAVEs then none else some numAvailableSHAVEs
  | .OnlyOne => some 1
  | .TwoOrOne => some (min numAvailableSHAVEs 2)
  | .CanBeLimited =>
    if stage.needToLimit then some (min numAvailableSHAVEs SHAVES_LIMITATION_FOR_HW)
    else some numAvailableSHAVEs
  | .NotNeeded => some numAvailableSHAVEs

namespace MemPools

def usedCMXslices (a : MemPools) : Int :=
  (a.cmxMemoryPool.curMemOffset + CMX_SLICE_SIZE - 1).tdiv CMX_SLICE_SIZE

def numAvailableSHAVEs (a : MemPools) (resources : Resources) : Int :=
  min (resources.numCMXSlices - a.usedCMXslices) resources.numSHAVEs

/-- `AllocatorForShaves::allocateSHAVEs`. The state is returned beside the outcome: the slices are locked
before `setNumSHAVEs` is called, and stay locked when it throws. -/
def allocateSHAVEs (a : MemPools) (resources : Resources) (stage : SHAVEsStage)
    (reqs : StageSHAVEsRequirements) : Result (Bool × SHAVEsStage) × MemPools :=
  if a.lockedSHAVEs ≠ 0 then
    (throwException "Can't allocate SHAVEs : was already allocated", a)
  else if reqs = .NotNeeded then
    (.ok (true, stage), a)
  else if ¬a.usedCMXslices ≤ resources.numCMXSlices then
    (.error (.assertionFailed "usedCMXslices <= env.resources.numCMXSlices"), a)
  else if a.numAvailableSHAVEs resources = 0 then
    (.ok (false, stage), a)
  else
    match necessarySHAVEsNum resources stage reqs (a.numAvailableSHAVEs resources) with
    | none => (.ok (false, stage), a)
    | some necessary =>
      ((stage.setNumSHAVEs resources necessary).map (true, ·), { a with lockedSHAVEs := necessary })

/-- `AllocatorForShaves::freeSHAVEs` -/
def freeSHAVEs (a : MemPools) : MemPools := { a with lockedSHAVEs := 0 }

end MemPools

/-! ### The accounts -/

/-- No range of the pool passes the end of its memory. -/
structure MemoryPool.Within (p : MemoryPool) (limit : Int) : Prop where
  chunk_end : ∀ c ∈ p.allocatedChunks, c.offset + c.size ≤ limit
  free_end : ∀ m ∈ p.freePool, m.offset + m.size ≤ limit

namespace MemPools

/-- The end of the memory of a pool. -/
def limit (a : MemPools) : MemoryType → Int
  | .DDR => DDR_MAX_SIZE
  | .CMX => a.maxCmxSize

/-- What is taken from the end of the memory of a pool. -/
def reserved (a : MemPools) : MemoryType → Int
  | .DDR => 0
  | .CMX => a.lockedSHAVEs * CMX_SLICE_SIZE

structure Accounted (resources : Resources) (a : MemPools) : Prop where
  inv : a.Inv
  maxCmxSize : a.maxCmxSize = resources.numCMXSlices * CMX_SLICE_SIZE
  locked_nonneg : 0 ≤ a.lockedSHAVEs
  bound : ∀ t, (a.pool t).curMemOffset + a.reserved t ≤ a.limit t
  within : ∀ t, (a.pool t).Within (a.limit t)

end MemPools

/-- Joining moves no end past the largest end there was. -/
theorem joinFirst_ends {newMem newMem' : FreeMemory} {l l' : List FreeMemory} {limit : Int}
    (h : joinFirst newMem l = .ok (some (newMem', l'))) (hsize : 0 ≤ newMem.size) (hl : ∀ m ∈ l, 0 ≤ m.size)
    (hend : newMem.offset + newMem.size ≤ limit) (hends : ∀ m ∈ l, m.offset + m.size ≤ limit) :
    0 ≤ newMem'.size ∧ newMem'.offset + newMem'.size ≤ limit ∧ ∀ m ∈ l', m ∈ l := by
  obtain ⟨pre, mem, post, rfl, rfl, hjoin⟩ := joinFirst_some h
  have hmem := hl mem (by simp)
  have hmemEnd := hends mem (by simp)
  refine ⟨?_, ?_, fun m hm => ?_⟩
  · rcases hjoin with ⟨-, rfl⟩ | ⟨-, rfl⟩ <;> simp only <;> omega
  · rcases hjoin with ⟨htouch, rfl⟩ | ⟨htouch, rfl⟩ <;> simp only <;> omega
  · rcases List.mem_append.mp hm with hm | hm <;> simp [hm]

theorem coalesce_ends {passes : Nat} {newMem newMem' : FreeMemory} {l l' : List FreeMemory} {limit : Int}
    (h : coalesce passes newMem l = .ok (newMem', l')) (hsize : 0 ≤ newMem.size) (hl : ∀ m ∈ l, 0 ≤ m.size)
    (hend : newMem.offset + newMem.size ≤ limit) (hends : ∀ m ∈ l, m.offset + m.size ≤ limit) :
    0 ≤ newMem'.size ∧ newMem'.offset + newMem'.size ≤ limit ∧ ∀ m ∈ l', m ∈ l := by
  induction passes generalizing newMem l with
  | zero =>
    simp only [coalesce, pure_ok_iff, Prod.mk.injEq] at h
    obtain ⟨rfl, rfl⟩ := h
    exact ⟨hsize, hend, fun m hm => hm⟩
  | succ passes ih =>
    rw [coalesce] at h
    obtain ⟨joined, hjoined, h⟩ := bind_ok_iff.mp h
    cases joined with
    | none =>
      simp only [pure_ok_iff, Prod.mk.injEq] at h
      obtain ⟨rfl, rfl⟩ := h
      exact ⟨hsize, hend, fun m hm => hm⟩
    | some r =>
      obtain ⟨newMem₁, l₁⟩ := r
      obtain ⟨hsize₁, hend₁, hsub₁⟩ := joinFirst_ends hjoined hsize hl hend hends
      obtain ⟨hsize', hend', hsub'⟩ := ih h hsize₁ (fun m hm => hl m (hsub₁ m hm)) hend₁
        fun m hm => hends m (hsub₁ m hm)
      exact ⟨hsize', hend', fun m hm => hsub₁ m (hsub' m hm)⟩

namespace MemoryPool

variable {p p' : MemoryPool} {chunk : MemChunk} {l₁ l₂ : List MemChunk} {passes : Nat} {limit : Int}
  {newMem : FreeMemory} {freePool : List FreeMemory}

theorem Within.empty (limit : Int) : ({} : MemoryPool).Within limit := ⟨by simp, by simp⟩

theorem Within.allocates (hw : p.Within limit) (h : p.Allocates chunk p') (hsize : 0 ≤ chunk.size)
    (hcur : p'.curMemOffset ≤ limit) : p'.Within limit := by
  have hchunks (hend : chunk.offset + chunk.size ≤ limit) :
      ∀ c ∈ p.allocatedChunks ++ [chunk], c.offset + c.size ≤ limit := by
    intro c hc
    rcases List.mem_append.mp hc with hc | hc
    · exact hw.chunk_end c hc
    · rwa [List.mem_singleton.mp hc]
  cases h with
  | carve pre mem post hfree hle hoffset =>
    have hmem := hw.free_end mem (by simp [hfree])
    refine ⟨hchunks (by omega), fun m hm => ?_⟩
    rcases List.mem_append.mp hm with hm | hm
    · rcases List.mem_append.mp hm with hm | hm
      · exact hw.free_end m (by simp [hfree, hm])
      · unfold FreeMemory.shrink at hm
        split_ifs at hm
        · simp at hm
        · rw [List.mem_singleton.mp hm]
          simp only
          omega
    · exact hw.free_end m (by simp [hfree, hm])
  | extend hoffset =>
    simp only at hcur
    exact ⟨hchunks (by omega), hw.free_end⟩

/-- Giving a chunk back moves no end past the limit, and `curMemOffset` only down. -/
theorem Within.giveBack (hw : p.Within limit) (hp : p.Inv) (hchunks : p.allocatedChunks = l₁ ++ chunk :: l₂)
    (hjoin : coalesce passes ⟨chunk.offset, chunk.size⟩ p.freePool = .ok (newMem, freePool)) :
    ({ p.giveBack newMem freePool with allocatedChunks := l₁ ++ l₂ } : MemoryPool).Within limit ∧
      (p.giveBack newMem freePool).curMemOffset ≤ p.curMemOffset := by
  have hchunk : chunk ∈ p.allocatedChunks := by simp [hchunks]
  obtain ⟨hsize, hend, hsub⟩ :=
    coalesce_ends hjoin (hp.chunk_nonneg chunk hchunk) hp.free_nonneg (hw.chunk_end chunk hchunk) hw.free_end
  have hrest : ∀ c ∈ l₁ ++ l₂, c.offset + c.size ≤ limit := by
    intro c hc
    refine hw.chunk_end c ?_
    rw [hchunks]
    rcases List.mem_append.mp hc with hc | hc <;> simp [hc]
  have hfree : ∀ m ∈ freePool, m.offset + m.size ≤ limit := fun m hm => hw.free_end m (hsub m hm)
  unfold MemoryPool.giveBack
  split_ifs with hlast
  · exact ⟨⟨hrest, hfree⟩, by simp only; omega⟩
  · refine ⟨⟨hrest, fun m hm => ?_⟩, le_refl _⟩
    rcases List.mem_append.mp hm with hm | hm
    · exact hfree m hm
    · rwa [List.mem_singleton.mp hm]

end MemoryPool

namespace MemPools

variable {resources : Resources} {a a' : MemPools} {t : MemoryType} {size inUse : Int}
  {r : Option MemChunk} {chunk : MemChunk} {stage : SHAVEsStage} {reqs : StageSHAVEsRequirements}

@[simp] theorem setPool_limit (a : MemPools) (t t' : MemoryType) (p : MemoryPool) :
    (a.setPool t p).limit t' = a.limit t' := by
  cases t' <;> simp [limit]

@[simp] theorem setPool_reserved (a : MemPools) (t t' : MemoryType) (p : MemoryPool) :
    (a.setPool t p).reserved t' = a.reserved t' := by
  cases t' <;> simp [reserved]

@[simp] theorem limit_nextNode (a : MemPools) (n : Nat) (t : MemoryType) :
    ({ a with nextNode := n } : MemPools).limit t = a.limit t := by
  cases t <;> rfl

@[simp] theorem reserved_nextNode (a : MemPools) (n : Nat) (t : MemoryType) :
    ({ a with nextNode := n } : MemPools).reserved t = a.reserved t := by
  cases t <;> rfl

theorem reserved_nonneg (h : 0 ≤ a.lockedSHAVEs) (t : MemoryType) : 0 ≤ a.reserved t := by
  cases t with
  | DDR => exact le_refl _
  | CMX =>
    simp only [reserved, CMX_SLICE_SIZE]
    omega

/-! ### `allocateMem` -/

theorem freeSpace_ok_iff {space : Int} :
    a.freeSpace t = .ok space ↔ (a.pool t).curMemOffset + a.reserved t ≤ a.limit t ∧
      space = a.limit t - ((a.pool t).curMemOffset + a.reserved t) := by
  cases t with
  | DDR =>
    refine ieAssert_bind_ok_iff.trans ?_
    simp only [pure_ok_iff, limit, reserved, pool]
    omega
  | CMX =>
    refine ieAssert_bind_ok_iff.trans ?_
    simp only [pure_ok_iff, limit, reserved, pool]
    omega

theorem newPointer_ok (h : (a.pool t).curMemOffset + size ≤ a.limit t) : ∃ p, a.newPointer t size = .ok p := by
  cases t with
  | DDR => exact ⟨_, rfl⟩
  | CMX => exact ⟨_, ieAssert_bind_ok_iff.mpr ⟨h, rfl⟩⟩

theorem carvedPointer_ok {offset : Int} (h : offset + size ≤ a.limit t) :
    ∃ p, a.carvedPointer t offset size = .ok p := by
  cases t with
  | DDR => exact ⟨_, rfl⟩
  | CMX => exact ⟨_, ieAssert_bind_ok_iff.mpr ⟨h, rfl⟩⟩

/-- **No assertion of `checkMemPool` fires** while the free blocks end inside the memory. -/
theorem checkMemPool_ok (size inUse : Int) (h : ∀ m ∈ (a.pool t).freePool, m.offset + m.size ≤ a.limit t) :
    ∃ r, a.checkMemPool (a.pool t) t size inUse = .ok r := by
  have hfound := findMinMem_bestFit size (a.pool t).freePool
  unfold checkMemPool
  split
  · exact ⟨_, rfl⟩
  · rename_i mem i hsome
    rw [hsome] at hfound
    have hmem := h mem (List.mem_of_getElem? hfound.1)
    have hfits : mem.offset + mem.size - size + size ≤ a.limit t := by omega
    obtain ⟨pointer, hpointer⟩ := carvedPointer_ok hfits
    exact ⟨_, bind_ok_iff.mpr ⟨pointer, hpointer, rfl⟩⟩

/-- **No assertion of `allocateMem` fires** while the accounts are kept. -/
theorem Accounted.allocateMem_ok (h : a.Accounted resources) (t : MemoryType) (size inUse : Int) :
    ∃ r, a.allocateMem t size inUse = .ok r := by
  obtain ⟨found, hfound⟩ := checkMemPool_ok size inUse (h.within t).free_end
  unfold allocateMem
  simp only [hfound, ok_bind]
  cases found with
  | some cp => exact ⟨_, rfl⟩
  | none =>
    have hspace := freeSpace_ok_iff.mpr ⟨h.bound t, rfl⟩
    simp only [hspace, ok_bind]
    split_ifs with hsize
    · exact ⟨_, rfl⟩
    · have hreserved := reserved_nonneg h.locked_nonneg t
      have hfits : (a.pool t).curMemOffset + size ≤ a.limit t := by omega
      obtain ⟨pointer, hpointer⟩ := newPointer_ok hfits
      simp only [hpointer, ok_bind]
      exact ⟨_, rfl⟩

theorem checkMemPool_curMemOffset {p p' : MemoryPool}
    (h : a.checkMemPool p t size inUse = .ok (some (chunk, p'))) : p'.curMemOffset = p.curMemOffset := by
  unfold checkMemPool at h
  split at h
  · simp [pure_ok_iff] at h
  · obtain ⟨pointer, -, h⟩ := bind_ok_iff.mp h
    simp only [addNewChunk, pure_ok_iff, Option.some.injEq, Prod.mk.injEq] at h
    rw [← h.2]

/-- A chunk behind `curMemOffset` fits before what is reserved. -/
theorem allocateMem_fits (h : a.allocateMem t size inUse = .ok (r, a')) :
    (a'.pool t).curMemOffset = (a.pool t).curMemOffset ∨
      (a.pool t).curMemOffset + size + a.reserved t ≤ a.limit t := by
  unfold allocateMem at h
  obtain ⟨found, hfound, h⟩ := bind_ok_iff.mp h
  cases found with
  | some cp =>
    obtain ⟨chunk, p'⟩ := cp
    simp only [pure_ok_iff, Prod.mk.injEq] at h
    obtain ⟨-, rfl⟩ := h
    left
    rw [pool_nextNode, pool_setPool, checkMemPool_curMemOffset hfound]
  | none =>
    obtain ⟨space, hspace, h⟩ := bind_ok_iff.mp h
    obtain ⟨-, rfl⟩ := freeSpace_ok_iff.mp hspace
    split at h
    · simp only [pure_ok_iff, Prod.mk.injEq] at h
      exact .inl (by rw [h.2])
    · exact .inr (by omega)

theorem Accounted.allocateMem (ha : a.Accounted resources) (h : a.allocateMem t size inUse = .ok (r, a'))
    (hsize : 0 ≤ size) : a'.Accounted resources := by
  have hinv := allocateMem_inv h ha.inv hsize
  have hfits := allocateMem_fits h
  rcases allocateMem_cases h with ⟨-, rfl⟩ | ⟨offset, p', -, halloc, rfl⟩
  · exact ha
  · have hcur : p'.curMemOffset + a.reserved t ≤ a.limit t := by
      have hbound := ha.bound t
      rw [pool_nextNode, pool_setPool] at hfits
      cases halloc with
      | carve pre mem post hfree hle hoffset => exact hbound
      | extend hoffset =>
        simp only at hfits ⊢
        omega
    have hreserved := reserved_nonneg ha.locked_nonneg t
    refine ⟨hinv, by simpa using ha.maxCmxSize, by simpa using ha.locked_nonneg, fun t' => ?_, fun t' => ?_⟩
    · rw [pool_nextNode, reserved_nextNode, limit_nextNode, setPool_reserved, setPool_limit]
      by_cases ht : t' = t
      · subst ht
        rwa [pool_setPool]
      · rw [pool_setPool_ne _ _ ht]
        exact ha.bound t'
    · rw [pool_nextNode, limit_nextNode, setPool_limit]
      by_cases ht : t' = t
      · subst ht
        rw [pool_setPool]
        exact (ha.within t').allocates halloc hsize (by omega)
      · rw [pool_setPool_ne _ _ ht]
        exact ha.within t'

/-! ### `freeMem` -/

theorem Accounted.freeMem (ha : a.Accounted resources) (hc : chunk ∈ (a.pool t).allocatedChunks)
    (h : a.freeMem chunk = .ok a') : a'.Accounted resources := by
  have hinv := (freeMem_inv h ha.inv hc).1
  obtain rfl := ha.inv.memType t chunk hc
  obtain ⟨newMem, freePool, hjoin, rfl⟩ := freeMem_cases h
  obtain ⟨l₁, l₂, hchunks, herase⟩ := eraseP_node (ha.inv.nodup _) hc
  rw [herase] at hinv ⊢
  obtain ⟨hwithin, hcur⟩ := (ha.within _).giveBack (ha.inv.pool _) hchunks hjoin
  refine ⟨hinv, by simpa using ha.maxCmxSize, by simpa using ha.locked_nonneg, fun t' => ?_, fun t' => ?_⟩
  · rw [setPool_reserved, setPool_limit]
    have hbound := ha.bound t'
    by_cases ht : t' = chunk.memType
    · subst ht
      rw [pool_setPool]
      simp only
      omega
    · rwa [pool_setPool_ne _ _ ht]
  · rw [setPool_limit]
    by_cases ht : t' = chunk.memType
    · subst ht
      rwa [pool_setPool]
    · rw [pool_setPool_ne _ _ ht]
      exact ha.within t'

/-! ### `allocateSHAVEs` -/

@[simp] theorem pool_lockedSHAVEs (a : MemPools) (n : Int) (t : MemoryType) :
    ({ a with lockedSHAVEs := n } : MemPools).pool t = a.pool t := by
  cases t <;> rfl

theorem Inv.lock (ha : a.Inv) (n : Int) : ({ a with lockedSHAVEs := n } : MemPools).Inv :=
  ⟨by simpa using ha.pool, by simpa using ha.memType, by simpa using ha.pointer, by simpa using ha.fresh,
    by simpa using ha.nodup, by simpa using ha.node⟩

theorem Packed.lock (hk : a.Packed) (n : Int) : ({ a with lockedSHAVEs := n } : MemPools).Packed :=
  ⟨by simpa using hk.pool⟩

/-- The slices that `allocateSHAVEs` counts as used cover the pool, and no slice more than it needs. -/
theorem usedCMXslices_spec (h : 0 ≤ a.cmxMemoryPool.curMemOffset) :
    a.cmxMemoryPool.curMemOffset ≤ a.usedCMXslices * CMX_SLICE_SIZE ∧
      ∀ n, a.cmxMemoryPool.curMemOffset ≤ n * CMX_SLICE_SIZE → a.usedCMXslices ≤ n := by
  unfold usedCMXslices CMX_SLICE_SIZE
  rw [Int.tdiv_eq_ediv_of_nonneg (by omega)]
  constructor
  · omega
  · intro n hn
    omega

theorem necessarySHAVEsNum_le {available necessary : Int} (hpos : 0 < available)
    (h : necessarySHAVEsNum resources stage reqs available = some necessary) :
    0 ≤ necessary ∧ necessary ≤ available := by
  unfold necessarySHAVEsNum SHAVES_LIMITATION_FOR_HW at h
  cases reqs <;> simp only at h
  case NeedMax =>
    split_ifs at h
    simp only [Option.some.injEq] at h
    omega
  case CanBeLimited => split_ifs at h <;> simp only [Option.some.injEq] at h <;> omega
  all_goals
    simp only [Option.some.injEq] at h
    omega

theorem Accounted.used_le (ha : a.Accounted resources) : a.usedCMXslices ≤ resources.numCMXSlices := by
  have hbound := ha.bound .CMX
  have hreserved := reserved_nonneg ha.locked_nonneg .CMX
  refine (usedCMXslices_spec (ha.inv.pool .CMX).cur_nonneg).2 _ ?_
  rw [← ha.maxCmxSize]
  exact (le_add_of_nonneg_right hreserved).trans hbound

theorem Accounted.numAvailable_nonneg (ha : a.Accounted resources) : 0 ≤ a.numAvailableSHAVEs resources := by
  have hused := ha.used_le
  have hpos := resources.numSHAVEs_pos
  unfold numAvailableSHAVEs
  omega

theorem Accounted.lock (ha : a.Accounted resources) {n : Int} (hn : 0 ≤ n)
    (hle : n ≤ a.numAvailableSHAVEs resources) :
    ({ a with lockedSHAVEs := n } : MemPools).Accounted resources := by
  refine ⟨ha.inv.lock n, ha.maxCmxSize, hn, fun t => ?_, fun t => ?_⟩
  · rw [pool_lockedSHAVEs]
    cases t with
    | DDR => exact ha.bound .DDR
    | CMX =>
      have hcover := (usedCMXslices_spec (ha.inv.pool .CMX).cur_nonneg).1
      have hmax := ha.maxCmxSize
      unfold numAvailableSHAVEs at hle
      unfold CMX_SLICE_SIZE at hcover hmax
      simp only [pool, reserved, limit, CMX_SLICE_SIZE]
      omega
  · rw [pool_lockedSHAVEs]
    have hlimit : ({ a with lockedSHAVEs := n } : MemPools).limit t = a.limit t := by cases t <;> rfl
    rw [hlimit]
    exact ha.within t

/-- **What `allocateSHAVEs` does to the pools**: nothing, or it locks no more SHAVEs than are available. -/
theorem allocateSHAVEs_cases (ha : a.Accounted resources) (stage : SHAVEsStage)
    (reqs : StageSHAVEsRequirements) :
    (a.allocateSHAVEs resources stage reqs).2 = a ∨
      ∃ n, 0 ≤ n ∧ n ≤ a.numAvailableSHAVEs resources ∧
        (a.allocateSHAVEs resources stage reqs).2 = { a with lockedSHAVEs := n } := by
  have havailable := ha.numAvailable_nonneg
  unfold allocateSHAVEs
  split_ifs with hlocked hreqs hused hnone
  · exact .inl rfl
  · exact .inl rfl
  · exact .inl rfl
  · split
    · exact .inl rfl
    · rename_i necessary hnecessary
      obtain ⟨hnonneg, hle⟩ := necessarySHAVEsNum_le (by omega) hnecessary
      exact .inr ⟨necessary, hnonneg, hle, rfl⟩
  · exact .inl rfl

/-- **No assertion of `allocateSHAVEs` fires** on a stage that is not injected. -/
theorem Accounted.allocateSHAVEs_ne_assertionFailed (ha : a.Accounted resources)
    (hstage : stage.parentNumSHAVEs = none) (e : String) :
    (a.allocateSHAVEs resources stage reqs).1 ≠ .error (.assertionFailed e) := by
  have havailable := ha.numAvailable_nonneg
  unfold allocateSHAVEs
  split_ifs with hlocked hreqs hused hnone
  · simp [throwException]
  · simp
  · simp
  · split
    · simp
    · rename_i necessary hnecessary
      have hle := (necessarySHAVEsNum_le (by omega) hnecessary).2
      have hfits : necessary ≤ resources.numSHAVEs := hle.trans (min_le_right _ _)
      have hset : ∃ s, stage.setNumSHAVEs resources necessary = .ok s := by
        unfold SHAVEsStage.setNumSHAVEs
        rw [hstage]
        exact ⟨_, ieAssert_bind_ok_iff.mpr ⟨hfits, rfl⟩⟩
      obtain ⟨s, hs⟩ := hset
      rw [hs]
      simp [Except.map]
  · exact absurd ha.used_le hused

/-! ### Runs -/

inductive SHAVEsStep (resources : Resources) (minSize : Int) (a : MemPools) : MemPools → Prop
  | allocateSHAVEs (stage : SHAVEsStage) (reqs : StageSHAVEsRequirements) :
      SHAVEsStep resources minSize a (a.allocateSHAVEs resources stage reqs).2
  | freeSHAVEs : SHAVEsStep resources minSize a a.freeSHAVEs
  | allocateMem {a' : MemPools} (t : MemoryType) (size inUse : Int) (r : Option MemChunk)
      (hsize : minSize ≤ size) (h : a.allocateMem t size inUse = .ok (r, a')) : SHAVEsStep resources minSize a a'
  | freeMem {a' : MemPools} (t : MemoryType) (chunk : MemChunk)
      (hc : chunk ∈ (a.pool t).allocatedChunks) (h : a.freeMem chunk = .ok a') :
      SHAVEsStep resources minSize a a'

/-- All sequences of calls of the four functions in which `allocateMem` is asked for `minSize` bytes or
more. -/
def shavesSystem (resources : Resources) (minSize : Int) : System MemPools where
  init a := a = ofSlices resources.numCMXSlices
  step := SHAVEsStep resources minSize

variable {minSize : Int}

theorem accounted_ofSlices : (ofSlices resources.numCMXSlices).Accounted resources := by
  have hempty : ∀ t, (ofSlices resources.numCMXSlices).pool t = {} := fun t => by cases t <;> rfl
  have hpos := resources.numSHAVEs_pos
  have hle := resources.numSHAVEs_le
  refine ⟨(ofSlices_inv _).1, rfl, le_refl _, fun t => ?_, fun t => ?_⟩
  · rw [hempty]
    cases t with
    | DDR => simp [reserved, limit, DDR_MAX_SIZE]
    | CMX =>
      simp only [reserved, limit, ofSlices, CMX_SLICE_SIZE]
      omega
  · rw [hempty]
    exact .empty _

theorem Accounted.step (ha : a.Accounted resources) (hmin : 0 ≤ minSize)
    (h : SHAVEsStep resources minSize a a') : a'.Accounted resources := by
  cases h with
  | allocateSHAVEs stage reqs =>
    rcases allocateSHAVEs_cases ha stage reqs with hsame | ⟨n, hn, hle, hlock⟩
    · rwa [hsame]
    · rw [hlock]
      exact ha.lock hn hle
  | freeSHAVEs => exact ha.lock (le_refl 0) ha.numAvailable_nonneg
  | allocateMem t size inUse r hsize h => exact ha.allocateMem h (hmin.trans hsize)
  | freeMem t chunk hc h => exact ha.freeMem hc h

theorem Accounted.step_packed (ha : a.Accounted resources) (hk : a.Packed) (hmin : 0 < minSize)
    (h : SHAVEsStep resources minSize a a') : a'.Packed := by
  cases h with
  | allocateSHAVEs stage reqs =>
    rcases allocateSHAVEs_cases ha stage reqs with hsame | ⟨n, -, -, hlock⟩
    · rwa [hsame]
    · rw [hlock]
      exact hk.lock n
  | freeSHAVEs => exact hk.lock 0
  | allocateMem t size inUse r hsize h => exact allocateMem_packed h ha.inv hk (hmin.trans_le hsize)
  | freeMem t chunk hc h =>
    obtain ⟨a'', h'', hpacked⟩ := freeMem_ok ha.inv hk hc
    rw [h] at h''
    cases h''
    exact hpacked

theorem shavesSystem_accounted (hmin : 0 ≤ minSize) (h : (shavesSystem resources minSize).Reachable a) :
    a.Accounted resources ∧ (0 < minSize → a.Packed) := by
  refine h.induct (I := fun a => a.Accounted resources ∧ (0 < minSize → a.Packed)) ?_
    fun s t _ hs hst => ⟨hs.1.step hmin hst, fun hpos => hs.1.step_packed (hs.2 hpos) hpos hst⟩
  rintro s rfl
  exact ⟨accounted_ofSlices, fun _ => (ofSlices_inv _).2⟩

/-- **CMX and SHAVE accounting**: in every state that the four calls reach in any order, what the CMX pool
uses and the slices locked for SHAVEs fit into CMX, so no assertion of the calls fires; that of `freeMem`
needs chunks that are not empty. -/
theorem cmx_accounting (hmin : 0 ≤ minSize) (h : (shavesSystem resources minSize).Reachable a) :
    a.cmxMemoryPool.curMemOffset + a.lockedSHAVEs * CMX_SLICE_SIZE ≤
        resources.numCMXSlices * CMX_SLICE_SIZE ∧
      (∀ t size inUse, ∃ r, a.checkMemPool (a.pool t) t size inUse = .ok r) ∧
      (∀ t size inUse, ∃ r, a.allocateMem t size inUse = .ok r) ∧
      (∀ stage reqs e, stage.parentNumSHAVEs = none →
        (a.allocateSHAVEs resources stage reqs).1 ≠ .error (.assertionFailed e)) ∧
      (0 < minSize → ∀ t, ∀ chunk ∈ (a.pool t).allocatedChunks, ∃ a', a.freeMem chunk = .ok a') := by
  obtain ⟨ha, hpacked⟩ := shavesSystem_accounted hmin h
  refine ⟨ha.maxCmxSize ▸ ha.bound .CMX, fun t size inUse => checkMemPool_ok size inUse (ha.within t).free_end,
    ha.allocateMem_ok, fun stage reqs e hstage => ha.allocateSHAVEs_ne_assertionFailed hstage e,
    fun hpos t chunk hc => ?_⟩
  obtain ⟨a', h', -⟩ := freeMem_ok ha.inv (hpacked hpos) hc
  exact ⟨a', h'⟩

def twoSlices : Resources := ⟨2, 1, by decide, by decide⟩

/-- A chunk was allocated, a SHAVE locked beside it, and the slice of the SHAVE is still free. -/
def besideOneSHAVE : MemPools where
  maxCmxSize := 2 * (128 * 1024)
  cmxMemoryPool :=
    { curMemOffset := 64, memUsed := 64, allocatedChunks := [⟨.CMX, 2 * (128 * 1024) - 64, 0, 64, 1, 0⟩] }
  lockedSHAVEs := 1
  nextNode := 1

theorem besideOneSHAVE_reachable : (shavesSystem twoSlices 64).Reachable besideOneSHAVE := by
  have h₀ : (shavesSystem twoSlices 64).Reachable (ofSlices 2) := .init rfl
  have h₁ := h₀.step (.allocateMem .CMX 64 1 _ (by decide) rfl)
  exact h₁.step (.allocateSHAVEs { category := .SHAVE } .OnlyOne)

theorem cmx_accounting_besideOneSHAVE :
    64 + 1 * CMX_SLICE_SIZE ≤ 2 * CMX_SLICE_SIZE ∧
      ∃ a', besideOneSHAVE.freeMem ⟨.CMX, 2 * (128 * 1024) - 64, 0, 64, 1, 0⟩ = .ok a' := by
  obtain ⟨hbound, -, -, -, hfree⟩ := cmx_accounting (by decide) besideOneSHAVE_reachable
  exact ⟨hbound, hfree (by decide) .CMX _ (by decide)⟩

/-- An empty chunk starts where the free block behind it starts, and `freeMem` asserts that none does. -/
theorem emptyChunk_freeMem :
    ∃ a chunk, (shavesSystem twoSlices 0).Reachable a ∧ chunk ∈ (a.pool .CMX).allocatedChunks ∧
      a.freeMem chunk = .error (.assertionFailed "newMem.offset != memPoolIt->offset") := by
  have h₀ : (shavesSystem twoSlices 0).Reachable (ofSlices 2) := .init rfl
  have h₁ := h₀.step (.allocateMem .CMX 0 1 _ (by decide) rfl)
  have h₂ := h₁.step (.allocateMem .CMX 64 1 _ (by decide) rfl)
  have h₃ := h₂.step (.allocateMem .CMX 64 1 _ (by decide) rfl)
  have h₄ := h₃.step (.freeMem .CMX ⟨.CMX, 2 * (128 * 1024) - 64, 0, 64, 1, 1⟩ (by decide) rfl)
  exact ⟨_, ⟨.CMX, 2 * (128 * 1024), 0, 0, 1, 0⟩, h₄, by decide, by decide⟩

end MemPools

end OpenVino.Vpu
