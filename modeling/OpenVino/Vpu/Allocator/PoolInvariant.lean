import OpenVino.Base.Tiling
import OpenVino.Base.Runs
import OpenVino.Vpu.Allocator.MemoryPool

/-!
# The representation invariant of a memory pool

`MemoryPool.Inv`: the ranges of the allocated chunks and of the free blocks tile `[0, curMemOffset)`.
`allocateMem` keeps it because a chunk is either carved from the tail of a free block (`Tiling.split`) or
put behind the end (`Tiling.extend`); `freeMem` keeps it because its loop joins the freed range to the
free blocks it touches (`Tiling.merge`, by induction on the passes in `coalesce_tiling`) and then either
adds the result to the free pool or gives it back (`Tiling.dropLast`).

`MemoryPool.Packed` is what the coalescing is for: blocks are nonempty, no two free blocks touch and none
ends at `curMemOffset`. Under it `freeMem` never fails an assertion (`freeMem_ok`), and a pool without
chunks is the empty pool.
-/

namespace OpenVino.Vpu

def FreeMemory.range (m : FreeMemory) : Int × Int := (m.offset, m.offset + m.size)

def MemChunk.range (c : MemChunk) : Int × Int := (c.offset, c.offset + c.size)

def MemoryPool.ranges (p : MemoryPool) : List (Int × Int) :=
  p.allocatedChunks.map MemChunk.range ++ p.freePool.map FreeMemory.range

structure MemoryPool.Inv (p : MemoryPool) : Prop where
  tiling : Tiling p.ranges 0 p.curMemOffset
  cur_nonneg : 0 ≤ p.curMemOffset
  chunk_nonneg : ∀ c ∈ p.allocatedChunks, 0 ≤ c.size
  free_nonneg : ∀ m ∈ p.freePool, 0 ≤ m.size

/-- The free blocks are as large as they can be. -/
def Apart (freePool : List FreeMemory) : Prop :=
  ∀ m ∈ freePool, ∀ n ∈ freePool, m.offset + m.size ≠ n.offset

structure MemoryPool.Packed (p : MemoryPool) : Prop where
  chunk_pos : ∀ c ∈ p.allocatedChunks, 0 < c.size
  free_pos : ∀ m ∈ p.freePool, 0 < m.size
  apart : Apart p.freePool
  not_last : ∀ m ∈ p.freePool, m.offset + m.size ≠ p.curMemOffset
  used : p.curMemOffset ≤ p.memUsed

theorem Apart.sub {l l' : List FreeMemory} (h : Apart l) (hsub : ∀ m ∈ l', m ∈ l) : Apart l' :=
  fun m hm n hn => h m (hsub m hm) n (hsub n hn)

/-! ### The best fit -/

/-- What the scan has found: a block of the list at its position, large enough and no larger than any
other block that is large enough. -/
def Found (size : Int) (l : List FreeMemory) (best : Option (FreeMemory × Nat)) : Prop :=
  match best with
  | none => ∀ m ∈ l, m.size < size
  | some (mem, i) => l[i]? = some mem ∧ size ≤ mem.size ∧ ∀ m ∈ l, size ≤ m.size → mem.size ≤ m.size

theorem findMinMem_found (size : Int) (done rest : List FreeMemory) (best : Option (FreeMemory × Nat))
    (h : Found size done best) :
    Found size (done ++ rest) (findMinMem size rest done.length best) := by
  induction rest generalizing done best with
  | nil => simpa [findMinMem] using h
  | cons mem rest ih =>
    rw [findMinMem]
    have happ : done ++ mem :: rest = (done ++ [mem]) ++ rest := by simp
    have hlen : done.length + 1 = (done ++ [mem]).length := by simp
    rw [happ, hlen]
    split_ifs with hbetter
    · obtain ⟨hsize, hbest⟩ := hbetter
      refine ih (done ++ [mem]) _ ⟨by simp, hsize, fun m hm hms => ?_⟩
      rcases List.mem_append.mp hm with hm | hm
      · cases best with
        | none => exact absurd (h m hm) (by omega)
        | some b =>
          have hlt : mem.size < b.1.size := by simpa using hbest
          have := h.2.2 m hm hms
          omega
      · rw [List.mem_singleton.mp hm]
    · refine ih (done ++ [mem]) best ?_
      cases best with
      | none =>
        intro m hm
        rcases List.mem_append.mp hm with hm | hm
        · exact h m hm
        · rw [List.mem_singleton.mp hm]
          by_contra hge
          exact hbetter ⟨by omega, by simp⟩
      | some b =>
        obtain ⟨hget, hsize, hmin⟩ := h
        refine ⟨by rw [List.getElem?_append_left (List.getElem?_eq_some_iff.mp hget).1]; exact hget,
          hsize, fun m hm hms => ?_⟩
        rcases List.mem_append.mp hm with hm | hm
        · exact hmin m hm hms
        · rw [List.mem_singleton.mp hm] at hms ⊢
          by_contra hlt
          exact hbetter ⟨hms, by simpa using not_le.mp hlt⟩

/-- **Best fit**: `checkMemPool` looks for the smallest block that is large enough. -/
theorem findMinMem_bestFit (size : Int) (freePool : List FreeMemory) :
    Found size freePool (findMinMem size freePool 0 none) :=
  findMinMem_found size [] freePool none (by simp [Found])

theorem split_of_getElem? {l : List FreeMemory} {i : Nat} {mem : FreeMemory} (h : l[i]? = some mem) :
    ∃ pre post, l = pre ++ mem :: post ∧ pre.length = i := by
  obtain ⟨hi, rfl⟩ := List.getElem?_eq_some_iff.mp h
  exact ⟨l.take i, l.drop (i + 1), by simp, by simp; omega⟩

/-! ### What one call does -/

/-- The address of a chunk: CMX is addressed from its end. -/
def pointerOf (maxCmxSize : Int) (memType : MemoryType) (offset size : Int) : Int :=
  match memType with
  | .DDR => offset
  | .CMX => maxCmxSize - offset - size

def FreeMemory.shrink (mem : FreeMemory) (size : Int) : List FreeMemory :=
  if mem.size - size = 0 then [] else [{ mem with size := mem.size - size }]

/-- How a pool changes when it hands out `chunk`. -/
inductive MemoryPool.Allocates (p : MemoryPool) (chunk : MemChunk) : MemoryPool → Prop
  | carve (pre : List FreeMemory) (mem : FreeMemory) (post : List FreeMemory)
      (hfree : p.freePool = pre ++ mem :: post) (hsize : chunk.size ≤ mem.size)
      (hoffset : chunk.offset = mem.offset + mem.size - chunk.size) :
      Allocates p chunk { p with
        memUsed := max p.memUsed (chunk.offset + chunk.size)
        allocatedChunks := p.allocatedChunks ++ [chunk]
        freePool := pre ++ mem.shrink chunk.size ++ post }
  | extend (hoffset : chunk.offset = p.curMemOffset) :
      Allocates p chunk { p with
        curMemOffset := p.curMemOffset + chunk.size
        memUsed := max p.memUsed (chunk.offset + chunk.size)
        allocatedChunks := p.allocatedChunks ++ [chunk] }

namespace MemPools

@[simp] theorem pool_setPool (a : MemPools) (t : MemoryType) (p : MemoryPool) : (a.setPool t p).pool t = p := by
  cases t <;> rfl

theorem pool_setPool_ne (a : MemPools) {t t' : MemoryType} (p : MemoryPool) (h : t' ≠ t) :
    (a.setPool t p).pool t' = a.pool t' := by
  cases t <;> cases t' <;> first | rfl | exact absurd rfl h

@[simp] theorem setPool_maxCmxSize (a : MemPools) (t : MemoryType) (p : MemoryPool) :
    (a.setPool t p).maxCmxSize = a.maxCmxSize := by
  cases t <;> rfl

@[simp] theorem setPool_nextNode (a : MemPools) (t : MemoryType) (p : MemoryPool) :
    (a.setPool t p).nextNode = a.nextNode := by
  cases t <;> rfl

@[simp] theorem setPool_lockedSHAVEs (a : MemPools) (t : MemoryType) (p : MemoryPool) :
    (a.setPool t p).lockedSHAVEs = a.lockedSHAVEs := by
  cases t <;> rfl

@[simp] theorem pool_nextNode (a : MemPools) (n : Nat) (t : MemoryType) :
    ({ a with nextNode := n } : MemPools).pool t = a.pool t := by
  cases t <;> rfl

theorem checkMemPool_some {a : MemPools} {p p' : MemoryPool} {t : MemoryType} {size inUse : Int}
    {chunk : MemChunk} (h : a.checkMemPool p t size inUse = .ok (some (chunk, p'))) :
    chunk = ⟨t, pointerOf a.maxCmxSize t chunk.offset size, chunk.offset, size, inUse, a.nextNode⟩ ∧
      p.Allocates chunk { p' with memUsed := max p'.memUsed (chunk.offset + chunk.size) } := by
  have hfound := findMinMem_bestFit size p.freePool
  unfold checkMemPool at h
  split at h
  · simp [pure_ok_iff] at h
  · rename_i mem i hsome
    rw [hsome] at hfound
    obtain ⟨hget, hsize, -⟩ := hfound
    obtain ⟨pre, post, hfree, rfl⟩ := split_of_getElem? hget
    obtain ⟨pointer, hpointer, h⟩ := bind_ok_iff.mp h
    have hpt : pointer = pointerOf a.maxCmxSize t (mem.offset + mem.size - size) size := by
      unfold carvedPointer at hpointer
      cases t with
      | DDR => exact (pure_ok_iff.mp hpointer).symm
      | CMX => exact (pure_ok_iff.mp (ieAssert_bind_ok_iff.mp hpointer).2).symm
    simp only [addNewChunk, pure_ok_iff, Option.some.injEq, Prod.mk.injEq] at h
    obtain ⟨rfl, rfl⟩ := h
    refine ⟨by rw [hpt], ?_⟩
    have hpool : (if mem.size - size = 0 then p.freePool.eraseIdx pre.length
        else p.freePool.set pre.length { mem with size := mem.size - size }) =
        pre ++ mem.shrink size ++ post := by
      rw [hfree, FreeMemory.shrink]
      split_ifs
      · simp [List.eraseIdx_append_of_length_le]
      · simp
    simp only [hpool]
    exact .carve pre mem post hfree hsize rfl

/-- **What `allocateMem` does when it returns**: nothing, or it hands out a new chunk. -/
theorem allocateMem_cases {a a' : MemPools} {t : MemoryType} {size inUse : Int} {r : Option MemChunk}
    (h : a.allocateMem t size inUse = .ok (r, a')) :
    (r = none ∧ a' = a) ∨
    ∃ offset p', r = some ⟨t, pointerOf a.maxCmxSize t offset size, offset, size, inUse, a.nextNode⟩ ∧
      (a.pool t).Allocates ⟨t, pointerOf a.maxCmxSize t offset size, offset, size, inUse, a.nextNode⟩ p' ∧
      a' = { a.setPool t p' with nextNode := a.nextNode + 1 } := by
  unfold allocateMem at h
  obtain ⟨found, hfound, h⟩ := bind_ok_iff.mp h
  cases found with
  | some cp =>
    obtain ⟨chunk, p'⟩ := cp
    simp only [pure_ok_iff, Prod.mk.injEq] at h
    obtain ⟨rfl, rfl⟩ := h
    obtain ⟨hchunk, halloc⟩ := checkMemPool_some hfound
    right
    refine ⟨chunk.offset, _, by rw [← hchunk], by rw [← hchunk]; exact halloc, rfl⟩
  | none =>
    obtain ⟨space, -, h⟩ := bind_ok_iff.mp h
    split at h
    · simp only [pure_ok_iff, Prod.mk.injEq] at h
      exact .inl ⟨h.1.symm, h.2.symm⟩
    · obtain ⟨pointer, hpointer, h⟩ := bind_ok_iff.mp h
      have hpt : pointer = pointerOf a.maxCmxSize t (a.pool t).curMemOffset size := by
        unfold newPointer at hpointer
        cases t with
        | DDR => exact (pure_ok_iff.mp hpointer).symm
        | CMX =>
          have := pure_ok_iff.mp (ieAssert_bind_ok_iff.mp hpointer).2
          simp only [pointerOf]
          omega
      simp only [addNewChunk, pure_ok_iff, Prod.mk.injEq] at h
      obtain ⟨rfl, rfl⟩ := h
      subst hpt
      exact .inr ⟨(a.pool t).curMemOffset, _, rfl, .extend rfl, rfl⟩

end MemPools

theorem joinFirst_none {newMem : FreeMemory} {l : List FreeMemory} (h : joinFirst newMem l = .ok none) :
    ∀ m ∈ l, newMem.offset + newMem.size ≠ m.offset ∧ m.offset + m.size ≠ newMem.offset := by
  induction l with
  | nil => simp
  | cons mem rest ih =>
    rw [joinFirst] at h
    obtain ⟨-, h⟩ := ieAssert_bind_ok_iff.mp h
    split_ifs at h with hright hleft
    · simp [pure_ok_iff] at h
    · simp [pure_ok_iff] at h
    · obtain ⟨joined, hjoined, h⟩ := bind_ok_iff.mp h
      have hnone : joined = none := by simpa [pure_ok_iff] using h
      subst hnone
      intro m hm
      rcases List.mem_cons.mp hm with rfl | hm
      · exact ⟨hright, hleft⟩
      · exact ih hjoined m hm

theorem joinFirst_some {newMem newMem' : FreeMemory} {l l' : List FreeMemory}
    (h : joinFirst newMem l = .ok (some (newMem', l'))) :
    ∃ pre mem post, l = pre ++ mem :: post ∧ l' = pre ++ post ∧
      (newMem.offset + newMem.size = mem.offset ∧ newMem' = ⟨newMem.offset, newMem.size + mem.size⟩ ∨
        mem.offset + mem.size = newMem.offset ∧ newMem' = ⟨mem.offset, newMem.size + mem.size⟩) := by
  induction l generalizing l' with
  | nil => simp [joinFirst, pure_ok_iff] at h
  | cons mem rest ih =>
    rw [joinFirst] at h
    obtain ⟨-, h⟩ := ieAssert_bind_ok_iff.mp h
    split_ifs at h with hright hleft
    · simp only [pure_ok_iff, Option.some.injEq, Prod.mk.injEq] at h
      exact ⟨[], mem, rest, rfl, h.2.symm, .inl ⟨hright, h.1.symm⟩⟩
    · simp only [pure_ok_iff, Option.some.injEq, Prod.mk.injEq] at h
      exact ⟨[], mem, rest, rfl, h.2.symm, .inr ⟨hleft, h.1.symm⟩⟩
    · obtain ⟨joined, hjoined, h⟩ := bind_ok_iff.mp h
      rw [pure_ok_iff, Option.map_eq_some_iff] at h
      obtain ⟨⟨m, r⟩, rfl, h⟩ := h
      simp only [Prod.mk.injEq] at h
      obtain ⟨rfl, rfl⟩ := h
      obtain ⟨pre, mem', post, rfl, rfl, hjoin⟩ := ih hjoined
      exact ⟨mem :: pre, mem', post, rfl, rfl, hjoin⟩

theorem joinFirst_ok {newMem : FreeMemory} {l : List FreeMemory} (h : ∀ m ∈ l, newMem.offset ≠ m.offset) :
    ∃ r, joinFirst newMem l = .ok r := by
  induction l with
  | nil => exact ⟨none, rfl⟩
  | cons mem rest ih =>
    obtain ⟨r, hr⟩ := ih fun m hm => h m (List.mem_cons_of_mem _ hm)
    have hne := h mem List.mem_cons_self
    rw [joinFirst]
    simp only [ieAssert, if_pos hne]
    split_ifs
    · exact ⟨_, rfl⟩
    · exact ⟨_, rfl⟩
    · exact ⟨_, by rw [hr]; rfl⟩

/-- Joining keeps the tiling: the two touching ranges become one. -/
theorem joinFirst_tiling {newMem newMem' : FreeMemory} {l l' : List FreeMemory} {others : List (Int × Int)}
    {a b : Int} (h : joinFirst newMem l = .ok (some (newMem', l')))
    (htile : Tiling (newMem.range :: (others ++ l.map FreeMemory.range)) a b)
    (hnew : 0 ≤ newMem.size) (hl : ∀ m ∈ l, 0 ≤ m.size) :
    Tiling (newMem'.range :: (others ++ l'.map FreeMemory.range)) a b ∧ newMem.size ≤ newMem'.size ∧
      (∀ m ∈ l', m ∈ l) ∧ l'.length + 1 = l.length := by
  obtain ⟨pre, mem, post, rfl, rfl, hjoin⟩ := joinFirst_some h
  have hmem : 0 ≤ mem.size := hl mem (by simp)
  have hsub : ∀ m ∈ pre ++ post, m ∈ pre ++ mem :: post := by
    intro m hm
    rcases List.mem_append.mp hm with hm | hm <;> simp [hm]
  have hfront : (newMem.range :: (others ++ (pre ++ mem :: post).map FreeMemory.range)).Perm
      (newMem.range :: mem.range :: (others ++ (pre ++ post).map FreeMemory.range)) := by
    refine List.Perm.cons _ ?_
    simp only [List.map_append, List.map_cons, ← List.append_assoc]
    exact List.perm_middle
  refine ⟨?_, ?_, hsub, by simp; omega⟩
  · rcases hjoin with ⟨htouch, rfl⟩ | ⟨htouch, rfl⟩
    · have h2 := htile.perm hfront
      have hsame : mem.range = (newMem.offset + newMem.size, mem.offset + mem.size) := by
        rw [FreeMemory.range, htouch]
      rw [hsame] at h2
      have hm := h2.merge (by omega) (by omega)
      simp only [FreeMemory.range]
      rwa [show newMem.offset + (newMem.size + mem.size) = mem.offset + mem.size by omega]
    · have h2 := (htile.perm hfront).perm (List.Perm.swap _ _ _)
      have hsame : newMem.range = (mem.offset + mem.size, newMem.offset + newMem.size) := by
        rw [FreeMemory.range, htouch]
      rw [hsame] at h2
      have hm := h2.merge (by omega) (by omega)
      simp only [FreeMemory.range]
      rwa [show mem.offset + (newMem.size + mem.size) = newMem.offset + newMem.size by omega]
  · rcases hjoin with ⟨-, rfl⟩ | ⟨-, rfl⟩ <;> simp <;> omega

/-- The loop keeps the tiling: induction on the passes. -/
theorem coalesce_tiling {passes : Nat} {newMem newMem' : FreeMemory} {l l' : List FreeMemory}
    {others : List (Int × Int)} {a b : Int} (h : coalesce passes newMem l = .ok (newMem', l'))
    (htile : Tiling (newMem.range :: (others ++ l.map FreeMemory.range)) a b)
    (hnew : 0 ≤ newMem.size) (hl : ∀ m ∈ l, 0 ≤ m.size) :
    Tiling (newMem'.range :: (others ++ l'.map FreeMemory.range)) a b ∧ newMem.size ≤ newMem'.size ∧
      ∀ m ∈ l', m ∈ l := by
  induction passes generalizing newMem l with
  | zero =>
    simp only [coalesce, pure_ok_iff, Prod.mk.injEq] at h
    obtain ⟨rfl, rfl⟩ := h
    exact ⟨htile, le_refl _, fun m hm => hm⟩
  | succ passes ih =>
    rw [coalesce] at h
    obtain ⟨joined, hjoined, h⟩ := bind_ok_iff.mp h
    cases joined with
    | none =>
      simp only [pure_ok_iff, Prod.mk.injEq] at h
      obtain ⟨rfl, rfl⟩ := h
      exact ⟨htile, le_refl _, fun m hm => hm⟩
    | some r =>
      obtain ⟨newMem₁, l₁⟩ := r
      obtain ⟨htile₁, hsize₁, hsub₁, -⟩ := joinFirst_tiling hjoined htile hnew hl
      obtain ⟨htile', hsize', hsub'⟩ := ih h htile₁ (by omega) fun m hm => hl m (hsub₁ m hm)
      exact ⟨htile', by omega, fun m hm => hsub₁ m (hsub' m hm)⟩

/-- With nonempty blocks no assertion of the loop fires, and it ends because nothing touches any more. -/
theorem coalesce_ok {passes : Nat} {newMem : FreeMemory} {l : List FreeMemory} {others : List (Int × Int)}
    {a b : Int} (htile : Tiling (newMem.range :: (others ++ l.map FreeMemory.range)) a b)
    (hnew : 0 < newMem.size) (hl : ∀ m ∈ l, 0 < m.size) (hpasses : l.length < passes) :
    ∃ newMem' l', coalesce passes newMem l = .ok (newMem', l') ∧
      ∀ m ∈ l', newMem'.offset + newMem'.size ≠ m.offset ∧ m.offset + m.size ≠ newMem'.offset := by
  induction passes generalizing newMem l with
  | zero => omega
  | succ passes ih =>
    have hne : ∀ m ∈ l, newMem.offset ≠ m.offset := fun m hm =>
      htile.ne_of_mem (s := m.range)
        (List.mem_append_right _ (List.mem_map_of_mem hm)) (by omega)
        (by have := hl m hm; simp [FreeMemory.range]; omega)
    obtain ⟨joined, hjoined⟩ := joinFirst_ok hne
    rw [coalesce, hjoined]
    cases joined with
    | none => exact ⟨newMem, l, rfl, joinFirst_none hjoined⟩
    | some r =>
      obtain ⟨newMem₁, l₁⟩ := r
      obtain ⟨htile₁, hsize₁, hsub₁, hlen₁⟩ :=
        joinFirst_tiling hjoined htile hnew.le fun m hm => (hl m hm).le
      exact ih htile₁ (by omega) (fun m hm => hl m (hsub₁ m hm)) (by omega)

/-! ### The invariant of one pool -/

theorem MemoryPool.inv_empty : ({} : MemoryPool).Inv :=
  ⟨.nil 0, le_refl _, by simp, by simp⟩

theorem MemoryPool.packed_empty : ({} : MemoryPool).Packed :=
  ⟨by simp, by simp, fun m hm => by simp at hm, by simp, le_refl _⟩

theorem perm_carve (chunks : List MemChunk) (pre mid post : List FreeMemory) :
    (chunks.map MemChunk.range ++ (pre ++ mid ++ post).map FreeMemory.range).Perm
      (mid.map FreeMemory.range ++
        (chunks.map MemChunk.range ++ (pre ++ post).map FreeMemory.range)) := by
  simp only [List.map_append]
  rw [List.append_assoc (pre.map _), ← List.append_assoc (chunks.map _), ← List.append_assoc (chunks.map _)]
  exact List.perm_append_comm_assoc _ _ _

namespace MemoryPool.Allocates

variable {p p' : MemoryPool} {chunk : MemChunk}

theorem inv (h : p.Allocates chunk p') (hp : p.Inv) (hsize : 0 ≤ chunk.size) : p'.Inv := by
  have hchunks : ∀ c ∈ p.allocatedChunks ++ [chunk], 0 ≤ c.size := by
    intro c hc
    rcases List.mem_append.mp hc with hc | hc
    · exact hp.chunk_nonneg c hc
    · rw [List.mem_singleton.mp hc]; exact hsize
  cases h with
  | carve pre mem post hfree hle hoffset =>
    have hmem : ∀ m ∈ pre ++ mem.shrink chunk.size ++ post, 0 ≤ m.size := by
      intro m hm
      rcases List.mem_append.mp hm with hm | hm
      · rcases List.mem_append.mp hm with hm | hm
        · exact hp.free_nonneg m (by simp [hfree, hm])
        · unfold FreeMemory.shrink at hm
          split_ifs at hm
          · simp at hm
          · rw [List.mem_singleton.mp hm]; simp; omega
      · exact hp.free_nonneg m (by simp [hfree, hm])
    refine ⟨?_, hp.cur_nonneg, hchunks, hmem⟩
    have htile := hp.tiling
    rw [MemoryPool.ranges, hfree, show pre ++ mem :: post = pre ++ [mem] ++ post by simp] at htile
    have hsplit := (htile.perm (perm_carve _ _ _ _)).split (q := chunk.offset) (by omega) (by omega)
    have hrange : (chunk.offset, mem.offset + mem.size) = chunk.range := by
      rw [MemChunk.range, hoffset]; congr 1; omega
    rw [hrange] at hsplit
    refine Tiling.perm (l := (mem.shrink chunk.size).map FreeMemory.range ++
      (chunk.range :: (p.allocatedChunks.map MemChunk.range ++ (pre ++ post).map FreeMemory.range))) ?_ ?_
    · unfold FreeMemory.shrink
      split_ifs with hempty
      · rw [show chunk.offset = mem.offset by omega] at hsplit
        exact hsplit.dropEmpty
      · have hrest : (mem.offset, chunk.offset) =
            FreeMemory.range ⟨mem.offset, mem.size - chunk.size⟩ := by
          rw [FreeMemory.range, hoffset]
          congr 1
          simp only
          omega
        rw [hrest] at hsplit
        exact hsplit
    · refine List.Perm.trans ?_ (perm_carve (p.allocatedChunks ++ [chunk]) pre _ post).symm
      refine List.Perm.append_left _ ?_
      simp only [List.map_append, List.map_cons, List.map_nil, List.append_assoc, List.singleton_append]
      exact List.perm_middle.symm
  | extend hoffset =>
    refine ⟨?_, by have := hp.cur_nonneg; simp; omega, hchunks, hp.free_nonneg⟩
    have hext := hp.tiling.extend (c := p.curMemOffset + chunk.size) hp.cur_nonneg (by omega)
    refine hext.perm ?_
    simp only [MemoryPool.ranges, List.map_append, List.map_cons, List.map_nil, List.append_assoc,
      List.singleton_append, MemChunk.range, hoffset]
    exact List.perm_middle.symm

theorem free_le_cur (hp : p.Inv) (hpos : ∀ m ∈ p.freePool, 0 < m.size) {m : FreeMemory}
    (hm : m ∈ p.freePool) : m.offset + m.size ≤ p.curMemOffset :=
  (hp.tiling.le_of_mem (s := m.range) (List.mem_append_right _ (List.mem_map_of_mem hm))
    (by have := hpos m hm; simp [FreeMemory.range]; omega)).2

theorem packed (h : p.Allocates chunk p') (hp : p.Inv) (hk : p.Packed) (hsize : 0 < chunk.size) :
    p'.Packed := by
  have hchunks : ∀ c ∈ p.allocatedChunks ++ [chunk], 0 < c.size := by
    intro c hc
    rcases List.mem_append.mp hc with hc | hc
    · exact hk.chunk_pos c hc
    · rw [List.mem_singleton.mp hc]; exact hsize
  cases h with
  | carve pre mem post hfree hle hoffset =>
    have hmem : mem ∈ p.freePool := by simp [hfree]
    have hcur := free_le_cur hp hk.free_pos hmem
    -- a block of the new free pool is an old one, or what is left of `mem`
    have hnew : ∀ m ∈ pre ++ mem.shrink chunk.size ++ post,
        m ∈ pre ++ post ∨ (0 < m.size ∧ m.offset = mem.offset ∧ m.offset + m.size = chunk.offset) := by
      intro m hm
      rcases List.mem_append.mp hm with hm | hm
      · rcases List.mem_append.mp hm with hm | hm
        · exact .inl (by simp [hm])
        · unfold FreeMemory.shrink at hm
          split_ifs at hm
          · simp at hm
          · rw [List.mem_singleton.mp hm]
            exact .inr ⟨by simp; omega, rfl, by simp; omega⟩
      · exact .inl (by simp [hm])
    have hold : ∀ m ∈ pre ++ post, m ∈ p.freePool := by
      intro m hm
      rcases List.mem_append.mp hm with hm | hm <;> simp [hfree, hm]
    have hpos : ∀ m ∈ pre ++ mem.shrink chunk.size ++ post, 0 < m.size := fun m hm => by
      rcases hnew m hm with hm | hm
      · exact hk.free_pos m (hold m hm)
      · exact hm.1
    refine ⟨hchunks, hpos, fun m hm n hn => ?_, fun m hm => ?_, le_max_of_le_left hk.used⟩
    · rcases hnew m hm with hm | ⟨hmpos, hmoff, hmend⟩
      · rcases hnew n hn with hn | ⟨-, hnoff, -⟩
        · exact hk.apart m (hold m hm) n (hold n hn)
        · rw [hnoff]
          exact hk.apart m (hold m hm) mem hmem
      · rcases hnew n hn with hn | ⟨-, hnoff, -⟩
        · -- another block that starts inside `mem` would overlap it
          intro he
          have hperm : p.ranges.Perm (mem.range :: (p.allocatedChunks.map MemChunk.range ++
              (pre ++ post).map FreeMemory.range)) := by
            rw [MemoryPool.ranges, hfree, show pre ++ mem :: post = pre ++ [mem] ++ post by simp]
            exact perm_carve _ _ _ _
          have hd := (hp.tiling.perm hperm).disjoint
          have hdn := (List.pairwise_cons.mp hd).1 n.range
            (List.mem_append_right _ (List.mem_map_of_mem hn))
          have hnpos := hk.free_pos n (hold n hn)
          have hin : n.offset ∈ Set.Ico mem.range.1 mem.range.2 := by
            simp only [FreeMemory.range, Set.mem_Ico]
            omega
          have hself : n.offset ∈ Set.Ico n.range.1 n.range.2 := by
            simp only [FreeMemory.range, Set.mem_Ico]
            omega
          exact Set.disjoint_left.mp hdn hin hself
        · omega
    · rcases hnew m hm with hm | ⟨-, -, hmend⟩
      · exact hk.not_last m (hold m hm)
      · simp only
        omega
  | extend hoffset =>
    refine ⟨hchunks, hk.free_pos, hk.apart, fun m hm => ?_, ?_⟩
    · have := free_le_cur hp hk.free_pos hm
      simp only
      omega
    · simp only [hoffset]
      exact le_max_right _ _

end MemoryPool.Allocates

end OpenVino.Vpu
