import OpenVino.Vpu.Allocator.PoolInvariant

/-!
# Runs of `allocateMem` and `freeMem`

`MemPools.Inv` collects the invariants of both pools with what the chunk list needs: list nodes are
fresh and distinct, and a chunk knows its pool and its address. `MemPools.Packed` is `MemoryPool.Packed`
of both. One lemma per operation (`allocateMem_inv`, `freeMem_inv`, …) and the run lemma
`poolSystem_inv` carry them to every state that a sequence of the two calls reaches from a constructed
allocator.
-/

namespace OpenVino.Vpu

structure MemPools.Inv (a : MemPools) : Prop where
  pool : ∀ t, (a.pool t).Inv
  memType : ∀ t, ∀ c ∈ (a.pool t).allocatedChunks, c.memType = t
  pointer : ∀ t, ∀ c ∈ (a.pool t).allocatedChunks, c.pointer = pointerOf a.maxCmxSize t c.offset c.size
  fresh : ∀ t, ∀ c ∈ (a.pool t).allocatedChunks, c.posInList < a.nextNode
  nodup : ∀ t, ((a.pool t).allocatedChunks.map MemChunk.posInList).Nodup
  node : ∀ t t', ∀ c ∈ (a.pool t).allocatedChunks, ∀ c' ∈ (a.pool t').allocatedChunks,
    c.posInList = c'.posInList → t = t'

structure MemPools.Packed (a : MemPools) : Prop where
  pool : ∀ t, (a.pool t).Packed

/-! ### `allocateMem` -/

theorem MemoryPool.Allocates.chunks {p p' : MemoryPool} {chunk : MemChunk} (h : p.Allocates chunk p') :
    p'.allocatedChunks = p.allocatedChunks ++ [chunk] := by
  cases h <;> rfl

namespace MemPools

variable {a a' : MemPools} {t : MemoryType} {size inUse : Int} {r : Option MemChunk} {chunk : MemChunk}

theorem allocateMem_inv (h : a.allocateMem t size inUse = .ok (r, a')) (ha : a.Inv) (hsize : 0 ≤ size) :
    a'.Inv := by
  rcases allocateMem_cases h with ⟨-, rfl⟩ | ⟨offset, p', -, halloc, rfl⟩
  · exact ha
  · have hchunks := halloc.chunks
    -- a chunk of the new state is an old one, or the new one in pool `t`
    have hcases : ∀ t', ∀ c ∈ ((a.setPool t p').pool t').allocatedChunks,
        c ∈ (a.pool t').allocatedChunks ∨ t' = t ∧
          c = ⟨t, pointerOf a.maxCmxSize t offset size, offset, size, inUse, a.nextNode⟩ := by
      intro t' c hc
      by_cases ht : t' = t
      · subst ht
        rw [pool_setPool, hchunks] at hc
        rcases List.mem_append.mp hc with hc | hc
        · exact .inl hc
        · exact .inr ⟨rfl, List.mem_singleton.mp hc⟩
      · rw [pool_setPool_ne _ _ ht] at hc
        exact .inl hc
    refine ⟨fun t' => ?_, fun t' c hc => ?_, fun t' c hc => ?_, fun t' c hc => ?_, fun t' => ?_, ?_⟩
    · rw [pool_nextNode]
      by_cases ht : t' = t
      · subst ht
        rw [pool_setPool]
        exact halloc.inv (ha.pool t') hsize
      · rw [pool_setPool_ne _ _ ht]
        exact ha.pool t'
    · rw [pool_nextNode] at hc
      rcases hcases t' c hc with hc | ⟨rfl, rfl⟩
      · exact ha.memType t' c hc
      · rfl
    · rw [pool_nextNode] at hc
      rw [setPool_maxCmxSize]
      rcases hcases t' c hc with hc | ⟨rfl, rfl⟩
      · exact ha.pointer t' c hc
      · rfl
    · rw [pool_nextNode] at hc
      rcases hcases t' c hc with hc | ⟨rfl, rfl⟩
      · exact Nat.lt_succ_of_lt (ha.fresh t' c hc)
      · exact Nat.lt_succ_self _
    · rw [pool_nextNode]
      by_cases ht : t' = t
      · subst ht
        rw [pool_setPool, hchunks, List.map_append, List.nodup_append]
        refine ⟨ha.nodup t', by simp, fun n hn m hm => ?_⟩
        obtain ⟨c, hc, rfl⟩ := List.mem_map.mp hn
        rw [List.map_singleton, List.mem_singleton] at hm
        subst hm
        exact (ha.fresh t' c hc).ne
      · rw [pool_setPool_ne _ _ ht]
        exact ha.nodup t'
    · intro t₁ t₂ c hc c' hc' heq
      rw [pool_nextNode] at hc hc'
      rcases hcases t₁ c hc with hold | ⟨rfl, rfl⟩ <;> rcases hcases t₂ c' hc' with hold' | ⟨rfl, rfl⟩
      · exact ha.node t₁ t₂ c hold c' hold' heq
      · exact absurd heq (ha.fresh t₁ c hold).ne
      · exact absurd heq (ha.fresh t₂ c' hold').ne'
      · rfl

theorem allocateMem_packed (h : a.allocateMem t size inUse = .ok (r, a')) (ha : a.Inv) (hk : a.Packed)
    (hsize : 0 < size) : a'.Packed := by
  rcases allocateMem_cases h with ⟨-, rfl⟩ | ⟨offset, p', -, halloc, rfl⟩
  · exact hk
  · refine ⟨fun t' => ?_⟩
    rw [pool_nextNode]
    by_cases ht : t' = t
    · subst ht
      rw [pool_setPool]
      exact halloc.packed (ha.pool t') (hk.pool t') hsize
    · rw [pool_setPool_ne _ _ ht]
      exact hk.pool t'

/-! ### `freeMem` -/

theorem eraseP_node {l : List MemChunk} (hnd : (l.map MemChunk.posInList).Nodup) (hc : chunk ∈ l) :
    ∃ l₁ l₂, l = l₁ ++ chunk :: l₂ ∧ l.eraseP (·.posInList = chunk.posInList) = l₁ ++ l₂ := by
  obtain ⟨c, l₁, l₂, -, hnode, hl, herase⟩ :=
    List.exists_of_eraseP (p := (·.posInList = chunk.posInList)) hc (by simp)
  have hsame : c = chunk :=
    List.inj_on_of_nodup_map hnd (by simp [hl]) hc (by simpa using hnode)
  exact ⟨l₁, l₂, hsame ▸ hl, herase⟩

/-- **What `freeMem` does when it returns.** -/
theorem freeMem_cases (h : a.freeMem chunk = .ok a') :
    ∃ newMem freePool,
      coalesce ((a.pool chunk.memType).freePool.length + 1) ⟨chunk.offset, chunk.size⟩
        (a.pool chunk.memType).freePool = .ok (newMem, freePool) ∧
      a' = a.setPool chunk.memType { (a.pool chunk.memType).giveBack newMem freePool with
        allocatedChunks := (a.pool chunk.memType).allocatedChunks.eraseP
          (·.posInList = chunk.posInList) } := by
  unfold freeMem at h
  obtain ⟨⟨newMem, freePool⟩, hjoin, h⟩ := bind_ok_iff.mp h
  obtain ⟨-, h⟩ := ieAssert_bind_ok_iff.mp h
  rw [pure_ok_iff] at h
  refine ⟨newMem, freePool, hjoin, ?_⟩
  rw [← h]
  unfold MemoryPool.giveBack
  split <;> rfl

end MemPools

namespace MemoryPool

variable {p : MemoryPool} {chunk : MemChunk} {l₁ l₂ : List MemChunk} {passes : Nat}
  {newMem : FreeMemory} {freePool : List FreeMemory}

/-- The tiling with the freed range in front, as the loop starts from it. -/
theorem Inv.tiling_freed (hp : p.Inv) (hchunks : p.allocatedChunks = l₁ ++ chunk :: l₂) :
    Tiling (FreeMemory.range ⟨chunk.offset, chunk.size⟩ ::
      ((l₁ ++ l₂).map MemChunk.range ++ p.freePool.map FreeMemory.range)) 0 p.curMemOffset := by
  refine hp.tiling.perm ?_
  rw [ranges, hchunks]
  simp only [List.map_append, List.map_cons, List.append_assoc, List.cons_append]
  exact List.perm_middle

theorem giveBack_inv (hp : p.Inv) (hchunks : p.allocatedChunks = l₁ ++ chunk :: l₂)
    (hjoin : coalesce passes ⟨chunk.offset, chunk.size⟩ p.freePool = .ok (newMem, freePool)) :
    ({ p.giveBack newMem freePool with allocatedChunks := l₁ ++ l₂ } : MemoryPool).Inv := by
  have hsize : 0 ≤ chunk.size := hp.chunk_nonneg chunk (by simp [hchunks])
  obtain ⟨htile, hgrow, hsub⟩ :=
    coalesce_tiling hjoin (hp.tiling_freed hchunks) hsize hp.free_nonneg
  simp only at hgrow
  have hchunk : ∀ c ∈ l₁ ++ l₂, 0 ≤ c.size := by
    intro c hc
    refine hp.chunk_nonneg c ?_
    rw [hchunks]
    rcases List.mem_append.mp hc with hc | hc <;> simp [hc]
  have hfree : ∀ m ∈ freePool, 0 ≤ m.size := fun m hm => hp.free_nonneg m (hsub m hm)
  unfold giveBack
  split_ifs with hlast
  · have hrange : newMem.range = (newMem.offset, p.curMemOffset) := by rw [FreeMemory.range, hlast]
    rw [hrange] at htile
    refine ⟨htile.dropLast (by omega), ?_, hchunk, hfree⟩
    simp only
    by_cases hempty : newMem.size = 0
    · have := hp.cur_nonneg
      omega
    · exact (htile.le_of_mem List.mem_cons_self (by simp only; omega)).1
  · refine ⟨htile.perm ?_, hp.cur_nonneg, hchunk, fun m hm => ?_⟩
    · simp only [ranges, List.map_append, List.map_cons, List.map_nil]
      rw [← List.append_assoc]
      exact (List.perm_append_singleton _ _).symm
    · rcases List.mem_append.mp hm with hm | hm
      · exact hfree m hm
      · rw [List.mem_singleton.mp hm]
        omega

/-- On a packed pool the loop returns, and what it returns leaves the pool packed. -/
theorem giveBack_packed (hp : p.Inv) (hk : p.Packed) (hchunks : p.allocatedChunks = l₁ ++ chunk :: l₂) :
    ∃ newMem freePool,
      coalesce (p.freePool.length + 1) ⟨chunk.offset, chunk.size⟩ p.freePool = .ok (newMem, freePool) ∧
      ({ p.giveBack newMem freePool with allocatedChunks := l₁ ++ l₂ } : MemoryPool).Packed := by
  have hsize : 0 < chunk.size := hk.chunk_pos chunk (by simp [hchunks])
  obtain ⟨newMem, freePool, hjoin, hfar⟩ :=
    coalesce_ok (hp.tiling_freed hchunks) hsize hk.free_pos (Nat.lt_succ_self _)
  refine ⟨newMem, freePool, hjoin, ?_⟩
  obtain ⟨htile, hgrow, hsub⟩ :=
    coalesce_tiling hjoin (hp.tiling_freed hchunks) hsize.le hp.free_nonneg
  simp only at hgrow
  have hchunk : ∀ c ∈ l₁ ++ l₂, 0 < c.size := by
    intro c hc
    refine hk.chunk_pos c ?_
    rw [hchunks]
    rcases List.mem_append.mp hc with hc | hc <;> simp [hc]
  have hfree : ∀ m ∈ freePool, 0 < m.size := fun m hm => hk.free_pos m (hsub m hm)
  have hbound := (htile.le_of_mem List.mem_cons_self (by simp only [FreeMemory.range]; omega)).2
  simp only [FreeMemory.range] at hbound
  unfold giveBack
  split_ifs with hlast
  · refine ⟨hchunk, hfree, hk.apart.sub hsub, fun m hm => (hfar m hm).2, ?_⟩
    have := hk.used
    simp only
    omega
  · refine ⟨hchunk, fun m hm => ?_, fun m hm n hn => ?_, fun m hm => ?_, hk.used⟩
    · rcases List.mem_append.mp hm with hm | hm
      · exact hfree m hm
      · rw [List.mem_singleton.mp hm]
        omega
    · rcases List.mem_append.mp hm with hm | hm <;> rcases List.mem_append.mp hn with hn | hn
      · exact hk.apart m (hsub m hm) n (hsub n hn)
      · rw [List.mem_singleton.mp hn]
        exact (hfar m hm).2
      · rw [List.mem_singleton.mp hm]
        exact (hfar n hn).1
      · rw [List.mem_singleton.mp hm, List.mem_singleton.mp hn]
        omega
    · rcases List.mem_append.mp hm with hm | hm
      · exact hk.not_last m (hsub m hm)
      · rw [List.mem_singleton.mp hm]
        exact hlast

/-- A packed pool without chunks is empty: its last free block would end at `curMemOffset`. -/
theorem Packed.empty (hk : p.Packed) (hp : p.Inv)
    (hchunks : p.allocatedChunks = []) : p.freePool = [] ∧ p.curMemOffset = 0 := by
  have hcur : p.curMemOffset = 0 := by
    by_contra hne
    have hpos : 0 < p.curMemOffset := lt_of_le_of_ne hp.cur_nonneg (Ne.symm hne)
    obtain ⟨s, hs, -, hlast⟩ := hp.tiling.exists_ends hpos
    rw [ranges, hchunks, List.map_nil, List.nil_append] at hs
    obtain ⟨m, hm, rfl⟩ := List.mem_map.mp hs
    exact hk.not_last m hm hlast
  refine ⟨List.eq_nil_iff_forall_not_mem.mpr fun m hm => ?_, hcur⟩
  have hpos := hk.free_pos m hm
  have hle := hp.tiling.le_of_mem (s := m.range) (List.mem_append_right _ (List.mem_map_of_mem hm))
    (by simp only [FreeMemory.range]; omega)
  simp only [FreeMemory.range] at hle
  omega

end MemoryPool

namespace MemPools

variable {a a' : MemPools} {t : MemoryType} {chunk : MemChunk}

theorem setPool_inv {p' : MemoryPool} (ha : a.Inv) (hp : p'.Inv)
    (hsub : p'.allocatedChunks.Sublist (a.pool t).allocatedChunks) : (a.setPool t p').Inv := by
  have hmem : ∀ t', ∀ c ∈ ((a.setPool t p').pool t').allocatedChunks, c ∈ (a.pool t').allocatedChunks := by
    intro t' c hc
    by_cases ht : t' = t
    · subst ht
      rw [pool_setPool] at hc
      exact hsub.subset hc
    · rwa [pool_setPool_ne _ _ ht] at hc
  refine ⟨fun t' => ?_, fun t' c hc => ha.memType t' c (hmem t' c hc), fun t' c hc => ?_,
    fun t' c hc => ?_, fun t' => ?_,
    fun t₁ t₂ c hc c' hc' => ha.node t₁ t₂ c (hmem t₁ c hc) c' (hmem t₂ c' hc')⟩
  · by_cases ht : t' = t
    · subst ht
      rwa [pool_setPool]
    · rw [pool_setPool_ne _ _ ht]
      exact ha.pool t'
  · rw [setPool_maxCmxSize]
    exact ha.pointer t' c (hmem t' c hc)
  · rw [setPool_nextNode]
    exact ha.fresh t' c (hmem t' c hc)
  · by_cases ht : t' = t
    · subst ht
      rw [pool_setPool]
      exact (ha.nodup t').sublist (hsub.map _)
    · rw [pool_setPool_ne _ _ ht]
      exact ha.nodup t'

/-- **What `freeMem` does with an allocated chunk**: the chunk leaves the list of its pool and its range
goes back, the other pool is untouched. -/
theorem freeMem_inv (h : a.freeMem chunk = .ok a') (ha : a.Inv)
    (hc : chunk ∈ (a.pool t).allocatedChunks) :
    a'.Inv ∧ ∃ p' l₁ l₂, a' = a.setPool t p' ∧ (a.pool t).allocatedChunks = l₁ ++ chunk :: l₂ ∧
      p'.allocatedChunks = l₁ ++ l₂ := by
  obtain rfl := ha.memType t chunk hc
  obtain ⟨newMem, freePool, hjoin, rfl⟩ := freeMem_cases h
  obtain ⟨l₁, l₂, hchunks, herase⟩ := eraseP_node (ha.nodup _) hc
  rw [herase]
  have hp := MemoryPool.giveBack_inv (ha.pool _) hchunks hjoin
  refine ⟨setPool_inv ha hp ?_, _, l₁, l₂, rfl, hchunks, rfl⟩
  rw [hchunks]
  exact List.Sublist.append_left (List.sublist_cons_self _ _) _

/-- **No assertion of `freeMem` fires** on an allocated chunk, and the pools stay packed. -/
theorem freeMem_ok (ha : a.Inv) (hk : a.Packed) (hc : chunk ∈ (a.pool t).allocatedChunks) :
    ∃ a', a.freeMem chunk = .ok a' ∧ a'.Packed := by
  obtain rfl := ha.memType t chunk hc
  obtain ⟨l₁, l₂, hchunks, herase⟩ := eraseP_node (ha.nodup _) hc
  obtain ⟨newMem, freePool, hjoin, hpacked⟩ :=
    MemoryPool.giveBack_packed (ha.pool _) (hk.pool _) hchunks
  have hsame : ((a.pool chunk.memType).giveBack newMem freePool).allocatedChunks =
      (a.pool chunk.memType).allocatedChunks := by
    unfold MemoryPool.giveBack
    split <;> rfl
  have hany : (a.pool chunk.memType).allocatedChunks.any (·.posInList = chunk.posInList) :=
    List.any_eq_true.mpr ⟨chunk, hc, by simp⟩
  refine ⟨a.setPool chunk.memType { (a.pool chunk.memType).giveBack newMem freePool with
    allocatedChunks := l₁ ++ l₂ }, ?_, ⟨fun t' => ?_⟩⟩
  · simp only [freeMem, hjoin, bind, Except.bind, hsame, ieAssert, if_pos hany, herase]
    rfl
  · by_cases ht : t' = chunk.memType
    · subst ht
      rw [pool_setPool]
      exact hpacked
    · rw [pool_setPool_ne _ _ ht]
      exact hk.pool t'

/-! ### Runs -/

/-- The constructed allocator. -/
def ofSlices (numCMXSlices : Int) : MemPools := { maxCmxSize := numCMXSlices * CMX_SLICE_SIZE }

inductive PoolStep (a : MemPools) : MemPools → Prop
  | allocateMem {a' : MemPools} (t : MemoryType) (size inUse : Int) (r : Option MemChunk) (hsize : 0 < size)
      (h : a.allocateMem t size inUse = .ok (r, a')) : PoolStep a a'
  | freeMem {a' : MemPools} (t : MemoryType) (chunk : MemChunk)
      (hc : chunk ∈ (a.pool t).allocatedChunks) (h : a.freeMem chunk = .ok a') : PoolStep a a'

/-- All sequences of calls of `allocateMem` with a positive size and of `freeMem` on an allocated chunk. -/
def poolSystem : System MemPools where
  init a := ∃ numCMXSlices, a = ofSlices numCMXSlices
  step := PoolStep

theorem ofSlices_inv (n : Int) : (ofSlices n).Inv ∧ (ofSlices n).Packed := by
  have hempty : ∀ t, (ofSlices n).pool t = {} := fun t => by cases t <;> rfl
  refine ⟨⟨fun t => ?_, ?_, ?_, ?_, ?_, ?_⟩, ⟨fun t => ?_⟩⟩
  · rw [hempty]
    exact MemoryPool.inv_empty
  iterate 5 simp [hempty]
  · rw [hempty]
    exact MemoryPool.packed_empty

theorem poolStep_inv (ha : a.Inv ∧ a.Packed ∧ a.lockedSHAVEs = 0) (h : PoolStep a a') :
    a'.Inv ∧ a'.Packed ∧ a'.lockedSHAVEs = 0 := by
  obtain ⟨hinv, hpacked, hlocked⟩ := ha
  cases h with
  | allocateMem t size inUse r hsize h =>
    refine ⟨allocateMem_inv h hinv hsize.le, allocateMem_packed h hinv hpacked hsize, ?_⟩
    rcases allocateMem_cases h with ⟨-, rfl⟩ | ⟨offset, p', -, -, rfl⟩
    · exact hlocked
    · simpa using hlocked
  | freeMem t chunk hc h =>
    obtain ⟨hinv', p', -, -, rfl, -, -⟩ := freeMem_inv h hinv hc
    obtain ⟨a'', h'', hpacked'⟩ := freeMem_ok hinv hpacked hc
    rw [h] at h''
    cases h''
    exact ⟨hinv', hpacked', by simpa using hlocked⟩

theorem poolSystem_inv (h : poolSystem.Reachable a) : a.Inv ∧ a.Packed ∧ a.lockedSHAVEs = 0 := by
  refine h.induct (I := fun a => a.Inv ∧ a.Packed ∧ a.lockedSHAVEs = 0) ?_
    fun s t _ hs hst => poolStep_inv hs hst
  rintro s ⟨n, rfl⟩
  exact ⟨(ofSlices_inv n).1, (ofSlices_inv n).2, rfl⟩

theorem selfCheck_ok (hlocked : a.lockedSHAVEs = 0)
    (hempty : ∀ t, (a.pool t).freePool = [] ∧ (a.pool t).curMemOffset = 0) : a.selfCheck = .ok () := by
  simp [selfCheck, hlocked, hempty]
  rfl

/-- **The representation invariant of the pools**, in every state that the calls reach. -/
theorem memoryPool_representation (h : poolSystem.Reachable a) :
    (∀ t, Tiling (a.pool t).ranges 0 (a.pool t).curMemOffset ∧
      (∀ s ∈ (a.pool t).ranges, s.1 < s.2) ∧
      (∀ m ∈ (a.pool t).freePool, ∀ n ∈ (a.pool t).freePool, m.offset + m.size ≠ n.offset) ∧
      (∀ m ∈ (a.pool t).freePool, m.offset + m.size ≠ (a.pool t).curMemOffset) ∧
      (a.pool t).curMemOffset ≤ (a.pool t).memUsed ∧
      (∀ chunk ∈ (a.pool t).allocatedChunks, ∃ a', a.freeMem chunk = .ok a') ∧
      ((a.pool t).allocatedChunks = [] → (a.pool t).freePool = [] ∧ (a.pool t).curMemOffset = 0)) ∧
    ((∀ t, (a.pool t).allocatedChunks = []) → a.selfCheck = .ok ()) := by
  obtain ⟨hinv, hpacked, hlocked⟩ := poolSystem_inv h
  refine ⟨fun t => ⟨(hinv.pool t).tiling, fun s hs => ?_, (hpacked.pool t).apart, (hpacked.pool t).not_last,
    (hpacked.pool t).used, fun chunk hc => ?_, (hpacked.pool t).empty (hinv.pool t)⟩, fun hnone => ?_⟩
  · rcases List.mem_append.mp hs with hs | hs
    · obtain ⟨c, hc, rfl⟩ := List.mem_map.mp hs
      have := (hpacked.pool t).chunk_pos c hc
      simp only [MemChunk.range]
      omega
    · obtain ⟨m, hm, rfl⟩ := List.mem_map.mp hs
      have := (hpacked.pool t).free_pos m hm
      simp only [FreeMemory.range]
      omega
  · obtain ⟨a', h', -⟩ := freeMem_ok hinv hpacked hc
    exact ⟨a', h'⟩
  · exact selfCheck_ok hlocked fun t => (hpacked.pool t).empty (hinv.pool t) (hnone t)

/-- Two chunks were allocated and the first one was freed, so its block lies in front of the other. -/
def firstOfTwoFreed : MemPools where
  maxCmxSize := 128 * 1024
  ddrMemoryPool :=
    { curMemOffset := 192, memUsed := 192
      allocatedChunks := [⟨.DDR, 64, 64, 128, 1, 1⟩], freePool := [⟨0, 64⟩] }
  nextNode := 2

theorem firstOfTwoFreed_reachable : poolSystem.Reachable firstOfTwoFreed := by
  have h₀ : poolSystem.Reachable (ofSlices 1) := .init ⟨1, rfl⟩
  have h₁ := h₀.step (.allocateMem .DDR 64 1 _ (by decide) rfl)
  have h₂ := h₁.step (.allocateMem .DDR 128 1 _ (by decide) rfl)
  exact h₂.step (.freeMem .DDR ⟨.DDR, 0, 0, 64, 1, 0⟩ (by decide) rfl)

theorem memoryPool_representation_firstOfTwoFreed :
    Tiling (firstOfTwoFreed.pool .DDR).ranges 0 192 ∧
      ∃ a', firstOfTwoFreed.freeMem ⟨.DDR, 64, 64, 128, 1, 1⟩ = .ok a' := by
  obtain ⟨hpool, -⟩ := memoryPool_representation firstOfTwoFreed_reachable
  obtain ⟨htile, -, -, -, -, hfree, -⟩ := hpool .DDR
  exact ⟨htile, hfree _ (by decide)⟩

end MemPools

end OpenVino.Vpu
