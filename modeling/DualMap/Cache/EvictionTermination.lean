import DualMap.Cache.EvictionOrder

/-!
# Termination of the Eviction Loop

`_evict(80)` counts down only when it frees a block: it skips the falsy hash 0 and spins for
ever on an empty LRU list. It is called below the watermark only, which no pool of fewer than
100 blocks has. From 100 blocks on, a pool below its watermark has at least 99 blocks that
can be evicted, whatever the hashes are: the LRU list knows every cached hash but possibly 0.

Main results:
- `Reclaimable`: how the map, the free set and the LRU list agree when hashes may be 0;
- `evictLoop_frees`: a loop with enough evictable entries frees what it is asked for;
- `evict_terminates`: so does every call of `_evict` in every sequence of saves.
-/

namespace DualMap.Cache.PrefixKVCacheMgr

/-! ## The invariant -/

/-- What holds of a pool of at least 100 blocks at any time. Blocks are free or cached, no id
is given to two hashes, the LRU list knows cached hashes only, and the one hash that it may
have lost is 0. -/
structure Reclaimable (m : PrefixKVCacheMgr) : Prop where
  capacity : m.lru.capacity = m.cacheEngine.numBlocks
  watermark : m.minWatermark = m.cacheEngine.numBlocks / 100
  disjoint : ∀ id ∈ m.cachedBlocks.values, id ∉ m.freeBlockIndices
  distinct : m.cachedBlocks.values.Nodup
  count : m.getNumFreeBlocks + m.cachedBlocks.keys.length = m.cacheEngine.numBlocks
  listed : ∀ blockHash ∈ m.recency, blockHash ∈ m.cachedBlocks.keys
  unlisted : ∀ blockHash ∈ m.cachedBlocks.keys, blockHash ∉ m.recency → blockHash = 0
  size : m.lru.size_ = m.recency.length

theorem init_reclaimable (cacheEngine : KvCacheEngine) : Reclaimable (init cacheEngine) where
  capacity := rfl
  watermark := rfl
  disjoint := by intro id hid; simp [init] at hid
  distinct := List.nodup_nil
  count := by simp [init, getNumFreeBlocks, card_blockIds]
  listed := by intro blockHash hmem; simp [init, recency, PrefixLRUCache.init] at hmem
  unlisted := by intro blockHash hmem; simp [init] at hmem
  size := rfl

/-- The entries of the LRU list that an eviction does not skip. -/
def evictable (m : PrefixKVCacheMgr) : List ℤ := m.recency.filter (fun h => h ≠ 0)

/-- All cached hashes but one can be evicted. -/
theorem Reclaimable.cached_le {m : PrefixKVCacheMgr} (hm : Reclaimable m) :
    m.cachedBlocks.keys.length ≤ m.evictable.length + 1 := by
  have hsub : m.cachedBlocks.keys ⊆ 0 :: m.evictable := by
    intro blockHash hmem
    by_cases hzero : blockHash = 0
    · simp [hzero]
    · -- a hash other than 0 is still listed
      have hlisted : blockHash ∈ m.recency := by
        by_contra hnot
        exact hzero (hm.unlisted blockHash hmem hnot)
      simp [evictable, hzero, hlisted]
  have hle := (m.cachedBlocks.keys_nodup.subperm hsub).length_le
  rwa [List.length_cons] at hle

theorem Reclaimable.length_recency_le {m : PrefixKVCacheMgr} (hm : Reclaimable m) :
    m.recency.length ≤ m.cachedBlocks.keys.length :=
  (m.recency_nodup.subperm hm.listed).length_le

/-! ## Evicting -/

/-- The state after an iteration that skips the falsy hash: only the LRU entry is gone. -/
def afterSkip (m : PrefixKVCacheMgr) (rest : OrderedDict ℤ ℤ) : PrefixKVCacheMgr :=
  { m with lru := { m.lru with dictData := rest, size_ := m.lru.size_ - 1 } }

theorem afterSkip_reclaimable {m : PrefixKVCacheMgr} (hm : Reclaimable m)
    {entry : ℤ × ℤ} {rest : OrderedDict ℤ ℤ}
    (hpop : m.lru.dictData.popFirst = some (entry, rest)) (hzero : entry.1 = 0) :
    Reclaimable (afterSkip m rest) := by
  have hrecency : m.recency = entry.1 :: rest.keys := OrderedDict.popFirst_keys hpop
  refine { capacity := hm.capacity, watermark := hm.watermark, disjoint := hm.disjoint,
           distinct := hm.distinct, count := hm.count, listed := ?_, unlisted := ?_,
           size := ?_ }
  · intro blockHash hmem
    apply hm.listed
    rw [hrecency]
    exact List.mem_cons_of_mem _ hmem
  · intro blockHash hmem hnot
    by_contra hne
    -- the entry that is gone was the one of 0
    apply hne
    apply hm.unlisted blockHash hmem
    rw [hrecency, List.mem_cons, not_or]
    exact ⟨fun h => hne (h.trans hzero), hnot⟩
  · show m.lru.size_ - 1 = rest.keys.length
    rw [hm.size, hrecency, List.length_cons, Nat.add_sub_cancel]

theorem afterEviction_reclaimable {m : PrefixKVCacheMgr} (hm : Reclaimable m)
    {entry : ℤ × ℤ} {rest : OrderedDict ℤ ℤ} {blockId : ℤ}
    (hpop : m.lru.dictData.popFirst = some (entry, rest))
    (hget : m.cachedBlocks.get? entry.1 = some blockId) :
    Reclaimable (afterEviction m entry.1 blockId rest) ∧
      (afterEviction m entry.1 blockId rest).getNumFreeBlocks = m.getNumFreeBlocks + 1 := by
  have hentries := OrderedDict.entries_perm_erase hget
  have hvalues := OrderedDict.values_perm_erase hget
  have hrecency : m.recency = entry.1 :: rest.keys := OrderedDict.popFirst_keys hpop
  have hnodup : (entry.1 :: rest.keys).Nodup := hrecency ▸ m.recency_nodup
  obtain ⟨hunlisted, -⟩ := List.nodup_cons.mp hnodup
  obtain ⟨hnew, hdistinct⟩ := List.nodup_cons.mp ((hvalues.nodup_iff).mp hm.distinct)
  -- the freed id was not free before
  have hnotfree : blockId ∉ m.freeBlockIndices :=
    hm.disjoint blockId (hvalues.mem_iff.mpr (List.mem_cons_self ..))
  have hfree : (afterEviction m entry.1 blockId rest).getNumFreeBlocks =
      m.getNumFreeBlocks + 1 := Finset.card_insert_of_notMem hnotfree
  have hkeys : m.cachedBlocks.keys.length =
      (m.cachedBlocks.erase entry.1).keys.length + 1 := by
    rw [OrderedDict.length_keys, OrderedDict.length_keys, hentries.length_eq, List.length_cons]
  refine ⟨{ capacity := hm.capacity, watermark := hm.watermark, disjoint := ?_,
            distinct := hdistinct, count := ?_, listed := ?_, unlisted := ?_, size := ?_ },
    hfree⟩
  · intro id hid hmem
    rcases Finset.mem_insert.mp hmem with rfl | hmem
    · exact hnew hid
    · exact hm.disjoint id (hvalues.mem_iff.mpr (List.mem_cons_of_mem _ hid)) hmem
  · rw [hfree]
    show m.getNumFreeBlocks + 1 + (m.cachedBlocks.erase entry.1).keys.length =
      m.cacheEngine.numBlocks
    have := hm.count
    omega
  · intro blockHash hmem
    show blockHash ∈ (m.cachedBlocks.erase entry.1).keys
    rw [OrderedDict.keys_erase, List.mem_filter, decide_eq_true_eq]
    refine ⟨hm.listed blockHash (by rw [hrecency]; exact List.mem_cons_of_mem _ hmem), ?_⟩
    rintro rfl
    exact hunlisted hmem
  · intro blockHash hmem hnot
    have hmem' : blockHash ∈ (m.cachedBlocks.erase entry.1).keys := hmem
    rw [OrderedDict.keys_erase, List.mem_filter, decide_eq_true_eq] at hmem'
    apply hm.unlisted blockHash hmem'.1
    rw [hrecency, List.mem_cons, not_or]
    exact ⟨hmem'.2, hnot⟩
  · show m.lru.size_ - 1 = rest.keys.length
    rw [hm.size, hrecency, List.length_cons, Nat.add_sub_cancel]

/-- The loop frees `k` blocks when so many entries can be evicted. It never finds the LRU list
empty, and stores nothing. -/
theorem evictLoop_frees (fuel k : ℕ) {m : PrefixKVCacheMgr} (hm : Reclaimable m)
    (hk : k ≤ m.evictable.length) (hfuel : m.recency.length < fuel) :
    ∃ m', evictLoop fuel ((k : ℤ) - 1) m = .ok () m' ∧ Reclaimable m' ∧
      m'.getNumFreeBlocks = m.getNumFreeBlocks + k ∧ m'.cacheEngine = m.cacheEngine ∧
      ∀ blockHash ∈ m'.cachedBlocks.keys, blockHash ∈ m.cachedBlocks.keys := by
  -- induction on the iterations: each takes an entry off the list, most of them free a block
  induction fuel generalizing k m with
  | zero => omega
  | succ fuel ih =>
    cases k with
    | zero => exact ⟨m, by simp [evictLoop], hm, rfl, rfl, fun _ h => h⟩
    | succ k =>
      cases hpop : m.lru.dictData.popFirst with
      | none =>
        -- an empty list has no evictable entries
        rw [evictable, recency, OrderedDict.popFirst_eq_none.mp hpop] at hk
        simp at hk
      | some popped =>
        obtain ⟨entry, rest⟩ := popped
        have hrecency : m.recency = entry.1 :: rest.keys := OrderedDict.popFirst_keys hpop
        have hnonneg : (0 : ℤ) ≤ ((k + 1 : ℕ) : ℤ) - 1 := by push_cast; omega
        have hshorter : rest.keys.length < fuel := by
          rw [hrecency, List.length_cons] at hfuel
          omega
        by_cases hzero : entry.1 = 0
        · -- skipped: as many blocks are still to be freed, and as many can be
          have hcan : k + 1 ≤ (afterSkip m rest).evictable.length := by
            rw [evictable, hrecency, List.filter_cons_of_neg (by simp [hzero])] at hk
            exact hk
          obtain ⟨m', hrun, hm', hfree, hengine, hkeys⟩ :=
            ih (k + 1) (afterSkip_reclaimable hm hpop hzero) hcan hshorter
          refine ⟨m', ?_, hm', hfree, hengine, hkeys⟩
          rw [evictLoop, if_pos hnonneg, Py.bind_ok (pop_eq hm.size hpop)]
          simp only [hzero, if_true]
          exact hrun
        · have hlisted : entry.1 ∈ m.recency := by rw [hrecency]; exact List.mem_cons_self ..
          obtain ⟨blockId, hget⟩ := OrderedDict.get?_of_mem_keys (hm.listed entry.1 hlisted)
          obtain ⟨hnext, hone⟩ := afterEviction_reclaimable hm hpop hget
          have hcan : k ≤ (afterEviction m entry.1 blockId rest).evictable.length := by
            rw [evictable, hrecency, List.filter_cons_of_pos (by simpa using hzero),
              List.length_cons] at hk
            exact Nat.le_of_succ_le_succ hk
          obtain ⟨m', hrun, hm', hfree, hengine, hkeys⟩ := ih k hnext hcan hshorter
          have hfreed : freeBlock entry.1
              { m with lru := { m.lru with dictData := rest, size_ := m.lru.size_ - 1 } } =
              .ok true (afterEviction m entry.1 blockId rest) := freeBlock_eq hget
          refine ⟨m', ?_, hm', by omega, hengine, ?_⟩
          · have hcount : (((k + 1 : ℕ) : ℤ) - 1) - 1 = (k : ℤ) - 1 := by push_cast; ring
            rw [evictLoop, if_pos hnonneg, Py.bind_ok (pop_eq hm.size hpop)]
            simp only [hzero, if_false]
            rw [Py.bind_ok hfreed, if_pos rfl, hcount]
            exact hrun
          · intro blockHash hmem
            have hmem' : blockHash ∈ (m.cachedBlocks.erase entry.1).keys := hkeys _ hmem
            rw [OrderedDict.keys_erase] at hmem'
            exact (List.mem_filter.mp hmem').1

/-- A call of `_evict(80)` below the watermark of a pool of at least 100 blocks. -/
theorem evict_frees {m : PrefixKVCacheMgr} (hm : Reclaimable m)
    (hlow : m.getNumFreeBlocks < m.minWatermark) :
    ∃ m', evict 80 m = .ok () m' ∧ Reclaimable m' ∧
      m'.getNumFreeBlocks = m.getNumFreeBlocks + 81 ∧ m'.cacheEngine = m.cacheEngine ∧
      ∀ blockHash ∈ m'.cachedBlocks.keys, blockHash ∈ m.cachedBlocks.keys := by
  have hcount := hm.count
  have hcached := hm.cached_le
  have hwatermark := hm.watermark
  -- below the watermark at least 100 blocks are cached, and all but one of them can go
  exact evictLoop_frees (m.lru.size_ + 1) 81 hm (by omega) (by rw [hm.size]; omega)

/-! ## Saving -/

/-- After the check there is a free block, and the map has gained nothing. -/
theorem checkAndReclaimCache_reclaimable {m : PrefixKVCacheMgr} (hm : Reclaimable m)
    (hlarge : 100 ≤ m.cacheEngine.numBlocks) :
    ∃ m', checkAndReclaimCache m = .ok () m' ∧ Reclaimable m' ∧
      m'.freeBlockIndices.Nonempty ∧ m'.cacheEngine = m.cacheEngine ∧
      ∀ blockHash ∈ m'.cachedBlocks.keys, blockHash ∈ m.cachedBlocks.keys := by
  by_cases hlow : m.getNumFreeBlocks < m.minWatermark
  · obtain ⟨m', hrun, hm', hfree, hengine, hkeys⟩ := evict_frees hm hlow
    refine ⟨m', ?_, hm', ?_, hengine, hkeys⟩
    · simpa [checkAndReclaimCache, Py.bind_apply, hlow] using hrun
    · apply Finset.card_pos.mp
      show 0 < m'.getNumFreeBlocks
      omega
  · refine ⟨m, ?_, hm, ?_, rfl, fun _ h => h⟩
    · simp [checkAndReclaimCache, Py.bind_apply, hlow]
    · apply Finset.card_pos.mp
      show 0 < m.getNumFreeBlocks
      have := hm.watermark
      omega

theorem afterInsertion_reclaimable {m : PrefixKVCacheMgr} (hm : Reclaimable m)
    {blockHash blockId : ℤ} (hnew : blockHash ∉ m.cachedBlocks.keys)
    (hfree : blockId ∈ m.freeBlockIndices) :
    Reclaimable (afterInsertion m blockHash blockId) := by
  -- the block was free and its hash unknown, so it meets none of the old entries
  have hunlisted : blockHash ∉ m.recency := fun h => hnew (hm.listed _ h)
  have hkeys := OrderedDict.keys_set_of_notMem blockId hnew
  have hvalues := OrderedDict.values_set_of_notMem blockId hnew
  have hrecency := afterInsertion_recency blockId hunlisted
  have hunused : blockId ∉ m.cachedBlocks.values := fun h => hm.disjoint blockId h hfree
  refine { capacity := hm.capacity, watermark := hm.watermark, disjoint := ?_, distinct := ?_,
           count := ?_, listed := ?_, unlisted := ?_, size := ?_ }
  · intro id hid hmem
    obtain ⟨hne, hmem⟩ := Finset.mem_erase.mp hmem
    simp only [afterInsertion, hvalues, List.mem_append, List.mem_singleton] at hid
    rcases hid with hid | hid
    · exact hm.disjoint id hid hmem
    · exact hne hid
  · show (m.cachedBlocks.set blockHash blockId).values.Nodup
    rw [hvalues]
    exact hm.distinct.append (List.nodup_singleton _)
      (List.disjoint_singleton.mpr hunused)
  · -- one block less is free, one more is cached
    have hcard := Finset.card_erase_add_one hfree
    have hcount := hm.count
    show (m.freeBlockIndices.erase blockId).card +
      (m.cachedBlocks.set blockHash blockId).keys.length = m.cacheEngine.numBlocks
    rw [hkeys, List.length_append, List.length_singleton]
    unfold getNumFreeBlocks at hcount
    omega
  · intro h hmem
    rw [hrecency, List.mem_append] at hmem
    show h ∈ (m.cachedBlocks.set blockHash blockId).keys
    rw [hkeys, List.mem_append]
    exact hmem.imp_left (hm.listed h)
  · intro h hmem hnot
    have hmem' : h ∈ (m.cachedBlocks.set blockHash blockId).keys := hmem
    rw [hkeys, List.mem_append] at hmem'
    rw [hrecency, List.mem_append, not_or] at hnot
    rcases hmem' with hmem' | hmem'
    · exact hm.unlisted h hmem' hnot.1
    · exact absurd hmem' hnot.2
  · rw [hrecency, List.length_append, List.length_singleton, ← hm.size]
    rfl

theorem moveToEnd_reclaimable {m : PrefixKVCacheMgr} (hm : Reclaimable m) (blockHash : ℤ) :
    Reclaimable
      { m with lru := { m.lru with dictData := m.lru.dictData.moveToEnd blockHash } } := by
  have hkeys := (OrderedDict.entries_moveToEnd_perm m.lru.dictData blockHash).map Prod.fst
  refine { capacity := hm.capacity, watermark := hm.watermark, disjoint := hm.disjoint,
           distinct := hm.distinct, count := hm.count, listed := ?_, unlisted := ?_,
           size := ?_ }
  · intro h hmem
    exact hm.listed h (hkeys.mem_iff.mp hmem)
  · intro h hmem hnot
    exact hm.unlisted h hmem (fun hlisted => hnot (hkeys.mem_iff.mpr hlisted))
  · exact hm.size.trans hkeys.length_eq.symm

/-- A look-up of a hash that the map does not know leaves the LRU list as it is. -/
theorem lruGet_new {m : PrefixKVCacheMgr} (hm : Reclaimable m) {blockHash : ℤ}
    (hnew : blockHash ∉ m.cachedBlocks.keys) :
    ∃ res, onLru (PrefixLRUCache.get blockHash) m = .ok res m := by
  obtain ⟨res, hlru⟩ := lruGet_eq m blockHash
  rw [moveToEnd_of_new (fun h => hnew (hm.listed _ h))] at hlru
  exact ⟨res, hlru⟩

/-- Saving a block of any hash returns and keeps the invariant. -/
theorem saveBlock_reclaimable (rt : Runtime) {m : PrefixKVCacheMgr} (hm : Reclaimable m)
    (hlarge : 100 ≤ m.cacheEngine.numBlocks) (blockHash : ℤ) :
    ∃ saved m', saveBlock rt blockHash m = .ok saved m' ∧ Reclaimable m' ∧
      m'.cacheEngine = m.cacheEngine := by
  by_cases hmem : blockHash ∈ m.cachedBlocks.keys
  · -- the block is cached: only the LRU order may change
    obtain ⟨res, hlru⟩ := lruGet_eq m blockHash
    obtain ⟨blockId, hget⟩ := OrderedDict.get?_of_mem_keys hmem
    refine ⟨0, _, ?_, moveToEnd_reclaimable hm blockHash, rfl⟩
    rw [saveBlock, Py.bind_ok (Py.get_apply m), Py.bind_ok hlru]
    simp [hget]
  · obtain ⟨res, hlru⟩ := lruGet_new hm hmem
    have hget : m.cachedBlocks.get? blockHash = none := OrderedDict.get?_eq_none.mpr hmem
    obtain ⟨m', hreclaim, hm', hfree, hengine, hkeys⟩ :=
      checkAndReclaimCache_reclaimable hm hlarge
    have hnew : blockHash ∉ m'.cachedBlocks.keys := fun h => hmem (hkeys _ h)
    have hnext := afterInsertion_reclaimable hm' hnew (rt.nextIter_mem _ hfree)
    refine ⟨1, _, ?_, hnext, hengine⟩
    -- with a free block the LRU list cannot be full
    have hroom : m'.lru.size_ ≠ m'.lru.capacity := by
      have hpos : 0 < m'.getNumFreeBlocks := Finset.card_pos.mpr hfree
      have hcount := hm'.count
      have hle := hm'.length_recency_le
      rw [hm'.size, hm'.capacity]
      omega
    have halloc := allocateBlock_eq rt hreclaim hfree hnew
    have hput := put_eq (m := { m' with
      freeBlockIndices := m'.freeBlockIndices.erase (rt.nextIter m'.freeBlockIndices)
      cachedBlocks := m'.cachedBlocks.set blockHash (rt.nextIter m'.freeBlockIndices) })
      (fun h => hnew (hm'.listed _ h)) hroom
    rw [saveBlock, Py.bind_ok (Py.get_apply m), Py.bind_ok hlru]
    simp only [hget, if_true]
    rw [Py.bind_ok (Py.tryExcept_ok halloc), Py.bind_ok hput]
    rfl

theorem saveLoop_reclaimable (rt : Runtime) (hashes : List ℤ) {m : PrefixKVCacheMgr}
    (hm : Reclaimable m) (hlarge : 100 ≤ m.cacheEngine.numBlocks) :
    ∃ saved m', saveLoop rt hashes m = .ok saved m' ∧ Reclaimable m' ∧
      m'.cacheEngine = m.cacheEngine := by
  induction hashes generalizing m with
  | nil => exact ⟨0, m, rfl, hm, rfl⟩
  | cons blockHash hashes ih =>
    obtain ⟨saved, m₁, hrun₁, hm₁, hengine₁⟩ := saveBlock_reclaimable rt hm hlarge blockHash
    obtain ⟨rest, m₂, hrun₂, hm₂, hengine₂⟩ := ih hm₁ (by rw [hengine₁]; exact hlarge)
    refine ⟨saved + rest, m₂, ?_, hm₂, hengine₂.trans hengine₁⟩
    rw [saveLoop, Py.bind_ok hrun₁, Py.bind_ok hrun₂, Py.pure_apply]

/-- A pool of at least 100 blocks after any calls, none of which raises. -/
theorem afterCalls_reclaimable (rt : Runtime) (calls : List Call) {m : PrefixKVCacheMgr}
    (hm : Reclaimable m) (hlarge : 100 ≤ m.cacheEngine.numBlocks) :
    Reclaimable (afterCalls rt calls m) ∧
      (afterCalls rt calls m).cacheEngine = m.cacheEngine := by
  induction calls generalizing m with
  | nil => exact ⟨hm, rfl⟩
  | cons call calls ih =>
    rw [afterCalls_cons]
    have hcall : Reclaimable (Py.finalState (call.run rt m)) ∧
        (Py.finalState (call.run rt m)).cacheEngine = m.cacheEngine := by
      rcases call.run_eq rt m with ⟨promptTokenIds, rfl, hrun⟩ | hrun
      · rw [hrun]
        exact ⟨hm, rfl⟩
      · obtain ⟨saved, m', hloop, hm', hengine⟩ :=
          saveLoop_reclaimable rt (call.savedHashes rt m.cacheEngine.blockSize) hm hlarge
        rw [hrun, hloop]
        exact ⟨hm', hengine⟩
    obtain ⟨hnext, hengine⟩ := ih hcall.1 (by rw [hcall.2]; exact hlarge)
    exact ⟨hnext, hengine.trans hcall.2⟩

/-! ## Small pools -/

/-- The engine and the watermark are those of the constructor. -/
def Constants (cacheEngine : KvCacheEngine) (m : PrefixKVCacheMgr) : Prop :=
  m.cacheEngine = cacheEngine ∧ m.minWatermark = cacheEngine.numBlocks / 100

theorem Constants.stable (cacheEngine : KvCacheEngine) :
    Stable Set.univ (Constants cacheEngine) where
  lru _ _ hm := hm
  free _ _ _ hm := hm
  take _ _ hm := hm
  store _ _ _ _ _ hm := hm

theorem afterCalls_constants (rt : Runtime) (calls : List Call) {cacheEngine : KvCacheEngine}
    {m : PrefixKVCacheMgr} (hm : Constants cacheEngine m) :
    Constants cacheEngine (afterCalls rt calls m) := by
  induction calls generalizing m with
  | nil => exact hm
  | cons call calls ih =>
    rw [afterCalls_cons]
    apply ih
    rcases call.run_eq rt m with ⟨promptTokenIds, rfl, hrun⟩ | hrun
    · rw [hrun]
      exact hm
    · rw [hrun]
      exact (Constants.stable cacheEngine).saveLoop rt (fun _ _ => Set.mem_univ _) m hm

/-! ## Every reclaim -/

/-- In the middle of a save, the state in which `_check_and_reclaim_cache` is called: some of
the blocks are saved, and the next one is not cached. -/
def ReclaimsAt (rt : Runtime) (hashes : List ℤ) (m m' : PrefixKVCacheMgr) : Prop :=
  ∃ done blockHash rest saved m₁ res, hashes = done ++ blockHash :: rest ∧
    saveLoop rt done m = .ok saved m₁ ∧ m₁.cachedBlocks.get? blockHash = none ∧
    onLru (PrefixLRUCache.get blockHash) m₁ = .ok res m'

/-- Whatever the hashes are and however the calls before ended, a reclaim in the middle of the
next call that finds fewer free blocks than the watermark evicts 81 blocks. -/
theorem evict_terminates (rt : Runtime) (cacheEngine : KvCacheEngine) (calls : List Call)
    (call : Call) (m : PrefixKVCacheMgr)
    (hreclaims : ReclaimsAt rt (call.savedHashes rt cacheEngine.blockSize)
      (afterCalls rt calls (init cacheEngine)) m)
    (hlow : m.getNumFreeBlocks < m.minWatermark) :
    ∃ m', evict 80 m = .ok () m' ∧ m'.getNumFreeBlocks = m.getNumFreeBlocks + 81 := by
  obtain ⟨done, blockHash, rest, saved, m₁, res, -, hloop, hnone, hlru⟩ := hreclaims
  obtain ⟨res', hlru'⟩ := lruGet_eq m₁ blockHash
  rw [hlru'] at hlru
  obtain ⟨-, rfl⟩ := EStateM.Result.ok.inj hlru
  have hconstants : Constants cacheEngine m₁ := by
    have hkeeps : Py.Keeps (Constants cacheEngine) (saveLoop rt done) :=
      (Constants.stable cacheEngine).saveLoop rt (fun _ _ => Set.mem_univ _)
    have hsaved := hkeeps _ (afterCalls_constants rt calls (m := init cacheEngine) ⟨rfl, rfl⟩)
    rwa [hloop] at hsaved
  -- a watermark above zero needs 100 blocks
  have hlarge : 100 ≤ cacheEngine.numBlocks := by
    have hwatermark : m₁.minWatermark = cacheEngine.numBlocks / 100 := hconstants.2
    have hpos : 0 < m₁.minWatermark := Nat.zero_lt_of_lt hlow
    omega
  obtain ⟨hstart, hengine⟩ := afterCalls_reclaimable rt calls (init_reclaimable cacheEngine) hlarge
  obtain ⟨saved', m₂, hloop', hm₂, -⟩ :=
    saveLoop_reclaimable rt done hstart (by rw [hengine]; exact hlarge)
  rw [hloop] at hloop'
  obtain ⟨-, rfl⟩ := EStateM.Result.ok.inj hloop'
  obtain ⟨m', hrun, -, hfree, -⟩ := evict_frees (moveToEnd_reclaimable hm₂ blockHash) hlow
  exact ⟨m', hrun, hfree⟩

/-- The filling prompt leaves no block free, so the block of another prompt makes the next
save reclaim. -/
theorem evict_terminates_filled :
    ∃ m, ReclaimsAt encodingRuntime
        ((Call.save [1000]).savedHashes encodingRuntime hundredEngine.blockSize)
        (afterCalls encodingRuntime [.save fillingPrompt] (init hundredEngine)) m ∧
      m.getNumFreeBlocks < m.minWatermark ∧
      ∃ m', evict 80 m = .ok () m' ∧ m'.getNumFreeBlocks = m.getNumFreeBlocks + 81 := by
  obtain ⟨num, m, hrun, hwf, hengine, hfilled⟩ := fillingPrompt_filled
  obtain ⟨other, hother, hnew⟩ := fillingPrompt_other
  -- the pool is full, so the save of another block starts by reclaiming
  have hafter : afterCalls encodingRuntime [.save fillingPrompt] (init hundredEngine) = m := by
    rw [afterCalls_cons, hrun]
    rfl
  have hnotlisted : other ∉ m.recency := by rw [hfilled]; exact hnew
  have hnone : m.cachedBlocks.get? other = none :=
    OrderedDict.get?_eq_none.mpr (fun h => hnotlisted ((hwf.sameKeys other).mp h))
  obtain ⟨res, hlru⟩ := lruGet_eq m other
  rw [moveToEnd_of_new hnotlisted] at hlru
  have hreclaims : ReclaimsAt encodingRuntime
      ((Call.save [1000]).savedHashes encodingRuntime hundredEngine.blockSize)
      (afterCalls encodingRuntime [.save fillingPrompt] (init hundredEngine)) m :=
    ⟨[], other, [], 0, m, res, hother, by rw [hafter]; rfl, hnone, hlru⟩
  have hlow : m.getNumFreeBlocks < m.minWatermark := by
    have hcard := hwf.card_free
    have hlen : m.recency.length = 100 := by
      rw [hfilled, length_promptHashes]
      rfl
    rw [hwf.watermark]
    rw [hlen] at hcard
    rw [hengine] at hcard ⊢
    have hnum : hundredEngine.numBlocks = 100 := rfl
    omega
  exact ⟨m, hreclaims, hlow,
    evict_terminates encodingRuntime hundredEngine [.save fillingPrompt] (.save [1000]) m
      hreclaims hlow⟩

end DualMap.Cache.PrefixKVCacheMgr
