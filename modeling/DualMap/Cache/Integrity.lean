import DualMap.Cache.PrefixKVCacheMgr
import DualMap.Foundation.BatchLru
import Mathlib.Data.Finset.Dedup
import Mathlib.Data.List.Perm.Subperm
import Mathlib.Tactic.Ring

/-!
# Integrity of the Block Pool

The free set, the map from hashes to block ids and the LRU list are changed in separate
steps. `Integrity` says how they agree between calls; `WellFormed` adds what the proofs
need besides. The manager refines the abstract LRU order of `BatchLru`: saving a block
touches its hash (`saveBlock_refines`), as long as a block is cached already, some room is
left, or the pool is large enough to reclaim blocks.

Without reclaim, which is the case for fewer than 100 blocks, a full pool breaks all of
this at the next new block (`saveBlock_exhausted`).
-/

namespace DualMap.Cache.PrefixKVCacheMgr

open BatchLru

/-! ## The invariant -/

/-- The cached hashes, from the least to the most recently used one. -/
def recency (m : PrefixKVCacheMgr) : List ℤ := m.lru.dictData.keys

/-- The free block ids and the cached ones partition `0 .. num_blocks - 1`, no id is given
to two hashes, and the LRU list knows exactly the cached hashes. -/
structure Integrity (m : PrefixKVCacheMgr) : Prop where
  disjoint : ∀ id ∈ m.cachedBlocks.values, id ∉ m.freeBlockIndices
  distinct : m.cachedBlocks.values.Nodup
  total : ∀ id, id ∈ m.freeBlockIndices ∨ id ∈ m.cachedBlocks.values ↔
    id ∈ blockIds m.cacheEngine.numBlocks
  sameKeys : ∀ blockHash, blockHash ∈ m.cachedBlocks.keys ↔ blockHash ∈ m.recency
  size : m.lru.size_ = m.recency.length

/-- `Integrity`, the constants set by the constructor, and what is stored per hash. -/
structure WellFormed (m : PrefixKVCacheMgr) : Prop extends Integrity m where
  capacity : m.lru.capacity = m.cacheEngine.numBlocks
  watermark : m.minWatermark = m.cacheEngine.numBlocks / 100
  stored : ∀ value ∈ m.lru.dictData.values, value = 0
  truthy : ∀ blockHash ∈ m.recency, blockHash ≠ 0

/-- The reclaim policy of the manager: `_evict(80)` frees 81 blocks. -/
def policy (cacheEngine : KvCacheEngine) : Policy where
  capacity := cacheEngine.numBlocks
  watermark := cacheEngine.numBlocks / 100
  batch := 81

theorem init_wellFormed (cacheEngine : KvCacheEngine) : WellFormed (init cacheEngine) where
  disjoint := by intro id hid; simp [init] at hid
  distinct := List.nodup_nil
  total := by intro id; simp [init]
  sameKeys := by intro blockHash; simp [init, recency, PrefixLRUCache.init]
  size := rfl
  capacity := rfl
  watermark := rfl
  stored := by intro value hvalue; simp [init, PrefixLRUCache.init] at hvalue
  truthy := by intro blockHash hmem; simp [init, recency, PrefixLRUCache.init] at hmem

theorem card_blockIds (numBlocks : ℕ) : (blockIds numBlocks).card = numBlocks := by
  rw [blockIds, Finset.card_map, Finset.card_range]

theorem recency_nodup (m : PrefixKVCacheMgr) : m.recency.Nodup := m.lru.dictData.keys_nodup

theorem Integrity.keys_perm {m : PrefixKVCacheMgr} (hm : Integrity m) :
    m.cachedBlocks.keys.Perm m.recency :=
  (List.perm_ext_iff_of_nodup m.cachedBlocks.keys_nodup m.recency_nodup).mpr hm.sameKeys

/-- Every block is either free or cached. -/
theorem Integrity.card_free {m : PrefixKVCacheMgr} (hm : Integrity m) :
    m.getNumFreeBlocks + m.recency.length = m.cacheEngine.numBlocks := by
  have hunion : m.freeBlockIndices ∪ m.cachedBlocks.values.toFinset =
      blockIds m.cacheEngine.numBlocks := by
    ext id
    rw [Finset.mem_union, List.mem_toFinset]
    exact hm.total id
  have hdisj : Disjoint m.freeBlockIndices m.cachedBlocks.values.toFinset := by
    rw [Finset.disjoint_right]
    intro id hid
    exact hm.disjoint id (List.mem_toFinset.mp hid)
  -- as many block ids are cached as hashes are listed
  have hvalues : m.cachedBlocks.values.toFinset.card = m.recency.length := by
    rw [List.toFinset_card_of_nodup hm.distinct, OrderedDict.length_values,
      hm.keys_perm.length_eq]
  rw [← card_blockIds m.cacheEngine.numBlocks, ← hunion, Finset.card_union_of_disjoint hdisj,
    hvalues]
  rfl

theorem Integrity.length_recency_le {m : PrefixKVCacheMgr} (hm : Integrity m) :
    m.recency.length ≤ m.cacheEngine.numBlocks := by
  have := hm.card_free
  omega

/-- The LRU list answers 0, never the `-1` of a missing key, for every cached hash. -/
theorem WellFormed.query_ne {m : PrefixKVCacheMgr} (hm : WellFormed m) {blockHash : ℤ}
    (h : blockHash ∈ m.recency) : m.lru.query blockHash ≠ -1 := by
  obtain ⟨value, hvalue⟩ := OrderedDict.get?_of_mem_keys h
  have hmem : value ∈ m.lru.dictData.values :=
    List.mem_map.mpr ⟨_, OrderedDict.mem_entries_of_get? hvalue, rfl⟩
  have hzero : value = 0 := hm.stored value hmem
  simp [PrefixLRUCache.query, hvalue, hzero]

/-! ## Evicting the oldest block -/

/-- The state after one iteration of `_evict`: the oldest LRU entry is gone and its block
is free. -/
def afterEviction (m : PrefixKVCacheMgr) (blockHash blockId : ℤ) (rest : OrderedDict ℤ ℤ) :
    PrefixKVCacheMgr :=
  freeBlockId { m with
    lru := { m.lru with dictData := rest, size_ := m.lru.size_ - 1 }
    cachedBlocks := m.cachedBlocks.erase blockHash } blockId

theorem afterEviction_wellFormed {m : PrefixKVCacheMgr} (hm : WellFormed m)
    {entry : ℤ × ℤ} {rest : OrderedDict ℤ ℤ} {blockId : ℤ}
    (hpop : m.lru.dictData.popFirst = some (entry, rest))
    (hget : m.cachedBlocks.get? entry.1 = some blockId) :
    WellFormed (afterEviction m entry.1 blockId rest) := by
  have hvalues := OrderedDict.values_perm_erase hget
  have hrecency : m.recency = entry.1 :: rest.keys := OrderedDict.popFirst_keys hpop
  have hentries := OrderedDict.popFirst_entries hpop
  have hnd : (blockId :: (m.cachedBlocks.erase entry.1).values).Nodup :=
    (hvalues.nodup_iff).mp hm.distinct
  obtain ⟨hnew, hdistinct⟩ := List.nodup_cons.mp hnd
  refine { disjoint := ?_, distinct := hdistinct, total := ?_, sameKeys := ?_, size := ?_,
           capacity := hm.capacity, watermark := hm.watermark, stored := ?_, truthy := ?_ }
  -- the freed id was stored under the evicted hash only
  · intro id hid hfree
    rcases Finset.mem_insert.mp hfree with rfl | hfree
    · exact hnew hid
    · exact hm.disjoint id (hvalues.mem_iff.mpr (List.mem_cons_of_mem _ hid)) hfree
  · intro id
    show id ∈ insert blockId m.freeBlockIndices ∨
      id ∈ (m.cachedBlocks.erase entry.1).values ↔ id ∈ blockIds m.cacheEngine.numBlocks
    -- the id changes sides, from the cached to the free ones
    rw [← hm.total id, hvalues.mem_iff, Finset.mem_insert, List.mem_cons]
    tauto
  · intro blockHash
    show blockHash ∈ (m.cachedBlocks.erase entry.1).keys ↔ blockHash ∈ rest.keys
    -- both the map and the LRU list lose the oldest hash
    have hnd' : (entry.1 :: rest.keys).Nodup := hrecency ▸ m.recency_nodup
    have hnotmem : entry.1 ∉ rest.keys := (List.nodup_cons.mp hnd').1
    rw [OrderedDict.keys_erase, List.mem_filter, hm.sameKeys blockHash, hrecency,
      List.mem_cons, decide_eq_true_eq]
    constructor
    · rintro ⟨hmem | hmem, hne⟩
      · exact absurd hmem hne
      · exact hmem
    · intro hmem
      exact ⟨Or.inr hmem, fun heq => hnotmem (heq ▸ hmem)⟩
  · show m.lru.size_ - 1 = rest.keys.length
    rw [hm.size, hrecency, List.length_cons, Nat.add_sub_cancel]
  · intro value hvalue
    apply hm.stored value
    show value ∈ m.lru.dictData.entries.map Prod.snd
    rw [hentries, List.map_cons]
    exact List.mem_cons_of_mem _ hvalue
  · intro blockHash hmem
    apply hm.truthy blockHash
    rw [hrecency]
    exact List.mem_cons_of_mem _ hmem

theorem pop_eq {m : PrefixKVCacheMgr} (hm : m.lru.size_ = m.recency.length) {entry : ℤ × ℤ}
    {rest : OrderedDict ℤ ℤ} (hpop : m.lru.dictData.popFirst = some (entry, rest)) :
    onLru PrefixLRUCache.pop m = .ok (some entry)
      { m with lru := { m.lru with dictData := rest, size_ := m.lru.size_ - 1 } } := by
  have hsize : m.lru.size_ ≠ 0 := by
    rw [hm, recency, OrderedDict.popFirst_keys hpop]
    simp
  simp [onLru, Py.zoom_apply, PrefixLRUCache.pop, Py.bind_apply, Py.map_apply, hsize, hpop]

theorem freeBlock_eq {m : PrefixKVCacheMgr} {blockHash blockId : ℤ}
    (hget : m.cachedBlocks.get? blockHash = some blockId) :
    freeBlock blockHash m = .ok true
      (freeBlockId { m with cachedBlocks := m.cachedBlocks.erase blockHash } blockId) := by
  simp [freeBlock, Py.bind_apply, Py.map_apply, hget]

/-- `_evict(k - 1)` frees the `k` oldest blocks, when there are so many. -/
theorem evictLoop_refines (k fuel : ℕ) {m : PrefixKVCacheMgr} (hm : WellFormed m)
    (hk : k ≤ m.recency.length) (hfuel : k < fuel) :
    ∃ m', evictLoop fuel ((k : ℤ) - 1) m = .ok () m' ∧ WellFormed m' ∧
      m'.recency = m.recency.drop k ∧ m'.cacheEngine = m.cacheEngine := by
  -- induction on the blocks still to evict; the counter of the code is one behind
  induction k generalizing fuel m with
  | zero =>
    obtain ⟨fuel, rfl⟩ : ∃ f, fuel = f + 1 := ⟨fuel - 1, by omega⟩
    exact ⟨m, by simp [evictLoop], hm, rfl, rfl⟩
  | succ k ih =>
    obtain ⟨fuel, rfl⟩ : ∃ f, fuel = f + 1 := ⟨fuel - 1, by omega⟩
    cases hpop : m.lru.dictData.popFirst with
    | none =>
      rw [recency, OrderedDict.popFirst_eq_none.mp hpop] at hk
      simp at hk
    | some popped =>
      obtain ⟨entry, rest⟩ := popped
      have hrecency : m.recency = entry.1 :: rest.keys := OrderedDict.popFirst_keys hpop
      -- the oldest hash is truthy and cached, so this iteration frees a block
      have htruthy : entry.1 ≠ 0 := hm.truthy entry.1 (by simp [hrecency])
      have hcached : entry.1 ∈ m.cachedBlocks.keys :=
        (hm.sameKeys entry.1).mpr (by simp [hrecency])
      obtain ⟨blockId, hget⟩ := OrderedDict.get?_of_mem_keys hcached
      have hnext := afterEviction_wellFormed hm hpop hget
      have hfree : freeBlock entry.1
          { m with lru := { m.lru with dictData := rest, size_ := m.lru.size_ - 1 } } =
          .ok true (afterEviction m entry.1 blockId rest) := freeBlock_eq hget
      have hlen : k ≤ rest.keys.length := by
        rw [hrecency, List.length_cons] at hk
        omega
      obtain ⟨m', hrun, hwf, hdrop, hengine⟩ := ih fuel hnext hlen (by omega)
      refine ⟨m', ?_, hwf, ?_, hengine⟩
      · have hcount : (((k + 1 : ℕ) : ℤ) - 1) - 1 = (k : ℤ) - 1 := by push_cast; ring
        have hnonneg : (0 : ℤ) ≤ ((k + 1 : ℕ) : ℤ) - 1 := by push_cast; omega
        rw [evictLoop, if_pos hnonneg, Py.bind_ok (pop_eq hm.size hpop)]
        simp only [htruthy, if_false]
        rw [Py.bind_ok hfree, if_pos rfl, hcount]
        exact hrun
      · rw [hdrop, hrecency]
        rfl

/-! ## Making room -/

/-- A reclaim that is due finds at least 81 blocks to evict. -/
theorem reclaim_enough {m : PrefixKVCacheMgr} (hm : WellFormed m)
    (h : m.getNumFreeBlocks < m.minWatermark) : 81 ≤ m.recency.length := by
  have hcard := hm.card_free
  have hw := hm.watermark
  omega

/-- `_check_and_reclaim_cache` makes room as the abstract LRU order does. -/
theorem checkAndReclaimCache_refines {m : PrefixKVCacheMgr} (hm : WellFormed m) :
    ∃ m', checkAndReclaimCache m = .ok () m' ∧ WellFormed m' ∧
      m'.recency = makeRoom (policy m.cacheEngine) m.recency ∧
      m'.cacheEngine = m.cacheEngine := by
  have hcard := hm.card_free
  -- the free blocks are those the LRU list leaves over
  have hroom : m.getNumFreeBlocks < m.minWatermark ↔
      (policy m.cacheEngine).capacity - m.recency.length <
        (policy m.cacheEngine).watermark := by
    rw [hm.watermark, policy]
    simp only
    omega
  by_cases hlow : m.getNumFreeBlocks < m.minWatermark
  · have henough := reclaim_enough hm hlow
    obtain ⟨m', hrun, hwf, hdrop, hengine⟩ :=
      evictLoop_refines 81 (m.lru.size_ + 1) hm henough (by rw [hm.size]; omega)
    refine ⟨m', ?_, hwf, ?_, hengine⟩
    · simpa [checkAndReclaimCache, Py.bind_apply, hlow, evict] using hrun
    · rw [hdrop, makeRoom, if_pos (hroom.mp hlow)]
      rfl
  · refine ⟨m, ?_, hm, ?_, rfl⟩
    · simp [checkAndReclaimCache, Py.bind_apply, hlow]
    · rw [makeRoom, if_neg (fun h => hlow (hroom.mpr h))]

/-! ## Storing a new block -/

/-- The state after a new block got a free id and was put at the end of the LRU list. -/
def afterInsertion (m : PrefixKVCacheMgr) (blockHash blockId : ℤ) : PrefixKVCacheMgr :=
  { m with
    lru := { m.lru with
      dictData := (m.lru.dictData.set blockHash 0).moveToEnd blockHash
      size_ := m.lru.size_ + 1 }
    freeBlockIndices := m.freeBlockIndices.erase blockId
    cachedBlocks := m.cachedBlocks.set blockHash blockId }

theorem afterInsertion_recency {m : PrefixKVCacheMgr} {blockHash : ℤ} (blockId : ℤ)
    (hnew : blockHash ∉ m.recency) :
    (afterInsertion m blockHash blockId).recency = m.recency ++ [blockHash] :=
  OrderedDict.keys_moveToEnd_set 0 hnew

theorem afterInsertion_wellFormed {m : PrefixKVCacheMgr} (hm : WellFormed m)
    {blockHash blockId : ℤ} (hnew : blockHash ∉ m.recency) (htruthy : blockHash ≠ 0)
    (hfree : blockId ∈ m.freeBlockIndices) : WellFormed (afterInsertion m blockHash blockId) := by
  have hkey : blockHash ∉ m.cachedBlocks.keys := fun h => hnew ((hm.sameKeys _).mp h)
  have hkeys := OrderedDict.keys_set_of_notMem blockId hkey
  have hvalues := OrderedDict.values_set_of_notMem blockId hkey
  have hrecency := afterInsertion_recency blockId hnew
  have hunused : blockId ∉ m.cachedBlocks.values := fun h => hm.disjoint blockId h hfree
  refine { disjoint := ?_, distinct := ?_, total := ?_, sameKeys := ?_, size := ?_,
           capacity := hm.capacity, watermark := hm.watermark, stored := ?_, truthy := ?_ }
  · intro id hid hmem
    simp only [afterInsertion, hvalues, List.mem_append, List.mem_singleton] at hid
    -- the new id left the free set when it was handed out
    obtain ⟨hne, hmem⟩ := Finset.mem_erase.mp hmem
    rcases hid with hid | hid
    · exact hm.disjoint id hid hmem
    · exact hne hid
  · show (m.cachedBlocks.set blockHash blockId).values.Nodup
    rw [hvalues]
    apply List.nodup_append.mpr
    refine ⟨hm.distinct, List.nodup_singleton _, ?_⟩
    intro a ha b hb hab
    rw [List.mem_singleton.mp hb] at hab
    exact hunused (hab ▸ ha)
  · intro id
    show id ∈ m.freeBlockIndices.erase blockId ∨
      id ∈ (m.cachedBlocks.set blockHash blockId).values ↔
        id ∈ blockIds m.cacheEngine.numBlocks
    rw [← hm.total id, hvalues, Finset.mem_erase, List.mem_append, List.mem_singleton]
    -- the id changes sides, from the free to the cached ones
    by_cases hid : id = blockId
    · simp [hid, hfree]
    · simp [hid]
  · intro h
    rw [hrecency]
    show h ∈ (m.cachedBlocks.set blockHash blockId).keys ↔ _
    rw [hkeys, List.mem_append, List.mem_append, hm.sameKeys h]
  · rw [hrecency, List.length_append, List.length_singleton, ← hm.size]
    rfl
  · intro value hvalue
    -- moving to the end reorders the stored values, and the new one is 0
    have hperm := (OrderedDict.entries_moveToEnd_perm
      (m.lru.dictData.set blockHash 0) blockHash).map Prod.snd
    have hmem : value ∈ (m.lru.dictData.set blockHash 0).values := hperm.mem_iff.mp hvalue
    rw [OrderedDict.values_set_of_notMem 0 hnew, List.mem_append, List.mem_singleton] at hmem
    rcases hmem with hmem | hmem
    · exact hm.stored value hmem
    · exact hmem
  · intro h hmem
    rw [hrecency, List.mem_append, List.mem_singleton] at hmem
    rcases hmem with hmem | rfl
    · exact hm.truthy h hmem
    · exact htruthy

theorem put_eq {m : PrefixKVCacheMgr} {blockHash : ℤ} (hnew : blockHash ∉ m.recency)
    (hroom : m.lru.size_ ≠ m.lru.capacity) :
    onLru (PrefixLRUCache.put blockHash 0) m = .ok ()
      { m with lru := { m.lru with
          dictData := (m.lru.dictData.set blockHash 0).moveToEnd blockHash
          size_ := m.lru.size_ + 1 } } := by
  have hnew' : blockHash ∉ m.lru.dictData.keys := hnew
  simp [onLru, Py.zoom_apply, PrefixLRUCache.put, Py.bind_apply, hnew', hroom]

/-- With a free block, `_allocate_new_block_id` hands one out. -/
theorem allocateNewBlockId_eq (rt : Runtime) {m m' : PrefixKVCacheMgr}
    (hreclaim : checkAndReclaimCache m = .ok () m') (hfree : m'.freeBlockIndices.Nonempty) :
    allocateNewBlockId rt m = .ok (rt.nextIter m'.freeBlockIndices)
      { m' with freeBlockIndices :=
          m'.freeBlockIndices.erase (rt.nextIter m'.freeBlockIndices) } := by
  rw [allocateNewBlockId, Py.bind_ok hreclaim]
  simp [Py.bind_apply, Py.map_apply, hfree.ne_empty]

/-- A new hash for which there is a free block after the reclaim is stored under it. -/
theorem allocateBlock_eq (rt : Runtime) {m m' : PrefixKVCacheMgr} {blockHash : ℤ}
    (hreclaim : checkAndReclaimCache m = .ok () m') (hfree : m'.freeBlockIndices.Nonempty)
    (hnew : blockHash ∉ m'.cachedBlocks.keys) :
    allocateBlock rt blockHash m = .ok ()
      { m' with
        freeBlockIndices := m'.freeBlockIndices.erase (rt.nextIter m'.freeBlockIndices)
        cachedBlocks := m'.cachedBlocks.set blockHash (rt.nextIter m'.freeBlockIndices) } := by
  apply Py.tryExcept_ok
  rw [Py.bind_ok (allocateNewBlockId_eq rt hreclaim hfree)]
  simp [Py.bind_apply, hnew]

/-! ## Saving one block -/

/-- `get` on the LRU list makes a cached hash the most recent one. -/
theorem lruGet_eq (m : PrefixKVCacheMgr) (blockHash : ℤ) :
    ∃ res, onLru (PrefixLRUCache.get blockHash) m = .ok res
      { m with lru := { m.lru with dictData := m.lru.dictData.moveToEnd blockHash } } := by
  cases hget : m.lru.dictData.get? blockHash with
  | none =>
    exact ⟨-1, by simp [onLru, Py.zoom_apply, PrefixLRUCache.get, Py.bind_apply, hget,
      OrderedDict.moveToEnd]⟩
  | some res =>
    exact ⟨res, by simp [onLru, Py.zoom_apply, PrefixLRUCache.get, Py.bind_apply, Py.map_apply,
      hget]⟩

/-- Looking up a hash that is not cached changes nothing. -/
theorem moveToEnd_of_new {m : PrefixKVCacheMgr} {blockHash : ℤ} (hnew : blockHash ∉ m.recency) :
    { m with lru := { m.lru with dictData := m.lru.dictData.moveToEnd blockHash } } = m := by
  have hget : m.lru.dictData.get? blockHash = none := OrderedDict.get?_eq_none.mpr hnew
  have hsame : m.lru.dictData.moveToEnd blockHash = m.lru.dictData := by
    simp [OrderedDict.moveToEnd, hget]
  rw [hsame]

theorem moveToEnd_wellFormed {m : PrefixKVCacheMgr} (hm : WellFormed m) (blockHash : ℤ) :
    WellFormed
      { m with lru := { m.lru with dictData := m.lru.dictData.moveToEnd blockHash } } := by
  have hperm := OrderedDict.entries_moveToEnd_perm m.lru.dictData blockHash
  have hkeys := hperm.map Prod.fst
  refine { disjoint := hm.disjoint, distinct := hm.distinct, total := hm.total,
           sameKeys := ?_, size := ?_, capacity := hm.capacity, watermark := hm.watermark,
           stored := ?_, truthy := ?_ }
  · intro h
    exact (hm.sameKeys h).trans (hkeys.mem_iff).symm
  · exact hm.size.trans hkeys.length_eq.symm
  · intro value hvalue
    exact hm.stored value ((hperm.map Prod.snd).mem_iff.mp hvalue)
  · intro h hmem
    exact hm.truthy h (hkeys.mem_iff.mp hmem)

/-- Saving a block touches its hash, when the block is cached already, a block is free, or
the pool is large enough to reclaim some. -/
theorem saveBlock_refines (rt : Runtime) {m : PrefixKVCacheMgr} (hm : WellFormed m)
    {blockHash : ℤ} (htruthy : blockHash ≠ 0)
    (hroom : blockHash ∈ m.recency ∨ m.recency.length < m.cacheEngine.numBlocks ∨
      100 ≤ m.cacheEngine.numBlocks) :
    ∃ saved m', saveBlock rt blockHash m = .ok saved m' ∧ WellFormed m' ∧
      m'.recency = touch (policy m.cacheEngine) m.recency blockHash ∧
      m'.cacheEngine = m.cacheEngine := by
  obtain ⟨res, hlru⟩ := lruGet_eq m blockHash
  by_cases hmem : blockHash ∈ m.recency
  · -- the block is cached: only the LRU order changes
    obtain ⟨blockId, hget⟩ := OrderedDict.get?_of_mem_keys ((hm.sameKeys _).mpr hmem)
    refine ⟨0, _, ?_, moveToEnd_wellFormed hm blockHash, ?_, rfl⟩
    · rw [saveBlock, Py.bind_ok (Py.get_apply m), Py.bind_ok hlru]
      simp [hget]
    · rw [touch_of_mem _ hmem]
      exact OrderedDict.keys_moveToEnd hmem
  -- the block is new: a reclaim may come first, and cannot take in what is new
  · rw [moveToEnd_of_new hmem] at hlru
    have hnew : blockHash ∉ m.cachedBlocks.keys := fun h => hmem ((hm.sameKeys _).mp h)
    have hget : m.cachedBlocks.get? blockHash = none := OrderedDict.get?_eq_none.mpr hnew
    obtain ⟨m', hreclaim, hwf, hrec, hengine⟩ := checkAndReclaimCache_refines hm
    have hmem' : blockHash ∉ m'.recency := by
      rw [hrec]
      exact fun h => hmem ((makeRoom_sublist _ _).subset h)
    -- after the reclaim, or without one, the pool is not full
    have hlen : m'.recency.length < m'.cacheEngine.numBlocks := by
      have hle := hm.length_recency_le
      rw [hrec, hengine, makeRoom]
      split
      · rw [List.length_drop]
        simp only [policy] at *
        omega
      · next hno =>
        simp only [policy] at hno
        rcases hroom with h | h | h
        · exact absurd h hmem
        · exact h
        · omega
    have hfree : m'.freeBlockIndices.Nonempty := by
      have hcard := hwf.card_free
      apply Finset.card_pos.mp
      show 0 < m'.getNumFreeBlocks
      omega
    have hnext := afterInsertion_wellFormed hwf hmem' htruthy (rt.nextIter_mem _ hfree)
    have hnew' : blockHash ∉ m'.cachedBlocks.keys := fun h => hmem' ((hwf.sameKeys _).mp h)
    refine ⟨1, _, ?_, hnext, ?_, hengine⟩
    -- allocation stores the id in the map, `put` then lists the hash
    · have halloc := allocateBlock_eq rt hreclaim hfree hnew'
      have hput := put_eq (m := { m' with
        freeBlockIndices := m'.freeBlockIndices.erase (rt.nextIter m'.freeBlockIndices)
        cachedBlocks := m'.cachedBlocks.set blockHash (rt.nextIter m'.freeBlockIndices) })
        hmem' (by
          show m'.lru.size_ ≠ m'.lru.capacity
          rw [hwf.size, hwf.capacity]
          omega)
      rw [saveBlock, Py.bind_ok (Py.get_apply m), Py.bind_ok hlru]
      simp only [hget, if_true]
      rw [Py.bind_ok (Py.tryExcept_ok halloc), Py.bind_ok hput]
      rfl
    · rw [afterInsertion_recency _ hmem', hrec, touch_of_notMem _ hmem]

/-- A new block that finds the pool full and cannot reclaim raises. -/
theorem saveBlock_exhausted (rt : Runtime) {m : PrefixKVCacheMgr} (hm : WellFormed m)
    {blockHash : ℤ} (hnew : blockHash ∉ m.recency)
    (hfull : m.recency.length = m.cacheEngine.numBlocks)
    (hsmall : m.cacheEngine.numBlocks < 100) :
    ∃ m', saveBlock rt blockHash m = .error (.exception .keyError) m' := by
  obtain ⟨res, hlru⟩ := lruGet_eq m blockHash
  rw [moveToEnd_of_new hnew] at hlru
  have hkey : blockHash ∉ m.cachedBlocks.keys := fun h => hnew ((hm.sameKeys _).mp h)
  have hget : m.cachedBlocks.get? blockHash = none := OrderedDict.get?_eq_none.mpr hkey
  have hcard := hm.card_free
  have hzero : m.getNumFreeBlocks = 0 := by omega
  have hempty : m.freeBlockIndices = ∅ := Finset.card_eq_zero.mp hzero
  have hwatermark : m.minWatermark = 0 := by rw [hm.watermark]; omega
  -- fewer than 100 blocks have the watermark 0, below which nothing falls
  have hreclaim : checkAndReclaimCache m = .ok () m := by
    simp [checkAndReclaimCache, Py.bind_apply, hwatermark]
  -- the exhaustion mark -1 is stored as if it were a block id
  have halloc : allocateBlock rt blockHash m = .ok ()
      { m with cachedBlocks := m.cachedBlocks.set blockHash (-1) } := by
    apply Py.tryExcept_ok
    have hid : allocateNewBlockId rt m = .ok (-1) m := by
      rw [allocateNewBlockId, Py.bind_ok hreclaim]
      simp [Py.bind_apply, hempty]
    rw [Py.bind_ok hid]
    simp [Py.bind_apply, hkey]
  -- the LRU list is full as well, and its exception is not caught
  have hput : ∃ m', onLru (PrefixLRUCache.put blockHash 0)
      { m with cachedBlocks := m.cachedBlocks.set blockHash (-1) } =
        .error (.exception .keyError) m' := by
    have hnew' : blockHash ∉ m.lru.dictData.keys := hnew
    have hfull' : m.lru.size_ = m.lru.capacity := by rw [hm.size, hm.capacity, hfull]
    refine ⟨{ m with
      cachedBlocks := m.cachedBlocks.set blockHash (-1)
      lru := { m.lru with
        dictData := ((m.lru.dictData.set blockHash 0).moveToEnd blockHash).dropLast } }, ?_⟩
    simp [onLru, Py.zoom_apply, PrefixLRUCache.put, Py.bind_apply, hnew', hfull']
  obtain ⟨m', hput⟩ := hput
  refine ⟨m', ?_⟩
  rw [saveBlock, Py.bind_ok (Py.get_apply m), Py.bind_ok hlru]
  simp only [hget, if_true]
  rw [Py.bind_ok (Py.tryExcept_ok halloc), Py.bind_error hput]

end DualMap.Cache.PrefixKVCacheMgr
