import DualMap.Foundation.OrderedDict
import DualMap.Foundation.PyEffect
import Mathlib.Data.Finset.Image
import Mathlib.Data.Finset.Range
import Mathlib.Data.Finset.Card
import Mathlib.Algebra.Ring.CharZero
import Mathlib.Algebra.Ring.Int.Defs

/-!
# The Prefix KV-Cache of a Replica

The model of `kvcache_store`: a prompt is cut into blocks of `blockSize` tokens, every
full block is known by a hash of itself and of the block before it, and the manager keeps
which hashes are cached (`cachedBlocks`), which block ids are free
(`freeBlockIndices`) and in which order the hashes were last used (`lru`).

Block hashes are Python integers. What `hash` computes is a parameter of the model, and
so is the order in which a Python set is iterated.
-/

namespace DualMap.Cache

/-- `KvCacheEngine`: its constructor divides by the block size, so that is positive. -/
structure KvCacheEngine where
  blockSize : ℕ
  kvCachePerToken : ℕ
  numBlocks : ℕ
  blockSize_pos : 0 < blockSize

/-- `KvCacheEngine.cal_block_capacity`, the divisor of the constructor. -/
def calBlockCapacity (blockSize kvCachePerToken : ℕ) : ℕ := kvCachePerToken * blockSize

/-- `KvCacheEngine.__init__`. A zero divisor would be a `ZeroDivisionError`. -/
def KvCacheEngine.init (capacity blockSize kvCachePerToken : ℕ)
    (h : 0 < calBlockCapacity blockSize kvCachePerToken) : KvCacheEngine where
  blockSize := blockSize
  kvCachePerToken := kvCachePerToken
  numBlocks := capacity / calBlockCapacity blockSize kvCachePerToken
  blockSize_pos := Nat.pos_of_mul_pos_left h

/-! ## The LRU list -/

/-- `PrefixLRUCache`: the last entry of `dictData` is the most recently used one, and
`size_` counts the entries separately. -/
structure PrefixLRUCache where
  capacity : ℕ
  dictData : OrderedDict ℤ ℤ
  size_ : ℕ

namespace PrefixLRUCache

def init (capacity : ℕ) : PrefixLRUCache := ⟨capacity, .empty, 0⟩

/-- `query`: look up without touching the order; `-1` when absent. -/
def query (c : PrefixLRUCache) (key : ℤ) : ℤ := (c.dictData.get? key).getD (-1)

/-- `get`: a key that is present becomes the most recent one. -/
def get (key : ℤ) : Py PrefixLRUCache ℤ := do
  let c ← MonadState.get
  match c.dictData.get? key with
  | some res =>
    set { c with dictData := c.dictData.moveToEnd key }
    pure res
  | none => pure (-1)

/-- `put`: a new key that finds the cache full is taken out again before the
`KeyError`. -/
def put (key value : ℤ) : Py PrefixLRUCache Unit := do
  let c ← MonadState.get
  -- both branches of the source write the value and move the key to the end first
  let dictData := (c.dictData.set key value).moveToEnd key
  if key ∈ c.dictData.keys then
    set { c with dictData := dictData }
  else if c.size_ = c.capacity then
    -- `popitem()` takes out the newest entry, which is the one just put
    set { c with dictData := dictData.dropLast }
    Py.raise .keyError
  else
    set { c with dictData := dictData, size_ := c.size_ + 1 }

/-- `pop`: the least recent entry, or `(None, None)` (here `none`) when `size_` is 0. -/
def pop : Py PrefixLRUCache (Option (ℤ × ℤ)) := do
  let c ← MonadState.get
  if c.size_ = 0 then
    pure none
  else
    match c.dictData.popFirst with
    | some (entry, rest) =>
      set { c with dictData := rest, size_ := c.size_ - 1 }
      pure (some entry)
    -- `size_` is lowered before `popitem` raises on an empty dictionary
    | none =>
      set { c with size_ := c.size_ - 1 }
      Py.raise .keyError

/-- `get_len`. -/
def getLen (c : PrefixLRUCache) : ℕ := c.size_

end PrefixLRUCache

/-! ## The manager -/

/-- What the code leaves to the Python runtime: `hash` of the tuple
`(is_first_block, prev_block_hash, *cur_block_token_ids)`, and which element
`next(iter(s))` yields for a set of block ids. -/
structure Runtime where
  hash : Bool → Option ℤ → List ℕ → ℤ
  nextIter : Finset ℤ → ℤ
  nextIter_mem : ∀ s : Finset ℤ, s.Nonempty → nextIter s ∈ s

/-- `PrefixKVCacheMgr`. Block ids are integers: `-1` is the code's mark of exhaustion. -/
structure PrefixKVCacheMgr where
  cacheEngine : KvCacheEngine
  lru : PrefixLRUCache
  freeBlockIndices : Finset ℤ
  minWatermark : ℕ
  cachedBlocks : OrderedDict ℤ ℤ

namespace PrefixKVCacheMgr

/-- `set(range(num_blocks))`. -/
def blockIds (numBlocks : ℕ) : Finset ℤ := (Finset.range numBlocks).map Nat.castEmbedding

/-- `PrefixKVCacheMgr.__init__`. The watermark is `int(0.01 * num_blocks)`. -/
def init (cacheEngine : KvCacheEngine) : PrefixKVCacheMgr where
  cacheEngine := cacheEngine
  lru := .init cacheEngine.numBlocks
  freeBlockIndices := blockIds cacheEngine.numBlocks
  minWatermark := cacheEngine.numBlocks / 100
  cachedBlocks := .empty

/-- Run code on the LRU list of the manager. -/
def onLru {α : Type} (code : Py PrefixLRUCache α) : Py PrefixKVCacheMgr α :=
  Py.zoom PrefixKVCacheMgr.lru (fun m lru => { m with lru := lru }) code

/-! ### Blocks of a prompt -/

/-- The full blocks `prompt[i * block_size : (i + 1) * block_size]` of a prompt. -/
def promptBlocks (blockSize : ℕ) (promptTokenIds : List ℕ) : List (List ℕ) :=
  (List.range (promptTokenIds.length / blockSize)).map
    (fun logicId => (promptTokenIds.drop (logicId * blockSize)).take blockSize)

/-- The hashes of a chain of blocks. `is_first_block` is `prev_block_hash is None`, which
the code asserts at every block. -/
def blockHashes (rt : Runtime) : Option ℤ → List (List ℕ) → List ℤ
  | _, [] => []
  | prevBlockHash, curBlockTokenIds :: rest =>
    let blockHash := rt.hash prevBlockHash.isNone prevBlockHash curBlockTokenIds
    blockHash :: blockHashes rt (some blockHash) rest

/-- The block hashes of a prompt, first block first. -/
def promptHashes (rt : Runtime) (blockSize : ℕ) (promptTokenIds : List ℕ) : List ℤ :=
  blockHashes rt none (promptBlocks blockSize promptTokenIds)

/-- `get_num_cached_blocks`: how many leading blocks are cached, up to the first one that
the map or the LRU list does not know. -/
def getNumCachedBlocks (rt : Runtime) (m : PrefixKVCacheMgr) (promptTokenIds : List ℕ) : ℕ :=
  ((promptHashes rt m.cacheEngine.blockSize promptTokenIds).takeWhile
    (fun blockHash => (m.cachedBlocks.get? blockHash).isSome ∧
      m.lru.query blockHash ≠ -1)).length

/-! ### Block ids -/

/-- `_free_block_id`. -/
def freeBlockId (m : PrefixKVCacheMgr) (blockId : ℤ) : PrefixKVCacheMgr :=
  { m with freeBlockIndices := insert blockId m.freeBlockIndices }

/-- `_free_block`: whether the hash was cached, with its block id given back. -/
def freeBlock (contentHashToEvict : ℤ) : Py PrefixKVCacheMgr Bool := do
  let m ← get
  match m.cachedBlocks.get? contentHashToEvict with
  | none => pure false
  | some blockId =>
    set (freeBlockId { m with cachedBlocks := m.cachedBlocks.erase contentHashToEvict } blockId)
    pure true

/-- The loop of `_evict`: `numEvictBlocks` only falls when a block was freed. When the LRU
list is empty `pop` changes nothing any more and the loop spins for ever. -/
def evictLoop : ℕ → ℤ → Py PrefixKVCacheMgr Unit
  | 0, _ => throw .hang
  | fuel + 1, numEvictBlocks =>
    -- the test is `>= 0`, so `_evict(80)` frees 81 blocks
    if 0 ≤ numEvictBlocks then do
      match ← onLru PrefixLRUCache.pop with
      | none => throw .hang
      | some (blockHash, _) =>
        if blockHash = 0 then
          -- `if not block_hash`: the hash 0 counts as missing
          evictLoop fuel numEvictBlocks
        else if ← freeBlock blockHash then
          evictLoop fuel (numEvictBlocks - 1)
        else
          -- the map does not know the hash: the LRU entry is gone, no block was freed
          evictLoop fuel numEvictBlocks
    else pure ()

/-- `_evict`: every iteration that does not spin takes an entry off the LRU list, so its
size bounds their number. -/
def evict (numEvictBlocks : ℤ) : Py PrefixKVCacheMgr Unit := do
  let m ← get
  evictLoop (m.lru.size_ + 1) numEvictBlocks

/-- `get_num_free_blocks`. -/
def getNumFreeBlocks (m : PrefixKVCacheMgr) : ℕ := m.freeBlockIndices.card

/-- `_check_and_reclaim_cache`. -/
def checkAndReclaimCache : Py PrefixKVCacheMgr Unit := do
  let m ← get
  if m.getNumFreeBlocks < m.minWatermark then
    evict 80

/-- `_allocate_new_block_id`: `-1` when no block is free. -/
def allocateNewBlockId (rt : Runtime) : Py PrefixKVCacheMgr ℤ := do
  checkAndReclaimCache
  let m ← get
  if m.freeBlockIndices = ∅ then
    pure (-1)
  else
    -- `next(iter(...))`, then `remove`
    let blockId := rt.nextIter m.freeBlockIndices
    set { m with freeBlockIndices := m.freeBlockIndices.erase blockId }
    pure blockId

/-- `_allocate_block`. The assertion `block_id is not None` never fails: exhaustion is
reported as `-1`, which is then stored like any block id. -/
def allocateBlock (rt : Runtime) (blockHash : ℤ) : Py PrefixKVCacheMgr Unit :=
  Py.tryExcept
    (do
      let blockId ← allocateNewBlockId rt
      let m ← get
      if blockHash ∉ m.cachedBlocks.keys then
        set { m with cachedBlocks := m.cachedBlocks.set blockHash blockId }
      else
        -- the id just taken is not given back
        let _ ← freeBlock blockHash
        pure ())
    (fun _ => pure ())

/-- The body of the loop of `_save`: 1 when the block was not cached. -/
def saveBlock (rt : Runtime) (blockHash : ℤ) : Py PrefixKVCacheMgr ℕ := do
  let index := (← get).cachedBlocks.get? blockHash
  -- the LRU order is refreshed whether or not the map knows the block
  let _ ← onLru (PrefixLRUCache.get blockHash)
  if index = none then
    Py.tryExcept (allocateBlock rt blockHash) (fun _ => pure ())
    -- outside of the `try`: a full LRU list raises out of `_save`
    onLru (PrefixLRUCache.put blockHash 0)
    pure 1
  else
    pure 0

/-- The loop of `_save` over the block hashes of the prompt. -/
def saveLoop (rt : Runtime) : List ℤ → Py PrefixKVCacheMgr ℕ
  | [] => pure 0
  | blockHash :: rest => do
    let saved ← saveBlock rt blockHash
    let numSavedBlocks ← saveLoop rt rest
    pure (saved + numSavedBlocks)

/-- `save`, which is `_save`. -/
def save (rt : Runtime) (promptTokenIds : List ℕ) : Py PrefixKVCacheMgr ℕ := do
  let m ← get
  saveLoop rt (promptHashes rt m.cacheEngine.blockSize promptTokenIds)

/-- `save_prefill`, which is `_save_prefill`: the body of `_save`, the request id is not
used. -/
def savePrefill (rt : Runtime) (_requestId : ℕ) (promptTokenIds : List ℕ) :
    Py PrefixKVCacheMgr ℕ :=
  save rt promptTokenIds

/-- `get_size`. -/
def getSize (m : PrefixKVCacheMgr) : ℕ := m.lru.getLen

end PrefixKVCacheMgr

end DualMap.Cache
