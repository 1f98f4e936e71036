import DualMap.Cache.PrefixKVCacheMgr

/-!
# The Cache a Replica Sees

A replica asks its cache how many leading blocks of a prompt are stored and tells it to
store prompts. `PrefixCache` is this interface, in which every operation may raise, and
`LookupCache` says that look-ups do not. `PrefixKvCacheStore` is the cache of the code.
-/

namespace DualMap.Cache

/-- What a replica calls on its cache. -/
class PrefixCache (κ : Type) where
  getNumCachedBlocks : κ → List ℕ → Except PyException ℕ
  save : List ℕ → Py κ ℕ
  savePrefill : ℕ → List ℕ → Py κ ℕ

/-- A cache whose look-ups do not raise. -/
class LookupCache (κ : Type) extends PrefixCache κ where
  numCachedBlocks : κ → List ℕ → ℕ
  getNumCachedBlocks_eq : ∀ cache promptTokenIds,
    getNumCachedBlocks cache promptTokenIds = .ok (numCachedBlocks cache promptTokenIds)

/-- `PrefixKvCacheStore`: it hands every call to its manager. -/
structure PrefixKvCacheStore (rt : Runtime) where
  cacheMgr : PrefixKVCacheMgr

namespace PrefixKvCacheStore

variable {rt : Runtime}

/-- `PrefixKvCacheStore.__init__`. -/
def init (rt : Runtime) (cacheEngine : KvCacheEngine) : PrefixKvCacheStore rt :=
  ⟨PrefixKVCacheMgr.init cacheEngine⟩

/-- Run code on the manager. -/
def onMgr {α : Type} (code : Py PrefixKVCacheMgr α) : Py (PrefixKvCacheStore rt) α :=
  Py.zoom cacheMgr (fun _ m => ⟨m⟩) code

instance : LookupCache (PrefixKvCacheStore rt) where
  getNumCachedBlocks store promptTokenIds :=
    .ok (store.cacheMgr.getNumCachedBlocks rt promptTokenIds)
  save promptTokenIds := onMgr (PrefixKVCacheMgr.save rt promptTokenIds)
  savePrefill requestId promptTokenIds :=
    onMgr (PrefixKVCacheMgr.savePrefill rt requestId promptTokenIds)
  numCachedBlocks store promptTokenIds := store.cacheMgr.getNumCachedBlocks rt promptTokenIds
  getNumCachedBlocks_eq _ _ := rfl

end PrefixKvCacheStore

end DualMap.Cache
