import DualMap.Cache.SavedPrompts

/-!
# Cache Hits Are Real

A prompt is found in the cache as far as some prompt saved before begins with the same
tokens, and never further. Two facts carry this: every hash in the map was computed from a
saved prompt (`afterCalls_origin`), also when saves raise part way or hashes are falsy, and
a block hash determines the whole beginning of the prompt that it was computed from
(`promptHashes_getElem?_inj`).
-/

namespace DualMap.Cache.PrefixKVCacheMgr

/-! ## Runs whose calls may fault -/

/-- The manager after some calls. A call that faults leaves what it has done so far, and
the next call finds that. -/
def afterCalls (rt : Runtime) (calls : List Call) (m : PrefixKVCacheMgr) : PrefixKVCacheMgr :=
  calls.foldl (fun m call => Py.finalState (call.run rt m)) m

/-- The prompt that a call passes to `save` or `save_prefill`. -/
def Call.savedPrompt : Call → Option (List ℕ)
  | .save promptTokenIds => some promptTokenIds
  | .savePrefill _ promptTokenIds => some promptTokenIds
  | .getNumCachedBlocks _ => none

@[simp] theorem afterCalls_nil (rt : Runtime) (m : PrefixKVCacheMgr) :
    afterCalls rt [] m = m := rfl

@[simp] theorem afterCalls_cons (rt : Runtime) (call : Call) (calls : List Call)
    (m : PrefixKVCacheMgr) :
    afterCalls rt (call :: calls) m = afterCalls rt calls (Py.finalState (call.run rt m)) := rfl

/-- Where no call faults, this is the state that the run of the calls ends in. -/
theorem afterCalls_of_runCalls {rt : Runtime} {calls : List Call} {m m' : PrefixKVCacheMgr}
    (h : runCalls rt calls m = .ok () m') : afterCalls rt calls m = m' := by
  induction calls generalizing m with
  | nil =>
    simp only [runCalls, Py.pure_apply] at h
    exact (EStateM.Result.ok.inj h).2
  | cons call calls ih =>
    rw [runCalls, Py.bind_apply] at h
    rw [afterCalls_cons]
    cases hrun : call.run rt m with
    | ok num m₁ =>
      rw [hrun] at h
      exact ih h
    | error f m₁ =>
      rw [hrun] at h
      cases h

/-! ## What every update keeps -/

/-- A property of the manager that each single update keeps, where only hashes of `S` are
stored. Then every save of such hashes keeps it, however it ends. -/
structure Stable (S : Set ℤ) (I : PrefixKVCacheMgr → Prop) : Prop where
  lru : ∀ m lru, I m → I { m with lru := lru }
  free : ∀ m blockHash blockId, I m →
    I (freeBlockId { m with cachedBlocks := m.cachedBlocks.erase blockHash } blockId)
  take : ∀ m ids, I m → I { m with freeBlockIndices := ids }
  store : ∀ m, ∀ blockHash ∈ S, ∀ blockId, blockHash ∉ m.cachedBlocks.keys → I m →
    I { m with cachedBlocks := m.cachedBlocks.set blockHash blockId }

namespace Stable

variable {S : Set ℤ} {I : PrefixKVCacheMgr → Prop} (h : Stable S I)
include h

theorem onLru {α : Type} (code : Py PrefixLRUCache α) : Py.Keeps I (onLru code) :=
  Py.Keeps.zoom h.lru code

theorem freeBlock (contentHashToEvict : ℤ) : Py.Keeps I (freeBlock contentHashToEvict) := by
  apply Py.Keeps.get_bind
  intro m hm
  cases m.cachedBlocks.get? contentHashToEvict with
  | none => exact hm
  | some blockId => exact h.free m _ blockId hm

theorem evictLoop (fuel : ℕ) (numEvictBlocks : ℤ) :
    Py.Keeps I (evictLoop fuel numEvictBlocks) := by
  induction fuel generalizing numEvictBlocks with
  | zero => exact Py.Keeps.throw _
  | succ fuel ih =>
    unfold PrefixKVCacheMgr.evictLoop
    split
    · apply (h.onLru _).bind
      rintro (_ | ⟨blockHash, value⟩)
      · exact Py.Keeps.throw _
      · simp only
        -- a falsy hash is skipped, any other one is freed if the map knows it
        split
        · exact ih _
        · apply (h.freeBlock blockHash).bind
          intro freed
          split
          · exact ih _
          · exact ih _
    · exact Py.Keeps.pure _

theorem checkAndReclaimCache : Py.Keeps I checkAndReclaimCache := by
  apply Py.Keeps.get_bind
  intro m hm
  split
  · exact h.evictLoop _ _ m hm
  · exact hm

theorem allocateNewBlockId (rt : Runtime) : Py.Keeps I (allocateNewBlockId rt) := by
  apply h.checkAndReclaimCache.bind
  intro _
  apply Py.Keeps.get_bind
  intro m hm
  split
  · exact hm
  · exact h.take m _ hm

theorem allocateBlock (rt : Runtime) {blockHash : ℤ} (hS : blockHash ∈ S) :
    Py.Keeps I (allocateBlock rt blockHash) := by
  refine Py.Keeps.tryExcept ?_ (fun _ => Py.Keeps.pure _)
  apply (h.allocateNewBlockId rt).bind
  intro blockId
  apply Py.Keeps.get_bind
  intro m hm
  split
  · next hnew => exact h.store m blockHash hS blockId hnew hm
  · exact (h.freeBlock blockHash).bind (fun _ => Py.Keeps.pure _) m hm

theorem saveBlock (rt : Runtime) {blockHash : ℤ} (hS : blockHash ∈ S) :
    Py.Keeps I (saveBlock rt blockHash) := by
  apply Py.Keeps.get_bind
  intro m hm
  refine (h.onLru (PrefixLRUCache.get blockHash)).bind (fun _ => ?_) m hm
  split
  · refine Py.Keeps.bind ?_ (fun _ => (h.onLru _).bind (fun _ => Py.Keeps.pure _))
    exact Py.Keeps.tryExcept (h.allocateBlock rt hS) (fun _ => Py.Keeps.pure _)
  · exact Py.Keeps.pure _

theorem saveLoop (rt : Runtime) {hashes : List ℤ} (hS : ∀ h ∈ hashes, h ∈ S) :
    Py.Keeps I (saveLoop rt hashes) := by
  induction hashes with
  | nil => exact Py.Keeps.pure _
  | cons blockHash hashes ih =>
    apply (h.saveBlock rt (hS blockHash (List.mem_cons_self ..))).bind
    intro saved
    apply (ih (fun h hmem => hS h (List.mem_cons_of_mem _ hmem))).bind
    intro numSavedBlocks
    exact Py.Keeps.pure _

end Stable

/-! ## The origin of the cached hashes -/

/-- Only hashes of `S` are cached, by an engine that no call changes. -/
def CachesOnly (cacheEngine : KvCacheEngine) (S : Set ℤ) (m : PrefixKVCacheMgr) : Prop :=
  m.cacheEngine = cacheEngine ∧ ∀ blockHash ∈ m.cachedBlocks.keys, blockHash ∈ S

theorem CachesOnly.stable (cacheEngine : KvCacheEngine) (S : Set ℤ) :
    Stable S (CachesOnly cacheEngine S) where
  lru _ _ hm := ⟨hm.1, hm.2⟩
  free m blockHash blockId hm := by
    refine ⟨hm.1, fun key hmem => hm.2 key ?_⟩
    -- the map only loses a key
    have hmem' : key ∈ (m.cachedBlocks.erase blockHash).keys := hmem
    rw [OrderedDict.keys_erase] at hmem'
    exact (List.mem_filter.mp hmem').1
  take _ _ hm := ⟨hm.1, hm.2⟩
  store m blockHash hS blockId hnew hm := by
    refine ⟨hm.1, fun key hmem => ?_⟩
    have hmem' : key ∈ (m.cachedBlocks.set blockHash blockId).keys := hmem
    rw [OrderedDict.keys_set_of_notMem _ hnew, List.mem_append, List.mem_singleton] at hmem'
    -- the new key is the hash being saved
    rcases hmem' with hold | rfl
    · exact hm.2 key hold
    · exact hS

/-- The block hashes of all prompts that the calls save. -/
def savedOrigins (rt : Runtime) (blockSize : ℕ) (calls : List Call) : Set ℤ :=
  {blockHash | ∃ call ∈ calls, ∃ promptTokenIds, call.savedPrompt = some promptTokenIds ∧
    blockHash ∈ promptHashes rt blockSize promptTokenIds}

theorem CachesOnly.call {rt : Runtime} {cacheEngine : KvCacheEngine} {S : Set ℤ} (call : Call)
    (hS : ∀ promptTokenIds, call.savedPrompt = some promptTokenIds →
      ∀ h ∈ promptHashes rt cacheEngine.blockSize promptTokenIds, h ∈ S) :
    Py.Keeps (CachesOnly cacheEngine S) (call.run rt) := by
  -- a save reads the block size off its own engine, which is the given one
  have hsave : ∀ promptTokenIds,
      (∀ h ∈ promptHashes rt cacheEngine.blockSize promptTokenIds, h ∈ S) →
      Py.Keeps (CachesOnly cacheEngine S) (PrefixKVCacheMgr.save rt promptTokenIds) := by
    intro promptTokenIds hmem
    apply Py.Keeps.get_bind
    intro m hm
    apply (CachesOnly.stable cacheEngine S).saveLoop rt ?_ m hm
    rw [hm.1]
    exact hmem
  cases call with
  | save promptTokenIds => exact hsave promptTokenIds (hS promptTokenIds rfl)
  | savePrefill requestId promptTokenIds => exact hsave promptTokenIds (hS promptTokenIds rfl)
  | getNumCachedBlocks promptTokenIds => exact Py.Keeps.get_bind (fun m hm => hm)

/-- Whatever the calls and however they end, every cached hash is one of a saved prompt. -/
theorem afterCalls_origin (rt : Runtime) (cacheEngine : KvCacheEngine) (calls : List Call) :
    CachesOnly cacheEngine (savedOrigins rt cacheEngine.blockSize calls)
      (afterCalls rt calls (init cacheEngine)) := by
  -- the run keeps any set of hashes that covers the saved prompts
  have hrun : ∀ (S : Set ℤ) (calls : List Call) (m : PrefixKVCacheMgr),
      savedOrigins rt cacheEngine.blockSize calls ⊆ S → CachesOnly cacheEngine S m →
        CachesOnly cacheEngine S (afterCalls rt calls m) := by
    intro S calls
    induction calls with
    | nil => exact fun m _ hm => hm
    | cons call calls ih =>
      intro m hsub hm
      rw [afterCalls_cons]
      apply ih
      · rintro h ⟨call', hmem, hsaved⟩
        exact hsub ⟨call', List.mem_cons_of_mem _ hmem, hsaved⟩
      · refine CachesOnly.call call ?_ m hm
        intro promptTokenIds hprompt h hh
        exact hsub ⟨call, List.mem_cons_self .., promptTokenIds, hprompt, hh⟩
  apply hrun _ calls _ (subset_refl _)
  exact ⟨rfl, fun blockHash hmem => by simp [init] at hmem⟩

/-! ## A block hash determines the beginning of its prompt -/

/-- The first full blocks of a prompt are its first tokens. -/
theorem flatten_take_promptBlocks (blockSize : ℕ) (promptTokenIds : List ℕ) {k : ℕ}
    (hk : k ≤ promptTokenIds.length / blockSize) :
    ((promptBlocks blockSize promptTokenIds).take k).flatten =
      promptTokenIds.take (k * blockSize) := by
  induction k with
  | zero => simp
  | succ k ih =>
    have hblock : (promptBlocks blockSize promptTokenIds)[k]? =
        some ((promptTokenIds.drop (k * blockSize)).take blockSize) := by
      rw [promptBlocks, List.getElem?_map, List.getElem?_range (by omega), Option.map_some]
    rw [List.take_add_one, List.flatten_append, ih (by omega), hblock, Nat.succ_mul,
      List.take_add]
    simp

/-- A prompt is found as far as its hashes are cached: the last block found is cached. -/
theorem getElem?_of_getNumCachedBlocks {rt : Runtime} {m : PrefixKVCacheMgr}
    {promptTokenIds : List ℕ} {k : ℕ} (hk : k < getNumCachedBlocks rt m promptTokenIds) :
    ∃ blockHash ∈ m.cachedBlocks.keys,
      (promptHashes rt m.cacheEngine.blockSize promptTokenIds)[k]? = some blockHash := by
  rw [getNumCachedBlocks] at hk
  set kept := (promptHashes rt m.cacheEngine.blockSize promptTokenIds).takeWhile
    (fun blockHash => (m.cachedBlocks.get? blockHash).isSome ∧ m.lru.query blockHash ≠ -1)
    with hkept
  -- what `takeWhile` keeps passes the test, at the position where it stands
  have hpre : kept <+: promptHashes rt m.cacheEngine.blockSize promptTokenIds :=
    List.takeWhile_prefix _
  have htest := List.mem_takeWhile_imp (List.getElem_mem hk)
  refine ⟨kept[k], ?_, ?_⟩
  · by_contra hkey
    rw [OrderedDict.get?_eq_none.mpr hkey] at htest
    simp at htest
  · obtain ⟨rest, hrest⟩ := hpre
    rw [← hrest, List.getElem?_append_left hk]
    exact List.getElem?_eq_getElem hk

/-- No false hits: if the first `k` blocks of a prompt are found, some prompt with the same
first `k` blocks was saved before. -/
theorem cached_prefix_was_saved {rt : Runtime}
    (hinj : ∀ isFirst prev tokens isFirst' prev' tokens',
      rt.hash isFirst prev tokens = rt.hash isFirst' prev' tokens' →
        isFirst = isFirst' ∧ prev = prev' ∧ tokens = tokens')
    (cacheEngine : KvCacheEngine) (calls : List Call) (q : List ℕ) (k : ℕ)
    (hk : getNumCachedBlocks rt (afterCalls rt calls (init cacheEngine)) q = k)
    (hpos : 1 ≤ k) :
    ∃ call ∈ calls, ∃ p, call.savedPrompt = some p ∧ k * cacheEngine.blockSize ≤ p.length ∧
      p.take (k * cacheEngine.blockSize) = q.take (k * cacheEngine.blockSize) := by
  obtain ⟨hengine, horigin⟩ := afterCalls_origin rt cacheEngine calls
  obtain ⟨blockHash, hcached, hq⟩ :=
    getElem?_of_getNumCachedBlocks (k := k - 1) (by rw [hk]; omega)
  rw [hengine] at hq
  -- the last cached block of the query was saved by some call
  obtain ⟨call, hcall, p, hp, hmem⟩ := horigin blockHash hcached
  obtain ⟨j, hj⟩ := List.mem_iff_getElem?.mp hmem
  -- equal hashes are equal blocks at equal places, by injectivity along the chain
  obtain ⟨rfl, hblocks⟩ := promptHashes_getElem?_inj hinj hj hq
  have hkj : k - 1 + 1 = k := by omega
  have hlenp := (List.getElem?_eq_some_iff.mp hj).1
  have hlenq := (List.getElem?_eq_some_iff.mp hq).1
  rw [length_promptHashes] at hlenp hlenq
  rw [hkj] at hblocks
  refine ⟨call, hcall, p, hp, ?_, ?_⟩
  · calc k * cacheEngine.blockSize
        ≤ p.length / cacheEngine.blockSize * cacheEngine.blockSize :=
          Nat.mul_le_mul_right _ (by omega)
      _ ≤ p.length := Nat.div_mul_le_self _ _
  · rw [← flatten_take_promptBlocks _ _ (show k ≤ p.length / _ by omega), hblocks,
      flatten_take_promptBlocks _ _ (by omega)]

/-- After `[7, 8]` was saved in blocks of one token, both blocks of `[7, 8, 9]` that it
shares are found, and the theorem names the prompt that they come from. -/
theorem cached_prefix_was_saved_two :
    ∃ call ∈ [Call.save [7, 8]], ∃ p, call.savedPrompt = some p ∧
      2 * smallEngine.blockSize ≤ p.length ∧
      p.take (2 * smallEngine.blockSize) = [7, 8, 9].take (2 * smallEngine.blockSize) :=
  cached_prefix_was_saved (fun _ _ _ _ _ _ h => encodingRuntime_hash_injective h)
    smallEngine [.save [7, 8]] [7, 8, 9] 2 (by decide +kernel) (by decide)

end DualMap.Cache.PrefixKVCacheMgr
