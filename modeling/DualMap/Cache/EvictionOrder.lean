import DualMap.Cache.CacheHits

/-!
# What Eviction Leaves Reachable

A save refreshes the blocks of its prompt from the front to the back, so that the beginning
of a prompt is the first to be evicted: a block can stay when its predecessor goes. This
happens to at most one block at a time, the least recently used one (`predecessor_cached`),
since every other cached block was used right after its predecessor.
-/

namespace DualMap.Cache.PrefixKVCacheMgr

open BatchLru

/-- `g` is the hash of the block before the one with the hash `blockHash`. -/
def Predecessor (rt : Runtime) (g blockHash : ℤ) : Prop :=
  ∃ tokens, blockHash = rt.hash false (some g) tokens

section Injective

variable {rt : Runtime}
  (hinj : ∀ isFirst prev tokens isFirst' prev' tokens',
    rt.hash isFirst prev tokens = rt.hash isFirst' prev' tokens' →
      isFirst = isFirst' ∧ prev = prev' ∧ tokens = tokens')

include hinj

/-- The first block of a prompt has no predecessor. -/
theorem not_predecessor_first (blockSize : ℕ) (promptTokenIds : List ℕ) {blockHash : ℤ}
    (h : (promptHashes rt blockSize promptTokenIds)[0]? = some blockHash) (g : ℤ) :
    ¬ Predecessor rt g blockHash := by
  obtain ⟨tokens, -, hhash⟩ := blockHashes_getElem?_zero h
  rintro ⟨tokens', hhash'⟩
  have hfirst := (hinj _ _ _ _ _ _ (hhash.symm.trans hhash')).1
  cases hfirst

/-- The predecessor of any other block is the block before it in the prompt. -/
theorem predecessor_succ {blockSize : ℕ} {promptTokenIds : List ℕ} {i : ℕ} {blockHash g : ℤ}
    (h : (promptHashes rt blockSize promptTokenIds)[i + 1]? = some blockHash)
    (hg : Predecessor rt g blockHash) :
    (promptHashes rt blockSize promptTokenIds)[i]? = some g := by
  obtain ⟨prev, tokens, hprev, -, hhash⟩ := blockHashes_getElem?_succ h
  obtain ⟨tokens', hhash'⟩ := hg
  obtain ⟨-, hsame, -⟩ := hinj _ _ _ _ _ _ (hhash.symm.trans hhash')
  rw [← Option.some.inj hsame]
  exact hprev

/-- A save touches its blocks as a chain. -/
theorem promptHashes_isChain (blockSize : ℕ) (promptTokenIds : List ℕ) :
    List.IsChain (fun x y => ∀ g, Predecessor rt g y → g = x)
      (promptHashes rt blockSize promptTokenIds) := by
  rw [List.isChain_iff_getElem]
  intro i hi g hg
  have hprev := predecessor_succ hinj (List.getElem?_eq_getElem hi) hg
  rw [List.getElem?_eq_getElem (by omega)] at hprev
  exact (Option.some.inj hprev).symm

/-! ## The order is chained -/

/-- A call on a manager with at least 100 blocks keeps the recency order chained. -/
theorem Call.run_chained
    (hzero : ∀ isFirstBlock prevBlockHash tokens, rt.hash isFirstBlock prevBlockHash tokens ≠ 0)
    (call : Call) {m : PrefixKVCacheMgr} (hm : WellFormed m)
    (hlarge : 100 ≤ m.cacheEngine.numBlocks) (hchained : Chained (Predecessor rt) m.recency) :
    ∃ num m', call.run rt m = .ok num m' ∧ WellFormed m' ∧ m'.cacheEngine = m.cacheEngine ∧
      Chained (Predecessor rt) m'.recency := by
  obtain ⟨num, m', hrun, hwf, hrec, hengine⟩ := call.run_refines hzero hm (Or.inl hlarge)
  refine ⟨num, m', hrun, hwf, hengine, ?_⟩
  -- the hashes of a prompt: a chain whose first element has no predecessor at all
  have hprompt : ∀ promptTokenIds, Chained (Predecessor rt)
      (touchAll (policy m.cacheEngine) m.recency
        (promptHashes rt m.cacheEngine.blockSize promptTokenIds)) := by
    intro promptTokenIds
    apply hchained.touchAll _ (promptHashes_isChain hinj _ _)
    intro x hx l _ g hg
    rw [List.head?_eq_getElem?, Option.mem_def] at hx
    exact absurd hg (not_predecessor_first hinj _ _ hx g)
  rw [hrec]
  cases call with
  | save promptTokenIds => exact hprompt promptTokenIds
  | savePrefill requestId promptTokenIds => exact hprompt promptTokenIds
  | getNumCachedBlocks promptTokenIds => exact hchained

theorem runCalls_chained
    (hzero : ∀ isFirstBlock prevBlockHash tokens, rt.hash isFirstBlock prevBlockHash tokens ≠ 0)
    (calls : List Call) {m : PrefixKVCacheMgr} (hm : WellFormed m)
    (hlarge : 100 ≤ m.cacheEngine.numBlocks) (hchained : Chained (Predecessor rt) m.recency) :
    ∃ m', runCalls rt calls m = .ok () m' ∧ WellFormed m' ∧ m'.cacheEngine = m.cacheEngine ∧
      Chained (Predecessor rt) m'.recency := by
  induction calls generalizing m with
  | nil => exact ⟨m, rfl, hm, rfl, hchained⟩
  | cons call calls ih =>
    obtain ⟨num, m₁, hrun₁, hwf₁, hengine₁, hchained₁⟩ :=
      call.run_chained hinj hzero hm hlarge hchained
    obtain ⟨m₂, hrun₂, hwf₂, hengine₂, hchained₂⟩ := ih hwf₁ (hengine₁.symm ▸ hlarge) hchained₁
    refine ⟨m₂, ?_, hwf₂, hengine₂.trans hengine₁, hchained₂⟩
    rw [runCalls, Py.bind_ok hrun₁, hrun₂]

/-! ## Reachable blocks -/

omit hinj in
/-- A prompt is found beyond block `j` when its blocks up to there are cached. -/
theorem lt_getNumCachedBlocks {m : PrefixKVCacheMgr} (hm : WellFormed m) (promptTokenIds : List ℕ)
    {j : ℕ} (hj : j < (promptHashes rt m.cacheEngine.blockSize promptTokenIds).length)
    (hcached : ∀ i ≤ j, ∀ blockHash,
      (promptHashes rt m.cacheEngine.blockSize promptTokenIds)[i]? = some blockHash →
        blockHash ∈ m.cachedBlocks.keys) :
    j < getNumCachedBlocks rt m promptTokenIds := by
  set hashes := promptHashes rt m.cacheEngine.blockSize promptTokenIds with hhashes
  -- the look-up passes the first `j + 1` blocks
  have hpass : ∀ blockHash ∈ hashes.take (j + 1),
      decide ((m.cachedBlocks.get? blockHash).isSome ∧ m.lru.query blockHash ≠ -1) = true := by
    intro blockHash hmem
    obtain ⟨i, hi⟩ := List.mem_iff_getElem?.mp hmem
    have hlt : i < j + 1 := by
      have hlen := (List.getElem?_eq_some_iff.mp hi).1
      rw [List.length_take] at hlen
      omega
    rw [List.getElem?_take_of_lt hlt] at hi
    have hkey := hcached i (by omega) blockHash hi
    obtain ⟨blockId, hblockId⟩ := OrderedDict.get?_of_mem_keys hkey
    simp [hblockId, hm.query_ne ((hm.sameKeys blockHash).mp hkey)]
  rw [getNumCachedBlocks, ← hhashes, ← List.take_append_drop (j + 1) hashes,
    List.takeWhile_append_of_pos hpass, List.length_append, List.length_take]
  omega

omit hinj in
/-- Going back from a cached block, all blocks are cached down to the first one, or down to
the least recently used block, whose predecessor is gone. -/
theorem cached_down_to {m : PrefixKVCacheMgr} (hm : WellFormed m)
    (hchained : Chained (Predecessor rt) m.recency) (promptTokenIds : List ℕ) {j : ℕ}
    {blockHash : ℤ}
    (hj : (promptHashes rt m.cacheEngine.blockSize promptTokenIds)[j]? = some blockHash)
    (hcached : blockHash ∈ m.cachedBlocks.keys) :
    (∀ i ≤ j, ∀ h, (promptHashes rt m.cacheEngine.blockSize promptTokenIds)[i]? = some h →
      h ∈ m.cachedBlocks.keys) ∨
    ∃ i < j, ∃ g h, (promptHashes rt m.cacheEngine.blockSize promptTokenIds)[i]? = some g ∧
      (promptHashes rt m.cacheEngine.blockSize promptTokenIds)[i + 1]? = some h ∧
      g ∉ m.cachedBlocks.keys ∧ m.recency.head? = some h := by
  induction j generalizing blockHash with
  | zero =>
    left
    intro i hi h hget
    obtain rfl : i = 0 := by omega
    rw [hj] at hget
    exact Option.some.inj hget ▸ hcached
  | succ j ih =>
    obtain ⟨g, tokens, hg, -, hhash⟩ := blockHashes_getElem?_succ hj
    by_cases hgcached : g ∈ m.cachedBlocks.keys
    · rcases ih hg hgcached with hall | ⟨i, hi, hgap⟩
      · left
        intro i hi h hget
        rcases Nat.lt_or_ge j i with hlt | hle
        · obtain rfl : i = j + 1 := by omega
          rw [hj] at hget
          exact Option.some.inj hget ▸ hcached
        · exact hall i hle h hget
      · exact Or.inr ⟨i, by omega, hgap⟩
    -- the predecessor is gone, so this block is the oldest one
    · refine Or.inr ⟨j, by omega, g, blockHash, hg, hj, hgcached, ?_⟩
      have hor := hchained.mem_or_head ((hm.sameKeys _).mp hcached) ⟨tokens, hhash⟩
      exact hor.resolve_left (fun hmem => hgcached ((hm.sameKeys _).mpr hmem))

/-- A cached block whose predecessor is not cached is the least recently used block. So
every cached block belongs to some saved prompt that is found up to it, or that has the
least recently used block, with its predecessor gone, among the blocks up to it. -/
theorem predecessor_cached
    (hzero : ∀ isFirstBlock prevBlockHash tokens, rt.hash isFirstBlock prevBlockHash tokens ≠ 0)
    (cacheEngine : KvCacheEngine) (hlarge : 100 ≤ cacheEngine.numBlocks) (calls : List Call) :
    ∃ m, runCalls rt calls (init cacheEngine) = .ok () m ∧
      (∀ g tokens, rt.hash false (some g) tokens ∈ m.cachedBlocks.keys →
        g ∈ m.cachedBlocks.keys ∨ m.recency.head? = some (rt.hash false (some g) tokens)) ∧
      ∀ blockHash ∈ m.cachedBlocks.keys, ∃ call ∈ calls, ∃ p j, call.savedPrompt = some p ∧
        (promptHashes rt cacheEngine.blockSize p)[j]? = some blockHash ∧
        (j < getNumCachedBlocks rt m p ∨
          ∃ i < j, ∃ g h, (promptHashes rt cacheEngine.blockSize p)[i]? = some g ∧
            (promptHashes rt cacheEngine.blockSize p)[i + 1]? = some h ∧
            g ∉ m.cachedBlocks.keys ∧ m.recency.head? = some h) := by
  have hinit := init_wellFormed cacheEngine
  obtain ⟨m, hrun, hwf, hengine, hchained⟩ :=
    runCalls_chained hinj hzero calls hinit hlarge Chained.nil
  have hengine' : m.cacheEngine = cacheEngine := hengine
  refine ⟨m, hrun, ?_, ?_⟩
  -- the hash before a cached one is cached, or the cached one is the next to be evicted
  · intro g tokens hmem
    have hor := hchained.mem_or_head ((hwf.sameKeys _).mp hmem) ⟨tokens, rfl⟩
    exact hor.imp_left (hwf.sameKeys g).mpr
  · intro blockHash hmem
    have horigin := (afterCalls_origin rt cacheEngine calls).2
    rw [afterCalls_of_runCalls hrun] at horigin
    obtain ⟨call, hcall, p, hp, hprompt⟩ := horigin blockHash hmem
    obtain ⟨j, hj⟩ := List.mem_iff_getElem?.mp hprompt
    refine ⟨call, hcall, p, j, hp, hj, ?_⟩
    rw [← hengine'] at hj ⊢
    -- going down the prompt from a cached block, the first gap sits at the head of the order
    rcases cached_down_to hwf hchained p hj hmem with hall | hgap
    · exact Or.inl (lt_getNumCachedBlocks hwf p (List.getElem?_eq_some_iff.mp hj).1 hall)
    · exact Or.inr hgap

end Injective

/-- Two saves of prompts that share their first token. -/
theorem predecessor_cached_shared :
    ∃ m, runCalls encodingRuntime [.save [1, 2], .save [1, 3]] (init smallEngine) = .ok () m ∧
      (∀ g tokens, encodingRuntime.hash false (some g) tokens ∈ m.cachedBlocks.keys →
        g ∈ m.cachedBlocks.keys ∨
          m.recency.head? = some (encodingRuntime.hash false (some g) tokens)) ∧
      ∀ blockHash ∈ m.cachedBlocks.keys,
        ∃ call ∈ [Call.save [1, 2], Call.save [1, 3]], ∃ p j, call.savedPrompt = some p ∧
        (promptHashes encodingRuntime smallEngine.blockSize p)[j]? = some blockHash ∧
        (j < getNumCachedBlocks encodingRuntime m p ∨
          ∃ i < j, ∃ g h, (promptHashes encodingRuntime smallEngine.blockSize p)[i]? = some g ∧
            (promptHashes encodingRuntime smallEngine.blockSize p)[i + 1]? = some h ∧
            g ∉ m.cachedBlocks.keys ∧ m.recency.head? = some h) :=
  predecessor_cached (fun _ _ _ _ _ _ h => encodingRuntime_hash_injective h)
    encodingRuntime_hash_ne_zero smallEngine (by decide) [.save [1, 2], .save [1, 3]]

/-! ## A block that loses its predecessor -/

/-- A cache of 100 blocks of one token. -/
def hundredEngine : KvCacheEngine := ⟨1, 1, 100, Nat.one_pos⟩

/-- A prompt that fills the cache of 100 blocks. -/
def fillingPrompt : List ℕ := List.range 100

/-- The filling prompt takes all blocks of the pool: there is room for exactly its blocks. -/
theorem fillingPrompt_filled :
    ∃ num m, (Call.save fillingPrompt).run encodingRuntime (init hundredEngine) = .ok num m ∧
      WellFormed m ∧ m.cacheEngine = hundredEngine ∧
      m.recency = promptHashes encodingRuntime 1 fillingPrompt := by
  have hinj := @encodingRuntime_hash_injective
  obtain ⟨num, m, hrun, hwf, hrec, hengine⟩ :=
    (Call.save fillingPrompt).run_refines encodingRuntime_hash_ne_zero
      (init_wellFormed hundredEngine) (Or.inl (le_refl 100))
  refine ⟨num, m, hrun, hwf, hengine, ?_⟩
  rw [hrec]
  have happend := touchAll_of_room (policy hundredEngine)
    (promptHashes encodingRuntime 1 fillingPrompt) []
    (promptHashes_nodup (fun _ _ _ _ _ _ h => hinj h) 1 fillingPrompt)
    (by rw [List.nil_append, length_promptHashes]; decide)
  exact happend

/-- The only block of another prompt is none of them. -/
theorem fillingPrompt_other :
    ∃ other, promptHashes encodingRuntime 1 [1000] = [other] ∧
      other ∉ promptHashes encodingRuntime 1 fillingPrompt := by
  have hinj := @encodingRuntime_hash_injective
  obtain ⟨other, hother⟩ : ∃ other, promptHashes encodingRuntime 1 [1000] = [other] := ⟨_, rfl⟩
  refine ⟨other, hother, ?_⟩
  intro hmem
  obtain ⟨i, hi⟩ := List.mem_iff_getElem?.mp hmem
  have hfirst : (promptHashes encodingRuntime 1 [1000])[0]? = some other := by rw [hother]; rfl
  obtain ⟨rfl, hblocks⟩ :=
    promptHashes_getElem?_inj (fun _ _ _ _ _ _ h => hinj h) hi hfirst
  exact absurd hblocks (by decide)

/-- The block of the second save makes room by evicting the first 81 blocks of the filling
prompt: the 82nd block stays without its predecessor. -/
theorem fillingPrompt_recency :
    ∃ m, runCalls encodingRuntime [.save fillingPrompt, .save [1000]] (init hundredEngine) =
        .ok () m ∧ WellFormed m ∧
      m.recency = (promptHashes encodingRuntime 1 fillingPrompt).drop 81 ++
        promptHashes encodingRuntime 1 [1000] := by
  obtain ⟨num₁, m₁, hrun₁, hwf₁, hengine₁, hfilled⟩ := fillingPrompt_filled
  obtain ⟨other, hother, hnew⟩ := fillingPrompt_other
  obtain ⟨num₂, m₂, hrun₂, hwf₂, hrec₂, -⟩ :=
    (Call.save [1000]).run_refines encodingRuntime_hash_ne_zero hwf₁
      (Or.inl (by rw [hengine₁]; exact le_refl 100))
  refine ⟨m₂, ?_, hwf₂, ?_⟩
  · rw [runCalls, Py.bind_ok hrun₁, runCalls, Py.bind_ok hrun₂]
    rfl
  rw [hrec₂, hfilled, hengine₁]
  show touchAll (policy hundredEngine) _ (promptHashes encodingRuntime 1 [1000]) = _
  rw [hother, touchAll_cons, touchAll_nil, touch_of_notMem _ hnew, makeRoom, if_pos]
  · rfl
  · rw [length_promptHashes]; decide

/-- Not every cached block has its predecessor in the cache, not even when no prompt has
more blocks than the cache. -/
theorem not_predecessor_cached :
    ¬ ∀ rt : Runtime,
      (∀ isFirst prev tokens isFirst' prev' tokens',
        rt.hash isFirst prev tokens = rt.hash isFirst' prev' tokens' →
          isFirst = isFirst' ∧ prev = prev' ∧ tokens = tokens') →
      (∀ isFirstBlock prevBlockHash tokens, rt.hash isFirstBlock prevBlockHash tokens ≠ 0) →
      ∀ (cacheEngine : KvCacheEngine) (calls : List Call) (m : PrefixKVCacheMgr),
        100 ≤ cacheEngine.numBlocks →
        (∀ call ∈ calls, ∀ p, call.savedPrompt = some p →
          p.length / cacheEngine.blockSize ≤ cacheEngine.numBlocks) →
        runCalls rt calls (init cacheEngine) = .ok () m →
        ∀ g tokens, rt.hash false (some g) tokens ∈ m.cachedBlocks.keys →
          g ∈ m.cachedBlocks.keys := by
  intro hclaim
  have hinj := @encodingRuntime_hash_injective
  have hnodup := promptHashes_nodup (fun _ _ _ _ _ _ h => hinj h) 1 fillingPrompt
  obtain ⟨m, hrun, hwf, hrec⟩ := fillingPrompt_recency
  have hlen : (promptHashes encodingRuntime 1 fillingPrompt).length = 100 := by
    rw [length_promptHashes]
    rfl
  -- the block at position 81 is cached, the one at position 80 is its predecessor
  obtain ⟨orphan, horphan⟩ : ∃ orphan,
      (promptHashes encodingRuntime 1 fillingPrompt)[81]? = some orphan :=
    ⟨_, List.getElem?_eq_getElem (by omega)⟩
  obtain ⟨g, tokens, hg, -, hhash⟩ := blockHashes_getElem?_succ horphan
  have hcached : orphan ∈ m.cachedBlocks.keys := by
    rw [hwf.sameKeys, hrec]
    apply List.mem_append_left
    exact List.mem_of_getElem? (i := 0) (by rw [List.getElem?_drop]; exact horphan)
  have hpred := hclaim encodingRuntime (fun _ _ _ _ _ _ h => hinj h)
    encodingRuntime_hash_ne_zero hundredEngine _ m (le_refl 100) (by
      intro call hcall p hp
      simp only [List.mem_cons, List.not_mem_nil, or_false] at hcall
      rcases hcall with rfl | rfl
      · cases hp; decide
      · cases hp; decide) hrun g tokens (hhash ▸ hcached)
  rw [hwf.sameKeys, hrec, List.mem_append] at hpred
  rcases hpred with hold | hother
  · -- position 80 was evicted, and the hash stands nowhere else in the prompt
    obtain ⟨i, hi⟩ := List.mem_iff_getElem?.mp hold
    rw [List.getElem?_drop] at hi
    obtain ⟨h81, hget⟩ := List.getElem?_eq_some_iff.mp hi
    obtain ⟨h80, hget'⟩ := List.getElem?_eq_some_iff.mp hg
    have hsame := hnodup.getElem_inj_iff.mp (hget'.trans hget.symm)
    omega
  · -- the other prompt has another first block
    obtain ⟨i, hi⟩ := List.mem_iff_getElem?.mp hother
    obtain ⟨rfl, -⟩ := promptHashes_getElem?_inj (fun _ _ _ _ _ _ h => hinj h) hg hi
    simp [promptHashes, promptBlocks, blockHashes] at hi

end DualMap.Cache.PrefixKVCacheMgr
