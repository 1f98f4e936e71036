import DualMap.Cache.BlockPool

/-!
# Saved Prompts Are Found

Immediately after a save, all full blocks of the prompt are cached, although the save may
have evicted blocks, also old ones of the same prompt. The blocks touched so far stay the
most recent ones (`BatchLru.touchAll_recent`), and a reclaim finds 81 older ones as long as
the prompt leaves room for a reclaim.
-/

namespace DualMap.Cache.PrefixKVCacheMgr

open BatchLru

/-! ## The blocks of a prompt have different hashes -/

theorem blockHashes_getElem?_zero {rt : Runtime} {prevBlockHash : Option ℤ}
    {blocks : List (List ℕ)} {blockHash : ℤ}
    (h : (blockHashes rt prevBlockHash blocks)[0]? = some blockHash) :
    ∃ tokens, blocks[0]? = some tokens ∧
      blockHash = rt.hash prevBlockHash.isNone prevBlockHash tokens := by
  cases blocks with
  | nil => simp [blockHashes] at h
  | cons tokens blocks => exact ⟨tokens, by simp, by simpa [blockHashes] using h.symm⟩

/-- A block hash is computed from the hash before it in the chain. -/
theorem blockHashes_getElem?_succ {rt : Runtime} {prevBlockHash : Option ℤ}
    {blocks : List (List ℕ)} {i : ℕ} {blockHash : ℤ}
    (h : (blockHashes rt prevBlockHash blocks)[i + 1]? = some blockHash) :
    ∃ prev tokens, (blockHashes rt prevBlockHash blocks)[i]? = some prev ∧
      blocks[i + 1]? = some tokens ∧ blockHash = rt.hash false (some prev) tokens := by
  induction blocks generalizing prevBlockHash i with
  | nil => simp [blockHashes] at h
  | cons tokens blocks ih =>
    simp only [blockHashes, List.getElem?_cons_succ] at h
    cases i with
    | zero =>
      -- the second block is chained to the first one
      obtain ⟨tokens', hblock, hhash⟩ := blockHashes_getElem?_zero h
      exact ⟨_, tokens', by simp [blockHashes], by simpa using hblock, hhash⟩
    | succ i =>
      obtain ⟨prev, tokens', hprev, hblock, hhash⟩ := ih h
      exact ⟨prev, tokens', by simpa [blockHashes] using hprev, by simpa using hblock, hhash⟩

/-- Equal block hashes stand at the same position of their chains, and the blocks up to
there are the same. Equal hashes have equal predecessors, down to the first block, whose
hash says that it is the first one. -/
theorem promptHashes_getElem?_inj {rt : Runtime}
    (hinj : ∀ isFirst prev tokens isFirst' prev' tokens',
      rt.hash isFirst prev tokens = rt.hash isFirst' prev' tokens' →
        isFirst = isFirst' ∧ prev = prev' ∧ tokens = tokens')
    {blockSize : ℕ} {p q : List ℕ} {i j : ℕ} {blockHash : ℤ}
    (hp : (promptHashes rt blockSize p)[i]? = some blockHash)
    (hq : (promptHashes rt blockSize q)[j]? = some blockHash) :
    i = j ∧ (promptBlocks blockSize p).take (i + 1) = (promptBlocks blockSize q).take (i + 1) := by
  -- walk both chains back in step
  induction i generalizing j blockHash with
  | zero =>
    obtain ⟨tokens, hblock, hhash⟩ := blockHashes_getElem?_zero hp
    cases j with
    | zero =>
      obtain ⟨tokens', hblock', hhash'⟩ := blockHashes_getElem?_zero hq
      obtain ⟨-, -, rfl⟩ := hinj _ _ _ _ _ _ (hhash.symm.trans hhash')
      exact ⟨rfl, by rw [List.take_add_one, List.take_add_one, hblock, hblock']; simp⟩
    | succ j =>
      -- block `j + 1` has a predecessor, the first block has none
      obtain ⟨prev', tokens', -, -, hhash'⟩ := blockHashes_getElem?_succ hq
      have hfirst := (hinj _ _ _ _ _ _ (hhash.symm.trans hhash')).1
      cases hfirst
  | succ i ih =>
    obtain ⟨prev, tokens, hprev, hblock, hhash⟩ := blockHashes_getElem?_succ hp
    cases j with
    | zero =>
      obtain ⟨tokens', -, hhash'⟩ := blockHashes_getElem?_zero hq
      have hfirst := (hinj _ _ _ _ _ _ (hhash.symm.trans hhash')).1
      cases hfirst
    | succ j =>
      obtain ⟨prev', tokens', hprev', hblock', hhash'⟩ := blockHashes_getElem?_succ hq
      obtain ⟨-, hsame, rfl⟩ := hinj _ _ _ _ _ _ (hhash.symm.trans hhash')
      obtain rfl := Option.some.inj hsame
      obtain ⟨rfl, htake⟩ := ih hprev hprev'
      refine ⟨rfl, ?_⟩
      rw [List.take_add_one, htake, hblock, ← hblock', ← List.take_add_one]

/-- No two blocks of a prompt share a hash. -/
theorem promptHashes_nodup {rt : Runtime}
    (hinj : ∀ isFirst prev tokens isFirst' prev' tokens',
      rt.hash isFirst prev tokens = rt.hash isFirst' prev' tokens' →
        isFirst = isFirst' ∧ prev = prev' ∧ tokens = tokens')
    (blockSize : ℕ) (promptTokenIds : List ℕ) :
    (promptHashes rt blockSize promptTokenIds).Nodup := by
  apply List.nodup_iff_getElem?_ne_getElem?.mpr
  intro i j hij hj heq
  obtain ⟨blockHash, hsecond⟩ : ∃ h, (promptHashes rt blockSize promptTokenIds)[j]? = some h :=
    ⟨_, List.getElem?_eq_getElem hj⟩
  obtain ⟨rfl, -⟩ := promptHashes_getElem?_inj hinj (heq.trans hsecond) hsecond
  exact lt_irrefl i hij

/-! ## Cached blocks are found -/

/-- A prompt whose blocks are all cached is found in full. -/
theorem getNumCachedBlocks_of_cached (rt : Runtime) {m : PrefixKVCacheMgr} (hm : WellFormed m)
    (promptTokenIds : List ℕ)
    (hcached : ∀ blockHash ∈ promptHashes rt m.cacheEngine.blockSize promptTokenIds,
      blockHash ∈ m.recency) :
    getNumCachedBlocks rt m promptTokenIds =
      promptTokenIds.length / m.cacheEngine.blockSize := by
  rw [← length_promptHashes rt, getNumCachedBlocks]
  apply congrArg List.length
  -- the look-up stops at no block of the prompt
  apply List.takeWhile_eq_self_iff.mpr
  intro blockHash hmem
  have hrecent := hcached blockHash hmem
  obtain ⟨blockId, hget⟩ := OrderedDict.get?_of_mem_keys ((hm.sameKeys blockHash).mpr hrecent)
  simp [hget, hm.query_ne hrecent]

/-- A manager with at least 100 blocks survives every sequence of calls. -/
theorem runCalls_wellFormed {rt : Runtime}
    (hzero : ∀ isFirstBlock prevBlockHash tokens, rt.hash isFirstBlock prevBlockHash tokens ≠ 0)
    (calls : List Call) {m : PrefixKVCacheMgr} (hm : WellFormed m)
    (hlarge : 100 ≤ m.cacheEngine.numBlocks) :
    ∃ m', runCalls rt calls m = .ok () m' ∧ WellFormed m' ∧
      m'.cacheEngine = m.cacheEngine := by
  induction calls generalizing m with
  | nil => exact ⟨m, rfl, hm, rfl⟩
  | cons call calls ih =>
    obtain ⟨num, m₁, hrun₁, hwf₁, -, hengine₁⟩ := call.run_refines hzero hm (Or.inl hlarge)
    obtain ⟨m₂, hrun₂, hwf₂, hengine₂⟩ := ih hwf₁ (hengine₁.symm ▸ hlarge)
    refine ⟨m₂, ?_, hwf₂, hengine₂.trans hengine₁⟩
    rw [runCalls, Py.bind_ok hrun₁, hrun₂]

/-- After a save of at most `N - w - 80` blocks, those blocks are the most recent ones. -/
theorem saveLoop_recent (rt : Runtime) {hashes : List ℤ} {m : PrefixKVCacheMgr}
    (hm : WellFormed m) (htruthy : ∀ blockHash ∈ hashes, blockHash ≠ 0) (hnd : hashes.Nodup)
    (hlarge : 100 ≤ m.cacheEngine.numBlocks)
    (hlen : hashes.length ≤ m.cacheEngine.numBlocks - m.cacheEngine.numBlocks / 100 - 80) :
    ∃ saved m' old, saveLoop rt hashes m = .ok saved m' ∧ WellFormed m' ∧
      m'.recency = old ++ hashes ∧ m'.cacheEngine = m.cacheEngine := by
  obtain ⟨saved, m', hrun, hwf, hrec, hengine⟩ :=
    saveLoop_refines rt hashes hm htruthy (Or.inl hlarge)
  have hsize : ([] ++ hashes).length + (policy m.cacheEngine).watermark +
      (policy m.cacheEngine).batch ≤ (policy m.cacheEngine).capacity + 2 := by
    simp only [List.nil_append, policy]
    omega
  -- nothing of this prompt counts as recent before its first block is touched
  obtain ⟨old, hold⟩ :=
    touchAll_recent (policy m.cacheEngine) hashes m.recency [] (by simpa using hnd) hsize
  refine ⟨saved, m', old, hrun, hwf, ?_, hengine⟩
  rw [hrec]
  simpa using hold

/-- Whatever was saved before, a prompt of at most `N - w - 80` blocks is found in full
right after it was saved. -/
theorem getNumCachedBlocks_after_save {rt : Runtime}
    (hinj : ∀ isFirst prev tokens isFirst' prev' tokens',
      rt.hash isFirst prev tokens = rt.hash isFirst' prev' tokens' →
        isFirst = isFirst' ∧ prev = prev' ∧ tokens = tokens')
    (hzero : ∀ isFirstBlock prevBlockHash tokens, rt.hash isFirstBlock prevBlockHash tokens ≠ 0)
    (cacheEngine : KvCacheEngine) (hlarge : 100 ≤ cacheEngine.numBlocks) (calls : List Call)
    (promptTokenIds : List ℕ)
    (hlen : promptTokenIds.length / cacheEngine.blockSize ≤
      cacheEngine.numBlocks - cacheEngine.numBlocks / 100 - 80)
    (last : Call) (hlast : last = .save promptTokenIds ∨
      ∃ requestId, last = .savePrefill requestId promptTokenIds) :
    ∃ m saved m', runCalls rt calls (init cacheEngine) = .ok () m ∧
      last.run rt m = .ok saved m' ∧
      getNumCachedBlocks rt m' promptTokenIds =
        promptTokenIds.length / cacheEngine.blockSize := by
  obtain ⟨m, hrun, hwf, hengine⟩ :=
    runCalls_wellFormed hzero calls (init_wellFormed cacheEngine) hlarge
  have hengine' : m.cacheEngine = cacheEngine := hengine
  have hlen' : (promptHashes rt m.cacheEngine.blockSize promptTokenIds).length ≤
      m.cacheEngine.numBlocks - m.cacheEngine.numBlocks / 100 - 80 := by
    rw [length_promptHashes, hengine']
    exact hlen
  obtain ⟨saved, m', old, hsave, hwf', hrec, hengine₂⟩ :=
    saveLoop_recent rt hwf (blockHashes_truthy hzero none _)
      (promptHashes_nodup hinj m.cacheEngine.blockSize promptTokenIds)
      (hengine'.symm ▸ hlarge) hlen'
  have hlastRun : last.run rt m = .ok saved m' := by
    -- `save_prefill` has the body of `save`
    rcases hlast with rfl | ⟨requestId, rfl⟩
    · exact hsave
    · exact hsave
  refine ⟨m, saved, m', hrun, hlastRun, ?_⟩
  -- the recent blocks are cached, all of them
  have hfound := getNumCachedBlocks_of_cached rt hwf' promptTokenIds (by
    intro blockHash hmem
    rw [hengine₂] at hmem
    rw [hrec]
    exact List.mem_append_right _ hmem)
  rw [hfound, hengine₂, hengine']

/-- A cache of 128 blocks of one token. -/
def smallEngine : KvCacheEngine := ⟨1, 1, 128, Nat.one_pos⟩

/-- Two tokens saved after one other prompt are both found. -/
theorem getNumCachedBlocks_after_save_two :
    ∃ m saved m', runCalls encodingRuntime [.save [7]] (init smallEngine) = .ok () m ∧
      (Call.save [1, 2]).run encodingRuntime m = .ok saved m' ∧
      getNumCachedBlocks encodingRuntime m' [1, 2] = [1, 2].length / smallEngine.blockSize :=
  getNumCachedBlocks_after_save
    (fun _ _ _ _ _ _ h => encodingRuntime_hash_injective h) encodingRuntime_hash_ne_zero
    smallEngine (by decide) [.save [7]] [1, 2] (by decide) (.save [1, 2]) (Or.inl rfl)

end DualMap.Cache.PrefixKVCacheMgr
