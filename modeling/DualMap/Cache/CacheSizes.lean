import DualMap.Cache.EvictionOrder
import DualMap.Foundation.BatchLruInclusion

/-!
# Caches with Different Numbers of Blocks

What more blocks are good for. Two managers serve the same calls. The larger one finds at least
as much of every prompt if its pool is larger by a whole reclaim, which evicts 81 blocks. If it
is larger by less, a reclaim can leave it with fewer blocks than the smaller one has, and some
prompt is found by the smaller one only.
-/

namespace DualMap.Cache.PrefixKVCacheMgr

open BatchLru

/-- With more blocks than that in use, the next new block starts a reclaim. -/
def reclaimLimit (cacheEngine : KvCacheEngine) : ℕ :=
  cacheEngine.numBlocks - cacheEngine.numBlocks / 100

/-- After the same calls, every prompt is found by the second manager as far as by the first. -/
def NeverFewerHits (rt : Runtime) (cacheEngine cacheEngine' : KvCacheEngine) : Prop :=
  ∀ (calls : List Call) (promptTokenIds : List ℕ), ∃ m m',
    runCalls rt calls (init cacheEngine) = .ok () m ∧
      runCalls rt calls (init cacheEngine') = .ok () m' ∧
      getNumCachedBlocks rt m promptTokenIds ≤ getNumCachedBlocks rt m' promptTokenIds

theorem policy_evicts {cacheEngine : KvCacheEngine} (hlarge : 100 ≤ cacheEngine.numBlocks) :
    (policy cacheEngine).Evicts where
  watermark_pos := Nat.div_pos hlarge (by decide)
  watermark_le := Nat.div_le_self _ _

/-! ## Hits and recency -/

/-- The recency order after a run is that of the blocks it saved. -/
theorem runCalls_recency {rt : Runtime}
    (hzero : ∀ isFirstBlock prevBlockHash tokens, rt.hash isFirstBlock prevBlockHash tokens ≠ 0)
    (calls : List Call) {m : PrefixKVCacheMgr} (hm : WellFormed m)
    (hlarge : 100 ≤ m.cacheEngine.numBlocks) :
    ∃ m', runCalls rt calls m = .ok () m' ∧ WellFormed m' ∧ m'.cacheEngine = m.cacheEngine ∧
      m'.recency = touchAll (policy m.cacheEngine) m.recency
        (calls.flatMap (·.savedHashes rt m.cacheEngine.blockSize)) := by
  induction calls generalizing m with
  | nil => exact ⟨m, rfl, hm, rfl, rfl⟩
  | cons call calls ih =>
    obtain ⟨num, m₁, hrun₁, hwf₁, hrec₁, hengine₁⟩ := call.run_refines hzero hm (Or.inl hlarge)
    obtain ⟨m₂, hrun₂, hwf₂, hengine₂, hrec₂⟩ := ih hwf₁ (hengine₁.symm ▸ hlarge)
    refine ⟨m₂, ?_, hwf₂, hengine₂.trans hengine₁, ?_⟩
    · rw [runCalls, Py.bind_ok hrun₁, hrun₂]
    · rw [hrec₂, hengine₁, hrec₁, List.flatMap_cons, touchAll_append]

/-- All blocks that are found of a prompt are cached. -/
theorem mem_recency_of_lt {rt : Runtime} {m : PrefixKVCacheMgr} (hm : WellFormed m)
    {promptTokenIds : List ℕ} {i : ℕ} {blockHash : ℤ}
    (hi : i < getNumCachedBlocks rt m promptTokenIds)
    (hget : (promptHashes rt m.cacheEngine.blockSize promptTokenIds)[i]? = some blockHash) :
    blockHash ∈ m.recency := by
  unfold getNumCachedBlocks at hi
  set found := (promptHashes rt m.cacheEngine.blockSize promptTokenIds).takeWhile
    (fun blockHash => (m.cachedBlocks.get? blockHash).isSome ∧ m.lru.query blockHash ≠ -1)
    with hfound
  have hmem : blockHash ∈ found := by
    obtain ⟨rest, hsplit⟩ : found <+: promptHashes rt m.cacheEngine.blockSize promptTokenIds :=
      List.takeWhile_prefix _
    rw [← hsplit, List.getElem?_append_left hi] at hget
    exact List.mem_of_getElem? hget
  rw [hfound] at hmem
  have hfoundOne := List.mem_takeWhile_imp hmem
  obtain ⟨hsome, -⟩ := of_decide_eq_true hfoundOne
  exact (hm.sameKeys blockHash).mp
    (OrderedDict.mem_keys_iff.mpr (Option.isSome_iff_exists.mp hsome))

/-- A manager that caches more blocks finds more of every prompt. -/
theorem getNumCachedBlocks_mono {rt : Runtime} {m m' : PrefixKVCacheMgr} (hm : WellFormed m)
    (hm' : WellFormed m') (hblock : m.cacheEngine.blockSize = m'.cacheEngine.blockSize)
    (hmore : m.recency ⊆ m'.recency) (promptTokenIds : List ℕ) :
    getNumCachedBlocks rt m promptTokenIds ≤ getNumCachedBlocks rt m' promptTokenIds := by
  by_contra hfewer
  have hlt := not_le.mp hfewer
  set j := getNumCachedBlocks rt m' promptTokenIds with hj
  have hlength : getNumCachedBlocks rt m promptTokenIds ≤
      (promptHashes rt m'.cacheEngine.blockSize promptTokenIds).length := by
    rw [← hblock]
    exact (List.takeWhile_prefix _).length_le
  -- the block where the second manager stops is cached by the first one
  have hbeyond : j < getNumCachedBlocks rt m' promptTokenIds := by
    refine lt_getNumCachedBlocks hm' promptTokenIds (hlt.trans_le hlength) ?_
    intro i hi blockHash hget
    rw [← hblock] at hget
    exact (hm'.sameKeys blockHash).mpr (hmore (mem_recency_of_lt hm (hi.trans_lt hlt) hget))
  exact lt_irrefl j hbeyond

/-! ## Prompts of one block -/

/-- A prompt of one block, which repeats a token. -/
def blockPrompt (blockSize token : ℕ) : List ℕ := List.replicate blockSize token

theorem promptHashes_blockPrompt (rt : Runtime) {blockSize : ℕ} (hpos : 0 < blockSize)
    (token : ℕ) : promptHashes rt blockSize (blockPrompt blockSize token) =
      [rt.hash true none (blockPrompt blockSize token)] := by
  simp [promptHashes, promptBlocks, blockHashes, blockPrompt, Nat.div_self hpos]

theorem getNumCachedBlocks_blockPrompt (rt : Runtime) {m : PrefixKVCacheMgr} (hm : WellFormed m)
    (token : ℕ) :
    0 < getNumCachedBlocks rt m (blockPrompt m.cacheEngine.blockSize token) ↔
      rt.hash true none (blockPrompt m.cacheEngine.blockSize token) ∈ m.recency := by
  have hhashes := promptHashes_blockPrompt rt m.cacheEngine.blockSize_pos token
  constructor
  · intro hfound
    exact mem_recency_of_lt hm hfound (by rw [hhashes]; rfl)
  · intro hmem
    rw [getNumCachedBlocks_of_cached rt hm _ (by rw [hhashes]; simpa using hmem),
      blockPrompt, List.length_replicate, Nat.div_self m.cacheEngine.blockSize_pos]
    exact Nat.one_pos

/-- Saves of the blocks of a list of tokens touch these blocks. -/
theorem savedHashes_blockPrompts (rt : Runtime) {blockSize : ℕ} (hpos : 0 < blockSize)
    (tokens : List ℕ) :
    (tokens.map (fun token => Call.save (blockPrompt blockSize token))).flatMap
        (·.savedHashes rt blockSize) =
      tokens.map (fun token => rt.hash true none (blockPrompt blockSize token)) := by
  induction tokens with
  | nil => rfl
  | cons token tokens ih =>
    rw [List.map_cons, List.flatMap_cons, ih, List.map_cons, Call.savedHashes,
      promptHashes_blockPrompt rt hpos, List.singleton_append]

/-! ## More blocks -/

section MoreBlocks

variable {rt : Runtime}
  (hzero : ∀ isFirstBlock prevBlockHash tokens, rt.hash isFirstBlock prevBlockHash tokens ≠ 0)
  {cacheEngine cacheEngine' : KvCacheEngine} (hlarge : 100 ≤ cacheEngine.numBlocks)
  (hlarge' : 100 ≤ cacheEngine'.numBlocks)
  (hblock : cacheEngine.blockSize = cacheEngine'.blockSize)

include hzero hlarge

/-- The blocks that a new manager has after a run. -/
theorem runCalls_init_recency (calls : List Call) :
    ∃ m, runCalls rt calls (init cacheEngine) = .ok () m ∧ WellFormed m ∧
      m.cacheEngine = cacheEngine ∧ m.recency = touchAll (policy cacheEngine) []
        (calls.flatMap (·.savedHashes rt cacheEngine.blockSize)) :=
  runCalls_recency hzero calls (init_wellFormed cacheEngine) hlarge

include hlarge' hblock

theorem neverFewerHits_of_limit (hsizes : reclaimLimit cacheEngine = reclaimLimit cacheEngine' ∨
      reclaimLimit cacheEngine + 80 ≤ reclaimLimit cacheEngine') :
    NeverFewerHits rt cacheEngine cacheEngine' := by
  intro calls promptTokenIds
  obtain ⟨m, hrun, hwf, hengine, hrec⟩ := runCalls_init_recency hzero hlarge calls
  obtain ⟨m', hrun', hwf', hengine', hrec'⟩ := runCalls_init_recency hzero hlarge' calls
  have hlimit : (policy cacheEngine).limit = (policy cacheEngine').limit ∨
      (policy cacheEngine).limit + (policy cacheEngine).batch ≤ (policy cacheEngine').limit + 1 :=
    hsizes.imp_right (fun h => Nat.succ_le_succ h)
  have hmore : m.recency ⊆ m'.recency := by
    rw [hrec, hrec', hblock]
    exact touchAll_subset (policy_evicts hlarge) (policy_evicts hlarge') rfl hlimit _
  refine ⟨m, m', hrun, hrun', getNumCachedBlocks_mono hwf hwf' ?_ hmore promptTokenIds⟩
  rw [hengine, hengine', hblock]

theorem limit_of_neverFewerHits
    (hinj : ∀ isFirst prev tokens isFirst' prev' tokens',
      rt.hash isFirst prev tokens = rt.hash isFirst' prev' tokens' →
        isFirst = isFirst' ∧ prev = prev' ∧ tokens = tokens')
    (hnever : NeverFewerHits rt cacheEngine cacheEngine') :
    reclaimLimit cacheEngine = reclaimLimit cacheEngine' ∨
      reclaimLimit cacheEngine + 80 ≤ reclaimLimit cacheEngine' := by
  by_contra hclose
  have hpos := cacheEngine.blockSize_pos
  set blockHash : ℕ → ℤ := fun token =>
    rt.hash true none (blockPrompt cacheEngine.blockSize token) with hblockHash
  have hdistinct : Function.Injective blockHash := by
    intro token token' heq
    have hprompts := (hinj _ _ _ _ _ _ heq).2.2
    exact List.replicate_right_injective hpos.ne' hprompts
  have hsize : (policy cacheEngine).batch ≤ (policy cacheEngine).limit := by
    show 81 ≤ cacheEngine.numBlocks - cacheEngine.numBlocks / 100
    omega
  have hlimit : ¬ ((policy cacheEngine).limit = (policy cacheEngine').limit ∨
      (policy cacheEngine).limit + (policy cacheEngine).batch ≤
        (policy cacheEngine').limit + 1) := by
    intro h
    exact hclose (h.imp_right Nat.le_of_succ_le_succ)
  -- saves of one block each, after which the second manager has lost one of them
  obtain ⟨tokens, token, hkept, hlost⟩ := exists_lost (policy_evicts hlarge)
    (policy_evicts hlarge') rfl (Nat.succ_pos 80) hsize hlimit hdistinct
  set calls := tokens.map (fun token => Call.save (blockPrompt cacheEngine.blockSize token))
    with hcalls
  obtain ⟨m, m', hrun, hrun', hhits⟩ := hnever calls (blockPrompt cacheEngine.blockSize token)
  obtain ⟨m₁, hrun₁, hwf, hengine, hrec⟩ := runCalls_init_recency hzero hlarge calls
  obtain ⟨-, rfl⟩ := EStateM.Result.ok.inj (hrun.symm.trans hrun₁)
  obtain ⟨m₂, hrun₂, hwf', hengine', hrec'⟩ := runCalls_init_recency hzero hlarge' calls
  obtain ⟨-, rfl⟩ := EStateM.Result.ok.inj (hrun'.symm.trans hrun₂)
  rw [← hblock, hcalls, savedHashes_blockPrompts rt hpos] at hrec'
  rw [hcalls, savedHashes_blockPrompts rt hpos] at hrec
  have hfound := getNumCachedBlocks_blockPrompt rt hwf token
  have hfound' := getNumCachedBlocks_blockPrompt rt hwf' token
  rw [hengine, hrec] at hfound
  rw [hengine', ← hblock, hrec'] at hfound'
  exact hlost (hfound'.mp ((hfound.mpr hkept).trans_le hhits))

end MoreBlocks

/-- With at least 100 blocks each, the second manager never has fewer hits if its limit is the
same or higher by 80 at least. If block hashes do not collide, it has fewer ones in some run
otherwise. -/
theorem neverFewerHits_iff {rt : Runtime}
    (hzero : ∀ isFirstBlock prevBlockHash tokens, rt.hash isFirstBlock prevBlockHash tokens ≠ 0)
    {cacheEngine cacheEngine' : KvCacheEngine} (hlarge : 100 ≤ cacheEngine.numBlocks)
    (hlarge' : 100 ≤ cacheEngine'.numBlocks)
    (hblock : cacheEngine.blockSize = cacheEngine'.blockSize) :
    (reclaimLimit cacheEngine = reclaimLimit cacheEngine' ∨
        reclaimLimit cacheEngine + 80 ≤ reclaimLimit cacheEngine' →
      NeverFewerHits rt cacheEngine cacheEngine') ∧
    ((∀ isFirst prev tokens isFirst' prev' tokens',
        rt.hash isFirst prev tokens = rt.hash isFirst' prev' tokens' →
          isFirst = isFirst' ∧ prev = prev' ∧ tokens = tokens') →
      NeverFewerHits rt cacheEngine cacheEngine' →
      reclaimLimit cacheEngine = reclaimLimit cacheEngine' ∨
        reclaimLimit cacheEngine + 80 ≤ reclaimLimit cacheEngine') :=
  ⟨neverFewerHits_of_limit hzero hlarge hlarge' hblock,
    limit_of_neverFewerHits hzero hlarge hlarge' hblock⟩

/-- Blocks of one token. -/
def unitEngine (numBlocks : ℕ) : KvCacheEngine := ⟨1, 1, numBlocks, Nat.one_pos⟩

/-- One block more is not enough, and 80 more are. -/
theorem neverFewerHits_unitEngine :
    ¬ NeverFewerHits encodingRuntime (unitEngine 100) (unitEngine 101) ∧
      NeverFewerHits encodingRuntime (unitEngine 100) (unitEngine 180) := by
  have hzero := encodingRuntime_hash_ne_zero
  have hlarge : ∀ numBlocks, 100 ≤ numBlocks → 100 ≤ (unitEngine numBlocks).numBlocks :=
    fun _ h => h
  constructor
  · intro hnever
    have hclose := (neverFewerHits_iff hzero (hlarge 100 (by decide)) (hlarge 101 (by decide))
      rfl).2 (fun _ _ _ _ _ _ h => encodingRuntime_hash_injective h) hnever
    exact absurd hclose (by decide)
  · exact (neverFewerHits_iff hzero (hlarge 100 (by decide)) (hlarge 180 (by decide))
      rfl).1 (by decide)

end DualMap.Cache.PrefixKVCacheMgr
