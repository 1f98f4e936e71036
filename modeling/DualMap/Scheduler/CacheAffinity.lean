import DualMap.Cache.CacheHits
import DualMap.Scheduler.DoubleHashScheduler

/-!
# Cached Blocks and Recomputed Tokens

A replica turns the number of cached blocks of a prompt into the number of tokens to
recompute. A prompt that is cached up to its last token falls out of the strict comparison
there and counts as not cached at all. So a replica that holds a whole prompt looks worse
than one that holds a part of it, and `get_max_cache_hit_replica` passes it over.

Main results:
- `numRecomputeTokenIds_eq`: the recomputed tokens by what the replica holds;
- `moreCached_iff`: when more cached blocks never cost more tokens, for two replicas and for
  the choice among all.
-/

namespace DualMap.Scheduler

open Cache Cache.PrefixKVCacheMgr
open DoubleHashGlobalSchedulerUtils (getMaxCacheHitReplica)

variable {rt : Runtime}

/-! ## What a replica holds of a prompt -/

/-- A replica whose cache came about by some calls on a fresh one, with the block size that
all replicas are created with. -/
def ReachableReplica (blockSize : ℕ) (replica : Replica (PrefixKvCacheStore rt)) : Prop :=
  ∃ cacheEngine calls, cacheEngine.blockSize = blockSize ∧ replica.blockSize = blockSize ∧
    replica.cache.cacheMgr = afterCalls rt calls (init cacheEngine)

/-- `get_num_cached_blocks` on the cache of the replica. -/
def cachedBlocksOf (replica : Replica (PrefixKvCacheStore rt)) (promptTokenIds : List ℕ) : ℕ :=
  replica.cache.cacheMgr.getNumCachedBlocks rt promptTokenIds

/-- The cached blocks are the whole prompt: its length is a multiple of the block size. -/
def HoldsAll (blockSize : ℕ) (promptTokenIds : List ℕ)
    (replica : Replica (PrefixKvCacheStore rt)) : Prop :=
  cachedBlocksOf replica promptTokenIds * blockSize = promptTokenIds.length

/-- Some blocks are cached, but not the whole prompt. -/
def HoldsPart (blockSize : ℕ) (promptTokenIds : List ℕ)
    (replica : Replica (PrefixKvCacheStore rt)) : Prop :=
  0 < cachedBlocksOf replica promptTokenIds ∧
    cachedBlocksOf replica promptTokenIds * blockSize < promptTokenIds.length

instance (blockSize : ℕ) (promptTokenIds : List ℕ)
    (replica : Replica (PrefixKvCacheStore rt)) :
    Decidable (HoldsPart blockSize promptTokenIds replica) :=
  inferInstanceAs (Decidable (_ ∧ _))

theorem ReachableReplica.blockSize_pos {blockSize : ℕ}
    {replica : Replica (PrefixKvCacheStore rt)} (h : ReachableReplica blockSize replica) :
    0 < blockSize := by
  obtain ⟨cacheEngine, calls, rfl, -, -⟩ := h
  exact cacheEngine.blockSize_pos

/-- No more blocks are found than the prompt has. -/
theorem ReachableReplica.cached_le {blockSize : ℕ} {replica : Replica (PrefixKvCacheStore rt)}
    (h : ReachableReplica blockSize replica) (promptTokenIds : List ℕ) :
    cachedBlocksOf replica promptTokenIds * blockSize ≤ promptTokenIds.length := by
  obtain ⟨cacheEngine, calls, rfl, -, hcache⟩ := h
  have hengine : replica.cache.cacheMgr.cacheEngine = cacheEngine := by
    rw [hcache]
    exact (afterCalls_origin rt cacheEngine calls).1
  have hle : cachedBlocksOf replica promptTokenIds ≤
      promptTokenIds.length / cacheEngine.blockSize := by
    rw [← hengine, ← length_promptHashes rt]
    exact (List.takeWhile_prefix _).length_le
  exact (Nat.mul_le_mul_right _ hle).trans (Nat.div_mul_le_self _ _)

/-- Tokens are saved only when a part of the prompt is cached, and not all of it. -/
theorem numRecomputeTokenIds_eq {blockSize : ℕ} {replica : Replica (PrefixKvCacheStore rt)}
    (h : ReachableReplica blockSize replica) (promptTokenIds : List ℕ) :
    replica.numRecomputeTokenIds promptTokenIds =
      if HoldsPart blockSize promptTokenIds replica then
        (promptTokenIds.length : ℤ) - (cachedBlocksOf replica promptTokenIds * blockSize : ℕ)
      else (promptTokenIds.length : ℤ) := by
  have hpos := h.blockSize_pos
  obtain ⟨cacheEngine, calls, -, hblockSize, -⟩ := h
  have hdef : replica.numRecomputeTokenIds promptTokenIds = numRecomputeTokens
      (replica.cachedTokens (cachedBlocksOf replica promptTokenIds)) promptTokenIds := rfl
  rw [hdef, numRecomputeTokens, Replica.cachedTokens, hblockSize]
  rcases Nat.eq_zero_or_pos (cachedBlocksOf replica promptTokenIds) with hzero | hblocks
  · simp [HoldsPart, hzero]
  · -- the product is positive, so only the upper comparison decides
    have htokens : 0 < cachedBlocksOf replica promptTokenIds * blockSize :=
      Nat.mul_pos hblocks hpos
    have htest : ((cachedBlocksOf replica promptTokenIds * blockSize : ℕ) : ℤ) > 0 ∧
        ((cachedBlocksOf replica promptTokenIds * blockSize : ℕ) : ℤ) <
          promptTokenIds.length ↔ HoldsPart blockSize promptTokenIds replica := by
      unfold HoldsPart
      omega
    rw [if_pos hblocks, ← Nat.cast_mul]
    simp only [htest]

/-! ## Two replicas -/

/-- Of two replicas, the one with no fewer cached blocks recomputes no more tokens, unless it
holds the whole prompt and the other one a part. -/
theorem moreCached_pair_iff {blockSize : ℕ} {A B : Replica (PrefixKvCacheStore rt)}
    (hA : ReachableReplica blockSize A) (hB : ReachableReplica blockSize B)
    (promptTokenIds : List ℕ) :
    (cachedBlocksOf B promptTokenIds ≤ cachedBlocksOf A promptTokenIds →
        A.numRecomputeTokenIds promptTokenIds ≤ B.numRecomputeTokenIds promptTokenIds) ↔
      ¬ (HoldsAll blockSize promptTokenIds A ∧ HoldsPart blockSize promptTokenIds B) := by
  have hpos := hA.blockSize_pos
  have hAle := hA.cached_le promptTokenIds
  have hBle := hB.cached_le promptTokenIds
  have hmono : cachedBlocksOf B promptTokenIds ≤ cachedBlocksOf A promptTokenIds ↔
      cachedBlocksOf B promptTokenIds * blockSize ≤
        cachedBlocksOf A promptTokenIds * blockSize :=
    (Nat.mul_le_mul_right_iff hpos).symm
  have hAzero : 0 < cachedBlocksOf A promptTokenIds ↔
      0 < cachedBlocksOf A promptTokenIds * blockSize := (Nat.mul_pos_iff_of_pos_right hpos).symm
  have hBzero : 0 < cachedBlocksOf B promptTokenIds ↔
      0 < cachedBlocksOf B promptTokenIds * blockSize := (Nat.mul_pos_iff_of_pos_right hpos).symm
  rw [numRecomputeTokenIds_eq hA, numRecomputeTokenIds_eq hB, hmono]
  -- in tokens rather than blocks this is linear
  simp only [HoldsPart, HoldsAll, hAzero, hBzero]
  generalize cachedBlocksOf A promptTokenIds * blockSize = tokensA at *
  generalize cachedBlocksOf B promptTokenIds * blockSize = tokensB at *
  split_ifs <;> omega

/-! ## The choice among all replicas -/

/-- The hit length that `get_max_cache_hit_replica` compares. -/
def hitLength {n : ℕ} (w : World n (PrefixKvCacheStore rt)) (request : Request)
    (r : Fin n) : ℤ :=
  max 0 ((request.inputIds.length : ℤ) - w.recomputeLen r request)

/-- A replica that holds the whole prompt has a hit length of zero. -/
theorem hitLength_eq {n blockSize : ℕ} {w : World n (PrefixKvCacheStore rt)}
    {request : Request} {r : Fin n} (h : ReachableReplica blockSize (w.replicaBudgets r)) :
    hitLength w request r =
      if HoldsPart blockSize request.inputIds (w.replicaBudgets r) then
        ((cachedBlocksOf (w.replicaBudgets r) request.inputIds * blockSize : ℕ) : ℤ)
      else 0 := by
  have hle := h.cached_le request.inputIds
  rw [hitLength, World.recomputeLen, numRecomputeTokenIds_eq h]
  split_ifs <;> omega

/-- The chosen replica has the longest hit. -/
theorem getMaxCacheHitReplica_spec {n : ℕ} (w : World (n + 1) (PrefixKvCacheStore rt))
    (request : Request) :
    ∃ r, getMaxCacheHitReplica w request = some r ∧
      ∀ r', hitLength w request r' ≤ hitLength w request r := by
  have hsome : (getMaxCacheHitReplica w request).isSome :=
    List.isSome_maxOn?_iff.mpr (by simp [List.finRange_succ])
  refine ⟨_, (Option.some_get hsome).symm, ?_⟩
  intro r'
  exact List.le_apply_get_maxOn?_of_mem (f := hitLength w request) (List.mem_finRange r')

/-- When no replica has a longer hit than the first one, the first one is chosen. -/
theorem getMaxCacheHitReplica_zero {n : ℕ} {w : World (n + 1) (PrefixKvCacheStore rt)}
    {request : Request} (h : ∀ r, hitLength w request r ≤ hitLength w request 0) :
    getMaxCacheHitReplica w request = some 0 := by
  have hdef : getMaxCacheHitReplica w request =
      (0 :: (List.finRange n).map Fin.succ).maxOn? (hitLength w request) := by
    rw [← List.finRange_succ]
    rfl
  rw [hdef, List.maxOn?_cons]
  cases hrest : ((List.finRange n).map Fin.succ).maxOn? (hitLength w request) with
  | none => rfl
  | some r => exact congrArg some (maxOn_eq_left (h r))

/-- A replica that does not hold the whole prompt has the cached tokens as its hit length. -/
theorem hitLength_of_not_holdsAll {n blockSize : ℕ} {w : World n (PrefixKvCacheStore rt)}
    {request : Request} {r : Fin n} (h : ReachableReplica blockSize (w.replicaBudgets r))
    (hnot : ¬ HoldsAll blockSize request.inputIds (w.replicaBudgets r)) :
    hitLength w request r =
      ((cachedBlocksOf (w.replicaBudgets r) request.inputIds * blockSize : ℕ) : ℤ) := by
  rw [hitLength_eq h]
  split
  · rfl
  · next hpart =>
    have hzero : cachedBlocksOf (w.replicaBudgets r) request.inputIds = 0 ↔
        cachedBlocksOf (w.replicaBudgets r) request.inputIds * blockSize = 0 := by
      have hpos := h.blockSize_pos
      rw [Nat.mul_eq_zero]
      omega
    have hbound := h.cached_le request.inputIds
    unfold HoldsPart at hpart
    unfold HoldsAll at hnot
    omega

/-- When no replica holds only a part of the prompt, all hit lengths are zero, and among
equals the first replica is chosen. -/
theorem getMaxCacheHitReplica_of_not_holdsPart {n blockSize : ℕ}
    {w : World (n + 1) (PrefixKvCacheStore rt)} {request : Request}
    (hw : ∀ r, ReachableReplica blockSize (w.replicaBudgets r))
    (hnone : ∀ r, ¬ HoldsPart blockSize request.inputIds (w.replicaBudgets r)) :
    getMaxCacheHitReplica w request = some 0 := by
  apply getMaxCacheHitReplica_zero
  intro r
  rw [hitLength_eq (hw r), hitLength_eq (hw 0), if_neg (hnone r), if_neg (hnone 0)]

/-- The choice has the most cached blocks exactly when no replica holds the whole prompt, or
the first one does and no replica holds only a part of it. -/
theorem getMaxCacheHitReplica_iff {n blockSize : ℕ}
    {w : World (n + 1) (PrefixKvCacheStore rt)}
    (hw : ∀ r, ReachableReplica blockSize (w.replicaBudgets r)) (request : Request) :
    (∃ r, getMaxCacheHitReplica w request = some r ∧
        ∀ r', cachedBlocksOf (w.replicaBudgets r') request.inputIds ≤
          cachedBlocksOf (w.replicaBudgets r) request.inputIds) ↔
      (∀ r, ¬ HoldsAll blockSize request.inputIds (w.replicaBudgets r)) ∨
        HoldsAll blockSize request.inputIds (w.replicaBudgets 0) ∧
          ∀ r, ¬ HoldsPart blockSize request.inputIds (w.replicaBudgets r) := by
  have hpos := (hw 0).blockSize_pos
  have hmono : ∀ r r', cachedBlocksOf (w.replicaBudgets r') request.inputIds ≤
      cachedBlocksOf (w.replicaBudgets r) request.inputIds ↔
        cachedBlocksOf (w.replicaBudgets r') request.inputIds * blockSize ≤
          cachedBlocksOf (w.replicaBudgets r) request.inputIds * blockSize :=
    fun r r' => (Nat.mul_le_mul_right_iff hpos).symm
  obtain ⟨r, hchosen, hmax⟩ := getMaxCacheHitReplica_spec w request
  constructor
  · rintro ⟨r₀, hchosen₀, hmost⟩
    obtain rfl : r₀ = r := Option.some.inj (hchosen₀.symm.trans hchosen)
    by_cases hall : ∀ r, ¬ HoldsAll blockSize request.inputIds (w.replicaBudgets r)
    · exact Or.inl hall
    right
    -- some replica holds everything, so the chosen one does, with a hit length of zero
    obtain ⟨whole, hwhole⟩ := not_forall_not.mp hall
    have hr₀ : HoldsAll blockSize request.inputIds (w.replicaBudgets r₀) := by
      have hle := (hmono r₀ whole).mp (hmost whole)
      have hbound := (hw r₀).cached_le request.inputIds
      unfold HoldsAll at hwhole ⊢
      omega
    have hnone : ∀ r, ¬ HoldsPart blockSize request.inputIds (w.replicaBudgets r) := by
      intro r hpart
      have hle := hmax r
      have hnotpart : ¬ HoldsPart blockSize request.inputIds (w.replicaBudgets r₀) := by
        intro hpart₀
        exact absurd hr₀ hpart₀.2.ne
      have hpositive := Nat.mul_pos hpart.1 hpos
      rw [hitLength_eq (hw r), hitLength_eq (hw r₀), if_pos hpart, if_neg hnotpart] at hle
      omega
    refine ⟨?_, hnone⟩
    rw [getMaxCacheHitReplica_of_not_holdsPart hw hnone] at hchosen
    rw [Option.some.inj hchosen]
    exact hr₀
  · rintro (hall | ⟨hwhole, hnone⟩)
    · -- the hit length of every replica is what it has cached
      refine ⟨r, hchosen, ?_⟩
      intro r'
      have hle := hmax r'
      rw [hitLength_of_not_holdsAll (hw r') (hall r'),
        hitLength_of_not_holdsAll (hw r) (hall r)] at hle
      exact (hmono r r').mpr (by exact_mod_cast hle)
    · refine ⟨0, getMaxCacheHitReplica_of_not_holdsPart hw hnone, ?_⟩
      intro r'
      have hbound := (hw r').cached_le request.inputIds
      rw [hmono, hwhole]
      exact hbound

/-- More cached blocks cost no more tokens, and the choice has the most cached blocks, exactly
as long as no replica that holds the whole prompt meets one that holds a part of it. -/
theorem moreCached_iff (rt : Runtime) (blockSize : ℕ) :
    (∀ (A B : Replica (PrefixKvCacheStore rt)) (promptTokenIds : List ℕ),
      ReachableReplica blockSize A → ReachableReplica blockSize B →
      ((cachedBlocksOf B promptTokenIds ≤ cachedBlocksOf A promptTokenIds →
          A.numRecomputeTokenIds promptTokenIds ≤ B.numRecomputeTokenIds promptTokenIds) ↔
        ¬ (HoldsAll blockSize promptTokenIds A ∧ HoldsPart blockSize promptTokenIds B))) ∧
    ∀ (n : ℕ) (w : World (n + 1) (PrefixKvCacheStore rt)) (request : Request),
      (∀ r, ReachableReplica blockSize (w.replicaBudgets r)) →
      ((∃ r, getMaxCacheHitReplica w request = some r ∧
          ∀ r', cachedBlocksOf (w.replicaBudgets r') request.inputIds ≤
            cachedBlocksOf (w.replicaBudgets r) request.inputIds) ↔
        (∀ r, ¬ HoldsAll blockSize request.inputIds (w.replicaBudgets r)) ∨
          HoldsAll blockSize request.inputIds (w.replicaBudgets 0) ∧
            ∀ r, ¬ HoldsPart blockSize request.inputIds (w.replicaBudgets r)) :=
  ⟨fun _ _ promptTokenIds hA hB => moreCached_pair_iff hA hB promptTokenIds,
    fun _ _ request hw => getMaxCacheHitReplica_iff hw request⟩

/-! ## A whole prompt against its first half -/

/-- A replica with blocks of one token, after some calls on its cache. -/
def replicaAfter (calls : List Call) : Replica (PrefixKvCacheStore encodingRuntime) :=
  Replica.init 200 1 ⟨afterCalls encodingRuntime calls (init smallEngine)⟩

theorem replicaAfter_reachable (calls : List Call) :
    ReachableReplica 1 (replicaAfter calls) := ⟨smallEngine, calls, rfl, rfl, rfl⟩

/-- The first replica has saved the two tokens of the request, the second one the first
token. -/
def halfCached : World 2 (PrefixKvCacheStore encodingRuntime) :=
  .init (fun r => if r.val = 0 then replicaAfter [.save [1, 2]] else replicaAfter [.save [1]])
    (fun request => { actualNumPrefillTokens := request.numPrefillTokens })

/-- A request of two tokens. -/
def twoTokenRequest : Request where
  id := 0
  hashSessionId := "s"
  inputIds := [1, 2]
  numPrefillTokens := 2
  outputLen := 1
  arrivedAt := 0

theorem halfCached_reachable (r : Fin 2) :
    ReachableReplica 1 (halfCached.replicaBudgets r) := by
  simp only [halfCached, World.init]
  split <;> exact replicaAfter_reachable _

theorem moreCached_iff_halfCached :
    ((cachedBlocksOf (halfCached.replicaBudgets 0) [1, 2] ≤
        cachedBlocksOf (halfCached.replicaBudgets 1) [1, 2] →
      (halfCached.replicaBudgets 1).numRecomputeTokenIds [1, 2] ≤
        (halfCached.replicaBudgets 0).numRecomputeTokenIds [1, 2]) ↔
      ¬ (HoldsAll 1 [1, 2] (halfCached.replicaBudgets 1) ∧
        HoldsPart 1 [1, 2] (halfCached.replicaBudgets 0))) ∧
    ((∃ r, getMaxCacheHitReplica halfCached twoTokenRequest = some r ∧
        ∀ r', cachedBlocksOf (halfCached.replicaBudgets r') twoTokenRequest.inputIds ≤
          cachedBlocksOf (halfCached.replicaBudgets r) twoTokenRequest.inputIds) ↔
      (∀ r, ¬ HoldsAll 1 twoTokenRequest.inputIds (halfCached.replicaBudgets r)) ∨
        HoldsAll 1 twoTokenRequest.inputIds (halfCached.replicaBudgets 0) ∧
          ∀ r, ¬ HoldsPart 1 twoTokenRequest.inputIds (halfCached.replicaBudgets r)) :=
  ⟨(moreCached_iff encodingRuntime 1).1 _ _ [1, 2] (halfCached_reachable 1)
      (halfCached_reachable 0),
    (moreCached_iff encodingRuntime 1).2 1 halfCached twoTokenRequest halfCached_reachable⟩

/-- The replica with both blocks recomputes two tokens, the one with a single block only one,
and that one is chosen. -/
theorem not_moreCached :
    (¬ ∀ (rt : Runtime) (blockSize : ℕ) (A B : Replica (PrefixKvCacheStore rt))
      (promptTokenIds : List ℕ), promptTokenIds ≠ [] →
      ReachableReplica blockSize A → ReachableReplica blockSize B →
      cachedBlocksOf B promptTokenIds ≤ cachedBlocksOf A promptTokenIds →
      A.numRecomputeTokenIds promptTokenIds ≤ B.numRecomputeTokenIds promptTokenIds) ∧
    ¬ ∀ (rt : Runtime) (blockSize n : ℕ) (w : World (n + 1) (PrefixKvCacheStore rt))
      (request : Request), request.inputIds ≠ [] →
      (∀ r, ReachableReplica blockSize (w.replicaBudgets r)) →
      ∃ r, getMaxCacheHitReplica w request = some r ∧
        ∀ r', cachedBlocksOf (w.replicaBudgets r') request.inputIds ≤
          cachedBlocksOf (w.replicaBudgets r) request.inputIds := by
  have hwhole : HoldsAll 1 [1, 2] (halfCached.replicaBudgets 0) := by
    unfold HoldsAll
    decide +kernel
  have hpart : HoldsPart 1 [1, 2] (halfCached.replicaBudgets 1) := by decide +kernel
  constructor
  -- the replica that holds the whole prompt is charged for all of it, the other for a part
  · intro hclaim
    have hpair := hclaim encodingRuntime 1 (halfCached.replicaBudgets 0)
      (halfCached.replicaBudgets 1) [1, 2] (by decide) (halfCached_reachable 0)
      (halfCached_reachable 1)
    exact (moreCached_pair_iff (halfCached_reachable 0) (halfCached_reachable 1) [1, 2]).mp
      hpair ⟨hwhole, hpart⟩
  · intro hclaim
    have hchoice := hclaim encodingRuntime 1 1 halfCached twoTokenRequest (by decide)
      halfCached_reachable
    rcases (getMaxCacheHitReplica_iff halfCached_reachable twoTokenRequest).mp hchoice with
      hnot | ⟨-, hnot⟩
    · exact hnot 0 hwhole
    · exact hnot 1 hpart

end DualMap.Scheduler
