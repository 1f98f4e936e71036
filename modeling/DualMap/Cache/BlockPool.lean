import DualMap.Cache.Integrity
import Mathlib.Data.Finset.Lattice.Basic
import Mathlib.Data.Finset.Max
import Mathlib.Logic.Encodable.Basic
import Mathlib.Logic.Equiv.List

/-!
# Runs of the Prefix KV-Cache

Sequences of `save`, `save_prefill` and `get_num_cached_blocks` on one manager. From 100
blocks on, every such sequence keeps the block pool intact. A smaller pool never reclaims:
it stays intact exactly as long as the different blocks saved so far fit into it.

Main results:
- `saveLoop_refines`: a save touches the blocks of its prompt in the abstract LRU order;
- `intact_iff`: when a sequence of calls keeps the pool intact.
-/

namespace DualMap.Cache.PrefixKVCacheMgr

open BatchLru

/-! ## Calls and runs -/

/-- The calls that the replica makes on its cache. -/
inductive Call where
  | save (promptTokenIds : List ℕ)
  | savePrefill (requestId : ℕ) (promptTokenIds : List ℕ)
  | getNumCachedBlocks (promptTokenIds : List ℕ)

/-- One call, with the number it returns. -/
def Call.run (rt : Runtime) : Call → Py PrefixKVCacheMgr ℕ
  | .save promptTokenIds => PrefixKVCacheMgr.save rt promptTokenIds
  | .savePrefill requestId promptTokenIds =>
    PrefixKVCacheMgr.savePrefill rt requestId promptTokenIds
  | .getNumCachedBlocks promptTokenIds => do
    let m ← get
    pure (PrefixKVCacheMgr.getNumCachedBlocks rt m promptTokenIds)

/-- Calls one after the other, up to the first one that faults. -/
def runCalls (rt : Runtime) : List Call → Py PrefixKVCacheMgr Unit
  | [] => pure ()
  | call :: rest => do
    let _ ← call.run rt
    runCalls rt rest

/-- No call faults, and after each one the pool is intact. -/
def Intact (rt : Runtime) : PrefixKVCacheMgr → List Call → Prop
  | _, [] => True
  | m, call :: rest => ∃ num m', call.run rt m = .ok num m' ∧ Integrity m' ∧ Intact rt m' rest

/-- The block hashes that a call saves. -/
def Call.savedHashes (rt : Runtime) (blockSize : ℕ) : Call → List ℤ
  | .save promptTokenIds => promptHashes rt blockSize promptTokenIds
  | .savePrefill _ promptTokenIds => promptHashes rt blockSize promptTokenIds
  | .getNumCachedBlocks _ => []

/-! ## Block hashes -/

theorem blockHashes_truthy {rt : Runtime}
    (hzero : ∀ isFirstBlock prevBlockHash tokens, rt.hash isFirstBlock prevBlockHash tokens ≠ 0)
    (prevBlockHash : Option ℤ) (blocks : List (List ℕ)) :
    ∀ blockHash ∈ blockHashes rt prevBlockHash blocks, blockHash ≠ 0 := by
  induction blocks generalizing prevBlockHash with
  | nil => simp [blockHashes]
  | cons tokens blocks ih =>
    intro blockHash hmem
    -- the hash of this block, or one further down the chain
    rcases List.mem_cons.mp hmem with rfl | hmem
    · exact hzero _ _ _
    · exact ih _ blockHash hmem

theorem length_blockHashes (rt : Runtime) (prevBlockHash : Option ℤ)
    (blocks : List (List ℕ)) : (blockHashes rt prevBlockHash blocks).length = blocks.length := by
  induction blocks generalizing prevBlockHash with
  | nil => rfl
  | cons tokens blocks ih => simp [blockHashes, ih]

theorem length_promptHashes (rt : Runtime) (blockSize : ℕ) (promptTokenIds : List ℕ) :
    (promptHashes rt blockSize promptTokenIds).length = promptTokenIds.length / blockSize := by
  simp [promptHashes, length_blockHashes, promptBlocks]

theorem savedHashes_truthy {rt : Runtime}
    (hzero : ∀ isFirstBlock prevBlockHash tokens, rt.hash isFirstBlock prevBlockHash tokens ≠ 0)
    (blockSize : ℕ) (call : Call) :
    ∀ blockHash ∈ call.savedHashes rt blockSize, blockHash ≠ 0 := by
  cases call with
  | save promptTokenIds => exact blockHashes_truthy hzero none _
  | savePrefill requestId promptTokenIds => exact blockHashes_truthy hzero none _
  | getNumCachedBlocks promptTokenIds => simp [Call.savedHashes]

/-! ## One save -/

/-- The blocks fit: the pool is large enough to reclaim, or they and the cached ones are
together no more than the pool holds. -/
def Fits (m : PrefixKVCacheMgr) (hashes : List ℤ) : Prop :=
  100 ≤ m.cacheEngine.numBlocks ∨
    (m.recency ++ hashes).toFinset.card ≤ m.cacheEngine.numBlocks

instance (m : PrefixKVCacheMgr) (hashes : List ℤ) : Decidable (Fits m hashes) :=
  inferInstanceAs (Decidable (_ ∨ _))

theorem policy_watermark_eq_zero {cacheEngine : KvCacheEngine}
    (h : cacheEngine.numBlocks < 100) : (policy cacheEngine).watermark = 0 :=
  Nat.div_eq_of_lt h

/-- A new block that fits finds a free block, now or by a reclaim. -/
theorem Fits.room {m : PrefixKVCacheMgr} {blockHash : ℤ} {hashes : List ℤ}
    (hfits : Fits m (blockHash :: hashes)) :
    blockHash ∈ m.recency ∨ m.recency.length < m.cacheEngine.numBlocks ∨
      100 ≤ m.cacheEngine.numBlocks := by
  rcases hfits with hlarge | hcard
  · exact Or.inr (Or.inr hlarge)
  · by_cases hmem : blockHash ∈ m.recency
    · exact Or.inl hmem
    · -- the new hash and the cached ones are already one more than the cached ones
      have hsub : insert blockHash m.recency.toFinset ⊆
          (m.recency ++ blockHash :: hashes).toFinset := by
        intro x hx
        simp only [Finset.mem_insert, List.mem_toFinset, List.mem_append, List.mem_cons] at hx ⊢
        tauto
      have hle := Finset.card_le_card hsub
      rw [Finset.card_insert_of_notMem (by simpa using hmem),
        List.toFinset_card_of_nodup m.recency_nodup] at hle
      refine Or.inr (Or.inl ?_)
      omega

/-- The recency list and the blocks still to save cover the same hashes before and after
one block is touched, when no reclaim can fire. -/
theorem toFinset_touch_append {p : Policy} (hp : p.watermark = 0) (order : List ℤ)
    (blockHash : ℤ) (hashes : List ℤ) :
    (touch p order blockHash ++ hashes).toFinset = (order ++ blockHash :: hashes).toFinset := by
  ext x
  simp only [List.mem_toFinset, List.mem_append, List.mem_cons,
    mem_touch_of_watermark_eq_zero p hp]
  tauto

theorem Fits.next {m m' : PrefixKVCacheMgr} {blockHash : ℤ} {hashes : List ℤ}
    (hrec : m'.recency = touch (policy m.cacheEngine) m.recency blockHash)
    (hengine : m'.cacheEngine = m.cacheEngine) :
    Fits m' hashes ↔ Fits m (blockHash :: hashes) := by
  unfold Fits
  rw [hengine, hrec]
  -- a large pool always fits; a small one never evicts, so a touch only adds the hash
  by_cases hlarge : 100 ≤ m.cacheEngine.numBlocks
  · simp [hlarge]
  · rw [toFinset_touch_append (policy_watermark_eq_zero (by omega))]

/-- A save whose blocks fit touches them one after the other. -/
theorem saveLoop_refines (rt : Runtime) (hashes : List ℤ) {m : PrefixKVCacheMgr}
    (hm : WellFormed m) (htruthy : ∀ blockHash ∈ hashes, blockHash ≠ 0)
    (hfits : Fits m hashes) :
    ∃ saved m', saveLoop rt hashes m = .ok saved m' ∧ WellFormed m' ∧
      m'.recency = touchAll (policy m.cacheEngine) m.recency hashes ∧
      m'.cacheEngine = m.cacheEngine := by
  -- induction on the blocks to save; what still has to fit shrinks with them
  induction hashes generalizing m with
  | nil => exact ⟨0, m, rfl, hm, rfl, rfl⟩
  | cons blockHash hashes ih =>
    obtain ⟨saved, m₁, hrun₁, hwf₁, hrec₁, hengine₁⟩ :=
      saveBlock_refines rt hm (htruthy blockHash (List.mem_cons_self ..)) hfits.room
    obtain ⟨rest, m₂, hrun₂, hwf₂, hrec₂, hengine₂⟩ :=
      ih hwf₁ (fun h hmem => htruthy h (List.mem_cons_of_mem _ hmem))
        ((Fits.next hrec₁ hengine₁).mpr hfits)
    refine ⟨saved + rest, m₂, ?_, hwf₂, ?_, hengine₂.trans hengine₁⟩
    · rw [saveLoop, Py.bind_ok hrun₁, Py.bind_ok hrun₂, Py.pure_apply]
    · rw [hrec₂, hengine₁, hrec₁, touchAll_cons]

/-- A save whose blocks do not fit raises. -/
theorem saveLoop_exhausted (rt : Runtime) (hashes : List ℤ) {m : PrefixKVCacheMgr}
    (hm : WellFormed m) (htruthy : ∀ blockHash ∈ hashes, blockHash ≠ 0)
    (hfits : ¬ Fits m hashes) :
    ∃ m', saveLoop rt hashes m = .error (.exception .keyError) m' := by
  induction hashes generalizing m with
  | nil =>
    -- what is cached always fits
    exfalso
    apply hfits
    right
    rw [List.append_nil, List.toFinset_card_of_nodup m.recency_nodup]
    exact hm.length_recency_le
  | cons blockHash hashes ih =>
    have hsmall : m.cacheEngine.numBlocks < 100 := by
      by_contra hlarge
      exact hfits (Or.inl (by omega))
    by_cases hroom : blockHash ∈ m.recency ∨ m.recency.length < m.cacheEngine.numBlocks
    · -- this block is saved, one of the later ones raises
      obtain ⟨saved, m₁, hrun₁, hwf₁, hrec₁, hengine₁⟩ :=
        saveBlock_refines rt hm (htruthy blockHash (List.mem_cons_self ..))
          (hroom.imp_right Or.inl)
      obtain ⟨m₂, hrun₂⟩ := ih hwf₁ (fun h hmem => htruthy h (List.mem_cons_of_mem _ hmem))
        (fun h => hfits ((Fits.next hrec₁ hengine₁).mp h))
      refine ⟨m₂, ?_⟩
      rw [saveLoop, Py.bind_ok hrun₁, Py.bind_error hrun₂]
    -- the pool is full and this block is new
    · rw [not_or] at hroom
      have hfull : m.recency.length = m.cacheEngine.numBlocks := by
        have := hm.length_recency_le
        omega
      obtain ⟨m', hrun⟩ := saveBlock_exhausted rt hm hroom.1 hfull hsmall
      refine ⟨m', ?_⟩
      rw [saveLoop, Py.bind_error hrun]

/-! ## One call -/

theorem Call.run_eq (rt : Runtime) (call : Call) (m : PrefixKVCacheMgr) :
    (∃ promptTokenIds, call = .getNumCachedBlocks promptTokenIds ∧
      call.run rt m = .ok (PrefixKVCacheMgr.getNumCachedBlocks rt m promptTokenIds) m) ∨
    call.run rt m = saveLoop rt (call.savedHashes rt m.cacheEngine.blockSize) m := by
  cases call with
  | save promptTokenIds => exact Or.inr rfl
  | savePrefill requestId promptTokenIds => exact Or.inr rfl
  | getNumCachedBlocks promptTokenIds => exact Or.inl ⟨promptTokenIds, rfl, rfl⟩

/-- A call whose blocks fit returns and touches them. -/
theorem Call.run_refines {rt : Runtime}
    (hzero : ∀ isFirstBlock prevBlockHash tokens, rt.hash isFirstBlock prevBlockHash tokens ≠ 0)
    (call : Call) {m : PrefixKVCacheMgr} (hm : WellFormed m)
    (hfits : Fits m (call.savedHashes rt m.cacheEngine.blockSize)) :
    ∃ num m', call.run rt m = .ok num m' ∧ WellFormed m' ∧
      m'.recency = touchAll (policy m.cacheEngine) m.recency
        (call.savedHashes rt m.cacheEngine.blockSize) ∧
      m'.cacheEngine = m.cacheEngine := by
  rcases call.run_eq rt m with ⟨promptTokenIds, rfl, hrun⟩ | hrun
  · exact ⟨_, m, hrun, hm, rfl, rfl⟩
  · rw [hrun]
    exact saveLoop_refines rt _ hm (savedHashes_truthy hzero _ call) hfits

theorem Call.run_exhausted {rt : Runtime}
    (hzero : ∀ isFirstBlock prevBlockHash tokens, rt.hash isFirstBlock prevBlockHash tokens ≠ 0)
    (call : Call) {m : PrefixKVCacheMgr} (hm : WellFormed m)
    (hfits : ¬ Fits m (call.savedHashes rt m.cacheEngine.blockSize)) :
    ∃ m', call.run rt m = .error (.exception .keyError) m' := by
  rcases call.run_eq rt m with ⟨promptTokenIds, rfl, -⟩ | hrun
  · -- a lookup saves nothing, and nothing always fits
    exact absurd (saveLoop_exhausted rt [] hm (by simp) hfits) (by simp [saveLoop])
  · rw [hrun]
    exact saveLoop_exhausted rt _ hm (savedHashes_truthy hzero _ call) hfits

/-! ## Runs of calls -/

/-- The block hashes that a list of calls saves. -/
def savedHashes (rt : Runtime) (blockSize : ℕ) (calls : List Call) : List ℤ :=
  calls.flatMap (Call.savedHashes rt blockSize)

/-- The first blocks fit when all of them do. -/
theorem Fits.left {m : PrefixKVCacheMgr} {hashes more : List ℤ}
    (hfits : Fits m (hashes ++ more)) : Fits m hashes := by
  refine hfits.imp_right (fun hcard => le_trans (Finset.card_le_card ?_) hcard)
  intro x hx
  simp only [List.mem_toFinset, List.mem_append] at hx ⊢
  tauto

theorem Fits.nextAll {m m' : PrefixKVCacheMgr} {hashes more : List ℤ}
    (hrec : m'.recency = touchAll (policy m.cacheEngine) m.recency hashes)
    (hengine : m'.cacheEngine = m.cacheEngine) :
    Fits m' more ↔ Fits m (hashes ++ more) := by
  unfold Fits
  rw [hengine, hrec]
  by_cases hlarge : 100 ≤ m.cacheEngine.numBlocks
  · simp [hlarge]
  · have hzero : (policy m.cacheEngine).watermark = 0 := policy_watermark_eq_zero (by omega)
    have hcover : (touchAll (policy m.cacheEngine) m.recency hashes ++ more).toFinset =
        (m.recency ++ (hashes ++ more)).toFinset := by
      ext x
      simp only [List.mem_toFinset, List.mem_append, mem_touchAll_of_watermark_eq_zero _ hzero]
      tauto
    rw [hcover]

/-- From a well-formed pool, the calls keep it intact exactly when all their blocks fit. -/
theorem intact_iff_fits {rt : Runtime}
    (hzero : ∀ isFirstBlock prevBlockHash tokens, rt.hash isFirstBlock prevBlockHash tokens ≠ 0)
    (calls : List Call) {m : PrefixKVCacheMgr} (hm : WellFormed m) :
    Intact rt m calls ↔ Fits m (savedHashes rt m.cacheEngine.blockSize calls) := by
  induction calls generalizing m with
  | nil =>
    refine iff_of_true trivial (Or.inr ?_)
    rw [savedHashes, List.flatMap_nil, List.append_nil,
      List.toFinset_card_of_nodup m.recency_nodup]
    exact hm.length_recency_le
  | cons call calls ih =>
    have hsplit : savedHashes rt m.cacheEngine.blockSize (call :: calls) =
        call.savedHashes rt m.cacheEngine.blockSize ++
          savedHashes rt m.cacheEngine.blockSize calls := List.flatMap_cons
    rw [hsplit]
    -- either this call returns and the rest decides, or it faults and nothing can fit
    by_cases hfits : Fits m (call.savedHashes rt m.cacheEngine.blockSize)
    · obtain ⟨num, m', hrun, hwf, hrec, hengine⟩ := call.run_refines hzero hm hfits
      have hrest := ih hwf
      rw [hengine, Fits.nextAll hrec hengine] at hrest
      constructor
      -- the state that the run names is the one this call leads to
      · rintro ⟨num', m'', hrun', -, hintact⟩
        rw [hrun] at hrun'
        obtain ⟨rfl, rfl⟩ := EStateM.Result.ok.inj hrun'
        exact hrest.mp hintact
      · intro hall
        exact ⟨num, m', hrun, hwf.toIntegrity, hrest.mpr hall⟩
    · obtain ⟨m', hrun⟩ := call.run_exhausted hzero hm hfits
      constructor
      · rintro ⟨num', m'', hrun', -, -⟩
        rw [hrun] at hrun'
        cases hrun'
      · intro hall
        exact absurd hall.left hfits

/-- A sequence of calls on a fresh manager keeps the pool intact, without a fault, exactly
when the pool has at least 100 blocks or the different blocks of all saved prompts fit. -/
theorem intact_iff {rt : Runtime}
    (hzero : ∀ isFirstBlock prevBlockHash tokens, rt.hash isFirstBlock prevBlockHash tokens ≠ 0)
    (cacheEngine : KvCacheEngine) (calls : List Call) :
    Intact rt (init cacheEngine) calls ↔
      100 ≤ cacheEngine.numBlocks ∨
        (savedHashes rt cacheEngine.blockSize calls).toFinset.card ≤ cacheEngine.numBlocks :=
  intact_iff_fits hzero calls (init_wellFormed cacheEngine)

/-! ## A concrete runtime -/

/-- A runtime whose hash encodes its argument, so that different arguments have different
hashes, and whose sets yield their least element first. -/
def encodingRuntime : Runtime where
  hash isFirstBlock prevBlockHash curBlockTokenIds :=
    (Encodable.encode (isFirstBlock, prevBlockHash, curBlockTokenIds) : ℕ) + 1
  nextIter s := if h : s.Nonempty then s.min' h else 0
  nextIter_mem s h := by
    rw [dif_pos h]
    exact s.min'_mem h

theorem encodingRuntime_hash_ne_zero (isFirstBlock : Bool) (prevBlockHash : Option ℤ)
    (tokens : List ℕ) : encodingRuntime.hash isFirstBlock prevBlockHash tokens ≠ 0 := by
  simp only [encodingRuntime]
  omega

theorem encodingRuntime_hash_injective {isFirstBlock isFirstBlock' : Bool}
    {prevBlockHash prevBlockHash' : Option ℤ} {tokens tokens' : List ℕ}
    (h : encodingRuntime.hash isFirstBlock prevBlockHash tokens =
      encodingRuntime.hash isFirstBlock' prevBlockHash' tokens') :
    isFirstBlock = isFirstBlock' ∧ prevBlockHash = prevBlockHash' ∧ tokens = tokens' := by
  simp only [encodingRuntime, add_left_inj, Nat.cast_inj] at h
  have htriple := Encodable.encode_injective h
  simpa using htriple

/-- A cache of a single block of one token. -/
def singleBlockEngine : KvCacheEngine := ⟨1, 1, 1, Nat.one_pos⟩

/-- The second save finds the block that the first one made, so the pool of one block is
enough. -/
theorem intact_iff_singleBlock :
    Intact encodingRuntime (init singleBlockEngine) [.save [1], .savePrefill 0 [1]] ↔
      100 ≤ singleBlockEngine.numBlocks ∨
        (savedHashes encodingRuntime singleBlockEngine.blockSize
          [.save [1], .savePrefill 0 [1]]).toFinset.card ≤ singleBlockEngine.numBlocks :=
  intact_iff encodingRuntime_hash_ne_zero singleBlockEngine _

/-- A second, different block finds the only block taken: its save raises. -/
theorem singleBlock_not_intact :
    ¬ Intact encodingRuntime (init singleBlockEngine) [.save [1], .save [2]] := by
  rw [intact_iff_fits encodingRuntime_hash_ne_zero _ (init_wellFormed singleBlockEngine)]
  decide +kernel

end DualMap.Cache.PrefixKVCacheMgr
