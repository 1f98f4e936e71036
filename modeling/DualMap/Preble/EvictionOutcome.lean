import DualMap.Preble.AllocatedSize
import DualMap.Preble.EvictionVictims
import Mathlib.Data.List.TakeWhile
import Mathlib.Tactic.Linarith

/-!
# What an Eviction Achieves

As long as no assertion has failed before, `handle_cache_eviction_for_gpu` returns. It brings
the size of the replica down to the limit, or else evicts every node that is not in use. It
takes no node in use, stops as soon as the excess is gone, and leaves the other replicas
alone.
-/

namespace DualMap.Preble.LPRadixCache

variable {n : ℕ} {rt : Runtime n} {c : LPRadixCache n} {gpu : Fin n}

/-! ## Calls without a failed assertion -/

/-- The caches that calls lead to as long as no assertion fails: nothing is taken off that was
never counted. Only a node of the tree can be counted, and every call may have limits of its
own. -/
inductive SafelyReached (rt : Runtime n) : LPRadixCache n → Prop
  | init : SafelyReached rt (init rt)
  | call {c : LPRadixCache n} (h : SafelyReached rt c) (maxTokensForGpuList : Fin n → ℚ)
      (call : CacheCall n)
      (hnode : ∀ node gpu, call = .updateCacheMetadada node gpu → node ∈ c.allNodes)
      (hassert : ∀ s, call.perform rt maxTokensForGpuList c ≠
        .error (.exception .assertionError) s) :
      SafelyReached rt (Py.finalState (call.perform rt maxTokensForGpuList c))

/-- What these calls keep. -/
structure Consistent (c : LPRadixCache n) : Prop where
  exact : c.Exact
  ranked : Ranked c

/-- The assertion on the counts is what keeps them above zero. -/
theorem removeCompletedInputIds_ranked (rt : Runtime n) (inputIds : List ℕ) (gpu : Fin n)
    (h : Consistent c) :
    (∃ s, removeCompletedInputIds rt inputIds gpu c = .error (.exception .assertionError) s) ∨
      Ranked (Py.finalState (removeCompletedInputIds rt inputIds gpu c)) := by
  obtain ⟨σ, hc⟩ := h.exact.1
  obtain ⟨found, c₁, hfind, hvisit, -⟩ := findNode_spec rt hc inputIds
  have h₁ : Ranked c₁ := h.ranked.congr hvisit.allNodes hvisit.numUncompleted
  rw [removeCompletedInputIds, Py.bind_ok hfind]
  -- a prompt that is not in the tree changes nothing
  cases found with
  | none => exact .inr h₁
  | some node =>
    rw [decNumUncompletedRequestForGpu, Py.ofOption_some, pure_bind,
      Py.bind_ok (Py.get_apply c₁)]
    refine Py.KeepsUnless.forM (fun m hm s hs => ?_) c₁ h₁
    have hroot : m ≠ rootNode := by simpa using List.mem_takeWhile_imp hm
    have hmodify : modifyNode m (fun x => { x with
        numUncompletedRequestForGpuMap := Function.update x.numUncompletedRequestForGpuMap gpu
          (x.numUncompletedRequestForGpuMap gpu - 1) }) s = .ok () (discountOne gpu s m) := rfl
    rw [Py.bind_ok hmodify, Py.bind_ok (Py.get_apply _)]
    -- one turn: it keeps the ranks, or its assertion ends the call
    by_cases hassert : 0 ≤ ((discountOne gpu s m).nodes m).numUncompletedRequestForGpuMap gpu
    · rw [Py.assert_pos hassert]
      exact .inr (discountOne_ranked hroot hs hassert)
    · exact .inl ⟨discountOne gpu s m, by rw [Py.assert, if_neg hassert]; rfl⟩

theorem CacheCall.perform_consistent (maxTokensForGpuList : Fin n → ℚ) (call : CacheCall n)
    (h : Consistent c)
    (hnode : ∀ node gpu, call = .updateCacheMetadada node gpu → node ∈ c.allNodes)
    (hassert : ∀ s, call.perform rt maxTokensForGpuList c ≠
      .error (.exception .assertionError) s) :
    Consistent (Py.finalState (call.perform rt maxTokensForGpuList c)) := by
  obtain ⟨σ, hc⟩ := h.exact.1
  -- only a completion can fail, and the hypothesis excludes that
  cases call with
  | insert key =>
    refine ⟨insert_exact rt key h.exact, ?_⟩
    obtain ⟨leaf, splits, c₁, σ₁, hinsert, hins⟩ := insert_spec rt hc key
    rw [CacheCall.perform, Py.bind_ok hinsert]
    exact hins.grows.ranked hc h.ranked
  | updateCacheMetadada node gpu =>
    have hnode := hnode node gpu rfl
    refine ⟨updateCacheMetadada_exact hnode gpu h.exact, ?_⟩
    rw [CacheCall.perform, updateCacheMetadada_eq]
    exact (counted_foldl (hc.ancestors_nodup hnode) gpu c).ranked hc hnode h.ranked
  | removeCompletedInputIds inputIds gpu =>
    refine ⟨removeCompletedInputIds_exact rt inputIds gpu h.exact, ?_⟩
    rcases removeCompletedInputIds_ranked rt inputIds gpu h with ⟨s, hfail⟩ | hranked
    · exact absurd hfail (hassert s)
    · exact hranked
  | handleCacheEvictionForGpu gpu =>
    refine ⟨handleCacheEvictionForGpu_exact _ gpu h.exact, ?_⟩
    obtain ⟨c₁, hevict, hev, -⟩ :=
      handleCacheEvictionForGpu_spec maxTokensForGpuList hc (h.exact.2 gpu)
    rw [CacheCall.perform, hevict]
    exact h.ranked.congr hev.allNodes hev.numUncompleted

theorem SafelyReached.consistent (h : SafelyReached rt c) : Consistent c := by
  induction h with
  | init => exact ⟨⟨⟨_, init_wellFormed rt⟩, init_exactOn rt⟩, init_ranked rt⟩
  | call _ _ call hnode hassert ih => exact call.perform_consistent _ ih hnode hassert

/-! ## Main results -/

/-- What an eviction on the replica, with these victims in this order, has done. -/
structure EvictionOutcome (c c' : LPRadixCache n) (maxTokensForGpuList : Fin n → ℚ)
    (gpu : Fin n) (victims : List ℕ) : Prop where
  /-- The victims are what is no longer cached. -/
  evicted : ∀ m, m ∈ victims ↔
    (c.nodes m).hasCachedGpu gpu ∧ ¬ (c'.nodes m).hasCachedGpu gpu
  /-- The size is within the limit, or all that is left is in use. -/
  enough : (c'.allocatedSizeForGpu gpu : ℚ) ≤ maxTokensForGpuList gpu ∨
    ∀ m ∈ c'.allNodes, m ≠ rootNode → (c'.nodes m).hasCachedGpu gpu →
      0 < (c'.nodes m).numUncompletedRequestForGpuMap gpu
  /-- No victim was in use. -/
  unused : ∀ m ∈ victims, ¬ 0 < (c.nodes m).numUncompletedRequestForGpuMap gpu
  /-- Without the last victim the excess was not gone. -/
  needed : victims ≠ [] → (victims.dropLast.map c.evictedTokens).sum <
    c.allocatedSizeForGpu gpu - maxTokensForGpuList gpu
  /-- The other replicas are left alone. -/
  others : ∀ gpu' ≠ gpu, c'.allocatedSizeForGpu gpu' = c.allocatedSizeForGpu gpu' ∧
    ∀ m, (gpu' ∈ (c'.nodes m).cachedGpus ↔ gpu' ∈ (c.nodes m).cachedGpus) ∧
      (gpu' ∈ (c'.nodes m).evictedGpus ↔ gpu' ∈ (c.nodes m).evictedGpus)

/-- An eviction returns with the outcome above, and its victims are those of the loop in the
order in which the loop takes them. -/
theorem handleCacheEvictionForGpu_outcome (h : SafelyReached rt c)
    (maxTokensForGpuList : Fin n → ℚ) (gpu : Fin n) :
    ∃ c', handleCacheEvictionForGpu maxTokensForGpuList gpu c = .ok () c' ∧
      EvictionOutcome c c' maxTokensForGpuList gpu
        (c.handlerVictims maxTokensForGpuList gpu) := by
  obtain ⟨⟨⟨σ, hc⟩, hexact⟩, hranked⟩ := h.consistent
  obtain ⟨c', hrun, hev, -, heq⟩ :=
    handleCacheEvictionForGpu_spec maxTokensForGpuList hc (hexact gpu)
  have hdrains := handlerVictims_drains maxTokensForGpuList hc hranked (hexact gpu)
  generalize c.handlerVictims maxTokensForGpuList gpu = victims at hdrains heq ⊢
  have hnodes (m : ℕ) : c'.nodes m =
      if m ∈ victims then (c.nodes m).evictedFrom gpu else c.nodes m := by
    rw [heq]
    exact evictAll_nodes c gpu hdrains.nodup m
  refine ⟨c', hrun, fun m => ?_, ?_, fun m hm => ?_, fun hne => ?_, fun gpu' hgpu => ?_⟩
  · rw [hnodes]
    split
    · have hcached := (mem_candidates.mp (hdrains.mem m ‹_›)).2.2
      exact iff_of_true ‹_› ⟨hcached, TreeNode.not_hasCachedGpu_evictedFrom _ _⟩
    · exact iff_of_false ‹_› (fun hcon => hcon.2 hcon.1)
  · rcases hdrains.met_or_empty with hmet | hall
    · left
      rw [heq, evictAll_allocatedSize]
      linarith
    · right
      intro m hm hroot hcached
      rw [hev.allNodes] at hm
      rw [hev.numUncompleted]
      -- a node without requests would have been a candidate, and every candidate is gone
      have hnot : m ∉ victims := by
        intro hin
        rw [hnodes, if_pos hin] at hcached
        exact TreeNode.not_hasCachedGpu_evictedFrom _ _ hcached
      rw [hnodes, if_neg hnot] at hcached
      apply lt_of_le_of_ne (hranked.nonneg m hm gpu)
      intro hzero
      exact hnot (hall m (mem_candidates.mpr ⟨hm, hzero.symm, hcached⟩))
  · rw [(mem_candidates.mp (hdrains.mem m hm)).2.1]
    exact lt_irrefl 0
  · rw [← zero_add (List.sum _)]
    exact hdrains.dropLast_lt hne
  · refine ⟨hev.allocated gpu' hgpu, fun m => ?_⟩
    rw [hnodes]
    split
    · simp [TreeNode.evictedFrom, hgpu]
    · exact ⟨Iff.rfl, Iff.rfl⟩

theorem SafelyReached.concat {maxTokensForGpuList : Fin n → ℚ} {calls : List (CacheCall n)}
    (h : SafelyReached rt (afterCalls rt maxTokensForGpuList calls)) (call : CacheCall n)
    (hnode : ∀ node gpu, call = .updateCacheMetadada node gpu →
      node ∈ (afterCalls rt maxTokensForGpuList calls).allNodes)
    (hreturns : (Py.returned (call.perform rt maxTokensForGpuList
      (afterCalls rt maxTokensForGpuList calls))).isSome) :
    SafelyReached rt (afterCalls rt maxTokensForGpuList (calls ++ [call])) := by
  rw [afterCalls_concat]
  refine h.call maxTokensForGpuList call hnode (fun s hrun => ?_)
  rw [hrun] at hreturns
  cases hreturns

/-- The first of two sequences that share a token is taken off again. -/
def firstFinished : LPRadixCache 2 :=
  afterCalls tickingRuntime (fun _ => 10) (bothCounted ++
    [.removeCompletedInputIds [7, 8] ⟨0, Nat.two_pos⟩])

/-- With a limit of one token its lower node goes from the first replica. -/
theorem handleCacheEvictionForGpu_outcome_shared :
    firstFinished.handlerVictims (fun _ => 1) 0 = [1] ∧
      ∃ c', handleCacheEvictionForGpu (fun _ => 1) 0 firstFinished = .ok () c' ∧
        EvictionOutcome firstFinished c' (fun _ => 1) 0
          (firstFinished.handlerVictims (fun _ => 1) 0) := by
  have hstart : SafelyReached tickingRuntime (afterCalls tickingRuntime (fun _ => 10) []) := .init
  have hinserted := hstart.concat (.insert [7, 8]) (fun _ _ h => by cases h) (by decide +kernel)
  have hfirst := hinserted.concat (.updateCacheMetadada 1 0)
    (fun node gpu h => by cases h; decide +kernel) (by decide +kernel)
  have hcut := hfirst.concat (.insert [7, 9]) (fun _ _ h => by cases h) (by decide +kernel)
  have hboth := hcut.concat (.updateCacheMetadada 3 1)
    (fun node gpu h => by cases h; decide +kernel) (by decide +kernel)
  have hfinished : SafelyReached tickingRuntime firstFinished :=
    hboth.concat (.removeCompletedInputIds [7, 8] 0) (fun _ _ h => by cases h)
      (by decide +kernel)
  exact ⟨by decide +kernel, handleCacheEvictionForGpu_outcome hfinished (fun _ => 1) 0⟩

end DualMap.Preble.LPRadixCache
