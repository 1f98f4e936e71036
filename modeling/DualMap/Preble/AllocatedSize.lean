import DualMap.Preble.CacheEviction
import DualMap.Preble.CacheMetadata

/-!
# The Allocated Size Is Exact

Whatever is inserted, counted, taken off or evicted, and in whatever order, the allocated
size of every replica is what the nodes of the tree that are cached there own. It goes up
in `update_cache_metadada` and down with each victim, an eviction counts it anew, and a split
shares the tokens of a node between two nodes that are cached on the same replicas.
-/

namespace DualMap.Preble.LPRadixCache

variable {n : ℕ} {rt : Runtime n} {c : LPRadixCache n} {σ : ℕ → List ℕ} {gpu : Fin n}

/-! ## Growth -/

/-- A sum over the nodes in which one term changes. -/
theorem sum_cachedTokens_of_eq_off {c c' : LPRadixCache n} {node : ℕ}
    (hmem : node ∈ c.allNodes) (hsame : ∀ m ∈ c.allNodes, m ≠ node →
      c'.cachedTokens gpu m = c.cachedTokens gpu m) :
    ∑ m ∈ c.allNodes, c'.cachedTokens gpu m + c.cachedTokens gpu node =
      ∑ m ∈ c.allNodes, c.cachedTokens gpu m + c'.cachedTokens gpu node := by
  have hother : ∑ m ∈ c.allNodes.erase node, c'.cachedTokens gpu m =
      ∑ m ∈ c.allNodes.erase node, c.cachedTokens gpu m := by
    refine Finset.sum_congr rfl (fun m hm => ?_)
    exact hsame m (Finset.mem_of_mem_erase hm) (Finset.ne_of_mem_erase hm)
  have hsum := Finset.add_sum_erase c.allNodes (c.cachedTokens gpu) hmem
  have hsum' := Finset.add_sum_erase c.allNodes (c'.cachedTokens gpu) hmem
  omega

theorem init_exactOn (rt : Runtime n) (gpu : Fin n) : (init rt).ExactOn gpu := by
  have hnone : ∀ m, (init rt).cachedTokens gpu m = 0 := by
    intro m
    rw [cachedTokens, if_neg]
    exact fun h => Finset.notMem_empty _ h.1
  rw [ExactOn, Finset.sum_congr rfl (fun m _ => hnone m), Finset.sum_const_zero]
  rfl

/-- A split shares the tokens of the node between its two halves. -/
theorem afterSplit_exactOn (hc : WellFormed c σ) {p child a b : ℕ} {x y : List ℕ}
    (hp : p ∈ c.allNodes) (hedge : c.tree.Edge p a child)
    (hkey : (c.nodes child).key = (a :: x) ++ b :: y) (hexact : c.ExactOn gpu) :
    (afterSplit rt c p child (x.length + 1) a b).ExactOn gpu := by
  obtain ⟨hchild, -, hpc, hpn, hcn⟩ := hc.split_nodes hp hedge
  generalize hc' : afterSplit rt c p child (x.length + 1) a b = c'
  -- `_split_node` changes the value of the child alone, and copies its caching to the new node
  have hother : ∀ m ∈ c.allNodes, m ≠ child →
      c'.cachedTokens gpu m = c.cachedTokens gpu m := by
    intro m hm hne
    subst hc'
    rcases afterSplit_cases rt c p child (x.length + 1) a b m with
      rfl | rfl | rfl | ⟨-, -, -, hsame⟩
    · rw [cachedTokens, afterSplit_parent]
      rfl
    · exact absurd rfl hne
    · exact absurd hm hc.nextId_notMem
    · simp only [cachedTokens, hsame]
  -- the two halves hold what the child held, whether it is cached or not
  have hhalves : c'.cachedTokens gpu c.nextId + c'.cachedTokens gpu child =
      c.cachedTokens gpu child := by
    have hlen : (c.nodes child).value.length = x.length + 1 + (y.length + 1) := by
      rw [hc.value_eq child hchild, hkey, List.length_append, List.length_cons, List.length_cons]
    subst hc'
    simp only [cachedTokens, afterSplit_child rt hpc.symm, afterSplit_new rt hcn.symm hpn.symm,
      TreeNode.hasCachedGpu, List.length_take, List.length_drop, hlen]
    split
    · omega
    · rfl
  have hsum := sum_cachedTokens_of_eq_off hchild hother
  have hnodes : c'.allNodes = Insert.insert c.nextId c.allNodes := by
    subst hc'
    rfl
  have halloc : c'.allocatedSizeForGpusList = c.allocatedSizeForGpusList := by
    subst hc'
    rfl
  rw [ExactOn, halloc, hexact, hnodes, Finset.sum_insert hc.nextId_notMem]
  omega

/-- A new leaf is cached nowhere. -/
theorem afterGraft_exactOn (hc : WellFormed c σ) {p a contextLength depth : ℕ}
    {x value : List ℕ} (hp : p ∈ c.allNodes) (hexact : c.ExactOn gpu) :
    (afterGraft rt c p a (a :: x) value contextLength depth).ExactOn gpu := by
  have hpn : p ≠ c.nextId := hc.ne_nextId hp
  generalize hc' : afterGraft rt c p a (a :: x) value contextLength depth = c'
  have hold : ∀ m ∈ c.allNodes, c'.cachedTokens gpu m = c.cachedTokens gpu m := by
    intro m hm
    subst hc'
    rcases afterGraft_cases rt c p a (a :: x) value contextLength depth m with
      rfl | rfl | ⟨-, -, hsame⟩
    · rw [cachedTokens, afterGraft_parent]
      rfl
    · exact absurd hm hc.nextId_notMem
    · simp only [cachedTokens, hsame]
  -- a new leaf is cached nowhere, so it counts nothing
  have hnew : c'.cachedTokens gpu c.nextId = 0 := by
    subst hc'
    rw [cachedTokens, afterGraft_new rt hpn.symm, if_neg]
    exact fun h => Finset.notMem_empty _ h.1
  have hnodes : c'.allNodes = Insert.insert c.nextId c.allNodes := by
    subst hc'
    rfl
  have halloc : c'.allocatedSizeForGpusList = c.allocatedSizeForGpusList := by
    subst hc'
    rfl
  rw [ExactOn, halloc, hexact, hnodes, Finset.sum_insert hc.nextId_notMem, hnew, zero_add]
  exact Finset.sum_congr rfl (fun m hm => (hold m hm).symm)

theorem Visited.exactOn {c' : LPRadixCache n} (h : Visited c c') (hexact : c.ExactOn gpu) :
    c'.ExactOn gpu :=
  hexact.congr h.sameShape (congrFun h.allocated gpu) (fun m => h.hasCachedGpu m gpu)

theorem GrowsTo.exactOn {s s' : LPRadixCache n × (ℕ → List ℕ)} (h : GrowsTo rt s s')
    (hs : WellFormed s.1 s.2) (hexact : s.1.ExactOn gpu) : s'.1.ExactOn gpu := by
  refine (h.invariant (I := fun c _ => c.ExactOn gpu) hs hexact ?_).2
  intro u u' hu hexact hgrows
  cases hgrows with
  | visit h => exact h.exactOn hexact
  | split hp hedge hkey => exact afterSplit_exactOn hu hp hedge hkey hexact
  | graft hp hnone => exact afterGraft_exactOn hu hp hexact

/-! ## Counting and taking off -/

/-- A node that becomes cached adds its tokens. -/
theorem countOne_exactOn {node : ℕ} (hmem : node ∈ c.allNodes) (gpu : Fin n)
    {gpu' : Fin n} (hexact : c.ExactOn gpu') : (countOne gpu c node).ExactOn gpu' := by
  have hnode : (countOne gpu c node).nodes node = (c.nodes node).counted gpu :=
    Function.update_self ..
  have hother : ∀ m ∈ c.allNodes, m ≠ node →
      (countOne gpu c node).cachedTokens gpu' m = c.cachedTokens gpu' m := by
    intro m _ hne
    have hsame : (countOne gpu c node).nodes m = c.nodes m := Function.update_of_ne hne ..
    simp only [cachedTokens, hsame]
  have hsum := sum_cachedTokens_of_eq_off hmem hother
  show _ = ∑ m ∈ c.allNodes, (countOne gpu c node).cachedTokens gpu' m
  have hvalue : ((c.nodes node).counted gpu).value = (c.nodes node).value := rfl
  -- `update_cache_metadada` adds the value only where the node was not cached before
  by_cases hgpu : gpu' = gpu
  · subst hgpu
    have halloc : (countOne gpu' c node).allocatedSizeForGpusList gpu' =
        c.allocatedSizeForGpusList gpu' + if (c.nodes node).hasCachedGpu gpu' then 0 else
          ((c.nodes node).value.length : ℤ) := Function.update_self ..
    have hself : (countOne gpu' c node).cachedTokens gpu' node =
        (c.nodes node).value.length := by
      rw [cachedTokens, hnode, if_pos (TreeNode.hasCachedGpu_counted _ _), hvalue]
    have hold : c.cachedTokens gpu' node =
        if (c.nodes node).hasCachedGpu gpu' then ((c.nodes node).value.length : ℤ) else 0 := rfl
    rw [halloc, hexact]
    by_cases hcached : (c.nodes node).hasCachedGpu gpu'
    · rw [if_pos hcached] at hold ⊢
      omega
    · rw [if_neg hcached] at hold ⊢
      omega
  -- another replica's counter and caching are not written
  · have halloc : (countOne gpu c node).allocatedSizeForGpusList gpu' =
        c.allocatedSizeForGpusList gpu' := Function.update_of_ne hgpu ..
    have hself : (countOne gpu c node).cachedTokens gpu' node = c.cachedTokens gpu' node := by
      simp only [cachedTokens, hnode, TreeNode.hasCachedGpu_counted_of_ne _ hgpu, hvalue]
    rw [halloc, hexact]
    omega

theorem updateCacheMetadada_exactOn (hc : WellFormed c σ) {node : ℕ}
    (hnode : node ∈ c.allNodes) (gpu : Fin n) {gpu' : Fin n} (hexact : c.ExactOn gpu') :
    ((c.ancestors node).foldl (countOne gpu) c).ExactOn gpu' := by
  have hway : ∀ m ∈ c.ancestors node, m ∈ c.allNodes :=
    fun m hm => ((hc.mem_ancestors hnode).mp hm).1
  clear hnode hc
  revert hexact hway
  generalize c.ancestors node = way
  induction way generalizing c with
  | nil => exact fun hexact _ => hexact
  | cons x way ih =>
    intro hexact hway
    exact ih (countOne_exactOn (hway x List.mem_cons_self) gpu hexact)
      (fun m hm => hway m (List.mem_cons_of_mem _ hm))

theorem discountOne_exactOn (node : ℕ) (gpu' : Fin n) (hexact : c.ExactOn gpu) :
    (discountOne gpu' c node).ExactOn gpu := by
  have hnode : ∀ m, (discountOne gpu' c node).nodes m = c.nodes m ∨
      (discountOne gpu' c node).nodes m = (c.nodes m).discounted gpu' := by
    intro m
    by_cases hm : m = node
    · subst hm
      exact Or.inr (Function.update_self ..)
    · exact Or.inl (Function.update_of_ne hm ..)
  refine hexact.congr ⟨rfl, rfl, fun m => ?_⟩ rfl (fun m => ?_)
  · rcases hnode m with hm | hm <;> rw [hm] <;> exact ⟨rfl, rfl, rfl, rfl, rfl⟩
  · rcases hnode m with hm | hm
    · rw [hm]
    · rw [hm]
      rfl

/-! ## Main results -/

/-- A call of the cache, made by the scheduler. -/
inductive CacheCall (n : ℕ) where
  | insert (key : List ℕ)
  | updateCacheMetadada (node : ℕ) (runtimeId : Fin n)
  | removeCompletedInputIds (inputIds : List ℕ) (runtimeId : Fin n)
  | handleCacheEvictionForGpu (runtimeSelected : Fin n)

/-- Make the call. -/
def CacheCall.perform (rt : Runtime n) (maxTokensForGpuList : Fin n → ℚ) :
    CacheCall n → Py (LPRadixCache n) Unit
  | .insert key => do
    let _ ← LPRadixCache.insert rt key none .empty
  | .updateCacheMetadada node runtimeId => LPRadixCache.updateCacheMetadada node runtimeId
  | .removeCompletedInputIds inputIds runtimeId =>
    LPRadixCache.removeCompletedInputIds rt inputIds runtimeId
  | .handleCacheEvictionForGpu runtimeSelected =>
    LPRadixCache.handleCacheEvictionForGpu maxTokensForGpuList runtimeSelected

/-- The caches that calls can lead to. Only a node of the tree can be counted. A call that
raises, because what it takes off was never counted, leaves the cache as it is then. -/
inductive Reached (rt : Runtime n) (maxTokensForGpuList : Fin n → ℚ) :
    LPRadixCache n → Prop
  | init : Reached rt maxTokensForGpuList (init rt)
  | call {c : LPRadixCache n} (h : Reached rt maxTokensForGpuList c) (call : CacheCall n)
      (hnode : ∀ node gpu, call = .updateCacheMetadada node gpu → node ∈ c.allNodes) :
      Reached rt maxTokensForGpuList (Py.finalState (call.perform rt maxTokensForGpuList c))

/-- The cache is well formed, and every size is exact. -/
def Exact (c : LPRadixCache n) : Prop := (∃ σ, WellFormed c σ) ∧ ∀ gpu, c.ExactOn gpu

theorem insert_exact (rt : Runtime n) (key : List ℕ) (h : c.Exact) :
    (Py.finalState ((CacheCall.insert key).perform rt (fun _ => 0) c)).Exact := by
  obtain ⟨⟨σ, hc⟩, hexact⟩ := h
  obtain ⟨leaf, splits, c', σ', hrun, hins⟩ := insert_spec rt hc key
  rw [CacheCall.perform, Py.bind_ok hrun]
  exact ⟨⟨σ', hins.wellFormed hc⟩, fun gpu => hins.grows.exactOn hc (hexact gpu)⟩

theorem updateCacheMetadada_exact {node : ℕ} (hnode : node ∈ c.allNodes) (gpu : Fin n)
    (h : c.Exact) : (Py.finalState (updateCacheMetadada node gpu c)).Exact := by
  obtain ⟨⟨σ, hc⟩, hexact⟩ := h
  rw [updateCacheMetadada_eq]
  have hcounted := counted_foldl (hc.ancestors_nodup hnode) gpu c
  exact ⟨⟨σ, hcounted.sameShape.wellFormed hc⟩,
    fun gpu' => updateCacheMetadada_exactOn hc hnode gpu (hexact gpu')⟩

/-- Taking a request off keeps every size, also where the assertion fails on the way. -/
theorem removeCompletedInputIds_exact (rt : Runtime n) (inputIds : List ℕ) (gpu : Fin n)
    (h : c.Exact) : (Py.finalState (removeCompletedInputIds rt inputIds gpu c)).Exact := by
  obtain ⟨⟨σ, hc⟩, hexact⟩ := h
  obtain ⟨found, c₁, hrun, hvisit, -⟩ := findNode_spec rt hc inputIds
  have h₁ : c₁.Exact :=
    ⟨⟨σ, hvisit.sameShape.wellFormed hc⟩, fun gpu' => hvisit.exactOn (hexact gpu')⟩
  rw [removeCompletedInputIds, Py.bind_ok hrun]
  refine (Py.Keeps.ofOption _ _).bind (fun node => Py.Keeps.get_bind fun c₂ h₂ => ?_) c₁ h₁
  refine Py.Keeps.forM (fun m => Py.Keeps.bind (Py.Keeps.modify fun c₃ h₃ => ?_)
    (fun _ => Py.Keeps.get_bind fun c₄ h₄ => Py.Keeps.assert _ c₄ h₄)) _ c₂ h₂
  obtain ⟨⟨σ₃, hc₃⟩, hexact₃⟩ := h₃
  have hstep : Discounted gpu [m] c₃ (discountOne gpu c₃ m) :=
    discounted_foldl (List.nodup_singleton m) gpu c₃
  exact ⟨⟨σ₃, hstep.sameShape.wellFormed hc₃⟩,
    fun gpu' => discountOne_exactOn m gpu (hexact₃ gpu')⟩

theorem handleCacheEvictionForGpu_exact (maxTokensForGpuList : Fin n → ℚ) (gpu : Fin n)
    (h : c.Exact) :
    (Py.finalState (handleCacheEvictionForGpu maxTokensForGpuList gpu c)).Exact := by
  obtain ⟨⟨σ, hc⟩, hexact⟩ := h
  obtain ⟨c', hrun, hev, hexact', -⟩ :=
    handleCacheEvictionForGpu_spec maxTokensForGpuList hc (hexact gpu)
  rw [hrun]
  refine ⟨⟨σ, hev.sameShape.wellFormed hc⟩, fun gpu' => ?_⟩
  by_cases hne : gpu' = gpu
  · rw [hne]
    exact hexact'
  · exact hev.exactOn hne (hexact gpu')

theorem Reached.exact {maxTokensForGpuList : Fin n → ℚ}
    (h : Reached rt maxTokensForGpuList c) : c.Exact := by
  induction h with
  | init => exact ⟨⟨_, init_wellFormed rt⟩, init_exactOn rt⟩
  | call _ call hnode ih =>
    cases call with
    | insert key => exact insert_exact rt key ih
    | updateCacheMetadada node gpu =>
      exact updateCacheMetadada_exact (hnode node gpu rfl) gpu ih
    | removeCompletedInputIds inputIds gpu =>
      exact removeCompletedInputIds_exact rt inputIds gpu ih
    | handleCacheEvictionForGpu gpu => exact handleCacheEvictionForGpu_exact _ gpu ih

/-- The allocated size of a replica is the number of tokens that the nodes of the tree that
are cached there own, and never negative. -/
theorem allocatedSize_exact {maxTokensForGpuList : Fin n → ℚ}
    (h : Reached rt maxTokensForGpuList c) :
    (∀ m, m ∈ c.allNodes ↔ ∃ s, c.tree.RootPath m s) ∧
      ∀ gpu, c.allocatedSizeForGpu gpu =
          ∑ m ∈ c.allNodes.filter (fun m => (c.nodes m).hasCachedGpu gpu),
            ((c.nodes m).value.length : ℤ) ∧
        0 ≤ c.allocatedSizeForGpu gpu := by
  obtain ⟨⟨σ, hc⟩, hexact⟩ := h.exact
  refine ⟨fun m => ?_, fun gpu => ⟨?_, (hexact gpu).nonneg⟩⟩
  · constructor
    · intro hm
      exact ⟨σ m, hc.spelled.rootPath_iff.mpr ⟨hm, rfl⟩⟩
    · rintro ⟨s, hpath⟩
      exact (hc.spelled.rootPath_iff.mp hpath).1
  · rw [Finset.sum_filter]
    exact hexact gpu

/-- The cache that some calls leave behind. -/
def afterCalls (rt : Runtime n) (maxTokensForGpuList : Fin n → ℚ) (calls : List (CacheCall n)) :
    LPRadixCache n :=
  calls.foldl (fun c call => Py.finalState (call.perform rt maxTokensForGpuList c)) (init rt)

theorem afterCalls_concat (rt : Runtime n) (maxTokensForGpuList : Fin n → ℚ)
    (calls : List (CacheCall n)) (call : CacheCall n) :
    afterCalls rt maxTokensForGpuList (calls ++ [call]) =
      Py.finalState (call.perform rt maxTokensForGpuList
        (afterCalls rt maxTokensForGpuList calls)) := by
  rw [afterCalls, List.foldl_append]
  rfl

theorem Reached.concat {maxTokensForGpuList : Fin n → ℚ} {calls : List (CacheCall n)}
    (h : Reached rt maxTokensForGpuList (afterCalls rt maxTokensForGpuList calls))
    (call : CacheCall n) (hnode : ∀ node gpu, call = .updateCacheMetadada node gpu →
      node ∈ (afterCalls rt maxTokensForGpuList calls).allNodes) :
    Reached rt maxTokensForGpuList (afterCalls rt maxTokensForGpuList (calls ++ [call])) := by
  rw [afterCalls_concat]
  exact h.call call hnode

/-- Two replicas, and a clock that goes on by one with each reading. -/
def tickingRuntime : Runtime 2 := .ascending 2 fun i => i

/-- A sequence is counted on the first replica. -/
def firstCounted : List (CacheCall 2) := [.insert [7, 8]] ++ [.updateCacheMetadada 1 0]

/-- Another one shares a token with it, which cuts its node, and is counted on the second
replica. -/
def bothCounted : List (CacheCall 2) :=
  firstCounted ++ [.insert [7, 9]] ++ [.updateCacheMetadada 3 1]

/-- The cache after both, with a limit of ten tokens. -/
def sharedPrefix : LPRadixCache 2 := afterCalls tickingRuntime (fun _ => 10) bothCounted

theorem allocatedSize_exact_two :
    sharedPrefix.allocatedSizeForGpu 0 = 2 ∧ sharedPrefix.allocatedSizeForGpu 1 = 2 ∧
      ∀ gpu, sharedPrefix.allocatedSizeForGpu gpu =
        ∑ m ∈ sharedPrefix.allNodes.filter (fun m => (sharedPrefix.nodes m).hasCachedGpu gpu),
          ((sharedPrefix.nodes m).value.length : ℤ) := by
  have hstart : Reached tickingRuntime (fun _ => 10)
      (afterCalls tickingRuntime (fun _ => 10) []) := .init
  have hinserted := hstart.concat (.insert [7, 8]) (fun _ _ h => by cases h)
  have hfirst := hinserted.concat (.updateCacheMetadada 1 0)
    (fun node gpu h => by cases h; decide +kernel)
  have hcut := hfirst.concat (.insert [7, 9]) (fun _ _ h => by cases h)
  have hboth : Reached tickingRuntime (fun _ => 10) sharedPrefix :=
    hcut.concat (.updateCacheMetadada 3 1) (fun node gpu h => by cases h; decide +kernel)
  exact ⟨by decide +kernel, by decide +kernel, fun gpu => ((allocatedSize_exact hboth).2 gpu).1⟩

end DualMap.Preble.LPRadixCache
