import DualMap.Foundation.HeapOrder
import DualMap.Foundation.QuotaDrain
import DualMap.Preble.CacheMetadata
import DualMap.Preble.CacheEviction
import Mathlib.Tactic.Ring

/-!
# The Victims of an Eviction

The heap of an eviction begins with the cached nodes without uncompleted requests, inner nodes
as well as leaves. Parents are pushed on the way, which may already be there, may have been
evicted, may be in use or may be the root, and at the root the loop stops.

None of this matters. Counts never fall below zero, and those of the root, which are never
taken off, are larger than those of any other node (`Ranked`). So the root leaves the heap
last, every other node that is pushed is passed over or was a candidate all along, and the
victims are the candidates in the order of the heap, until the quota is met
(`victims_drains`).
-/

namespace DualMap.Preble.LPRadixCache

variable {n : ℕ} {rt : Runtime n} {c : LPRadixCache n} {σ : ℕ → List ℕ} {gpu : Fin n}

/-! ## Counts -/

/-- Every node but the root counts less than the root, and none less than zero. -/
structure Ranked (c : LPRadixCache n) : Prop where
  root_pos : ∀ gpu, 0 < (c.nodes rootNode).numUncompletedRequestForGpuMap gpu
  nonneg : ∀ m ∈ c.allNodes, ∀ gpu, 0 ≤ (c.nodes m).numUncompletedRequestForGpuMap gpu
  below_root : ∀ m ∈ c.allNodes, m ≠ rootNode → ∀ gpu,
    (c.nodes m).numUncompletedRequestForGpuMap gpu <
      (c.nodes rootNode).numUncompletedRequestForGpuMap gpu

theorem init_ranked (rt : Runtime n) : Ranked (init rt) where
  root_pos _ := Int.one_pos
  nonneg _ _ _ := Int.one_nonneg
  below_root _ hm hroot := absurd (Finset.mem_singleton.mp hm) hroot

/-- Changes outside the counts. -/
theorem Ranked.congr {c' : LPRadixCache n} (h : Ranked c) (hnodes : c'.allNodes = c.allNodes)
    (hcounts : ∀ m, (c'.nodes m).numUncompletedRequestForGpuMap =
      (c.nodes m).numUncompletedRequestForGpuMap) : Ranked c' where
  root_pos := by simpa only [hcounts] using h.root_pos
  nonneg := by simpa only [hcounts, hnodes] using h.nonneg
  below_root := by simpa only [hcounts, hnodes] using h.below_root

/-- With the greater counts the root comes after every other node in the heap. -/
theorem Ranked.heapKey_lt (h : Ranked c) (gpu : Fin n) {m : ℕ} (hm : m ∈ c.allNodes)
    (hroot : m ≠ rootNode) : (c.nodes m).heapKey < (c.nodes rootNode).heapKey := by
  -- the first counts decide
  obtain ⟨k, rfl⟩ : ∃ k, n = k + 1 := Nat.exists_eq_succ_of_ne_zero (Fin.pos gpu).ne'
  refine Prod.Lex.toLex_lt_toLex.mpr (.inl ?_)
  simp only [List.ofFn_succ]
  exact List.Lex.rel (h.below_root m hm hroot 0)

/-- A new upper half counts what its node counts. -/
theorem afterSplit_counts (rt : Runtime n) (hc : WellFormed c σ) {p child a : ℕ}
    (hp : p ∈ c.allNodes) (hedge : c.tree.Edge p a child) (splitLen above below m : ℕ) :
    ((afterSplit rt c p child splitLen above below).nodes m).numUncompletedRequestForGpuMap =
      (c.nodes (if m = c.nextId then child else m)).numUncompletedRequestForGpuMap := by
  obtain ⟨-, -, hpc, hpn, hcn⟩ := hc.split_nodes hp hedge
  rcases afterSplit_cases rt c p child splitLen above below m with
    rfl | rfl | rfl | ⟨-, -, hnew, hsame⟩
  · rw [afterSplit_parent, if_neg hpn]
  · rw [afterSplit_child rt hpc.symm, if_neg hcn]
  · rw [afterSplit_new rt hcn.symm hpn.symm, if_pos rfl]
  · rw [hsame, if_neg hnew]

/-- A new leaf counts nothing. -/
theorem afterGraft_counts (rt : Runtime n) (hc : WellFormed c σ) {p : ℕ} (hp : p ∈ c.allNodes)
    (token : ℕ) (key value : List ℕ) (contextLength depth m : ℕ) :
    ((afterGraft rt c p token key value contextLength depth).nodes
        m).numUncompletedRequestForGpuMap =
      if m = c.nextId then fun _ => 0 else (c.nodes m).numUncompletedRequestForGpuMap := by
  have hpn : p ≠ c.nextId := hc.ne_nextId hp
  rcases afterGraft_cases rt c p token key value contextLength depth m with
    rfl | rfl | ⟨-, hnew, hsame⟩
  · rw [afterGraft_parent, if_neg hpn]
  · rw [afterGraft_new rt hpn.symm, if_pos rfl]
  · rw [hsame, if_neg hnew]

theorem GrowsTo.ranked {s s' : LPRadixCache n × (ℕ → List ℕ)} (hgrows : GrowsTo rt s s')
    (hs : WellFormed s.1 s.2) (h : Ranked s.1) : Ranked s'.1 := by
  refine (hgrows.invariant (I := fun c _ => Ranked c) hs h ?_).2
  intro u u' hu h hgrows
  cases hgrows with
  | visit hvisit => exact h.congr hvisit.allNodes hvisit.numUncompleted
  -- the upper half copies the child's counts, and is not the root either
  | @split c σ p child a b x y hp hedge hkey =>
    obtain ⟨hchild, hroot, -⟩ := hu.split_nodes hp hedge
    have hcounts := afterSplit_counts rt hu hp hedge (x.length + 1) a b
    have hrootNew : rootNode ≠ c.nextId := (hu.fresh _ hu.root_mem).ne
    refine ⟨fun gpu => ?_, fun m hm gpu => ?_, fun m hm hne gpu => ?_⟩
    · rw [hcounts, if_neg hrootNew]
      exact h.root_pos gpu
    · rw [hcounts]
      split
      · exact h.nonneg child hchild gpu
      · exact h.nonneg m ((Finset.mem_insert.mp hm).resolve_left ‹_›) gpu
    · rw [hcounts, hcounts rootNode, if_neg hrootNew]
      split
      · exact h.below_root child hchild hroot gpu
      · exact h.below_root m ((Finset.mem_insert.mp hm).resolve_left ‹_›) hne gpu
  -- the new leaf has a count of zero, below that of the root
  | @graft c σ p a depth x hp hnone =>
    have hcounts := afterGraft_counts rt hu hp a (a :: x) (a :: x)
      ((c.nodes p).contextLength + (x.length + 1)) depth
    have hrootNew : rootNode ≠ c.nextId := (hu.fresh _ hu.root_mem).ne
    refine ⟨fun gpu => ?_, fun m hm gpu => ?_, fun m hm hne gpu => ?_⟩
    · rw [hcounts, if_neg hrootNew]
      exact h.root_pos gpu
    · rw [hcounts]
      split
      · exact le_refl 0
      · exact h.nonneg m ((Finset.mem_insert.mp hm).resolve_left ‹_›) gpu
    · rw [hcounts, hcounts rootNode, if_neg hrootNew]
      split
      · exact h.root_pos gpu
      · exact h.below_root m ((Finset.mem_insert.mp hm).resolve_left ‹_›) hne gpu

/-- The walk of a request ends at the root, so the root counts every request. -/
theorem Counted.ranked {c' : LPRadixCache n} {node : ℕ} (hc : WellFormed c σ)
    (hnode : node ∈ c.allNodes) (hcounted : Counted gpu (c.ancestors node) c c')
    (h : Ranked c) : Ranked c' := by
  -- the root is an ancestor of every node, so its count grows whenever another does
  have hroot : rootNode ∈ c.ancestors node := by
    rw [hc.mem_ancestors hnode]
    exact ⟨hc.root_mem, hc.spelled.root_spell ▸ List.nil_prefix⟩
  have hself (gpu' : Fin n) : (c'.nodes rootNode).numUncompletedRequestForGpuMap gpu' =
      (c.nodes rootNode).numUncompletedRequestForGpuMap gpu' + if gpu' = gpu then 1 else 0 := by
    rw [hcounted.nodes, if_pos hroot]
    by_cases hgpu : gpu' = gpu <;> simp [TreeNode.counted, hgpu]
  have hcounts (m : ℕ) (gpu' : Fin n) : (c'.nodes m).numUncompletedRequestForGpuMap gpu' =
      (c.nodes m).numUncompletedRequestForGpuMap gpu' ∨
      (c'.nodes m).numUncompletedRequestForGpuMap gpu' =
        (c.nodes m).numUncompletedRequestForGpuMap gpu' + if gpu' = gpu then 1 else 0 := by
    rw [hcounted.nodes]
    split
    · right
      by_cases hgpu : gpu' = gpu <;> simp [TreeNode.counted, hgpu]
    · exact .inl rfl
  have hnonneg (gpu' : Fin n) : (0 : ℤ) ≤ if gpu' = gpu then 1 else 0 := by
    split <;> omega
  refine ⟨fun gpu' => ?_, fun m hm gpu' => ?_, fun m hm hne gpu' => ?_⟩
  · have := h.root_pos gpu'
    have := hnonneg gpu'
    rw [hself]
    omega
  · rw [hcounted.sameShape.allNodes] at hm
    have := h.nonneg m hm gpu'
    have := hnonneg gpu'
    rcases hcounts m gpu' with heq | heq <;> rw [heq] <;> omega
  · rw [hcounted.sameShape.allNodes] at hm
    have := h.below_root m hm hne gpu'
    have := hnonneg gpu'
    rw [hself]
    rcases hcounts m gpu' with heq | heq <;> rw [heq] <;> omega

/-- One request less at a node other than the root, where it was counted. -/
theorem discountOne_ranked {m : ℕ} (hroot : m ≠ rootNode) (h : Ranked c)
    (hassert : 0 ≤ ((discountOne gpu c m).nodes m).numUncompletedRequestForGpuMap gpu) :
    Ranked (discountOne gpu c m) := by
  -- the walk down never reaches the root, so only other counts shrink
  have hrootSame : (discountOne gpu c m).nodes rootNode = c.nodes rootNode :=
    Function.update_of_ne hroot.symm ..
  have hle (x : ℕ) (gpu' : Fin n) :
      ((discountOne gpu c m).nodes x).numUncompletedRequestForGpuMap gpu' ≤
        (c.nodes x).numUncompletedRequestForGpuMap gpu' := by
    by_cases hx : x = m
    · subst hx
      by_cases hgpu : gpu' = gpu <;> simp [discountOne, TreeNode.discounted, hgpu]
    · have hsame : (discountOne gpu c m).nodes x = c.nodes x := Function.update_of_ne hx ..
      rw [hsame]
  refine ⟨fun gpu' => ?_, fun x hx gpu' => ?_, fun x hx hne gpu' => ?_⟩
  · rw [hrootSame]
    exact h.root_pos gpu'
  · by_cases hxm : x = m
    · subst hxm
      by_cases hgpu : gpu' = gpu
      · rw [hgpu]
        exact hassert
      · have := h.nonneg x hx gpu'
        simpa [discountOne, TreeNode.discounted, hgpu] using this
    · have hsame : (discountOne gpu c m).nodes x = c.nodes x := Function.update_of_ne hxm ..
      rw [hsame]
      exact h.nonneg x hx gpu'
  · rw [hrootSame]
    exact lt_of_le_of_lt (hle x gpu') (h.below_root x hx hne gpu')

/-! ## Candidates -/

/-- What an eviction on the replica begins with: the cached nodes without uncompleted
requests. -/
def candidates (c : LPRadixCache n) (gpu : Fin n) : Finset ℕ :=
  c.allNodes.filter (fun m => (c.nodes m).numUncompletedRequestForGpuMap gpu = 0 ∧
    (c.nodes m).hasCachedGpu gpu)

theorem mem_candidates {m : ℕ} : m ∈ c.candidates gpu ↔ m ∈ c.allNodes ∧
    (c.nodes m).numUncompletedRequestForGpuMap gpu = 0 ∧ (c.nodes m).hasCachedGpu gpu :=
  Finset.mem_filter

theorem Ranked.root_notMem_candidates (h : Ranked c) : rootNode ∉ c.candidates gpu := by
  intro hmem
  exact (h.root_pos gpu).ne' (mem_candidates.mp hmem).2.1

/-- A victim is a candidate no more, and every other candidate still is one. -/
theorem candidates_evictOne (c : LPRadixCache n) (gpu : Fin n) (x : ℕ) :
    (c.evictOne gpu x).candidates gpu = (c.candidates gpu).erase x := by
  ext m
  rw [Finset.mem_erase, mem_candidates, mem_candidates]
  by_cases hm : m = x
  · have hself : (c.evictOne gpu x).nodes m = (c.nodes m).evictedFrom gpu := by
      subst hm
      exact Function.update_self ..
    rw [hself]
    constructor
    · intro h
      exact absurd h.2.2 (TreeNode.not_hasCachedGpu_evictedFrom _ _)
    · intro h
      exact absurd hm h.1
  · have hsame : (c.evictOne gpu x).nodes m = c.nodes m := Function.update_of_ne hm ..
    rw [hsame]
    exact ⟨fun h => ⟨hm, h⟩, fun h => h.2⟩

theorem heapKey_evictOne (c : LPRadixCache n) (gpu : Fin n) (x m : ℕ) :
    ((c.evictOne gpu x).nodes m).heapKey = (c.nodes m).heapKey := by
  rcases (evictOne_evicted c gpu x).nodes m with hm | hm
  · rw [hm]
  · rw [hm]
    rfl

/-! ## The loop -/

/-- The tokens of a node, as the loop adds them up. -/
def evictedTokens (c : LPRadixCache n) (m : ℕ) : ℚ := (c.nodes m).value.length

theorem evictedTokens_evictOne (c : LPRadixCache n) (gpu : Fin n) (x : ℕ) :
    (c.evictOne gpu x).evictedTokens = c.evictedTokens :=
  funext (fun m => congrArg _ (congrArg _ ((evictOne_evicted c gpu x).sameShape.value m)))

theorem leavesAfter_isHeap {leaves : List ℕ}
    (hheap : Heapq.IsHeap (fun m => (c.nodes m).heapKey) leaves) (x : ℕ) :
    Heapq.IsHeap (fun m => (c.nodes m).heapKey) (c.leavesAfter gpu x leaves) := by
  unfold leavesAfter
  split
  · exact hheap
  · split
    · exact Heapq.heappush_isHeap _ hheap _
    · exact hheap

/-- The root comes last, so where it is the least there is no candidate. -/
theorem Ranked.candidates_eq_empty (hr : Ranked c)
    (hleast : ∀ x ∈ c.candidates gpu, (c.nodes rootNode).heapKey ≤ (c.nodes x).heapKey) :
    c.candidates gpu = ∅ := by
  refine Finset.eq_empty_of_forall_notMem (fun x hx => ?_)
  have hne : x ≠ rootNode := fun heq => hr.root_notMem_candidates (heq ▸ hx)
  have hlt := hr.heapKey_lt gpu (mem_candidates.mp hx).1 hne
  exact absurd (hleast x hx) (not_le.mpr hlt)

/-- What the loop needs of its heap: every candidate is in it, and nothing outside the tree. -/
structure HoldsCandidates (c : LPRadixCache n) (gpu : Fin n) (leaves : List ℕ) : Prop where
  inTree : ∀ x ∈ leaves, x ∈ c.allNodes
  all : ∀ x ∈ c.candidates gpu, x ∈ leaves
  isHeap : Heapq.IsHeap (fun m => (c.nodes m).heapKey) leaves

theorem HoldsCandidates.candidates_eq_empty (h : HoldsCandidates c gpu []) :
    c.candidates gpu = ∅ :=
  Finset.eq_empty_of_forall_notMem (fun x hx => List.not_mem_nil (h.all x hx))

section Popped

variable {leaves rest : List ℕ} {x : ℕ} (h : HoldsCandidates c gpu leaves)
  (hpop : Heapq.heappop (fun m => (c.nodes m).heapKey) leaves = some (x, rest))

include h hpop

theorem HoldsCandidates.popped_inTree : x ∈ c.allNodes :=
  h.inTree x (Heapq.heappop_mem _ hpop)

theorem HoldsCandidates.popped_least {y : ℕ} (hy : y ∈ c.candidates gpu) :
    (c.nodes x).heapKey ≤ (c.nodes y).heapKey :=
  h.isHeap.root_le _ (Heapq.heappop_head _ hpop) y (h.all y hy)

theorem HoldsCandidates.rest_inTree : ∀ y ∈ rest, y ∈ c.allNodes := fun _ hy =>
  h.inTree _ (Heapq.heappop_subset _ hpop hy)

/-- A candidate other than the popped node is still in the heap. -/
theorem HoldsCandidates.mem_rest {y : ℕ} (hy : y ∈ c.candidates gpu) (hne : y ≠ x) :
    y ∈ rest := Heapq.mem_rest_of_heappop _ hpop (h.all y hy) hne

/-- The popped node is passed over. -/
theorem HoldsCandidates.pass (hnot : x ∉ c.candidates gpu) : HoldsCandidates c gpu rest where
  inTree := h.rest_inTree hpop
  all := fun _ hy => h.mem_rest hpop hy (fun heq => hnot (heq ▸ hy))
  isHeap := Heapq.heappop_isHeap _ h.isHeap hpop

/-- The popped node is evicted, and its parent may take its place. -/
theorem HoldsCandidates.evict (hc : WellFormed c σ) (hroot : x ≠ rootNode) :
    HoldsCandidates (c.evictOne gpu x) gpu ((c.evictOne gpu x).leavesAfter gpu x rest) where
  inTree := by
    have hc₁ := (evictOne_evicted c gpu x).sameShape.wellFormed hc
    exact leavesAfter_subset hc₁ (h.popped_inTree hpop) hroot (h.rest_inTree hpop)
  all := by
    intro y hy
    rw [candidates_evictOne, Finset.mem_erase] at hy
    exact mem_leavesAfter (h.mem_rest hpop hy.2 hy.1)
  isHeap := by
    have hkey : (fun m => ((c.evictOne gpu x).nodes m).heapKey) =
        fun m => (c.nodes m).heapKey := funext (heapKey_evictOne c gpu x)
    apply leavesAfter_isHeap
    rw [hkey]
    exact Heapq.heappop_isHeap _ h.isHeap hpop

end Popped

/-- The victims are the candidates in the order of the heap, until the quota is met. -/
theorem victims_drains (numTokensToEvict : ℚ) (fuel : ℕ) (leaves : List ℕ) (numEvicted : ℕ)
    (hc : WellFormed c σ) (hr : Ranked c) (hleaves : HoldsCandidates c gpu leaves)
    (hfuel : leaves.length + (c.cachedNodes gpu).card < fuel) :
    Drains (fun m => (c.nodes m).heapKey) c.evictedTokens numTokensToEvict (c.candidates gpu)
      numEvicted (victims numTokensToEvict gpu fuel c leaves numEvicted) := by
  induction fuel generalizing c leaves numEvicted with
  | zero => exact absurd hfuel (Nat.not_lt_zero _)
  | succ fuel ih =>
    rw [victims]
    by_cases hmore : (numEvicted : ℚ) < numTokensToEvict
    case neg =>
      rw [if_neg hmore]
      exact .enough (not_lt.mp hmore)
    rw [if_pos hmore]
    cases hpop : Heapq.heappop (fun m => (c.nodes m).heapKey) leaves with
    | none =>
      -- no candidate is left
      obtain rfl := Heapq.heappop_eq_none.mp hpop
      rw [hleaves.candidates_eq_empty]
      exact .empty
    | some popped =>
      obtain ⟨x, rest⟩ := popped
      have hlen : leaves.length = rest.length + 1 := Heapq.heappop_length _ hpop
      have hx : x ∈ c.allNodes := hleaves.popped_inTree hpop
      have hpass (hnot : x ∉ c.candidates gpu) :=
        ih rest numEvicted hc hr (hleaves.pass hpop hnot) (by omega)
      simp only
      by_cases hroot : x = rootNode
      · rw [if_pos hroot, hr.candidates_eq_empty (fun y hy => hroot ▸ hleaves.popped_least hpop hy)]
        exact .empty
      rw [if_neg hroot]
      by_cases hbusy : 0 < (c.nodes x).numUncompletedRequestForGpuMap gpu
      · rw [if_pos hbusy]
        exact hpass (fun hmem => hbusy.ne' (mem_candidates.mp hmem).2.1)
      rw [if_neg hbusy]
      by_cases hcached : (c.nodes x).hasCachedGpu gpu
      case neg =>
        rw [if_neg hcached]
        exact hpass (fun hmem => hcached (mem_candidates.mp hmem).2.2)
      rw [if_pos hcached]
      -- the victim is the least candidate
      have hzero : (c.nodes x).numUncompletedRequestForGpuMap gpu = 0 :=
        le_antisymm (not_lt.mp hbusy) (hr.nonneg x hx gpu)
      have hmem : x ∈ c.candidates gpu := mem_candidates.mpr ⟨hx, hzero, hcached⟩
      refine .take hmore hmem (fun y hy => hleaves.popped_least hpop hy) ?_
      have hvictim := evictOne_evicted c gpu x
      have hcard := card_cachedNodes_evictOne hx hcached
      have hkey : (fun m => ((c.evictOne gpu x).nodes m).heapKey) =
          fun m => (c.nodes m).heapKey := funext (heapKey_evictOne c gpu x)
      have htokens := evictedTokens_evictOne c gpu x
      have hlength := length_leavesAfter_le (c.evictOne gpu x) gpu x rest
      have hnext := ih ((c.evictOne gpu x).leavesAfter gpu x rest)
        (numEvicted + (c.nodes x).value.length) (hvictim.sameShape.wellFormed hc)
        (hr.congr rfl hvictim.numUncompleted) (hleaves.evict hpop hc hroot) (by omega)
      rw [candidates_evictOne, hkey, htokens] at hnext
      rw [evictedTokens, ← Nat.cast_add]
      exact hnext

/-! ## A whole eviction -/

/-- The handler drains the candidates until the excess is gone. -/
theorem handlerVictims_drains (maxTokensForGpuList : Fin n → ℚ) (hc : WellFormed c σ)
    (hr : Ranked c) (hexact : c.ExactOn gpu) :
    Drains (fun m => (c.nodes m).heapKey) c.evictedTokens
      (c.allocatedSizeForGpu gpu - maxTokensForGpuList gpu) (c.candidates gpu) 0
      (c.handlerVictims maxTokensForGpuList gpu) := by
  unfold handlerVictims
  split
  · obtain ⟨leaves, c₁, hcollect, hev, hexact₁, hnodes, hmem⟩ :=
      collectedNodesWithRuntimeIdx_spec gpu hc
    obtain rfl := hev.eq_of_exactOn hnodes hexact hexact₁
    have hheap := Heapq.heapify_perm (fun m => (c₁.nodes m).heapKey) leaves
    have hcard : (c₁.cachedNodes gpu).card ≤ c₁.allNodes.card := Finset.card_filter_le _ _
    rw [evictionVictims, hcollect, ← Nat.cast_zero]
    apply victims_drains _ _ _ _ hc hr
    · exact {
        inTree := fun x hx => ((hmem x).mp (hheap.mem_iff.mp hx)).1
        all := fun x hx => hheap.mem_iff.mpr ((hmem x).mpr (mem_candidates.mp hx))
        isHeap := Heapq.heapify_isHeap _ leaves }
    · rw [hheap.length_eq]
      omega
  · exact .enough (sub_nonpos.mpr (not_lt.mp ‹_›))

theorem evictAll_cons (c : LPRadixCache n) (gpu : Fin n) (x : ℕ) (xs : List ℕ) :
    c.evictAll gpu (x :: xs) = (c.evictOne gpu x).evictAll gpu xs := rfl

/-- The victims are evicted, and every other node is as it was. -/
theorem evictAll_nodes (c : LPRadixCache n) (gpu : Fin n) {victims : List ℕ}
    (hnodup : victims.Nodup) (m : ℕ) : (c.evictAll gpu victims).nodes m =
      if m ∈ victims then (c.nodes m).evictedFrom gpu else c.nodes m :=
  foldl_nodes _ (TreeNode.evictedFrom · gpu) (fun _ _ => rfl) hnodup c m

/-- The tokens of the victims come off the size of the replica. -/
theorem evictAll_allocatedSize (c : LPRadixCache n) (gpu : Fin n) (victims : List ℕ) :
    ((c.evictAll gpu victims).allocatedSizeForGpu gpu : ℚ) =
      c.allocatedSizeForGpu gpu - (victims.map c.evictedTokens).sum := by
  induction victims generalizing c with
  | nil => simp [evictAll]
  | cons x xs ih =>
    have hself : (c.evictOne gpu x).allocatedSizeForGpu gpu =
        c.allocatedSizeForGpu gpu - (c.nodes x).value.length := Function.update_self ..
    rw [evictAll_cons, ih, hself, evictedTokens_evictOne, List.map_cons, List.sum_cons,
      evictedTokens]
    push_cast
    ring

end DualMap.Preble.LPRadixCache
