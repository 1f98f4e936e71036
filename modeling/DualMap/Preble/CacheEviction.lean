import DualMap.Preble.RadixGrowth
import Mathlib.Algebra.BigOperators.Group.Finset.Piecewise

/-!
# Eviction on One Replica

`evict_callback` and `handle_cache_eviction_for_gpu` of `PrebleGlobalSchedulerUtils`, which
work on the radix cache alone. An eviction only marks nodes as evicted on the one replica
(`Evicted`). Its loop ends, and it leaves the size of the replica exact, since it counts the
size anew before it takes the victims off (`handleCacheEvictionForGpu_spec`).
-/

namespace DualMap.Preble

variable {n : ℕ}

/-- The node once it is evicted on a replica. -/
def TreeNode.evictedFrom (x : TreeNode n) (gpu : Fin n) : TreeNode n :=
  { x with
    evictedGpus := Insert.insert gpu x.evictedGpus
    cachedGpus := x.cachedGpus.erase gpu }

@[simp] theorem TreeNode.evictedFrom_evictedFrom (x : TreeNode n) (gpu : Fin n) :
    (x.evictedFrom gpu).evictedFrom gpu = x.evictedFrom gpu := by
  simp [TreeNode.evictedFrom]

theorem TreeNode.not_hasCachedGpu_evictedFrom (x : TreeNode n) (gpu : Fin n) :
    ¬ (x.evictedFrom gpu).hasCachedGpu gpu :=
  fun h => h.2 (Finset.mem_insert_self ..)

theorem TreeNode.hasCachedGpu_evictedFrom_of_ne (x : TreeNode n) {gpu gpu' : Fin n}
    (h : gpu' ≠ gpu) : (x.evictedFrom gpu).hasCachedGpu gpu' ↔ x.hasCachedGpu gpu' := by
  simp [TreeNode.hasCachedGpu, TreeNode.evictedFrom, h]

namespace LPRadixCache

variable {c : LPRadixCache n} {σ : ℕ → List ℕ} {gpu : Fin n}

/-- `evict_callback`. `set.remove` raises where the element is missing. -/
def evictCallback (runtimeSelected : Fin n) (node : ℕ) : Py (LPRadixCache n) ℕ := do
  modifyNode node (fun x => { x with
    evictedGpus := Insert.insert runtimeSelected x.evictedGpus })
  let c ← get
  if runtimeSelected ∈ (c.nodes node).cachedGpus then do
    modifyNode node (fun x => { x with cachedGpus := x.cachedGpus.erase runtimeSelected })
    pure (c.nodes node).value.length
  else
    Py.raise .keyError

/-- `handle_cache_eviction_for_gpu`. -/
def handleCacheEvictionForGpu (maxTokensForGpuList : Fin n → ℚ) (runtimeSelected : Fin n) :
    Py (LPRadixCache n) Unit := do
  let c ← get
  Py.assert (0 ≤ c.allocatedSizeForGpu runtimeSelected)
  if maxTokensForGpuList runtimeSelected < c.allocatedSizeForGpu runtimeSelected then
    evictWithRuntimeIdWithoutRemoving
      (c.allocatedSizeForGpu runtimeSelected - maxTokensForGpuList runtimeSelected)
      (evictCallback runtimeSelected) runtimeSelected
  else pure ()

/-! ## The size of a replica -/

/-- The tokens of the node, if it is cached on the replica. -/
def cachedTokens (c : LPRadixCache n) (gpu : Fin n) (m : ℕ) : ℤ :=
  if (c.nodes m).hasCachedGpu gpu then (c.nodes m).value.length else 0

/-- The allocated size of the replica is what the nodes cached there own. -/
def ExactOn (c : LPRadixCache n) (gpu : Fin n) : Prop :=
  c.allocatedSizeForGpusList gpu = ∑ m ∈ c.allNodes, c.cachedTokens gpu m

theorem cachedTokens_nonneg (c : LPRadixCache n) (gpu : Fin n) (m : ℕ) :
    0 ≤ c.cachedTokens gpu m := by
  unfold cachedTokens
  split
  · exact Int.natCast_nonneg _
  · exact le_refl 0

theorem ExactOn.nonneg (h : c.ExactOn gpu) : 0 ≤ c.allocatedSizeForGpusList gpu :=
  h ▸ Finset.sum_nonneg (fun m _ => c.cachedTokens_nonneg gpu m)

/-- The size stays exact where neither it nor what is cached there changes. -/
theorem ExactOn.congr {c c' : LPRadixCache n} (h : c.ExactOn gpu) (hshape : SameShape c c')
    (halloc : c'.allocatedSizeForGpusList gpu = c.allocatedSizeForGpusList gpu)
    (hcached : ∀ m, (c'.nodes m).hasCachedGpu gpu ↔ (c.nodes m).hasCachedGpu gpu) :
    c'.ExactOn gpu := by
  rw [ExactOn, halloc, hshape.allNodes, h]
  refine Finset.sum_congr rfl (fun m _ => ?_)
  simp only [cachedTokens, hcached, hshape.value]

/-! ## What an eviction changes -/

/-- Nodes were evicted on a replica, and its size was counted. -/
structure Evicted (gpu : Fin n) (c c' : LPRadixCache n) : Prop where
  nextId : c'.nextId = c.nextId
  ticks : c'.ticks = c.ticks
  allNodes : c'.allNodes = c.allNodes
  allocated : ∀ gpu' ≠ gpu, c'.allocatedSizeForGpusList gpu' = c.allocatedSizeForGpusList gpu'
  nodes : ∀ m, c'.nodes m = c.nodes m ∨ c'.nodes m = (c.nodes m).evictedFrom gpu

theorem Evicted.refl (gpu : Fin n) (c : LPRadixCache n) : Evicted gpu c c :=
  ⟨rfl, rfl, rfl, fun _ _ => rfl, fun _ => Or.inl rfl⟩

theorem Evicted.trans {c c' c'' : LPRadixCache n} (h : Evicted gpu c c')
    (h' : Evicted gpu c' c'') : Evicted gpu c c'' where
  nextId := h'.nextId.trans h.nextId
  ticks := h'.ticks.trans h.ticks
  allNodes := h'.allNodes.trans h.allNodes
  allocated := fun gpu' hne => (h'.allocated gpu' hne).trans (h.allocated gpu' hne)
  nodes := by
    intro m
    rcases h.nodes m with hm | hm <;> rcases h'.nodes m with hm' | hm' <;> rw [hm', hm] <;> simp

section Fields

variable {c' : LPRadixCache n} (h : Evicted gpu c c')

include h

theorem Evicted.sameShape : SameShape c c' where
  nextId := h.nextId
  allNodes := h.allNodes
  nodes := by
    intro m
    rcases h.nodes m with hm | hm <;> rw [hm] <;> exact ⟨rfl, rfl, rfl, rfl, rfl⟩

theorem Evicted.numUncompleted (m : ℕ) : (c'.nodes m).numUncompletedRequestForGpuMap =
    (c.nodes m).numUncompletedRequestForGpuMap := by
  rcases h.nodes m with hm | hm
  · rw [hm]
  · rw [hm]
    rfl

theorem Evicted.hasCachedGpu (m : ℕ) {gpu' : Fin n} (hne : gpu' ≠ gpu) :
    (c'.nodes m).hasCachedGpu gpu' ↔ (c.nodes m).hasCachedGpu gpu' := by
  rcases h.nodes m with hm | hm <;> rw [hm]
  exact TreeNode.hasCachedGpu_evictedFrom_of_ne _ hne

theorem Evicted.exactOn {gpu' : Fin n} (hne : gpu' ≠ gpu) (hexact : c.ExactOn gpu') :
    c'.ExactOn gpu' :=
  hexact.congr h.sameShape (h.allocated gpu' hne) (fun m => h.hasCachedGpu m hne)

end Fields

/-! ## One victim -/

/-- The cache after a node was evicted on the replica. -/
def evictOne (c : LPRadixCache n) (gpu : Fin n) (node : ℕ) : LPRadixCache n :=
  { c with
    nodes := Function.update c.nodes node ((c.nodes node).evictedFrom gpu)
    allocatedSizeForGpusList := Function.update c.allocatedSizeForGpusList gpu
      (c.allocatedSizeForGpusList gpu - (c.nodes node).value.length) }

theorem evictOne_evicted (c : LPRadixCache n) (gpu : Fin n) (node : ℕ) :
    Evicted gpu c (c.evictOne gpu node) where
  nextId := rfl
  ticks := rfl
  allNodes := rfl
  allocated := fun gpu' hne => Function.update_of_ne hne ..
  nodes := by
    intro m
    by_cases hm : m = node
    · subst hm
      exact Or.inr (Function.update_self ..)
    · exact Or.inl (Function.update_of_ne hm ..)

/-- The callback evicts the victim that the loop has taken off the size. -/
theorem evictCallback_eq {node : ℕ} (hcached : (c.nodes node).hasCachedGpu gpu) :
    evictCallback gpu node { c with
      allocatedSizeForGpusList := Function.update c.allocatedSizeForGpusList gpu
        (c.allocatedSizeForGpusList gpu - (c.nodes node).value.length) } =
      .ok (c.nodes node).value.length (c.evictOne gpu node) := by
  simp only [evictCallback, modifyNode, Py.bind_apply, Py.modify_apply, Py.get_apply,
    Function.update_self, if_pos hcached.1, Py.pure_apply, Function.update_idem, evictOne,
    TreeNode.evictedFrom]

/-- One node less is cached, and the size is exact without it. -/
theorem evictOne_exactOn {node : ℕ} (hmem : node ∈ c.allNodes)
    (hcached : (c.nodes node).hasCachedGpu gpu) (hexact : c.ExactOn gpu) :
    (c.evictOne gpu node).ExactOn gpu := by
  have hnode : (c.evictOne gpu node).nodes node = (c.nodes node).evictedFrom gpu :=
    Function.update_self ..
  have hself : (c.evictOne gpu node).cachedTokens gpu node = 0 := by
    rw [cachedTokens, hnode, if_neg (TreeNode.not_hasCachedGpu_evictedFrom _ _)]
  have hold : c.cachedTokens gpu node = (c.nodes node).value.length := if_pos hcached
  -- only the victim's term of the sum changes, by as much as the counter
  have hother : ∑ m ∈ c.allNodes.erase node, (c.evictOne gpu node).cachedTokens gpu m =
      ∑ m ∈ c.allNodes.erase node, c.cachedTokens gpu m := by
    refine Finset.sum_congr rfl (fun m hm => ?_)
    have hsame : (c.evictOne gpu node).nodes m = c.nodes m :=
      Function.update_of_ne (Finset.ne_of_mem_erase hm) ..
    simp only [cachedTokens, hsame]
  have hsum := Finset.add_sum_erase c.allNodes (c.cachedTokens gpu) hmem
  have hsum' := Finset.add_sum_erase c.allNodes ((c.evictOne gpu node).cachedTokens gpu) hmem
  have halloc : (c.evictOne gpu node).allocatedSizeForGpusList gpu =
      c.allocatedSizeForGpusList gpu - (c.nodes node).value.length := Function.update_self ..
  show _ = ∑ m ∈ c.allNodes, (c.evictOne gpu node).cachedTokens gpu m
  rw [halloc, hexact, ← hsum, ← hsum', hself, hold, hother]
  omega

/-- The nodes of the tree that are cached on the replica. -/
def cachedNodes (c : LPRadixCache n) (gpu : Fin n) : Finset ℕ :=
  c.allNodes.filter (fun m => (c.nodes m).hasCachedGpu gpu)

theorem card_cachedNodes_evictOne {node : ℕ} (hmem : node ∈ c.allNodes)
    (hcached : (c.nodes node).hasCachedGpu gpu) :
    ((c.evictOne gpu node).cachedNodes gpu).card < (c.cachedNodes gpu).card := by
  have hnode : (c.evictOne gpu node).nodes node = (c.nodes node).evictedFrom gpu :=
    Function.update_self ..
  apply Finset.card_lt_card
  rw [Finset.ssubset_iff_of_subset]
  · refine ⟨node, Finset.mem_filter.mpr ⟨hmem, hcached⟩, fun hin => ?_⟩
    have hin := (Finset.mem_filter.mp hin).2
    rw [hnode] at hin
    exact TreeNode.not_hasCachedGpu_evictedFrom _ _ hin
  · intro m hm
    obtain ⟨hm, hin⟩ := Finset.mem_filter.mp hm
    by_cases hne : m = node
    · rw [hne, hnode] at hin
      exact absurd hin (TreeNode.not_hasCachedGpu_evictedFrom _ _)
    · have hsame : (c.evictOne gpu node).nodes m = c.nodes m := Function.update_of_ne hne ..
      exact Finset.mem_filter.mpr ⟨hm, hsame ▸ hin⟩

/-! ## The loop -/

/-- The heap after a victim: its parent comes in once no other child of it is cached. -/
def leavesAfter (c : LPRadixCache n) (gpu : Fin n) (x : ℕ) (leaves : List ℕ) : List ℕ :=
  match (c.nodes x).parent with
  | none => leaves
  | some parent =>
    if ∀ child ∈ (c.nodes parent).children.values, child ≠ x →
        ¬ (c.nodes child).hasCachedGpu gpu then
      Heapq.heappush (fun m => (c.nodes m).heapKey) leaves parent
    else leaves

/-- The victims of the loop, in their order. -/
def victims (numTokensToEvict : ℚ) (gpu : Fin n) :
    ℕ → LPRadixCache n → List ℕ → ℕ → List ℕ
  | 0, _, _, _ => []
  | fuel + 1, c, leaves, numEvicted =>
    if (numEvicted : ℚ) < numTokensToEvict then
      match Heapq.heappop (fun m => (c.nodes m).heapKey) leaves with
      | none => []
      | some (x, leaves) =>
        if x = rootNode then []
        else if 0 < (c.nodes x).numUncompletedRequestForGpuMap gpu then
          victims numTokensToEvict gpu fuel c leaves numEvicted
        else if (c.nodes x).hasCachedGpu gpu then
          x :: victims numTokensToEvict gpu fuel (c.evictOne gpu x)
            ((c.evictOne gpu x).leavesAfter gpu x leaves)
            (numEvicted + (c.nodes x).value.length)
        else victims numTokensToEvict gpu fuel c leaves numEvicted
    else []

/-- The cache after all victims. -/
def evictAll (c : LPRadixCache n) (gpu : Fin n) (victims : List ℕ) : LPRadixCache n :=
  victims.foldl (fun c x => c.evictOne gpu x) c

/-- Nothing leaves the heap after a victim, -/
theorem mem_leavesAfter {x y : ℕ} {leaves : List ℕ} (hy : y ∈ leaves) :
    y ∈ c.leavesAfter gpu x leaves := by
  unfold leavesAfter
  split
  · exact hy
  · split
    · exact (Heapq.heappush_perm _ _ _).mem_iff.mpr (List.mem_cons_of_mem _ hy)
    · exact hy

/-- and at most one node comes in, -/
theorem length_leavesAfter_le (c : LPRadixCache n) (gpu : Fin n) (x : ℕ) (leaves : List ℕ) :
    (c.leavesAfter gpu x leaves).length ≤ leaves.length + 1 := by
  unfold leavesAfter
  split
  · exact Nat.le_succ _
  · split
    · exact (Heapq.heappush_perm _ _ _).length_eq.le
    · exact Nat.le_succ _

/-- which is a node of the tree. -/
theorem leavesAfter_subset (hc : WellFormed c σ) {x : ℕ} (hx : x ∈ c.allNodes)
    (hroot : x ≠ rootNode) {leaves : List ℕ} (hleaves : ∀ y ∈ leaves, y ∈ c.allNodes) :
    ∀ y ∈ c.leavesAfter gpu x leaves, y ∈ c.allNodes := by
  obtain ⟨p, hp, -, -, hparent, -⟩ := hc.spelled.up x hx hroot
  have hparent : (c.nodes x).parent = some p := hparent
  simp only [leavesAfter, hparent]
  split
  · intro y hy
    rcases List.mem_cons.mp ((Heapq.heappush_perm _ _ _).mem_iff.mp hy) with rfl | hy
    · exact hp
    · exact hleaves y hy
  · exact hleaves

/-- The loop ends, for a turn takes a node off the heap, and where it puts one there it has
evicted another. It evicts its victims. -/
theorem evictLoop_spec (numTokensToEvict : ℚ) (fuel : ℕ) (leaves : List ℕ) (numEvicted : ℕ)
    (hc : WellFormed c σ) (hexact : c.ExactOn gpu) (hleaves : ∀ x ∈ leaves, x ∈ c.allNodes)
    (hfuel : leaves.length + (c.cachedNodes gpu).card < fuel) :
    ∃ c', evictLoop numTokensToEvict (evictCallback gpu) gpu fuel leaves numEvicted c =
      .ok () c' ∧ Evicted gpu c c' ∧ c'.ExactOn gpu ∧
      c' = c.evictAll gpu (victims numTokensToEvict gpu fuel c leaves numEvicted) := by
  induction fuel generalizing c leaves numEvicted with
  | zero => exact absurd hfuel (Nat.not_lt_zero _)
  | succ fuel ih =>
    have hstop : (pure () : Py (LPRadixCache n) Unit) c = .ok () c := rfl
    rw [evictLoop, victims]
    by_cases hmore : (numEvicted : ℚ) < numTokensToEvict
    case neg =>
      rw [if_neg hmore, if_neg hmore]
      exact ⟨c, hstop, .refl gpu c, hexact, rfl⟩
    rw [if_pos hmore, if_pos hmore, Py.bind_ok (Py.get_apply c)]
    cases hpop : Heapq.heappop (fun m => (c.nodes m).heapKey) leaves with
    | none => exact ⟨c, hstop, .refl gpu c, hexact, rfl⟩
    | some popped =>
      obtain ⟨x, rest⟩ := popped
      have hlen : leaves.length = rest.length + 1 := Heapq.heappop_length _ hpop
      have hx : x ∈ c.allNodes := hleaves x (Heapq.heappop_mem _ hpop)
      have hrest : ∀ y ∈ rest, y ∈ c.allNodes :=
        fun y hy => hleaves y (Heapq.heappop_subset _ hpop hy)
      -- a node that is passed over leaves the cache as it is
      have hpass := ih rest numEvicted hc hexact hrest (by omega)
      simp only
      by_cases hroot : x = rootNode
      · rw [if_pos hroot, if_pos hroot]
        exact ⟨c, hstop, .refl gpu c, hexact, rfl⟩
      rw [if_neg hroot, if_neg hroot]
      by_cases hbusy : 0 < (c.nodes x).numUncompletedRequestForGpuMap gpu
      · rw [if_pos hbusy, if_pos hbusy]
        exact hpass
      rw [if_neg hbusy, if_neg hbusy]
      by_cases hcached : (c.nodes x).hasCachedGpu gpu
      case neg =>
        rw [if_neg hcached, if_neg hcached]
        exact hpass
      rw [if_pos hcached, if_pos hcached]
      -- the victim
      have hvictim := evictOne_evicted c gpu x
      have hc₁ := hvictim.sameShape.wellFormed hc
      have hcard := card_cachedNodes_evictOne hx hcached
      obtain ⟨p, hp, -, -, hparent, -⟩ := hc₁.spelled.up x hx hroot
      have hparent : ((c.evictOne gpu x).nodes x).parent = some p := hparent
      have hlength := length_leavesAfter_le (c.evictOne gpu x) gpu x rest
      obtain ⟨c', hrun, hev, hexact', heq⟩ := ih ((c.evictOne gpu x).leavesAfter gpu x rest)
        (numEvicted + (c.nodes x).value.length) hc₁ (evictOne_exactOn hx hcached hexact)
        (leavesAfter_subset hc₁ hx hroot hrest) (by omega)
      refine ⟨c', ?_, hvictim.trans hev, hexact', heq⟩
      rw [Py.bind_ok (Py.modify_apply _ _), Py.bind_ok (evictCallback_eq hcached),
        Py.bind_ok (Py.get_apply _), hparent, Py.ofOption_some, pure_bind, ← hrun]
      simp only [leavesAfter, hparent]
      split <;> rfl

/-! ## A whole eviction -/

/-- The heap holds the cached nodes without uncompleted requests, and the size is exact once
it was counted. -/
theorem collectedNodesWithRuntimeIdx_spec (gpu : Fin n) (hc : WellFormed c σ) :
    ∃ leaves c', collectedNodesWithRuntimeIdx gpu c = .ok leaves c' ∧ Evicted gpu c c' ∧
      c'.ExactOn gpu ∧ c'.nodes = c.nodes ∧ ∀ x, x ∈ leaves ↔ x ∈ c.allNodes ∧
        (c.nodes x).numUncompletedRequestForGpuMap gpu = 0 ∧ (c.nodes x).hasCachedGpu gpu := by
  obtain ⟨hnodup, hnodes⟩ := hc.collectNodes_spec
  refine ⟨_, _, rfl, ⟨rfl, rfl, rfl, ?_, fun m => Or.inl rfl⟩, ?_, rfl, fun x => ?_⟩
  · exact fun gpu' hne => Function.update_of_ne hne ..
  · refine (Function.update_self gpu _ c.allocatedSizeForGpusList).trans ?_
    show _ = ∑ m ∈ c.allNodes, c.cachedTokens gpu m
    rw [← hnodes, List.sum_toFinset _ hnodup]
    -- the sum over the cached nodes is a sum over all of them
    induction c.collectNodes with
    | nil => rfl
    | cons m nodes ih =>
      rw [List.map_cons, List.sum_cons, ← ih, List.filter_cons]
      by_cases hm : (c.nodes m).hasCachedGpu gpu
      · simp [hm, cachedTokens]
      · simp [hm, cachedTokens]
  · rw [(Heapq.foldl_heappush_perm (fun m => (c.nodes m).heapKey) _ _).mem_iff, List.append_nil,
      List.mem_filter, decide_eq_true_eq, ← hnodes, List.mem_toFinset]

/-- An eviction on the replica begins with the node among its candidates. -/
def Evictable (c : LPRadixCache n) (gpu : Fin n) (m : ℕ) : Prop :=
  ∃ leaves c', collectedNodesWithRuntimeIdx gpu c = .ok leaves c' ∧ m ∈ leaves

theorem evictable_iff (hc : WellFormed c σ) (gpu : Fin n) (m : ℕ) :
    c.Evictable gpu m ↔ m ∈ c.allNodes ∧
      (c.nodes m).numUncompletedRequestForGpuMap gpu = 0 ∧ (c.nodes m).hasCachedGpu gpu := by
  obtain ⟨leaves, c', hrun, -, -, -, hleaves⟩ := collectedNodesWithRuntimeIdx_spec gpu hc
  rw [← hleaves]
  constructor
  · rintro ⟨leaves', c'', hrun', hmem⟩
    obtain ⟨rfl, -⟩ := EStateM.Result.ok.inj (hrun.symm.trans hrun')
    exact hmem
  · intro hm
    exact ⟨leaves, c', hrun, hm⟩

/-- Counting the size anew changes nothing where it was exact. -/
theorem Evicted.eq_of_exactOn {c' : LPRadixCache n} (h : Evicted gpu c c')
    (hnodes : c'.nodes = c.nodes) (hexact : c.ExactOn gpu) (hexact' : c'.ExactOn gpu) :
    c' = c := by
  have halloc : c'.allocatedSizeForGpusList = c.allocatedSizeForGpusList := by
    funext gpu'
    by_cases hne : gpu' = gpu
    · rw [hne, hexact, hexact', h.allNodes]
      simp only [cachedTokens, hnodes]
    · exact h.allocated gpu' hne
  obtain ⟨hnext, hticks, hall, -, -⟩ := h
  cases c
  cases c'
  simp_all

/-- The victims of `evict_with_runtime_id_without_removing`. -/
def evictionVictims (c : LPRadixCache n) (numTokensToEvict : ℚ) (gpu : Fin n) : List ℕ :=
  match collectedNodesWithRuntimeIdx gpu c with
  | .ok leaves c =>
    victims numTokensToEvict gpu (leaves.length + c.allNodes.card + 1) c
      (Heapq.heapify (fun m => (c.nodes m).heapKey) leaves) 0
  | .error _ _ => []

/-- An eviction returns, and leaves the size of its replica exact. -/
theorem evictWithRuntimeId_spec (numTokensToEvict : ℚ) (gpu : Fin n) (hc : WellFormed c σ) :
    ∃ c', evictWithRuntimeIdWithoutRemoving numTokensToEvict (evictCallback gpu) gpu c =
      .ok () c' ∧ Evicted gpu c c' ∧ c'.ExactOn gpu ∧
      (c.ExactOn gpu → c' = c.evictAll gpu (c.evictionVictims numTokensToEvict gpu)) := by
  -- collecting recounts the size and changes no node, so both heaps order the same nodes
  obtain ⟨leaves, c₁, hcollect, hev, hexact, hnodes, hmem⟩ :=
    collectedNodesWithRuntimeIdx_spec gpu hc
  have hheap := Heapq.heapify_perm (fun m => (c₁.nodes m).heapKey) leaves
  have hcard : (c₁.cachedNodes gpu).card ≤ c₁.allNodes.card := Finset.card_filter_le _ _
  have htree : ∀ x ∈ leaves, x ∈ c₁.allNodes := by
    intro x hx
    rw [hev.allNodes]
    exact ((hmem x).mp hx).1
  obtain ⟨c', hrun, hev', hexact', heq⟩ := evictLoop_spec numTokensToEvict
    (leaves.length + c₁.allNodes.card + 1) (Heapq.heapify _ leaves) 0
    (hev.sameShape.wellFormed hc) hexact (fun x hx => htree x (hheap.mem_iff.mp hx))
    (by rw [hheap.length_eq]; omega)
  refine ⟨c', ?_, hev.trans hev', hexact', fun hexact₀ => ?_⟩
  · rw [evictWithRuntimeIdWithoutRemoving, Py.bind_ok hcollect, Py.bind_ok (Py.get_apply _)]
    exact hrun
  · rw [heq, evictionVictims, hcollect, hev.eq_of_exactOn hnodes hexact₀ hexact]

/-- The victims of `handle_cache_eviction_for_gpu`. -/
def handlerVictims (c : LPRadixCache n) (maxTokensForGpuList : Fin n → ℚ) (gpu : Fin n) :
    List ℕ :=
  if maxTokensForGpuList gpu < c.allocatedSizeForGpu gpu then
    c.evictionVictims (c.allocatedSizeForGpu gpu - maxTokensForGpuList gpu) gpu
  else []

/-- The handler finds the size as it should be, evicts if it has to, and leaves the size
exact. -/
theorem handleCacheEvictionForGpu_spec (maxTokensForGpuList : Fin n → ℚ)
    (hc : WellFormed c σ) (hexact : c.ExactOn gpu) :
    ∃ c', handleCacheEvictionForGpu maxTokensForGpuList gpu c = .ok () c' ∧
      Evicted gpu c c' ∧ c'.ExactOn gpu ∧
      c' = c.evictAll gpu (c.handlerVictims maxTokensForGpuList gpu) := by
  rw [handleCacheEvictionForGpu, Py.bind_ok (Py.get_apply c),
    Py.assert_pos (show 0 ≤ c.allocatedSizeForGpu gpu from hexact.nonneg), pure_bind,
    handlerVictims]
  split
  · obtain ⟨c', hrun, hev, hexact', heq⟩ := evictWithRuntimeId_spec
      (c.allocatedSizeForGpu gpu - maxTokensForGpuList gpu) gpu hc
    exact ⟨c', hrun, hev, hexact', heq hexact⟩
  · exact ⟨c, rfl, .refl gpu c, hexact, rfl⟩

/-! ## Virtual eviction -/

/-- How many turns a heap can still take: a node, and then the nodes above it. -/
def turnsLeft (c : LPRadixCache n) (leaves : List ℕ) : ℕ :=
  (leaves.map (fun m => (c.nodes m).contextLength + 1)).sum

theorem turnsLeft_perm {leaves leaves' : List ℕ} (h : leaves.Perm leaves') :
    c.turnsLeft leaves = c.turnsLeft leaves' := (h.map _).sum_eq

/-- The loop ends: a node makes room for its parent at most, whose context is shorter. -/
theorem virtualEvictLoop_spec (hc : WellFormed c σ) (numTokensToEvict : ℕ) (gpu : Fin n)
    (fuel : ℕ) (leaves : List ℕ) (numEvicted : ℕ) (visited : Finset ℕ)
    (hleaves : ∀ x ∈ leaves, x ∈ c.allNodes) (hfuel : c.turnsLeft leaves < fuel) :
    ∃ victims, c.virtualEvictLoop numTokensToEvict gpu fuel leaves numEvicted visited =
      .ok victims := by
  induction fuel generalizing leaves numEvicted visited with
  | zero => exact absurd hfuel (Nat.not_lt_zero _)
  | succ fuel ih =>
    rw [virtualEvictLoop]
    split
    · cases hpop : Heapq.heappop (fun m => (c.nodes m).heapKey) leaves with
      | none => exact ⟨visited, rfl⟩
      | some popped =>
        obtain ⟨x, rest⟩ := popped
        have hx : x ∈ c.allNodes := hleaves x (Heapq.heappop_mem _ hpop)
        have hrest : ∀ y ∈ rest, y ∈ c.allNodes :=
          fun y hy => hleaves y (Heapq.heappop_subset _ hpop hy)
        have hturns := turnsLeft_perm (c := c) (Heapq.heappop_perm _ hpop)
        have hcons : ∀ y l, c.turnsLeft (y :: l) = (c.nodes y).contextLength + 1 + c.turnsLeft l :=
          fun y l => by rw [turnsLeft, List.map_cons, List.sum_cons]; rfl
        rw [hcons] at hturns
        simp only
        by_cases hroot : x = rootNode
        · rw [if_pos hroot]
          exact ⟨visited, rfl⟩
        rw [if_neg hroot]
        obtain ⟨p, hp, a, -, hparent, -, hedge, -⟩ := hc.spelled.up x hx hroot
        have hparent : (c.nodes x).parent = some p := hparent
        -- the parent is pushed when its last cached child is visited, and its turn is shorter
        have hshorter : (c.nodes p).contextLength < (c.nodes x).contextLength := by
          rw [hc.context p hp, hc.context x hx]
          exact hc.spelled.length_lt hp hedge
        rw [hparent]
        simp only
        have hpush := Heapq.heappush_perm (fun m => (c.nodes m).heapKey) rest p
        have hpushed := turnsLeft_perm (c := c) hpush
        rw [hcons] at hpushed
        split
        · refine ih _ _ _ (fun y hy => ?_) (by omega)
          rcases List.mem_cons.mp (hpush.mem_iff.mp hy) with rfl | hy
          · exact hp
          · exact hrest y hy
        · exact ih _ _ _ hrest (by omega)
    · exact ⟨visited, rfl⟩

theorem virtualLruEviction_spec (rt : Runtime n) (hc : WellFormed c σ) (numTokensToEvict : ℕ)
    (gpu : Fin n) : ∃ victims, c.virtualLruEviction rt numTokensToEvict gpu = .ok victims := by
  have hheap := Heapq.heapify_perm (fun m => (c.nodes m).heapKey)
    (c.collectNodesOnRuntime rt gpu)
  refine virtualEvictLoop_spec hc numTokensToEvict gpu _ _ 0 ∅ (fun x hx => ?_) ?_
  · have hx := (Heapq.foldl_heappush_perm (fun m => (c.nodes m).heapKey) _ _).mem_iff.mp
      (hheap.mem_iff.mp hx)
    rw [List.append_nil] at hx
    exact ((rt.iterNodes_perm c.allNodes).2 x).mp (List.mem_filter.mp hx).1
  · rw [turnsLeft_perm hheap]
    exact Nat.lt_succ_self _

end LPRadixCache

end DualMap.Preble
