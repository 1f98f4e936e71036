import DualMap.Preble.PrebleGlobalScheduler
import DualMap.Preble.ReferenceCounts
import DualMap.Preble.WindowChanges

/-!
# The Invariant of the Preble Scheduler

Between two calls the tree of the scheduler is well formed, its counts and sizes are exact,
its window is in step, every node but the root has an allocation, and the replicas have their
times per token (`Sound`). While a request is scheduled, its leaf may be without an
allocation. The nodes of the window are nodes of the tree, so an insertion leaves their
lengths alone, and a node that it makes is not in the window yet.
-/

namespace DualMap.Preble

namespace PrebleGlobalSchedulerUtils

open LPRadixCache (Accounted SameShape WellFormed rootNode)
open SlidingWindowHistogram (Windowed SameWindow)

variable {n : ℕ} {rt : Runtime n} {s s' : PrebleGlobalSchedulerUtils n} {σ : ℕ → List ℕ}
  {reserved : List (List ℕ × Fin n)} {fresh : Finset ℕ}

/-! ## Running code on a part of the state -/

theorem onCache_ok {α : Type} {code : Py (LPRadixCache n) α} {a : α} {c : LPRadixCache n}
    (h : code s.cache = .ok a c) : onCache code s = .ok a { s with cache := c } :=
  Py.zoom_ok h

theorem onHistogram_ok {α : Type} {code : (ℕ → TreeNode n) → Py (SlidingWindowHistogram n) α}
    {a : α} {h' : SlidingWindowHistogram n} (h : code s.cache.nodes s.histogram = .ok a h') :
    onHistogram code s = .ok a { s with histogram := h' } := by
  rw [onHistogram, Py.zoom_ok h]

/-! ## The invariant -/

/-- What holds of the scheduler when the requests `reserved` hold their paths; the nodes
`fresh` may be without an allocation. -/
structure Sound (s : PrebleGlobalSchedulerUtils n) (σ : ℕ → List ℕ)
    (reserved : List (List ℕ × Fin n)) (fresh : Finset ℕ) : Prop where
  accounted : Accounted s.cache σ reserved
  windowed : Windowed s.cache.nodes s.histogram
  inTree : ∀ entry ∈ s.histogram.timestamps,
    entry.node ∈ s.cache.allNodes ∧ entry.leafNode ∈ s.cache.allNodes
  allocated : ∀ m ∈ s.cache.allNodes, m ≠ rootNode → m ∉ fresh → m ∈ s.gpuAllocations.keys
  topts : ∀ gpu, none ∉ (s.histogram.toptQueuesForGpus gpu).items

theorem init_sound (rt : Runtime n) (windowDuration maxDramTokens prefillTpot : ℚ) :
    Sound (init rt windowDuration maxDramTokens prefillTpot) (fun _ => []) [] ∅ where
  accounted := LPRadixCache.init_accounted rt
  windowed := SlidingWindowHistogram.init_windowed _ windowDuration prefillTpot
  inTree := fun _ h => absurd h List.not_mem_nil
  allocated := fun _ hm hroot => absurd (Finset.mem_singleton.mp hm) hroot
  topts := by
    intro gpu hnone
    have hnone : none ∈ [some (15 / 100 : ℚ)] := hnone
    cases List.mem_singleton.mp hnone

theorem Sound.mono (hs : Sound s σ reserved fresh) {fresh' : Finset ℕ} (h : fresh ⊆ fresh') :
    Sound s σ reserved fresh' :=
  { hs with allocated := fun m hm hroot hfresh =>
      hs.allocated m hm hroot (fun hin => hfresh (h hin)) }

theorem Sound.wellFormed (hs : Sound s σ reserved fresh) : WellFormed s.cache σ :=
  hs.accounted.wellFormed

/-- Changes of the counters and of the overload detector. -/
theorem Sound.congr (hs : Sound s σ reserved fresh) (hcache : s'.cache = s.cache)
    (hhist : s'.histogram = s.histogram) : Sound s' σ reserved fresh where
  accounted := hcache ▸ hs.accounted
  windowed := by
    rw [hcache, hhist]
    exact hs.windowed
  inTree := by
    rw [hcache, hhist]
    exact hs.inTree
  allocated := by
    rw [gpuAllocations, hcache, hhist]
    exact hs.allocated
  topts := hhist ▸ hs.topts

/-- Changes of the cache that leave the tree as it is. -/
theorem Sound.withCache {c : LPRadixCache n} {reserved' : List (List ℕ × Fin n)}
    (hs : Sound s σ reserved fresh) (hshape : SameShape s.cache c)
    (hc : Accounted c σ reserved') : Sound { s with cache := c } σ reserved' fresh where
  accounted := hc
  windowed := hs.windowed.congr (fun entry _ => hshape.contextLength entry.leafNode)
  inTree := by
    show ∀ entry ∈ s.histogram.timestamps, entry.node ∈ c.allNodes ∧ entry.leafNode ∈ c.allNodes
    rw [hshape.allNodes]
    exact hs.inTree
  allocated := by
    show ∀ m ∈ c.allNodes, m ≠ rootNode → m ∉ fresh → m ∈ s.gpuAllocations.keys
    rw [hshape.allNodes]
    exact hs.allocated
  topts := hs.topts

/-- Changes of the window over the same tree. -/
theorem Sound.withHistogram {h : SlidingWindowHistogram n} (hs : Sound s σ reserved fresh)
    (hw : Windowed s.cache.nodes h)
    (htree : ∀ entry ∈ h.timestamps,
      entry.node ∈ s.cache.allNodes ∧ entry.leafNode ∈ s.cache.allNodes)
    (halloc : ∀ m ∈ s.gpuAllocations.keys, m ∈ h.gpuAllocations.keys)
    (htopts : h.toptQueuesForGpus = s.histogram.toptQueuesForGpus) :
    Sound { s with histogram := h } σ reserved fresh where
  accounted := hs.accounted
  windowed := hw
  inTree := htree
  allocated := fun m hm hroot hfresh => halloc m (hs.allocated m hm hroot hfresh)
  topts := by
    show ∀ gpu, none ∉ (h.toptQueuesForGpus gpu).items
    rw [htopts]
    exact hs.topts

theorem Sound.sameWindow {h : SlidingWindowHistogram n} (hs : Sound s σ reserved fresh)
    (hsame : SameWindow s.histogram h) : Sound { s with histogram := h } σ reserved fresh := by
  have hw := hs.windowed.of_sameWindow hsame
  obtain ⟨_, _, _, rfl⟩ := hsame
  exact hs.withHistogram hw hs.inTree (fun _ h => h) rfl

/-- The state after `gpu_allocations[node] = gpus`. -/
def withAllocation (s : PrebleGlobalSchedulerUtils n) (node : ℕ) (gpus : Finset (Fin n)) :
    PrebleGlobalSchedulerUtils n :=
  { s with histogram :=
      { s.histogram with gpuAllocations := s.gpuAllocations.set node gpus } }

theorem setGpuAllocation_eq (node : ℕ) (gpus : Finset (Fin n)) :
    setGpuAllocation node gpus s = .ok () (s.withAllocation node gpus) := rfl

theorem mem_withAllocation {node m : ℕ} {gpus : Finset (Fin n)} :
    m ∈ (s.withAllocation node gpus).gpuAllocations.keys ↔
      m = node ∨ m ∈ s.gpuAllocations.keys := OrderedDict.mem_keys_set

theorem Sound.withAllocation (hs : Sound s σ reserved fresh) (node : ℕ)
    (gpus : Finset (Fin n)) : Sound (s.withAllocation node gpus) σ reserved (fresh.erase node) where
  accounted := hs.accounted
  windowed := { hs.windowed with
    allocated := fun entry hentry =>
      OrderedDict.mem_keys_set.mpr (Or.inr (hs.windowed.allocated entry hentry)) }
  inTree := hs.inTree
  allocated := by
    intro m hm hroot hfresh
    rw [mem_withAllocation]
    by_cases hnode : m = node
    · exact Or.inl hnode
    · exact Or.inr (hs.allocated m hm hroot
        (fun hin => hfresh (Finset.mem_erase.mpr ⟨hnode, hin⟩)))
  topts := hs.topts

/-- The replicas that a node is allocated to. -/
def holders (s : PrebleGlobalSchedulerUtils n) (node : ℕ) : Finset (Fin n) :=
  (s.gpuAllocations.get? node).getD ∅

theorem holders_withAllocation (s : PrebleGlobalSchedulerUtils n) (node m : ℕ)
    (gpus : Finset (Fin n)) :
    (s.withAllocation node gpus).holders m = if m = node then gpus else s.holders m := by
  have hget : (s.withAllocation node gpus).gpuAllocations.get? m =
      if m = node then some gpus else s.gpuAllocations.get? m := OrderedDict.get?_set ..
  rw [holders, hget, holders]
  split <;> rfl

theorem holders_of_get? {node : ℕ} {gpus : Finset (Fin n)}
    (hgpus : s.gpuAllocations.get? node = some gpus) : s.holders node = gpus := by
  rw [holders, hgpus, Option.getD_some]

theorem holders_congr (h : s'.histogram.gpuAllocations = s.histogram.gpuAllocations) (node : ℕ) :
    s'.holders node = s.holders node := by
  rw [holders, holders, gpuAllocations, gpuAllocations, h]

/-! ## The important ancestor -/

/-- The node owns what its path has beyond that of its parent. -/
theorem isUnshare_of_top {c : LPRadixCache n} (hc : WellFormed c σ) {m a : ℕ}
    (hedge : c.tree.Edge rootNode a m) :
    (c.nodes m).contextSoFar < (c.nodes m).numTokens := by
  obtain ⟨hm, -⟩ := hc.spelled.down rootNode hc.root_mem a m hedge
  have hspell : σ m = c.tree.label m := by
    rw [hc.spelled.spell_child hc.root_mem hedge]
    show σ c.tree.root ++ _ = _
    rw [hc.spelled.root_spell, List.nil_append]
  have hlength : (c.nodes m).contextLength = (c.nodes m).numTokens := by
    rw [hc.context m hm, TreeNode.numTokens, hc.value_eq m hm, hspell]
    rfl
  have hpos : 0 < (c.nodes m).numTokens := by
    rw [TreeNode.numTokens, hc.value_eq m hm]
    exact List.length_pos_of_ne_nil
      (hc.spelled.label_ne_nil hm (hc.spelled.ne_root hc.root_mem hedge))
  rw [TreeNode.contextSoFar, hlength]
  omega

/-- A node is important when what lies before it is less than half of its path. -/
theorem isUnshare_iff (s : PrebleGlobalSchedulerUtils n) (m : ℕ) :
    s.IsUnsharePrefixOver50PercentForNode m ↔
      2 * (s.cache.nodes m).contextSoFar < (s.cache.nodes m).contextLength := by
  rw [IsUnsharePrefixOver50PercentForNode, TreeNode.contextSoFar]
  omega

/-- The important ancestor is the important node on the path with the longest path itself. -/
theorem getNearestAncestor_iff (hc : WellFormed s.cache σ) {leaf node : ℕ}
    (hleaf : leaf ∈ s.cache.allNodes) :
    s.getNearestAncestorNodeWithLowSharePrefixRatio (some leaf) = some node ↔
      node ∈ s.cache.ancestors leaf ∧ s.IsUnsharePrefixOver50PercentForNode node ∧
        ∀ m ∈ s.cache.ancestors leaf, s.IsUnsharePrefixOver50PercentForNode m →
          (s.cache.nodes m).contextLength ≤ (s.cache.nodes node).contextLength := by
  have hsorted : (s.cache.ancestors leaf).Pairwise
      (fun x y => (s.cache.nodes y).contextLength < (s.cache.nodes x).contextLength) := by
    have hfalling : (s.cache.ancestors leaf).Pairwise
        (fun x y => (σ y).length < (σ x).length) :=
      hc.spelled.ancestors_sorted hleaf (by rw [hc.context leaf hleaf]; omega)
    refine hfalling.imp_of_mem (fun {x y} hx hy hlt => ?_)
    rw [hc.context x ((hc.mem_ancestors hleaf).mp hx).1,
      hc.context y ((hc.mem_ancestors hleaf).mp hy).1]
    exact hlt
  show (s.cache.ancestors leaf).find?
      (fun m => s.IsUnsharePrefixOver50PercentForNode m) = some node ↔ _
  rw [RadixTree.find?_iff_of_falling hsorted]
  simp only [decide_eq_true_eq]

/-- Every path that is not empty has an important node: the first one below the root. -/
theorem Sound.getNearestAncestor (hs : Sound s σ reserved fresh) {leaf : ℕ}
    (hleaf : leaf ∈ s.cache.allNodes) (hne : σ leaf ≠ []) :
    ∃ node, s.getNearestAncestorNodeWithLowSharePrefixRatio (some leaf) = some node ∧
      node ∈ s.cache.ancestors leaf ∧ s.IsUnsharePrefixOver50PercentForNode node := by
  have hc := hs.wellFormed
  have hroot : σ s.cache.tree.root = [] := hc.spelled.root_spell
  -- the top node on the way owns all its tokens, so the search upwards finds some node
  have hsome : ∃ m ∈ s.cache.ancestors leaf, s.IsUnsharePrefixOver50PercentForNode m := by
    rcases hc.spelled.prefix_child (p := s.cache.tree.root) hc.root_mem hleaf
      (hroot ▸ List.nil_prefix) with heq | ⟨a, top, hedge, hpre⟩
    · exact absurd (heq ▸ hroot) hne
    · obtain ⟨htop, -⟩ := hc.spelled.down rootNode hc.root_mem a top hedge
      exact ⟨top, (hc.mem_ancestors hleaf).mpr ⟨htop, hpre⟩, isUnshare_of_top hc hedge⟩
  obtain ⟨m, hm, hunshare⟩ := hsome
  have hfind : ((s.cache.ancestors leaf).find?
      (fun m => s.IsUnsharePrefixOver50PercentForNode m)).isSome := by
    rw [List.find?_isSome]
    exact ⟨m, hm, decide_eq_true hunshare⟩
  obtain ⟨node, hnode⟩ := Option.isSome_iff_exists.mp hfind
  have hfound := List.find?_some hnode
  rw [decide_eq_true_eq] at hfound
  exact ⟨node, hnode, List.mem_of_find?_eq_some hnode, hfound⟩

/-! ## Choosing a replica -/

/-- The first smallest item of a list that is not empty. -/
theorem argmin_spec {costs : List ℚ} (hne : costs ≠ []) :
    ∃ position, argmin costs = some position ∧ ∃ h : position < costs.length,
      (∀ cost ∈ costs, costs[position] ≤ cost) ∧
      ∀ i, (hi : i < position) → costs[position] < costs[i] := by
  obtain ⟨least, hleast⟩ := Option.isSome_iff_exists.mp (List.isSome_min?_of_ne_nil hne)
  obtain ⟨hmem, hle⟩ := List.min?_eq_some_iff.mp hleast
  have hlt := List.idxOf_lt_length_of_mem hmem
  refine ⟨costs.idxOf least, by rw [argmin, hleast]; rfl, hlt, ?_, ?_⟩
  · intro cost hcost
    rw [List.getElem_idxOf]
    exact hle cost hcost
  · intro i hi
    rw [List.getElem_idxOf]
    have hother := List.not_of_lt_findIdx hi
    refine lt_of_le_of_ne (hle _ (List.getElem_mem _)) (fun heq => ?_)
    rw [← heq, beq_self_eq_true] at hother
    cases hother

/-- What `calculate_min_load_cost` compares: the load of a replica, and the cost of making
room for the leaf there. -/
def loadCost (rt : Runtime n) (s : PrebleGlobalSchedulerUtils n) (leafNode : ℕ)
    (gpu : Fin n) : ℚ :=
  match SlidingWindowHistogram.getTotalPrefillDecodeCostForGpus s.cache.nodes s.histogram,
    s.getVirtualEvictionPrefillCostForRouting rt leafNode gpu with
  | .ok costs _, .ok cost => costs gpu + cost
  | _, _ => 0

theorem Sound.loadCost_spec (rt : Runtime n) (hs : Sound s σ reserved fresh) (leaf : ℕ)
    (gpu : Fin n) : ∃ costs cost,
      SlidingWindowHistogram.getTotalPrefillDecodeCostForGpus s.cache.nodes s.histogram =
        .ok costs s.histogram ∧
      s.getVirtualEvictionPrefillCostForRouting rt leaf gpu = .ok cost ∧
      s.loadCost rt leaf gpu = costs gpu + cost := by
  have hcosts := hs.windowed.getTotalPrefillDecodeCost hs.topts
  obtain ⟨victims, hvictims⟩ := LPRadixCache.virtualLruEviction_spec rt hs.wellFormed
    (s.cache.nodes leaf).numTokens gpu
  have hcost : ∃ cost, s.getVirtualEvictionPrefillCostForRouting rt leaf gpu = .ok cost := by
    rw [getVirtualEvictionPrefillCostForRouting, hvictims]
    exact ⟨_, rfl⟩
  obtain ⟨cost, hcost⟩ := hcost
  exact ⟨_, cost, hcosts, hcost, by rw [loadCost, hcosts, hcost]⟩

/-- The costs can be computed, and computing them changes nothing. -/
theorem Sound.calculateMinLoadCost_eq (rt : Runtime n) (hs : Sound s σ reserved fresh)
    (leaf : ℕ) (gpus : List (Fin n)) : calculateMinLoadCost rt leaf gpus s =
      Py.ofOption .valueError (argmin (gpus.map (s.loadCost rt leaf))) s := by
  have hcosts := hs.windowed.getTotalPrefillDecodeCost hs.topts
  rw [calculateMinLoadCost, Py.bind_ok (onHistogram_ok hcosts)]
  refine Py.bind_ok (Py.mapM_returns (f := s.loadCost rt leaf) (fun gpu _ => ?_))
  obtain ⟨costs', cost, hcosts', hcost, hload⟩ := hs.loadCost_spec rt leaf gpu
  obtain ⟨rfl, -⟩ := EStateM.Result.ok.inj (hcosts.symm.trans hcosts')
  rw [Py.bind_ok (Py.get_apply _), hcost, hload]
  rfl

/-- The position that is found is one in the list of replicas. -/
theorem Sound.calculateMinLoadCost_lt (rt : Runtime n) (hs : Sound s σ reserved fresh)
    (leaf : ℕ) {gpus : List (Fin n)} (hne : gpus ≠ []) :
    ∃ position, calculateMinLoadCost rt leaf gpus s = .ok position s ∧
      position < gpus.length := by
  have hcosts : gpus.map (s.loadCost rt leaf) ≠ [] :=
    fun hnil => hne (List.map_eq_nil_iff.mp hnil)
  obtain ⟨position, hargmin, hlt, -⟩ := argmin_spec hcosts
  rw [List.length_map] at hlt
  rw [hs.calculateMinLoadCost_eq, hargmin]
  exact ⟨position, rfl, hlt⟩

theorem getParentGpuAllocation_nonempty (s : PrebleGlobalSchedulerUtils n) (node : ℕ)
    (hn : 0 < n) : (s.getParentGpuAllocation node).Nonempty := by
  rw [getParentGpuAllocation]
  cases hfind : (s.cache.ancestors node).findSome?
      (fun m => (s.gpuAllocations.get? m).filter (· ≠ ∅)) with
  | none => exact ⟨⟨0, hn⟩, Finset.mem_univ _⟩
  | some gpus =>
    obtain ⟨m, -, hm⟩ := List.exists_of_findSome?_eq_some hfind
    obtain ⟨-, hgpus⟩ := Option.filter_eq_some_iff.mp hm
    rw [Option.getD_some, Finset.nonempty_iff_ne_empty]
    exact of_decide_eq_true hgpus

end PrebleGlobalSchedulerUtils

namespace PrebleGlobalScheduler

open PrebleGlobalSchedulerUtils

variable {n : ℕ} {rt : Runtime n} {s : PrebleGlobalSchedulerUtils n} {σ : ℕ → List ℕ}
  {reserved : List (List ℕ × Fin n)} {fresh : Finset ℕ}

theorem replicaAt_eq {position : ℕ} (h : position < n) :
    (replicaAt position : Py (PrebleGlobalSchedulerUtils n) (Fin n)) = pure ⟨position, h⟩ := by
  rw [replicaAt, dif_pos h, Py.ofOption_some]

/-- A replica is always found: a list of replicas is no longer than there are replicas, so
a position in it is the id of one. -/
theorem chooseReplica_spec (rt : Runtime n) (hs : Sound s σ reserved fresh) (hn : 0 < n)
    (leaf : ℕ) :
    ∃ gpu, chooseReplica rt leaf s = .ok gpu s := by
  have hchoose : ∀ gpus : List (Fin n), gpus ≠ [] → gpus.length ≤ n →
      ∃ gpu, (do let position ← calculateMinLoadCost rt leaf gpus
                 replicaAt position) s = .ok gpu s := by
    intro gpus hne hlength
    obtain ⟨position, hrun, hlt⟩ := hs.calculateMinLoadCost_lt rt leaf hne
    rw [Py.bind_ok hrun, replicaAt_eq (lt_of_lt_of_le hlt hlength)]
    exact ⟨_, rfl⟩
  rw [chooseReplica, Py.bind_ok (Py.get_apply s)]
  -- a shared prompt goes to a holder of its parent, any other to the least loaded replica
  split
  · obtain ⟨gpu, hgpu⟩ := s.getParentGpuAllocation_nonempty leaf hn
    obtain ⟨hnodup, hmem⟩ := rt.iterGpus_perm (s.getParentGpuAllocation leaf)
    have hgpus : rt.iterGpus (s.getParentGpuAllocation leaf) ≠ [] :=
      List.ne_nil_of_mem ((hmem gpu).mpr hgpu)
    simp only
    split
    · exact hchoose _ hgpus (by simpa using hnodup.length_le_card)
    · obtain ⟨first, rest, hcons⟩ := List.exists_cons_of_ne_nil hgpus
      rw [hcons]
      exact ⟨first, rfl⟩
  · refine hchoose _ (fun hnil => ?_) (le_of_eq List.length_finRange)
    rw [← List.length_eq_zero_iff, List.length_finRange] at hnil
    exact absurd hnil hn.ne'

end PrebleGlobalScheduler

end DualMap.Preble
