import DualMap.Preble.SplitNodes

/-!
# Moving Nodes Between Replicas

`handle_important_node_stealing` only changes allocations, costs and the clock. It looks at
nodes of the window, which have allocations, and it never takes a node's allocation away
without giving it another one; the nodes on its heap stay important, since the tree does not
change. So it keeps the invariant and always returns.
-/

namespace DualMap.Preble

variable {n : ℕ} {σ : ℕ → List ℕ} {reserved : List (List ℕ × Fin n)} {fresh : Finset ℕ}

namespace SlidingWindowHistogram

/-- Moving the costs of a node keeps the window in step. -/
theorem Windowed.updateGpusCostWithMigrateNode_spec {nodes : ℕ → TreeNode n}
    {h : SlidingWindowHistogram n} (hw : Windowed nodes h) (node : ℕ) (fromGpu toGpu : Fin n) :
    ∃ h', updateGpusCostWithMigrateNode node fromGpu toGpu h = .ok () h' ∧ Windowed nodes h' ∧
      ∃ costs lengths remembered totals, h' = { h with
        curActualPrefillCostForGpu := costs
        currentDecodeLengthsPerGpu := lengths
        actualPrefillCostPerGpuForNodeMaps := remembered
        totalDecodeLengthForNodeMaps := totals } := by
  refine ⟨_, rfl, ?_, ⟨_, _, _, _, rfl⟩⟩
  exact { histogram := hw.histogram
          sumPrompt := hw.sumPrompt
          numRequests := hw.numRequests
          sumShare := hw.sumShare
          ratio := hw.ratio
          curNumDecode := hw.curNumDecode
          totalDecode := fun entry hentry =>
            OrderedDict.mem_keys_read.mpr (Or.inr (hw.totalDecode entry hentry))
          positive := hw.positive
          allocated := hw.allocated }

end SlidingWindowHistogram

namespace PrebleGlobalSchedulerUtils

variable {rt : Runtime n} {s s' s'' : PrebleGlobalSchedulerUtils n}

/-! ## What changes -/

/-- The window and the tree stay, and no replica but one gains nodes. -/
structure GivesTo (light : Fin n) (s s' : PrebleGlobalSchedulerUtils n) : Prop where
  shape : LPRadixCache.SameShape s.cache s'.cache
  timestamps : s'.histogram.timestamps = s.histogram.timestamps
  onlyLight : ∀ m gpu, gpu ≠ light → gpu ∈ s'.holders m → gpu ∈ s.holders m

theorem GivesTo.refl (light : Fin n) (s : PrebleGlobalSchedulerUtils n) : GivesTo light s s :=
  ⟨.refl _, rfl, fun _ _ _ h => h⟩

theorem GivesTo.trans {light : Fin n} (h : GivesTo light s s') (h' : GivesTo light s' s'') :
    GivesTo light s s'' where
  shape := h.shape.trans h'.shape
  timestamps := h'.timestamps.trans h.timestamps
  onlyLight := fun m gpu hne hgpu => h.onlyLight m gpu hne (h'.onlyLight m gpu hne hgpu)

theorem givesTo_withAllocation (s : PrebleGlobalSchedulerUtils n) (node : ℕ) {light : Fin n}
    {gpus : Finset (Fin n)} (hgpus : ∀ gpu ∈ gpus, gpu ≠ light → gpu ∈ s.holders node) :
    GivesTo light s (s.withAllocation node gpus) where
  shape := .refl _
  timestamps := rfl
  onlyLight := by
    intro m gpu hne hgpu
    rw [holders_withAllocation] at hgpu
    split at hgpu
    · next hm =>
      subst hm
      exact hgpus gpu hgpu hne
    · exact hgpu

/-- What moving load to a replica does: if no node loses a replica, no node outside the window
gains one. -/
structure MovesTo (light : Fin n) (s s' : PrebleGlobalSchedulerUtils n) : Prop
    extends GivesTo light s s' where
  outside : (∃ m gpu, gpu ≠ light ∧ gpu ∈ s.holders m ∧ gpu ∉ s'.holders m) ∨
    ∀ m, m ∉ s.histogram.timestamps.map WindowEntry.node → s'.holders m = s.holders m

theorem MovesTo.refl (light : Fin n) (s : PrebleGlobalSchedulerUtils n) : MovesTo light s s :=
  ⟨.refl light s, Or.inr fun _ _ => rfl⟩

/-- What a node loses to the one replica it does not get back. -/
theorem MovesTo.trans {light : Fin n} (h : MovesTo light s s') (h' : MovesTo light s' s'') :
    MovesTo light s s'' where
  toGivesTo := h.toGivesTo.trans h'.toGivesTo
  outside := by
    rcases h.outside with ⟨m, gpu, hne, hgpu, hlost⟩ | hsame
    · exact Or.inl ⟨m, gpu, hne, hgpu, fun hin => hlost (h'.onlyLight m gpu hne hin)⟩
    · rcases h'.outside with ⟨m, gpu, hne, hgpu, hlost⟩ | hsame'
      · exact Or.inl ⟨m, gpu, hne, h.onlyLight m gpu hne hgpu, hlost⟩
      · refine Or.inr fun m hm => ?_
        rw [hsame' m (by rwa [h.timestamps]), hsame m hm]

/-! ## The steps -/

/-- What `handle_important_node_stealing_recursive` may move off the heavy replica. -/
def IsCandidate (s : PrebleGlobalSchedulerUtils n) (heavyGpu : Fin n) (node : ℕ) : Prop :=
  (heavyGpu ∈ s.holders node ∧ s.IsUnsharePrefixOver50PercentForNode node) ∧
    1 < (s.histogram.numRequestsForNodeMaps.get? node).getD 0

instance (s : PrebleGlobalSchedulerUtils n) (heavyGpu : Fin n) (node : ℕ) :
    Decidable (s.IsCandidate heavyGpu node) := inferInstanceAs (Decidable (_ ∧ _))

/-- A candidate goes on the heap with its cost. -/
def pushCandidate (s : PrebleGlobalSchedulerUtils n) (heavyGpu : Fin n) (medianTpot : ℚ)
    (heap : List (ℚ × ℕ)) (node : ℕ) : List (ℚ × ℕ) :=
  if s.IsCandidate heavyGpu node then
    Heapq.heappush s.stealKey heap
      (SlidingWindowHistogram.nodeCost s.cache.nodes s.histogram node heavyGpu medianTpot, node)
  else heap

/-- The candidates are found, and nothing changes. -/
theorem Sound.rebalanceHeap_eq (hs : Sound s σ reserved fresh) (heavyGpu : Fin n)
    (medianTpot : ℚ) : rebalanceHeap heavyGpu medianTpot s =
      .ok (s.histogram.histogram.keys.foldl (s.pushCandidate heavyGpu medianTpot) []) s := by
  rw [rebalanceHeap, Py.bind_ok (Py.get_apply s)]
  refine Py.foldlM_eq (fun node hnode heap => ?_) []
  obtain ⟨entry, hentry, rfl⟩ := hs.windowed.mem_histogram.mp hnode
  obtain ⟨gpus, hgpus⟩ := OrderedDict.get?_of_mem_keys (hs.windowed.allocated entry hentry)
  have hholders : s.holders entry.node = gpus := holders_of_get? hgpus
  rw [Py.bind_ok (Py.get_apply s), show s.gpuAllocations.get? entry.node = some gpus from hgpus,
    Py.ofOption_some, pure_bind, pushCandidate, ← hholders]
  -- the code's nested tests, in the order in which it reads the maps
  by_cases hheld : heavyGpu ∈ s.holders entry.node ∧
      s.IsUnsharePrefixOver50PercentForNode entry.node
  · rw [if_pos hheld, Py.bind_ok (onHistogram_ok (hs.windowed.readNumRequests hnode))]
    by_cases hnum : 1 < (s.histogram.numRequestsForNodeMaps.get? entry.node).getD 0
    · have hcost := hs.windowed.getNodePrefillDecodeCost hnode hheld.1 medianTpot
      rw [if_pos hnum, if_pos ⟨hheld, hnum⟩, Py.bind_ok (onHistogram_ok hcost)]
      rfl
    · rw [if_neg hnum, if_neg fun hboth => hnum hboth.2]
      rfl
  · rw [if_neg hheld, if_neg fun hboth => hheld hboth.1]
    rfl

/-- On the heap are candidates of the window. -/
theorem mem_foldl_pushCandidate (s : PrebleGlobalSchedulerUtils n) (heavyGpu : Fin n)
    (medianTpot : ℚ) (nodes : List ℕ) {heap : List (ℚ × ℕ)} {item : ℚ × ℕ}
    (hitem : item ∈ nodes.foldl (s.pushCandidate heavyGpu medianTpot) heap) :
    item ∈ heap ∨ item.2 ∈ nodes ∧ s.IsCandidate heavyGpu item.2 := by
  induction nodes generalizing heap with
  | nil => exact Or.inl hitem
  | cons node nodes ih =>
    rcases ih hitem with hold | ⟨hmem, hcandidate⟩
    · rw [pushCandidate] at hold
      split at hold
      · next hcandidate =>
        rcases List.mem_cons.mp ((Heapq.heappush_perm _ heap _).mem_iff.mp hold) with rfl | hold
        · exact Or.inr ⟨List.mem_cons_self, hcandidate⟩
        · exact Or.inl hold
      · exact Or.inl hold
    · exact Or.inr ⟨List.mem_cons_of_mem _ hmem, hcandidate⟩

/-- The candidates are held by the heavy replica and important. -/
theorem Sound.rebalanceHeap_spec (hs : Sound s σ reserved fresh) (heavyGpu : Fin n)
    (medianTpot : ℚ) : ∃ heap, rebalanceHeap heavyGpu medianTpot s = .ok heap s ∧
      ∀ item ∈ heap, item.2 ∈ s.histogram.timestamps.map WindowEntry.node ∧
        heavyGpu ∈ s.holders item.2 ∧ s.IsUnsharePrefixOver50PercentForNode item.2 := by
  refine ⟨_, hs.rebalanceHeap_eq heavyGpu medianTpot, fun item hitem => ?_⟩
  rcases s.mem_foldl_pushCandidate heavyGpu medianTpot _ hitem with hnil | ⟨hmem, hcandidate⟩
  · exact absurd hnil List.not_mem_nil
  · obtain ⟨entry, hentry, hnode⟩ := hs.windowed.mem_histogram.mp hmem
    exact ⟨List.mem_map.mpr ⟨entry, hentry, hnode⟩, hcandidate.1⟩

/-! ## One node is moved -/

/-- What `handle_important_node_stealing_recursive` does with a node that it moves. -/
def moveNode (heavyGpu lightGpu : Fin n) (node : ℕ) : Py (PrebleGlobalSchedulerUtils n) Unit := do
  setGpuAllocation node {lightGpu}
  onHistogram (fun _ =>
    SlidingWindowHistogram.updateGpusCostWithMigrateNode node heavyGpu lightGpu)
  updateGpuAllocationsForChildren node lightGpu

/-- One turn of the loop. -/
theorem stealLoop_succ (heavyGpu lightGpu : Fin n) (fuel : ℕ) (heap : List (ℚ × ℕ))
    (larger smaller : ℚ) : stealLoop heavyGpu lightGpu (fuel + 1) heap larger smaller = (do
      let s ← get
      match Heapq.heappop s.stealKey heap with
      | none => pure (larger, smaller)
      | some ((cost, node), heap) => do
        Py.assert (s.IsUnsharePrefixOver50PercentForNode node)
        if larger - cost < smaller + cost then pure (larger, smaller)
        else do
          moveNode heavyGpu lightGpu node
          if larger - cost < highLoadThreshold * (smaller + cost) then
            pure (larger - cost, smaller + cost)
          else stealLoop heavyGpu lightGpu fuel heap (larger - cost) (smaller + cost)) := by
  rw [stealLoop]
  refine congrArg (get >>= ·) (funext fun s => ?_)
  cases Heapq.heappop s.stealKey heap with
  | none => rfl
  | some popped => simp only [moveNode, bind_assoc]

/-- A node and all below it are given to one replica; in the window nothing else changes but
the totals of the replicas. -/
structure MovedTo (node : ℕ) (light : Fin n) (s s' : PrebleGlobalSchedulerUtils n) : Prop where
  cache : s'.cache = s.cache
  histogram : ∃ allocations costs lengths remembered totals, s'.histogram = { s.histogram with
    gpuAllocations := allocations
    curActualPrefillCostForGpu := costs
    currentDecodeLengthsPerGpu := lengths
    actualPrefillCostPerGpuForNodeMaps := remembered
    totalDecodeLengthForNodeMaps := totals }
  holders : ∀ m, s'.holders m =
    if m = node ∨ m ∈ (s.cache.tree.preorder s.cache.allNodes.card node).tail then {light}
    else s.holders m

theorem MovedTo.givesTo {node : ℕ} {light : Fin n} (h : MovedTo node light s s') :
    GivesTo light s s' where
  shape := h.cache ▸ .refl s.cache
  timestamps := by
    obtain ⟨_, _, _, _, _, hsame⟩ := h.histogram
    rw [hsame]
  onlyLight := by
    intro m gpu hne hgpu
    rw [h.holders m] at hgpu
    split at hgpu
    · exact absurd (Finset.mem_singleton.mp hgpu) hne
    · exact hgpu

/-- Some nodes are allocated to the same replicas. -/
theorem Sound.forM_setGpuAllocation (hs : Sound s σ reserved fresh) (nodes : List ℕ)
    (gpus : Finset (Fin n)) : ∃ s', nodes.forM (setGpuAllocation · gpus) s = .ok () s' ∧
      Sound s' σ reserved fresh ∧
      (∃ allocations, s' = { s with
        histogram := { s.histogram with gpuAllocations := allocations } }) ∧
      ∀ m, s'.holders m = if m ∈ nodes then gpus else s.holders m := by
  induction nodes generalizing s with
  | nil => exact ⟨s, rfl, hs, ⟨_, rfl⟩, fun m => (if_neg List.not_mem_nil).symm⟩
  | cons node nodes ih =>
    obtain ⟨s', hrun, hs', ⟨allocations, rfl⟩, hholders⟩ :=
      ih ((hs.withAllocation node gpus).mono (Finset.erase_subset ..))
    refine ⟨_, ?_, hs', ⟨allocations, rfl⟩, fun m => ?_⟩
    · rw [List.forM_eq_forM, List.forM_cons, Py.bind_ok (setGpuAllocation_eq node gpus)]
      exact hrun
    · rw [hholders m, holders_withAllocation]
      by_cases hm : m = node
      · simp [hm]
      · simp [hm]

/-- A node moves to the light replica, with everything below it. -/
theorem Sound.moveNode_spec (hs : Sound s σ reserved fresh) (heavyGpu lightGpu : Fin n)
    (node : ℕ) : ∃ s', moveNode heavyGpu lightGpu node s = .ok () s' ∧
      Sound s' σ reserved fresh ∧ MovedTo node lightGpu s s' := by
  have hs₁ : Sound (s.withAllocation node {lightGpu}) σ reserved fresh :=
    (hs.withAllocation node {lightGpu}).mono (Finset.erase_subset ..)
  -- first the node, then its cost, then everything below it
  obtain ⟨h, hmigrate, hw, ⟨costs, lengths, remembered, totals, rfl⟩⟩ :=
    hs₁.windowed.updateGpusCostWithMigrateNode_spec node heavyGpu lightGpu
  have hs₂ := hs₁.withHistogram hw hs₁.inTree (fun m hm => hm) rfl
  obtain ⟨s', hchildren, hs', ⟨allocations, rfl⟩, hholders⟩ :=
    hs₂.forM_setGpuAllocation (s.cache.tree.preorder s.cache.allNodes.card node).tail {lightGpu}
  refine ⟨_, ?_, hs', ⟨rfl, ⟨allocations, costs, lengths, remembered, totals, rfl⟩,
    fun m => ?_⟩⟩
  · rw [moveNode, Py.bind_ok (setGpuAllocation_eq node {lightGpu}),
      Py.bind_ok (onHistogram_ok hmigrate), updateGpuAllocationsForChildren,
      Py.bind_ok (Py.get_apply _)]
    exact hchildren
  · refine (hholders m).trans ?_
    by_cases hbelow : m ∈ (s.cache.tree.preorder s.cache.allNodes.card node).tail
    · rw [if_pos hbelow, if_pos (Or.inr hbelow)]
    · rw [if_neg hbelow]
      exact (holders_withAllocation s node m {lightGpu}).trans
        (if_congr (or_iff_left hbelow).symm rfl rfl)

/-! ## The loop -/

/-- Every turn takes a node off the heap, and the nodes left on it stay important. A node that
is moved loses the heavy replica. -/
theorem Sound.stealLoop_spec {heavyGpu lightGpu : Fin n} (hne : heavyGpu ≠ lightGpu) (fuel : ℕ)
    (heap : List (ℚ × ℕ)) (larger smaller : ℚ) (hs : Sound s σ reserved fresh)
    (hheap : ∀ item ∈ heap, s.IsUnsharePrefixOver50PercentForNode item.2)
    (hfuel : heap.length < fuel) :
    ∃ costs s', stealLoop heavyGpu lightGpu fuel heap larger smaller s = .ok costs s' ∧
      Sound s' σ reserved fresh ∧ GivesTo lightGpu s s' ∧
      (s' = s ∨ ∃ item ∈ heap, heavyGpu ∉ s'.holders item.2) := by
  induction fuel generalizing s heap larger smaller with
  | zero => exact absurd hfuel (Nat.not_lt_zero _)
  | succ fuel ih =>
    rw [stealLoop_succ, Py.bind_ok (Py.get_apply s)]
    cases hpop : Heapq.heappop s.stealKey heap with
    | none => exact ⟨_, s, rfl, hs, .refl _ s, Or.inl rfl⟩
    | some popped =>
      obtain ⟨⟨cost, node⟩, rest⟩ := popped
      have hlength : heap.length = rest.length + 1 := Heapq.heappop_length _ hpop
      have hmem : (cost, node) ∈ heap := Heapq.heappop_mem _ hpop
      have hnode : s.IsUnsharePrefixOver50PercentForNode node := hheap _ hmem
      simp only
      rw [Py.assert_pos hnode, pure_bind]
      split
      · exact ⟨_, s, rfl, hs, .refl _ s, Or.inl rfl⟩
      -- `assert` holds as moves keep the shape; after the move the first replica has lost the node
      · obtain ⟨s₃, hmove, hs₃, hmoved⟩ := hs.moveNode_spec heavyGpu lightGpu node
        have hgives := hmoved.givesTo
        have hlost : heavyGpu ∉ s₃.holders node := by
          rw [hmoved.holders node, if_pos (Or.inl rfl)]
          exact Finset.notMem_singleton.mpr hne
        rw [Py.bind_ok hmove]
        split
        · exact ⟨_, s₃, rfl, hs₃, hgives, Or.inr ⟨_, hmem, hlost⟩⟩
        · have hrest : ∀ item ∈ rest, s₃.IsUnsharePrefixOver50PercentForNode item.2 :=
            fun item hitem => (sameShape_isUnshare hgives.shape item.2).mpr
              (hheap item (Heapq.heappop_subset _ hpop hitem))
          obtain ⟨costs, s', hrun, hs', hgives', -⟩ :=
            ih rest (larger - cost) (smaller + cost) hs₃ hrest (by omega)
          exact ⟨costs, s', hrun, hs', hgives.trans hgives', Or.inr ⟨_, hmem,
            fun hheavy => hlost (hgives'.onlyLight node heavyGpu hne hheavy)⟩⟩

theorem Sound.now_spec (rt : Runtime n) (hs : Sound s σ reserved fresh) :
    ∃ s', now rt s = .ok (rt.time s.cache.ticks) s' ∧ Sound s' σ reserved fresh ∧
      LPRadixCache.SameShape s.cache s'.cache ∧ s'.histogram = s.histogram := by
  have hshape : LPRadixCache.SameShape s.cache { s.cache with ticks := s.cache.ticks + 1 } :=
    ⟨rfl, rfl, fun _ => ⟨rfl, rfl, rfl, rfl, rfl⟩⟩
  have hcache := hs.accounted.congr hshape rfl (fun _ => rfl) (fun _ _ => Iff.rfl)
  exact ⟨_, onCache_ok (Py.modifyGet_apply _ _),
    hs.withCache hshape hcache, hshape, rfl⟩

/-- A node of the window is copied, or nothing happens. -/
theorem Sound.splitLoad_spec (rt : Runtime n) (hs : Sound s σ reserved fresh)
    (heavyGpu lightGpu : Fin n) {item : ℚ × ℕ}
    (hitem : item.2 ∈ s.histogram.timestamps.map WindowEntry.node) (larger smaller : ℚ) :
    ∃ costs s', splitLoad rt heavyGpu lightGpu item larger smaller s = .ok costs s' ∧
      Sound s' σ reserved fresh ∧ MovesTo lightGpu s s' := by
  obtain ⟨cost, node⟩ := item
  have hkey : node ∈ s.gpuAllocations.keys := by
    obtain ⟨entry, hentry, rfl⟩ := List.mem_map.mp hitem
    exact hs.windowed.allocated entry hentry
  obtain ⟨gpus, hgpus⟩ := OrderedDict.get?_of_mem_keys hkey
  rw [splitLoad, Py.bind_ok (Py.get_apply s), hgpus, Py.ofOption_some, pure_bind]
  -- a light replica that holds the node has nothing to gain; another gets it if it is overloaded
  split
  · exact ⟨_, s, rfl, hs, .refl _ s⟩
  · obtain ⟨s₁, hnow, hs₁, hshape, hhist⟩ := hs.now_spec rt
    have hholders : ∀ m, s₁.holders m = s.holders m := holders_congr (by rw [hhist])
    have hmoves : MovesTo lightGpu s s₁ :=
      { shape := hshape
        timestamps := by rw [hhist]
        onlyLight := fun m gpu _ hgpu => hholders m ▸ hgpu
        outside := Or.inr fun m _ => hholders m }
    rw [Py.bind_ok hnow]
    split
    · have hs₂ : Sound (s₁.withAllocation node (insert lightGpu gpus)) σ reserved fresh :=
        (hs₁.withAllocation node _).mono (Finset.erase_subset ..)
      have hgives : GivesTo lightGpu s₁ (s₁.withAllocation node (insert lightGpu gpus)) := by
        refine givesTo_withAllocation s₁ node (fun gpu hgpu hother => ?_)
        rw [hholders, holders_of_get? hgpus]
        exact (Finset.mem_insert.mp hgpu).resolve_left hother
      rw [Py.bind_ok (setGpuAllocation_eq node _), Py.bind_ok (Py.modify_apply _ _)]
      refine ⟨_, _, rfl, hs₂.congr rfl rfl, hmoves.trans
        { shape := hgives.shape
          timestamps := hgives.timestamps
          onlyLight := hgives.onlyLight
          outside := Or.inr fun m hm => ?_ }⟩
      refine (holders_withAllocation s₁ node m _).trans (if_neg ?_)
      rintro rfl
      exact hm (hmoves.timestamps ▸ hitem)
    · exact ⟨_, s₁, rfl, hs₁, hmoves⟩

/-! ## All replicas -/

/-- What a call of `handle_important_node_stealing_recursive` does before it calls itself: the
costs of the two replicas. -/
def stealTurn (rt : Runtime n) (heavyGpu lightGpu : Fin n) (larger smaller : ℚ) :
    Py (PrebleGlobalSchedulerUtils n) (ℚ × ℚ) := do
  let s ← get
  let medianTpot ← Py.ofOption .typeError (s.histogram.toptQueuesForGpus heavyGpu).median
  let heap ← rebalanceHeap heavyGpu medianTpot
  match heap with
  | [item] => splitLoad rt heavyGpu lightGpu item larger smaller
  | heap => stealLoop heavyGpu lightGpu (heap.length + 1) heap larger smaller

/-- A call for at least two replicas, the first and the last of which are looked at. -/
theorem handleRecursive_succ (rt : Runtime n) (fuel : ℕ) (heavyGpu lightGpu : Fin n)
    (larger smaller : ℚ) (others : List (Fin n × ℚ)) :
    handleImportantNodeStealingRecursive rt (fuel + 1)
        ((heavyGpu, larger) :: (others ++ [(lightGpu, smaller)])) =
      if larger ≤ highLoadThreshold * smaller then pure ()
      else (do
        let (_, smaller') ← stealTurn rt heavyGpu lightGpu larger smaller
        handleImportantNodeStealingRecursive rt fuel (others ++ [(lightGpu, smaller')])) := by
  obtain ⟨second, rest, htail⟩ :=
    List.exists_cons_of_ne_nil (List.append_ne_nil_of_right_ne_nil others
      (List.cons_ne_nil (lightGpu, smaller) []))
  have hlast : ((heavyGpu, larger) :: second :: rest).getLast? = some (lightGpu, smaller) := by
    rw [List.getLast?_cons_cons, ← htail, List.getLast?_concat]
  rw [handleImportantNodeStealingRecursive.eq_def, htail]
  simp only [hlast, stealTurn, bind_assoc]
  rw [← htail, List.dropLast_concat]
  refine congrArg (ite _ (pure ())) (congrArg (get >>= ·) (funext fun s =>
    congrArg (_ >>= ·) (funext fun medianTpot => congrArg (_ >>= ·) (funext fun heap => ?_))))
  rcases heap with _ | ⟨item, _ | ⟨second, rest⟩⟩
  · rfl
  · rfl
  · rfl

theorem Sound.medianTpot (hs : Sound s σ reserved fresh) (gpu : Fin n) :
    (s.histogram.toptQueuesForGpus gpu).median = some (s.histogram.medianTopt gpu) :=
  if_neg (hs.topts gpu)

/-- A turn moves load to the light replica. -/
theorem Sound.stealTurn_spec (rt : Runtime n) (hs : Sound s σ reserved fresh)
    {heavyGpu lightGpu : Fin n} (hne : heavyGpu ≠ lightGpu) (larger smaller : ℚ) :
    ∃ costs s', stealTurn rt heavyGpu lightGpu larger smaller s = .ok costs s' ∧
      Sound s' σ reserved fresh ∧ MovesTo lightGpu s s' := by
  obtain ⟨heap, hheap, hitems⟩ := hs.rebalanceHeap_spec heavyGpu (s.histogram.medianTopt heavyGpu)
  rw [stealTurn, Py.bind_ok (Py.get_apply s), hs.medianTpot heavyGpu, Py.ofOption_some, pure_bind,
    Py.bind_ok hheap]
  split
  · next item =>
    exact hs.splitLoad_spec rt heavyGpu lightGpu (hitems item List.mem_cons_self).1 larger smaller
  · obtain ⟨costs, s', hrun, hs', hgives, hlost⟩ := hs.stealLoop_spec hne _ _ larger smaller
      (fun item hitem => (hitems item hitem).2.2) (Nat.lt_succ_self _)
    refine ⟨costs, s', hrun, hs', hgives, ?_⟩
    rcases hlost with rfl | ⟨item, hitem, hlost⟩
    · exact Or.inr fun _ _ => rfl
    · exact Or.inl ⟨item.2, heavyGpu, hne, (hitems item hitem).2.1, hlost⟩

/-- The replicas of a list are different from the first one. -/
theorem ne_of_nodup_map_fst {heavyGpu lightGpu : Fin n} {larger smaller : ℚ}
    {others : List (Fin n × ℚ)}
    (hnodup : (((heavyGpu, larger) :: (others ++ [(lightGpu, smaller)])).map Prod.fst).Nodup) :
    heavyGpu ≠ lightGpu := by
  rw [List.map_cons, List.map_append] at hnodup
  intro heq
  apply (List.nodup_cons.mp hnodup).1
  exact List.mem_append_right _ (List.mem_singleton.mpr heq)

theorem nodup_next {heavyGpu lightGpu : Fin n} {larger smaller : ℚ} (smaller' : ℚ)
    {others : List (Fin n × ℚ)}
    (hnodup : (((heavyGpu, larger) :: (others ++ [(lightGpu, smaller)])).map Prod.fst).Nodup) :
    ((others ++ [(lightGpu, smaller')]).map Prod.fst).Nodup := by
  rw [List.map_cons, List.map_append] at hnodup
  rw [List.map_append]
  exact (List.nodup_cons.mp hnodup).2

/-- Each call leaves the first replica out, so they come to an end. All of them move load to
the last replica. -/
theorem Sound.handleImportantNodeStealingRecursive_spec (rt : Runtime n) (fuel : ℕ)
    (costs : List (Fin n × ℚ)) (hs : Sound s σ reserved fresh) (hfuel : costs.length < fuel)
    (hnodup : (costs.map Prod.fst).Nodup) {light : Fin n}
    (hlight : ∀ item ∈ costs.getLast?, item.1 = light) :
    ∃ s', handleImportantNodeStealingRecursive rt fuel costs s = .ok () s' ∧
      Sound s' σ reserved fresh ∧ MovesTo light s s' := by
  induction fuel generalizing s costs with
  | zero => exact absurd hfuel (Nat.not_lt_zero _)
  | succ fuel ih =>
    match costs, hfuel, hnodup, hlight with
    | [], _, _, _ => exact ⟨s, rfl, hs, .refl _ s⟩
    | [_], _, _, _ => exact ⟨s, rfl, hs, .refl _ s⟩
    | (heavyGpu, larger) :: second :: rest, hfuel, hnodup, hlight =>
      obtain ⟨others, ⟨lightGpu, smaller⟩, htail⟩ :=
        (List.eq_nil_or_concat' (second :: rest)).resolve_left (List.cons_ne_nil _ _)
      rw [htail] at hfuel hnodup hlight ⊢
      have hlast : ((heavyGpu, larger) :: (others ++ [(lightGpu, smaller)])).getLast? =
          some (lightGpu, smaller) := by
        rw [← List.cons_append, List.getLast?_concat]
      obtain rfl : lightGpu = light := hlight _ (Option.mem_def.mpr hlast)
      rw [handleRecursive_succ]
      split
      · exact ⟨s, rfl, hs, .refl _ s⟩
      · obtain ⟨⟨larger', smaller'⟩, s₁, hrun, hs₁, hmoves⟩ :=
          hs.stealTurn_spec rt (ne_of_nodup_map_fst hnodup) larger smaller
        rw [Py.bind_ok hrun]
        -- what is left goes on with the same light replica
        have hlength : (others ++ [(lightGpu, smaller')]).length < fuel := by
          simp only [List.length_cons, List.length_append, List.length_nil] at hfuel ⊢
          omega
        obtain ⟨s', hrun', hs', hmoves'⟩ := ih (others ++ [(lightGpu, smaller')]) hs₁ hlength
          (nodup_next smaller' hnodup) (by simp)
        exact ⟨s', hrun', hs', hmoves.trans hmoves'⟩

/-- Moving load keeps the invariant and never fails. If no node loses a replica, no node
outside the window gains one. -/
theorem Sound.handleImportantNodeStealing_spec (rt : Runtime n)
    (hs : Sound s σ reserved fresh) :
    ∃ s', handleImportantNodeStealing rt s = .ok () s' ∧ Sound s' σ reserved fresh ∧
      (s' = s ∨ ∃ light, MovesTo light s s') := by
  rw [handleImportantNodeStealing, Py.bind_ok (Py.get_apply s)]
  split
  · exact ⟨s, rfl, hs, Or.inl rfl⟩
  · obtain ⟨costs, hcosts⟩ : ∃ costs,
        SlidingWindowHistogram.getPrefillDecodeCostForGpusListWithMinNumRequest s.cache.nodes 2
          s.histogram = .ok costs s.histogram :=
      ⟨_, hs.windowed.getPrefillDecodeCostWithMinNumRequest hs.topts 2⟩
    rw [Py.bind_ok (onHistogram_ok hcosts)]
    -- the costs in falling order: the last replica is the one that only receives
    let sorted := ((List.finRange n).map (fun gpu => (gpu, costs gpu))).mergeSort
      (fun x y => y.2 ≤ x.2)
    show ∃ s', handleImportantNodeStealingRecursive rt (n + 1) sorted s = .ok () s' ∧ _
    have hperm : sorted.Perm ((List.finRange n).map (fun gpu => (gpu, costs gpu))) :=
      List.mergeSort_perm _ _
    have hlength : sorted.length < n + 1 := by
      rw [hperm.length_eq, List.length_map, List.length_finRange]
      exact Nat.lt_succ_self n
    have hnodup : (sorted.map Prod.fst).Nodup := by
      rw [(hperm.map Prod.fst).nodup_iff, List.map_map]
      simpa [Function.comp_def] using List.nodup_finRange n
    cases hlast : sorted.getLast? with
    | none =>
      rw [List.getLast?_eq_none_iff] at hlast
      rw [hlast]
      exact ⟨s, rfl, hs, Or.inl rfl⟩
    | some last =>
      have hlight : ∀ item ∈ sorted.getLast?, item.1 = last.1 := by
        intro item hitem
        rw [hlast] at hitem
        rw [Option.some.inj hitem]
      obtain ⟨s', hrun, hs', hmoves⟩ := hs.handleImportantNodeStealingRecursive_spec rt (n + 1)
        sorted hlength hnodup hlight
      exact ⟨s', hrun, hs', Or.inr ⟨last.1, hmoves⟩⟩

end PrebleGlobalSchedulerUtils

end DualMap.Preble
