import DualMap.Preble.SplitNodes
import DualMap.Preble.Stealing

/-!
# Scheduling Never Fails

`schedule` and `finish_request` keep the invariant and always return: a request that is not
empty has an important ancestor, all its ancestors get allocations before the window looks
at them, and a request that finishes is one that holds its path.
-/

namespace DualMap.Preble

open LPRadixCache (SameShape)
open SlidingWindowHistogram (Windowed SameWindow Removed)

variable {n : ℕ} {rt : Runtime n} {σ : ℕ → List ℕ} {reserved : List (List ℕ × Fin n)}
  {fresh : Finset ℕ}

theorem SlidingWindowHistogram.Removed.toptQueues {nodes : ℕ → TreeNode n}
    {entries : List WindowEntry} {h h' : SlidingWindowHistogram n}
    (hremoved : Removed nodes entries h h') : h'.toptQueuesForGpus = h.toptQueuesForGpus := by
  induction hremoved with
  | nil => rfl
  | cons hsame _ ih =>
    rw [ih]
    obtain ⟨_, _, _, rfl⟩ := hsame
    rw [SlidingWindowHistogram.afterRemoval]
    split <;> rfl

namespace PrebleGlobalSchedulerUtils

variable {s s' : PrebleGlobalSchedulerUtils n}

/-! ## Parts of a schedule -/

/-- Adding replicas to the allocations of some nodes gives them all one. -/
theorem Sound.forM_setGpuAllocation_spec (hs : Sound s σ reserved fresh) (nodes : List ℕ)
    (gpus : Finset (Fin n)) :
    ∃ s', (nodes.forM (fun m => do
        let s ← get
        setGpuAllocation m ((s.gpuAllocations.get? m).getD ∅ ∪ gpus)) :
          Py (PrebleGlobalSchedulerUtils n) Unit) s = .ok () s' ∧
      Sound s' σ reserved (fresh \ nodes.toFinset) ∧
      (∃ allocations, s' = { s with
        histogram := { s.histogram with gpuAllocations := allocations } }) ∧
      (∀ m, m ∈ nodes ∨ m ∈ s.gpuAllocations.keys → m ∈ s'.gpuAllocations.keys) ∧
      ∀ m, s'.holders m = if m ∈ nodes then s.holders m ∪ gpus else s.holders m := by
  induction nodes generalizing s fresh with
  | nil =>
    exact ⟨s, rfl, hs.mono (by simp), ⟨_, rfl⟩, fun m hm => hm.resolve_left List.not_mem_nil,
      fun m => (if_neg List.not_mem_nil).symm⟩
  | cons node nodes ih =>
    -- the first node gets its allocation, and is not fresh any more
    let allocation := (s.gpuAllocations.get? node).getD ∅ ∪ gpus
    obtain ⟨s', hrun, hs', ⟨allocations, rfl⟩, hkeys, hholders⟩ :=
      ih (hs.withAllocation node allocation)
    refine ⟨_, ?_, hs'.mono ?_, ⟨allocations, rfl⟩, fun m hm => hkeys m ?_, fun m => ?_⟩
    · rw [List.forM_eq_forM, List.forM_cons, bind_assoc, Py.bind_ok (Py.get_apply s),
        Py.bind_ok (setGpuAllocation_eq node _)]
      exact hrun
    · intro m hm
      simp only [Finset.mem_sdiff, Finset.mem_erase, List.toFinset_cons, Finset.mem_insert,
        not_or] at hm ⊢
      exact ⟨hm.1.2, hm.1.1, hm.2⟩
    · rw [mem_withAllocation]
      rcases hm with hm | hm
      · rcases List.mem_cons.mp hm with rfl | hm
        · exact Or.inr (Or.inl rfl)
        · exact Or.inl hm
      · exact Or.inr (Or.inr hm)
    · have hnode : (s.withAllocation node allocation).holders m =
          if m = node then s.holders node ∪ gpus else s.holders m := holders_withAllocation ..
      rw [hholders m, hnode]
      by_cases heq : m = node
      · subst heq
        rw [if_pos rfl, if_pos List.mem_cons_self, Finset.union_assoc, Finset.union_self, ite_self]
      · rw [if_neg heq]
        simp only [List.mem_cons, heq, false_or]

/-- A prompt that is not empty has a length. -/
theorem Sound.contextLength_pos (hs : Sound s σ reserved fresh) {leaf : ℕ}
    (hleaf : leaf ∈ s.cache.allNodes) (hne : σ leaf ≠ []) :
    0 < (s.cache.nodes leaf).contextLength := by
  rw [hs.wellFormed.context leaf hleaf]
  exact List.length_pos_of_ne_nil hne

/-- A request goes into the window. -/
theorem Sound.addRequest_spec (hs : Sound s σ reserved fresh) (time : ℚ) {node leaf : ℕ}
    (gpu : Fin n) (decodingLength : ℤ) (hleaf : leaf ∈ s.cache.allNodes) (hne : σ leaf ≠ [])
    (hnode : node ∈ s.cache.allNodes) (halloc : node ∈ s.gpuAllocations.keys) :
    ∃ h', SlidingWindowHistogram.addRequest s.cache.nodes time node leaf gpu decodingLength
        s.histogram = .ok () h' ∧ Sound { s with histogram := h' } σ reserved fresh ∧
      h'.timestamps = SlidingWindowHistogram.remaining (time - s.histogram.windowDuration)
        (s.histogram.timestamps ++ [⟨time, node, leaf⟩]) ∧
      ∀ m, h'.gpuAllocations.get? m =
        if SlidingWindowHistogram.Forgotten (time - s.histogram.windowDuration)
          (s.histogram.timestamps ++ [⟨time, node, leaf⟩]) m then some ∅
        else s.gpuAllocations.get? m := by
  have hpos := hs.contextLength_pos hleaf hne
  obtain ⟨h₁, h', hrun, hremoved, hsame, hw, htime⟩ :=
    SlidingWindowHistogram.addRequest_spec hs.windowed time gpu decodingLength hpos halloc
  refine ⟨h', hrun, hs.withHistogram hw (fun entry hentry => ?_) (fun m hm => ?_) ?_, htime,
    fun m => ?_⟩
  · -- what is left of the window was in it, or is the new entry
    have hin : entry ∈ s.histogram.timestamps ++ [⟨time, node, leaf⟩] := by
      rw [htime] at hentry
      exact (List.dropWhile_sublist _).subset hentry
    rcases List.mem_append.mp hin with hold | hnew
    · exact hs.inTree entry hold
    · rw [List.mem_singleton.mp hnew]
      exact ⟨hnode, hleaf⟩
  · obtain ⟨_, _, _, rfl⟩ := hsame
    exact hremoved.mem_gpuAllocations hm
  · obtain ⟨_, _, _, rfl⟩ := hsame
    exact hremoved.toptQueues
  · rw [hsame.gpuAllocations]
    exact hremoved.get?_gpuAllocations (hs.windowed.addEntry decodingLength hpos halloc)
      (SlidingWindowHistogram.expired_append_remaining ..).symm m

/-- What an answer changes in the histogram. -/
theorem Sound.answered (hs : Sound s σ reserved fresh) {queues : Fin n → ToptQueue}
    (hqueues : ∀ gpu, none ∉ (queues gpu).items) (lengths : Fin n → ℤ) (key : Option ℕ)
    (amount : ℤ) :
    Sound { s with histogram := { s.histogram with
      toptQueuesForGpus := queues
      currentDecodeLengthsPerGpu := lengths
      totalDecodeLengthForNodeMaps :=
        s.histogram.totalDecodeLengthForNodeMaps.add key amount } } σ reserved fresh where
  accounted := hs.accounted
  windowed :=
    { histogram := hs.windowed.histogram
      sumPrompt := hs.windowed.sumPrompt
      numRequests := hs.windowed.numRequests
      sumShare := hs.windowed.sumShare
      ratio := hs.windowed.ratio
      curNumDecode := hs.windowed.curNumDecode
      totalDecode := fun entry hentry =>
        OrderedDict.mem_keys_add.mpr (Or.inr (hs.windowed.totalDecode entry hentry))
      positive := hs.windowed.positive
      allocated := hs.windowed.allocated }
  inTree := hs.inTree
  allocated := hs.allocated
  topts := hqueues

theorem updateOverloadDetector_spec (rt : Runtime n) (hs : Sound s σ reserved fresh)
    (inputIds : List ℕ) (gpu : Fin n) (output : Client.RequestFuncOutput) :
    ∃ s', updateOverloadDetector rt inputIds gpu output s = .ok () s' ∧
      Sound s' σ reserved fresh ∧ SameShape s.cache s'.cache ∧ s'.histogram = s.histogram := by
  obtain ⟨found, c, hfind, hshape, hc, -⟩ := hs.accounted.findNode rt inputIds
  obtain ⟨s₂, hnow, hs₂, hshape₂, hhist⟩ := (hs.withCache hshape hc).now_spec rt
  rw [updateOverloadDetector, Py.bind_ok (onCache_ok hfind), Py.bind_ok (Py.get_apply _),
    Py.bind_ok hnow]
  exact ⟨_, rfl, hs₂.congr rfl rfl, hshape.trans hshape₂, hhist⟩

end PrebleGlobalSchedulerUtils

namespace PrebleGlobalScheduler

open PrebleGlobalSchedulerUtils

variable {s : PrebleGlobalSchedulerUtils n}

/-! ## Until nodes may be moved -/

/-- `reserve` up to where nodes may be moved to other replicas: the important ancestor. -/
def reserveUntilStealing (rt : Runtime n) (leafNode : ℕ) (nearestAncestor : Option ℕ)
    (runtimeIdx : Fin n) (decodingLength : ℤ) : Py (PrebleGlobalSchedulerUtils n) ℕ := do
  modify (fun s => { s with counter := s.counter + 1 })
  addGpuAllocationForParent leafNode {runtimeIdx}
  onCache (LPRadixCache.updateCacheMetadada leafNode runtimeIdx)
  let nearestAncestor ← Py.ofOption .attributeError nearestAncestor
  let s ← get
  Py.assert (s.IsUnsharePrefixOver50PercentForNode nearestAncestor)
  let now ← now rt
  onHistogram (fun nodes =>
    SlidingWindowHistogram.addRequest nodes now nearestAncestor leafNode runtimeIdx decodingLength)
  modify (fun s => { s with
    numRequestsForGpusList := Function.update s.numRequestsForGpusList runtimeIdx
      (s.numRequestsForGpusList runtimeIdx + 1) })
  let s ← get
  onCache (LPRadixCache.handleCacheEvictionForGpu s.maxTokensForGpuList runtimeIdx)
  pure nearestAncestor

/-- `reserve` up to where the request goes into the window: the important ancestor and the
time. -/
def reserveUntilRequest (rt : Runtime n) (leafNode : ℕ) (nearestAncestor : Option ℕ)
    (runtimeIdx : Fin n) : Py (PrebleGlobalSchedulerUtils n) (ℕ × ℚ) := do
  modify (fun s => { s with counter := s.counter + 1 })
  addGpuAllocationForParent leafNode {runtimeIdx}
  onCache (LPRadixCache.updateCacheMetadada leafNode runtimeIdx)
  let nearestAncestor ← Py.ofOption .attributeError nearestAncestor
  let s ← get
  Py.assert (s.IsUnsharePrefixOver50PercentForNode nearestAncestor)
  let now ← now rt
  pure (nearestAncestor, now)

/-- The request goes into the window. -/
def addToWindow (leafNode nearestAncestor : ℕ) (runtimeIdx : Fin n) (now : ℚ)
    (decodingLength : ℤ) : Py (PrebleGlobalSchedulerUtils n) Unit :=
  onHistogram (fun nodes =>
    SlidingWindowHistogram.addRequest nodes now nearestAncestor leafNode runtimeIdx decodingLength)

/-- `reserve` from there up to where nodes may be moved. -/
def makeRoom (runtimeIdx : Fin n) : Py (PrebleGlobalSchedulerUtils n) Unit := do
  modify (fun s => { s with
    numRequestsForGpusList := Function.update s.numRequestsForGpusList runtimeIdx
      (s.numRequestsForGpusList runtimeIdx + 1) })
  let s ← get
  onCache (LPRadixCache.handleCacheEvictionForGpu s.maxTokensForGpuList runtimeIdx)

theorem reserveUntilStealing_eq (rt : Runtime n) (leafNode : ℕ) (nearestAncestor : Option ℕ)
    (runtimeIdx : Fin n) (decodingLength : ℤ) :
    reserveUntilStealing rt leafNode nearestAncestor runtimeIdx decodingLength = (do
      let (nearestAncestor, now) ← reserveUntilRequest rt leafNode nearestAncestor runtimeIdx
      addToWindow leafNode nearestAncestor runtimeIdx now decodingLength
      makeRoom runtimeIdx
      pure nearestAncestor) := by
  simp only [reserveUntilStealing, reserveUntilRequest, addToWindow, makeRoom, bind_assoc,
    pure_bind]

/-- The end of `reserve`, which leaves longer chains alone. -/
def stealUnlessLongChain (rt : Runtime n) (leafNode nearestAncestor : ℕ) :
    Py (PrebleGlobalSchedulerUtils n) Unit := do
  let s ← get
  if ((s.cache.nodes leafNode).depth : ℤ) - (s.cache.nodes nearestAncestor).depth <
      rebalancingChainLength then
    handleImportantNodeStealing rt

theorem reserve_eq (rt : Runtime n) (leafNode : ℕ) (nearestAncestor : Option ℕ)
    (runtimeIdx : Fin n) (decodingLength : ℤ) :
    reserve rt leafNode nearestAncestor runtimeIdx decodingLength = (do
      let nearestAncestor ←
        reserveUntilStealing rt leafNode nearestAncestor runtimeIdx decodingLength
      stealUnlessLongChain rt leafNode nearestAncestor) := by
  simp only [reserve, reserveUntilStealing, stealUnlessLongChain, bind_assoc, pure_bind]

theorem stealUnlessLongChain_spec (rt : Runtime n) (hs : Sound s σ reserved fresh)
    (leaf node : ℕ) :
    ∃ s', stealUnlessLongChain rt leaf node s = .ok () s' ∧ Sound s' σ reserved fresh ∧
      (s' = s ∨ ∃ light, MovesTo light s s') := by
  rw [stealUnlessLongChain, Py.bind_ok (Py.get_apply s)]
  split
  · exact hs.handleImportantNodeStealing_spec rt
  · exact ⟨s, rfl, hs, Or.inl rfl⟩

/-- A request has gone into the window, and its path is allocated to the replica; then the
old entries have left, and with the last entry of a node its allocation. -/
structure ReservedOn (rt : Runtime n) (s : PrebleGlobalSchedulerUtils n) (leaf node : ℕ)
    (gpu : Fin n) (s' : PrebleGlobalSchedulerUtils n) : Prop where
  shape : SameShape s.cache s'.cache
  timestamps : s'.histogram.timestamps = SlidingWindowHistogram.remaining
    (rt.time s.cache.ticks - s.histogram.windowDuration)
    (s.histogram.timestamps ++ [⟨rt.time s.cache.ticks, node, leaf⟩])
  holders : ∀ m, s'.holders m =
    if SlidingWindowHistogram.Forgotten (rt.time s.cache.ticks - s.histogram.windowDuration)
      (s.histogram.timestamps ++ [⟨rt.time s.cache.ticks, node, leaf⟩]) m then ∅
    else if m ∈ s.cache.ancestors leaf then s.holders m ∪ {gpu} else s.holders m

/-- The path of a leaf is allocated to a replica, and nothing else is changed in the window. -/
structure PathGivenTo (s : PrebleGlobalSchedulerUtils n) (leaf : ℕ) (gpu : Fin n)
    (s' : PrebleGlobalSchedulerUtils n) : Prop where
  shape : SameShape s.cache s'.cache
  histogram : ∃ allocations, s'.histogram = { s.histogram with gpuAllocations := allocations }
  allocated : ∀ m ∈ s.cache.ancestors leaf, m ∈ s'.gpuAllocations.keys
  holders : ∀ m, s'.holders m =
    if m ∈ s.cache.ancestors leaf then s.holders m ∪ {gpu} else s.holders m

theorem PathGivenTo.timestamps {leaf : ℕ} {gpu : Fin n} {s' : PrebleGlobalSchedulerUtils n}
    (h : PathGivenTo s leaf gpu s') : s'.histogram.timestamps = s.histogram.timestamps := by
  obtain ⟨allocations, hsame⟩ := h.histogram
  rw [hsame]

/-- The path of the leaf is allocated to any replica, if the leaf has an important ancestor. -/
theorem reserveUntilRequest_spec (rt : Runtime n) {leaf node : ℕ}
    (hs : Sound s σ reserved {leaf}) (hleaf : leaf ∈ s.cache.allNodes)
    (hunshare : s.IsUnsharePrefixOver50PercentForNode node) (gpu : Fin n) :
    ∃ s', reserveUntilRequest rt leaf (some node) gpu s =
        .ok (node, rt.time s.cache.ticks) s' ∧
      Sound s' σ ((σ leaf, gpu) :: reserved) ∅ ∧ PathGivenTo s leaf gpu s' := by
  have hself : leaf ∈ s.cache.ancestors leaf :=
    (hs.wellFormed.mem_ancestors hleaf).mpr ⟨hleaf, List.prefix_refl _⟩
  -- the counter, the allocations of the ancestors and the counts of the path
  let s₁ : PrebleGlobalSchedulerUtils n := { s with counter := s.counter + 1 }
  have hs₁ : Sound s₁ σ reserved {leaf} := hs.congr rfl rfl
  obtain ⟨_, halloc, hs₂, ⟨allocations, rfl⟩, hkeys, hholders⟩ :=
    hs₁.forM_setGpuAllocation_spec (s₁.cache.ancestors leaf) {gpu}
  let s₂ : PrebleGlobalSchedulerUtils n := { s₁ with
    histogram := { s₁.histogram with gpuAllocations := allocations } }
  have hs₂ : Sound s₂ σ reserved ∅ := by
    refine hs₂.mono (fun m hm => ?_)
    obtain ⟨hm, hnot⟩ := Finset.mem_sdiff.mp hm
    rw [Finset.mem_singleton.mp hm, List.mem_toFinset] at hnot
    exact absurd hself hnot
  have hleaf₂ : leaf ∈ s₂.cache.allNodes := hleaf
  obtain ⟨c, hcount, hshape, hc⟩ := hs₂.accounted.updateCacheMetadada hleaf₂ gpu
  have hticks : c.ticks = s.cache.ticks := by
    obtain ⟨-, rfl⟩ := EStateM.Result.ok.inj
      (hcount.symm.trans (LPRadixCache.updateCacheMetadada_eq leaf gpu s₂.cache))
    exact (LPRadixCache.counted_foldl (hs.wellFormed.ancestors_nodup hleaf) gpu s.cache).ticks
  have hs₃ := hs₂.withCache hshape hc
  let s₃ : PrebleGlobalSchedulerUtils n := { s₂ with cache := c }
  have hunshare₃ : s₃.IsUnsharePrefixOver50PercentForNode node := by
    have hiff : s₃.IsUnsharePrefixOver50PercentForNode node ↔
        s.IsUnsharePrefixOver50PercentForNode node := sameShape_isUnshare hshape node
    exact hiff.mpr hunshare
  obtain ⟨s₄, hnow, hs₄, hshape₄, hhist₄⟩ := hs₃.now_spec rt
  rw [show s₃.cache.ticks = s.cache.ticks from hticks] at hnow
  have hadd : addGpuAllocationForParent leaf {gpu} s₁ = .ok () s₂ := by
    rw [addGpuAllocationForParent, Py.bind_ok (Py.get_apply s₁)]
    exact halloc
  refine ⟨s₄, ?_, hs₄,
    { shape := hshape.trans hshape₄
      histogram := ⟨allocations, hhist₄⟩
      allocated := fun m hm => ?_
      holders := fun m => ?_ }⟩
  · rw [reserveUntilRequest, Py.bind_ok (Py.modify_apply _ _), Py.bind_ok hadd,
      Py.bind_ok (onCache_ok hcount), Py.ofOption_some, pure_bind, Py.bind_ok (Py.get_apply _),
      Py.assert_pos hunshare₃, pure_bind, Py.bind_ok hnow]
    rfl
  · rw [gpuAllocations, hhist₄]
    exact hkeys m (Or.inl hm)
  · rw [PrebleGlobalSchedulerUtils.holders, gpuAllocations, hhist₄]
    exact hholders m

/-- Room is made on the replica, and the window stays as it is. -/
theorem makeRoom_spec (hs : Sound s σ reserved fresh) (gpu : Fin n) :
    ∃ s', makeRoom gpu s = .ok () s' ∧ Sound s' σ reserved fresh ∧
      SameShape s.cache s'.cache ∧ s'.histogram = s.histogram := by
  let s₁ : PrebleGlobalSchedulerUtils n := { s with
    numRequestsForGpusList := Function.update s.numRequestsForGpusList gpu
      (s.numRequestsForGpusList gpu + 1) }
  have hs₁ : Sound s₁ σ reserved fresh := hs.congr rfl rfl
  obtain ⟨c, hevict, hshape, hc⟩ :=
    hs₁.accounted.handleCacheEvictionForGpu s₁.maxTokensForGpuList gpu
  refine ⟨{ s₁ with cache := c }, ?_, hs₁.withCache hshape hc, hshape, rfl⟩
  rw [makeRoom, Py.bind_ok (Py.modify_apply _ _), Py.bind_ok (Py.get_apply _)]
  exact onCache_ok hevict

/-- The path of the leaf is reserved on any replica, if the leaf has an important
ancestor. -/
theorem reserveUntilStealing_spec (rt : Runtime n) {leaf node : ℕ}
    (hs : Sound s σ reserved {leaf}) (hleaf : leaf ∈ s.cache.allNodes) (hne : σ leaf ≠ [])
    (hnode : node ∈ s.cache.ancestors leaf)
    (hunshare : s.IsUnsharePrefixOver50PercentForNode node) (gpu : Fin n)
    (decodingLength : ℤ) :
    ∃ s', reserveUntilStealing rt leaf (some node) gpu decodingLength s = .ok node s' ∧
      Sound s' σ ((σ leaf, gpu) :: reserved) ∅ ∧ ReservedOn rt s leaf node gpu s' := by
  obtain ⟨hnodeTree, -⟩ := (hs.wellFormed.mem_ancestors hleaf).mp hnode
  obtain ⟨s₄, huntil, hs₄, hgiven⟩ := reserveUntilRequest_spec rt hs hleaf hunshare gpu
  obtain ⟨allocations, hhist₄⟩ := hgiven.histogram
  have hnodes₄ : s₄.cache.allNodes = s.cache.allNodes := hgiven.shape.allNodes
  have halloc₄ : node ∈ s₄.gpuAllocations.keys := hgiven.allocated node hnode
  obtain ⟨h, hrequest, hs₅, htime, hget⟩ := hs₄.addRequest_spec (rt.time s.cache.ticks) gpu
    decodingLength (hnodes₄ ▸ hleaf) hne (hnodes₄ ▸ hnodeTree) halloc₄
  rw [hhist₄] at htime
  obtain ⟨s₆, hroom, hs₆, hshape₆, hhist₆⟩ := makeRoom_spec hs₅ gpu
  have hadd : addToWindow leaf node gpu (rt.time s.cache.ticks) decodingLength s₄ =
      .ok () { s₄ with histogram := h } := onHistogram_ok hrequest
  refine ⟨s₆, ?_, hs₆,
    { shape := hgiven.shape.trans hshape₆
      timestamps := ?_
      holders := fun m => ?_ }⟩
  -- the path is marked, the request added to the window, then room made in the cache
  · rw [reserveUntilStealing_eq, Py.bind_ok huntil]
    simp only
    rw [Py.bind_ok hadd, Py.bind_ok hroom]
    rfl
  · rw [hhist₆]
    exact htime
  · have hget := hget m
    have hmarked : (s₄.gpuAllocations.get? m).getD ∅ =
        if m ∈ s.cache.ancestors leaf then s.holders m ∪ {gpu} else s.holders m :=
      hgiven.holders m
    -- `add_request` resets the allocations of the nodes that left the window
    rw [← hmarked, PrebleGlobalSchedulerUtils.holders, gpuAllocations, hhist₆]
    show (h.gpuAllocations.get? m).getD ∅ = _
    rw [hget, apply_ite (fun allocation => Option.getD allocation ∅), hhist₄]
    rfl

/-- The path of the leaf is reserved on any replica, and nodes may then be moved. -/
theorem reserve_spec (rt : Runtime n) {leaf node : ℕ} (hs : Sound s σ reserved {leaf})
    (hleaf : leaf ∈ s.cache.allNodes) (hne : σ leaf ≠ []) (hnode : node ∈ s.cache.ancestors leaf)
    (hunshare : s.IsUnsharePrefixOver50PercentForNode node) (gpu : Fin n)
    (decodingLength : ℤ) :
    ∃ s', reserve rt leaf (some node) gpu decodingLength s = .ok () s' ∧
      Sound s' σ ((σ leaf, gpu) :: reserved) ∅ := by
  obtain ⟨s₁, hrun, hs₁, -⟩ :=
    reserveUntilStealing_spec rt hs hleaf hne hnode hunshare gpu decodingLength
  obtain ⟨s', hsteal, hs', -⟩ := stealUnlessLongChain_spec rt hs₁ leaf node
  rw [reserve_eq, Py.bind_ok hrun]
  exact ⟨s', hsteal, hs'⟩

/-- What follows the choice of a replica never fails. -/
theorem scheduleRequest_of_choice (rt : Runtime n) {s₁ : PrebleGlobalSchedulerUtils n}
    {request : Request} {leaf : ℕ} (hinsert : insertRequest rt request.inputIds s = .ok leaf s₁)
    (hs₁ : Sound s₁ σ reserved {leaf}) (hleaf : leaf ∈ s₁.cache.allNodes) (hne : σ leaf ≠ [])
    {gpu : Fin n} (hchoose : chooseReplica rt leaf s₁ = .ok gpu s₁) :
    ∃ s', scheduleRequest rt request s = .ok gpu s' ∧
      Sound s' σ ((σ leaf, gpu) :: reserved) ∅ := by
  obtain ⟨node, hnearest, hnode, hunshare⟩ := hs₁.getNearestAncestor hleaf hne
  obtain ⟨s', hreserve, hs'⟩ :=
    reserve_spec rt hs₁ hleaf hne hnode hunshare gpu request.outputLen
  refine ⟨s', ?_, hs'⟩
  rw [scheduleRequest, Py.bind_ok hinsert, Py.bind_ok (Py.get_apply s₁)]
  simp only [hnearest]
  rw [Py.bind_ok hchoose, Py.bind_ok hreserve]
  rfl

/-- Scheduling a request that is not empty: some replica is chosen, and the path of the
request is reserved there. -/
theorem scheduleRequest_spec (rt : Runtime n) (hn : 0 < n) (hs : Sound s σ reserved ∅)
    {request : Request} (hne : request.inputIds ≠ []) :
    ∃ gpu s' σ', scheduleRequest rt request s = .ok gpu s' ∧
      Sound s' σ' ((request.inputIds, gpu) :: reserved) ∅ := by
  obtain ⟨leaf, s₁, σ', hinsert, hs₁, hleaf, hspell⟩ := insertRequest_spec rt hs request.inputIds
  obtain ⟨gpu, hchoose⟩ := chooseReplica_spec rt hs₁ hn leaf
  obtain ⟨s', hrun, hs'⟩ :=
    scheduleRequest_of_choice rt hinsert hs₁ hleaf (hspell ▸ hne) hchoose
  exact ⟨gpu, s', σ', hrun, hspell ▸ hs'⟩

/-! ## Finishing -/

/-- The queue takes the time of an answer in. -/
theorem append_topts {queue : ToptQueue} (hqueue : none ∉ queue.items) {tpot : Option ℚ}
    (htpot : tpot ≠ none) : none ∉ (queue.append tpot).items := by
  intro hnone
  simp only [ToptQueue.append] at hnone
  rcases List.mem_append.mp (List.mem_of_mem_drop hnone) with hold | hnew
  · exact hqueue hold
  · exact htpot (List.mem_singleton.mp hnew).symm

/-- A successful answer comes with its time per token, as `async_send_request` sets it. -/
def Answered (output : Client.RequestFuncOutput) : Prop :=
  output.success → output.tpot ≠ none

/-- Whatever the server does, and whatever other tasks do meanwhile, an answer that is
returned is of this kind. -/
theorem asyncSendRequest_answered {κ : Type} [Cache.PrefixCache κ]
    {others : Client.SendState κ → Client.SendState κ → Prop} (env : Client.ClientEnv)
    (targetIpPort : Option String) (request : Option Request) (http : Client.HttpOutcome) :
    Coro.Ensures others (fun _ => True) (Client.asyncSendRequest env targetIpPort request http)
      (fun result _ => ∀ output, result = .ok (some output) → Answered output) := by
  -- only `conclude` makes an answer
  have hconclude : ∀ (request : Request) (p : Client.Progress) {P : Client.SendState κ → Prop},
      Coro.Ensures others P (Client.conclude request p)
        (fun result _ => ∀ output, result = .ok (some output) → Answered output) := by
    intro request p P
    refine Coro.Ensures.bind (R := fun _ _ => True) (fun _ _ _ _ _ => trivial) (fun _ => ?_)
    by_cases hsuccess : p.output.success
    · simp only [hsuccess, if_true]
      by_cases hlatency : p.requestLatency = 0
      · simp only [hlatency, if_true]
        exact Coro.Ensures.ret (fun _ _ output h => by cases h)
      · simp only [hlatency, if_false]
        refine Coro.Ensures.bind (R := fun _ _ => True) (fun _ _ _ _ _ => trivial) (fun _ => ?_)
        refine Coro.Ensures.ret (fun _ _ output h => ?_)
        cases h
        exact fun _ => Option.some_ne_none _
    · simp only [hsuccess]
      refine Coro.Ensures.bind (R := fun _ _ => True) (fun _ _ _ _ _ => trivial) (fun result => ?_)
      cases result with
      | ok _ =>
        refine Coro.Ensures.ret (fun _ _ output h => ?_)
        cases h
        exact fun hsuccess' => absurd hsuccess' hsuccess
      | error fault => exact Coro.Ensures.ret (fun _ _ output h => by cases h)
  cases request with
  | none => exact Coro.Ensures.ret (fun _ _ output h => by cases h)
  | some request =>
    cases targetIpPort with
    | none => exact Coro.Ensures.ret (fun _ _ output h => by cases h)
    | some _ =>
      refine Coro.Ensures.bind (R := fun _ _ => True) (fun _ _ _ _ _ => trivial) (fun now => ?_)
      by_cases hlength : request.outputLen = 0
      · simp only [hlength, if_true]
        exact Coro.Ensures.ret (fun _ _ output h => by cases h)
      · simp only [hlength, if_false]
        refine Coro.Ensures.bind (R := fun _ _ => True) (fun _ _ _ _ _ => trivial) (fun _ => ?_)
        refine Coro.Ensures.bind (R := fun _ _ => True) (fun _ _ _ _ _ => trivial) ?_
        rintro ⟨p, result⟩
        match result with
        | .ok () => exact hconclude request p
        | .error .hang => exact Coro.Ensures.ret (fun _ _ output h => by cases h)
        | .error .cancelled => exact hconclude request _
        | .error (.exception _) => exact hconclude request _

/-- What an answer changes in the window: the times and the lengths of answers. -/
def AnswerOnly (h h' : SlidingWindowHistogram n) : Prop :=
  ∃ queues lengths totals, h' = { h with
    toptQueuesForGpus := queues
    currentDecodeLengthsPerGpu := lengths
    totalDecodeLengthForNodeMaps := totals }

theorem AnswerOnly.timestamps {h h' : SlidingWindowHistogram n} (hanswer : AnswerOnly h h') :
    h'.timestamps = h.timestamps := by
  obtain ⟨_, _, _, rfl⟩ := hanswer
  rfl

/-- A successful answer of a request that holds its path releases it. -/
theorem finishRequest_spec (rt : Runtime n) (hs : Sound s σ reserved ∅) {output : FuncOutput n}
    {inputIds : List ℕ} (hsuccess : output.success) (htpot : output.tpot ≠ none)
    (hmem : (inputIds, output.runtimeSelected) ∈ reserved) :
    ∃ s', finishRequest rt (some output) inputIds s = .ok () s' ∧
      Sound s' σ (reserved.erase (inputIds, output.runtimeSelected)) ∅ ∧
      SameShape s.cache s'.cache ∧ AnswerOnly s.histogram s'.histogram := by
  obtain ⟨s₁, hdetector, hs₁, hshape₁, hhist₁⟩ := updateOverloadDetector_spec rt hs inputIds
    output.runtimeSelected output.toRequestFuncOutput
  -- the four steps of `finish_request`, of which only the topt queue can spoil the state
  obtain ⟨found, c₂, hfind, hshape₂, hc₂, -⟩ := hs₁.accounted.findNode rt inputIds
  have hs₂ := hs₁.withCache hshape₂ hc₂
  obtain ⟨c₃, hremove, hshape₃, hc₃⟩ := hs₂.accounted.removeCompletedInputIds rt hmem
  have hs₃ := hs₂.withCache hshape₃ hc₃
  have hshape : SameShape s.cache c₃ := hshape₁.trans (hshape₂.trans hshape₃)
  have hqueues : ∀ gpu, none ∉ (Function.update s₁.histogram.toptQueuesForGpus
      output.runtimeSelected ((s₁.histogram.toptQueuesForGpus output.runtimeSelected).append
        output.tpot) gpu).items := by
    intro gpu
    by_cases hgpu : gpu = output.runtimeSelected
    · subst hgpu
      rw [Function.update_self]
      exact append_topts (hs₁.topts _) htpot
    · rw [Function.update_of_ne hgpu]
      exact hs₁.topts gpu
  rw [finishRequest]
  simp only [if_pos hsuccess]
  rw [Py.bind_ok hdetector, Py.bind_ok (onCache_ok hfind), Py.bind_ok (Py.get_apply _),
    Py.bind_ok (onCache_ok hremove)]
  rw [← hhist₁]
  split
  · exact ⟨_, rfl, hs₃.answered hqueues _ _ _, hshape, _, _, _, rfl⟩
  · exact ⟨_, rfl, hs₃.answered hs₃.topts _ _ _, hshape, _, _, _, rfl⟩

/-! ## Main results -/

/-- The states that runs reach: requests that are not empty are scheduled, at any times, and
each call of `finish_request` matches one earlier call of `schedule` that returned the same
replica. The list holds the requests that were scheduled and not finished yet. -/
inductive Reachable (rt : Runtime n) (windowDuration maxDramTokens prefillTpot : ℚ) :
    PrebleGlobalSchedulerUtils n → List (List ℕ × Fin n) → Prop
  | init : Reachable rt windowDuration maxDramTokens prefillTpot
      (init rt windowDuration maxDramTokens prefillTpot) []
  | schedule {s s' : PrebleGlobalSchedulerUtils n} {unfinished : List (List ℕ × Fin n)}
      {request : Request} {gpu : Fin n}
      (h : Reachable rt windowDuration maxDramTokens prefillTpot s unfinished)
      (hne : request.inputIds ≠ [])
      (hrun : PrebleGlobalScheduler.schedule rt (some request) s = .ok gpu.val s') :
      Reachable rt windowDuration maxDramTokens prefillTpot s'
        ((request.inputIds, gpu) :: unfinished)
  | finish {s s' : PrebleGlobalSchedulerUtils n} {unfinished : List (List ℕ × Fin n)}
      {output : FuncOutput n} {inputIds : List ℕ}
      (h : Reachable rt windowDuration maxDramTokens prefillTpot s unfinished)
      (hanswered : Answered output.toRequestFuncOutput)
      (hmem : (inputIds, output.runtimeSelected) ∈ unfinished)
      (hrun : finishRequest rt (some output) inputIds s = .ok () s') :
      Reachable rt windowDuration maxDramTokens prefillTpot s'
        (unfinished.erase (inputIds, output.runtimeSelected))

theorem schedule_ok (hn : 0 < n) (hs : Sound s σ reserved ∅) {request : Request}
    (hne : request.inputIds ≠ []) :
    ∃ (gpu : Fin n) (s' : PrebleGlobalSchedulerUtils n) (σ' : ℕ → List ℕ),
      schedule rt (some request) s = .ok gpu.val s' ∧
      Sound s' σ' ((request.inputIds, gpu) :: reserved) ∅ := by
  obtain ⟨gpu, s', σ', hrun, hs'⟩ := scheduleRequest_spec rt hn hs hne
  exact ⟨gpu, s', σ', by rw [schedule, Py.bind_ok hrun]; rfl, hs'⟩

/-- An answer that failed changes nothing; one that did not releases its request. -/
theorem finishRequest_ok (rt : Runtime n) (hs : Sound s σ reserved ∅) {output : FuncOutput n}
    {inputIds : List ℕ} (hanswered : Answered output.toRequestFuncOutput)
    (hmem : (inputIds, output.runtimeSelected) ∈ reserved) :
    ∃ s', finishRequest rt (some output) inputIds s = .ok () s' ∧
      Sound s' σ (if output.success then reserved.erase (inputIds, output.runtimeSelected)
        else reserved) ∅ ∧
      SameShape s.cache s'.cache ∧ AnswerOnly s.histogram s'.histogram := by
  by_cases hsuccess : output.success
  · rw [if_pos hsuccess]
    exact finishRequest_spec rt hs hsuccess (hanswered hsuccess) hmem
  · rw [if_neg hsuccess]
    exact ⟨s, by rw [finishRequest]; simp only [if_neg hsuccess]; rfl, hs, .refl _, _, _, _, rfl⟩

/-- Every reachable state keeps the invariant, and what is not finished holds its path. -/
theorem Reachable.sound {windowDuration maxDramTokens prefillTpot : ℚ}
    {unfinished : List (List ℕ × Fin n)} (hn : 0 < n)
    (h : Reachable rt windowDuration maxDramTokens prefillTpot s unfinished) :
    ∃ σ reserved, Sound s σ reserved ∅ ∧ unfinished.Subperm reserved := by
  induction h with
  | init => exact ⟨_, [], init_sound rt windowDuration maxDramTokens prefillTpot, .refl _⟩
  | schedule _ hne hrun ih =>
    -- the run of the model is the one that the specification found
    obtain ⟨σ, reserved, hs, hsub⟩ := ih
    obtain ⟨gpu', s', σ', hrun', hs'⟩ := schedule_ok hn hs hne
    obtain ⟨hgpu, rfl⟩ := EStateM.Result.ok.inj (hrun'.symm.trans hrun)
    obtain rfl : gpu' = _ := Fin.ext (Int.ofNat.inj hgpu)
    exact ⟨σ', _, hs', (List.subperm_cons _).mpr hsub⟩
  | @finish s s' unfinished output inputIds _ hanswered hmem hrun ih =>
    obtain ⟨σ, reserved, hs, hsub⟩ := ih
    obtain ⟨s'', hrun', hs', -⟩ := finishRequest_ok rt hs hanswered (hsub.subset hmem)
    obtain ⟨-, rfl⟩ := EStateM.Result.ok.inj (hrun'.symm.trans hrun)
    refine ⟨σ, _, hs', ?_⟩
    split
    · exact hsub.erase _
    · exact (List.erase_sublist.subperm).trans hsub

/-- In every reachable state every request that is not empty can be scheduled, which returns
one of the replicas, and every request that was scheduled and not finished yet can be
finished. -/
theorem scheduling_never_fails {windowDuration maxDramTokens prefillTpot : ℚ}
    {unfinished : List (List ℕ × Fin n)} (hn : 0 < n)
    (h : Reachable rt windowDuration maxDramTokens prefillTpot s unfinished) :
    (∀ request : Request, request.inputIds ≠ [] →
      ∃ (gpu : Fin n) (s' : PrebleGlobalSchedulerUtils n),
        schedule rt (some request) s = .ok gpu.val s') ∧
    ∀ (output : FuncOutput n) (inputIds : List ℕ), Answered output.toRequestFuncOutput →
      (inputIds, output.runtimeSelected) ∈ unfinished →
      ∃ s', finishRequest rt (some output) inputIds s = .ok () s' := by
  obtain ⟨σ, reserved, hs, hsub⟩ := h.sound hn
  constructor
  · intro request hne
    obtain ⟨gpu, s', -, hrun, -⟩ := schedule_ok hn hs hne
    exact ⟨gpu, s', hrun⟩
  · intro output inputIds hanswered hmem
    obtain ⟨s', hrun, -⟩ := finishRequest_ok rt hs hanswered (hsub.subset hmem)
    exact ⟨s', hrun⟩

/-- A request, and one that continues it by a token. -/
def threeTokens : Request := ⟨0, "s", [1, 2, 3], 3, 8, 0⟩

def fourTokens : Request := ⟨1, "s", [1, 2, 3, 4], 4, 8, 0⟩

/-- Both requests are scheduled before the first one is finished, and then the second one is. -/
theorem scheduling_never_fails_two :
    ∃ (gpu gpu' : Fin 2) (s₁ s₂ s₃ s₄ : PrebleGlobalSchedulerUtils 2),
      schedule (.ascending 2 fun i => i) (some threeTokens)
        (init (.ascending 2 fun i => i) 180 1000 (1 / 10)) = .ok gpu.val s₁ ∧
      schedule (.ascending 2 fun i => i) (some fourTokens) s₁ = .ok gpu'.val s₂ ∧
      finishRequest (.ascending 2 fun i => i)
        (some { success := true, tpot := some 1, runtimeSelected := gpu }) threeTokens.inputIds s₂ =
        .ok () s₃ ∧
      finishRequest (.ascending 2 fun i => i)
        (some { success := true, tpot := some 2, runtimeSelected := gpu' }) fourTokens.inputIds
        s₃ = .ok () s₄ := by
  have hinit : Reachable (.ascending 2 fun i => i) 180 1000 (1 / 10)
      (init (.ascending 2 fun i => i) 180 1000 (1 / 10)) [] := .init
  have hthree : threeTokens.inputIds ≠ [] := by decide
  have hfour : fourTokens.inputIds ≠ [] := by decide
  have hanswered : ∀ (tpot : ℚ) (gpu : Fin 2), Answered (FuncOutput.toRequestFuncOutput
      { success := true, tpot := some tpot, runtimeSelected := gpu }) :=
    fun _ _ _ => Option.some_ne_none _
  obtain ⟨gpu, s₁, hrun₁⟩ := (scheduling_never_fails (by decide) hinit).1 threeTokens hthree
  have h₁ := hinit.schedule hthree hrun₁
  obtain ⟨gpu', s₂, hrun₂⟩ := (scheduling_never_fails (by decide) h₁).1 fourTokens hfour
  have h₂ := h₁.schedule hfour hrun₂
  obtain ⟨s₃, hrun₃⟩ := (scheduling_never_fails (by decide) h₂).2
    { success := true, tpot := some 1, runtimeSelected := gpu } threeTokens.inputIds
    (hanswered 1 gpu) (List.mem_cons_of_mem _ List.mem_cons_self)
  have h₃ := h₂.finish (hanswered 1 gpu) (List.mem_cons_of_mem _ List.mem_cons_self) hrun₃
  -- the second request is still unfinished
  have hmem : (fourTokens.inputIds, gpu') ∈
      [(fourTokens.inputIds, gpu'), (threeTokens.inputIds, gpu)].erase
        (threeTokens.inputIds, gpu) := by
    have hother : fourTokens.inputIds ≠ threeTokens.inputIds := by decide
    exact (List.mem_erase_of_ne fun heq => hother (Prod.mk.inj heq).1).mpr List.mem_cons_self
  obtain ⟨s₄, hrun₄⟩ := (scheduling_never_fails (by decide) h₃).2
    { success := true, tpot := some 2, runtimeSelected := gpu' } fourTokens.inputIds
    (hanswered 2 gpu') hmem
  exact ⟨gpu, gpu', s₁, s₂, s₃, s₄, hrun₁, hrun₂, hrun₃, hrun₄⟩

end PrebleGlobalScheduler

end DualMap.Preble
