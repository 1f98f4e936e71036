import DualMap.Preble.InsertedRequest
import DualMap.Preble.RememberedCosts
import DualMap.Preble.SchedulerRuns

/-!
# The Prefill Costs of the Replicas

In a run in which no node is moved or copied to another replica, the prefill costs that are
kept of the replicas are those of their nodes after every request that goes into the window
(`prefillCosts_agree`), if no node of the window is allocated to two replicas when a request
comes in, and if, where there are several replicas, no request moves the entries of a node to
its upper half. A second request for a prompt that another replica takes is enough to lose a
cost (`prefillCosts_disagree`).
-/

namespace DualMap.Preble

open LPRadixCache (SameShape WellFormed rootNode)
open SlidingWindowHistogram (Remembers Windowed SameWindow)

variable {n : ℕ} {rt : Runtime n} {σ : ℕ → List ℕ} {reserved : List (List ℕ × Fin n)}
  {fresh : Finset ℕ}

namespace PrebleGlobalSchedulerUtils

variable {s s' : PrebleGlobalSchedulerUtils n}

/-! ## The conditions -/

/-- The costs of the replicas are those of their nodes, computed anew. -/
def PrefillCostsAgree (s : PrebleGlobalSchedulerUtils n) : Prop :=
  ∃ cost : ℕ → ℚ,
    (∀ m ∈ s.histogram.histogram.keys, ∀ gpu ∈ s.holders m,
      SlidingWindowHistogram.getActualPrefillCostPerGpuForNode s.cache.nodes m s.histogram =
        .ok (cost m) s.histogram) ∧
    ∀ gpu, s.histogram.curActualPrefillCostForGpu gpu =
      ∑ m ∈ s.histogram.histogram.keys.toFinset with gpu ∈ s.holders m, cost m

/-- Neither a node of the window nor the node of the request is allocated to two replicas. -/
def AllocatedOnce (s : PrebleGlobalSchedulerUtils n) (node : ℕ) : Prop :=
  ∀ m ∈ node :: s.histogram.histogram.keys, (s.holders m).card ≤ 1

instance (s : PrebleGlobalSchedulerUtils n) (node : ℕ) : Decidable (s.AllocatedOnce node) :=
  inferInstanceAs (Decidable (∀ _ ∈ _, _))

/-- The request cuts the node so that the upper half owns more tokens than lie before it, and
the lower half does not. -/
def CutsBelow (s : PrebleGlobalSchedulerUtils n) (inputIds : List ℕ) (node : ℕ) : Prop :=
  let before := (s.cache.nodes node).contextSoFar
  let length : ℤ := (s.cache.nodes node).contextLength
  let shared : ℤ := s.cache.sharedTokens inputIds node
  (before < shared ∧ shared < length) ∧ 2 * before < shared ∧ length ≤ 2 * shared

instance (s : PrebleGlobalSchedulerUtils n) (inputIds : List ℕ) (node : ℕ) :
    Decidable (s.CutsBelow inputIds node) :=
  inferInstanceAs (Decidable (_ ∧ _))

/-- The request cuts no node of the window in this way. -/
def KeepsNodes (s : PrebleGlobalSchedulerUtils n) (inputIds : List ℕ) : Prop :=
  ∀ entry ∈ s.histogram.timestamps, ¬ s.CutsBelow inputIds entry.node

instance (s : PrebleGlobalSchedulerUtils n) (inputIds : List ℕ) :
    Decidable (s.KeepsNodes inputIds) :=
  inferInstanceAs (Decidable (∀ _ ∈ _, _))

/-! ## What is kept -/

/-- The costs are remembered exactly, and no request is attributed to the root. -/
structure CostsKept (s : PrebleGlobalSchedulerUtils n) : Prop where
  remembers : Remembers s.cache.nodes s.histogram ∅
  root : rootNode ∉ s.histogram.timestamps.map WindowEntry.node

theorem Sound.ratio_mem_iff (hs : Sound s σ reserved fresh) {m : ℕ} :
    m ∈ s.histogram.unsharePrefixRatioForNodeMaps.keys ↔
      m ∈ s.histogram.timestamps.map WindowEntry.node := hs.windowed.ratio m

theorem Sound.inTree_of_ratio (hs : Sound s σ reserved fresh) {m : ℕ}
    (hm : m ∈ s.histogram.unsharePrefixRatioForNodeMaps.keys) : m ∈ s.cache.allNodes := by
  obtain ⟨entry, hentry, rfl⟩ := List.mem_map.mp (hs.ratio_mem_iff.mp hm)
  exact (hs.inTree entry hentry).1

theorem init_costsKept (rt : Runtime n) (windowDuration maxDramTokens prefillTpot : ℚ) :
    CostsKept (init rt windowDuration maxDramTokens prefillTpot) where
  remembers := SlidingWindowHistogram.init_remembers _ windowDuration prefillTpot
  root := List.not_mem_nil

/-- Changes of the cache that leave the tree as it is. -/
theorem CostsKept.congr (hk : CostsKept s) (hshape : SameShape s.cache s'.cache)
    (hhist : s'.histogram = s.histogram) : CostsKept s' where
  remembers := by
    rw [hhist]
    exact hk.remembers.congr rfl rfl rfl rfl (fun m _ => hshape.contextLength m) (fun _ _ => rfl)
  root := hhist ▸ hk.root

/-- The costs that are kept are those that can be computed. -/
theorem Sound.prefillCostsAgree (hs : Sound s σ reserved fresh) (hk : CostsKept s) :
    s.PrefillCostsAgree := by
  have hkeys : ∀ m, m ∈ s.histogram.histogram.keys ↔
      m ∈ s.histogram.timestamps.map WindowEntry.node := by
    intro m
    rw [hs.windowed.mem_histogram, List.mem_map]
  refine ⟨SlidingWindowHistogram.actualPrefillCost s.cache.nodes s.histogram,
    fun m hm gpu hgpu => ?_, fun gpu => ?_⟩
  · have hmem := (hkeys m).mp hm
    obtain ⟨ratio, hratio⟩ := OrderedDict.get?_of_mem_keys ((hs.windowed.ratio m).mpr hmem)
    obtain ⟨num, hnum⟩ := OrderedDict.get?_of_mem_keys ((hs.windowed.numRequests.keysOf m).mpr
      (by rwa [SlidingWindowHistogram.amounts_fst]))
    -- a replica listed as a holder comes from an allocation, which divides the cost
    cases halloc : s.gpuAllocations.get? m with
    | none =>
      rw [holders, halloc] at hgpu
      exact absurd hgpu (Finset.notMem_empty gpu)
    | some allocation =>
      rw [holders_of_get? halloc] at hgpu
      rw [SlidingWindowHistogram.getActualPrefillCost_eq hratio hnum halloc
        (Finset.card_ne_zero_of_mem hgpu), SlidingWindowHistogram.actualPrefillCost, hratio, hnum,
        show s.histogram.gpuAllocations.get? m = some allocation from halloc]
      rfl
  -- outside the window no cost is remembered, so the sums have the same terms
  · have hsum := hk.remembers.balanced s.histogram.histogram.keys.toFinset (fun m hm => by
      rw [List.mem_toFinset, hkeys, ← hs.ratio_mem_iff]
      by_contra hnot
      exact hm (hk.remembers.rememberedCost_of_notMem hnot)) gpu
    refine hsum.trans (Finset.sum_congr rfl (fun m _ => ?_))
    exact hk.remembers.remembered m (Or.inl (Finset.notMem_empty m))

/-! ## A node is split -/

/-- The costs of the lower half are the same on every replica. -/
theorem updateIfImportant_remembers (hr : Remembers s.cache.nodes s.histogram ∅) {node : ℕ}
    (hnum : node ∈ s.histogram.unsharePrefixRatioForNodeMaps.keys →
      node ∈ s.histogram.numRequestsForNodeMaps.keys) (gpus : List (Fin n)) :
    Remembers s.cache.nodes (s.updateIfImportant node gpus) ∅ := by
  rw [updateIfImportant]
  split
  · exact hr.updateCosts hnum (Or.inl (Finset.notMem_empty node))
  · exact hr

/-- A split keeps the costs, if there is one replica or no entries move. -/
theorem followSplit_remembers (hr : Remembers s.cache.nodes s.histogram ∅)
    (hkeys : ∀ m, m ∈ s.histogram.unsharePrefixRatioForNodeMaps.keys →
      m ∈ s.histogram.numRequestsForNodeMaps.keys)
    {child new : ℕ} (gpus : List (Fin n))
    (hchild : child ∈ s.histogram.timestamps.map WindowEntry.node →
      child ∈ s.histogram.unsharePrefixRatioForNodeMaps.keys)
    (hnew : new ∉ s.histogram.unsharePrefixRatioForNodeMaps.keys)
    (hholders : s.holders new = s.holders child)
    (hstays : n = 1 ∨ ¬ (child ∈ s.histogram.timestamps.map WindowEntry.node ∧
      s.IsUnsharePrefixOver50PercentForNode new ∧
        ¬ s.IsUnsharePrefixOver50PercentForNode child)) :
    Remembers s.cache.nodes (s.followSplit child new gpus) ∅ := by
  rw [followSplit]
  split
  · next hmoves =>
    split
    · next hmem =>
      obtain rfl : n = 1 := hstays.resolve_right (fun hnot => hnot ⟨hmem, hmoves⟩)
      have hratio := hchild hmem
      exact hr.replaceNode hratio (hkeys child hratio) hnew hholders
    · exact hr
  · exact updateIfImportant_remembers hr (hkeys child) gpus

end PrebleGlobalSchedulerUtils

namespace PrebleGlobalScheduler

open PrebleGlobalSchedulerUtils

variable {s s' s₁ : PrebleGlobalSchedulerUtils n}

section Inserted

variable {inputIds : List ℕ} {leaf : ℕ} {splits : OrderedDict ℕ ℕ} {σ₁ : ℕ → List ℕ}

/-- Entries move to the upper half of a node only if the request cuts it in this way. -/
theorem RequestInserted.cutsBelow (hs : Sound s σ reserved ∅)
    (hins : RequestInserted rt s σ inputIds leaf splits s₁ σ₁) {child new : ℕ}
    (hsplit : splits.get? child = some new)
    (hmoves : s₁.IsUnsharePrefixOver50PercentForNode new ∧
      ¬ s₁.IsUnsharePrefixOver50PercentForNode child) : s.CutsBelow inputIds child := by
  obtain ⟨-, hinside, -, hupper, hlower⟩ := hins.isUnshare_cut hs hsplit
  rw [hupper, hlower, not_lt] at hmoves
  refine ⟨⟨hinside.1, ?_⟩, hmoves.1, ?_⟩
  · exact_mod_cast hinside.2
  · exact_mod_cast hmoves.2

/-- The upper half of a split is a new node, so the root does not come into the window. -/
theorem RequestInserted.root_notMem (hs : Sound s σ reserved ∅)
    (hins : RequestInserted rt s σ inputIds leaf splits s₁ σ₁) {child new : ℕ}
    (hsplits : splits = .single child new) (hfresh : new ∉ s.cache.allNodes)
    (hroot : rootNode ∉ s.histogram.timestamps.map WindowEntry.node) :
    rootNode ∉ s₁.histogram.timestamps.map WindowEntry.node := by
  rw [hins.timestamps, List.map_map]
  intro hmem
  obtain ⟨entry, hentry, hnode⟩ := List.mem_map.mp hmem
  rw [Function.comp_apply, hsplits, moved_single] at hnode
  split at hnode
  · rw [SlidingWindowHistogram.WindowEntry.rename_node] at hnode
    split at hnode
    · exact hfresh (hnode ▸ hs.wellFormed.root_mem)
    · exact hroot (List.mem_map.mpr ⟨entry, hentry, hnode⟩)
  · exact hroot (List.mem_map.mpr ⟨entry, hentry, hnode⟩)

/-- A request that is put into the tree leaves the costs as they are. -/
theorem RequestInserted.costsKept (hs : Sound s σ reserved ∅) (hk : CostsKept s)
    (hins : RequestInserted rt s σ inputIds leaf splits s₁ σ₁)
    (hfollows : WindowFollows rt s splits s₁) (hkeeps : n = 1 ∨ s.KeepsNodes inputIds) :
    CostsKept s₁ := by
  have hlength : ∀ m ∈ s.histogram.unsharePrefixRatioForNodeMaps.keys,
      (s₁.cache.nodes m).contextLength = (s.cache.nodes m).contextLength :=
    fun m hm => hins.contextLength hs (hs.inTree_of_ratio hm)
  cases hfollows with
  | unsplit hsplits hsame =>
    refine ⟨?_, ?_⟩
    · rw [hsame]
      exact hk.remembers.congr rfl rfl rfl rfl hlength (fun _ _ => rfl)
    · rw [hsame]
      exact hk.root
  | @split c child new gpus hsplits hgpus hfresh hshape hfollow =>
    have hsplit : splits.get? child = some new := by
      rw [hsplits]
      exact OrderedDict.get?_single_self child new
    let t : PrebleGlobalSchedulerUtils n := withAllocation { s with cache := c } new gpus
    have hnew : new ∉ s.histogram.unsharePrefixRatioForNodeMaps.keys :=
      fun hin => hfresh (hs.inTree_of_ratio hin)
    have hreplicas : ∀ m ∈ s.histogram.unsharePrefixRatioForNodeMaps.keys,
        t.histogram.replicasOf m = s.histogram.replicasOf m := by
      intro m hm
      refine (holders_withAllocation { s with cache := c } new m gpus).trans (if_neg ?_)
      rintro rfl
      exact hnew hm
    have hr : Remembers t.cache.nodes t.histogram ∅ :=
      hk.remembers.congr rfl rfl rfl rfl
        (fun m hm => (hshape.contextLength m).symm.trans (hlength m hm)) hreplicas
    -- the two halves have the same replicas
    have hholders : t.holders new = t.holders child := by
      have hne : child ≠ new := by
        rintro rfl
        exact hfresh (hins.isUnshare_cut hs hsplit).1
      rw [show t.holders new = gpus from
          (holders_withAllocation { s with cache := c } new new gpus).trans (if_pos rfl),
        show t.holders child = s.holders child from
          (holders_withAllocation { s with cache := c } new child gpus).trans (if_neg hne)]
      exact (holders_of_get? hgpus).symm
    have hnum : ∀ m, m ∈ t.histogram.unsharePrefixRatioForNodeMaps.keys →
        m ∈ t.histogram.numRequestsForNodeMaps.keys := by
      intro m hm
      refine (hs.windowed.numRequests.keysOf m).mpr ?_
      rw [SlidingWindowHistogram.amounts_fst]
      exact hs.ratio_mem_iff.mp hm
    have hfollowed := followSplit_remembers hr hnum
      (rt.iterGpus ((t.gpuAllocations.get? child).getD ∅)) (fun hmem => hs.ratio_mem_iff.mpr hmem)
      hnew hholders (hkeeps.imp_right fun hkeeps hmoves => by
        obtain ⟨hmem, hmoves⟩ := hmoves
        obtain ⟨entry, hentry, rfl⟩ := List.mem_map.mp hmem
        refine hkeeps entry hentry (hins.cutsBelow hs hsplit ?_)
        have hshape' : SameShape t.cache s₁.cache := hshape
        rwa [sameShape_isUnshare hshape', sameShape_isUnshare hshape'])
    refine ⟨?_, hins.root_notMem hs hsplits hfresh hk.root⟩
    rw [hfollow]
    exact hfollowed.congr rfl rfl rfl rfl (fun m _ => hshape.contextLength m) (fun _ _ => rfl)

end Inserted

/-! ## A request goes into the window -/

/-- `schedule` up to where the request goes into the window: the leaf, its important ancestor,
the replica and the time. -/
def scheduleUntilRequest (rt : Runtime n) (request : Request) :
    Py (PrebleGlobalSchedulerUtils n) (ℕ × ℕ × Fin n × ℚ) := do
  let leafNode ← insertRequest rt request.inputIds
  let s ← get
  let nearestAncestor := s.getNearestAncestorNodeWithLowSharePrefixRatio (some leafNode)
  let runtimeIdx ← chooseReplica rt leafNode
  let (nearestAncestor, now) ← reserveUntilRequest rt leafNode nearestAncestor runtimeIdx
  pure (leafNode, nearestAncestor, runtimeIdx, now)

theorem scheduleUntilStealing_eq (rt : Runtime n) (request : Request) :
    scheduleUntilStealing rt request = (do
      let (leafNode, nearestAncestor, runtimeIdx, now) ← scheduleUntilRequest rt request
      addToWindow leafNode nearestAncestor runtimeIdx now request.outputLen
      makeRoom runtimeIdx
      pure (leafNode, nearestAncestor, runtimeIdx)) := by
  simp only [scheduleUntilStealing, scheduleUntilRequest, reserveUntilStealing_eq, bind_assoc,
    pure_bind]

/-- Without an important ancestor there is nothing to reserve. -/
theorem reserveUntilRequest_none {leaf : ℕ} {gpu : Fin n} {ready : ℕ × ℚ} :
    reserveUntilRequest rt leaf none gpu s ≠ .ok ready s₁ := by
  intro hrun
  rw [reserveUntilRequest, Py.bind_ok (Py.modify_apply _ _), Py.bind_apply] at hrun
  split at hrun
  · rw [Py.bind_apply] at hrun
    split at hrun
    · cases hrun
    · cases hrun
  · cases hrun

/-- Only requests with tokens get that far. -/
theorem scheduleUntilRequest_ne_nil (hs : Sound s σ reserved ∅) {request : Request}
    {ready : ℕ × ℕ × Fin n × ℚ} (huntil : scheduleUntilRequest rt request s = .ok ready s₁) :
    request.inputIds ≠ [] := by
  intro hnil
  have hn : 0 < n := ready.2.2.1.pos
  obtain ⟨s₀, hinsert, hs₀, -, -, hnearest⟩ := insertRequest_nil rt hs
  obtain ⟨gpu, hchoose⟩ := chooseReplica_spec rt hs₀ hn rootNode
  rw [scheduleUntilRequest, hnil, Py.bind_ok hinsert, Py.bind_ok (Py.get_apply s₀), hnearest,
    Py.bind_ok hchoose, Py.bind_apply] at huntil
  split at huntil
  · next hrun => exact reserveUntilRequest_none hrun
  · cases huntil

/-- The states of a call before its request goes into the window: `s₀` when the tokens are in
the tree, `s₁` when the path is allocated. -/
theorem scheduleUntilRequest_via (hs : Sound s σ reserved ∅) {request : Request}
    {leaf node : ℕ} {gpu : Fin n} {time : ℚ}
    (huntil : scheduleUntilRequest rt request s = .ok (leaf, node, gpu, time) s₁) :
    ∃ splits s₀ σ₀, Sound s₀ σ₀ reserved {leaf} ∧
      RequestInserted rt s σ request.inputIds leaf splits s₀ σ₀ ∧ WindowFollows rt s splits s₀ ∧
      node ∈ s₀.cache.ancestors leaf ∧ s₀.IsUnsharePrefixOver50PercentForNode node ∧
      PathGivenTo s₀ leaf gpu s₁ ∧ Sound s₁ σ₀ ((request.inputIds, gpu) :: reserved) ∅ := by
  have hne := scheduleUntilRequest_ne_nil hs huntil
  obtain ⟨leaf', splits, s₀, σ₀, hinsert, hs₀, hins, hfollows⟩ :=
    insertRequest_follows rt hs request.inputIds
  obtain ⟨hleaf, hspell⟩ := hins.leaf_spell
  obtain ⟨gpu', hchoose⟩ := chooseReplica_spec rt hs₀ gpu.pos leaf'
  obtain ⟨node', hnearest, hnode, hunshare⟩ := hs₀.getNearestAncestor hleaf (hspell ▸ hne)
  obtain ⟨s₁', hreserve, hs₁, hgiven⟩ := reserveUntilRequest_spec rt hs₀ hleaf hunshare gpu'
  rw [scheduleUntilRequest, Py.bind_ok hinsert, Py.bind_ok (Py.get_apply s₀)] at huntil
  simp only [hnearest] at huntil
  rw [Py.bind_ok hchoose, Py.bind_ok hreserve] at huntil
  simp only [Py.pure_apply, EStateM.Result.ok.injEq, Prod.mk.injEq] at huntil
  obtain ⟨⟨rfl, rfl, rfl, -⟩, rfl⟩ := huntil
  exact ⟨splits, s₀, σ₀, hs₀, hins, hfollows, hnode, hunshare, hgiven, hspell ▸ hs₁⟩

/-- A replica is the only one of an allocation to at most one. -/
theorem eq_singleton_of_card_le_one {gpus : Finset (Fin n)} {gpu : Fin n} (hgpu : gpu ∈ gpus)
    (hcard : gpus.card ≤ 1) : gpus = {gpu} :=
  Finset.eq_singleton_iff_unique_mem.mpr
    ⟨hgpu, fun other hother => Finset.card_le_one.mp hcard other hother gpu hgpu⟩

/-- The path is allocated, and no node of the window has got a second replica. -/
theorem PathGivenTo.costsKept {s₀ : PrebleGlobalSchedulerUtils n} {leaf node : ℕ} {gpu : Fin n}
    (hgiven : PathGivenTo s₀ leaf gpu s₁) (hs₀ : Sound s₀ σ reserved fresh) (hk : CostsKept s₀)
    (honce : s₁.AllocatedOnce node) : CostsKept s₁ := by
  obtain ⟨allocations, hhist⟩ := hgiven.histogram
  have hkeys : s₁.histogram.histogram.keys = s₀.histogram.histogram.keys := by rw [hhist]
  refine ⟨?_, ?_⟩
  · refine hk.remembers.congr ?_ ?_ ?_ ?_ (fun m _ => hgiven.shape.contextLength m)
      (fun m hm => ?_)
    · rw [hhist]
      rfl
    · rw [hhist]
    · rw [hhist]
    · rw [hhist]
    · obtain ⟨first, hfirst⟩ := hk.remembers.single m hm
      have hmem : m ∈ s₁.histogram.histogram.keys := by
        rw [hkeys, hs₀.windowed.mem_histogram, ← List.mem_map]
        exact hs₀.ratio_mem_iff.mp hm
      -- one holder before and at most one after: it is the same
      have hholders : s₁.holders m = {first} := by
        refine eq_singleton_of_card_le_one ?_ (honce m (List.mem_cons_of_mem _ hmem))
        rw [hgiven.holders m, show s₀.holders m = {first} from hfirst]
        split
        · exact Finset.mem_union_left _ (Finset.mem_singleton_self first)
        · exact Finset.mem_singleton_self first
      exact hholders.trans hfirst.symm
  · rw [hgiven.timestamps]
    exact hk.root

/-- What every call has to see to: with several replicas no entries move to the upper half of a
node, and no node in question is allocated to two replicas when the request goes into the
window. -/
def SettlesCosts (rt : Runtime n) (s : PrebleGlobalSchedulerUtils n) (request : Request) : Prop :=
  (n = 1 ∨ s.KeepsNodes request.inputIds) ∧
    ∀ leaf node gpu time s₁, scheduleUntilRequest rt request s = .ok (leaf, node, gpu, time) s₁ →
      s₁.AllocatedOnce node

/-- A request goes into the window, and the costs are kept. -/
theorem addToWindow_costsKept (hs : Sound s σ reserved ∅) (hk : CostsKept s) {request : Request}
    (hsettles : SettlesCosts rt s request) {leaf node : ℕ} {gpu : Fin n} {time : ℚ}
    {s₂ : PrebleGlobalSchedulerUtils n}
    (huntil : scheduleUntilRequest rt request s = .ok (leaf, node, gpu, time) s₁)
    (hadd : addToWindow leaf node gpu time request.outputLen s₁ = .ok () s₂) :
    (∃ σ₂, Sound s₂ σ₂ ((request.inputIds, gpu) :: reserved) ∅) ∧ CostsKept s₂ := by
  have honce := hsettles.2 leaf node gpu time s₁ huntil
  have hne := scheduleUntilRequest_ne_nil hs huntil
  obtain ⟨splits, s₀, σ₀, hs₀, hins, hfollows, hnode, hunshare, hgiven, hs₁⟩ :=
    scheduleUntilRequest_via hs huntil
  obtain ⟨hleaf, hspell⟩ := hins.leaf_spell
  have hk₁ := hgiven.costsKept hs₀ (hins.costsKept hs hk hfollows hsettles.1) honce
  obtain ⟨hnodeTree, -⟩ := (hs₀.wellFormed.mem_ancestors hleaf).mp hnode
  have hleaf₁ : leaf ∈ s₁.cache.allNodes := hgiven.shape.allNodes ▸ hleaf
  have hnode₁ : node ∈ s₁.cache.allNodes := hgiven.shape.allNodes ▸ hnodeTree
  have halloc := hgiven.allocated node hnode
  have hpos := hs₁.contextLength_pos hleaf₁ (hspell ▸ hne)
  have hself : s₁.histogram.replicasOf node = {gpu} := by
    refine eq_singleton_of_card_le_one ?_ (honce node List.mem_cons_self)
    show gpu ∈ s₁.holders node
    rw [hgiven.holders node, if_pos hnode]
    exact Finset.mem_union_right _ (Finset.mem_singleton_self gpu)
  obtain ⟨h, hrequest, hs₂, htime, -⟩ := hs₁.addRequest_spec time gpu request.outputLen hleaf₁
    (hspell ▸ hne) hnode₁ halloc
  have hexact := SlidingWindowHistogram.addRequest_eq hs₁.windowed ⟨time, node, leaf⟩ gpu
    request.outputLen hpos halloc
  obtain ⟨-, rfl⟩ := EStateM.Result.ok.inj (hexact.symm.trans hrequest)
  obtain ⟨-, rfl⟩ := EStateM.Result.ok.inj ((onHistogram_ok hrequest).symm.trans hadd)
  refine ⟨⟨σ₀, hs₂⟩, hk₁.remembers.afterRequest hs₁.windowed ⟨time, node, leaf⟩
    request.outputLen hpos hself, ?_⟩
  -- the node of the request is important, so it is not the root
  rw [htime]
  intro hroot
  obtain ⟨entry, hentry, hnode⟩ := List.mem_map.mp hroot
  rcases List.mem_append.mp ((List.dropWhile_sublist _).subset hentry) with hold | hnew
  · exact hk₁.root (List.mem_map.mpr ⟨entry, hold, hnode⟩)
  · rw [List.mem_singleton.mp hnew] at hnode
    rw [show node = rootNode from hnode] at hunshare
    exact not_isUnshare_root hs₀ hunshare

/-! ## Runs -/

/-- The states that runs reach in which `handle_important_node_stealing` never changes the
window: requests that `Allowed` admits are scheduled, or their calls end with an exception, and
answers come in for requests that are not finished yet. -/
inductive UnstolenRun (rt : Runtime n) (windowDuration maxDramTokens prefillTpot : ℚ)
    (Allowed : PrebleGlobalSchedulerUtils n → Request → Prop) :
    PrebleGlobalSchedulerUtils n → List (List ℕ × Fin n) → Prop
  | init : UnstolenRun rt windowDuration maxDramTokens prefillTpot Allowed
      (init rt windowDuration maxDramTokens prefillTpot) []
  | schedule {s s₂ s' : PrebleGlobalSchedulerUtils n} {unfinished : List (List ℕ × Fin n)}
      {request : Request} {leaf node : ℕ} {gpu : Fin n}
      (h : UnstolenRun rt windowDuration maxDramTokens prefillTpot Allowed s unfinished)
      (hallowed : Allowed s request)
      (huntil : scheduleUntilStealing rt request s = .ok (leaf, node, gpu) s₂)
      (hrun : PrebleGlobalScheduler.schedule rt (some request) s = .ok gpu.val s')
      (hquiet : s'.histogram = s₂.histogram) :
      UnstolenRun rt windowDuration maxDramTokens prefillTpot Allowed s'
        ((request.inputIds, gpu) :: unfinished)
  | fail {s s' : PrebleGlobalSchedulerUtils n} {unfinished : List (List ℕ × Fin n)}
      {request : Request} {fault : Fault}
      (h : UnstolenRun rt windowDuration maxDramTokens prefillTpot Allowed s unfinished)
      (hrun : PrebleGlobalScheduler.schedule rt (some request) s = .error fault s') :
      UnstolenRun rt windowDuration maxDramTokens prefillTpot Allowed s' unfinished
  | finish {s s' : PrebleGlobalSchedulerUtils n} {unfinished : List (List ℕ × Fin n)}
      {output : FuncOutput n} {inputIds : List ℕ}
      (h : UnstolenRun rt windowDuration maxDramTokens prefillTpot Allowed s unfinished)
      (hanswered : Answered output.toRequestFuncOutput)
      (hmem : (inputIds, output.runtimeSelected) ∈ unfinished)
      (hrun : finishRequest rt (some output) inputIds s = .ok () s') :
      UnstolenRun rt windowDuration maxDramTokens prefillTpot Allowed s'
        (unfinished.erase (inputIds, output.runtimeSelected))

theorem UnstolenRun.schedulerRun {windowDuration maxDramTokens prefillTpot : ℚ}
    {Allowed : PrebleGlobalSchedulerUtils n → Request → Prop}
    {unfinished : List (List ℕ × Fin n)}
    (h : UnstolenRun rt windowDuration maxDramTokens prefillTpot Allowed s unfinished) :
    SchedulerRun rt windowDuration maxDramTokens prefillTpot (fun _ _ => True) s unfinished := by
  induction h with
  | init => exact .init
  | schedule _ _ _ hrun _ ih => exact .schedule ih trivial hrun
  | fail _ hrun ih => exact .fail ih trivial hrun
  | finish _ hanswered hmem hrun ih => exact .finish ih hanswered hmem hrun

theorem UnstolenRun.sound {windowDuration maxDramTokens prefillTpot : ℚ}
    {Allowed : PrebleGlobalSchedulerUtils n → Request → Prop}
    {unfinished : List (List ℕ × Fin n)} (hn : 0 < n)
    (h : UnstolenRun rt windowDuration maxDramTokens prefillTpot Allowed s unfinished) :
    ∃ σ reserved, Sound s σ reserved ∅ ∧ unfinished.Subperm reserved :=
  (h.schedulerRun.invariant (I := fun _ => True) hn trivial (fun _ _ _ _ _ => trivial)
    (fun _ _ _ _ _ _ _ _ _ _ _ _ _ _ _ => trivial)).1

/-- Before fifty requests for each replica nothing is moved. -/
theorem schedule_of_few {request : Request} {leaf node : ℕ} {gpu : Fin n}
    (huntil : scheduleUntilStealing rt request s = .ok (leaf, node, gpu) s')
    (hfew : ∑ i, s'.numRequestsForGpusList i < 50 * n) :
    schedule rt (some request) s = .ok gpu.val s' := by
  have hquiet : stealUnlessLongChain rt leaf node s' = .ok () s' := by
    rw [stealUnlessLongChain, Py.bind_ok (Py.get_apply s')]
    split
    · rw [handleImportantNodeStealing, Py.bind_ok (Py.get_apply s'), if_pos hfew]
      rfl
    · rfl
  refine schedule_of_scheduleRequest rt ?_
  rw [scheduleRequest_eq, Py.bind_ok huntil]
  simp only
  rw [Py.bind_ok hquiet]
  rfl

/-- The root, which has no costs, is all that an exception leaves allocated. -/
theorem PathGivenTo.costsKept_root {gpu : Fin n} (hgiven : PathGivenTo s rootNode gpu s')
    (hs : Sound s σ reserved ∅) (hk : CostsKept s) : CostsKept s' := by
  obtain ⟨allocations, hhist⟩ := hgiven.histogram
  refine ⟨hk.remembers.congr ?_ ?_ ?_ ?_ (fun m _ => hgiven.shape.contextLength m)
    (fun m hm => ?_), ?_⟩
  · rw [hhist]
    rfl
  · rw [hhist]
  · rw [hhist]
  · rw [hhist]
  · refine (hgiven.holders m).trans (if_neg fun hpath => ?_)
    obtain ⟨hmem, hpre⟩ := (hs.wellFormed.mem_ancestors hs.wellFormed.root_mem).mp hpath
    rw [show σ rootNode = [] from hs.wellFormed.spelled.root_spell, List.prefix_nil] at hpre
    rw [(hs.wellFormed.spelled.spell_eq_nil hmem).mp hpre] at hm
    exact hk.root (hs.ratio_mem_iff.mp hm)
  · rw [hgiven.timestamps]
    exact hk.root

theorem AnswerOnly.costsKept (hanswer : AnswerOnly s.histogram s'.histogram)
    (hshape : SameShape s.cache s'.cache) (hk : CostsKept s) : CostsKept s' := by
  obtain ⟨queues, lengths, totals, hsame⟩ := hanswer
  refine ⟨?_, ?_⟩
  · rw [hsame]
    exact hk.remembers.congr rfl rfl rfl rfl (fun m _ => hshape.contextLength m) (fun _ _ => rfl)
  · rw [hsame]
    exact hk.root

/-- A call up to where nodes may be moved. -/
theorem scheduleUntilStealing_costsKept (hs : Sound s σ reserved ∅) (hk : CostsKept s)
    {request : Request} (hsettles : SettlesCosts rt s request) {leaf node : ℕ} {gpu : Fin n}
    (huntil : scheduleUntilStealing rt request s = .ok (leaf, node, gpu) s') : CostsKept s' := by
  rw [scheduleUntilStealing_eq, Py.bind_apply] at huntil
  split at huntil
  · next ready s₁ hready =>
    obtain ⟨leaf', node', gpu', time⟩ := ready
    simp only [Py.bind_apply] at huntil
    split at huntil
    · next s₂ hadd =>
      obtain ⟨⟨σ₂, hs₂⟩, hk₂⟩ := addToWindow_costsKept hs hk hsettles hready hadd
      obtain ⟨s₃, hroom, -, hshape, hhist⟩ := makeRoom_spec hs₂ gpu'
      rw [hroom] at huntil
      obtain ⟨-, rfl⟩ := EStateM.Result.ok.inj huntil
      exact hk₂.congr hshape hhist
    · cases huntil
  · cases huntil

/-- In every run whose calls all settle the costs, the costs are kept. -/
theorem UnstolenRun.costsKept {windowDuration maxDramTokens prefillTpot : ℚ}
    {unfinished : List (List ℕ × Fin n)} (hn : 0 < n)
    (h : UnstolenRun rt windowDuration maxDramTokens prefillTpot (SettlesCosts rt) s unfinished) :
    CostsKept s := by
  induction h with
  | init => exact init_costsKept rt windowDuration maxDramTokens prefillTpot
  -- a scheduling settles the cost of the node it marks; moves are excluded by the hypothesis
  | @schedule s s₂ s' unfinished request leaf node gpu h hallowed huntil hrun hquiet ih =>
    obtain ⟨σ, reserved, hs, -⟩ := h.sound hn
    have hk₂ := scheduleUntilStealing_costsKept hs ih hallowed huntil
    obtain ⟨leaf', splits, s₁, σ₁, node', s₂', hvia, -, hmoves⟩ := scheduledVia_of_ok rt hs hrun
    obtain ⟨-, rfl⟩ := EStateM.Result.ok.inj (hvia.run.symm.trans huntil)
    refine hk₂.congr ?_ hquiet
    rcases hmoves with rfl | ⟨light, hmoves⟩
    · exact .refl _
    · exact hmoves.shape
  -- a request that fails has only marked the root, which has no cost
  | fail h hrun ih =>
    obtain ⟨σ, reserved, hs, -⟩ := h.sound hn
    obtain ⟨gpu, -, hgiven⟩ := schedule_fail rt hn hs hrun
    exact hgiven.costsKept_root hs ih
  | finish h hanswered hmem hrun ih =>
    obtain ⟨σ, reserved, hs, hsub⟩ := h.sound hn
    obtain ⟨s'', hrun', -, hshape, hanswer⟩ := finishRequest_ok rt hs hanswered (hsub.subset hmem)
    obtain ⟨-, rfl⟩ := EStateM.Result.ok.inj (hrun'.symm.trans hrun)
    exact hanswer.costsKept hshape ih

/-! ## Main results -/

/-- In every run without stealing whose calls settle the costs, the prefill costs of the
replicas are those of their nodes after every request that goes into the window. -/
theorem prefillCosts_agree {windowDuration maxDramTokens prefillTpot : ℚ}
    {unfinished : List (List ℕ × Fin n)}
    (h : UnstolenRun rt windowDuration maxDramTokens prefillTpot (SettlesCosts rt) s unfinished)
    {request : Request} (hsettles : SettlesCosts rt s request) {leaf node : ℕ} {gpu : Fin n}
    {time : ℚ} {s₂ : PrebleGlobalSchedulerUtils n}
    (huntil : scheduleUntilRequest rt request s = .ok (leaf, node, gpu, time) s₁)
    (hadd : addToWindow leaf node gpu time request.outputLen s₁ = .ok () s₂) :
    s₂.PrefillCostsAgree := by
  obtain ⟨σ, reserved, hs, -⟩ := h.sound gpu.pos
  obtain ⟨⟨σ₂, hs₂⟩, hk₂⟩ := addToWindow_costsKept hs (h.costsKept gpu.pos) hsettles huntil hadd
  exact hs₂.prefillCostsAgree hk₂

/-! ## A node on two replicas -/

/-- Two replicas, and a clock that shows one second more at each reading. -/
def twoReplicas : Runtime 2 := .ascending 2 fun reading => reading

/-- The scheduler before the first request. -/
def idleReplicas : PrebleGlobalSchedulerUtils 2 := init twoReplicas 180 1000 (1 / 10)

/-- A request of three tokens. -/
def sharedPrompt : Request := ⟨0, "s", [1, 2, 3], 3, 8, 0⟩

/-- It shares nothing with the first one. -/
def otherPrompt : Request := ⟨1, "t", [4, 5, 6], 3, 8, 0⟩

/-- The first replica has got a request. -/
def afterShared : PrebleGlobalSchedulerUtils 2 :=
  Py.finalState (scheduleUntilStealing twoReplicas sharedPrompt idleReplicas)

theorem afterShared_eq : scheduleUntilStealing twoReplicas sharedPrompt idleReplicas =
    .ok (1, 1, 0) afterShared := Py.eq_ok_of_returned (by decide +kernel)

theorem afterShared_run {Allowed : PrebleGlobalSchedulerUtils 2 → Request → Prop}
    (hallowed : Allowed idleReplicas sharedPrompt) :
    UnstolenRun twoReplicas 180 1000 (1 / 10) Allowed afterShared [([1, 2, 3], 0)] := by
  have hfew : ∑ i, afterShared.numRequestsForGpusList i < 50 * 2 := by decide +kernel
  exact .schedule .init hallowed afterShared_eq (schedule_of_few afterShared_eq hfew) rfl

/-- The state when a request is ready to go into the window. -/
def readyState (s : PrebleGlobalSchedulerUtils 2) (request : Request) :
    PrebleGlobalSchedulerUtils 2 :=
  Py.finalState (scheduleUntilRequest twoReplicas request s)

theorem settlesCosts_of_ready {s : PrebleGlobalSchedulerUtils 2} {request : Request}
    (leaf node : ℕ) (gpu : Fin 2) (time : ℚ)
    (huntil : scheduleUntilRequest twoReplicas request s =
      .ok (leaf, node, gpu, time) (readyState s request))
    (hkeeps : s.KeepsNodes request.inputIds) (honce : (readyState s request).AllocatedOnce node) :
    SettlesCosts twoReplicas s request := by
  refine ⟨Or.inr hkeeps, fun leaf' node' gpu' time' s₁ hrun => ?_⟩
  rw [huntil] at hrun
  simp only [EStateM.Result.ok.injEq, Prod.mk.injEq] at hrun
  obtain ⟨⟨-, rfl, -⟩, rfl⟩ := hrun
  exact honce

/-- The window when a request has gone into it. -/
def addedState (s : PrebleGlobalSchedulerUtils 2) (request : Request) (leaf node : ℕ)
    (gpu : Fin 2) (time : ℚ) : PrebleGlobalSchedulerUtils 2 :=
  Py.finalState (addToWindow leaf node gpu time request.outputLen (readyState s request))

theorem prefillCosts_agree_other :
    (addedState afterShared otherPrompt 2 2 1 6).PrefillCostsAgree := by
  have hfirst : SettlesCosts twoReplicas idleReplicas sharedPrompt :=
    settlesCosts_of_ready 1 1 0 3 (Py.eq_ok_of_returned (by decide +kernel))
      (by decide +kernel) (by decide +kernel)
  have huntil : scheduleUntilRequest twoReplicas otherPrompt afterShared =
      .ok (2, 2, 1, 6) (readyState afterShared otherPrompt) :=
    Py.eq_ok_of_returned (by decide +kernel)
  have hsecond : SettlesCosts twoReplicas afterShared otherPrompt :=
    settlesCosts_of_ready 2 2 1 6 huntil (by decide +kernel) (by decide +kernel)
  exact prefillCosts_agree (afterShared_run hfirst) hsecond huntil
    (Py.eq_ok_of_returned (by decide +kernel))

/-- The second replica takes the same prompt. The costs of the node are two halves then, of
which the one that is remembered was put on the first replica. -/
theorem prefillCosts_disagree : ¬ ∀ (s s₁ s₂ : PrebleGlobalSchedulerUtils 2)
    (unfinished : List (List ℕ × Fin 2)) (request : Request) (leaf node : ℕ) (gpu : Fin 2)
    (time : ℚ), UnstolenRun twoReplicas 180 1000 (1 / 10) (fun _ _ => True) s unfinished →
      scheduleUntilRequest twoReplicas request s = .ok (leaf, node, gpu, time) s₁ →
      addToWindow leaf node gpu time request.outputLen s₁ = .ok () s₂ →
      s₂.PrefillCostsAgree := by
  intro h
  have huntil : scheduleUntilRequest twoReplicas sharedPrompt afterShared =
      .ok (1, 1, 1, 5) (readyState afterShared sharedPrompt) :=
    Py.eq_ok_of_returned (by decide +kernel)
  let s₂ := addedState afterShared sharedPrompt 1 1 1 5
  obtain ⟨cost, hcost, hsum⟩ : s₂.PrefillCostsAgree :=
    h afterShared (readyState afterShared sharedPrompt) s₂ _ sharedPrompt 1 1 1 5
      (afterShared_run trivial) huntil (Py.eq_ok_of_returned (by decide +kernel))
  -- the second replica is credited with the whole cost of a node that two now share
  have hnode := hcost 1 (by decide +kernel) 1 (by decide +kernel)
  have hhalf : Py.returned (SlidingWindowHistogram.getActualPrefillCostPerGpuForNode
      s₂.cache.nodes 1 s₂.histogram) = some (3 / 10) := by decide +kernel
  rw [hnode] at hhalf
  have hkeys : s₂.histogram.histogram.keys.toFinset.filter (fun m => 1 ∈ s₂.holders m) = {1} := by
    decide +kernel
  have hsecond := hsum 1
  rw [hkeys, Finset.sum_singleton, Option.some.inj hhalf] at hsecond
  revert hsecond
  decide +kernel

end PrebleGlobalScheduler

end DualMap.Preble
