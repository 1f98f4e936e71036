import DualMap.Foundation.GroupTotals
import DualMap.Preble.WindowChanges

/-!
# The Costs That Are Remembered

The histogram adds up the costs of each replica without looking at all nodes: it remembers
one cost for each node, and puts the difference on one replica when the cost has changed. As
long as every node of the window is allocated to one replica, this is right: what is
remembered of a node is its cost, and the cost of a replica is the sum over its nodes
(`Remembers`). Requests that come in and leave keep this (`Remembers.afterRequest`); of the
loop that moves a cost to another node this can be said if there is only one replica
(`Remembers.replaceNode`).
-/

namespace DualMap.Preble

namespace SlidingWindowHistogram

variable {n : ℕ} {nodes nodes' : ℕ → TreeNode n} {h h' : SlidingWindowHistogram n}
  {stale stale' : Finset ℕ} {node : ℕ} {gpu : Fin n}

/-- The replicas that a node is allocated to. -/
def replicasOf (h : SlidingWindowHistogram n) (node : ℕ) : Finset (Fin n) :=
  (h.gpuAllocations.get? node).getD ∅

/-- The costs of the replicas, and what is remembered of the nodes. -/
def costTotals (h : SlidingWindowHistogram n) : GroupTotals ℕ (Fin n) ℚ where
  total := h.curActualPrefillCostForGpu
  remembered := h.rememberedCost

theorem SameWindow.replicasOf (hsame : SameWindow h h') : h'.replicasOf = h.replicasOf := by
  obtain ⟨_, _, _, rfl⟩ := hsame
  rfl

theorem SameWindow.actualPrefillCost (hsame : SameWindow h h') :
    actualPrefillCost nodes h' = actualPrefillCost nodes h := by
  obtain ⟨_, _, _, rfl⟩ := hsame
  rfl

/-- A node that is not in the window costs nothing. -/
theorem actualPrefillCost_of_notMem (nodes : ℕ → TreeNode n)
    (hnode : node ∉ h.unsharePrefixRatioForNodeMaps.keys) : actualPrefillCost nodes h node = 0 := by
  rw [actualPrefillCost, OrderedDict.get?_eq_none.mpr hnode, Option.getD_none, zero_mul, zero_mul,
    zero_div]

/-- The dictionary of the remembered costs after one was written. -/
theorem rememberedCost_set {d : OrderedDict ℕ ℚ} {cost : ℚ}
    (hd : h'.actualPrefillCostPerGpuForNodeMaps = d.set node cost) :
    h'.rememberedCost = Function.update (fun m => (d.get? m).getD 0) node cost := by
  funext m
  rw [rememberedCost, hd, OrderedDict.get?_set, Function.update_apply]
  split
  · rfl
  · rfl

theorem costTotals_updateCost (nodes : ℕ → TreeNode n) (hgpu : gpu ∈ h.replicasOf node)
    (hratio : node ∈ h.unsharePrefixRatioForNodeMaps.keys)
    (hnum : node ∈ h.numRequestsForNodeMaps.keys) :
    (updateCost nodes h node gpu).costTotals =
      h.costTotals.settle node gpu (actualPrefillCost nodes h node) := by
  rw [updateCost, if_pos ⟨hgpu, hratio, hnum⟩, costTotals, GroupTotals.settle]
  refine congrArg₂ GroupTotals.mk rfl ((rememberedCost_set rfl).trans ?_)
  simp only [OrderedDict.getD_read]
  rfl

/-! ## The invariant -/

/-- Every node of the window is allocated to one replica, the costs of the replicas add up to
what is remembered, and this is the cost of each node, unless it is `stale`. -/
structure Remembers (nodes : ℕ → TreeNode n) (h : SlidingWindowHistogram n)
    (stale : Finset ℕ) : Prop where
  single : ∀ m ∈ h.unsharePrefixRatioForNodeMaps.keys, ∃ gpu, h.replicasOf m = {gpu}
  balanced : h.costTotals.Balanced h.replicasOf
  remembered : ∀ m, m ∉ stale ∨ m ∉ h.unsharePrefixRatioForNodeMaps.keys →
    h.rememberedCost m = actualPrefillCost nodes h m

theorem init_remembers (nodes : ℕ → TreeNode n) (windowDuration prefillTpot : ℚ) :
    Remembers nodes { prefillTpot := prefillTpot, windowDuration := windowDuration } ∅ where
  single := fun _ hm => absurd hm List.not_mem_nil
  balanced := GroupTotals.balanced_zero _
  remembered := fun _ _ => (actualPrefillCost_of_notMem nodes List.not_mem_nil).symm

theorem Remembers.mono (hr : Remembers nodes h stale)
    (hstale : ∀ m ∈ stale, m ∈ h.unsharePrefixRatioForNodeMaps.keys → m ∈ stale') :
    Remembers nodes h stale' where
  single := hr.single
  balanced := hr.balanced
  remembered := by
    intro m hm
    refine hr.remembered m ?_
    by_cases hkey : m ∈ h.unsharePrefixRatioForNodeMaps.keys
    · exact Or.inl fun hin => hm.elim (fun hnot => hnot (hstale m hin hkey)) (fun hnot => hnot hkey)
    · exact Or.inr hkey

/-- Nothing is remembered of a node that is not in the window. -/
theorem Remembers.rememberedCost_of_notMem (hr : Remembers nodes h stale)
    (hnode : node ∉ h.unsharePrefixRatioForNodeMaps.keys) : h.rememberedCost node = 0 := by
  rw [hr.remembered node (Or.inr hnode), actualPrefillCost_of_notMem nodes hnode]

/-- Only the nodes of the window matter. -/
theorem Remembers.congr (hr : Remembers nodes h ∅) (htotals : h'.costTotals = h.costTotals)
    (hratio : h'.unsharePrefixRatioForNodeMaps = h.unsharePrefixRatioForNodeMaps)
    (hnum : h'.numRequestsForNodeMaps = h.numRequestsForNodeMaps)
    (htpot : h'.prefillTpot = h.prefillTpot)
    (hlength : ∀ m ∈ h.unsharePrefixRatioForNodeMaps.keys,
      (nodes' m).contextLength = (nodes m).contextLength)
    (hreplicas : ∀ m ∈ h.unsharePrefixRatioForNodeMaps.keys, h'.replicasOf m = h.replicasOf m) :
    Remembers nodes' h' ∅ where
  single := by
    intro m hm
    rw [hratio] at hm
    rw [hreplicas m hm]
    exact hr.single m hm
  balanced := by
    rw [htotals]
    -- a node with a remembered cost is in the window, so its replicas are the same
    refine hr.balanced.congr (fun m hm => hreplicas m ?_)
    by_contra hnot
    exact hm (hr.rememberedCost_of_notMem hnot)
  remembered := by
    intro m _
    have hsame : h'.rememberedCost m = h.rememberedCost m :=
      congrFun (congrArg GroupTotals.remembered htotals) m
    rw [hsame, hr.remembered m (Or.inl (Finset.notMem_empty m))]
    by_cases hm : m ∈ h.unsharePrefixRatioForNodeMaps.keys
    · have halloc := hreplicas m hm
      rw [replicasOf, replicasOf] at halloc
      rw [actualPrefillCost, actualPrefillCost, hratio, hnum, prefillTime, prefillTime, htpot,
        hlength m hm, halloc]
    · rw [actualPrefillCost_of_notMem nodes hm, actualPrefillCost_of_notMem nodes' (hratio ▸ hm)]

/-! ## Costs are updated -/

/-- A node whose cost is updated on its replica is not stale any more. -/
theorem Remembers.updateCost (hr : Remembers nodes h stale) (node : ℕ) (gpu : Fin n)
    (hnum : node ∈ h.unsharePrefixRatioForNodeMaps.keys → node ∈ h.numRequestsForNodeMaps.keys) :
    Remembers nodes (updateCost nodes h node gpu)
      (if gpu ∈ h.replicasOf node then stale.erase node else stale) := by
  by_cases hguard : gpu ∈ h.replicasOf node ∧ node ∈ h.unsharePrefixRatioForNodeMaps.keys
  · obtain ⟨hgpu, hratio⟩ := hguard
    have htotals := costTotals_updateCost nodes hgpu hratio (hnum hratio)
    have hsame := sameWindow_updateCost nodes h node gpu
    have hkeys : (SlidingWindowHistogram.updateCost nodes h node
        gpu).unsharePrefixRatioForNodeMaps = h.unsharePrefixRatioForNodeMaps := by
      rw [hsame.eq]
    obtain ⟨other, hother⟩ := hr.single node hratio
    have hself : h.replicasOf node = {gpu} := by
      rw [hother] at hgpu ⊢
      rw [Finset.mem_singleton.mp hgpu]
    rw [if_pos hgpu]
    -- one replica holds the node, so writing its cost settles the whole remembered sum
    refine { single := ?_, balanced := ?_, remembered := fun m hm => ?_ }
    · rw [hkeys, hsame.replicasOf]
      exact hr.single
    · rw [htotals, hsame.replicasOf]
      exact hr.balanced.settle hself _
    · have hremembered : (SlidingWindowHistogram.updateCost nodes h node gpu).rememberedCost m =
          (h.costTotals.settle node gpu (actualPrefillCost nodes h node)).remembered m :=
        congrFun (congrArg GroupTotals.remembered htotals) m
      rw [hremembered, hsame.actualPrefillCost]
      by_cases hnode : m = node
      · rw [hnode, GroupTotals.settle_remembered_self]
      · rw [GroupTotals.settle_remembered_of_ne hnode]
        refine hr.remembered m (hm.imp (fun hnot hin => hnot ?_) (fun hnot => hkeys ▸ hnot))
        exact Finset.mem_erase.mpr ⟨hnode, hin⟩
  · -- the node has no cost, or the replica has no part in it
    have hskip : SlidingWindowHistogram.updateCost nodes h node gpu = h :=
      if_neg fun hall => hguard ⟨hall.1, hall.2.1⟩
    rw [hskip]
    refine hr.mono (fun m hm hkey => ?_)
    split
    · next hgpu =>
      refine Finset.mem_erase.mpr ⟨?_, hm⟩
      rintro rfl
      exact hguard ⟨hgpu, hkey⟩
    · exact hm

/-- Its replica is one of those that the cost is updated on. -/
theorem Remembers.updateCosts (hr : Remembers nodes h stale) {gpus : List (Fin n)}
    (hnum : node ∈ h.unsharePrefixRatioForNodeMaps.keys → node ∈ h.numRequestsForNodeMaps.keys)
    (hgpus : node ∉ stale ∨ ∃ gpu ∈ gpus, gpu ∈ h.replicasOf node) :
    Remembers nodes (updateCosts nodes h node gpus) (stale.erase node) := by
  induction gpus generalizing h stale with
  | nil =>
    have hfresh : node ∉ stale := hgpus.resolve_right (fun ⟨_, hmem, _⟩ => List.not_mem_nil hmem)
    rw [Finset.erase_eq_of_notMem hfresh]
    exact hr
  -- the first replica of the loop that holds the node settles it; the others change nothing
  | cons gpu gpus ih =>
    have hsame := sameWindow_updateCost nodes h node gpu
    have hstep := hr.updateCost node gpu hnum
    have hnum' : node ∈ (SlidingWindowHistogram.updateCost nodes h node
          gpu).unsharePrefixRatioForNodeMaps.keys →
        node ∈ (SlidingWindowHistogram.updateCost nodes h node
          gpu).numRequestsForNodeMaps.keys := by
      rw [hsame.eq]
      exact hnum
    have hrest := ih hstep hnum' ?_
    · refine hrest.mono (fun m hm _ => ?_)
      obtain ⟨hne, hm⟩ := Finset.mem_erase.mp hm
      split at hm
      · exact hm
      · exact Finset.mem_erase.mpr ⟨hne, hm⟩
    · rw [hsame.replicasOf]
      by_cases hgpu : gpu ∈ h.replicasOf node
      · rw [if_pos hgpu]
        exact Or.inl (Finset.notMem_erase node stale)
      · rw [if_neg hgpu]
        refine hgpus.imp_right ?_
        rintro ⟨other, hmem, hother⟩
        rcases List.mem_cons.mp hmem with rfl | hmem
        · exact absurd hother hgpu
        · exact ⟨other, hmem, hother⟩

/-! ## Entries come and go -/

/-- The cost of a node that lost an entry is to be updated. -/
theorem Remembers.subtractEntry (hr : Remembers nodes h stale) (entry : WindowEntry) :
    Remembers nodes (subtractEntry nodes h entry) (insert entry.node stale) where
  single := hr.single
  balanced := hr.balanced
  remembered := by
    intro m hm
    have hold : m ∉ stale ∨ m ∉ h.unsharePrefixRatioForNodeMaps.keys :=
      hm.imp_left (fun hnot hin => hnot (Finset.mem_insert_of_mem hin))
    refine (hr.remembered m hold).trans ?_
    by_cases hnode : m = entry.node
    · -- it is not in the window, so it has no cost before and after
      have hkey : m ∉ h.unsharePrefixRatioForNodeMaps.keys :=
        hm.resolve_left (fun hnot => hnot (hnode ▸ Finset.mem_insert_self entry.node stale))
      have hkey' : m ∉ (SlidingWindowHistogram.subtractEntry nodes h
          entry).unsharePrefixRatioForNodeMaps.keys := hkey
      rw [actualPrefillCost_of_notMem nodes hkey, actualPrefillCost_of_notMem nodes hkey']
    -- another node's counters are not read by the entry's
    · have hnum : (SlidingWindowHistogram.subtractEntry nodes h entry).numRequestsForNodeMaps.get?
          m = h.numRequestsForNodeMaps.get? m := OrderedDict.get?_set_of_ne _ _ hnode
      rw [actualPrefillCost, actualPrefillCost, hnum]
      rfl

/-- A node that costs nothing any more can be forgotten. -/
theorem Remembers.forgetNode (hr : Remembers nodes h stale)
    (hzero : h.rememberedCost node = 0) : Remembers nodes (h.forgetNode node) stale := by
  have hreplicas : ∀ m, m ≠ node → (h.forgetNode node).replicasOf m = h.replicasOf m :=
    fun m hm => congrArg (Option.getD · ∅) (OrderedDict.get?_set_of_ne _ _ hm)
  have hratio : ∀ m, m ≠ node → (h.forgetNode node).unsharePrefixRatioForNodeMaps.get? m =
      h.unsharePrefixRatioForNodeMaps.get? m := fun m hm => OrderedDict.get?_erase_of_ne _ hm
  have hnum : ∀ m, m ≠ node → (h.forgetNode node).numRequestsForNodeMaps.get? m =
      h.numRequestsForNodeMaps.get? m := fun m hm => OrderedDict.get?_erase_of_ne _ hm
  refine { single := fun m hm => ?_, balanced := ?_, remembered := fun m hm => ?_ }
  · obtain ⟨hne, hm⟩ := OrderedDict.mem_keys_erase.mp hm
    rw [hreplicas m hne]
    exact hr.single m hm
  -- `forget_node` drops a cost of zero, so the totals still balance
  · refine hr.balanced.congr (fun m hm => hreplicas m ?_)
    rintro rfl
    exact hm hzero
  · by_cases hnode : m = node
    · subst hnode
      rw [actualPrefillCost_of_notMem nodes (OrderedDict.key_notMem_erase _ m)]
      exact hzero
    · have hold : m ∉ stale ∨ m ∉ h.unsharePrefixRatioForNodeMaps.keys :=
        hm.imp_right (fun hnot hin => hnot (OrderedDict.mem_keys_erase.mpr ⟨hnode, hin⟩))
      have halloc := hreplicas m hnode
      rw [replicasOf, replicasOf] at halloc
      refine (hr.remembered m hold).trans ?_
      rw [actualPrefillCost, actualPrefillCost, hratio m hnode, hnum m hnode, halloc]
      rfl

section Removal

variable {entry : WindowEntry} {rest : List WindowEntry}

/-- A node without entries has no requests. -/
theorem Windowed.numRequests_subtractEntry (hw : Windowed nodes h)
    (htime : h.timestamps = entry :: rest) (hgone : entry.node ∉ rest.map WindowEntry.node) :
    ((subtractEntry nodes h entry).numRequestsForNodeMaps.get? entry.node).getD 0 = 0 := by
  have hsums := hw.numRequests
  rw [amounts, htime, List.map_cons] at hsums
  have hfst : (rest.map fun e => (e.node, (1 : ℤ))).map Prod.fst = rest.map WindowEntry.node := by
    rw [List.map_map]
    rfl
  refine (hsums.getD_subtract entry.node).trans (OrderedDict.sumOf_eq_zero ?_)
  rwa [hfst]

/-- An entry leaves, and its cost is taken off the replica of its node. -/
theorem Remembers.removeEntry (hr : Remembers nodes h stale) (hw : Windowed nodes h)
    (htime : h.timestamps = entry :: rest) :
    Remembers nodes (removeEntry nodes h entry) stale := by
  let h₁ := SlidingWindowHistogram.subtractEntry nodes h entry
  let h₂ := SlidingWindowHistogram.updateCosts nodes h₁ entry.node (List.finRange n)
  have hsame : SameWindow h₁ h₂ := sameWindow_updateCosts nodes h₁ entry.node (List.finRange n)
  have hkey : entry.node ∈ h.unsharePrefixRatioForNodeMaps.keys :=
    (hw.ratio _).mpr (htime ▸ List.mem_cons_self)
  obtain ⟨gpu, hgpu⟩ := hr.single entry.node hkey
  have hupdated : Remembers nodes h₂ ((insert entry.node stale).erase entry.node) := by
    refine (hr.subtractEntry entry).updateCosts
      (fun _ => OrderedDict.mem_keys_add.mpr (Or.inl rfl)) (Or.inr ⟨gpu, List.mem_finRange gpu, ?_⟩)
    show gpu ∈ h.replicasOf entry.node
    rw [hgpu]
    exact Finset.mem_singleton_self gpu
  have hr₂ : Remembers nodes h₂ stale := by
    refine hupdated.mono (fun m hm _ => ?_)
    obtain ⟨hne, hm⟩ := Finset.mem_erase.mp hm
    exact (Finset.mem_insert.mp hm).resolve_left hne
  have hlength : (h₂.histogram.get? entry.node).getD 0 =
      OrderedDict.sumOf (rest.map fun e => (e.node, promptLength nodes e.leafNode)) entry.node := by
    rw [hsame.histogram]
    exact hw.length_subtractEntry htime
  show Remembers nodes (if (h₂.histogram.get? entry.node).getD 0 ≤ 0 then
    h₂.forgetNode entry.node else h₂) stale
  split
  · next hgone =>
    refine hr₂.forgetNode ?_
    -- the last entry has left, so nothing is remembered
    have hrest : entry.node ∉ rest.map WindowEntry.node := by
      intro hmem
      refine absurd hgone (not_le.mpr ?_)
      rw [hlength]
      refine OrderedDict.sumOf_pos (fun amount hamount => ?_) ?_
      · obtain ⟨e, he, rfl⟩ := List.mem_map.mp hamount
        exact Int.natCast_pos.mpr (hw.positive e (htime ▸ List.mem_cons_of_mem _ he))
      · rw [List.map_map]
        exact hmem
    rw [hupdated.remembered entry.node (Or.inl (Finset.notMem_erase _ _)),
      hsame.actualPrefillCost, actualPrefillCost, hw.numRequests_subtractEntry htime hrest,
      Int.cast_zero, mul_zero, zero_div]
  · exact hr₂

theorem Remembers.removeEntries {entries : List WindowEntry} (hr : Remembers nodes h stale)
    (hw : Windowed nodes h) (htime : h.timestamps = entries ++ rest) :
    Remembers nodes (removeEntries nodes h entries) stale := by
  induction entries generalizing h with
  | nil => exact hr
  | cons entry entries ih =>
    have hsame := sameWindow_removeEntry nodes h entry
    obtain ⟨hw₁, htime₁⟩ := hw.afterRemoval htime
    exact ih (hr.removeEntry hw htime) (hw₁.of_sameWindow hsame) (hsame.timestamps.trans htime₁)

end Removal

/-- The cost of a node that gets an entry is to be updated. -/
theorem Remembers.addEntry (hr : Remembers nodes h ∅) (entry : WindowEntry) (decodingLength : ℤ)
    (hgpu : h.replicasOf entry.node = {gpu}) :
    Remembers nodes (addEntry nodes h entry decodingLength) {entry.node} where
  single := by
    intro m hm
    rcases OrderedDict.mem_keys_set.mp hm with rfl | hm
    · exact ⟨gpu, hgpu⟩
    · exact hr.single m hm
  balanced := hr.balanced
  remembered := by
    intro m hm
    -- the entry's own node is the stale one, every other reads the counters it read before
    have hnode : m ≠ entry.node := by
      rintro rfl
      exact hm.elim (fun hnot => hnot (Finset.mem_singleton_self _))
        (fun hnot => hnot (OrderedDict.mem_keys_set.mpr (Or.inl rfl)))
    have hratio : (SlidingWindowHistogram.addEntry nodes h entry
        decodingLength).unsharePrefixRatioForNodeMaps.get? m =
        h.unsharePrefixRatioForNodeMaps.get? m := OrderedDict.get?_set_of_ne _ _ hnode
    have hnum : (SlidingWindowHistogram.addEntry nodes h entry
        decodingLength).numRequestsForNodeMaps.get? m = h.numRequestsForNodeMaps.get? m :=
      OrderedDict.get?_set_of_ne _ _ hnode
    refine (hr.remembered m (Or.inl (Finset.notMem_empty m))).trans ?_
    rw [actualPrefillCost, actualPrefillCost, hratio, hnum]
    rfl

/-- A request comes in whose node is allocated to its replica alone. -/
theorem Remembers.afterRequest (hr : Remembers nodes h ∅) (hw : Windowed nodes h)
    (entry : WindowEntry) (decodingLength : ℤ) (hleaf : 0 < (nodes entry.leafNode).contextLength)
    (hgpu : h.replicasOf entry.node = {gpu}) :
    Remembers nodes (afterRequest nodes h entry gpu decodingLength) ∅ := by
  have halloc : entry.node ∈ h.gpuAllocations.keys := by
    by_contra hnot
    rw [replicasOf, OrderedDict.get?_eq_none.mpr hnot] at hgpu
    exact Finset.singleton_ne_empty gpu hgpu.symm
  let windowStart := entry.timestamp - h.windowDuration
  let h₀ := SlidingWindowHistogram.addEntry nodes h entry decodingLength
  let h₁ := SlidingWindowHistogram.removeEntries nodes h₀
    (expired windowStart (h.timestamps ++ [entry]))
  have hw₀ : Windowed nodes h₀ := hw.addEntry decodingLength hleaf halloc
  obtain ⟨-, hremoved, hw₁, htime₁⟩ : _ ∧ Removed nodes _ h₀ h₁ ∧ Windowed nodes h₁ ∧
      h₁.timestamps = remaining windowStart (h.timestamps ++ [entry]) :=
    removeOldEntriesLoop_spec windowStart (h.timestamps ++ [entry]) hw₀ rfl
  have hsplit := (expired_append_remaining windowStart (h.timestamps ++ [entry])).symm
  have hr₁ : Remembers nodes h₁ {entry.node} :=
    (hr.addEntry entry decodingLength hgpu).removeEntries hw₀ hsplit
  have hupdated := hr₁.updateCost entry.node gpu (fun hkey => by
    rw [hw₁.numRequests.keysOf, amounts_fst]
    exact (hw₁.ratio _).mp hkey)
  have hr₂ : Remembers nodes (SlidingWindowHistogram.updateCost nodes h₁ entry.node gpu) ∅ := by
    refine hupdated.mono (fun m hm hkey => ?_)
    rw [(sameWindow_updateCost nodes h₁ entry.node gpu).eq] at hkey
    -- a node that is still in the window has kept its replica
    have hself : gpu ∈ h₁.replicasOf entry.node := by
      have hin : m ∈ ({entry.node} : Finset ℕ) := by
        split at hm
        · exact Finset.mem_of_mem_erase hm
        · exact hm
      rw [Finset.mem_singleton.mp hin, show _ ∈ h₁.unsharePrefixRatioForNodeMaps.keys ↔ _ from
        hw₁.ratio _, htime₁] at hkey
      rw [replicasOf, hremoved.get?_gpuAllocations hw₀ hsplit, if_neg fun hgone => hgone.2 hkey]
      show gpu ∈ h.replicasOf entry.node
      rw [hgpu]
      exact Finset.mem_singleton_self gpu
    rw [if_pos hself, Finset.erase_singleton] at hm
    exact hm
  show Remembers nodes { SlidingWindowHistogram.updateCost nodes h₁ entry.node gpu with
    currentDecodeLengthsPerGpu := _ } ∅
  generalize SlidingWindowHistogram.updateCost nodes h₁ entry.node gpu = h₂ at hr₂ ⊢
  exact hr₂.congr rfl rfl rfl rfl (fun _ _ => rfl) (fun _ _ => rfl)

/-! ## A node is renamed -/

/-- What is remembered of a node is the new node's, which has the amounts of the old one, but
its own length: its cost is left to be counted. -/
theorem Remembers.passRemembered {nodes : ℕ → TreeNode n} {h : SlidingWindowHistogram n}
    (hr : Remembers nodes h ∅) {old new : ℕ} {gpu : Fin n}
    (hratio : old ∈ h.unsharePrefixRatioForNodeMaps.keys)
    (hnum : old ∈ h.numRequestsForNodeMaps.keys)
    (hnew : new ∉ h.unsharePrefixRatioForNodeMaps.keys) (hgpu : h.replicasOf old = {gpu})
    (hreplicas : h.replicasOf new = {gpu}) :
    Remembers nodes (({ h.renameNode old new with timestamps := h.timestamps } :
      SlidingWindowHistogram n).passRemembered old new) {new} := by
  set h₁ := ({ h.renameNode old new with timestamps := h.timestamps } :
    SlidingWindowHistogram n).passRemembered old new with hh₁
  have hne : new ≠ old := by
    rintro rfl
    exact hnew hratio
  -- the new name takes the old one's place in every map
  have hkeys : ∀ m, m ∈ h₁.unsharePrefixRatioForNodeMaps.keys ↔
      m = new ∨ (m ≠ old ∧ m ∈ h.unsharePrefixRatioForNodeMaps.keys) :=
    fun m => OrderedDict.mem_keys_rename hratio
  have hremembered : h₁.rememberedCost =
      Function.update (Function.update h.rememberedCost new (h.rememberedCost old)) old 0 := by
    refine (rememberedCost_set rfl).trans (congrArg (Function.update · old 0) ?_)
    funext m
    rw [OrderedDict.get?_set, Function.update_apply]
    split
    · rfl
    · exact OrderedDict.getD_read ..
  refine { single := fun m hm => ?_, balanced := ?_, remembered := fun m hm => ?_ }
  · rcases (hkeys m).mp hm with rfl | ⟨-, hm⟩
    · exact ⟨gpu, hreplicas⟩
    · exact hr.single m hm
  · have hboth := hr.balanced.rename hne (hr.rememberedCost_of_notMem hnew) hgpu hreplicas
    rw [costTotals, hremembered]
    exact hboth
  -- the new name is stale until `update_cost` runs for it
  · have hother : m ≠ new := by
      rintro rfl
      exact hm.elim (fun hnot => hnot (Finset.mem_singleton_self m))
        (fun hnot => hnot ((hkeys m).mpr (Or.inl rfl)))
    rw [hremembered, Function.update_apply]
    split
    · next heq =>
      refine (actualPrefillCost_of_notMem nodes (fun hin => ?_)).symm
      exact ((hkeys m).mp hin).elim hother (fun hkept => hkept.1 heq)
    · next hkept =>
      have hratio' : h₁.unsharePrefixRatioForNodeMaps.get? m =
          h.unsharePrefixRatioForNodeMaps.get? m := by
        refine (OrderedDict.get?_rename hratio m).trans ?_
        rw [if_neg hother, if_neg hkept]
      have hnum' : h₁.numRequestsForNodeMaps.get? m = h.numRequestsForNodeMaps.get? m := by
        refine (OrderedDict.get?_rename hnum m).trans ?_
        rw [if_neg hother, if_neg hkept]
      rw [Function.update_of_ne hother, hr.remembered m (Or.inl (Finset.notMem_empty m)),
        actualPrefillCost, actualPrefillCost, hratio', hnum']
      rfl

/-- With one replica, the loop over the replicas moves the cost of a node to the new one. -/
theorem Remembers.replaceNode {nodes : ℕ → TreeNode 1} {h : SlidingWindowHistogram 1}
    (hr : Remembers nodes h ∅) {old new : ℕ} (hratio : old ∈ h.unsharePrefixRatioForNodeMaps.keys)
    (hnum : old ∈ h.numRequestsForNodeMaps.keys)
    (hnew : new ∉ h.unsharePrefixRatioForNodeMaps.keys)
    (hreplicas : h.replicasOf new = h.replicasOf old) :
    Remembers nodes (replaceNode nodes h old new) ∅ := by
  obtain ⟨gpu, hgpu⟩ := hr.single old hratio
  have hr₁ := hr.passRemembered hratio hnum hnew hgpu (hreplicas.trans hgpu)
  set h₁ := ({ h.renameNode old new with timestamps := h.timestamps } :
    SlidingWindowHistogram 1).passRemembered old new
  have hself : gpu ∈ h₁.replicasOf new := by
    show gpu ∈ h.replicasOf new
    rw [hreplicas, hgpu]
    exact Finset.mem_singleton_self gpu
  have hupdated := hr₁.updateCost new gpu
    (fun _ => (OrderedDict.mem_keys_rename hnum).mpr (Or.inl rfl))
  rw [if_pos hself, Finset.erase_singleton] at hupdated
  -- with one replica the loop over them is a single turn
  have hloop : (List.finRange 1).foldl (moveCost nodes old new)
      { h.renameNode old new with timestamps := h.timestamps } =
      SlidingWindowHistogram.updateCost nodes h₁ new gpu := by
    rw [Subsingleton.elim gpu 0]
    rfl
  rw [SlidingWindowHistogram.replaceNode, hloop]
  generalize SlidingWindowHistogram.updateCost nodes h₁ new gpu = h₂ at hupdated ⊢
  exact hupdated.congr rfl rfl rfl rfl (fun _ _ => rfl) (fun _ _ => rfl)

end SlidingWindowHistogram

end DualMap.Preble
