import DualMap.Foundation.GroupLoads
import DualMap.Preble.SlidingWindowHistogram

/-!
# The Dictionaries of the Window Stay in Step

All dictionaries of the histogram have the same keys: the nodes with an entry in the window.
The lengths of prompts are summed up exactly, because a split never changes the context
length of a leaf; so a sum is positive as long as an entry is left, and a node is forgotten
with its last entry (`Windowed`). From this no method of the histogram can fail, as long as
its nodes have allocations.

What the methods do is said by functions without effects, up to the costs that are kept for
each replica (`SameWindow`).
-/

namespace DualMap.Preble

namespace SlidingWindowHistogram

variable {n : ℕ} {nodes : ℕ → TreeNode n} {h h' : SlidingWindowHistogram n}

/-! ## Costs -/

/-- Nothing but the costs of the replicas has changed. -/
def SameWindow (h h' : SlidingWindowHistogram n) : Prop :=
  ∃ costs lengths perNode, h' = { h with
    curActualPrefillCostForGpu := costs
    currentDecodeLengthsPerGpu := lengths
    actualPrefillCostPerGpuForNodeMaps := perNode }

theorem SameWindow.refl (h : SlidingWindowHistogram n) : SameWindow h h := ⟨_, _, _, rfl⟩

theorem SameWindow.symm (hsame : SameWindow h h') : SameWindow h' h := by
  obtain ⟨_, _, _, rfl⟩ := hsame
  exact ⟨_, _, _, rfl⟩

theorem SameWindow.trans {h'' : SlidingWindowHistogram n} (h₁ : SameWindow h h')
    (h₂ : SameWindow h' h'') : SameWindow h h'' := by
  obtain ⟨_, _, _, rfl⟩ := h₁
  obtain ⟨_, _, _, rfl⟩ := h₂
  exact ⟨_, _, _, rfl⟩

theorem SameWindow.timestamps (hsame : SameWindow h h') : h'.timestamps = h.timestamps := by
  obtain ⟨_, _, _, rfl⟩ := hsame
  rfl

theorem SameWindow.windowDuration (hsame : SameWindow h h') :
    h'.windowDuration = h.windowDuration := by
  obtain ⟨_, _, _, rfl⟩ := hsame
  rfl

theorem SameWindow.gpuAllocations (hsame : SameWindow h h') :
    h'.gpuAllocations = h.gpuAllocations := by
  obtain ⟨_, _, _, rfl⟩ := hsame
  rfl

theorem SameWindow.histogram (hsame : SameWindow h h') : h'.histogram = h.histogram := by
  obtain ⟨_, _, _, rfl⟩ := hsame
  rfl

/-- Only the costs have to be looked at. -/
theorem SameWindow.eq (hsame : SameWindow h h') : h' = { h with
    curActualPrefillCostForGpu := h'.curActualPrefillCostForGpu
    currentDecodeLengthsPerGpu := h'.currentDecodeLengthsPerGpu
    actualPrefillCostPerGpuForNodeMaps := h'.actualPrefillCostPerGpuForNodeMaps } := by
  obtain ⟨_, _, _, rfl⟩ := hsame
  rfl

theorem readKey_eq {κ ν : Type} [DecidableEq κ] [Zero ν]
    (attr : Attr (SlidingWindowHistogram n) (OrderedDict κ ν)) {key : κ} {value : ν}
    (hset : attr.set (attr.get h) h = h) (hget : (attr.get h).get? key = some value) :
    readKey attr key h = .ok value h := by
  rw [readKey, Py.modifyGet_apply, OrderedDict.read_of_get? hget]
  exact congrArg (EStateM.Result.ok value) hset

theorem getActualPrefillCost_eq {node : ℕ} {ratio : ℚ} {numRequests : ℤ}
    {allocation : Finset (Fin n)} (hratio : h.unsharePrefixRatioForNodeMaps.get? node = some ratio)
    (hnum : h.numRequestsForNodeMaps.get? node = some numRequests)
    (halloc : h.gpuAllocations.get? node = some allocation) (hne : allocation.card ≠ 0) :
    getActualPrefillCostPerGpuForNode nodes node h = .ok
      (ratio * h.prefillTime (nodes node).contextLength * numRequests / allocation.card) h := by
  have hread : readKey numRequestsAttr node h = .ok numRequests h := readKey_eq _ rfl hnum
  rw [getActualPrefillCostPerGpuForNode, Py.bind_ok (Py.get_apply h), hratio,
    Py.ofOption_some, pure_bind, Py.bind_ok hread, halloc, Py.ofOption_some, pure_bind,
    if_neg hne]
  rfl

/-- What `get_actual_prefill_cost_per_gpu_for_node` computes of a node that has an
allocation. -/
def actualPrefillCost (nodes : ℕ → TreeNode n) (h : SlidingWindowHistogram n) (node : ℕ) : ℚ :=
  (h.unsharePrefixRatioForNodeMaps.get? node).getD 0 *
    h.prefillTime (nodes node).contextLength *
    (h.numRequestsForNodeMaps.get? node).getD 0 / ((h.gpuAllocations.get? node).getD ∅).card

/-- The median time per output token of a replica. -/
def medianTopt (h : SlidingWindowHistogram n) (gpu : Fin n) : ℚ :=
  Preble.median (h.toptQueuesForGpus gpu).items.reduceOption

/-- The output length that a request of the node is expected to have. -/
def outputLength (nodes : ℕ → TreeNode n) (h : SlidingWindowHistogram n) (node : ℕ) : ℚ :=
  if (nodes node).decodeLengthQueue ≠ [] then Preble.median (nodes node).decodeLengthQueue
  else (h.curNumDecodeForNodeMaps.get? node).getD 0

/-- What the uncompleted requests of the node cost a replica. -/
def decodeCost (nodes : ℕ → TreeNode n) (h : SlidingWindowHistogram n) (node : ℕ) (gpu : Fin n)
    (tpot : ℚ) : ℚ :=
  (nodes node).numUncompletedRequestForGpuMap gpu * outputLength nodes h node * tpot

/-- What `get_node_prefill_decode_cost_in_target_gpu` computes of a node of the window. -/
def nodeCost (nodes : ℕ → TreeNode n) (h : SlidingWindowHistogram n) (node : ℕ) (gpu : Fin n)
    (tpot : ℚ) : ℚ :=
  actualPrefillCost nodes h node + decodeCost nodes h node gpu tpot

/-- What the replicas pay for the nodes of the window that count. -/
def costOfCounted (nodes : ℕ → TreeNode n) (h : SlidingWindowHistogram n) (counts : ℕ → Prop)
    [DecidablePred counts] : Fin n → ℚ :=
  GroupLoads.load {m ∈ h.histogram.keys.toFinset | counts m}
    (fun m => (h.gpuAllocations.get? m).getD ∅)
    (fun m gpu => nodeCost nodes h m gpu (h.medianTopt gpu))

/-- What is remembered of the cost of a node. -/
def rememberedCost (h : SlidingWindowHistogram n) (node : ℕ) : ℚ :=
  (h.actualPrefillCostPerGpuForNodeMaps.get? node).getD 0

theorem rememberedCost_eq_read (h : SlidingWindowHistogram n) (node : ℕ) :
    h.rememberedCost node = (h.actualPrefillCostPerGpuForNodeMaps.read node).1 :=
  (OrderedDict.read_fst _ node).symm

/-- The cost of the node is written down, and the difference goes to one of its replicas. -/
def updateCost (nodes : ℕ → TreeNode n) (h : SlidingWindowHistogram n) (node : ℕ)
    (gpu : Fin n) : SlidingWindowHistogram n :=
  if gpu ∈ (h.gpuAllocations.get? node).getD ∅ ∧ node ∈ h.unsharePrefixRatioForNodeMaps.keys ∧
      node ∈ h.numRequestsForNodeMaps.keys then
    let cost := actualPrefillCost nodes h node
    { h with
      curActualPrefillCostForGpu := Function.update h.curActualPrefillCostForGpu gpu
        (h.curActualPrefillCostForGpu gpu - h.rememberedCost node + cost)
      actualPrefillCostPerGpuForNodeMaps :=
        (h.actualPrefillCostPerGpuForNodeMaps.read node).2.set node cost }
  else h

theorem sameWindow_updateCost (nodes : ℕ → TreeNode n) (h : SlidingWindowHistogram n)
    (node : ℕ) (gpu : Fin n) : SameWindow h (updateCost nodes h node gpu) := by
  rw [updateCost]
  split
  · exact ⟨_, _, _, rfl⟩
  · exact .refl h

/-- The cost of a node that has an allocation can be updated. -/
theorem updatePrefillCost_eq (nodes : ℕ → TreeNode n) {node : ℕ} (gpu : Fin n)
    (halloc : node ∈ h.gpuAllocations.keys) :
    updatePrefillCostForGpuWithNode nodes node gpu h = .ok () (updateCost nodes h node gpu) := by
  obtain ⟨allocation, hallocation⟩ := OrderedDict.get?_of_mem_keys halloc
  rw [updatePrefillCostForGpuWithNode, Py.bind_ok (Py.get_apply h), hallocation,
    Py.ofOption_some, pure_bind, updateCost, hallocation, Option.getD_some]
  split
  · next hskip =>
    rw [if_neg (by rwa [not_and_or, not_and_or])]
    rfl
  · next hall =>
    rw [not_or, not_or, not_not, not_not, not_not] at hall
    rw [if_pos hall]
    obtain ⟨hgpu, hratio, hnum⟩ := hall
    obtain ⟨ratio, hratio⟩ := OrderedDict.get?_of_mem_keys hratio
    obtain ⟨numRequests, hnum⟩ := OrderedDict.get?_of_mem_keys hnum
    -- the allocation holds the replica, so it can be divided by its size
    have hne : allocation.card ≠ 0 := Finset.card_ne_zero_of_mem hgpu
    have hread : readKey actualPrefillCostAttr node h = .ok (h.rememberedCost node)
        { h with actualPrefillCostPerGpuForNodeMaps :=
          (h.actualPrefillCostPerGpuForNodeMaps.read node).2 } := by
      rw [rememberedCost_eq_read]
      rfl
    rw [Py.bind_ok (getActualPrefillCost_eq hratio hnum hallocation hne), Py.bind_ok hread,
      actualPrefillCost, hratio, hnum, hallocation]
    rfl

/-- The cost of the node is updated on some replicas, one after the other. -/
def updateCosts (nodes : ℕ → TreeNode n) (h : SlidingWindowHistogram n) (node : ℕ)
    (gpus : List (Fin n)) : SlidingWindowHistogram n :=
  gpus.foldl (fun h gpu => updateCost nodes h node gpu) h

theorem sameWindow_updateCosts (nodes : ℕ → TreeNode n) (h : SlidingWindowHistogram n)
    (node : ℕ) (gpus : List (Fin n)) : SameWindow h (updateCosts nodes h node gpus) := by
  induction gpus generalizing h with
  | nil => exact .refl h
  | cons gpu gpus ih => exact (sameWindow_updateCost nodes h node gpu).trans (ih _)

theorem forM_updatePrefillCost_eq (nodes : ℕ → TreeNode n) {node : ℕ} (gpus : List (Fin n))
    (halloc : node ∈ h.gpuAllocations.keys) :
    gpus.forM (updatePrefillCostForGpuWithNode nodes node) h =
      .ok () (updateCosts nodes h node gpus) := by
  induction gpus generalizing h with
  | nil => rfl
  | cons gpu gpus ih =>
    have halloc' : node ∈ (updateCost nodes h node gpu).gpuAllocations.keys := by
      rwa [(sameWindow_updateCost nodes h node gpu).gpuAllocations]
    rw [List.forM_eq_forM, List.forM_cons, Py.bind_ok (updatePrefillCost_eq nodes gpu halloc)]
    exact ih halloc'

/-! ## The invariant -/

/-- The entries of the window with an amount for each. -/
def amounts {M : Type} (h : SlidingWindowHistogram n) (amount : ℕ → M) : List (ℕ × M) :=
  h.timestamps.map (fun entry => (entry.node, amount entry.leafNode))

theorem amounts_fst {M : Type} (h : SlidingWindowHistogram n) (amount : ℕ → M) :
    (h.amounts amount).map Prod.fst = h.timestamps.map WindowEntry.node := by
  rw [amounts, List.map_map]
  rfl

/-- The length of the prompt that ends at a leaf. -/
def promptLength (nodes : ℕ → TreeNode n) (leaf : ℕ) : ℤ := (nodes leaf).contextLength

/-- The dictionaries follow the entries of the window. -/
structure Windowed (nodes : ℕ → TreeNode n) (h : SlidingWindowHistogram n) : Prop where
  histogram : h.histogram.SumsTo (h.amounts (promptLength nodes))
  sumPrompt : h.sumPromptTokensForNodeMaps.SumsTo (h.amounts (promptLength nodes))
  numRequests : h.numRequestsForNodeMaps.SumsTo (h.amounts (fun _ => (1 : ℤ)))
  sumShare : h.sumShareTokensForNodeMaps.KeysOf (h.timestamps.map WindowEntry.node)
  ratio : h.unsharePrefixRatioForNodeMaps.KeysOf (h.timestamps.map WindowEntry.node)
  curNumDecode : h.curNumDecodeForNodeMaps.KeysOf (h.timestamps.map WindowEntry.node)
  totalDecode : ∀ entry ∈ h.timestamps, some entry.node ∈ h.totalDecodeLengthForNodeMaps.keys
  positive : ∀ entry ∈ h.timestamps, 0 < (nodes entry.leafNode).contextLength
  allocated : ∀ entry ∈ h.timestamps, entry.node ∈ h.gpuAllocations.keys

/-- An empty window. -/
theorem init_windowed (nodes : ℕ → TreeNode n) (windowDuration prefillTpot : ℚ) :
    Windowed nodes { prefillTpot := prefillTpot, windowDuration := windowDuration } where
  histogram := OrderedDict.sumsTo_empty
  sumPrompt := OrderedDict.sumsTo_empty
  numRequests := OrderedDict.sumsTo_empty
  sumShare := OrderedDict.sumsTo_empty.keysOf
  ratio := fun _ => Iff.rfl
  curNumDecode := fun _ => Iff.rfl
  totalDecode := fun _ h => absurd h List.not_mem_nil
  positive := fun _ h => absurd h List.not_mem_nil
  allocated := fun _ h => absurd h List.not_mem_nil

theorem Windowed.of_sameWindow (hw : Windowed nodes h) (hsame : SameWindow h h') :
    Windowed nodes h' := by
  obtain ⟨_, _, _, rfl⟩ := hsame
  exact ⟨hw.histogram, hw.sumPrompt, hw.numRequests, hw.sumShare, hw.ratio, hw.curNumDecode,
    hw.totalDecode, hw.positive, hw.allocated⟩

/-- The invariant looks at the context lengths of the leaves only. -/
theorem Windowed.congr {nodes' : ℕ → TreeNode n} (hw : Windowed nodes h)
    (hsame : ∀ entry ∈ h.timestamps,
      (nodes' entry.leafNode).contextLength = (nodes entry.leafNode).contextLength) :
    Windowed nodes' h := by
  have hamounts : h.amounts (promptLength nodes') = h.amounts (promptLength nodes) := by
    refine List.map_congr_left (fun entry hentry => ?_)
    rw [promptLength, promptLength, hsame entry hentry]
  refine { hw with histogram := ?_, sumPrompt := ?_, positive := ?_ }
  · rw [hamounts]
    exact hw.histogram
  · rw [hamounts]
    exact hw.sumPrompt
  · intro entry hentry
    rw [hsame entry hentry]
    exact hw.positive entry hentry

theorem Windowed.mem_histogram (hw : Windowed nodes h) {node : ℕ} :
    node ∈ h.histogram.keys ↔ ∃ entry ∈ h.timestamps, entry.node = node := by
  rw [hw.histogram.keysOf, amounts_fst, List.mem_map]

/-- The prompts of a node with an entry are not empty. -/
theorem Windowed.sum_pos (hw : Windowed nodes h) {node : ℕ}
    (hnode : node ∈ h.timestamps.map WindowEntry.node) :
    0 < OrderedDict.sumOf (h.amounts (promptLength nodes)) node := by
  refine OrderedDict.sumOf_pos ?_ (by rwa [amounts_fst])
  intro e he
  obtain ⟨entry, hentry, rfl⟩ := List.mem_map.mp he
  exact Int.natCast_pos.mpr (hw.positive entry hentry)

/-! ## Reading costs -/

section Costs

variable (hw : Windowed nodes h)

include hw

/-- The cost of a node in the window on a replica that it is allocated to. -/
theorem Windowed.getNodePrefillDecodeCost {node : ℕ} (hnode : node ∈ h.histogram.keys)
    {gpu : Fin n} (hgpu : gpu ∈ (h.gpuAllocations.get? node).getD ∅) (tpot : ℚ) :
    getNodePrefillDecodeCostInTargetGpu nodes node gpu tpot h =
      .ok (nodeCost nodes h node gpu tpot) h := by
  obtain ⟨entry, hentry, rfl⟩ := hw.mem_histogram.mp hnode
  have hmem := List.mem_map_of_mem (f := WindowEntry.node) hentry
  obtain ⟨ratio, hratio⟩ := OrderedDict.get?_of_mem_keys ((hw.ratio _).mpr hmem)
  obtain ⟨num, hnum⟩ := OrderedDict.get?_of_mem_keys
    ((hw.numRequests.keysOf _).mpr (by rwa [amounts_fst]))
  obtain ⟨decode, hdecode⟩ := OrderedDict.get?_of_mem_keys ((hw.curNumDecode _).mpr hmem)
  obtain ⟨allocation, halloc⟩ := OrderedDict.get?_of_mem_keys (hw.allocated entry hentry)
  have hread : readKey curNumDecodeAttr entry.node h = .ok decode h := readKey_eq _ rfl hdecode
  rw [halloc] at hgpu
  rw [getNodePrefillDecodeCostInTargetGpu, Py.bind_ok (getActualPrefillCost_eq hratio hnum halloc
    (Finset.card_ne_zero_of_mem hgpu)), Py.bind_ok hread, nodeCost, decodeCost, outputLength,
    actualPrefillCost, hratio, hnum, halloc, hdecode]
  rfl

/-- Reading how many requests a node has changes nothing. -/
theorem Windowed.readNumRequests {node : ℕ} (hnode : node ∈ h.histogram.keys) :
    readKey numRequestsAttr node h = .ok ((h.numRequestsForNodeMaps.get? node).getD 0) h := by
  obtain ⟨entry, hentry, rfl⟩ := hw.mem_histogram.mp hnode
  obtain ⟨num, hnum⟩ := OrderedDict.get?_of_mem_keys ((hw.numRequests.keysOf _).mpr
    (by rw [amounts_fst]; exact List.mem_map_of_mem hentry))
  rw [hnum]
  exact readKey_eq _ rfl hnum

/-- The costs of the replicas are added up, and nothing changes. -/
theorem Windowed.costForGpus (htopts : ∀ gpu, none ∉ (h.toptQueuesForGpus gpu).items)
    (counted : ℕ → Prop) [DecidablePred counted] {counts : ℕ → Py (SlidingWindowHistogram n) Bool}
    (hcounts : ∀ node ∈ h.histogram.keys, counts node h = .ok (decide (counted node)) h) :
    costForGpus nodes counts h = .ok (costOfCounted nodes h counted) h := by
  have hmedian : ∀ gpu, (h.toptQueuesForGpus gpu).median = some (h.medianTopt gpu) :=
    fun gpu => if_neg (htopts gpu)
  -- no topt queue holds `None`, so every median exists
  have hmedians : medianTopts h = .ok h.medianTopt h := by
    rw [medianTopts, Py.bind_ok (Py.get_apply h), Py.bind_ok (Py.mapM_returns (f := h.medianTopt)
      (fun gpu _ => by rw [hmedian gpu, Py.ofOption_some]; rfl))]
    refine congrArg (EStateM.Result.ok · h) (funext fun gpu => ?_)
    simp
  -- the loop tests each replica in turn; in that order it meets those that hold the node
  let order : ℕ → List (Fin n) :=
    fun m => (List.finRange n).filter (· ∈ (h.gpuAllocations.get? m).getD ∅)
  have horder : ∀ m, (order m).Nodup ∧ ∀ gpu, gpu ∈ order m ↔
      gpu ∈ (h.gpuAllocations.get? m).getD ∅ :=
    fun m => ⟨(List.nodup_finRange n).filter _, fun gpu => by simp [order]⟩
  rw [SlidingWindowHistogram.costForGpus, Py.bind_ok hmedians, Py.bind_ok (Py.get_apply h),
    costOfCounted, ← GroupLoads.foldl_load counted order horder h.histogram.keys_nodup]
  refine Py.foldlM_eq (fun node hnode costs => ?_) _
  rw [Py.bind_ok (Py.get_apply h)]
  refine Py.foldlM_eq (fun gpu hgpu costs => ?_) _
  rw [Py.bind_ok (hcounts node hnode)]
  by_cases hcounted : counted node
  · -- a replica is listed, so the node has an allocation that holds it
    rw [if_pos hcounted, if_pos (decide_eq_true hcounted),
      Py.bind_ok (hw.getNodePrefillDecodeCost hnode (((horder node).2 gpu).mp hgpu) _)]
    rfl
  · rw [if_neg hcounted, if_neg (by rwa [decide_eq_true_eq])]
    rfl

theorem Windowed.getTotalPrefillDecodeCost
    (htopts : ∀ gpu, none ∉ (h.toptQueuesForGpus gpu).items) :
    getTotalPrefillDecodeCostForGpus nodes h =
      .ok (costOfCounted nodes h (fun _ => True)) h :=
  hw.costForGpus htopts (fun _ => True) (fun _ _ => rfl)

theorem Windowed.getPrefillDecodeCostWithMinNumRequest
    (htopts : ∀ gpu, none ∉ (h.toptQueuesForGpus gpu).items) (minNumRequest : ℤ) :
    getPrefillDecodeCostForGpusListWithMinNumRequest nodes minNumRequest h =
      .ok (costOfCounted nodes h
        (fun m => minNumRequest ≤ (h.numRequestsForNodeMaps.get? m).getD 0)) h := by
  refine hw.costForGpus htopts _ (fun node hnode => ?_)
  rw [Py.bind_ok (hw.readNumRequests hnode)]
  rfl

end Costs

end SlidingWindowHistogram

end DualMap.Preble
