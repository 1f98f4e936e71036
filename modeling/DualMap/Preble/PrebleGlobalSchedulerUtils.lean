import DualMap.Preble.CacheEviction
import DualMap.Preble.SlidingWindowHistogram
import DualMap.Client.OpenAI

/-!
# The Utilities of the Preble Scheduler

The model of `preble_global_scheduler_utils.py` and `ttft_overload_detector_preble.py`: what
the scheduler knows (the radix cache, the sliding window and the first-token times of the
nodes), how it chooses a replica and how it moves nodes from heavy to light replicas.

`time.time()` and `datetime.now()` read one clock.
-/

namespace DualMap.Preble

variable {n : ℕ}

/-! ## The overload detector -/

/-- `TTFTWindowedOverloadedDetector`. -/
structure TTFTWindowedOverloadedDetector (n : ℕ) where
  windowDuration : ℚ
  data : OrderedDict (Option ℕ × Fin n) (List (ℚ × ℚ)) := .empty

namespace TTFTWindowedOverloadedDetector

/-- `add_data_point`, with `purge_old_data`. -/
def addDataPoint (d : TTFTWindowedOverloadedDetector n) (timestamp : ℚ) (node : Option ℕ)
    (gpu : Fin n) (value : ℚ) : TTFTWindowedOverloadedDetector n :=
  let points := (d.data.get? (node, gpu)).getD [] ++ [(timestamp, value)]
  let recent := points.dropWhile (fun point => point.1 < timestamp - d.windowDuration)
  { d with data := d.data.set (node, gpu) recent }

/-- `replace_old_node_with_new`. -/
def replaceOldNodeWithNew (d : TTFTWindowedOverloadedDetector n) (oldNode newNode : ℕ)
    (runtimeIdx : Fin n) : TTFTWindowedOverloadedDetector n :=
  match d.data.get? (some oldNode, runtimeIdx) with
  | some points =>
    { d with data :=
        (d.data.erase (some oldNode, runtimeIdx)).set (some newNode, runtimeIdx) points }
  | none => d

/-- `delete_node_in_target_gpu`. -/
def deleteNodeInTargetGpu (d : TTFTWindowedOverloadedDetector n) (node : ℕ) (gpu : Fin n) :
    TTFTWindowedOverloadedDetector n :=
  { d with data := d.data.erase (some node, gpu) }

/-- `calculate_half_window_averages`, at the time `now`; `none` where a half is empty. -/
def calculateHalfWindowAverages (d : TTFTWindowedOverloadedDetector n) (now : ℚ) (node : ℕ)
    (gpu : Fin n) : Option (ℚ × ℚ) := do
  let points ← d.data.get? (some node, gpu)
  let halfWindowCutoff := now - d.windowDuration / 2
  let firstHalf := (points.filter (fun point => point.1 < halfWindowCutoff)).map Prod.snd
  let secondHalf := (points.filter (fun point => ¬ point.1 < halfWindowCutoff)).map Prod.snd
  if firstHalf = [] ∨ secondHalf = [] then none
  else some (firstHalf.sum / firstHalf.length, secondHalf.sum / secondHalf.length)

/-- `is_node_overloaded`. -/
def IsNodeOverloaded (d : TTFTWindowedOverloadedDetector n) (now : ℚ) (node : ℕ)
    (gpu : Fin n) : Prop :=
  match d.calculateHalfWindowAverages now node gpu with
  | none => False
  | some (avgFirstHalf, avgSecondHalf) => 2 * avgFirstHalf ≤ avgSecondHalf

instance (d : TTFTWindowedOverloadedDetector n) (now : ℚ) (node : ℕ) (gpu : Fin n) :
    Decidable (d.IsNodeOverloaded now node gpu) := by
  unfold IsNodeOverloaded
  split <;> infer_instance

end TTFTWindowedOverloadedDetector

/-! ## The state -/

/-- `PrebleGlobalSchedulerUtils`. -/
structure PrebleGlobalSchedulerUtils (n : ℕ) where
  counter : ℕ := 0
  numRequestsForGpusList : Fin n → ℕ := fun _ => 0
  histogram : SlidingWindowHistogram n
  cache : LPRadixCache n
  maxTokensForGpuList : Fin n → ℚ
  overloadDetector : TTFTWindowedOverloadedDetector n

namespace PrebleGlobalSchedulerUtils

/-- `__init__`: the window in seconds, what a replica can hold, and `args.prefill_tpot`. -/
def init (rt : Runtime n) (windowDuration maxDramTokens prefillTpot : ℚ) :
    PrebleGlobalSchedulerUtils n where
  histogram := { prefillTpot := prefillTpot, windowDuration := windowDuration }
  cache := LPRadixCache.init rt
  maxTokensForGpuList _ := maxDramTokens
  overloadDetector := { windowDuration := windowDuration }

def highLoadThreshold : ℚ := 3 / 2

def rebalancingChainLength : ℤ := 3

variable (rt : Runtime n)

/-- Run code of the cache. -/
def onCache {α : Type} (code : Py (LPRadixCache n) α) : Py (PrebleGlobalSchedulerUtils n) α :=
  Py.zoom (·.cache) (fun s cache => { s with cache := cache }) code

/-- Run code of the histogram, which reads the nodes of the cache. -/
def onHistogram {α : Type} (code : (ℕ → TreeNode n) → Py (SlidingWindowHistogram n) α) :
    Py (PrebleGlobalSchedulerUtils n) α := fun s =>
  Py.zoom (·.histogram) (fun s histogram => { s with histogram := histogram })
    (code s.cache.nodes) s

/-- `datetime.now()`. -/
def now : Py (PrebleGlobalSchedulerUtils n) ℚ := onCache (LPRadixCache.readTime rt)

/-- `gpu_allocations`. -/
def gpuAllocations (s : PrebleGlobalSchedulerUtils n) : OrderedDict ℕ (Finset (Fin n)) :=
  s.histogram.gpuAllocations

/-- `gpu_allocations[node] = gpus`. -/
def setGpuAllocation (node : ℕ) (gpus : Finset (Fin n)) :
    Py (PrebleGlobalSchedulerUtils n) Unit :=
  modify (fun s => { s with
    histogram := { s.histogram with gpuAllocations := s.gpuAllocations.set node gpus } })

/-! ## Nodes and their allocations -/

/-- `is_unshare_prefix_over_50_percent_for_node`: the node owns more tokens than lie before
it. -/
def IsUnsharePrefixOver50PercentForNode (s : PrebleGlobalSchedulerUtils n) (node : ℕ) : Prop :=
  (s.cache.nodes node).contextSoFar < (s.cache.nodes node).numTokens

instance (s : PrebleGlobalSchedulerUtils n) (node : ℕ) :
    Decidable (s.IsUnsharePrefixOver50PercentForNode node) :=
  inferInstanceAs (Decidable (_ < _))

/-- `get_nearest_ancestor_node_with_low_share_prefix_ratio`. -/
def getNearestAncestorNodeWithLowSharePrefixRatio (s : PrebleGlobalSchedulerUtils n)
    (node : Option ℕ) : Option ℕ := do
  let node ← node
  (s.cache.ancestors node).find? (fun m => s.IsUnsharePrefixOver50PercentForNode m)

/-- `update_gpu_allocations_with_split_nodes`. -/
def updateGpuAllocationsWithSplitNodes (splitNodes : OrderedDict ℕ ℕ) :
    Py (PrebleGlobalSchedulerUtils n) Unit :=
  splitNodes.entries.forM (fun (childNode, newNode) => do
    let s ← get
    let gpus ← Py.ofOption .keyError (s.gpuAllocations.get? childNode)
    setGpuAllocation newNode gpus)

/-- `update_histogram_with_split_node`. -/
def updateHistogramWithSplitNode (splitNodes : OrderedDict ℕ ℕ) :
    Py (PrebleGlobalSchedulerUtils n) Unit :=
  splitNodes.entries.forM (fun (child, parentNode) => do
    let s ← get
    let gpus := rt.iterGpus ((s.gpuAllocations.get? child).getD ∅)
    if s.IsUnsharePrefixOver50PercentForNode parentNode ∧
        ¬ s.IsUnsharePrefixOver50PercentForNode child then do
      onHistogram (fun nodes => SlidingWindowHistogram.replaceOldNodeWithNew nodes child parentNode)
      let lengths := (s.cache.nodes child).decodeLengthQueue
      onCache (LPRadixCache.modifyNode parentNode (fun x => { x with
        decodeLengthQueue := x.decodeLengthQueue ++ lengths }))
      onCache (LPRadixCache.modifyNode child (fun x => { x with decodeLengthQueue := [] }))
      gpus.forM (fun gpu => modify (fun s => { s with
        overloadDetector := s.overloadDetector.replaceOldNodeWithNew child parentNode gpu }))
    let s ← get
    if s.IsUnsharePrefixOver50PercentForNode child then
      gpus.forM (fun gpu => onHistogram (fun nodes =>
        SlidingWindowHistogram.updatePrefillCostForGpuWithNode nodes child gpu)))

/-- `get_parent_gpu_allocation`: the allocation of the nearest ancestor that has one, or all
replicas. -/
def getParentGpuAllocation (s : PrebleGlobalSchedulerUtils n) (node : ℕ) : Finset (Fin n) :=
  ((s.cache.ancestors node).findSome?
    (fun m => (s.gpuAllocations.get? m).filter (· ≠ ∅))).getD Finset.univ

/-- `add_gpu_allocation_for_parent`. -/
def addGpuAllocationForParent (node : ℕ) (gpus : Finset (Fin n)) :
    Py (PrebleGlobalSchedulerUtils n) Unit := do
  let s ← get
  (s.cache.ancestors node).forM (fun m => do
    let s ← get
    setGpuAllocation m ((s.gpuAllocations.get? m).getD ∅ ∪ gpus))

/-- `update_gpu_allocations_for_children`. -/
def updateGpuAllocationsForChildren (node : ℕ) (gpu : Fin n) :
    Py (PrebleGlobalSchedulerUtils n) Unit := do
  let s ← get
  (s.cache.tree.preorder s.cache.allNodes.card node).tail.forM (setGpuAllocation · {gpu})

/-! ## Choosing a replica -/

/-- `np.argmin`: the position of the first smallest item; of no items it raises. -/
def argmin (costs : List ℚ) : Option ℕ := costs.min?.map (fun least => costs.idxOf least)

/-- `get_virtual_eviction_prefill_cost_for_routing`, which changes nothing. The victims are a
set; their costs are added up in any order. -/
def getVirtualEvictionPrefillCostForRouting (s : PrebleGlobalSchedulerUtils n) (leafNode : ℕ)
    (runtimeSelected : Fin n) : Except Fault ℚ := do
  let victims ← s.cache.virtualLruEviction rt (s.cache.nodes leafNode).numTokens runtimeSelected
  pure (∑ victim ∈ victims, s.histogram.getEvictionPrefillCostForNode s.cache.nodes victim
    runtimeSelected (s.IsUnsharePrefixOver50PercentForNode victim))

/-- `calculate_min_load_cost`: a position in `selectedGpus`, which lists the replicas in the
order of iteration. -/
def calculateMinLoadCost (leafNode : ℕ) (selectedGpus : List (Fin n)) :
    Py (PrebleGlobalSchedulerUtils n) ℕ := do
  let prefillDecodeCostForGpus ←
    onHistogram SlidingWindowHistogram.getTotalPrefillDecodeCostForGpus
  let costs ← selectedGpus.mapM (fun gpu => do
    let s ← get
    match s.getVirtualEvictionPrefillCostForRouting rt leafNode gpu with
    | .ok cost => pure (prefillDecodeCostForGpus gpu + cost)
    | .error fault => throw fault)
  Py.ofOption .valueError (argmin costs)

/-! ## Moving load between replicas -/

/-- The key of the heap of `handle_important_node_stealing_recursive`: tuples of a cost and a
node. -/
def stealKey (s : PrebleGlobalSchedulerUtils n) (item : ℚ × ℕ) : ℚ ×ₗ (List ℤ ×ₗ ℚ) :=
  toLex (item.1, (s.cache.nodes item.2).heapKey)

/-- The nodes that can be moved off the heavy replica, with their costs, as a heap. -/
def rebalanceHeap (heavyGpu : Fin n) (medianTpot : ℚ) :
    Py (PrebleGlobalSchedulerUtils n) (List (ℚ × ℕ)) := do
  let s ← get
  s.histogram.histogram.keys.foldlM (fun heap node => do
    let s ← get
    -- `in None` where the node has no allocation
    let gpus ← Py.ofOption .typeError (s.gpuAllocations.get? node)
    if heavyGpu ∈ gpus ∧ s.IsUnsharePrefixOver50PercentForNode node then do
      let numRequests ←
        onHistogram (fun _ => readKey SlidingWindowHistogram.numRequestsAttr node)
      if 1 < numRequests then do
        let cost ← onHistogram (fun nodes =>
          SlidingWindowHistogram.getNodePrefillDecodeCostInTargetGpu nodes node heavyGpu medianTpot)
        pure (Heapq.heappush s.stealKey heap (cost, node))
      else pure heap
    else pure heap) []

/-- The loop that moves nodes to the light replica: the costs of both when it ends. -/
def stealLoop (heavyGpu lightGpu : Fin n) : ℕ → List (ℚ × ℕ) → ℚ → ℚ →
    Py (PrebleGlobalSchedulerUtils n) (ℚ × ℚ)
  | 0, _, _, _ => throw .hang
  | fuel + 1, heap, larger, smaller => do
    let s ← get
    match Heapq.heappop s.stealKey heap with
    | none => pure (larger, smaller)
    | some ((cost, node), heap) => do
      Py.assert (s.IsUnsharePrefixOver50PercentForNode node)
      if larger - cost < smaller + cost then pure (larger, smaller)
      else do
        let larger := larger - cost
        let smaller := smaller + cost
        setGpuAllocation node {lightGpu}
        onHistogram (fun _ =>
          SlidingWindowHistogram.updateGpusCostWithMigrateNode node heavyGpu lightGpu)
        updateGpuAllocationsForChildren node lightGpu
        if larger < highLoadThreshold * smaller then pure (larger, smaller)
        else stealLoop heavyGpu lightGpu fuel heap larger smaller

/-- Copy a single overloaded node to the light replica, which then shares its load. -/
def splitLoad (heavyGpu lightGpu : Fin n) (item : ℚ × ℕ) (larger smaller : ℚ) :
    Py (PrebleGlobalSchedulerUtils n) (ℚ × ℚ) := do
  let (cost, node) := item
  let s ← get
  let gpus ← Py.ofOption .keyError (s.gpuAllocations.get? node)
  if lightGpu ∈ gpus then pure (larger, smaller)
  else do
    let now ← now rt
    if s.overloadDetector.IsNodeOverloaded now node heavyGpu then do
      setGpuAllocation node (insert lightGpu gpus)
      modify (fun s => { s with
        overloadDetector := s.overloadDetector.deleteNodeInTargetGpu node heavyGpu })
      pure (larger - cost / 2, smaller + cost / 2)
    else pure (larger, smaller)

/-- `handle_important_node_stealing_recursive`. Each call goes on without the first
replica. -/
def handleImportantNodeStealingRecursive :
    ℕ → List (Fin n × ℚ) → Py (PrebleGlobalSchedulerUtils n) Unit
  | 0, _ => throw .hang
  | fuel + 1, costs =>
    match costs, costs.getLast? with
    | (heavyGpu, larger) :: second :: rest, some (lightGpu, smaller) =>
      if larger ≤ highLoadThreshold * smaller then pure ()
      else do
        let s ← get
        let medianTpot ← Py.ofOption .typeError (s.histogram.toptQueuesForGpus heavyGpu).median
        let heap ← rebalanceHeap heavyGpu medianTpot
        let (_, smaller) ← match heap with
          | [item] => splitLoad rt heavyGpu lightGpu item larger smaller
          | heap => stealLoop heavyGpu lightGpu (heap.length + 1) heap larger smaller
        handleImportantNodeStealingRecursive fuel
          ((second :: rest).dropLast ++ [(lightGpu, smaller)])
    | _, _ => pure ()

/-- `handle_important_node_stealing`. -/
def handleImportantNodeStealing : Py (PrebleGlobalSchedulerUtils n) Unit := do
  let s ← get
  if ∑ gpu, s.numRequestsForGpusList gpu < 50 * n then pure ()
  else do
    let costs ← onHistogram (fun nodes =>
      SlidingWindowHistogram.getPrefillDecodeCostForGpusListWithMinNumRequest nodes 2)
    let withIndices := (List.finRange n).map (fun gpu => (gpu, costs gpu))
    -- stable, the heaviest replica first
    let sorted := withIndices.mergeSort (fun x y => y.2 ≤ x.2)
    handleImportantNodeStealingRecursive rt (n + 1) sorted

/-! ## Finished requests -/

/-- `update_overload_detector`. -/
def updateOverloadDetector (inputIds : List ℕ) (runtimeIdx : Fin n)
    (funcOutput : Client.RequestFuncOutput) : Py (PrebleGlobalSchedulerUtils n) Unit := do
  let leafNode ← onCache (LPRadixCache.findNode rt inputIds)
  let s ← get
  let importantNode := s.getNearestAncestorNodeWithLowSharePrefixRatio leafNode
  let now ← now rt
  modify (fun s => { s with
    overloadDetector :=
      s.overloadDetector.addDataPoint now importantNode runtimeIdx funcOutput.ttft })

end PrebleGlobalSchedulerUtils

end DualMap.Preble
