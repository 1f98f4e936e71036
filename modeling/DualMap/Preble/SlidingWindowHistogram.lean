import DualMap.Preble.LPRadixCache
import DualMap.Foundation.WindowSums
import Mathlib.Data.List.Sort

/-!
# The Sliding Window Histogram

The model of `preble_sliding_window_histogram.py`: the requests of the last minutes, each
attributed to the ancestor of its leaf that owns more tokens than it shares, and running sums
for each such ancestor. The sums of a request are computed from the lengths of its leaf, when
it comes in and once more when it leaves.

The code reads the objects of the radix cache, which it gets as `nodes`. `gpu_allocations`
and `topt_queues_for_gpus` are objects shared with `PrebleGlobalSchedulerUtils`; they are
kept here. Floats are exact rationals.
-/

namespace DualMap.Preble

variable {n : ℕ}

/-- `np.median` of a sample that is not empty. -/
def median (sample : List ℚ) : ℚ :=
  let sorted := sample.insertionSort (· ≤ ·)
  (sorted.getD ((sorted.length - 1) / 2) 0 + sorted.getD (sorted.length / 2) 0) / 2

/-- `deque(maxlen=200)` of the times per output token, which is never empty. A time that was
never set is `None`. -/
structure ToptQueue where
  items : List (Option ℚ)
  ne_nil : items ≠ []

/-- The time that a replica starts with. -/
def ToptQueue.init : ToptQueue where
  items := [some (15 / 100)]
  ne_nil := List.cons_ne_nil _ _

/-- `append`: the oldest item makes room. -/
def ToptQueue.append (queue : ToptQueue) (tpot : Option ℚ) : ToptQueue where
  items := (queue.items ++ [tpot]).drop (queue.items.length + 1 - 200)
  ne_nil := by
    intro h
    have hlen := congrArg List.length h
    simp only [List.length_drop, List.length_append, List.length_cons, List.length_nil] at hlen
    omega

/-- `np.median` of the queue; a `None` in it cannot be compared. -/
def ToptQueue.median (queue : ToptQueue) : Option ℚ :=
  if none ∈ queue.items then none else some (Preble.median queue.items.reduceOption)

/-- An entry of the window: the time, the node the request is attributed to, and its leaf. -/
structure WindowEntry where
  timestamp : ℚ
  node : ℕ
  leafNode : ℕ
  deriving DecidableEq

/-- `SlidingWindowHistogram`. A request without an important node is counted under `None`
in `totalDecodeLengthForNodeMaps`. -/
structure SlidingWindowHistogram (n : ℕ) where
  prefillTpot : ℚ
  windowDuration : ℚ
  gpuAllocations : OrderedDict ℕ (Finset (Fin n)) := .empty
  histogram : OrderedDict ℕ ℤ := .empty
  numRequestsForNodeMaps : OrderedDict ℕ ℤ := .empty
  timestamps : List WindowEntry := []
  unsharePrefixRatioForNodeMaps : OrderedDict ℕ ℚ := .empty
  sumShareTokensForNodeMaps : OrderedDict ℕ ℤ := .empty
  sumPromptTokensForNodeMaps : OrderedDict ℕ ℤ := .empty
  curNumDecodeForNodeMaps : OrderedDict ℕ ℤ := .empty
  toptQueuesForGpus : Fin n → ToptQueue := fun _ => .init
  curActualPrefillCostForGpu : Fin n → ℚ := fun _ => 0
  currentDecodeLengthsPerGpu : Fin n → ℤ := fun _ => 0
  actualPrefillCostPerGpuForNodeMaps : OrderedDict ℕ ℚ := .empty
  totalDecodeLengthForNodeMaps : OrderedDict (Option ℕ) ℤ := .empty

/-- A dictionary of an object, and how to assign it. -/
structure Attr (σ τ : Type) where
  get : σ → τ
  set : τ → σ → σ

section Dictionaries

variable {σ κ ν : Type} [DecidableEq κ]

/-- `d[key]` of a `defaultdict(int)`. -/
def readKey [Zero ν] (attr : Attr σ (OrderedDict κ ν)) (key : κ) : Py σ ν :=
  modifyGet (fun s => (((attr.get s).read key).1, attr.set ((attr.get s).read key).2 s))

/-- `d.pop(key)`. -/
def popKey (attr : Attr σ (OrderedDict κ ν)) (key : κ) : Py σ ν := do
  let s ← get
  let value ← Py.ofOption .keyError ((attr.get s).get? key)
  set (attr.set ((attr.get s).erase key) s)
  pure value

/-- `d[new] = d.pop(old)`. -/
def moveKey (attr : Attr σ (OrderedDict κ ν)) (old new : κ) : Py σ Unit := do
  let value ← popKey attr old
  modify (fun s => attr.set ((attr.get s).set new value) s)

/-- `del d[key]`. -/
def delKey (attr : Attr σ (OrderedDict κ ν)) (key : κ) : Py σ Unit := do
  let _ ← popKey attr key

end Dictionaries

namespace SlidingWindowHistogram

/-! ## The dictionaries -/

def histogramAttr : Attr (SlidingWindowHistogram n) (OrderedDict ℕ ℤ) :=
  ⟨(·.histogram), fun d s => { s with histogram := d }⟩

def numRequestsAttr : Attr (SlidingWindowHistogram n) (OrderedDict ℕ ℤ) :=
  ⟨(·.numRequestsForNodeMaps), fun d s => { s with numRequestsForNodeMaps := d }⟩

def unsharePrefixRatioAttr : Attr (SlidingWindowHistogram n) (OrderedDict ℕ ℚ) :=
  ⟨(·.unsharePrefixRatioForNodeMaps), fun d s => { s with unsharePrefixRatioForNodeMaps := d }⟩

def sumShareTokensAttr : Attr (SlidingWindowHistogram n) (OrderedDict ℕ ℤ) :=
  ⟨(·.sumShareTokensForNodeMaps), fun d s => { s with sumShareTokensForNodeMaps := d }⟩

def sumPromptTokensAttr : Attr (SlidingWindowHistogram n) (OrderedDict ℕ ℤ) :=
  ⟨(·.sumPromptTokensForNodeMaps), fun d s => { s with sumPromptTokensForNodeMaps := d }⟩

def curNumDecodeAttr : Attr (SlidingWindowHistogram n) (OrderedDict ℕ ℤ) :=
  ⟨(·.curNumDecodeForNodeMaps), fun d s => { s with curNumDecodeForNodeMaps := d }⟩

def actualPrefillCostAttr : Attr (SlidingWindowHistogram n) (OrderedDict ℕ ℚ) :=
  ⟨(·.actualPrefillCostPerGpuForNodeMaps),
    fun d s => { s with actualPrefillCostPerGpuForNodeMaps := d }⟩

def totalDecodeLengthAttr : Attr (SlidingWindowHistogram n) (OrderedDict (Option ℕ) ℤ) :=
  ⟨(·.totalDecodeLengthForNodeMaps), fun d s => { s with totalDecodeLengthForNodeMaps := d }⟩

/-! ## Costs -/

variable (nodes : ℕ → TreeNode n)

/-- `prefill_time`. -/
def prefillTime (s : SlidingWindowHistogram n) (numPrefillTokens : ℕ) : ℚ :=
  numPrefillTokens * s.prefillTpot

/-- `get_actual_prefill_cost_per_gpu_for_node`. -/
def getActualPrefillCostPerGpuForNode (node : ℕ) : Py (SlidingWindowHistogram n) ℚ := do
  let s ← get
  let ratio ← Py.ofOption .keyError (s.unsharePrefixRatioForNodeMaps.get? node)
  let numRequests ← readKey numRequestsAttr node
  -- `len(None)` where the node has no allocation
  let allocation ← Py.ofOption .typeError (s.gpuAllocations.get? node)
  if allocation.card = 0 then Py.raise .zeroDivisionError
  else pure (ratio * s.prefillTime (nodes node).contextLength * numRequests / allocation.card)

/-- `update_prefill_cost_for_gpu_with_node`. -/
def updatePrefillCostForGpuWithNode (node : ℕ) (runtimeIdx : Fin n) :
    Py (SlidingWindowHistogram n) Unit := do
  let s ← get
  -- `in None` where the node has no allocation
  let allocation ← Py.ofOption .typeError (s.gpuAllocations.get? node)
  if runtimeIdx ∉ allocation ∨ node ∉ s.unsharePrefixRatioForNodeMaps.keys ∨
      node ∉ s.numRequestsForNodeMaps.keys then
    pure ()
  else do
    let newCost ← getActualPrefillCostPerGpuForNode nodes node
    let oldCost ← readKey actualPrefillCostAttr node
    modify (fun s => { s with
      curActualPrefillCostForGpu := Function.update s.curActualPrefillCostForGpu runtimeIdx
        (s.curActualPrefillCostForGpu runtimeIdx - oldCost + newCost)
      actualPrefillCostPerGpuForNodeMaps :=
        s.actualPrefillCostPerGpuForNodeMaps.set node newCost })

/-- The medians of all queues. -/
def medianTopts : Py (SlidingWindowHistogram n) (Fin n → ℚ) := do
  let s ← get
  let medians ← (List.finRange n).mapM
    (fun gpu => Py.ofOption .typeError (s.toptQueuesForGpus gpu).median)
  pure (fun gpu => medians.getD gpu 0)

/-- `get_node_prefill_decode_cost_in_target_gpu`. -/
def getNodePrefillDecodeCostInTargetGpu (node : ℕ) (gpu : Fin n) (tpot : ℚ) :
    Py (SlidingWindowHistogram n) ℚ := do
  let prefillCost ← getActualPrefillCostPerGpuForNode nodes node
  let curNumDecode ← readKey curNumDecodeAttr node
  let outputLen : ℚ :=
    if (nodes node).decodeLengthQueue ≠ [] then median (nodes node).decodeLengthQueue
    else curNumDecode
  pure (prefillCost + (nodes node).numUncompletedRequestForGpuMap gpu * outputLen * tpot)

/-- The loop over the nodes in the window and the replicas that each is allocated to.
`counts` says whether a node counts, when it comes to it. -/
def costForGpus (counts : ℕ → Py (SlidingWindowHistogram n) Bool) :
    Py (SlidingWindowHistogram n) (Fin n → ℚ) := do
  let topts ← medianTopts
  let s ← get
  s.histogram.keys.foldlM (fun costs node => do
    let s ← get
    ((List.finRange n).filter (· ∈ (s.gpuAllocations.get? node).getD ∅)).foldlM
      (fun costs gpu => do
        if ← counts node then do
          let cost ← getNodePrefillDecodeCostInTargetGpu nodes node gpu (topts gpu)
          pure (Function.update costs gpu (costs gpu + cost))
        else pure costs) costs) (fun _ => 0)

/-- `get_total_prefill_decode_cost_for_gpus`. -/
def getTotalPrefillDecodeCostForGpus : Py (SlidingWindowHistogram n) (Fin n → ℚ) :=
  costForGpus nodes (fun _ => pure true)

/-- `get_prefill_decode_cost_for_gpus_list_with_min_num_request`. -/
def getPrefillDecodeCostForGpusListWithMinNumRequest (minNumRequest : ℤ) :
    Py (SlidingWindowHistogram n) (Fin n → ℚ) :=
  costForGpus nodes (fun node => do
    let numRequests ← readKey numRequestsAttr node
    pure (decide (minNumRequest ≤ numRequests)))

/-- `get_eviction_prefill_cost_for_node`. -/
def getEvictionPrefillCostForNode (s : SlidingWindowHistogram n) (node : ℕ) (gpu : Fin n)
    (isNodeUnsharePrefixOver50Percent : Prop) [Decidable isNodeUnsharePrefixOver50Percent] : ℚ :=
  if isNodeUnsharePrefixOver50Percent then
    (s.unsharePrefixRatioForNodeMaps.get? node).getD 1 *
      (s.numRequestsForNodeMaps.get? node).getD
        ((nodes node).numUncompletedRequestForGpuMap gpu) *
      s.prefillTime (nodes node).contextLength
  else 0

/-- `update_gpus_cost_with_migrate_node`. -/
def updateGpusCostWithMigrateNode (node : ℕ) (fromGpu toGpu : Fin n) :
    Py (SlidingWindowHistogram n) Unit := do
  let cost ← readKey actualPrefillCostAttr node
  modify (fun s =>
    let costs := Function.update s.curActualPrefillCostForGpu fromGpu
      (s.curActualPrefillCostForGpu fromGpu - cost)
    { s with curActualPrefillCostForGpu := Function.update costs toGpu (costs toGpu + cost) })
  let totalDecodingLength ← readKey totalDecodeLengthAttr (some node)
  modify (fun s =>
    let lengths := Function.update s.currentDecodeLengthsPerGpu fromGpu
      (s.currentDecodeLengthsPerGpu fromGpu - totalDecodingLength)
    { s with currentDecodeLengthsPerGpu :=
        Function.update lengths toGpu (lengths toGpu + totalDecodingLength) })

/-! ## The window -/

/-- The body of the loop of `_remove_old_entries`, for the first entry. -/
def removeOldEntry (entry : WindowEntry) : Py (SlidingWindowHistogram n) Unit := do
  let node := entry.node
  let leaf := nodes entry.leafNode
  modify (fun s => { s with
    timestamps := s.timestamps.tail
    histogram := s.histogram.add node (-leaf.contextLength)
    numRequestsForNodeMaps := s.numRequestsForNodeMaps.add node (-1)
    sumShareTokensForNodeMaps :=
      s.sumShareTokensForNodeMaps.add node (-(leaf.contextLength - leaf.numTokens))
    sumPromptTokensForNodeMaps := s.sumPromptTokensForNodeMaps.add node (-leaf.contextLength) })
  (List.finRange n).forM (updatePrefillCostForGpuWithNode nodes node)
  let length ← readKey histogramAttr node
  if length ≤ 0 then do
    delKey histogramAttr node
    delKey numRequestsAttr node
    delKey unsharePrefixRatioAttr node
    delKey sumShareTokensAttr node
    delKey sumPromptTokensAttr node
    delKey curNumDecodeAttr node
    -- the allocation is reset outside the time window
    modify (fun s => { s with gpuAllocations := s.gpuAllocations.set node ∅ })

/-- The loop of `_remove_old_entries`, over the entries from the oldest on. -/
def removeOldEntriesLoop (windowStart : ℚ) :
    List WindowEntry → Py (SlidingWindowHistogram n) Unit
  | [] => pure ()
  | entry :: rest =>
    if entry.timestamp < windowStart then do
      removeOldEntry nodes entry
      removeOldEntriesLoop windowStart rest
    else pure ()

/-- `_remove_old_entries`. -/
def removeOldEntries (currentTimestamp : ℚ) : Py (SlidingWindowHistogram n) Unit := do
  let s ← get
  removeOldEntriesLoop nodes (currentTimestamp - s.windowDuration) s.timestamps

/-- `add_request`. -/
def addRequest (timestamp : ℚ) (ancestorNodeLowSharePrefixRatio childNodeContainRequest : ℕ)
    (runtimeIdx : Fin n) (decodingLength : ℤ) : Py (SlidingWindowHistogram n) Unit := do
  let node := ancestorNodeLowSharePrefixRatio
  let leaf := nodes childNodeContainRequest
  modify (fun s => { s with
    timestamps := s.timestamps ++ [⟨timestamp, node, childNodeContainRequest⟩]
    histogram := s.histogram.add node leaf.contextLength
    numRequestsForNodeMaps := s.numRequestsForNodeMaps.add node 1
    curNumDecodeForNodeMaps := s.curNumDecodeForNodeMaps.set node decodingLength
    totalDecodeLengthForNodeMaps :=
      s.totalDecodeLengthForNodeMaps.add (some node) decodingLength
    sumShareTokensForNodeMaps :=
      s.sumShareTokensForNodeMaps.add node (leaf.contextLength - leaf.numTokens)
    sumPromptTokensForNodeMaps := s.sumPromptTokensForNodeMaps.add node leaf.contextLength })
  let sumShareTokens ← readKey sumShareTokensAttr node
  let sumPromptTokens ← readKey sumPromptTokensAttr node
  if sumPromptTokens = 0 then Py.raise .zeroDivisionError
  else do
    modify (fun s => { s with
      unsharePrefixRatioForNodeMaps := s.unsharePrefixRatioForNodeMaps.set node
        (1 - (sumShareTokens : ℚ) / sumPromptTokens) })
    removeOldEntries nodes timestamp
    updatePrefillCostForGpuWithNode nodes node runtimeIdx
    modify (fun s => { s with
      currentDecodeLengthsPerGpu := Function.update s.currentDecodeLengthsPerGpu runtimeIdx
        (s.currentDecodeLengthsPerGpu runtimeIdx + decodingLength) })

/-- `replace_old_node_with_new`. -/
def replaceOldNodeWithNew (oldChildNode newParentNode : ℕ) :
    Py (SlidingWindowHistogram n) Unit := do
  let s ← get
  if oldChildNode ∈ s.histogram.keys then do
    moveKey histogramAttr oldChildNode newParentNode
    moveKey numRequestsAttr oldChildNode newParentNode
    moveKey unsharePrefixRatioAttr oldChildNode newParentNode
    moveKey sumShareTokensAttr oldChildNode newParentNode
    moveKey sumPromptTokensAttr oldChildNode newParentNode
    moveKey curNumDecodeAttr oldChildNode newParentNode
    moveKey totalDecodeLengthAttr (some oldChildNode) (some newParentNode)
    (List.finRange n).forM (fun gpu => do
      let cost ← readKey actualPrefillCostAttr oldChildNode
      modify (fun s => { s with
        actualPrefillCostPerGpuForNodeMaps :=
          (s.actualPrefillCostPerGpuForNodeMaps.set newParentNode cost).set oldChildNode 0 })
      updatePrefillCostForGpuWithNode nodes newParentNode gpu)
    modify (fun s => { s with
      timestamps := s.timestamps.map (fun entry =>
        if entry.node = oldChildNode then { entry with node := newParentNode } else entry) })

end SlidingWindowHistogram

end DualMap.Preble
