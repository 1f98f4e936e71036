import DualMap.Preble.PrebleGlobalSchedulerUtils

/-!
# The Preble Scheduler

The model of `preble_global_scheduler.py`: `schedule` puts the tokens of a request into the
radix tree, chooses a replica and reserves the path of the request there; `finish_request`
releases it. Both run under one lock, so each is one step.
-/

namespace DualMap.Preble

variable {n : ℕ}

/-- `RequestFuncOutput`, with the replica that answered. -/
structure FuncOutput (n : ℕ) extends Client.RequestFuncOutput where
  runtimeSelected : Fin n

namespace PrebleGlobalScheduler

open PrebleGlobalSchedulerUtils

variable (rt : Runtime n)

/-- Put the tokens into the tree and copy what is known of split nodes: the leaf. -/
def insertRequest (inputIds : List ℕ) : Py (PrebleGlobalSchedulerUtils n) ℕ := do
  let (leafNode, splitNodes) ← onCache (LPRadixCache.insert rt inputIds none .empty)
  updateGpuAllocationsWithSplitNodes splitNodes
  updateHistogramWithSplitNode rt splitNodes
  pure leafNode

/-- A position in a list of replicas, used as the id of a replica. -/
def replicaAt (position : ℕ) : Py (PrebleGlobalSchedulerUtils n) (Fin n) :=
  Py.ofOption .indexError (if h : position < n then some ⟨position, h⟩ else none)

/-- The replica for a leaf: one that holds the shared prefix, if it is the larger part, and
else any. -/
def chooseReplica (leafNode : ℕ) : Py (PrebleGlobalSchedulerUtils n) (Fin n) := do
  let s ← get
  if ((s.cache.nodes leafNode).numTokens : ℤ) < (s.cache.nodes leafNode).contextSoFar then do
    let gpuSelected := s.getParentGpuAllocation leafNode
    if 1 < gpuSelected.card then do
      let position ← calculateMinLoadCost rt leafNode (rt.iterGpus gpuSelected)
      replicaAt position
    else Py.ofOption .indexError (rt.iterGpus gpuSelected).head?
  else do
    let position ← calculateMinLoadCost rt leafNode (List.finRange n)
    replicaAt position

/-- Reserve the path of the leaf on the replica, and make room there. -/
def reserve (leafNode : ℕ) (nearestAncestor : Option ℕ) (runtimeIdx : Fin n)
    (decodingLength : ℤ) : Py (PrebleGlobalSchedulerUtils n) Unit := do
  modify (fun s => { s with counter := s.counter + 1 })
  addGpuAllocationForParent leafNode {runtimeIdx}
  onCache (LPRadixCache.updateCacheMetadada leafNode runtimeIdx)
  -- the assertion asks `None` for its tokens where no ancestor was found
  let nearestAncestor ← Py.ofOption .attributeError nearestAncestor
  let s ← get
  Py.assert (s.IsUnsharePrefixOver50PercentForNode nearestAncestor)
  let now ← now rt
  onHistogram (fun nodes =>
    SlidingWindowHistogram.addRequest nodes now nearestAncestor leafNode runtimeIdx decodingLength)
  modify (fun s => { s with
    numRequestsForGpusList := Function.update s.numRequestsForGpusList runtimeIdx
      (s.numRequestsForGpusList runtimeIdx + 1) })
  let s ← get
  onCache (LPRadixCache.handleCacheEvictionForGpu s.maxTokensForGpuList runtimeIdx)
  let s ← get
  -- longer chains are left alone
  if ((s.cache.nodes leafNode).depth : ℤ) - (s.cache.nodes nearestAncestor).depth <
      rebalancingChainLength then
    handleImportantNodeStealing rt

/-- The body of `schedule`. That the replica is not -1 holds by its type. -/
def scheduleRequest (request : Request) : Py (PrebleGlobalSchedulerUtils n) (Fin n) := do
  let leafNode ← insertRequest rt request.inputIds
  let s ← get
  let nearestAncestor := s.getNearestAncestorNodeWithLowSharePrefixRatio (some leafNode)
  let runtimeIdx ← chooseReplica rt leafNode
  reserve rt leafNode nearestAncestor runtimeIdx request.outputLen
  pure runtimeIdx

/-- `schedule`. -/
def schedule (request : Option Request) : Py (PrebleGlobalSchedulerUtils n) ℤ :=
  match request with
  | none => pure (-1)
  | some request => do
    let runtimeIdx ← scheduleRequest rt request
    pure runtimeIdx.val

/-- `finish_request`. -/
def finishRequest (funcOutput : Option (FuncOutput n)) (inputIds : List ℕ) :
    Py (PrebleGlobalSchedulerUtils n) Unit :=
  match funcOutput with
  | none => pure ()
  | some funcOutput =>
    if funcOutput.success then do
      let runtimeId := funcOutput.runtimeSelected
      updateOverloadDetector rt inputIds runtimeId funcOutput.toRequestFuncOutput
      let node ← onCache (LPRadixCache.findNode rt inputIds)
      let s ← get
      let importantNode := s.getNearestAncestorNodeWithLowSharePrefixRatio node
      onCache (LPRadixCache.removeCompletedInputIds rt inputIds runtimeId)
      if funcOutput.tpot ≠ some 0 ∧ funcOutput.outputLen ≠ some 1 then
        modify (fun s => { s with
          histogram := { s.histogram with
            toptQueuesForGpus := Function.update s.histogram.toptQueuesForGpus runtimeId
              ((s.histogram.toptQueuesForGpus runtimeId).append funcOutput.tpot) } })
      modify (fun s => { s with
        histogram := { s.histogram with
          currentDecodeLengthsPerGpu :=
            Function.update s.histogram.currentDecodeLengthsPerGpu runtimeId
              (s.histogram.currentDecodeLengthsPerGpu runtimeId - funcOutput.maxNewTokens)
          totalDecodeLengthForNodeMaps :=
            s.histogram.totalDecodeLengthForNodeMaps.add importantNode
              (-funcOutput.maxNewTokens) } })
    else pure ()

end PrebleGlobalScheduler

end DualMap.Preble
