import DualMap.Entities.Replica
import DualMap.Foundation.Coroutine
import DualMap.Foundation.WhileLoop
import DualMap.Scheduler.GlobalRequestQueue

/-!
# The Double-Hash Scheduler

`DoubleHashGlobalSchedulerUtils` gives every request two candidate replicas by hashing its
session, queues it at one of them, moves queued requests away from overloaded replicas,
and pops what the replicas can take. The coroutines below have a suspension point at
every `await` of the code.

What the calls share is a `World`. The locals `ν` of a calling task are left alone, except
that a push takes the request from them (`placed`).
-/

namespace DualMap.Scheduler

open Cache

/-- `_balance_type`; `other` is any string that the code does not compare with. -/
inductive BalanceType where
  | dualmapLeastLoaded
  | dualmapCacheAffinity
  | dualmapMinTtft
  | dualmapNoRebalance
  | dualmap
  | ttftSlo
  | ttftAvg
  | nbCost1
  | rbCost1
  | rbCost1Aggresive
  | rbCost1Avg
  | other
  deriving DecidableEq

/-- What `DoubleHashGlobalSchedulerUtils` is created with: the options, and the parts that
are not its own. The hash rings are arbitrary functions into the replica ids,
`perfCounter k` is the `k`-th reading of the clock, and `sampleSwaps` tells whether
`random.sample`, reseeded at every use, exchanges two elements. `fl x` is the float that
arithmetic with the exact result `x` yields; where exact rationals are meant it is the
identity. -/
structure DoubleHashGlobalSchedulerUtils (n : ℕ) where
  balanceType : BalanceType
  dhFirstBalanceTtftThredhold : ℤ
  dhRebalanceThredhold : ℤ
  dhReplicaPendingReqThreshold : ℤ
  dhRebalanceWaitingLatencyThredhold : ℚ
  prefillTpot : ℚ
  dhRecomputePunishRatio : ℚ
  busyPrefillInterval : ℚ
  hashFunction1 : String → Fin n
  hashFunction2 : String → Fin n
  perfCounter : ℕ → ℚ
  sampleSwaps : Bool
  fl : ℚ → ℚ

/-- What the scheduler's calls share: the global queue and the rebalance count, the
replicas and the posted requests of `SharedState`, and what is written in the requests.
`ticks` counts the clock readings, and `dispatched` records which request was popped for
posting from which queue; no code reads it. -/
structure World (n : ℕ) (κ : Type) where
  globalRequestQueue : GlobalRequestQueue n
  replicaBudgets : Fin n → Replica κ
  attrs : Request → RequestAttrs
  rebalanceCnt : ℕ
  postingRequestTasks : List (Fin n × Request)
  ticks : ℕ
  dispatched : List (Fin n × Request)

namespace World

variable {n : ℕ} {κ : Type}

/-- Nothing queued, nothing posted, and replicas in some state. -/
def init (replicaBudgets : Fin n → Replica κ) (attrs : Request → RequestAttrs) :
    World n κ where
  globalRequestQueue := .init n
  replicaBudgets := replicaBudgets
  attrs := attrs
  rebalanceCnt := 0
  postingRequestTasks := []
  ticks := 0
  dispatched := []

/-- `shared_state.get_num_actual_pending_tokens_replica`. -/
def getNumActualPendingTokensReplica (w : World n κ) (replicaId : Fin n) : ℤ :=
  (w.replicaBudgets replicaId).getNumActualPendingTokens

/-- `shared_state.get_pending_input_tokens_replica`. -/
def getPendingInputTokensReplica (w : World n κ) (replicaId : Fin n) : ℤ :=
  ((w.replicaBudgets replicaId).pendingRequests.map (fun req => (req.inputIds.length : ℤ))).sum

/-- `get_num_recompute_token_ids` of a replica, for the prompt of a request. -/
def recomputeLen [LookupCache κ] (w : World n κ) (replicaId : Fin n) (request : Request) : ℤ :=
  (w.replicaBudgets replicaId).numRecomputeTokenIds request.inputIds

/-- `global_request_queue.push`. -/
def push (w : World n κ) (replicaId : Fin n) (request : Request) (prefixCacheHitLen : ℤ) :
    World n κ :=
  { w with
    globalRequestQueue := w.globalRequestQueue.push replicaId request prefixCacheHitLen }

/-- The queue is left as it is after a batch pop for a replica. -/
def dispatch (w : World n κ) (replicaId : Fin n) (schedulable : List Request)
    (queue : GlobalRequestQueue n) : World n κ :=
  { w with
    globalRequestQueue := queue
    dispatched := w.dispatched ++ schedulable.map (fun request => (replicaId, request)) }

/-- Register a posted request in `posting_request_tasks`. -/
def post (w : World n κ) (replicaId : Fin n) (request : Request) : World n κ :=
  { w with postingRequestTasks := w.postingRequestTasks ++ [(replicaId, request)] }

/-- Assign `_primary_replica` and `_second_replica`. -/
def assignReplicas (w : World n κ) (request : Request) (primaryReplica secondReplica : Fin n) :
    World n κ :=
  { w with
    attrs := Function.update w.attrs request
      { w.attrs request with
        primaryReplica := (primaryReplica : ℕ)
        secondReplica := (secondReplica : ℕ) } }

/-- What goes on beside the scheduling: requests under way change the loads and caches of
the replicas, and the token counts written in the requests. -/
def setLoads (replicaBudgets : Fin n → Replica κ) (actualNumPrefillTokens : Request → ℤ)
    (w : World n κ) : World n κ :=
  { w with
    replicaBudgets := replicaBudgets
    attrs := fun request =>
      { w.attrs request with actualNumPrefillTokens := actualNumPrefillTokens request } }

end World

/-- `(replica_id + 1) % num_replicas`. -/
def nextReplica {n : ℕ} (replicaId : Fin n) : Fin n :=
  ⟨(replicaId + 1) % n, Nat.mod_lt _ replicaId.pos⟩

namespace DoubleHashGlobalSchedulerUtils

variable {n : ℕ} {κ ν : Type} (utils : DoubleHashGlobalSchedulerUtils n)

/-! ## Float arithmetic -/

/-- `round(x, ndigits)`: the float nearest to the rounded decimal. -/
def round (ndigits : ℕ) (x : ℚ) : ℚ := utils.fl (pyRound ndigits x)

/-- `num_tokens * self.prefill_tpot`: the count becomes a float before the product does. -/
def prefillTime (numTokens : ℤ) : ℚ := utils.fl (utils.fl numTokens * utils.prefillTpot)

/-- `ttft + ratio * num_delay_requests * recompute_latency`. -/
def recomputeCost (ttft numDelayRequests recomputeLatency : ℚ) : ℚ :=
  utils.fl (ttft + utils.fl
    (utils.fl (utils.dhRecomputePunishRatio * numDelayRequests) * recomputeLatency))

/-! ## Reading -/

/-- Read from what the calls share. -/
def look {α : Type} (f : World n κ → α) : Coro (ν × World n κ) α :=
  Coro.shared (fun w => (f w, w))

/-- `time.perf_counter()`. -/
def readClock (w : World n κ) : ℚ × World n κ :=
  (utils.perfCounter w.ticks, { w with ticks := w.ticks + 1 })

/-- `global_request_queue.get_max_waiting_delay`. -/
def getMaxWaitingDelay (replicaId : Fin n) (w : World n κ) : ℚ × World n κ :=
  let (now, w) := utils.readClock w
  (w.globalRequestQueue.getMaxWaitingDelay utils.fl replicaId now, w)

/-- `replica.get_load_states` of a replica. -/
def getLoadStates (replicaId : Fin n) (w : World n κ) : LoadStates × World n κ :=
  let (rateNow, w) := utils.readClock w
  let (prefillNow, w) := utils.readClock w
  let (states, replica) := (w.replicaBudgets replicaId).getLoadStates rateNow prefillNow
  (states, { w with replicaBudgets := Function.update w.replicaBudgets replicaId replica })

/-- `hash_session_id.split("/")[0]`. -/
def shortestPrefix (request : Request) : String :=
  String.ofList (request.hashSessionId.toList.takeWhile (fun c => c ≠ '/'))

/-- The two hash candidates of a request, distinct unless there is one replica only. -/
def candidates (request : Request) : Fin n × Fin n :=
  let replicaId1 := utils.hashFunction1 (shortestPrefix request)
  let replicaId2 := utils.hashFunction2 (shortestPrefix request)
  (replicaId1, if replicaId1 = replicaId2 then nextReplica replicaId1 else replicaId2)

/-! ## Rebalancing -/

/-- What `rebalance_replica_global_waiting_reqs` notes about a replica before its loop. -/
structure ReplicaSnapshot where
  numGlobalActualWaitingTokens : ℤ
  numReplicaActualPendingTokens : ℤ
  maxWaitingDelay : ℚ
  reqQps : ℚ

/-- The body of the loop that fills the lists, for one replica. -/
def snapshotReplica (replicaId : Fin n) : Coro (ν × World n κ) ReplicaSnapshot := do
  let numGlobalActualWaitingTokens ←
    look (fun w => w.globalRequestQueue.getGlobalActualWaitingTokensCount replicaId)
  let numReplicaActualPendingTokens ←
    look (fun w => w.getNumActualPendingTokensReplica replicaId)
  let maxWaitingDelay ← Coro.shared (utils.getMaxWaitingDelay replicaId)
  Coro.suspend
  let states ← Coro.shared (utils.getLoadStates replicaId)
  return ⟨numGlobalActualWaitingTokens, numReplicaActualPendingTokens, maxWaitingDelay,
    states.qps⟩

/-- The lists by replica id. They start empty and get an element for every replica. -/
def snapshotReplicas : Coro (ν × World n κ) (Fin n → ReplicaSnapshot) :=
  (List.finRange n).foldlM
    (fun lists replicaId => do
      let snapshot ← utils.snapshotReplica replicaId
      return Function.update lists replicaId snapshot)
    (fun _ => ⟨0, 0, 0, 0⟩)

/-- An element of `requests_migrate_cost`, with the request itself for its index. -/
structure Migration (n : ℕ) where
  request : Request
  cost : ℚ
  sourceActualPrefillLen : ℤ
  targetReplicaId : Fin n
  targetActualPrefillLen : ℤ

/-- The state of the `while` loop. The migrations made are recorded in order; no code
reads the record. -/
structure RebalanceState (n : ℕ) (κ : Type) where
  lists : Fin n → ReplicaSnapshot
  curNumMigratedPrefillTokens : ℤ
  world : World n κ
  migrations : List (Migration n)

section Loop

variable [LookupCache κ] (sourceReplicaId : Fin n) (numTargetMigratePrefillTokens : ℤ)
  (st : RebalanceState n κ)

/-- The load test on a replica that would get the request. -/
def TargetOverloaded (replicaId : Fin n) (request : Request) : Prop :=
  utils.dhRebalanceThredhold <
      (st.lists replicaId).numGlobalActualWaitingTokens +
      (st.lists replicaId).numReplicaActualPendingTokens +
      st.world.recomputeLen replicaId request ∨
    utils.dhRebalanceWaitingLatencyThredhold ≤ (st.lists replicaId).maxWaitingDelay

instance (replicaId : Fin n) (request : Request) :
    Decidable (utils.TargetOverloaded st replicaId request) :=
  inferInstanceAs (Decidable (_ ∨ _))

/-- The neighbour that gets a request when its other candidate cannot: the one next to the
source, or next to that candidate. -/
def neighborReplica (targetReplicaId : Fin n) : Fin n :=
  let tmpTargetReplicaId := nextReplica sourceReplicaId
  if tmpTargetReplicaId = sourceReplicaId ∨ tmpTargetReplicaId = targetReplicaId then
    nextReplica targetReplicaId
  else tmpTargetReplicaId

/-- The choice of a neighbour. `enable_migrate_to_neighbor_replica` is set for this balance
type only. -/
def chooseNeighbor (targetReplicaId : Fin n) (request : Request) : Option (Fin n) :=
  let tmpTargetReplicaId := neighborReplica sourceReplicaId targetReplicaId
  -- `continue` in the code: the request is no candidate for a migration
  if utils.balanceType ≠ .dualmap then none
  else if tmpTargetReplicaId = sourceReplicaId ∨ tmpTargetReplicaId = targetReplicaId then none
  else if utils.TargetOverloaded st tmpTargetReplicaId request then none
  else some tmpTargetReplicaId

/-- The replica that a queued request could move to: the other hash candidate, or a
neighbour when that one is the source itself or overloaded. -/
def chooseTarget (request : Request) : Option (Fin n) :=
  let (replicaId1, replicaId2) := utils.candidates request
  let targetReplicaId := if sourceReplicaId = replicaId1 then replicaId2 else replicaId1
  if sourceReplicaId = targetReplicaId ∨ utils.TargetOverloaded st targetReplicaId request then
    utils.chooseNeighbor sourceReplicaId st targetReplicaId request
  else some targetReplicaId

/-- The element of `requests_migrate_cost` for a request and its target. -/
def migrationTo (reqIndex numWaiting : ℕ) (request : Request) (targetReplicaId : Fin n) :
    Migration n :=
  let queue := st.world.globalRequestQueue
  let source := st.lists sourceReplicaId
  let target := st.lists targetReplicaId
  let sourceActualPrefillLen := st.world.recomputeLen sourceReplicaId request
  let sourceNumGlobalWaitingPrefillTokens := queue.getNumGlobalActualWaitingTokens
    sourceReplicaId request (max 0 (request.numPrefillTokens - sourceActualPrefillLen))
  let sourceTtft := utils.prefillTime (source.numReplicaActualPendingTokens +
    sourceNumGlobalWaitingPrefillTokens + sourceActualPrefillLen)
  let sourceRecomputeLatency := utils.prefillTime sourceActualPrefillLen
  let sourceNumDelayRequests : ℚ := max (utils.fl (source.reqQps * sourceTtft))
    (utils.fl (numWaiting - (reqIndex + 1) : ℤ))
  -- the cost of staying, of which some balance types use the time only
  let sourceCost := utils.recomputeCost sourceTtft sourceNumDelayRequests sourceRecomputeLatency
  -- the target's numbers are rounded to four digits, the source's are not
  let targetActualPrefillLen := st.world.recomputeLen targetReplicaId request
  let targetNumGlobalActualWaitingTokens := queue.getNumGlobalActualWaitingTokens
    targetReplicaId request (max 0 (request.numPrefillTokens - targetActualPrefillLen))
  let targetVirtualPendingTokens := targetNumGlobalActualWaitingTokens +
    target.numReplicaActualPendingTokens + targetActualPrefillLen
  let targetTtft := utils.round 4 (utils.prefillTime targetVirtualPendingTokens)
  let targetRecomputeLatency := utils.round 4 (utils.prefillTime targetActualPrefillLen)
  let targetNumDelayRequests := utils.round 4 (utils.fl (target.reqQps * targetTtft))
  let targetCost := utils.round 4
    (utils.recomputeCost targetTtft targetNumDelayRequests targetRecomputeLatency)
  let cost := match utils.balanceType with
    | .rbCost1 | .rbCost1Aggresive | .rbCost1Avg => utils.fl (targetCost - sourceCost)
    | .dualmap => utils.fl (targetTtft - sourceTtft)
    | _ => 0
  ⟨request, cost, sourceActualPrefillLen, targetReplicaId, targetActualPrefillLen⟩

/-- `requests_migrate_cost`: the possible migrations, in queue order. -/
def requestsMigrateCost : List (Migration n) :=
  let sourceGlobalWaitingRequests :=
    st.world.globalRequestQueue.getAllRequests sourceReplicaId
  sourceGlobalWaitingRequests.zipIdx.filterMap (fun (request, reqIndex) =>
    (utils.chooseTarget sourceReplicaId st request).map
      (utils.migrationTo sourceReplicaId st reqIndex sourceGlobalWaitingRequests.length request))

/-- The cheapest migration, unless a break condition of the loop holds. The comparison
that would set `enable_ttft_avg` is never true, so the amount always counts. -/
def nextMigration : Option (Migration n) :=
  match ((utils.requestsMigrateCost sourceReplicaId st).insertionSort
    (fun a b => a.cost ≤ b.cost)).head? with
  | none => none
  | some migration =>
    -- `sorted` is stable, so the first in queue order is taken among equals
    if migration.cost ≥ 0 then none
    else if numTargetMigratePrefillTokens > 0 ∧
        st.curNumMigratedPrefillTokens ≥ numTargetMigratePrefillTokens then none
    else some migration

/-- Make a migration. -/
def RebalanceState.migrate (migration : Migration n) : RebalanceState n κ :=
  let target := migration.targetReplicaId
  let request := migration.request
  -- `del_req` and `push` in one turn: no other task sees the request missing
  let queue := (st.world.globalRequestQueue.delReq sourceReplicaId (some request)).2
  let targetPrefixCacheHitLen := request.numPrefillTokens - migration.targetActualPrefillLen
  -- of the lists only the waiting tokens of the target are kept up to date
  { lists := Function.update st.lists target { st.lists target with
      numGlobalActualWaitingTokens :=
        (st.lists target).numGlobalActualWaitingTokens + migration.targetActualPrefillLen }
    curNumMigratedPrefillTokens :=
      st.curNumMigratedPrefillTokens + migration.sourceActualPrefillLen
    world := { st.world with
      globalRequestQueue := queue.push target request targetPrefixCacheHitLen
      rebalanceCnt := st.world.rebalanceCnt + 1 }.assignReplicas request target sourceReplicaId
    migrations := st.migrations ++ [migration] }

end Loop

/-- The body of the `while True` loop. -/
def migrateNext [LookupCache κ] (sourceReplicaId : Fin n)
    (numTargetMigratePrefillTokens : ℤ) (st : RebalanceState n κ) :
    Option (RebalanceState n κ) :=
  (utils.nextMigration sourceReplicaId numTargetMigratePrefillTokens st).map
    (RebalanceState.migrate sourceReplicaId st)

/-- The state of the loop at its beginning. -/
def RebalanceState.start (lists : Fin n → ReplicaSnapshot) (w : World n κ) :
    RebalanceState n κ :=
  ⟨lists, 0, w, []⟩

/-- The loop as one uninterrupted operation. Every migration shortens the queue of the
source, so its length bounds the number of turns (`migrateNext_terminates`). -/
def migrateFrom [LookupCache κ] (sourceReplicaId : Fin n)
    (numTargetMigratePrefillTokens : ℤ) (lists : Fin n → ReplicaSnapshot) (w : World n κ) :
    List (Migration n) × World n κ :=
  match whileLoop (utils.migrateNext sourceReplicaId numTargetMigratePrefillTokens)
    (w.globalRequestQueue.getQueueLen sourceReplicaId + 1) (.start lists w) with
  | some st => (st.migrations, st.world)
  -- never reached: the loop ends within these turns
  | none => ([], w)

/-- The part of `rebalance_replica_global_waiting_reqs` behind its early returns. -/
def rebalanceQueue [LookupCache κ] (sourceReplicaId : Fin n)
    (numTargetMigratePrefillTokens : ℤ) (globalNumRequestWaiting : ℕ) :
    Coro (ν × World n κ) (List (Migration n)) :=
  if globalNumRequestWaiting ≤ 1 then return []
  else do
    let lists ← utils.snapshotReplicas
    Coro.shared (utils.migrateFrom sourceReplicaId numTargetMigratePrefillTokens lists)

/-- `rebalance_replica_global_waiting_reqs`. The code returns nothing; here the migrations
made are returned. -/
def rebalanceReplicaGlobalWaitingReqs [LookupCache κ] (sourceReplicaId : Fin n)
    (numTargetMigratePrefillTokens : ℤ) : Coro (ν × World n κ) (List (Migration n)) :=
  if utils.balanceType ≠ .dualmap then return []
  else do
    let globalNumRequestWaiting ←
      look (fun w => w.globalRequestQueue.getQueueLen sourceReplicaId)
    utils.rebalanceQueue sourceReplicaId numTargetMigratePrefillTokens globalNumRequestWaiting

/-! ## Placement -/

/-- What `add_request_to_best_global_queue` computes for a candidate replica. -/
structure CandidateMetrics where
  numReqActualPrefillTokens : ℤ
  pendingInputTokens : ℤ
  prefixCacheHitLen : ℤ
  numVirtualPendingTokens : ℤ
  ttft : ℚ
  cost : ℚ
  maxWaitingDelay : ℚ
  runningReqBlocksCnt : ℕ

/-- The body of the loop over the candidates. -/
def candidateMetrics [LookupCache κ] (request : Request) (replicaId : Fin n) :
    Coro (ν × World n κ) CandidateMetrics := do
  let numGlobalActualWaitingTokens ←
    look (fun w => w.globalRequestQueue.getGlobalActualWaitingTokensCount replicaId)
  let numReplicaActualPendingTokens ←
    look (fun w => w.getNumActualPendingTokensReplica replicaId)
  let numReqActualPrefillTokens ← look (fun w => w.recomputeLen replicaId request)
  let pendingInputTokens ← look (fun w =>
    w.globalRequestQueue.getGlobalInputWaitingTokensCount replicaId +
      w.getPendingInputTokensReplica replicaId)
  -- what was read above may be out of date from here on
  Coro.suspend
  let states ← Coro.shared (utils.getLoadStates replicaId)
  let maxWaitingDelay ← Coro.shared (utils.getMaxWaitingDelay replicaId)
  let runningReqBlocksCnt ← look (fun w => (w.replicaBudgets replicaId).getRunningReqBlocksCnt)
  let numVirtualPendingTokens := numGlobalActualWaitingTokens +
    numReplicaActualPendingTokens + numReqActualPrefillTokens
  let ttft := utils.round 4 (utils.prefillTime numVirtualPendingTokens)
  let recomputeLatency := utils.round 4 (utils.prefillTime numReqActualPrefillTokens)
  return {
    numReqActualPrefillTokens := numReqActualPrefillTokens
    pendingInputTokens := pendingInputTokens
    prefixCacheHitLen := max 0 (request.inputIds.length - numReqActualPrefillTokens)
    numVirtualPendingTokens := numVirtualPendingTokens
    ttft := ttft
    -- the ratio is multiplied by the time first, and the product by the rate
    cost := utils.round 4 (utils.fl (ttft + utils.fl (utils.fl (utils.fl
      (utils.dhRecomputePunishRatio * ttft) * states.qps) * recomputeLatency)))
    maxWaitingDelay := maxWaitingDelay
    runningReqBlocksCnt := runningReqBlocksCnt }

section Choice

variable (replicaId1 replicaId2 : Fin n)

/-- The replica with the smaller value, and the one with the larger value. -/
def minMax {M : Type} [LinearOrder M] (values : Fin n → M) : Fin n × Fin n :=
  if values replicaId1 < values replicaId2 then (replicaId1, replicaId2)
  else (replicaId2, replicaId1)

/-- `select_replicas_based_on_metrics`: the primary and the second replica. -/
def selectReplicasBasedOnMetrics {M : Type} [LinearOrder M] (metric : Fin n → M)
    (runningReqBlocksCnt : Fin n → ℕ) (primaryIsMax : Bool) : Fin n × Fin n :=
  if metric replicaId1 ≠ metric replicaId2 then
    if primaryIsMax then (minMax replicaId1 replicaId2 metric).swap
    else minMax replicaId1 replicaId2 metric
  else if runningReqBlocksCnt replicaId1 ≠ runningReqBlocksCnt replicaId2 then
    minMax replicaId1 replicaId2 runningReqBlocksCnt
  -- `random.sample` after `random.seed(42)`: always the same exchange
  else if utils.sampleSwaps then (replicaId2, replicaId1)
  else (replicaId1, replicaId2)

/-- The primary and the second replica, by `_balance_type`. -/
def choosePrimary (metrics : Fin n → CandidateMetrics) : Fin n × Fin n :=
  let blocks := fun r => (metrics r).runningReqBlocksCnt
  let byTtft := utils.selectReplicasBasedOnMetrics replicaId1 replicaId2
    (fun r => (metrics r).ttft) blocks false
  let byCacheHit := utils.selectReplicasBasedOnMetrics replicaId1 replicaId2
    (fun r => (metrics r).prefixCacheHitLen) blocks true
  match utils.balanceType with
  | .dualmapLeastLoaded =>
    utils.selectReplicasBasedOnMetrics replicaId1 replicaId2
      (fun r => (metrics r).pendingInputTokens) blocks false
  | .dualmapCacheAffinity => byCacheHit
  | .dualmapMinTtft => byTtft
  | .dualmapNoRebalance | .dualmap | .ttftSlo | .ttftAvg =>
    -- the replica with the longer hit is overloaded
    if (metrics byCacheHit.1).numVirtualPendingTokens > utils.dhFirstBalanceTtftThredhold then
      byTtft
    else byCacheHit
  | .nbCost1 | .rbCost1 | .rbCost1Aggresive | .rbCost1Avg =>
    utils.selectReplicasBasedOnMetrics replicaId1 replicaId2
      (fun r => (metrics r).cost) blocks false
  | .other => (replicaId1, replicaId2)

end Choice

/-- Where a request is to be queued, and the metrics that decided it. -/
structure Placement (n : ℕ) where
  metrics : Fin n → CandidateMetrics
  primaryReplicaId : Fin n
  secondReplicaId : Fin n

/-- The first part of `add_request_to_best_global_queue`: choose a replica. -/
def choosePlacement [LookupCache κ] (request : Request) :
    Coro (ν × World n κ) (Placement n) := do
  let replicaId1 := (utils.candidates request).1
  let replicaId2 := (utils.candidates request).2
  let metrics1 ← utils.candidateMetrics request replicaId1
  let metrics2 ← utils.candidateMetrics request replicaId2
  -- the second candidate overwrites the first one when they are the same replica
  let metrics := fun r => if r = replicaId2 then metrics2 else metrics1
  let chosen := utils.choosePrimary replicaId1 replicaId2 metrics
  return ⟨metrics, chosen.1, chosen.2⟩

/-- The choice as it is noted in the request, for its evaluation. -/
def noteChoice (placement : Placement n) (request : Request) (w : World n κ) : World n κ :=
  let primary := placement.metrics placement.primaryReplicaId
  let second := placement.metrics placement.secondReplicaId
  let isPrimaryMinTtft := primary.ttft = min primary.ttft second.ttft
  let isPrimaryCacheAffinity :=
    primary.prefixCacheHitLen = max primary.prefixCacheHitLen second.prefixCacheHitLen
  { w with
    attrs := Function.update w.attrs request
      { w.attrs request with
        isDhCacheAffinity := if isPrimaryCacheAffinity then 1 else 0
        isDhLeastLoaded := if isPrimaryMinTtft then 1 else 0
        isDhCacheAffinityLeastLoaded :=
          if isPrimaryCacheAffinity ∧ isPrimaryMinTtft then 1 else 0 } }

/-- Queue a request that the calling task holds. -/
def pushRequest (placed : ν → ν) (placement : Placement n) (request : Request) :
    Coro (ν × World n κ) Unit :=
  Coro.modify (fun (l, w) => (placed l, w.push placement.primaryReplicaId request
    (placement.metrics placement.primaryReplicaId).prefixCacheHitLen))

/-- `add_request_to_best_global_queue` up to and including the push. -/
def queueRequest [LookupCache κ] (placed : ν → ν) (request : Request) :
    Coro (ν × World n κ) (Placement n) := do
  let placement ← utils.choosePlacement request
  Coro.shared (fun w => ((), noteChoice placement request w))
  pushRequest placed placement request
  return placement

/-- `num_pending_tokens_list` after the push. -/
def numPendingTokens (placement : Placement n) (replicaId : Fin n) : ℤ :=
  let metrics := placement.metrics replicaId
  -- the request was pushed at the primary replica only
  if replicaId = placement.primaryReplicaId then metrics.numVirtualPendingTokens
  else metrics.numVirtualPendingTokens - metrics.numReqActualPrefillTokens

/-- `is_replica_overloaded` after the push. -/
def IsReplicaOverloaded (placement : Placement n) (replicaId : Fin n) : Prop :=
  utils.dhRebalanceThredhold < numPendingTokens placement replicaId ∨
    utils.dhRebalanceWaitingLatencyThredhold ≤ (placement.metrics replicaId).maxWaitingDelay

/-- The condition under which a placement rebalances. -/
def BothOverloaded (placement : Placement n) : Prop :=
  utils.IsReplicaOverloaded placement placement.primaryReplicaId ∧
    utils.IsReplicaOverloaded placement placement.secondReplicaId

instance (placement : Placement n) (replicaId : Fin n) :
    Decidable (utils.IsReplicaOverloaded placement replicaId) :=
  inferInstanceAs (Decidable (_ ∨ _))

instance (placement : Placement n) : Decidable (utils.BothOverloaded placement) :=
  inferInstanceAs (Decidable (_ ∧ _))

/-- Rebalance a candidate of a placement by what it has too much. -/
def rebalanceCandidate [LookupCache κ] (placement : Placement n) (replicaId : Fin n) :
    Coro (ν × World n κ) (List (Migration n)) := do
  Coro.suspend
  utils.rebalanceReplicaGlobalWaitingReqs replicaId
    (numPendingTokens placement replicaId - utils.dhRebalanceThredhold)

/-- Rebalance both candidates, the primary one first, when both are overloaded. -/
def rebalanceCandidates [LookupCache κ] (placement : Placement n) :
    Coro (ν × World n κ) Unit :=
  if utils.BothOverloaded placement then do
    let _ ← utils.rebalanceCandidate placement placement.primaryReplicaId
    let _ ← utils.rebalanceCandidate placement placement.secondReplicaId
    return ()
  else return ()

/-- `add_request_to_best_global_queue` for a request that is not `None`. The request's
replicas are assigned at the very end, after the rebalancing. -/
def placeRequest [LookupCache κ] (placed : ν → ν) (request : Request) :
    Coro (ν × World n κ) Unit := do
  let placement ← utils.queueRequest placed request
  utils.rebalanceCandidates placement
  Coro.shared (fun w => ((),
    w.assignReplicas request placement.primaryReplicaId placement.secondReplicaId))

/-- `add_request_to_best_global_queue`. -/
def addRequestToBestGlobalQueue [LookupCache κ] (placed : ν → ν) :
    Option Request → Coro (ν × World n κ) Unit
  | none => return ()
  | some request => utils.placeRequest placed request

end DoubleHashGlobalSchedulerUtils

end DualMap.Scheduler
