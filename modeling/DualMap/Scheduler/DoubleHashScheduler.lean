import DualMap.Scheduler.DoubleHashUtils

/-!
# Scheduling Calls

`schedule` places a new request, lets the queues be rebalanced, pops what the replicas can
take and posts it. It is called for every arrival, and with `None` for every completion.
-/

namespace DualMap.Scheduler

open Cache

/-- The locals of a `schedule` call: its argument, the argument again until it is queued,
and the requests it has popped and neither posted nor put back. -/
structure Frame where
  newRequest : Option Request
  arriving : Option Request
  schedulableWaitingReqList : List Request
  deriving DecidableEq

namespace Frame

/-- The locals at the beginning of a call. -/
def enter (newRequest : Option Request) : Frame := ⟨newRequest, newRequest, []⟩

/-- The argument was queued. -/
def placed (frame : Frame) : Frame := { frame with arriving := none }

/-- A popped request was posted or put back. -/
def release (request : Request) (frame : Frame) : Frame :=
  { frame with schedulableWaitingReqList := frame.schedulableWaitingReqList.erase request }

end Frame

namespace DoubleHashGlobalSchedulerUtils

variable {n : ℕ} {κ : Type} (utils : DoubleHashGlobalSchedulerUtils n)

/-! ## Popping -/

/-- Rebalance a replica when it is overloaded. -/
def rebalanceWhenOverloaded [LookupCache κ] (rid : Fin n) (numPendingTokens : ℤ)
    (maxWaitingDelay : ℚ) : Coro (Frame × World n κ) Unit :=
  if numPendingTokens > utils.dhRebalanceThredhold ∨
      maxWaitingDelay ≥ utils.dhRebalanceWaitingLatencyThredhold then do
    Coro.suspend
    let _ ← utils.rebalanceReplicaGlobalWaitingReqs rid
      (numPendingTokens - utils.dhRebalanceThredhold)
    return ()
  else return ()

/-- The body of the first loop of `get_schedulable_waiting_req_list`. -/
def rebalanceTurn [LookupCache κ] (rid : Fin n) : Coro (Frame × World n κ) Unit := do
  let maxWaitingDelay ← Coro.shared (utils.getMaxWaitingDelay rid)
  let globalWaitingTokens ←
    look (fun w => w.globalRequestQueue.getGlobalActualWaitingTokensCount rid)
  let numLocalActualPendingTokens ← look (fun w => w.getNumActualPendingTokensReplica rid)
  utils.rebalanceWhenOverloaded rid (globalWaitingTokens + numLocalActualPendingTokens)
    maxWaitingDelay

/-- The conditions under which requests are popped for a replica: it has budget, and it is
idle or, up to the threshold, was busy a moment ago. -/
def Dispatchable (states : LoadStates) (prefillInterval : ℚ) (queue : List Entry) : Prop :=
  queue ≠ [] ∧ states.currentBudget > 0 ∧
    (states.numPendingRequests = 0 ∨
      (states.numPendingRequests : ℤ) ≤ utils.dhReplicaPendingReqThreshold ∧
        prefillInterval < utils.busyPrefillInterval)

instance (states : LoadStates) (prefillInterval : ℚ) (queue : List Entry) :
    Decidable (utils.Dispatchable states prefillInterval queue) :=
  inferInstanceAs (Decidable (_ ∧ _))

/-- Pop requests of a replica into the list of the call. -/
def popWaiting (rid : Fin n) (states : LoadStates) (prefillInterval : ℚ)
    (s : Frame × World n κ) : Frame × World n κ :=
  let (frame, w) := s
  if utils.Dispatchable states prefillInterval (w.globalRequestQueue.queues rid) then
    -- requests popped before whose headers have not arrived are not among the pending ones
    let maxPopNum := utils.dhReplicaPendingReqThreshold - states.numPendingRequests
    let (schedulable, queue) :=
      w.globalRequestQueue.popSchedulable rid states.currentBudget (some maxPopNum)
    ({ frame with
        schedulableWaitingReqList := frame.schedulableWaitingReqList ++ schedulable },
      w.dispatch rid schedulable queue)
  else (frame, w)

/-- The body of the second loop of `get_schedulable_waiting_req_list`. -/
def popTurn (rid : Fin n) : Coro (Frame × World n κ) Unit := do
  Coro.suspend
  let states ← Coro.shared (utils.getLoadStates rid)
  let now ← Coro.shared utils.readClock
  let prefillInterval := utils.round 4 (utils.fl (now - states.lastPrefillCompletedAt))
  Coro.modify (utils.popWaiting rid states prefillInterval)

/-- `get_schedulable_waiting_req_list`. -/
def getSchedulableWaitingReqList [LookupCache κ] :
    Coro (Frame × World n κ) (List Request) := do
  (List.finRange n).forM utils.rebalanceTurn
  (List.finRange n).forM utils.popTurn
  Coro.read (fun s => s.1.schedulableWaitingReqList)

/-! ## Posting -/

/-- `shared_state.get_max_cache_hit_replica`: the first replica with the longest hit. -/
def getMaxCacheHitReplica [LookupCache κ] (w : World n κ) (request : Request) :
    Option (Fin n) :=
  (List.finRange n).maxOn? (fun replicaId =>
    max 0 ((request.inputIds.length : ℤ) - w.recomputeLen replicaId request))

/-- Note whether the request goes to the replica with the longest hit. -/
def noteCacheHitMax [LookupCache κ] (replicaId : Fin n) (request : Request) (w : World n κ) :
    World n κ :=
  { w with
    attrs := Function.update w.attrs request
      { w.attrs request with
        rountingCacheHitMax :=
          if getMaxCacheHitReplica w request = some replicaId then 1 else 0 } }

/-- `shared_state.add_posting_request_tasks`. The request is posted once the lock of
`posting_request_tasks` is held. -/
def addPostingRequestTasks [LookupCache κ] (replicaId : Fin n) (request : Request) :
    Coro (Frame × World n κ) Unit := do
  Coro.shared (fun w => ((), noteCacheHitMax replicaId request w))
  Coro.suspend
  Coro.modify (fun (frame, w) => (frame.release request, w.post replicaId request))

/-- Post a request to its primary replica, or place it again when it has none. -/
def postTo [LookupCache κ] (request : Request) (primaryReplica : ℤ) :
    Coro (Frame × World n κ) Unit :=
  if h : 0 ≤ primaryReplica ∧ primaryReplica < n then do
    Coro.suspend
    -- the id names a replica
    addPostingRequestTasks ⟨primaryReplica.toNat, by omega⟩ request
  else do
    Coro.suspend
    -- the request has no replica yet, which is `-1`
    utils.addRequestToBestGlobalQueue (Frame.release request) (some request)

/-- The body of the loop of `schedule`. -/
def postRequest [LookupCache κ] (request : Request) : Coro (Frame × World n κ) Unit := do
  let primaryReplica ← look (fun w => (w.attrs request).primaryReplica)
  utils.postTo request primaryReplica

/-- Place the new request of a call, if there is one. -/
def placeNew [LookupCache κ] : Option Request → Coro (Frame × World n κ) Unit
  | none => return ()
  | some newRequest => do
    Coro.suspend
    utils.addRequestToBestGlobalQueue Frame.placed (some newRequest)

/-- `schedule`. -/
def schedule [LookupCache κ] (newRequest : Option Request) : Coro (Frame × World n κ) ℤ := do
  utils.placeNew newRequest
  Coro.suspend
  let schedulableWaitingReqList ← utils.getSchedulableWaitingReqList
  schedulableWaitingReqList.forM utils.postRequest
  return -1

end DoubleHashGlobalSchedulerUtils

end DualMap.Scheduler
