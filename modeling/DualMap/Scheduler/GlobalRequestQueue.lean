import DualMap.Entities.Request
import DualMap.Foundation.Heapq
import DualMap.Foundation.Rounding
import Mathlib.Data.Prod.Lex
import Mathlib.Data.List.Sort
import Mathlib.Algebra.Order.Ring.Rat
import Mathlib.Algebra.BigOperators.Group.List.Basic

/-!
# The Global Request Queue

`GlobalRequestQueue` keeps one heap of waiting requests per replica, and per replica two
token counters that its operations change by deltas. An entry is the tuple
`(-prefix_cache_hit_len, arrived_at, request)`.

Tuples are compared lexicographically. Requests have no order, so Python raises when two
different requests agree in hit length and arrival time; the model is about queues whose
requests arrived at different times, where that comparison is never reached.
-/

namespace DualMap.Scheduler

/-! ## Entries -/

/-- The tuple `(negtive_prefix_cache_hit_len, arrived_at, req)`. -/
structure Entry where
  negtivePrefixCacheHitLen : ℤ
  arrivedAt : ℚ
  req : Request
  deriving DecidableEq

/-- The order of the tuples, up to the request. -/
def Entry.key (item : Entry) : ℤ ×ₗ ℚ := toLex (item.negtivePrefixCacheHitLen, item.arrivedAt)

/-- The hit length that was pushed with the request. -/
def Entry.prefixCacheHitLen (item : Entry) : ℤ := -item.negtivePrefixCacheHitLen

/-- `_get_request_actual_prefill_tokens`. -/
def getRequestActualPrefillTokens (request : Request)
    (negtivePrefixCacheHitLen : Option ℤ) : ℤ :=
  match negtivePrefixCacheHitLen with
  | some hit => request.numPrefillTokens + hit
  | none => request.numPrefillTokens

/-- The actual prefill tokens of the request of an entry, with the hit length stored there. -/
def Entry.actualTokens (item : Entry) : ℤ :=
  getRequestActualPrefillTokens item.req (some item.negtivePrefixCacheHitLen)

theorem Entry.actualTokens_eq (item : Entry) :
    item.actualTokens = item.req.numPrefillTokens - item.prefixCacheHitLen := by
  simp [actualTokens, getRequestActualPrefillTokens, prefixCacheHitLen]

/-- `len(req._input_ids)` of the request of an entry. -/
def Entry.inputTokens (item : Entry) : ℤ := item.req.inputIds.length

/-! ## The queue and its operations -/

/-- `GlobalRequestQueue`, for `n` replicas. -/
structure GlobalRequestQueue (n : ℕ) where
  queues : Fin n → List Entry
  queuesGlobalActualWaitingTokensCount : Fin n → ℤ
  queuesGlobalInputWaitingTokensCount : Fin n → ℤ

namespace GlobalRequestQueue

variable {n : ℕ}

/-- `GlobalRequestQueue.__init__`. -/
def init (n : ℕ) : GlobalRequestQueue n where
  queues _ := []
  queuesGlobalActualWaitingTokensCount _ := 0
  queuesGlobalInputWaitingTokensCount _ := 0

/-- Store a changed heap for one replica and change its two counters. -/
def adjust (q : GlobalRequestQueue n) (replicaId : Fin n) (queue : List Entry)
    (actualTokens inputTokens : ℤ) : GlobalRequestQueue n where
  queues := Function.update q.queues replicaId queue
  queuesGlobalActualWaitingTokensCount :=
    Function.update q.queuesGlobalActualWaitingTokensCount replicaId
      (q.queuesGlobalActualWaitingTokensCount replicaId + actualTokens)
  queuesGlobalInputWaitingTokensCount :=
    Function.update q.queuesGlobalInputWaitingTokensCount replicaId
      (q.queuesGlobalInputWaitingTokensCount replicaId + inputTokens)

/-- `get_max_waiting_delay`, where `now` is what `time.perf_counter()` reads and `fl` is the
rounding to floats. -/
def getMaxWaitingDelay (q : GlobalRequestQueue n) (fl : ℚ → ℚ) (replicaId : Fin n) (now : ℚ) :
    ℚ :=
  match (q.queues replicaId).map Entry.arrivedAt with
  -- `if not queue: return 0`
  | [] => 0
  | arrivedAt :: rest => fl (pyRound 2 (fl (now - rest.foldl min arrivedAt)))

/-- `get_global_actual_waiting_tokens_count`. -/
def getGlobalActualWaitingTokensCount (q : GlobalRequestQueue n) (replicaId : Fin n) : ℤ :=
  q.queuesGlobalActualWaitingTokensCount replicaId

/-- `get_global_input_waiting_tokens_count`. -/
def getGlobalInputWaitingTokensCount (q : GlobalRequestQueue n) (replicaId : Fin n) : ℤ :=
  q.queuesGlobalInputWaitingTokensCount replicaId

/-- `_recount_pending_tokens`. -/
def recountPendingTokens (q : GlobalRequestQueue n) (replicaId : Fin n) :
    ℤ × GlobalRequestQueue n :=
  let total := ((q.queues replicaId).map Entry.actualTokens).sum
  (total, { q with queuesGlobalActualWaitingTokensCount :=
    Function.update q.queuesGlobalActualWaitingTokensCount replicaId total })

/-- `get_queue_len`. -/
def getQueueLen (q : GlobalRequestQueue n) (rid : Fin n) : ℕ := (q.queues rid).length

/-- `push`. -/
def push (q : GlobalRequestQueue n) (replicaId : Fin n) (request : Request)
    (prefixCacheHitLen : ℤ) : GlobalRequestQueue n :=
  q.adjust replicaId
    (Heapq.heappush Entry.key (q.queues replicaId)
      ⟨-prefixCacheHitLen, request.arrivedAt, request⟩)
    (getRequestActualPrefillTokens request (some (-prefixCacheHitLen)))
    request.inputIds.length

/-- `pop`. -/
def pop (q : GlobalRequestQueue n) (replicaId : Fin n) :
    Option Request × GlobalRequestQueue n :=
  match Heapq.heappop Entry.key (q.queues replicaId) with
  | some (item, rest) =>
    (some item.req, q.adjust replicaId rest
      (-getRequestActualPrefillTokens item.req (some item.negtivePrefixCacheHitLen))
      (-item.req.inputIds.length))
  | none => (none, q)

/-- `peek`. -/
def peek (q : GlobalRequestQueue n) (replicaId : Fin n) : Option Request :=
  (q.queues replicaId).head?.map Entry.req

/-- `is_empty`. -/
def isEmpty (q : GlobalRequestQueue n) (replicaId : Fin n) : Bool :=
  (q.queues replicaId).length = 0

/-- `get_all_requests`. -/
def getAllRequests (q : GlobalRequestQueue n) (replicaId : Fin n) : List Request :=
  (q.queues replicaId).map Entry.req

/-- The test of `discard_expired`. -/
def Expired (now discardThreshold : ℚ) (item : Entry) : Prop :=
  discardThreshold < now - item.arrivedAt

instance (now discardThreshold : ℚ) (item : Entry) :
    Decidable (Expired now discardThreshold item) :=
  inferInstanceAs (Decidable (_ < _))

/-- `discard_expired`. The list that is kept becomes the queue as it is: unlike `del_req`
this does not call `heapify`. -/
def discardExpired (q : GlobalRequestQueue n) (replicaId : Fin n)
    (discardThreshold now : ℚ) : List Request × GlobalRequestQueue n :=
  let queue := q.queues replicaId
  let discarded := queue.filter (fun item => Expired now discardThreshold item)
  let newQueue := queue.filter (fun item => ¬ Expired now discardThreshold item)
  (discarded.map Entry.req, q.adjust replicaId newQueue
    (-(discarded.map Entry.actualTokens).sum) (-(discarded.map Entry.inputTokens).sum))

/-- `del_req`: remove the first entry of the request and restore the heap. -/
def delReq (q : GlobalRequestQueue n) (replicaId : Fin n) (request : Option Request) :
    Bool × GlobalRequestQueue n :=
  match request with
  | none => (false, q)
  | some request =>
    let queue := q.queues replicaId
    match queue.find? (fun item => item.req = request) with
    | none => (false, q)
    -- the tokens go off the counters with the hit length stored in the entry
    | some item =>
      (true, q.adjust replicaId
        (Heapq.heapify Entry.key (queue.eraseP (fun item => item.req = request)))
        (-getRequestActualPrefillTokens item.req (some item.negtivePrefixCacheHitLen))
        (-item.req.inputIds.length))

/-- The loop of `pop_schedulable`. Every iteration pops one entry, so the length of the
queue bounds their number. -/
def popSchedulableLoop (replicaId : Fin n) (maxPopNum : Option ℤ) :
    ℕ → GlobalRequestQueue n → ℤ → ℤ → List Request × GlobalRequestQueue n
  | 0, q, _, _ => ([], q)
  | fuel + 1, q, curReplicaBudget, popCount =>
    if maxPopNum.any (fun maxPopNum => popCount ≥ maxPopNum) then ([], q)
    else
      match Heapq.heappop Entry.key (q.queues replicaId) with
      | none => ([], q)
      | some (item, rest) =>
        -- `heappop` returns the entry `queue[0]`, from which the code takes the tokens
        let actualNumPrefillTokens :=
          getRequestActualPrefillTokens item.req (some item.negtivePrefixCacheHitLen)
        let curReplicaBudget := curReplicaBudget - actualNumPrefillTokens
        let q := q.adjust replicaId rest (-actualNumPrefillTokens) (-item.req.inputIds.length)
        -- the request that uses up the budget is still popped
        if curReplicaBudget ≤ 0 then ([item.req], q)
        else
          let (schedulable, q) :=
            popSchedulableLoop replicaId maxPopNum fuel q curReplicaBudget (popCount + 1)
          (item.req :: schedulable, q)

/-- `pop_schedulable`. -/
def popSchedulable (q : GlobalRequestQueue n) (replicaId : Fin n) (curReplicaBudget : ℤ)
    (maxPopNum : Option ℤ) : List Request × GlobalRequestQueue n :=
  popSchedulableLoop replicaId maxPopNum (q.queues replicaId).length q curReplicaBudget 0

/-- `get_num_global_actual_waiting_tokens`: the tokens that would be dispatched before the
request if it were pushed now. -/
def getNumGlobalActualWaitingTokens (q : GlobalRequestQueue n) (replicaId : Fin n)
    (request : Request) (prefixCacheHitLen : ℤ) : ℤ :=
  let newItem : Entry := ⟨-prefixCacheHitLen, request.arrivedAt, request⟩
  -- `sorted` on a copy of the queue: the heap itself is not touched
  let simulatedQueue :=
    (q.queues replicaId ++ [newItem]).insertionSort (fun a b => a.key ≤ b.key)
  ((simulatedQueue.takeWhile (fun item => item.req ≠ request)).map Entry.actualTokens).sum

end GlobalRequestQueue

end DualMap.Scheduler
