import DualMap.Cache.PrefixKvCacheStore
import DualMap.Entities.Request
import DualMap.Foundation.Rounding

/-!
# Replicas

The scheduler's picture of one serving replica: a token budget that is lowered when a
request is admitted and raised when its prefill ends or it fails, the requests admitted
(`pendingRequests`) and decoding (`runningRequests`), the prefix cache, and the times of
recent admissions.

The asynchronous methods take `Replica.lock`. No holder of the lock awaits anything, so
each of them is one uninterrupted step. What `time.perf_counter()` reads is an argument.
-/

namespace DualMap

open Cache

/-- `Replica`, over a cache of type `κ`. -/
structure Replica (κ : Type) where
  replicaSloBudget : ℤ
  currentBudget : ℤ
  receivedFirstReq : Bool
  lastPrefillCompletedAt : ℚ
  lastTtft : ℚ
  pendingRequests : List Request
  runningRequests : List Request
  cache : κ
  blockSize : ℕ
  requestTimestamps : List ℚ
  windowSize : ℚ

/-- A replica, and what is written in the requests. -/
structure ReplicaState (κ : Type) where
  replica : Replica κ
  attrs : Request → RequestAttrs

/-- What `get_load_states` returns. -/
structure LoadStates where
  currentBudget : ℤ
  lastPrefillCompletedAt : ℚ
  lastTtft : ℚ
  numPendingRequests : ℕ
  qps : ℚ

/-- `len(prompt)` without the cached tokens, when some but not all of it is cached. -/
def numRecomputeTokens (numCachedTokens : ℤ) (promptTokenIds : List ℕ) : ℤ :=
  if numCachedTokens > 0 ∧ numCachedTokens < promptTokenIds.length then
    promptTokenIds.length - numCachedTokens
  else promptTokenIds.length

theorem numRecomputeTokens_nonneg (numCachedTokens : ℤ) (promptTokenIds : List ℕ) :
    0 ≤ numRecomputeTokens numCachedTokens promptTokenIds := by
  unfold numRecomputeTokens
  split
  · next h => exact sub_nonneg.mpr (le_of_lt h.2)
  · exact Int.natCast_nonneg _

theorem numRecomputeTokens_le (numCachedTokens : ℤ) (promptTokenIds : List ℕ) :
    numRecomputeTokens numCachedTokens promptTokenIds ≤ promptTokenIds.length := by
  unfold numRecomputeTokens
  split
  · next h => exact sub_le_self _ (le_of_lt h.1)
  · exact le_rfl

namespace Replica

variable {κ : Type}

/-- `Replica.__init__`. -/
def init (replicaSloBudget : ℤ) (blockSize : ℕ) (cache : κ) : Replica κ where
  replicaSloBudget := replicaSloBudget
  currentBudget := replicaSloBudget
  receivedFirstReq := false
  lastPrefillCompletedAt := -1
  lastTtft := 0
  pendingRequests := []
  runningRequests := []
  cache := cache
  blockSize := blockSize
  requestTimestamps := []
  windowSize := 180

/-! ## Reading -/

/-- `get_num_cached_tokens` of a prompt with so many cached blocks. -/
def cachedTokens (replica : Replica κ) (numCachedBlocks : ℕ) : ℤ :=
  -- `-1` says that no block is cached
  if numCachedBlocks > 0 then numCachedBlocks * replica.blockSize else -1

/-- `get_num_cached_tokens`. -/
def getNumCachedTokens [PrefixCache κ] (replica : Replica κ) (promptTokenIds : List ℕ) :
    Except PyException ℤ := do
  let numCachedBlocks ← PrefixCache.getNumCachedBlocks replica.cache promptTokenIds
  return replica.cachedTokens numCachedBlocks

/-- `get_num_recompute_token_ids`. -/
def getNumRecomputeTokenIds [PrefixCache κ] (replica : Replica κ) (promptTokenIds : List ℕ) :
    Except PyException ℤ := do
  let numCachedTokens ← replica.getNumCachedTokens promptTokenIds
  return numRecomputeTokens numCachedTokens promptTokenIds

/-- What `get_num_recompute_token_ids` returns with a cache whose look-ups do not raise. -/
def numRecomputeTokenIds [LookupCache κ] (replica : Replica κ) (promptTokenIds : List ℕ) : ℤ :=
  numRecomputeTokens
    (replica.cachedTokens (LookupCache.numCachedBlocks replica.cache promptTokenIds))
    promptTokenIds

theorem getNumRecomputeTokenIds_eq [LookupCache κ] (replica : Replica κ)
    (promptTokenIds : List ℕ) :
    replica.getNumRecomputeTokenIds promptTokenIds =
      .ok (replica.numRecomputeTokenIds promptTokenIds) := by
  rw [getNumRecomputeTokenIds, getNumCachedTokens, LookupCache.getNumCachedBlocks_eq]
  rfl

theorem getNumRecomputeTokenIds_nonneg [PrefixCache κ] {replica : Replica κ}
    {promptTokenIds : List ℕ} {tokens : ℤ}
    (h : replica.getNumRecomputeTokenIds promptTokenIds = .ok tokens) : 0 ≤ tokens := by
  unfold getNumRecomputeTokenIds at h
  cases hcached : replica.getNumCachedTokens promptTokenIds with
  | error e =>
    rw [hcached] at h
    cases h
  | ok numCachedTokens =>
    rw [hcached] at h
    have htokens : numRecomputeTokens numCachedTokens promptTokenIds = tokens :=
      Except.ok.inj h
    rw [← htokens]
    exact numRecomputeTokens_nonneg numCachedTokens promptTokenIds

/-- `get_running_req_blocks_cnt`; the quotient is rounded up. -/
def getRunningReqBlocksCnt (replica : Replica κ) : ℕ :=
  (replica.runningRequests.map (fun req =>
    (req.inputIds.length + req.outputLen + replica.blockSize - 1) / replica.blockSize)).sum

/-- `get_num_actual_pending_tokens`. -/
def getNumActualPendingTokens (replica : Replica κ) : ℤ :=
  max (replica.replicaSloBudget - replica.currentBudget) 0

/-- `_cleanup_old_requests`. -/
def cleanupOldRequests (replica : Replica κ) (currentTime : ℚ) : Replica κ :=
  { replica with requestTimestamps :=
    replica.requestTimestamps.dropWhile (fun t => t < currentTime - replica.windowSize) }

/-- `get_request_rate`. -/
def getRequestRate (replica : Replica κ) (currentTime : ℚ) : ℚ :=
  match replica.requestTimestamps with
  | [] => 0
  | oldestTimestamp :: _ =>
    let windowDuration := min (currentTime - oldestTimestamp) replica.windowSize
    -- the first request of the window has just come
    if windowDuration ≤ 0 then 0
    else pyRound 4 (replica.requestTimestamps.length / windowDuration)

/-- `get_load_states`; the first call sets the time of the last prefill. The clock is read
for the request rate and, if need be, again for that time. -/
def getLoadStates (replica : Replica κ) (rateNow prefillNow : ℚ) : LoadStates × Replica κ :=
  let qps := replica.getRequestRate rateNow
  let replica :=
    -- `-1` is the value before any prefill
    if replica.lastPrefillCompletedAt = -1 then
      { replica with lastPrefillCompletedAt := prefillNow }
    else replica
  (⟨replica.currentBudget, replica.lastPrefillCompletedAt, replica.lastTtft,
    replica.pendingRequests.length, qps⟩, replica)

/-! ## The life of a request -/

/-- Run a cache operation of the replica. -/
def onCache {α : Type} (code : Py κ α) : Py (ReplicaState κ) α :=
  Py.zoom (fun s => s.replica.cache)
    (fun s cache => { s with replica := { s.replica with cache := cache } }) code

/-- `save_token_ids`. -/
def saveTokenIds [PrefixCache κ] (tokenIds : List ℕ) : Py (ReplicaState κ) ℕ := do
  let numSavedBlocks ← onCache (PrefixCache.save tokenIds)
  let s ← get
  return numSavedBlocks * s.replica.blockSize

/-- `save_prefill_token_ids`. -/
def savePrefillTokenIds [PrefixCache κ] (requestId : ℕ) (tokenIds : List ℕ) :
    Py (ReplicaState κ) ℕ := do
  let numSavedBlocks ← onCache (PrefixCache.savePrefill requestId tokenIds)
  let s ← get
  return numSavedBlocks * s.replica.blockSize

/-- `add_request`: admit a request that is not pending yet. -/
def addRequest [PrefixCache κ] (request : Option Request) (now : ℚ) :
    Py (ReplicaState κ) Bool :=
  match request with
  | none => pure false
  | some request =>
    Py.tryExcept
      (do
        let s ← get
        if request ∉ s.replica.pendingRequests then
          let actualNumPrefillTokens ←
            Py.ofExcept (s.replica.getNumRecomputeTokenIds request.inputIds)
          let replica := { s.replica with
            currentBudget := s.replica.currentBudget - actualNumPrefillTokens
            pendingRequests := s.replica.pendingRequests ++ [request]
            requestTimestamps := s.replica.requestTimestamps ++ [now] }
          set (ReplicaState.mk (replica.cleanupOldRequests now)
            (Function.update s.attrs request
              { s.attrs request with actualNumPrefillTokens := actualNumPrefillTokens }))
          pure true
        else
          pure false)
      (fun _ => pure false)

/-- `complete_request_prefill`: the prompt is cached, and a pending request starts to run.
The save stands before the `try`, so what it raises is raised here. -/
def completeRequestPrefill [PrefixCache κ] (request : Option Request) (ttft now : ℚ) :
    Py (ReplicaState κ) Bool :=
  match request with
  | none => pure false
  | some request => do
    -- the prompt is saved whether or not the request is pending
    let _ ← savePrefillTokenIds request.id request.inputIds
    let s ← get
    let replica := { s.replica with receivedFirstReq := true }
    if request ∈ replica.pendingRequests then
      set { s with replica := { replica with
        currentBudget := replica.currentBudget + (s.attrs request).actualNumPrefillTokens
        pendingRequests := replica.pendingRequests.erase request
        lastPrefillCompletedAt := now
        lastTtft := pyRound 4 ttft
        runningRequests :=
          if request ∉ replica.runningRequests then replica.runningRequests ++ [request]
          else replica.runningRequests } }
      pure true
    else
      set { s with replica := replica }
      pure false

/-- `complete_request_decode`: the request stops running, and its prompt is cached with
the output, which the tokenizer encodes. -/
def completeRequestDecode [PrefixCache κ] (encode : String → Except PyException (List ℕ))
    (request : Option Request) (outputText : String) : Py (ReplicaState κ) Unit :=
  match request with
  | none => pure ()
  | some request => do
    let s ← get
    set { s with replica := { s.replica with
      runningRequests := s.replica.runningRequests.erase request } }
    let outputTokenIds ← Py.ofExcept (encode outputText)
    -- the request has left the list by now, whatever this raises
    let _ ← saveTokenIds (request.inputIds ++ outputTokenIds)

/-- `abort_request`: take a request out of both lists, with its budget. -/
def abortRequest (request : Option Request) : Py (ReplicaState κ) Bool :=
  match request with
  | none => pure false
  | some request => do
    let s ← get
    let pending := request ∈ s.replica.pendingRequests
    let running := request ∈ s.replica.runningRequests
    let replica := s.replica
    let replica :=
      if pending then
        { replica with
          currentBudget := replica.currentBudget + (s.attrs request).actualNumPrefillTokens
          pendingRequests := replica.pendingRequests.erase request }
      else replica
    let replica :=
      -- a running request holds no budget any more
      if running then
        { replica with runningRequests := replica.runningRequests.erase request }
      else replica
    set { s with replica := replica }
    pure (pending ∨ running)

end Replica

end DualMap
