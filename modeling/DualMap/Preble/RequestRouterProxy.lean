import DualMap.Preble.PrebleGlobalScheduler

/-!
# The Router of the Preble Scheduler

The model of `request_router_proxy.py` and of the queues of `shared.py` that it serves. One
loop takes requests from `runtime_request_queue`, schedules them and has them posted to their
replicas. When the task that posts a request is done, a callback puts what it returned into
`finished_requests_queue`, from where a second loop hands it to the scheduler.

All of them run in one event loop, so each step here is the code between two points of
waiting. The metrics and logs are left out.
-/

namespace DualMap.Preble

variable {n : ℕ}

deriving instance DecidableEq for FuncOutput

/-- An item of `finished_requests_queue`. The replica that the request was routed to is kept
for the record; no code reads it. -/
structure Completion (n : ℕ) where
  output : Option (FuncOutput n)
  inputIds : List ℕ
  routedTo : Fin n
  deriving DecidableEq

/-- The tokens of a completed request, and its replica. -/
def Completion.routed (completion : Completion n) : List ℕ × Fin n :=
  (completion.inputIds, completion.routedTo)

/-- The scheduler and the queues of the router. -/
structure RouterState (n : ℕ) where
  globalScheduler : PrebleGlobalSchedulerUtils n
  runtimeRequestQueue : List (Option Request) := []
  /-- The requests that were routed and whose tasks are not done. -/
  postingRequestTasks : List (Request × Fin n) := []
  /-- The calls of `on_request_complete` that are still to run. -/
  completing : List (Completion n) := []
  finishedRequestsQueue : List (Completion n) := []
  /-- For the record: the requests whose tasks raised or were cancelled. -/
  raised : List (Request × Fin n) := []
  /-- For the record: what was taken from the finished requests without success. -/
  unsuccessful : List (Completion n) := []

namespace RouterState

variable (rt : Runtime n)

/-- Run code of the scheduler. -/
def onScheduler {α : Type} (code : Py (PrebleGlobalSchedulerUtils n) α) : Py (RouterState n) α :=
  Py.zoom (·.globalScheduler) (fun s scheduler => { s with globalScheduler := scheduler }) code

/-- `add_posting_request_tasks`, which `_generate_request_helper` calls for the ids of
replicas only. -/
def addPostingRequestTasks (replicaId : ℤ) (request : Request) (s : RouterState n) :
    RouterState n :=
  if h : replicaId.toNat < n ∧ 0 ≤ replicaId then
    { s with postingRequestTasks := s.postingRequestTasks ++ [(request, ⟨replicaId.toNat, h.1⟩)] }
  else s

/-- One turn of `_process_replica_selection`: the first request of the queue, if there is
one. -/
def processReplicaSelection : Py (RouterState n) Unit := do
  let s ← get
  match s.runtimeRequestQueue with
  | [] => pure ()
  | none :: rest => set { s with runtimeRequestQueue := rest }
  | some request :: rest => do
    set { s with runtimeRequestQueue := rest }
    let runtimeId ← onScheduler (PrebleGlobalScheduler.schedule rt (some request))
    modify (addPostingRequestTasks runtimeId request)

/-- `handle_task_completion`: what a task returned is passed on; a task that was cancelled
or that raised is only logged. -/
def handleTaskCompletion (request : Request) (replicaId : Fin n)
    (result : Except Fault (Option Client.RequestFuncOutput)) (s : RouterState n) :
    RouterState n :=
  let s := { s with postingRequestTasks := s.postingRequestTasks.erase (request, replicaId) }
  match result with
  | .ok output =>
    -- `runtime_selected` is the replica of the call
    let completion := ⟨output.map (fun output => ⟨output, replicaId⟩), request.inputIds, replicaId⟩
    { s with completing := s.completing ++ [completion] }
  | .error _ => { s with raised := s.raised ++ [(request, replicaId)] }

/-- `on_request_complete`. -/
def onRequestComplete (completion : Completion n) (s : RouterState n) : RouterState n :=
  { s with
    completing := s.completing.erase completion
    finishedRequestsQueue := s.finishedRequestsQueue ++ [completion] }

/-- One turn of `_process_cleanup_selection`: the first finished request, if there is one. -/
def processCleanupSelection : Py (RouterState n) Unit := do
  let s ← get
  match s.finishedRequestsQueue with
  | [] => pure ()
  | completion :: rest => do
    set { s with finishedRequestsQueue := rest }
    match completion.output with
    | some output =>
      if output.success then
        onScheduler (PrebleGlobalScheduler.finishRequest rt (some output) completion.inputIds)
      else modify (fun s => { s with unsuccessful := s.unsuccessful ++ [completion] })
    | none => modify (fun s => { s with unsuccessful := s.unsuccessful ++ [completion] })

end RouterState

/-! ## Runs -/

/-- What happens in the event loop. -/
inductive RouterEvent (n : ℕ)
  | arrive (request : Option Request)
  | selectReplica
  | taskDone (request : Request) (replicaId : Fin n)
      (result : Except Fault (Option Client.RequestFuncOutput))
  | requestComplete (completion : Completion n)
  | cleanup

/-- What the task that posts the request can end with: what `async_send_request` returns, for
any answers of the server and among any other tasks, or a fault, where it is cancelled, or
where it raises outside of its `try`. -/
def PostingEnds (request : Request) (result : Except Fault (Option Client.RequestFuncOutput)) :
    Prop :=
  (∃ fault, result = .error fault) ∨
    ∃ (κ : Type) (_ : Cache.PrefixCache κ) (env : Client.ClientEnv) (targetIpPort : String)
      (http : Client.HttpOutcome) (others : Client.SendState κ → Client.SendState κ → Prop)
      (before after : Client.SendState κ),
      Coro.Runs others (Client.asyncSendRequest env (some targetIpPort) (some request) http)
        before result after

namespace RouterState

/-- The events that can happen. The generator makes no request without tokens. -/
def Possible (s : RouterState n) : RouterEvent n → Prop
  | .arrive request => ∀ r ∈ request, r.inputIds ≠ []
  | .selectReplica => True
  | .taskDone request replicaId result =>
    (request, replicaId) ∈ s.postingRequestTasks ∧ PostingEnds request result
  | .requestComplete completion => completion ∈ s.completing
  | .cleanup => True

/-- The code that an event runs. -/
def perform (rt : Runtime n) : RouterEvent n → Py (RouterState n) Unit
  | .arrive request =>
    modify (fun s => { s with runtimeRequestQueue := s.runtimeRequestQueue ++ [request] })
  | .selectReplica => processReplicaSelection rt
  | .taskDone request replicaId result => modify (handleTaskCompletion request replicaId result)
  | .requestComplete completion => modify (onRequestComplete completion)
  | .cleanup => processCleanupSelection rt

end RouterState

/-- The states that runs of the router reach. -/
inductive RouterRun (rt : Runtime n) (windowDuration maxDramTokens prefillTpot : ℚ) :
    RouterState n → Prop
  | init : RouterRun rt windowDuration maxDramTokens prefillTpot
      { globalScheduler := .init rt windowDuration maxDramTokens prefillTpot }
  | step {s s' : RouterState n} {event : RouterEvent n}
      (h : RouterRun rt windowDuration maxDramTokens prefillTpot s)
      (hpossible : s.Possible event) (hrun : RouterState.perform rt event s = .ok () s') :
      RouterRun rt windowDuration maxDramTokens prefillTpot s'

namespace RouterState

/-! ## The requests that were routed -/

/-- The tokens of a routed request, and its replica. -/
def routed (task : Request × Fin n) : List ℕ × Fin n := (task.1.inputIds, task.2)

/-- The routed requests whose completion was not taken from `finished_requests_queue` yet. -/
def unfinished (s : RouterState n) : List (List ℕ × Fin n) :=
  s.postingRequestTasks.map routed ++ s.raised.map routed ++
    s.completing.map Completion.routed ++ s.finishedRequestsQueue.map Completion.routed

/-- The routed requests whose completion was taken without success. -/
def failed (s : RouterState n) : List (List ℕ × Fin n) := s.unsuccessful.map Completion.routed

end RouterState

end DualMap.Preble
