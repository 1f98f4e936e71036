import DualMap.Entities.Request
import DualMap.Foundation.OrderedDict
import DualMap.Foundation.PyEffect

/-!
# Replica Selection

The generator and the router talk to each other through `SharedState`. A call of
`_generate_request_helper` creates an event for its request, queues the request and waits.
The loop `_process_replica_selection` takes one request after the other, has it scheduled,
writes the answer beside the event and sets it. The call wakes up and posts the request.

Each step here is the code between two points of waiting; `put` on an unbounded queue does
not wait. The scheduler is a parameter, and its state may change between the steps of the
router: a `schedule` that waits is the piece after its last waiting. A call without a request
returns at once, so the queue holds no `None`. The metrics are left out: saving them is a
point of waiting before the scheduling.
-/

namespace DualMap.Router

/-- Where the loop of `_process_replica_selection` is. -/
inductive RouterPhase where
  | idle
  | scheduling (request : Request)
  | answering (request : Request) (runtimeId : Option ℤ)
  /-- `schedule` raised, or the task was cancelled by `stop`. The request that was to be
  scheduled is kept for the record. -/
  | stopped (fault : Fault) (unscheduled : Option Request)
  /-- `task_done` raised. -/
  | doneTooOften
  deriving DecidableEq

namespace RouterPhase

/-- The request that was taken from the queue and is not scheduled. -/
def beingScheduled : RouterPhase → Option Request
  | .scheduling request => some request
  | .stopped _ unscheduled => unscheduled
  | _ => none

/-- The loop goes on. -/
def Alive : RouterPhase → Prop
  | .stopped _ _ => False
  | .doneTooOften => False
  | _ => True

instance : DecidablePred Alive := by
  intro phase
  cases phase <;> unfold Alive <;> infer_instance

/-- How many requests the loop has taken and not acknowledged. -/
def unacknowledged : RouterPhase → ℕ
  | .scheduling _ => 1
  | .answering _ _ => 1
  | _ => 0

end RouterPhase

/-- The parts of `SharedState` that the selection uses, the router and the scheduler. An
`asyncio.Event` is known by its number, `events` are their flags. Of the calls of
`_generate_request_helper`, `starting` have not begun, `waiting` wait for an event, and the
others have ended. -/
structure Selection (σ : Type) where
  globalScheduler : σ
  events : List Bool := []
  /-- `runtime_events`: the event of a request id, which is `None` after an error, and the
  answer. -/
  runtimeEvents : OrderedDict ℕ (Option ℕ × Option ℤ) := .empty
  runtimeRequestQueue : List Request := []
  /-- The counter behind `task_done`. -/
  unfinishedTasks : ℕ := 0
  phase : RouterPhase := .idle
  starting : List Request := []
  waiting : List (Request × ℕ) := []
  returned : List Request := []
  raised : List (Request × PyException) := []
  /-- The calls of `add_posting_request_tasks`. -/
  posted : List (ℕ × Request) := []
  /-- For the record: what was queued, in this order. -/
  entered : List Request := []
  /-- For the record: what `schedule` returned for which request, in this order. -/
  scheduled : List (Request × Option ℤ) := []

namespace Selection

variable {σ : Type}

/-! ## `_generate_request_helper` -/

/-- The call up to its waiting. -/
def enter (request : Request) (s : Selection σ) : Selection σ :=
  { s with
    events := s.events ++ [false]
    runtimeEvents := s.runtimeEvents.set request.id (some s.events.length, none)
    runtimeRequestQueue := s.runtimeRequestQueue ++ [request]
    unfinishedTasks := s.unfinishedTasks + 1
    starting := s.starting.erase request
    waiting := s.waiting ++ [(request, s.events.length)]
    entered := s.entered ++ [request] }

/-- The end of the call, with the answer that it has read. -/
def finish (numReplicas : ℕ) (request : Request) (replicaId : Option ℤ) (s : Selection σ) :
    Selection σ :=
  match replicaId with
  | none => { s with raised := s.raised ++ [(request, .runtimeError)] }
  | some replicaId =>
    let s := { s with returned := s.returned ++ [request] }
    if replicaId < 0 then s
    else if replicaId < numReplicas then
      { s with posted := s.posted ++ [(replicaId.toNat, request)] }
    else s

/-- The call from its waking up to its end. -/
def wake (numReplicas : ℕ) (request : Request) (event : ℕ) (s : Selection σ) : Selection σ :=
  let s := { s with waiting := s.waiting.erase (request, event) }
  match s.runtimeEvents.get? request.id with
  | none => { s with raised := s.raised ++ [(request, .keyError)] }
  | some (_, replicaId) =>
    finish numReplicas request replicaId
      { s with runtimeEvents := s.runtimeEvents.erase request.id }

/-! ## `_process_replica_selection` -/

/-- `runtime_request_queue.task_done()`, after which the loop goes on. -/
def taskDone (s : Selection σ) : Selection σ :=
  if s.unfinishedTasks = 0 then { s with phase := .doneTooOften }
  else { s with unfinishedTasks := s.unfinishedTasks - 1, phase := .idle }

/-- `schedule_request_to_replica`. -/
def scheduleRequestToReplica (request : Request) (runtimeId : Option ℤ) (s : Selection σ) :
    Selection σ :=
  match s.runtimeEvents.get? request.id with
  | some (event, _) =>
    let s := { s with runtimeEvents := s.runtimeEvents.set request.id (event, runtimeId) }
    match event with
    | some event => taskDone { s with events := s.events.set event true }
    | none => { s with phase := .idle }
  -- the look-up raised, and `event` is still `None`
  | none =>
    { s with runtimeEvents := s.runtimeEvents.set request.id (none, none), phase := .idle }

/-- The call of `schedule`. What it raises ends the loop. -/
def runSchedule (schedule : Request → Py σ (Option ℤ)) (request : Request) (s : Selection σ) :
    Selection σ :=
  match schedule request s.globalScheduler with
  | .ok runtimeId scheduler =>
    { s with
      globalScheduler := scheduler
      phase := .answering request runtimeId
      scheduled := s.scheduled ++ [(request, runtimeId)] }
  | .error fault scheduler =>
    { s with globalScheduler := scheduler, phase := .stopped fault (some request) }

/-! ## Steps -/

section Steps

variable (numReplicas : ℕ) (schedule : Request → Py σ (Option ℤ))

/-- The steps that the calls and the router take by themselves. -/
inductive Internal : Selection σ → Selection σ → Prop where
  | enter (s : Selection σ) (request : Request) (hstarting : request ∈ s.starting) :
      Internal s (s.enter request)
  | get (s : Selection σ) (request : Request) (rest : List Request) (hphase : s.phase = .idle)
      (hqueue : s.runtimeRequestQueue = request :: rest) :
      Internal s { s with runtimeRequestQueue := rest, phase := .scheduling request }
  | schedule (s : Selection σ) (request : Request) (hphase : s.phase = .scheduling request) :
      Internal s (s.runSchedule schedule request)
  | answer (s : Selection σ) (request : Request) (runtimeId : Option ℤ)
      (hphase : s.phase = .answering request runtimeId) :
      Internal s (s.scheduleRequestToReplica request runtimeId)
  | wake (s : Selection σ) (request : Request) (event : ℕ)
      (hwaiting : (request, event) ∈ s.waiting) (hset : s.events[event]? = some true) :
      Internal s (s.wake numReplicas request event)

/-- All requests that `_generate_request_helper` was called with. -/
def requests (s : Selection σ) : List Request :=
  s.starting ++ s.waiting.map Prod.fst ++ s.returned ++ s.raised.map Prod.fst

/-- The steps of the event loop: those, a new call, whose request gets its id from a
counter, changes of the scheduler by others, and `stop`. -/
inductive Step (others : σ → σ → Prop) : Selection σ → Selection σ → Prop where
  | internal {s s' : Selection σ} (h : Internal numReplicas schedule s s') : Step others s s'
  | call (s : Selection σ) (request : Request) (hnew : request.id ∉ s.requests.map Request.id) :
      Step others s { s with starting := s.starting ++ [request] }
  | others (s : Selection σ) (scheduler : σ) (h : others s.globalScheduler scheduler) :
      Step others s { s with globalScheduler := scheduler }
  | stop (s : Selection σ) :
      Step others s { s with phase := .stopped .cancelled s.phase.beingScheduled }

end Steps

end Selection

end DualMap.Router
