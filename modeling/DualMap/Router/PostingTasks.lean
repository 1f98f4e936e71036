import DualMap.Client.OpenAI

/-!
# Posting Tasks

`add_posting_request_tasks` creates a task for every request that is posted and keeps it in
`posting_request_tasks`. When the task has ended, `handle_task_completion` runs as its
callback and creates further tasks: `on_request_complete` for a result, and in every case
`del_posting_request_tasks`. A completed request is put into `finished_requests_queue`, from
which `_process_cleanup_selection` hands it to the scheduler, and the scheduler is called.

Each step is the code between two points of waiting. The holders of
`posting_request_tasks_lock` do not wait, so the lock is always free. The scheduler and its
two functions are parameters, and its state may change between the steps.
-/

namespace DualMap.Router

open Client

/-- How a task ended. -/
inductive TaskEnd where
  | returned (output : Option RequestFuncOutput)
  | raised
  | cancelled
  deriving DecidableEq

/-- A task that `add_posting_request_tasks` created. -/
structure PostingTask where
  request : Request
  targetIpPort : String
  /-- Nothing as long as the task is not done. -/
  ended : Option TaskEnd := none
  deriving DecidableEq

/-- The key of the task. -/
def PostingTask.key (task : PostingTask) : ℕ × String := (task.request.id, task.targetIpPort)

/-- The parts of `SharedState` that keep the posted requests, the event loop and the
scheduler. A task is known by its position in `tasks`. -/
structure Posting (σ : Type) where
  globalScheduler : σ
  tasks : List PostingTask := []
  postingRequestTasks : OrderedDict (ℕ × String) ℕ := .empty
  /-- The tasks whose `handle_task_completion` is still to run. -/
  callbacks : List ℕ := []
  /-- The tasks whose `on_request_complete` is still to run. -/
  completing : List ℕ := []
  /-- The tasks whose `del_posting_request_tasks` is still to run. -/
  deleting : List ℕ := []
  finishedRequestsQueue : List (Option RequestFuncOutput × Request) := []
  /-- Why `_process_cleanup_selection` has stopped, if it has. -/
  cleanupStopped : Option Fault := none
  /-- For the record: the tasks that were cancelled by `del_posting_request_tasks`. -/
  cancelRequests : List ℕ := []
  /-- For the record: what was put into the queue, with its task. -/
  finished : List (ℕ × Option RequestFuncOutput × Request) := []
  /-- For the record: what was taken from the queue. -/
  cleaned : List (Option RequestFuncOutput × Request) := []
  /-- For the record: how often `_scheduler_callback` was called. -/
  schedulerCalls : ℕ := 0
  /-- For the record: the calls of `finish_request`. -/
  finishCalls : List (RequestFuncOutput × Request) := []

namespace Posting

variable {σ : Type}

/-- `add_posting_request_tasks`, without the note about the cache. -/
def addPostingRequestTasks (targetIpPort : String) (request : Request) (s : Posting σ) :
    Posting σ :=
  { s with
    tasks := s.tasks ++ [{ request, targetIpPort }]
    postingRequestTasks := s.postingRequestTasks.set (request.id, targetIpPort) s.tasks.length }

/-- `del_posting_request_tasks`. The exception of a cancelled task is raised, and then its
entry stays. -/
def delPostingRequestTasks (request : Request) (targetIpPort : String) : Py (Posting σ) Unit := do
  let s ← get
  match s.postingRequestTasks.get? (request.id, targetIpPort) with
  | none => return ()
  | some task =>
    match (s.tasks[task]?).bind PostingTask.ended with
    | none => modify fun s => { s with cancelRequests := s.cancelRequests ++ [task] }
    | some .cancelled => throw .cancelled
    | some _ => pure ()
    modify fun s =>
      { s with postingRequestTasks := s.postingRequestTasks.erase (request.id, targetIpPort) }

/-- `handle_task_completion`. -/
def handleTaskCompletion (task : ℕ) (ending : TaskEnd) (s : Posting σ) : Posting σ :=
  let s := { s with deleting := s.deleting ++ [task] }
  match ending with
  | .returned _ => { s with completing := s.completing ++ [task] }
  | _ => s

/-- The call of `_scheduler_callback`, if one is set. -/
def callScheduler (schedulerCallback : Option (Py σ Unit)) : Py (Posting σ) Unit :=
  match schedulerCallback with
  | none => return ()
  | some callback => do
    modify fun s => { s with schedulerCalls := s.schedulerCalls + 1 }
    Py.zoom globalScheduler (fun s scheduler => { s with globalScheduler := scheduler }) callback

/-- `on_request_complete` for the result of a task. An exception is logged. -/
def onRequestComplete (schedulerCallback : Option (Py σ Unit)) (task : ℕ)
    (output : Option RequestFuncOutput) (request : Request) (targetIpPort : String) :
    Py (Posting σ) Unit :=
  Py.tryExcept
    (do
      delPostingRequestTasks request targetIpPort
      modify fun s =>
        { s with
          finishedRequestsQueue := s.finishedRequestsQueue ++ [(output, request)]
          finished := s.finished ++ [(task, output, request)] }
      callScheduler schedulerCallback)
    fun _ => return ()

/-- What `_process_cleanup_selection` passes on of a finished request. -/
def successful (item : Option RequestFuncOutput × Request) :
    Option (RequestFuncOutput × Request) :=
  match item.1 with
  | some output => if output.success then some (output, item.2) else none
  | none => none

/-- `_process_cleanup_selection` with what it took from the queue. What `finish_request`
raises ends the loop. -/
def cleanupSelection (finishRequest : RequestFuncOutput → Request → Py σ Unit)
    (item : Option RequestFuncOutput × Request) (s : Posting σ) : Posting σ :=
  let s := { s with cleaned := s.cleaned ++ [item] }
  match successful item with
  | none => s
  | some (output, request) =>
    let s := { s with finishCalls := s.finishCalls ++ [(output, request)] }
    match finishRequest output request s.globalScheduler with
    | .ok _ scheduler => { s with globalScheduler := scheduler }
    | .error fault scheduler =>
      { s with globalScheduler := scheduler, cleanupStopped := some fault }

/-- The steps of the event loop. Ids come from a counter and a request is posted at most
once, so a key is never used again. A task may end in any way at any time. -/
inductive Step (schedulerCallback : Option (Py σ Unit))
    (finishRequest : RequestFuncOutput → Request → Py σ Unit) (others : σ → σ → Prop) :
    Posting σ → Posting σ → Prop where
  | post (s : Posting σ) (targetIpPort : String) (request : Request)
      (hnew : (request.id, targetIpPort) ∉ s.tasks.map PostingTask.key) :
      Step schedulerCallback finishRequest others s (s.addPostingRequestTasks targetIpPort request)
  | taskEnds (s : Posting σ) (i : ℕ) (task : PostingTask) (ending : TaskEnd)
      (htask : s.tasks[i]? = some task) (hrunning : task.ended = none) :
      Step schedulerCallback finishRequest others s
        { s with
          tasks := s.tasks.set i { task with ended := some ending }
          callbacks := s.callbacks ++ [i] }
  | callback (s : Posting σ) (i : ℕ) (task : PostingTask) (ending : TaskEnd)
      (htask : s.tasks[i]? = some task) (hended : task.ended = some ending)
      (hdue : i ∈ s.callbacks) :
      Step schedulerCallback finishRequest others s
        (handleTaskCompletion i ending { s with callbacks := s.callbacks.erase i })
  | complete (s : Posting σ) (i : ℕ) (task : PostingTask) (output : Option RequestFuncOutput)
      (htask : s.tasks[i]? = some task) (hended : task.ended = some (.returned output))
      (hdue : i ∈ s.completing) :
      Step schedulerCallback finishRequest others s
        (Py.finalState (onRequestComplete schedulerCallback i output task.request
          task.targetIpPort { s with completing := s.completing.erase i }))
  | delete (s : Posting σ) (i : ℕ) (task : PostingTask) (htask : s.tasks[i]? = some task)
      (hdue : i ∈ s.deleting) :
      Step schedulerCallback finishRequest others s
        (Py.finalState (delPostingRequestTasks task.request task.targetIpPort
          { s with deleting := s.deleting.erase i }))
  | cleanup (s : Posting σ) (item : Option RequestFuncOutput × Request)
      (rest : List (Option RequestFuncOutput × Request)) (hruns : s.cleanupStopped = none)
      (hqueue : s.finishedRequestsQueue = item :: rest) :
      Step schedulerCallback finishRequest others s
        (cleanupSelection finishRequest item { s with finishedRequestsQueue := rest })
  | others (s : Posting σ) (scheduler : σ) (h : others s.globalScheduler scheduler) :
      Step schedulerCallback finishRequest others s { s with globalScheduler := scheduler }

end Posting

end DualMap.Router
