import DualMap.Scheduler.CallSteps
import DualMap.Scheduler.Conservation
import DualMap.Scheduler.DispatchCap

/-!
# No Request is Left Behind

Nothing polls the queues: requests are popped only by a `schedule` call, and such a call is
made for an arrival or when a posted request has ended. So a request that waits while
nothing is under way waits until the next arrival, or for ever.

Main result: `at_rest_all_posted`, this does not happen. When no posted request is under way
any more, a request waits only at a replica that still counts another request as pending,
or after a task that raised. This needs a positive budget and a threshold of at least one
pending request, without which nothing is ever popped, and different arrival times.

No holder of a lock awaits anything, so a call is never suspended and is one step here, as
in the runs of `DispatchCap`.
-/

namespace DualMap.Scheduler

open Cache GlobalRequestQueue DoubleHashGlobalSchedulerUtils

variable {n : ℕ} {κ : Type}

/-! ## One batch pop -/

/-- From a queue that is not empty a batch pop with room takes something. -/
theorem GlobalRequestQueue.popSchedulable_ne_nil {q : GlobalRequestQueue n} {r : Fin n}
    (hqueue : q.queues r ≠ []) (curReplicaBudget : ℤ) {maxPopNum : ℤ} (hroom : 0 < maxPopNum) :
    (q.popSchedulable r curReplicaBudget (some maxPopNum)).1 ≠ [] := by
  obtain ⟨item, rest, hpop⟩ := Heapq.heappop_of_ne_nil Entry.key hqueue
  obtain ⟨fuel, hfuel⟩ := Nat.exists_eq_succ_of_ne_zero
    (fun hzero => hqueue (List.length_eq_zero_iff.mp hzero))
  rw [popSchedulable, hfuel, popSchedulableLoop, if_neg (by simpa using hroom), hpop]
  -- with or without budget left, the first entry is popped
  dsimp only
  split
  · exact List.cons_ne_nil _ _
  · exact List.cons_ne_nil _ _

/-- A replica takes no request: it has some pending, or no budget. -/
def World.Busy (w : World n κ) (r : Fin n) : Prop :=
  (w.replicaBudgets r).pendingRequests ≠ [] ∨ (w.replicaBudgets r).currentBudget ≤ 0

theorem World.busy_iff {w w' : World n κ} {r : Fin n} (hsame : ∃ t,
    w'.replicaBudgets r = { w.replicaBudgets r with lastPrefillCompletedAt := t }) :
    w'.Busy r ↔ w.Busy r := by
  obtain ⟨t, ht⟩ := hsame
  rw [World.Busy, ht]
  rfl

namespace DoubleHashGlobalSchedulerUtils

variable (utils : DoubleHashGlobalSchedulerUtils n)

/-- While a call pops: whatever it has popped or could pop has a replica, and at the
replicas it is done with, something waits only when it has popped or they are busy. -/
structure Emptying (done : Fin n → Prop) (w₀ : World n κ) (s : Frame × World n κ) : Prop where
  assigned : ∀ request, request ∈ s.1.schedulableWaitingReqList ∨
    request ∈ s.2.globalRequestQueue.queued → s.2.Assigned request
  posted : s.2.postingRequestTasks = w₀.postingRequestTasks
  busy : ∀ r, s.2.Busy r → w₀.Busy r
  emptied : ∀ r, done r → s.2.globalRequestQueue.queues r ≠ [] →
    s.1.schedulableWaitingReqList ≠ [] ∨ w₀.Busy r

theorem Emptying.of_reads {done : Fin n → Prop} {w₀ w w' : World n κ} {l : Frame}
    (h : Emptying done w₀ (l, w)) (hreads : w.Reads w') : Emptying done w₀ (l, w') where
  assigned := by
    intro request hrequest
    rw [World.Assigned, hreads.attrs]
    rw [hreads.globalRequestQueue] at hrequest
    exact h.assigned request hrequest
  posted := hreads.postingRequestTasks.trans h.posted
  busy := fun r hr => h.busy r ((World.busy_iff (hreads.replicaBudgets r)).mp hr)
  emptied := by
    rw [hreads.globalRequestQueue]
    exact h.emptied

/-- After the batch pop for a replica, something waits there only when the call has popped
or the replica is busy. -/
theorem popWaiting_emptying (hthreshold : 1 ≤ utils.dhReplicaPendingReqThreshold)
    {done : Fin n → Prop} {w₀ : World n κ} {rid : Fin n} {states : LoadStates}
    {prefillInterval : ℚ} {s : Frame × World n κ} (h : Emptying done w₀ s)
    (hbudget : states.currentBudget = (s.2.replicaBudgets rid).currentBudget)
    (hpending : states.numPendingRequests = (s.2.replicaBudgets rid).pendingRequests.length) :
    Emptying (fun r => done r ∨ r = rid) w₀ (utils.popWaiting rid states prefillInterval s) := by
  by_cases hpops : utils.Dispatchable states prefillInterval (s.2.globalRequestQueue.queues rid)
  · simp only [popWaiting, if_pos hpops]
    obtain ⟨removed, hremoves, hreqs⟩ := popSchedulable_removes s.2.globalRequestQueue rid
      states.currentBudget (some (utils.dhReplicaPendingReqThreshold - states.numPendingRequests))
    have hsome (hidle : states.numPendingRequests = 0) :
        (s.2.globalRequestQueue.popSchedulable rid states.currentBudget
          (some (utils.dhReplicaPendingReqThreshold - states.numPendingRequests))).1 ≠ [] :=
      popSchedulable_ne_nil hpops.1 states.currentBudget (by rw [hidle]; omega)
    generalize s.2.globalRequestQueue.popSchedulable rid states.currentBudget
      (some (utils.dhReplicaPendingReqThreshold - states.numPendingRequests)) = batch
      at hremoves hreqs hsome ⊢
    refine ⟨?_, h.posted, h.busy, ?_⟩
    · -- what was popped waited before
      intro request hrequest
      apply h.assigned
      rw [hremoves.queued, ← hreqs]
      rcases hrequest with hmem | hmem
      · rcases List.mem_append.mp hmem with hold | hnew
        · exact Or.inl hold
        · exact Or.inr (Multiset.mem_add.mpr (Or.inl (Multiset.mem_coe.mpr hnew)))
      · exact Or.inr (Multiset.mem_add.mpr (Or.inr hmem))
    · intro r hr hqueue
      by_cases hrid : r = rid
      · rw [hrid]
        by_cases hidle : states.numPendingRequests = 0
        -- an idle replica with budget got something
        · exact Or.inl (List.append_ne_nil_of_right_ne_nil _ (hsome hidle))
        · right
          apply h.busy
          left
          intro hnil
          rw [hnil] at hpending
          exact hidle hpending
      · -- the other queues are as before
        have hsame : batch.2.queues r = s.2.globalRequestQueue.queues r :=
          (hremoves.others r hrid).1
        have hqueue : batch.2.queues r ≠ [] := hqueue
        rw [hsame] at hqueue
        exact (h.emptied r (hr.resolve_right hrid) hqueue).imp_left
          (List.append_ne_nil_of_left_ne_nil · _)
  · simp only [popWaiting, if_neg hpops]
    refine ⟨h.assigned, h.posted, h.busy, ?_⟩
    intro r hr hqueue
    by_cases hrid : r = rid
    · right
      rw [hrid] at hqueue ⊢
      apply h.busy
      -- nothing was popped although something waits: no budget, or pending requests
      by_contra hfree
      apply hpops
      rw [World.Busy, not_or, not_not, not_le, ← hbudget] at hfree
      refine ⟨hqueue, hfree.2, Or.inl ?_⟩
      rw [hpending, hfree.1, List.length_nil]
    · exact h.emptied r (hr.resolve_right hrid) hqueue

theorem getLoadStates_budget (rid : Fin n) (w : World n κ) :
    (utils.getLoadStates rid w).1.currentBudget =
      ((utils.getLoadStates rid w).2.replicaBudgets rid).currentBudget := by
  obtain ⟨t, ht⟩ := (utils.getLoadStates_reads rid w).replicaBudgets rid
  rw [ht]
  unfold getLoadStates Replica.getLoadStates
  dsimp only
  split <;> rfl

/-- The batch pops for all replicas. -/
theorem popTurns_emptying (hthreshold : 1 ≤ utils.dhReplicaPendingReqThreshold)
    {w₀ : World n κ} (rids : List (Fin n)) {done : Fin n → Prop} {s : Frame × World n κ}
    (h : Emptying done w₀ s) :
    Emptying (fun r => done r ∨ r ∈ rids) w₀ ((rids.forM utils.popTurn).atomically s).2 := by
  induction rids generalizing done s with
  | nil => simpa using h
  | cons rid rids ih =>
    have hclock := utils.readClock_reads (utils.getLoadStates rid s.2).2
    have hreads := (utils.getLoadStates_reads rid s.2).trans hclock
    obtain ⟨t, ht⟩ := hclock.replicaBudgets rid
    have hturn : Emptying (fun r => done r ∨ r = rid) w₀ ((utils.popTurn rid).atomically s).2 := by
      apply utils.popWaiting_emptying hthreshold (h.of_reads hreads)
      · rw [utils.getLoadStates_budget, ht]
      · rw [utils.getLoadStates_numPending, ht]
    rw [Coro.atomically_forM_cons]
    simp only [List.mem_cons, ← or_assoc]
    exact ih hturn

/-! ## A whole call -/

variable [LookupCache κ]

/-- A placement adds the request to the queues, and in the end it has a replica. -/
theorem placeRequest_queued {ν : Type} (placed : ν → ν) (request : Request) (l : ν)
    (w : World n κ) :
    let s' := ((utils.placeRequest placed request).atomically (l, w)).2
    s'.1 = placed l ∧
      s'.2.globalRequestQueue.queued = {request} + w.globalRequestQueue.queued ∧
      s'.2.postingRequestTasks = w.postingRequestTasks ∧ s'.2.Assigned request := by
  obtain ⟨placement, w₁, -, hreads, -, hqueue⟩ := utils.queueRequest_atomically placed request l w
  obtain ⟨hlocals, hrearranges⟩ := rearranges_atomically
    (utils.rebalanceCandidates_rearranges placement) (placed l,
      (noteChoice placement request w₁).push placement.primaryReplicaId request
        (placement.metrics placement.primaryReplicaId).prefixCacheHitLen)
  intro s'
  -- the assignment comes last
  have hend : s' = ((utils.rebalanceCandidates placement).atomically (placed l,
      (noteChoice placement request w₁).push placement.primaryReplicaId request
        (placement.metrics placement.primaryReplicaId).prefixCacheHitLen)).2.map id
        (fun w => w.assignReplicas request placement.primaryReplicaId
          placement.secondReplicaId) := by
    rw [show s' = ((utils.placeRequest placed request).atomically (l, w)).2 from rfl,
      placeRequest, Coro.atomically_bind, hqueue, Coro.atomically_bind, Coro.atomically_shared]
    rfl
  rw [hend]
  refine ⟨hlocals, ?_, ?_, placement.primaryReplicaId, ?_⟩
  · apply hrearranges.queued.trans
    simp [World.push, push_queued, noteChoice, hreads.globalRequestQueue]
  · exact hrearranges.postingRequestTasks.trans hreads.postingRequestTasks
  · simp [World.assignReplicas]

/-- The posting loop posts all of its requests, if they have replicas. -/
theorem postRequests_posts (requests : List Request) {s : Frame × World n κ}
    (hassigned : ∀ request ∈ requests, s.2.Assigned request) :
    let w' := ((requests.forM utils.postRequest).atomically s).2.2
    w'.globalRequestQueue = s.2.globalRequestQueue ∧
      ∃ tasks, w'.postingRequestTasks = s.2.postingRequestTasks ++ tasks ∧
        tasks.map Prod.snd = requests := by
  induction requests generalizing s with
  | nil => exact ⟨rfl, [], (List.append_nil _).symm, rfl⟩
  | cons request requests ih =>
    obtain ⟨r, hr⟩ := hassigned request List.mem_cons_self
    -- posting one request writes no assignment
    obtain ⟨hqueue, tasks, hposted, hreqs⟩ := ih (s := (s.1.release request,
        (noteCacheHitMax r request s.2).post r request)) (by
      intro other hother
      obtain ⟨r', hr'⟩ := hassigned other (List.mem_cons_of_mem _ hother)
      exact ⟨r', (noteCacheHitMax_primary r request s.2 other).trans hr'⟩)
    rw [Coro.atomically_forM_cons, utils.postRequest_atomically hr]
    refine ⟨hqueue, (r, request) :: tasks, ?_, by simp [hreqs]⟩
    rw [hposted]
    simp [World.post, noteCacheHitMax]

/-- A call queues or posts its argument, and loses nothing. -/
theorem schedule_conserves (newRequest : Option Request) (w : World n κ) :
    let w' := ((utils.schedule newRequest).atomically (Frame.enter newRequest, w)).2.2
    w'.globalRequestQueue.queued + (w'.postingRequestTasks.map Prod.snd : List Request) =
      w.globalRequestQueue.queued + (w.postingRequestTasks.map Prod.snd : List Request) +
        (newRequest.toList : Multiset Request) := by
  obtain ⟨hchain, harriving, hlist⟩ := (utils.schedule_moves newRequest).atomically w
  intro w'
  -- the call begins with its argument only and ends with nothing
  have hmoves := congrArg Prod.fst (Pool.moves_of_chain hchain)
  rw [Prod.fst_add, Prod.fst_add] at hmoves
  simp only [Frame.held, World.stored, harriving, hlist, Option.toList_none] at hmoves
  simpa [w', Frame.enter, add_comm] using hmoves

/-- After a call every queued request has a replica, and something waits at a replica only
when the call has posted something or the replica is busy. -/
theorem schedule_empties (hthreshold : 1 ≤ utils.dhReplicaPendingReqThreshold)
    {w : World n κ} (hassigned : ∀ request ∈ w.globalRequestQueue.queued, w.Assigned request)
    (newRequest : Option Request) :
    let w' := ((utils.schedule newRequest).atomically (Frame.enter newRequest, w)).2.2
    (∀ request ∈ w'.globalRequestQueue.queued, w'.Assigned request) ∧
      ∃ tasks, w'.postingRequestTasks = w.postingRequestTasks ++ tasks ∧
        ∀ r, w'.globalRequestQueue.queues r ≠ [] → tasks ≠ [] ∨ w.Busy r := by
  -- the placement, if there is one
  have hplace : ∃ l₁ w₁, ((utils.placeNew newRequest).atomically
        (Frame.enter newRequest, w)).2 = (l₁, w₁) ∧ l₁.schedulableWaitingReqList = [] ∧
      (∀ request ∈ w₁.globalRequestQueue.queued, w₁.Assigned request) ∧
      w₁.postingRequestTasks = w.postingRequestTasks ∧ w.Advances w₁ := by
    cases newRequest with
    | none => exact ⟨Frame.enter none, w, rfl, rfl, hassigned, rfl, .refl w⟩
    | some request =>
      obtain ⟨hlocals, hqueued, hposted, hnew⟩ :=
        utils.placeRequest_queued Frame.placed request (Frame.enter (some request)) w
      have hadvances := advances_atomically
        (utils.placeRequest_takes Frame.placed request) (Frame.enter (some request), w)
      refine ⟨_, _, rfl, ?_, ?_, hposted, hadvances⟩
      · exact congrArg Frame.schedulableWaitingReqList hlocals
      · intro other hother
        rcases Multiset.mem_add.mp (hqueued ▸ hother) with hsame | hold
        · rw [Multiset.mem_singleton.mp hsame]
          exact hnew
        · exact hadvances.assigned other (hassigned other hold)
  obtain ⟨l₁, w₁, hw₁, hlist, hassigned₁, hposted₁, hadvances₁⟩ := hplace
  -- the rebalancing of all replicas
  obtain ⟨hlocals₂, hrearranges⟩ := rearranges_atomically
    (Coro.Keeps.forM utils.rebalanceTurn_rearranges (List.finRange n)) (l₁, w₁)
  have hadvances₂ := advances_atomically
    (Coro.Takes.forM utils.rebalanceTurn_takes (List.finRange n)) (l₁, w₁)
  set s₂ := (((List.finRange n).forM utils.rebalanceTurn).atomically (l₁, w₁)).2 with hs₂
  have hstart : Emptying (fun _ => False) w s₂ := by
    refine ⟨?_, hrearranges.postingRequestTasks.trans hposted₁, ?_, fun _ h => h.elim⟩
    · intro request hrequest
      rw [hlocals₂, hlist, hrearranges.queued] at hrequest
      exact hadvances₂.assigned request
        (hassigned₁ request (hrequest.resolve_left List.not_mem_nil))
    · exact fun r hr => (World.busy_iff ((hadvances₁.trans hadvances₂).replicaBudgets r)).mp hr
  -- the pops, then the posting
  have hpops := utils.popTurns_emptying hthreshold (List.finRange n) hstart
  set s₃ := (((List.finRange n).forM utils.popTurn).atomically s₂).2 with hs₃
  obtain ⟨hqueue, tasks, hposted, hreqs⟩ := utils.postRequests_posts
    s₃.1.schedulableWaitingReqList (fun request h => hpops.assigned request (Or.inl h))
  have hadvances₄ := advances_atomically
    (Coro.Takes.forM utils.postRequest_takes s₃.1.schedulableWaitingReqList) s₃
  have hend : ((utils.schedule newRequest).atomically (Frame.enter newRequest, w)).2 =
      ((s₃.1.schedulableWaitingReqList.forM utils.postRequest).atomically s₃).2 := by
    simp only [schedule, getSchedulableWaitingReqList, Coro.atomically_bind,
      Coro.atomically_suspend, Coro.atomically_read, Coro.pure_def, Coro.atomically_ret, hw₁,
      ← hs₂, ← hs₃]
  intro w'
  rw [show w' = _ from congrArg Prod.snd hend, hqueue]
  refine ⟨?_, tasks, by rw [hposted, hpops.posted], ?_⟩
  · intro request hrequest
    exact hadvances₄.assigned request (hpops.assigned request (Or.inr hrequest))
  · intro r hr
    rcases hpops.emptied r (Or.inr (List.mem_finRange r)) hr with hlist | hbusy
    · left
      rintro rfl
      exact hlist hreqs.symm
    · exact Or.inr hbusy

end DoubleHashGlobalSchedulerUtils

/-! ## The serving system -/

/-- The world of the scheduler, what was submitted, and the tasks that posted requests.
`ended` are those that have returned or raised, and `completing` the calls of
`on_request_complete` still to run; `raisedSince` are the tasks that raised after the last
`schedule` call. -/
structure ServingState (n : ℕ) (κ : Type) where
  world : World n κ
  submitted : List Request := []
  ended : List (Fin n × Request) := []
  completing : List (Fin n × Request) := []
  raisedSince : List (Fin n × Request) := []

namespace ServingState

/-- The task was posted and has not ended. -/
def UnderWay (s : ServingState n κ) (task : Fin n × Request) : Prop :=
  task ∈ s.world.postingRequestTasks ∧ task ∉ s.ended

instance (s : ServingState n κ) (task : Fin n × Request) : Decidable (s.UnderWay task) :=
  inferInstanceAs (Decidable (_ ∧ _))

variable [LookupCache κ] (utils : DoubleHashGlobalSchedulerUtils n)

/-- A `schedule` call. -/
def schedule (newRequest : Option Request) (s : ServingState n κ) : ServingState n κ :=
  { s with
    world := ((utils.schedule newRequest).atomically (Frame.enter newRequest, s.world)).2.2
    submitted := s.submitted ++ newRequest.toList
    raisedSince := [] }

/-- A call on a replica. -/
def callReplica (encode : String → Except PyException (List ℕ)) (replicaId : Fin n)
    (call : ReplicaState.Call) (s : ServingState n κ) : ServingState n κ :=
  { s with world := onReplica encode replicaId call s.world }

/-- The task returns: its callback creates a call of `on_request_complete`. -/
def taskReturned (task : Fin n × Request) (s : ServingState n κ) : ServingState n κ :=
  { s with ended := s.ended ++ [task], completing := s.completing ++ [task] }

/-- The task raises, which is only logged. -/
def taskRaised (task : Fin n × Request) (s : ServingState n κ) : ServingState n κ :=
  { s with ended := s.ended ++ [task], raisedSince := s.raisedSince ++ [task] }

/-- `on_request_complete`, which calls the scheduler without a request. -/
def onRequestComplete (task : Fin n × Request) (s : ServingState n κ) : ServingState n κ :=
  schedule utils none { s with completing := s.completing.erase task }

/-- What happens in the serving system: an arrival, a call of a task on its replica, the
end of a task, or the completion of a request whose task returned. -/
inductive Step (encode : String → Except PyException (List ℕ)) :
    ServingState n κ → ServingState n κ → Prop where
  | arrive (s : ServingState n κ) (request : Request)
      (hnew : request.arrivedAt ∉ s.submitted.map Request.arrivedAt) :
      Step encode s (s.schedule utils (some request))
  | replica (s : ServingState n κ) (replicaId : Fin n) (request : Request)
      (call : ReplicaState.Call) (hunderWay : s.UnderWay (replicaId, request))
      (hcall : call.request = some request) :
      Step encode s (s.callReplica encode replicaId call)
  | taskReturns (s : ServingState n κ) (task : Fin n × Request) (hunderWay : s.UnderWay task) :
      Step encode s (s.taskReturned task)
  | taskRaises (s : ServingState n κ) (task : Fin n × Request) (hunderWay : s.UnderWay task) :
      Step encode s (s.taskRaised task)
  | complete (s : ServingState n κ) (task : Fin n × Request) (hmem : task ∈ s.completing) :
      Step encode s (s.onRequestComplete utils task)

/-- The accounts of the serving system: every request submitted is queued or posted, once,
and queued only with a replica; the budgets are balanced; and what is pending at a replica
was posted there. -/
structure Accounts (replicaSloBudget : ℤ) (s : ServingState n κ) : Prop where
  conserved : s.world.globalRequestQueue.queued +
    (s.world.postingRequestTasks.map Prod.snd : List Request) = (s.submitted : Multiset Request)
  arrivals : (s.submitted.map Request.arrivedAt).Nodup
  assigned : ∀ request ∈ s.world.globalRequestQueue.queued, s.world.Assigned request
  balanced : ∀ r, ReplicaState.Accounted replicaSloBudget ⟨s.world.replicaBudgets r, s.world.attrs⟩
  pending : ∀ r, ∀ request ∈ (s.world.replicaBudgets r).pendingRequests,
    (r, request) ∈ s.world.postingRequestTasks
  ended : ∀ task ∈ s.ended, task ∈ s.world.postingRequestTasks

/-- Some event is still to come that will pop for the replica, or that frees it. -/
def Attended (s : ServingState n κ) (r : Fin n) : Prop :=
  (s.world.replicaBudgets r).pendingRequests ≠ [] ∨ (∃ task, s.UnderWay task) ∨
    s.completing ≠ [] ∨ s.raisedSince ≠ []

/-- The invariant of the runs: a replica at which something waits is attended. -/
structure Served (replicaSloBudget : ℤ) (s : ServingState n κ) : Prop
    extends Accounts replicaSloBudget s where
  attended : ∀ r, s.world.globalRequestQueue.queues r ≠ [] → s.Attended r

variable {utils} {replicaSloBudget : ℤ}

omit [LookupCache κ] in
/-- No request was posted twice. -/
theorem Accounts.posted_nodup {s : ServingState n κ} (h : s.Accounts replicaSloBudget) :
    (s.world.postingRequestTasks.map Prod.snd).Nodup := by
  have hnodup : (s.submitted : Multiset Request).Nodup :=
    Multiset.coe_nodup.mpr (List.Nodup.of_map _ h.arrivals)
  rw [← h.conserved] at hnodup
  exact Multiset.coe_nodup.mp (Multiset.nodup_add.mp hnodup).2.1

omit [LookupCache κ] in
/-- A replica without pending requests has its whole budget. -/
theorem Accounts.pending_ne_nil {s : ServingState n κ} (h : s.Accounts replicaSloBudget)
    (hbudget : 0 < replicaSloBudget) {r : Fin n} (hbusy : s.world.Busy r) :
    (s.world.replicaBudgets r).pendingRequests ≠ [] := by
  rcases hbusy with hpending | hspent
  · exact hpending
  · intro hnone
    have hsum := (h.balanced r).balanced.sum
    simp only [Ledger.held, ReplicaState.ledger, hnone, List.map_nil, List.sum_nil,
      add_zero] at hsum
    omega

/-- After a `schedule` call the accounts are as they were, and every replica is attended. -/
theorem Accounts.schedule {s : ServingState n κ} (h : s.Accounts replicaSloBudget)
    (hthreshold : 1 ≤ utils.dhReplicaPendingReqThreshold) (hbudget : 0 < replicaSloBudget)
    {newRequest : Option Request}
    (hnew : ((s.submitted ++ newRequest.toList).map Request.arrivedAt).Nodup) :
    (s.schedule utils newRequest).Served replicaSloBudget := by
  obtain ⟨hassigned, tasks, hposted, hempties⟩ :=
    utils.schedule_empties hthreshold h.assigned newRequest
  have hadvances := advances_atomically (utils.schedule_takes newRequest)
    (Frame.enter newRequest, s.world)
  have hconserves := utils.schedule_conserves newRequest s.world
  -- the call writes no replica but for its budget, so the books of each are as before
  have hreplica (r : Fin n) := hadvances.replicaBudgets r
  have haccounts : (s.schedule utils newRequest).Accounts replicaSloBudget := by
    refine ⟨?_, hnew, hassigned, ?_, ?_, ?_⟩
    · rw [show Multiset.ofList (s.schedule utils newRequest).submitted =
        s.submitted + newRequest.toList from (Multiset.coe_add _ _).symm, ← h.conserved]
      exact hconserves
    · intro r
      obtain ⟨t, ht⟩ := hreplica r
      apply (h.balanced r).of_same
      · simp only [ReplicaState.ledger, ServingState.schedule, ht, hadvances.amount]
      · simp only [ServingState.schedule, ht]
      · simp only [ServingState.schedule, ht]
    · intro r request hrequest
      obtain ⟨t, ht⟩ := hreplica r
      simp only [ServingState.schedule, ht] at hrequest
      exact hadvances.posted.subset (h.pending r request hrequest)
    · exact fun task htask => hadvances.posted.subset (h.ended task htask)
  refine ⟨haccounts, ?_⟩
  intro r hr
  -- a replica with waiting requests got a task from this call, or was busy before
  rcases hempties r hr with hsome | hbusy
  · -- what this call has posted is under way
    obtain ⟨task, htask⟩ := List.exists_mem_of_ne_nil tasks hsome
    have hnodup := haccounts.posted_nodup
    simp only [ServingState.schedule, hposted, List.map_append] at hnodup
    refine Or.inr (Or.inl ⟨task, ?_, ?_⟩)
    · simp only [ServingState.schedule, hposted]
      exact List.mem_append_right _ htask
    · intro hended
      exact List.disjoint_of_nodup_append hnodup (List.mem_map_of_mem (h.ended task hended))
        (List.mem_map_of_mem htask)
  · left
    obtain ⟨t, ht⟩ := hreplica r
    simp only [ServingState.schedule, ht]
    exact h.pending_ne_nil hbudget hbusy

/-- A call of a task on its replica touches only the request of the task, which is pending
at no other replica. -/
theorem Accounts.replica {encode : String → Except PyException (List ℕ)} {s : ServingState n κ}
    (h : s.Accounts replicaSloBudget) {replicaId : Fin n} {request : Request}
    {call : ReplicaState.Call} (hunderWay : s.UnderWay (replicaId, request))
    (hcall : call.request = some request) :
    (s.callReplica encode replicaId call).Accounts replicaSloBudget := by
  have htouches := call.after_touches encode ⟨s.world.replicaBudgets replicaId, s.world.attrs⟩
  have hafter := call.after_accounted encode (h.balanced replicaId)
  rw [hcall] at htouches
  set s' := call.after encode ⟨s.world.replicaBudgets replicaId, s.world.attrs⟩ with hs'
  have hreplicas : (s.callReplica encode replicaId call).world.replicaBudgets =
      Function.update s.world.replicaBudgets replicaId s'.replica := rfl
  have hattrs : (s.callReplica encode replicaId call).world.attrs = s'.attrs := rfl
  refine ⟨h.conserved, h.arrivals, ?_, ?_, ?_, h.ended⟩
  · intro other hother
    obtain ⟨r, hr⟩ := h.assigned other hother
    exact ⟨r, (htouches.primary other).trans hr⟩
  · intro r
    simp only [hreplicas, hattrs]
    by_cases hsame : r = replicaId
    · rw [hsame, Function.update_self]
      exact hafter
    · rw [Function.update_of_ne hsame]
      -- a request pending at another replica was posted there, so it is another request
      apply (h.balanced r).of_attrs
      intro other hother
      apply congrArg RequestAttrs.actualNumPrefillTokens
      apply htouches.attrs other
      rintro hreq
      have hboth := List.inj_on_of_nodup_map h.posted_nodup hunderWay.1 (h.pending r other hother)
        (Option.some.inj hreq)
      exact hsame (congrArg Prod.fst hboth).symm
  · intro r other hother
    simp only [hreplicas] at hother
    by_cases hsame : r = replicaId
    · rw [hsame, Function.update_self] at hother
      rcases htouches.pending other hother with hold | hnew
      · exact hsame ▸ h.pending replicaId other hold
      · rw [hsame, ← Option.some.inj hnew]
        exact hunderWay.1
    · rw [Function.update_of_ne hsame] at hother
      exact h.pending r other hother

omit [LookupCache κ] in
/-- The end of a task. -/
theorem Accounts.taskEnds {s s' : ServingState n κ} (h : s.Accounts replicaSloBudget)
    {task : Fin n × Request} (hunderWay : s.UnderWay task) (hworld : s'.world = s.world)
    (hsubmitted : s'.submitted = s.submitted) (hended : s'.ended = s.ended ++ [task]) :
    s'.Accounts replicaSloBudget := by
  refine ⟨?_, ?_, ?_, ?_, ?_, ?_⟩
  · rw [hworld, hsubmitted]
    exact h.conserved
  · rw [hsubmitted]
    exact h.arrivals
  · rw [hworld]
    exact h.assigned
  · rw [hworld]
    exact h.balanced
  · rw [hworld]
    exact h.pending
  · intro other hother
    rw [hended] at hother
    rw [hworld]
    rcases List.mem_append.mp hother with hold | hnew
    · exact h.ended other hold
    · rw [List.mem_singleton.mp hnew]
      exact hunderWay.1

theorem Step.served {encode : String → Except PyException (List ℕ)} {s s' : ServingState n κ}
    (hthreshold : 1 ≤ utils.dhReplicaPendingReqThreshold) (hbudget : 0 < replicaSloBudget)
    (h : s.Served replicaSloBudget) (hstep : Step utils encode s s') :
    s'.Served replicaSloBudget := by
  cases hstep with
  | arrive request hnew =>
    apply h.toAccounts.schedule hthreshold hbudget
    rw [List.map_append]
    apply List.nodup_append.mpr
    refine ⟨h.arrivals, List.nodup_singleton _, ?_⟩
    intro a ha b hb hab
    rw [List.mem_singleton.mp hb] at hab
    exact hnew (hab ▸ ha)
  | replica replicaId request call hunderWay hcall =>
    -- whatever the call does, its task is under way
    exact ⟨h.toAccounts.replica hunderWay hcall,
      fun _ _ => Or.inr (Or.inl ⟨(replicaId, request), hunderWay⟩)⟩
  | taskReturns task hunderWay =>
    exact ⟨h.toAccounts.taskEnds hunderWay rfl rfl rfl,
      fun _ _ => Or.inr (Or.inr (Or.inl (List.append_ne_nil_of_right_ne_nil _ (by simp))))⟩
  | taskRaises task hunderWay =>
    exact ⟨h.toAccounts.taskEnds hunderWay rfl rfl rfl,
      fun _ _ => Or.inr (Or.inr (Or.inr (List.append_ne_nil_of_right_ne_nil _ (by simp))))⟩
  | complete task hmem =>
    have haccounts : Accounts replicaSloBudget
        { s with completing := s.completing.erase task } :=
      ⟨h.conserved, h.arrivals, h.assigned, h.balanced, h.pending, h.ended⟩
    apply haccounts.schedule hthreshold hbudget
    simpa using h.arrivals

/-- The serving system before the first arrival, with new replicas. -/
def start (replicaSloBudget : ℤ) (blockSize : ℕ) (cache : Fin n → κ)
    (attrs : Request → RequestAttrs) : ServingState n κ where
  world := .init (fun r => Replica.init replicaSloBudget blockSize (cache r)) attrs

omit [LookupCache κ] in
theorem start_served (replicaSloBudget : ℤ) (blockSize : ℕ) (cache : Fin n → κ)
    (attrs : Request → RequestAttrs) :
    (start replicaSloBudget blockSize cache attrs).Served replicaSloBudget where
  conserved := by simp [start, World.init]
  arrivals := List.nodup_nil
  assigned := by simp [start, World.init]
  balanced := fun r => ReplicaState.init_accounted replicaSloBudget blockSize (cache r) attrs
  pending := fun _ _ h => absurd h List.not_mem_nil
  ended := fun _ h => absurd h List.not_mem_nil
  attended := fun _ h => absurd rfl h

theorem run_served {encode : String → Except PyException (List ℕ)} {s s' : ServingState n κ}
    (hthreshold : 1 ≤ utils.dhReplicaPendingReqThreshold) (hbudget : 0 < replicaSloBudget)
    (h : s.Served replicaSloBudget)
    (hrun : Relation.ReflTransGen (Step utils encode) s s') : s'.Served replicaSloBudget := by
  induction hrun with
  | refl => exact h
  | tail _ hstep ih => exact hstep.served hthreshold hbudget ih

/-- When no posted request is under way, no completion is still to run, and no task has
raised since the last call, nothing waits at a replica without pending requests. So when no
replica has any, all requests submitted were posted, each once. Replicas have a positive
budget and may have at least one pending request; the arrivals of a run have different
times. -/
theorem at_rest_all_posted (utils : DoubleHashGlobalSchedulerUtils n)
    (encode : String → Except PyException (List ℕ))
    (hthreshold : 1 ≤ utils.dhReplicaPendingReqThreshold) {replicaSloBudget : ℤ}
    (hbudget : 0 < replicaSloBudget) (blockSize : ℕ) (cache : Fin n → κ)
    (attrs : Request → RequestAttrs) {s : ServingState n κ}
    (hrun : Relation.ReflTransGen (Step utils encode)
      (start replicaSloBudget blockSize cache attrs) s)
    (hended : ∀ task ∈ s.world.postingRequestTasks, task ∈ s.ended)
    (hcompleted : s.completing = []) (hraised : s.raisedSince = []) :
    (∀ r, (s.world.replicaBudgets r).pendingRequests = [] →
        s.world.globalRequestQueue.queues r = []) ∧
      ((∀ r, (s.world.replicaBudgets r).pendingRequests = []) →
        (s.world.postingRequestTasks.map Prod.snd).Perm s.submitted) := by
  have hserved := run_served hthreshold hbudget
    (start_served replicaSloBudget blockSize cache attrs) hrun
  have hempty : ∀ r, (s.world.replicaBudgets r).pendingRequests = [] →
      s.world.globalRequestQueue.queues r = [] := by
    intro r hidle
    by_contra hwaiting
    rcases hserved.attended r hwaiting with hpending | ⟨task, htask⟩ | hcompleting | hraising
    · exact hpending hidle
    · exact htask.2 (hended task htask.1)
    · exact hcompleting hcompleted
    · exact hraising hraised
  refine ⟨hempty, fun hidle => ?_⟩
  have hqueued : s.world.globalRequestQueue.queued = 0 := by
    apply Finset.sum_eq_zero
    intro r _
    rw [queuedAt, hempty r (hidle r)]
    rfl
  have hconserved := hserved.conserved
  rw [hqueued, zero_add] at hconserved
  exact Multiset.coe_eq_coe.mp hconserved

/-! ## An instance: a request that waits for another one -/

/-- Three new replicas. -/
def newReplicas : ServingState 3 SmallStore :=
  start 200 1 (fun _ => PrefixKvCacheStore.init _ PrefixKVCacheMgr.singleBlockEngine)
    (fun request => { actualNumPrefillTokens := request.numPrefillTokens })

/-- The replica that both requests go to. -/
def firstReplica : Fin 3 := ⟨0, by decide⟩

/-- The headers of the answer to a first request have arrived. -/
def firstAdmitted : ServingState 3 SmallStore :=
  (newReplicas.schedule tightUtils (some (oneTokenRequest 1))).callReplica
    ReplicaState.silentTokenizer firstReplica (.addRequest (some (oneTokenRequest 1)) 0)

/-- A second request has to wait. -/
def secondWaits : ServingState 3 SmallStore :=
  firstAdmitted.schedule tightUtils (some (oneTokenRequest 2))

/-- The first request is aborted. -/
def firstAborted : ServingState 3 SmallStore :=
  secondWaits.callReplica ReplicaState.silentTokenizer firstReplica
    (.abortRequest (some (oneTokenRequest 1)))

/-- The first request has ended. -/
def firstReturned : ServingState 3 SmallStore :=
  firstAborted.taskReturned (firstReplica, oneTokenRequest 1)

/-- The second request was posted then, and it has ended too. -/
def secondReturned : ServingState 3 SmallStore :=
  (firstReturned.onRequestComplete tightUtils (firstReplica, oneTokenRequest 1)).taskReturned
    (firstReplica, oneTokenRequest 2)

def bothCompleted : ServingState 3 SmallStore :=
  secondReturned.onRequestComplete tightUtils (firstReplica, oneTokenRequest 2)

theorem bothCompleted_reached : Relation.ReflTransGen
    (Step tightUtils ReplicaState.silentTokenizer) newReplicas bothCompleted := by
  have hfirst : Relation.ReflTransGen (Step tightUtils ReplicaState.silentTokenizer)
      newReplicas firstAdmitted :=
    (Relation.ReflTransGen.single (.arrive newReplicas (oneTokenRequest 1) (by decide))).tail
      (.replica _ firstReplica (oneTokenRequest 1) (.addRequest (some (oneTokenRequest 1)) 0)
        (by decide +kernel) rfl)
  have hsecond := hfirst.tail (.arrive firstAdmitted (oneTokenRequest 2) (by decide +kernel))
  have haborted := hsecond.tail (.replica secondWaits firstReplica (oneTokenRequest 1)
    (.abortRequest (some (oneTokenRequest 1))) (by decide +kernel) rfl)
  have hreturned := haborted.tail
    (.taskReturns firstAborted (firstReplica, oneTokenRequest 1) (by decide +kernel))
  have hcompleted := hreturned.tail
    (.complete firstReturned (firstReplica, oneTokenRequest 1) (by decide +kernel))
  have hrefused := hcompleted.tail
    (.taskReturns _ (firstReplica, oneTokenRequest 2) (by decide +kernel))
  exact hrefused.tail
    (.complete secondReturned (firstReplica, oneTokenRequest 2) (by decide +kernel))

/-- The second request waited, and was posted when the first one had ended. -/
theorem at_rest_all_posted_second_waits :
    secondWaits.world.postingRequestTasks.map Prod.snd = [oneTokenRequest 1] ∧
      (bothCompleted.world.postingRequestTasks.map Prod.snd).Perm
        [oneTokenRequest 1, oneTokenRequest 2] := by
  refine ⟨by decide +kernel, ?_⟩
  have hposted := (at_rest_all_posted tightUtils ReplicaState.silentTokenizer (le_refl 1)
    (by decide) 1 _ _ bothCompleted_reached (by decide +kernel) (by decide +kernel)
    (by decide +kernel)).2 (by decide +kernel)
  have hsubmitted : bothCompleted.submitted = [oneTokenRequest 1, oneTokenRequest 2] := by
    decide +kernel
  rwa [hsubmitted] at hposted

end ServingState

end DualMap.Scheduler
