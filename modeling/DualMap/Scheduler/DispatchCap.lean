import DualMap.Entities.ReplicaAccounting
import DualMap.Scheduler.Rearrangement

/-!
# The Cap on Dispatched Requests

A batch pop for a replica is limited to what `dh_replica_pending_req_threshold` leaves
beside `pending_requests`. A request enters that list only when its response headers
arrive, so between its posting and that moment it is not counted, and the next call pops
again. The cap holds in every run in which, whenever requests of a replica are popped, the
ones popped before and still live are all counted.
-/

namespace DualMap.Scheduler

open Cache GlobalRequestQueue

variable {n : ℕ} {κ : Type}

/-! ## Live requests -/

/-- The requests popped from the queue of a replica that have not ended. -/
def live (w : World n κ) (ended : List Request) (r : Fin n) : Finset Request :=
  ((w.dispatched.filter (fun d => d.1 = r ∧ d.2 ∉ ended)).map Prod.snd).toFinset

theorem mem_live {w : World n κ} {ended : List Request} {r : Fin n} {request : Request} :
    request ∈ live w ended r ↔ (r, request) ∈ w.dispatched ∧ request ∉ ended := by
  simp only [live, List.mem_toFinset, List.mem_map, List.mem_filter, decide_eq_true_eq]
  constructor
  · rintro ⟨⟨r', request'⟩, ⟨hmem, rfl, hended⟩, rfl⟩
    exact ⟨hmem, hended⟩
  · rintro ⟨hmem, hended⟩
    exact ⟨(r, request), ⟨hmem, rfl, hended⟩, rfl⟩

theorem live_congr {w w' : World n κ} (h : w'.dispatched = w.dispatched)
    (ended : List Request) (r : Fin n) : live w' ended r = live w ended r := by
  rw [live, live, h]

theorem mem_live_dispatch {w : World n κ} {ended : List Request} {rid r : Fin n}
    {schedulable : List Request} {queue : GlobalRequestQueue n} {request : Request} :
    request ∈ live (w.dispatch rid schedulable queue) ended r ↔
      request ∈ live w ended r ∨ r = rid ∧ request ∈ schedulable ∧ request ∉ ended := by
  simp only [mem_live, World.dispatch, List.mem_append, List.mem_map, Prod.mk.injEq]
  constructor
  · rintro ⟨hold | ⟨request', hmem, rfl, rfl⟩, hnot⟩
    · exact Or.inl ⟨hold, hnot⟩
    · exact Or.inr ⟨rfl, hmem, hnot⟩
  · rintro (⟨hold, hnot⟩ | ⟨rfl, hmem, hnot⟩)
    · exact ⟨Or.inl hold, hnot⟩
    · exact ⟨Or.inr ⟨request, hmem, rfl, rfl⟩, hnot⟩

/-- A batch pop for one replica makes no request of another one live. -/
theorem live_dispatch_of_ne {w : World n κ} {ended : List Request} {rid r : Fin n}
    (hr : r ≠ rid) {schedulable : List Request} {queue : GlobalRequestQueue n} :
    live (w.dispatch rid schedulable queue) ended r = live w ended r := by
  ext request
  rw [mem_live_dispatch]
  exact or_iff_left (fun h => hr h.1)

/-- When the live requests are in a list, a batch adds at most its length to them. -/
theorem live_dispatch_card {w : World n κ} {ended : List Request} {rid : Fin n}
    {counted : List Request} (hcounted : ∀ request ∈ live w ended rid, request ∈ counted)
    (schedulable : List Request) (queue : GlobalRequestQueue n) :
    (live (w.dispatch rid schedulable queue) ended rid).card ≤
      counted.length + schedulable.length := by
  -- live before or popped now
  have hsub : live (w.dispatch rid schedulable queue) ended rid ⊆
      (counted ++ schedulable).toFinset := by
    intro request hrequest
    apply List.mem_toFinset.mpr
    rcases mem_live_dispatch.mp hrequest with hold | ⟨-, hmem, -⟩
    · exact List.mem_append_left _ (hcounted request hold)
    · exact List.mem_append_right _ hmem
  calc (live (w.dispatch rid schedulable queue) ended rid).card
      ≤ (counted ++ schedulable).toFinset.card := Finset.card_le_card hsub
    _ ≤ (counted ++ schedulable).length := List.toFinset_card_le _
    _ = counted.length + schedulable.length := List.length_append

/-- No replica has more live requests than the threshold. -/
def Capped (threshold : ℤ) (w : World n κ) (ended : List Request) : Prop :=
  ∀ r, ((live w ended r).card : ℤ) ≤ threshold

theorem Capped.congr {threshold : ℤ} {w w' : World n κ} {ended : List Request}
    (h : Capped threshold w ended) (hsame : w'.dispatched = w.dispatched) :
    Capped threshold w' ended := by
  intro r
  rw [live_congr hsame]
  exact h r

/-- Requests that end are live no more. -/
theorem Capped.mono {threshold : ℤ} {w : World n κ} {ended ended' : List Request}
    (h : Capped threshold w ended) (hmore : ended ⊆ ended') : Capped threshold w ended' := by
  intro r
  have hsub : live w ended' r ⊆ live w ended r := by
    intro request hrequest
    obtain ⟨hmem, hnot⟩ := mem_live.mp hrequest
    exact mem_live.mpr ⟨hmem, fun hended => hnot (hmore hended)⟩
  calc ((live w ended' r).card : ℤ) ≤ (live w ended r).card := by
        exact_mod_cast Finset.card_le_card hsub
    _ ≤ threshold := h r

namespace DoubleHashGlobalSchedulerUtils

variable (utils : DoubleHashGlobalSchedulerUtils n)

/-! ## One batch pop -/

/-- The next batch pop for a replica, if it pops, counts all its live requests. -/
def PopCounts (ended : List Request) (rid : Fin n) (w : World n κ) : Prop :=
  let (states, w) := utils.getLoadStates rid w
  let (now, w) := utils.readClock w
  utils.Dispatchable states (utils.round 4 (utils.fl (now - states.lastPrefillCompletedAt)))
      (w.globalRequestQueue.queues rid) →
    (states.numPendingRequests : ℤ) < utils.dhReplicaPendingReqThreshold →
    ∀ request ∈ live w ended rid, request ∈ (w.replicaBudgets rid).pendingRequests

theorem getLoadStates_numPending (rid : Fin n) (w : World n κ) :
    (utils.getLoadStates rid w).1.numPendingRequests =
      ((utils.getLoadStates rid w).2.replicaBudgets rid).pendingRequests.length := by
  have hreplica : (utils.getLoadStates rid w).2.replicaBudgets rid =
      ((w.replicaBudgets rid).getLoadStates (utils.perfCounter w.ticks)
        (utils.perfCounter (w.ticks + 1))).2 :=
    Function.update_self ..
  rw [hreplica]
  rfl

/-- A batch pop leaves the cap intact when the live requests are counted. -/
theorem popWaiting_capped {ended : List Request} {rid : Fin n} {states : LoadStates}
    {prefillInterval : ℚ} {l : Frame} {w : World n κ}
    (hcapped : Capped utils.dhReplicaPendingReqThreshold w ended)
    (hpending : states.numPendingRequests = (w.replicaBudgets rid).pendingRequests.length)
    (hcounted : utils.Dispatchable states prefillInterval (w.globalRequestQueue.queues rid) →
      (states.numPendingRequests : ℤ) < utils.dhReplicaPendingReqThreshold →
      ∀ request ∈ live w ended rid, request ∈ (w.replicaBudgets rid).pendingRequests) :
    Capped utils.dhReplicaPendingReqThreshold
      (utils.popWaiting rid states prefillInterval (l, w)).2 ended := by
  simp only [popWaiting]
  split
  · next hdispatchable =>
    have hlength := popSchedulable_length w.globalRequestQueue rid states.currentBudget
      (utils.dhReplicaPendingReqThreshold - states.numPendingRequests)
    generalize w.globalRequestQueue.popSchedulable rid states.currentBudget
      (some (utils.dhReplicaPendingReqThreshold - states.numPendingRequests)) = popped at hlength ⊢
    intro r
    show ((live (w.dispatch rid popped.1 popped.2) ended r).card : ℤ) ≤ _
    by_cases hr : r = rid
    · by_cases hroom : (states.numPendingRequests : ℤ) < utils.dhReplicaPendingReqThreshold
      · -- the live requests are pending, and the batch fits beside them
        have hcard : (live (w.dispatch rid popped.1 popped.2) ended rid).card ≤
            (w.replicaBudgets rid).pendingRequests.length + popped.1.length :=
          live_dispatch_card (hcounted hdispatchable hroom) popped.1 popped.2
        rw [hr]
        rw [← hpending] at hcard
        rw [max_eq_right (by omega)] at hlength
        omega
      · -- no room is left: nothing was popped
        rw [max_eq_left (by omega)] at hlength
        have hnone : popped.1 = [] := List.length_eq_zero_iff.mp (by omega)
        exact hcapped.congr (by simp [World.dispatch, hnone]) r
    · rw [live_dispatch_of_ne hr]
      exact hcapped r
  · exact hcapped

/-! ## A whole call -/

/-- `PopCounts` at each batch pop of a call, which pops for these replicas in turn. -/
def PopsCount (ended : List Request) : List (Fin n) → Frame × World n κ → Prop
  | [], _ => True
  | rid :: rids, s => utils.PopCounts ended rid s.2 ∧
      PopsCount ended rids ((utils.popTurn rid).atomically s).2

instance (ended : List Request) (rid : Fin n) (w : World n κ) :
    Decidable (utils.PopCounts ended rid w) := by
  unfold PopCounts
  infer_instance

instance instDecidablePopsCount (ended : List Request) :
    ∀ (rids : List (Fin n)) (s : Frame × World n κ), Decidable (utils.PopsCount ended rids s)
  | [], _ => isTrue trivial
  | _ :: rids, _ =>
    have := instDecidablePopsCount ended rids
    inferInstanceAs (Decidable (_ ∧ _))

theorem popTurn_capped {ended : List Request} {rid : Fin n} {s : Frame × World n κ}
    (hcapped : Capped utils.dhReplicaPendingReqThreshold s.2 ended)
    (hcounts : utils.PopCounts ended rid s.2) :
    Capped utils.dhReplicaPendingReqThreshold ((utils.popTurn rid).atomically s).2.2 ended := by
  have hreads := utils.getLoadStates_reads rid s.2
  have hclock := utils.readClock_reads (utils.getLoadStates rid s.2).2
  -- the readings before the pop change neither the record nor the pending requests
  apply utils.popWaiting_capped
  · exact hcapped.congr (hclock.dispatched.trans hreads.dispatched)
  · rw [utils.getLoadStates_numPending, hclock.pendingRequests]
  · exact hcounts

theorem popTurns_capped {ended : List Request} (rids : List (Fin n)) {s : Frame × World n κ}
    (hcapped : Capped utils.dhReplicaPendingReqThreshold s.2 ended)
    (hcounts : utils.PopsCount ended rids s) :
    Capped utils.dhReplicaPendingReqThreshold
      ((rids.forM utils.popTurn).atomically s).2.2 ended := by
  induction rids generalizing s with
  | nil => exact hcapped
  | cons rid rids ih =>
    rw [Coro.atomically_forM_cons]
    exact ih (utils.popTurn_capped hcapped hcounts.1) hcounts.2

variable [LookupCache κ]

/-- A `schedule` call up to its batch pops. -/
def untilPops (newRequest : Option Request) : Coro (Frame × World n κ) Unit := do
  utils.placeNew newRequest
  Coro.suspend
  (List.finRange n).forM utils.rebalanceTurn

/-- At each batch pop of the call, all live requests of the replica are counted. -/
def ScheduleCounts (ended : List Request) (newRequest : Option Request) (w : World n κ) :
    Prop :=
  utils.PopsCount ended (List.finRange n)
    ((utils.untilPops newRequest).atomically (Frame.enter newRequest, w)).2

instance (ended : List Request) (newRequest : Option Request) (w : World n κ) :
    Decidable (utils.ScheduleCounts ended newRequest w) :=
  utils.instDecidablePopsCount _ _ _

/-- The record of the pops is untouched. -/
def SameDispatched (x y : Frame × World n κ) : Prop := y.2.dispatched = x.2.dispatched

omit [LookupCache κ] in
theorem sameDispatched_of_rearranges : AllowsRearranging (SameDispatched (n := n) (κ := κ)) :=
  fun _ _ _ h => h.dispatched

omit [LookupCache κ] in
theorem sameDispatched_of_chain {x y : Frame × World n κ}
    (h : Relation.ReflTransGen SameDispatched x y) : SameDispatched x y := by
  induction h with
  | refl => rfl
  | tail _ hstep ih => exact Eq.trans hstep ih

theorem untilPops_sameDispatched (newRequest : Option Request) (l : Frame) :
    (utils.untilPops newRequest).Guarantees (SameDispatched (κ := κ)) (fun _ _ => True) l := by
  have hplace : (utils.placeNew newRequest).Guarantees (SameDispatched (κ := κ))
      (fun _ _ => True) l := by
    cases newRequest with
    | none => exact Coro.Guarantees.ret trivial
    | some request =>
      apply sameDispatched_of_rearranges.bind Coro.Keeps.suspend
      intro _
      exact (utils.placeRequest_guarantees sameDispatched_of_rearranges
        (fun _ _ _ => rfl)).weaken (fun _ _ _ => trivial)
  apply hplace.bind
  intro _ l' _
  apply sameDispatched_of_rearranges.bind Coro.Keeps.suspend
  intro _
  exact (utils.rebalanceTurns_guarantees sameDispatched_of_rearranges l').weaken
    (fun _ _ _ => trivial)

theorem postRequests_sameDispatched (requests : List Request) (l : Frame) :
    (requests.forM utils.postRequest).Guarantees (SameDispatched (κ := κ))
      (fun _ _ => True) l := by
  apply Coro.Guarantees.forM (I := fun _ => True) _ _ trivial
  intro request l' _
  exact (utils.postRequest_guarantees sameDispatched_of_rearranges (fun _ _ => rfl)
    (fun _ _ _ => rfl)).weaken (fun _ _ _ => trivial)

/-- A call leaves the cap intact when its pops count all live requests. -/
theorem schedule_capped {ended : List Request} {newRequest : Option Request} {w : World n κ}
    (hcapped : Capped utils.dhReplicaPendingReqThreshold w ended)
    (hcounts : utils.ScheduleCounts ended newRequest w) :
    Capped utils.dhReplicaPendingReqThreshold
      ((utils.schedule newRequest).atomically (Frame.enter newRequest, w)).2.2 ended := by
  obtain ⟨hsteps, -⟩ := (utils.untilPops_sameDispatched newRequest
    (Frame.enter newRequest)).atomically w
  have hbefore := hcapped.congr (sameDispatched_of_chain hsteps)
  have hpopped := utils.popTurns_capped (List.finRange n) hbefore hcounts
  -- the call is its part up to the pops, the pops, and the posting
  have hsplit : (utils.schedule newRequest).atomically (Frame.enter newRequest, w) =
      (do
        utils.untilPops newRequest
        (List.finRange n).forM utils.popTurn
        let requests ← Coro.read (fun s => s.1.schedulableWaitingReqList)
        requests.forM utils.postRequest
        return -1).atomically (Frame.enter newRequest, w) := by
    simp [schedule, getSchedulableWaitingReqList, untilPops]
  rw [hsplit]
  simp only [Coro.atomically_bind, Coro.atomically_read, Coro.pure_def, Coro.atomically_ret]
  -- posting pops nothing
  have hpost (requests : List Request) (s : Frame × World n κ) :
      SameDispatched s ((requests.forM utils.postRequest).atomically s).2 :=
    sameDispatched_of_chain ((utils.postRequests_sameDispatched requests s.1).atomically s.2).1
  exact hpopped.congr (hpost _ _)

/-! ## Runs -/

/-- A call of `schedule`, or an event of a posted request at a replica: the arrival of its
response headers (`add_request`), its first token, its end or its failure. -/
inductive Event (n : ℕ) where
  | schedule (newRequest : Option Request)
  | replica (replicaId : Fin n) (call : ReplicaState.Call)

/-- The request that completes its prefill or fails in a call. -/
def endedBy : ReplicaState.Call → Option Request
  | .completeRequestPrefill request _ _ => request
  | .abortRequest request => request
  | .addRequest _ _ => none
  | .completeRequestDecode _ _ => none

/-- The world, and the requests that have completed their prefill or failed. -/
structure DispatchState (n : ℕ) (κ : Type) where
  world : World n κ
  ended : List Request

/-- A call on a replica of the world. -/
def onReplica (encode : String → Except PyException (List ℕ)) (replicaId : Fin n)
    (call : ReplicaState.Call) (w : World n κ) : World n κ :=
  let s := call.after encode ⟨w.replicaBudgets replicaId, w.attrs⟩
  { w with
    replicaBudgets := Function.update w.replicaBudgets replicaId s.replica
    attrs := s.attrs }

variable (encode : String → Except PyException (List ℕ))

/-- The state after an event. -/
def Event.after (s : DispatchState n κ) : Event n → DispatchState n κ
  | .schedule newRequest =>
    { s with
      world := ((utils.schedule newRequest).atomically (Frame.enter newRequest, s.world)).2.2 }
  | .replica replicaId call =>
    { world := onReplica encode replicaId call s.world
      ended := s.ended ++ (endedBy call).toList }

/-- The state after a sequence of events. -/
def runEvents (s : DispatchState n κ) (events : List (Event n)) : DispatchState n κ :=
  events.foldl (Event.after utils encode) s

/-- At each batch pop of the run, all live requests of the replica are counted. -/
def EventsCount (s : DispatchState n κ) : List (Event n) → Prop
  | [] => True
  | .schedule newRequest :: events => utils.ScheduleCounts s.ended newRequest s.world ∧
      EventsCount (Event.after utils encode s (.schedule newRequest)) events
  | .replica replicaId call :: events =>
    EventsCount (Event.after utils encode s (.replica replicaId call)) events

theorem runEvents_capped (events : List (Event n)) {s : DispatchState n κ}
    (hcapped : Capped utils.dhReplicaPendingReqThreshold s.world s.ended)
    (hcounts : utils.EventsCount encode s events) :
    Capped utils.dhReplicaPendingReqThreshold (utils.runEvents encode s events).world
      (utils.runEvents encode s events).ended := by
  induction events generalizing s with
  | nil => exact hcapped
  | cons event events ih =>
    cases event with
    | schedule newRequest => exact ih (utils.schedule_capped hcapped hcounts.1) hcounts.2
    | replica replicaId call =>
      -- an event at a replica pops nothing, and at most ends a request
      have hworld : Capped utils.dhReplicaPendingReqThreshold
          (onReplica encode replicaId call s.world) s.ended := hcapped.congr rfl
      exact ih (hworld.mono (List.subset_append_left _ _)) hcounts

/-- When every batch pop counts the live requests of its replica, no replica ever has more
of them than the threshold. -/
theorem dispatch_capped (hthreshold : 1 ≤ utils.dhReplicaPendingReqThreshold)
    (replicaBudgets : Fin n → Replica κ) (attrs : Request → RequestAttrs)
    (events : List (Event n))
    (hcounts : utils.EventsCount encode ⟨.init replicaBudgets attrs, []⟩ events) (r : Fin n) :
    let s := utils.runEvents encode ⟨.init replicaBudgets attrs, []⟩ events
    ((live s.world s.ended r).card : ℤ) ≤ utils.dhReplicaPendingReqThreshold := by
  apply utils.runEvents_capped encode events _ hcounts
  intro r
  -- nothing has been popped at the beginning
  have hnone : live (World.init replicaBudgets attrs) [] r = ∅ := rfl
  rw [hnone, Finset.card_empty, Nat.cast_zero]
  exact le_trans zero_le_one hthreshold

/-- The headers of the first request arrive before the second call: it pops nothing. -/
theorem dispatch_capped_acknowledged :
    let s := tightUtils.runEvents ReplicaState.silentTokenizer ⟨tightWorld, []⟩
      [.schedule (some (oneTokenRequest 1)),
        .replica 0 (.addRequest (some (oneTokenRequest 1)) 0),
        .schedule (some (oneTokenRequest 2))]
    ((live s.world s.ended 0).card : ℤ) ≤ 1 := by
  apply tightUtils.dispatch_capped ReplicaState.silentTokenizer (le_refl 1)
  refine ⟨?_, ?_, trivial⟩
  · decide +kernel
  · decide +kernel

/-- Two arrivals before the first response: both requests are popped for the first replica,
although its threshold is one. -/
theorem dispatch_cap_exceeded :
    let s := tightUtils.runEvents ReplicaState.silentTokenizer ⟨tightWorld, []⟩
      [.schedule (some (oneTokenRequest 1)), .schedule (some (oneTokenRequest 2))]
    ¬ ((live s.world s.ended 0).card : ℤ) ≤ tightUtils.dhReplicaPendingReqThreshold := by
  decide +kernel

end DoubleHashGlobalSchedulerUtils

end DualMap.Scheduler
