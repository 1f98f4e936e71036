import DualMap.Scheduler.Rearrangement

/-!
# No Request is Lost or Duplicated

Any number of `schedule` calls run interleaved at their suspension points, while the
replicas change under them. Every operation of such a call only moves requests: from the
argument of the call into a queue, between queues, from a queue into the list of the call,
and from there to the posted requests or back into a queue. The total of what the calls
hold and what the world stores is therefore what was submitted.
-/

namespace DualMap.Scheduler

open Cache GlobalRequestQueue

variable {n : ℕ} {κ α β : Type}

/-! ## What a call holds and what the world stores -/

/-- The requests that a call holds, with its argument beside them. -/
def Frame.held (frame : Frame) : Multiset Request × Multiset Request :=
  (frame.arriving.toList + frame.schedulableWaitingReqList, frame.newRequest.toList)

/-- The requests queued or posted. -/
def World.stored (w : World n κ) : Multiset Request × Multiset Request :=
  (w.globalRequestQueue.queued + w.postingRequestTasks.map Prod.snd, 0)

/-- Moving requests between the locals of a call and the world. -/
abbrev MovesRequests : Frame × World n κ → Frame × World n κ → Prop :=
  Pool.Moves Frame.held World.stored

theorem World.Rearranges.stored {w w' : World n κ} (h : w.Rearranges w') :
    w'.stored = w.stored := by
  rw [World.stored, World.stored, h.queued, h.postingRequestTasks]

/-- Rearranging moves nothing in or out. -/
theorem moves_of_rearranges :
    DoubleHashGlobalSchedulerUtils.AllowsRearranging (MovesRequests (n := n) (κ := κ)) := by
  intro l w w' h
  simp only [MovesRequests, Pool.Moves, h.stored]

/-- The locals give up one request. -/
def Frame.GivesUp (request : Request) (frame frame' : Frame) : Prop :=
  frame.held = frame'.held + ({request}, 0)

theorem Frame.placed_givesUp (request : Request) :
    (Frame.enter (some request)).GivesUp request (Frame.enter (some request)).placed := by
  simp [GivesUp, held, enter, placed]

theorem Frame.release_givesUp {request : Request} {frame : Frame}
    (hmem : request ∈ frame.schedulableWaitingReqList) :
    frame.GivesUp request (frame.release request) := by
  have hperm : (frame.schedulableWaitingReqList : Multiset Request) =
      frame.schedulableWaitingReqList.erase request + {request} := by
    rw [add_comm]
    exact Multiset.coe_eq_coe.mpr (List.perm_cons_erase hmem)
  apply Prod.ext
  · show (frame.arriving.toList : Multiset Request) + frame.schedulableWaitingReqList =
      frame.arriving.toList + frame.schedulableWaitingReqList.erase request + {request}
    rw [hperm, add_assoc]
  · exact (add_zero _).symm

/-- What the locals give up is stored. -/
theorem moves_of_givesUp {request : Request} {l l' : Frame} {w w' : World n κ}
    (hgives : l.GivesUp request l') (hstored : w'.stored = w.stored + ({request}, 0)) :
    MovesRequests (l, w) (l', w') := by
  have hheld : l.held = l'.held + ({request}, 0) := hgives
  simp only [MovesRequests, Pool.Moves, hheld, hstored]
  abel

namespace DoubleHashGlobalSchedulerUtils

variable [LookupCache κ] (utils : DoubleHashGlobalSchedulerUtils n)

/-! ## What the parts of a call move -/

omit [LookupCache κ] in
theorem push_moves {request : Request} {l l' : Frame} (hgives : l.GivesUp request l')
    (replicaId : Fin n) (hit : ℤ) (w : World n κ) :
    MovesRequests (l, w) (l', w.push replicaId request hit) := by
  apply moves_of_givesUp hgives
  simp [World.stored, World.push, push_queued, add_comm]

omit [LookupCache κ] in
theorem post_moves {request : Request} {l l' : Frame} (hgives : l.GivesUp request l')
    (replicaId : Fin n) (w : World n κ) :
    MovesRequests (l, w) (l', w.post replicaId request) := by
  apply moves_of_givesUp hgives
  simp [World.stored, World.post, ← Multiset.coe_add, add_assoc]

omit [LookupCache κ] in
/-- Popping moves requests from a queue into the list of the call. -/
theorem popWaiting_moves (rid : Fin n) (states : LoadStates) (prefillInterval : ℚ)
    (l : Frame) (w : World n κ) (hl : l.arriving = none) :
    MovesRequests (l, w) (utils.popWaiting rid states prefillInterval (l, w)) ∧
      (utils.popWaiting rid states prefillInterval (l, w)).1.arriving = none := by
  simp only [popWaiting]
  split
  -- what leaves the queue is what the batch pop returns
  · have hqueued := popSchedulable_queued w.globalRequestQueue rid states.currentBudget
      (some (utils.dhReplicaPendingReqThreshold - states.numPendingRequests))
    refine ⟨?_, hl⟩
    simp only [MovesRequests, Pool.Moves, Frame.held, World.stored, hqueued, ← Multiset.coe_add,
      Prod.mk_add_mk]
    congr 1
    abel
  · exact ⟨rfl, hl⟩

/-- `get_schedulable_waiting_req_list` returns the list of the call. -/
theorem getSchedulable_moves {l : Frame} (hl : l.arriving = none) :
    (utils.getSchedulableWaitingReqList : Coro (Frame × World n κ) _).Guarantees
      MovesRequests (fun requests l' => l'.arriving = none ∧
        l'.schedulableWaitingReqList = requests) l := by
  apply (utils.rebalanceTurns_guarantees moves_of_rearranges l).bind
  intro _ l' hl'
  apply (utils.popTurns_guarantees moves_of_rearranges utils.popWaiting_moves
    (hl' ▸ hl)).bind
  intro _ l'' hl'' w
  exact ⟨rfl, hl'', rfl⟩

/-- The posting loop empties the list of the call. -/
theorem postRequests_moves (requests : List Request) {l : Frame} (hl : l.arriving = none)
    (hrequests : l.schedulableWaitingReqList = requests) :
    (requests.forM utils.postRequest : Coro (Frame × World n κ) Unit).Guarantees
      MovesRequests (fun _ l' => l'.arriving = none ∧ l'.schedulableWaitingReqList = []) l := by
  induction requests generalizing l with
  | nil => exact Coro.Guarantees.ret ⟨hl, hrequests⟩
  | cons request requests ih =>
    show ((utils.postRequest request : Coro (Frame × World n κ) Unit) >>= fun _ =>
      requests.forM utils.postRequest).Guarantees _ _ l
    -- the request handled now is the first one in the list of the call
    have hgives : l.GivesUp request (l.release request) := by
      apply Frame.release_givesUp
      rw [hrequests]
      exact List.mem_cons_self
    apply (utils.postRequest_guarantees moves_of_rearranges (post_moves hgives)
      (push_moves hgives)).bind
    intro _ l' hl'
    apply ih
    · rw [hl']
      exact hl
    · simp [hl', Frame.release, hrequests]

/-- Every operation of a call only moves requests, and the call ends empty-handed. -/
theorem schedule_moves (newRequest : Option Request) :
    (utils.schedule newRequest : Coro (Frame × World n κ) ℤ).Guarantees MovesRequests
      (fun _ l' => l'.arriving = none ∧ l'.schedulableWaitingReqList = [])
      (Frame.enter newRequest) := by
  -- after the placement the argument is queued, or there was none
  have hplace : (utils.placeNew newRequest : Coro (Frame × World n κ) Unit).Guarantees
      MovesRequests (fun _ l' => l'.arriving = none) (Frame.enter newRequest) := by
    cases newRequest with
    | none => exact Coro.Guarantees.ret rfl
    | some request =>
      apply moves_of_rearranges.bind Coro.Keeps.suspend
      intro _
      apply (utils.placeRequest_guarantees moves_of_rearranges
        (push_moves (Frame.placed_givesUp request))).weaken
      intro _ l' hl'
      rw [hl']
      rfl
  apply hplace.bind
  intro _ l hl
  apply moves_of_rearranges.bind Coro.Keeps.suspend
  intro _
  apply (utils.getSchedulable_moves hl).bind
  intro requests l' hl'
  apply (utils.postRequests_moves requests hl'.1 hl'.2).bind
  intro _ l'' hl''
  exact Coro.Guarantees.ret hl''

/-! ## The event loop -/

/-- The tasks of the event loop: `schedule` calls for arrivals and completions, and
changes of the replicas. -/
inductive Spawns : Frame × Coro (Frame × World n κ) Unit → Prop where
  | schedule (newRequest : Option Request) :
      Spawns (Frame.enter newRequest, do let _ ← utils.schedule newRequest)
  | loads (replicaBudgets : Fin n → Replica κ) (actualNumPrefillTokens : Request → ℤ) :
      Spawns (Frame.enter none,
        Coro.modify (fun (l, w) => (l, w.setLoads replicaBudgets actualNumPrefillTokens)))

/-- The event loop before the first call. -/
def idlePool (replicaBudgets : Fin n → Replica κ) (attrs : Request → RequestAttrs) :
    Pool Frame (World n κ) :=
  ⟨.init replicaBudgets attrs, []⟩

omit [LookupCache κ] in
/-- The requests that `schedule` was called with. -/
def submitted (p : Pool Frame (World n κ)) : List Request :=
  p.tasks.flatMap (fun t => t.1.newRequest.toList)

/-- How often a request is queued, popped by a call that has neither posted it nor put it
back, or posted. -/
def places (p : Pool Frame (World n κ)) (request : Request) : ℕ :=
  p.shared.globalRequestQueue.queued.count request +
    (p.tasks.map (fun t => t.1.schedulableWaitingReqList.count request)).sum +
    (p.shared.postingRequestTasks.map Prod.snd).count request

theorem spawns_moves {t : Frame × Coro (Frame × World n κ) Unit} (h : utils.Spawns t) :
    t.2.Guarantees MovesRequests
      (fun _ l' => l'.arriving = none ∧ l'.schedulableWaitingReqList = []) t.1 := by
  cases h with
  | schedule newRequest =>
    apply (utils.schedule_moves newRequest).bind
    intro _ l hl
    exact Coro.Guarantees.ret hl
  -- changes of the replicas touch neither queues nor posted requests
  | loads replicaBudgets actualNumPrefillTokens =>
    exact Coro.Guarantees.modify (fun _ => rfl) (fun _ => ⟨rfl, rfl⟩)

theorem spawns_held {t : Frame × Coro (Frame × World n κ) Unit} (h : utils.Spawns t) :
    t.1.held = ((t.1.newRequest.toList : Multiset Request),
      (t.1.newRequest.toList : Multiset Request)) := by
  cases h with
  | schedule newRequest => simp [Frame.held, Frame.enter]
  | loads => rfl

/-- In every reachable state the calls and the world together have what was submitted. -/
theorem total_eq_submitted (replicaBudgets : Fin n → Replica κ)
    (attrs : Request → RequestAttrs) {p : Pool Frame (World n κ)}
    (hrun : Relation.ReflTransGen (Pool.Step utils.Spawns) (idlePool replicaBudgets attrs) p) :
    p.Conserving Frame.held World.stored
        (fun l => l.arriving = none ∧ l.schedulableWaitingReqList = []) ∧
      (p.total Frame.held World.stored).1 = (p.total Frame.held World.stored).2 := by
  induction hrun with
  | refl =>
    refine ⟨fun t ht => absurd ht List.not_mem_nil, ?_⟩
    simp [Pool.total, idlePool, World.stored, World.init]
  | tail _ hstep ih =>
    obtain ⟨hconserving, htotal⟩ := ih
    -- a step that resumes a task keeps the total, a new call adds its argument on both sides
    obtain ⟨hconserving', hsame | ⟨t, ht, -, hmore⟩⟩ :=
      hstep.conserves (fun _ => utils.spawns_moves) hconserving
    · rw [hsame]
      exact ⟨hconserving', htotal⟩
    · rw [hmore, utils.spawns_held ht, Prod.fst_add, Prod.snd_add, htotal]
      exact ⟨hconserving', rfl⟩

/-- A submitted request is either still to be placed or in exactly one place. -/
theorem places_add_arriving (replicaBudgets : Fin n → Replica κ)
    (attrs : Request → RequestAttrs) {p : Pool Frame (World n κ)}
    (hrun : Relation.ReflTransGen (Pool.Step utils.Spawns) (idlePool replicaBudgets attrs) p)
    (request : Request) :
    places p request + (p.tasks.map (fun t => t.1.arriving.toList.count request)).sum =
      (submitted p).count request := by
  have htotal := congrArg (Multiset.count request)
    (utils.total_eq_submitted replicaBudgets attrs hrun).2
  -- counting one request is a homomorphism, so it can be done place by place
  have hfst := Pool.map_total
    ((Multiset.countAddMonoidHom request).comp (AddMonoidHom.fst _ _)) Frame.held World.stored p
  have hsnd := Pool.map_total
    ((Multiset.countAddMonoidHom request).comp (AddMonoidHom.snd _ _)) Frame.held World.stored p
  simp only [AddMonoidHom.coe_comp, Function.comp_apply, AddMonoidHom.coe_fst,
    AddMonoidHom.coe_snd, Multiset.coe_countAddMonoidHom] at hfst hsnd
  rw [hfst, hsnd] at htotal
  simp only [Frame.held, World.stored, Multiset.count_add, Multiset.coe_count,
    Multiset.count_zero, add_zero, List.sum_map_add] at htotal
  rw [submitted, List.count_flatMap, places]
  simp only [Function.comp_def]
  omega

/-- Whatever the interleaving, a submitted request that has been placed is queued once, or
in the list of one call that still runs, or posted once. A call that has ended has placed its
request and handed on what it popped. -/
theorem no_loss_no_duplication (replicaBudgets : Fin n → Replica κ)
    (attrs : Request → RequestAttrs) {p : Pool Frame (World n κ)}
    (hrun : Relation.ReflTransGen (Pool.Step utils.Spawns) (idlePool replicaBudgets attrs) p)
    (harrivals : ((submitted p).map Request.arrivedAt).Nodup) :
    (∀ request ∈ submitted p, (∀ t ∈ p.tasks, t.1.arriving ≠ some request) →
      places p request = 1) ∧
    (∀ request, request ∉ submitted p → places p request = 0) ∧
    ∀ t ∈ p.tasks, t.2 = .ret () →
      t.1.arriving = none ∧ t.1.schedulableWaitingReqList = [] := by
  refine ⟨?_, ?_, ?_⟩
  · intro request hsubmitted hplaced
    have hcount := utils.places_add_arriving replicaBudgets attrs hrun request
    -- no call still holds it as its argument
    have harriving : (p.tasks.map (fun t => t.1.arriving.toList.count request)).sum = 0 := by
      apply List.sum_eq_zero
      intro k hk
      obtain ⟨t, ht, rfl⟩ := List.mem_map.mp hk
      apply List.count_eq_zero_of_not_mem
      intro hmem
      exact hplaced t ht (Option.mem_toList.mp hmem)
    rw [harriving, add_zero] at hcount
    rw [hcount]
    exact List.count_eq_one_of_mem (List.Nodup.of_map _ harrivals) hsubmitted
  · intro request hnot
    have hcount := utils.places_add_arriving replicaBudgets attrs hrun request
    rw [List.count_eq_zero_of_not_mem hnot] at hcount
    exact Nat.eq_zero_of_add_eq_zero_right hcount
  · rintro ⟨l, c⟩ ht hend
    -- nothing is left of the call, so its postcondition holds
    have hguarantees := (utils.total_eq_submitted replicaBudgets attrs hrun).1 (l, c) ht
    rw [hend] at hguarantees
    exact hguarantees

/-- Two arrivals, resumed in turns: both requests have been migrated to the third replica,
and each of them is in the list of the call that did not bring it. -/
theorem no_loss_no_duplication_interleaved :
    let call (request : Request) : Frame × Coro (Frame × World 3 SmallStore) Unit :=
      (Frame.enter (some request), do let _ ← tightUtils.schedule (some request))
    let p := (List.replicate 16 [0, 1]).flatten.foldl Pool.resumeAt
      ⟨tightWorld, [call (oneTokenRequest 2), call (oneTokenRequest 1)]⟩
    p.shared.rebalanceCnt = 2 ∧
      p.tasks.map (fun t => t.1.schedulableWaitingReqList) =
        [[oneTokenRequest 1], [oneTokenRequest 2]] ∧
      places p (oneTokenRequest 1) = 1 ∧ places p (oneTokenRequest 2) = 1 := by
  intro call p
  have hspawn (request : Request) : tightUtils.Spawns (call request) := .schedule _
  -- both calls are entered before the first of their 32 turns
  have hrun : Relation.ReflTransGen (Pool.Step tightUtils.Spawns)
      (idlePool tightWorld.replicaBudgets tightWorld.attrs) p :=
    .head (.spawn tightWorld [] _ (hspawn (oneTokenRequest 1)))
      (.head (.spawn tightWorld _ _ (hspawn (oneTokenRequest 2))) (Pool.resumes _ _ _))
  obtain ⟨hplaces, -⟩ :=
    tightUtils.no_loss_no_duplication _ _ hrun (by decide +kernel)
  refine ⟨by decide +kernel, by decide +kernel, ?_, ?_⟩
  · exact hplaces (oneTokenRequest 1) (by decide +kernel) (by decide +kernel)
  · exact hplaces (oneTokenRequest 2) (by decide +kernel) (by decide +kernel)

end DoubleHashGlobalSchedulerUtils

end DualMap.Scheduler
