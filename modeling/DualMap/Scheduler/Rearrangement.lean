import DualMap.Scheduler.DoubleHashScheduler
import DualMap.Scheduler.RebalanceSafety

/-!
# What Scheduling Code Can Change

Apart from a push, a batch pop and a posting, scheduling code only rearranges: it moves
queued requests between replicas and writes in them. `World.Rearranges` says so once.

The last section follows a `schedule` call through its code: a relation that contains every
rearrangement is guaranteed by the whole call as soon as these three operations are steps
of it.
-/

namespace DualMap.Scheduler

open Cache GlobalRequestQueue

variable {n : ℕ} {κ ν : Type}

/-- The same requests are queued, posted and recorded as popped, and the replicas differ at
most in the times of their last prefill. -/
structure World.Rearranges (w w' : World n κ) : Prop where
  queued : w'.globalRequestQueue.queued = w.globalRequestQueue.queued
  postingRequestTasks : w'.postingRequestTasks = w.postingRequestTasks
  dispatched : w'.dispatched = w.dispatched
  replicaBudgets : ∀ r, ∃ t,
    w'.replicaBudgets r = { w.replicaBudgets r with lastPrefillCompletedAt := t }

namespace World.Rearranges

theorem of_reads {w w' : World n κ} (h : w.Reads w') : w.Rearranges w' where
  queued := by rw [h.globalRequestQueue]
  postingRequestTasks := h.postingRequestTasks
  dispatched := h.dispatched
  replicaBudgets := h.replicaBudgets

theorem refl (w : World n κ) : w.Rearranges w := of_reads (.refl w)

theorem trans {w w' w'' : World n κ} (h : w.Rearranges w') (h' : w'.Rearranges w'') :
    w.Rearranges w'' where
  queued := h'.queued.trans h.queued
  postingRequestTasks := h'.postingRequestTasks.trans h.postingRequestTasks
  dispatched := h'.dispatched.trans h.dispatched
  replicaBudgets := by
    intro r
    obtain ⟨t, ht⟩ := h.replicaBudgets r
    obtain ⟨t', ht'⟩ := h'.replicaBudgets r
    exact ⟨t', by rw [ht', ht]⟩

/-- Writing in the requests. -/
theorem of_attrs (w : World n κ) (attrs : Request → RequestAttrs) :
    w.Rearranges { w with attrs := attrs } :=
  ⟨rfl, rfl, rfl, fun r => ⟨(w.replicaBudgets r).lastPrefillCompletedAt, rfl⟩⟩

theorem of_steps {w w' : World n κ} (h : Relation.ReflTransGen World.Rearranges w w') :
    w.Rearranges w' := by
  induction h with
  | refl => exact .refl w
  | tail _ hstep ih => exact ih.trans hstep

end World.Rearranges

namespace DoubleHashGlobalSchedulerUtils

theorem reads_rearranges {α : Type} {c : Coro (ν × World n κ) α} (hc : c.Keeps World.Reads) :
    c.Keeps World.Rearranges :=
  hc.mono (fun _ _ => .of_reads)

/-- Run without interruption, code that only rearranges does so. -/
theorem rearranges_atomically {α : Type} {c : Coro (ν × World n κ) α}
    (hc : c.Keeps World.Rearranges) (s : ν × World n κ) :
    (c.atomically s).2.1 = s.1 ∧ s.2.Rearranges (c.atomically s).2.2 := by
  obtain ⟨w', hend, hsteps⟩ := hc.atomically s.1 s.2
  rw [Prod.mk.eta] at hend
  rw [hend]
  exact ⟨rfl, .of_steps hsteps⟩

variable [LookupCache κ] (utils : DoubleHashGlobalSchedulerUtils n)

/-- The migration loop only rearranges. -/
theorem migrateFrom_rearranges (source : Fin n) (amount : ℤ)
    (lists : Fin n → ReplicaSnapshot) (w : World n κ) :
    w.Rearranges (utils.migrateFrom source amount lists w).2 := by
  obtain ⟨st, hresult, hloop⟩ := utils.migrateNext_terminates source amount lists w
  obtain ⟨hturns, -⟩ := turnsTo_of_whileLoop (hloop _ (Nat.lt_succ_self _))
  rw [hresult]
  apply hturns.invariant (I := fun st => w.Rearranges st.world) (.refl w)
  -- a turn moves one request between two queues and writes in it
  intro st st' _ hst hbody
  obtain ⟨migration, -, hselected, rfl⟩ := utils.migrateNext_selected hbody
  exact hst.trans ⟨hselected.moves.queued, rfl, rfl,
    fun r => ⟨(st.world.replicaBudgets r).lastPrefillCompletedAt, rfl⟩⟩

theorem rebalance_rearranges (source : Fin n) (amount : ℤ) :
    (utils.rebalanceReplicaGlobalWaitingReqs source amount :
      Coro (ν × World n κ) _).Keeps World.Rearranges := by
  unfold rebalanceReplicaGlobalWaitingReqs
  split
  · exact Coro.Keeps.pure _
  · apply (reads_rearranges (look_reads _)).bind
    intro globalNumRequestWaiting
    unfold rebalanceQueue
    split
    · exact Coro.Keeps.pure _
    · apply (reads_rearranges utils.snapshotReplicas_reads).bind
      intro lists
      exact Coro.Keeps.shared (utils.migrateFrom_rearranges source amount lists)

theorem rebalanceCandidates_rearranges (placement : Placement n) :
    (utils.rebalanceCandidates placement : Coro (ν × World n κ) _).Keeps
      World.Rearranges := by
  have hcandidate (r : Fin n) : (utils.rebalanceCandidate placement r :
      Coro (ν × World n κ) _).Keeps World.Rearranges := by
    apply Coro.Keeps.suspend.bind; intro _
    exact utils.rebalance_rearranges r _
  unfold rebalanceCandidates
  split
  · apply (hcandidate _).bind; intro _
    apply (hcandidate _).bind; intro _
    exact Coro.Keeps.pure _
  · exact Coro.Keeps.pure _

theorem rebalanceTurn_rearranges (rid : Fin n) :
    (utils.rebalanceTurn rid : Coro (Frame × World n κ) _).Keeps World.Rearranges := by
  apply (reads_rearranges (Coro.Keeps.shared (utils.getMaxWaitingDelay_reads rid))).bind
  intro maxWaitingDelay
  apply (reads_rearranges (look_reads _)).bind; intro _
  apply (reads_rearranges (look_reads _)).bind; intro _
  unfold rebalanceWhenOverloaded
  split
  · apply Coro.Keeps.suspend.bind; intro _
    apply (utils.rebalance_rearranges rid _).bind; intro _
    exact Coro.Keeps.pure _
  · exact Coro.Keeps.pure _

/-! ## Following a call -/

/-- Every rearrangement is a step of the relation. -/
def AllowsRearranging (P : Frame × World n κ → Frame × World n κ → Prop) : Prop :=
  ∀ l w w', w.Rearranges w' → P (l, w) (l, w')

variable {P : Frame × World n κ → Frame × World n κ → Prop}

omit [LookupCache κ] in
/-- Code that only rearranges may stand before anything. -/
theorem AllowsRearranging.bind {α β : Type} (hP : AllowsRearranging P)
    {c : Coro (Frame × World n κ) α} (hc : c.Keeps World.Rearranges)
    {k : α → Coro (Frame × World n κ) β} {Q : β → Frame → Prop} {l : Frame}
    (hk : ∀ a, (k a).Guarantees P Q l) : (c >>= k).Guarantees P Q l :=
  hc.bind_guarantees hP hk

/-- A placement guarantees what its push does. -/
theorem placeRequest_guarantees (hP : AllowsRearranging P) {placed : Frame → Frame}
    {request : Request} {l : Frame}
    (hpush : ∀ replicaId hit w, P (l, w) (placed l, w.push replicaId request hit)) :
    (utils.placeRequest placed request).Guarantees P (fun _ l' => l' = placed l) l := by
  -- everything before the push reads, or writes in the request
  have hqueue : (utils.queueRequest placed request).Guarantees P
      (fun _ l' => l' = placed l) l := by
    apply hP.bind (reads_rearranges (utils.choosePlacement_reads request))
    intro placement
    apply hP.bind (Coro.Keeps.shared fun w => .of_attrs w _)
    intro _
    have hstep : (pushRequest placed placement request).Guarantees P
        (fun _ l' => l' = placed l) l :=
      Coro.Guarantees.modify (hpush _ _) (fun _ => rfl)
    apply hstep.bind
    intro _ l' hl'
    exact Coro.Guarantees.ret hl'
  apply hqueue.bind
  intro placement l' hl'
  -- what follows the push only rearranges
  apply hP.bind (utils.rebalanceCandidates_rearranges placement)
  intro _
  exact Coro.Guarantees.shared (fun w => hP l' w _ (.of_attrs w _)) (fun _ => hl')

/-- The rebalancing of all replicas guarantees the relation and keeps the locals. -/
theorem rebalanceTurns_guarantees (hP : AllowsRearranging P) (l : Frame) :
    ((List.finRange n).forM utils.rebalanceTurn).Guarantees P (fun _ l' => l' = l) l := by
  apply Coro.Guarantees.forM (I := fun l' => l' = l) _ _ rfl
  intro rid l' hl'
  rw [← hl']
  exact (utils.rebalanceTurn_rearranges rid).guarantees hP l'

omit [LookupCache κ] in
/-- The pops for all replicas guarantee what each batch pop does; so for an invariant of
the locals. -/
theorem popTurns_guarantees (hP : AllowsRearranging P) {I : Frame → Prop}
    (hpop : ∀ rid states prefillInterval l w, I l →
      P (l, w) (utils.popWaiting rid states prefillInterval (l, w)) ∧
        I (utils.popWaiting rid states prefillInterval (l, w)).1) {l : Frame} (hl : I l) :
    ((List.finRange n).forM utils.popTurn).Guarantees P (fun _ l' => I l') l := by
  apply Coro.Guarantees.forM _ _ hl
  intro rid l hl
  apply hP.bind Coro.Keeps.suspend
  intro _
  apply hP.bind (reads_rearranges (Coro.Keeps.shared (utils.getLoadStates_reads rid)))
  intro states
  apply hP.bind (reads_rearranges (Coro.Keeps.shared utils.readClock_reads))
  intro now
  apply Coro.Guarantees.modify
  · exact fun w => (hpop rid states _ l w hl).1
  · exact fun w => (hpop rid states _ l w hl).2

/-- The posting of a request guarantees what the posting, or the push of its placement,
does. -/
theorem postRequest_guarantees (hP : AllowsRearranging P) {request : Request} {l : Frame}
    (hpost : ∀ replicaId w, P (l, w) (l.release request, w.post replicaId request))
    (hpush : ∀ replicaId hit w, P (l, w) (l.release request, w.push replicaId request hit)) :
    (utils.postRequest request).Guarantees P (fun _ l' => l' = l.release request) l := by
  apply hP.bind (reads_rearranges (look_reads _))
  intro primaryReplica
  unfold postTo
  split
  · apply hP.bind Coro.Keeps.suspend
    intro _
    apply hP.bind (Coro.Keeps.shared fun w => .of_attrs w _)
    intro _
    apply hP.bind Coro.Keeps.suspend
    intro _
    exact Coro.Guarantees.modify (hpost _) (fun _ => rfl)
  · apply hP.bind Coro.Keeps.suspend
    intro _
    -- a request without a primary replica is placed again
    exact utils.placeRequest_guarantees hP hpush

end DoubleHashGlobalSchedulerUtils

end DualMap.Scheduler
