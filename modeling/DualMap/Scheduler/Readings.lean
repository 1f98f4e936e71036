import DualMap.Scheduler.DoubleHashUtils

/-!
# Readings

Most of what the scheduler does between two changes is reading. A reading moves the clock
on, and the first look at the load of a replica sets the time of its last prefill; nothing
else changes (`World.Reads`).
-/

namespace DualMap.Scheduler

open Cache

variable {n : ℕ} {κ ν α : Type}

/-! ## What a reading leaves -/

/-- The worlds differ only by clock readings and by times of the last prefill. -/
structure World.Reads (w w' : World n κ) : Prop where
  globalRequestQueue : w'.globalRequestQueue = w.globalRequestQueue
  attrs : w'.attrs = w.attrs
  postingRequestTasks : w'.postingRequestTasks = w.postingRequestTasks
  dispatched : w'.dispatched = w.dispatched
  replicaBudgets : ∀ r, ∃ t,
    w'.replicaBudgets r = { w.replicaBudgets r with lastPrefillCompletedAt := t }

namespace World.Reads

theorem refl (w : World n κ) : Reads w w :=
  ⟨rfl, rfl, rfl, rfl, fun r => ⟨(w.replicaBudgets r).lastPrefillCompletedAt, rfl⟩⟩

theorem trans {w w' w'' : World n κ} (h : Reads w w') (h' : Reads w' w'') : Reads w w'' where
  globalRequestQueue := h'.globalRequestQueue.trans h.globalRequestQueue
  attrs := h'.attrs.trans h.attrs
  postingRequestTasks := h'.postingRequestTasks.trans h.postingRequestTasks
  dispatched := h'.dispatched.trans h.dispatched
  replicaBudgets := by
    intro r
    obtain ⟨t, ht⟩ := h.replicaBudgets r
    obtain ⟨t', ht'⟩ := h'.replicaBudgets r
    exact ⟨t', by rw [ht', ht]⟩

theorem recomputeLen [LookupCache κ] {w w' : World n κ} (h : Reads w w') (r : Fin n)
    (request : Request) : w'.recomputeLen r request = w.recomputeLen r request := by
  obtain ⟨t, ht⟩ := h.replicaBudgets r
  rw [World.recomputeLen, ht]
  rfl

theorem actualPending {w w' : World n κ} (h : Reads w w') (r : Fin n) :
    w'.getNumActualPendingTokensReplica r = w.getNumActualPendingTokensReplica r := by
  obtain ⟨t, ht⟩ := h.replicaBudgets r
  rw [getNumActualPendingTokensReplica, ht]
  rfl

theorem pendingRequests {w w' : World n κ} (h : Reads w w') (r : Fin n) :
    (w'.replicaBudgets r).pendingRequests = (w.replicaBudgets r).pendingRequests := by
  obtain ⟨t, ht⟩ := h.replicaBudgets r
  rw [ht]

end World.Reads

namespace DoubleHashGlobalSchedulerUtils

variable (utils : DoubleHashGlobalSchedulerUtils n)

theorem readClock_reads (w : World n κ) : w.Reads (utils.readClock w).2 :=
  ⟨rfl, rfl, rfl, rfl, fun r => ⟨(w.replicaBudgets r).lastPrefillCompletedAt, rfl⟩⟩

theorem getMaxWaitingDelay_reads (r : Fin n) (w : World n κ) :
    w.Reads (utils.getMaxWaitingDelay r w).2 := utils.readClock_reads w

theorem getLoadStates_replica (replica : Replica κ) (rateNow prefillNow : ℚ) :
    ∃ t, (replica.getLoadStates rateNow prefillNow).2 =
      { replica with lastPrefillCompletedAt := t } := by
  simp only [Replica.getLoadStates]
  split
  · exact ⟨prefillNow, rfl⟩
  · exact ⟨replica.lastPrefillCompletedAt, rfl⟩

theorem getLoadStates_reads (r : Fin n) (w : World n κ) :
    w.Reads (utils.getLoadStates r w).2 := by
  refine ⟨rfl, rfl, rfl, rfl, ?_⟩
  intro r'
  -- only the replica that is asked may get a time
  by_cases hr : r' = r
  · obtain ⟨t, ht⟩ := getLoadStates_replica (w.replicaBudgets r)
      (utils.perfCounter w.ticks) (utils.perfCounter (w.ticks + 1))
    refine ⟨t, ?_⟩
    rw [hr, ← ht]
    exact Function.update_self ..
  · exact ⟨_, Function.update_of_ne hr ..⟩

/-! ## Code that only reads -/

theorem readings {w w' : World n κ} (h : Relation.ReflTransGen World.Reads w w') :
    w.Reads w' := by
  induction h with
  | refl => exact .refl w
  | tail _ hstep ih => exact ih.trans hstep

theorem look_reads (f : World n κ → α) :
    (look f : Coro (ν × World n κ) α).Keeps World.Reads :=
  Coro.Keeps.shared World.Reads.refl

/-- Run without interruption, code that only reads leaves everything as it was. -/
theorem reads_atomically {c : Coro (ν × World n κ) α} (hc : c.Keeps World.Reads) (l : ν)
    (w : World n κ) : ∃ w', (c.atomically (l, w)).2 = (l, w') ∧ w.Reads w' := by
  obtain ⟨w', hend, hsteps⟩ := hc.atomically l w
  exact ⟨w', hend, readings hsteps⟩

theorem candidateMetrics_reads [LookupCache κ] (request : Request) (replicaId : Fin n) :
    (utils.candidateMetrics request replicaId : Coro (ν × World n κ) _).Keeps
      World.Reads := by
  apply (look_reads _).bind; intro _
  apply (look_reads _).bind; intro _
  apply (look_reads _).bind; intro _
  apply (look_reads _).bind; intro _
  apply Coro.Keeps.suspend.bind; intro _
  apply (Coro.Keeps.shared (utils.getLoadStates_reads replicaId)).bind; intro _
  apply (Coro.Keeps.shared (utils.getMaxWaitingDelay_reads replicaId)).bind; intro _
  apply (look_reads _).bind; intro _
  exact Coro.Keeps.pure _

theorem choosePlacement_reads [LookupCache κ] (request : Request) :
    (utils.choosePlacement request : Coro (ν × World n κ) _).Keeps World.Reads := by
  apply (utils.candidateMetrics_reads request _).bind; intro _
  apply (utils.candidateMetrics_reads request _).bind; intro _
  exact Coro.Keeps.pure _

theorem snapshotReplica_reads (replicaId : Fin n) :
    (utils.snapshotReplica replicaId : Coro (ν × World n κ) _).Keeps World.Reads := by
  apply (look_reads _).bind; intro _
  apply (look_reads _).bind; intro _
  apply (Coro.Keeps.shared (utils.getMaxWaitingDelay_reads replicaId)).bind; intro _
  apply Coro.Keeps.suspend.bind; intro _
  apply (Coro.Keeps.shared (utils.getLoadStates_reads replicaId)).bind; intro _
  exact Coro.Keeps.pure _

theorem snapshotReplicas_reads :
    (utils.snapshotReplicas : Coro (ν × World n κ) _).Keeps World.Reads := by
  apply Coro.Keeps.foldlM
  intro lists replicaId
  apply (utils.snapshotReplica_reads replicaId).bind
  intro snapshot
  exact Coro.Keeps.pure _

/-! ## The snapshot -/

/-- The list element of a replica holds its waiting and its pending tokens. -/
def SnapshotAt (w : World n κ) (lists : Fin n → ReplicaSnapshot) (r : Fin n) : Prop :=
  (lists r).numGlobalActualWaitingTokens =
      w.globalRequestQueue.queuesGlobalActualWaitingTokensCount r ∧
    (lists r).numReplicaActualPendingTokens = w.getNumActualPendingTokensReplica r

theorem SnapshotAt.of_reads {w w' : World n κ} (h : w.Reads w')
    {lists : Fin n → ReplicaSnapshot} {r : Fin n} :
    SnapshotAt w' lists r ↔ SnapshotAt w lists r := by
  rw [SnapshotAt, SnapshotAt, h.globalRequestQueue, h.actualPending]

theorem snapshotReplica_spec (id : Fin n) (lists : Fin n → ReplicaSnapshot) (l : ν)
    (w : World n κ) :
    SnapshotAt w
      (Function.update lists id ((utils.snapshotReplica id).atomically (l, w)).1) id := by
  rw [SnapshotAt, Function.update_self]
  exact ⟨rfl, rfl⟩

/-- Filling the lists for some replicas: their elements are right afterwards, and those
that were right before still are. -/
theorem snapshotReplicas_fold (ids : List (Fin n)) (lists : Fin n → ReplicaSnapshot) (l : ν)
    (w : World n κ) (r : Fin n) (hr : r ∈ ids ∨ SnapshotAt w lists r) :
    SnapshotAt w ((ids.foldlM
      (fun lists replicaId => do
        let snapshot ← utils.snapshotReplica replicaId
        return Function.update lists replicaId snapshot)
      lists).atomically (l, w)).1 r := by
  -- induction on the replicas still to fill in; filling one in only reads
  induction ids generalizing lists w with
  | nil => exact hr.resolve_left List.not_mem_nil
  | cons id ids ih =>
    rw [List.foldlM_cons, Coro.atomically_bind]
    obtain ⟨w', hw', hreads⟩ := reads_atomically ((utils.snapshotReplica_reads id).bind
      (fun snapshot => Coro.Keeps.pure (Function.update lists id snapshot))) l w
    rw [hw', ← SnapshotAt.of_reads hreads]
    apply ih
    rw [SnapshotAt.of_reads hreads, or_iff_not_imp_left]
    intro hnot
    by_cases hid : r = id
    · -- the element just written
      rw [hid, Coro.atomically_bind]
      exact utils.snapshotReplica_spec id lists l w
    -- the element of another replica, right since before
    · have hold : SnapshotAt w lists r := by
        apply hr.resolve_left
        simp [hid, hnot]
      rw [SnapshotAt, Coro.atomically_bind]
      simpa [SnapshotAt, hid] using hold

theorem snapshotReplicas_spec (l : ν) (w : World n κ) (r : Fin n) :
    SnapshotAt w (utils.snapshotReplicas.atomically (l, w)).1 r :=
  utils.snapshotReplicas_fold _ _ l w r (Or.inl (List.mem_finRange r))

end DoubleHashGlobalSchedulerUtils

end DualMap.Scheduler
