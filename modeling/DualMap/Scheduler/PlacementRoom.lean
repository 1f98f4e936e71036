import DualMap.Scheduler.Rearrangement
import DualMap.Scheduler.SloPlacement

/-!
# What a Placement Will Find

A placement may start the migration loop on the queue that it has just pushed its request
to. Which requests the loop picks depends on its costs, but three things are settled in the
state before the placement: whether both candidates will be overloaded, whether the queue
is empty, and whether any replica has room for the request (`StaysPut`).

Main results:
- `not_bothOverloaded`: a candidate that stays within the limits is not overloaded;
- `targetOverloaded_turnsTo`: a replica without room for a request gets none in the loop;
- `spares_of_lacksRoom`: so the loop never picks a request for which no replica has room.
-/

namespace DualMap.Scheduler.DoubleHashGlobalSchedulerUtils

open Cache GlobalRequestQueue

variable {n : ℕ} {κ ν : Type} (utils : DoubleHashGlobalSchedulerUtils n)

/-! ## Before the placement -/

/-- The tokens that a replica still has to prefill, waiting ones and pending ones. -/
def loadOf (w : World n κ) (r : Fin n) : ℤ :=
  w.globalRequestQueue.getGlobalActualWaitingTokensCount r +
    w.getNumActualPendingTokensReplica r

/-- The waiting delay of a replica, measured `k` clock readings from now. -/
def delayAt (w : World n κ) (r : Fin n) (k : ℕ) : ℚ :=
  w.globalRequestQueue.getMaxWaitingDelay utils.fl r (utils.perfCounter (w.ticks + k))

/-- With so many more tokens, a candidate stays within both limits. A placement reads the
clock six times for its two candidates. -/
def StaysWithin (w : World n κ) (r : Fin n) (moreTokens : ℤ) : Prop :=
  loadOf w r + moreTokens ≤ utils.dhRebalanceThredhold ∧
    ∀ k < 6, utils.delayAt w r k < utils.dhRebalanceWaitingLatencyThredhold

instance (w : World n κ) (r : Fin n) (moreTokens : ℤ) :
    Decidable (utils.StaysWithin w r moreTokens) :=
  inferInstanceAs (Decidable (_ ∧ _))

section Room

variable [LookupCache κ]

/-- A replica has no room for a request: with its tokens it passes the load limit, or its
oldest request has waited too long. A rebalancing then reads the clock three times for
every replica. -/
def LacksRoom (w : World n κ) (request : Request) (r : Fin n) : Prop :=
  utils.dhRebalanceThredhold < loadOf w r + w.recomputeLen r request ∨
    ∀ k < 3 * n, utils.dhRebalanceWaitingLatencyThredhold ≤ utils.delayAt w r (6 + k)

instance (w : World n κ) (request : Request) (r : Fin n) :
    Decidable (utils.LacksRoom w request r) :=
  inferInstanceAs (Decidable (_ ∨ _))

/-- Queued at the candidate `primary`, the request stays there while its placement
rebalances: one of the candidates is not overloaded, or the request is alone in its queue,
or neither the other candidate nor the neighbour has room for it. -/
def StaysAt (w : World n κ) (request : Request) (primary second : Fin n) : Prop :=
  utils.StaysWithin w primary (w.recomputeLen primary request) ∨
    utils.StaysWithin w second 0 ∨
    w.globalRequestQueue.getQueueLen primary = 0 ∨
    ∀ t, t ≠ primary → t = second ∨ t = neighborReplica primary second →
      utils.LacksRoom w request t

instance (w : World n κ) (request : Request) (primary second : Fin n) :
    Decidable (utils.StaysAt w request primary second) :=
  inferInstanceAs (Decidable (_ ∨ _ ∨ _ ∨ ∀ t, t ≠ primary → t = second ∨ _ → _))

/-- The request stays where its placement queues it, whichever candidate that is. -/
def StaysPut (w : World n κ) (request : Request) : Prop :=
  ∀ primary second, utils.AreCandidates request primary second →
    utils.StaysAt w request primary second

instance (request : Request) (r other : Fin n) :
    Decidable (utils.AreCandidates request r other) :=
  inferInstanceAs (Decidable (_ ∨ _))

instance (w : World n κ) (request : Request) : Decidable (utils.StaysPut w request) :=
  inferInstanceAs (Decidable (∀ _ _, _ → _))

end Room

theorem loadOf_of_reads {w w' : World n κ} (hreads : w.Reads w') (r : Fin n) :
    loadOf w' r = loadOf w r := by
  rw [loadOf, hreads.globalRequestQueue, hreads.actualPending]
  rfl

/-- After some readings, fewer are left until a later one. -/
theorem delayAt_of_reads {w w' : World n κ} (hreads : w.Reads w') {j : ℕ}
    (hticks : w'.ticks = w.ticks + j) (r : Fin n) (k : ℕ) :
    utils.delayAt w' r k = utils.delayAt w r (j + k) := by
  rw [delayAt, delayAt, hreads.globalRequestQueue, hticks, Nat.add_assoc]

theorem AreCandidates.ne {utils : DoubleHashGlobalSchedulerUtils n} {request : Request}
    {r other : Fin n} (h : utils.AreCandidates request r other) (hn : 2 ≤ n) : other ≠ r := by
  have hdistinct := utils.candidates_ne hn request
  rcases h with horder | horder
  · rw [horder] at hdistinct
    exact hdistinct.symm
  · rw [horder] at hdistinct
    exact hdistinct

/-! ## What the placement reads -/

section Reading

variable [LookupCache κ]

/-- The metrics of a candidate are those of the world before the placement. -/
structure ReadOf (w : World n κ) (request : Request) (r : Fin n)
    (metrics : CandidateMetrics) : Prop where
  recompute : metrics.numReqActualPrefillTokens = w.recomputeLen r request
  pending : metrics.numVirtualPendingTokens = loadOf w r + w.recomputeLen r request
  delay : ∃ k < 6, metrics.maxWaitingDelay = utils.delayAt w r k

theorem candidateMetrics_readOf (request : Request) (r : Fin n) (l : ν) {w w' : World n κ}
    (hreads : w.Reads w') {j : ℕ} (hticks : w'.ticks = w.ticks + j) (hj : j < 4) :
    utils.ReadOf w request r ((utils.candidateMetrics request r).atomically (l, w')).1 ∧
      ((utils.candidateMetrics request r).atomically (l, w')).2.2.ticks = w.ticks + (j + 3) := by
  refine ⟨⟨hreads.recomputeLen r request, ?_, j + 2, by omega, ?_⟩, ?_⟩
  · rw [← loadOf_of_reads hreads, ← hreads.recomputeLen]
    rfl
  · -- the delay is read after the two readings of the load
    rw [← utils.delayAt_of_reads hreads hticks]
    rfl
  · rw [← Nat.add_assoc, ← hticks]
    rfl

/-- Without interruption, both candidates are read as they are before the placement. -/
theorem choosePlacement_readOf (request : Request) (l : ν) (w : World n κ) :
    let result := (utils.choosePlacement request).atomically (l, w)
    (∀ r, r = (utils.candidates request).1 ∨ r = (utils.candidates request).2 →
      utils.ReadOf w request r (result.1.metrics r)) ∧ result.2.2.ticks = w.ticks + 6 := by
  obtain ⟨hread1, hticks⟩ := utils.candidateMetrics_readOf request (utils.candidates request).1 l
    (World.Reads.refl w) (Nat.add_zero w.ticks).symm (by decide)
  obtain ⟨w₁, hw₁, hreads⟩ := reads_atomically
    (utils.candidateMetrics_reads request (utils.candidates request).1) l w
  rw [hw₁] at hticks
  obtain ⟨hread2, hticks⟩ := utils.candidateMetrics_readOf request (utils.candidates request).2 l
    hreads hticks (by decide)
  -- together the two readings make the placement
  have hresult : (utils.choosePlacement request).atomically (l, w) =
      (utils.placementOf request
        ((utils.candidateMetrics request (utils.candidates request).1).atomically (l, w)).1
        ((utils.candidateMetrics request (utils.candidates request).2).atomically (l, w₁)).1,
      ((utils.candidateMetrics request (utils.candidates request).2).atomically (l, w₁)).2) := by
    simp only [choosePlacement, Coro.atomically_bind, hw₁, Coro.pure_def, Coro.atomically_ret]
    rfl
  rw [hresult]
  refine ⟨?_, hticks⟩
  intro r hr
  -- the second candidate overwrites the first one when they are the same replica
  by_cases hsecond : r = (utils.candidates request).2
  · rw [hsecond]
    simpa [placementOf] using hread2
  · have hfirst := hr.resolve_right hsecond
    rw [hfirst] at hsecond ⊢
    simpa [placementOf, hsecond] using hread1

/-- A candidate that stays within the limits with its share of the request is not found
overloaded. -/
theorem not_bothOverloaded {request : Request} {w : World n κ} {placement : Placement n}
    (hprimary : utils.ReadOf w request placement.primaryReplicaId
      (placement.metrics placement.primaryReplicaId))
    (hsecond : utils.ReadOf w request placement.secondReplicaId
      (placement.metrics placement.secondReplicaId))
    (hne : placement.secondReplicaId ≠ placement.primaryReplicaId)
    (hwithin : utils.StaysWithin w placement.primaryReplicaId
        (w.recomputeLen placement.primaryReplicaId request) ∨
      utils.StaysWithin w placement.secondReplicaId 0) :
    ¬ utils.BothOverloaded placement := by
  rintro ⟨hfirst, hother⟩
  rcases hwithin with ⟨hload, hdelay⟩ | ⟨hload, hdelay⟩
  · -- the request was pushed at the primary replica, its tokens are counted there
    obtain ⟨k, hk, hread⟩ := hprimary.delay
    rcases hfirst with htokens | hlate
    · rw [numPendingTokens, if_pos rfl, hprimary.pending] at htokens
      exact absurd hload (not_le.mpr htokens)
    · rw [hread] at hlate
      exact absurd (hdelay k hk) (not_lt.mpr hlate)
  · obtain ⟨k, hk, hread⟩ := hsecond.delay
    rcases hother with htokens | hlate
    · rw [numPendingTokens, if_neg hne, hsecond.pending, hsecond.recompute,
        add_sub_cancel_right] at htokens
      rw [add_zero] at hload
      exact absurd hload (not_le.mpr htokens)
    · rw [hread] at hlate
      exact absurd (hdelay k hk) (not_lt.mpr hlate)

end Reading

/-! ## What the rebalancing reads -/

theorem snapshotReplicas_fold_delay (ids : List (Fin n)) (lists : Fin n → ReplicaSnapshot)
    (l : ν) (w : World n κ) (r : Fin n) :
    let final := ((ids.foldlM
      (fun lists replicaId => do
        let snapshot ← utils.snapshotReplica replicaId
        return Function.update lists replicaId snapshot)
      lists).atomically (l, w)).1
    (r ∉ ids ∧ final r = lists r) ∨
      ∃ k < 3 * ids.length, (final r).maxWaitingDelay = utils.delayAt w r k := by
  -- induction on the replicas still to fill in; each of them takes three readings
  induction ids generalizing lists w with
  | nil => exact Or.inl ⟨List.not_mem_nil, rfl⟩
  | cons id ids ih =>
    intro final
    obtain ⟨w', hw', hreads⟩ := reads_atomically ((utils.snapshotReplica_reads id).bind
      (fun snapshot => Coro.Keeps.pure (Function.update lists id snapshot))) l w
    have hticks : w'.ticks = w.ticks + 3 := by
      rw [show w' = (l, w').2 from rfl, ← hw']
      rfl
    have hfinal : final = ((ids.foldlM
        (fun lists replicaId => do
          let snapshot ← utils.snapshotReplica replicaId
          return Function.update lists replicaId snapshot)
        (Function.update lists id ((utils.snapshotReplica id).atomically (l, w)).1)).atomically
          (l, w')).1 := by
      simp only [final, List.foldlM_cons]
      rw [Coro.atomically_bind, hw', Coro.atomically_bind, Coro.pure_def, Coro.atomically_ret]
    rw [hfinal]
    rcases ih (Function.update lists id ((utils.snapshotReplica id).atomically (l, w)).1) w' with
      ⟨hlater, hsame⟩ | ⟨k, hk, hdelay⟩
    · rw [hsame]
      by_cases hid : r = id
      · -- the element just written, with the first of its readings
        refine Or.inr ⟨0, by simp, ?_⟩
        rw [hid, Function.update_self]
        rfl
      · rw [Function.update_of_ne hid]
        exact Or.inl ⟨by simp [hid, hlater], rfl⟩
    · refine Or.inr ⟨3 + k, by rw [List.length_cons]; omega, ?_⟩
      rw [hdelay, utils.delayAt_of_reads hreads hticks]

/-- Every waiting delay in the lists is read while they are filled. -/
theorem snapshotReplicas_delay (l : ν) (w : World n κ) (r : Fin n) :
    ∃ k < 3 * n, ((utils.snapshotReplicas.atomically (l, w)).1 r).maxWaitingDelay =
      utils.delayAt w r k := by
  rcases utils.snapshotReplicas_fold_delay (List.finRange n) (fun _ => ⟨0, 0, 0, 0⟩) l w r with
    ⟨hnot, -⟩ | ⟨k, hk, hdelay⟩
  · exact absurd (List.mem_finRange r) hnot
  · rw [List.length_finRange] at hk
    exact ⟨k, hk, hdelay⟩

/-! ## The loop -/

section Loop

variable [LookupCache κ]

/-- A replica without room for a request gets none while the loop runs. -/
theorem targetOverloaded_turnsTo {source t : Fin n} {amount : ℤ} {request : Request}
    {st st' : RebalanceState n κ} (hturns : TurnsTo (utils.migrateNext source amount) st st')
    (h : utils.TargetOverloaded st t request) : utils.TargetOverloaded st' t request := by
  apply hturns.invariant (I := fun st => utils.TargetOverloaded st t request) h
  rintro u u' - hfull hbody
  obtain ⟨migration, -, hselected, rfl⟩ := utils.migrateNext_selected hbody
  -- the list of waiting tokens only grows, and nothing else in the test changes
  have hgrows : (u.lists t).numGlobalActualWaitingTokens ≤
      ((u.migrate source migration).lists t).numGlobalActualWaitingTokens := by
    have hnonneg : 0 ≤ migration.targetActualPrefillLen := by
      rw [hselected.targetLen]
      exact numRecomputeTokens_nonneg _ _
    by_cases htarget : t = migration.targetReplicaId
    · simp [RebalanceState.migrate, htarget, hnonneg]
    · simp [RebalanceState.migrate, htarget]
  have hrest : ((u.migrate source migration).lists t).numReplicaActualPendingTokens =
        (u.lists t).numReplicaActualPendingTokens ∧
      ((u.migrate source migration).lists t).maxWaitingDelay = (u.lists t).maxWaitingDelay := by
    by_cases htarget : t = migration.targetReplicaId
    · simp [RebalanceState.migrate, htarget]
    · simp [RebalanceState.migrate, htarget]
  have hlen : (u.migrate source migration).world.recomputeLen t request =
      u.world.recomputeLen t request := rfl
  rcases hfull with htokens | hlate
  · left
    rw [hrest.1, hlen]
    linarith
  · right
    rw [hrest.2]
    exact hlate

/-- A request only moves to its other candidate or to the neighbour. -/
theorem chooseTarget_among {source second target : Fin n} {st : RebalanceState n κ}
    {request : Request} (hcandidates : utils.AreCandidates request source second)
    (h : utils.chooseTarget source st request = some target) :
    target = second ∨ target = neighborReplica source second := by
  have hother : (if source = (utils.candidates request).1 then (utils.candidates request).2
      else (utils.candidates request).1) = second := by
    rcases hcandidates with horder | horder
    · rw [horder, if_pos rfl]
    · rw [horder]
      split
      · next hsame => exact hsame
      · rfl
  simp only [chooseTarget, hother] at h
  split at h
  · simp only [chooseNeighbor] at h
    split_ifs at h
    exact Or.inr (Option.some.inj h).symm
  · exact Or.inl (Option.some.inj h).symm

/-- No turn of the migration loop selects a held request. -/
def Spares (source : Fin n) (amount : ℤ) (held : Request → Prop) (st : RebalanceState n κ) :
    Prop :=
  ∀ st', TurnsTo (utils.migrateNext source amount) st st' →
    ∀ migration, utils.nextMigration source amount st' = some migration →
      ¬ held migration.request

/-- If a rebalancing call from here enters its loop, no turn selects a held request. -/
def RebalanceSpares (source : Fin n) (amount : ℤ) (held : Request → Prop)
    (s : ν × World n κ) : Prop :=
  utils.balanceType = .dualmap → 1 < s.2.globalRequestQueue.getQueueLen source →
    utils.Spares source amount held
      (.start (utils.snapshotReplicas.atomically s).1 (utils.snapshotReplicas.atomically s).2.2)

/-- Where neither of its two targets has room, the request is never selected. -/
theorem spares_of_targetOverloaded {source second : Fin n} {amount : ℤ} {request : Request}
    {st : RebalanceState n κ} (hcandidates : utils.AreCandidates request source second)
    (hfull : ∀ t, t ≠ source → t = second ∨ t = neighborReplica source second →
      utils.TargetOverloaded st t request) :
    utils.Spares source amount (fun other => other = request) st := by
  rintro st' hturns migration hnext rfl
  have hselected := utils.nextMigration_selected hnext
  -- it would go to one of the two, which has not got room meanwhile
  have hstart := hfull _ hselected.ne (utils.chooseTarget_among hcandidates hselected.chosen)
  exact hselected.room (utils.targetOverloaded_turnsTo hturns hstart)

/-- Requests that do not wait at the source are never selected: nothing moves to it. -/
theorem spares_of_elsewhere {source : Fin n} {amount : ℤ} {held : Request → Prop}
    {st : RebalanceState n κ} (hnodup : st.world.globalRequestQueue.queued.Nodup)
    (helsewhere : ∀ request ∈ st.world.globalRequestQueue.queuedAt source, ¬ held request) :
    utils.Spares source amount held st := by
  intro st' hturns migration hnext
  have hend : st'.world.globalRequestQueue.queued.Nodup ∧
      ∀ request ∈ st'.world.globalRequestQueue.queuedAt source, ¬ held request := by
    apply hturns.invariant
      (I := fun st => st.world.globalRequestQueue.queued.Nodup ∧
        ∀ request ∈ st.world.globalRequestQueue.queuedAt source, ¬ held request)
    · exact ⟨hnodup, helsewhere⟩
    · rintro u u' - ⟨hnodup, helsewhere⟩ hbody
      obtain ⟨m, -, hselected, rfl⟩ := utils.migrateNext_selected hbody
      refine ⟨hselected.moves.queued ▸ hnodup, ?_⟩
      intro request hrequest
      -- what waits at the source after the move waited there before
      rcases hselected.moves.mem_queuedAt hnodup hrequest with ⟨-, htarget⟩ | ⟨-, hold⟩
      · exact absurd htarget.symm hselected.ne
      · exact helsewhere request hold
  exact hend.2 _ (utils.nextMigration_selected hnext).queued

/-- With a single replica there is nowhere to move to. -/
theorem spares_of_single (hn : n < 2) (source : Fin n) (amount : ℤ) (held : Request → Prop)
    (st : RebalanceState n κ) : utils.Spares source amount held st := by
  intro st' _ migration hnext
  have hsame : migration.targetReplicaId = source := by omega
  exact absurd hsame (utils.nextMigration_selected hnext).ne

/-- A rebalancing spares a request for which the other replicas lack room when it starts, six
clock readings after `w`. -/
theorem rebalanceSpares_of_lacksRoom {source second : Fin n} {amount : ℤ} {request : Request}
    {w w₂ : World n κ} (l : ν) (hcandidates : utils.AreCandidates request source second)
    (hlen : ∀ t, w₂.recomputeLen t request = w.recomputeLen t request)
    (hload : ∀ t, t ≠ source → loadOf w₂ t = loadOf w t)
    (hdelay : ∀ t, t ≠ source → ∀ k, utils.delayAt w₂ t k = utils.delayAt w t (6 + k))
    (hroom : ∀ t, t ≠ source → t = second ∨ t = neighborReplica source second →
      utils.LacksRoom w request t) :
    utils.RebalanceSpares source amount (fun other => other = request) (l, w₂) := by
  intro _ _
  -- every target that the rebalancing may ask lacks room, so nothing is moved
  apply utils.spares_of_targetOverloaded hcandidates
  intro t ht hamong
  obtain ⟨w₃, hw₃, hreads⟩ := reads_atomically utils.snapshotReplicas_reads l w₂
  obtain ⟨hwaiting, hpending⟩ := utils.snapshotReplicas_spec l w₂ t
  obtain ⟨k, hk, hread⟩ := utils.snapshotReplicas_delay l w₂ t
  rcases hroom t ht hamong with htokens | hlate
  · left
    show _ < ((utils.snapshotReplicas.atomically (l, w₂)).1 t).numGlobalActualWaitingTokens +
      ((utils.snapshotReplicas.atomically (l, w₂)).1 t).numReplicaActualPendingTokens +
      (utils.snapshotReplicas.atomically (l, w₂)).2.2.recomputeLen t request
    rw [hw₃, hreads.recomputeLen, hlen, hwaiting, hpending]
    rw [← hload t ht] at htokens
    exact htokens
  -- the delay read later is that of a later reading of the clock
  · right
    show _ ≤ ((utils.snapshotReplicas.atomically (l, w₂)).1 t).maxWaitingDelay
    rw [hread, hdelay t ht]
    exact hlate k hk

end Loop


/-! ## The placement -/

section Placement

variable [LookupCache κ]

/-- An uninterrupted placement chooses among the candidates as they are before it. -/
theorem choosePlacement_candidates (htype : SloAware utils.balanceType) (request : Request)
    (l : ν) (w : World n κ) :
    let placement := ((utils.choosePlacement request).atomically (l, w)).1
    utils.AreCandidates request placement.primaryReplicaId placement.secondReplicaId ∧
      utils.ReadOf w request placement.primaryReplicaId
        (placement.metrics placement.primaryReplicaId) ∧
      utils.ReadOf w request placement.secondReplicaId
        (placement.metrics placement.secondReplicaId) := by
  intro placement
  obtain ⟨hread, -⟩ := utils.choosePlacement_readOf request l w
  have hchosen : utils.AreCandidates request placement.primaryReplicaId
      placement.secondReplicaId := by
    have hrun : Coro.Runs (fun _ _ => True) (utils.choosePlacement request) (l, w) _ _ :=
      Coro.runs_atomically (fun _ => trivial) _ (l, w)
    obtain ⟨u, metrics1, metrics2, -, -, hplacement⟩ := utils.choosePlacement_measured hrun
    -- the two candidates change places when the second is chosen
    rw [show placement = utils.placementOf request metrics1 metrics2 from hplacement]
    rcases utils.choosePrimary_pair htype (utils.candidates request).1
      (utils.candidates request).2
      (utils.placementOf request metrics1 metrics2).metrics with hpair | hpair
    · exact Or.inl (Prod.ext (congrArg Prod.fst hpair).symm (congrArg Prod.snd hpair).symm)
    · exact Or.inr (Prod.ext (congrArg Prod.snd hpair).symm (congrArg Prod.fst hpair).symm)
  refine ⟨hchosen, hread _ ?_, hread _ ?_⟩
  · rcases hchosen with horder | horder
    · exact Or.inl (congrArg Prod.fst horder).symm
    · exact Or.inr (congrArg Prod.snd horder).symm
  · rcases hchosen with horder | horder
    · exact Or.inr (congrArg Prod.snd horder).symm
    · exact Or.inl (congrArg Prod.fst horder).symm

/-- A request that stays put is not selected by the rebalancing of the replica it was pushed
to. -/
theorem pushed_spares {request : Request} {l : ν} {w w₁ : World n κ} {placement : Placement n}
    (hstays : utils.StaysPut w request)
    (hplacement : placement = ((utils.choosePlacement request).atomically (l, w)).1)
    (hreads : w.Reads w₁) (hticks : w₁.ticks = w.ticks + 6) (hover : utils.BothOverloaded placement)
    (amount : ℤ) (l' : ν) :
    utils.RebalanceSpares placement.primaryReplicaId amount (fun other => other = request)
      (l', (noteChoice placement request w₁).push placement.primaryReplicaId request
        (placement.metrics placement.primaryReplicaId).prefixCacheHitLen) := by
  intro htype hlong
  have haware : SloAware utils.balanceType := by rw [htype]; trivial
  obtain ⟨hcandidates, hprimary, hsecond⟩ :=
    utils.choosePlacement_candidates haware request l w
  rw [← hplacement] at hcandidates hprimary hsecond
  by_cases hn : n < 2
  · exact utils.spares_of_single hn _ _ _ _
  have hne := hcandidates.ne (not_lt.mp hn)
  -- the cases of the condition: no rebalancing, nothing to choose from, no room
  rcases hstays _ _ hcandidates with hwithin | hwithin | hempty | hroom
  · exact absurd hover (utils.not_bothOverloaded hprimary hsecond hne (Or.inl hwithin))
  · exact absurd hover (utils.not_bothOverloaded hprimary hsecond hne (Or.inr hwithin))
  · have hlength := (push_removes w₁.globalRequestQueue placement.primaryReplicaId request
      (placement.metrics placement.primaryReplicaId).prefixCacheHitLen).queue.length_eq
    rw [hreads.globalRequestQueue] at hlength
    have hlong : 1 < ((w₁.globalRequestQueue.push placement.primaryReplicaId request
      (placement.metrics placement.primaryReplicaId).prefixCacheHitLen).queues
        placement.primaryReplicaId).length := hlong
    rw [hreads.globalRequestQueue, hlength, List.length_append, List.length_singleton] at hlong
    rw [getQueueLen] at hempty
    omega
  · -- the push changes its own replica only
    have hothers (t : Fin n) (ht : t ≠ placement.primaryReplicaId) :=
      (push_removes w₁.globalRequestQueue placement.primaryReplicaId request
        (placement.metrics placement.primaryReplicaId).prefixCacheHitLen).others t ht
    refine utils.rebalanceSpares_of_lacksRoom l' hcandidates ?_ ?_ ?_ hroom htype hlong
    · exact fun t => hreads.recomputeLen t request
    · intro t ht
      rw [← loadOf_of_reads hreads, loadOf, loadOf, getGlobalActualWaitingTokensCount,
        getGlobalActualWaitingTokensCount, (hothers t ht).2.1]
      rfl
    · intro t ht k
      rw [← utils.delayAt_of_reads hreads hticks, delayAt, delayAt,
        GlobalRequestQueue.getMaxWaitingDelay, GlobalRequestQueue.getMaxWaitingDelay,
        (hothers t ht).1]
      rfl

end Placement

end DualMap.Scheduler.DoubleHashGlobalSchedulerUtils
