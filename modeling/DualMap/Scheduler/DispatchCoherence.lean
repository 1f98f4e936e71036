import DualMap.Scheduler.PlacementRoom

/-!
# Coherence of Queues and Assignments

Where a queued request waits is also written in the request, as its `_primary_replica`, and
`schedule` posts it by what is written there. Placement and migration each write both. But
a placement writes the assignment last, after the rebalancing that it may trigger: when
that rebalancing migrates the very request being placed, the assignment of the migration
is overwritten.

Main results: in runs whose requests stay put when they are placed, every queued request is
assigned to the replica where it waits, and is posted there (`dispatch_coherent`); and a run
in which that fails. Nothing is assumed of the float arithmetic.
-/

namespace DualMap.Scheduler

open Cache GlobalRequestQueue

variable {n : ℕ} {κ ν : Type}

/-- Every queued request is assigned to the replica in whose queue it is. -/
def Coherent (w : World n κ) : Prop :=
  ∀ r, ∀ item ∈ w.globalRequestQueue.queues r, (w.attrs item.req).primaryReplica = (r : ℕ)

/-- The queues are coherent but for the requests `held`, which all wait at `home`. -/
def CoherentBut (held : Request → Prop) (home : Fin n) (w : World n κ) : Prop :=
  ∀ r, ∀ request ∈ w.globalRequestQueue.queuedAt r,
    (held request → r = home) ∧ (¬ held request → (w.attrs request).primaryReplica = (r : ℕ))

theorem coherent_iff {w : World n κ} :
    Coherent w ↔ ∀ r, ∀ request ∈ w.globalRequestQueue.queuedAt r,
      (w.attrs request).primaryReplica = (r : ℕ) := by
  constructor
  · intro h r request hrequest
    obtain ⟨item, hitem, rfl⟩ := mem_queuedAt.mp hrequest
    exact h r item hitem
  · intro h r item hitem
    exact h r item.req (mem_queuedAt.mpr ⟨item, hitem, rfl⟩)

theorem Coherent.but_none {w : World n κ} (h : Coherent w) (home : Fin n) :
    CoherentBut (fun _ => False) home w :=
  fun r request hrequest => ⟨False.elim, fun _ => coherent_iff.mp h r request hrequest⟩

theorem CoherentBut.of_none {w : World n κ} {home : Fin n}
    (h : CoherentBut (fun _ => False) home w) : Coherent w :=
  coherent_iff.mpr (fun r request hrequest => (h r request hrequest).2 not_false)

theorem CoherentBut.of_reads {held : Request → Prop} {home : Fin n} {w w' : World n κ}
    (hreads : w.Reads w') (h : CoherentBut held home w) : CoherentBut held home w' := by
  rw [CoherentBut, hreads.globalRequestQueue, hreads.attrs]
  exact h

theorem Coherent.of_reads {w w' : World n κ} (hreads : w.Reads w') (h : Coherent w) :
    Coherent w' := by
  rw [Coherent, hreads.globalRequestQueue, hreads.attrs]
  exact h

/-- Once queued, the new request is the only one that is not assigned to its queue. -/
theorem Coherent.push {w : World n κ} {request : Request} (h : Coherent w)
    (hnew : request ∉ w.globalRequestQueue.queued) (replicaId : Fin n) (hit : ℤ) :
    CoherentBut (fun other => other = request) replicaId (w.push replicaId request hit) := by
  intro r other hother
  rcases mem_queuedAt_push.mp hother with ⟨rfl, rfl⟩ | hold
  · exact ⟨fun _ => rfl, fun hne => absurd rfl hne⟩
  -- an older request: it is another one, since the new one was not queued
  · refine ⟨?_, fun _ => coherent_iff.mp h r other hold⟩
    rintro rfl
    exact absurd (mem_queued.mpr ⟨r, hold⟩) hnew

/-- Assigning the held request to where it waits makes the queues coherent. -/
theorem CoherentBut.assign {w : World n κ} {request : Request} {home : Fin n}
    (h : CoherentBut (fun other => other = request) home w) (second : Fin n) :
    Coherent (w.assignReplicas request home second) := by
  apply coherent_iff.mpr
  intro r other hother
  obtain ⟨hhome, hprimary⟩ := h r other hother
  -- the held request waits at `home`, and that is what is written now
  by_cases hsame : other = request
  · simp [World.assignReplicas, hsame, hhome hsame]
  · simpa [World.assignReplicas, hsame] using hprimary hsame

/-- Other fields may be written in the requests. -/
theorem Coherent.of_attrs {w : World n κ} (h : Coherent w) {attrs : Request → RequestAttrs}
    (hattrs : ∀ request, (attrs request).primaryReplica = (w.attrs request).primaryReplica) :
    Coherent { w with attrs := attrs } := by
  intro r item hitem
  exact (hattrs item.req).trans (h r item hitem)

namespace DoubleHashGlobalSchedulerUtils

theorem noteChoice_primary (placement : Placement n) (request : Request) (w : World n κ)
    (other : Request) :
    ((noteChoice placement request w).attrs other).primaryReplica =
      (w.attrs other).primaryReplica := by
  by_cases hsame : other = request
  · simp [noteChoice, hsame]
  · simp [noteChoice, hsame]

variable [LookupCache κ] (utils : DoubleHashGlobalSchedulerUtils n)

/-! ## Rebalancing -/

/-- A migration of another request leaves the held ones in place and is coherent itself. -/
theorem Selected.coherentBut {utils : DoubleHashGlobalSchedulerUtils n} {source : Fin n}
    {amount : ℤ} {st : RebalanceState n κ} {migration : Migration n}
    (hselected : utils.Selected source amount st migration)
    (hnodup : st.world.globalRequestQueue.queued.Nodup) {held : Request → Prop}
    (hnot : ¬ held migration.request) {home : Fin n} (h : CoherentBut held home st.world) :
    CoherentBut held home (st.migrate source migration).world := by
  intro r request hrequest
  -- the moved request is assigned to its target, all others are untouched
  rcases hselected.moves.mem_queuedAt hnodup hrequest with ⟨rfl, rfl⟩ | ⟨hother, hold⟩
  · refine ⟨fun hheld => absurd hheld hnot, fun _ => ?_⟩
    simp [RebalanceState.migrate, World.assignReplicas]
  · obtain ⟨hhome, hprimary⟩ := h r request hold
    refine ⟨hhome, fun hheld => ?_⟩
    simpa [RebalanceState.migrate, World.assignReplicas, hother] using hprimary hheld

theorem migrateFrom_coherentBut {source : Fin n} {amount : ℤ} {held : Request → Prop}
    {lists : Fin n → ReplicaSnapshot} {w : World n κ}
    (hspares : utils.Spares source amount held (.start lists w))
    (hnodup : w.globalRequestQueue.queued.Nodup) {home : Fin n} (h : CoherentBut held home w) :
    CoherentBut held home (utils.migrateFrom source amount lists w).2 := by
  obtain ⟨st, hresult, hloop⟩ := utils.migrateNext_terminates source amount lists w
  obtain ⟨hturns, -⟩ := turnsTo_of_whileLoop (hloop _ (Nat.lt_succ_self _))
  -- the invariant of the turns: still no request twice, still coherent
  have hend : st.world.globalRequestQueue.queued.Nodup ∧ CoherentBut held home st.world := by
    apply hturns.invariant
      (I := fun st => st.world.globalRequestQueue.queued.Nodup ∧ CoherentBut held home st.world)
    · exact ⟨hnodup, h⟩
    · rintro st st' hst ⟨hnodup, h⟩ hbody
      obtain ⟨migration, hnext, hselected, rfl⟩ := utils.migrateNext_selected hbody
      refine ⟨?_, hselected.coherentBut hnodup (hspares st hst migration hnext) h⟩
      rw [hselected.moves.queued]
      exact hnodup
  rw [hresult]
  exact hend.2

/-- Rebalancing keeps the queues coherent but for the held requests, if it spares them. -/
theorem rebalance_coherentBut {source : Fin n} {amount : ℤ} {held : Request → Prop}
    {s : ν × World n κ} (hspares : utils.RebalanceSpares source amount held s)
    (hnodup : s.2.globalRequestQueue.queued.Nodup) {home : Fin n}
    (h : CoherentBut held home s.2) :
    CoherentBut held home
      ((utils.rebalanceReplicaGlobalWaitingReqs source amount).atomically s).2.2 := by
  obtain ⟨l, w⟩ := s
  by_cases htype : utils.balanceType ≠ .dualmap
  · simpa [rebalanceReplicaGlobalWaitingReqs, htype] using h
  · by_cases hlen : w.globalRequestQueue.getQueueLen source ≤ 1
    · simpa [rebalanceReplicaGlobalWaitingReqs, htype, look, rebalanceQueue, hlen] using h
    · obtain ⟨w₁, hw₁, hreads⟩ := reads_atomically utils.snapshotReplicas_reads l w
      -- past the early returns the loop runs on the snapshot
      have hspares := hspares (not_not.mp htype) (not_le.mp hlen)
      rw [hw₁] at hspares
      have hloop := utils.migrateFrom_coherentBut hspares
        (by rw [hreads.globalRequestQueue]; exact hnodup) (h.of_reads hreads)
      simpa [rebalanceReplicaGlobalWaitingReqs, htype, look, rebalanceQueue, hlen, hw₁]
        using hloop

theorem rebalance_coherent (source : Fin n) (amount : ℤ) {s : ν × World n κ}
    (hnodup : s.2.globalRequestQueue.queued.Nodup) (h : Coherent s.2) :
    Coherent ((utils.rebalanceReplicaGlobalWaitingReqs source amount).atomically s).2.2 :=
  (utils.rebalance_coherentBut (fun _ _ _ _ _ _ => not_false) hnodup
    (h.but_none source)).of_none

/-! ## Placement -/

/-- Queueing a request reads, writes in the request and pushes it. -/
theorem queueRequest_atomically (placed : ν → ν) (request : Request) (l : ν) (w : World n κ) :
    ∃ placement w₁, placement = ((utils.choosePlacement request).atomically (l, w)).1 ∧
      w.Reads w₁ ∧ w₁.ticks = w.ticks + 6 ∧ (utils.queueRequest placed request).atomically (l, w) =
      (placement, placed l, (noteChoice placement request w₁).push placement.primaryReplicaId
        request (placement.metrics placement.primaryReplicaId).prefixCacheHitLen) := by
  obtain ⟨w₁, hw₁, hreads⟩ := reads_atomically (utils.choosePlacement_reads request) l w
  obtain ⟨-, hticks⟩ := utils.choosePlacement_readOf request l w
  rw [hw₁] at hticks
  refine ⟨((utils.choosePlacement request).atomically (l, w)).1, w₁, rfl, hreads, hticks, ?_⟩
  simp [queueRequest, pushRequest, hw₁]

theorem rebalanceCandidate_atomically (placement : Placement n) (r : Fin n)
    (s : ν × World n κ) :
    (utils.rebalanceCandidate placement r).atomically s =
      (utils.rebalanceReplicaGlobalWaitingReqs r
        (numPendingTokens placement r - utils.dhRebalanceThredhold)).atomically s := by
  rw [rebalanceCandidate, Coro.atomically_bind, Coro.atomically_suspend]

/-- A rebalancing of another replica than `home` spares the held requests: they all wait
there. -/
theorem rebalanceSpares_of_elsewhere {held : Request → Prop} {home source : Fin n}
    {s : ν × World n κ} (h : CoherentBut held home s.2)
    (hnodup : s.2.globalRequestQueue.queued.Nodup) (hne : source ≠ home) (amount : ℤ) :
    utils.RebalanceSpares source amount held s := by
  intro _ _
  obtain ⟨w', hw', hreads⟩ := reads_atomically utils.snapshotReplicas_reads s.1 s.2
  rw [Prod.mk.eta] at hw'
  rw [hw']
  apply utils.spares_of_elsewhere
  · exact hreads.globalRequestQueue ▸ hnodup
  · intro request hrequest hheld
    exact hne (((h.of_reads hreads) source request hrequest).1 hheld)

theorem rebalanceCandidates_coherentBut {placement : Placement n} {held : Request → Prop}
    {s : ν × World n κ} (hspares : utils.BothOverloaded placement →
      utils.RebalanceSpares placement.primaryReplicaId
        (numPendingTokens placement placement.primaryReplicaId - utils.dhRebalanceThredhold)
        held s)
    (hcandidates : utils.balanceType = .dualmap → ∃ request,
      utils.AreCandidates request placement.primaryReplicaId placement.secondReplicaId)
    (hnodup : s.2.globalRequestQueue.queued.Nodup)
    (h : CoherentBut held placement.primaryReplicaId s.2) :
    CoherentBut held placement.primaryReplicaId
      ((utils.rebalanceCandidates placement).atomically s).2.2 := by
  unfold rebalanceCandidates
  split
  · next hover =>
    have hcoherent := utils.rebalance_coherentBut (hspares hover) hnodup h
    -- the second rebalancing starts where the first one stopped, with the same requests queued
    have hqueued := (rearranges_atomically (utils.rebalance_rearranges
      placement.primaryReplicaId
      (numPendingTokens placement placement.primaryReplicaId - utils.dhRebalanceThredhold))
      s).2.queued
    rw [← hqueued] at hnodup
    simp only [Coro.atomically_bind, rebalanceCandidate_atomically, Coro.pure_def,
      Coro.atomically_ret]
    refine utils.rebalance_coherentBut ?_ hnodup hcoherent
    intro htype hlong
    obtain ⟨request, hpair⟩ := hcandidates htype
    by_cases hn : n < 2
    · exact utils.spares_of_single hn _ _ _ _
    · exact utils.rebalanceSpares_of_elsewhere hcoherent hnodup (hpair.ne (not_lt.mp hn)) _ htype
        hlong
  · exact h

/-- What holds of the scheduler's world between calls: the queues are coherent, and only
requests submitted so far are queued, each of them once. -/
structure Settled (submitted : List Request) (w : World n κ) : Prop where
  coherent : Coherent w
  nodup : w.globalRequestQueue.queued.Nodup
  known : ∀ request ∈ w.globalRequestQueue.queued, request ∈ submitted

/-- The placement of a request that stays put leaves the queues coherent. -/
theorem placeRequest_settled {submitted : List Request} {placed : ν → ν} {request : Request}
    {l : ν} {w : World n κ} (hw : Settled submitted w) (hnew : request ∉ submitted)
    (hstays : utils.StaysPut w request) :
    ∃ w', ((utils.placeRequest placed request).atomically (l, w)).2 = (placed l, w') ∧
      Settled (request :: submitted) w' ∧ w'.postingRequestTasks = w.postingRequestTasks ∧
      w'.dispatched = w.dispatched := by
  obtain ⟨placement, w₁, hplacement, hreads, hticks, hqueue⟩ :=
    utils.queueRequest_atomically placed request l w
  set w₂ := (noteChoice placement request w₁).push placement.primaryReplicaId request
    (placement.metrics placement.primaryReplicaId).prefixCacheHitLen with hw₂
  -- the request is new to the queues
  have hfresh : request ∉ w₁.globalRequestQueue.queued := by
    rw [hreads.globalRequestQueue]
    exact fun hmem => hnew (hw.known request hmem)
  have hqueued : w₂.globalRequestQueue.queued = {request} + w.globalRequestQueue.queued := by
    rw [hw₂, World.push, push_queued, noteChoice, hreads.globalRequestQueue]
  have hnodup : w₂.globalRequestQueue.queued.Nodup := by
    rw [hqueued, ← hreads.globalRequestQueue]
    exact Multiset.nodup_cons.mpr ⟨hfresh, by rw [hreads.globalRequestQueue]; exact hw.nodup⟩
  have hnoted : Coherent (noteChoice placement request w₁) :=
    (hw.coherent.of_reads hreads).of_attrs (noteChoice_primary placement request w₁)
  -- until its assignment, the placed request is the one exception
  have hbut : CoherentBut (fun other => other = request) placement.primaryReplicaId
      ((utils.rebalanceCandidates placement).atomically (placed l, w₂)).2.2 := by
    apply utils.rebalanceCandidates_coherentBut
    · exact fun hover => utils.pushed_spares hstays hplacement hreads hticks hover _ _
    · intro htype
      refine ⟨request, ?_⟩
      rw [hplacement]
      exact (utils.choosePlacement_candidates (by rw [htype]; trivial) request l w).1
    · exact hnodup
    · exact hnoted.push hfresh placement.primaryReplicaId _
  obtain ⟨hlocals, hrearranged⟩ := rearranges_atomically
    (utils.rebalanceCandidates_rearranges placement) (placed l, w₂)
  -- the assignment comes last
  have hend : ((utils.placeRequest placed request).atomically (l, w)).2 =
      ((utils.rebalanceCandidates placement).atomically (placed l, w₂)).2.map id
        (fun w => w.assignReplicas request placement.primaryReplicaId
          placement.secondReplicaId) := by
    rw [placeRequest, Coro.atomically_bind, hqueue, Coro.atomically_bind,
      Coro.atomically_shared]
    rfl
  rw [hend]
  generalize ((utils.rebalanceCandidates placement).atomically (placed l, w₂)).2 = result
    at hbut hlocals hrearranged ⊢
  obtain ⟨l', w'⟩ := result
  refine ⟨w'.assignReplicas request placement.primaryReplicaId placement.secondReplicaId,
    Prod.ext hlocals rfl, ⟨hbut.assign _, ?_, ?_⟩,
    hrearranged.postingRequestTasks.trans hreads.postingRequestTasks,
    hrearranged.dispatched.trans hreads.dispatched⟩
  · show w'.globalRequestQueue.queued.Nodup
    rw [hrearranged.queued]
    exact hnodup
  · intro other hother
    have hother : other ∈ w'.globalRequestQueue.queued := hother
    rw [hrearranged.queued, hqueued] at hother
    rcases Multiset.mem_add.mp hother with hsame | hold
    · rw [Multiset.mem_singleton.mp hsame]
      exact List.mem_cons_self
    · exact List.mem_cons_of_mem _ (hw.known other hold)

/-! ## Rebalancing and popping -/

omit [LookupCache κ] in
theorem Settled.of_rearranges {submitted : List Request} {w w' : World n κ}
    (h : Settled submitted w) (hrearranges : w.Rearranges w') (hcoherent : Coherent w') :
    Settled submitted w' where
  coherent := hcoherent
  nodup := by rw [hrearranges.queued]; exact h.nodup
  known := by rw [hrearranges.queued]; exact h.known

theorem rebalanceTurn_coherent (rid : Fin n) {s : Frame × World n κ}
    (hnodup : s.2.globalRequestQueue.queued.Nodup) (h : Coherent s.2) :
    Coherent ((utils.rebalanceTurn rid).atomically s).2.2 := by
  obtain ⟨l, w⟩ := s
  simp only [rebalanceTurn, look, Coro.atomically_bind, Coro.atomically_shared]
  have hreads := utils.getMaxWaitingDelay_reads rid w
  have hcoherent := h.of_reads hreads
  unfold rebalanceWhenOverloaded
  split
  · simp only [Coro.atomically_bind, Coro.atomically_suspend, Coro.pure_def,
      Coro.atomically_ret]
    apply utils.rebalance_coherent
    · exact hreads.globalRequestQueue ▸ hnodup
    · exact hcoherent
  · exact hcoherent

theorem rebalanceTurns_settled {submitted : List Request} (rids : List (Fin n))
    {s : Frame × World n κ} (h : Settled submitted s.2) :
    ((rids.forM utils.rebalanceTurn).atomically s).2.1 = s.1 ∧
      s.2.Rearranges ((rids.forM utils.rebalanceTurn).atomically s).2.2 ∧
      Settled submitted ((rids.forM utils.rebalanceTurn).atomically s).2.2 := by
  induction rids generalizing s with
  | nil => exact ⟨rfl, .refl s.2, h⟩
  | cons rid rids ih =>
    obtain ⟨hlocals, hrearranges⟩ := rearranges_atomically (utils.rebalanceTurn_rearranges rid) s
    have hturn := h.of_rearranges hrearranges
      (utils.rebalanceTurn_coherent rid h.nodup h.coherent)
    obtain ⟨hlocals', hrearranges', hsettled⟩ := ih hturn
    rw [Coro.atomically_forM_cons]
    exact ⟨hlocals'.trans hlocals, hrearranges.trans hrearranges', hsettled⟩

/-- While a call pops: its list holds what was popped since the world `w₀`, and each of
these requests is assigned to the replica whose queue it came from. -/
structure Popping (submitted : List Request) (w₀ : World n κ) (s : Frame × World n κ) :
    Prop where
  settled : Settled submitted s.2
  posting : s.2.postingRequestTasks = w₀.postingRequestTasks
  popped : ∃ popped, s.2.dispatched = w₀.dispatched ++ popped ∧
    s.1.schedulableWaitingReqList = popped.map Prod.snd ∧
    ∀ d ∈ popped, (s.2.attrs d.2).primaryReplica = (d.1 : ℕ)

omit [LookupCache κ] in
theorem Popping.of_reads {submitted : List Request} {w₀ w w' : World n κ} {l : Frame}
    (h : Popping submitted w₀ (l, w)) (hreads : w.Reads w') : Popping submitted w₀ (l, w') where
  settled := h.settled.of_rearranges (.of_reads hreads) (h.settled.coherent.of_reads hreads)
  posting := hreads.postingRequestTasks.trans h.posting
  popped := by
    rw [hreads.dispatched, hreads.attrs]
    exact h.popped

omit [LookupCache κ] in
theorem popWaiting_popping {submitted : List Request} {w₀ : World n κ} {rid : Fin n}
    {states : LoadStates} {prefillInterval : ℚ} {s : Frame × World n κ}
    (h : Popping submitted w₀ s) :
    Popping submitted w₀ (utils.popWaiting rid states prefillInterval s) := by
  simp only [popWaiting]
  split
  · obtain ⟨removed, hremoves, hreqs⟩ := popSchedulable_removes s.2.globalRequestQueue rid
      states.currentBudget (some (utils.dhReplicaPendingReqThreshold - states.numPendingRequests))
    generalize s.2.globalRequestQueue.popSchedulable rid states.currentBudget
      (some (utils.dhReplicaPendingReqThreshold - states.numPendingRequests)) = batch
      at hremoves hreqs ⊢
    obtain ⟨popped, hdispatched, hlist, hassigned⟩ := h.popped
    refine ⟨⟨?_, ?_, ?_⟩, h.posting, popped ++ batch.1.map (fun request => (rid, request)),
      ?_, ?_, ?_⟩
    · -- what is left of the queue was assigned there before
      apply coherent_iff.mpr
      intro r request hrequest
      exact coherent_iff.mp h.settled.coherent r request (hremoves.mem_of_mem hrequest)
    · have hnodup := h.settled.nodup
      rw [hremoves.queued] at hnodup
      exact (Multiset.nodup_add.mp hnodup).2.1
    · intro request hrequest
      apply h.settled.known
      rw [hremoves.queued]
      exact Multiset.mem_add.mpr (Or.inr hrequest)
    · simp [World.dispatch, hdispatched]
    · simp [hlist, Function.comp_def]
    · intro d hd
      rcases List.mem_append.mp hd with hold | hnew
      · exact hassigned d hold
      · obtain ⟨request, hrequest, rfl⟩ := List.mem_map.mp hnew
        apply coherent_iff.mp h.settled.coherent rid request
        rw [hremoves.queuedAt_self, ← hreqs]
        exact Multiset.mem_add.mpr (Or.inl (Multiset.mem_coe.mpr hrequest))
  · exact h

omit [LookupCache κ] in
theorem popTurns_popping {submitted : List Request} {w₀ : World n κ} (rids : List (Fin n))
    {s : Frame × World n κ} (h : Popping submitted w₀ s) :
    Popping submitted w₀ ((rids.forM utils.popTurn).atomically s).2 := by
  apply Coro.atomically_forM_preserves (Popping submitted w₀) _ _ rids s h
  intro rid s hs
  have hreads := (utils.getLoadStates_reads rid s.2).trans (utils.readClock_reads _)
  exact utils.popWaiting_popping (hs.of_reads hreads)

/-! ## Posting -/

theorem postRequest_atomically {r : Fin n} {request : Request} {s : Frame × World n κ}
    (h : (s.2.attrs request).primaryReplica = (r : ℕ)) :
    (utils.postRequest request).atomically s =
      ((), s.1.release request, (noteCacheHitMax r request s.2).post r request) := by
  simp [postRequest, look, h, postTo, addPostingRequestTasks]

theorem noteCacheHitMax_primary (r : Fin n) (request : Request) (w : World n κ)
    (other : Request) :
    ((noteCacheHitMax r request w).attrs other).primaryReplica =
      (w.attrs other).primaryReplica := by
  by_cases hsame : other = request
  · simp [noteCacheHitMax, hsame]
  · simp [noteCacheHitMax, hsame]

/-- Requests that are assigned where they were popped are posted there. -/
theorem postRequests_settled {submitted : List Request} (popped : List (Fin n × Request))
    {s : Frame × World n κ} (h : Settled submitted s.2)
    (hassigned : ∀ d ∈ popped, (s.2.attrs d.2).primaryReplica = (d.1 : ℕ)) :
    let w' := (((popped.map Prod.snd).forM utils.postRequest).atomically s).2.2
    Settled submitted w' ∧ w'.dispatched = s.2.dispatched ∧
      w'.postingRequestTasks = s.2.postingRequestTasks ++ popped := by
  -- induction on the requests to post; posting one writes no assignment
  induction popped generalizing s with
  | nil => exact ⟨h, rfl, (List.append_nil _).symm⟩
  | cons d popped ih =>
    have hpost := utils.postRequest_atomically (hassigned d List.mem_cons_self)
    set s₁ : Frame × World n κ :=
      (s.1.release d.2, (noteCacheHitMax d.1 d.2 s.2).post d.1 d.2) with hs₁
    have hprimary := noteCacheHitMax_primary d.1 d.2 s.2
    have hsettled : Settled submitted s₁.2 :=
      ⟨h.coherent.of_attrs hprimary, h.nodup, h.known⟩
    obtain ⟨hend, hdispatched, hposting⟩ := ih hsettled (fun d' hd' =>
      (hprimary d'.2).trans (hassigned d' (List.mem_cons_of_mem _ hd')))
    rw [List.map_cons, Coro.atomically_forM_cons, hpost]
    refine ⟨hend, hdispatched, ?_⟩
    rw [hposting]
    simp [hs₁, World.post, noteCacheHitMax]

/-! ## Whole calls -/

/-- `get_schedulable_waiting_req_list` pops requests that are assigned to the replica whose
queue they came from. -/
theorem getSchedulable_settled {submitted : List Request} {l : Frame} {w : World n κ}
    (h : Settled submitted w) (hl : l.schedulableWaitingReqList = []) :
    ∃ popped l' w', utils.getSchedulableWaitingReqList.atomically (l, w) =
        (popped.map Prod.snd, l', w') ∧
      Settled submitted w' ∧ w'.postingRequestTasks = w.postingRequestTasks ∧
      w'.dispatched = w.dispatched ++ popped ∧
      ∀ d ∈ popped, (w'.attrs d.2).primaryReplica = (d.1 : ℕ) := by
  obtain ⟨hlocals, hrearranges, hsettled⟩ :=
    utils.rebalanceTurns_settled (List.finRange n) (s := (l, w)) h
  set s₁ := (((List.finRange n).forM utils.rebalanceTurn).atomically (l, w)).2 with hs₁
  -- the pops start with an empty list
  have hstart : Popping submitted w s₁ := by
    refine ⟨hsettled, hrearranges.postingRequestTasks, [], ?_, ?_, by simp⟩
    · rw [hrearranges.dispatched, List.append_nil]
    · rw [hlocals]
      exact hl
  have hend := utils.popTurns_popping (List.finRange n) hstart
  set s₂ := (((List.finRange n).forM utils.popTurn).atomically s₁).2 with hs₂
  obtain ⟨popped, hdispatched, hlist, hassigned⟩ := hend.popped
  refine ⟨popped, s₂.1, s₂.2, ?_, hend.settled, hend.posting, hdispatched, hassigned⟩
  rw [getSchedulableWaitingReqList, Coro.atomically_bind, ← hs₁, Coro.atomically_bind, ← hs₂,
    Coro.atomically_read, hlist]

/-- `schedule` posts every request it pops to the replica whose queue it came from. -/
theorem schedule_settled {submitted : List Request} {newRequest : Option Request}
    {w : World n κ} (h : Settled submitted w)
    (hnew : ∀ request ∈ newRequest, request ∉ submitted ∧
      utils.StaysPut w request) :
    let w' := ((utils.schedule newRequest).atomically (Frame.enter newRequest, w)).2.2
    Settled (newRequest.toList ++ submitted) w' ∧
      ∃ popped, w'.dispatched = w.dispatched ++ popped ∧
        w'.postingRequestTasks = w.postingRequestTasks ++ popped := by
  -- the placement, if there is one, leaves a settled world
  have hplace : ∃ l₁ w₁, ((utils.placeNew newRequest).atomically
        (Frame.enter newRequest, w)).2 = (l₁, w₁) ∧
      Settled (newRequest.toList ++ submitted) w₁ ∧ l₁.schedulableWaitingReqList = [] ∧
      w₁.postingRequestTasks = w.postingRequestTasks ∧ w₁.dispatched = w.dispatched := by
    cases newRequest with
    | none => exact ⟨Frame.enter none, w, rfl, h, rfl, rfl, rfl⟩
    | some request =>
      obtain ⟨hfresh, hstays⟩ := hnew request rfl
      obtain ⟨w₁, hend, hsettled, hposting, hdispatched⟩ :=
        utils.placeRequest_settled h hfresh hstays
      refine ⟨(Frame.enter (some request)).placed, w₁, ?_, hsettled, rfl, hposting, hdispatched⟩
      rw [placeNew, Coro.atomically_bind, Coro.atomically_suspend]
      exact hend
  obtain ⟨l₁, w₁, hw₁, hsettled₁, hlist, hposting₁, hdispatched₁⟩ := hplace
  obtain ⟨popped, l₂, w₂, hw₂, hsettled₂, hposting₂, hdispatched₂, hassigned⟩ :=
    utils.getSchedulable_settled hsettled₁ hlist
  have hpost := utils.postRequests_settled popped (s := (l₂, w₂)) hsettled₂ hassigned
  have hend : ((utils.schedule newRequest).atomically (Frame.enter newRequest, w)).2 =
      (((popped.map Prod.snd).forM utils.postRequest).atomically (l₂, w₂)).2 := by
    rw [schedule, Coro.atomically_bind, hw₁, Coro.atomically_bind, Coro.atomically_suspend,
      Coro.atomically_bind, hw₂, Coro.atomically_bind, Coro.pure_def, Coro.atomically_ret]
  intro w'
  -- so what is posted at the end is what was popped
  rw [show w' = (((popped.map Prod.snd).forM utils.postRequest).atomically (l₂, w₂)).2.2 from
    congrArg Prod.snd hend]
  obtain ⟨hsettled, hdispatched, hposting⟩ := hpost
  refine ⟨hsettled, popped, ?_, ?_⟩
  · rw [hdispatched, hdispatched₂, hdispatched₁]
  · rw [hposting, hposting₂, hposting₁]

/-! ## Runs -/

/-- The calls on the scheduler, and changes of loads and caches between them. -/
inductive SchedulerCall (n : ℕ) (κ : Type) where
  | add (request : Request)
  | rebalance (sourceReplicaId : Fin n) (numTargetMigratePrefillTokens : ℤ)
  | getSchedulable
  | schedule (newRequest : Option Request)
  | loads (replicaBudgets : Fin n → Replica κ) (actualNumPrefillTokens : Request → ℤ)

namespace SchedulerCall

/-- The request that a call submits. -/
def newRequest : SchedulerCall n κ → Option Request
  | add request => some request
  | schedule request => request
  | rebalance _ _ => none
  | getSchedulable => none
  | loads _ _ => none

/-- The world after a call. -/
def after (w : World n κ) : SchedulerCall n κ → World n κ
  | add request => ((utils.addRequestToBestGlobalQueue Frame.placed (some request)).atomically
      (Frame.enter (some request), w)).2.2
  | rebalance source amount =>
    ((utils.rebalanceReplicaGlobalWaitingReqs source amount).atomically
      (Frame.enter none, w)).2.2
  | getSchedulable =>
    (utils.getSchedulableWaitingReqList.atomically (Frame.enter none, w)).2.2
  | schedule request => ((utils.schedule request).atomically (Frame.enter request, w)).2.2
  | loads replicaBudgets actualNumPrefillTokens =>
    w.setLoads replicaBudgets actualNumPrefillTokens

/-- If the call places a request, this request stays put. -/
def StaysPut (w : World n κ) (call : SchedulerCall n κ) : Prop :=
  ∀ request ∈ call.newRequest, utils.StaysPut w request

end SchedulerCall

/-- The world after a sequence of calls. -/
def runCalls (w : World n κ) (calls : List (SchedulerCall n κ)) : World n κ :=
  calls.foldl (SchedulerCall.after utils) w

/-- The requests that the calls submit, latest first. -/
def submittedBy (calls : List (SchedulerCall n κ)) : List Request :=
  (calls.filterMap SchedulerCall.newRequest).reverse

/-- Every request that the run places stays put: its condition holds in the world in which
its call begins. -/
def CallsStayPut (w : World n κ) : List (SchedulerCall n κ) → Prop
  | [] => True
  | call :: calls => call.StaysPut utils w ∧ CallsStayPut (call.after utils w) calls

/-- One call keeps the world settled. -/
theorem SchedulerCall.after_settled {submitted : List Request} {w : World n κ}
    (h : Settled submitted w) (call : SchedulerCall n κ)
    (hnew : ∀ request ∈ call.newRequest, request ∉ submitted)
    (hstays : call.StaysPut utils w) :
    Settled (call.newRequest.toList ++ submitted) (call.after utils w) := by
  cases call with
  | add request =>
    obtain ⟨w', hend, hsettled, -⟩ :=
      utils.placeRequest_settled h (hnew request rfl) (hstays request rfl)
    show Settled _ ((utils.placeRequest Frame.placed request).atomically
      (Frame.enter (some request), w)).2.2
    rw [hend]
    exact hsettled
  | rebalance source amount =>
    -- a rebalancing moves requests between queues together with their assignment
    have hrearranges := (rearranges_atomically (utils.rebalance_rearranges source amount)
      (Frame.enter none, w)).2
    exact h.of_rearranges hrearranges (utils.rebalance_coherent source amount h.nodup h.coherent)
  | getSchedulable =>
    obtain ⟨popped, l', w', hend, hsettled, -⟩ :=
      utils.getSchedulable_settled (l := Frame.enter none) h rfl
    show Settled _ (utils.getSchedulableWaitingReqList.atomically (Frame.enter none, w)).2.2
    rw [hend]
    exact hsettled
  | schedule newRequest =>
    refine (utils.schedule_settled h ?_).1
    intro request hrequest
    exact ⟨hnew request hrequest, hstays request hrequest⟩
  | loads replicaBudgets actualNumPrefillTokens =>
    exact ⟨h.coherent.of_attrs (fun _ => rfl), h.nodup, h.known⟩

theorem runCalls_settled (calls : List (SchedulerCall n κ)) {submitted : List Request}
    {w : World n κ} (h : Settled submitted w)
    (hdistinct : (submittedBy calls ++ submitted).Nodup) (hstay : utils.CallsStayPut w calls) :
    Settled (submittedBy calls ++ submitted) (utils.runCalls w calls) := by
  induction calls generalizing submitted w with
  | nil => exact h
  | cons call calls ih =>
    -- the requests of the later calls come before those submitted so far
    have hsplit : submittedBy (call :: calls) ++ submitted =
        submittedBy calls ++ (call.newRequest.toList ++ submitted) := by
      cases hnew : call.newRequest with
      | none => simp [submittedBy, hnew]
      | some request => simp [submittedBy, hnew]
    rw [hsplit] at hdistinct ⊢
    apply ih _ hdistinct hstay.2
    apply SchedulerCall.after_settled utils h call _ hstay.1
    intro request hrequest
    have htail := (List.nodup_append.mp hdistinct).2.1
    rw [show call.newRequest = some request from hrequest] at htail
    exact (List.nodup_cons.mp htail).1

omit [LookupCache κ] in
theorem init_settled (replicaBudgets : Fin n → Replica κ) (attrs : Request → RequestAttrs) :
    Settled [] (World.init replicaBudgets attrs) where
  coherent := fun r item hitem => absurd hitem List.not_mem_nil
  nodup := by rw [World.init, queued_init]; exact Multiset.nodup_zero
  known := by simp [World.init]

theorem callsStayPut_concat (before : List (SchedulerCall n κ)) (call : SchedulerCall n κ)
    {w : World n κ} (h : utils.CallsStayPut w (before ++ [call])) :
    utils.CallsStayPut w before ∧ call.StaysPut utils (utils.runCalls w before) := by
  induction before generalizing w with
  | nil => exact ⟨trivial, h.1⟩
  | cons first before ih =>
    obtain ⟨hbefore, hcall⟩ := ih h.2
    exact ⟨⟨h.1, hbefore⟩, hcall⟩

/-- In every run whose requests arrived at different times and stay put when they are placed,
queues and assignments are coherent, and `schedule` posts what it pops for a replica to that
replica. -/
theorem dispatch_coherent (replicaBudgets : Fin n → Replica κ)
    (attrs : Request → RequestAttrs) (calls : List (SchedulerCall n κ))
    (harrivals : ((submittedBy calls).map Request.arrivedAt).Nodup)
    (hstay : utils.CallsStayPut (.init replicaBudgets attrs) calls) :
    let run := utils.runCalls (.init replicaBudgets attrs)
    Coherent (run calls) ∧
      ∀ before newRequest, calls = before ++ [.schedule newRequest] →
        ∃ popped, (run calls).dispatched = (run before).dispatched ++ popped ∧
          (run calls).postingRequestTasks = (run before).postingRequestTasks ++ popped := by
  intro run
  have hinit := init_settled replicaBudgets attrs
  have hdistinct := List.Nodup.of_map _ harrivals
  constructor
  · have hend := utils.runCalls_settled calls hinit (by simpa using hdistinct) hstay
    exact hend.coherent
  · rintro before newRequest rfl
    obtain ⟨hbefore, hlast⟩ := utils.callsStayPut_concat before _ hstay
    have hsplit : submittedBy (before ++ [.schedule newRequest]) =
        newRequest.toList ++ submittedBy before := by
      cases newRequest with
      | none => simp [submittedBy, SchedulerCall.newRequest]
      | some request => simp [submittedBy, SchedulerCall.newRequest]
    rw [hsplit] at hdistinct
    -- the run before the last call is settled, and that call posts what it pops
    have hsettled := utils.runCalls_settled before hinit
      (by simpa using (List.nodup_append.mp hdistinct).2.1) hbefore
    have hrun : run (before ++ [.schedule newRequest]) =
        ((utils.schedule newRequest).atomically (Frame.enter newRequest, run before)).2.2 := by
      simp [run, runCalls, SchedulerCall.after]
    rw [hrun]
    apply (utils.schedule_settled hsettled _).2
    rintro request rfl
    refine ⟨?_, hlast request rfl⟩
    rw [List.append_nil]
    exact (List.nodup_cons.mp hdistinct).1

/-- A request of sixty tokens, for which no replica of the instance has room. -/
def sixtyTokenRequest (id : ℕ) : Request :=
  { oneTokenRequest id with inputIds := List.replicate 60 id, numPrefillTokens := 60 }

/-- The first request finds empty queues. The second one finds both candidates overloaded and
nowhere to go: its rebalancing migrates the first request instead. -/
theorem dispatch_coherent_migrated :
    let run := tightUtils.runCalls tightWorld
    let placed := [.add (oneTokenRequest 1), .add (sixtyTokenRequest 2)]
    let calls := placed ++ [.schedule none]
    oneTokenRequest 1 ∈ (run placed).globalRequestQueue.queuedAt 2 ∧
      sixtyTokenRequest 2 ∈ (run placed).globalRequestQueue.queuedAt 0 ∧
      (run calls).postingRequestTasks = [(0, sixtyTokenRequest 2), (2, oneTokenRequest 1)] ∧
      Coherent (run calls) ∧
      ∃ popped, (run calls).dispatched = (run placed).dispatched ++ popped ∧
        (run calls).postingRequestTasks = (run placed).postingRequestTasks ++ popped := by
  intro run placed calls
  have hstay : tightUtils.CallsStayPut tightWorld calls := by
    refine ⟨?_, ?_, ?_, trivial⟩
    · rintro request ⟨⟩
      decide +kernel
    · rintro request ⟨⟩
      decide +kernel
    · rintro request ⟨⟩
  obtain ⟨hcoherent, hposts⟩ := tightUtils.dispatch_coherent tightWorld.replicaBudgets
    tightWorld.attrs calls (by decide +kernel) hstay
  exact ⟨by decide +kernel, by decide +kernel, by decide +kernel, hcoherent,
    hposts placed none rfl⟩

/-- The second placement finds both candidates overloaded, and its rebalancing migrates both
requests to the third replica. The second request is then assigned to the first one. -/
theorem dispatch_incoherent :
    ¬ Coherent (tightUtils.runCalls tightWorld
      [.add (oneTokenRequest 1), .add (oneTokenRequest 2)]) := by
  unfold Coherent
  decide +kernel

end DoubleHashGlobalSchedulerUtils

end DualMap.Scheduler
