import DualMap.Cache.BlockPool
import DualMap.Scheduler.QueuedRequests
import DualMap.Scheduler.Readings

/-!
# Safety of Rebalancing

Every turn of the migration loop moves one request from the source to a replica that has
room for it. The lists that the loop keeps by hand stay equal to the counters of the
queues; this is what makes the load test of a later turn see the requests moved before.

Main results: the loop ends (`migrateNext_terminates`), and `rebalance_safe`.
-/

namespace DualMap.Scheduler.DoubleHashGlobalSchedulerUtils

open Cache GlobalRequestQueue

variable {n : ℕ} {κ ν : Type} [LookupCache κ] (utils : DoubleHashGlobalSchedulerUtils n)

/-! ## What a turn selects -/

/-- A chosen neighbour is another replica, and it has room for the request. -/
theorem chooseNeighbor_spec {source other target : Fin n} {st : RebalanceState n κ}
    {request : Request} (h : utils.chooseNeighbor source st other request = some target) :
    target ≠ source ∧ ¬ utils.TargetOverloaded st target request := by
  simp only [chooseNeighbor] at h
  split_ifs at h with _ hsame hfull
  rw [← Option.some.inj h]
  exact ⟨(not_or.mp hsame).1, hfull⟩

/-- A chosen target is another replica, and it has room for the request. -/
theorem chooseTarget_spec {source target : Fin n} {st : RebalanceState n κ}
    {request : Request} (h : utils.chooseTarget source st request = some target) :
    target ≠ source ∧ ¬ utils.TargetOverloaded st target request := by
  simp only [chooseTarget] at h
  generalize (if source = (utils.candidates request).1 then (utils.candidates request).2
    else (utils.candidates request).1) = other at h
  split at h
  · exact utils.chooseNeighbor_spec h
  · next hfirst =>
    obtain ⟨hne, hroom⟩ := not_or.mp hfirst
    rw [← Option.some.inj h]
    exact ⟨fun hsame => hne hsame.symm, hroom⟩

/-- What is known of a migration that a turn selects. -/
structure Selected (source : Fin n) (amount : ℤ) (st : RebalanceState n κ)
    (migration : Migration n) : Prop where
  queued : migration.request ∈ st.world.globalRequestQueue.queuedAt source
  chosen : utils.chooseTarget source st migration.request = some migration.targetReplicaId
  ne : migration.targetReplicaId ≠ source
  room : ¬ utils.TargetOverloaded st migration.targetReplicaId migration.request
  sourceLen : migration.sourceActualPrefillLen =
    st.world.recomputeLen source migration.request
  targetLen : migration.targetActualPrefillLen =
    st.world.recomputeLen migration.targetReplicaId migration.request
  below : 0 < amount → st.curNumMigratedPrefillTokens < amount

theorem requestsMigrateCost_spec {source : Fin n} {st : RebalanceState n κ}
    {migration : Migration n} (h : migration ∈ utils.requestsMigrateCost source st) :
    migration.request ∈ st.world.globalRequestQueue.queuedAt source ∧
      utils.chooseTarget source st migration.request = some migration.targetReplicaId ∧
      migration.sourceActualPrefillLen = st.world.recomputeLen source migration.request ∧
      migration.targetActualPrefillLen =
        st.world.recomputeLen migration.targetReplicaId migration.request := by
  obtain ⟨⟨request, reqIndex⟩, hmem, hmigration⟩ := List.mem_filterMap.mp h
  obtain ⟨target, htarget, rfl⟩ := Option.map_eq_some_iff.mp hmigration
  -- the indices run over the queue of the source
  have hrequest : request ∈ st.world.globalRequestQueue.getAllRequests source :=
    List.fst_mem_of_mem_zipIdx hmem
  exact ⟨Multiset.mem_coe.mpr hrequest, htarget, rfl, rfl⟩

theorem nextMigration_selected {source : Fin n} {amount : ℤ} {st : RebalanceState n κ}
    {migration : Migration n} (h : utils.nextMigration source amount st = some migration) :
    utils.Selected source amount st migration := by
  unfold nextMigration at h
  split at h
  · cases h
  · next cheapest hhead =>
    split_ifs at h with hcost hdone
    rw [← Option.some.inj h]
    -- sorting only rearranges the candidates
    have hmem : cheapest ∈ utils.requestsMigrateCost source st :=
      (List.perm_insertionSort _ _).subset (List.mem_of_mem_head? hhead)
    obtain ⟨hqueued, htarget, hsource, htargetLen⟩ := utils.requestsMigrateCost_spec hmem
    obtain ⟨hne, hroom⟩ := utils.chooseTarget_spec htarget
    refine ⟨hqueued, htarget, hne, hroom, hsource, htargetLen, ?_⟩
    -- the amount asked for was not reached when the loop went on
    intro hamount
    rw [not_and_or] at hdone
    exact lt_of_not_ge (hdone.resolve_left (not_not.mpr hamount))

theorem migrateNext_selected {source : Fin n} {amount : ℤ} {st st' : RebalanceState n κ}
    (h : utils.migrateNext source amount st = some st') :
    ∃ migration, utils.nextMigration source amount st = some migration ∧
      utils.Selected source amount st migration ∧
      st' = st.migrate source migration := by
  obtain ⟨migration, hnext, hst'⟩ := Option.map_eq_some_iff.mp h
  exact ⟨migration, hnext, utils.nextMigration_selected hnext, hst'.symm⟩

/-- A selected migration moves its request to the target. -/
theorem Selected.moves {utils : DoubleHashGlobalSchedulerUtils n} {source : Fin n} {amount : ℤ}
    {st : RebalanceState n κ} {migration : Migration n}
    (h : utils.Selected source amount st migration) :
    Moves st.world.globalRequestQueue source migration.targetReplicaId migration.request
      migration.targetActualPrefillLen
      (st.migrate source migration).world.globalRequestQueue :=
  delReq_push_moves h.queued h.ne migration.targetActualPrefillLen

/-! ## Termination -/

/-- The loop ends: every turn shortens the queue of the source. More turns than its
length change nothing. -/
theorem migrateNext_terminates (source : Fin n) (amount : ℤ)
    (lists : Fin n → ReplicaSnapshot) (w : World n κ) :
    ∃ st, utils.migrateFrom source amount lists w = (st.migrations, st.world) ∧
      ∀ turns, w.globalRequestQueue.getQueueLen source < turns →
        whileLoop (utils.migrateNext source amount) turns (.start lists w) = some st := by
  -- the measure is the length of the source queue, no invariant is needed
  have hturn : ∀ st st' : RebalanceState n κ, True →
      utils.migrateNext source amount st = some st' → True ∧
      st'.world.globalRequestQueue.getQueueLen source <
        st.world.globalRequestQueue.getQueueLen source := by
    intro st st' _ hbody
    obtain ⟨migration, -, hselected, rfl⟩ := utils.migrateNext_selected hbody
    obtain ⟨lost, -, htaken⟩ := hselected.moves.taken
    refine ⟨trivial, ?_⟩
    rw [getQueueLen, getQueueLen, htaken.length_eq, List.length_cons]
    exact Nat.lt_succ_self _
  obtain ⟨st, hst⟩ := whileLoop_terminates
    (fun st : RebalanceState n κ => st.world.globalRequestQueue.getQueueLen source) hturn
    (s := RebalanceState.start lists w) trivial (Nat.lt_succ_self _)
  refine ⟨st, ?_, ?_⟩
  · rw [migrateFrom]
    simp only [RebalanceState.start] at hst ⊢
    rw [hst]
  · intro turns hturns
    exact whileLoop_of_le hturns hst

/-! ## The invariant of the loop -/

/-- What holds between the world `w` before a rebalancing of `source` and the world `w'`
after the migrations made so far. -/
structure SafelyRebalanced (source : Fin n) (amount : ℤ) (w w' : World n κ)
    (migrations : List (Migration n)) : Prop where
  /-- Nothing but queues and assignments changes. -/
  replicas : ∀ r request, w'.recomputeLen r request = w.recomputeLen r request ∧
    w'.getNumActualPendingTokensReplica r = w.getNumActualPendingTokensReplica r
  /-- The same requests are queued, each as often as before. -/
  queued : w'.globalRequestQueue.queued = w.globalRequestQueue.queued
  counters : w'.globalRequestQueue.CountersAgree
  /-- The source loses the entries of the migrated requests and gains nothing. -/
  lost : ∃ lost, lost.map Entry.req = migrations.map Migration.request ∧
    (w.globalRequestQueue.queues source).Perm (lost ++ w'.globalRequestQueue.queues source)
  /-- Every other replica gains the requests migrated to it and loses nothing. -/
  gained : ∀ t, t ≠ source → ∃ gained, (gained.map Entry.req).Perm
      ((migrations.filter (fun m => m.targetReplicaId = t)).map Migration.request) ∧
    (w'.globalRequestQueue.queues t).Perm (gained ++ w.globalRequestQueue.queues t)
  /-- Every migrated request waits at its target, which is its primary replica now. -/
  assigned : ∀ m ∈ migrations, m.targetReplicaId ≠ source ∧
    m.request ∈ w'.globalRequestQueue.queuedAt m.targetReplicaId ∧
    (w'.attrs m.request).primaryReplica = (m.targetReplicaId : ℕ) ∧
    (w'.attrs m.request).secondReplica = (source : ℕ)
  /-- No replica that gained a request is loaded beyond the threshold. -/
  load : ∀ m ∈ migrations,
    w'.globalRequestQueue.getGlobalActualWaitingTokensCount m.targetReplicaId +
      w'.getNumActualPendingTokensReplica m.targetReplicaId ≤ utils.dhRebalanceThredhold
  /-- Without the last migration, less than the amount asked for was migrated. -/
  amount : 0 < amount →
    (migrations.dropLast.map (fun m => w.recomputeLen source m.request)).sum < amount

/-- The invariant of the loop: so far it was safe, and its own lists and its count of
migrated tokens are right. -/
structure RebalanceInvariant (source : Fin n) (amount : ℤ) (w : World n κ)
    (st : RebalanceState n κ) : Prop where
  safe : utils.SafelyRebalanced source amount w st.world st.migrations
  lists : ∀ t, t ≠ source → SnapshotAt st.world st.lists t
  migrated : st.curNumMigratedPrefillTokens =
    (st.migrations.map (fun m => w.recomputeLen source m.request)).sum

/-- Reading changes nothing that matters here. -/
theorem SafelyRebalanced.of_reads {source : Fin n} {amount : ℤ} {w w' : World n κ}
    (hreads : w.Reads w') (hcounters : w.globalRequestQueue.CountersAgree) :
    utils.SafelyRebalanced source amount w w' [] where
  replicas r request := ⟨hreads.recomputeLen r request, hreads.actualPending r⟩
  queued := by rw [hreads.globalRequestQueue]
  counters := by rw [hreads.globalRequestQueue]; exact hcounters
  lost := ⟨[], rfl, by rw [hreads.globalRequestQueue]; exact List.Perm.refl _⟩
  gained := fun t _ =>
    ⟨[], List.Perm.refl _, by rw [hreads.globalRequestQueue]; exact List.Perm.refl _⟩
  assigned := by simp
  load := by simp
  amount := by simp

section Turn

variable {utils} {source : Fin n} {amount : ℤ} {w : World n κ} {st : RebalanceState n κ}
  {migration : Migration n}

/-- A request that migrated before is not the one selected now: it has left the source. -/
theorem RebalanceInvariant.fresh (h : utils.RebalanceInvariant source amount w st)
    (hnodup : w.globalRequestQueue.queued.Nodup)
    (hselected : utils.Selected source amount st migration) {m : Migration n}
    (hm : m ∈ st.migrations) : m.request ≠ migration.request := by
  intro hsame
  obtain ⟨hne, hqueued, -, -⟩ := h.safe.assigned m hm
  -- it would wait at its target and at the source
  rw [hsame] at hqueued
  rw [← h.safe.queued] at hnodup
  exact hne (queuedAt_unique hnodup hqueued hselected.queued)

/-- The counter of a target after the migration. -/
theorem Selected.counter (hselected : utils.Selected source amount st migration) {t : Fin n}
    (ht : t ≠ source) :
    (st.migrate source migration).world.globalRequestQueue.queuesGlobalActualWaitingTokensCount t =
      if t = migration.targetReplicaId then
        st.world.globalRequestQueue.queuesGlobalActualWaitingTokensCount t +
          migration.targetActualPrefillLen
      else st.world.globalRequestQueue.queuesGlobalActualWaitingTokensCount t := by
  split
  · next htarget =>
    rw [htarget]
    exact hselected.moves.targetTokens
  · next htarget => exact (hselected.moves.others t ht htarget).2.1

/-- The lists follow the counters through a migration. -/
theorem RebalanceInvariant.lists_migrate (h : utils.RebalanceInvariant source amount w st)
    (hselected : utils.Selected source amount st migration) (t : Fin n) (ht : t ≠ source) :
    SnapshotAt (st.migrate source migration).world
      (st.migrate source migration).lists t := by
  obtain ⟨hwaiting, hpending⟩ := h.lists t ht
  have hsame : (st.migrate source migration).world.getNumActualPendingTokensReplica
      t = st.world.getNumActualPendingTokensReplica t := rfl
  -- the loop adds to its list what the push adds to the counter
  rw [SnapshotAt, hselected.counter ht, hsame, ← hwaiting, ← hpending]
  by_cases htarget : t = migration.targetReplicaId
  · simp [RebalanceState.migrate, htarget]
  · simp [RebalanceState.migrate, htarget]

/-- The load test leaves room for the request at its target. -/
theorem RebalanceInvariant.load_target (h : utils.RebalanceInvariant source amount w st)
    (hselected : utils.Selected source amount st migration) :
    (st.migrate source migration).world.globalRequestQueue.queuesGlobalActualWaitingTokensCount
        migration.targetReplicaId +
      st.world.getNumActualPendingTokensReplica migration.targetReplicaId ≤
      utils.dhRebalanceThredhold := by
  obtain ⟨hwaiting, hpending⟩ := h.lists _ hselected.ne
  -- the test was made with the lists, which agree with the counters
  have hroom := (not_or.mp hselected.room).1
  rw [hwaiting, hpending, ← hselected.targetLen] at hroom
  rw [hselected.counter hselected.ne, if_pos rfl]
  linarith

theorem RebalanceInvariant.lost_migrate (h : utils.RebalanceInvariant source amount w st)
    (hselected : utils.Selected source amount st migration) :
    ∃ lost, lost.map Entry.req = (st.migrations ++ [migration]).map Migration.request ∧
      (w.globalRequestQueue.queues source).Perm (lost ++
        (st.migrate source migration).world.globalRequestQueue.queues source) := by
  obtain ⟨lost, hreqs, hperm⟩ := h.safe.lost
  obtain ⟨item, hitem, htaken⟩ := hselected.moves.taken
  refine ⟨lost ++ [item], ?_, ?_⟩
  · simp [hreqs, hitem]
  · rw [List.append_assoc]
    exact hperm.trans (htaken.append_left lost)

theorem RebalanceInvariant.gained_migrate (h : utils.RebalanceInvariant source amount w st)
    (hselected : utils.Selected source amount st migration) (t : Fin n) (ht : t ≠ source) :
    ∃ gained, (gained.map Entry.req).Perm
        (((st.migrations ++ [migration]).filter (fun m => m.targetReplicaId = t)).map
          Migration.request) ∧
      ((st.migrate source migration).world.globalRequestQueue.queues t).Perm
        (gained ++ w.globalRequestQueue.queues t) := by
  obtain ⟨gained, hreqs, hperm⟩ := h.safe.gained t ht
  -- the target gains one entry, every other replica stays as it is
  by_cases htarget : t = migration.targetReplicaId
  · obtain ⟨item, hitem, -, hadded⟩ := hselected.moves.added
    refine ⟨item :: gained, ?_, ?_⟩
    · rw [List.filter_append, List.map_append]
      simp only [htarget, decide_true, List.filter_cons_of_pos, List.filter_nil,
        List.map_cons, List.map_nil, hitem] at hreqs ⊢
      exact (hreqs.cons _).trans (List.perm_append_singleton _ _).symm
    · rw [htarget] at hperm ⊢
      exact hadded.trans (hperm.cons item)
  · refine ⟨gained, ?_, ?_⟩
    · rw [List.filter_append]
      simpa [Ne.symm htarget] using hreqs
    · rw [(hselected.moves.others t ht htarget).1]
      exact hperm

theorem RebalanceInvariant.assigned_migrate (h : utils.RebalanceInvariant source amount w st)
    (hnodup : w.globalRequestQueue.queued.Nodup)
    (hselected : utils.Selected source amount st migration) (m : Migration n)
    (hm : m ∈ st.migrations ++ [migration]) :
    m.targetReplicaId ≠ source ∧
      m.request ∈ (st.migrate source migration).world.globalRequestQueue.queuedAt
        m.targetReplicaId ∧
      ((st.migrate source migration).world.attrs m.request).primaryReplica =
        (m.targetReplicaId : ℕ) ∧
      ((st.migrate source migration).world.attrs m.request).secondReplica =
        (source : ℕ) := by
  rcases List.mem_append.mp hm with hold | hnew
  · -- migrated before: neither its place nor its assignment is touched
    have hfresh := h.fresh hnodup hselected hold
    obtain ⟨hne, hqueued, hprimary, hsecond⟩ := h.safe.assigned m hold
    refine ⟨hne, hselected.moves.stays hfresh hqueued, ?_, ?_⟩
    · simpa [RebalanceState.migrate, World.assignReplicas, hfresh] using hprimary
    · simpa [RebalanceState.migrate, World.assignReplicas, hfresh] using hsecond
  · rw [List.mem_singleton.mp hnew]
    refine ⟨hselected.ne, hselected.moves.mem_queuedAt_target, ?_, ?_⟩
    · simp [RebalanceState.migrate, World.assignReplicas]
    · simp [RebalanceState.migrate, World.assignReplicas]

theorem RebalanceInvariant.load_migrate (h : utils.RebalanceInvariant source amount w st)
    (hselected : utils.Selected source amount st migration) (m : Migration n)
    (hm : m ∈ st.migrations ++ [migration]) :
    (st.migrate source migration).world.globalRequestQueue.getGlobalActualWaitingTokensCount
        m.targetReplicaId +
      st.world.getNumActualPendingTokensReplica m.targetReplicaId ≤
      utils.dhRebalanceThredhold := by
  by_cases htarget : m.targetReplicaId = migration.targetReplicaId
  · rw [htarget]
    exact h.load_target hselected
  · have hold : m ∈ st.migrations := by
      rcases List.mem_append.mp hm with hold | hnew
      · exact hold
      · exact absurd (congrArg _ (List.mem_singleton.mp hnew)) htarget
    rw [getGlobalActualWaitingTokensCount,
      hselected.counter (h.safe.assigned m hold).1, if_neg htarget]
    exact h.safe.load m hold

/-- One turn of the loop keeps the invariant. -/
theorem RebalanceInvariant.migrate (h : utils.RebalanceInvariant source amount w st)
    (hnodup : w.globalRequestQueue.queued.Nodup)
    (hselected : utils.Selected source amount st migration) :
    utils.RebalanceInvariant source amount w (st.migrate source migration) where
  safe := {
    replicas := h.safe.replicas
    queued := hselected.moves.queued.trans h.safe.queued
    counters := hselected.moves.counters.mpr h.safe.counters
    lost := h.lost_migrate hselected
    gained := h.gained_migrate hselected
    assigned := h.assigned_migrate hnodup hselected
    load := h.load_migrate hselected
    amount := by
      intro hamount
      -- all earlier migrations together were below the amount when this one was selected
      have hbelow := hselected.below hamount
      rw [h.migrated] at hbelow
      simpa [RebalanceState.migrate] using hbelow }
  lists := h.lists_migrate hselected
  migrated := by
    have hlen : migration.sourceActualPrefillLen = w.recomputeLen source migration.request :=
      hselected.sourceLen.trans (h.safe.replicas source migration.request).1
    simp [RebalanceState.migrate, h.migrated, hlen]

end Turn

/-! ## The whole call -/

/-- The loop, from the lists filled just before, is safe. -/
theorem migrateFrom_safe (source : Fin n) (amount : ℤ) {lists : Fin n → ReplicaSnapshot}
    {w w₁ : World n κ} (hreads : w.Reads w₁)
    (hcounters : w.globalRequestQueue.CountersAgree)
    (hnodup : w.globalRequestQueue.queued.Nodup) (hlists : ∀ t, SnapshotAt w₁ lists t) :
    utils.SafelyRebalanced source amount w (utils.migrateFrom source amount lists w₁).2
      (utils.migrateFrom source amount lists w₁).1 := by
  obtain ⟨st, hresult, hloop⟩ := utils.migrateNext_terminates source amount lists w₁
  obtain ⟨hturns, -⟩ := turnsTo_of_whileLoop (hloop _ (Nat.lt_succ_self _))
  have hstart : utils.RebalanceInvariant source amount w (.start lists w₁) :=
    ⟨.of_reads utils hreads hcounters, fun t _ => hlists t, rfl⟩
  -- the invariant at the last turn says what the whole loop has done
  have hend : utils.RebalanceInvariant source amount w st := by
    apply hturns.invariant hstart
    intro st st' _ hst hbody
    obtain ⟨migration, -, hselected, rfl⟩ := utils.migrateNext_selected hbody
    exact hst.migrate hnodup hselected
  rw [hresult]
  exact hend.safe

/-- Rebalancing a replica ends and is safe: requests only move from it to replicas that
have room for them, and are assigned where they now wait. -/
theorem rebalance_safe (l : ν) (w : World n κ) (source : Fin n) (amount : ℤ)
    (hcounters : w.globalRequestQueue.CountersAgree)
    (harrivals : (w.globalRequestQueue.queued.map Request.arrivedAt).Nodup) :
    (∀ lists (w₁ : World n κ), ∃ st,
      utils.migrateFrom source amount lists w₁ = (st.migrations, st.world) ∧
      ∀ turns, w₁.globalRequestQueue.getQueueLen source < turns →
        whileLoop (utils.migrateNext source amount) turns (.start lists w₁) = some st) ∧
    ∃ migrations w',
      (utils.rebalanceReplicaGlobalWaitingReqs source amount).atomically (l, w) =
        (migrations, l, w') ∧
      utils.SafelyRebalanced source amount w w' migrations := by
  refine ⟨utils.migrateNext_terminates source amount, ?_⟩
  have hidle : utils.SafelyRebalanced source amount w w [] := .of_reads utils (.refl w) hcounters
  -- the two early returns change nothing at all
  by_cases htype : utils.balanceType ≠ .dualmap
  · exact ⟨[], w, by simp [rebalanceReplicaGlobalWaitingReqs, htype], hidle⟩
  · by_cases hlen : w.globalRequestQueue.getQueueLen source ≤ 1
    · refine ⟨[], w, ?_, hidle⟩
      simp [rebalanceReplicaGlobalWaitingReqs, htype, look, rebalanceQueue, hlen]
    · obtain ⟨w₁, hw₁, hreads⟩ := reads_atomically utils.snapshotReplicas_reads l w
      have hsafe := utils.migrateFrom_safe source amount hreads hcounters
        (Multiset.Nodup.of_map _ harrivals)
        (fun t => (SnapshotAt.of_reads hreads).mpr (utils.snapshotReplicas_spec l w t))
      refine ⟨_, _, ?_, hsafe⟩
      simp [rebalanceReplicaGlobalWaitingReqs, htype, look, rebalanceQueue, hlen, hw₁]

/-! ## An instance: two overloaded replicas and an idle one -/

/-- Three replicas, where every session hashes to the first two. -/
def tightUtils : DoubleHashGlobalSchedulerUtils 3 where
  balanceType := .dualmap
  dhFirstBalanceTtftThredhold := 50
  dhRebalanceThredhold := 50
  dhReplicaPendingReqThreshold := 1
  dhRebalanceWaitingLatencyThredhold := 3
  prefillTpot := 1 / 100
  dhRecomputePunishRatio := 1
  busyPrefillInterval := 2
  hashFunction1 _ := 0
  hashFunction2 _ := 1
  perfCounter k := k / 1000
  sampleSwaps := false
  fl := id

/-- The cache of the code, over a pool of a single block. -/
abbrev SmallStore := PrefixKvCacheStore PrefixKVCacheMgr.encodingRuntime

/-- A replica with a budget of 200 tokens, of which so many are left. -/
def replicaWithBudget (currentBudget : ℤ) : Replica SmallStore :=
  { Replica.init 200 1 (PrefixKvCacheStore.init _ PrefixKVCacheMgr.singleBlockEngine) with
    currentBudget := currentBudget }

/-- A request of one token. -/
def oneTokenRequest (id : ℕ) : Request where
  id := id
  hashSessionId := "s"
  inputIds := [id]
  numPrefillTokens := 1
  outputLen := 1
  arrivedAt := id / 10000

/-- The first two replicas are overloaded, the third is idle, and nothing is queued. -/
def tightWorld : World 3 SmallStore :=
  .init (fun r => if r = 0 then replicaWithBudget 100 else if r = 1 then replicaWithBudget 80
    else replicaWithBudget 200)
    (fun request => { actualNumPrefillTokens := request.numPrefillTokens })

/-- Two requests wait at the first replica. -/
def twoWaiting : World 3 SmallStore :=
  { tightWorld with
    globalRequestQueue :=
      ((GlobalRequestQueue.init 3).push 0 (oneTokenRequest 1) 0).push 0 (oneTokenRequest 2) 0 }

/-- Both requests are moved to the idle replica. -/
theorem rebalance_safe_twoWaiting :
    ∃ migrations w',
      (tightUtils.rebalanceReplicaGlobalWaitingReqs 0 52).atomically ((), twoWaiting) =
        (migrations, (), w') ∧
      migrations.length = 2 ∧ tightUtils.SafelyRebalanced 0 52 twoWaiting w' migrations := by
  have hcounters : twoWaiting.globalRequestQueue.CountersAgree :=
    (push_removes _ _ _ _).countersAgree.mp ((push_removes _ _ _ _).countersAgree.mp
      (init_countersAgree 3))
  have harrivals : (twoWaiting.globalRequestQueue.queued.map Request.arrivedAt).Nodup := by
    decide +kernel
  obtain ⟨-, migrations, w', hrun, hsafe⟩ :=
    tightUtils.rebalance_safe () twoWaiting 0 52 hcounters harrivals
  have hlength : ((tightUtils.rebalanceReplicaGlobalWaitingReqs 0 52).atomically
      ((), twoWaiting)).1.length = 2 := by
    decide +kernel
  rw [hrun] at hlength
  exact ⟨migrations, w', hrun, hlength, hsafe⟩

end DualMap.Scheduler.DoubleHashGlobalSchedulerUtils
