import DualMap.Scheduler.DispatchCoherence

/-!
# The Steps of a Scheduling Call

`World.CallStep` lists what one operation of a `schedule` call does to the world, and
`schedule_takes` says that a call does nothing else. What every step keeps is then kept by
all calls, in any interleaving.

The first use is `World.Advances`: a call never changes an amount reserved at a replica,
takes no replica away from a request, and only appends to what is posted.
-/

namespace DualMap.Scheduler

open Cache GlobalRequestQueue DoubleHashGlobalSchedulerUtils

variable {n : ℕ} {κ ν : Type}

/-- What one operation of a `schedule` call does to the world. -/
inductive World.CallStep [LookupCache κ] (utils : DoubleHashGlobalSchedulerUtils n) :
    World n κ → World n κ → Prop where
  | read {w w' : World n κ} (h : w.Reads w') : CallStep utils w w'
  /-- The choice of a placement is noted in the request. -/
  | noteChoice (placement : Placement n) (request : Request) (w : World n κ) :
      CallStep utils w (noteChoice placement request w)
  | push (replicaId : Fin n) (request : Request) (hit : ℤ) (w : World n κ) :
      CallStep utils w (w.push replicaId request hit)
  | migrate (sourceReplicaId : Fin n) (amount : ℤ) (lists : Fin n → ReplicaSnapshot)
      (w : World n κ) :
      CallStep utils w (utils.migrateFrom sourceReplicaId amount lists w).2
  | assign (request : Request) (primary second : Fin n) (w : World n κ) :
      CallStep utils w (w.assignReplicas request primary second)
  | pop (rid : Fin n) (states : LoadStates) (prefillInterval : ℚ) (l : Frame) (w : World n κ) :
      CallStep utils w (utils.popWaiting rid states prefillInterval (l, w)).2
  | noteCacheHitMax (replicaId : Fin n) (request : Request) (w : World n κ) :
      CallStep utils w (noteCacheHitMax replicaId request w)
  | post (replicaId : Fin n) (request : Request) (w : World n κ) :
      CallStep utils w (w.post replicaId request)

namespace DoubleHashGlobalSchedulerUtils

variable [LookupCache κ] (utils : DoubleHashGlobalSchedulerUtils n)

/-! ## A call takes such steps only -/

theorem reads_takes {α : Type} {c : Coro (ν × World n κ) α} (hc : c.Keeps World.Reads) :
    c.Takes (World.CallStep utils) :=
  (hc.mono (fun _ _ => .read)).takes

theorem rebalance_takes (source : Fin n) (amount : ℤ) :
    (utils.rebalanceReplicaGlobalWaitingReqs source amount : Coro (ν × World n κ) _).Takes
      (World.CallStep utils) := by
  unfold rebalanceReplicaGlobalWaitingReqs
  split
  · exact Coro.Takes.pure _
  · apply (utils.reads_takes (look_reads _)).bind
    intro globalNumRequestWaiting
    unfold rebalanceQueue
    split
    · exact Coro.Takes.pure _
    · apply (utils.reads_takes utils.snapshotReplicas_reads).bind
      intro lists
      exact (Coro.Keeps.shared (.migrate source amount lists)).takes

theorem rebalanceCandidates_takes (placement : Placement n) :
    (utils.rebalanceCandidates placement : Coro (ν × World n κ) _).Takes
      (World.CallStep utils) := by
  have hcandidate (r : Fin n) : (utils.rebalanceCandidate placement r :
      Coro (ν × World n κ) _).Takes (World.CallStep utils) := by
    apply Coro.Takes.suspend.bind; intro _
    exact utils.rebalance_takes r _
  unfold rebalanceCandidates
  split
  · apply (hcandidate _).bind; intro _
    apply (hcandidate _).bind; intro _
    exact Coro.Takes.pure _
  · exact Coro.Takes.pure _

theorem placeRequest_takes (placed : ν → ν) (request : Request) :
    (utils.placeRequest placed request : Coro (ν × World n κ) _).Takes
      (World.CallStep utils) := by
  have hqueue : (utils.queueRequest placed request : Coro (ν × World n κ) _).Takes
      (World.CallStep utils) := by
    apply (utils.reads_takes (utils.choosePlacement_reads request)).bind
    intro placement
    apply (Coro.Keeps.shared (.noteChoice placement request)).takes.bind; intro _
    have hpush : (pushRequest placed placement request : Coro (ν × World n κ) _).Takes
        (World.CallStep utils) := Coro.Takes.modify (fun _ => .push _ request _)
    exact hpush.bind (fun _ => Coro.Takes.pure _)
  apply hqueue.bind
  intro placement
  apply (utils.rebalanceCandidates_takes placement).bind; intro _
  exact (Coro.Keeps.shared (.assign request _ _)).takes

theorem rebalanceTurn_takes (rid : Fin n) :
    (utils.rebalanceTurn rid : Coro (Frame × World n κ) _).Takes (World.CallStep utils) := by
  apply (utils.reads_takes (Coro.Keeps.shared (utils.getMaxWaitingDelay_reads rid))).bind
  intro maxWaitingDelay
  apply (utils.reads_takes (look_reads _)).bind; intro _
  apply (utils.reads_takes (look_reads _)).bind; intro _
  unfold rebalanceWhenOverloaded
  split
  · apply Coro.Takes.suspend.bind; intro _
    exact (utils.rebalance_takes rid _).bind (fun _ => Coro.Takes.pure _)
  · exact Coro.Takes.pure _

theorem popTurn_takes (rid : Fin n) :
    (utils.popTurn rid : Coro (Frame × World n κ) _).Takes (World.CallStep utils) := by
  apply Coro.Takes.suspend.bind; intro _
  apply (utils.reads_takes (Coro.Keeps.shared (utils.getLoadStates_reads rid))).bind
  intro states
  apply (utils.reads_takes (Coro.Keeps.shared utils.readClock_reads)).bind
  intro now
  exact Coro.Takes.modify (.pop rid states _)

theorem postRequest_takes (request : Request) :
    (utils.postRequest request : Coro (Frame × World n κ) _).Takes (World.CallStep utils) := by
  apply (utils.reads_takes (look_reads _)).bind
  intro primaryReplica
  unfold postTo
  split
  · apply Coro.Takes.suspend.bind; intro _
    apply (Coro.Keeps.shared (.noteCacheHitMax _ request)).takes.bind; intro _
    apply Coro.Takes.suspend.bind; intro _
    exact Coro.Takes.modify (fun _ => .post _ request)
  · apply Coro.Takes.suspend.bind; intro _
    exact utils.placeRequest_takes _ request

theorem placeNew_takes (newRequest : Option Request) :
    (utils.placeNew newRequest : Coro (Frame × World n κ) _).Takes (World.CallStep utils) := by
  cases newRequest with
  | none => exact Coro.Takes.pure _
  | some request =>
    apply Coro.Takes.suspend.bind; intro _
    exact utils.placeRequest_takes _ request

/-- Whatever runs beside it, a call takes the world along its steps. -/
theorem schedule_takes (newRequest : Option Request) :
    (utils.schedule newRequest : Coro (Frame × World n κ) ℤ).Takes (World.CallStep utils) := by
  apply (utils.placeNew_takes newRequest).bind; intro _
  apply Coro.Takes.suspend.bind; intro _
  have hpops : (utils.getSchedulableWaitingReqList : Coro (Frame × World n κ) _).Takes
      (World.CallStep utils) := by
    apply (Coro.Takes.forM utils.rebalanceTurn_takes _).bind; intro _
    apply (Coro.Takes.forM utils.popTurn_takes _).bind; intro _
    exact Coro.Takes.read (fun w => .read (.refl w)) _
  apply hpops.bind
  intro requests
  exact (Coro.Takes.forM utils.postRequest_takes requests).bind (fun _ => Coro.Takes.pure _)

end DoubleHashGlobalSchedulerUtils

/-! ## What a call never takes back -/

/-- The request has a primary replica. -/
def World.Assigned (w : World n κ) (request : Request) : Prop :=
  ∃ r : Fin n, (w.attrs request).primaryReplica = (r : ℕ)

/-- The amounts written in the requests are the same, no request has lost its replica, what
was posted is posted, and the replicas differ at most in the times of their last prefill. -/
structure World.Advances (w w' : World n κ) : Prop where
  amount : ∀ request, (w'.attrs request).actualNumPrefillTokens =
    (w.attrs request).actualNumPrefillTokens
  assigned : ∀ request, w.Assigned request → w'.Assigned request
  posted : w.postingRequestTasks <+: w'.postingRequestTasks
  replicaBudgets : ∀ r, ∃ t,
    w'.replicaBudgets r = { w.replicaBudgets r with lastPrefillCompletedAt := t }

namespace World.Advances

theorem of_attrs {w w' : World n κ} (hattrs : ∀ request,
      (w'.attrs request).actualNumPrefillTokens = (w.attrs request).actualNumPrefillTokens ∧
      ((w'.attrs request).primaryReplica = (w.attrs request).primaryReplica ∨
        w'.Assigned request))
    (hposted : w.postingRequestTasks <+: w'.postingRequestTasks)
    (hreplicas : w'.replicaBudgets = w.replicaBudgets) : w.Advances w' where
  amount := fun request => (hattrs request).1
  assigned := by
    rintro request ⟨r, hr⟩
    rcases (hattrs request).2 with hsame | hassigned
    · exact ⟨r, hsame.trans hr⟩
    · exact hassigned
  posted := hposted
  replicaBudgets := fun r => ⟨(w.replicaBudgets r).lastPrefillCompletedAt, by rw [hreplicas]⟩

theorem refl (w : World n κ) : w.Advances w :=
  of_attrs (fun _ => ⟨rfl, Or.inl rfl⟩) (List.prefix_refl _) rfl

theorem trans {w w' w'' : World n κ} (h : w.Advances w') (h' : w'.Advances w'') :
    w.Advances w'' where
  amount := fun request => (h'.amount request).trans (h.amount request)
  assigned := fun request hassigned => h'.assigned request (h.assigned request hassigned)
  posted := h.posted.trans h'.posted
  replicaBudgets := by
    intro r
    obtain ⟨t, ht⟩ := h.replicaBudgets r
    obtain ⟨t', ht'⟩ := h'.replicaBudgets r
    exact ⟨t', by rw [ht', ht]⟩

/-- Assigning a request to replicas, whatever happens to the queues with it. -/
theorem of_assign {w w' : World n κ} {request : Request} {primary second : Fin n}
    (hattrs : w'.attrs = (w.assignReplicas request primary second).attrs)
    (hposted : w'.postingRequestTasks = w.postingRequestTasks)
    (hreplicas : w'.replicaBudgets = w.replicaBudgets) : w.Advances w' := by
  refine of_attrs (fun other => ?_) (by rw [hposted]) hreplicas
  rw [World.Assigned, hattrs]
  by_cases hsame : other = request
  · refine ⟨by simp [World.assignReplicas, hsame], Or.inr ⟨primary, ?_⟩⟩
    simp [World.assignReplicas, hsame]
  · simp [World.assignReplicas, hsame]

end World.Advances

variable [LookupCache κ] {utils : DoubleHashGlobalSchedulerUtils n}

/-- Every turn of the migration loop assigns the request that it moves. -/
theorem migrateFrom_advances (utils : DoubleHashGlobalSchedulerUtils n) (source : Fin n)
    (amount : ℤ) (lists : Fin n → ReplicaSnapshot) (w : World n κ) :
    w.Advances (utils.migrateFrom source amount lists w).2 := by
  obtain ⟨st, hresult, hloop⟩ := utils.migrateNext_terminates source amount lists w
  obtain ⟨hturns, -⟩ := turnsTo_of_whileLoop (hloop _ (Nat.lt_succ_self _))
  rw [hresult]
  apply hturns.invariant (I := fun st => w.Advances st.world) (.refl w)
  intro st st' _ hst hbody
  obtain ⟨migration, -, -, rfl⟩ := utils.migrateNext_selected hbody
  exact hst.trans (.of_assign rfl rfl rfl)

theorem World.CallStep.advances {w w' : World n κ} (h : World.CallStep utils w w') :
    w.Advances w' := by
  cases h with
  | read h =>
    refine ⟨fun _ => by rw [h.attrs], ?_, by rw [h.postingRequestTasks], h.replicaBudgets⟩
    intro request hassigned
    rw [World.Assigned, h.attrs]
    exact hassigned
  | noteChoice placement request =>
    refine .of_attrs (fun other => ⟨?_, Or.inl (noteChoice_primary placement request w other)⟩)
      (List.prefix_refl _) rfl
    by_cases hsame : other = request
    · simp [DoubleHashGlobalSchedulerUtils.noteChoice, hsame]
    · simp [DoubleHashGlobalSchedulerUtils.noteChoice, hsame]
  | push => exact .of_attrs (fun _ => ⟨rfl, Or.inl rfl⟩) (List.prefix_refl _) rfl
  | migrate source amount lists => exact migrateFrom_advances utils source amount lists w
  | assign => exact .of_assign rfl rfl rfl
  | pop rid states prefillInterval l =>
    -- a batch pop changes the queue and the record of the pops
    simp only [popWaiting]
    split
    · exact .of_attrs (fun _ => ⟨rfl, Or.inl rfl⟩) (List.prefix_refl _) rfl
    · exact .refl w
  | noteCacheHitMax replicaId request =>
    refine .of_attrs (fun other => ⟨?_, Or.inl (noteCacheHitMax_primary replicaId request w other)⟩)
      (List.prefix_refl _) rfl
    by_cases hsame : other = request
    · simp [DoubleHashGlobalSchedulerUtils.noteCacheHitMax, hsame]
    · simp [DoubleHashGlobalSchedulerUtils.noteCacheHitMax, hsame]
  | post => exact .of_attrs (fun _ => ⟨rfl, Or.inl rfl⟩) (List.prefix_append _ _) rfl

/-- Code that takes call steps only advances the world. -/
theorem advances_atomically {α : Type} {c : Coro (ν × World n κ) α}
    (hc : c.Takes (World.CallStep utils)) (s : ν × World n κ) :
    s.2.Advances (c.atomically s).2.2 := by
  have hsteps := hc.atomically s
  generalize (c.atomically s).2.2 = w' at hsteps ⊢
  induction hsteps with
  | refl => exact .refl s.2
  | tail _ hstep ih => exact ih.trans hstep.advances

end DualMap.Scheduler
