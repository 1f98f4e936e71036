import DualMap.Preble.RequestRouterProxy
import DualMap.Preble.SchedulingSafety
import DualMap.Client.Release

/-!
# When Reservations End

A request holds its path in the radix tree from the moment it is scheduled. The router
releases it when it takes the completion of the request from the finished requests, but only
if the request was successful: both the loop and `finish_request` pass over all others. So
the count of a node is the number of requests that run through it and were either not taken
yet or taken without success (`reservations_exact_iff`), and a request that the server refuses
holds its path for ever (`refused_request_stays_reserved`).
-/

namespace DualMap.Preble

open LPRadixCache (Accounted Reserved WellFormed passing rootNode)
open PrebleGlobalSchedulerUtils (Sound)
open PrebleGlobalScheduler (Answered)

variable {n : ℕ} {rt : Runtime n} {σ : ℕ → List ℕ}
  {reserved reserved' : List (List ℕ × Fin n)} {fresh : Finset ℕ}

/-! ## The order of the reservations -/

theorem LPRadixCache.Reserved.perm {c : LPRadixCache n} (h : Reserved c σ reserved)
    (hperm : reserved.Perm reserved') : Reserved c σ reserved' where
  counts := by
    intro m hm hroot gpu
    rw [h.counts m hm hroot gpu, passing, passing, hperm.countP_eq]
  complete := fun r hr => h.complete r (hperm.mem_iff.mpr hr)

theorem PrebleGlobalSchedulerUtils.Sound.perm {s : PrebleGlobalSchedulerUtils n}
    (hs : Sound s σ reserved fresh) (hperm : reserved.Perm reserved') :
    Sound s σ reserved' fresh :=
  { hs with accounted := { hs.accounted with reserved := hs.accounted.reserved.perm hperm } }

/-- What a task returned with success comes with its time per token. -/
theorem PostingEnds.answered {request : Request} {output : Client.RequestFuncOutput}
    (h : PostingEnds request (.ok (some output))) : Answered output := by
  obtain ⟨fault, hfault⟩ | ⟨κ, _, env, targetIpPort, http, others, before, after, hrun⟩ := h
  · cases hfault
  · exact PrebleGlobalScheduler.asyncSendRequest_answered env (some targetIpPort) (some request)
      http before _ after trivial hrun output rfl

namespace RouterState

variable {s : RouterState n}

/-! ## The invariant -/

/-- The output in a completion, if there is one, names the replica of the request, and its
time per token where it was successful. -/
def ByItsReplica (completion : Completion n) : Prop :=
  ∀ output ∈ completion.output, output.runtimeSelected = completion.routedTo ∧
    Answered output.toRequestFuncOutput

/-- The reservations are those of the routed requests that were not taken yet or taken
without success, and what waits in the queues is as the code expects it. -/
structure Consistent (s : RouterState n) (σ : ℕ → List ℕ) : Prop where
  sound : Sound s.globalScheduler σ (s.unfinished ++ s.failed) ∅
  arrived : ∀ request, some request ∈ s.runtimeRequestQueue → request.inputIds ≠ []
  completions : ∀ completion ∈ s.completing ++ s.finishedRequestsQueue, ByItsReplica completion
  nonempty : ∀ r ∈ s.unfinished ++ s.failed, r.1 ≠ []

theorem init_consistent (rt : Runtime n) (windowDuration maxDramTokens prefillTpot : ℚ) :
    Consistent ({ globalScheduler := .init rt windowDuration maxDramTokens prefillTpot } :
      RouterState n) (fun _ => []) where
  sound := PrebleGlobalSchedulerUtils.init_sound rt windowDuration maxDramTokens prefillTpot
  arrived := fun _ h => absurd h List.not_mem_nil
  completions := fun _ h => absurd h List.not_mem_nil
  nonempty := fun _ h => absurd h List.not_mem_nil

/-- Where the reservations only change their places, they are as before. -/
theorem Consistent.moved {s' : RouterState n} (hs : Consistent s σ)
    (hscheduler : s'.globalScheduler = s.globalScheduler)
    (hqueue : s'.runtimeRequestQueue = s.runtimeRequestQueue)
    (hperm : (s.unfinished ++ s.failed).Perm (s'.unfinished ++ s'.failed))
    (hcompletions : ∀ completion ∈ s'.completing ++ s'.finishedRequestsQueue,
      ByItsReplica completion) : Consistent s' σ where
  sound := by
    rw [hscheduler]
    exact hs.sound.perm hperm
  arrived := hqueue ▸ hs.arrived
  completions := hcompletions
  nonempty := fun r hr => hs.nonempty r (hperm.mem_iff.mpr hr)

/-- Where the reservations of a request are counted. -/
theorem count_reservations (s : RouterState n) (r : List ℕ × Fin n) :
    (s.unfinished ++ s.failed).count r =
      (s.postingRequestTasks.map routed).count r + (s.raised.map routed).count r +
        (s.completing.map Completion.routed).count r +
        (s.finishedRequestsQueue.map Completion.routed).count r +
        (s.unsuccessful.map Completion.routed).count r := by
  simp only [unfinished, failed, List.count_append]

theorem onScheduler_ok {α : Type} {code : Py (PrebleGlobalSchedulerUtils n) α} {a : α}
    {scheduler : PrebleGlobalSchedulerUtils n}
    (h : code s.globalScheduler = .ok a scheduler) :
    onScheduler code s = .ok a { s with globalScheduler := scheduler } := Py.zoom_ok h

/-! ## Steps -/

theorem addPostingRequestTasks_eq (gpu : Fin n) (request : Request) (s : RouterState n) :
    addPostingRequestTasks gpu.val request s =
      { s with postingRequestTasks := s.postingRequestTasks ++ [(request, gpu)] } := by
  rw [addPostingRequestTasks, dif_pos ⟨gpu.isLt, Int.natCast_nonneg _⟩]
  rfl

/-- A request that is scheduled is one more that holds its path. -/
theorem Consistent.processReplicaSelection (hs : Consistent s σ) (hn : 0 < n)
    (rt : Runtime n) :
    ∃ s' σ', processReplicaSelection rt s = .ok () s' ∧ Consistent s' σ' := by
  rw [RouterState.processReplicaSelection, Py.bind_ok (Py.get_apply s)]
  have hrest : ∀ {first : Option Request} {rest : List (Option Request)},
      s.runtimeRequestQueue = first :: rest →
        ∀ request, some request ∈ rest → request.inputIds ≠ [] :=
    fun hqueue request hmem =>
      hs.arrived request (hqueue ▸ List.mem_cons_of_mem _ hmem)
  -- `None` in the queue is dropped; a request is scheduled, and its reservation is new
  match hqueue : s.runtimeRequestQueue with
  | [] => exact ⟨s, σ, rfl, hs⟩
  | none :: rest => exact ⟨_, σ, rfl, hs.sound, hrest hqueue, hs.completions, hs.nonempty⟩
  | some request :: rest =>
    have hne : request.inputIds ≠ [] := hs.arrived request (hqueue ▸ List.mem_cons_self)
    obtain ⟨gpu, scheduler, σ', hrun, hsound⟩ :
        ∃ (gpu : Fin n) (scheduler : PrebleGlobalSchedulerUtils n) (σ' : ℕ → List ℕ),
          PrebleGlobalScheduler.schedule rt (some request) s.globalScheduler =
            .ok gpu.val scheduler ∧
          Sound scheduler σ' ((request.inputIds, gpu) :: (s.unfinished ++ s.failed)) ∅ :=
      PrebleGlobalScheduler.schedule_ok hn hs.sound hne
    let taken : RouterState n := { s with runtimeRequestQueue := rest }
    let scheduled : RouterState n := { taken with globalScheduler := scheduler }
    let posted : RouterState n :=
      { scheduled with postingRequestTasks := s.postingRequestTasks ++ [(request, gpu)] }
    have hcode : onScheduler (PrebleGlobalScheduler.schedule rt (some request)) taken =
        .ok (gpu.val : ℤ) scheduled := onScheduler_ok hrun
    -- the posting task takes over the reservation that `schedule` made
    have hperm : ((request.inputIds, gpu) :: (s.unfinished ++ s.failed)).Perm
        (posted.unfinished ++ posted.failed) := by
      simp only [unfinished, failed, posted, scheduled, taken, List.map_append, List.append_assoc]
      exact List.perm_middle.symm
    refine ⟨posted, σ', ?_, ?_⟩
    · simp only
      refine (Py.bind_ok (Py.set_apply _ _)).trans ?_
      rw [Py.bind_ok hcode, Py.modify_apply, addPostingRequestTasks_eq]
    · exact
        { sound := hsound.perm hperm
          arrived := hrest hqueue
          completions := hs.completions
          nonempty := by
            intro r hr
            rcases List.mem_cons.mp (hperm.mem_iff.mpr hr) with rfl | hold
            · exact hne
            · exact hs.nonempty r hold }

/-- A task that is done leaves its request either with its completion or with those whose
tasks raised. -/
theorem Consistent.handleTaskCompletion (hs : Consistent s σ) {request : Request} {gpu : Fin n}
    {result : Except Fault (Option Client.RequestFuncOutput)}
    (hmem : (request, gpu) ∈ s.postingRequestTasks) (hends : PostingEnds request result) :
    Consistent (handleTaskCompletion request gpu result s) σ := by
  have htasks := (List.perm_cons_erase hmem).map routed
  -- the task that ends is counted once less, whatever its result
  have hcount : ∀ r, (s.postingRequestTasks.map routed).count r =
      ((s.postingRequestTasks.erase (request, gpu)).map routed).count r +
        if (request.inputIds, gpu) = r then 1 else 0 := by
    intro r
    rw [htasks.count_eq, List.map_cons, List.count_cons]
    simp only [routed, beq_iff_eq]
  match result with
  -- a task that raises leaves the reservation with the failed ones
  | .error fault =>
    refine hs.moved rfl rfl (List.perm_iff_count.mpr fun r => ?_) hs.completions
    rw [count_reservations, count_reservations, hcount r]
    simp only [RouterState.handleTaskCompletion, List.map_append, List.map_cons, List.map_nil,
      List.count_append, List.count_cons, List.count_nil, routed, beq_iff_eq]
    omega
  -- an answer is queued for the cleanup, where its reservation is still counted
  | .ok output =>
    refine hs.moved rfl rfl (List.perm_iff_count.mpr fun r => ?_) ?_
    · rw [count_reservations, count_reservations, hcount r]
      simp only [RouterState.handleTaskCompletion, List.map_append, List.map_cons, List.map_nil,
        List.count_append, List.count_cons, List.count_nil, Completion.routed, beq_iff_eq]
      omega
    · intro completion hcompletion
      simp only [RouterState.handleTaskCompletion, List.mem_append, List.mem_singleton]
        at hcompletion
      rcases hcompletion with (hold | rfl) | hold
      · exact hs.completions completion (List.mem_append_left _ hold)
      · intro out hout
        obtain ⟨funcOutput, rfl, rfl⟩ := Option.map_eq_some_iff.mp hout
        exact ⟨rfl, hends.answered⟩
      · exact hs.completions completion (List.mem_append_right _ hold)

/-- A completion only changes its place. -/
theorem Consistent.onRequestComplete (hs : Consistent s σ) {completion : Completion n}
    (hmem : completion ∈ s.completing) : Consistent (onRequestComplete completion s) σ := by
  have hcompleting := (List.perm_cons_erase hmem).map Completion.routed
  refine hs.moved rfl rfl (List.perm_iff_count.mpr fun r => ?_) ?_
  · rw [count_reservations, count_reservations, hcompleting.count_eq r]
    simp only [RouterState.onRequestComplete, List.map_append, List.map_cons, List.map_nil,
      List.count_append, List.count_cons, List.count_nil]
    omega
  · intro other hother
    simp only [RouterState.onRequestComplete, List.mem_append, List.mem_singleton] at hother
    rcases hother with hold | hold | rfl
    · exact hs.completions other (List.mem_append_left _ (List.mem_of_mem_erase hold))
    · exact hs.completions other (List.mem_append_right _ hold)
    · exact hs.completions other (List.mem_append_left _ hmem)

/-- A completion without success is taken, and its request keeps its path. -/
theorem Consistent.keepsReservation (hs : Consistent s σ) {completion : Completion n}
    {rest : List (Completion n)} (hqueue : s.finishedRequestsQueue = completion :: rest) :
    Consistent { s with
      finishedRequestsQueue := rest
      unsuccessful := s.unsuccessful ++ [completion] } σ := by
  refine hs.moved rfl rfl (List.perm_iff_count.mpr fun r => ?_) ?_
  · rw [count_reservations, count_reservations, hqueue]
    simp only [List.map_append, List.map_cons, List.map_nil, List.count_append, List.count_cons,
      List.count_nil]
    omega
  · intro other hother
    apply hs.completions other
    rw [hqueue]
    rcases List.mem_append.mp hother with hold | hold
    · exact List.mem_append_left _ hold
    · exact List.mem_append_right _ (List.mem_cons_of_mem _ hold)

/-- The router releases what was successful and nothing else. -/
theorem Consistent.processCleanupSelection (hs : Consistent s σ) (rt : Runtime n) :
    ∃ s', processCleanupSelection rt s = .ok () s' ∧ Consistent s' σ := by
  rw [RouterState.processCleanupSelection, Py.bind_ok (Py.get_apply s)]
  -- the cleanup releases only what succeeded; every other completion keeps its reservation
  match hqueue : s.finishedRequestsQueue with
  | [] => exact ⟨s, rfl, hs⟩
  | ⟨none, inputIds, gpu⟩ :: rest =>
    refine ⟨_, ?_, hs.keepsReservation hqueue⟩
    simp only
    exact (Py.bind_ok (Py.set_apply _ _)).trans (Py.modify_apply _ _)
  | ⟨some output, inputIds, gpu⟩ :: rest =>
    by_cases hsuccess : output.success
    · obtain ⟨hgpu, hanswered⟩ := hs.completions ⟨some output, inputIds, gpu⟩
        (List.mem_append_right _ (hqueue ▸ List.mem_cons_self)) output rfl
      obtain rfl : output.runtimeSelected = gpu := hgpu
      let taken : RouterState n := { s with finishedRequestsQueue := rest }
      have hperm : (s.unfinished ++ s.failed).Perm
          ((inputIds, output.runtimeSelected) :: (taken.unfinished ++ taken.failed)) := by
        refine List.perm_iff_count.mpr (fun r => ?_)
        rw [List.count_cons, count_reservations, count_reservations, hqueue]
        simp only [taken, Completion.routed, List.map_cons, List.count_cons]
        omega
      obtain ⟨scheduler, hrun, hsound, -⟩ := PrebleGlobalScheduler.finishRequest_ok rt hs.sound
        hanswered (hperm.mem_iff.mpr List.mem_cons_self)
      -- `finish_request` takes away exactly the reservation of this completion
      have hleft := hperm.erase (inputIds, output.runtimeSelected)
      rw [List.erase_cons_head] at hleft
      rw [if_pos hsuccess] at hsound
      have hcode : onScheduler (PrebleGlobalScheduler.finishRequest rt (some output) inputIds)
          taken = .ok () { taken with globalScheduler := scheduler } := onScheduler_ok hrun
      refine ⟨{ taken with globalScheduler := scheduler }, ?_,
        { sound := hsound.perm hleft
          arrived := hs.arrived
          completions := ?_
          nonempty := fun r hr =>
            hs.nonempty r (hperm.mem_iff.mpr (List.mem_cons_of_mem _ hr)) }⟩
      · simp only [if_pos hsuccess]
        exact (Py.bind_ok (Py.set_apply _ _)).trans hcode
      · intro other hother
        apply hs.completions other
        rw [hqueue]
        rcases List.mem_append.mp hother with hold | hold
        · exact List.mem_append_left _ hold
        · exact List.mem_append_right _ (List.mem_cons_of_mem _ hold)
    · refine ⟨_, ?_, hs.keepsReservation hqueue⟩
      simp only [if_neg hsuccess]
      exact (Py.bind_ok (Py.set_apply _ _)).trans (Py.modify_apply _ _)

/-- No event fails, and every event keeps the invariant. -/
theorem Consistent.perform (hs : Consistent s σ) (hn : 0 < n) (rt : Runtime n)
    {event : RouterEvent n} (hpossible : s.Possible event) :
    ∃ s' σ', perform rt event s = .ok () s' ∧ Consistent s' σ' := by
  cases event with
  | arrive request =>
    refine ⟨_, σ, rfl, hs.sound, ?_, hs.completions, hs.nonempty⟩
    intro other hother
    rcases List.mem_append.mp hother with hold | hnew
    · exact hs.arrived other hold
    · exact hpossible other (List.mem_singleton.mp hnew).symm
  | selectReplica => exact hs.processReplicaSelection hn rt
  | taskDone request gpu result =>
    exact ⟨_, σ, rfl, hs.handleTaskCompletion hpossible.1 hpossible.2⟩
  | requestComplete completion => exact ⟨_, σ, rfl, hs.onRequestComplete hpossible⟩
  | cleanup =>
    obtain ⟨s', hrun, hs'⟩ := hs.processCleanupSelection rt
    exact ⟨s', σ, hrun, hs'⟩

end RouterState

/-! ## Main results -/

theorem RouterRun.consistent {windowDuration maxDramTokens prefillTpot : ℚ} {s : RouterState n}
    (hn : 0 < n) (h : RouterRun rt windowDuration maxDramTokens prefillTpot s) :
    ∃ σ, s.Consistent σ := by
  induction h with
  | init => exact ⟨_, RouterState.init_consistent rt windowDuration maxDramTokens prefillTpot⟩
  | step _ hpossible hrun ih =>
    obtain ⟨σ, hs⟩ := ih
    obtain ⟨s', σ', hrun', hs'⟩ := hs.perform hn rt hpossible
    obtain ⟨-, rfl⟩ := EStateM.Result.ok.inj (hrun'.symm.trans hrun)
    exact ⟨σ', hs'⟩

/-- In every state of every run, whatever becomes of the requests: the count of a node is the
number of routed requests that run through it and were not taken from the finished requests
yet, exactly if none of those that were taken without success runs through it. Once no routed
request is left, all counts are zero and all cached nodes can be evicted, exactly if all were
taken with success. -/
theorem reservations_exact_iff {windowDuration maxDramTokens prefillTpot : ℚ}
    {s : RouterState n} (h : RouterRun rt windowDuration maxDramTokens prefillTpot s) :
    (∀ m path, s.globalScheduler.cache.tree.RootPath m path → m ≠ rootNode → ∀ gpu,
      ((s.globalScheduler.cache.nodes m).numUncompletedRequestForGpuMap gpu =
          (s.unfinished.filter (fun r => r.2 = gpu ∧ path <+: r.1)).length ↔
        ∀ r ∈ s.failed, ¬ (r.2 = gpu ∧ path <+: r.1))) ∧
    (s.unfinished = [] →
      ((∀ m ∈ s.globalScheduler.cache.allNodes, m ≠ rootNode → ∀ gpu,
          (s.globalScheduler.cache.nodes m).numUncompletedRequestForGpuMap gpu = 0 ∧
            ((s.globalScheduler.cache.nodes m).hasCachedGpu gpu →
              s.globalScheduler.cache.Evictable gpu m)) ↔ s.failed = [])) := by
  rcases Nat.eq_zero_or_pos n with rfl | hn
  · -- without replicas nothing is routed
    refine ⟨fun m path _ _ gpu => gpu.elim0, fun _ => ⟨fun _ => ?_, fun _ m _ _ gpu => gpu.elim0⟩⟩
    exact List.eq_nil_iff_forall_not_mem.mpr (fun r _ => r.2.elim0)
  · obtain ⟨σ, hs⟩ := h.consistent hn
    have hc := hs.sound.wellFormed
    have hcounts := hs.sound.accounted.reserved.counts
    have hsum : ∀ path gpu, passing (s.unfinished ++ s.failed) path gpu =
        passing s.unfinished path gpu + passing s.failed path gpu :=
      fun path gpu => List.countP_append
    constructor
    · intro m path hpath hroot gpu
      obtain ⟨hm, rfl⟩ := hc.spelled.rootPath_iff.mp hpath
      rw [hcounts m hm hroot gpu, hsum, ← List.countP_eq_length_filter, ← passing]
      have hfailed : passing s.failed (σ m) gpu = 0 ↔
          ∀ r ∈ s.failed, ¬ (r.2 = gpu ∧ σ m <+: r.1) := by
        simp only [passing, List.countP_eq_zero, decide_eq_true_eq]
      rw [← hfailed]
      omega
    · intro hunfinished
      rw [hunfinished, List.nil_append] at hcounts
      constructor
      · intro hzero
        -- a request that failed still counts at its own node
        refine List.eq_nil_iff_forall_not_mem.mpr (fun r hr => ?_)
        have hmem : r ∈ s.unfinished ++ s.failed := List.mem_append_right _ hr
        obtain ⟨m, hm, hspell⟩ := hs.sound.accounted.reserved.complete r hmem
        have hroot : m ≠ rootNode := by
          rintro rfl
          exact hs.nonempty r hmem (hspell ▸ hc.spelled.root_spell)
        have hpos : 0 < passing s.failed (σ m) r.2 := by
          rw [passing, List.countP_pos_iff]
          exact ⟨r, hr, decide_eq_true ⟨rfl, hspell ▸ List.prefix_refl _⟩⟩
        have hcount := hcounts m hm hroot r.2
        rw [(hzero m hm hroot r.2).1] at hcount
        omega
      · intro hfailed m hm hroot gpu
        have hcount : (s.globalScheduler.cache.nodes m).numUncompletedRequestForGpuMap gpu = 0 := by
          rw [hcounts m hm hroot gpu, hfailed]
          rfl
        exact ⟨hcount, fun hcached =>
          (LPRadixCache.evictable_iff hc gpu m).mpr ⟨hm, hcount, hcached⟩⟩

/-! ## One request -/

section OneRequest

open Client (sampleRequest tickingEnv idleReplica others_refl)

/-- One replica, and a clock that advances by one with each reading. -/
def oneReplica : Runtime 1 := .ascending 1 (fun reading => reading)

/-- The router with one replica after some events. -/
def afterEvents (events : List (RouterEvent 1)) : RouterState 1 :=
  events.foldl (fun s event => Py.finalState (RouterState.perform oneReplica event s))
    { globalScheduler := .init oneReplica 180 1000 (1 / 10) }

/-- A request comes in and is routed, answered with the output and taken. -/
def requestEvents (output : Client.RequestFuncOutput) : List (RouterEvent 1) :=
  let gpu := Fin.last 0
  [.arrive (some sampleRequest), .selectReplica, .taskDone sampleRequest gpu (.ok (some output)),
    .requestComplete ⟨some ⟨output, gpu⟩, sampleRequest.inputIds, gpu⟩, .cleanup]

theorem RouterRun.next {windowDuration maxDramTokens prefillTpot : ℚ} {s : RouterState n}
    (h : RouterRun rt windowDuration maxDramTokens prefillTpot s) (event : RouterEvent n)
    (hpossible : s.Possible event)
    (hreturned : Py.returned (RouterState.perform rt event s) = some ()) :
    RouterRun rt windowDuration maxDramTokens prefillTpot
      (Py.finalState (RouterState.perform rt event s)) :=
  h.step hpossible (Py.eq_ok_of_returned hreturned)

theorem requestEvents_run {output : Client.RequestFuncOutput}
    (hends : PostingEnds sampleRequest (.ok (some output)))
    (hcleanup : Py.returned (RouterState.perform oneReplica .cleanup
      (afterEvents ((requestEvents output).take 4))) = some ()) :
    RouterRun oneReplica 180 1000 (1 / 10) (afterEvents (requestEvents output)) := by
  -- the run has one event after the other, each with the guard that `perform` asks for
  have hinit : RouterRun oneReplica 180 1000 (1 / 10) (afterEvents []) := .init
  have harrived : RouterRun oneReplica 180 1000 (1 / 10)
      (afterEvents [.arrive (some sampleRequest)]) := by
    refine hinit.next (.arrive (some sampleRequest)) (fun request hrequest => ?_) rfl
    obtain rfl := Option.some.inj hrequest
    decide
  have hrouted : RouterRun oneReplica 180 1000 (1 / 10)
      (afterEvents [.arrive (some sampleRequest), .selectReplica]) :=
    harrived.next .selectReplica trivial (by decide +kernel)
  have hdone : RouterRun oneReplica 180 1000 (1 / 10)
      (afterEvents ((requestEvents output).take 3)) :=
    hrouted.next (.taskDone sampleRequest 0 (.ok (some output))) ⟨by decide +kernel, hends⟩ rfl
  have hcomplete : RouterRun oneReplica 180 1000 (1 / 10)
      (afterEvents ((requestEvents output).take 4)) :=
    hdone.next (.requestComplete ⟨some ⟨output, 0⟩, sampleRequest.inputIds, 0⟩)
      (List.mem_append_right _ List.mem_cons_self) rfl
  exact hcomplete.next .cleanup trivial hcleanup

/-- What the task returns when the server answers so and no other task acts meanwhile. -/
theorem postingEnds_atomically (http : Client.HttpOutcome)
    {result : Except Fault (Option Client.RequestFuncOutput)}
    (hresult : ((Client.asyncSendRequest tickingEnv (some "replica") (some sampleRequest)
      http).atomically idleReplica).1 = result) : PostingEnds sampleRequest result := by
  have hrun : Coro.Runs (fun _ _ => True) (Client.asyncSendRequest tickingEnv (some "replica")
      (some sampleRequest) http) idleReplica _ _ :=
    Coro.runs_atomically (fun _ => trivial) _ idleReplica
  rw [hresult] at hrun
  exact Or.inr ⟨_, inferInstance, tickingEnv, "replica", http, _, idleReplica, _, hrun⟩

/-- What the task returns for an answer that ends well (`Client.silentAnswer`). -/
def answeredOutput : Client.RequestFuncOutput :=
  { success := true, requestLatency := 4, tpot := some 4 }

/-- After a successful request no count is left. -/
theorem reservations_exact_iff_answered : ∃ s : RouterState 1,
    RouterRun oneReplica 180 1000 (1 / 10) s ∧ s.unfinished = [] ∧
      ∀ m ∈ s.globalScheduler.cache.allNodes, m ≠ rootNode → ∀ gpu,
        (s.globalScheduler.cache.nodes m).numUncompletedRequestForGpuMap gpu = 0 ∧
          ((s.globalScheduler.cache.nodes m).hasCachedGpu gpu →
            s.globalScheduler.cache.Evictable gpu m) := by
  have hends : PostingEnds sampleRequest (.ok (some answeredOutput)) :=
    postingEnds_atomically Client.silentAnswer (by decide +kernel)
  have hrun := requestEvents_run hends (by decide +kernel)
  have hunfinished : (afterEvents (requestEvents answeredOutput)).unfinished = [] := by
    decide +kernel
  have hfailed : (afterEvents (requestEvents answeredOutput)).failed = [] := by
    decide +kernel
  exact ⟨_, hrun, hunfinished, ((reservations_exact_iff hrun).2 hunfinished).mpr hfailed⟩

/-- The server refuses a request. Its completion is taken, and the node of its tokens counts
it still. -/
theorem refused_request_stays_reserved : ∃ s : RouterState 1,
    RouterRun oneReplica 180 1000 (1 / 10) s ∧ s.unfinished = [] ∧
      s.globalScheduler.cache.tree.RootPath 1 [5, 6, 7] ∧
      (s.globalScheduler.cache.nodes 1).numUncompletedRequestForGpuMap 0 = 1 ∧
      (s.globalScheduler.cache.nodes 1).hasCachedGpu 0 ∧
      ¬ s.globalScheduler.cache.Evictable 0 1 := by
  have hends : PostingEnds sampleRequest (.ok (some {})) :=
    postingEnds_atomically (.responded 500 [] .closed) (by decide +kernel)
  have hrun := requestEvents_run hends (by decide +kernel)
  have hedge : ((afterEvents (requestEvents {})).globalScheduler.cache.tree.children
      rootNode).get? 5 = some 1 := by decide +kernel
  have hlabel : (afterEvents (requestEvents {})).globalScheduler.cache.tree.label 1 =
      [5, 6, 7] := by decide +kernel
  have hpath := RadixTree.RootPath.root.child hedge
  rw [List.nil_append, hlabel] at hpath
  have hcount : ((afterEvents (requestEvents {})).globalScheduler.cache.nodes
      1).numUncompletedRequestForGpuMap 0 = 1 := by decide +kernel
  refine ⟨_, hrun, by decide +kernel, hpath, hcount, by decide +kernel, ?_⟩
  intro hevictable
  -- the count is not zero, and an evictable node has a count of zero
  obtain ⟨σ, hs⟩ := hrun.consistent Nat.one_pos
  have hzero := ((LPRadixCache.evictable_iff hs.sound.wellFormed 0 1).mp hevictable).2.1
  rw [hcount] at hzero
  cases hzero

end OneRequest

end DualMap.Preble
