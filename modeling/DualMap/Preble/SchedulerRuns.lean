import DualMap.Preble.SchedulingSafety
import DualMap.Preble.SplitPaths

/-!
# Runs of the Scheduler

A call of `schedule` with a request that is not empty goes through three states: the tokens
are in the tree, the path is reserved, nodes are moved (`ScheduledVia`). A request without
tokens has no important ancestor, so its call ends with an exception, after it has marked the
root. `SchedulerRun` is a sequence of such calls, in which `Allowed` may restrict the requests,
and of answers; `SchedulerRun.invariant` is its induction rule.
-/

namespace DualMap.Preble.PrebleGlobalScheduler

open PrebleGlobalSchedulerUtils
open LPRadixCache (SameShape rootNode)

variable {n : ℕ} {rt : Runtime n} {σ : ℕ → List ℕ} {reserved : List (List ℕ × Fin n)}
  {fresh : Finset ℕ} {s s' : PrebleGlobalSchedulerUtils n}

/-! ## One call -/

/-- `schedule` up to where nodes may be moved to other replicas: the leaf, its important
ancestor and the replica. -/
def scheduleUntilStealing (rt : Runtime n) (request : Request) :
    Py (PrebleGlobalSchedulerUtils n) (ℕ × ℕ × Fin n) := do
  let leafNode ← insertRequest rt request.inputIds
  let s ← get
  let nearestAncestor := s.getNearestAncestorNodeWithLowSharePrefixRatio (some leafNode)
  let runtimeIdx ← chooseReplica rt leafNode
  let nearestAncestor ←
    reserveUntilStealing rt leafNode nearestAncestor runtimeIdx request.outputLen
  pure (leafNode, nearestAncestor, runtimeIdx)

theorem scheduleRequest_eq (rt : Runtime n) (request : Request) :
    scheduleRequest rt request = (do
      let (leafNode, nearestAncestor, runtimeIdx) ← scheduleUntilStealing rt request
      stealUnlessLongChain rt leafNode nearestAncestor
      pure runtimeIdx) := by
  simp only [scheduleRequest, scheduleUntilStealing, reserve_eq, bind_assoc, pure_bind]

/-- The states of a call: `s₁` when the tokens are in the tree, `s₂` when the path of the leaf
is reserved. -/
structure ScheduledVia (rt : Runtime n) (s : PrebleGlobalSchedulerUtils n) (σ : ℕ → List ℕ)
    (reserved : List (List ℕ × Fin n)) (request : Request) (leaf : ℕ)
    (splits : OrderedDict ℕ ℕ) (s₁ : PrebleGlobalSchedulerUtils n) (σ₁ : ℕ → List ℕ)
    (node : ℕ) (gpu : Fin n) (s₂ : PrebleGlobalSchedulerUtils n) : Prop where
  insert : insertRequest rt request.inputIds s = .ok leaf s₁
  sound₁ : Sound s₁ σ₁ reserved {leaf}
  inserted : RequestInserted rt s σ request.inputIds leaf splits s₁ σ₁
  nearest : s₁.getNearestAncestorNodeWithLowSharePrefixRatio (some leaf) = some node
  run : scheduleUntilStealing rt request s = .ok (leaf, node, gpu) s₂
  sound₂ : Sound s₂ σ₁ ((request.inputIds, gpu) :: reserved) ∅
  reservedOn : ReservedOn rt s₁ leaf node gpu s₂

theorem scheduledVia (rt : Runtime n) (hn : 0 < n) (hs : Sound s σ reserved ∅)
    {request : Request} (hne : request.inputIds ≠ []) :
    ∃ leaf splits s₁ σ₁ node gpu s₂,
      ScheduledVia rt s σ reserved request leaf splits s₁ σ₁ node gpu s₂ := by
  obtain ⟨leaf, splits, s₁, σ₁, hinsert, hs₁, hinserted⟩ :=
    insertRequest_window rt hs request.inputIds
  obtain ⟨hleaf, hspell⟩ := hinserted.leaf_spell
  obtain ⟨gpu, hchoose⟩ := chooseReplica_spec rt hs₁ hn leaf
  obtain ⟨node, hnearest, hnode, hunshare⟩ := hs₁.getNearestAncestor hleaf (hspell ▸ hne)
  obtain ⟨s₂, hreserve, hs₂, hreservedOn⟩ :=
    reserveUntilStealing_spec rt hs₁ hleaf (hspell ▸ hne) hnode hunshare gpu request.outputLen
  refine ⟨leaf, splits, s₁, σ₁, node, gpu, s₂, hinsert, hs₁, hinserted, hnearest, ?_,
    hspell ▸ hs₂, hreservedOn⟩
  rw [scheduleUntilStealing, Py.bind_ok hinsert, Py.bind_ok (Py.get_apply s₁)]
  simp only [hnearest]
  rw [Py.bind_ok hchoose, Py.bind_ok hreserve]
  rfl

/-- Then nodes are moved, or nothing more happens. -/
theorem ScheduledVia.scheduleRequest {request : Request} {leaf : ℕ} {splits : OrderedDict ℕ ℕ}
    {s₁ s₂ : PrebleGlobalSchedulerUtils n} {σ₁ : ℕ → List ℕ} {node : ℕ} {gpu : Fin n}
    (h : ScheduledVia rt s σ reserved request leaf splits s₁ σ₁ node gpu s₂) :
    ∃ s', scheduleRequest rt request s = .ok gpu s' ∧
      Sound s' σ₁ ((request.inputIds, gpu) :: reserved) ∅ ∧
      (s' = s₂ ∨ ∃ light, MovesTo light s₂ s') := by
  obtain ⟨s', hsteal, hs', hmoves⟩ := stealUnlessLongChain_spec rt h.sound₂ leaf node
  rw [scheduleRequest_eq, Py.bind_ok h.run]
  simp only
  rw [Py.bind_ok hsteal]
  exact ⟨s', rfl, hs', hmoves⟩

/-! ## A request without tokens -/

/-- The root owns no tokens. -/
theorem not_isUnshare_root (hs : Sound s σ reserved fresh) :
    ¬ s.IsUnsharePrefixOver50PercentForNode rootNode := by
  obtain ⟨hsofar, hcontext⟩ := hs.wellFormed.contextSoFar_root
  rw [isUnshare_iff, hsofar, hcontext]
  exact lt_irrefl _

/-- It ends at the root, which is not important and has no parent. -/
theorem insertRequest_nil (rt : Runtime n) (hs : Sound s σ reserved ∅) :
    ∃ s₁, insertRequest rt [] s = .ok rootNode s₁ ∧ Sound s₁ σ reserved ∅ ∧
      SameShape s.cache s₁.cache ∧ s₁.histogram = s.histogram ∧
      s₁.getNearestAncestorNodeWithLowSharePrefixRatio (some rootNode) = none := by
  have hvisit := LPRadixCache.enter_visited rt s.cache rootNode
  let s₁ : PrebleGlobalSchedulerUtils n :=
    { s with cache := LPRadixCache.enter rt s.cache rootNode }
  have hinsert : insertRequest rt [] s = .ok rootNode s₁ := by
    have hrun : LPRadixCache.insert rt [] none .empty s.cache =
        .ok (rootNode, .empty) (LPRadixCache.enter rt s.cache rootNode) :=
      LPRadixCache.insertHelper_nil rt 0 rootNode [] .empty 0 0
    rw [insertRequest, Py.bind_ok (onCache_ok hrun)]
    rfl
  have hs₁ : Sound s₁ σ reserved ∅ :=
    hs.withCache hvisit.sameShape (hs.accounted.visited hvisit)
  have hroot : rootNode ∈ s₁.cache.allNodes := hs₁.wellFormed.root_mem
  refine ⟨s₁, hinsert, hs₁, hvisit.sameShape, rfl, ?_⟩
  -- only the root is on the root's path, and it owns no tokens
  refine Option.eq_none_iff_forall_ne_some.mpr (fun node hnode => ?_)
  obtain ⟨hpath, hunshare, -⟩ := (getNearestAncestor_iff hs₁.wellFormed hroot).mp hnode
  obtain ⟨hmem, hpre⟩ := (hs₁.wellFormed.mem_ancestors hroot).mp hpath
  obtain rfl : node = rootNode := by
    refine (hs₁.wellFormed.spelled.spell_eq_nil hmem).mp ?_
    rwa [show σ rootNode = [] from hs.wellFormed.spelled.root_spell, List.prefix_nil] at hpre
  exact not_isUnshare_root hs₁ hunshare

/-- The call raises an exception, when the root is allocated and counted. -/
theorem scheduleRequest_nil (rt : Runtime n) (hn : 0 < n) (hs : Sound s σ reserved ∅)
    {request : Request} (hnil : request.inputIds = []) :
    ∃ gpu s', scheduleRequest rt request s = .error (.exception .attributeError) s' ∧
      Sound s' σ (([], gpu) :: reserved) ∅ ∧ PathGivenTo s rootNode gpu s' := by
  obtain ⟨s₁, hinsert, hs₁, hshape₁, hhist₁, hnearest⟩ := insertRequest_nil rt hs
  have hroot : rootNode ∈ s₁.cache.allNodes := hs₁.wellFormed.root_mem
  obtain ⟨gpu, hchoose⟩ := chooseReplica_spec rt hs₁ hn rootNode
  let s₂ : PrebleGlobalSchedulerUtils n := { s₁ with counter := s₁.counter + 1 }
  have hs₂ : Sound s₂ σ reserved ∅ := hs₁.congr rfl rfl
  obtain ⟨_, halloc, hs₃, ⟨allocations, rfl⟩, hkeys, hholders⟩ :=
    hs₂.forM_setGpuAllocation_spec (s₂.cache.ancestors rootNode) {gpu}
  let s₃ : PrebleGlobalSchedulerUtils n := { s₂ with
    histogram := { s₂.histogram with gpuAllocations := allocations } }
  have hs₃ : Sound s₃ σ reserved ∅ := hs₃.mono (by simp)
  have hadd : addGpuAllocationForParent rootNode {gpu} s₂ = .ok () s₃ := by
    rw [addGpuAllocationForParent, Py.bind_ok (Py.get_apply s₂)]
    exact halloc
  obtain ⟨c, hcount, hshape, hc⟩ := hs₃.accounted.updateCacheMetadada hroot gpu
  have hspell : σ rootNode = [] := hs.wellFormed.spelled.root_spell
  have hpath : s₂.cache.ancestors rootNode = s.cache.ancestors rootNode :=
    hshape₁.ancestors rootNode
  rw [hpath] at hkeys hholders
  refine ⟨gpu, { s₃ with cache := c }, ?_, hspell ▸ hs₃.withCache hshape hc,
    { shape := hshape₁.trans hshape
      histogram := ⟨allocations, by rw [← hhist₁]⟩
      allocated := fun m hm => hkeys m (Or.inl hm)
      holders := fun m => ?_ }⟩
  -- the request is reserved at the root before the missing node raises
  · rw [scheduleRequest, hnil, Py.bind_ok hinsert, Py.bind_ok (Py.get_apply s₁), hnearest,
      Py.bind_ok hchoose]
    refine Py.bind_error ?_
    rw [reserve, Py.bind_ok (Py.modify_apply _ _), Py.bind_ok hadd,
      Py.bind_ok (onCache_ok hcount)]
    rfl
  · have hsame : s₂.holders m = s.holders m := holders_congr (by rw [← hhist₁]) m
    rw [← hsame]
    exact hholders m

/-! ## Runs -/

/-- The states that runs reach: requests that `Allowed` admits are scheduled, at any times, or
their calls end with an exception, and each call of `finish_request` matches one earlier call of
`schedule` that returned the same replica. The list holds the requests that were scheduled and
not finished yet. -/
inductive SchedulerRun (rt : Runtime n) (windowDuration maxDramTokens prefillTpot : ℚ)
    (Allowed : PrebleGlobalSchedulerUtils n → List ℕ → Prop) :
    PrebleGlobalSchedulerUtils n → List (List ℕ × Fin n) → Prop
  | init : SchedulerRun rt windowDuration maxDramTokens prefillTpot Allowed
      (init rt windowDuration maxDramTokens prefillTpot) []
  | schedule {s s' : PrebleGlobalSchedulerUtils n} {unfinished : List (List ℕ × Fin n)}
      {request : Request} {gpu : Fin n}
      (h : SchedulerRun rt windowDuration maxDramTokens prefillTpot Allowed s unfinished)
      (hallowed : Allowed s request.inputIds)
      (hrun : PrebleGlobalScheduler.schedule rt (some request) s = .ok gpu.val s') :
      SchedulerRun rt windowDuration maxDramTokens prefillTpot Allowed s'
        ((request.inputIds, gpu) :: unfinished)
  | fail {s s' : PrebleGlobalSchedulerUtils n} {unfinished : List (List ℕ × Fin n)}
      {request : Request} {fault : Fault}
      (h : SchedulerRun rt windowDuration maxDramTokens prefillTpot Allowed s unfinished)
      (hallowed : Allowed s request.inputIds)
      (hrun : PrebleGlobalScheduler.schedule rt (some request) s = .error fault s') :
      SchedulerRun rt windowDuration maxDramTokens prefillTpot Allowed s' unfinished
  | finish {s s' : PrebleGlobalSchedulerUtils n} {unfinished : List (List ℕ × Fin n)}
      {output : FuncOutput n} {inputIds : List ℕ}
      (h : SchedulerRun rt windowDuration maxDramTokens prefillTpot Allowed s unfinished)
      (hanswered : Answered output.toRequestFuncOutput)
      (hmem : (inputIds, output.runtimeSelected) ∈ unfinished)
      (hrun : finishRequest rt (some output) inputIds s = .ok () s') :
      SchedulerRun rt windowDuration maxDramTokens prefillTpot Allowed s'
        (unfinished.erase (inputIds, output.runtimeSelected))

theorem schedule_error (rt : Runtime n) {request : Request} {fault : Fault}
    (h : scheduleRequest rt request s = .error fault s') :
    schedule rt (some request) s = .error fault s' := by
  rw [schedule, Py.bind_error h]

theorem schedule_of_scheduleRequest (rt : Runtime n) {request : Request} {gpu : Fin n}
    (h : scheduleRequest rt request s = .ok gpu s') :
    schedule rt (some request) s = .ok gpu.val s' := by
  rw [schedule, Py.bind_ok h]
  rfl

/-- The state after calls of `schedule` for the requests, one after the other. -/
def scheduleEach (rt : Runtime n) (requests : List Request) (s : PrebleGlobalSchedulerUtils n) :
    PrebleGlobalSchedulerUtils n :=
  requests.foldl (fun s request => Py.finalState (schedule rt (some request) s)) s

/-- Calls for any requests carry a run on, also those that end with an exception. -/
theorem SchedulerRun.each {windowDuration maxDramTokens prefillTpot : ℚ}
    {unfinished : List (List ℕ × Fin n)}
    (h : SchedulerRun rt windowDuration maxDramTokens prefillTpot (fun _ _ => True) s unfinished)
    (requests : List Request) :
    ∃ unfinished', SchedulerRun rt windowDuration maxDramTokens prefillTpot (fun _ _ => True)
      (scheduleEach rt requests s) unfinished' := by
  induction requests generalizing s unfinished with
  | nil => exact ⟨unfinished, h⟩
  | cons request requests ih =>
    rw [scheduleEach, List.foldl_cons]
    cases hrun : scheduleRequest rt request s with
    | ok gpu s' =>
      have hschedule := schedule_of_scheduleRequest rt hrun
      rw [hschedule]
      exact ih (h.schedule trivial hschedule)
    | error fault s' =>
      have hschedule := schedule_error rt hrun
      rw [hschedule]
      exact ih (h.fail trivial hschedule)

/-- A call that returns has gone through the states of `ScheduledVia`. -/
theorem scheduledVia_of_ok (rt : Runtime n) (hs : Sound s σ reserved ∅)
    {request : Request} {gpu : Fin n}
    (hrun : schedule rt (some request) s = .ok gpu.val s') :
    ∃ leaf splits s₁ σ₁ node s₂,
      ScheduledVia rt s σ reserved request leaf splits s₁ σ₁ node gpu s₂ ∧
      Sound s' σ₁ ((request.inputIds, gpu) :: reserved) ∅ ∧
      (s' = s₂ ∨ ∃ light, MovesTo light s₂ s') := by
  have hn : 0 < n := gpu.pos
  have hne : request.inputIds ≠ [] := by
    intro hnil
    obtain ⟨-, s'', herror, -⟩ := scheduleRequest_nil rt hn hs hnil
    rw [schedule_error rt herror] at hrun
    cases hrun
  obtain ⟨leaf, splits, s₁, σ₁, node, gpu', s₂, hvia⟩ := scheduledVia rt hn hs hne
  obtain ⟨s'', hrun', hs', hmoves⟩ := hvia.scheduleRequest
  obtain ⟨hgpu, rfl⟩ := EStateM.Result.ok.inj
    ((schedule_of_scheduleRequest rt hrun').symm.trans hrun)
  obtain rfl : gpu' = gpu := Fin.ext (Int.ofNat.inj hgpu)
  exact ⟨leaf, splits, s₁, σ₁, node, s₂, hvia, hs', hmoves⟩

/-- A call that raises an exception only allocates the root. -/
theorem schedule_fail (rt : Runtime n) (hn : 0 < n) (hs : Sound s σ reserved ∅)
    {request : Request} {fault : Fault}
    (hrun : schedule rt (some request) s = .error fault s') :
    ∃ gpu, Sound s' σ (([], gpu) :: reserved) ∅ ∧ PathGivenTo s rootNode gpu s' := by
  by_cases hnil : request.inputIds = []
  · obtain ⟨gpu, s'', herror, hs', hgiven⟩ := scheduleRequest_nil rt hn hs hnil
    obtain ⟨-, rfl⟩ := EStateM.Result.error.inj ((schedule_error rt herror).symm.trans hrun)
    exact ⟨gpu, hs', hgiven⟩
  · obtain ⟨gpu, s'', -, hok, -⟩ := schedule_ok hn hs hnil
    rw [hok] at hrun
    cases hrun

/-- The rule of runs: what holds at first, is kept by changes that leave the tree and the
window, and is kept by every allowed call up to where nodes are moved, always holds. -/
theorem SchedulerRun.invariant {windowDuration maxDramTokens prefillTpot : ℚ}
    {Allowed : PrebleGlobalSchedulerUtils n → List ℕ → Prop}
    {I : PrebleGlobalSchedulerUtils n → Prop} (hn : 0 < n)
    (hinit : I (PrebleGlobalSchedulerUtils.init rt windowDuration maxDramTokens prefillTpot))
    (hkeep : ∀ s s' : PrebleGlobalSchedulerUtils n, SameShape s.cache s'.cache →
      s'.histogram.timestamps = s.histogram.timestamps → I s → I s')
    (hschedule : ∀ s σ reserved request leaf splits s₁ σ₁ node gpu s₂, Sound s σ reserved ∅ →
      I s → Allowed s request.inputIds →
      ScheduledVia rt s σ reserved request leaf splits s₁ σ₁ node gpu s₂ → I s₂)
    {unfinished : List (List ℕ × Fin n)}
    (h : SchedulerRun rt windowDuration maxDramTokens prefillTpot Allowed s unfinished) :
    (∃ σ reserved, Sound s σ reserved ∅ ∧ unfinished.Subperm reserved) ∧ I s := by
  induction h with
  | init => exact ⟨⟨_, [], init_sound rt windowDuration maxDramTokens prefillTpot, .refl _⟩, hinit⟩
  -- the invariant passes through the request path; stealing and failing keep shape and window
  | schedule _ hallowed hrun ih =>
    obtain ⟨⟨σ, reserved, hs, hsub⟩, hI⟩ := ih
    obtain ⟨leaf, splits, s₁, σ₁, node, s₂, hvia, hs', hmoves⟩ := scheduledVia_of_ok rt hs hrun
    have hI₂ := hschedule _ _ _ _ _ _ _ _ _ _ _ hs hI hallowed hvia
    refine ⟨⟨σ₁, _, hs', (List.subperm_cons _).mpr hsub⟩, ?_⟩
    rcases hmoves with rfl | ⟨light, hmoves⟩
    · exact hI₂
    · exact hkeep _ _ hmoves.shape hmoves.timestamps hI₂
  | fail _ hallowed hrun ih =>
    obtain ⟨⟨σ, reserved, hs, hsub⟩, hI⟩ := ih
    obtain ⟨gpu, hs', hgiven⟩ := schedule_fail rt hn hs hrun
    exact ⟨⟨σ, _, hs', hsub.trans (List.sublist_cons_self _ _).subperm⟩,
      hkeep _ _ hgiven.shape hgiven.timestamps hI⟩
  -- a completion releases one reservation, or none when the answer was a failure
  | @finish s s' unfinished output inputIds _ hanswered hmem hrun ih =>
    obtain ⟨⟨σ, reserved, hs, hsub⟩, hI⟩ := ih
    obtain ⟨s'', hrun', hs', hshape, hanswer⟩ :=
      finishRequest_ok rt hs hanswered (hsub.subset hmem)
    obtain ⟨-, rfl⟩ := EStateM.Result.ok.inj (hrun'.symm.trans hrun)
    refine ⟨⟨σ, _, hs', ?_⟩, hkeep _ _ hshape hanswer.timestamps hI⟩
    split
    · exact hsub.erase _
    · exact (List.erase_sublist.subperm).trans hsub

end DualMap.Preble.PrebleGlobalScheduler
