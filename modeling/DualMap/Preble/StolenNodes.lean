import DualMap.Foundation.GroupLoads
import DualMap.Preble.PrefillCosts

/-!
# The Nodes That Are Stolen

The moves that `handle_important_node_stealing_recursive` makes in a call of `schedule`, each
with the states right before and right after it (`ScheduleSteals`). The loop goes on from the
state right after a move (`LoopSteals.run`). A move gives the node and all below it to the light
replica and leaves the rest as it is (`Stolen`).
-/

namespace DualMap.Preble

variable {n : ℕ} {rt : Runtime n} {σ : ℕ → List ℕ} {reserved : List (List ℕ × Fin n)}
  {fresh : Finset ℕ}

namespace PrebleGlobalSchedulerUtils

variable {s s' : PrebleGlobalSchedulerUtils n}

/-! ## Moves -/

/-- A node that is moved: the state when it is taken off the heap, its cost, what the loop
counts for the two replicas then, and the state when the node and all below it are
allocated. -/
structure StolenNode (n : ℕ) where
  before : PrebleGlobalSchedulerUtils n
  node : ℕ
  heavyGpu : Fin n
  lightGpu : Fin n
  cost : ℚ
  larger : ℚ
  smaller : ℚ
  after : PrebleGlobalSchedulerUtils n

/-- A turn of the loop that moves a node. -/
structure LoopTurn (heavyGpu lightGpu : Fin n) (heap : List (ℚ × ℕ)) (larger smaller : ℚ)
    (s : PrebleGlobalSchedulerUtils n) (cost : ℚ) (node : ℕ) (rest : List (ℚ × ℕ))
    (s' : PrebleGlobalSchedulerUtils n) : Prop where
  pop : Heapq.heappop s.stealKey heap = some ((cost, node), rest)
  important : s.IsUnsharePrefixOver50PercentForNode node
  guard : ¬ larger - cost < smaller + cost
  move : moveNode heavyGpu lightGpu node s = .ok () s'

/-- The moves of `stealLoop`. -/
inductive LoopSteals (heavyGpu lightGpu : Fin n) :
    ℕ → List (ℚ × ℕ) → ℚ → ℚ → PrebleGlobalSchedulerUtils n → StolenNode n → Prop
  | first {fuel : ℕ} {heap rest : List (ℚ × ℕ)} {larger smaller cost : ℚ} {node : ℕ}
      {s s' : PrebleGlobalSchedulerUtils n}
      (hturn : LoopTurn heavyGpu lightGpu heap larger smaller s cost node rest s') :
      LoopSteals heavyGpu lightGpu (fuel + 1) heap larger smaller s
        ⟨s, node, heavyGpu, lightGpu, cost, larger, smaller, s'⟩
  | later {fuel : ℕ} {heap rest : List (ℚ × ℕ)} {larger smaller cost : ℚ} {node : ℕ}
      {s s' : PrebleGlobalSchedulerUtils n} {stolen : StolenNode n}
      (hturn : LoopTurn heavyGpu lightGpu heap larger smaller s cost node rest s')
      (hgo : ¬ larger - cost < highLoadThreshold * (smaller + cost))
      (hlater : LoopSteals heavyGpu lightGpu fuel rest (larger - cost) (smaller + cost) s' stolen) :
      LoopSteals heavyGpu lightGpu (fuel + 1) heap larger smaller s stolen

/-- The moves of `handle_important_node_stealing_recursive`, in the branch for several nodes of
one of its calls. -/
inductive RecursionSteals (rt : Runtime n) :
    ℕ → List (Fin n × ℚ) → PrebleGlobalSchedulerUtils n → StolenNode n → Prop
  | here {fuel : ℕ} {heavyGpu lightGpu : Fin n} {larger smaller medianTpot : ℚ}
      {others : List (Fin n × ℚ)} {heap : List (ℚ × ℕ)} {s s' : PrebleGlobalSchedulerUtils n}
      {stolen : StolenNode n} (hload : ¬ larger ≤ highLoadThreshold * smaller)
      (hmedian : (s.histogram.toptQueuesForGpus heavyGpu).median = some medianTpot)
      (hheap : rebalanceHeap heavyGpu medianTpot s = .ok heap s') (hseveral : heap.length ≠ 1)
      (hsteals : LoopSteals heavyGpu lightGpu (heap.length + 1) heap larger smaller s' stolen) :
      RecursionSteals rt (fuel + 1) ((heavyGpu, larger) :: (others ++ [(lightGpu, smaller)])) s
        stolen
  | later {fuel : ℕ} {heavyGpu lightGpu : Fin n} {larger smaller larger' smaller' : ℚ}
      {others : List (Fin n × ℚ)} {s s' : PrebleGlobalSchedulerUtils n} {stolen : StolenNode n}
      (hload : ¬ larger ≤ highLoadThreshold * smaller)
      (hturn : stealTurn rt heavyGpu lightGpu larger smaller s = .ok (larger', smaller') s')
      (hlater : RecursionSteals rt fuel (others ++ [(lightGpu, smaller')]) s' stolen) :
      RecursionSteals rt (fuel + 1) ((heavyGpu, larger) :: (others ++ [(lightGpu, smaller)])) s
        stolen

/-- The moves of `handle_important_node_stealing`. -/
inductive HandleSteals (rt : Runtime n) (s : PrebleGlobalSchedulerUtils n) (stolen : StolenNode n) :
    Prop
  | intro {costs : Fin n → ℚ} {s' : PrebleGlobalSchedulerUtils n}
      (hmany : ¬ ∑ gpu, s.numRequestsForGpusList gpu < 50 * n)
      (hcosts : onHistogram (fun nodes =>
        SlidingWindowHistogram.getPrefillDecodeCostForGpusListWithMinNumRequest nodes 2) s =
          .ok costs s')
      (hsteals : RecursionSteals rt (n + 1) (((List.finRange n).map (fun gpu =>
        (gpu, costs gpu))).mergeSort (fun x y => y.2 ≤ x.2)) s' stolen)

/-! ## What the loop does next -/

theorem LoopTurn.run {heavyGpu lightGpu : Fin n} {heap rest : List (ℚ × ℕ)}
    {larger smaller cost : ℚ} {node : ℕ}
    (h : LoopTurn heavyGpu lightGpu heap larger smaller s cost node rest s') (fuel : ℕ) :
    stealLoop heavyGpu lightGpu (fuel + 1) heap larger smaller s =
      (if larger - cost < highLoadThreshold * (smaller + cost) then
        pure (larger - cost, smaller + cost)
      else stealLoop heavyGpu lightGpu fuel rest (larger - cost) (smaller + cost)) s' := by
  rw [stealLoop_succ, Py.bind_ok (Py.get_apply s), h.pop]
  simp only
  rw [Py.assert_pos h.important, pure_bind, if_neg h.guard, Py.bind_ok h.move]

/-- The loop goes on from the state right after a move. -/
theorem LoopSteals.run {heavyGpu lightGpu : Fin n} {fuel : ℕ} {heap : List (ℚ × ℕ)}
    {larger smaller : ℚ} {stolen : StolenNode n}
    (h : LoopSteals heavyGpu lightGpu fuel heap larger smaller s stolen) :
    ∃ fuel' rest, stealLoop heavyGpu lightGpu fuel heap larger smaller s =
      (if stolen.larger - stolen.cost < highLoadThreshold * (stolen.smaller + stolen.cost) then
        pure (stolen.larger - stolen.cost, stolen.smaller + stolen.cost)
      else stealLoop heavyGpu lightGpu fuel' rest (stolen.larger - stolen.cost)
        (stolen.smaller + stolen.cost)) stolen.after := by
  induction h with
  | @first fuel _ rest _ _ _ _ _ _ hturn => exact ⟨fuel, rest, hturn.run fuel⟩
  | @later fuel _ _ _ _ _ _ _ _ _ hturn hgo _ ih =>
    obtain ⟨fuel', rest, hrun⟩ := ih
    refine ⟨fuel', rest, ?_⟩
    rw [hturn.run fuel, if_neg hgo]
    exact hrun

/-! ## What is known of a move -/

/-- A node of the tree is moved to another replica in a sound state. -/
structure Stolen (σ : ℕ → List ℕ) (reserved : List (List ℕ × Fin n)) (fresh : Finset ℕ)
    (stolen : StolenNode n) : Prop where
  sound : Sound stolen.before σ reserved fresh
  inTree : stolen.node ∈ stolen.before.cache.allNodes
  other : stolen.heavyGpu ≠ stolen.lightGpu
  guard : ¬ stolen.larger - stolen.cost < stolen.smaller + stolen.cost
  moved : MovedTo stolen.node stolen.lightGpu stolen.before stolen.after
  after : Sound stolen.after σ reserved fresh

theorem LoopTurn.stolen {heavyGpu lightGpu : Fin n} {heap rest : List (ℚ × ℕ)}
    {larger smaller cost : ℚ} {node : ℕ}
    (h : LoopTurn heavyGpu lightGpu heap larger smaller s cost node rest s')
    (hs : Sound s σ reserved fresh) (hne : heavyGpu ≠ lightGpu)
    (hheap : ∀ item ∈ heap, item.2 ∈ s.cache.allNodes) :
    Stolen σ reserved fresh ⟨s, node, heavyGpu, lightGpu, cost, larger, smaller, s'⟩ := by
  obtain ⟨s'', hmove, hs', hmoved⟩ := hs.moveNode_spec heavyGpu lightGpu node
  obtain ⟨-, rfl⟩ := EStateM.Result.ok.inj (hmove.symm.trans h.move)
  have hmem : (cost, node) ∈ heap := Heapq.heappop_mem _ h.pop
  exact ⟨hs, hheap _ hmem, hne, h.guard, hmoved, hs'⟩

/-- The tree stays as it is, so what is left on the heap is in it. -/
theorem LoopTurn.rest_inTree {heavyGpu lightGpu : Fin n} {heap rest : List (ℚ × ℕ)}
    {larger smaller cost : ℚ} {node : ℕ}
    (h : LoopTurn heavyGpu lightGpu heap larger smaller s cost node rest s')
    (hmoved : MovedTo node lightGpu s s') (hheap : ∀ item ∈ heap, item.2 ∈ s.cache.allNodes) :
    ∀ item ∈ rest, item.2 ∈ s'.cache.allNodes := by
  intro item hitem
  rw [hmoved.cache]
  exact hheap item (Heapq.heappop_subset _ h.pop hitem)

theorem LoopSteals.stolen {heavyGpu lightGpu : Fin n} (hne : heavyGpu ≠ lightGpu) {fuel : ℕ}
    {heap : List (ℚ × ℕ)} {larger smaller : ℚ} {stolen : StolenNode n}
    (h : LoopSteals heavyGpu lightGpu fuel heap larger smaller s stolen)
    (hs : Sound s σ reserved fresh) (hheap : ∀ item ∈ heap, item.2 ∈ s.cache.allNodes) :
    Stolen σ reserved fresh stolen := by
  induction h with
  | first hturn => exact hturn.stolen hs hne hheap
  | later hturn _ _ ih =>
    have hfirst := hturn.stolen hs hne hheap
    exact ih hfirst.after (hturn.rest_inTree hfirst.moved hheap)

theorem RecursionSteals.stolen {fuel : ℕ} {costs : List (Fin n × ℚ)} {stolen : StolenNode n}
    (h : RecursionSteals rt fuel costs s stolen) (hs : Sound s σ reserved fresh)
    (hnodup : (costs.map Prod.fst).Nodup) : Stolen σ reserved fresh stolen := by
  induction h with
  | @here _ heavyGpu _ _ _ medianTpot _ heap s _ _ _ _ hheap _ hsteals =>
    obtain ⟨heap', hrun, hitems⟩ := hs.rebalanceHeap_spec heavyGpu medianTpot
    obtain ⟨rfl, rfl⟩ := EStateM.Result.ok.inj (hrun.symm.trans hheap)
    refine hsteals.stolen (ne_of_nodup_map_fst hnodup) hs (fun item hitem => ?_)
    obtain ⟨entry, hentry, hnode⟩ := List.mem_map.mp (hitems item hitem).1
    exact hnode ▸ (hs.inTree entry hentry).1
  | @later _ _ _ larger smaller _ _ _ s _ _ _ hturn _ ih =>
    obtain ⟨costs, s'', hrun, hs', -⟩ :=
      hs.stealTurn_spec rt (ne_of_nodup_map_fst hnodup) larger smaller
    obtain ⟨-, rfl⟩ := EStateM.Result.ok.inj (hrun.symm.trans hturn)
    exact ih hs' (nodup_next _ hnodup)

theorem HandleSteals.stolen {stolen : StolenNode n} (h : HandleSteals rt s stolen)
    (hs : Sound s σ reserved fresh) : Stolen σ reserved fresh stolen := by
  obtain ⟨-, hcosts, hsteals⟩ := h
  have hrun : onHistogram (fun nodes =>
      SlidingWindowHistogram.getPrefillDecodeCostForGpusListWithMinNumRequest nodes 2) s =
        .ok _ s :=
    onHistogram_ok (hs.windowed.getPrefillDecodeCostWithMinNumRequest hs.topts 2)
  obtain ⟨-, rfl⟩ := EStateM.Result.ok.inj (hrun.symm.trans hcosts)
  refine hsteals.stolen hs ?_
  rw [((List.mergeSort_perm _ _).map Prod.fst).nodup_iff, List.map_map]
  simpa [Function.comp_def] using List.nodup_finRange n

end PrebleGlobalSchedulerUtils

namespace PrebleGlobalScheduler

open PrebleGlobalSchedulerUtils

variable {s s' : PrebleGlobalSchedulerUtils n}

/-- The moves of a call of `schedule`, which leaves longer chains alone. -/
inductive ScheduleSteals (rt : Runtime n) (request : Request) (s : PrebleGlobalSchedulerUtils n)
    (stolen : StolenNode n) : Prop
  | intro {leaf node : ℕ} {gpu : Fin n} {s' : PrebleGlobalSchedulerUtils n}
      (huntil : scheduleUntilStealing rt request s = .ok (leaf, node, gpu) s')
      (hchain : ((s'.cache.nodes leaf).depth : ℤ) - (s'.cache.nodes node).depth <
        rebalancingChainLength)
      (hsteals : HandleSteals rt s' stolen)

/-- A call that gets as far as that leaves a sound state. -/
theorem scheduleUntilStealing_sound (hs : Sound s σ reserved ∅) {request : Request}
    {leaf node : ℕ} {gpu : Fin n}
    (huntil : scheduleUntilStealing rt request s = .ok (leaf, node, gpu) s') :
    ∃ splits s₁ σ₁, ScheduledVia rt s σ reserved request leaf splits s₁ σ₁ node gpu s' := by
  have hne : request.inputIds ≠ [] := by
    rw [scheduleUntilStealing_eq, Py.bind_apply] at huntil
    split at huntil
    · next ready s₁ hready => exact scheduleUntilRequest_ne_nil hs hready
    · cases huntil
  obtain ⟨leaf', splits, s₁, σ₁, node', gpu', s₂, hvia⟩ := scheduledVia rt gpu.pos hs hne
  have hboth := hvia.run.symm.trans huntil
  simp only [EStateM.Result.ok.injEq, Prod.mk.injEq] at hboth
  obtain ⟨⟨rfl, rfl, rfl⟩, rfl⟩ := hboth
  exact ⟨splits, s₁, σ₁, hvia⟩

theorem ScheduleSteals.stolen {request : Request} {stolen : StolenNode n}
    (h : ScheduleSteals rt request s stolen) (hs : Sound s σ reserved ∅) :
    ∃ σ' reserved', Stolen σ' reserved' ∅ stolen := by
  obtain ⟨huntil, -, hsteals⟩ := h
  obtain ⟨splits, s₁, σ₁, hvia⟩ := scheduleUntilStealing_sound hs huntil
  exact ⟨_, _, hsteals.stolen hvia.sound₂⟩

end PrebleGlobalScheduler

end DualMap.Preble
