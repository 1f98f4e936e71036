import DualMap.Preble.StolenNodes

/-!
# The Load After a Move

Right after a node is moved, the heavy replica should still cost at least as much as the light
one, both counted anew. A move takes off the heavy replica what the node and all nodes of the
window below it cost there, and it adds to the light replica what these nodes cost it alone, in
place of what they cost it before; the order of the replicas is kept exactly when this is at
most the difference between their costs (`steal_keepsOrder_iff`). The guard of the loop compares
running numbers, to which a move adds the share of the one node on the heavy replica, so it
misses the nodes that come along: a cheap node above an expensive one inverts the load
(`steal_inverts_load`).
-/

namespace DualMap.Preble

open SlidingWindowHistogram (nodeCost)

variable {n : ℕ} {rt : Runtime n} {σ : ℕ → List ℕ} {reserved : List (List ℕ × Fin n)}
  {fresh : Finset ℕ}

namespace SlidingWindowHistogram

/-- The cost of a node is read from its entries in the dictionaries and from its allocation. -/
theorem nodeCost_congr (nodes : ℕ → TreeNode n) {h h' : SlidingWindowHistogram n} {node : ℕ}
    (hratio : h'.unsharePrefixRatioForNodeMaps = h.unsharePrefixRatioForNodeMaps)
    (hnum : h'.numRequestsForNodeMaps = h.numRequestsForNodeMaps)
    (hdecode : h'.curNumDecodeForNodeMaps = h.curNumDecodeForNodeMaps)
    (htpot : h'.prefillTpot = h.prefillTpot) (halloc : h'.replicasOf node = h.replicasOf node)
    (gpu : Fin n) (tpot : ℚ) :
    nodeCost nodes h' node gpu tpot = nodeCost nodes h node gpu tpot := by
  rw [replicasOf, replicasOf] at halloc
  rw [nodeCost, nodeCost, decodeCost, decodeCost, outputLength, outputLength, actualPrefillCost,
    actualPrefillCost, prefillTime, prefillTime, hratio, hnum, hdecode, htpot, halloc]

end SlidingWindowHistogram

namespace PrebleGlobalSchedulerUtils

variable {s s' : PrebleGlobalSchedulerUtils n} {node : ℕ} {heavy light gpu : Fin n}

/-! ## The costs of the replicas -/

/-- The nodes of the window with at least two requests. -/
def counted (s : PrebleGlobalSchedulerUtils n) : Finset ℕ :=
  {m ∈ s.histogram.histogram.keys.toFinset |
    2 ≤ (s.histogram.numRequestsForNodeMaps.get? m).getD 0}

/-- What a node costs a replica that it is allocated to. -/
def replicaCost (s : PrebleGlobalSchedulerUtils n) (m : ℕ) (gpu : Fin n) : ℚ :=
  nodeCost s.cache.nodes s.histogram m gpu (s.histogram.medianTopt gpu)

/-- What a replica pays for its nodes that count. -/
def replicaLoad (s : PrebleGlobalSchedulerUtils n) (gpu : Fin n) : ℚ :=
  GroupLoads.load s.counted s.holders s.replicaCost gpu

/-- The costs of all replicas are counted anew, and the one replica costs at least as much as
the other. -/
def KeepsOrder (s : PrebleGlobalSchedulerUtils n) (heavy light : Fin n) : Prop :=
  ∃ costs h, SlidingWindowHistogram.getPrefillDecodeCostForGpusListWithMinNumRequest
    s.cache.nodes 2 s.histogram = .ok costs h ∧ costs light ≤ costs heavy

theorem Sound.replicaLoad_spec (hs : Sound s σ reserved fresh) :
    SlidingWindowHistogram.getPrefillDecodeCostForGpusListWithMinNumRequest s.cache.nodes 2
      s.histogram = .ok s.replicaLoad s.histogram :=
  hs.windowed.getPrefillDecodeCostWithMinNumRequest hs.topts 2

theorem Sound.keepsOrder_iff (hs : Sound s σ reserved fresh) :
    s.KeepsOrder heavy light ↔ s.replicaLoad light ≤ s.replicaLoad heavy := by
  constructor
  · intro hkeeps
    obtain ⟨costs, h, hrun, hle⟩ := hkeeps
    obtain ⟨rfl, -⟩ := EStateM.Result.ok.inj (hs.replicaLoad_spec.symm.trans hrun)
    exact hle
  · intro hle
    exact ⟨s.replicaLoad, s.histogram, hs.replicaLoad_spec, hle⟩

/-! ## What a move costs -/

/-- What a node would cost a replica that it is allocated to alone. -/
def aloneCost (s : PrebleGlobalSchedulerUtils n) (m : ℕ) (gpu : Fin n) : ℚ :=
  (s.withAllocation m {gpu}).replicaCost m gpu

/-- A node and all below it. -/
def subtree (s : PrebleGlobalSchedulerUtils n) (node : ℕ) : Finset ℕ :=
  {m ∈ s.cache.allNodes | node ∈ s.cache.ancestors m}

/-- The nodes that count and are moved along with a node. -/
def movedAlong (s : PrebleGlobalSchedulerUtils n) (node : ℕ) : Finset ℕ :=
  s.counted ∩ s.subtree node

/-- What a move takes off the heavy replica. -/
def taken (s : PrebleGlobalSchedulerUtils n) (node : ℕ) (heavy : Fin n) : ℚ :=
  GroupLoads.load (s.movedAlong node) s.holders s.replicaCost heavy

/-- What a move adds to the light replica. -/
def gained (s : PrebleGlobalSchedulerUtils n) (node : ℕ) (light : Fin n) : ℚ :=
  ∑ m ∈ s.movedAlong node, s.aloneCost m light -
    GroupLoads.load (s.movedAlong node) s.holders s.replicaCost light

/-- What a move takes off one replica and adds to the other is at most the difference between
the two. -/
def FitsGap (s : PrebleGlobalSchedulerUtils n) (node : ℕ) (heavy light : Fin n) : Prop :=
  s.taken node heavy + s.gained node light ≤ s.replicaLoad heavy - s.replicaLoad light

/-- The walk below a node meets what the node is an ancestor of. -/
theorem Sound.mem_subtree (hs : Sound s σ reserved fresh) (hnode : node ∈ s.cache.allNodes)
    {m : ℕ} : m ∈ s.subtree node ↔
      m = node ∨ m ∈ (s.cache.tree.preorder s.cache.allNodes.card node).tail := by
  have hcard : (s.cache.tree.below σ node).card ≤ s.cache.allNodes.card :=
    Finset.card_le_card (fun x hx => (RadixTree.mem_below.mp hx).1)
  obtain ⟨-, hwalk⟩ := hs.wellFormed.spelled.preorder_spec hnode hcard
  have hself : node ∈ s.cache.tree.preorder s.cache.allNodes.card node :=
    (hwalk node).mpr ⟨hnode, List.prefix_refl _⟩
  -- the walk starts with the node itself
  have hcons : s.cache.tree.preorder s.cache.allNodes.card node =
      node :: (s.cache.tree.preorder s.cache.allNodes.card node).tail := by
    cases hfuel : s.cache.allNodes.card with
    | zero =>
      rw [hfuel] at hself
      exact absurd hself List.not_mem_nil
    | succ fuel => rfl
  have hmem : m ∈ s.subtree node ↔ m ∈ s.cache.tree.preorder s.cache.allNodes.card node := by
    rw [subtree, Finset.mem_filter, hwalk m]
    refine and_congr_right (fun hm => ?_)
    rw [hs.wellFormed.mem_ancestors hm]
    exact and_iff_right hnode
  rw [hmem, ← List.mem_cons, ← hcons]

/-- What a node costs after a move depends on its allocation only. -/
theorem MovedTo.replicaCost (hmoved : MovedTo node light s s') (m : ℕ) (gpu : Fin n) :
    s'.replicaCost m gpu = (s.withAllocation m (s'.holders m)).replicaCost m gpu := by
  have hholders : (s.withAllocation m (s'.holders m)).holders m = s'.holders m := by
    rw [holders_withAllocation, if_pos rfl]
  obtain ⟨_, _, _, _, _, hsame⟩ := hmoved.histogram
  have htopt : s'.histogram.medianTopt gpu = s.histogram.medianTopt gpu := by
    rw [hsame]
    rfl
  rw [PrebleGlobalSchedulerUtils.replicaCost, hmoved.cache, htopt]
  refine SlidingWindowHistogram.nodeCost_congr _ ?_ ?_ ?_ ?_ hholders.symm gpu _
  all_goals
    rw [hsame]
    rfl

theorem replicaCost_withAllocation_self (s : PrebleGlobalSchedulerUtils n) (m : ℕ) (gpu : Fin n) :
    (s.withAllocation m (s.holders m)).replicaCost m gpu = s.replicaCost m gpu := by
  have hholders : (s.withAllocation m (s.holders m)).holders m = s.holders m := by
    rw [holders_withAllocation, if_pos rfl]
  exact SlidingWindowHistogram.nodeCost_congr _ (by rfl) (by rfl) (by rfl) (by rfl) hholders gpu _

theorem MovedTo.counted (hmoved : MovedTo node light s s') : s'.counted = s.counted := by
  obtain ⟨_, _, _, _, _, hsame⟩ := hmoved.histogram
  rw [PrebleGlobalSchedulerUtils.counted, hsame]
  rfl

/-- A move keeps the order of two replicas exactly when it fits into the gap between them. -/
theorem MovedTo.replicaLoad_le_iff (hmoved : MovedTo node light s s')
    (hs : Sound s σ reserved fresh) (hnode : node ∈ s.cache.allNodes) (hne : heavy ≠ light) :
    s'.replicaLoad light ≤ s'.replicaLoad heavy ↔ s.FitsGap node heavy light := by
  -- the nodes moved along are those of the subtree; the others keep holders and costs
  have hholders : ∀ m, s'.holders m = if m ∈ s.subtree node then {light} else s.holders m := by
    intro m
    rw [hmoved.holders m]
    exact if_congr (hs.mem_subtree hnode).symm rfl rfl
  have hstays : ∀ m ∈ s.counted, m ∉ s.subtree node → s'.replicaCost m = s.replicaCost m := by
    intro m _ hm
    funext gpu
    rw [hmoved.replicaCost, hholders m, if_neg hm, replicaCost_withAllocation_self]
  have halone : ∑ m ∈ s.movedAlong node, s'.replicaCost m light =
      ∑ m ∈ s.movedAlong node, s.aloneCost m light := by
    refine Finset.sum_congr rfl (fun m hm => ?_)
    rw [hmoved.replicaCost, hholders m, if_pos (Finset.mem_inter.mp hm).2, aloneCost]
  rw [PrebleGlobalSchedulerUtils.replicaLoad, PrebleGlobalSchedulerUtils.replicaLoad,
    hmoved.counted, GroupLoads.load_reassign_le_iff (fun m _ => hholders m) hstays hne,
    FitsGap, taken, gained, ← halone]
  rfl

end PrebleGlobalSchedulerUtils

namespace PrebleGlobalScheduler

open PrebleGlobalSchedulerUtils

variable {s : PrebleGlobalSchedulerUtils n}

/-! ## Main results -/

/-- In every run, right after every move the heavy replica costs at least as much as the light
one, both counted anew, exactly when the move fits into the gap between them. -/
theorem steal_keepsOrder_iff {windowDuration maxDramTokens prefillTpot : ℚ}
    {unfinished : List (List ℕ × Fin n)}
    (h : SchedulerRun rt windowDuration maxDramTokens prefillTpot (fun _ _ => True) s unfinished)
    {request : Request} {stolen : StolenNode n} (hsteals : ScheduleSteals rt request s stolen) :
    stolen.after.KeepsOrder stolen.heavyGpu stolen.lightGpu ↔
      stolen.before.FitsGap stolen.node stolen.heavyGpu stolen.lightGpu := by
  obtain ⟨⟨σ, reserved, hs, -⟩, -⟩ := h.invariant (I := fun _ => True) stolen.heavyGpu.pos trivial
    (fun _ _ _ _ _ => trivial) (fun _ _ _ _ _ _ _ _ _ _ _ _ _ _ _ => trivial)
  obtain ⟨σ', reserved', hstolen⟩ := hsteals.stolen hs
  rw [hstolen.after.keepsOrder_iff]
  exact hstolen.moved.replicaLoad_le_iff hstolen.sound hstolen.inTree hstolen.other

/-! ## Two moves -/

/-- Two replicas, and a clock that stands still. -/
def stoppedClock : Runtime 2 := .ascending 2 fun _ => 0

section FirstMove

variable (request : Request) (s : PrebleGlobalSchedulerUtils 2)

/-- The call for the request comes to the point where nodes may be moved. -/
def fullReplicas : PrebleGlobalSchedulerUtils 2 :=
  Py.finalState (scheduleUntilStealing stoppedClock request s)

/-- The costs of the replicas are counted. -/
def countedReplicas : PrebleGlobalSchedulerUtils 2 :=
  Py.finalState (onHistogram (fun nodes =>
    SlidingWindowHistogram.getPrefillDecodeCostForGpusListWithMinNumRequest nodes 2)
      (fullReplicas request s))

/-- The candidates of the first replica are on the heap. -/
def candidateReplicas : PrebleGlobalSchedulerUtils 2 :=
  Py.finalState (rebalanceHeap ⟨0, Nat.two_pos⟩ (3 / 20) (countedReplicas request s))

/-- The first one is moved to the second replica. -/
def firstMove (node : ℕ) (cost larger : ℚ) : StolenNode 2 where
  before := candidateReplicas request s
  node := node
  heavyGpu := ⟨0, Nat.two_pos⟩
  lightGpu := ⟨1, Nat.one_lt_two⟩
  cost := cost
  larger := larger
  smaller := 0
  after := Py.finalState (moveNode ⟨0, Nat.two_pos⟩ ⟨1, Nat.one_lt_two⟩ node
    (candidateReplicas request s))

variable {request s} {node leaf matched : ℕ} {gpu : Fin 2} {cost larger : ℚ}
  {candidates rest : List (ℚ × ℕ)}

/-- What `schedule` finds on the way to its first move, where only the first replica has costs. -/
theorem firstMove_steals (hlarger : 0 < larger)
    (huntil : Py.returned (scheduleUntilStealing stoppedClock request s) =
      some (leaf, matched, gpu))
    (hchain : (((fullReplicas request s).cache.nodes leaf).depth : ℤ) -
      ((fullReplicas request s).cache.nodes matched).depth < rebalancingChainLength)
    (hmany : ¬ ∑ gpu, (fullReplicas request s).numRequestsForGpusList gpu < 50 * 2)
    (hcosts : Py.returned (onHistogram (fun nodes =>
      SlidingWindowHistogram.getPrefillDecodeCostForGpusListWithMinNumRequest nodes 2)
        (fullReplicas request s)) = some (fun gpu => if gpu = 0 then larger else 0))
    (hmedian : ((countedReplicas request s).histogram.toptQueuesForGpus 0).median =
      some (3 / 20))
    (hheap : Py.returned (rebalanceHeap 0 (3 / 20) (countedReplicas request s)) =
      some candidates)
    (hpop : Heapq.heappop (candidateReplicas request s).stealKey candidates =
      some ((cost, node), rest))
    (hseveral : candidates.length ≠ 1)
    (himportant : (candidateReplicas request s).IsUnsharePrefixOver50PercentForNode node)
    (hguard : ¬ larger - cost < 0 + cost)
    (hmove : Py.returned (moveNode 0 1 node (candidateReplicas request s)) = some ()) :
    ScheduleSteals stoppedClock request s (firstMove request s node cost larger) := by
  have hsorted : ((List.finRange 2).map (fun gpu => (gpu, if gpu = 0 then larger else 0))).mergeSort
      (fun x y => y.2 ≤ x.2) = (0, larger) :: ([] ++ [(1, 0)]) := by
    refine List.mergeSort_of_pairwise ?_
    simp [List.finRange_succ, hlarger.le]
  have hturn : LoopTurn 0 1 candidates larger 0 (candidateReplicas request s) cost node rest
      (firstMove request s node cost larger).after :=
    ⟨hpop, himportant, hguard, Py.eq_ok_of_returned hmove⟩
  have hrecursion : RecursionSteals stoppedClock 3 ((0, larger) :: ([] ++ [(1, 0)]))
      (countedReplicas request s) (firstMove request s node cost larger) :=
    .here (by simpa [highLoadThreshold] using hlarger) hmedian (Py.eq_ok_of_returned hheap)
      hseveral (.first hturn)
  refine ⟨Py.eq_ok_of_returned huntil, hchain, hmany, Py.eq_ok_of_returned hcosts, ?_⟩
  rw [hsorted]
  exact hrecursion

end FirstMove

/-! ### A cheap node above an expensive one -/

/-- A request that waits for eight tokens. -/
def longPrompt : Request := ⟨0, "s", [1, 2, 3, 4, 5], 5, 8, 0⟩

/-- It continues the first one by a token. -/
def longerPrompt : Request := ⟨1, "s", [1, 2, 3, 4, 5, 6], 6, 8, 0⟩

/-- It leaves the long ones after two tokens, and it waits for one token only. -/
def shortPrompt : Request := ⟨2, "s", [1, 2, 9], 3, 1, 0⟩

/-- The state after 99 requests, of which the last one has cut the node of the long ones: the
node `3` of two tokens lies above the node `1` with the rest, both on the first replica. -/
def busyReplicas : PrebleGlobalSchedulerUtils 2 :=
  scheduleEach stoppedClock (longPrompt :: (List.replicate 97 longerPrompt ++ [shortPrompt]))
    (init stoppedClock 180 1000 (1 / 10))

/-- The cheap node is moved, and with it the expensive one. -/
def cheapNode : StolenNode 2 :=
  firstMove shortPrompt busyReplicas 3 (227 / 15) (1243687 / 8805)

theorem busyReplicas_run : ∃ unfinished,
    SchedulerRun stoppedClock 180 1000 (1 / 10) (fun _ _ => True) busyReplicas unfinished :=
  SchedulerRun.init.each (longPrompt :: (List.replicate 97 longerPrompt ++ [shortPrompt]))

theorem cheapNode_stolen : ScheduleSteals stoppedClock shortPrompt busyReplicas cheapNode := by
  -- one evaluation of the 99 calls for all of these
  obtain ⟨huntil, hchain, hmany, hcosts, hmedian, hheap, hpop, himportant, hmove⟩ :
      Py.returned (scheduleUntilStealing stoppedClock shortPrompt busyReplicas) = some (4, 3, 0) ∧
      (((fullReplicas shortPrompt busyReplicas).cache.nodes 4).depth : ℤ) -
        ((fullReplicas shortPrompt busyReplicas).cache.nodes 3).depth < rebalancingChainLength ∧
      ¬ ∑ gpu, (fullReplicas shortPrompt busyReplicas).numRequestsForGpusList gpu < 50 * 2 ∧
      Py.returned (onHistogram (fun nodes =>
        SlidingWindowHistogram.getPrefillDecodeCostForGpusListWithMinNumRequest nodes 2)
        (fullReplicas shortPrompt busyReplicas)) =
          some (fun gpu => if gpu = 0 then 1243687 / 8805 else 0) ∧
      ((countedReplicas shortPrompt busyReplicas).histogram.toptQueuesForGpus 0).median =
        some (3 / 20) ∧
      Py.returned (rebalanceHeap 0 (3 / 20) (countedReplicas shortPrompt busyReplicas)) =
        some [(227 / 15, 3), (370146 / 2935, 1)] ∧
      Heapq.heappop (candidateReplicas shortPrompt busyReplicas).stealKey
        [(227 / 15, 3), (370146 / 2935, 1)] = some ((227 / 15, 3), [(370146 / 2935, 1)]) ∧
      (candidateReplicas shortPrompt busyReplicas).IsUnsharePrefixOver50PercentForNode 3 ∧
      Py.returned (moveNode 0 1 3 (candidateReplicas shortPrompt busyReplicas)) = some () := by
    decide +kernel
  exact firstMove_steals (by norm_num) huntil hchain hmany hcosts hmedian hheap hpop (by decide)
    himportant (by norm_num) hmove

/-- The first replica has lost all that it had. -/
theorem cheapNode_inverts : ¬ cheapNode.after.KeepsOrder cheapNode.heavyGpu cheapNode.lightGpu := by
  have hcosts : Py.returned (SlidingWindowHistogram.getPrefillDecodeCostForGpusListWithMinNumRequest
      cheapNode.after.cache.nodes 2 cheapNode.after.histogram) =
      some (fun gpu => if gpu = 0 then 0 else 76144 / 8805) := by
    decide +kernel
  intro hkeeps
  obtain ⟨costs, h, hrun, hle⟩ := hkeeps
  rw [hrun] at hcosts
  obtain rfl : costs = fun gpu => if gpu = 0 then 0 else 76144 / 8805 := Option.some.inj hcosts
  simp only [cheapNode, firstMove] at hle
  norm_num at hle

/-- A move need not keep the order of the replicas. -/
theorem steal_inverts_load : ¬ ∀ (s : PrebleGlobalSchedulerUtils 2)
    (unfinished : List (List ℕ × Fin 2)) (request : Request) (stolen : StolenNode 2),
    SchedulerRun stoppedClock 180 1000 (1 / 10) (fun _ _ => True) s unfinished →
      ScheduleSteals stoppedClock request s stolen →
      stolen.after.KeepsOrder stolen.heavyGpu stolen.lightGpu := by
  intro h
  obtain ⟨unfinished, hrun⟩ := busyReplicas_run
  exact cheapNode_inverts (h busyReplicas unfinished shortPrompt cheapNode hrun cheapNode_stolen)

/-! ### One of two trees -/

/-- A prompt that keeps the second replica busy once. -/
def apartPrompt : Request := ⟨3, "s", [11, 12, 13, 14, 15, 16, 17], 7, 20, 0⟩

/-- A second long prompt, which shares nothing with the first one. -/
def secondPrompt : Request := ⟨4, "s", [21, 22, 23, 24, 25], 5, 8, 0⟩

/-- It continues the second one by a token. -/
def secondLonger : Request := ⟨5, "s", [21, 22, 23, 24, 25, 26], 6, 8, 0⟩

/-- The state after 99 requests: the first replica has the long prompts of two trees, of nearly
the same costs. -/
def pairedReplicas : PrebleGlobalSchedulerUtils 2 :=
  scheduleEach stoppedClock (longPrompt :: apartPrompt :: secondPrompt ::
    (List.replicate 48 longerPrompt ++ List.replicate 48 secondLonger))
    (init stoppedClock 180 1000 (1 / 10))

/-- The node of the cheaper tree is moved, and the other tree stays. -/
def pairedNode : StolenNode 2 :=
  firstMove longerPrompt pairedReplicas 3 (185269 / 2930) (111915131 / 876070)

theorem pairedReplicas_run : ∃ unfinished,
    SchedulerRun stoppedClock 180 1000 (1 / 10) (fun _ _ => True) pairedReplicas unfinished :=
  SchedulerRun.init.each (longPrompt :: apartPrompt :: secondPrompt ::
    (List.replicate 48 longerPrompt ++ List.replicate 48 secondLonger))

theorem pairedNode_stolen : ScheduleSteals stoppedClock longerPrompt pairedReplicas pairedNode := by
  -- each step of the loop's first turn, evaluated on the state it starts from
  obtain ⟨huntil, hchain, hmany, hcosts, hmedian, hheap, hpop, himportant, hmove⟩ :
      Py.returned (scheduleUntilStealing stoppedClock longerPrompt pairedReplicas) =
        some (4, 1, 0) ∧
      (((fullReplicas longerPrompt pairedReplicas).cache.nodes 4).depth : ℤ) -
        ((fullReplicas longerPrompt pairedReplicas).cache.nodes 1).depth <
          rebalancingChainLength ∧
      ¬ ∑ gpu, (fullReplicas longerPrompt pairedReplicas).numRequestsForGpusList gpu < 50 * 2 ∧
      Py.returned (onHistogram (fun nodes =>
        SlidingWindowHistogram.getPrefillDecodeCostForGpusListWithMinNumRequest nodes 2)
        (fullReplicas longerPrompt pairedReplicas)) =
          some (fun gpu => if gpu = 0 then 111915131 / 876070 else 0) ∧
      ((countedReplicas longerPrompt pairedReplicas).histogram.toptQueuesForGpus 0).median =
        some (3 / 20) ∧
      Py.returned (rebalanceHeap 0 (3 / 20) (countedReplicas longerPrompt pairedReplicas)) =
        some [(185269 / 2930, 3), (19290 / 299, 1)] ∧
      Heapq.heappop (candidateReplicas longerPrompt pairedReplicas).stealKey
        [(185269 / 2930, 3), (19290 / 299, 1)] =
          some ((185269 / 2930, 3), [(19290 / 299, 1)]) ∧
      (candidateReplicas longerPrompt pairedReplicas).IsUnsharePrefixOver50PercentForNode 3 ∧
      Py.returned (moveNode 0 1 3 (candidateReplicas longerPrompt pairedReplicas)) = some () := by
    decide +kernel
  exact firstMove_steals (by norm_num) huntil hchain hmany hcosts hmedian hheap hpop (by decide)
    himportant (by norm_num) hmove

theorem pairedNode_keepsOrder :
    pairedNode.after.KeepsOrder pairedNode.heavyGpu pairedNode.lightGpu := by
  have hcosts : Py.returned (SlidingWindowHistogram.getPrefillDecodeCostForGpusListWithMinNumRequest
      pairedNode.after.cache.nodes 2 pairedNode.after.histogram) =
      some (fun gpu => if gpu = 0 then 19290 / 299 else 2597 / 586) := by
    decide +kernel
  refine ⟨_, _, Py.eq_ok_of_returned hcosts, ?_⟩
  simp only [pairedNode, firstMove]
  norm_num

/-- The one move fits into the gap, and the other one does not. -/
theorem steal_keepsOrder_iff_both :
    pairedNode.before.FitsGap pairedNode.node pairedNode.heavyGpu pairedNode.lightGpu ∧
      ¬ cheapNode.before.FitsGap cheapNode.node cheapNode.heavyGpu cheapNode.lightGpu := by
  obtain ⟨_, hpaired⟩ := pairedReplicas_run
  obtain ⟨_, hcheap⟩ := busyReplicas_run
  exact ⟨(steal_keepsOrder_iff hpaired pairedNode_stolen).mp pairedNode_keepsOrder,
    mt (steal_keepsOrder_iff hcheap cheapNode_stolen).mpr cheapNode_inverts⟩

end PrebleGlobalScheduler

end DualMap.Preble
