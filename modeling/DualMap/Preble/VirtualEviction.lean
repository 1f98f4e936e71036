import DualMap.Preble.AccessTimes
import DualMap.Preble.EvictionOutcome
import DualMap.Preble.SplitPaths

/-!
# What a Virtual Eviction Frees

`virtual_lru_eviction` starts with all cached nodes in its heap, the inner nodes among them. It
pushes a parent once all of its cached children were visited, also if the parent is in the heap
already or was taken off before, and it adds up the tokens of whatever it takes off. So an inner
node gets a second turn. A turn of a node that was visited counts tokens which the set of nodes
does not have, and a turn of a node that is not cached puts it into the set.

As long as all turns are first turns of cached nodes, these come in the order of the heap. The
second turn of a node comes after the cached nodes before it or before one of its children
(`sweptBefore`). It does no harm where these nodes have tokens enough, or are all there are.

## Main Results

- `Sweep.frees`: an undisturbed eviction frees what it should
- `CleanSweep.not_frees`: a disturbed one does not, for some amount
- `virtualLruEviction_frees_iff`: the amounts that a replica can be asked for
-/

namespace DualMap.Preble.LPRadixCache

variable {n : ℕ} {rt : Runtime n} {c : LPRadixCache n} {σ : ℕ → List ℕ} {gpu : Fin n}

/-! ## Turns -/

/-- The cached nodes but the root. -/
def cachedBelow (c : LPRadixCache n) (gpu : Fin n) : Finset ℕ :=
  (c.cachedNodes gpu).erase rootNode

/-- The cached children of a node. -/
def cachedChildren (c : LPRadixCache n) (gpu : Fin n) (p : ℕ) : Finset ℕ :=
  (c.cachedBelow gpu).filter (fun m => (c.nodes m).parent = some p)

/-- How many tokens these nodes own. -/
def tokensOf (c : LPRadixCache n) (s : Finset ℕ) : ℕ := ∑ m ∈ s, (c.nodes m).value.length

/-- The cached nodes that have their turns before the node has a second one: itself and its
children, and what comes in the heap before one of these. -/
def sweptBefore (c : LPRadixCache n) (gpu : Fin n) (p : ℕ) : Finset ℕ :=
  (c.cachedBelow gpu).filter (fun m => m = p ∨ (c.nodes m).parent = some p ∨
    (c.nodes m).heapKey < (c.nodes p).heapKey ∨
      ∃ x ∈ c.cachedChildren gpu p, (c.nodes m).heapKey < (c.nodes x).heapKey)

/-- No second turn does harm: the nodes before it have the tokens that are asked for, or they
are all cached nodes, and the node itself is one of them. -/
def Undisturbed (c : LPRadixCache n) (gpu : Fin n) (numTokensToEvict : ℕ) : Prop :=
  ∀ p ∈ c.allNodes, p ≠ rootNode → (c.cachedChildren gpu p).Nonempty →
    numTokensToEvict ≤ c.tokensOf (c.sweptBefore gpu p) ∨
      p ∈ c.cachedNodes gpu ∧ c.sweptBefore gpu p = c.cachedBelow gpu

instance (c : LPRadixCache n) (gpu : Fin n) (numTokensToEvict : ℕ) :
    Decidable (c.Undisturbed gpu numTokensToEvict) :=
  inferInstanceAs (Decidable (∀ p ∈ c.allNodes, _))

/-- The eviction returns, with cached nodes that have the tokens that are asked for, or all
that there are. -/
def Frees (rt : Runtime n) (c : LPRadixCache n) (gpu : Fin n) (numTokensToEvict : ℕ) : Prop :=
  ∃ victims, c.virtualLruEviction rt numTokensToEvict gpu = .ok victims ∧
    victims ⊆ c.cachedNodes gpu ∧
    min numTokensToEvict (c.tokensOf (c.cachedNodes gpu)) ≤ c.tokensOf victims

theorem mem_cachedNodes {m : ℕ} :
    m ∈ c.cachedNodes gpu ↔ m ∈ c.allNodes ∧ (c.nodes m).hasCachedGpu gpu := Finset.mem_filter

theorem mem_cachedBelow {m : ℕ} :
    m ∈ c.cachedBelow gpu ↔ m ≠ rootNode ∧ m ∈ c.cachedNodes gpu := Finset.mem_erase

theorem mem_cachedChildren {p m : ℕ} : m ∈ c.cachedChildren gpu p ↔
    m ∈ c.cachedBelow gpu ∧ (c.nodes m).parent = some p := Finset.mem_filter

theorem mem_allNodes_of_cachedBelow {m : ℕ} (hm : m ∈ c.cachedBelow gpu) : m ∈ c.allNodes :=
  (mem_cachedNodes.mp (mem_cachedBelow.mp hm).2).1

theorem tokensOf_mono {s s' : Finset ℕ} (h : s ⊆ s') : c.tokensOf s ≤ c.tokensOf s' :=
  Finset.sum_le_sum_of_subset h

/-- The root owns no tokens. -/
theorem WellFormed.tokensOf_cachedBelow (hc : WellFormed c σ) (gpu : Fin n) :
    c.tokensOf (c.cachedBelow gpu) = c.tokensOf (c.cachedNodes gpu) := by
  refine Finset.sum_erase _ ?_
  rw [hc.value_eq rootNode hc.root_mem]
  exact congrArg List.length hc.spelled.root_label

theorem WellFormed.value_pos (hc : WellFormed c σ) {m : ℕ} (hm : m ∈ c.allNodes)
    (hroot : m ≠ rootNode) : 0 < (c.nodes m).value.length := by
  rw [hc.value_eq m hm]
  exact List.length_pos_iff.mpr (hc.spelled.label_ne_nil hm hroot)

/-- More nodes have more tokens. -/
theorem WellFormed.tokensOf_lt (hc : WellFormed c σ) {s s' : Finset ℕ} (h : s ⊂ s')
    (hcached : s' ⊆ c.cachedBelow gpu) : c.tokensOf s < c.tokensOf s' := by
  obtain ⟨m, hm, hnot⟩ := Finset.exists_of_ssubset h
  have hbelow := hcached hm
  exact Finset.sum_lt_sum_of_subset h.subset hm hnot
    (hc.value_pos (mem_allNodes_of_cachedBelow hbelow) (mem_cachedBelow.mp hbelow).1)
    (fun _ _ _ => Nat.zero_le _)

/-! ## One turn -/

/-- All cached children of the node, of which there are some, were visited. -/
def Passed (c : LPRadixCache n) (gpu : Fin n) (visited : Finset ℕ) (p : ℕ) : Prop :=
  (c.cachedChildren gpu p).Nonempty ∧ c.cachedChildren gpu p ⊆ visited

/-- The first turns that a node has still to come. -/
def firstTurns (c : LPRadixCache n) (gpu : Fin n) (visited : Finset ℕ) (m : ℕ) : ℕ :=
  if m ∈ c.cachedBelow gpu ∧ m ∉ visited then 1 else 0

/-- The heap after the turn of a node. -/
def leavesVisited (c : LPRadixCache n) (gpu : Fin n) (visited : Finset ℕ) (p : ℕ)
    (rest : List ℕ) : List ℕ :=
  if c.cachedChildren gpu p ⊆ visited then
    Heapq.heappush (fun m => (c.nodes m).heapKey) rest p
  else rest

/-- The test of the code: no other child of the parent is cached and not visited. -/
theorem WellFormed.siblings_iff (hc : WellFormed c σ) (gpu : Fin n) {p x : ℕ} {visited : Finset ℕ}
    (hp : p ∈ c.allNodes) (hx : x ∈ visited) :
    (∀ child ∈ (c.nodes p).children.values,
        ¬ (child ≠ x ∧ (c.nodes child).hasCachedGpu gpu ∧ child ∉ visited)) ↔
      c.cachedChildren gpu p ⊆ visited := by
  constructor
  · intro h child hchild
    obtain ⟨hchild, hparent⟩ := mem_cachedChildren.mp hchild
    obtain ⟨-, a, hedge⟩ := hc.edge_iff.mpr ⟨mem_allNodes_of_cachedBelow hchild, hparent⟩
    by_contra hnot
    refine h child (OrderedDict.mem_values_iff.mpr ⟨a, hedge⟩) ⟨?_, ?_, hnot⟩
    · rintro rfl
      exact hnot hx
    · exact (mem_cachedNodes.mp (mem_cachedBelow.mp hchild).2).2
  · rintro h child hchild ⟨-, hcached, hnot⟩
    obtain ⟨a, hedge⟩ := OrderedDict.mem_values_iff.mp hchild
    obtain ⟨hmem, hparent⟩ := hc.edge_iff.mp ⟨hp, a, hedge⟩
    exact hnot (h (mem_cachedChildren.mpr
      ⟨mem_cachedBelow.mpr ⟨hc.spelled.ne_root hp hedge, mem_cachedNodes.mpr ⟨hmem, hcached⟩⟩,
        hparent⟩))

/-- A turn of the loop. -/
theorem virtualEvictLoop_turn (hc : WellFormed c σ) {numTokensToEvict fuel numEvicted x p : ℕ}
    {leaves rest : List ℕ} (visited : Finset ℕ) (hmore : numEvicted < numTokensToEvict)
    (hpop : Heapq.heappop (fun m => (c.nodes m).heapKey) leaves = some (x, rest))
    (hx : x ∈ c.allNodes) (hroot : x ≠ rootNode) (hparent : (c.nodes x).parent = some p) :
    c.virtualEvictLoop numTokensToEvict gpu (fuel + 1) leaves numEvicted visited =
      c.virtualEvictLoop numTokensToEvict gpu fuel
        (c.leavesVisited gpu (Insert.insert x visited) p rest)
        (numEvicted + (c.nodes x).value.length) (Insert.insert x visited) := by
  obtain ⟨hp, -⟩ := hc.edge_iff.mpr ⟨hx, hparent⟩
  have hsiblings := hc.siblings_iff gpu hp (Finset.mem_insert_self x visited)
  rw [virtualEvictLoop, if_pos hmore, hpop]
  simp only [if_neg hroot, hparent]
  rw [if_congr hsiblings rfl rfl]
  rfl

/-- What holds between turns of cached nodes. -/
structure Sweep (c : LPRadixCache n) (gpu : Fin n) (leaves : List ℕ) (visited : Finset ℕ) :
    Prop where
  tree : ∀ y ∈ leaves, y ∈ c.allNodes
  heap : Heapq.IsHeap (fun m => (c.nodes m).heapKey) leaves
  cached : visited ⊆ c.cachedBelow gpu
  waiting : ∀ m, c.firstTurns gpu visited m ≤ leaves.count m
  once : ∀ m ≠ rootNode, ¬ c.Passed gpu visited m →
    leaves.count m ≤ c.firstTurns gpu visited m
  ordered : ∀ x ∈ visited, ∀ m ∈ c.cachedBelow gpu,
    (c.nodes m).heapKey < (c.nodes x).heapKey → m ∈ visited

/-- As long as no node had a second turn, the parents that were passed wait for theirs. -/
structure CleanSweep (c : LPRadixCache n) (gpu : Fin n) (leaves : List ℕ)
    (visited : Finset ℕ) : Prop extends Sweep c gpu leaves visited where
  pushed : ∀ m ≠ rootNode, c.Passed gpu visited m →
    c.firstTurns gpu visited m < leaves.count m

theorem firstTurns_le_one (c : LPRadixCache n) (gpu : Fin n) (visited : Finset ℕ) (m : ℕ) :
    c.firstTurns gpu visited m ≤ 1 := by
  unfold firstTurns
  split <;> omega

theorem firstTurns_pos {visited : Finset ℕ} {m : ℕ} :
    0 < c.firstTurns gpu visited m ↔ m ∈ c.cachedBelow gpu ∧ m ∉ visited := by
  unfold firstTurns
  split <;> simp [*]

/-- A turn takes the first turn off the node, and leaves those of the others. -/
theorem firstTurns_insert (visited : Finset ℕ) (x m : ℕ) :
    c.firstTurns gpu (Insert.insert x visited) m =
      if m = x then 0 else c.firstTurns gpu visited m := by
  unfold firstTurns
  by_cases hm : m = x <;> simp [hm]

theorem Passed.insert {visited : Finset ℕ} {p : ℕ} (h : c.Passed gpu visited p) (x : ℕ) :
    c.Passed gpu (Insert.insert x visited) p :=
  ⟨h.1, h.2.trans (Finset.subset_insert _ _)⟩

/-- Only the parent of the node can be passed by its turn. -/
theorem Passed.of_insert {visited : Finset ℕ} {x p m : ℕ} (hparent : (c.nodes x).parent = some p)
    (h : c.Passed gpu (Insert.insert x visited) m) (hm : m ≠ p) : c.Passed gpu visited m := by
  refine ⟨h.1, fun y hy => (Finset.mem_insert.mp (h.2 hy)).resolve_left ?_⟩
  rintro rfl
  exact hm (Option.some.inj ((mem_cachedChildren.mp hy).2.symm.trans hparent))

theorem count_cons_eq (x m : ℕ) (l : List ℕ) :
    (x :: l).count m = l.count m + if m = x then 1 else 0 := by
  rw [List.count_cons]
  exact congrArg _ (if_congr (beq_iff_eq.trans eq_comm) rfl rfl)

theorem count_of_heappop {leaves rest : List ℕ} {x : ℕ}
    (hpop : Heapq.heappop (fun m => (c.nodes m).heapKey) leaves = some (x, rest)) (m : ℕ) :
    leaves.count m = rest.count m + if m = x then 1 else 0 := by
  rw [(Heapq.heappop_perm _ hpop).count_eq, count_cons_eq]

theorem count_leavesVisited (visited : Finset ℕ) (p m : ℕ) (rest : List ℕ) :
    (c.leavesVisited gpu visited p rest).count m =
      rest.count m + if c.cachedChildren gpu p ⊆ visited ∧ m = p then 1 else 0 := by
  unfold leavesVisited
  by_cases hpassed : c.cachedChildren gpu p ⊆ visited
  · rw [if_pos hpassed, (Heapq.heappush_perm _ rest p).count_eq, count_cons_eq]
    exact congrArg _ (if_congr (and_iff_right hpassed).symm rfl rfl)
  · rw [if_neg hpassed, if_neg (fun h => hpassed h.1), Nat.add_zero]

section Turn

variable {leaves rest : List ℕ} {visited : Finset ℕ} {x p : ℕ}
  (hpop : Heapq.heappop (fun m => (c.nodes m).heapKey) leaves = some (x, rest))

include hpop

/-- A cached node that is not visited comes no earlier than what is taken off the heap. -/
theorem Sweep.heapKey_le (h : Sweep c gpu leaves visited) {m : ℕ} (hm : m ∈ c.cachedBelow gpu)
    (hnot : m ∉ visited) : (c.nodes x).heapKey ≤ (c.nodes m).heapKey := by
  have hmem : m ∈ leaves := List.count_pos_iff.mp
    ((firstTurns_pos.mpr ⟨hm, hnot⟩).trans_le (h.waiting m))
  exact h.heap.root_le _ (Heapq.heappop_head _ hpop) m hmem

/-- The turn of a cached node. -/
theorem Sweep.turn (hc : WellFormed c σ) (h : Sweep c gpu leaves visited)
    (hx : x ∈ c.cachedBelow gpu) (hparent : (c.nodes x).parent = some p) :
    Sweep c gpu (c.leavesVisited gpu (Insert.insert x visited) p rest)
      (Insert.insert x visited) := by
  have hcount := count_of_heappop hpop
  refine ⟨?_, ?_, ?_, ?_, ?_, ?_⟩
  · intro y hy
    have hrest : ∀ z ∈ rest, z ∈ c.allNodes :=
      fun z hz => h.tree z (Heapq.heappop_subset _ hpop hz)
    unfold leavesVisited at hy
    split at hy
    · rcases List.mem_cons.mp ((Heapq.heappush_perm _ rest p).mem_iff.mp hy) with rfl | hy
      · exact (hc.edge_iff.mpr ⟨mem_allNodes_of_cachedBelow hx, hparent⟩).1
      · exact hrest y hy
    · exact hrest y hy
  · have hheap := Heapq.heappop_isHeap _ h.heap hpop
    unfold leavesVisited
    split
    · exact Heapq.heappush_isHeap _ hheap p
    · exact hheap
  · exact Finset.insert_subset hx h.cached
  · intro m
    have hwaiting := h.waiting m
    rw [hcount] at hwaiting
    rw [firstTurns_insert, count_leavesVisited]
    split_ifs at hwaiting ⊢ <;> omega
  · intro m hm hpassed
    have honce := h.once m hm (fun h => hpassed (h.insert x))
    rw [hcount] at honce
    -- the parent is pushed only where it was passed
    have hpush : ¬ (c.cachedChildren gpu p ⊆ Insert.insert x visited ∧ m = p) := by
      rintro ⟨hsub, rfl⟩
      exact hpassed ⟨⟨x, mem_cachedChildren.mpr ⟨hx, hparent⟩⟩, hsub⟩
    have hone := firstTurns_le_one c gpu visited m
    rw [firstTurns_insert, count_leavesVisited, if_neg hpush]
    split_ifs at honce ⊢ <;> omega
  · intro y hy m hm hlt
    rcases Finset.mem_insert.mp hy with rfl | hy
    · refine Finset.mem_insert_of_mem ?_
      by_contra hnot
      exact absurd hlt (not_lt.mpr (h.heapKey_le hpop hm hnot))
    · exact Finset.mem_insert_of_mem (h.ordered y hy m hm hlt)

/-- The first turn of a cached node. -/
theorem CleanSweep.turn (hc : WellFormed c σ) (h : CleanSweep c gpu leaves visited)
    (hx : x ∈ c.cachedBelow gpu) (hfirst : x ∉ visited)
    (hparent : (c.nodes x).parent = some p) :
    CleanSweep c gpu (c.leavesVisited gpu (Insert.insert x visited) p rest)
      (Insert.insert x visited) := by
  have hcount := count_of_heappop hpop
  refine ⟨h.toSweep.turn hpop hc hx hparent, fun m hm hpassed => ?_⟩
  rw [firstTurns_insert, count_leavesVisited]
  -- `m` had its turns paid for before, or this turn is the one that completes its children
  by_cases hbefore : c.Passed gpu visited m
  · have hpushed := h.pushed m hm hbefore
    have hpos := firstTurns_pos.mpr ⟨hx, hfirst⟩
    rw [hcount] at hpushed
    by_cases hmx : m = x
    · subst hmx
      rw [if_pos rfl] at hpushed ⊢
      omega
    · rw [if_neg hmx] at hpushed ⊢
      omega
  · -- the parent was passed with this turn, and is pushed
    obtain rfl : m = p := by
      by_contra hne
      exact hbefore (hpassed.of_insert hparent hne)
    have hmx : m ≠ x := by
      rintro rfl
      obtain ⟨hp, a, hedge⟩ :=
        hc.edge_iff.mpr ⟨mem_allNodes_of_cachedBelow hx, hparent⟩
      exact absurd (hc.spelled.length_lt hp hedge) (lt_irrefl _)
    have hwaiting := h.waiting m
    rw [hcount, if_neg hmx] at hwaiting
    rw [if_neg hmx, if_pos ⟨hpassed.2, rfl⟩]
    omega

/-- A second turn is one of a node that was passed. -/
theorem Sweep.passed (h : Sweep c gpu leaves visited) (hroot : x ≠ rootNode)
    (hagain : ¬ (x ∈ c.cachedBelow gpu ∧ x ∉ visited)) : c.Passed gpu visited x := by
  by_contra hnot
  have honce := h.once x hroot hnot
  rw [count_of_heappop hpop, if_pos rfl, Nat.eq_zero_of_not_pos (mt firstTurns_pos.mp hagain)]
    at honce
  omega

/-- It comes after the turns that should come before it. -/
theorem Sweep.sweptBefore_subset (h : Sweep c gpu leaves visited)
    (hagain : ¬ (x ∈ c.cachedBelow gpu ∧ x ∉ visited)) (hpassed : c.Passed gpu visited x) :
    c.sweptBefore gpu x ⊆ visited := by
  intro m hswept
  obtain ⟨hm, hbefore⟩ := Finset.mem_filter.mp hswept
  by_contra hnot
  rcases hbefore with hself | hparent | hlt | ⟨y, hy, hlt⟩
  · exact hagain (hself ▸ ⟨hm, hnot⟩)
  · exact hnot (hpassed.2 (mem_cachedChildren.mpr ⟨hm, hparent⟩))
  · exact absurd hlt (not_lt.mpr (h.heapKey_le hpop hm hnot))
  · exact hnot (h.ordered y (hpassed.2 hy) m hm hlt)

/-- When the root is taken off, every cached node was visited. -/
theorem Sweep.complete_of_root (h : Sweep c gpu leaves visited) (hr : Ranked c)
    (hroot : x = rootNode) : visited = c.cachedBelow gpu := by
  refine h.cached.antisymm (fun m hm => ?_)
  by_contra hnot
  have hle := h.heapKey_le hpop hm hnot
  have hlt := hr.heapKey_lt gpu (mem_allNodes_of_cachedBelow hm) (mem_cachedBelow.mp hm).1
  exact absurd (hroot ▸ hle) (not_le.mpr hlt)

end Turn

theorem Sweep.complete_of_nil {visited : Finset ℕ} (h : Sweep c gpu [] visited) :
    visited = c.cachedBelow gpu := by
  refine h.cached.antisymm (fun m hm => ?_)
  by_contra hnot
  exact absurd ((firstTurns_pos.mpr ⟨hm, hnot⟩).trans_le (h.waiting m)) (lt_irrefl 0)

theorem tokensOf_insert {visited : Finset ℕ} {x : ℕ} (hx : x ∉ visited) :
    c.tokensOf (Insert.insert x visited) = c.tokensOf visited + (c.nodes x).value.length := by
  rw [tokensOf, Finset.sum_insert hx, Nat.add_comm]
  rfl

/-! ## Undisturbed evictions -/

/-- An undisturbed eviction frees what it should. Tokens are counted twice only when all cached
nodes were visited. -/
theorem Sweep.frees (hc : WellFormed c σ) (hr : Ranked c) {numTokensToEvict : ℕ}
    (hundisturbed : c.Undisturbed gpu numTokensToEvict) {fuel numEvicted : ℕ} {leaves : List ℕ}
    {visited victims : Finset ℕ} (h : Sweep c gpu leaves visited)
    (hcount : numEvicted = c.tokensOf visited ∨ visited = c.cachedBelow gpu)
    (hcount' : c.tokensOf visited ≤ numEvicted)
    (hrun : c.virtualEvictLoop numTokensToEvict gpu fuel leaves numEvicted visited =
      .ok victims) :
    victims ⊆ c.cachedBelow gpu ∧
      min numTokensToEvict (c.tokensOf (c.cachedBelow gpu)) ≤ c.tokensOf victims := by
  induction fuel generalizing leaves numEvicted visited with
  | zero => cases hrun
  | succ fuel ih =>
    have hall : visited = c.cachedBelow gpu → victims = visited →
        victims ⊆ c.cachedBelow gpu ∧
          min numTokensToEvict (c.tokensOf (c.cachedBelow gpu)) ≤ c.tokensOf victims := by
      rintro hvisited rfl
      rw [hvisited]
      exact ⟨Finset.Subset.refl _, Nat.min_le_right _ _⟩
    by_cases hmore : numEvicted < numTokensToEvict
    -- enough was freed: the count is exact unless everything was visited
    case neg =>
      rw [virtualEvictLoop, if_neg hmore] at hrun
      obtain rfl : visited = victims := Except.ok.inj hrun
      rcases hcount with hcount | hcomplete
      · refine ⟨h.cached, (Nat.min_le_left _ _).trans ?_⟩
        rw [← hcount]
        exact not_lt.mp hmore
      · exact hall hcomplete rfl
    cases hpop : Heapq.heappop (fun m => (c.nodes m).heapKey) leaves with
    | none =>
      rw [virtualEvictLoop, if_pos hmore, hpop] at hrun
      rw [Heapq.heappop_eq_none.mp hpop] at h
      exact hall h.complete_of_nil (Except.ok.inj hrun).symm
    | some popped =>
      obtain ⟨x, rest⟩ := popped
      by_cases hroot : x = rootNode
      · rw [virtualEvictLoop, if_pos hmore, hpop] at hrun
        simp only [if_pos hroot] at hrun
        exact hall (h.complete_of_root hpop hr hroot) (Except.ok.inj hrun).symm
      have hx : x ∈ c.allNodes :=
        h.tree x (Heapq.heappop_mem _ hpop)
      obtain ⟨p, hparent⟩ := hc.parent_isSome hx hroot
      rw [virtualEvictLoop_turn hc visited hmore hpop hx hroot hparent] at hrun
      -- a first turn frees what the node holds, and the count stays exact
      by_cases hfirst : x ∈ c.cachedBelow gpu ∧ x ∉ visited
      · refine ih (h.turn hpop hc hfirst.1 hparent) ?_ ?_ hrun
        · left
          rw [tokensOf_insert hfirst.2]
          rcases hcount with hcount | hcomplete
          · rw [hcount]
          · exact absurd (hcomplete ▸ hfirst.1) hfirst.2
        · rw [tokensOf_insert hfirst.2]
          exact Nat.add_le_add_right hcount' _
      · -- a second turn: by now all cached nodes were visited
        have hpassed := h.passed hpop hroot hfirst
        have hswept := h.sweptBefore_subset hpop hfirst hpassed
        obtain ⟨hcached, hcomplete⟩ := (hundisturbed x hx hroot hpassed.1).resolve_left
          (not_le.mpr (((tokensOf_mono hswept).trans hcount').trans_lt hmore))
        have hvisited : visited = c.cachedBelow gpu := h.cached.antisymm (hcomplete ▸ hswept)
        have hbelow : x ∈ c.cachedBelow gpu := mem_cachedBelow.mpr ⟨hroot, hcached⟩
        have hsame : Insert.insert x visited = visited :=
          Finset.insert_eq_of_mem (hvisited ▸ hbelow)
        have hturn := h.turn hpop hc hbelow hparent
        rw [hsame] at hturn hrun
        exact ih hturn (Or.inr hvisited) (hcount'.trans (Nat.le_add_right _ _)) hrun

/-! ## Disturbed evictions -/

/-- Under a clock that shows no time twice, no two nodes have the same place in the heap. -/
def DistinctHeapKeys (c : LPRadixCache n) : Prop :=
  Set.InjOn (fun m => (c.nodes m).heapKey) c.allNodes

theorem DistinctTimes.distinctHeapKeys (hc : WellFormed c σ) (h : DistinctTimes rt c) :
    c.DistinctHeapKeys := by
  intro x hx y hy hkey
  exact h.distinct x (hc.fresh x hx) y (hc.fresh y hy) (Prod.ext_iff.mp hkey).2

/-- The place of a node in the heap decides whether it is swept before a second turn. -/
theorem mem_sweptBefore_of_le (hdistinct : c.DistinctHeapKeys) {p x b : ℕ}
    (hx : x ∈ c.cachedBelow gpu) (hb : b ∈ c.sweptBefore gpu p)
    (hle : (c.nodes x).heapKey ≤ (c.nodes b).heapKey) : x ∈ c.sweptBefore gpu p := by
  obtain ⟨hbmem, hbefore⟩ := Finset.mem_filter.mp hb
  rcases hle.eq_or_lt with heq | hlt
  · rwa [hdistinct (mem_allNodes_of_cachedBelow hx) (mem_allNodes_of_cachedBelow hbmem) heq]
  · refine Finset.mem_filter.mpr ⟨hx, Or.inr (Or.inr ?_)⟩
    rcases hbefore with rfl | hparent | hlt' | ⟨y, hy, hlt'⟩
    · exact Or.inl hlt
    · exact Or.inr ⟨b, mem_cachedChildren.mpr ⟨hbmem, hparent⟩, hlt⟩
    · exact Or.inl (hlt.trans hlt')
    · exact Or.inr ⟨y, hy, hlt.trans hlt'⟩

/-- When all that comes before the second turn of a node is visited, its turn comes before the
first turn of any other node. -/
theorem CleanSweep.mem_sweptBefore (hdistinct : c.DistinctHeapKeys) {p : ℕ} (hp : p ∈ c.allNodes)
    (hproot : p ≠ rootNode) (hchildren : (c.cachedChildren gpu p).Nonempty) {leaves rest : List ℕ}
    {x : ℕ} (h : CleanSweep c gpu leaves (c.sweptBefore gpu p))
    (hpop : Heapq.heappop (fun m => (c.nodes m).heapKey) leaves = some (x, rest))
    (hx : x ∈ c.cachedBelow gpu) : x ∈ c.sweptBefore gpu p := by
  have hpassed : c.Passed gpu (c.sweptBefore gpu p) p := by
    refine ⟨hchildren, fun y hy => ?_⟩
    obtain ⟨hymem, hyparent⟩ := mem_cachedChildren.mp hy
    exact Finset.mem_filter.mpr ⟨hymem, Or.inr (Or.inl hyparent)⟩
  have hpmem : p ∈ leaves :=
    List.count_pos_iff.mp ((Nat.zero_le _).trans_lt (h.pushed p hproot hpassed))
  have hle := h.heap.root_le _ (Heapq.heappop_head _ hpop) p hpmem
  refine Finset.mem_filter.mpr ⟨hx, ?_⟩
  rcases hle.eq_or_lt with heq | hlt
  · exact Or.inl (hdistinct (mem_allNodes_of_cachedBelow hx) hp heq)
  · exact Or.inr (Or.inr (Or.inl hlt))

/-- Of the nodes whose second turn comes before the last cached node, take one with the fewest
tokens before it. Asked for one more, the eviction counts it twice, or takes it though it is
not cached. -/
theorem CleanSweep.not_frees (hc : WellFormed c σ) (hr : Ranked c)
    (hdistinct : c.DistinctHeapKeys) {p : ℕ} (hp : p ∈ c.allNodes) (hproot : p ≠ rootNode)
    (hchildren : (c.cachedChildren gpu p).Nonempty)
    (hmore : c.sweptBefore gpu p ≠ c.cachedBelow gpu)
    (hleast : ∀ y ∈ c.allNodes, y ≠ rootNode → (c.cachedChildren gpu y).Nonempty →
      c.sweptBefore gpu y ≠ c.cachedBelow gpu →
        c.tokensOf (c.sweptBefore gpu p) ≤ c.tokensOf (c.sweptBefore gpu y))
    {fuel : ℕ} {leaves : List ℕ} {visited victims : Finset ℕ}
    (h : CleanSweep c gpu leaves visited) (hvisited : visited ⊆ c.sweptBefore gpu p)
    (hrun : c.virtualEvictLoop (c.tokensOf (c.sweptBefore gpu p) + 1) gpu fuel leaves
      (c.tokensOf visited) visited = .ok victims) :
    ¬ (victims ⊆ c.cachedNodes gpu ∧
      c.tokensOf (c.sweptBefore gpu p) + 1 ≤ c.tokensOf victims) := by
  induction fuel generalizing leaves visited with
  | zero => cases hrun
  | succ fuel ih =>
    have hquota := Nat.lt_succ_of_le (tokensOf_mono (c := c) hvisited)
    have hincomplete : visited ≠ c.cachedBelow gpu := by
      rintro rfl
      exact hmore ((Finset.filter_subset _ _).antisymm hvisited)
    cases hpop : Heapq.heappop (fun m => (c.nodes m).heapKey) leaves with
    | none =>
      rw [Heapq.heappop_eq_none.mp hpop] at h
      exact absurd h.toSweep.complete_of_nil hincomplete
    | some popped =>
      obtain ⟨x, rest⟩ := popped
      by_cases hroot : x = rootNode
      · exact absurd (h.toSweep.complete_of_root hpop hr hroot) hincomplete
      have hx : x ∈ c.allNodes :=
        h.tree x (Heapq.heappop_mem _ hpop)
      obtain ⟨q, hparent⟩ := hc.parent_isSome hx hroot
      rw [virtualEvictLoop_turn hc visited hquota hpop hx hroot hparent] at hrun
      by_cases hfirst : x ∈ c.cachedBelow gpu ∧ x ∉ visited
      · by_cases hall : visited = c.sweptBefore gpu p
        · -- the second turn of `p` comes before the first one of `x`
          rw [hall] at h hfirst
          exact absurd (h.mem_sweptBefore hdistinct hp hproot hchildren hpop hfirst.1) hfirst.2
        · obtain ⟨b, hb, hnot⟩ := Finset.exists_of_ssubset (hvisited.ssubset_of_ne hall)
          have hbmem := (Finset.mem_filter.mp hb).1
          have hxswept := mem_sweptBefore_of_le hdistinct hfirst.1 hb
            (h.toSweep.heapKey_le hpop hbmem hnot)
          rw [← tokensOf_insert hfirst.2] at hrun
          exact ih (h.turn hpop hc hfirst.1 hfirst.2 hparent)
            (Finset.insert_subset hxswept hvisited) hrun
      have hpassed := h.toSweep.passed hpop hroot hfirst
      have hswept := h.toSweep.sweptBefore_subset hpop hfirst hpassed
      obtain hall : visited = c.sweptBefore gpu p := by
        by_contra hne
        -- a second turn so early would be one with fewer tokens before it
        have hincomplete' : c.sweptBefore gpu x ≠ c.cachedBelow gpu := by
          intro heq
          exact hincomplete (h.cached.antisymm (heq ▸ hswept))
        have hlt := hc.tokensOf_lt (hvisited.ssubset_of_ne hne) (Finset.filter_subset _ _)
        have hle := hleast x hx hroot hpassed.1 hincomplete'
        exact absurd ((hle.trans (tokensOf_mono hswept)).trans_lt hlt) (lt_irrefl _)
      -- the turn meets the amount, with no more tokens in the set
      have hpos := hc.value_pos hx hroot
      obtain ⟨fuel, rfl⟩ : ∃ k, fuel = k + 1 := by
        refine Nat.exists_eq_succ_of_ne_zero (fun hzero => ?_)
        rw [hzero] at hrun
        cases hrun
      rw [virtualEvictLoop, if_neg (by rw [hall]; omega)] at hrun
      obtain rfl : Insert.insert x visited = victims := Except.ok.inj hrun
      rintro ⟨hcached, henough⟩
      have hbelow : x ∈ c.cachedBelow gpu :=
        mem_cachedBelow.mpr ⟨hroot, hcached (Finset.mem_insert_self x visited)⟩
      rw [Finset.insert_eq_of_mem (by_contra fun hnot => hfirst ⟨hbelow, hnot⟩), hall] at henough
      exact absurd henough (Nat.not_succ_le_self _)

/-- Nothing that was visited is lost. -/
theorem virtualEvictLoop_subset {numTokensToEvict fuel numEvicted : ℕ} {leaves : List ℕ}
    {visited victims : Finset ℕ}
    (hrun : c.virtualEvictLoop numTokensToEvict gpu fuel leaves numEvicted visited =
      .ok victims) : visited ⊆ victims := by
  induction fuel generalizing leaves numEvicted visited with
  | zero => cases hrun
  | succ fuel ih =>
    rw [virtualEvictLoop] at hrun
    split at hrun
    · split at hrun
      · exact (Except.ok.inj hrun).subset
      · split at hrun
        · exact (Except.ok.inj hrun).subset
        · split at hrun
          · cases hrun
          · exact (Finset.subset_insert _ _).trans (ih hrun)
    · exact (Except.ok.inj hrun).subset

/-- How many tokens the turns that a heap leads to can count: those of its nodes, and of all
nodes above them. -/
def tokensAhead (c : LPRadixCache n) (leaves : List ℕ) : ℕ :=
  (leaves.map (fun m => (c.nodes m).contextLength)).sum

theorem tokensAhead_turn (hc : WellFormed c σ) (gpu : Fin n) {leaves rest : List ℕ} {x q : ℕ}
    (visited : Finset ℕ)
    (hpop : Heapq.heappop (fun m => (c.nodes m).heapKey) leaves = some (x, rest))
    (hx : x ∈ c.allNodes) (hparent : (c.nodes x).parent = some q) :
    (c.nodes x).value.length + c.tokensAhead (c.leavesVisited gpu visited q rest) ≤
      c.tokensAhead leaves := by
  have hlength : (c.nodes q).contextLength + (c.nodes x).value.length =
      (c.nodes x).contextLength := by
    have hsofar := (hc.contextSoFar_eq hx hparent).2.1
    rw [TreeNode.contextSoFar, TreeNode.numTokens] at hsofar
    omega
  have hpopped : c.tokensAhead leaves = (c.nodes x).contextLength + c.tokensAhead rest :=
    ((Heapq.heappop_perm _ hpop).map _).sum_eq.trans (List.sum_cons ..)
  have hpushed : c.tokensAhead (c.leavesVisited gpu visited q rest) ≤
      (c.nodes q).contextLength + c.tokensAhead rest := by
    unfold leavesVisited
    split
    · exact (((Heapq.heappush_perm _ rest q).map _).sum_eq.trans (List.sum_cons ..)).le
    · exact Nat.le_add_left _ _
  omega

/-- A node that is not cached, but has cached children, has a turn if enough tokens are asked
for. -/
theorem Sweep.not_subset (hc : WellFormed c σ) (hr : Ranked c) {p : ℕ} (hp : p ∈ c.allNodes)
    (hproot : p ≠ rootNode) (hnot : p ∉ c.cachedNodes gpu)
    (hchildren : (c.cachedChildren gpu p).Nonempty) {numTokensToEvict fuel numEvicted : ℕ}
    {leaves : List ℕ} {visited victims : Finset ℕ} (h : Sweep c gpu leaves visited)
    (hwaits : c.Passed gpu visited p → p ∈ leaves)
    (hquota : numEvicted + c.tokensAhead leaves < numTokensToEvict)
    (hrun : c.virtualEvictLoop numTokensToEvict gpu fuel leaves numEvicted visited =
      .ok victims) : ¬ victims ⊆ c.cachedNodes gpu := by
  induction fuel generalizing leaves numEvicted visited with
  | zero => cases hrun
  | succ fuel ih =>
    have hwaits' : visited = c.cachedBelow gpu → p ∈ leaves := by
      intro hvisited
      exact hwaits ⟨hchildren, hvisited ▸ Finset.filter_subset _ _⟩
    cases hpop : Heapq.heappop (fun m => (c.nodes m).heapKey) leaves with
    | none =>
      rw [Heapq.heappop_eq_none.mp hpop] at h hwaits'
      exact absurd (hwaits' h.complete_of_nil) List.not_mem_nil
    | some popped =>
      obtain ⟨x, rest⟩ := popped
      -- the root has the greatest key, so `p` would have been popped before it
      by_cases hroot : x = rootNode
      · have hpmem := hwaits' (h.complete_of_root hpop hr hroot)
        have hle := h.heap.root_le _ (Heapq.heappop_head _ hpop) p hpmem
        exact absurd (hroot ▸ hle) (not_le.mpr (hr.heapKey_lt gpu hp hproot))
      have hx : x ∈ c.allNodes := h.tree x (Heapq.heappop_mem _ hpop)
      obtain ⟨q, hparent⟩ := hc.parent_isSome hx hroot
      rw [virtualEvictLoop_turn hc visited (by omega) hpop hx hroot hparent] at hrun
      -- a cached node cannot spoil the quota before `p` is reached; an uncached one is the failure
      by_cases hcached : x ∈ c.cachedNodes gpu
      · have hbelow : x ∈ c.cachedBelow gpu := mem_cachedBelow.mpr ⟨hroot, hcached⟩
        have hahead := tokensAhead_turn hc gpu (Insert.insert x visited) hpop hx hparent
        refine ih (h.turn hpop hc hbelow hparent) (fun hpassed => ?_) (by omega) hrun
        by_cases hbefore : c.Passed gpu visited p
        · have hne : p ≠ x := fun heq => hnot (heq ▸ hcached)
          have hrest := Heapq.mem_rest_of_heappop _ hpop (hwaits hbefore) hne
          unfold leavesVisited
          split
          · exact (Heapq.heappush_perm _ rest q).mem_iff.mpr (List.mem_cons_of_mem _ hrest)
          · exact hrest
        · obtain rfl : p = q := by
            by_contra hne
            exact hbefore (hpassed.of_insert hparent hne)
          rw [leavesVisited, if_pos hpassed.2]
          exact (Heapq.heappush_perm _ rest p).mem_iff.mpr List.mem_cons_self
      · intro hvictims
        exact hcached (hvictims (virtualEvictLoop_subset hrun (Finset.mem_insert_self x visited)))

/-! ## Main results -/

/-- The heap that an eviction starts with. -/
def initialLeaves (rt : Runtime n) (c : LPRadixCache n) (gpu : Fin n) : List ℕ :=
  Heapq.heapify (fun m => (c.nodes m).heapKey) (c.collectNodesOnRuntime rt gpu)

theorem initialLeaves_spec (rt : Runtime n) (c : LPRadixCache n) (gpu : Fin n) :
    (initialLeaves rt c gpu).Nodup ∧
      ∀ m, m ∈ initialLeaves rt c gpu ↔ m ∈ c.cachedNodes gpu := by
  have hperm := (Heapq.heapify_perm (fun m => (c.nodes m).heapKey)
    (c.collectNodesOnRuntime rt gpu)).trans
      (Heapq.foldl_heappush_perm (fun m => (c.nodes m).heapKey) _ [])
  rw [List.append_nil] at hperm
  obtain ⟨hnodup, hmem⟩ := rt.iterNodes_perm c.allNodes
  refine ⟨hperm.nodup_iff.mpr (hnodup.filter _), fun m => ?_⟩
  rw [initialLeaves, hperm.mem_iff, List.mem_filter, hmem, mem_cachedNodes, decide_eq_true_iff]

theorem initial_cleanSweep (rt : Runtime n) (c : LPRadixCache n) (gpu : Fin n) :
    CleanSweep c gpu (initialLeaves rt c gpu) ∅ := by
  obtain ⟨hnodup, hmem⟩ := initialLeaves_spec rt c gpu
  have hcount : ∀ m, (initialLeaves rt c gpu).count m = if m ∈ c.cachedNodes gpu then 1 else 0 := by
    intro m
    rw [hnodup.count]
    exact if_congr (hmem m) rfl rfl
  have hfirst : ∀ m, c.firstTurns gpu ∅ m = if m ∈ c.cachedBelow gpu then 1 else 0 := by
    intro m
    exact if_congr (and_iff_left (Finset.notMem_empty m)) rfl rfl
  -- before the first turn nothing is visited, and every cached node waits once
  refine ⟨⟨?_, Heapq.heapify_isHeap _ _, Finset.empty_subset _, ?_, ?_, ?_⟩, ?_⟩
  · intro y hy
    exact (mem_cachedNodes.mp ((hmem y).mp hy)).1
  · intro m
    rw [hcount, hfirst]
    split_ifs with hbelow hcached
    · exact le_rfl
    · exact absurd (mem_cachedBelow.mp hbelow).2 hcached
    · exact Nat.zero_le _
    · exact le_rfl
  · intro m hm _
    rw [hcount, hfirst]
    exact (if_congr (mem_cachedBelow.trans (and_iff_right hm)).symm rfl rfl).le
  · intro x hx
    exact absurd hx (Finset.notMem_empty x)
  · rintro m - ⟨⟨y, hy⟩, hsub⟩
    exact absurd (hsub hy) (Finset.notMem_empty y)

theorem Undisturbed.mono {t t' : ℕ} (h : c.Undisturbed gpu t) (hle : t' ≤ t) :
    c.Undisturbed gpu t' :=
  fun p hp hroot hchildren => (h p hp hroot hchildren).imp_left hle.trans

theorem frees_of_undisturbed (hc : WellFormed c σ) (hr : Ranked c) {numTokensToEvict : ℕ}
    (h : c.Undisturbed gpu numTokensToEvict) : Frees rt c gpu numTokensToEvict := by
  obtain ⟨victims, hrun⟩ := virtualLruEviction_spec rt hc numTokensToEvict gpu
  obtain ⟨hcached, henough⟩ := (initial_cleanSweep rt c gpu).toSweep.frees hc hr h
    (Or.inl rfl) le_rfl hrun
  refine ⟨victims, hrun, hcached.trans (Finset.erase_subset _ _), ?_⟩
  rwa [← hc.tokensOf_cachedBelow]

/-- A second turn before the last cached node makes some amount fail. -/
theorem exists_not_frees (rt : Runtime n) (hc : WellFormed c σ) (hr : Ranked c)
    (hdistinct : c.DistinctHeapKeys) {p : ℕ} (hp : p ∈ c.allNodes) (hroot : p ≠ rootNode)
    (hchildren : (c.cachedChildren gpu p).Nonempty)
    (hmore : c.sweptBefore gpu p ≠ c.cachedBelow gpu) :
    ∃ t ≤ c.tokensOf (c.sweptBefore gpu p) + 1, ¬ Frees rt c gpu t := by
  obtain ⟨q, hq, hleast⟩ := Finset.exists_min_image
    (c.allNodes.filter (fun y => y ≠ rootNode ∧ (c.cachedChildren gpu y).Nonempty ∧
      c.sweptBefore gpu y ≠ c.cachedBelow gpu))
    (fun y => c.tokensOf (c.sweptBefore gpu y))
    ⟨p, Finset.mem_filter.mpr ⟨hp, hroot, hchildren, hmore⟩⟩
  obtain ⟨hqmem, hqroot, hqchildren, hqmore⟩ := Finset.mem_filter.mp hq
  refine ⟨c.tokensOf (c.sweptBefore gpu q) + 1, Nat.succ_le_succ
    (hleast p (Finset.mem_filter.mpr ⟨hp, hroot, hchildren, hmore⟩)), ?_⟩
  rintro ⟨victims, hrun, hcached, henough⟩
  refine (initial_cleanSweep rt c gpu).not_frees hc hr hdistinct hqmem hqroot hqchildren hqmore
    (fun y hy hyroot hychildren hymore =>
      hleast y (Finset.mem_filter.mpr ⟨hy, hyroot, hychildren, hymore⟩))
    (Finset.empty_subset _) hrun ⟨hcached, ?_⟩
  -- there are more tokens than those that are swept
  have hlt : c.tokensOf (c.sweptBefore gpu q) < c.tokensOf (c.cachedBelow gpu) :=
    hc.tokensOf_lt ((Finset.filter_subset _ _).ssubset_of_ne hqmore) (Finset.Subset.refl _)
  rwa [← hc.tokensOf_cachedBelow, Nat.min_eq_left hlt] at henough

/-- A parent that is not cached makes large amounts fail. -/
theorem exists_not_frees_uncached (rt : Runtime n) (hc : WellFormed c σ) (hr : Ranked c) {p : ℕ}
    (hp : p ∈ c.allNodes) (hroot : p ≠ rootNode) (hnot : p ∉ c.cachedNodes gpu)
    (hchildren : (c.cachedChildren gpu p).Nonempty) : ∃ t, ¬ Frees rt c gpu t := by
  refine ⟨c.tokensAhead (initialLeaves rt c gpu) + 1, ?_⟩
  rintro ⟨victims, hrun, hcached, -⟩
  have hstart := (initial_cleanSweep rt c gpu).toSweep
  refine hstart.not_subset hc hr hp hroot hnot hchildren ?_ (by omega) hrun hcached
  rintro ⟨⟨y, hy⟩, hsub⟩
  exact absurd (hsub hy) (Finset.notMem_empty y)

theorem SafelyReached.distinctTimes (hclock : Function.Injective rt.time)
    (h : SafelyReached rt c) : DistinctTimes rt c := by
  induction h with
  | init => exact init_distinctTimes rt
  | @call c h limits call hnode _ ih =>
    obtain ⟨⟨⟨σ, hc⟩, hexact⟩, -⟩ := h.consistent
    -- only calls that stamp a node read the clock
    cases call with
    | insert key => exact ((insert_keepsTimes hclock key none .empty).bind
        (fun _ => Py.Keeps.pure _)) c ih
    | updateCacheMetadada node gpu =>
      rw [CacheCall.perform, updateCacheMetadada_eq]
      exact (counted_foldl (hc.ancestors_nodup (hnode node gpu rfl)) gpu c).distinctTimes ih
    | removeCompletedInputIds inputIds gpu =>
      exact removeCompletedInputIds_keepsTimes hclock inputIds gpu c ih
    | handleCacheEvictionForGpu gpu =>
      obtain ⟨c', hrun, hev, -⟩ := handleCacheEvictionForGpu_spec limits hc (hexact gpu)
      rw [CacheCall.perform, hrun, Py.finalState_ok]
      refine ih.congr hev.nextId hev.ticks (fun m => ?_)
      rcases hev.nodes m with hm | hm <;> rw [hm]
      rfl

/-- An undisturbed eviction frees what it should. Under a clock that shows no time twice this
is exact: for amounts that are cached, when all up to this one are asked for, and for a replica,
when all amounts are. -/
theorem virtualLruEviction_frees_iff (h : SafelyReached rt c) (gpu : Fin n) :
    (∀ t, c.Undisturbed gpu t → Frees rt c gpu t) ∧
      (Function.Injective rt.time →
        (∀ t ≤ c.tokensOf (c.cachedNodes gpu),
          (∀ t' ≤ t, Frees rt c gpu t') ↔ c.Undisturbed gpu t) ∧
        ((∀ t, Frees rt c gpu t) ↔ ∀ t, c.Undisturbed gpu t)) := by
  obtain ⟨⟨⟨σ, hc⟩, -⟩, hr⟩ := h.consistent
  have hfrees : ∀ t, c.Undisturbed gpu t → Frees rt c gpu t :=
    fun t => frees_of_undisturbed hc hr
  refine ⟨hfrees, fun hclock => ?_⟩
  have hdistinct := (h.distinctTimes hclock).distinctHeapKeys hc
  refine ⟨fun t ht => ⟨fun hall => ?_, fun hundisturbed t' ht' => ?_⟩, fun hall t => ?_,
    fun hundisturbed t => hfrees t (hundisturbed t)⟩
  -- a parent that is disturbed gives an amount which the loop does not free
  · intro p hp hroot hchildren
    by_contra hbad
    push Not at hbad
    have hmore : c.sweptBefore gpu p ≠ c.cachedBelow gpu := by
      intro heq
      rw [heq, hc.tokensOf_cachedBelow] at hbad
      exact absurd hbad.1 (not_lt.mpr ht)
    obtain ⟨t', ht', hfails⟩ := exists_not_frees rt hc hr hdistinct hp hroot hchildren hmore
    exact hfails (hall t' (ht'.trans hbad.1))
  · exact hfrees t' (hundisturbed.mono ht')
  · intro p hp hroot hchildren
    by_contra hbad
    push Not at hbad
    by_cases hcached : p ∈ c.cachedNodes gpu
    · obtain ⟨t', -, hfails⟩ :=
        exists_not_frees rt hc hr hdistinct hp hroot hchildren (hbad.2 hcached)
      exact hfails (hall t')
    · obtain ⟨t', hfails⟩ := exists_not_frees_uncached rt hc hr hp hroot hcached hchildren
      exact hfails (hall t')

/-- A clock that shows the number of its reading. -/
def tickingClock : Runtime 1 := .ascending 1 fun i => i

/-- A request for one token, one that continues it and is counted, and another one, counted,
too: nodes 1, 2 and 3, with one token each. -/
def afterContinued : LPRadixCache 1 :=
  afterCalls tickingClock (fun _ => 0) [.insert [1], .insert [1, 2],
    .updateCacheMetadada 2 (Fin.last 0), .insert [3], .updateCacheMetadada 3 (Fin.last 0)]

theorem safelyReached_afterContinued : SafelyReached tickingClock afterContinued := by
  have hnone : SafelyReached tickingClock (afterCalls tickingClock (fun _ => 0) []) := .init
  have hone := hnone.concat (.insert [1]) (fun _ _ h => by cases h) (by decide +kernel)
  have htwo := hone.concat (.insert [1, 2]) (fun _ _ h => by cases h) (by decide +kernel)
  have hcounted := htwo.concat (.updateCacheMetadada 2 (Fin.last 0))
    (fun _ _ h => by cases h; decide +kernel) (by decide +kernel)
  have hthree := hcounted.concat (.insert [3]) (fun _ _ h => by cases h) (by decide +kernel)
  exact hthree.concat (.updateCacheMetadada 3 (Fin.last 0))
    (fun _ _ h => by cases h; decide +kernel) (by decide +kernel)

/-- Asked for all three tokens, the eviction takes node 1 twice, and stops before node 3. -/
theorem afterContinued_not_frees : ¬ Frees tickingClock afterContinued 0 3 := by
  rintro ⟨victims, hrun, -, henough⟩
  have htwo : (afterContinued.virtualLruEviction tickingClock 3 0).map afterContinued.tokensOf =
      .ok 2 := by decide +kernel
  have hthree : 3 ≤ afterContinued.tokensOf (afterContinued.cachedNodes 0) := by decide +kernel
  rw [hrun] at htwo
  rw [Nat.min_eq_left hthree, Except.ok.inj htwo] at henough
  exact absurd henough (by decide)

theorem virtualLruEviction_frees_afterContinued : Frees tickingClock afterContinued 0 2 :=
  (virtualLruEviction_frees_iff safelyReached_afterContinued 0).1 2 (by decide +kernel)

end DualMap.Preble.LPRadixCache
