import DualMap.Foundation.HeapOrder
import DualMap.Scheduler.QueueOrder
import Mathlib.Order.Bounds.Basic

/-!
# The Batch That `pop_schedulable` Admits

The loop of `pop_schedulable` stops at an empty queue, at the pop limit, or after the request
that uses up the budget. Read along the queue in priority order, each of these names a number
of leading requests, and the loop takes the least of them.

Main results:
- `popSchedulableLoop_exact`: what the loop takes from any point on;
- `popSchedulable_exact`: the batch is a prefix of the queue in priority order.
-/

namespace DualMap.Scheduler.GlobalRequestQueue

open Heapq (sorted DistinctKeys)

variable {n : ℕ}

/-! ## Where a batch ends -/

/-- The numbers of leading requests at which a batch may end: the whole queue, the pop limit,
or enough tokens to use up the budget. -/
def BatchEnds (order : List Entry) (budget : ℤ) (limit : Option ℤ) (k : ℕ) : Prop :=
  k = order.length ∨ limit = some (k : ℤ) ∨
    budget ≤ ((order.take k).map Entry.actualTokens).sum

/-- A batch does not end before its first request when there is one, some budget, and a limit
above zero. -/
theorem not_batchEnds_zero {item : Entry} {order : List Entry} {budget : ℤ}
    {limit : Option ℤ} (hbudget : 0 < budget) (hlimit : limit ≠ some 0) :
    ¬ BatchEnds (item :: order) budget limit 0 := by
  rintro (hlen | hpops | htokens)
  · simp at hlen
  · exact hlimit hpops
  · simp only [List.take_zero, List.map_nil, List.sum_nil] at htokens
    omega

/-- After the first request the batch ends as one of the remaining requests with the remaining
budget and limit. -/
theorem batchEnds_succ {item : Entry} {order : List Entry} {budget : ℤ} {limit : Option ℤ}
    {k : ℕ} : BatchEnds (item :: order) budget limit (k + 1) ↔
      BatchEnds order (budget - item.actualTokens) (limit.map (· - 1)) k := by
  have hlimit : limit = some ((k + 1 : ℕ) : ℤ) ↔ limit.map (· - 1) = some (k : ℤ) := by
    cases limit with
    | none => simp
    | some limit =>
      simp only [Option.some.injEq, Option.map_some]
      push_cast
      omega
  have htokens : budget ≤ (((item :: order).take (k + 1)).map Entry.actualTokens).sum ↔
      budget - item.actualTokens ≤ ((order.take k).map Entry.actualTokens).sum := by
    rw [List.take_succ_cons, List.map_cons, List.sum_cons]
    omega
  rw [BatchEnds, BatchEnds, hlimit, htokens, List.length_cons, Nat.add_right_cancel_iff]

/-- The least end of a batch that has a first request. -/
theorem isLeast_batchEnds_succ {item : Entry} {order : List Entry} {budget : ℤ}
    {limit : Option ℤ} {k : ℕ} (hbudget : 0 < budget) (hlimit : limit ≠ some 0)
    (hleast : IsLeast {k | BatchEnds order (budget - item.actualTokens)
      (limit.map (· - 1)) k} k) :
    IsLeast {k | BatchEnds (item :: order) budget limit k} (k + 1) := by
  refine ⟨batchEnds_succ.mpr hleast.1, ?_⟩
  intro j hj
  cases j with
  | zero => exact absurd hj (not_batchEnds_zero hbudget hlimit)
  | succ j => exact Nat.succ_le_succ (hleast.2 (batchEnds_succ.mp hj))

theorem isLeast_batchEnds_zero {order : List Entry} {budget : ℤ} {limit : Option ℤ}
    (hend : BatchEnds order budget limit 0) :
    IsLeast {k | BatchEnds order budget limit k} 0 :=
  ⟨hend, fun j _ => Nat.zero_le j⟩

/-! ## The loop -/

/-- Nothing is left of a limit that was never exceeded exactly when the loop stops for it. -/
theorem limitLeft_eq_zero_iff {maxPopNum : Option ℤ} {popCount : ℤ}
    (hlimit : ∀ limit ∈ maxPopNum, popCount ≤ limit) :
    maxPopNum.map (· - popCount) = some 0 ↔
      maxPopNum.any (fun maxPopNum => popCount ≥ maxPopNum) := by
  cases maxPopNum with
  | none => simp
  | some limit =>
    have hle : popCount ≤ limit := hlimit limit rfl
    simp only [Option.map_some, Option.some.injEq, Option.any_some, decide_eq_true_eq]
    omega

/-- One more pop leaves one less of the limit. -/
theorem limitLeft_succ (maxPopNum : Option ℤ) (popCount : ℤ) :
    (maxPopNum.map (· - popCount)).map (· - 1) = maxPopNum.map (· - (popCount + 1)) := by
  rw [Option.map_map]
  congr 1
  funext limit
  simp only [Function.comp_apply]
  omega

/-- The loop takes the leading requests up to the least end of a batch, with the budget and
the pops that are left to it. -/
theorem popSchedulableLoop_exact (replicaId : Fin n) (maxPopNum : Option ℤ) (fuel : ℕ)
    {q : GlobalRequestQueue n} (hheap : Heapq.IsHeap Entry.key (q.queues replicaId))
    (hdistinct : DistinctKeys Entry.key (q.queues replicaId))
    (hfuel : (q.queues replicaId).length ≤ fuel) {curReplicaBudget popCount : ℤ}
    (hbudget : 0 < curReplicaBudget) (hlimit : ∀ limit ∈ maxPopNum, popCount ≤ limit) :
    ∃ k, IsLeast {k | BatchEnds (sorted Entry.key (q.queues replicaId)) curReplicaBudget
          (maxPopNum.map (· - popCount)) k} k ∧
      (popSchedulableLoop replicaId maxPopNum fuel q curReplicaBudget popCount).1 =
        ((sorted Entry.key (q.queues replicaId)).take k).map Entry.req ∧
      Removes q replicaId ((sorted Entry.key (q.queues replicaId)).take k)
        (popSchedulableLoop replicaId maxPopNum fuel q curReplicaBudget popCount).2 := by
  -- induction on the iterations; budget, limit and queue shrink together
  induction fuel generalizing q curReplicaBudget popCount with
  | zero =>
    have hempty : q.queues replicaId = [] := List.eq_nil_of_length_eq_zero (by omega)
    refine ⟨0, isLeast_batchEnds_zero (Or.inl ?_), rfl, Removes.refl q replicaId⟩
    simp [hempty]
  | succ fuel ih =>
    by_cases hstop : maxPopNum.any (fun maxPopNum => popCount ≥ maxPopNum)
    · refine ⟨0, isLeast_batchEnds_zero (Or.inr (Or.inl ?_)), ?_, ?_⟩
      · exact (limitLeft_eq_zero_iff hlimit).mpr hstop
      · simp [popSchedulableLoop, hstop]
      · simpa [popSchedulableLoop, hstop] using Removes.refl q replicaId
    have hleft : maxPopNum.map (· - popCount) ≠ some 0 :=
      fun hzero => hstop ((limitLeft_eq_zero_iff hlimit).mp hzero)
    cases hpop : Heapq.heappop Entry.key (q.queues replicaId) with
    | none =>
      have hempty := Heapq.heappop_eq_none.mp hpop
      refine ⟨0, isLeast_batchEnds_zero (Or.inl ?_), ?_, ?_⟩
      · simp [hempty]
      · simp [popSchedulableLoop, hstop, hpop]
      · simpa [popSchedulableLoop, hstop, hpop] using Removes.refl q replicaId
    | some popped =>
      obtain ⟨item, rest⟩ := popped
      obtain ⟨horder, hdistinct', hheap'⟩ := Heapq.sorted_heappop hdistinct hheap hpop
      have hone := adjust_removes_one q (Heapq.heappop_perm Entry.key hpop)
      rw [horder]
      by_cases hspent : curReplicaBudget -
          getRequestActualPrefillTokens item.req (some item.negtivePrefixCacheHitLen) ≤ 0
      · -- the request that uses up the budget is the last one
        refine ⟨1, isLeast_batchEnds_succ hbudget hleft (isLeast_batchEnds_zero ?_), ?_, ?_⟩
        · right; right
          simpa [Entry.actualTokens] using hspent
        · simp [popSchedulableLoop, hstop, hpop, hspent]
        · simpa [popSchedulableLoop, hstop, hpop, hspent] using hone
      · -- the loop goes on with the queue, the budget and the limit that are left
        have hshorter : rest.length ≤ fuel := by
          have hlen := Heapq.heappop_length Entry.key hpop
          omega
        have hmore : ∀ limit ∈ maxPopNum, popCount + 1 ≤ limit := by
          rintro limit rfl
          simp only [Option.any_some, decide_eq_true_eq] at hstop
          omega
        obtain ⟨k, hleast, hreqs, hremoves⟩ := ih
          (q := q.adjust replicaId rest
            (-getRequestActualPrefillTokens item.req (some item.negtivePrefixCacheHitLen))
            (-item.req.inputIds.length))
          (by simpa using hheap') (by simpa using hdistinct') (by simpa using hshorter)
          (not_le.mp hspent) hmore
        simp only [adjust_queues, Function.update_self] at hleast hreqs hremoves
        refine ⟨k + 1, isLeast_batchEnds_succ hbudget hleft (by rw [limitLeft_succ]; exact hleast),
          ?_, ?_⟩
        · simpa [popSchedulableLoop, hstop, hpop, hspent] using hreqs
        · simpa [popSchedulableLoop, hstop, hpop, hspent] using hone.trans hremoves

/-! ## The batch -/

/-- Distinct arrival times make distinct priorities. -/
theorem distinctKeys_of_arrivals {queue : List Entry}
    (harrivals : (queue.map Entry.arrivedAt).Nodup) : DistinctKeys Entry.key queue := by
  have hsecond : queue.map Entry.arrivedAt =
      (queue.map Entry.key).map (fun priority => (ofLex priority).2) := by
    simp [Entry.key]
  rw [hsecond] at harrivals
  exact harrivals.of_map _

/-- The batch is the prefix of the queue in priority order whose length is the least of the
queue length, the limit, and the number of requests that use up the budget. Exactly these
entries leave the queue and the counters, and what stays is a heap. The token counts of the
entries need not even be positive. -/
theorem popSchedulable_exact (q : GlobalRequestQueue n) (replicaId : Fin n)
    (hheap : Heapq.IsHeap Entry.key (q.queues replicaId))
    (harrivals : ((q.queues replicaId).map Entry.arrivedAt).Nodup)
    {curReplicaBudget : ℤ} (hbudget : 0 < curReplicaBudget) {maxPopNum : Option ℤ}
    (hlimit : ∀ limit ∈ maxPopNum, 0 ≤ limit) :
    ∃ k, IsLeast {k | BatchEnds (sorted Entry.key (q.queues replicaId)) curReplicaBudget
          maxPopNum k} k ∧
      (q.popSchedulable replicaId curReplicaBudget maxPopNum).1 =
        ((sorted Entry.key (q.queues replicaId)).take k).map Entry.req ∧
      ((q.popSchedulable replicaId curReplicaBudget maxPopNum).2.queues replicaId).Perm
        ((sorted Entry.key (q.queues replicaId)).drop k) ∧
      Heapq.IsHeap Entry.key
        ((q.popSchedulable replicaId curReplicaBudget maxPopNum).2.queues replicaId) ∧
      Removes q replicaId ((sorted Entry.key (q.queues replicaId)).take k)
        (q.popSchedulable replicaId curReplicaBudget maxPopNum).2 := by
  obtain ⟨k, hleast, hreqs, hremoves⟩ := popSchedulableLoop_exact replicaId maxPopNum
    (q.queues replicaId).length hheap (distinctKeys_of_arrivals harrivals) le_rfl hbudget hlimit
  have hwhole : maxPopNum.map (· - (0 : ℤ)) = maxPopNum := by simp
  rw [hwhole] at hleast
  refine ⟨k, hleast, hreqs, ?_, ?_, hremoves⟩
  · -- taken and remaining entries are together the queue
    have hall : ((sorted Entry.key (q.queues replicaId)).take k ++
        (sorted Entry.key (q.queues replicaId)).drop k).Perm
        ((sorted Entry.key (q.queues replicaId)).take k ++
          (q.popSchedulable replicaId curReplicaBudget maxPopNum).2.queues replicaId) := by
      rw [List.take_append_drop]
      exact (Heapq.sorted_perm_self Entry.key (q.queues replicaId)).trans hremoves.queue
    exact ((List.perm_append_left_iff _).mp hall).symm
  · exact (popSchedulableLoop_spec replicaId maxPopNum _ hheap curReplicaBudget 0).2

/-- Two requests of ten tokens that wait with hits 5 and 1. -/
def twoWaiting : GlobalRequestQueue 1 :=
  runOps 1 [.push (Fin.last 0) (numberedRequest 0) 5, .push (Fin.last 0) (numberedRequest 1) 1]

theorem twoWaiting_isHeap : Heapq.IsHeap Entry.key (twoWaiting.queues 0) :=
  foldl_ordered
    [.push (Fin.last 0) (numberedRequest 0) 5, .push (Fin.last 0) (numberedRequest 1) 1]
    (fun _ => Heapq.IsHeap.nil Entry.key) ⟨trivial, trivial, trivial⟩ 0

/-- The first request costs 5 of a budget of 6, so the second one is still taken. -/
theorem popSchedulable_exact_two :
    ∃ k, IsLeast {k | BatchEnds (sorted Entry.key (twoWaiting.queues 0)) 6 (some 3) k} k ∧
      (twoWaiting.popSchedulable 0 6 (some 3)).1 =
        ((sorted Entry.key (twoWaiting.queues 0)).take k).map Entry.req ∧
      ((twoWaiting.popSchedulable 0 6 (some 3)).2.queues 0).Perm
        ((sorted Entry.key (twoWaiting.queues 0)).drop k) ∧
      Heapq.IsHeap Entry.key ((twoWaiting.popSchedulable 0 6 (some 3)).2.queues 0) ∧
      Removes twoWaiting 0 ((sorted Entry.key (twoWaiting.queues 0)).take k)
        (twoWaiting.popSchedulable 0 6 (some 3)).2 :=
  popSchedulable_exact twoWaiting 0 twoWaiting_isHeap (by decide +kernel) (by decide) (by simp)

end DualMap.Scheduler.GlobalRequestQueue
