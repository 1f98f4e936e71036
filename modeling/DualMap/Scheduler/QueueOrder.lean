import DualMap.Scheduler.QueueAccounting

/-!
# Priority Order of the Global Request Queue

Requests leave a queue by longest cached prefix first and earliest arrival among equals, as
long as every queue is a heap. All operations keep the heaps except `discard_expired`,
which stores the surviving entries as they stand: they need not form a heap any more.

Main results:
- `Ordered.prioritySafe`: from heaps, every request leaves in priority order;
- `prioritySafe_run`: so it does in every run in which each `discard_expired` leaves heaps;
- `discard_breaks_priority`: a run in which it does not.
-/

namespace DualMap.Scheduler.GlobalRequestQueue

variable {n : ℕ}

/-! ## Priority -/

/-- The requests `taken`, one after the other, each had an entry that was minimal among the
entries still in the queue. -/
def TakenByPriority (queue : List Entry) (taken : List Request) : Prop :=
  ∃ entries rest, queue.Perm (entries ++ rest) ∧ entries.map Entry.req = taken ∧
    entries.Pairwise (fun a b => a.key ≤ b.key) ∧
    ∀ a ∈ entries, ∀ b ∈ rest, a.key ≤ b.key

/-- Whatever is taken next from a queue is taken by priority, and where something waits, `peek`
and `pop` yield a request. -/
def PrioritySafe (q : GlobalRequestQueue n) : Prop :=
  ∀ replicaId,
    TakenByPriority (q.queues replicaId) (q.peek replicaId).toList ∧
    TakenByPriority (q.queues replicaId) (q.pop replicaId).1.toList ∧
    (∀ curReplicaBudget maxPopNum, TakenByPriority (q.queues replicaId)
      (q.popSchedulable replicaId curReplicaBudget maxPopNum).1) ∧
    (q.queues replicaId ≠ [] → (q.peek replicaId).isSome ∧ (q.pop replicaId).1.isSome)

/-- Every queue is a heap. -/
def Ordered (q : GlobalRequestQueue n) : Prop :=
  ∀ replicaId, Heapq.IsHeap Entry.key (q.queues replicaId)

/-- The entries that `discard_expired` keeps are, as they stand, a heap. -/
def SurvivorsOrdered (q : GlobalRequestQueue n) (replicaId : Fin n)
    (discardThreshold now : ℚ) : Prop :=
  Heapq.IsHeap Entry.key ((q.queues replicaId).filter
    (fun item => ¬ Expired now discardThreshold item))

/-! ## Requests leave heaps by priority -/

theorem TakenByPriority.nil (queue : List Entry) : TakenByPriority queue [] :=
  ⟨[], queue, List.Perm.refl _, rfl, List.Pairwise.nil, by simp⟩

/-- Taking the root first and then the rest by priority. -/
theorem TakenByPriority.cons {queue rest : List Entry} {item : Entry} {taken : List Request}
    (hperm : queue.Perm (item :: rest)) (hmin : ∀ x ∈ queue, item.key ≤ x.key)
    (htaken : TakenByPriority rest taken) : TakenByPriority queue (item.req :: taken) := by
  obtain ⟨entries, left, hrest, hreqs, hsorted, hle⟩ := htaken
  -- everything taken or left later was in the queue, so the root is before it
  have hmem : ∀ x ∈ entries ++ left, x ∈ queue := by
    intro x hx
    apply hperm.mem_iff.mpr
    exact List.mem_cons_of_mem _ (hrest.mem_iff.mpr hx)
  refine ⟨item :: entries, left, hperm.trans (hrest.cons item), by simp [hreqs], ?_, ?_⟩
  · apply List.pairwise_cons.mpr
    refine ⟨?_, hsorted⟩
    intro x hx
    exact hmin x (hmem x (List.mem_append_left _ hx))
  · intro a ha b hb
    rcases List.mem_cons.mp ha with rfl | ha
    · exact hmin b (hmem b (List.mem_append_right _ hb))
    · exact hle a ha b hb

/-- What is taken first has an entry of least key. -/
theorem TakenByPriority.head_minimal {queue : List Entry} {request : Request}
    {taken : List Request} (h : TakenByPriority queue (request :: taken)) :
    ∃ item ∈ queue, item.req = request ∧ ∀ x ∈ queue, item.key ≤ x.key := by
  obtain ⟨entries, rest, hperm, hreqs, hsorted, hle⟩ := h
  cases entries with
  | nil => simp at hreqs
  | cons item entries =>
    rw [List.map_cons] at hreqs
    refine ⟨item, hperm.mem_iff.mpr (by simp), (List.cons.inj hreqs).1, ?_⟩
    intro x hx
    -- the other entries were taken later or left behind
    rcases List.mem_append.mp (hperm.mem_iff.mp hx) with hx | hx
    · rcases List.mem_cons.mp hx with rfl | hx
      · exact le_refl _
      · exact (List.pairwise_cons.mp hsorted).1 x hx
    · exact hle item (List.mem_cons_self ..) x hx

/-- `heappop` on a heap yields a least entry and leaves a heap. -/
theorem heappop_spec {queue rest : List Entry} {item : Entry}
    (hheap : Heapq.IsHeap Entry.key queue)
    (hpop : Heapq.heappop Entry.key queue = some (item, rest)) :
    queue.Perm (item :: rest) ∧ (∀ x ∈ queue, item.key ≤ x.key) ∧
      Heapq.IsHeap Entry.key rest :=
  ⟨Heapq.heappop_perm Entry.key hpop,
    hheap.root_le Entry.key (Heapq.heappop_head Entry.key hpop),
    Heapq.heappop_isHeap Entry.key hheap hpop⟩

theorem peek_takenByPriority {q : GlobalRequestQueue n} (hq : q.Ordered)
    (replicaId : Fin n) :
    TakenByPriority (q.queues replicaId) (q.peek replicaId).toList := by
  have hheap := hq replicaId
  unfold peek
  cases hqueue : q.queues replicaId with
  | nil => exact TakenByPriority.nil _
  | cons item rest =>
    rw [hqueue] at hheap
    exact TakenByPriority.cons (List.Perm.refl _) (hheap.root_le Entry.key rfl)
      (TakenByPriority.nil rest)

theorem pop_takenByPriority {q : GlobalRequestQueue n} (hq : q.Ordered)
    (replicaId : Fin n) :
    TakenByPriority (q.queues replicaId) (q.pop replicaId).1.toList := by
  cases hpop : Heapq.heappop Entry.key (q.queues replicaId) with
  | none => simpa [pop, hpop] using TakenByPriority.nil _
  | some popped =>
    obtain ⟨item, rest⟩ := popped
    obtain ⟨hperm, hmin, -⟩ := heappop_spec (hq replicaId) hpop
    simpa [pop, hpop] using TakenByPriority.cons hperm hmin (TakenByPriority.nil rest)

/-- The loop of `pop_schedulable` takes by priority and leaves a heap. -/
theorem popSchedulableLoop_spec (replicaId : Fin n) (maxPopNum : Option ℤ) (fuel : ℕ)
    {q : GlobalRequestQueue n} (hq : Heapq.IsHeap Entry.key (q.queues replicaId))
    (curReplicaBudget popCount : ℤ) :
    TakenByPriority (q.queues replicaId)
        (popSchedulableLoop replicaId maxPopNum fuel q curReplicaBudget popCount).1 ∧
      Heapq.IsHeap Entry.key
        ((popSchedulableLoop replicaId maxPopNum fuel q curReplicaBudget popCount).2.queues
          replicaId) := by
  -- induction on the iterations: each takes the root of what is still a heap
  induction fuel generalizing q curReplicaBudget popCount with
  | zero => exact ⟨TakenByPriority.nil _, hq⟩
  | succ fuel ih =>
    by_cases hlimit : maxPopNum.any (fun maxPopNum => popCount ≥ maxPopNum)
    · simpa [popSchedulableLoop, hlimit] using And.intro (TakenByPriority.nil _) hq
    · cases hpop : Heapq.heappop Entry.key (q.queues replicaId) with
      | none => simpa [popSchedulableLoop, hlimit, hpop] using ⟨TakenByPriority.nil _, hq⟩
      | some popped =>
        obtain ⟨item, rest⟩ := popped
        obtain ⟨hperm, hmin, hheap⟩ := heappop_spec hq hpop
        by_cases hbudget : curReplicaBudget -
            getRequestActualPrefillTokens item.req (some item.negtivePrefixCacheHitLen) ≤ 0
        · have hone := TakenByPriority.cons hperm hmin (TakenByPriority.nil rest)
          simpa [popSchedulableLoop, hlimit, hpop, hbudget] using ⟨hone, hheap⟩
        · -- the loop goes on with the heap that the pop left
          have hnext := ih (q := q.adjust replicaId rest
              (-getRequestActualPrefillTokens item.req (some item.negtivePrefixCacheHitLen))
              (-item.req.inputIds.length)) (by simpa using hheap)
            (curReplicaBudget -
              getRequestActualPrefillTokens item.req (some item.negtivePrefixCacheHitLen))
            (popCount + 1)
          obtain ⟨htaken, hleft⟩ := hnext
          simp only [adjust_queues, Function.update_self] at htaken
          have hmore := TakenByPriority.cons hperm hmin htaken
          simpa [popSchedulableLoop, hlimit, hpop, hbudget] using ⟨hmore, hleft⟩

theorem popSchedulable_takenByPriority {q : GlobalRequestQueue n} (hq : q.Ordered)
    (replicaId : Fin n) (curReplicaBudget : ℤ) (maxPopNum : Option ℤ) :
    TakenByPriority (q.queues replicaId)
      (q.popSchedulable replicaId curReplicaBudget maxPopNum).1 :=
  (popSchedulableLoop_spec replicaId maxPopNum _ (hq replicaId) curReplicaBudget 0).1

/-- A request that waits keeps `peek` and `pop` from coming back with nothing. -/
theorem isSome_of_waiting (q : GlobalRequestQueue n) {replicaId : Fin n}
    (hwaiting : q.queues replicaId ≠ []) :
    (q.peek replicaId).isSome ∧ (q.pop replicaId).1.isSome := by
  constructor
  · obtain ⟨item, rest, hqueue⟩ := List.exists_cons_of_ne_nil hwaiting
    rw [peek, hqueue]
    rfl
  · obtain ⟨item, rest, hpop⟩ := Heapq.heappop_of_ne_nil Entry.key hwaiting
    rw [pop, hpop]
    rfl

theorem Ordered.prioritySafe {q : GlobalRequestQueue n} (hq : q.Ordered) :
    q.PrioritySafe := by
  intro replicaId
  exact ⟨peek_takenByPriority hq replicaId, pop_takenByPriority hq replicaId,
    popSchedulable_takenByPriority hq replicaId, q.isSome_of_waiting⟩

/-! ## Which operations keep the heaps -/

/-- Only the queue that an operation works on can lose its order. -/
theorem QueueOp.ordered_of_own {q : GlobalRequestQueue n} (hq : q.Ordered)
    (op : QueueOp n)
    (hown : Heapq.IsHeap Entry.key ((op.apply q).queues op.replicaId)) :
    (op.apply q).Ordered := by
  intro r
  by_cases hr : r = op.replicaId
  · rw [hr]
    exact hown
  · rw [(op.apply_others q hr).1]
    exact hq r

/-- The condition under which an operation keeps the heaps: a `discard_expired` must find
survivors that form a heap as they stand. -/
def QueueOp.KeepsOrder (q : GlobalRequestQueue n) : QueueOp n → Prop
  | .discardExpired replicaId discardThreshold now =>
    q.SurvivorsOrdered replicaId discardThreshold now
  | _ => True

theorem QueueOp.apply_ordered {q : GlobalRequestQueue n} (hq : q.Ordered)
    (op : QueueOp n) (hop : op.KeepsOrder q) : (op.apply q).Ordered := by
  apply op.ordered_of_own hq
  cases op with
  -- push and pop keep a heap, whatever is pushed
  | push replicaId request prefixCacheHitLen =>
    have hheap := Heapq.heappush_isHeap Entry.key (hq replicaId)
      ⟨-prefixCacheHitLen, request.arrivedAt, request⟩
    simpa [QueueOp.apply, QueueOp.replicaId, GlobalRequestQueue.push] using hheap
  | pop replicaId =>
    simp only [QueueOp.apply, QueueOp.replicaId]
    cases hpop : Heapq.heappop Entry.key (q.queues replicaId) with
    | none => simpa [GlobalRequestQueue.pop, hpop] using hq replicaId
    | some popped =>
      obtain ⟨item, rest⟩ := popped
      simpa [GlobalRequestQueue.pop, hpop] using (heappop_spec (hq replicaId) hpop).2.2
  | popSchedulable replicaId curReplicaBudget maxPopNum =>
    exact (popSchedulableLoop_spec replicaId maxPopNum _ (hq replicaId) curReplicaBudget 0).2
  | delReq replicaId request =>
    -- `heapify` makes a heap of whatever the removal leaves
    cases request with
    | none => exact hq replicaId
    | some request =>
      simp only [QueueOp.apply, QueueOp.replicaId]
      cases hfind : (q.queues replicaId).find? (fun item => item.req = request) with
      | none => simpa [GlobalRequestQueue.delReq, hfind] using hq replicaId
      | some item =>
        simpa [GlobalRequestQueue.delReq, hfind] using Heapq.heapify_isHeap Entry.key
          ((q.queues replicaId).eraseP (fun item => item.req = request))
  | discardExpired replicaId discardThreshold now =>
    -- nothing is repaired here: the condition is all there is
    simp only [QueueOp.apply, QueueOp.replicaId, GlobalRequestQueue.discardExpired,
      adjust_queues, Function.update_self]
    exact hop

/-! ## Runs -/

/-- Every `discard_expired` of the run finds survivors that form a heap as they stand. -/
def DiscardsKeepOrder (q : GlobalRequestQueue n) : List (QueueOp n) → Prop
  | [] => True
  | op :: ops => op.KeepsOrder q ∧ DiscardsKeepOrder (op.apply q) ops

theorem foldl_ordered (ops : List (QueueOp n)) {q : GlobalRequestQueue n} (hq : q.Ordered)
    (hops : DiscardsKeepOrder q ops) : (ops.foldl QueueOp.apply q).Ordered := by
  induction ops generalizing q with
  | nil => exact hq
  | cons op ops ih =>
    obtain ⟨hop, hrest⟩ := hops
    exact ih (op.apply_ordered hq hop) hrest

/-- A run in which every `discard_expired` finds survivors that are still a heap. -/
theorem prioritySafe_run (n : ℕ) (ops : List (QueueOp n))
    (hops : DiscardsKeepOrder (init n) ops) : (runOps n ops).PrioritySafe := by
  have hinit : (init n).Ordered := fun _ => Heapq.IsHeap.nil Entry.key
  exact (foldl_ordered ops hinit hops).prioritySafe

/-! ## A discard that loses the order -/

/-- A request with the given number, arriving at that time. -/
def numberedRequest (id : ℕ) : Request where
  id := id
  hashSessionId := "s"
  inputIds := []
  numPrefillTokens := 10
  outputLen := 1
  arrivedAt := id

/-- Hit lengths 10, 1 and 5, of which the first one expires. -/
def expiringRun : List (QueueOp 1) :=
  [.push 0 (numberedRequest 0) 10, .push 0 (numberedRequest 10) 1,
    .push 0 (numberedRequest 20) 5, .discardExpired 0 15 21]

/-- The root of the heap expires. Its children, in array order, have hit lengths 1 and 5, and
the next pop returns the first of them. -/
theorem discard_breaks_priority : ¬ (runOps 1 expiringRun).PrioritySafe := by
  intro hsafe
  -- the next pop after the discard
  have hpop : ((runOps 1 expiringRun).pop 0).1.toList = [numberedRequest 10] := by
    decide +kernel
  have htaken := (hsafe 0).2.1
  rw [hpop] at htaken
  obtain ⟨item, hitem, hreq, hmin⟩ := htaken.head_minimal
  -- an entry with a longer hit is still waiting
  have hlonger : ∀ item ∈ (runOps 1 expiringRun).queues 0, item.req = numberedRequest 10 →
      ∃ x ∈ (runOps 1 expiringRun).queues 0, ¬ item.key ≤ x.key := by
    decide +kernel
  obtain ⟨x, hx, hnot⟩ := hlonger item hitem hreq
  exact hnot (hmin x hx)

/-- Hit lengths 10, 5 and 1: when the first one expires, the others are still a heap. -/
theorem prioritySafe_run_kept :
    (runOps 1 [.push 0 (numberedRequest 0) 10, .push 0 (numberedRequest 10) 5,
      .push 0 (numberedRequest 20) 1, .discardExpired 0 15 21]).PrioritySafe := by
  apply prioritySafe_run
  refine ⟨trivial, trivial, trivial, ?_, trivial⟩
  show SurvivorsOrdered (runOps 1 [.push 0 (numberedRequest 0) 10,
    .push 0 (numberedRequest 10) 5, .push 0 (numberedRequest 20) 1]) 0 15 21
  -- the survivors are what two pushes would have made
  have hsurvivors : ((runOps 1 [.push 0 (numberedRequest 0) 10, .push 0 (numberedRequest 10) 5,
      .push 0 (numberedRequest 20) 1]).queues 0).filter (fun item => ¬ Expired 21 15 item) =
      Heapq.heappush Entry.key (Heapq.heappush Entry.key [] ⟨-5, 10, numberedRequest 10⟩)
        ⟨-1, 20, numberedRequest 20⟩ := by
    decide +kernel
  rw [SurvivorsOrdered, hsurvivors]
  exact Heapq.heappush_isHeap Entry.key
    (Heapq.heappush_isHeap Entry.key (Heapq.IsHeap.nil Entry.key) _) _

end DualMap.Scheduler.GlobalRequestQueue
