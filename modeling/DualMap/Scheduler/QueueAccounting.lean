import DualMap.Scheduler.GlobalRequestQueue
import Mathlib.Tactic.Ring

/-!
# Accounting of the Global Request Queue

Every operation moves entries into or out of one queue and changes the two counters of
that replica by exactly their tokens. `Removes` says this once for all of them; a push is a
removal read backwards. From it follow the step lemma `QueueOp.countersAgree` and the run
lemma `countersAgree_run`.
-/

namespace DualMap.Scheduler.GlobalRequestQueue

variable {n : ℕ}

/-! ## What an operation does -/

/-- The queue and the counters of a replica are the same in both states. -/
def SameAt (r : Fin n) (q q' : GlobalRequestQueue n) : Prop :=
  q'.queues r = q.queues r ∧
    q'.queuesGlobalActualWaitingTokensCount r = q.queuesGlobalActualWaitingTokensCount r ∧
    q'.queuesGlobalInputWaitingTokensCount r = q.queuesGlobalInputWaitingTokensCount r

/-- From `q` to `q'` exactly the entries `removed` leave the queue of one replica, its
counters fall by their tokens, and nothing changes elsewhere. -/
structure Removes (q : GlobalRequestQueue n) (replicaId : Fin n) (removed : List Entry)
    (q' : GlobalRequestQueue n) : Prop where
  queue : (q.queues replicaId).Perm (removed ++ q'.queues replicaId)
  actual : q'.queuesGlobalActualWaitingTokensCount replicaId =
    q.queuesGlobalActualWaitingTokensCount replicaId - (removed.map Entry.actualTokens).sum
  input : q'.queuesGlobalInputWaitingTokensCount replicaId =
    q.queuesGlobalInputWaitingTokensCount replicaId - (removed.map Entry.inputTokens).sum
  others : ∀ r, r ≠ replicaId → SameAt r q q'

theorem Removes.refl (q : GlobalRequestQueue n) (replicaId : Fin n) :
    Removes q replicaId [] q where
  queue := List.Perm.refl _
  actual := by simp
  input := by simp
  others := fun _ _ => ⟨rfl, rfl, rfl⟩

theorem Removes.trans {q q₁ q₂ : GlobalRequestQueue n} {replicaId : Fin n}
    {first second : List Entry} (h₁ : Removes q replicaId first q₁)
    (h₂ : Removes q₁ replicaId second q₂) : Removes q replicaId (first ++ second) q₂ where
  queue := by
    rw [List.append_assoc]
    exact h₁.queue.trans (h₂.queue.append_left first)
  actual := by
    rw [h₂.actual, h₁.actual, List.map_append, List.sum_append]
    ring
  input := by
    rw [h₂.input, h₁.input, List.map_append, List.sum_append]
    ring
  others := by
    intro r hr
    obtain ⟨hqueue₁, hactual₁, hinput₁⟩ := h₁.others r hr
    obtain ⟨hqueue₂, hactual₂, hinput₂⟩ := h₂.others r hr
    exact ⟨hqueue₂.trans hqueue₁, hactual₂.trans hactual₁, hinput₂.trans hinput₁⟩

/-! ## The operations remove or add entries -/

@[simp] theorem adjust_queues (q : GlobalRequestQueue n) (replicaId : Fin n)
    (queue : List Entry) (actualTokens inputTokens : ℤ) :
    (q.adjust replicaId queue actualTokens inputTokens).queues =
      Function.update q.queues replicaId queue := rfl

@[simp] theorem adjust_actual (q : GlobalRequestQueue n) (replicaId : Fin n)
    (queue : List Entry) (actualTokens inputTokens : ℤ) :
    (q.adjust replicaId queue actualTokens inputTokens).queuesGlobalActualWaitingTokensCount =
      Function.update q.queuesGlobalActualWaitingTokensCount replicaId
        (q.queuesGlobalActualWaitingTokensCount replicaId + actualTokens) := rfl

@[simp] theorem adjust_input (q : GlobalRequestQueue n) (replicaId : Fin n)
    (queue : List Entry) (actualTokens inputTokens : ℤ) :
    (q.adjust replicaId queue actualTokens inputTokens).queuesGlobalInputWaitingTokensCount =
      Function.update q.queuesGlobalInputWaitingTokensCount replicaId
        (q.queuesGlobalInputWaitingTokensCount replicaId + inputTokens) := rfl

theorem adjust_others (q : GlobalRequestQueue n) {replicaId r : Fin n} (hr : r ≠ replicaId)
    (queue : List Entry) (actualTokens inputTokens : ℤ) :
    SameAt r q (q.adjust replicaId queue actualTokens inputTokens) := by
  simp [SameAt, hr]

/-- Storing what is left of a queue and taking the tokens of the rest off the counters. -/
theorem adjust_removes (q : GlobalRequestQueue n) {replicaId : Fin n}
    {removed rest : List Entry} (hqueue : (q.queues replicaId).Perm (removed ++ rest)) :
    Removes q replicaId removed (q.adjust replicaId rest
      (-(removed.map Entry.actualTokens).sum) (-(removed.map Entry.inputTokens).sum)) where
  queue := by simpa using hqueue
  actual := by simp [sub_eq_add_neg]
  input := by simp [sub_eq_add_neg]
  others := fun _ hr => adjust_others q hr _ _ _

/-- Taking a single entry out. -/
theorem adjust_removes_one (q : GlobalRequestQueue n) {replicaId : Fin n} {item : Entry}
    {rest : List Entry} (hqueue : (q.queues replicaId).Perm (item :: rest)) :
    Removes q replicaId [item] (q.adjust replicaId rest
      (-getRequestActualPrefillTokens item.req (some item.negtivePrefixCacheHitLen))
      (-item.req.inputIds.length)) := by
  have h : Removes q replicaId [item] _ := adjust_removes q hqueue
  simpa [Entry.actualTokens, Entry.inputTokens] using h

/-- `push` adds the entry of the request: it is a removal read backwards. -/
theorem push_removes (q : GlobalRequestQueue n) (replicaId : Fin n) (request : Request)
    (prefixCacheHitLen : ℤ) :
    Removes (q.push replicaId request prefixCacheHitLen) replicaId
      [⟨-prefixCacheHitLen, request.arrivedAt, request⟩] q where
  queue := by
    have hperm := Heapq.heappush_perm Entry.key (q.queues replicaId)
      ⟨-prefixCacheHitLen, request.arrivedAt, request⟩
    simpa [push] using hperm
  actual := by simp [push, Entry.actualTokens]
  input := by simp [push, Entry.inputTokens]
  others := by
    intro r hr
    obtain ⟨hqueue, hactual, hinput⟩ := adjust_others q hr
      (Heapq.heappush Entry.key (q.queues replicaId)
        ⟨-prefixCacheHitLen, request.arrivedAt, request⟩)
      (getRequestActualPrefillTokens request (some (-prefixCacheHitLen)))
      request.inputIds.length
    exact ⟨hqueue.symm, hactual.symm, hinput.symm⟩

/-- `pop` takes out the entry of the request it returns, or nothing. -/
theorem pop_removes (q : GlobalRequestQueue n) (replicaId : Fin n) :
    ∃ removed, Removes q replicaId removed (q.pop replicaId).2 ∧
      (q.pop replicaId).1.toList = removed.map Entry.req := by
  cases hpop : Heapq.heappop Entry.key (q.queues replicaId) with
  | none =>
    refine ⟨[], ?_, ?_⟩
    · simpa [pop, hpop] using Removes.refl q replicaId
    · simp [pop, hpop]
  | some popped =>
    obtain ⟨item, rest⟩ := popped
    refine ⟨[item], ?_, ?_⟩
    · simpa [pop, hpop] using adjust_removes_one q (Heapq.heappop_perm Entry.key hpop)
    · simp [pop, hpop]

/-- The loop of `pop_schedulable` takes out the entries of the requests it returns. -/
theorem popSchedulableLoop_removes (replicaId : Fin n) (maxPopNum : Option ℤ) (fuel : ℕ)
    (q : GlobalRequestQueue n) (curReplicaBudget popCount : ℤ) :
    ∃ removed, Removes q replicaId removed
        (popSchedulableLoop replicaId maxPopNum fuel q curReplicaBudget popCount).2 ∧
      (popSchedulableLoop replicaId maxPopNum fuel q curReplicaBudget popCount).1 =
        removed.map Entry.req := by
  induction fuel generalizing q curReplicaBudget popCount with
  | zero => exact ⟨[], Removes.refl q replicaId, rfl⟩
  | succ fuel ih =>
    by_cases hlimit : maxPopNum.any (fun maxPopNum => popCount ≥ maxPopNum)
    · exact ⟨[], by simpa [popSchedulableLoop, hlimit] using Removes.refl q replicaId,
        by simp [popSchedulableLoop, hlimit]⟩
    · cases hpop : Heapq.heappop Entry.key (q.queues replicaId) with
      | none =>
        exact ⟨[], by simpa [popSchedulableLoop, hlimit, hpop] using Removes.refl q replicaId,
          by simp [popSchedulableLoop, hlimit, hpop]⟩
      | some popped =>
        obtain ⟨item, rest⟩ := popped
        have hone := adjust_removes_one q (Heapq.heappop_perm Entry.key hpop)
        by_cases hbudget : curReplicaBudget -
            getRequestActualPrefillTokens item.req (some item.negtivePrefixCacheHitLen) ≤ 0
        · -- the budget is used up by this entry
          refine ⟨[item], ?_, ?_⟩
          · simpa [popSchedulableLoop, hlimit, hpop, hbudget] using hone
          · simp [popSchedulableLoop, hlimit, hpop, hbudget]
        -- the loop goes on: its entry, then those of the later iterations
        · obtain ⟨removed, hrest, hreqs⟩ := ih _ _ _
          refine ⟨item :: removed, ?_, ?_⟩
          · simpa [popSchedulableLoop, hlimit, hpop, hbudget] using hone.trans hrest
          · simpa [popSchedulableLoop, hlimit, hpop, hbudget] using hreqs

theorem popSchedulable_removes (q : GlobalRequestQueue n) (replicaId : Fin n)
    (curReplicaBudget : ℤ) (maxPopNum : Option ℤ) :
    ∃ removed, Removes q replicaId removed
        (q.popSchedulable replicaId curReplicaBudget maxPopNum).2 ∧
      (q.popSchedulable replicaId curReplicaBudget maxPopNum).1 = removed.map Entry.req :=
  popSchedulableLoop_removes replicaId maxPopNum _ q curReplicaBudget 0

/-- What `find?` finds and what `eraseP` leaves are together the whole list. -/
theorem perm_cons_eraseP_of_find? {α : Type*} {p : α → Bool} {l : List α} {a : α}
    (h : l.find? p = some a) : l.Perm (a :: l.eraseP p) := by
  induction l with
  | nil => simp at h
  | cons b l ih =>
    by_cases hb : p b
    · rw [List.find?_cons_of_pos hb] at h
      rw [List.eraseP_cons_of_pos hb, Option.some.inj h]
    · rw [List.find?_cons_of_neg hb] at h
      rw [List.eraseP_cons_of_neg hb]
      exact ((ih h).cons b).trans (List.Perm.swap a b _)

/-- `del_req` takes out the first entry of the request and rearranges the rest. -/
theorem delReq_takes_found {q : GlobalRequestQueue n} {replicaId : Fin n} {request : Request}
    {item : Entry}
    (hfind : (q.queues replicaId).find? (fun item => item.req = request) = some item) :
    item.req = request ∧
      Removes q replicaId [item] (q.delReq replicaId (some request)).2 := by
  have hreq : item.req = request := by simpa using List.find?_some hfind
  have hperm : (q.queues replicaId).Perm (item :: Heapq.heapify Entry.key
      ((q.queues replicaId).eraseP (fun item => item.req = request))) := by
    have herase := perm_cons_eraseP_of_find? hfind
    exact herase.trans ((Heapq.heapify_perm Entry.key _).symm.cons item)
  refine ⟨hreq, ?_⟩
  simpa [delReq, hfind] using adjust_removes_one q hperm

/-- `del_req` takes out one entry of the request, when there is one. -/
theorem delReq_removes (q : GlobalRequestQueue n) (replicaId : Fin n)
    (request : Option Request) :
    ∃ removed, Removes q replicaId removed (q.delReq replicaId request).2 ∧
      ∀ item ∈ removed, some item.req = request := by
  cases request with
  | none => exact ⟨[], Removes.refl q replicaId, by simp⟩
  | some request =>
    cases hfind : (q.queues replicaId).find? (fun item => item.req = request) with
    | none =>
      -- the request does not wait here, and nothing changes
      refine ⟨[], ?_, by simp⟩
      simpa [delReq, hfind] using Removes.refl q replicaId
    | some item =>
      obtain ⟨hreq, htakes⟩ := delReq_takes_found hfind
      exact ⟨[item], htakes, by simp [hreq]⟩

/-- `discard_expired` takes out the expired entries. -/
theorem discardExpired_removes (q : GlobalRequestQueue n) (replicaId : Fin n)
    (discardThreshold now : ℚ) :
    Removes q replicaId
      ((q.queues replicaId).filter (fun item => Expired now discardThreshold item))
      (q.discardExpired replicaId discardThreshold now).2 := by
  apply adjust_removes
  -- expired and kept entries are together all entries
  have hperm := List.filter_append_perm
    (fun item => decide (Expired now discardThreshold item)) (q.queues replicaId)
  simpa using hperm.symm

/-! ## Operations and runs -/

/-- The operations that change a queue. -/
inductive QueueOp (n : ℕ) where
  | push (replicaId : Fin n) (request : Request) (prefixCacheHitLen : ℤ)
  | pop (replicaId : Fin n)
  | popSchedulable (replicaId : Fin n) (curReplicaBudget : ℤ) (maxPopNum : Option ℤ)
  | delReq (replicaId : Fin n) (request : Option Request)
  | discardExpired (replicaId : Fin n) (discardThreshold now : ℚ)

/-- The replica whose queue an operation works on. -/
def QueueOp.replicaId : QueueOp n → Fin n
  | .push replicaId _ _ => replicaId
  | .pop replicaId => replicaId
  | .popSchedulable replicaId _ _ => replicaId
  | .delReq replicaId _ => replicaId
  | .discardExpired replicaId _ _ => replicaId

/-- The state after an operation. -/
def QueueOp.apply (q : GlobalRequestQueue n) : QueueOp n → GlobalRequestQueue n
  | .push replicaId request prefixCacheHitLen => q.push replicaId request prefixCacheHitLen
  | .pop replicaId => (q.pop replicaId).2
  | .popSchedulable replicaId curReplicaBudget maxPopNum =>
    (q.popSchedulable replicaId curReplicaBudget maxPopNum).2
  | .delReq replicaId request => (q.delReq replicaId request).2
  | .discardExpired replicaId discardThreshold now =>
    (q.discardExpired replicaId discardThreshold now).2

/-- The state after a sequence of operations on a new queue. -/
def runOps (n : ℕ) (ops : List (QueueOp n)) : GlobalRequestQueue n :=
  ops.foldl QueueOp.apply (init n)

/-- Every operation removes entries, or is undone by removing entries. -/
theorem QueueOp.apply_removes (q : GlobalRequestQueue n) (op : QueueOp n) :
    ∃ entries, Removes q op.replicaId entries (op.apply q) ∨
      Removes (op.apply q) op.replicaId entries q := by
  cases op with
  | push replicaId request prefixCacheHitLen =>
    exact ⟨_, Or.inr (push_removes q replicaId request prefixCacheHitLen)⟩
  | pop replicaId =>
    obtain ⟨removed, h, -⟩ := pop_removes q replicaId
    exact ⟨removed, Or.inl h⟩
  | popSchedulable replicaId curReplicaBudget maxPopNum =>
    obtain ⟨removed, h, -⟩ := popSchedulable_removes q replicaId curReplicaBudget maxPopNum
    exact ⟨removed, Or.inl h⟩
  | delReq replicaId request =>
    obtain ⟨removed, h, -⟩ := delReq_removes q replicaId request
    exact ⟨removed, Or.inl h⟩
  | discardExpired replicaId discardThreshold now =>
    exact ⟨_, Or.inl (discardExpired_removes q replicaId discardThreshold now)⟩

/-- Operations on one replica leave the queues and counters of the others untouched. -/
theorem QueueOp.apply_others (q : GlobalRequestQueue n) (op : QueueOp n) {r : Fin n}
    (hr : r ≠ op.replicaId) : SameAt r q (op.apply q) := by
  obtain ⟨entries, h | h⟩ := op.apply_removes q
  · exact h.others r hr
  -- a push, read backwards
  · obtain ⟨hqueue, hactual, hinput⟩ := h.others r hr
    exact ⟨hqueue.symm, hactual.symm, hinput.symm⟩

/-! ## The counters -/

/-- Both counters of a replica are the sums over the entries of its queue. -/
def CountersAgreeAt (q : GlobalRequestQueue n) (r : Fin n) : Prop :=
  q.queuesGlobalActualWaitingTokensCount r = ((q.queues r).map Entry.actualTokens).sum ∧
    q.queuesGlobalInputWaitingTokensCount r = ((q.queues r).map Entry.inputTokens).sum

/-- The counters of all replicas agree with the queues. -/
def CountersAgree (q : GlobalRequestQueue n) : Prop := ∀ r, q.CountersAgreeAt r

theorem init_countersAgree (n : ℕ) : CountersAgree (init n) := by
  intro r
  simp [CountersAgreeAt, init]

theorem SameAt.countersAgreeAt {q q' : GlobalRequestQueue n} {r : Fin n}
    (h : SameAt r q q') : q'.CountersAgreeAt r ↔ q.CountersAgreeAt r := by
  obtain ⟨hqueue, hactual, hinput⟩ := h
  rw [CountersAgreeAt, CountersAgreeAt, hqueue, hactual, hinput]

/-- A removal neither breaks nor repairs the agreement of the counters. -/
theorem Removes.countersAgree {q q' : GlobalRequestQueue n} {replicaId : Fin n}
    {removed : List Entry} (h : Removes q replicaId removed q') :
    q'.CountersAgree ↔ q.CountersAgree := by
  apply forall_congr'
  intro r
  by_cases hr : r = replicaId
  · subst hr
    -- both sides of the agreement fall by the tokens of the removed entries
    have hactual := (h.queue.map Entry.actualTokens).sum_eq
    have hinput := (h.queue.map Entry.inputTokens).sum_eq
    rw [List.map_append, List.sum_append] at hactual hinput
    rw [CountersAgreeAt, CountersAgreeAt, hactual, hinput, h.actual, h.input]
    constructor
    · rintro ⟨ha, hi⟩
      exact ⟨by omega, by omega⟩
    · rintro ⟨ha, hi⟩
      exact ⟨by omega, by omega⟩
  · exact (h.others r hr).countersAgreeAt

/-- One operation keeps the counters in agreement. -/
theorem QueueOp.countersAgree {q : GlobalRequestQueue n} (h : q.CountersAgree)
    (op : QueueOp n) : (op.apply q).CountersAgree := by
  obtain ⟨entries, hremoves | hremoves⟩ := op.apply_removes q
  · exact hremoves.countersAgree.mpr h
  · exact hremoves.countersAgree.mp h

theorem foldl_countersAgree (ops : List (QueueOp n)) {q : GlobalRequestQueue n}
    (h : q.CountersAgree) : (ops.foldl QueueOp.apply q).CountersAgree := by
  induction ops generalizing q with
  | nil => exact h
  | cons op ops ih =>
    apply ih
    exact op.countersAgree h

/-- After every sequence of operations the counters are what a recount would give, and the
next operation leaves all other replicas untouched. -/
theorem countersAgree_run (n : ℕ) (ops : List (QueueOp n)) :
    (∀ r, (runOps n ops).queuesGlobalActualWaitingTokensCount r =
        ((runOps n ops).recountPendingTokens r).1 ∧
      (runOps n ops).queuesGlobalActualWaitingTokensCount r =
        (((runOps n ops).queues r).map
          (fun item => item.req.numPrefillTokens - item.prefixCacheHitLen)).sum ∧
      (runOps n ops).queuesGlobalInputWaitingTokensCount r =
        (((runOps n ops).queues r).map (fun item => (item.req.inputIds.length : ℤ))).sum) ∧
    ∀ op r, r ≠ QueueOp.replicaId op → SameAt r (runOps n ops) (op.apply (runOps n ops)) := by
  constructor
  · intro r
    obtain ⟨hactual, hinput⟩ := foldl_countersAgree ops (init_countersAgree n) r
    -- the tokens of an entry are the prefill tokens without the hit length
    have htokens : (fun item : Entry => item.req.numPrefillTokens - item.prefixCacheHitLen) =
        Entry.actualTokens := by
      funext item
      exact item.actualTokens_eq.symm
    exact ⟨hactual, by rw [htokens]; exact hactual, hinput⟩
  · intro op r hr
    exact op.apply_others (runOps n ops) hr

end DualMap.Scheduler.GlobalRequestQueue
