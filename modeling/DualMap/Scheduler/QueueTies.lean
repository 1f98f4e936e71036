import DualMap.Foundation.HeapqRaising
import DualMap.Scheduler.QueueAccounting

/-!
# Ties in the Global Request Queue

`push` with the comparison that tuples really have: two entries that agree in hit length and
arrival time, with different requests, cannot be compared. `heappush` appends the entry
before it compares, and the counters are changed after it. So a push that raises leaves its
entry in the queue, with tokens that no counter knows of.

## Main Results

- `push_cases`: what `push` does, with and without a tie on the way up
- `push_allOrNothing_iff`: a push is all or nothing exactly when it does not raise
-/

namespace DualMap.Scheduler

/-- `<` on two such entries reaches the requests, which have no order. -/
def Entry.Tied (a b : Entry) : Prop := a.key = b.key ∧ a.req ≠ b.req

instance : DecidableRel Entry.Tied := fun _ _ => inferInstanceAs (Decidable (_ ∧ _))

namespace GlobalRequestQueue.Raising

open Heapq.Raising

variable {n : ℕ}

/-- The tuple that `push` makes. -/
def entryOf (request : Request) (prefixCacheHitLen : ℤ) : Entry :=
  ⟨-prefixCacheHitLen, request.arrivedAt, request⟩

/-- Run code on the heap of a replica. -/
def onQueue {α : Type} (replicaId : Fin n) (code : Py (List Entry) α) :
    Py (GlobalRequestQueue n) α :=
  Py.zoom (fun q => q.queues replicaId)
    (fun q queue => { q with queues := Function.update q.queues replicaId queue }) code

/-- `push`, on entries that cannot always be compared. -/
def push (replicaId : Fin n) (request : Request) (prefixCacheHitLen : ℤ) :
    Py (GlobalRequestQueue n) PUnit := do
  onQueue replicaId
    (heappush (less Entry.key Entry.Tied) (entryOf request prefixCacheHitLen))
  modify (fun q => { q with
    queuesGlobalActualWaitingTokensCount :=
      Function.update q.queuesGlobalActualWaitingTokensCount replicaId
        (q.queuesGlobalActualWaitingTokensCount replicaId +
          getRequestActualPrefillTokens request (some (-prefixCacheHitLen))) })
  modify (fun q => { q with
    queuesGlobalInputWaitingTokensCount :=
      Function.update q.queuesGlobalInputWaitingTokensCount replicaId
        (q.queuesGlobalInputWaitingTokensCount replicaId + request.inputIds.length) })

/-- The entry meets a tied one, on its way up, before it meets another one that is not
larger. -/
def MeetsTie (q : GlobalRequestQueue n) (replicaId : Fin n) (request : Request)
    (prefixCacheHitLen : ℤ) : Prop :=
  Blocked Entry.key Entry.Tied (entryOf request prefixCacheHitLen) (pushWay (q.queues replicaId))

/-- A push without a tie is `GlobalRequestQueue.push`. One with a tie raises, and leaves the
entry in the queue and the counters as they were. -/
theorem push_cases (q : GlobalRequestQueue n) (replicaId : Fin n) (request : Request)
    (prefixCacheHitLen : ℤ) :
    (¬ MeetsTie q replicaId request prefixCacheHitLen ∧
        push replicaId request prefixCacheHitLen q =
          .ok ⟨⟩ (q.push replicaId request prefixCacheHitLen)) ∨
      (MeetsTie q replicaId request prefixCacheHitLen ∧
        ∃ queue, queue.Perm (entryOf request prefixCacheHitLen :: q.queues replicaId) ∧
          push replicaId request prefixCacheHitLen q = .error (.exception .typeError)
            { q with queues := Function.update q.queues replicaId queue }) := by
  have htied : ∀ a b : Entry, a.Tied b → a.key = b.key := fun _ _ h => h.1
  rcases heappush_cases htied (q.queues replicaId) (entryOf request prefixCacheHitLen) with
    ⟨hfree, hrun⟩ | ⟨hblocked, queue, hrun, hperm⟩
  · have hzoom : onQueue replicaId
        (heappush (less Entry.key Entry.Tied) (entryOf request prefixCacheHitLen)) q =
          .ok ⟨⟩ _ := Py.zoom_ok (s := q) hrun
    refine Or.inl ⟨hfree, ?_⟩
    rw [push, Py.bind_ok hzoom]
    rfl
  · have hzoom : onQueue replicaId
        (heappush (less Entry.key Entry.Tied) (entryOf request prefixCacheHitLen)) q =
          .error (.exception .typeError) _ := Py.zoom_error (s := q) hrun
    refine Or.inr ⟨hblocked, queue, hperm, ?_⟩
    rw [push, Py.bind_error hzoom]

/-- The request is inserted with its tokens, or an exception leaves everything as it was. -/
def AllOrNothing (q : GlobalRequestQueue n) (replicaId : Fin n) (request : Request)
    (prefixCacheHitLen : ℤ) : Prop :=
  match push replicaId request prefixCacheHitLen q with
  | .ok _ q' => Removes q' replicaId [entryOf request prefixCacheHitLen] q
  | .error _ q' => q' = q

theorem not_allOrNothing_of_tie {q : GlobalRequestQueue n} {replicaId : Fin n}
    {request : Request} {prefixCacheHitLen : ℤ}
    (htie : MeetsTie q replicaId request prefixCacheHitLen) :
    ¬ AllOrNothing q replicaId request prefixCacheHitLen := by
  obtain ⟨-, queue, hperm, hrun⟩ :=
    (push_cases q replicaId request prefixCacheHitLen).resolve_left (fun h => h.1 htie)
  rw [AllOrNothing, hrun]
  intro hsame
  -- the queue has grown by one entry
  have hat : Function.update q.queues replicaId queue replicaId = q.queues replicaId :=
    congrFun (congrArg GlobalRequestQueue.queues hsame) replicaId
  have hlength := hperm.length_eq
  rw [← Function.update_self replicaId queue q.queues, hat, List.length_cons] at hlength
  omega

/-- In every state, a push is all or nothing if and only if it meets no tie. -/
theorem push_allOrNothing_iff (q : GlobalRequestQueue n) (replicaId : Fin n)
    (request : Request) (prefixCacheHitLen : ℤ) :
    AllOrNothing q replicaId request prefixCacheHitLen ↔
      ¬ MeetsTie q replicaId request prefixCacheHitLen := by
  constructor
  · intro hall htie
    exact not_allOrNothing_of_tie htie hall
  · intro hfree
    obtain ⟨-, hrun⟩ := (push_cases q replicaId request prefixCacheHitLen).resolve_right
      (fun h => hfree h.1)
    rw [AllOrNothing, hrun]
    exact push_removes q replicaId request prefixCacheHitLen

/-- Two requests that arrive at the same time. -/
def twinRequest (id : ℕ) : Request where
  id := id
  hashSessionId := "s"
  inputIds := [1]
  numPrefillTokens := 1
  outputLen := 1
  arrivedAt := 0

/-- The second of two requests with the same hit length and arrival time is left in a queue
whose counters know only the first. -/
theorem push_twin :
    push (Fin.last 0) (twinRequest 1) 0 (init 1) =
        .ok ⟨⟩ ((init 1).push (Fin.last 0) (twinRequest 1) 0) ∧
      ¬ AllOrNothing ((init 1).push (Fin.last 0) (twinRequest 1) 0) (Fin.last 0)
        (twinRequest 2) 0 := by
  constructor
  · have hfree : ¬ MeetsTie (init 1) (Fin.last 0) (twinRequest 1) 0 :=
      fun ⟨_, h, _⟩ => by cases h
    exact ((push_cases (init 1) (Fin.last 0) (twinRequest 1) 0).resolve_right
      (fun h => hfree h.1)).2
  · exact not_allOrNothing_of_tie
      ⟨entryOf (twinRequest 1) 0, by decide +kernel, by decide +kernel⟩

end GlobalRequestQueue.Raising

end DualMap.Scheduler
