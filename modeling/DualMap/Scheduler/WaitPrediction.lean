import DualMap.Scheduler.AdmissionBatch

/-!
# Predicted Waiting Tokens

`get_num_global_actual_waiting_tokens` adds up the tokens in front of a request in a sorted
copy of the queue. The copy also holds the entry that the request may already have there, and
the scan stops at the first of the two. What is dispatched before the request, once its entry
is replaced, is what waits in front of the new entry.

Main results:
- `tokensDispatchedBefore_eq`: what repeated `pop` returns before the request;
- `getNumGlobalActualWaitingTokens_eq`: what the scan adds up;
- `waitingTokens_exact_iff`: the two agree unless requests that cost tokens wait between the
  existing entry and the place of the new one.
-/

namespace DualMap.Scheduler.GlobalRequestQueue

open Heapq (sorted DistinctKeys)

variable {n : ℕ}

/-! ## What is dispatched before a request -/

/-- The requests that repeated `pop` returns, each with the tokens that go off the counter
with it. -/
def dispatchOrder (replicaId : Fin n) : ℕ → GlobalRequestQueue n → List (Request × ℤ)
  | 0, _ => []
  | fuel + 1, q =>
    match q.pop replicaId with
    | (none, _) => []
    | (some request, q') =>
      (request, q.getGlobalActualWaitingTokensCount replicaId -
        q'.getGlobalActualWaitingTokensCount replicaId) :: dispatchOrder replicaId fuel q'

/-- The queue in which the entry of the request is replaced by one with the given hit
length. -/
def requeue (q : GlobalRequestQueue n) (replicaId : Fin n) (request : Request)
    (prefixCacheHitLen : ℤ) : GlobalRequestQueue n :=
  (q.delReq replicaId (some request)).2.push replicaId request prefixCacheHitLen

/-- The tokens of the requests that repeated `pop` returns before the request, once its entry
is replaced. -/
def tokensDispatchedBefore (q : GlobalRequestQueue n) (replicaId : Fin n) (request : Request)
    (prefixCacheHitLen : ℤ) : ℤ :=
  let q' := q.requeue replicaId request prefixCacheHitLen
  (((dispatchOrder replicaId (q'.getQueueLen replicaId) q').takeWhile
    (fun popped => popped.1 ≠ request)).map Prod.snd).sum

/-- Requests arrive at different times, and their entries say when. -/
structure Timed (queue : List Entry) (request : Request) : Prop where
  distinct : (queue.map Entry.arrivedAt).Nodup
  stored : ∀ item ∈ queue, item.arrivedAt = item.req.arrivedAt
  own : ∀ item ∈ queue, item.arrivedAt = request.arrivedAt → item.req = request

/-- The entries of other requests with a key below `bound`. -/
def othersBefore (queue : List Entry) (request : Request) (bound : ℤ ×ₗ ℚ) : List Entry :=
  queue.filter (fun item => item.req ≠ request ∧ item.key < bound)

/-- The entry that `push` would make. -/
def newEntry (request : Request) (prefixCacheHitLen : ℤ) : Entry :=
  ⟨-prefixCacheHitLen, request.arrivedAt, request⟩

/-- The entries of other requests that wait behind the existing entry of the request, but in
front of the place of its new one. -/
def overtaken (queue : List Entry) (request : Request) (prefixCacheHitLen : ℤ) : List Entry :=
  queue.filter (fun item => item.req ≠ request ∧
    item.key < (newEntry request prefixCacheHitLen).key ∧
    ∃ own ∈ queue, own.req = request ∧ own.key ≤ item.key)

/-! ## Scanning in priority order -/

/-- A scan in priority order up to the first entry of the request adds up what other requests
have in front of that entry. -/
theorem scan_sum {items : List Entry} {request : Request} (bound : ℤ ×ₗ ℚ)
    (hown : ∀ x ∈ items, x.req = request → bound ≤ x.key)
    (hother : ∀ x ∈ items, x.req ≠ request → x.key ≠ bound)
    (hfirst : ∃ x ∈ items, x.key = bound) :
    (((sorted Entry.key items).takeWhile (fun item => item.req ≠ request)).map
      Entry.actualTokens).sum =
      ((othersBefore items request bound).map Entry.actualTokens).sum := by
  have hscan : (sorted Entry.key items).takeWhile (fun item => item.req ≠ request) =
      (sorted Entry.key items).filter (fun x => x.key < bound) := by
    apply Heapq.takeWhile_eq_filter_lt (Heapq.sorted_pairwise Entry.key items)
    · intro x hx hlt
      have hreq : x.req ≠ request := fun hreq =>
        absurd (hown x ((Heapq.mem_sorted Entry.key).mp hx) hreq) (not_le.mpr hlt)
      simpa using hreq
    · intro x hx hkey
      have hreq : x.req = request := by
        by_contra hreq
        exact hother x ((Heapq.mem_sorted Entry.key).mp hx) hreq hkey
      simpa using hreq
    · obtain ⟨x, hx, hkey⟩ := hfirst
      exact ⟨x, (Heapq.mem_sorted Entry.key).mpr hx, hkey⟩
  -- in front of the first entry of the request there are only other requests
  have hothers : items.filter (fun x => x.key < bound) = othersBefore items request bound := by
    apply List.filter_congr
    intro x hx
    have hreq : x.key < bound → x.req ≠ request := fun hlt hreq =>
      absurd (hown x hx hreq) (not_le.mpr hlt)
    rw [decide_eq_decide]
    exact ⟨fun hlt => ⟨hreq hlt, hlt⟩, And.right⟩
  rw [hscan, ← hothers]
  exact (((Heapq.sorted_perm_self Entry.key items).filter _).map _).sum_eq

/-! ## Repeated pops -/

/-- Repeated `pop` empties a heap in the order of its keys. -/
theorem dispatchOrder_eq (replicaId : Fin n) (fuel : ℕ) {q : GlobalRequestQueue n}
    (hheap : Heapq.IsHeap Entry.key (q.queues replicaId))
    (hdistinct : DistinctKeys Entry.key (q.queues replicaId))
    (hfuel : (q.queues replicaId).length ≤ fuel) :
    dispatchOrder replicaId fuel q =
      (sorted Entry.key (q.queues replicaId)).map (fun item => (item.req, item.actualTokens)) := by
  induction fuel generalizing q with
  | zero =>
    have hempty : q.queues replicaId = [] := List.eq_nil_of_length_eq_zero (by omega)
    simp [dispatchOrder, hempty, sorted]
  | succ fuel ih =>
    cases hpop : Heapq.heappop Entry.key (q.queues replicaId) with
    | none =>
      have hempty := Heapq.heappop_eq_none.mp hpop
      simp [dispatchOrder, pop, Heapq.heappop, hempty, sorted]
    | some popped =>
      obtain ⟨item, rest⟩ := popped
      obtain ⟨horder, hdistinct', hheap'⟩ := Heapq.sorted_heappop hdistinct hheap hpop
      have hlen := Heapq.heappop_length Entry.key hpop
      have hrest := ih
        (q := q.adjust replicaId rest
          (-getRequestActualPrefillTokens item.req (some item.negtivePrefixCacheHitLen))
          (-item.req.inputIds.length))
        (by simpa using hheap') (by simpa using hdistinct') (by simp; omega)
      simp only [adjust_queues, Function.update_self] at hrest
      simp [dispatchOrder, pop, hpop, hrest, horder, getGlobalActualWaitingTokensCount,
        Entry.actualTokens]

/-! ## The queue without the request -/

/-- A request has at most one entry: it arrived once. -/
theorem Timed.unique {queue : List Entry} {request : Request} (h : Timed queue request)
    {item item' : Entry} (hitem : item ∈ queue) (hitem' : item' ∈ queue)
    (hreq : item.req = request) (hreq' : item'.req = request) : item = item' := by
  apply List.inj_on_of_nodup_map h.distinct hitem hitem'
  rw [h.stored item hitem, h.stored item' hitem', hreq, hreq']

/-- `del_req` leaves the entries of the other requests, as a heap. -/
theorem delReq_leaves {q : GlobalRequestQueue n} {replicaId : Fin n} {request : Request}
    (hheap : Heapq.IsHeap Entry.key (q.queues replicaId))
    (htimed : Timed (q.queues replicaId) request) :
    ((q.delReq replicaId (some request)).2.queues replicaId).Perm
        ((q.queues replicaId).filter (fun item => item.req ≠ request)) ∧
      Heapq.IsHeap Entry.key ((q.delReq replicaId (some request)).2.queues replicaId) := by
  cases hfind : (q.queues replicaId).find? (fun item => item.req = request) with
  | none =>
    -- the request does not wait here
    have hnone : ∀ item ∈ q.queues replicaId, item.req ≠ request := by
      intro item hitem
      simpa using List.find?_eq_none.mp hfind item hitem
    have hall : (q.queues replicaId).filter (fun item => item.req ≠ request) =
        q.queues replicaId := by
      rw [List.filter_eq_self]
      simpa using hnone
    rw [hall]
    simpa [delReq, hfind] using hheap
  | some item =>
    obtain ⟨hreq, htakes⟩ := delReq_takes_found hfind
    have hperm := htakes.queue
    rw [List.singleton_append] at hperm
    set rest := (q.delReq replicaId (some request)).2.queues replicaId with hrest
    -- a second entry of the request would be the one that was taken out
    have hothers : ∀ x ∈ rest, x.req ≠ request := by
      intro x hx hxreq
      have hsame := htimed.unique (hperm.mem_iff.mpr (List.mem_cons_of_mem _ hx))
        (hperm.mem_iff.mpr (List.mem_cons_self ..)) hxreq hreq
      have hnodup := (hperm.nodup_iff).mp (List.Nodup.of_map _ htimed.distinct)
      exact (List.nodup_cons.mp hnodup).1 (hsame ▸ hx)
    constructor
    · have hfilter := hperm.filter (fun item => item.req ≠ request)
      have hkeep : rest.filter (fun item => item.req ≠ request) = rest :=
        List.filter_eq_self.mpr (by simpa using hothers)
      rw [List.filter_cons_of_neg (by simpa using hreq), hkeep] at hfilter
      exact hfilter.symm
    · simpa [hrest, delReq, hfind] using Heapq.heapify_isHeap Entry.key
        ((q.queues replicaId).eraseP (fun item => item.req = request))

/-- No other entry has the key of an entry that stands for the request. -/
theorem Timed.key_ne {queue : List Entry} {request : Request} (h : Timed queue request)
    {item : Entry} (hitem : item ∈ queue) (hreq : item.req ≠ request) (hit : ℤ) :
    item.key ≠ toLex (hit, request.arrivedAt) := by
  intro hkey
  apply hreq
  apply h.own item hitem
  exact (Prod.mk.inj (toLex.injective hkey)).2

/-- The queue that the request is put into again: the others and the new entry, with distinct
priorities. -/
theorem requeue_queue {q : GlobalRequestQueue n} {replicaId : Fin n} {request : Request}
    (hheap : Heapq.IsHeap Entry.key (q.queues replicaId))
    (htimed : Timed (q.queues replicaId) request) (prefixCacheHitLen : ℤ) :
    let queue := (q.requeue replicaId request prefixCacheHitLen).queues replicaId
    queue.Perm (newEntry request prefixCacheHitLen ::
        (q.queues replicaId).filter (fun item => item.req ≠ request)) ∧
      Heapq.IsHeap Entry.key queue ∧ DistinctKeys Entry.key queue := by
  obtain ⟨hleft, hheap'⟩ := delReq_leaves hheap htimed
  have hperm := (push_removes (q.delReq replicaId (some request)).2 replicaId request
    prefixCacheHitLen).queue.trans (hleft.cons (newEntry request prefixCacheHitLen))
  refine ⟨hperm, ?_, ?_⟩
  · have hpush := Heapq.heappush_isHeap Entry.key hheap' (newEntry request prefixCacheHitLen)
    simpa [requeue, push, newEntry] using hpush
  · have hcons : DistinctKeys Entry.key (newEntry request prefixCacheHitLen ::
        (q.queues replicaId).filter (fun item => item.req ≠ request)) := by
      refine List.nodup_cons.mpr ⟨?_, ?_⟩
      · intro hkey
        obtain ⟨x, hx, hxkey⟩ := List.mem_map.mp hkey
        obtain ⟨hqueued, hreq⟩ := List.mem_filter.mp hx
        exact htimed.key_ne hqueued (by simpa using hreq) (-prefixCacheHitLen) hxkey
      · exact (distinctKeys_of_arrivals htimed.distinct).sublist (List.filter_sublist.map _)
    exact hcons.perm hperm.symm

/-- What repeated `pop` returns before the request is what other requests have in front of its
new place. -/
theorem tokensDispatchedBefore_eq {q : GlobalRequestQueue n} {replicaId : Fin n}
    {request : Request} (hheap : Heapq.IsHeap Entry.key (q.queues replicaId))
    (htimed : Timed (q.queues replicaId) request) (prefixCacheHitLen : ℤ) :
    q.tokensDispatchedBefore replicaId request prefixCacheHitLen =
      ((othersBefore (q.queues replicaId) request
        (newEntry request prefixCacheHitLen).key).map Entry.actualTokens).sum := by
  obtain ⟨hperm, hqheap, hdistinct⟩ := requeue_queue hheap htimed prefixCacheHitLen
  set others := (q.queues replicaId).filter (fun item => item.req ≠ request) with hothers
  set item := newEntry request prefixCacheHitLen with hitem
  set queue := (q.requeue replicaId request prefixCacheHitLen).queues replicaId with hqueue
  have hmem : ∀ x ∈ others, x ∈ q.queues replicaId ∧ x.req ≠ request := by
    intro x hx
    simpa [hothers] using hx
  have hpopped : (dispatchOrder replicaId queue.length
      (q.requeue replicaId request prefixCacheHitLen)).takeWhile
        (fun popped => popped.1 ≠ request) =
      ((sorted Entry.key queue).takeWhile (fun item => item.req ≠ request)).map
        (fun item => (item.req, item.actualTokens)) := by
    rw [dispatchOrder_eq replicaId _ hqheap hdistinct le_rfl, List.takeWhile_map]
    rfl
  have htokens : q.tokensDispatchedBefore replicaId request prefixCacheHitLen =
      (((sorted Entry.key queue).takeWhile (fun item => item.req ≠ request)).map
        Entry.actualTokens).sum := by
    rw [tokensDispatchedBefore, getQueueLen, hpopped, List.map_map]
    rfl
  have hown : ∀ x ∈ queue, x = item ∨ x ∈ others := fun x hx =>
    List.mem_cons.mp (hperm.mem_iff.mp hx)
  rw [htokens, scan_sum item.key]
  · -- the others of the queue without the request are its others
    have hsame : (othersBefore queue request item.key).Perm
        (othersBefore (q.queues replicaId) request item.key) := by
      have hfilter := hperm.filter (fun x => x.req ≠ request ∧ x.key < item.key)
      have hself : item.req = request := rfl
      rw [List.filter_cons_of_neg (by simp [hself]), hothers, List.filter_filter] at hfilter
      refine hfilter.trans (List.Perm.of_eq (List.filter_congr ?_))
      intro x hx
      rw [← Bool.decide_and, decide_eq_decide]
      tauto
    exact (hsame.map _).sum_eq
  · intro x hx hreq
    rcases hown x hx with rfl | hx
    · exact le_rfl
    · exact absurd hreq (hmem x hx).2
  · intro x hx hreq
    rcases hown x hx with rfl | hx
    · exact absurd rfl hreq
    · exact htimed.key_ne (hmem x hx).1 hreq (-prefixCacheHitLen)
  · exact ⟨item, hperm.mem_iff.mpr (List.mem_cons_self ..), rfl⟩

/-! ## The prediction -/

/-- The key at which the scan stops: the existing entry of the request or the new one,
whichever comes first. -/
def scanStop (queue : List Entry) (request : Request) (prefixCacheHitLen : ℤ) : ℤ ×ₗ ℚ :=
  match queue.find? (fun item => item.req = request) with
  | some own => min own.key (newEntry request prefixCacheHitLen).key
  | none => (newEntry request prefixCacheHitLen).key

/-- An entry is in front of the stop when it is in front of the new entry and of the existing
one. -/
theorem Timed.lt_scanStop_iff {queue : List Entry} {request : Request}
    (h : Timed queue request) (prefixCacheHitLen : ℤ) (bound : ℤ ×ₗ ℚ) :
    bound < scanStop queue request prefixCacheHitLen ↔
      bound < (newEntry request prefixCacheHitLen).key ∧
        ∀ own ∈ queue, own.req = request → bound < own.key := by
  unfold scanStop
  cases hfind : queue.find? (fun item => item.req = request) with
  | none =>
    have hnone : ∀ own ∈ queue, own.req ≠ request := by
      intro own hown
      simpa using List.find?_eq_none.mp hfind own hown
    constructor
    · intro hlt
      exact ⟨hlt, fun own hown hreq => absurd hreq (hnone own hown)⟩
    · exact And.left
  | some item =>
    have hreq : item.req = request := by simpa using List.find?_some hfind
    have hmem := List.mem_of_find?_eq_some hfind
    rw [lt_min_iff]
    constructor
    · rintro ⟨hown, hnew⟩
      refine ⟨hnew, ?_⟩
      intro own hmem' hreq'
      rw [h.unique hmem' hmem hreq' hreq]
      exact hown
    · rintro ⟨hnew, hall⟩
      exact ⟨hall item hmem hreq, hnew⟩

/-- The stop is the key of an entry of the request. -/
theorem scanStop_mem (queue : List Entry) (request : Request) (prefixCacheHitLen : ℤ) :
    ∃ x ∈ queue ++ [newEntry request prefixCacheHitLen], x.req = request ∧
      x.key = scanStop queue request prefixCacheHitLen := by
  unfold scanStop
  cases hfind : queue.find? (fun item => item.req = request) with
  | none => exact ⟨newEntry request prefixCacheHitLen, by simp, rfl, rfl⟩
  | some own =>
    have hreq : own.req = request := by simpa using List.find?_some hfind
    have hmem := List.mem_of_find?_eq_some hfind
    rcases min_choice own.key (newEntry request prefixCacheHitLen).key with hmin | hmin
    · exact ⟨own, by simp [hmem], hreq, hmin.symm⟩
    · exact ⟨newEntry request prefixCacheHitLen, by simp, rfl, hmin.symm⟩

/-- The scan adds up what other requests have in front of its stop. -/
theorem getNumGlobalActualWaitingTokens_eq {q : GlobalRequestQueue n} {replicaId : Fin n}
    {request : Request} (htimed : Timed (q.queues replicaId) request)
    (prefixCacheHitLen : ℤ) :
    q.getNumGlobalActualWaitingTokens replicaId request prefixCacheHitLen =
      ((othersBefore (q.queues replicaId) request
        (scanStop (q.queues replicaId) request prefixCacheHitLen)).map
          Entry.actualTokens).sum := by
  set queue := q.queues replicaId with hqueue
  set item := newEntry request prefixCacheHitLen with hitem
  set stop := scanStop queue request prefixCacheHitLen with hstop
  have hle : stop ≤ item.key ∧ ∀ own ∈ queue, own.req = request → stop ≤ own.key := by
    constructor
    · by_contra hlt
      exact absurd ((htimed.lt_scanStop_iff prefixCacheHitLen item.key).mp
        (not_le.mp hlt)).1 (lt_irrefl _)
    · intro own hown hreq
      by_contra hlt
      exact absurd (((htimed.lt_scanStop_iff prefixCacheHitLen own.key).mp
        (not_le.mp hlt)).2 own hown hreq) (lt_irrefl _)
  obtain ⟨first, hfirst, hfirstreq, hfirstkey⟩ :=
    scanStop_mem queue request prefixCacheHitLen
  -- an entry of the request holds its arrival time, which no other entry has
  have hfirsttime : ∃ hit, first.key = toLex (hit, request.arrivedAt) := by
    rcases List.mem_append.mp hfirst with hmem | hmem
    · refine ⟨first.negtivePrefixCacheHitLen, ?_⟩
      rw [Entry.key, htimed.stored first hmem, hfirstreq]
    · rw [List.mem_singleton.mp hmem]
      exact ⟨-prefixCacheHitLen, rfl⟩
  obtain ⟨hit, hhit⟩ := hfirsttime
  have hscan : q.getNumGlobalActualWaitingTokens replicaId request prefixCacheHitLen =
      (((sorted Entry.key (queue ++ [item])).takeWhile (fun x => x.req ≠ request)).map
        Entry.actualTokens).sum := rfl
  rw [hscan, scan_sum stop]
  · -- the new entry is not one of the others
    have hnew : othersBefore (queue ++ [item]) request stop = othersBefore queue request stop := by
      simp [othersBefore, hitem, newEntry]
    rw [hnew]
  · intro x hx hreq
    rcases List.mem_append.mp hx with hx | hx
    · exact hle.2 x hx hreq
    · rw [List.mem_singleton.mp hx]
      exact hle.1
  · intro x hx hreq
    rw [hstop, ← hfirstkey, hhit]
    rcases List.mem_append.mp hx with hx | hx
    · exact htimed.key_ne hx hreq hit
    · exact absurd (by rw [List.mem_singleton.mp hx]; rfl) hreq
  · exact ⟨first, hfirst, hfirstkey⟩

/-- What waits in front of the new entry is what waits in front of the stop, and what the new
entry falls behind. -/
theorem othersBefore_split {queue : List Entry} {request : Request}
    (htimed : Timed queue request) (prefixCacheHitLen : ℤ) :
    (othersBefore queue request (newEntry request prefixCacheHitLen).key).Perm
      (othersBefore queue request (scanStop queue request prefixCacheHitLen) ++
        overtaken queue request prefixCacheHitLen) := by
  have hperm := List.filter_append_perm
    (fun item => decide (item.key < scanStop queue request prefixCacheHitLen))
    (othersBefore queue request (newEntry request prefixCacheHitLen).key)
  rw [othersBefore, List.filter_filter, List.filter_filter] at hperm
  have hfront : queue.filter (fun item =>
      decide (item.key < scanStop queue request prefixCacheHitLen) &&
        decide (item.req ≠ request ∧ item.key < (newEntry request prefixCacheHitLen).key)) =
      othersBefore queue request (scanStop queue request prefixCacheHitLen) := by
    apply List.filter_congr
    intro x hx
    rw [← Bool.decide_and, decide_eq_decide, htimed.lt_scanStop_iff]
    tauto
  have hbehind : queue.filter (fun item =>
      (!decide (item.key < scanStop queue request prefixCacheHitLen)) &&
        decide (item.req ≠ request ∧ item.key < (newEntry request prefixCacheHitLen).key)) =
      overtaken queue request prefixCacheHitLen := by
    apply List.filter_congr
    intro x hx
    rw [← decide_not, ← Bool.decide_and, decide_eq_decide, htimed.lt_scanStop_iff]
    constructor
    · rintro ⟨hnot, hreq, hlt⟩
      refine ⟨hreq, hlt, ?_⟩
      by_contra hnone
      apply hnot
      refine ⟨hlt, ?_⟩
      intro own hown hreq'
      by_contra hle
      exact hnone ⟨own, hown, hreq', not_lt.mp hle⟩
    · rintro ⟨hreq, hlt, own, hown, hreq', hle⟩
      exact ⟨fun h => absurd (h.2 own hown hreq') (not_lt.mpr hle), hreq, hlt⟩
  rw [hfront, hbehind] at hperm
  exact hperm.symm

/-- The prediction is what is dispatched before the request exactly when the requests that
wait behind its existing entry, but in front of the place of the new one, cost no tokens. So
it is when the request does not wait here yet, or waits with no longer a hit. -/
theorem waitingTokens_exact_iff {q : GlobalRequestQueue n} {replicaId : Fin n}
    {request : Request} (hheap : Heapq.IsHeap Entry.key (q.queues replicaId))
    (htimed : Timed (q.queues replicaId) request) (prefixCacheHitLen : ℤ) :
    q.getNumGlobalActualWaitingTokens replicaId request prefixCacheHitLen =
        q.tokensDispatchedBefore replicaId request prefixCacheHitLen ↔
      ((overtaken (q.queues replicaId) request prefixCacheHitLen).map
        Entry.actualTokens).sum = 0 := by
  have hsplit := ((othersBefore_split htimed prefixCacheHitLen).map Entry.actualTokens).sum_eq
  rw [List.map_append, List.sum_append] at hsplit
  rw [getNumGlobalActualWaitingTokens_eq htimed, tokensDispatchedBefore_eq hheap htimed, hsplit]
  omega

/-- Two requests wait with hits 5 and 1; the second one moves to the front with a hit of 7. -/
theorem waitingTokens_exact_iff_two :
    twoWaiting.getNumGlobalActualWaitingTokens 0 (numberedRequest 1) 7 =
        twoWaiting.tokensDispatchedBefore 0 (numberedRequest 1) 7 ↔
      ((overtaken (twoWaiting.queues 0) (numberedRequest 1) 7).map Entry.actualTokens).sum = 0 :=
  waitingTokens_exact_iff twoWaiting_isHeap
    ⟨by decide +kernel, by decide +kernel, by decide +kernel⟩ 7

/-- The request with the hit of 5 would now find nothing cached. It would wait for the other
one, but the scan stops at its old entry. -/
theorem not_waitingTokens_exact :
    ¬ ∀ (n : ℕ) (q : GlobalRequestQueue n) (replicaId : Fin n) (request : Request)
      (prefixCacheHitLen : ℤ), 0 ≤ prefixCacheHitLen →
      Heapq.IsHeap Entry.key (q.queues replicaId) → Timed (q.queues replicaId) request →
      q.getNumGlobalActualWaitingTokens replicaId request prefixCacheHitLen =
        q.tokensDispatchedBefore replicaId request prefixCacheHitLen := by
  intro hclaim
  have hsame := hclaim 1 twoWaiting 0 (numberedRequest 0) 0 le_rfl twoWaiting_isHeap
    ⟨by decide +kernel, by decide +kernel, by decide +kernel⟩
  revert hsame
  decide +kernel

end DualMap.Scheduler.GlobalRequestQueue
