import DualMap.Scheduler.QueueAccounting
import Mathlib.Algebra.BigOperators.Group.Finset.Basic
import Mathlib.Algebra.BigOperators.Group.Finset.Piecewise
import Mathlib.Algebra.Order.BigOperators.Group.Finset
import Mathlib.Data.Fintype.BigOperators
import Mathlib.Algebra.Order.Group.Multiset

/-!
# The Requests in all Queues

`queued` collects the requests that wait at any replica, each as often as it is stored.
Operations on the queue change it by exactly the requests they add or remove. When no
request is stored twice, it waits at one replica only.
-/

namespace DualMap.Scheduler.GlobalRequestQueue

variable {n : ℕ}

/-- The requests waiting at a replica. -/
def queuedAt (q : GlobalRequestQueue n) (r : Fin n) : Multiset Request :=
  ((q.queues r).map Entry.req : List Request)

/-- The requests waiting anywhere. -/
def queued (q : GlobalRequestQueue n) : Multiset Request := ∑ r, q.queuedAt r

theorem mem_queuedAt {q : GlobalRequestQueue n} {r : Fin n} {request : Request} :
    request ∈ q.queuedAt r ↔ ∃ item ∈ q.queues r, item.req = request := by
  rw [queuedAt, Multiset.mem_coe, List.mem_map]

theorem mem_queued {q : GlobalRequestQueue n} {request : Request} :
    request ∈ q.queued ↔ ∃ r, request ∈ q.queuedAt r := by
  simp [queued, Multiset.mem_sum]

@[simp] theorem queued_init : (init n).queued = 0 := by
  simp [queued, queuedAt, init]

theorem SameAt.queuedAt {q q' : GlobalRequestQueue n} {r : Fin n} (h : SameAt r q q') :
    q'.queuedAt r = q.queuedAt r := by
  rw [GlobalRequestQueue.queuedAt, GlobalRequestQueue.queuedAt, h.1]

/-! ## What a removal takes -/

theorem Removes.queuedAt_self {q q' : GlobalRequestQueue n} {r : Fin n}
    {removed : List Entry} (h : Removes q r removed q') :
    q.queuedAt r = (removed.map Entry.req : List Request) + q'.queuedAt r := by
  have hperm := h.queue.map Entry.req
  rw [List.map_append] at hperm
  rw [queuedAt, queuedAt, Multiset.coe_add]
  exact Multiset.coe_eq_coe.mpr hperm

theorem Removes.queuedAt_other {q q' : GlobalRequestQueue n} {r t : Fin n}
    {removed : List Entry} (h : Removes q r removed q') (ht : t ≠ r) :
    q'.queuedAt t = q.queuedAt t :=
  (h.others t ht).queuedAt

theorem Removes.queued {q q' : GlobalRequestQueue n} {r : Fin n} {removed : List Entry}
    (h : Removes q r removed q') :
    q.queued = (removed.map Entry.req : List Request) + q'.queued := by
  have hself := h.queuedAt_self
  -- only the queue of `r` has changed
  have hrest : ∑ t ∈ Finset.univ.erase r, q.queuedAt t =
      ∑ t ∈ Finset.univ.erase r, q'.queuedAt t := by
    apply Finset.sum_congr rfl
    intro t ht
    exact (h.queuedAt_other (Finset.ne_of_mem_erase ht)).symm
  calc q.queued
      = q.queuedAt r + ∑ t ∈ Finset.univ.erase r, q.queuedAt t :=
        (Finset.add_sum_erase _ _ (Finset.mem_univ r)).symm
    _ = (removed.map Entry.req : List Request) +
          (q'.queuedAt r + ∑ t ∈ Finset.univ.erase r, q'.queuedAt t) := by
        rw [hself, hrest, add_assoc]
    _ = (removed.map Entry.req : List Request) + q'.queued := by
        rw [Finset.add_sum_erase _ _ (Finset.mem_univ r)]
        rfl

theorem Removes.mem_of_mem {q q' : GlobalRequestQueue n} {r t : Fin n} {removed : List Entry}
    (h : Removes q r removed q') {request : Request} (hmem : request ∈ q'.queuedAt t) :
    request ∈ q.queuedAt t := by
  by_cases ht : t = r
  · rw [ht, h.queuedAt_self]
    exact Multiset.mem_add.mpr (Or.inr (ht ▸ hmem))
  · rw [← h.queuedAt_other ht]
    exact hmem

/-- A push adds the request. -/
theorem push_queued (q : GlobalRequestQueue n) (replicaId : Fin n) (request : Request)
    (prefixCacheHitLen : ℤ) :
    (q.push replicaId request prefixCacheHitLen).queued = {request} + q.queued :=
  (push_removes q replicaId request prefixCacheHitLen).queued

theorem mem_queuedAt_push {q : GlobalRequestQueue n} {replicaId r : Fin n}
    {request other : Request} {prefixCacheHitLen : ℤ} :
    other ∈ (q.push replicaId request prefixCacheHitLen).queuedAt r ↔
      other = request ∧ r = replicaId ∨ other ∈ q.queuedAt r := by
  have hpush := push_removes q replicaId request prefixCacheHitLen
  by_cases hr : r = replicaId
  · rw [hr, hpush.queuedAt_self]
    simp
  · rw [hpush.queuedAt_other hr]
    simp [hr]

/-- A batch pop removes the requests that it returns. -/
theorem popSchedulable_queued (q : GlobalRequestQueue n) (replicaId : Fin n)
    (curReplicaBudget : ℤ) (maxPopNum : Option ℤ) :
    q.queued = ((q.popSchedulable replicaId curReplicaBudget maxPopNum).1 : Multiset Request) +
      (q.popSchedulable replicaId curReplicaBudget maxPopNum).2.queued := by
  obtain ⟨removed, hremoves, hreqs⟩ :=
    popSchedulable_removes q replicaId curReplicaBudget maxPopNum
  rw [hreqs]
  exact hremoves.queued

/-- The loop of `pop_schedulable` stops at its limit. -/
theorem popSchedulableLoop_length (replicaId : Fin n) (maxPopNum : ℤ) (fuel : ℕ)
    (q : GlobalRequestQueue n) (curReplicaBudget popCount : ℤ) :
    ((popSchedulableLoop replicaId (some maxPopNum) fuel q curReplicaBudget popCount).1.length
      : ℤ) ≤ max 0 (maxPopNum - popCount) := by
  induction fuel generalizing q curReplicaBudget popCount with
  | zero => exact le_max_left 0 _
  | succ fuel ih =>
    rw [popSchedulableLoop]
    split
    · exact le_max_left 0 _
    · next hlimit =>
      -- one more request fits below the limit
      have hroom : popCount < maxPopNum := by simpa using hlimit
      split
      · exact le_max_left 0 _
      · next item rest _ =>
        dsimp only
        split
        · rw [List.length_singleton]
          exact le_max_of_le_right (by omega)
        · have hrest := ih (q.adjust replicaId rest
            (-getRequestActualPrefillTokens item.req (some item.negtivePrefixCacheHitLen))
            (-item.req.inputIds.length)) (curReplicaBudget -
              getRequestActualPrefillTokens item.req (some item.negtivePrefixCacheHitLen))
            (popCount + 1)
          rw [List.length_cons, Nat.cast_succ]
          rw [max_eq_right (by omega)] at hrest ⊢
          omega

theorem popSchedulable_length (q : GlobalRequestQueue n) (replicaId : Fin n)
    (curReplicaBudget maxPopNum : ℤ) :
    ((q.popSchedulable replicaId curReplicaBudget (some maxPopNum)).1.length : ℤ) ≤
      max 0 maxPopNum := by
  have h := popSchedulableLoop_length replicaId maxPopNum (q.queues replicaId).length q
    curReplicaBudget 0
  rwa [sub_zero] at h

/-! ## Distinct requests -/

/-- A request that is stored once waits at one replica only. -/
theorem queuedAt_unique {q : GlobalRequestQueue n} (hnodup : q.queued.Nodup)
    {request : Request} {r t : Fin n} (hr : request ∈ q.queuedAt r)
    (ht : request ∈ q.queuedAt t) : r = t := by
  by_contra hne
  -- two queues together are part of all queues, so they share no request
  have hle : q.queuedAt r + q.queuedAt t ≤ q.queued := by
    rw [← Finset.sum_pair hne]
    exact Finset.sum_le_sum_of_subset (Finset.subset_univ _)
  have hpair := Multiset.nodup_of_le hle hnodup
  exact Multiset.disjoint_left.mp (Multiset.nodup_add.mp hpair).2.2 hr ht

/-! ## Moving a request -/

/-- From `q` to `q'` one stored request is taken out of the queue of `source` and pushed
at `target`, with `tokens` to compute there. -/
structure Moves (q : GlobalRequestQueue n) (source target : Fin n) (request : Request)
    (tokens : ℤ) (q' : GlobalRequestQueue n) : Prop where
  ne : target ≠ source
  taken : ∃ lost, lost.req = request ∧ (q.queues source).Perm (lost :: q'.queues source)
  added : ∃ gained, gained.req = request ∧ gained.actualTokens = tokens ∧
    (q'.queues target).Perm (gained :: q.queues target)
  others : ∀ r, r ≠ source → r ≠ target → SameAt r q q'
  queued : q'.queued = q.queued
  counters : q'.CountersAgree ↔ q.CountersAgree
  targetTokens : q'.queuesGlobalActualWaitingTokensCount target =
    q.queuesGlobalActualWaitingTokensCount target + tokens

/-- `del_req` takes out exactly one entry of a request that is queued. -/
theorem delReq_takes {q : GlobalRequestQueue n} {replicaId : Fin n} {request : Request}
    (hmem : request ∈ q.queuedAt replicaId) :
    ∃ item, item.req = request ∧
      Removes q replicaId [item] (q.delReq replicaId (some request)).2 := by
  cases hfind : (q.queues replicaId).find? (fun item => item.req = request) with
  | none =>
    -- the search cannot fail: some entry holds the request
    obtain ⟨item, hitem, hreq⟩ := mem_queuedAt.mp hmem
    have hnone := List.find?_eq_none.mp hfind item hitem
    exact absurd hreq (by simpa using hnone)
  | some item => exact ⟨item, delReq_takes_found hfind⟩

/-- Deleting a queued request at one replica and pushing it at another moves it. -/
theorem delReq_push_moves {q : GlobalRequestQueue n} {source target : Fin n}
    {request : Request} (hmem : request ∈ q.queuedAt source) (hne : target ≠ source)
    (tokens : ℤ) :
    Moves q source target request tokens
      ((q.delReq source (some request)).2.push target request
        (request.numPrefillTokens - tokens)) := by
  obtain ⟨item, hreq, htake⟩ := delReq_takes hmem
  have hpush := push_removes (q.delReq source (some request)).2 target request
    (request.numPrefillTokens - tokens)
  -- the push leaves the source alone, the deletion leaves the target alone
  have hsource := hpush.others source hne.symm
  have htarget := htake.others target hne
  -- pushed with this hit length, the request counts with the tokens it has to compute
  have htokens : Entry.actualTokens ⟨-(request.numPrefillTokens - tokens), request.arrivedAt,
      request⟩ = tokens := by
    rw [Entry.actualTokens_eq]
    simp [Entry.prefixCacheHitLen]
  refine ⟨hne, ⟨item, hreq, ?_⟩, ⟨_, rfl, htokens, ?_⟩, ?_, ?_, ?_, ?_⟩
  · rw [← hsource.1]
    exact htake.queue
  · rw [← htarget.1]
    exact hpush.queue
  · intro r hr ht
    obtain ⟨hqueue, hactual, hinput⟩ := hpush.others r ht
    obtain ⟨hqueue', hactual', hinput'⟩ := htake.others r hr
    exact ⟨hqueue.symm.trans hqueue', hactual.symm.trans hactual', hinput.symm.trans hinput'⟩
  · rw [htake.queued, push_queued, List.map_singleton, hreq]
    rfl
  · exact hpush.countersAgree.symm.trans htake.countersAgree
  · have hactual := hpush.actual
    rw [htarget.2.1, List.map_singleton, List.sum_singleton, htokens] at hactual
    rw [hactual]
    ring

/-- A moved request is nowhere else; all others wait where they did. -/
theorem Moves.mem_queuedAt {q q' : GlobalRequestQueue n} {source target : Fin n}
    {request : Request} {tokens : ℤ} (h : Moves q source target request tokens q')
    (hnodup : q.queued.Nodup) {other : Request} {r : Fin n} (hmem : other ∈ q'.queuedAt r) :
    (other = request ∧ r = target) ∨ (other ≠ request ∧ other ∈ q.queuedAt r) := by
  have hnodup' : q'.queued.Nodup := by rw [h.queued]; exact hnodup
  obtain ⟨gained, hgained, -, hadded⟩ := h.added
  obtain ⟨lost, hlost, htaken⟩ := h.taken
  have htarget : request ∈ q'.queuedAt target :=
    GlobalRequestQueue.mem_queuedAt.mpr ⟨gained, hadded.symm.subset (by simp), hgained⟩
  -- the moved request waits at the target, and a stored request waits only once
  by_cases hother : other = request
  · left
    rw [hother] at hmem
    exact ⟨hother, queuedAt_unique hnodup' hmem htarget⟩
  · right
    refine ⟨hother, ?_⟩
    obtain ⟨item, hitem, hreq⟩ := GlobalRequestQueue.mem_queuedAt.mp hmem
    apply GlobalRequestQueue.mem_queuedAt.mpr
    refine ⟨item, ?_, hreq⟩
    -- what waits anywhere else was there before the move
    by_cases hsource : r = source
    · rw [hsource] at hitem ⊢
      exact htaken.symm.subset (List.mem_cons_of_mem _ hitem)
    · by_cases ht : r = target
      · rw [ht] at hitem ⊢
        rcases List.mem_cons.mp (hadded.subset hitem) with rfl | hold
        · exact absurd (hreq.symm.trans hgained) hother
        · exact hold
      · rw [← (h.others r hsource ht).1]
        exact hitem

theorem Moves.mem_queuedAt_target {q q' : GlobalRequestQueue n} {source target : Fin n}
    {request : Request} {tokens : ℤ} (h : Moves q source target request tokens q') :
    request ∈ q'.queuedAt target := by
  obtain ⟨gained, hgained, -, hadded⟩ := h.added
  exact GlobalRequestQueue.mem_queuedAt.mpr
    ⟨gained, hadded.symm.subset List.mem_cons_self, hgained⟩

/-- The other requests stay where they are. -/
theorem Moves.stays {q q' : GlobalRequestQueue n} {source target : Fin n}
    {request : Request} {tokens : ℤ} (h : Moves q source target request tokens q')
    {other : Request} (hother : other ≠ request) {r : Fin n} (hmem : other ∈ q.queuedAt r) :
    other ∈ q'.queuedAt r := by
  obtain ⟨item, hitem, hreq⟩ := GlobalRequestQueue.mem_queuedAt.mp hmem
  apply GlobalRequestQueue.mem_queuedAt.mpr
  refine ⟨item, ?_, hreq⟩
  -- the source lost one entry of another request, the target only gained
  by_cases hsource : r = source
  · obtain ⟨lost, hlost, htaken⟩ := h.taken
    rw [hsource] at hitem ⊢
    rcases List.mem_cons.mp (htaken.subset hitem) with rfl | hkept
    · exact absurd (hreq.symm.trans hlost) hother
    · exact hkept
  · by_cases ht : r = target
    · obtain ⟨gained, -, -, hadded⟩ := h.added
      rw [ht] at hitem ⊢
      exact hadded.symm.subset (List.mem_cons_of_mem _ hitem)
    · rw [(h.others r hsource ht).1]
      exact hitem

end DualMap.Scheduler.GlobalRequestQueue
