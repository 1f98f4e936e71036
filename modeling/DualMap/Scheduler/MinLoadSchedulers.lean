import DualMap.Scheduler.Readings

/-!
# Schedulers by Least Load

The two schedulers that send every request to a replica with the least load of the moment:
`MinPendingInputGlobalScheduler` looks at the input tokens of the pending requests, and
`MinTTFTGlobalScheduler` at the budget that would be left there for the prefill. Both read the
replicas of `SharedState` and post nothing themselves.

Main results:
- `MinPendingInputGlobalScheduler.schedule_spec`, `MinTTFTGlobalScheduler.schedule_spec`: with
  a replica at least, a replica is chosen, and none is better.
-/

namespace DualMap.Scheduler

open Cache

variable {n : ℕ} {κ : Type}

/-! ## Least pending input -/

namespace MinPendingInputGlobalScheduler

/-- The body of the loop of `get_min_pending_input_tokens_replica`. -/
def compareReplica (w : World n κ) (best : Option (Fin n × ℤ)) (replicaId : Fin n) :
    Option (Fin n × ℤ) :=
  let totalInputTokens := w.getPendingInputTokensReplica replicaId
  match best with
  | none => some (replicaId, totalInputTokens)
  | some (minReplicaId, minTokens) =>
    if totalInputTokens < minTokens then some (replicaId, totalInputTokens)
    else some (minReplicaId, minTokens)

/-- `shared_state.get_min_pending_input_tokens_replica`. -/
def getMinPendingInputTokensReplica (w : World n κ) : Option (Fin n × ℤ) :=
  (List.finRange n).foldl (compareReplica w) none

/-- `schedule`, which does not look at its argument. -/
def schedule (_request : Option Request) : Py (World n κ) (Option ℤ) := do
  let w ← get
  return (getMinPendingInputTokensReplica w).map (fun best => ((best.1 : ℕ) : ℤ))

/-- The loop keeps a replica with the least tokens of those it has seen. -/
structure Least (w : World n κ) (seen : List (Fin n)) (best : Fin n × ℤ) : Prop where
  tokens : best.2 = w.getPendingInputTokensReplica best.1
  least : ∀ j ∈ seen, best.2 ≤ w.getPendingInputTokensReplica j

theorem compareReplica_least {w : World n κ} {seen : List (Fin n)} {best : Fin n × ℤ}
    (h : Least w seen best) (replicaId : Fin n) :
    ∃ best', compareReplica w (some best) replicaId = some best' ∧
      Least w (seen ++ [replicaId]) best' := by
  unfold compareReplica
  dsimp only
  split
  · next hlt =>
    refine ⟨_, rfl, rfl, fun j hj => ?_⟩
    rcases List.mem_append.mp hj with hold | hnew
    · exact hlt.le.trans (h.least j hold)
    · rw [List.mem_singleton.mp hnew]
  · next hnot =>
    refine ⟨best, rfl, h.tokens, fun j hj => ?_⟩
    rcases List.mem_append.mp hj with hold | hnew
    · exact h.least j hold
    · rw [List.mem_singleton.mp hnew]
      exact not_lt.mp hnot

theorem foldl_least {w : World n κ} (l : List (Fin n)) {seen : List (Fin n)} {best : Fin n × ℤ}
    (h : Least w seen best) :
    ∃ best', l.foldl (compareReplica w) (some best) = some best' ∧ Least w (seen ++ l) best' := by
  induction l generalizing seen best with
  | nil => exact ⟨best, rfl, by rwa [List.append_nil]⟩
  | cons replicaId l ih =>
    obtain ⟨best₁, heq, hbest₁⟩ := compareReplica_least h replicaId
    obtain ⟨best₂, hfold, hbest₂⟩ := ih hbest₁
    refine ⟨best₂, by rw [List.foldl_cons, heq, hfold], ?_⟩
    rwa [List.append_assoc, List.singleton_append] at hbest₂

theorem schedule_spec (hn : 0 < n) (request : Option Request) (w : World n κ) :
    ∃ r : Fin n, schedule request w = .ok (some ((r : ℕ) : ℤ)) w ∧
      ∀ j, w.getPendingInputTokensReplica r ≤ w.getPendingInputTokensReplica j := by
  obtain ⟨first, rest, hall⟩ := List.exists_cons_of_ne_nil
    (List.ne_nil_of_mem (List.mem_finRange ⟨0, hn⟩))
  -- the fold keeps the least of the replicas it has seen, from the first one on
  have hfirst : Least w [first] (first, w.getPendingInputTokensReplica first) := by
    refine ⟨rfl, fun j hj => ?_⟩
    rw [List.mem_singleton.mp hj]
  obtain ⟨best, hfold, hbest⟩ := foldl_least rest hfirst
  refine ⟨best.1, ?_, fun j => ?_⟩
  · have hmin : getMinPendingInputTokensReplica w = some best := by
      rw [getMinPendingInputTokensReplica, hall, List.foldl_cons]
      exact hfold
    rw [schedule, Py.bind_ok (Py.get_apply w), hmin]
    rfl
  · rw [← hbest.tokens]
    refine hbest.least j ?_
    rw [List.singleton_append, ← hall]
    exact List.mem_finRange j

end MinPendingInputGlobalScheduler

/-! ## Least time to the first token -/

namespace MinTTFTGlobalScheduler

/-- What the clock reads, and `random.Random(42).choice`, which takes one of so many. -/
structure Env where
  perfCounter : ℕ → ℚ
  choice : ∀ len, 0 < len → Fin len

/-- `replica.get_load_states` of a replica. -/
def getLoadStates (env : Env) (replicaId : Fin n) (w : World n κ) : LoadStates × World n κ :=
  let (states, replica) := (w.replicaBudgets replicaId).getLoadStates (env.perfCounter w.ticks)
    (env.perfCounter (w.ticks + 1))
  (states, { w with
    replicaBudgets := Function.update w.replicaBudgets replicaId replica
    ticks := w.ticks + 2 })

/-- The body of the loop of `get_min_ttft_replica`: the budget that would be left, and the
tokens to compute. -/
def readReplica [PrefixCache κ] (env : Env) (request : Request) (replicaId : Fin n) :
    Py (World n κ) (Fin n × ℤ × ℤ) := do
  let w ← get
  let actualNumPrefillTokens ←
    Py.ofExcept ((w.replicaBudgets replicaId).getNumRecomputeTokenIds request.inputIds)
  let states ← modifyGet (getLoadStates env replicaId)
  return (replicaId, states.currentBudget - actualNumPrefillTokens, actualNumPrefillTokens)

/-- `shared_state.get_min_ttft_replica`. -/
def getMinTtftReplica [PrefixCache κ] (env : Env) (request : Request) :
    Py (World n κ) (Fin n × ℤ) := do
  let readings ← (List.finRange n).mapM (readReplica env request)
  match (readings.map (fun reading => reading.2.1)).max? with
  | none => Py.raise .keyError -- the empty dictionary has no key `-1`
  | some maxPendingWaitingBudget =>
    let candidates := readings.filter (fun reading => reading.2.1 = maxPendingWaitingBudget)
    if h : 0 < candidates.length then
      let chosen := candidates.get (env.choice candidates.length h)
      return (chosen.1, chosen.2.2)
    else Py.raise .indexError

/-- `schedule`. -/
def schedule [PrefixCache κ] (env : Env) : Option Request → Py (World n κ) (Option ℤ)
  | none => return some (-1)
  | some request => do
    let (targetReplicaId, _) ← getMinTtftReplica env request
    if ((targetReplicaId : ℕ) : ℤ) ≠ -1 then return some ((targetReplicaId : ℕ) : ℤ)
    else return none

/-- The budget that is left at a replica for the prefill of a request. -/
def budgetLeft [LookupCache κ] (w : World n κ) (request : Request) (replicaId : Fin n) : ℤ :=
  (w.replicaBudgets replicaId).currentBudget - w.recomputeLen replicaId request

theorem getLoadStates_reads (env : Env) (r : Fin n) (w : World n κ) :
    w.Reads (getLoadStates env r w).2 := by
  refine ⟨rfl, rfl, rfl, rfl, fun r' => ?_⟩
  by_cases hr : r' = r
  · obtain ⟨t, ht⟩ := DoubleHashGlobalSchedulerUtils.getLoadStates_replica (w.replicaBudgets r)
      (env.perfCounter w.ticks) (env.perfCounter (w.ticks + 1))
    refine ⟨t, ?_⟩
    rw [hr, ← ht]
    exact Function.update_self ..
  · exact ⟨_, Function.update_of_ne hr ..⟩

theorem getLoadStates_currentBudget (env : Env) (r : Fin n) (w : World n κ) :
    (getLoadStates env r w).1.currentBudget = (w.replicaBudgets r).currentBudget := by
  simp only [getLoadStates, Replica.getLoadStates]
  split
  · rfl
  · rfl

variable [LookupCache κ]

theorem budgetLeft_reads {w w' : World n κ} (h : w.Reads w') (request : Request) :
    budgetLeft w' request = budgetLeft w request := by
  funext r
  obtain ⟨t, ht⟩ := h.replicaBudgets r
  rw [budgetLeft, h.recomputeLen, ht, budgetLeft]

theorem readReplica_spec (env : Env) (request : Request) (r : Fin n) (w : World n κ) :
    ∃ w', readReplica env request r w =
        .ok (r, budgetLeft w request r, w.recomputeLen r request) w' ∧ w.Reads w' := by
  have hlookup : (Py.ofExcept ((w.replicaBudgets r).getNumRecomputeTokenIds request.inputIds) :
      Py (World n κ) ℤ) w = .ok (w.recomputeLen r request) w := by
    rw [Replica.getNumRecomputeTokenIds_eq]
    rfl
  refine ⟨(getLoadStates env r w).2, ?_, getLoadStates_reads env r w⟩
  rw [readReplica, Py.bind_ok (Py.get_apply w), Py.bind_ok hlookup,
    Py.bind_ok (Py.modifyGet_apply _ w), getLoadStates_currentBudget]
  rfl

theorem mapM_readReplica (env : Env) (request : Request) (l : List (Fin n)) (w : World n κ) :
    ∃ w', l.mapM (readReplica env request) w =
        .ok (l.map (fun r => (r, budgetLeft w request r, w.recomputeLen r request))) w' ∧
      w.Reads w' := by
  induction l generalizing w with
  | nil => exact ⟨w, rfl, .refl w⟩
  | cons r l ih =>
    obtain ⟨w₁, hfirst, hreads₁⟩ := readReplica_spec env request r w
    obtain ⟨w₂, hrest, hreads₂⟩ := ih w₁
    have hsame : ∀ r, w₁.recomputeLen r request = w.recomputeLen r request :=
      fun r => hreads₁.recomputeLen r request
    rw [budgetLeft_reads hreads₁] at hrest
    simp only [hsame] at hrest
    refine ⟨w₂, ?_, hreads₁.trans hreads₂⟩
    rw [List.mapM_cons, Py.bind_ok hfirst, Py.bind_ok hrest]
    rfl

theorem getMinTtftReplica_spec (hn : 0 < n) (env : Env) (request : Request) (w : World n κ) :
    ∃ r w', getMinTtftReplica env request w = .ok (r, w.recomputeLen r request) w' ∧
      w.Reads w' ∧ ∀ j, budgetLeft w request j ≤ budgetLeft w request r := by
  obtain ⟨w', hread, hreads⟩ := mapM_readReplica env request (List.finRange n) w
  set readings := (List.finRange n).map
    (fun r => (r, budgetLeft w request r, w.recomputeLen r request)) with hreadings
  have hbudgets : readings.map (fun reading => reading.2.1) =
      (List.finRange n).map (budgetLeft w request) := by
    rw [hreadings, List.map_map]
    rfl
  -- there is a replica, so there is a largest budget
  obtain ⟨best, hbest⟩ : ∃ best, (readings.map (fun reading => reading.2.1)).max? = some best := by
    refine Option.ne_none_iff_exists'.mp (fun hnone => ?_)
    rw [hbudgets, List.max?_eq_none_iff, List.map_eq_nil_iff, List.finRange_eq_nil_iff] at hnone
    exact hn.ne' hnone
  obtain ⟨hmem, hmax⟩ := List.max?_eq_some_iff.mp hbest
  obtain ⟨reading, hreading, hat⟩ := List.mem_map.mp hmem
  have hsome : 0 < (readings.filter (fun reading => reading.2.1 = best)).length :=
    List.length_pos_of_mem (List.mem_filter.mpr ⟨hreading, decide_eq_true hat⟩)
  set chosen := (readings.filter (fun reading => reading.2.1 = best)).get
    (env.choice _ hsome) with hchosen
  have hcandidate : chosen ∈ readings.filter (fun reading => reading.2.1 = best) :=
    List.get_mem _ _
  obtain ⟨hin, hlargest⟩ := List.mem_filter.mp hcandidate
  obtain ⟨r, -, hr⟩ := List.mem_map.mp hin
  refine ⟨r, w', ?_, hreads, fun j => ?_⟩
  · rw [getMinTtftReplica, Py.bind_ok hread, hbest]
    dsimp only
    rw [dif_pos hsome, ← hchosen, ← hr]
    rfl
  · have hj : budgetLeft w request j ∈ readings.map (fun reading => reading.2.1) := by
      rw [hbudgets]
      exact List.mem_map_of_mem (List.mem_finRange j)
    have hequal : budgetLeft w request r = best := by
      rw [← hr] at hlargest
      exact of_decide_eq_true hlargest
    rw [hequal]
    exact hmax _ hj

/-- With a replica at least, one is chosen where most of the budget is left. -/
theorem schedule_spec (hn : 0 < n) (env : Env) (request : Request) (w : World n κ) :
    ∃ (r : Fin n) (w' : World n κ),
      schedule env (some request) w = .ok (some ((r : ℕ) : ℤ)) w' ∧ w.Reads w' ∧
        ∀ j, budgetLeft w request j ≤ budgetLeft w request r := by
  obtain ⟨r, w', hrun, hreads, hmost⟩ := getMinTtftReplica_spec hn env request w
  refine ⟨r, w', ?_, hreads, hmost⟩
  have hid : ((r : ℕ) : ℤ) ≠ -1 := by omega
  rw [schedule, Py.bind_ok hrun]
  exact congrFun (if_pos hid) w'

end MinTTFTGlobalScheduler

end DualMap.Scheduler
