import DualMap.Router.Handshake
import Mathlib.Data.Int.CardIntervalMod

/-!
# Round Robin

The model of `RoundRobinGlobalScheduler`: a counter that grows with every request, modulo
the number of replicas. Nobody else uses the counter.

Main result: `round_robin_balanced`, the requests go round the replicas in the order in which
they were queued, whatever the interleaving, and in the end no replica has got more than one
request more than another.
-/

namespace DualMap.Router

namespace RoundRobinGlobalScheduler

/-- `AsyncAtomicCounter.get`. No holder of its lock waits. -/
def get : Py ℕ ℕ := MonadState.get

/-- `AsyncAtomicCounter.increment`. -/
def increment : Py ℕ Unit := modify (· + 1)

/-- `schedule`. -/
def schedule (numReplicas : ℕ) (_request : Request) : Py ℕ (Option ℤ) := do
  let current ← get
  if numReplicas = 0 then Py.raise .zeroDivisionError
  else do
    let replicaId := current % numReplicas
    increment
    return some (replicaId : ℤ)

theorem schedule_apply {numReplicas : ℕ} (hn : 0 < numReplicas) (request : Request)
    (current : ℕ) : schedule numReplicas request current =
      .ok (some ((current % numReplicas : ℕ) : ℤ)) (current + 1) := by
  rw [schedule, get, Py.bind_ok (Py.get_apply current), if_neg hn.ne']
  rfl

end RoundRobinGlobalScheduler

namespace Selection

variable {numReplicas : ℕ}

/-- What `schedule` has returned goes round the replicas, and the counter counts it. -/
def GoesRound (numReplicas : ℕ) (s : Selection ℕ) : Prop :=
  s.scheduled.map Prod.snd =
    (List.range s.globalScheduler).map (fun k => some ((k % numReplicas : ℕ) : ℤ))

theorem Step.goesRound (hn : 0 < numReplicas) {s s' : Selection ℕ} (h : GoesRound numReplicas s)
    (hstep : Step numReplicas (RoundRobinGlobalScheduler.schedule numReplicas) (fun _ _ => False)
      s s') : GoesRound numReplicas s' := by
  rcases hstep.scheduler_cases with ⟨hscheduler, hscheduled⟩ | ⟨request, rfl⟩ | hothers
  · rw [GoesRound, hscheduler, hscheduled]
    exact h
  · rw [GoesRound, runSchedule, RoundRobinGlobalScheduler.schedule_apply hn]
    simp only [List.map_append, List.map_cons, List.map_nil, List.range_succ]
    rw [h]
  · exact hothers.elim

theorem GoesRound.length {s : Selection ℕ} (h : GoesRound numReplicas s) :
    s.scheduled.length = s.globalScheduler := by
  simpa using congrArg List.length h

/-- The answer to the `k`-th scheduled request. -/
theorem GoesRound.answer {s : Selection ℕ} (h : GoesRound numReplicas s) {k : ℕ}
    {request : Request} {runtimeId : Option ℤ}
    (hk : s.scheduled[k]? = some (request, runtimeId)) :
    runtimeId = some ((k % numReplicas : ℕ) : ℤ) := by
  have hsnd : (s.scheduled.map Prod.snd)[k]? = some runtimeId := by simp [hk]
  have hlt : k < s.globalScheduler := by
    rw [← h.length]
    exact (List.getElem?_eq_some_iff.mp hk).1
  rw [h] at hsnd
  simpa [hlt] using hsnd.symm

theorem run_goesRound (hn : 0 < numReplicas) {s s' : Selection ℕ} (h : GoesRound numReplicas s)
    (hrun : Relation.ReflTransGen
      (Step numReplicas (RoundRobinGlobalScheduler.schedule numReplicas) (fun _ _ => False)) s s') :
    GoesRound numReplicas s' := by
  induction hrun with
  | refl => exact h
  | tail _ hstep ih => exact hstep.goesRound hn ih

/-- So the replicas of the tasks go round. -/
theorem GoesRound.tasks (hn : 0 < numReplicas) {s : Selection ℕ} (h : GoesRound numReplicas s) :
    (s.scheduled.filterMap (task numReplicas)).map Prod.fst =
      (List.range s.scheduled.length).map (· % numReplicas) := by
  have hlength := h.length
  generalize hanswers : s.scheduled = answers at hlength ⊢
  rw [GoesRound, hanswers, ← hlength] at h
  -- induction on the scheduled requests, from the newest one
  clear hanswers hlength
  induction answers using List.reverseRecOn with
  | nil => rfl
  | append_singleton answers answer ih =>
    simp only [List.map_append, List.map_cons, List.map_nil, List.length_append,
      List.length_cons, List.length_nil, zero_add, List.range_succ] at h ⊢
    obtain ⟨hbefore, hlast⟩ := List.append_inj' h rfl
    have hanswer : answer.2 = some ((answers.length % numReplicas : ℕ) : ℤ) := by
      simpa using hlast
    have htask : task numReplicas answer = some (answers.length % numReplicas, answer.1) :=
      task_eq_some.mpr ⟨Prod.ext rfl hanswer, Nat.mod_lt _ hn⟩
    rw [List.filterMap_append, List.map_append, ih hbefore, List.filterMap_cons, htask]
    rfl

theorem count_range_mod {n r : ℕ} (hr : r < n) (m : ℕ) :
    ((List.range m).map (· % n)).count r = m / n + if r < m % n then 1 else 0 := by
  have hcount : ((List.range m).map (· % n)).count r = m.count (· ≡ r [MOD n]) := by
    induction m with
    | zero => rfl
    | succ m ih =>
      simp [List.range_succ, Nat.count_succ, ih, Nat.ModEq, Nat.mod_eq_of_lt hr,
        List.count_singleton]
  rw [hcount, Nat.count_modEq_card m (Nat.zero_lt_of_lt hr), Nat.mod_eq_of_lt hr]

/-- In every run, the `k`-th request that was queued is posted to replica `k` modulo their
number, if it is posted; and once nothing is left to do, each replica has got its share. -/
theorem round_robin_balanced (hn : 0 < numReplicas) {s : Selection ℕ}
    (hrun : Relation.ReflTransGen
      (Step numReplicas (RoundRobinGlobalScheduler.schedule numReplicas) (fun _ _ => False))
      { globalScheduler := 0 } s) :
    (∀ (k r : ℕ) (request : Request), s.entered[k]? = some request → (r, request) ∈ s.posted →
        r = k % numReplicas) ∧
      (s.phase.Alive → (∀ s', ¬ Internal numReplicas
          (RoundRobinGlobalScheduler.schedule numReplicas) s s') →
        ∀ r < numReplicas, (s.posted.map Prod.fst).count r =
          s.requests.length / numReplicas +
            if r < s.requests.length % numReplicas then 1 else 0) := by
  have hagreed : Agreed numReplicas s := run_agreed (start_agreed 0) hrun
  have hround := run_goesRound hn (by rfl) hrun
  refine ⟨?_, ?_⟩
  · intro k r request hk hposted
    obtain ⟨-, -, hscheduled⟩ := (hagreed.posted r request).mp hposted
    obtain ⟨j, hj⟩ := List.mem_iff_getElem?.mp hscheduled
    -- it was scheduled as the `k`-th request too
    have hentered : s.entered[j]? = some request := by
      have hlt : j < (s.scheduled.map Prod.fst).length := by
        simpa using (List.getElem?_eq_some_iff.mp hj).1
      rw [hagreed.fifo, List.append_assoc, List.getElem?_append_left hlt]
      simp [hj]
    have hsame : j = k := by
      obtain ⟨hlt, -⟩ := List.getElem?_eq_some_iff.mp hentered
      exact (List.getElem?_inj hlt hagreed.entered_nodup).mp (hentered.trans hk.symm)
    have hanswer := hround.answer hj
    rw [hsame] at hanswer
    exact_mod_cast Option.some.inj hanswer
  · intro halive hstuck r hr
    obtain ⟨hscheduled, hentered, hposted⟩ := hagreed.settled_posted halive hstuck
    have hlength : s.requests.length = s.scheduled.length := by
      rw [← hentered.length_eq, ← hscheduled, List.length_map]
    rw [(hposted.map Prod.fst).count_eq, hround.tasks hn, hlength]
    exact count_range_mod hr _

/-! ## An instance: two requests on two replicas -/

/-- Both calls have ended. -/
def bothEnded : Selection ℕ :=
  ((headAnswered (RoundRobinGlobalScheduler.schedule 2)
    (headAnswered (RoundRobinGlobalScheduler.schedule 2) (bothEntered 0) (plainRequest 2)
      [plainRequest 1] 0) (plainRequest 1) [] 1).wake 2 (plainRequest 1) 1).wake 2
        (plainRequest 2) 0

theorem bothEnded_reached : Relation.ReflTransGen
    (Step 2 (RoundRobinGlobalScheduler.schedule 2) (fun _ _ => False))
    { globalScheduler := 0 } bothEnded := by
  have hentered := bothEntered_reached 2 (RoundRobinGlobalScheduler.schedule 2)
    (fun _ _ => False) 0
  have hhead := ((hentered.tail (.internal (.get (bothEntered 0) _ _ rfl rfl))).tail
    (.internal (.schedule _ _ rfl))).tail (.internal (.answer _ _ (some 0) rfl))
  have hrest := ((hhead.tail (.internal (.get _ (plainRequest 1) [] rfl rfl))).tail
    (.internal (.schedule _ _ rfl))).tail (.internal (.answer _ _ (some 1) rfl))
  have hwoken := hrest.tail (.internal (.wake _ (plainRequest 1) 1 (by decide) (by decide)))
  exact hwoken.tail (.internal (.wake _ (plainRequest 2) 0 (by decide) (by decide)))

theorem round_robin_balanced_bothEnded :
    (1, plainRequest 1) ∈ bothEnded.posted ∧ 1 = 1 % 2 ∧
      ∀ r < 2, (bothEnded.posted.map Prod.fst).count r = 1 := by
  obtain ⟨hround, hbalanced⟩ := round_robin_balanced (by decide) bothEnded_reached
  have hposted : (1, plainRequest 1) ∈ bothEnded.posted := by decide
  refine ⟨hposted, hround 1 1 (plainRequest 1) (by decide) hposted, ?_⟩
  intro r hr
  have hcount := hbalanced (by decide)
    (not_internal (by decide) (by decide) (by decide) (by decide)) r hr
  rw [hcount]
  have hrequests : bothEnded.requests.length = 2 := by decide
  simp [hrequests]

end Selection

end DualMap.Router
