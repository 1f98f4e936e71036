import DualMap.Foundation.GreedyLoads
import DualMap.Scheduler.DispatchCap
import DualMap.Scheduler.MinLoadSchedulers

/-!
# Balance under the Least-Load Schedulers

A scheduler sees a request at a replica only when its response headers have arrived: until then
it is under way, and the replica may look idle to several requests in a row. So the loads are
balanced only as well as few requests are under way at a time.

Main results, for runs with at most `k` requests under way and prompts of at most `M` tokens:
- `min_pending_balanced`: under `MinPendingInputGlobalScheduler`, no replica has more input
  tokens than its share of all, and those of `k` prompts;
- `min_ttft_balanced`: under `MinTTFTGlobalScheduler`, the same for the budget in use, and
  `k + 1` prompts.

While no request completes its prefill or is aborted, a replica that gets requests has as much
as each other one, up to the same bounds.
-/

namespace DualMap.Scheduler

open Cache GreedyLoads DoubleHashGlobalSchedulerUtils

variable {n : ℕ} {κ : Type}

/-! ## Runs -/

/-- The shared state; the requests that were sent to a replica and are not seen there yet; and
all requests that were sent to one. No code reads the lists. -/
structure BalanceState (n : ℕ) (κ : Type) where
  world : World n κ
  underway : Multiset (Fin n × Request)
  sent : List (Fin n × Request)

/-- A call of a task for a request that was admitted before. -/
def Later (call : ReplicaState.Call) : Prop := ∀ request now, call ≠ .addRequest request now

/-- Such a call that ends no request. -/
def Quiet (call : ReplicaState.Call) : Prop := Later call ∧ endedBy call = none

/-- One step of a run in which at most `k` requests are under way, for prompts of at most `M`
tokens, when tasks make these calls for their requests. -/
inductive BalanceStep [LookupCache κ] (schedule : Option Request → Py (World n κ) (Option ℤ))
    (encode : String → Except PyException (List ℕ)) (k M : ℕ) (calls : ReplicaState.Call → Prop) :
    BalanceState n κ → BalanceState n κ → Prop where
  /-- The router sends a request to the replica that the scheduler chooses. -/
  | schedule {s : BalanceState n κ} {request : Request} {replicaId : Fin n} {w : World n κ}
      (hroom : Multiset.card s.underway < k) (hshort : request.inputIds.length ≤ M)
      (hchosen : schedule (some request) s.world = .ok (some ((replicaId : ℕ) : ℤ)) w) :
      BalanceStep schedule encode k M calls s
        { world := w
          underway := (replicaId, request) ::ₘ s.underway
          sent := s.sent ++ [(replicaId, request)] }
  /-- The response headers arrive. -/
  | arrive {s : BalanceState n κ} {request : Request} {replicaId : Fin n} (now : ℚ)
      (hmem : (replicaId, request) ∈ s.underway) :
      BalanceStep schedule encode k M calls s
        { s with
          world := onReplica encode replicaId (.addRequest (some request) now) s.world
          underway := s.underway.erase (replicaId, request) }
  /-- The task ends before. -/
  | lose {s : BalanceState n κ} {request : Request} {replicaId : Fin n}
      (hmem : (replicaId, request) ∈ s.underway) :
      BalanceStep schedule encode k M calls s
        { s with underway := s.underway.erase (replicaId, request) }
  | call {s : BalanceState n κ} (replicaId : Fin n) (call : ReplicaState.Call)
      (hcall : calls call) :
      BalanceStep schedule encode k M calls s
        { s with world := onReplica encode replicaId call s.world }

/-! ## Loads -/

/-- The input tokens of a request that was sent to a replica. -/
def tokensOf (c : Fin n × Request) : Fin n × ℤ := (c.1, c.2.inputIds.length)

/-- The loads, as a scheduler sees them. -/
def BalanceState.loads (seen : World n κ → Fin n → ℤ) (s : BalanceState n κ) : Loads (Fin n) where
  seen := seen s.world
  coming := s.underway.map tokensOf
  log := s.sent.map tokensOf

/-- How the calls of the tasks change what a scheduler sees. -/
structure Measures [LookupCache κ] (encode : String → Except PyException (List ℕ))
    (seen : World n κ → Fin n → ℤ) (inv : World n κ → Prop) : Prop where
  arrive : ∀ w, inv w → ∀ r request now, ∃ x : ℤ, (0 ≤ x ∧ x ≤ request.inputIds.length) ∧
    seen (onReplica encode r (.addRequest (some request) now) w) =
      Function.update (seen w) r (seen w r + x) ∧
    inv (onReplica encode r (.addRequest (some request) now) w)
  call : ∀ w, inv w → ∀ r call, Later call → ∃ x : ℤ, 0 ≤ x ∧ (endedBy call = none → x = 0) ∧
    seen (onReplica encode r call w) = Function.update (seen w) r (seen w r - x) ∧
    inv (onReplica encode r call w)

/-- A scheduler that chooses a replica whose load is the least that it sees, up to a slack. -/
structure Chooses (schedule : Option Request → Py (World n κ) (Option ℤ))
    (seen : World n κ → Fin n → ℤ) (inv : World n κ → Prop) (M : ℕ) (slack : ℤ) : Prop where
  choice : ∀ w request, inv w → request.inputIds.length ≤ M → ∃ (r : Fin n) (w' : World n κ),
    schedule (some request) w = .ok (some ((r : ℕ) : ℤ)) w' ∧ inv w' ∧ seen w' = seen w ∧
      ∀ j, seen w r ≤ seen w j + slack

section Simulation

variable [LookupCache κ] {schedule : Option Request → Py (World n κ) (Option ℤ)}
  {encode : String → Except PyException (List ℕ)} {k M : ℕ} {slack : ℤ}
  {seen : World n κ → Fin n → ℤ} {inv : World n κ → Prop} {s s' : BalanceState n κ}

/-- Each step of the system is a step of the loads, or changes none. -/
theorem BalanceStep.loads {calls : ReplicaState.Call → Prop} {finishes : Prop}
    (hcalls : ∀ call, calls call → Later call ∧ (endedBy call ≠ none → finishes))
    (hmeasures : Measures encode seen inv) (hchooses : Chooses schedule seen inv M slack)
    (hinv : inv s.world) (hstep : BalanceStep schedule encode k M calls s s') :
    inv s'.world ∧ (s'.loads seen = s.loads seen ∨
      GreedyLoads.Step k M slack finishes (s.loads seen) (s'.loads seen)) := by
  cases hstep with
  | @schedule request r w hroom hshort hchosen =>
    -- the scheduler returns a replica that has least by its measure, and `r` is this one
    obtain ⟨r', w', hrun, hinv', hsame, hleast⟩ := hchooses.choice s.world request hinv hshort
    obtain ⟨hid, rfl⟩ := EStateM.Result.ok.inj (hchosen.symm.trans hrun)
    obtain rfl : r = r' := Fin.ext (by exact_mod_cast Option.some.inj hid)
    refine ⟨hinv', Or.inr ?_⟩
    have hfew : Multiset.card (s.loads seen).coming < k := by
      rw [BalanceState.loads, Multiset.card_map]
      exact hroom
    have hlight : (0 : ℤ) ≤ request.inputIds.length ∧ (request.inputIds.length : ℤ) ≤ M :=
      ⟨Int.natCast_nonneg _, by exact_mod_cast hshort⟩
    -- so the step is an assignment of the abstract game
    have hassign : GreedyLoads.Step k M slack finishes (s.loads seen)
        { s.loads seen with
          coming := (r, (request.inputIds.length : ℤ)) ::ₘ (s.loads seen).coming
          log := (s.loads seen).log ++ [(r, (request.inputIds.length : ℤ))] } :=
      .assign r _ hfew hlight hleast
    have hafter : BalanceState.loads seen
        { world := w, underway := (r, request) ::ₘ s.underway, sent := s.sent ++ [(r, request)] } =
        { s.loads seen with
          coming := (r, (request.inputIds.length : ℤ)) ::ₘ (s.loads seen).coming
          log := (s.loads seen).log ++ [(r, (request.inputIds.length : ℤ))] } := by
      simp [BalanceState.loads, hsame, tokensOf]
    rw [hafter]
    exact hassign
  | @arrive request r now hmem =>
    obtain ⟨x, hx, hseen, hinv'⟩ := hmeasures.arrive s.world hinv r request now
    refine ⟨hinv', Or.inr ?_⟩
    have hcoming : tokensOf (r, request) ∈ (s.loads seen).coming := Multiset.mem_map_of_mem _ hmem
    -- what arrives is seen from now on, and no longer on its way
    have harrive : GreedyLoads.Step k M slack finishes (s.loads seen)
        { s.loads seen with
          seen := Function.update (seen s.world) r (seen s.world r + x)
          coming := (s.loads seen).coming.erase (tokensOf (r, request)) } :=
      .arrive r _ x hcoming hx
    have hafter : BalanceState.loads seen
        { s with
          world := onReplica encode r (.addRequest (some request) now) s.world
          underway := s.underway.erase (r, request) } =
        { s.loads seen with
          seen := Function.update (seen s.world) r (seen s.world r + x)
          coming := (s.loads seen).coming.erase (tokensOf (r, request)) } := by
      simp [BalanceState.loads, hseen, Multiset.map_erase_of_mem _ _ hmem]
    rw [hafter]
    exact harrive
  | @lose request r hmem =>
    refine ⟨hinv, Or.inr ?_⟩
    have hcoming : tokensOf (r, request) ∈ (s.loads seen).coming := Multiset.mem_map_of_mem _ hmem
    have hlose : GreedyLoads.Step k M slack finishes (s.loads seen)
        { s.loads seen with coming := (s.loads seen).coming.erase (tokensOf (r, request)) } :=
      .lose r _ hcoming
    have hafter : BalanceState.loads seen { s with underway := s.underway.erase (r, request) } =
        { s.loads seen with coming := (s.loads seen).coming.erase (tokensOf (r, request)) } := by
      simp [BalanceState.loads, Multiset.map_erase_of_mem _ _ hmem]
    rw [hafter]
    exact hlose
  | call r call hcall =>
    obtain ⟨hlater, hfinishes⟩ := hcalls call hcall
    obtain ⟨x, hx, hquiet, hseen, hinv'⟩ := hmeasures.call s.world hinv r call hlater
    refine ⟨hinv', ?_⟩
    have hafter : BalanceState.loads seen { s with world := onReplica encode r call s.world } =
        { s.loads seen with seen := Function.update (seen s.world) r (seen s.world r - x) } := by
      simp [BalanceState.loads, hseen]
    rw [hafter]
    -- only a call that ends a request takes anything off what is seen
    by_cases hends : endedBy call = none
    · -- nothing is ended, so nothing changes
      left
      rw [hquiet hends, sub_zero, Function.update_eq_self]
      rfl
    · exact Or.inr (.finish r x hx (hfinishes hends))

theorem run_loads {calls : ReplicaState.Call → Prop} {finishes : Prop}
    (hcalls : ∀ call, calls call → Later call ∧ (endedBy call ≠ none → finishes))
    (hmeasures : Measures encode seen inv) (hchooses : Chooses schedule seen inv M slack)
    (hinv : inv s.world) {P : Loads (Fin n) → Prop}
    (hrun : Relation.ReflTransGen
      (fun s s' => BalanceStep schedule encode k M calls s s' ∧ P (s'.loads seen)) s s') :
    inv s'.world ∧ Relation.ReflTransGen
      (fun l l' => GreedyLoads.Step k M slack finishes l l' ∧ P l') (s.loads seen)
      (s'.loads seen) := by
  induction hrun with
  | refl => exact ⟨hinv, .refl⟩
  | tail _ hstep ih =>
    obtain ⟨hinv', hsame | hloads⟩ := hstep.1.loads hcalls hmeasures hchooses ih.1
    · exact ⟨hinv', hsame ▸ ih.2⟩
    · exact ⟨hinv', ih.2.tail ⟨hloads, hstep.2⟩⟩

/-- What is under way to a replica, in input tokens. -/
def BalanceState.tokensUnderway (s : BalanceState n κ) (replicaId : Fin n) : ℤ :=
  ((s.underway.filter (fun c => c.1 = replicaId)).map
    (fun c => (c.2.inputIds.length : ℤ))).sum

omit [LookupCache κ] in
theorem loads_total (s : BalanceState n κ) (r : Fin n) :
    (s.loads seen).total r = seen s.world r + s.tokensUnderway r := by
  unfold Loads.total Loads.comingTo BalanceState.loads BalanceState.tokensUnderway
  rw [Multiset.filter_map, Multiset.map_map]
  rfl

/-- A run from a state without requests, in which all loads together never exceed `T`. -/
abbrev RunsUpTo (schedule : Option Request → Py (World n κ) (Option ℤ))
    (encode : String → Except PyException (List ℕ)) (seen : World n κ → Fin n → ℤ) (k M : ℕ)
    (T : ℤ) (w : World n κ) (s : BalanceState n κ) : Prop :=
  Relation.ReflTransGen (fun s s' => BalanceStep schedule encode k M Later s s' ∧
    ∑ r, (seen s'.world r + s'.tokensUnderway r) ≤ T) ⟨w, 0, []⟩ s

/-- What the choice of the least load achieves, when nothing is pending at first. -/
theorem run_balanced (hmeasures : Measures encode seen inv)
    (hchooses : Chooses schedule seen inv M slack) (hslack : 0 ≤ slack) {w : World n κ}
    (hinv : inv w) (hidle : ∀ r, seen w r = 0) {T : ℤ} (hT : 0 ≤ T)
    (hrun : RunsUpTo schedule encode seen k M T w s)
    (hburst : Relation.ReflTransGen (BalanceStep schedule encode k M Quiet) s s') :
    (∀ r, n * (seen s.world r + s.tokensUnderway r) ≤ T + n * (k * M + slack)) ∧
    ∀ r, (∃ request, (r, request) ∈ s'.sent.drop s.sent.length) → ∀ r',
      seen s'.world r + s'.tokensUnderway r ≤ seen s'.world r' + (k * M + slack) := by
  -- the runs up to here and the burst after it are runs of the abstract game
  have hM : (0 : ℤ) ≤ M := Int.natCast_nonneg M
  have hpeak : Relation.ReflTransGen (fun s s' => BalanceStep schedule encode k M Later s s' ∧
      ∑ r, (s'.loads seen).total r ≤ T) ⟨w, 0, []⟩ s := by
    simpa only [loads_total] using hrun
  obtain ⟨hinv', hsteps⟩ : inv s.world ∧ Relation.ReflTransGen
      (fun l l' => GreedyLoads.Step k M slack True l l' ∧ ∑ r, l'.total r ≤ T)
      (BalanceState.loads seen ⟨w, 0, []⟩) (s.loads seen) :=
    run_loads (fun _ h => ⟨h, fun _ => trivial⟩) hmeasures hchooses hinv hpeak
  have hzero : ∀ r, (BalanceState.loads seen ⟨w, 0, []⟩).total r = 0 := by
    intro r
    rw [loads_total, hidle r, zero_add]
    rfl
  -- nothing is seen or under way at the start, so the shares are fair there
  have hstart : FairShare k M slack T (BalanceState.loads seen ⟨w, 0, []⟩) := by
    refine ⟨⟨Nat.zero_le _, fun c hc => absurd hc (Multiset.notMem_zero c)⟩, ?_, fun r => ?_⟩
    · rw [Finset.sum_eq_zero (fun r _ => hzero r)]
      exact hT
    · rw [hzero r, mul_zero]
      positivity
  have hfair := run_fairShare hstart hM hsteps
  have hburstTrue : Relation.ReflTransGen
      (fun s s' => BalanceStep schedule encode k M Quiet s s' ∧ True) s s' :=
    Relation.ReflTransGen.mono (fun _ _ h => ⟨h, trivial⟩) _ _ hburst
  -- no call of the burst ends a request, so in the game nothing finishes
  have hquiet : Relation.ReflTransGen
      (fun l l' => GreedyLoads.Step k M slack False l l' ∧ True) (s.loads seen)
      (s'.loads seen) :=
    (run_loads (fun _ h => ⟨h.1, fun hends => hends h.2⟩) hmeasures hchooses hinv'
      hburstTrue).2
  have hlevel := run_level hfair.underWay hM
    (Relation.ReflTransGen.mono (fun _ _ h => h.1) _ _ hquiet)
  constructor
  · intro r
    have hshare := hfair.share r
    rwa [loads_total, Fintype.card_fin] at hshare
  · rintro r ⟨request, hrequest⟩ r'
    have hsent : tokensOf (r, request) ∈
        (s'.loads seen).log.drop (s.loads seen).log.length := by
      unfold BalanceState.loads
      rw [List.length_map, ← List.map_drop]
      exact List.mem_map_of_mem hrequest
    have hat := hlevel.level r _ hsent r'
    rwa [loads_total] at hat

end Simulation

/-! ## What the calls of the tasks do -/

section Calls

variable [LookupCache κ] {encode : String → Except PyException (List ℕ)}

/-- An admission reserves what is to be computed, or is refused. -/
theorem addRequest_after (s : ReplicaState κ) (request : Request) (now : ℚ) :
    ReplicaState.Call.after encode s (.addRequest (some request) now) = s ∨
      request ∉ s.replica.pendingRequests ∧
        ReplicaState.Call.after encode s (.addRequest (some request) now) =
          s.admitted request (s.replica.numRecomputeTokenIds request.inputIds) now := by
  by_cases hpending : request ∈ s.replica.pendingRequests
  · left
    rcases ReplicaState.addRequest_cases (some request) now s with
      hrefused | ⟨r, tokens, hsome, hnew, -, -⟩
    · rw [ReplicaState.Call.after, hrefused, Py.finalState_ok]
    · exact absurd (Option.some.inj hsome ▸ hpending) hnew
  · right
    refine ⟨hpending, ?_⟩
    rw [ReplicaState.Call.after, ReplicaState.addRequest_admits hpending, Py.finalState_ok]

/-- A later call gives back what a pending request has reserved, or leaves the reservations. -/
theorem later_after (encode : String → Except PyException (List ℕ)) (s : ReplicaState κ)
    {call : ReplicaState.Call} (hcall : Later call) :
    (call.after encode s).attrs = s.attrs ∧
    ((call.after encode s).replica.pendingRequests = s.replica.pendingRequests ∧
        (call.after encode s).replica.currentBudget = s.replica.currentBudget ∨
      ∃ request, endedBy call = some request ∧ request ∈ s.replica.pendingRequests ∧
        (call.after encode s).replica.pendingRequests = s.replica.pendingRequests.erase request ∧
        (call.after encode s).replica.currentBudget =
          s.replica.currentBudget + (s.attrs request).actualNumPrefillTokens) := by
  cases call with
  -- of the calls on a replica, three may take a request off the pending ones
  | addRequest request now => exact absurd rfl (hcall request now)
  | completeRequestPrefill request ttft now =>
    cases request with
    | none => exact ⟨rfl, Or.inl ⟨rfl, rfl⟩⟩
    | some r =>
      obtain ⟨cache, ⟨fault, -, heq⟩ | ⟨value, -, ⟨hmem, heq⟩ | ⟨-, heq⟩⟩⟩ :=
        ReplicaState.completeRequestPrefill_cases r ttft now s
      · rw [ReplicaState.Call.after, heq]
        exact ⟨rfl, Or.inl ⟨rfl, rfl⟩⟩
      -- the prefill completes: its request was pending, and what it held is free again
      · rw [ReplicaState.Call.after, heq]
        exact ⟨rfl, Or.inr ⟨r, rfl, hmem, rfl, rfl⟩⟩
      · rw [ReplicaState.Call.after, heq]
        exact ⟨rfl, Or.inl ⟨rfl, rfl⟩⟩
  | completeRequestDecode request outputText =>
    cases request with
    | none => exact ⟨rfl, Or.inl ⟨rfl, rfl⟩⟩
    | some r =>
      obtain ⟨cache, ⟨_, _, -, -, heq⟩ | ⟨fault, -, heq⟩⟩ :=
        ReplicaState.completeRequestDecode_cases encode r outputText s
      · rw [ReplicaState.Call.after, heq]
        exact ⟨rfl, Or.inl ⟨rfl, rfl⟩⟩
      · rw [ReplicaState.Call.after, heq]
        exact ⟨rfl, Or.inl ⟨rfl, rfl⟩⟩
  | abortRequest request =>
    cases request with
    | none => exact ⟨rfl, Or.inl ⟨rfl, rfl⟩⟩
    | some r =>
      obtain ⟨res, heq⟩ := ReplicaState.abortRequest_eq r s
      rw [ReplicaState.Call.after, heq, Py.finalState_ok]
      -- an abort releases only what is still pending
      by_cases hmem : r ∈ s.replica.pendingRequests
      · have hdropped : s.dropped r = { s with replica := { s.replica with
            currentBudget := s.replica.currentBudget + (s.attrs r).actualNumPrefillTokens
            pendingRequests := s.replica.pendingRequests.erase r } } := if_pos hmem
        rw [hdropped]
        exact ⟨rfl, Or.inr ⟨r, rfl, hmem, rfl, rfl⟩⟩
      · have hdropped : s.dropped r = s := if_neg hmem
        rw [hdropped]
        exact ⟨rfl, Or.inl ⟨rfl, rfl⟩⟩

/-- A load that is read off the replicas is measured replica by replica. -/
theorem Measures.of_replica {load : Replica κ → ℤ} {inv : (Request → RequestAttrs) → Prop}
    (harrive : ∀ s : ReplicaState κ, inv s.attrs → ∀ request now, ∃ x : ℤ,
      (0 ≤ x ∧ x ≤ request.inputIds.length) ∧
      load (ReplicaState.Call.after encode s (.addRequest (some request) now)).replica =
        load s.replica + x ∧
      inv (ReplicaState.Call.after encode s (.addRequest (some request) now)).attrs)
    (hlater : ∀ s : ReplicaState κ, inv s.attrs → ∀ call, Later call → ∃ x : ℤ,
      0 ≤ x ∧ (endedBy call = none → x = 0) ∧
      load (call.after encode s).replica = load s.replica - x ∧ inv (call.after encode s).attrs) :
    Measures encode (fun (w : World n κ) r => load (w.replicaBudgets r))
      (fun w => inv w.attrs) := by
  have hload : ∀ (w : World n κ) r call, (fun r' =>
      load ((onReplica encode r call w).replicaBudgets r')) =
      Function.update (fun r' => load (w.replicaBudgets r')) r
        (load (call.after encode ⟨w.replicaBudgets r, w.attrs⟩).replica) := by
    intro w r call
    funext r'
    exact Function.apply_update (fun _ => load) w.replicaBudgets r _ r'
  constructor
  · intro w hinv r request now
    obtain ⟨x, hx, hsum, hinv'⟩ := harrive ⟨w.replicaBudgets r, w.attrs⟩ hinv request now
    exact ⟨x, hx, by rw [hload, hsum], hinv'⟩
  · intro w hinv r call hcall
    obtain ⟨x, hx, hquiet, hsum, hinv'⟩ := hlater ⟨w.replicaBudgets r, w.attrs⟩ hinv call hcall
    exact ⟨x, hx, hquiet, by rw [hload, hsum], hinv'⟩

theorem measures_pendingInput :
    Measures encode (World.getPendingInputTokensReplica : World n κ → Fin n → ℤ)
      (fun _ => True) := by
  refine @Measures.of_replica n κ _ encode
    (fun replica => (replica.pendingRequests.map (fun req => (req.inputIds.length : ℤ))).sum)
    (fun _ => True) ?_ ?_
  · intro s _ request now
    rcases addRequest_after s request now with hrefused | ⟨-, hadmitted⟩
    · rw [hrefused]
      exact ⟨0, ⟨le_rfl, Int.natCast_nonneg _⟩, (add_zero _).symm, trivial⟩
    · rw [hadmitted]
      refine ⟨request.inputIds.length, ⟨Int.natCast_nonneg _, le_rfl⟩, ?_, trivial⟩
      simp [ReplicaState.admitted, Replica.cleanupOldRequests]
  · intro s _ call hcall
    obtain ⟨-, ⟨hpending, -⟩ | ⟨request, hends, hmem, hpending, -⟩⟩ :=
      later_after encode s hcall
    · rw [hpending]
      exact ⟨0, le_rfl, fun _ => rfl, (sub_zero _).symm, trivial⟩
    · refine ⟨request.inputIds.length, Int.natCast_nonneg _, fun hnone => ?_, ?_, trivial⟩
      · rw [hends] at hnone
        cases hnone
      -- the request that is ended takes its input tokens off the sum
      · have hperm := (List.perm_cons_erase hmem).map (fun req => (req.inputIds.length : ℤ))
        rw [hpending, hperm.sum_eq, List.map_cons, List.sum_cons, add_sub_cancel_left]

/-- The budget that is in use at a replica. -/
def budgetInUse (budget : ℤ) (w : World n κ) (replicaId : Fin n) : ℤ :=
  budget - (w.replicaBudgets replicaId).currentBudget

theorem measures_budgetInUse (budget : ℤ) :
    Measures encode (budgetInUse budget : World n κ → Fin n → ℤ)
      (fun w => ∀ request, 0 ≤ (w.attrs request).actualNumPrefillTokens) := by
  refine @Measures.of_replica n κ _ encode (fun replica => budget - replica.currentBudget)
    (fun attrs => ∀ request, 0 ≤ (attrs request).actualNumPrefillTokens) ?_ ?_
  · intro s hattrs request now
    rcases addRequest_after s request now with hrefused | ⟨-, hadmitted⟩
    · rw [hrefused]
      exact ⟨0, ⟨le_rfl, Int.natCast_nonneg _⟩, (add_zero _).symm, hattrs⟩
    · rw [hadmitted]
      -- an admission takes as much off the budget as has to be recomputed, at most the whole prompt
      have hnonneg : 0 ≤ s.replica.numRecomputeTokenIds request.inputIds :=
        numRecomputeTokens_nonneg _ _
      refine ⟨s.replica.numRecomputeTokenIds request.inputIds,
        ⟨hnonneg, numRecomputeTokens_le _ _⟩, ?_, fun r => ?_⟩
      · show budget - (s.replica.currentBudget - _) = _
        ring
      · show 0 ≤ (Function.update s.attrs request _ r).actualNumPrefillTokens
        by_cases hr : r = request
        · rw [hr, Function.update_self]
          exact hnonneg
        · rw [Function.update_of_ne hr]
          exact hattrs r
  · intro s hattrs call hcall
    obtain ⟨hsame, ⟨-, hbudget⟩ | ⟨request, hends, -, -, hbudget⟩⟩ :=
      later_after encode s hcall
    · rw [hbudget, hsame]
      exact ⟨0, le_rfl, fun _ => rfl, (sub_zero _).symm, hattrs⟩
    · rw [hbudget, hsame]
      refine ⟨(s.attrs request).actualNumPrefillTokens, hattrs request, fun hnone => ?_, ?_, hattrs⟩
      · rw [hends] at hnone
        cases hnone
      · ring

end Calls

/-! ## The schedulers -/

section Schedulers

variable [LookupCache κ] {encode : String → Except PyException (List ℕ)} {k M : ℕ}
  {w : World n κ} {s s' : BalanceState n κ}

omit [LookupCache κ] in
theorem minPending_chooses (hn : 0 < n) :
    Chooses (MinPendingInputGlobalScheduler.schedule :
        Option Request → Py (World n κ) (Option ℤ))
      World.getPendingInputTokensReplica (fun _ => True) M 0 := by
  refine ⟨fun w request _ _ => ?_⟩
  obtain ⟨r, hrun, hleast⟩ := MinPendingInputGlobalScheduler.schedule_spec hn (some request) w
  exact ⟨r, w, hrun, trivial, rfl, fun j => by rw [add_zero]; exact hleast j⟩

/-- The budget left says what is in use, up to the tokens of the prompt. -/
theorem minTtft_chooses (hn : 0 < n) (env : MinTTFTGlobalScheduler.Env) (budget : ℤ) :
    Chooses (MinTTFTGlobalScheduler.schedule env : Option Request → Py (World n κ) (Option ℤ))
      (budgetInUse budget) (fun w => ∀ request, 0 ≤ (w.attrs request).actualNumPrefillTokens)
      M M := by
  refine ⟨fun w request hattrs hshort => ?_⟩
  obtain ⟨r, w', hrun, hreads, hmost⟩ :=
    MinTTFTGlobalScheduler.schedule_spec hn env request w
  refine ⟨r, w', hrun, ?_, ?_, fun j => ?_⟩
  · rw [hreads.attrs]
    exact hattrs
  · funext j
    obtain ⟨t, ht⟩ := hreads.replicaBudgets j
    rw [budgetInUse, ht, budgetInUse]
  -- the budget left after the request is the largest, and the request costs at most `M`
  · have hleft := hmost j
    have hnonneg : 0 ≤ w.recomputeLen r request := numRecomputeTokens_nonneg _ _
    have hle : w.recomputeLen j request ≤ request.inputIds.length := numRecomputeTokens_le _ _
    have hM : (request.inputIds.length : ℤ) ≤ M := by exact_mod_cast hshort
    unfold MinTTFTGlobalScheduler.budgetLeft at hleft
    unfold budgetInUse
    linarith

/-- Two replicas without requests. -/
def idleWorld : World 2 SmallStore :=
  .init (fun _ => replicaWithBudget 100) (fun _ => { actualNumPrefillTokens := 0 })

/-- A request of one token is sent to a replica. -/
def afterSchedule (schedule : Option Request → Py (World 2 SmallStore) (Option ℤ)) (id : ℕ)
    (replicaId : Fin 2) (s : BalanceState 2 SmallStore) : BalanceState 2 SmallStore where
  world := Py.finalState (schedule (some (oneTokenRequest id)) s.world)
  underway := (replicaId, oneTokenRequest id) ::ₘ s.underway
  sent := s.sent ++ [(replicaId, oneTokenRequest id)]

/-- Its response headers arrive. -/
def afterAdmit (id : ℕ) (replicaId : Fin 2) (s : BalanceState 2 SmallStore) :
    BalanceState 2 SmallStore :=
  { s with
    world := onReplica ReplicaState.silentTokenizer replicaId
      (.addRequest (some (oneTokenRequest id)) 0) s.world
    underway := s.underway.erase (replicaId, oneTokenRequest id) }

/-- Under `MinPendingInputGlobalScheduler`, whatever the interleaving: every request gets a
replica; no replica has more input tokens than its share of the peak of all, up to those of `k`
prompts; and while none is ended, a replica that gets requests has no more than any other one,
up to as much. -/
theorem min_pending_balanced (hn : 0 < n) (hidle : ∀ r, (w.replicaBudgets r).pendingRequests = [])
    {T : ℤ} (hT : 0 ≤ T)
    (hrun : RunsUpTo MinPendingInputGlobalScheduler.schedule encode
      World.getPendingInputTokensReplica k M T w s)
    (hburst : Relation.ReflTransGen
      (BalanceStep MinPendingInputGlobalScheduler.schedule encode k M Quiet) s s') :
    (∀ request, ∃ r : Fin n, MinPendingInputGlobalScheduler.schedule (some request) s.world =
      .ok (some ((r : ℕ) : ℤ)) s.world) ∧
    (∀ r, n * (s.world.getPendingInputTokensReplica r + s.tokensUnderway r) ≤
      T + n * (k * M)) ∧
    ∀ r, (∃ request, (r, request) ∈ s'.sent.drop s.sent.length) → ∀ r',
      s'.world.getPendingInputTokensReplica r + s'.tokensUnderway r ≤
        s'.world.getPendingInputTokensReplica r' + k * M := by
  have hempty : ∀ r, w.getPendingInputTokensReplica r = 0 := by
    intro r
    rw [World.getPendingInputTokensReplica, hidle r]
    rfl
  have hbalanced := run_balanced measures_pendingInput (minPending_chooses hn) le_rfl trivial
    hempty hT hrun hburst
  simp only [add_zero] at hbalanced
  refine ⟨fun request => ?_, hbalanced⟩
  obtain ⟨r, hchosen, -⟩ :=
    MinPendingInputGlobalScheduler.schedule_spec hn (some request) s.world
  exact ⟨r, hchosen⟩

/-- The first request is at the first replica when the second one comes, which goes to the other
replica. -/
theorem min_pending_balanced_oneAdmitted :
    let schedule := @MinPendingInputGlobalScheduler.schedule 2 SmallStore
    let s := afterAdmit 1 0 (afterSchedule schedule 1 0 ⟨idleWorld, 0, []⟩)
    let s' := afterSchedule schedule 2 1 s
    (1, oneTokenRequest 2) ∈ s'.sent.drop s.sent.length ∧
      ∀ r', s'.world.getPendingInputTokensReplica 1 + s'.tokensUnderway 1 ≤
        s'.world.getPendingInputTokensReplica r' + ((1 : ℕ) : ℤ) * ((1 : ℕ) : ℤ) := by
  intro schedule s s'
  have hsent : RunsUpTo schedule ReplicaState.silentTokenizer
      World.getPendingInputTokensReplica 1 1 1 idleWorld
      (afterSchedule schedule 1 0 ⟨idleWorld, 0, []⟩) :=
    .single ⟨.schedule (by decide +kernel) (by decide +kernel) rfl, by decide +kernel⟩
  have hrun : RunsUpTo schedule ReplicaState.silentTokenizer
      World.getPendingInputTokensReplica 1 1 1 idleWorld s :=
    hsent.tail ⟨.arrive 0 (by decide +kernel), by decide +kernel⟩
  have hnew : (1, oneTokenRequest 2) ∈ s'.sent.drop s.sent.length := List.mem_singleton_self _
  refine ⟨hnew, (min_pending_balanced two_pos ?_ zero_le_one hrun (.single ?_)).2.2 1 ⟨_, hnew⟩⟩
  · decide
  · exact .schedule (by decide +kernel) (by decide +kernel) rfl

/-- Under `MinTTFTGlobalScheduler`, whatever the interleaving: every request gets a replica; no
replica has more of its budget in use than its share of the peak of all, up to `k + 1` prompts;
and while no request is ended, a replica that gets requests has no more in use than any other
one, up to as much. -/
theorem min_ttft_balanced (hn : 0 < n) (env : MinTTFTGlobalScheduler.Env) {budget : ℤ}
    (hidle : ∀ r, (w.replicaBudgets r).currentBudget = budget)
    (hattrs : ∀ request, 0 ≤ (w.attrs request).actualNumPrefillTokens) {T : ℤ} (hT : 0 ≤ T)
    (hrun : RunsUpTo (MinTTFTGlobalScheduler.schedule env) encode (budgetInUse budget) k M T w s)
    (hburst : Relation.ReflTransGen
      (BalanceStep (MinTTFTGlobalScheduler.schedule env) encode k M Quiet) s s') :
    (∀ request, ∃ (r : Fin n) (w' : World n κ),
      MinTTFTGlobalScheduler.schedule env (some request) s.world =
        .ok (some ((r : ℕ) : ℤ)) w') ∧
    (∀ r, n * (budgetInUse budget s.world r + s.tokensUnderway r) ≤
      T + n * ((k + 1) * M)) ∧
    ∀ r, (∃ request, (r, request) ∈ s'.sent.drop s.sent.length) → ∀ r',
      budgetInUse budget s'.world r + s'.tokensUnderway r ≤
        budgetInUse budget s'.world r' + (k + 1) * M := by
  have hunused : ∀ r, budgetInUse budget w r = 0 := by
    intro r
    rw [budgetInUse, hidle r, sub_self]
  have hbalanced := run_balanced (measures_budgetInUse budget) (minTtft_chooses hn env budget)
    (Int.natCast_nonneg M) hattrs hunused hT hrun hburst
  have hbound : ((k : ℤ) + 1) * M = k * M + M := by ring
  refine ⟨fun request => ?_, ?_⟩
  · obtain ⟨r, w', hchosen, -, -⟩ :=
      MinTTFTGlobalScheduler.schedule_spec hn env request s.world
    exact ⟨r, w', hchosen⟩
  · rw [hbound]
    exact hbalanced

/-- The clock stands still, and the first of the candidates is taken. -/
def stillEnv : MinTTFTGlobalScheduler.Env where
  perfCounter := fun _ => 0
  choice := fun _ h => ⟨0, h⟩

/-- The same with the budget in use. -/
theorem min_ttft_balanced_oneAdmitted :
    let schedule := @MinTTFTGlobalScheduler.schedule 2 SmallStore _ stillEnv
    let s := afterAdmit 1 0 (afterSchedule schedule 1 0 ⟨idleWorld, 0, []⟩)
    let s' := afterSchedule schedule 2 1 s
    (1, oneTokenRequest 2) ∈ s'.sent.drop s.sent.length ∧
      ∀ r', budgetInUse 100 s'.world 1 + s'.tokensUnderway 1 ≤
        budgetInUse 100 s'.world r' + (((1 : ℕ) : ℤ) + 1) * ((1 : ℕ) : ℤ) := by
  intro schedule s s'
  -- the first request is admitted before the second one is scheduled
  have hsent : RunsUpTo schedule ReplicaState.silentTokenizer (budgetInUse 100) 1 1 1 idleWorld
      (afterSchedule schedule 1 0 ⟨idleWorld, 0, []⟩) :=
    .single ⟨.schedule (by decide +kernel) (by decide +kernel) rfl, by decide +kernel⟩
  have hrun : RunsUpTo schedule ReplicaState.silentTokenizer (budgetInUse 100) 1 1 1
      idleWorld s :=
    hsent.tail ⟨.arrive 0 (by decide +kernel), by decide +kernel⟩
  have hnew : (1, oneTokenRequest 2) ∈ s'.sent.drop s.sent.length := List.mem_singleton_self _
  refine ⟨hnew, (min_ttft_balanced two_pos stillEnv ?_ ?_ zero_le_one hrun (.single ?_)).2.2 1
    ⟨_, hnew⟩⟩
  · decide
  · exact fun _ => le_rfl
  · have hchosen : schedule (some (oneTokenRequest 2)) s.world =
        .ok (some (((1 : Fin 2) : ℕ) : ℤ)) s'.world := by
      with_unfolding_all rfl
    exact .schedule (by decide +kernel) (by decide +kernel) hchosen

end Schedulers

end DualMap.Scheduler
