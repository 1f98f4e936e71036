import DualMap.Entities.Replica
import DualMap.Foundation.Ledger
import DualMap.Cache.BlockPool
import Mathlib.Algebra.Order.Ring.Int
import Mathlib.Data.Int.ConditionallyCompleteOrder

/-!
# Budget Accounting of a Replica

The budget of a replica and the requests pending there form a reservation ledger: admission
reserves the recompute length of the request, and the end of its prefill or an abort gives
exactly that back. Every method takes steps of the ledger (`Ledger.Step`), however often it
is called, for whatever request, and also when the cache raises.
-/

namespace DualMap.ReplicaState

open Cache

variable {κ : Type}

/-! ## The ledger of a replica -/

/-- The budget, the pending requests and the amounts written in them. -/
def ledger (s : ReplicaState κ) : Ledger Request ℤ where
  available := s.replica.currentBudget
  reserved := s.replica.pendingRequests
  amount := fun request => (s.attrs request).actualNumPrefillTokens

/-- The ledger is balanced with the budget that the replica was created with, and no
request runs twice. -/
structure Accounted (total : ℤ) (s : ReplicaState κ) : Prop where
  balanced : s.ledger.Balanced total
  budget : s.replica.replicaSloBudget = total
  running : s.replica.runningRequests.Nodup

theorem init_accounted (replicaSloBudget : ℤ) (blockSize : ℕ) (cache : κ)
    (attrs : Request → RequestAttrs) :
    Accounted replicaSloBudget ⟨Replica.init replicaSloBudget blockSize cache, attrs⟩ where
  balanced := ⟨by simp [ledger, Ledger.held, Replica.init], List.nodup_nil,
    by simp [ledger, Replica.init]⟩
  budget := rfl
  running := List.nodup_nil

/-- Accounts are kept by a step of the ledger that leaves the running requests distinct. -/
theorem Accounted.step {total : ℤ} {s s' : ReplicaState κ} (h : s.Accounted total)
    (hledger : Ledger.Step s.ledger s'.ledger)
    (hbudget : s'.replica.replicaSloBudget = s.replica.replicaSloBudget)
    (hrunning : s'.replica.runningRequests.Nodup) : s'.Accounted total where
  balanced := hledger.balanced h.balanced
  budget := hbudget.trans h.budget
  running := hrunning

/-- Changing the cache or a clock reading leaves the accounts as they are. -/
theorem Accounted.of_same {total : ℤ} {s s' : ReplicaState κ} (h : s.Accounted total)
    (hledger : s'.ledger = s.ledger)
    (hbudget : s'.replica.replicaSloBudget = s.replica.replicaSloBudget)
    (hrunning : s'.replica.runningRequests = s.replica.runningRequests) :
    s'.Accounted total where
  balanced := by rw [hledger]; exact h.balanced
  budget := hbudget.trans h.budget
  running := by rw [hrunning]; exact h.running

/-- So does writing in the requests, but for the amounts of the pending ones. -/
theorem Accounted.of_attrs {total : ℤ} {s : ReplicaState κ} (h : s.Accounted total)
    {attrs : Request → RequestAttrs} (hattrs : ∀ request ∈ s.replica.pendingRequests,
      (attrs request).actualNumPrefillTokens = (s.attrs request).actualNumPrefillTokens) :
    Accounted total { s with attrs := attrs } :=
  h.step (Ledger.Step.write hattrs) rfl h.running

/-! ## What the methods do -/

/-- The replica with another cache, and nothing else changed. -/
def withCache (s : ReplicaState κ) (cache : κ) : ReplicaState κ :=
  { s with replica := { s.replica with cache := cache } }

/-- Code on the cache changes the cache and nothing else, whether it returns or raises. -/
theorem onCache_cases {α : Type} (code : Py κ α) (s : ReplicaState κ) :
    ∃ cache,
      (∃ value, code s.replica.cache = .ok value cache ∧
        Replica.onCache code s = .ok value (s.withCache cache)) ∨
      ∃ fault, code s.replica.cache = .error fault cache ∧
        Replica.onCache code s = .error fault (s.withCache cache) := by
  -- a fault of the cache keeps the changes it has made
  cases hcode : code s.replica.cache with
  | ok value cache => exact ⟨cache, Or.inl ⟨value, rfl, Py.zoom_ok hcode⟩⟩
  | error fault cache => exact ⟨cache, Or.inr ⟨fault, rfl, Py.zoom_error hcode⟩⟩

theorem saveTokenIds_cases [PrefixCache κ] (tokenIds : List ℕ) (s : ReplicaState κ) :
    ∃ cache,
      (∃ value, PrefixCache.save tokenIds s.replica.cache = .ok value cache ∧
        Replica.saveTokenIds tokenIds s =
          .ok (value * s.replica.blockSize) (s.withCache cache)) ∨
      ∃ fault, PrefixCache.save tokenIds s.replica.cache = .error fault cache ∧
        Replica.saveTokenIds tokenIds s = .error fault (s.withCache cache) := by
  obtain ⟨cache, ⟨value, hsave, h⟩ | ⟨fault, hsave, h⟩⟩ :=
    onCache_cases (PrefixCache.save tokenIds) s
  · refine ⟨cache, Or.inl ⟨value, hsave, ?_⟩⟩
    rw [Replica.saveTokenIds, Py.bind_ok h]
    rfl
  · refine ⟨cache, Or.inr ⟨fault, hsave, ?_⟩⟩
    rw [Replica.saveTokenIds, Py.bind_error h]

theorem savePrefillTokenIds_cases [PrefixCache κ] (requestId : ℕ) (tokenIds : List ℕ)
    (s : ReplicaState κ) :
    ∃ cache,
      (∃ value, PrefixCache.savePrefill requestId tokenIds s.replica.cache = .ok value cache ∧
        Replica.savePrefillTokenIds requestId tokenIds s =
          .ok (value * s.replica.blockSize) (s.withCache cache)) ∨
      ∃ fault, PrefixCache.savePrefill requestId tokenIds s.replica.cache =
          .error fault cache ∧
        Replica.savePrefillTokenIds requestId tokenIds s =
          .error fault (s.withCache cache) := by
  obtain ⟨cache, ⟨value, hsave, h⟩ | ⟨fault, hsave, h⟩⟩ :=
    onCache_cases (PrefixCache.savePrefill requestId tokenIds) s
  · refine ⟨cache, Or.inl ⟨value, hsave, ?_⟩⟩
    rw [Replica.savePrefillTokenIds, Py.bind_ok h]
    rfl
  · refine ⟨cache, Or.inr ⟨fault, hsave, ?_⟩⟩
    rw [Replica.savePrefillTokenIds, Py.bind_error h]

/-- The state after a request was admitted with so many tokens to compute. -/
def admitted (s : ReplicaState κ) (request : Request) (tokens : ℤ) (now : ℚ) :
    ReplicaState κ where
  replica := Replica.cleanupOldRequests { s.replica with
    currentBudget := s.replica.currentBudget - tokens
    pendingRequests := s.replica.pendingRequests ++ [request]
    requestTimestamps := s.replica.requestTimestamps ++ [now] } now
  attrs := Function.update s.attrs request
    { s.attrs request with actualNumPrefillTokens := tokens }

/-- `add_request` admits a request that is not pending, or does nothing. -/
theorem addRequest_cases [PrefixCache κ] (request : Option Request) (now : ℚ)
    (s : ReplicaState κ) :
    Replica.addRequest request now s = .ok false s ∨
      ∃ r tokens, request = some r ∧ r ∉ s.replica.pendingRequests ∧ 0 ≤ tokens ∧
        Replica.addRequest request now s = .ok true (s.admitted r tokens now) := by
  cases request with
  | none => exact Or.inl rfl
  | some r =>
    by_cases hmem : r ∈ s.replica.pendingRequests
    -- it is pending already
    · left
      simp [Replica.addRequest, Py.tryExcept, Py.bind_apply, hmem]
    · cases htokens : s.replica.getNumRecomputeTokenIds r.inputIds with
      | error e =>
        -- the look-up raised: the handler returns `False`
        left
        simp [Replica.addRequest, Py.tryExcept, Py.bind_apply, hmem, htokens, Py.ofExcept]
      | ok tokens =>
        right
        refine ⟨r, tokens, rfl, hmem, ?_, ?_⟩
        · exact Replica.getNumRecomputeTokenIds_nonneg htokens
        · simp [Replica.addRequest, Py.tryExcept, Py.bind_apply, Py.map_apply, hmem, htokens,
            Py.ofExcept, admitted]

/-- With a cache whose look-ups do not raise, every request that is not pending is
admitted. -/
theorem addRequest_admits [LookupCache κ] {request : Request} {s : ReplicaState κ}
    (hnew : request ∉ s.replica.pendingRequests) (now : ℚ) :
    Replica.addRequest (some request) now s =
      .ok true (s.admitted request (s.replica.numRecomputeTokenIds request.inputIds) now) := by
  simp [Replica.addRequest, Py.tryExcept, Py.bind_apply, Py.map_apply, hnew,
    Replica.getNumRecomputeTokenIds_eq, Py.ofExcept, admitted]

/-- The state after the prefill of a pending request. -/
def prefilled (s : ReplicaState κ) (request : Request) (ttft now : ℚ) : ReplicaState κ :=
  { s with replica := { s.replica with
    receivedFirstReq := true
    currentBudget := s.replica.currentBudget + (s.attrs request).actualNumPrefillTokens
    pendingRequests := s.replica.pendingRequests.erase request
    lastPrefillCompletedAt := now
    lastTtft := pyRound 4 ttft
    runningRequests :=
      if request ∉ s.replica.runningRequests then s.replica.runningRequests ++ [request]
      else s.replica.runningRequests } }

/-- `complete_request_prefill` saves the prompt. When that does not raise, a pending
request starts to run. -/
theorem completeRequestPrefill_cases [PrefixCache κ] (request : Request) (ttft now : ℚ)
    (s : ReplicaState κ) :
    ∃ cache,
      (∃ fault, PrefixCache.savePrefill request.id request.inputIds s.replica.cache =
          .error fault cache ∧
        Replica.completeRequestPrefill (some request) ttft now s =
          .error fault (s.withCache cache)) ∨
      ∃ value, PrefixCache.savePrefill request.id request.inputIds s.replica.cache =
          .ok value cache ∧
        ((request ∈ s.replica.pendingRequests ∧
          Replica.completeRequestPrefill (some request) ttft now s =
            .ok true ((s.withCache cache).prefilled request ttft now)) ∨
        (request ∉ s.replica.pendingRequests ∧
          Replica.completeRequestPrefill (some request) ttft now s =
            .ok false { s with replica :=
              { (s.withCache cache).replica with receivedFirstReq := true } })) := by
  obtain ⟨cache, ⟨value, hsave, h⟩ | ⟨fault, hsave, h⟩⟩ :=
    savePrefillTokenIds_cases request.id request.inputIds s
  · refine ⟨cache, Or.inr ⟨value, hsave, ?_⟩⟩
    by_cases hmem : request ∈ s.replica.pendingRequests
    · refine Or.inl ⟨hmem, ?_⟩
      rw [Replica.completeRequestPrefill, Py.bind_ok h]
      -- whether it is running already decides if it is listed there once more
      by_cases hrunning : request ∈ s.replica.runningRequests
      · simp [Py.bind_apply, Py.map_apply, withCache, hmem, prefilled, hrunning]
      · simp [Py.bind_apply, Py.map_apply, withCache, hmem, prefilled, hrunning]
    · refine Or.inr ⟨hmem, ?_⟩
      rw [Replica.completeRequestPrefill, Py.bind_ok h]
      simp [Py.bind_apply, Py.map_apply, withCache, hmem]
  · refine ⟨cache, Or.inl ⟨fault, hsave, ?_⟩⟩
    rw [Replica.completeRequestPrefill, Py.bind_error h]

/-- The replica without the request among the running ones. -/
def finished (s : ReplicaState κ) (request : Request) : ReplicaState κ :=
  { s with replica := { s.replica with
    runningRequests := s.replica.runningRequests.erase request } }

/-- `complete_request_decode` takes the request out of the running ones; what follows
changes the cache at most, and may raise. -/
theorem completeRequestDecode_cases [PrefixCache κ]
    (encode : String → Except PyException (List ℕ)) (request : Request) (outputText : String)
    (s : ReplicaState κ) :
    ∃ cache,
      (∃ outputTokenIds value, encode outputText = .ok outputTokenIds ∧
        PrefixCache.save (request.inputIds ++ outputTokenIds) s.replica.cache =
          .ok value cache ∧
        Replica.completeRequestDecode encode (some request) outputText s =
          .ok () ((s.finished request).withCache cache)) ∨
      ∃ fault, ((∃ e, encode outputText = .error e) ∨
          ∃ tokenIds, PrefixCache.save tokenIds s.replica.cache = .error fault cache) ∧
        Replica.completeRequestDecode encode (some request) outputText s =
          .error fault ((s.finished request).withCache cache) := by
  cases hencode : encode outputText with
  | error e =>
    -- the tokenizer raised, so nothing is saved
    refine ⟨s.replica.cache, Or.inr ⟨.exception e, Or.inl ⟨e, rfl⟩, ?_⟩⟩
    simp [Replica.completeRequestDecode, Py.bind_apply, hencode, Py.ofExcept, finished,
      withCache]
  | ok outputTokenIds =>
    obtain ⟨cache, ⟨value, hsave, h⟩ | ⟨fault, hsave, h⟩⟩ :=
      saveTokenIds_cases (request.inputIds ++ outputTokenIds) (s.finished request)
    · refine ⟨cache, Or.inl ⟨outputTokenIds, value, rfl, hsave, ?_⟩⟩
      simp only [finished] at h
      simp [Replica.completeRequestDecode, Py.bind_apply, Py.map_apply, hencode, Py.ofExcept, h,
        finished, withCache]
    · refine ⟨cache, Or.inr ⟨fault, Or.inr ⟨_, hsave⟩, ?_⟩⟩
      simp only [finished] at h
      simp [Replica.completeRequestDecode, Py.bind_apply, Py.map_apply, hencode, Py.ofExcept, h,
        finished, withCache]

/-- The replica without the request among the pending ones, with its budget given back. -/
def dropped (s : ReplicaState κ) (request : Request) : ReplicaState κ :=
  if request ∈ s.replica.pendingRequests then
    { s with replica := { s.replica with
      currentBudget := s.replica.currentBudget + (s.attrs request).actualNumPrefillTokens
      pendingRequests := s.replica.pendingRequests.erase request } }
  else s

/-- `abort_request` never raises and takes the request out of both lists. -/
theorem abortRequest_eq (request : Request) (s : ReplicaState κ) :
    ∃ res, Replica.abortRequest (some request) s =
      .ok res ((s.dropped request).finished request) := by
  -- the four cases of being pending and running; the result says whether it was either
  by_cases hpending : request ∈ s.replica.pendingRequests
  · by_cases hrunning : request ∈ s.replica.runningRequests
    · exact ⟨true, by simp [Replica.abortRequest, Py.bind_apply, Py.map_apply, hpending,
        hrunning, dropped, finished]⟩
    · exact ⟨true, by simp [Replica.abortRequest, Py.bind_apply, Py.map_apply, hpending,
        hrunning, dropped, finished, List.erase_of_not_mem]⟩
  · by_cases hrunning : request ∈ s.replica.runningRequests
    · exact ⟨true, by simp [Replica.abortRequest, Py.bind_apply, Py.map_apply, hpending,
        hrunning, dropped, finished]⟩
    · exact ⟨false, by simp [Replica.abortRequest, Py.bind_apply, Py.map_apply, hpending,
        hrunning, dropped, finished, List.erase_of_not_mem]⟩

/-! ## The methods keep the accounts -/

theorem Accounted.withCache {total : ℤ} {s : ReplicaState κ} (h : s.Accounted total) (cache : κ) :
    (s.withCache cache).Accounted total :=
  h.of_same rfl rfl rfl

theorem Accounted.admitted {total : ℤ} {s : ReplicaState κ} (h : s.Accounted total)
    {request : Request} {tokens : ℤ} (hnew : request ∉ s.replica.pendingRequests)
    (htokens : 0 ≤ tokens) (now : ℚ) :
    (s.admitted request tokens now).Accounted total := by
  have hledger : (s.admitted request tokens now).ledger =
      s.ledger.reserve request tokens := by
    -- the amount is written in the request that is admitted, and nowhere else
    have hamount : (fun r => (Function.update s.attrs request
        { s.attrs request with actualNumPrefillTokens := tokens } r).actualNumPrefillTokens) =
        Function.update (fun r => (s.attrs r).actualNumPrefillTokens) request tokens := by
      funext r
      by_cases hr : r = request
      · subst hr
        simp
      · simp [hr]
    simp only [ledger, ReplicaState.admitted, Replica.cleanupOldRequests, Ledger.reserve]
    rw [hamount]
  have hreserve : Ledger.Step s.ledger (s.admitted request tokens now).ledger := by
    rw [hledger]
    exact Ledger.Step.reserve hnew htokens
  exact h.step hreserve rfl h.running

theorem Accounted.prefilled {total : ℤ} {s : ReplicaState κ} (h : s.Accounted total)
    {request : Request} (hmem : request ∈ s.replica.pendingRequests) (ttft now : ℚ) :
    (s.prefilled request ttft now).Accounted total := by
  have hrelease : Ledger.Step s.ledger (s.prefilled request ttft now).ledger :=
    Ledger.Step.release hmem
  apply h.step hrelease rfl
  show (if request ∉ s.replica.runningRequests then s.replica.runningRequests ++ [request]
    else s.replica.runningRequests).Nodup
  split
  · next hnot =>
    -- the request joins the running ones at the end
    apply List.nodup_append.mpr
    refine ⟨h.running, List.nodup_singleton request, ?_⟩
    intro a ha b hb hab
    rw [List.mem_singleton.mp hb] at hab
    exact hnot (hab ▸ ha)
  · exact h.running

theorem Accounted.finished {total : ℤ} {s : ReplicaState κ} (h : s.Accounted total)
    (request : Request) :
    (s.finished request).Accounted total where
  balanced := h.balanced
  budget := h.budget
  running := h.running.erase request

theorem Accounted.dropped {total : ℤ} {s : ReplicaState κ} (h : s.Accounted total)
    (request : Request) :
    (s.dropped request).Accounted total := by
  unfold ReplicaState.dropped
  split
  · next hmem => exact h.step (Ledger.Step.release hmem) rfl h.running
  · exact h

/-- The methods that change the accounts. -/
inductive Call where
  | addRequest (request : Option Request) (now : ℚ)
  | completeRequestPrefill (request : Option Request) (ttft now : ℚ)
  | completeRequestDecode (request : Option Request) (outputText : String)
  | abortRequest (request : Option Request)

/-- The state that a call leaves, whether it returns or raises. -/
def Call.after [PrefixCache κ] (encode : String → Except PyException (List ℕ))
    (s : ReplicaState κ) : Call → ReplicaState κ
  | .addRequest request now => Py.finalState (Replica.addRequest request now s)
  | .completeRequestPrefill request ttft now =>
    Py.finalState (Replica.completeRequestPrefill request ttft now s)
  | .completeRequestDecode request outputText =>
    Py.finalState (Replica.completeRequestDecode encode request outputText s)
  | .abortRequest request => Py.finalState (Replica.abortRequest request s)

theorem Call.after_accounted [PrefixCache κ] (encode : String → Except PyException (List ℕ))
    {total : ℤ} {s : ReplicaState κ} (h : s.Accounted total) (call : Call) :
    (call.after encode s).Accounted total := by
  cases call with
  | addRequest request now =>
    rcases addRequest_cases request now s with heq | ⟨r, tokens, -, hnew, htokens, heq⟩
    · simpa [Call.after, heq] using h
    · simpa [Call.after, heq] using h.admitted hnew htokens now
  | completeRequestPrefill request ttft now =>
    cases request with
    | none => exact h
    | some r =>
      obtain ⟨cache, ⟨fault, -, heq⟩ | ⟨value, -, ⟨hmem, heq⟩ | ⟨-, heq⟩⟩⟩ :=
        completeRequestPrefill_cases r ttft now s
      · simpa [Call.after, heq] using h.withCache cache
      -- the cache was written first
      · have hprefilled := (h.withCache cache).prefilled hmem ttft now
        simpa [Call.after, heq] using hprefilled
      · have hsame : Accounted total { s with replica :=
            { (s.withCache cache).replica with receivedFirstReq := true } } :=
          h.of_same rfl rfl rfl
        simpa [Call.after, heq] using hsame
  | completeRequestDecode request outputText =>
    cases request with
    | none => exact h
    | some r =>
      obtain ⟨cache, ⟨outputTokenIds, value, -, -, heq⟩ | ⟨fault, -, heq⟩⟩ :=
        completeRequestDecode_cases encode r outputText s
      · simpa [Call.after, heq] using (h.finished r).withCache cache
      · simpa [Call.after, heq] using (h.finished r).withCache cache
  | abortRequest request =>
    cases request with
    | none => exact h
    | some r =>
      obtain ⟨res, heq⟩ := abortRequest_eq r s
      simpa [Call.after, heq] using (h.dropped r).finished r

/-! ## What a call leaves alone -/

/-- The request that a call is about. -/
def Call.request : Call → Option Request
  | .addRequest request _ => request
  | .completeRequestPrefill request _ _ => request
  | .completeRequestDecode request _ => request
  | .abortRequest request => request

/-- From `s` to `s'` only the given request may become pending, only it is written in, and
its assignment to a replica stays. -/
structure Touches (request : Option Request) (s s' : ReplicaState κ) : Prop where
  pending : ∀ r ∈ s'.replica.pendingRequests,
    r ∈ s.replica.pendingRequests ∨ request = some r
  attrs : ∀ r, request ≠ some r → s'.attrs r = s.attrs r
  primary : ∀ r, (s'.attrs r).primaryReplica = (s.attrs r).primaryReplica

theorem Touches.of_attrs {request : Option Request} {s s' : ReplicaState κ}
    (hattrs : s'.attrs = s.attrs)
    (hpending : s'.replica.pendingRequests ⊆ s.replica.pendingRequests) :
    Touches request s s' where
  pending := fun _ hr => Or.inl (hpending hr)
  attrs := fun r _ => congrFun hattrs r
  primary := fun r => by rw [hattrs]

theorem admitted_touches (s : ReplicaState κ) (request : Request) (tokens : ℤ) (now : ℚ) :
    Touches (some request) s (s.admitted request tokens now) where
  pending := by
    intro r hr
    rcases List.mem_append.mp hr with hold | hnew
    · exact Or.inl hold
    · exact Or.inr (congrArg some (List.mem_singleton.mp hnew).symm)
  attrs := fun r hr => Function.update_of_ne (fun hsame => hr (congrArg some hsame.symm)) ..
  primary := by
    intro r
    by_cases hsame : r = request
    · simp [admitted, hsame]
    · simp [admitted, hsame]

theorem Call.after_touches [PrefixCache κ] (encode : String → Except PyException (List ℕ))
    (s : ReplicaState κ) (call : Call) : Touches call.request s (call.after encode s) := by
  cases call with
  | addRequest request now =>
    rcases addRequest_cases request now s with heq | ⟨r, tokens, rfl, -, -, heq⟩
    · rw [Call.after, heq]
      exact .of_attrs rfl (List.Subset.refl _)
    · rw [Call.after, heq]
      exact admitted_touches s r tokens now
  | completeRequestPrefill request ttft now =>
    cases request with
    | none => exact .of_attrs rfl (List.Subset.refl _)
    | some r =>
      -- the save of the prompt raised, or the request was pending, or it was not
      obtain ⟨cache, ⟨fault, -, heq⟩ | ⟨value, -, ⟨-, heq⟩ | ⟨-, heq⟩⟩⟩ :=
        completeRequestPrefill_cases r ttft now s
      · rw [Call.after, heq]
        exact .of_attrs rfl (List.Subset.refl _)
      · rw [Call.after, heq]
        exact .of_attrs rfl List.erase_subset
      · rw [Call.after, heq]
        exact .of_attrs rfl (List.Subset.refl _)
  | completeRequestDecode request outputText =>
    cases request with
    | none => exact .of_attrs rfl (List.Subset.refl _)
    | some r =>
      obtain ⟨cache, ⟨_, _, -, -, heq⟩ | ⟨fault, -, heq⟩⟩ :=
        completeRequestDecode_cases encode r outputText s
      · rw [Call.after, heq]
        exact .of_attrs rfl (List.Subset.refl _)
      · rw [Call.after, heq]
        exact .of_attrs rfl (List.Subset.refl _)
  | abortRequest request =>
    cases request with
    | none => exact .of_attrs rfl (List.Subset.refl _)
    | some r =>
      obtain ⟨res, heq⟩ := abortRequest_eq r s
      rw [Call.after, heq, Py.finalState_ok]
      -- a request that waits is dropped from the pending ones, any other is not there
      unfold ReplicaState.dropped
      split
      · exact .of_attrs rfl List.erase_subset
      · exact .of_attrs rfl (List.Subset.refl _)

/-- From `s` to `s'` the replica neither admits nor releases the request. -/
structure LeavesListed (request : Request) (s s' : ReplicaState κ) : Prop where
  pending : s'.replica.pendingRequests.count request = s.replica.pendingRequests.count request
  running : s'.replica.runningRequests.count request = s.replica.runningRequests.count request

theorem dropped_leaves (s : ReplicaState κ) {request other : Request} (hother : other ≠ request) :
    LeavesListed other s (s.dropped request) := by
  unfold dropped
  split
  · exact ⟨List.count_erase_of_ne hother, rfl⟩
  · exact ⟨rfl, rfl⟩

theorem count_singleton_of_ne {request other : Request} (hother : other ≠ request) :
    [request].count other = 0 :=
  List.count_eq_zero.mpr (fun hmem => hother (List.mem_singleton.mp hmem))

theorem prefilled_leaves (s : ReplicaState κ) {request other : Request} (hother : other ≠ request)
    (ttft now : ℚ) : LeavesListed other s (s.prefilled request ttft now) where
  pending := List.count_erase_of_ne hother
  running := by
    simp only [prefilled]
    split
    · rw [List.count_append, count_singleton_of_ne hother, Nat.add_zero]
    · rfl

theorem admitted_leaves (s : ReplicaState κ) {request other : Request} (hother : other ≠ request)
    (tokens : ℤ) (now : ℚ) : LeavesListed other s (s.admitted request tokens now) where
  pending := by
    show (s.replica.pendingRequests ++ [request]).count other = _
    rw [List.count_append, count_singleton_of_ne hother, Nat.add_zero]
  running := rfl

/-- A call is about one request. -/
theorem Call.after_leaves [PrefixCache κ] (encode : String → Except PyException (List ℕ))
    (s : ReplicaState κ) (call : Call) {other : Request} (hother : call.request ≠ some other) :
    LeavesListed other s (call.after encode s) := by
  have hsame : LeavesListed other s s := ⟨rfl, rfl⟩
  cases call with
  | addRequest request now =>
    rcases addRequest_cases request now s with heq | ⟨r, tokens, rfl, -, -, heq⟩
    · rw [Call.after, heq]
      exact hsame
    · rw [Call.after, heq]
      exact s.admitted_leaves (fun h => hother (congrArg some h.symm)) tokens now
  | completeRequestPrefill request ttft now =>
    cases request with
    | none => exact hsame
    | some r =>
      obtain ⟨cache, ⟨fault, -, heq⟩ | ⟨value, -, ⟨-, heq⟩ | ⟨-, heq⟩⟩⟩ :=
        completeRequestPrefill_cases r ttft now s
      · rw [Call.after, heq]
        exact ⟨rfl, rfl⟩
      · have hleaves := (s.withCache cache).prefilled_leaves
          (fun h => hother (congrArg some h.symm)) ttft now
        rw [Call.after, heq]
        exact ⟨hleaves.pending, hleaves.running⟩
      · rw [Call.after, heq]
        exact ⟨rfl, rfl⟩
  | completeRequestDecode request outputText =>
    cases request with
    | none => exact hsame
    | some r =>
      -- only the call's own request leaves a list
      have hne : other ≠ r := fun h => hother (congrArg some h.symm)
      obtain ⟨cache, ⟨_, _, -, -, heq⟩ | ⟨fault, -, heq⟩⟩ :=
        completeRequestDecode_cases encode r outputText s
      · rw [Call.after, heq]
        exact ⟨rfl, List.count_erase_of_ne hne⟩
      · rw [Call.after, heq]
        exact ⟨rfl, List.count_erase_of_ne hne⟩
  | abortRequest request =>
    cases request with
    | none => exact hsame
    | some r =>
      have hne : other ≠ r := fun h => hother (congrArg some h.symm)
      obtain ⟨res, heq⟩ := abortRequest_eq r s
      rw [Call.after, heq, Py.finalState_ok]
      have hdropped := s.dropped_leaves hne
      exact ⟨hdropped.pending, (List.count_erase_of_ne hne).trans hdropped.running⟩

/-! ## Runs -/

/-- One step of a run: a call of a method, or a write by others into requests, which never
touches the amount in a request that is pending here. -/
inductive Step [PrefixCache κ] (encode : String → Except PyException (List ℕ)) :
    ReplicaState κ → ReplicaState κ → Prop where
  | call (s : ReplicaState κ) (call : Call) : Step encode s (call.after encode s)
  | others (s : ReplicaState κ) (attrs : Request → RequestAttrs)
      (h : ∀ request ∈ s.replica.pendingRequests,
        (attrs request).actualNumPrefillTokens = (s.attrs request).actualNumPrefillTokens) :
      Step encode s { s with attrs := attrs }

/-- Calls one after the other make a run. -/
theorem run_calls [PrefixCache κ] (encode : String → Except PyException (List ℕ))
    (calls : List Call) (s : ReplicaState κ) :
    Relation.ReflTransGen (Step encode) s (calls.foldl (Call.after encode) s) := by
  induction calls generalizing s with
  | nil => exact .refl
  | cons call calls ih => exact .head (.call s call) (ih _)

theorem Step.accounted [PrefixCache κ] {encode : String → Except PyException (List ℕ)}
    {total : ℤ} {s s' : ReplicaState κ} (h : s.Accounted total) (hstep : Step encode s s') :
    s'.Accounted total := by
  cases hstep with
  | call call => exact call.after_accounted encode h
  | others attrs hattrs => exact h.step (Ledger.Step.write hattrs) rfl h.running

theorem run_accounted [PrefixCache κ] {encode : String → Except PyException (List ℕ)}
    {total : ℤ} {s s' : ReplicaState κ} (h : s.Accounted total)
    (hrun : Relation.ReflTransGen (Step encode) s s') : s'.Accounted total := by
  induction hrun with
  | refl => exact h
  | tail _ hstep ih => exact hstep.accounted ih

/-- In every state that a new replica can reach, the budget and the amounts of the pending
requests add up to the budget it was created with, no request is listed twice, and
`get_num_actual_pending_tokens` is the sum of those amounts. -/
theorem budget_accounting_run [PrefixCache κ]
    (encode : String → Except PyException (List ℕ)) (replicaSloBudget : ℤ) (blockSize : ℕ)
    (cache : κ) (attrs : Request → RequestAttrs) (s : ReplicaState κ)
    (hrun : Relation.ReflTransGen (Step encode)
      ⟨Replica.init replicaSloBudget blockSize cache, attrs⟩ s) :
    s.replica.replicaSloBudget = replicaSloBudget ∧
      s.replica.currentBudget + (s.replica.pendingRequests.map
        (fun request => (s.attrs request).actualNumPrefillTokens)).sum =
          s.replica.replicaSloBudget ∧
      s.replica.pendingRequests.Nodup ∧ s.replica.runningRequests.Nodup ∧
      s.replica.getNumActualPendingTokens = (s.replica.pendingRequests.map
        (fun request => (s.attrs request).actualNumPrefillTokens)).sum := by
  have haccounted := run_accounted (init_accounted replicaSloBudget blockSize cache attrs) hrun
  have hsum : s.replica.currentBudget + (s.replica.pendingRequests.map
      (fun request => (s.attrs request).actualNumPrefillTokens)).sum =
      s.replica.replicaSloBudget := by
    rw [haccounted.budget]
    exact haccounted.balanced.sum
  -- what is reserved was never negative
  have hnonneg : 0 ≤ (s.replica.pendingRequests.map
      (fun request => (s.attrs request).actualNumPrefillTokens)).sum :=
    haccounted.balanced.held_nonneg
  refine ⟨haccounted.budget, hsum, haccounted.balanced.nodup, haccounted.running, ?_⟩
  -- the reserved amounts are not negative, so the maximum with 0 is the difference itself
  rw [Replica.getNumActualPendingTokens, ← hsum, add_sub_cancel_left]
  exact max_eq_left hnonneg

/-- A tokenizer that encodes every text as no tokens. -/
def silentTokenizer (_ : String) : Except PyException (List ℕ) := .ok []

/-- A request with three tokens. -/
def threeTokenRequest : Request where
  id := 1
  hashSessionId := "s"
  inputIds := [5, 6, 7]
  numPrefillTokens := 3
  outputLen := 1
  arrivedAt := 0

/-- The state of a replica with a budget of 10 after one admission. -/
def afterOneAdmission : ReplicaState (PrefixKvCacheStore PrefixKVCacheMgr.encodingRuntime) :=
  Call.after silentTokenizer
    ⟨Replica.init 10 1 (PrefixKvCacheStore.init _ PrefixKVCacheMgr.singleBlockEngine),
      fun _ => { actualNumPrefillTokens := 0 }⟩
    (.addRequest (some threeTokenRequest) 0)

/-- It continues the first request by a token. -/
def fourTokenRequest : Request :=
  { threeTokenRequest with id := 2, inputIds := [5, 6, 7, 8], numPrefillTokens := 4 }

/-- A replica with a budget of 10 and a cache of 128 blocks of one token. -/
def unusedReplica : ReplicaState (PrefixKvCacheStore PrefixKVCacheMgr.encodingRuntime) :=
  ⟨Replica.init 10 1 (PrefixKvCacheStore.init _ ⟨1, 1, 128, Nat.one_pos⟩),
    fun _ => { actualNumPrefillTokens := 0 }⟩

/-- The first request is admitted and runs, then the second one is admitted, and the first one
ends. -/
def twoRequestsCalls : List Call :=
  [.addRequest (some threeTokenRequest) 0, .completeRequestPrefill (some threeTokenRequest) 1 1,
    .addRequest (some fourTokenRequest) 50, .completeRequestDecode (some threeTokenRequest) ""]

def afterTwoRequests : ReplicaState (PrefixKvCacheStore PrefixKVCacheMgr.encodingRuntime) :=
  twoRequestsCalls.foldl (Call.after silentTokenizer) unusedReplica

/-- The second request finds its first three tokens in the cache, and reserves one. -/
theorem budget_accounting_run_twoRequests :
    afterTwoRequests.replica.pendingRequests = [fourTokenRequest] ∧
      afterTwoRequests.replica.runningRequests = [] ∧
      afterTwoRequests.replica.currentBudget = 9 ∧
      afterTwoRequests.replica.currentBudget + (afterTwoRequests.replica.pendingRequests.map
        (fun request => (afterTwoRequests.attrs request).actualNumPrefillTokens)).sum =
          afterTwoRequests.replica.replicaSloBudget := by
  exact ⟨by decide +kernel, by decide +kernel, by decide +kernel,
    (budget_accounting_run silentTokenizer 10 1 _ _ afterTwoRequests
      (run_calls silentTokenizer twoRequestsCalls unusedReplica)).2.1⟩

end DualMap.ReplicaState
