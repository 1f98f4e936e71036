import DualMap.Client.Release
import DualMap.Foundation.RelyGuarantee

/-!
# Many Calls at One Replica

A replica serves any number of calls of `async_send_request` at once, which take turns wherever
one of them waits. What one call relies on (`Others`) the other calls do: they leave its request
alone (`Acts.spares`). So a call whose exchange releases the replica releases it among others as
it would alone (`concurrent_calls`), and when no other call is left, the replica is idle and its
whole budget is free. All this holds whatever the cache and the tokenizer raise. A call whose
exchange does not release the replica may still do so when a save raises; without such an
exception it keeps the replica.

The sum `budgetByOthers` is an auxiliary variable of single calls. Here each call would need one
of its own, so none is kept.
-/

namespace DualMap.Client

open Cache

variable {κ : Type}

/-! ## The operations of a call -/

section Operations

variable [PrefixCache κ] {env : ClientEnv} {request : Request}
  {C : ∀ {β : Type}, Coro (SendState κ) β → Prop}

/-- The operations of a call have the property. -/
structure OfOperations (C : ∀ {β : Type}, Coro (SendState κ) β → Prop) (env : ClientEnv)
    (request : Request) : Prop extends Coro.Compositional C where
  readClock : C (readClock env)
  addRequest : ∀ now, C (call (Replica.addRequest (some request) now))
  completeRequestPrefill : ∀ ttft now,
    C (call (Replica.completeRequestPrefill (some request) ttft now))
  completeRequestDecode : ∀ text,
    C (call (Replica.completeRequestDecode env.encode (some request) text))
  abortRequest : C (call (Replica.abortRequest (some request)))

namespace OfOperations

theorem handleContent (h : OfOperations C env request) (requestStartTime timestamp : ℚ)
    (p : Progress) (content : Content) :
    C (handleContent env request requestStartTime p timestamp content) := by
  have htoken : C (handleToken env request requestStartTime p timestamp) := by
    unfold handleToken
    split
    · exact h.bind h.readClock (fun now => h.bind h.readClock (fun completedAt =>
        h.bind (h.completeRequestPrefill _ _) (fun result => h.ret _)))
    · exact h.ret _
  refine h.bind htoken ?_
  rintro ⟨p', result⟩
  cases result with
  | error fault => exact h.ret _
  | ok value =>
    cases content with
    | absent => exact h.ret _
    | text text => exact h.ret _
    | other => exact h.ret _

theorem handleChunk (h : OfOperations C env request) (requestStartTime : ℚ) (p : Progress)
    (chunk : Chunk) : C (handleChunk env request requestStartTime p chunk) := by
  cases chunk with
  | blank => exact h.ret _
  | malformed e => exact h.ret _
  | done =>
    exact h.bind h.readClock (fun now => h.bind h.readClock (fun now' =>
      h.bind (h.completeRequestDecode _) (fun result => h.ret _)))
  | data content completionTokens =>
    refine h.bind h.readClock (fun timestamp => ?_)
    by_cases habsent : content = .absent
    · simp only [habsent, if_true]
      exact h.ret _
    · simp only [habsent, if_false]
      exact h.handleContent _ _ _ _

theorem handleStream (h : OfOperations C env request) (requestStartTime : ℚ)
    (chunks : List Chunk) (p : Progress) :
    C (handleStream env request requestStartTime p chunks) := by
  induction chunks generalizing p with
  | nil => exact h.ret _
  | cons chunk chunks ih =>
    refine h.bind h.suspend (fun _ => h.bind (h.handleChunk _ _ _) ?_)
    rintro ⟨p', result⟩
    cases result with
    | error fault => exact h.ret _
    | ok value => exact ih p'

theorem exchange (h : OfOperations C env request) (requestStartTime : ℚ) (p : Progress)
    (http : HttpOutcome) : C (exchange env request requestStartTime p http) := by
  refine h.bind h.suspend (fun _ => ?_)
  cases http with
  | failed fault => exact h.ret _
  | responded status chunks ending =>
    by_cases hstatus : status = 200
    -- the request is admitted when the headers of a good answer arrive
    · simp only [hstatus, if_true]
      refine h.bind h.readClock (fun now => h.bind (h.addRequest now) (fun result => ?_))
      cases result with
      | error fault => exact h.ret _
      | ok added =>
        refine h.bind (h.handleStream _ _ _) ?_
        rintro ⟨p', result⟩
        cases result with
        | error fault => exact h.ret _
        | ok value =>
          refine h.bind h.suspend (fun _ => ?_)
          cases ending with
          | closed => exact h.ret _
          | raised fault => exact h.ret _
    · simp only [hstatus, if_false]
      exact h.ret _

theorem conclude (h : OfOperations C env request) (p : Progress) :
    C (conclude request p : Coro (SendState κ) _) := by
  have hsave : C (saveMetrics request : Coro (SendState κ) Unit) := by
    unfold saveMetrics
    split
    · exact h.suspend
    · exact h.ret _
  refine h.bind hsave (fun _ => ?_)
  by_cases hsuccess : p.output.success
  · simp only [hsuccess, if_true]
    by_cases hlatency : p.requestLatency = 0
    · simp only [hlatency, if_true]
      exact h.ret _
    · simp only [hlatency, if_false]
      exact h.bind h.suspend (fun _ => h.ret _)
  · simp only [hsuccess]
    -- the call failed: the request is taken off whatever list it is in
    refine h.bind h.abortRequest (fun result => ?_)
    cases result with
    | ok aborted => exact h.ret _
    | error fault => exact h.ret _

/-- So has the call. -/
theorem asyncSendRequest (h : OfOperations C env request) (targetIpPort : String)
    (http : HttpOutcome) :
    C (asyncSendRequest env (some targetIpPort) (some request) http) := by
  refine h.bind h.readClock (fun now => ?_)
  by_cases hlen : request.outputLen = 0
  · simp only [hlen, if_true]
    exact h.ret _
  · simp only [hlen, if_false]
    refine h.bind h.suspend (fun _ => h.bind (h.exchange _ _ _) ?_)
    rintro ⟨p, result⟩
    cases result with
    | ok value => exact h.conclude p
    | error fault =>
      cases fault with
      | hang => exact h.ret _
      | exception e => exact h.conclude _
      | cancelled => exact h.conclude _

end OfOperations

end Operations

/-! ## What the calls of others leave alone -/

/-- A step of other calls: they neither admit nor release this request. -/
structure Spares (request : Request) (good : κ → Prop) (s t : SendState κ) : Prop where
  listed : ReplicaState.LeavesListed request s.state t.state
  amount : (t.state.attrs request).actualNumPrefillTokens =
    (s.state.attrs request).actualNumPrefillTokens
  cache : good s.state.replica.cache → good t.state.replica.cache

instance (request : Request) (good : κ → Prop) : Std.Refl (Spares request good) :=
  ⟨fun _ => ⟨⟨rfl, rfl⟩, rfl, id⟩⟩

instance (request : Request) (good : κ → Prop) : IsTrans (SendState κ) (Spares request good) :=
  ⟨fun _ _ _ h h' => ⟨⟨h'.listed.pending.trans h.listed.pending,
    h'.listed.running.trans h.listed.running⟩, h'.amount.trans h.amount, h'.cache ∘ h.cache⟩⟩

/-- The state with another value of the auxiliary variable. -/
def withBudgetByOthers (amount : ℤ) (s : SendState κ) : SendState κ :=
  { s with budgetByOthers := amount }

/-- With a sum of its own for each call, this is what a call relies on. -/
theorem Spares.others {request : Request} {good : κ → Prop} {s t : SendState κ}
    (h : Spares request good s t) (amount : ℤ) :
    ∃ amount', Others request good (withBudgetByOthers amount s) (withBudgetByOthers amount' t) :=
  ⟨amount + (t.state.replica.currentBudget - s.state.replica.currentBudget), h.listed.pending,
    h.listed.running, h.amount, add_sub_cancel_left amount _, h.cache⟩

/-- An operation of the call for a request: it leaves all other requests alone, and the budget
stays accounted for. -/
structure Acts (request : Request) (good : κ → Prop) (s t : SendState κ) : Prop where
  spares : ∀ other, other ≠ request → Spares other good s t
  accounted : ∀ total, s.state.Accounted total → t.state.Accounted total

section Acts

variable {request : Request} {good : κ → Prop} {env : ClientEnv}

/-- The methods of the replica keep its cache good. -/
def KeepGood [PrefixCache κ] (good : κ → Prop)
    (encode : String → Except PyException (List ℕ)) : Prop :=
  ∀ (s : ReplicaState κ) (call : ReplicaState.Call), good s.replica.cache →
    good (call.after encode s).replica.cache

/-- They do where its saves do. -/
theorem GoodSaves.keepGood [PrefixCache κ] (hsaves : GoodSaves good env.encode) :
    KeepGood good env.encode := by
  intro s call hgood
  cases call with
  | addRequest request now =>
    rcases ReplicaState.addRequest_cases request now s with heq | ⟨r, tokens, rfl, -, -, heq⟩
    · rw [ReplicaState.Call.after, heq]
      exact hgood
    · rw [ReplicaState.Call.after, heq]
      exact hgood
  | completeRequestPrefill request ttft now =>
    cases request with
    | none => exact hgood
    | some r =>
      -- the save of the prompt returns and keeps the cache good, and nothing else touches it
      obtain ⟨num, cache', hsave', hgood'⟩ := hsaves.savePrefill r.id r.inputIds _ hgood
      obtain ⟨cache, ⟨fault, hsave, heq⟩ | ⟨value, hsave, hcases⟩⟩ :=
        ReplicaState.completeRequestPrefill_cases r ttft now s
      · rw [hsave'] at hsave
        cases hsave
      · rw [hsave'] at hsave
        obtain ⟨-, rfl⟩ := EStateM.Result.ok.inj hsave
        rcases hcases with ⟨-, heq⟩ | ⟨-, heq⟩
        · rw [ReplicaState.Call.after, heq]
          exact hgood'
        · rw [ReplicaState.Call.after, heq]
          exact hgood'
  | completeRequestDecode request outputText =>
    cases request with
    | none => exact hgood
    | some r =>
      obtain ⟨cache, ⟨tokenIds, value, -, hsave, heq⟩ | ⟨fault, hfault, heq⟩⟩ :=
        ReplicaState.completeRequestDecode_cases env.encode r outputText s
      -- prompt and answer are saved together
      · obtain ⟨num, cache', hsave', hgood'⟩ := hsaves.save (r.inputIds ++ tokenIds) _ hgood
        rw [hsave'] at hsave
        obtain ⟨-, rfl⟩ := EStateM.Result.ok.inj hsave
        rw [ReplicaState.Call.after, heq]
        exact hgood'
      -- it could only fail in the tokenizer or in the save, and neither of them raises
      · rcases hfault with ⟨e, hencode⟩ | ⟨tokenIds, hsave⟩
        · obtain ⟨tokenIds, hencode'⟩ := hsaves.encode outputText
          rw [hencode'] at hencode
          cases hencode
        · obtain ⟨num, cache', hsave', -⟩ := hsaves.save tokenIds _ hgood
          rw [hsave'] at hsave
          cases hsave
  | abortRequest request =>
    cases request with
    | none => exact hgood
    | some r =>
      obtain ⟨res, heq⟩ := ReplicaState.abortRequest_eq r s
      rw [ReplicaState.Call.after, heq, Py.finalState_ok]
      -- an abort moves the request and its budget, and leaves the cache alone
      unfold ReplicaState.dropped
      split
      · exact hgood
      · exact hgood

/-- The cache is good in the calm case. -/
def WhenCalm (Calm : Prop) (good : κ → Prop) (cache : κ) : Prop := Calm → good cache

theorem GoodSaves.whenCalm [PrefixCache κ] {Calm : Prop} (hsaves : GoodSaves good env.encode)
    (hcalm : Calm) : GoodSaves (WhenCalm Calm good) env.encode := by
  have hgood : WhenCalm Calm good = good := by
    funext cache
    simp [WhenCalm, hcalm]
  rwa [hgood]

theorem KeepGood.whenCalm [PrefixCache κ] {Calm : Prop}
    (hsaves : Calm → GoodSaves good env.encode) : KeepGood (WhenCalm Calm good) env.encode :=
  fun s call hgood hcalm => (hsaves hcalm).keepGood s call (hgood hcalm)

theorem Acts.of_call [PrefixCache κ] (hkeep : KeepGood good env.encode) (s : SendState κ)
    (call : ReplicaState.Call) (hrequest : call.request = some request) :
    Acts request good s { s with state := call.after env.encode s.state } where
  spares := by
    intro other hother
    have hne : call.request ≠ some other := by
      rw [hrequest]
      exact fun h => hother (Option.some.inj h).symm
    refine ⟨call.after_leaves env.encode s.state hne, ?_, hkeep s.state call⟩
    exact congrArg RequestAttrs.actualNumPrefillTokens
      ((call.after_touches env.encode s.state).attrs other hne)
  accounted := fun _ h => call.after_accounted env.encode h

theorem steps_call {α : Type} {R : SendState κ → SendState κ → Prop} {code : Py (ReplicaState κ) α}
    (h : ∀ s : SendState κ, R s { s with state := Py.finalState (code s.state) }) :
    Coro.Steps R (Client.call code) := by
  refine Coro.Steps.act (fun s => ?_)
  have hs := h s
  cases hcode : code s.state with
  | ok value state => simpa [hcode] using hs
  | error fault state => simpa [hcode] using hs

/-- Every operation of a call acts for its request. -/
theorem steps_asyncSendRequest [PrefixCache κ] (hkeep : KeepGood good env.encode)
    (targetIpPort : String) (request : Request) (http : HttpOutcome) :
    Coro.Steps (Acts request good)
      (asyncSendRequest env (some targetIpPort) (some request) http) := by
  have hoperations : OfOperations (fun {β} => Coro.Steps (α := β) (Acts (κ := κ) request good))
      env request :=
    { Coro.Steps.compositional _ with
      readClock := Coro.Steps.act (fun s => ⟨fun _ _ => ⟨⟨rfl, rfl⟩, rfl, id⟩, fun _ h => h⟩)
      addRequest := fun now => steps_call (fun s =>
        Acts.of_call hkeep s (.addRequest (some request) now) rfl)
      completeRequestPrefill := fun ttft now => steps_call (fun s =>
        Acts.of_call hkeep s (.completeRequestPrefill (some request) ttft now) rfl)
      completeRequestDecode := fun text => steps_call (fun s =>
        Acts.of_call hkeep s (.completeRequestDecode (some request) text) rfl)
      abortRequest := steps_call (fun s =>
        Acts.of_call hkeep s (.abortRequest (some request)) rfl) }
  exact hoperations.asyncSendRequest targetIpPort http

theorem ignores_call {α : Type} (code : Py (ReplicaState κ) α) :
    Coro.Ignores withBudgetByOthers (Client.call code) := by
  refine Coro.Ignores.act (fun s amount => ?_)
  simp only [withBudgetByOthers]
  cases code s.state with
  | ok value state => rfl
  | error fault state => rfl

/-- No operation of a call looks at the auxiliary variable. -/
theorem ignores_asyncSendRequest [PrefixCache κ] (env : ClientEnv) (targetIpPort : String)
    (request : Request) (http : HttpOutcome) :
    Coro.Ignores (σ := SendState κ) withBudgetByOthers
      (asyncSendRequest env (some targetIpPort) (some request) http) := by
  have hoperations : OfOperations
      (fun {β} => Coro.Ignores (α := β) (withBudgetByOthers (κ := κ))) env request :=
    { Coro.Ignores.compositional _ with
      readClock := Coro.Ignores.act (fun _ _ => rfl)
      addRequest := fun _ => ignores_call _
      completeRequestPrefill := fun _ _ => ignores_call _
      completeRequestDecode := fun _ => ignores_call _
      abortRequest := ignores_call _ }
  exact hoperations.asyncSendRequest targetIpPort http

end Acts

/-! ## All calls together -/

/-- The request is in the given phase, whatever the budget is. -/
structure InPhase (request : Request) (good : κ → Prop) (phase : Phase) (s : SendState κ) :
    Prop where
  pending : s.state.replica.pendingRequests.count request = if phase = .pending then 1 else 0
  running : s.state.replica.runningRequests.count request = if phase = .running then 1 else 0
  cache : good s.state.replica.cache

section InPhase

variable {request : Request} {good : κ → Prop} {phase : Phase} {s t : SendState κ}

theorem InPhase.spares (h : InPhase request good phase s) (hspares : Spares request good s t) :
    InPhase request good phase t :=
  ⟨hspares.listed.pending.trans h.pending, hspares.listed.running.trans h.running,
    hspares.cache h.cache⟩

/-- Some budget at the start explains the one that there is. -/
theorem InPhase.atPhase (h : InPhase request good phase s) (Calm : Prop) :
    ∃ start, AtPhase request good Calm start phase s :=
  ⟨s.state.replica.currentBudget +
      (if phase = .pending then (s.state.attrs request).actualNumPrefillTokens else 0) -
        s.budgetByOthers,
    h.pending, h.running, (sub_add_cancel _ _).symm, fun _ => h.cache⟩

theorem AtPhase.inPhase {Calm : Prop} {start amount : ℤ}
    (h : AtPhase request (WhenCalm Calm good) Calm start phase (withBudgetByOthers amount s)) :
    InPhase request (WhenCalm Calm good) phase s :=
  ⟨h.pending, h.running, fun hcalm => h.cache hcalm hcalm⟩

theorem InPhase.absent_iff (h : InPhase request good phase s) : phase = .absent ↔
    request ∉ s.state.replica.pendingRequests ∧ request ∉ s.state.replica.runningRequests := by
  rw [← List.count_eq_zero, ← List.count_eq_zero, h.pending, h.running]
  cases phase with
  | absent => simp
  | pending => simp
  | running => simp

/-- A call that has returned has released the replica if its exchange does so, and in the calm
case only then. -/
def Concluded (request : Request) (good : κ → Prop) (Calm : Prop) (http : HttpOutcome)
    (result : Except Fault (Option RequestFuncOutput)) (s : SendState κ) : Prop :=
  ∀ out, result = .ok out → ∃ phase, InPhase request good phase s ∧
    (http.Releases → phase = .absent) ∧ (Calm → phase = .absent → http.Releases)

/-- What a call ensures among others that leave its request alone. -/
theorem asyncSendRequest_concludes [LookupCache κ] {env : ClientEnv} {Calm : Prop}
    (hsaves : Calm → GoodSaves good env.encode) (targetIpPort : String) (http : HttpOutcome) :
    Coro.Ensures (Spares request (WhenCalm Calm good))
      (InPhase request (WhenCalm Calm good) .absent)
      (asyncSendRequest env (some targetIpPort) (some request) http)
      (Concluded request (WhenCalm Calm good) Calm http) := by
  -- with a sum of its own, the call does what it does alone
  have hensures : Coro.Ensures (Others request (WhenCalm Calm good))
      (fun s => ∃ start, AtPhase request (WhenCalm Calm good) Calm start .absent s)
      (asyncSendRequest env (some targetIpPort) (some request) http)
      (fun result s => ∀ out, result = .ok out → ∃ start phase,
        AtPhase request (WhenCalm Calm good) Calm start phase s ∧
          (http.Releases → phase = .absent) ∧ (Calm → phase = .absent → http.Releases)) := by
    rintro s result t ⟨start, hs⟩ hrun out hout
    obtain ⟨phase, hphase, hreleases, honly⟩ := asyncSendRequest_ensures
      (fun hcalm => (hsaves hcalm).whenCalm hcalm) targetIpPort http s result t hs hrun out hout
    exact ⟨start, phase, hphase, hreleases, honly⟩
  -- and it does not look at that sum
  refine Coro.Ensures.of_auxiliary (ignores_asyncSendRequest env targetIpPort request http)
    (fun _ _ h => h.others) hensures ?_ ?_
  · exact fun s hs => ⟨s.budgetByOthers, hs.atPhase Calm⟩
  · intro result t amount h out hout
    obtain ⟨start, phase, hphase, hreleases, honly⟩ := h out hout
    exact ⟨phase, hphase.inPhase, hreleases, honly⟩

end InPhase

/-- A replica that has not seen any request. -/
def newReplica (replicaSloBudget : ℤ) (blockSize : ℕ) (cache : κ)
    (attrs : Request → RequestAttrs) (ticks : ℕ) : SendState κ :=
  ⟨⟨Replica.init replicaSloBudget blockSize cache, attrs⟩, ticks, 0⟩

section Calls

variable [LookupCache κ] {env : ClientEnv} {good : κ → Prop} {ι : Type} [DecidableEq ι]
  {request : ι → Request} {targetIpPort : String} {http : ι → HttpOutcome}
  {s : SendState κ} {p : Crowd ι (SendState κ) (Except Fault (Option RequestFuncOutput))}

/-- The calls for some requests, with what the server answers to each. -/
def calls (env : ClientEnv) (targetIpPort : String) (request : ι → Request)
    (http : ι → HttpOutcome) (i : ι) :
    Coro (SendState κ) (Except Fault (Option RequestFuncOutput)) :=
  asyncSendRequest env (some targetIpPort) (some (request i)) (http i)

omit [DecidableEq ι] in
/-- The call of another request leaves this one alone. -/
theorem steps_calls (hkeep : KeepGood good env.encode) {r : Request} {i : ι}
    (hr : r ≠ request i) : Coro.Steps (Spares (κ := κ) r good)
      (calls env targetIpPort request http i) :=
  (steps_asyncSendRequest hkeep targetIpPort (request i) (http i)).mono
    (fun _ _ h => h.spares r hr)

theorem calls_accounted (hkeep : KeepGood good env.encode) {total : ℤ}
    (hs : s.state.Accounted total)
    (hrun : Relation.ReflTransGen (Crowd.Step (calls env targetIpPort request http))
      (Crowd.start s) p) : p.shared.state.Accounted total :=
  Crowd.run_keeps (I := fun s => s.state.Accounted total)
    (fun i => (steps_asyncSendRequest hkeep targetIpPort (request i) (http i)).mono
      (fun _ _ h => h.accounted total)) hs hrun

/-- A request without a call stays absent. -/
theorem calls_absent (hkeep : KeepGood good env.encode) {r : Request}
    (hr : ∀ i, r ≠ request i) (hs : InPhase r good .absent s)
    (hrun : Relation.ReflTransGen (Crowd.Step (calls env targetIpPort request http))
      (Crowd.start s) p) : InPhase r good .absent p.shared :=
  Crowd.run_keeps (I := InPhase r good .absent)
    (fun i => (steps_calls hkeep (hr i)).mono (fun _ _ h hs => hs.spares h)) hs hrun

/-- Each call does among the others what it would do alone. -/
theorem calls_conclude {Calm : Prop} (hsaves : Calm → GoodSaves good env.encode)
    (hdistinct : Function.Injective request)
    (hs : ∀ i, InPhase (request i) (WhenCalm Calm good) .absent s)
    (hrun : Relation.ReflTransGen (Crowd.Step (calls env targetIpPort request http))
      (Crowd.start s) p) (i : ι) :
    (p.task i = none → InPhase (request i) (WhenCalm Calm good) .absent p.shared) ∧
      ∀ result, p.task i = some (.ret result) →
        Concluded (request i) (WhenCalm Calm good) Calm (http i) result p.shared := by
  have hsteps : ∀ i j, i ≠ j → Coro.Steps (Spares (κ := κ) (request i) (WhenCalm Calm good))
      (calls env targetIpPort request http j) :=
    fun i j hij => steps_calls (KeepGood.whenCalm hsaves) (hdistinct.ne hij)
  have hensures : ∀ i, Coro.Ensures (Spares (κ := κ) (request i) (WhenCalm Calm good))
      (InPhase (request i) (WhenCalm Calm good) .absent)
      (calls env targetIpPort request http i)
      (Concluded (request i) (WhenCalm Calm good) Calm (http i)) :=
    fun i => asyncSendRequest_concludes hsaves targetIpPort (http i)
  refine Crowd.parallel hsteps (fun _ _ _ h => h.spares) ?_ hensures hs hrun i
  -- what a call has concluded, the steps of the others leave so
  intro i result s t h hst out hout
  obtain ⟨phase, hphase, hreleases, honly⟩ := h out hout
  exact ⟨phase, hphase.spares hst, hreleases, honly⟩

/-- In every interleaving of calls for different requests at a new replica, the budget is
accounted for, only requests of created calls are listed, and a call that has returned has
released the replica if its own exchange does so. When all created calls have returned and
their exchanges release it, the replica is idle and its whole budget is free. As long as saving
in the cache and the tokenizer do not raise, a call releases the replica in no other way. -/
theorem concurrent_calls (hdistinct : Function.Injective request) (good : κ → Prop)
    {replicaSloBudget : ℤ} {blockSize : ℕ} {cache : κ} {attrs : Request → RequestAttrs}
    {ticks : ℕ}
    (hrun : Relation.ReflTransGen (Crowd.Step (calls env targetIpPort request http))
      (Crowd.start (newReplica replicaSloBudget blockSize cache attrs ticks)) p) :
    p.shared.state.replica.currentBudget + (p.shared.state.replica.pendingRequests.map
      (fun r => (p.shared.state.attrs r).actualNumPrefillTokens)).sum = replicaSloBudget ∧
    (∀ r ∈ p.shared.state.replica.pendingRequests ++ p.shared.state.replica.runningRequests,
      ∃ i, r = request i ∧ p.task i ≠ none) ∧
    (∀ i out, p.task i = some (.ret (.ok out)) → (http i).Releases →
      request i ∉ p.shared.state.replica.pendingRequests ∧
        request i ∉ p.shared.state.replica.runningRequests) ∧
    ((∀ i c, p.task i = some c → (∃ out, c = .ret (.ok out)) ∧ (http i).Releases) →
      p.shared.state.replica.pendingRequests = [] ∧ p.shared.state.replica.runningRequests = [] ∧
        p.shared.state.replica.currentBudget = replicaSloBudget) ∧
    (GoodSaves good env.encode → good cache → ∀ i out, p.task i = some (.ret (.ok out)) →
      (request i ∉ p.shared.state.replica.pendingRequests ∧
        request i ∉ p.shared.state.replica.runningRequests ↔ (http i).Releases)) := by
  have hsaves : GoodSaves good env.encode ∧ good cache → GoodSaves good env.encode := And.left
  have habsent : ∀ r, InPhase r (WhenCalm (GoodSaves good env.encode ∧ good cache) good) .absent
      (newReplica replicaSloBudget blockSize cache attrs ticks) :=
    fun r => ⟨rfl, rfl, And.right⟩
  have hconclude := calls_conclude hsaves hdistinct (fun i => habsent (request i)) hrun
  have hbalanced : p.shared.state.replica.currentBudget +
      (p.shared.state.replica.pendingRequests.map
        (fun r => (p.shared.state.attrs r).actualNumPrefillTokens)).sum = replicaSloBudget :=
    (calls_accounted (KeepGood.whenCalm hsaves)
      (ReplicaState.init_accounted replicaSloBudget blockSize cache attrs) hrun).balanced.sum
  have hlisted : ∀ r ∈ p.shared.state.replica.pendingRequests ++
      p.shared.state.replica.runningRequests, ∃ i, r = request i ∧ p.task i ≠ none := by
    intro r hr
    by_contra hnone
    push Not at hnone
    -- without a created call the request is where it was at the start
    have hphase : InPhase r (WhenCalm (GoodSaves good env.encode ∧ good cache) good) .absent
        p.shared := by
      by_cases hcall : ∃ i, r = request i
      · obtain ⟨i, rfl⟩ := hcall
        exact (hconclude i).1 (hnone i rfl)
      · exact calls_absent (KeepGood.whenCalm hsaves) (not_exists.mp hcall) (habsent r) hrun
    obtain ⟨hpending, hrunning⟩ := hphase.absent_iff.mp rfl
    exact (List.mem_append.mp hr).elim hpending hrunning
  have hreleased : ∀ i out, p.task i = some (.ret (.ok out)) → (http i).Releases →
      request i ∉ p.shared.state.replica.pendingRequests ∧
        request i ∉ p.shared.state.replica.runningRequests := by
    intro i out hi hreleases
    obtain ⟨phase, hphase, habsent, -⟩ := (hconclude i).2 _ hi out rfl
    exact hphase.absent_iff.mp (habsent hreleases)
  refine ⟨hbalanced, hlisted, hreleased, ?_, ?_⟩
  · intro hall
    -- a listed request has a created call, which has returned and released the replica
    have hnone : p.shared.state.replica.pendingRequests ++
        p.shared.state.replica.runningRequests = [] := by
      refine List.eq_nil_iff_forall_not_mem.mpr (fun r hr => ?_)
      obtain ⟨i, rfl, hi⟩ := hlisted r hr
      obtain ⟨c, hc⟩ := Option.ne_none_iff_exists'.mp hi
      obtain ⟨⟨out, rfl⟩, hreleases⟩ := hall i c hc
      obtain ⟨hpending, hrunning⟩ := hreleased i out hc hreleases
      exact (List.mem_append.mp hr).elim hpending hrunning
    obtain ⟨hpending, hrunning⟩ := List.append_eq_nil_iff.mp hnone
    refine ⟨hpending, hrunning, ?_⟩
    rwa [hpending, List.map_nil, List.sum_nil, add_zero] at hbalanced
  · intro hcalm hgood i out hi
    refine ⟨fun hnot => ?_, hreleased i out hi⟩
    obtain ⟨phase, hphase, -, honly⟩ := (hconclude i).2 _ hi out rfl
    exact honly ⟨hcalm, hgood⟩ (hphase.absent_iff.mpr hnot)

end Calls

/-- Two requests at one replica. -/
def twoRequests : Bool → Request
  | true => sampleRequest
  | false => { sampleRequest with id := 2 }

/-- The first request is refused. -/
def refusedFirst : Bool → HttpOutcome
  | true => .responded 500 [] .closed
  | false => streamedAnswer

/-- The answer to the first request has no content. -/
def silentFirst : Bool → HttpOutcome
  | true => silentAnswer
  | false => streamedAnswer

/-- The calls take turns until both have returned. The replica has a cache of 128 blocks of 16
tokens. -/
def interleaved (http : Bool → HttpOutcome) :
    Crowd Bool (SendState (PrefixKvCacheStore PrefixKVCacheMgr.encodingRuntime))
      (Except Fault (Option RequestFuncOutput)) :=
  (List.replicate 8 [true, false]).flatten.foldl
    (Crowd.resumeAt (calls tickingEnv "replica" twoRequests http)) (Crowd.start idleReplica)

/-- A refused request and an answered one leave the replica idle. A request whose answer has no
content stays there, while the other one comes and goes. -/
theorem concurrent_calls_interleaved :
    ((interleaved refusedFirst).shared.state.replica.pendingRequests = [] ∧
      (interleaved refusedFirst).shared.state.replica.runningRequests = [] ∧
      (interleaved refusedFirst).shared.state.replica.currentBudget = 10) ∧
    ¬ (sampleRequest ∉ (interleaved silentFirst).shared.state.replica.pendingRequests ∧
      sampleRequest ∉ (interleaved silentFirst).shared.state.replica.runningRequests) := by
  -- what the calls have returned, by running them
  have hdistinct : Function.Injective twoRequests := by decide
  have hrefused : (interleaved refusedFirst).task true = some (.ret (.ok (some {}))) :=
    Crowd.task_of_returned (by decide +kernel)
  have hanswered : (interleaved refusedFirst).task false = some (.ret (.ok (some
      { success := true, requestLatency := 7, ttft := 4, tpot := some 3 }))) :=
    Crowd.task_of_returned (by decide +kernel)
  have hsilent : (interleaved silentFirst).task true = some (.ret (.ok (some
      { success := true, requestLatency := 9, tpot := some 9 }))) :=
    Crowd.task_of_returned (by decide +kernel)
  constructor
  · refine (concurrent_calls hdistinct (fun _ => True) (Crowd.resumes _ _ _)).2.2.2.1 ?_
    intro i c hc
    cases i with
    | true =>
      obtain rfl := Option.some.inj (hrefused.symm.trans hc)
      exact ⟨⟨_, rfl⟩, Or.inl (by decide)⟩
    | false =>
      obtain rfl := Option.some.inj (hanswered.symm.trans hc)
      exact ⟨⟨_, rfl⟩, Or.inr (Or.inr (Or.inr (Or.inr (by decide))))⟩
  -- the pool of 128 blocks never makes a save raise, so the other direction holds, too
  · have hiff := (concurrent_calls hdistinct _ (Crowd.resumes _ _ _)).2.2.2.2
      (goodSaves_store PrefixKVCacheMgr.encodingRuntime_hash_ne_zero (fun _ => ⟨_, rfl⟩))
      ⟨PrefixKVCacheMgr.init_wellFormed _, by decide⟩ true _ hsilent
    have hkeeps : ¬ silentAnswer.Releases := by
      simp [silentAnswer, HttpOutcome.Releases, Chunk.Sound, Chunk.HasContent]
    exact fun hnot => hkeeps (hiff.mp hnot)

end DualMap.Client
