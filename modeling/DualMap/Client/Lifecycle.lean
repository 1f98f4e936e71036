import DualMap.Client.OpenAI
import DualMap.Entities.ReplicaAccounting
import DualMap.Cache.SavedPrompts
import Mathlib.Tactic.Linarith

/-!
# The Lifecycle of a Sent Request

Seen from its replica a request is absent, pending or running. `Life` follows it through
the chunks of an answer: admission makes it pending, the first content lets it run, and
`[DONE]` ends it only when it runs. The coroutine of `async_send_request` tracks this
(`handleStream_tracks`) while other tasks do what they like to other requests.

An unsuccessful call is aborted and always releases the replica. A successful one relies on
the chunks: `released_iff` says that it releases the replica exactly when some `[DONE]`
comes after the first content.
-/

namespace DualMap.Client

open Cache

/-! ## The abstract lifecycle -/

/-- Where a request is, as its replica sees it. -/
inductive Phase where
  | absent
  | pending
  | running
  deriving DecidableEq

/-- The end of the prefill: a pending request starts to run. -/
def Phase.prefill : Phase → Phase
  | .pending => .running
  | phase => phase

/-- The end of the answer: a running request is over. -/
def Phase.decode : Phase → Phase
  | .running => .absent
  | phase => phase

/-- The phase of the request, whether the first token was seen, and whether the call counts
as successful. -/
structure Life where
  phase : Phase
  firstToken : Bool
  success : Bool
  deriving DecidableEq

/-- The chunk has a delta with content. -/
def Chunk.HasContent : Chunk → Prop
  | .data content _ => content ≠ .absent
  | _ => False

instance : DecidablePred Chunk.HasContent := by
  intro chunk
  cases chunk <;> unfold Chunk.HasContent <;> infer_instance

/-- The chunk can be read to its end. -/
def Chunk.Sound : Chunk → Prop
  | .malformed _ => False
  | .data .other _ => False
  | _ => True

/-- What a chunk that raises nothing does. -/
def Life.step (life : Life) : Chunk → Life
  | .done => { life with phase := life.phase.decode, success := true }
  | .data content _ =>
    if content = .absent ∨ life.firstToken then life
    else { life with phase := life.phase.prefill, firstToken := true }
  | _ => life

/-- A new request, just admitted. -/
def Life.start : Life := ⟨.pending, false, false⟩

/-- Once over, a request stays over: its prefill is not completed a second time. -/
theorem foldl_step_absent (chunks : List Chunk) (success : Bool) :
    (chunks.foldl Life.step ⟨.absent, true, success⟩).phase = .absent := by
  induction chunks generalizing success with
  | nil => rfl
  | cons chunk chunks ih =>
    cases chunk with
    | blank => exact ih success
    | done => exact ih true
    -- the first token was seen, so content changes nothing any more
    | data content completionTokens => simpa [Life.step] using ih success
    | malformed e => exact ih success

/-- A running request is over exactly when a `[DONE]` comes. -/
theorem foldl_step_running (chunks : List Chunk) (success : Bool) :
    (chunks.foldl Life.step ⟨.running, true, success⟩).phase = .absent ↔
      Chunk.done ∈ chunks := by
  induction chunks generalizing success with
  | nil => simp
  | cons chunk chunks ih =>
    cases chunk with
    | blank => simpa [Life.step] using ih success
    | done => simpa [Life.step, Phase.decode] using foldl_step_absent chunks true
    | data content completionTokens => simpa [Life.step] using ih success
    | malformed e => simpa [Life.step] using ih success

/-- A new request is over exactly when a `[DONE]` comes after the first content. -/
theorem foldl_step_pending (chunks : List Chunk) (success : Bool) :
    (chunks.foldl Life.step ⟨.pending, false, success⟩).phase = .absent ↔
      Chunk.done ∈ chunks.dropWhile (fun chunk => ¬ chunk.HasContent) := by
  induction chunks generalizing success with
  | nil => simp
  | cons chunk chunks ih =>
    cases chunk with
    | blank => simpa [Life.step, Chunk.HasContent] using ih success
    | done => simpa [Life.step, Phase.decode, Chunk.HasContent] using ih true
    | malformed e => simpa [Life.step, Chunk.HasContent] using ih success
    | data content completionTokens =>
      by_cases habsent : content = .absent
      · simpa [Life.step, Chunk.HasContent, habsent] using ih success
      · -- from here on the request runs
        have hrunning := foldl_step_running chunks success
        simpa [Life.step, Phase.prefill, Chunk.HasContent, habsent] using hrunning

theorem foldl_step_success (chunks : List Chunk) (life : Life) :
    (chunks.foldl Life.step life).success = (life.success || decide (Chunk.done ∈ chunks)) := by
  induction chunks generalizing life with
  | nil => simp
  | cons chunk chunks ih =>
    rw [List.foldl_cons, ih]
    cases chunk with
    | blank => simp [Life.step]
    | done => simp [Life.step]
    | malformed e => simp [Life.step]
    | data content completionTokens =>
      by_cases hkeep : content = .absent ∨ life.firstToken
      · simp [Life.step, hkeep]
      · simp [Life.step, hkeep]

/-! ## What other tasks may do -/

variable {κ : Type}

/-- A step of other tasks: whatever they do, they neither admit nor release this request,
and the replica's cache stays `good`. -/
structure Others (request : Request) (good : κ → Prop) (s t : SendState κ) : Prop where
  pending : t.state.replica.pendingRequests.count request =
    s.state.replica.pendingRequests.count request
  running : t.state.replica.runningRequests.count request =
    s.state.replica.runningRequests.count request
  amount : (t.state.attrs request).actualNumPrefillTokens =
    (s.state.attrs request).actualNumPrefillTokens
  budget : t.budgetByOthers - s.budgetByOthers =
    t.state.replica.currentBudget - s.state.replica.currentBudget
  cache : good s.state.replica.cache → good t.state.replica.cache

/-- Saving in a good cache returns and keeps it good, and the tokenizer does not raise. -/
structure GoodSaves [PrefixCache κ] (good : κ → Prop)
    (encode : String → Except PyException (List ℕ)) : Prop where
  save : ∀ tokenIds cache, good cache →
    ∃ num cache', PrefixCache.save tokenIds cache = .ok num cache' ∧ good cache'
  savePrefill : ∀ requestId tokenIds cache, good cache →
    ∃ num cache', PrefixCache.savePrefill requestId tokenIds cache = .ok num cache' ∧
      good cache'
  encode : ∀ text, ∃ tokenIds, encode text = .ok tokenIds

/-- The request is in the given phase, and the budget is explained by other tasks and by
what the request itself holds. `Calm` is the case in which nothing of the code's own
raises. -/
structure AtPhase (request : Request) (good : κ → Prop) (Calm : Prop) (start : ℤ)
    (phase : Phase) (s : SendState κ) : Prop where
  pending : s.state.replica.pendingRequests.count request =
    if phase = .pending then 1 else 0
  running : s.state.replica.runningRequests.count request =
    if phase = .running then 1 else 0
  budget : s.state.replica.currentBudget +
      (if phase = .pending then (s.state.attrs request).actualNumPrefillTokens else 0) =
    start + s.budgetByOthers
  cache : Calm → good s.state.replica.cache

section Tracking

variable {request : Request} {good : κ → Prop} {Calm : Prop} {start : ℤ}

theorem AtPhase.others {phase : Phase} {s t : SendState κ}
    (h : AtPhase request good Calm start phase s) (hothers : Others request good s t) :
    AtPhase request good Calm start phase t where
  pending := hothers.pending.trans h.pending
  running := hothers.running.trans h.running
  budget := by
    -- the ghost sum moves with the budget
    have hbefore := h.budget
    have hchange := hothers.budget
    rw [hothers.amount]
    linarith
  cache := fun hcalm => hothers.cache (h.cache hcalm)

theorem AtPhase.ticks {phase : Phase} {s : SendState κ}
    (h : AtPhase request good Calm start phase s) (ticks : ℕ) :
    AtPhase request good Calm start phase { s with ticks := ticks } :=
  ⟨h.pending, h.running, h.budget, h.cache⟩

theorem ensures_suspend (phase : Phase) :
    Coro.Ensures (Others request good) (AtPhase request good Calm start phase) Coro.suspend
      (fun _ => AtPhase request good Calm start phase) :=
  Coro.Ensures.suspend (fun _ _ hs hothers => hs.others hothers)

theorem ensures_readClock (env : ClientEnv) (phase : Phase) :
    Coro.Ensures (Others request good) (AtPhase request good Calm start phase)
      (readClock env) (fun _ => AtPhase request good Calm start phase) :=
  Coro.Ensures.act (fun s hs => hs.ticks (s.ticks + 1))

/-- A method of the replica, by what it returns from each state. -/
theorem ensures_call {α : Type} {code : Py (ReplicaState κ) α} {P : SendState κ → Prop}
    {Q : Except Fault α → SendState κ → Prop}
    (hok : ∀ s value state, P s → code s.state = .ok value state →
      Q (.ok value) { s with state := state })
    (herror : ∀ s fault state, P s → code s.state = .error fault state →
      Q (.error fault) { s with state := state }) :
    Coro.Ensures (Others request good) P (call code) Q := by
  apply Coro.Ensures.act
  intro s hs
  cases hcode : code s.state with
  | ok value state => simpa [hcode] using hok s value state hs hcode
  | error fault state => simpa [hcode] using herror s fault state hs hcode

/-! ## The methods of the replica, seen from one request -/

theorem ensures_addRequest [LookupCache κ] (now : ℚ) :
    Coro.Ensures (Others request good) (AtPhase request good Calm start .absent)
      (call (Replica.addRequest (some request) now))
      (fun result s => (∃ added, result = .ok added) ∧
        AtPhase request good Calm start .pending s) := by
  -- an absent request is not pending, so it is admitted
  have hadmits : ∀ s : SendState κ, AtPhase request good Calm start .absent s →
      Replica.addRequest (some request) now s.state = .ok true (s.state.admitted request
        (s.state.replica.numRecomputeTokenIds request.inputIds) now) := by
    intro s hs
    exact ReplicaState.addRequest_admits (List.count_eq_zero.mp hs.pending) now
  apply ensures_call
  · intro s added state hs hrun
    rw [hadmits s hs] at hrun
    obtain ⟨rfl, rfl⟩ := EStateM.Result.ok.inj hrun
    have hpending := hs.pending
    have hbudget := hs.budget
    refine ⟨⟨true, rfl⟩, ?_, hs.running, ?_, hs.cache⟩
    · simp [ReplicaState.admitted, Replica.cleanupOldRequests] at hpending ⊢
      exact hpending
    · simp [ReplicaState.admitted, Replica.cleanupOldRequests] at hbudget ⊢
      exact hbudget
  · intro s fault state hs hrun
    rw [hadmits s hs] at hrun
    cases hrun

theorem AtPhase.mem_pending {phase : Phase} {s : SendState κ}
    (h : AtPhase request good Calm start phase s) :
    request ∈ s.state.replica.pendingRequests ↔ phase = .pending := by
  rw [← List.count_pos_iff, h.pending]
  by_cases hphase : phase = .pending <;> simp [hphase]

theorem AtPhase.notMem_running {phase : Phase} {s : SendState κ}
    (h : AtPhase request good Calm start phase s) (hphase : phase ≠ .running) :
    request ∉ s.state.replica.runningRequests := by
  rw [← List.count_eq_zero, h.running, if_neg hphase]

/-- The end of its prefill moves the request from the pending to the running ones. -/
theorem AtPhase.prefilled {s : SendState κ} (h : AtPhase request good Calm start .pending s)
    {cache : κ} (hcache : Calm → good cache) (ttft now : ℚ) :
    AtPhase request good Calm start .running
      { s with state := (s.state.withCache cache).prefilled request ttft now } := by
  have hpending := h.pending
  have hrunning := h.running
  have hnot := h.notMem_running (by decide)
  refine ⟨?_, ?_, ?_, hcache⟩
  · simp [ReplicaState.prefilled, ReplicaState.withCache] at hpending ⊢
    omega
  · simp [ReplicaState.prefilled, ReplicaState.withCache, hnot] at hrunning ⊢
    exact hrunning
  · have hbudget := h.budget
    simpa [ReplicaState.prefilled, ReplicaState.withCache] using hbudget

theorem ensures_completeRequestPrefill [LookupCache κ] {env : ClientEnv}
    (hcalm : Calm → GoodSaves good env.encode) (ttft now : ℚ) (phase : Phase) :
    Coro.Ensures (Others request good) (AtPhase request good Calm start phase)
      (call (Replica.completeRequestPrefill (some request) ttft now))
      (fun result s => match result with
        | .ok _ => AtPhase request good Calm start phase.prefill s
        | .error _ => (∃ phase, AtPhase request good Calm start phase s) ∧ ¬ Calm) := by
  -- in the calm case the save returns and leaves a good cache
  have hsaves : ∀ s : SendState κ, AtPhase request good Calm start phase s → Calm →
      ∃ num cache, PrefixCache.savePrefill request.id request.inputIds s.state.replica.cache =
        .ok num cache ∧ good cache := by
    intro s hs hc
    exact (hcalm hc).savePrefill _ _ _ (hs.cache hc)
  apply ensures_call
  · intro s value state hs hrun
    obtain ⟨cache, ⟨fault, -, heq⟩ | ⟨num, hsave, hcases⟩⟩ :=
      ReplicaState.completeRequestPrefill_cases request ttft now s.state
    · rw [heq] at hrun
      cases hrun
    · have hgood : Calm → good cache := by
        intro hc
        obtain ⟨num', cache', hsave', hgood⟩ := hsaves s hs hc
        rw [hsave] at hsave'
        obtain ⟨rfl, rfl⟩ := EStateM.Result.ok.inj hsave'
        exact hgood
      rcases hcases with ⟨hmem, heq⟩ | ⟨hnot, heq⟩
      · rw [heq] at hrun
        obtain ⟨rfl, rfl⟩ := EStateM.Result.ok.inj hrun
        -- the method found it among the pending ones, so that was its phase
        have hphase := hs.mem_pending.mp hmem
        subst hphase
        exact hs.prefilled hgood ttft now
      · rw [heq] at hrun
        obtain ⟨rfl, rfl⟩ := EStateM.Result.ok.inj hrun
        have hphase : phase ≠ .pending := fun h => hnot (hs.mem_pending.mpr h)
        -- a request that is not pending stays where it is
        have hsame : phase.prefill = phase := by
          cases phase with
          | pending => exact absurd rfl hphase
          | absent => rfl
          | running => rfl
        show AtPhase request good Calm start phase.prefill _
        rw [hsame]
        exact ⟨hs.pending, hs.running, hs.budget, hgood⟩
  · intro s fault state hs hrun
    obtain ⟨cache, ⟨fault', hsave, heq⟩ | ⟨num, -, hcases⟩⟩ :=
      ReplicaState.completeRequestPrefill_cases request ttft now s.state
    · rw [heq] at hrun
      obtain ⟨rfl, rfl⟩ := EStateM.Result.error.inj hrun
      -- only the save can raise, and in the calm case it does not
      have hnot : ¬ Calm := by
        intro hc
        obtain ⟨num, cache', hsave', -⟩ := hsaves s hs hc
        rw [hsave] at hsave'
        cases hsave'
      exact ⟨⟨phase, hs.pending, hs.running, hs.budget, fun hc => absurd hc hnot⟩, hnot⟩
    · rcases hcases with ⟨-, heq⟩ | ⟨-, heq⟩
      · rw [heq] at hrun
        cases hrun
      · rw [heq] at hrun
        cases hrun

/-- The end of the answer takes a running request out. -/
theorem AtPhase.finished {phase : Phase} {s : SendState κ}
    (h : AtPhase request good Calm start phase s) {cache : κ} (hcache : Calm → good cache) :
    AtPhase request good Calm start phase.decode
      { s with state := (s.state.finished request).withCache cache } := by
  have hpending := h.pending
  have hrunning := h.running
  have hbudget := h.budget
  -- taking a request out of the running ones touches neither the pending ones nor the budget
  refine ⟨?_, ?_, ?_, hcache⟩
  · cases phase <;> simpa [ReplicaState.finished, ReplicaState.withCache, Phase.decode]
      using hpending
  · cases phase <;> simp [ReplicaState.finished, ReplicaState.withCache, Phase.decode]
      at hrunning ⊢ <;> omega
  · cases phase <;> simpa [ReplicaState.finished, ReplicaState.withCache, Phase.decode]
      using hbudget

theorem ensures_completeRequestDecode [LookupCache κ] {env : ClientEnv}
    (hcalm : Calm → GoodSaves good env.encode) (outputText : String) (phase : Phase) :
    Coro.Ensures (Others request good) (AtPhase request good Calm start phase)
      (call (Replica.completeRequestDecode env.encode (some request) outputText))
      (fun result s => match result with
        | .ok _ => AtPhase request good Calm start phase.decode s
        | .error _ => (∃ phase, AtPhase request good Calm start phase s) ∧ ¬ Calm) := by
  apply ensures_call
  · intro s value state hs hrun
    obtain ⟨cache, ⟨outputTokenIds, num, -, hsave, heq⟩ | ⟨fault, -, heq⟩⟩ :=
      ReplicaState.completeRequestDecode_cases env.encode request outputText s.state
    · rw [heq] at hrun
      obtain ⟨rfl, rfl⟩ := EStateM.Result.ok.inj hrun
      apply hs.finished
      intro hc
      obtain ⟨num', cache', hsave', hgood⟩ := (hcalm hc).save
        (request.inputIds ++ outputTokenIds) _ (hs.cache hc)
      rw [hsave] at hsave'
      obtain ⟨rfl, rfl⟩ := EStateM.Result.ok.inj hsave'
      exact hgood
    · rw [heq] at hrun
      cases hrun
  · intro s fault state hs hrun
    obtain ⟨cache, ⟨outputTokenIds, num, -, -, heq⟩ | ⟨fault', hcause, heq⟩⟩ :=
      ReplicaState.completeRequestDecode_cases env.encode request outputText s.state
    · rw [heq] at hrun
      cases hrun
    · rw [heq] at hrun
      obtain ⟨rfl, rfl⟩ := EStateM.Result.error.inj hrun
      -- the tokenizer or the save raised
      have hnot : ¬ Calm := by
        intro hc
        rcases hcause with ⟨e, hencode⟩ | ⟨tokenIds, hsave⟩
        · obtain ⟨outputTokenIds, hencode'⟩ := (hcalm hc).encode outputText
          rw [hencode] at hencode'
          cases hencode'
        · obtain ⟨num, cache', hsave', -⟩ := (hcalm hc).save tokenIds _ (hs.cache hc)
          rw [hsave] at hsave'
          cases hsave'
      exact ⟨⟨phase.decode, hs.finished (fun hc => absurd hc hnot)⟩, hnot⟩

theorem ensures_abortRequest (phase : Phase) :
    Coro.Ensures (Others request good) (AtPhase request good Calm start phase)
      (call (Replica.abortRequest (some request)))
      (fun result s => (∃ aborted, result = .ok aborted) ∧
        AtPhase request good Calm start .absent s) := by
  apply ensures_call
  · intro s value state hs hrun
    obtain ⟨res, heq⟩ := ReplicaState.abortRequest_eq request s.state
    rw [heq] at hrun
    obtain ⟨rfl, rfl⟩ := EStateM.Result.ok.inj hrun
    have hpending := hs.pending
    have hrunning := hs.running
    have hbudget := hs.budget
    refine ⟨⟨res, rfl⟩, ?_⟩
    by_cases hmem : request ∈ s.state.replica.pendingRequests
    · -- a pending request also gives its budget back
      have hphase := hs.mem_pending.mp hmem
      subst hphase
      refine ⟨?_, ?_, ?_, ?_⟩
      · simp [ReplicaState.dropped, ReplicaState.finished, hmem] at hpending ⊢
        omega
      · simp [ReplicaState.dropped, ReplicaState.finished, hmem] at hrunning ⊢
        omega
      · simpa [ReplicaState.dropped, ReplicaState.finished, hmem] using hbudget
      · simpa [ReplicaState.dropped, ReplicaState.finished, hmem] using hs.cache
    -- nothing is given back for a running request, its prefill already did that
    · have hphase : phase ≠ .pending := fun h => hmem (hs.mem_pending.mpr h)
      refine ⟨?_, ?_, ?_, ?_⟩
      · simpa [ReplicaState.dropped, ReplicaState.finished, hmem, hphase] using hpending
      · simp only [ReplicaState.dropped, ReplicaState.finished, hmem, if_false,
          List.count_erase_self, hrunning]
        by_cases hrun : phase = .running <;> simp [hrun]
      · simpa [ReplicaState.dropped, ReplicaState.finished, hmem, hphase] using hbudget
      · simpa [ReplicaState.dropped, ReplicaState.finished, hmem] using hs.cache
  · intro s fault state hs hrun
    obtain ⟨res, heq⟩ := ReplicaState.abortRequest_eq request s.state
    rw [heq] at hrun
    cases hrun

/-! ## Following the stream -/

/-- The variables of the call and the replica are where the abstract lifecycle says. -/
structure Tracks (request : Request) (good : κ → Prop) (Calm : Prop) (start : ℤ)
    (life : Life) (p : Progress) (s : SendState κ) : Prop where
  atPhase : AtPhase request good Calm start life.phase s
  firstToken : p.firstTokenFlag = life.firstToken
  success : p.output.success = life.success

/-- What a part of the exchange leaves: it goes on as the lifecycle says, which takes chunks
that are sound, or it raises, which in the calm case takes one that is not. -/
def Follows (request : Request) (good : κ → Prop) (Calm : Prop) (start : ℤ) (life : Life)
    (sound : Prop) (result : Progress × Except Fault Unit) (s : SendState κ) : Prop :=
  match result.2 with
  | .ok () => sound ∧ Tracks request good Calm start life result.1 s
  | .error _ => (∃ phase, AtPhase request good Calm start phase s) ∧ (Calm → ¬ sound)

/-- The first content completes the prefill, unless its save raises. -/
theorem handleToken_follows [LookupCache κ] {env : ClientEnv}
    (hcalm : Calm → GoodSaves good env.encode) (requestStartTime timestamp : ℚ) (life : Life)
    (p : Progress) (hfirst : p.firstTokenFlag = life.firstToken)
    (hsuccess : p.output.success = life.success) (content : Content)
    (hcontent : content ≠ .absent) (completionTokens : Option ℕ) :
    Coro.Ensures (Others request good) (AtPhase request good Calm start life.phase)
      (handleToken env request requestStartTime p timestamp)
      (Follows request good Calm start (life.step (.data content completionTokens)) True) := by
  unfold handleToken
  by_cases hflag : p.firstTokenFlag = false
  · rw [if_pos hflag]
    -- the first content: the lifecycle takes its prefill step
    have hlife : life.firstToken = false := hfirst.symm.trans hflag
    refine (ensures_readClock env life.phase).bind (fun now => ?_)
    refine (ensures_readClock env life.phase).bind (fun completedAt => ?_)
    refine (ensures_completeRequestPrefill hcalm (now - requestStartTime) completedAt
      life.phase).bind (fun result => ?_)
    cases result with
    | ok value =>
      refine Coro.Ensures.ret (fun s hs => ⟨trivial, ?_, ?_, ?_⟩)
      · simpa [Life.step, hcontent, hlife] using hs
      · simp [Life.step, hcontent, hlife]
      · simpa [Life.step, hcontent, hlife] using hsuccess
    | error fault =>
      exact Coro.Ensures.ret (fun s hs => ⟨hs.1, fun hc => absurd hc hs.2⟩)
  · rw [if_neg hflag]
    -- later content: neither side moves
    have hlife : life.firstToken = true := by
      rw [← hfirst]
      simpa using hflag
    refine Coro.Ensures.ret (fun s hs => ⟨trivial, ?_, ?_, ?_⟩)
    · simpa [Life.step, hlife] using hs
    · simpa [Life.step, hlife] using hfirst
    · simpa [Life.step, hlife] using hsuccess

theorem handleContent_follows [LookupCache κ] {env : ClientEnv}
    (hcalm : Calm → GoodSaves good env.encode) (requestStartTime timestamp : ℚ) (life : Life)
    (p : Progress) (hfirst : p.firstTokenFlag = life.firstToken)
    (hsuccess : p.output.success = life.success) (content : Content)
    (hcontent : content ≠ .absent) (completionTokens : Option ℕ) :
    Coro.Ensures (Others request good) (AtPhase request good Calm start life.phase)
      (handleContent env request requestStartTime p timestamp content)
      (Follows request good Calm start (life.step (.data content completionTokens))
        (content ≠ .other)) := by
  refine (handleToken_follows hcalm requestStartTime timestamp life p hfirst hsuccess content
    hcontent completionTokens).bind ?_
  rintro ⟨p', result⟩
  cases result with
  | error fault =>
    exact Coro.Ensures.ret (fun s hs => ⟨hs.1, fun hc => absurd trivial (hs.2 hc)⟩)
  | ok value =>
    cases content with
    | absent => exact absurd rfl hcontent
    | text text =>
      refine Coro.Ensures.ret (fun s hs => ?_)
      exact ⟨by simp, hs.2.atPhase, hs.2.firstToken, hs.2.success⟩
    | other =>
      -- the text so far cannot be extended by something that is no text
      refine Coro.Ensures.ret (fun s hs => ?_)
      exact ⟨⟨_, hs.2.atPhase⟩, by simp⟩

theorem handleChunk_follows [LookupCache κ] {env : ClientEnv}
    (hcalm : Calm → GoodSaves good env.encode) (requestStartTime : ℚ) (life : Life)
    (p : Progress) (hfirst : p.firstTokenFlag = life.firstToken)
    (hsuccess : p.output.success = life.success) (chunk : Chunk) :
    Coro.Ensures (Others request good) (AtPhase request good Calm start life.phase)
      (handleChunk env request requestStartTime p chunk)
      (Follows request good Calm start (life.step chunk) chunk.Sound) := by
  cases chunk with
  | blank => exact Coro.Ensures.ret (fun s hs => ⟨trivial, hs, hfirst, hsuccess⟩)
  | malformed e => exact Coro.Ensures.ret (fun s hs => ⟨⟨_, hs⟩, fun _ h => h⟩)
  | done =>
    refine (ensures_readClock env life.phase).bind (fun now => ?_)
    refine (ensures_readClock env life.phase).bind (fun now' => ?_)
    refine (ensures_completeRequestDecode hcalm p.generatorText life.phase).bind
      (fun result => ?_)
    cases result with
    | ok value => exact Coro.Ensures.ret (fun s hs => ⟨trivial, hs, hfirst, rfl⟩)
    | error fault =>
      exact Coro.Ensures.ret (fun s hs => ⟨hs.1, fun hc => absurd hc hs.2⟩)
  | data content completionTokens =>
    refine (ensures_readClock env life.phase).bind (fun timestamp => ?_)
    -- a delta without content only moves the time of the last chunk
    by_cases habsent : content = .absent
    · simp only [habsent, if_true]
      refine Coro.Ensures.ret (fun s hs => ⟨trivial, ?_, ?_, ?_⟩)
      · simpa [Life.step] using hs
      · cases completionTokens <;> simpa [Life.step] using hfirst
      · cases completionTokens <;> simpa [Life.step] using hsuccess
    · simp only [habsent, if_false]
      have hsound : content ≠ .other ↔ Chunk.Sound (.data content completionTokens) := by
        cases content <;> simp [Chunk.Sound]
      rw [← propext hsound]
      apply handleContent_follows hcalm requestStartTime timestamp life _ _ _ content habsent
      · cases completionTokens <;> exact hfirst
      · cases completionTokens <;> exact hsuccess

/-- The loop follows the lifecycle through all chunks. -/
theorem handleStream_tracks [LookupCache κ] {env : ClientEnv}
    (hcalm : Calm → GoodSaves good env.encode) (requestStartTime : ℚ) (chunks : List Chunk)
    (life : Life) (p : Progress) (hfirst : p.firstTokenFlag = life.firstToken)
    (hsuccess : p.output.success = life.success) :
    Coro.Ensures (Others request good) (AtPhase request good Calm start life.phase)
      (handleStream env request requestStartTime p chunks)
      (Follows request good Calm start (chunks.foldl Life.step life)
        (∀ chunk ∈ chunks, chunk.Sound)) := by
  -- induction on the chunks, with the lifecycle and the variables moving along
  induction chunks generalizing life p with
  | nil => exact Coro.Ensures.ret (fun s hs => ⟨by simp, hs, hfirst, hsuccess⟩)
  | cons chunk chunks ih =>
    refine (ensures_suspend life.phase).bind (fun _ => ?_)
    refine (handleChunk_follows hcalm requestStartTime life p hfirst hsuccess chunk).bind ?_
    rintro ⟨p', result⟩
    cases result with
    | error fault =>
      -- the rest of the stream is not read
      refine Coro.Ensures.ret (fun s hs => ⟨hs.1, fun hc hall => ?_⟩)
      exact hs.2 hc (hall chunk (List.mem_cons_self ..))
    | ok value =>
      intro s result t hs hrun
      obtain ⟨hsound, htracks⟩ := hs
      have hrest := ih (life.step chunk) p' htracks.firstToken htracks.success s result t
        htracks.atPhase hrun
      cases hresult : result.2 with
      | ok value =>
        simp only [Follows, hresult] at hrest ⊢
        exact ⟨by simpa [hsound] using hrest.1, hrest.2⟩
      | error fault =>
        simp only [Follows, hresult] at hrest ⊢
        exact ⟨hrest.1, fun hc hall => hrest.2 hc
          (fun c hmem => hall c (List.mem_cons_of_mem _ hmem))⟩

/-! ## The whole call -/

/-- The lifecycle up to the end of an exchange in which nothing is raised. -/
def HttpOutcome.life : HttpOutcome → Life
  | .failed _ => ⟨.absent, false, false⟩
  | .responded status chunks _ =>
    if status = 200 then chunks.foldl Life.step Life.start else ⟨.absent, false, false⟩

/-- Nothing the server sends raises. -/
def HttpOutcome.Clean : HttpOutcome → Prop
  | .failed _ => False
  | .responded status chunks ending =>
    status = 200 → (∀ chunk ∈ chunks, chunk.Sound) ∧ ending = .closed

/-- The call fails, or some `[DONE]` comes after the first content. -/
def HttpOutcome.Releases : HttpOutcome → Prop
  | .failed _ => True
  | .responded status chunks ending =>
    status ≠ 200 ∨ ending ≠ .closed ∨ (∃ chunk ∈ chunks, ¬ chunk.Sound) ∨
      .done ∉ chunks ∨ .done ∈ chunks.dropWhile (fun chunk => ¬ chunk.HasContent)

theorem HttpOutcome.releases_iff (http : HttpOutcome) :
    http.Releases ↔ ¬ http.Clean ∨ http.life.success = false ∨ http.life.phase = .absent := by
  cases http with
  | failed fault => simp [Releases, Clean]
  | responded status chunks ending =>
    by_cases hstatus : status = 200
    · have hsuccess := foldl_step_success chunks Life.start
      have hphase := foldl_step_pending chunks false
      simp only [Releases, Clean, life, hstatus, if_true]
      rw [hsuccess, show Life.start = ⟨.pending, false, false⟩ from rfl, hphase]
      -- either all chunks can be read, or one of them makes the call fail
      by_cases hsound : ∀ chunk ∈ chunks, chunk.Sound
      · have hnone : ¬ ∃ chunk ∈ chunks, ¬ chunk.Sound := by
          rintro ⟨chunk, hmem, hnot⟩
          exact hnot (hsound chunk hmem)
        have hclean : (∀ chunk ∈ chunks, chunk.Sound) ↔ True := iff_true_intro hsound
        simp [hclean, hnone]
      · have hsome : ∃ chunk ∈ chunks, ¬ chunk.Sound := by
          by_contra hnone
          exact hsound (fun chunk hmem => by_contra fun hnot => hnone ⟨chunk, hmem, hnot⟩)
        simp only [hsound, hsome]
        tauto
    · simp [Releases, life, hstatus]

theorem exchange_follows [LookupCache κ] {env : ClientEnv}
    (hcalm : Calm → GoodSaves good env.encode) (requestStartTime : ℚ) (p : Progress)
    (hfirst : p.firstTokenFlag = false) (hsuccess : p.output.success = false)
    (http : HttpOutcome) :
    Coro.Ensures (Others request good) (AtPhase request good Calm start .absent)
      (exchange env request requestStartTime p http)
      (Follows request good Calm start http.life http.Clean) := by
  refine (ensures_suspend .absent).bind (fun _ => ?_)
  cases http with
  | failed fault => exact Coro.Ensures.ret (fun s hs => ⟨⟨_, hs⟩, fun _ h => h⟩)
  | responded status chunks ending =>
    by_cases hstatus : status = 200
    · simp only [hstatus, if_true]
      refine (ensures_readClock env .absent).bind (fun now => ?_)
      refine (ensures_addRequest now).bind (fun result => ?_)
      cases result with
      | error fault =>
        -- the look-up does not raise
        intro s result t hs hrun
        obtain ⟨added, hadded⟩ := hs.1
        cases hadded
      | ok added =>
        refine Coro.Ensures.bind (R := Follows request good Calm start
          (chunks.foldl Life.step Life.start) (∀ chunk ∈ chunks, chunk.Sound)) ?_ ?_
        -- admitted, the request is pending when the stream begins
        · intro s result t hs hrun
          exact handleStream_tracks hcalm requestStartTime chunks Life.start p hfirst hsuccess
            s result t hs.2 hrun
        · rintro ⟨p', result⟩
          cases result with
          | error fault =>
            refine Coro.Ensures.ret (fun s hs => ⟨hs.1, fun hc hclean => ?_⟩)
            exact hs.2 hc (hclean rfl).1
          | ok value =>
            refine Coro.Ensures.bind (R := fun _ s => (∀ chunk ∈ chunks, chunk.Sound) ∧
              Tracks request good Calm start (chunks.foldl Life.step Life.start) p' s) ?_ ?_
            -- waiting for the end of the stream
            · apply Coro.Ensures.suspend
              intro s t hs hothers
              exact ⟨hs.1, hs.2.atPhase.others hothers, hs.2.firstToken, hs.2.success⟩
            · intro _
              cases ending with
              | closed =>
                refine Coro.Ensures.ret (fun s hs => ⟨fun _ => ⟨hs.1, rfl⟩, ?_⟩)
                simpa [HttpOutcome.life] using hs.2
              | raised fault =>
                refine Coro.Ensures.ret (fun s hs => ⟨⟨_, hs.2.atPhase⟩, fun _ hclean => ?_⟩)
                exact absurd (hclean rfl).2 (by simp)
    · simp only [hstatus, if_false]
      refine Coro.Ensures.ret (fun s hs => ⟨fun h => absurd h hstatus, ?_⟩)
      simp only [HttpOutcome.life, hstatus, if_false]
      exact ⟨hs, hfirst, hsuccess⟩

/-- An unsuccessful call is aborted; a successful one is left as it is. -/
theorem conclude_ensures (phase : Phase) (p : Progress) :
    Coro.Ensures (Others request good) (AtPhase request good Calm start phase)
      (conclude request p)
      (fun result s => ∀ out, result = .ok out →
        AtPhase request good Calm start (if p.output.success then phase else .absent) s) := by
  -- saving the metrics leaves the replica alone
  refine Coro.Ensures.bind (R := fun _ => AtPhase request good Calm start phase) ?_ ?_
  · unfold saveMetrics
    split
    · exact ensures_suspend phase
    · exact Coro.Ensures.ret (fun s hs => hs)
  · intro _
    by_cases hsuccess : p.output.success
    -- a success with a latency of zero raises in the division, so no answer comes back
    · simp only [hsuccess, if_true]
      by_cases hlatency : p.requestLatency = 0
      · simp only [hlatency, if_true]
        exact Coro.Ensures.ret (fun s hs out hout => by cases hout)
      · simp only [hlatency, if_false]
        refine (ensures_suspend phase).bind (fun _ => ?_)
        exact Coro.Ensures.ret (fun s hs out _ => hs)
    · simp only [hsuccess]
      -- a failure is taken from the replica again, whatever phase it had reached
      refine (ensures_abortRequest phase).bind (fun result => ?_)
      cases result with
      | ok aborted => exact Coro.Ensures.ret (fun s hs out _ => hs.2)
      | error fault => exact Coro.Ensures.ret (fun s hs out hout => by cases hout)

/-- A call that returns leaves the request absent when the exchange releases it, and in the
calm case only then. -/
theorem asyncSendRequest_ensures [LookupCache κ] {env : ClientEnv}
    (hcalm : Calm → GoodSaves good env.encode) (targetIpPort : String) (http : HttpOutcome) :
    Coro.Ensures (Others request good) (AtPhase request good Calm start .absent)
      (asyncSendRequest env (some targetIpPort) (some request) http)
      (fun result s => ∀ out, result = .ok out →
        ∃ phase, AtPhase request good Calm start phase s ∧
          (http.Releases → phase = .absent) ∧ (Calm → phase = .absent → http.Releases)) := by
  refine (ensures_readClock env .absent).bind (fun now => ?_)
  by_cases hlen : request.outputLen = 0
  · simp only [hlen, if_true]
    exact Coro.Ensures.ret (fun s hs out hout => by cases hout)
  · simp only [hlen, if_false]
    refine (ensures_suspend .absent).bind (fun _ => ?_)
    refine (exchange_follows hcalm (min now request.arrivedAt)
      { mostRecentTimestamp := min now request.arrivedAt } rfl rfl http).bind ?_
    rintro ⟨p, result⟩
    intro s result' t hs hrun out hout
    cases result with
    | ok value =>
      obtain ⟨hclean, htracks⟩ := hs
      have hphase := conclude_ensures http.life.phase p s result' t htracks.atPhase hrun out hout
      refine ⟨_, hphase, ?_, ?_⟩
      · intro hreleases
        -- the exchange raised nothing, so the call failed or the chunks took the request out
        rcases http.releases_iff.mp hreleases with hnot | hfail | habsent
        · exact absurd hclean hnot
        · have hfailed : p.output.success = false := htracks.success.trans hfail
          simp [hfailed]
        · simp [habsent]
      · intro _ habsent
        apply http.releases_iff.mpr
        have hsame : p.output.success = http.life.success := htracks.success
        cases hsuccess : http.life.success with
        | false => exact Or.inr (Or.inl rfl)
        | true =>
          rw [hsame, hsuccess, if_pos rfl] at habsent
          exact Or.inr (Or.inr habsent)
    | error fault =>
      obtain ⟨⟨phase, hphase⟩, hunsound⟩ := hs
      -- whatever was raised, the call counts as failed and is aborted
      have habsent : AtPhase request good Calm start .absent t := by
        cases fault with
        | hang =>
          obtain ⟨rfl, -⟩ := Coro.runs_ret.mp hrun
          cases hout
        | exception e =>
          simpa using conclude_ensures phase
            { p with output := { p.output with success := false } } s result' t hphase hrun out
            hout
        | cancelled =>
          simpa using conclude_ensures phase
            { p with output := { p.output with success := false } } s result' t hphase hrun out
            hout
      refine ⟨.absent, habsent, fun _ => rfl, fun hc _ => ?_⟩
      exact http.releases_iff.mpr (Or.inl (hunsound hc))

end Tracking

end DualMap.Client
