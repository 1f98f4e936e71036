import DualMap.Client.Release

/-!
# What a Call Reports

`async_send_request` measures the answer that it follows: the time to the first token, the
times between tokens, the latency, and the number of tokens used. Other tasks run between the
chunks of the answer, so the clock moves on at every one of them. `Tally` counts what the chunks
say, and `Measured` holds the measurements against it.

Times are exact rationals, so what the report says of sums and quotients of times is exact too;
the floats of the code meet it up to their rounding.

Main result:
- `report_sound`: with a clock that never goes back, a call that returns reports a success only
  when the whole answer was read and a `[DONE]` was in it, and what it reports then is in
  accordance with the answer. When no save and no tokenizer call raises, it always does so.
-/

namespace DualMap.Client

open Cache

variable {κ : Type}

/-! ## What the chunks say -/

/-- The number of tokens that a chunk says were used. -/
def Chunk.completionTokens : Chunk → Option ℕ
  | .data _ completionTokens => completionTokens
  | _ => none

/-- The contents and the `[DONE]`s end with a `[DONE]`. -/
def EndsDone (chunks : List Chunk) : Prop :=
  (chunks.filter (fun chunk => chunk = .done ∨ chunk.HasContent)).getLast? = some .done

/-- The whole answer is these chunks, all of them can be read, and `[DONE]` is one of them. -/
structure HttpOutcome.Completes (http : HttpOutcome) (chunks : List Chunk) : Prop where
  responded : http = .responded 200 chunks .closed
  sound : ∀ chunk ∈ chunks, chunk.Sound
  done : .done ∈ chunks

/-- The last number of tokens used, the number of contents, whether there was a `[DONE]`, and
whether no content came after the last one. -/
structure Tally where
  usage : Option ℕ := none
  contents : ℕ := 0
  done : Bool := false
  endsDone : Bool := false

namespace Tally

/-- `'usage' in data`. -/
def use (c : Tally) : Option ℕ → Tally
  | some completionTokens => { c with usage := some completionTokens }
  | none => c

/-- A content. -/
def content (c : Tally) : Tally := { c with contents := c.contents + 1, endsDone := false }

/-- `[DONE]`. -/
def finish (c : Tally) : Tally := { c with done := true, endsDone := true }

def step (c : Tally) : Chunk → Tally
  | .done => c.finish
  | .data content completionTokens =>
    if content = .absent then c.use completionTokens else (c.use completionTokens).content
  | _ => c

/-- The tally of an answer. -/
def of (chunks : List Chunk) : Tally := chunks.foldl step {}

theorem of_snoc (chunks : List Chunk) (chunk : Chunk) :
    of (chunks ++ [chunk]) = (of chunks).step chunk := by
  rw [of, List.foldl_append]
  rfl

theorem use_usage (c : Tally) (completionTokens : Option ℕ) :
    (c.use completionTokens).usage = completionTokens.or c.usage := by
  cases completionTokens with
  | none => rfl
  | some tokens => rfl

@[simp] theorem use_contents (c : Tally) (completionTokens : Option ℕ) :
    (c.use completionTokens).contents = c.contents := by
  cases completionTokens with
  | none => rfl
  | some tokens => rfl

@[simp] theorem use_done (c : Tally) (completionTokens : Option ℕ) :
    (c.use completionTokens).done = c.done := by
  cases completionTokens with
  | none => rfl
  | some tokens => rfl

@[simp] theorem use_endsDone (c : Tally) (completionTokens : Option ℕ) :
    (c.use completionTokens).endsDone = c.endsDone := by
  cases completionTokens with
  | none => rfl
  | some tokens => rfl

/-- What the tally says of the chunks. -/
structure Counts (chunks : List Chunk) (c : Tally) : Prop where
  usage : c.usage = (chunks.filterMap Chunk.completionTokens).getLast?
  contents : c.contents = chunks.countP (fun chunk => chunk.HasContent)
  done : c.done = true ↔ .done ∈ chunks
  endsDone : c.endsDone = true ↔ EndsDone chunks

/-- A chunk that is neither a content nor `[DONE]`. -/
theorem endsDone_snoc {chunk : Chunk} (hdone : chunk ≠ .done) (hcontent : ¬ chunk.HasContent)
    (chunks : List Chunk) : EndsDone (chunks ++ [chunk]) ↔ EndsDone chunks := by
  have hnone : [chunk].filter (fun chunk => chunk = .done ∨ chunk.HasContent) = [] := by
    exact List.filter_singleton.trans (cond_eq_ite .. ▸ if_neg (by simp [hdone, hcontent]))
  rw [EndsDone, List.filter_append, hnone, List.append_nil]
  rfl

theorem Counts.quiet {chunks : List Chunk} {c : Tally} (h : Counts chunks c) {chunk : Chunk}
    (htokens : chunk.completionTokens = none) (hdone : chunk ≠ .done)
    (hcontent : ¬ chunk.HasContent) : Counts (chunks ++ [chunk]) c where
  usage := by
    rw [List.filterMap_append, List.filterMap_cons_none htokens, List.filterMap_nil,
      List.append_nil]
    exact h.usage
  contents := by
    rw [List.countP_append, List.countP_singleton, if_neg (by simpa using hcontent), add_zero]
    exact h.contents
  done := by
    rw [List.mem_append, List.mem_singleton, or_iff_left hdone.symm]
    exact h.done
  endsDone := h.endsDone.trans (endsDone_snoc hdone hcontent chunks).symm

theorem Counts.finish {chunks : List Chunk} {c : Tally} (h : Counts chunks c) :
    Counts (chunks ++ [.done]) c.finish where
  usage := by
    rw [List.filterMap_append, List.filterMap_cons_none rfl, List.filterMap_nil, List.append_nil]
    exact h.usage
  contents := by
    have hnot : ¬ Chunk.HasContent .done := not_false
    rw [List.countP_append, List.countP_singleton, if_neg (by simpa using hnot), add_zero]
    exact h.contents
  done := by simp [Tally.finish]
  endsDone := by simp [Tally.finish, EndsDone]

theorem step_data (c : Tally) (content : Content) (completionTokens : Option ℕ) :
    c.step (.data content completionTokens) =
      if content = .absent then c.use completionTokens
      else (c.use completionTokens).content := rfl

theorem getLast?_snoc_data (chunks : List Chunk) (content : Content)
    (completionTokens : Option ℕ) :
    ((chunks ++ [Chunk.data content completionTokens]).filterMap
        Chunk.completionTokens).getLast? =
      completionTokens.or (chunks.filterMap Chunk.completionTokens).getLast? := by
  cases completionTokens with
  | none => simp [Chunk.completionTokens]
  | some tokens => simp [Chunk.completionTokens]

/-- A delta without content. -/
theorem Counts.use {chunks : List Chunk} {c : Tally} (h : Counts chunks c)
    (completionTokens : Option ℕ) :
    Counts (chunks ++ [.data .absent completionTokens]) (c.use completionTokens) := by
  have hnot : ¬ Chunk.HasContent (.data .absent completionTokens) := not_not_intro rfl
  constructor
  · rw [use_usage, h.usage, getLast?_snoc_data]
  · rw [List.countP_append, List.countP_singleton, if_neg (by simpa using hnot), add_zero,
      use_contents]
    exact h.contents
  · rw [use_done, List.mem_append, List.mem_singleton, or_iff_left Chunk.noConfusion]
    exact h.done
  · rw [use_endsDone, endsDone_snoc Chunk.noConfusion hnot]
    exact h.endsDone

theorem Counts.content {chunks : List Chunk} {c : Tally} (h : Counts chunks c) {content : Content}
    (hcontent : content ≠ .absent) (completionTokens : Option ℕ) :
    Counts (chunks ++ [.data content completionTokens]) (c.use completionTokens).content := by
  have hhas : Chunk.HasContent (.data content completionTokens) := hcontent
  constructor
  · show (c.use completionTokens).usage = _
    rw [use_usage, h.usage, getLast?_snoc_data]
  · rw [List.countP_append, List.countP_singleton, if_pos (by simpa using hhas), ← h.contents]
    exact congrArg (· + 1) (use_contents c completionTokens)
  · show (c.use completionTokens).done = true ↔ _
    rw [use_done, List.mem_append, List.mem_singleton, or_iff_left Chunk.noConfusion]
    exact h.done
  · refine iff_of_false Bool.false_ne_true (fun hends => ?_)
    have hlast : [Chunk.data content completionTokens].filter
        (fun chunk => chunk = .done ∨ chunk.HasContent) = [.data content completionTokens] :=
      List.filter_singleton.trans (cond_eq_ite .. ▸ if_pos (by simp [hhas]))
    rw [EndsDone, List.filter_append, hlast, List.getLast?_concat] at hends
    cases hends

theorem Counts.step {chunks : List Chunk} {c : Tally} (h : Counts chunks c) (chunk : Chunk) :
    Counts (chunks ++ [chunk]) (c.step chunk) := by
  cases chunk with
  | blank => exact h.quiet rfl Chunk.noConfusion not_false
  | done => exact h.finish
  | data content completionTokens =>
    rw [step_data]
    by_cases habsent : content = .absent
    · rw [if_pos habsent, habsent]
      exact h.use completionTokens
    · rw [if_neg habsent]
      exact h.content habsent completionTokens
  | malformed e => exact h.quiet rfl Chunk.noConfusion not_false

theorem counts_of (chunks : List Chunk) : Counts chunks (of chunks) := by
  induction chunks using List.reverseRecOn with
  | nil => exact ⟨rfl, rfl, by simp [of], by simp [of, EndsDone]⟩
  | append_singleton chunks chunk ih =>
    rw [of_snoc]
    exact ih.step chunk

end Tally

/-! ## Measurements -/

/-- The variables of the call after an answer of this tally, when the last reading of the clock
was not after `τ`. -/
structure Measured (start : ℚ) (c : Tally) (τ : ℚ) (p : Progress) : Prop where
  firstToken : p.firstTokenFlag = decide (c.contents ≠ 0)
  success : p.output.success = c.done
  tokens : p.output.outputLen = c.usage ∧ p.output.maxNewTokens = c.usage.getD 0
  itlLength : p.output.itl.length = c.contents - 1
  itlNonneg : ∀ x ∈ p.output.itl, 0 ≤ x
  itlSum : start + p.output.itl.sum ≤ p.mostRecentTimestamp
  recent : p.mostRecentTimestamp ≤ τ
  ttftNonneg : 0 ≤ p.output.ttft
  ttft : start + p.output.ttft ≤ τ
  noToken : c.contents = 0 → p.output.ttft = 0
  latency : 0 ≤ p.requestLatency ∧ p.requestLatency ≤ p.output.requestLatency
  inside : c.endsDone = true →
    p.output.ttft ≤ p.output.requestLatency ∧ p.output.itl.sum ≤ p.output.requestLatency

namespace Measured

variable {start τ now now' : ℚ} {c : Tally} {p : Progress}

theorem start_measured (start : ℚ) : Measured start {} start { mostRecentTimestamp := start } where
  firstToken := rfl
  success := rfl
  tokens := ⟨rfl, rfl⟩
  itlLength := rfl
  itlNonneg := fun _ hx => absurd hx List.not_mem_nil
  itlSum := (add_zero start).le
  recent := le_rfl
  ttftNonneg := le_rfl
  ttft := (add_zero start).le
  noToken := fun _ => rfl
  latency := ⟨le_rfl, le_rfl⟩
  inside := fun h => absurd h Bool.false_ne_true

theorem later (h : Measured start c τ p) (hτ : τ ≤ now) : Measured start c now p :=
  { h with
    recent := h.recent.trans hτ
    ttft := h.ttft.trans hτ }

theorem use (h : Measured start c τ p) (completionTokens : Option ℕ) :
    Measured start (c.use completionTokens) τ (match completionTokens with
      | some completionTokens => { p with output := { p.output with
          outputLen := some completionTokens, maxNewTokens := completionTokens } }
      | none => p) := by
  cases completionTokens with
  | none => exact h
  | some tokens => exact { h with tokens := ⟨rfl, rfl⟩ }

theorem absent (h : Measured start c τ p) (hτ : τ ≤ now) :
    Measured start c now { p with mostRecentTimestamp := now } :=
  { h with
    itlSum := h.itlSum.trans (h.recent.trans hτ)
    recent := le_rfl
    ttft := h.ttft.trans hτ }

/-- The first content, whose chunk was read at `now` and which is measured at `now'`. -/
theorem first (h : Measured start c τ p) (hflag : p.firstTokenFlag = false) (hτ : τ ≤ now)
    (hnow : now ≤ now') (text : String) :
    Measured start c.content now' { p with
      firstTokenFlag := true
      output := { p.output with ttft := now' - start }
      generatorText := text
      mostRecentTimestamp := now } := by
  have hnone : c.contents = 0 := by
    simpa [h.firstToken] using hflag
  have hstart : start ≤ now' := by
    linarith [h.ttftNonneg, h.ttft]
  refine { h with
    firstToken := by simp [Tally.content]
    itlLength := ?_
    itlSum := h.itlSum.trans (h.recent.trans hτ)
    recent := hnow
    ttftNonneg := sub_nonneg.mpr hstart
    ttft := (add_sub_cancel start now').le
    noToken := fun hzero => absurd hzero (Nat.succ_ne_zero _)
    inside := fun hends => absurd hends Bool.false_ne_true }
  -- the flag was false, so no latency between tokens was stored yet
  have hlength := h.itlLength
  rw [hnone] at hlength
  simpa [Tally.content, hnone] using hlength

/-- A later content. -/
theorem next (h : Measured start c τ p) (hflag : p.firstTokenFlag = true) (hτ : τ ≤ now)
    (text : String) :
    Measured start c.content now { p with
      output := { p.output with itl := p.output.itl ++ [now - p.mostRecentTimestamp] }
      generatorText := text
      mostRecentTimestamp := now } := by
  have hsome : c.contents ≠ 0 := by
    simpa [h.firstToken] using hflag
  have hrecent := h.recent.trans hτ
  refine { h with
    firstToken := by simp [Tally.content, hflag]
    itlLength := ?_
    itlNonneg := ?_
    itlSum := ?_
    recent := le_rfl
    ttft := h.ttft.trans hτ
    noToken := fun hzero => absurd hzero (Nat.succ_ne_zero _)
    inside := fun hends => absurd hends Bool.false_ne_true }
  -- one more latency, not negative, and their sum still ends at the newest token
  · have hlength := h.itlLength
    simp only [List.length_append, List.length_singleton, Tally.content]
    omega
  · intro x hx
    rcases List.mem_append.mp hx with hold | hnew
    · exact h.itlNonneg x hold
    · rw [List.mem_singleton.mp hnew]
      exact sub_nonneg.mpr hrecent
  · have hsum := h.itlSum
    rw [List.sum_append, List.sum_singleton]
    linarith

/-- A `[DONE]`, after which the clock is read twice. -/
theorem finish (h : Measured start c τ p) (hτ : τ ≤ now) (hnow : now ≤ now') :
    Measured start c.finish now' { p with
      requestLatency := now - start
      output := { p.output with success := true, requestLatency := now' - start } } := by
  have hstart : start ≤ now := by
    linarith [h.ttftNonneg, h.ttft]
  refine { h.later (hτ.trans hnow) with
    success := rfl
    latency := ⟨sub_nonneg.mpr hstart, sub_le_sub_right hnow start⟩
    inside := fun _ => ⟨?_, ?_⟩ }
  · show p.output.ttft ≤ now' - start
    linarith [h.ttft]
  · show p.output.itl.sum ≤ now' - start
    linarith [h.itlSum, h.recent]

end Measured

/-! ## Among other tasks -/

/-- What other tasks do takes time and keeps a good cache good; it is not restricted otherwise. -/
structure Elsewhere (good : κ → Prop) (s t : SendState κ) : Prop where
  ticks : s.ticks ≤ t.ticks
  cache : good s.state.replica.cache → good t.state.replica.cache

/-- It is `τ` or later, and the cache is good in the calm case. -/
structure Since (env : ClientEnv) (good : κ → Prop) (Calm : Prop) (τ : ℚ) (s : SendState κ) :
    Prop where
  clock : τ ≤ env.perfCounter s.ticks
  cache : Calm → good s.state.replica.cache

section Calls

variable {env : ClientEnv} {good : κ → Prop} {Calm : Prop} {τ : ℚ}

theorem ensures_wait (hclock : Monotone env.perfCounter) :
    Coro.Ensures (Elsewhere good) (Since env good Calm τ) Coro.suspend
      (fun _ => Since env good Calm τ) :=
  Coro.Ensures.suspend (fun _ _ hs hother =>
    ⟨hs.clock.trans (hclock hother.ticks), fun hc => hother.cache (hs.cache hc)⟩)

theorem ensures_now (hclock : Monotone env.perfCounter) :
    Coro.Ensures (Elsewhere good) (Since env good Calm τ) (readClock env)
      (fun now s => τ ≤ now ∧ Since env good Calm now s) :=
  Coro.Ensures.act (fun s hs => ⟨hs.clock, hclock (Nat.le_succ s.ticks), hs.cache⟩)

/-- A method that returns in the calm case and leaves a good cache then. -/
theorem ensures_method {α : Type} {code : Py (ReplicaState κ) α}
    (hcode : Calm → ∀ state, good state.replica.cache →
      ∃ value state', code state = .ok value state' ∧ good state'.replica.cache) :
    Coro.Ensures (Elsewhere good) (Since env good Calm τ) (call code)
      (fun result s => Since env good Calm τ s ∧ (Calm → ∃ value, result = .ok value)) := by
  apply Coro.Ensures.act
  intro s hs
  cases hrun : code s.state with
  | ok value state =>
    refine ⟨⟨hs.clock, fun hc => ?_⟩, fun _ => ⟨value, rfl⟩⟩
    obtain ⟨value', state', hrun', hgood⟩ := hcode hc s.state (hs.cache hc)
    obtain ⟨-, rfl⟩ := EStateM.Result.ok.inj (hrun.symm.trans hrun')
    exact hgood
  | error fault state =>
    have hraises : ¬ Calm := by
      intro hc
      obtain ⟨value', state', hrun', -⟩ := hcode hc s.state (hs.cache hc)
      cases hrun.symm.trans hrun'
    exact ⟨⟨hs.clock, fun hc => absurd hc hraises⟩, fun hc => absurd hc hraises⟩

variable [LookupCache κ] (request : Request)

theorem addRequest_returns (now : ℚ) (state : ReplicaState κ) (hgood : good state.replica.cache) :
    ∃ value state', Replica.addRequest (some request) now state = .ok value state' ∧
      good state'.replica.cache := by
  rcases ReplicaState.addRequest_cases (some request) now state with
    hrefused | ⟨r, tokens, -, -, -, hadded⟩
  · exact ⟨false, state, hrefused, hgood⟩
  · exact ⟨true, _, hadded, hgood⟩

theorem completeRequestPrefill_returns (hsaves : GoodSaves good env.encode) (ttft now : ℚ)
    (state : ReplicaState κ) (hgood : good state.replica.cache) :
    ∃ value state', Replica.completeRequestPrefill (some request) ttft now state =
      .ok value state' ∧ good state'.replica.cache := by
  obtain ⟨num, cache', hsave', hgood'⟩ :=
    hsaves.savePrefill request.id request.inputIds _ hgood
  obtain ⟨cache, ⟨fault, hsave, -⟩ | ⟨value, hsave, ⟨-, heq⟩ | ⟨-, heq⟩⟩⟩ :=
    ReplicaState.completeRequestPrefill_cases request ttft now state
  · cases hsave'.symm.trans hsave
  · obtain ⟨-, rfl⟩ := EStateM.Result.ok.inj (hsave'.symm.trans hsave)
    exact ⟨true, _, heq, hgood'⟩
  · obtain ⟨-, rfl⟩ := EStateM.Result.ok.inj (hsave'.symm.trans hsave)
    exact ⟨false, _, heq, hgood'⟩

theorem completeRequestDecode_returns (hsaves : GoodSaves good env.encode) (outputText : String)
    (state : ReplicaState κ) (hgood : good state.replica.cache) :
    ∃ value state', Replica.completeRequestDecode env.encode (some request) outputText state =
      .ok value state' ∧ good state'.replica.cache := by
  obtain ⟨cache, ⟨outputTokenIds, value, -, hsave, heq⟩ | ⟨fault, hcause, -⟩⟩ :=
    ReplicaState.completeRequestDecode_cases env.encode request outputText state
  · obtain ⟨num, cache', hsave', hgood'⟩ :=
      hsaves.save (request.inputIds ++ outputTokenIds) _ hgood
    obtain ⟨-, rfl⟩ := EStateM.Result.ok.inj (hsave'.symm.trans hsave)
    exact ⟨(), _, heq, hgood'⟩
  · rcases hcause with ⟨e, hencode⟩ | ⟨tokenIds, hsave⟩
    · obtain ⟨outputTokenIds, hencode'⟩ := hsaves.encode outputText
      cases hencode.symm.trans hencode'
    · obtain ⟨num, cache', hsave', -⟩ := hsaves.save tokenIds _ hgood
      cases hsave.symm.trans hsave'

end Calls

/-! ## Following the stream -/

/-- What a part of the exchange leaves: measurements of this tally and chunks that are sound, or
a fault, which in the calm case takes a chunk that is not. -/
def Reads (env : ClientEnv) (good : κ → Prop) (Calm : Prop) (start : ℚ) (c : Tally)
    (sound : Prop) (result : Progress × Except Fault Unit) (s : SendState κ) : Prop :=
  match result.2 with
  | .ok () => sound ∧ ∃ τ, Measured start c τ result.1 ∧ Since env good Calm τ s
  | .error _ => Calm → ¬ sound

section Stream

variable [LookupCache κ] {env : ClientEnv} {good : κ → Prop} {Calm : Prop} {request : Request}
  {start τ timestamp : ℚ} {c : Tally} {p : Progress}

/-- The text and the time of the chunk are noted after the content was measured. -/
theorem handleToken_reads (hclock : Monotone env.perfCounter)
    (hcalm : Calm → GoodSaves good env.encode) (h : Measured start c τ p) (hτ : τ ≤ timestamp) :
    Coro.Ensures (Elsewhere good) (Since env good Calm timestamp)
      (handleToken env request start p timestamp)
      (fun result s => match result.2 with
        | .ok () => ∃ τ', (∀ text, Measured start c.content τ'
            { result.1 with generatorText := text, mostRecentTimestamp := timestamp }) ∧
            Since env good Calm τ' s
        | .error _ => ¬ Calm) := by
  unfold handleToken
  -- the first token completes the prefill, which can raise; any later one only stores a time
  by_cases hflag : p.firstTokenFlag = false
  · rw [if_pos hflag]
    refine (ensures_now hclock).bind (fun now => .assume (fun hnow => ?_))
    refine (ensures_now hclock).bind (fun completedAt => .assume (fun hcompleted => ?_))
    refine (ensures_method (fun hc state hgood => completeRequestPrefill_returns request
      (hcalm hc) (now - start) completedAt state hgood)).bind (fun result => ?_)
    cases result with
    | ok value =>
      refine Coro.Ensures.ret (fun s hs => ⟨completedAt, fun text => ?_, hs.1⟩)
      exact (h.first hflag hτ hnow text).later hcompleted
    | error fault =>
      refine Coro.Ensures.ret (fun s hs hc => ?_)
      obtain ⟨value, hvalue⟩ := hs.2 hc
      cases hvalue
  · rw [if_neg hflag]
    have htrue : p.firstTokenFlag = true := by
      simpa using hflag
    exact Coro.Ensures.ret (fun s hs => ⟨timestamp, fun text => h.next htrue hτ text, hs⟩)

theorem handleContent_reads (hclock : Monotone env.perfCounter)
    (hcalm : Calm → GoodSaves good env.encode) (h : Measured start c τ p) (hτ : τ ≤ timestamp)
    (content : Content) (hcontent : content ≠ .absent) :
    Coro.Ensures (Elsewhere good) (Since env good Calm timestamp)
      (handleContent env request start p timestamp content)
      (Reads env good Calm start c.content (content ≠ .other)) := by
  refine (handleToken_reads hclock hcalm h hτ).bind ?_
  rintro ⟨p', result⟩
  cases result with
  | error fault => exact Coro.Ensures.ret (fun s hs hc => absurd hc hs)
  | ok value =>
    cases content with
    | absent => exact absurd rfl hcontent
    | text text =>
      refine Coro.Ensures.ret (fun s hs => ?_)
      obtain ⟨τ', hmeasured, hsince⟩ := hs
      exact ⟨Content.noConfusion, τ', hmeasured _, hsince⟩
    | other => exact Coro.Ensures.ret (fun s hs hc hnot => hnot rfl)

theorem handleChunk_reads (hclock : Monotone env.perfCounter)
    (hcalm : Calm → GoodSaves good env.encode) (h : Measured start c τ p) (chunk : Chunk) :
    Coro.Ensures (Elsewhere good) (Since env good Calm τ)
      (handleChunk env request start p chunk)
      (Reads env good Calm start (c.step chunk) chunk.Sound) := by
  cases chunk with
  | blank => exact Coro.Ensures.ret (fun s hs => ⟨trivial, τ, h, hs⟩)
  | malformed e => exact Coro.Ensures.ret (fun s hs hc hsound => hsound)
  -- `[DONE]` reads the clock twice, and the second reading bounds what it stored
  | done =>
    refine (ensures_now hclock).bind (fun now => .assume (fun hnow => ?_))
    refine (ensures_now hclock).bind (fun now' => .assume (fun hnow' => ?_))
    refine (ensures_method (fun hc state hgood => completeRequestDecode_returns request
      (hcalm hc) p.generatorText state hgood)).bind (fun result => ?_)
    cases result with
    | ok value =>
      exact Coro.Ensures.ret (fun s hs => ⟨trivial, now', h.finish hnow hnow', hs.1⟩)
    | error fault =>
      refine Coro.Ensures.ret (fun s hs hc => ?_)
      obtain ⟨value, hvalue⟩ := hs.2 hc
      cases hvalue
  | data content completionTokens =>
    refine (ensures_now hclock).bind (fun timestamp => .assume (fun htimestamp => ?_))
    have hused := h.use completionTokens
    rw [Tally.step_data]
    -- an absent content is only a usage line
    by_cases habsent : content = .absent
    · simp only [habsent, if_true]
      exact Coro.Ensures.ret (fun s hs => ⟨trivial, timestamp, hused.absent htimestamp, hs⟩)
    · simp only [habsent, if_false]
      have hsound : content ≠ .other ↔ Chunk.Sound (.data content completionTokens) := by
        cases content with
        | absent => exact absurd rfl habsent
        | text text => exact iff_of_true Content.noConfusion trivial
        | other => exact iff_of_false (not_not_intro rfl) not_false
      rw [← propext hsound]
      exact handleContent_reads hclock hcalm hused htimestamp content habsent

theorem handleStream_reads (hclock : Monotone env.perfCounter)
    (hcalm : Calm → GoodSaves good env.encode) (h : Measured start c τ p)
    (chunks : List Chunk) :
    Coro.Ensures (Elsewhere good) (Since env good Calm τ)
      (handleStream env request start p chunks)
      (Reads env good Calm start (chunks.foldl Tally.step c)
        (∀ chunk ∈ chunks, chunk.Sound)) := by
  -- induction on the chunks, with the tally and the last reading moving along
  induction chunks generalizing c τ p with
  | nil =>
    have hsound : ∀ chunk ∈ ([] : List Chunk), chunk.Sound :=
      fun _ hmem => absurd hmem List.not_mem_nil
    exact Coro.Ensures.ret (fun s hs => ⟨hsound, τ, h, hs⟩)
  | cons chunk chunks ih =>
    refine (ensures_wait hclock).bind (fun _ => ?_)
    refine (handleChunk_reads hclock hcalm h chunk).bind ?_
    rintro ⟨p', result⟩
    cases result with
    | error fault =>
      exact Coro.Ensures.ret (fun s hs hc hall => hs hc (hall chunk (List.mem_cons_self ..)))
    | ok value =>
      intro s result t hs hrun
      obtain ⟨hsound, τ', hmeasured, hsince⟩ := hs
      have hrest := ih hmeasured s result t hsince hrun
      cases hresult : result.2 with
      | ok value =>
        simp only [Reads, hresult] at hrest ⊢
        exact ⟨List.forall_mem_cons.mpr ⟨hsound, hrest.1⟩, hrest.2⟩
      | error fault =>
        simp only [Reads, hresult] at hrest ⊢
        exact fun hc hall => hrest hc (fun c hmem => hall c (List.mem_cons_of_mem _ hmem))

/-! ## The whole call -/

/-- The tally of an exchange in which nothing is raised. -/
def HttpOutcome.tally : HttpOutcome → Tally
  | .failed _ => {}
  | .responded status chunks _ => if status = 200 then Tally.of chunks else {}

theorem HttpOutcome.Clean.completes {http : HttpOutcome} (hclean : http.Clean)
    (hdone : http.tally.done = true) :
    ∃ chunks, http.Completes chunks ∧ http.tally = Tally.of chunks := by
  cases http with
  | failed fault => exact hclean.elim
  | responded status chunks ending =>
    by_cases hstatus : status = 200
    · obtain ⟨hsound, rfl⟩ := hclean hstatus
      subst hstatus
      exact ⟨chunks, ⟨rfl, hsound, (Tally.counts_of chunks).done.mp hdone⟩, rfl⟩
    · rw [HttpOutcome.tally, if_neg hstatus] at hdone
      cases hdone

theorem HttpOutcome.Completes.clean {http : HttpOutcome} {chunks : List Chunk}
    (h : http.Completes chunks) : http.Clean ∧ http.tally.done = true := by
  obtain ⟨rfl, hsound, hdone⟩ := h
  exact ⟨fun _ => ⟨hsound, rfl⟩, (Tally.counts_of chunks).done.mpr hdone⟩

theorem exchange_reads (hclock : Monotone env.perfCounter)
    (hcalm : Calm → GoodSaves good env.encode) (http : HttpOutcome) :
    Coro.Ensures (Elsewhere good) (Since env good Calm start)
      (exchange env request start { mostRecentTimestamp := start } http)
      (Reads env good Calm start http.tally http.Clean) := by
  refine (ensures_wait hclock).bind (fun _ => ?_)
  cases http with
  | failed fault => exact Coro.Ensures.ret (fun s hs hc hclean => hclean)
  | responded status chunks ending =>
    -- any status but 200 is reported without a stream
    by_cases hstatus : status = 200
    · simp only [hstatus, if_true]
      refine (ensures_now hclock).bind (fun now => .assume (fun hnow => ?_))
      refine (ensures_method (fun _ state hgood => addRequest_returns request now state
        hgood)).bind (fun result => ?_)
      cases result with
      | error fault =>
        refine Coro.Ensures.ret (fun s hs hc => ?_)
        obtain ⟨added, hadded⟩ := hs.2 hc
        cases hadded
      | ok added =>
        -- the stream, then the wait for its end, and the end itself
        refine Coro.Ensures.bind (R := Reads env good Calm start (Tally.of chunks)
          (∀ chunk ∈ chunks, chunk.Sound)) ?_ ?_
        · intro s result t hs hrun
          exact handleStream_reads hclock hcalm ((Measured.start_measured start).later hnow)
            chunks s result t hs.1 hrun
        · rintro ⟨p', result⟩
          cases result with
          | error fault => exact Coro.Ensures.ret (fun s hs hc hclean => hs hc (hclean rfl).1)
          | ok value =>
            intro s result t hs hrun
            obtain ⟨hsound, τ, hmeasured, hsince⟩ := hs
            obtain ⟨_, u, hwait, hend⟩ := Coro.runs_bind.mp hrun
            have hlater := ensures_wait hclock s _ u hsince hwait
            cases ending with
            | closed =>
              obtain ⟨rfl, rfl⟩ := Coro.runs_ret.mp hend
              refine ⟨fun _ => ⟨hsound, rfl⟩, τ, ?_, hlater⟩
              simpa [HttpOutcome.tally] using hmeasured
            | raised fault =>
              obtain ⟨rfl, rfl⟩ := Coro.runs_ret.mp hend
              exact fun hc hclean => StreamEnd.noConfusion (hclean rfl).2
    · simp only [hstatus, if_false]
      refine Coro.Ensures.ret (fun s hs => ⟨fun h => absurd h hstatus, start, ?_, hs⟩)
      simpa [HttpOutcome.tally, hstatus] using Measured.start_measured start

omit [LookupCache κ] in
/-- A success is reported with the time for each output token, and a failure as it is. -/
theorem conclude_reports {P : SendState κ → Prop} (p : Progress) :
    Coro.Ensures (Elsewhere good) P (conclude request p) (fun result _ => ∀ out, result = .ok out →
      (p.output.success = true ∧ p.requestLatency ≠ 0 ∧ out = some { p.output with
        tpot := some ((p.output.requestLatency - p.output.ttft) / max 1 request.outputLen) }) ∨
      (p.output.success = false ∧ out = some p.output)) := by
  intro s result t _ hrun out hout
  obtain ⟨_, u, -, hrest⟩ := Coro.runs_bind.mp hrun
  -- only a success divides by the latency, and only a failure aborts
  by_cases hsuccess : p.output.success
  · simp only [if_pos hsuccess] at hrest
    by_cases hlatency : p.requestLatency = 0
    · simp only [if_pos hlatency] at hrest
      obtain ⟨rfl, -⟩ := Coro.runs_ret.mp hrest
      cases hout
    · simp only [if_neg hlatency] at hrest
      obtain ⟨_, v, -, hreturn⟩ := Coro.runs_bind.mp hrest
      obtain ⟨rfl, -⟩ := Coro.runs_ret.mp hreturn
      exact Or.inl ⟨hsuccess, hlatency, (Except.ok.inj hout).symm⟩
  · simp only [if_neg hsuccess] at hrest
    obtain ⟨aborted, v, -, hreturn⟩ := Coro.runs_bind.mp hrest
    cases aborted with
    | ok aborted =>
      obtain ⟨rfl, -⟩ := Coro.runs_ret.mp hreturn
      exact Or.inr ⟨Bool.eq_false_iff.mpr hsuccess, (Except.ok.inj hout).symm⟩
    | error fault =>
      obtain ⟨rfl, -⟩ := Coro.runs_ret.mp hreturn
      cases hout

omit [LookupCache κ] in
theorem conclude_failed {s t : SendState κ} {out : Option RequestFuncOutput}
    (hrun : Coro.Runs (Elsewhere good)
      (conclude request { p with output := { p.output with success := false } }) s (.ok out) t) :
    ∃ report, out = some report ∧ report.success = false := by
  rcases conclude_reports (P := fun _ => True) _ s _ t trivial hrun out rfl with
    ⟨hsuccess, -, -⟩ | ⟨hfailure, rfl⟩
  · cases hsuccess
  · exact ⟨_, rfl, hfailure⟩

/-- What is reported of an answer that was read to its end. -/
structure Report (request : Request) (chunks : List Chunk) (out : RequestFuncOutput) : Prop where
  outputLen : out.outputLen = (chunks.filterMap Chunk.completionTokens).getLast?
  maxNewTokens : out.maxNewTokens = out.outputLen.getD 0
  itlLength : out.itl.length = chunks.countP (fun chunk => chunk.HasContent) - 1
  itlNonneg : ∀ x ∈ out.itl, 0 ≤ x
  ttftNonneg : 0 ≤ out.ttft
  noToken : (∀ chunk ∈ chunks, ¬ chunk.HasContent) → out.ttft = 0
  latencyPos : 0 < out.requestLatency
  tpot : ∃ tpot, out.tpot = some tpot ∧
    tpot * max 1 request.outputLen + out.ttft = out.requestLatency
  inside : EndsDone chunks → out.ttft ≤ out.requestLatency ∧ out.itl.sum ≤ out.requestLatency

theorem Measured.report {chunks : List Chunk} (h : Measured start (Tally.of chunks) τ p)
    (hlatency : p.requestLatency ≠ 0) :
    Report request chunks { p.output with
      tpot := some ((p.output.requestLatency - p.output.ttft) / max 1 request.outputLen) } where
  outputLen := h.tokens.1.trans (Tally.counts_of chunks).usage
  maxNewTokens := by
    show p.output.maxNewTokens = p.output.outputLen.getD 0
    rw [h.tokens.1]
    exact h.tokens.2
  itlLength := by
    rw [← (Tally.counts_of chunks).contents]
    exact h.itlLength
  itlNonneg := h.itlNonneg
  ttftNonneg := h.ttftNonneg
  noToken := fun hnone => by
    refine h.noToken ?_
    rw [(Tally.counts_of chunks).contents, List.countP_eq_zero]
    exact fun chunk hmem hhas => hnone chunk hmem (of_decide_eq_true hhas)
  latencyPos := (lt_of_le_of_ne h.latency.1 (Ne.symm hlatency)).trans_le h.latency.2
  -- the division is undone in exact arithmetic
  tpot := by
    refine ⟨_, rfl, ?_⟩
    have hpos : (0 : ℚ) < (max 1 request.outputLen : ℕ) :=
      Nat.cast_pos.mpr (lt_max_of_lt_left one_pos)
    show (p.output.requestLatency - p.output.ttft) / _ * _ + p.output.ttft = _
    rw [div_mul_cancel₀ _ hpos.ne', sub_add_cancel]
  inside := fun hends => h.inside ((Tally.counts_of chunks).endsDone.mpr hends)

end Stream

/-- When a call returns a success, the whole answer was read, a `[DONE]` was in it, and the
report is in accordance with the answer. As long as saving in the cache and the tokenizer do not
raise, each such answer that is returned from is reported as a success. -/
theorem report_sound [LookupCache κ] (env : ClientEnv) (hclock : Monotone env.perfCounter)
    (good : κ → Prop) (targetIpPort : String) (request : Request) (http : HttpOutcome)
    {s t : SendState κ} {out : Option RequestFuncOutput}
    (hrun : Coro.Runs (Elsewhere good)
      (asyncSendRequest env (some targetIpPort) (some request) http) s (.ok out) t) :
    ∃ report, out = some report ∧
      (report.success = true → ∃ chunks, http.Completes chunks ∧ Report request chunks report) ∧
      (GoodSaves good env.encode → good s.state.replica.cache →
        (∃ chunks, http.Completes chunks) → report.success = true) := by
  set Calm : Prop := GoodSaves good env.encode ∧ good s.state.replica.cache with hCalm
  obtain ⟨now, u, hread, hrest⟩ := Coro.runs_bind.mp hrun
  obtain ⟨rfl, rfl⟩ := Coro.runs_act.mp hread
  by_cases hlen : request.outputLen = 0
  · simp only [if_pos hlen] at hrest
    obtain ⟨hout, -⟩ := Coro.runs_ret.mp hrest
    cases hout
  simp only [if_neg hlen] at hrest
  set start := min (env.perfCounter s.ticks) request.arrivedAt with hstart
  have hsince : Since env good Calm start { s with ticks := s.ticks + 1 } :=
    ⟨(min_le_left _ _).trans (hclock (Nat.le_succ s.ticks)), And.right⟩
  obtain ⟨_, v, hinsert, hrest⟩ := Coro.runs_bind.mp hrest
  have hwaited := ensures_wait hclock _ _ v hsince hinsert
  obtain ⟨⟨p, result⟩, w, hexchange, hreturn⟩ := Coro.runs_bind.mp hrest
  have hreads := exchange_reads hclock (fun hc : Calm => hc.1) http v _ w hwaited hexchange
  cases result with
  | ok value =>
    obtain ⟨hclean, τ, hmeasured, -⟩ := hreads
    rcases conclude_reports (P := fun _ => True) p w _ t trivial hreturn out rfl with
      ⟨hsuccess, hlatency, rfl⟩ | ⟨hfailure, rfl⟩
    · have hdone : http.tally.done = true := hmeasured.success.symm.trans hsuccess
      obtain ⟨chunks, hcompletes, htally⟩ := hclean.completes hdone
      rw [htally] at hmeasured
      exact ⟨_, rfl, fun _ => ⟨chunks, hcompletes, hmeasured.report hlatency⟩,
        fun _ _ _ => hsuccess⟩
    · refine ⟨_, rfl, fun hsuccess => ?_, fun _ _ ⟨chunks, hcompletes⟩ => ?_⟩
      · exact absurd (hsuccess.symm.trans hfailure) (by decide)
      · exact hmeasured.success.trans hcompletes.clean.2
  | error fault =>
    -- whatever was raised, a failure is reported
    have hfailed : ∃ report, out = some report ∧ report.success = false := by
      cases fault with
      | hang =>
        obtain ⟨hout, -⟩ := Coro.runs_ret.mp hreturn
        cases hout
      | exception e => exact conclude_failed hreturn
      | cancelled => exact conclude_failed hreturn
    obtain ⟨report, rfl, hfailure⟩ := hfailed
    refine ⟨report, rfl, fun hsuccess => ?_, fun hsaves hgood ⟨chunks, hcompletes⟩ => ?_⟩
    · exact absurd (hsuccess.symm.trans hfailure) (by decide)
    · exact absurd hcompletes.clean.1 (hreads ⟨hsaves, hgood⟩)

/-- Two contents, the second with the number of tokens. -/
def twoTokens : List Chunk := [.data (.text "a") none, .data (.text "b") (some 2), .done]

/-- What `tickingEnv` measures of them. -/
def twoTokensOut : RequestFuncOutput where
  success := true
  requestLatency := 7
  ttft := 3
  itl := [3]
  outputLen := some 2
  maxNewTokens := 2
  tpot := some 4

/-- The report of these is in accordance with them. -/
theorem report_sound_twoTokens : Report sampleRequest twoTokens twoTokensOut := by
  have hrun := Coro.runs_atomically
    (fun s => (⟨le_rfl, id⟩ : Elsewhere (fun _ => True) s s))
    (asyncSendRequest tickingEnv (some "replica") (some sampleRequest)
      (.responded 200 twoTokens .closed)) idleReplica
  have hout : ((asyncSendRequest tickingEnv (some "replica") (some sampleRequest)
      (.responded 200 twoTokens .closed)).atomically idleReplica).1 =
        .ok (some twoTokensOut) := by
    decide +kernel
  rw [hout] at hrun
  have hclock : Monotone tickingEnv.perfCounter := fun _ _ h => Nat.cast_le.mpr h
  obtain ⟨report, hreport, hsound, -⟩ := report_sound tickingEnv hclock (fun _ => True) "replica"
    sampleRequest (.responded 200 twoTokens .closed) hrun
  obtain rfl := Option.some.inj hreport
  obtain ⟨chunks, hcompletes, hin⟩ := hsound rfl
  -- the chunks are those of the answer
  obtain ⟨-, rfl, -⟩ := HttpOutcome.responded.inj hcompletes.responded
  exact hin

end DualMap.Client
