import DualMap.Entities.Replica
import DualMap.Foundation.Coroutine

/-!
# Sending a Request to a Replica

`async_send_request` posts one request to its replica and follows the streamed answer. It
tells the replica when the answer begins (`add_request`), when the first token arrives
(`complete_request_prefill`), when the answer is complete (`complete_request_decode`), and,
unless all went well, that the request is over (`abort_request`).

What the server does is an argument: `HttpOutcome` lists the chunks of the stream as they
are after decoding, and says how it ends. Other tasks run wherever this one waits. The
metrics it records are kept elsewhere; here only the waiting for them remains. Times are exact
rationals.
-/

namespace DualMap.Client

open Cache

/-! ## What the server sends -/

/-- `delta.get("content", None)`: nothing (also `None` or an empty text), a text, or some
other value that Python takes for true. -/
inductive Content where
  | absent
  | text (text : String)
  | other
  deriving DecidableEq

/-- A chunk of the response. -/
inductive Chunk where
  /-- Nothing but white space. -/
  | blank
  /-- `data: [DONE]`. -/
  | done
  /-- A JSON object with a delta and perhaps the number of tokens used. -/
  | data (content : Content) (completionTokens : Option ℕ)
  /-- Decoding it or looking up its parts raises. -/
  | malformed (e : PyException)
  deriving DecidableEq

/-- How a stream ends: it is closed, or reading on raises or is cancelled. -/
inductive StreamEnd where
  | closed
  | raised (f : Fault)
  deriving DecidableEq

/-- What becomes of the POST. -/
inductive HttpOutcome where
  | failed (f : Fault)
  | responded (status : ℕ) (chunks : List Chunk) (ending : StreamEnd)
  deriving DecidableEq

/-! ## The state around a call -/

/-- The replica, the requests and the clock; `budgetByOthers` sums up what other tasks did
to the budget of the replica and is read by no code. -/
structure SendState (κ : Type) where
  state : ReplicaState κ
  ticks : ℕ
  budgetByOthers : ℤ

/-- `time.perf_counter()` and the tokenizer. -/
structure ClientEnv where
  perfCounter : ℕ → ℚ
  encode : String → Except PyException (List ℕ)

/-- The fields of `RequestFuncOutput` that the call computes. -/
structure RequestFuncOutput where
  success : Bool := false
  requestLatency : ℚ := 0
  ttft : ℚ := 0
  itl : List ℚ := []
  outputLen : Option ℕ := none
  maxNewTokens : ℕ := 0
  tpot : Option ℚ := none
  deriving DecidableEq

/-- The local variables of the call. -/
structure Progress where
  requestLatency : ℚ := 0
  firstTokenFlag : Bool := false
  generatorText : String := ""
  mostRecentTimestamp : ℚ
  output : RequestFuncOutput := {}
  deriving DecidableEq

variable {κ : Type}

/-- Read the clock. -/
def readClock (env : ClientEnv) : Coro (SendState κ) ℚ :=
  Coro.act (fun s => (env.perfCounter s.ticks, { s with ticks := s.ticks + 1 }))

/-- Call a method of the replica. None of them waits. -/
def call {α : Type} (code : Py (ReplicaState κ) α) : Coro (SendState κ) (Except Fault α) :=
  Coro.act (fun s =>
    match code s.state with
    | .ok value state => (.ok value, { s with state := state })
    | .error fault state => (.error fault, { s with state := state }))

/-! ## Following the stream -/

section Stream

variable [PrefixCache κ] (env : ClientEnv) (request : Request) (requestStartTime : ℚ)

/-- The first content ends the prefill; the time to each later one is recorded. -/
def handleToken (p : Progress) (timestamp : ℚ) :
    Coro (SendState κ) (Progress × Except Fault Unit) :=
  if p.firstTokenFlag = false then do
    let now ← readClock env
    let ttft := now - requestStartTime
    let p := { p with firstTokenFlag := true, output := { p.output with ttft := ttft } }
    -- `complete_request_prefill` reads the clock itself
    let completedAt ← readClock env
    let result ← call (Replica.completeRequestPrefill (some request) ttft completedAt)
    -- whether the request was found is only logged
    pure (p, result.map (fun _ => ()))
  else
    -- decoding: the time since the last chunk
    let itl := p.output.itl ++ [timestamp - p.mostRecentTimestamp]
    pure ({ p with output := { p.output with itl := itl } }, .ok ())

/-- A delta with content. -/
def handleContent (p : Progress) (timestamp : ℚ) (content : Content) :
    Coro (SendState κ) (Progress × Except Fault Unit) := do
  let (p, result) ← handleToken env request requestStartTime p timestamp
  match result, content with
  | .error fault, _ => pure (p, .error fault)
  | .ok (), .text text =>
    pure ({ p with generatorText := p.generatorText ++ text, mostRecentTimestamp := timestamp },
      .ok ())
  -- `generator_text += delta["content"]` with something that is no text
  | .ok (), _ => pure (p, .error (.exception .typeError))

/-- The body of the loop over the chunks. -/
def handleChunk (p : Progress) : Chunk → Coro (SendState κ) (Progress × Except Fault Unit)
  | .blank => pure (p, .ok ())
  | .malformed e => pure (p, .error (.exception e))
  | .done => do
    let now ← readClock env
    let now' ← readClock env
    let p := { p with
      requestLatency := now - requestStartTime
      output := { p.output with success := true, requestLatency := now' - requestStartTime } }
    -- `success` is already set when this raises
    let result ← call (Replica.completeRequestDecode env.encode (some request) p.generatorText)
    pure (p, result)
  | .data content completionTokens => do
    let timestamp ← readClock env
    -- `'usage' in data`
    let p := match completionTokens with
      | some completionTokens => { p with output := { p.output with
          outputLen := some completionTokens, maxNewTokens := completionTokens } }
      | none => p
    if content = .absent then
      pure ({ p with mostRecentTimestamp := timestamp }, .ok ())
    else
      handleContent env request requestStartTime p timestamp content

/-- The loop over the chunks; it waits for each of them. -/
def handleStream (p : Progress) :
    List Chunk → Coro (SendState κ) (Progress × Except Fault Unit)
  | [] => pure (p, .ok ())
  | chunk :: rest => do
    Coro.suspend
    match ← handleChunk env request requestStartTime p chunk with
    | (p, .ok ()) => handleStream p rest
    | (p, .error fault) => pure (p, .error fault)

/-- The body of the `try`: the variables as they are when it ends or raises. -/
def exchange (p : Progress) (http : HttpOutcome) :
    Coro (SendState κ) (Progress × Except Fault Unit) := do
  Coro.suspend
  match http with
  | .failed fault => pure (p, .error fault)
  | .responded status chunks ending =>
    if status = 200 then do
      let now ← readClock env
      match ← call (Replica.addRequest (some request) now) with
      | .error fault => pure (p, .error fault)
      -- whether the request was added is not looked at
      | .ok _ =>
        match ← handleStream env request requestStartTime p chunks with
        | (p, .error fault) => pure (p, .error fault)
        | (p, .ok ()) => do
          Coro.suspend
          match ending with
          | .closed => pure (p, .ok ())
          | .raised fault => pure (p, .error fault)
    -- any other status counts as unsuccessful, and nothing is raised
    else
      pure (p, .ok ())

end Stream

/-- Every tenth request waits for the metrics to be saved. -/
def saveMetrics (request : Request) : Coro (SendState κ) Unit :=
  if request.id % 10 = 0 then Coro.suspend else pure ()

/-- What follows the `try`: the metrics of a successful request, or its abort. -/
def conclude (request : Request) (p : Progress) :
    Coro (SendState κ) (Except Fault (Option RequestFuncOutput)) := do
  saveMetrics request
  if p.output.success then do
    let tpot := (p.output.requestLatency - p.output.ttft) / max 1 request.outputLen
    -- the tokens per second divide by the latency
    if p.requestLatency = 0 then
      pure (.error (.exception .zeroDivisionError))
    else do
      -- `update_metrics`
      Coro.suspend
      pure (.ok (some { p.output with tpot := some tpot }))
  else do
    match ← call (Replica.abortRequest (some request)) with
    | .ok _ => pure (.ok (some p.output))
    | .error fault => pure (.error fault)

/-- `async_send_request`. It returns `None` when an argument is missing. An `Exception` or a
cancellation in the exchange only makes it unsuccessful; what is raised outside the `try`
is raised here. -/
def asyncSendRequest [PrefixCache κ] (env : ClientEnv) (targetIpPort : Option String)
    (request : Option Request) (http : HttpOutcome) :
    Coro (SendState κ) (Except Fault (Option RequestFuncOutput)) :=
  match request, targetIpPort with
  | some request, some _ => do
    let now ← readClock env
    let requestStartTime := min now request.arrivedAt
    -- `pd_ratio` divides by the output length
    if request.outputLen = 0 then
      pure (.error (.exception .zeroDivisionError))
    else do
      -- `insert_metrics`
      Coro.suspend
      let p : Progress := { mostRecentTimestamp := requestStartTime }
      match ← exchange env request requestStartTime p http with
      | (p, .ok ()) => conclude request p
      | (_, .error .hang) => pure (.error .hang)
      | (p, .error _) => conclude request { p with output := { p.output with success := false } }
  | _, _ => pure (.ok none)

end DualMap.Client
