import DualMap.Entities.Request
import DualMap.Foundation.PyInt
import DualMap.Foundation.Rounding
import DualMap.Scheduler.LazyPrefixTable

/-!
# The Request Generator

The model of `request_generator.py`: a dataset is read line by line, and its records are
submitted as requests in groups of one timestamp. The router and the clock are parameters.

The generator waits for the router after each request and sleeps after that; neither changes
what it submits, so the sleeps are left out, and so are the logs. Numbers are exact rationals.
-/

namespace DualMap

open Scheduler

/-! ## Records -/

/-- A line of a dataset, as `json.loads` reads it. -/
structure Record where
  timestamp : ℚ
  prompts : String
  inputIds : List ℕ
  outputLen : ℤ
  gSessionId : String
  hashSessionId : String
  hashIds : Option (List ℤ)

/-- `s.split(sep)`. -/
def pySplit (s : String) (sep : Char) : List String :=
  (s.toList.splitOn sep).map String.ofList

/-! ## Requests and what surrounds the generator -/

/-- A `Request` with the other fields that the generator gives it. Those that are the same in
all requests are left out. -/
structure GeneratedRequest extends Request where
  attrs : RequestAttrs
  datasetType : String
  nativeSessionId : ℤ
  sessionId : String
  prompts : String
  maxTokens : ℕ
  timeInterval : ℚ
  hashPrefixLen : ℕ

/-- The clock when a request is created, by the number of the request, and what the router
answers: schedulers return ints, and the event of a request is set after the id was stored. -/
structure Surroundings where
  perfCounter : ℕ → ℚ
  replicaId : GeneratedRequest → Option ℤ
  selected : ∀ request, replicaId request ≠ none

/-- The arguments of the generator. -/
structure GeneratorArgs where
  maxModelLen : ℕ
  datasetType : String
  requestGenerateQps : ℚ
  numRequest : ℕ
  warmUpRequestsNum : ℕ
  warmUpQps : ℚ
  requestsNumDatasetStart : ℕ
  numReplicas : ℕ

/-! ## The generator -/

/-- `RequestGenerator`. The prefix table is the one of the controller. -/
structure RequestGenerator (capPerLevel : ℕ) where
  curNumRequest : ℕ
  prefixExpansionCtrl : LazyExpansionController capPerLevel
  requestIdCounter : ℕ
  /-- All requests that were put into the queue, in this order. -/
  runtimeRequestQueue : List GeneratedRequest
  postingRequestTasks : List (GeneratedRequest × ℤ)

namespace RequestGenerator

variable {capPerLevel : ℕ}

/-- `RequestGenerator.__init__`; requests are numbered on from those created before. -/
def init (detector : HotPrefixDetector (List ℤ)) (requestIdCounter : ℕ) :
    RequestGenerator capPerLevel :=
  ⟨0, .init detector, requestIdCounter, [], []⟩

/-- Run code on the controller. -/
def onController {α : Type} (code : Py (LazyExpansionController capPerLevel) α) :
    Py (RequestGenerator capPerLevel) α :=
  Py.zoom (·.prefixExpansionCtrl) (fun g ctrl => { g with prefixExpansionCtrl := ctrl }) code

/-- `next(request_id_counter)`. -/
def nextRequestId : Py (RequestGenerator capPerLevel) ℕ :=
  modifyGet (fun g =>
    (g.requestIdCounter, { g with requestIdCounter := g.requestIdCounter + 1 }))

section Generate

variable (args : GeneratorArgs) (env : Surroundings)

/-- `_generate_request_helper`. -/
def generateRequestHelper (request : GeneratedRequest) :
    Py (RequestGenerator capPerLevel) Unit := do
  modify (fun g => { g with runtimeRequestQueue := g.runtimeRequestQueue ++ [request] })
  match env.replicaId request with
  | none => Py.raise .runtimeError
  | some replicaId =>
    if replicaId < 0 then return
    if 0 ≤ replicaId ∧ replicaId < args.numReplicas then
      modify (fun g =>
        { g with postingRequestTasks := g.postingRequestTasks ++ [(request, replicaId)] })

/-- The request for a record that has passed the checks. -/
def createRequest (record : Record) (timeInterval : ℚ) (hash0 sessionId g0 g1 : String)
    (hashIds : List ℤ) : Py (RequestGenerator capPerLevel) GeneratedRequest := do
  let hashPrefixLen ←
    onController (LazyExpansionController.onTable (LazyPrefixTable.lookup hashIds))
  onController (LazyExpansionController.process hashIds)
  let hashPrefixStr := String.join ((hashIds.take hashPrefixLen).map toString)
  let requestId ← nextRequestId
  let nativeSessionId ← Py.ofOption .valueError (pyInt sessionId)
  return {
    id := requestId
    datasetType := args.datasetType
    nativeSessionId
    sessionId := g0 ++ "@" ++ g1 ++ "@" ++ toString requestId
    hashSessionId := hash0 ++ "@" ++ hashPrefixStr
    prompts := record.prompts
    inputIds := record.inputIds
    numPrefillTokens := record.inputIds.length
    attrs := { actualNumPrefillTokens := record.inputIds.length }
    outputLen := record.outputLen.toNat
    maxTokens := record.outputLen.toNat
    arrivedAt := env.perfCounter requestId
    timeInterval
    hashPrefixLen }

/-- `generate_request_offline`. -/
def generateRequestOffline (record : Record) (timeInterval : ℚ) :
    Py (RequestGenerator capPerLevel) Unit := do
  match record.hashIds with
  | none => return
  | some hashIds =>
    if record.gSessionId = "" ∨ record.hashSessionId = "" ∨ record.prompts = "" ∨
        args.maxModelLen < record.inputIds.length ∨ record.inputIds.length = 0 ∨
        record.outputLen ≤ 0 ∨ hashIds.length < 1 then
      return
    match pySplit record.hashSessionId '@' with
    | hash0 :: sessionId :: _ =>
      if args.maxModelLen ≤ record.inputIds.length then return
      match pySplit record.gSessionId '@' with
      | g0 :: g1 :: _ :: _ =>
        let request ← createRequest args env record timeInterval hash0 sessionId g0 g1 hashIds
        modify (fun g => { g with curNumRequest := g.curNumRequest + 1 })
        generateRequestHelper args env request
      | _ => return
    | _ => return

/-! ## Reading a dataset -/

/-- `valid_record_offline`. -/
def validRecordOffline (record : Record) : Bool :=
  if record.timestamp < 0 then false else true

/-- The lines that are still to be read, and the variables of the loop. -/
structure Reader where
  file : List Record
  curLineNum : ℕ
  currentGroup : List Record
  prevTimestamp : Option ℚ
  timeInterval : ℚ

/-- Whether `sub` occurs in `s`. -/
def occursIn (sub s : String) : Prop := sub.toList <:+: s.toList

instance (sub s : String) : Decidable (occursIn sub s) :=
  inferInstanceAs (Decidable (_ <:+: _))

/-- The rate of the requests in a dataset. -/
def requestNativeQps : ℚ :=
  if occursIn "conversation" args.datasetType then 334 / 100
  else if occursIn "toolagent" args.datasetType then 65 / 10 / 2
  else 0

/-- The rate for warming up, as `generate_from_file` sets it. -/
def warmUpQps : ℚ :=
  if occursIn "conversation" args.datasetType then 3 / 10
  else if occursIn "toolagent" args.datasetType then 5 / 10
  else args.warmUpQps

/-- How long the generator waits after each request of a group that is followed by a record of
another timestamp. -/
def nextTimeInterval (group : List Record) (prevTimestamp currentTimestamp : ℚ) :
    Py (RequestGenerator capPerLevel) ℚ := do
  let nativeTimeInterval := pyRound 3 ((currentTimestamp - prevTimestamp) / group.length / 1000)
  if (← get).curNumRequest < args.warmUpRequestsNum then
    if 0 < warmUpQps args then return 1 / warmUpQps args
    else return 2
  else if args.requestGenerateQps = 0 then Py.raise .zeroDivisionError
  else
    return pyRound 3 (nativeTimeInterval * requestNativeQps args / args.requestGenerateQps)

/-- Submit a group. -/
def flushGroup (group : List Record) (timeInterval : ℚ) :
    Py (RequestGenerator capPerLevel) Unit :=
  group.forM (fun record => generateRequestOffline args env record timeInterval)

/-- The end of the body of the loop: what is done with a valid record. -/
def takeRecord (record : Record) (r : Reader) : Py (RequestGenerator capPerLevel) Reader := do
  let prevTimestamp := r.prevTimestamp.getD record.timestamp
  if record.timestamp = prevTimestamp then
    return { r with
      currentGroup := r.currentGroup ++ [record]
      prevTimestamp := some prevTimestamp }
  else
    let timeInterval ←
      if r.currentGroup ≠ [] then do
        let timeInterval ← nextTimeInterval args r.currentGroup prevTimestamp record.timestamp
        flushGroup args env r.currentGroup timeInterval
        pure timeInterval
      else pure r.timeInterval
    return { r with
      currentGroup := [record]
      prevTimestamp := some record.timestamp
      timeInterval }

/-- The loop of `generate_from_file`. Every turn reads a line, and a file that has ended gives
empty lines, so the turns are bounded by the offset and the number of lines. -/
def readLines : ℕ → Reader → Py (RequestGenerator capPerLevel) Unit
  | 0, _ => throw .hang
  | turns + 1, r => do
    if args.numRequest ≤ (← get).curNumRequest then return
    let line := r.file.head?
    let r := { r with file := r.file.tail, curLineNum := r.curLineNum + 1 }
    if r.curLineNum ≤ args.requestsNumDatasetStart then
      readLines turns r
    else
      match line with
      | none => flushGroup args env r.currentGroup r.timeInterval
      | some record =>
        if !validRecordOffline record then readLines turns r
        else readLines turns (← takeRecord args env record r)

/-- `generate_from_file`. -/
def generateFromFile (dataset : List Record) : Py (RequestGenerator capPerLevel) Unit :=
  Py.tryExcept
    (readLines args env (args.requestsNumDatasetStart + dataset.length + 1)
      ⟨dataset, 0, [], none, 1⟩)
    -- the error is logged
    (fun _ => pure ())

end Generate

end RequestGenerator

end DualMap
