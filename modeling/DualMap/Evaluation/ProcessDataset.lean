import DualMap.Foundation.OrderedDict
import DualMap.Foundation.PyEffect
import Mathlib.Data.Nat.Notation
import Mathlib.Data.Rat.Defs

/-!
# Processing a Dataset

The model of `process_dataset.py`: a trace gives the length of every prompt and one hash for
each of its blocks of 512 tokens, and prompts with blocks like these are made up for it. The
token of a block is looked up by its hash.

The tokenizer is a parameter, and so are the texts of the clock. What is printed is left out.
-/

namespace DualMap.Evaluation

/-! ## The tokens of blocks -/

/-- The tokenizer, as far as it is used; `encode` adds no special tokens. -/
structure Tokenizer where
  vocabSize : ℕ
  allSpecialIds : List ℕ
  decode : List ℕ → String
  encode : String → List ℕ

/-- The dictionary `stable_tokens`: the keys are the positions. -/
structure StableTokens where
  tokens : List ℕ
  nodup : tokens.Nodup
  nonempty : tokens ≠ []

/-- The loop of `_build_stable_token_mapping`. -/
def collectStableTokens (tokenizer : Tokenizer) : List ℕ → List ℕ → List ℕ
  | [], stableMapping => stableMapping
  | tokenId :: rest, stableMapping =>
    if tokenId ∈ tokenizer.allSpecialIds then collectStableTokens tokenizer rest stableMapping
    else if tokenizer.encode (tokenizer.decode [tokenId]) = [tokenId] then
      let stableMapping := stableMapping ++ [tokenId]
      if 5000 ≤ stableMapping.length then stableMapping
      else collectStableTokens tokenizer rest stableMapping
    else collectStableTokens tokenizer rest stableMapping

theorem collectStableTokens_sublist (tokenizer : Tokenizer) (candidates stableMapping : List ℕ) :
    (collectStableTokens tokenizer candidates stableMapping).Sublist
      (stableMapping ++ candidates) := by
  induction candidates generalizing stableMapping with
  | nil => exact List.sublist_append_left _ _
  | cons tokenId rest ih =>
    have hskip : (stableMapping ++ rest).Sublist (stableMapping ++ tokenId :: rest) :=
      (List.sublist_cons_self tokenId rest).append_left stableMapping
    rw [collectStableTokens]
    split
    · exact (ih stableMapping).trans hskip
    split
    · rw [List.append_cons stableMapping tokenId rest]
      dsimp only
      split
      · exact List.sublist_append_left _ _
      · exact ih (stableMapping ++ [tokenId])
    · exact (ih stableMapping).trans hskip

theorem nodup_collectStableTokens (tokenizer : Tokenizer) {candidates : List ℕ}
    (hnodup : candidates.Nodup) : (collectStableTokens tokenizer candidates []).Nodup :=
  hnodup.sublist (collectStableTokens_sublist tokenizer candidates [])

/-- `range(1000, min(50000, self.tokenizer.vocab_size))`. -/
def candidateTokens (tokenizer : Tokenizer) : List ℕ :=
  List.range' 1000 (min 50000 tokenizer.vocabSize - 1000)

/-- `_build_stable_token_mapping`. -/
def buildStableTokenMapping (tokenizer : Tokenizer) : Except PyException StableTokens :=
  if h : collectStableTokens tokenizer (candidateTokens tokenizer) [] = [] then .error .valueError
  else .ok {
    tokens := collectStableTokens tokenizer (candidateTokens tokenizer) []
    nodup := nodup_collectStableTokens tokenizer List.nodup_range'
    nonempty := h }

/-! ## The tokens of a record -/

/-- A line of a trace, as `json.loads` reads it. -/
structure TraceRecord where
  timestamp : ℚ
  inputLength : ℤ
  outputLength : ℤ
  hashIds : List ℤ

/-- `self.block_size`. -/
def blockSize : ℕ := 512

namespace StableTokens

variable (stableTokens : StableTokens)

/-- `len(self.stable_tokens)`. -/
def size : ℕ := stableTokens.tokens.length

theorem size_pos : 0 < stableTokens.size := List.length_pos_of_ne_nil stableTokens.nonempty

theorem emod_size_lt (hashId : ℤ) : (hashId % stableTokens.size).toNat < stableTokens.size := by
  have hpos : (0 : ℤ) < stableTokens.size := by exact_mod_cast stableTokens.size_pos
  have hlt := Int.emod_lt_of_pos hashId hpos
  have hnonneg := Int.emod_nonneg hashId (Int.ne_of_gt hpos)
  omega

/-- `_get_tokens_for_hash`: keys of tokens, not tokens. -/
def getTokensForHash (hashId : ℤ) : List ℕ :=
  (List.range 32).map (fun i => ((hashId + i) % stableTokens.size).toNat)

/-- `_get_token_for_hash`. -/
def getTokenForHash (hashId : ℤ) : ℕ :=
  stableTokens.tokens.get ⟨(hashId % stableTokens.size).toNat, stableTokens.emod_size_lt hashId⟩

/-- The loop over all blocks but the last one, and what remains of the length. -/
def fillBlocks : List ℤ → ℤ → List ℕ → List ℕ × ℤ
  | [], remaining, tokenIds => (tokenIds, remaining)
  | hid :: rest, remaining, tokenIds =>
    let size := min (blockSize : ℤ) remaining
    fillBlocks rest (remaining - size)
      (tokenIds ++ List.replicate size.toNat (stableTokens.getTokenForHash hid))

/-- With `more_tokens`, the loop over the tokens of the last block. -/
def fillLastBlock (sameTokensLen : ℤ) : List ℕ → ℤ → List ℕ
  | [], _ => []
  | tokenId :: rest, remaining =>
    if sameTokensLen < remaining then
      List.replicate sameTokensLen.toNat tokenId ++
        fillLastBlock sameTokensLen rest (remaining - sameTokensLen)
    else List.replicate (max remaining 1).toNat tokenId

/-- `token_ids` of `generate_request` with `more_tokens`. -/
def moreTokenIds (record : TraceRecord) : Except PyException (List ℕ) :=
  let size := min (blockSize : ℤ) record.inputLength
  let tokenIds := record.hashIds.dropLast.flatMap (fun hid =>
    (stableTokens.getTokensForHash hid).flatMap (List.replicate (size.tdiv 32).toNat))
  if 0 < record.inputLength then
    match record.hashIds.getLast?, record.hashIds.dropLast.getLast? with
    | none, _ => .error .indexError
    -- the locals of the loop have no values if there is only the last block
    | some _, none => .error .unboundLocalError
    -- the tokens are those of the block before the last one
    | some _, some hid => .ok (tokenIds ++
        fillLastBlock (size.tdiv 32) (stableTokens.getTokensForHash hid) record.inputLength)
  else .ok tokenIds

/-- `token_ids` of `generate_request`. -/
def tokenIds (record : TraceRecord) (moreTokens : Bool) : Except PyException (List ℕ) :=
  if moreTokens then stableTokens.moreTokenIds record
  else
    let (tokenIds, remaining) :=
      stableTokens.fillBlocks record.hashIds.dropLast record.inputLength []
    if 0 < remaining then
      match record.hashIds.getLast? with
      | none => .error .indexError
      | some hid => .ok (tokenIds ++
          List.replicate remaining.toNat (stableTokens.getTokenForHash hid))
    else .ok tokenIds

end StableTokens

/-! ## The generator -/

/-- A line of the processed dataset. -/
structure LogEntry where
  timestamp : ℚ
  requestId : ℕ
  gSessionId : String
  hashSessionId : String
  inputLength : ℤ
  numInputIds : ℕ
  outputLen : ℤ
  hashIds : List ℤ
  prompts : String
  inputIds : List ℕ

/-- `RequestGenerator`, with the counter of the requests, the number of readings of the clock
and the lines of the processed dataset. -/
structure RequestGenerator where
  stableTokens : StableTokens
  hashSessionIdMap : OrderedDict String String
  requestIdCounter : ℕ
  readings : ℕ
  processedDatasetFile : List LogEntry

namespace RequestGenerator

variable (tokenizer : Tokenizer) (nowTime : ℕ → String)

/-- `__init__`; lines are appended to those that the file has. -/
def init (processedDatasetFile : List LogEntry) : Except PyException RequestGenerator := do
  let stableTokens ← buildStableTokenMapping tokenizer
  pure ⟨stableTokens, .empty, 0, 0, processedDatasetFile⟩

/-- `next(request_id_counter)`. -/
def nextRequestId : Py RequestGenerator ℕ :=
  modifyGet (fun g =>
    (g.requestIdCounter, { g with requestIdCounter := g.requestIdCounter + 1 }))

/-- `str(datetime.now().timestamp())`. -/
def readNowTime : Py RequestGenerator String :=
  modifyGet (fun g => (nowTime g.readings, { g with readings := g.readings + 1 }))

/-- The id of the session, which is made of the first hashes. -/
def sessionId (record : TraceRecord) : Except PyException String :=
  match record.hashIds with
  | [] => .error .indexError
  | [first] => .ok (toString first)
  | first :: second :: _ => .ok (toString first ++ toString second)

/-- The hashed id of a session, which stays that of its first request. -/
def hashSessionIdOf (sessionId : String) : Py RequestGenerator String := do
  let nowTime ← readNowTime nowTime
  let g ← get
  match g.hashSessionIdMap.get? sessionId with
  | some hashSessionId => pure hashSessionId
  | none => do
    let hashSessionId := nowTime ++ "@" ++ sessionId
    set { g with hashSessionIdMap := g.hashSessionIdMap.set sessionId hashSessionId }
    pure hashSessionId

/-- `input_ids`: the prompt as it is encoded again, if no token is lost or new. -/
def encodeAgain (tokenIds : List ℕ) : List ℕ :=
  let inputIds := tokenizer.encode (tokenizer.decode tokenIds)
  if inputIds.length ≠ tokenIds.length then tokenIds else inputIds

/-- `generate_request`. -/
def generateRequest (record : TraceRecord) (moreTokens : Bool) : Py RequestGenerator Unit := do
  let requestId ← nextRequestId
  let g ← get
  let tokenIds ← Py.ofExcept (g.stableTokens.tokenIds record moreTokens)
  let inputIds := encodeAgain tokenizer tokenIds
  let sessionId ← Py.ofExcept (sessionId record)
  let hashSessionId ← hashSessionIdOf nowTime sessionId
  let logEntry : LogEntry :=
    { timestamp := record.timestamp
      requestId := requestId
      gSessionId := hashSessionId ++ "@" ++ toString requestId
      hashSessionId := hashSessionId
      inputLength := record.inputLength
      numInputIds := inputIds.length
      outputLen := record.outputLength
      hashIds := record.hashIds
      prompts := tokenizer.decode tokenIds
      inputIds := inputIds }
  modify (fun g => { g with processedDatasetFile := g.processedDatasetFile ++ [logEntry] })

/-- `valid_record`. -/
def validRecord (record : TraceRecord) : Bool :=
  !(record.timestamp < 0 || record.inputLength ≤ 0 || record.outputLength < 0 ||
    record.hashIds.length < 1)

/-- `generate_from_file`. -/
def generateFromFile (dataset : List TraceRecord) (moreTokens : Bool) :
    Py RequestGenerator Unit :=
  dataset.forM (fun record =>
    if ¬ validRecord record then pure () else generateRequest tokenizer nowTime record moreTokens)

end RequestGenerator

end DualMap.Evaluation
