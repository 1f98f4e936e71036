import DualMap.Evaluation.PromptSharing
import DualMap.RequestGenerator.TraceReplay

/-!
# Replaying a Processed Trace

`process_dataset.py` writes the lines that `request_generator.py` replays, and the two only
agree through texts: the ids of sessions are joined with `@` by the one and taken apart by the
other, which reads the hashes of a session as one number. So the lines of a trace pass all
checks of the replay but those on the lengths (`ProcessedAs.acceptable_iff`), and the requests
are made from the records of the trace.

A record without output is processed, but it is not replayed.
-/

namespace DualMap.Evaluation

/-! ## Sessions as texts -/

theorem at_notMem_natToString (n : ℕ) : '@' ∉ (toString n).toList := by
  intro hmem
  rw [show toString n = n.repr from rfl, Nat.toList_repr] at hmem
  have hdigit : '@'.isDigit := Nat.isDigit_of_mem_toDigits (by decide) (by decide) hmem
  exact absurd hdigit (by decide)

theorem at_notMem_toString (hashId : ℤ) : '@' ∉ (toString hashId).toList := by
  rw [Int.toString_eq_repr, Int.repr_eq_if]
  split
  · exact at_notMem_natToString _
  · rw [String.toList_append, List.mem_append, not_or]
    exact ⟨by decide, at_notMem_natToString _⟩

/-- The session of the record is a number that `int` reads. It is not if the second hash is
negative, as its sign then stands between digits, or if there are too many digits. -/
def TraceRecord.SessionNumbered (record : TraceRecord) : Prop :=
  ∀ id, RequestGenerator.sessionId record = .ok id → pyInt id ≠ none

namespace RequestGenerator

theorem at_notMem_sessionId {record : TraceRecord} {id : String}
    (hid : sessionId record = .ok id) : '@' ∉ id.toList := by
  rw [sessionId] at hid
  split at hid
  · cases hid
  · next first _ =>
    obtain rfl := Except.ok.inj hid
    exact at_notMem_toString first
  · next first second _ _ =>
    obtain rfl := Except.ok.inj hid
    rw [String.toList_append, List.mem_append, not_or]
    exact ⟨at_notMem_toString first, at_notMem_toString second⟩

/-! ## The sessions of a processed dataset -/

/-- The hashed ids of sessions are a time and the id, joined with `@`. -/
def Stamped (nowTime : ℕ → String) (ids : OrderedDict String String) : Prop :=
  ∀ id hashSessionId, ids.get? id = some hashSessionId →
    ∃ reading, hashSessionId = nowTime reading ++ "@" ++ id

/-- The line belongs to the session of the record. -/
structure InSession (ids : OrderedDict String String) (record : TraceRecord) (entry : LogEntry) :
    Prop where
  session : ∃ id, sessionId record = .ok id ∧ ids.get? id = some entry.hashSessionId
  gSessionId : entry.gSessionId = entry.hashSessionId ++ "@" ++ toString entry.requestId

/-- Sessions are added, and those that there are keep their hashed ids. -/
def KeepsIds (ids ids' : OrderedDict String String) : Prop :=
  ∀ id hashSessionId, ids.get? id = some hashSessionId → ids'.get? id = some hashSessionId

theorem InSession.mono {ids ids' : OrderedDict String String} {record : TraceRecord}
    {entry : LogEntry} (h : InSession ids record entry) (hkeeps : KeepsIds ids ids') :
    InSession ids' record entry := by
  obtain ⟨id, hid, hget⟩ := h.session
  exact ⟨⟨id, hid, hkeeps id _ hget⟩, h.gSessionId⟩

theorem hashSessionIdOf_session (nowTime : ℕ → String) (id : String) {g : RequestGenerator}
    (hstamped : Stamped nowTime g.hashSessionIdMap) :
    ∃ hashId ids readings, hashSessionIdOf nowTime id g =
        .ok hashId { g with hashSessionIdMap := ids, readings := readings } ∧
      Stamped nowTime ids ∧ KeepsIds g.hashSessionIdMap ids ∧ ids.get? id = some hashId := by
  rw [hashSessionIdOf, readNowTime, Py.bind_ok (Py.modifyGet_apply _ g),
    Py.bind_ok (Py.get_apply _)]
  dsimp only
  -- a known session keeps its id; a new one is stamped with the clock reading of this record
  cases hget : g.hashSessionIdMap.get? id with
  | some hashId => exact ⟨hashId, _, _, rfl, hstamped, fun _ _ h => h, hget⟩
  | none =>
    refine ⟨_, _, _, rfl, ?_, ?_, OrderedDict.get?_set_self _ _ _⟩
    · intro other hashId hother
      rw [OrderedDict.get?_set] at hother
      split at hother
      · next hsame =>
        obtain rfl := Option.some.inj hother
        exact ⟨g.readings, by rw [hsame]⟩
      · exact hstamped other hashId hother
    · intro other hashId hother
      rw [OrderedDict.get?_set_of_ne _ _ (fun hsame => ?_), hother]
      rw [hsame, hget] at hother
      cases hother

/-- A line that a record becomes, in the session of the record. -/
structure ProcessedAs (tokenizer : Tokenizer) (g : RequestGenerator) (record : TraceRecord)
    (entry : LogEntry) : Prop extends LoggedAs tokenizer g.stableTokens record entry,
    InSession g.hashSessionIdMap record entry

theorem generateRequest_session (tokenizer : Tokenizer) (nowTime : ℕ → String)
    {g : RequestGenerator} (hstamped : Stamped nowTime g.hashSessionIdMap) {record : TraceRecord}
    (hvalid : validRecord record) :
    ∃ entry g', generateRequest tokenizer nowTime record false g = .ok () g' ∧
      g'.processedDatasetFile = g.processedDatasetFile ++ [entry] ∧
      g'.stableTokens = g.stableTokens ∧ Stamped nowTime g'.hashSessionIdMap ∧
      KeepsIds g.hashSessionIdMap g'.hashSessionIdMap ∧ ProcessedAs tokenizer g' record entry := by
  obtain ⟨entry, g', hrun, htokens, hfile, hlogged⟩ :=
    generateRequest_logs tokenizer nowTime g hvalid
  refine ⟨entry, g', hrun, hfile, htokens, ?_⟩
  obtain ⟨tokenIds, htokenIds, -⟩ := length_tokenIds g.stableTokens hvalid
  obtain ⟨id, hid⟩ := sessionId_returns (validRecord_iff.mp hvalid).2.2.2
  rw [generateRequest, nextRequestId, Py.bind_ok (Py.modifyGet_apply _ g),
    Py.bind_ok (Py.get_apply _), htokenIds, hid] at hrun
  obtain ⟨hashId, ids, readings, hhash, hstamped', hkeeps, hget⟩ := hashSessionIdOf_session
    nowTime id (g := { g with requestIdCounter := g.requestIdCounter + 1 }) hstamped
  simp only [Py.ofExcept, pure_bind] at hrun
  rw [Py.bind_ok hhash] at hrun
  obtain ⟨-, rfl⟩ := EStateM.Result.ok.inj hrun
  obtain rfl := List.singleton_inj.mp (List.append_cancel_left hfile)
  exact ⟨hstamped', hkeeps, hlogged, ⟨id, hid, hget⟩, rfl⟩

/-- The valid records become lines in their sessions. -/
theorem generateFromFile_sessions (tokenizer : Tokenizer) (nowTime : ℕ → String)
    (dataset : List TraceRecord) {g : RequestGenerator}
    (hstamped : Stamped nowTime g.hashSessionIdMap) :
    ∃ entries g', generateFromFile tokenizer nowTime dataset false g = .ok () g' ∧
      g'.processedDatasetFile = g.processedDatasetFile ++ entries ∧
      g'.stableTokens = g.stableTokens ∧ Stamped nowTime g'.hashSessionIdMap ∧
      KeepsIds g.hashSessionIdMap g'.hashSessionIdMap ∧
      List.Forall₂ (ProcessedAs tokenizer g') (dataset.filter (validRecord ·)) entries := by
  induction dataset generalizing g with
  | nil => exact ⟨[], g, rfl, (List.append_nil _).symm, rfl, hstamped, fun _ _ h => h, .nil⟩
  | cons record dataset ih =>
    have hstep : generateFromFile tokenizer nowTime (record :: dataset) false =
        (if ¬ validRecord record then pure ()
          else generateRequest tokenizer nowTime record false) >>= fun _ =>
            generateFromFile tokenizer nowTime dataset false := rfl
    -- an invalid record is skipped, a valid one logs one entry
    by_cases hvalid : validRecord record
    · obtain ⟨entry, g₁, hrun, hfile, htokens, hstamped₁, hkeeps, hprocessed⟩ :=
        generateRequest_session tokenizer nowTime hstamped hvalid
      obtain ⟨entries, g', hrest, hfile', htokens', hstamped', hkeeps', hall⟩ := ih hstamped₁
      refine ⟨entry :: entries, g', ?_, ?_, htokens'.trans htokens, hstamped',
        fun id hashId h => hkeeps' id hashId (hkeeps id hashId h), ?_⟩
      · rw [hstep, if_neg (not_not_intro hvalid), Py.bind_ok hrun]
        exact hrest
      · rw [hfile', hfile, List.append_assoc, List.singleton_append]
      · rw [List.filter_cons_of_pos hvalid]
        exact .cons ⟨htokens' ▸ hprocessed.toLoggedAs, hprocessed.toInSession.mono hkeeps'⟩ hall
    · obtain ⟨entries, g', hrest, hfile', htokens', hstamped', hkeeps', hall⟩ := ih hstamped
      refine ⟨entries, g', ?_, hfile', htokens', hstamped', hkeeps', ?_⟩
      · rw [hstep, if_pos hvalid, pure_bind]
        exact hrest
      · rwa [List.filter_cons_of_neg hvalid]

end RequestGenerator

/-! ## Lines as records of the replay -/

/-- A line as the replay reads it; the other keys are not read. -/
def LogEntry.toRecord (entry : LogEntry) : Record where
  timestamp := entry.timestamp
  prompts := entry.prompts
  inputIds := entry.inputIds
  outputLen := entry.outputLen
  gSessionId := entry.gSessionId
  hashSessionId := entry.hashSessionId
  hashIds := some entry.hashIds

theorem pySplit_of_notMem {s : String} {sep : Char} (h : sep ∉ s.toList) :
    pySplit s sep = [s] := by
  rw [pySplit, List.splitOn_eq_singleton h, List.map_singleton, String.ofList_toList]

theorem pySplit_append (s t : String) (h : '@' ∉ s.toList) :
    pySplit (s ++ "@" ++ t) '@' = s :: pySplit t '@' := by
  have hlist : (s ++ "@" ++ t).toList = s.toList ++ '@' :: t.toList := by
    rw [String.toList_append, String.toList_append, List.append_assoc]
    rfl
  rw [pySplit, hlist, List.splitOn_append_cons_self_of_not_mem h, List.map_cons,
    String.ofList_toList, pySplit]

namespace RequestGenerator

/-- Stable tokens have a text. -/
def DecodesStable (tokenizer : Tokenizer) : Prop :=
  ∀ tokenIds, tokenIds ≠ [] → (∀ tokenId ∈ tokenIds, IsStable tokenizer tokenId) →
    tokenizer.decode tokenIds ≠ ""

section Line

variable {tokenizer : Tokenizer} {nowTime : ℕ → String} {g : RequestGenerator}
  {record : TraceRecord} {entry : LogEntry} {maxModelLen : ℕ}

/-- Both ids of a line come apart as they were joined. -/
theorem ProcessedAs.split (h : ProcessedAs tokenizer g record entry)
    (hstamped : Stamped nowTime g.hashSessionIdMap) (hclock : ∀ n, '@' ∉ (nowTime n).toList)
    (hnumbered : record.SessionNumbered) :
    ∃ time id, sessionId record = .ok id ∧ pyInt id ≠ none ∧
      pySplit entry.toRecord.hashSessionId '@' = [time, id] ∧
      pySplit entry.toRecord.gSessionId '@' = [time, id, toString entry.requestId] := by
  obtain ⟨id, hid, hget⟩ := h.session
  obtain ⟨reading, hhash⟩ := hstamped id _ hget
  have hsession := at_notMem_sessionId hid
  refine ⟨nowTime reading, id, hid, hnumbered id hid, ?_, ?_⟩
  · rw [LogEntry.toRecord, hhash, pySplit_append _ _ (hclock reading),
      pySplit_of_notMem hsession]
  · have hjoined : entry.gSessionId =
        nowTime reading ++ "@" ++ (id ++ "@" ++ toString entry.requestId) := by
      rw [h.gSessionId, hhash, String.append_assoc, String.append_assoc, String.append_assoc,
        String.append_assoc, String.append_assoc]
    rw [LogEntry.toRecord, hjoined, pySplit_append _ _ (hclock reading),
      pySplit_append _ _ hsession, pySplit_of_notMem (at_notMem_natToString entry.requestId)]

theorem ProcessedAs.wellFormed (h : ProcessedAs tokenizer g record entry)
    (hstamped : Stamped nowTime g.hashSessionIdMap) (hclock : ∀ n, '@' ∉ (nowTime n).toList)
    (hnumbered : record.SessionNumbered) : entry.toRecord.WellFormed := by
  obtain ⟨time, id, -, hnumber, hhash, -⟩ := h.split hstamped hclock hnumbered
  intro sessionId hsession
  rw [hhash] at hsession
  exact Option.some.inj hsession ▸ hnumber

/-- Of the checks of the replay only those on the lengths can fail. -/
theorem ProcessedAs.acceptable_iff (h : ProcessedAs tokenizer g record entry)
    (hstamped : Stamped nowTime g.hashSessionIdMap) (hclock : ∀ n, '@' ∉ (nowTime n).toList)
    (hdecode : DecodesStable tokenizer)
    (hstable : ∀ tokenId ∈ g.stableTokens.tokens, IsStable tokenizer tokenId)
    (hvalid : validRecord record) (hnumbered : record.SessionNumbered) :
    entry.toRecord.Acceptable maxModelLen ↔
      record.inputLength < maxModelLen ∧ 0 < record.outputLength := by
  obtain ⟨htime, hpos, -, hhashIds⟩ := validRecord_iff.mp hvalid
  obtain ⟨time, id, -, -, hhash, hg⟩ := h.split hstamped hclock hnumbered
  have hlength : entry.toRecord.inputIds.length < maxModelLen ↔
      record.inputLength < maxModelLen := by
    rw [← h.complete]
    exact Int.ofNat_lt.symm
  have houtput : 0 < entry.toRecord.outputLen ↔ 0 < record.outputLength := by
    rw [← h.outputLen]
    rfl
  -- four of the six tests always pass on a processed line, which leaves the two lengths
  rw [Record.Acceptable, Record.Passes, hlength, houtput, hhash, hg]
  constructor
  · rintro ⟨-, -, -, -, -, hmodelLen, hout, -⟩
    exact ⟨hmodelLen, hout⟩
  · rintro ⟨hmodelLen, hout⟩
    have hempty : pySplit "" '@' = [""] := pySplit_of_notMem List.not_mem_nil
    refine ⟨htime.trans_eq h.timestamp.symm, ?_, ?_, ?_, ?_, hmodelLen, hout, ?_, le_rfl,
      le_rfl⟩
    · intro hnone
      rw [hnone, hempty] at hg
      cases hg
    · intro hnone
      rw [hnone, hempty] at hhash
      cases hhash
    · obtain ⟨tokenIds, htokenIds, hprompts, hinputIds⟩ := h.tokens
      have htexts : ∀ tokenId ∈ tokenIds, IsStable tokenizer tokenId := fun tokenId htokenId =>
        hstable tokenId (mem_tokenIds g.stableTokens hvalid htokenIds tokenId htokenId)
      refine fun hnone => hdecode tokenIds (fun hnil => ?_) htexts (hprompts.symm.trans hnone)
      have hcomplete := h.complete
      rw [hinputIds, length_encodeAgain, hnil, List.length_nil] at hcomplete
      omega
    · refine fun hnil => ?_
      have hcomplete := h.complete
      rw [show entry.inputIds = [] from hnil, List.length_nil] at hcomplete
      omega
    · show entry.hashIds ≠ []
      rw [h.hashIds]
      exact hhashIds

end Line

/-! ## The replay of a trace -/

/-- A record of a trace that is replayed. -/
def Replayable (maxModelLen : ℕ) (record : TraceRecord) : Prop :=
  record.inputLength < maxModelLen ∧ 0 < record.outputLength

instance (maxModelLen : ℕ) : DecidablePred (Replayable maxModelLen) := fun _ =>
  inferInstanceAs (Decidable (_ ∧ _))

/-- The records of a trace that the replay goes through: its offset counts valid records, as
the others have no line. -/
def replayableRecords (args : GeneratorArgs) (dataset : List TraceRecord) : List TraceRecord :=
  ((dataset.filter (validRecord ·)).drop args.requestsNumDatasetStart).filter
    (fun record => Replayable args.maxModelLen record)

/-- The request carries what the record of the trace says. -/
structure RequestOf (tokenizer : Tokenizer) (stableTokens : StableTokens) (record : TraceRecord)
    (request : GeneratedRequest) : Prop where
  tokens : ∃ tokenIds, stableTokens.tokenIds record false = .ok tokenIds ∧
    request.prompts = tokenizer.decode tokenIds ∧ request.inputIds = encodeAgain tokenizer tokenIds
  numPrefillTokens : (request.numPrefillTokens : ℤ) = record.inputLength
  outputLen : (request.outputLen : ℤ) = record.outputLength
  maxTokens : request.maxTokens = request.outputLen
  session : ∃ id, sessionId record = .ok id ∧ pyInt id = some request.nativeSessionId

/-- A line of a valid record, as the replay reads it. -/
structure IsLine (tokenizer : Tokenizer) (g : RequestGenerator) (record : TraceRecord)
    (line : Record) : Prop where
  valid : validRecord record
  numbered : record.SessionNumbered
  entry : ∃ entry, ProcessedAs tokenizer g record entry ∧ entry.toRecord = line

theorem IsLine.requestOf {tokenizer : Tokenizer} {nowTime : ℕ → String} {g : RequestGenerator}
    {record : TraceRecord} {line : Record} {request : GeneratedRequest}
    (h : IsLine tokenizer g record line) (hstamped : Stamped nowTime g.hashSessionIdMap)
    (hclock : ∀ n, '@' ∉ (nowTime n).toList) (hmade : request.MadeFrom line) :
    RequestOf tokenizer g.stableTokens record request := by
  obtain ⟨entry, hentry, rfl⟩ := h.entry
  obtain ⟨tokenIds, htokenIds, hprompts, hinputIds⟩ := hentry.tokens
  obtain ⟨time, id, hid, -, hhash, -⟩ := hentry.split hstamped hclock h.numbered
  obtain ⟨sessionId, hsession, hnumber⟩ := hmade.session
  rw [hhash] at hsession
  obtain rfl := Option.some.inj hsession
  refine ⟨⟨tokenIds, htokenIds, ?_, ?_⟩, ?_, ?_, hmade.maxTokens, id, hid, hnumber⟩
  · rw [hmade.prompts, ← hprompts]
    rfl
  · rw [hmade.inputIds, ← hinputIds]
    rfl
  · rw [hmade.numPrefillTokens, ← hentry.complete]
    rfl
  · rw [hmade.outputLen, ← hentry.outputLen]
    rfl

theorem exists_right_of_mem {α β : Type} {R : α → β → Prop} {as : List α} {bs : List β}
    (h : List.Forall₂ R as bs) : ∀ a ∈ as, ∃ b ∈ bs, R a b := by
  induction h with
  | nil => exact fun _ ha => absurd ha List.not_mem_nil
  | cons hab _ ih =>
    refine List.forall_mem_cons.mpr ⟨⟨_, List.mem_cons_self, hab⟩, fun a ha => ?_⟩
    obtain ⟨b, hb, hR⟩ := ih a ha
    exact ⟨b, List.mem_cons_of_mem _ hb, hR⟩

theorem forall₂_comp {α β γ : Type} {R : α → β → Prop} {S : γ → β → Prop} {T : α → γ → Prop}
    (hcomp : ∀ a b c, R a b → S c b → T a c) {as : List α} {bs : List β} {cs : List γ}
    (h : List.Forall₂ R as bs) (h' : List.Forall₂ S cs bs) : List.Forall₂ T as cs := by
  induction h generalizing cs with
  | nil =>
    cases h'
    exact .nil
  | cons hab _ ih =>
    cases h' with
    | cons hcb hrest => exact .cons (hcomp _ _ _ hab hcb) (ih hrest)

/-- What `process_dataset.py` makes of a trace. -/
theorem generateFromFile_lines {tokenizer : Tokenizer} (nowTime : ℕ → String)
    {g : RequestGenerator} {dataset : List TraceRecord} (hinit : init tokenizer [] = .ok g)
    (hnumbered : ∀ record ∈ dataset, record.SessionNumbered) :
    ∃ processed, generateFromFile tokenizer nowTime dataset false g = .ok () processed ∧
      processed.stableTokens = g.stableTokens ∧
      (∀ tokenId ∈ g.stableTokens.tokens, IsStable tokenizer tokenId) ∧
      Stamped nowTime processed.hashSessionIdMap ∧
      List.Forall₂ (IsLine tokenizer processed) (dataset.filter (validRecord ·))
        (processed.processedDatasetFile.map LogEntry.toRecord) := by
  obtain ⟨stableTokens, hbuild, rfl⟩ : ∃ stableTokens,
      buildStableTokenMapping tokenizer = .ok stableTokens ∧
        g = ⟨stableTokens, .empty, 0, 0, []⟩ := by
    rw [init] at hinit
    cases hbuild : buildStableTokenMapping tokenizer with
    | error e =>
      rw [hbuild] at hinit
      cases hinit
    | ok stableTokens =>
      rw [hbuild] at hinit
      exact ⟨stableTokens, rfl, (Except.ok.inj hinit).symm⟩
  -- no session is known at the start, so every stamp comes from this run
  have hstart : Stamped nowTime OrderedDict.empty := by
    intro id hashSessionId hget
    cases hget
  obtain ⟨entries, processed, hrun, hfile, htokens, hstamped, -, hall⟩ :=
    generateFromFile_sessions tokenizer nowTime dataset
      (g := ⟨stableTokens, .empty, 0, 0, []⟩) hstart
  rw [List.nil_append] at hfile
  refine ⟨processed, hrun, htokens, (buildStableTokenMapping_spec hbuild).2, hstamped, ?_⟩
  rw [hfile, List.forall₂_map_right_iff]
  have hrecords : ∀ record ∈ dataset.filter (validRecord ·),
      validRecord record ∧ record.SessionNumbered := by
    intro record hrecord
    obtain ⟨hmem, hvalid⟩ := List.mem_filter.mp hrecord
    exact ⟨hvalid, hnumbered record hmem⟩
  refine ((List.forall₂_and_left _ _).mpr ⟨hrecords, hall⟩).imp ?_
  rintro record entry ⟨⟨hvalid, hnumber⟩, hprocessed⟩
  exact ⟨hvalid, hnumber, entry, hprocessed, rfl⟩

/-- A trace that is processed and then replayed becomes the requests of its first replayable
records, as many as are asked for, and more than that only of the timestamp at which the limit
is reached. The replay has a rate, the sessions of the trace are numbers, the texts of the clock
have no `@`, and the tokenizer decodes stable tokens to some text. -/
theorem replay_of_trace (capPerLevel : ℕ) (args : GeneratorArgs) (env : Surroundings)
    (detector : Scheduler.HotPrefixDetector (List ℤ)) (counter : ℕ) {tokenizer : Tokenizer}
    {nowTime : ℕ → String} {g : RequestGenerator} {dataset : List TraceRecord}
    (hinit : init tokenizer [] = .ok g) (hclock : ∀ n, '@' ∉ (nowTime n).toList)
    (hdecode : DecodesStable tokenizer)
    (hnumbered : ∀ record ∈ dataset, record.SessionNumbered)
    (hqps : args.requestGenerateQps ≠ 0) :
    ∃ (processed : RequestGenerator) (replayed : DualMap.RequestGenerator capPerLevel) (n : ℕ),
      generateFromFile tokenizer nowTime dataset false g = .ok () processed ∧
      DualMap.RequestGenerator.generateFromFile args env
          (processed.processedDatasetFile.map LogEntry.toRecord)
          (DualMap.RequestGenerator.init detector counter) = .ok () replayed ∧
      List.Forall₂ (RequestOf tokenizer g.stableTokens)
        ((replayableRecords args dataset).take n) replayed.runtimeRequestQueue ∧
      min args.numRequest (replayableRecords args dataset).length ≤ n ∧
      ∃ t, ∀ record ∈ ((replayableRecords args dataset).take n).drop (args.numRequest - 1),
        record.timestamp = t := by
  obtain ⟨processed, hrun, htokens, hstable, hstamped, hlines⟩ :=
    generateFromFile_lines nowTime hinit hnumbered
  rw [← htokens] at hstable
  set lines := processed.processedDatasetFile.map LogEntry.toRecord
  have hwell : ∀ line ∈ lines, line.WellFormed := by
    intro line hline
    have hback : List.Forall₂ (fun line record => IsLine tokenizer processed record line) lines
        (dataset.filter (validRecord ·)) := hlines.flip
    obtain ⟨record, -, -, hnumber, entry, hprocessed, rfl⟩ := exists_right_of_mem hback line hline
    exact hprocessed.wellFormed hstamped hclock hnumber
  -- the replay keeps a line exactly when its record is replayable
  have hreplayable : List.Forall₂ (IsLine tokenizer processed) (replayableRecords args dataset)
      (DualMap.RequestGenerator.acceptableRecords args lines) := by
    refine List.rel_filter ?_ (List.forall₂_drop _ hlines)
    rintro record line ⟨hvalid, hnumber, entry, hprocessed, rfl⟩
    simp only [decide_eq_true_eq]
    exact (hprocessed.acceptable_iff hstamped hclock hdecode hstable hvalid hnumber).symm
  obtain ⟨replayed, n, hreplay, hmade, hn, t, ht⟩ :=
    DualMap.RequestGenerator.generateFromFile_first capPerLevel env hwell hqps detector counter
  refine ⟨processed, replayed, n, hrun, hreplay, ?_, ?_, t, ?_⟩
  -- the request's line has the record's data, and the request has the line's
  · rw [← htokens]
    exact forall₂_comp (fun record line request hline hrequest =>
      hline.requestOf hstamped hclock hrequest) (List.forall₂_take n hreplayable) hmade
  · rw [hreplayable.length_eq]
    exact hn
  · intro record hrecord
    have hbeyond := List.forall₂_drop (args.numRequest - 1) (List.forall₂_take n hreplayable)
    obtain ⟨line, hline, -, -, entry, hprocessed, rfl⟩ := exists_right_of_mem hbeyond record hrecord
    exact hprocessed.timestamp.symm.trans (ht _ hline)

/-- Tokens that are the numbers of their characters. -/
def charTokenizer : Tokenizer where
  vocabSize := 1001
  allSpecialIds := []
  decode tokenIds := String.ofList (tokenIds.map Char.ofNat)
  encode text := text.toList.map Char.toNat

theorem decode_charTokenizer {tokenIds : List ℕ} (hne : tokenIds ≠ []) :
    charTokenizer.decode tokenIds ≠ "" := by
  intro hnone
  have hlist : tokenIds.map Char.ofNat = [] := by
    rw [← String.toList_ofList (l := tokenIds.map Char.ofNat)]
    exact congrArg String.toList hnone
  exact hne (List.map_eq_nil_iff.mp hlist)

theorem init_charTokenizer : ∃ g, init charTokenizer [] = .ok g := by
  have hcollect :
      collectStableTokens charTokenizer (candidateTokens charTokenizer) [] = [1000] := by
    have hcandidates : candidateTokens charTokenizer = [1000] := by decide
    have hread : charTokenizer.encode (charTokenizer.decode [1000]) = [1000] := by
      show (String.ofList [Char.ofNat 1000]).toList.map Char.toNat = [1000]
      rw [String.toList_ofList]
      decide
    rw [hcandidates, collectStableTokens, if_neg (by decide), if_pos hread]
    rfl
  rw [init, buildStableTokenMapping, dif_neg (by rw [hcollect]; decide)]
  exact ⟨_, rfl⟩

/-- Two tokens in two blocks, of which the second one is empty. -/
def shortRecord : TraceRecord where
  timestamp := 0
  inputLength := 2
  outputLength := 1
  hashIds := [1, 2]

theorem replay_of_trace_shortRecord : ∃ (g processed : RequestGenerator)
    (replayed : DualMap.RequestGenerator 10000),
    generateFromFile charTokenizer (fun _ => "0.5") [shortRecord] false g = .ok () processed ∧
    DualMap.RequestGenerator.generateFromFile (DualMap.RequestGenerator.argsFor 1)
        DualMap.RequestGenerator.oneReplica
        (processed.processedDatasetFile.map LogEntry.toRecord)
        (DualMap.RequestGenerator.init (.init 200 (612 / 10000) 20) 0) = .ok () replayed ∧
    replayed.runtimeRequestQueue.length = 1 := by
  obtain ⟨g, hinit⟩ := init_charTokenizer
  have hclock : '@' ∉ ("0.5" : String).toList := by decide
  have hnumbered : ∀ record ∈ [shortRecord], record.SessionNumbered := by
    intro record hrecord id hid
    obtain rfl := List.mem_singleton.mp hrecord
    obtain rfl : (toString (1 : ℤ) ++ toString (2 : ℤ)) = id := Except.ok.inj hid
    decide +kernel
  have hreplayable : replayableRecords (DualMap.RequestGenerator.argsFor 1) [shortRecord] =
      [shortRecord] := by
    have hvalid : validRecord shortRecord = true := by decide +kernel
    have hshort : Replayable (DualMap.RequestGenerator.argsFor 1).maxModelLen shortRecord := by
      decide
    rw [replayableRecords, List.filter_cons_of_pos hvalid, List.filter_nil]
    exact List.filter_cons_of_pos (decide_eq_true hshort)
  obtain ⟨processed, replayed, n, hrun, hreplay, hrequests, hn, -⟩ :=
    replay_of_trace 10000 (DualMap.RequestGenerator.argsFor 1) DualMap.RequestGenerator.oneReplica
      (.init 200 (612 / 10000) 20) 0 hinit (fun _ => hclock)
      (fun _ hne _ => decode_charTokenizer hne)
      hnumbered (by decide +kernel)
  rw [hreplayable] at hrequests hn
  refine ⟨g, processed, replayed, hrun, hreplay, ?_⟩
  rw [← hrequests.length_eq, List.length_take]
  exact Nat.min_eq_right hn

end RequestGenerator

end DualMap.Evaluation
