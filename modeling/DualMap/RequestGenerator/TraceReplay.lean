import DualMap.RequestGenerator.RequestGenerator
import DualMap.Scheduler.PrefixExpansion
import Mathlib.Data.List.Forall2
import Mathlib.Data.List.SplitBy

/-!
# What a Replay Submits

`generate_from_file` submits the acceptable records in groups of one timestamp, and looks at
the limit only between groups. So it stops at the first end of a group at which the limit is
reached or passed.

## Main Results

- `generateFromFile_spec`: the groups that are submitted
- `generateFromFile_faithful_iff`: when these are as many records as were asked for
-/

namespace DualMap

open Scheduler

/-! ## Records -/

namespace Record

/-- The checks of `generate_request_offline`. -/
def Passes (maxModelLen : ℕ) (r : Record) : Prop :=
  r.gSessionId ≠ "" ∧ r.hashSessionId ≠ "" ∧ r.prompts ≠ "" ∧ r.inputIds ≠ [] ∧
    r.inputIds.length < maxModelLen ∧ 0 < r.outputLen ∧ r.hashIds.getD [] ≠ [] ∧
    2 ≤ (pySplit r.hashSessionId '@').length ∧ 3 ≤ (pySplit r.gSessionId '@').length

instance (maxModelLen : ℕ) : DecidablePred (Passes maxModelLen) := fun _ =>
  inferInstanceAs (Decidable (_ ∧ _))

/-- A record that should become a request. -/
def Acceptable (maxModelLen : ℕ) (r : Record) : Prop := 0 ≤ r.timestamp ∧ r.Passes maxModelLen

instance (maxModelLen : ℕ) : DecidablePred (Acceptable maxModelLen) := fun _ =>
  inferInstanceAs (Decidable (_ ∧ _))

/-- The session in the name of the hash session, if there is one, is a number that `int`
reads. -/
def WellFormed (r : Record) : Prop :=
  ∀ sessionId, (pySplit r.hashSessionId '@')[1]? = some sessionId → pyInt sessionId ≠ none

end Record

/-- The request carries what the record says. -/
structure GeneratedRequest.MadeFrom (request : GeneratedRequest) (record : Record) : Prop where
  prompts : request.prompts = record.prompts
  inputIds : request.inputIds = record.inputIds
  numPrefillTokens : request.numPrefillTokens = record.inputIds.length
  outputLen : (request.outputLen : ℤ) = record.outputLen
  maxTokens : request.maxTokens = request.outputLen
  session : ∃ sessionId, (pySplit record.hashSessionId '@')[1]? = some sessionId ∧
    pyInt sessionId = some request.nativeSessionId

namespace RequestGenerator

open GeneratedRequest (MadeFrom)

variable {capPerLevel : ℕ} {args : GeneratorArgs} {env : Surroundings}
  {g g' : RequestGenerator capPerLevel}

/-! ## One record -/

/-- Between two states the requests for these records were submitted, and nothing else. -/
structure Submits (records : List Record) (g g' : RequestGenerator capPerLevel) : Prop where
  queue : ∃ requests, g'.runtimeRequestQueue = g.runtimeRequestQueue ++ requests ∧
    List.Forall₂ MadeFrom requests records
  count : g'.curNumRequest = g.curNumRequest + records.length
  chained : g'.prefixExpansionCtrl.Chained

theorem Submits.nil (hg : g.prefixExpansionCtrl.Chained) : Submits [] g g where
  queue := ⟨[], by rw [List.append_nil], .nil⟩
  count := rfl
  chained := hg

theorem Submits.append {records more : List Record} {g₁ : RequestGenerator capPerLevel}
    (h : Submits records g g₁) (h' : Submits more g₁ g') : Submits (records ++ more) g g' where
  queue := by
    obtain ⟨requests, hqueue, hmade⟩ := h.queue
    obtain ⟨requests', hqueue', hmade'⟩ := h'.queue
    refine ⟨requests ++ requests', ?_, List.rel_append hmade hmade'⟩
    rw [hqueue', hqueue, List.append_assoc]
  count := by rw [h'.count, h.count, List.length_append, Nat.add_assoc]
  chained := h'.chained

/-- The controller is called, and nothing is submitted. -/
def Untouched (g g' : RequestGenerator capPerLevel) : Prop :=
  g'.runtimeRequestQueue = g.runtimeRequestQueue ∧ g'.curNumRequest = g.curNumRequest ∧
    g'.prefixExpansionCtrl.Chained

theorem onController_returns {α : Type} {code : Py (LazyExpansionController capPerLevel) α}
    (hcode : Py.Returns LazyExpansionController.Chained code) :
    Py.Returns (Untouched g) (onController code) :=
  hcode.zoom (fun _ h => h.2.2) (fun _ _ h ht => ⟨h.1, h.2.1, ht⟩)

theorem createRequest_spec (args : GeneratorArgs) (env : Surroundings) {record : Record}
    (timeInterval : ℚ) (hash0 g0 g1 : String)
    {sessionId : String} {number : ℤ} (hashIds : List ℤ) (hg : g.prefixExpansionCtrl.Chained)
    (hlen : 0 < record.outputLen)
    (hsession : (pySplit record.hashSessionId '@')[1]? = some sessionId)
    (hnumber : pyInt sessionId = some number) :
    ∃ request g', createRequest args env record timeInterval hash0 sessionId g0 g1 hashIds g =
      .ok request g' ∧ Untouched g g' ∧ MadeFrom request record := by
  have hstart : Untouched g g := ⟨rfl, rfl, hg⟩
  obtain ⟨hashPrefixLen, g₁, hrun₁, h₁⟩ := onController_returns
    (LazyExpansionController.onTable_returns
      (LazyPrefixTable.lookup_returns hashIds)) g hstart
  obtain ⟨⟨⟩, g₂, hrun₂, h₂⟩ :=
    onController_returns (LazyExpansionController.process_returns hashIds) g₁ h₁
  have hrun₃ : nextRequestId g₂ = .ok g₂.requestIdCounter
      { g₂ with requestIdCounter := g₂.requestIdCounter + 1 } := rfl
  rw [createRequest, Py.bind_ok hrun₁, Py.bind_ok hrun₂, Py.bind_ok hrun₃, hnumber,
    Py.ofOption_some]
  exact ⟨_, _, rfl, h₂, rfl, rfl, rfl, Int.toNat_of_nonneg hlen.le, rfl, sessionId, hsession,
    hnumber⟩

/-- The router has an answer, so submitting a request does not raise. -/
theorem generateRequestHelper_spec (args : GeneratorArgs) (env : Surroundings)
    (request : GeneratedRequest) (hg : g.prefixExpansionCtrl.Chained) :
    ∃ g', generateRequestHelper args env request g = .ok ⟨⟩ g' ∧
      g'.runtimeRequestQueue = g.runtimeRequestQueue ++ [request] ∧
      g'.curNumRequest = g.curNumRequest ∧ g'.prefixExpansionCtrl.Chained := by
  obtain ⟨replicaId, hreplica⟩ := Option.ne_none_iff_exists'.mp (env.selected request)
  rw [generateRequestHelper, Py.bind_ok (Py.modify_apply _ _), hreplica]
  dsimp only
  split
  · exact ⟨_, rfl, rfl, rfl, hg⟩
  · split
    · exact ⟨_, rfl, rfl, rfl, hg⟩
    · exact ⟨_, rfl, rfl, rfl, hg⟩

/-- A record that passes the checks is submitted. -/
theorem generateRequestOffline_passes (env : Surroundings) {record : Record}
    (hrecord : record.WellFormed) (hpasses : record.Passes args.maxModelLen)
    (hg : g.prefixExpansionCtrl.Chained) (timeInterval : ℚ) :
    ∃ g', generateRequestOffline args env record timeInterval g = .ok ⟨⟩ g' ∧
      Submits [record] g g' := by
  obtain ⟨hgSession, hhashSession, hprompts, hinputIds, hmodelLen, houtputLen, hhashIds,
    hhashParts, hgParts⟩ := hpasses
  obtain ⟨hashIds, hsome⟩ : ∃ hashIds, record.hashIds = some hashIds := by
    refine Option.ne_none_iff_exists'.mp (fun hnone => ?_)
    rw [hnone] at hhashIds
    exact hhashIds rfl
  rw [hsome] at hhashIds
  -- each test of the generator that could drop the record fails
  have hchecks : ¬ (record.gSessionId = "" ∨ record.hashSessionId = "" ∨ record.prompts = "" ∨
      args.maxModelLen < record.inputIds.length ∨ record.inputIds.length = 0 ∨
      record.outputLen ≤ 0 ∨ hashIds.length < 1) := by
    have hinputs := List.length_pos_iff.mpr hinputIds
    have hhashes : 0 < hashIds.length := List.length_pos_iff.mpr hhashIds
    rintro (h | h | h | h | h | h | h)
    · exact hgSession h
    · exact hhashSession h
    · exact hprompts h
    all_goals omega
  obtain ⟨hash0, sessionId, hashRest, hhash⟩ : ∃ a b rest,
      pySplit record.hashSessionId '@' = a :: b :: rest := by
    match pySplit record.hashSessionId '@', hhashParts with
    | a :: b :: rest, _ => exact ⟨a, b, rest, rfl⟩
  obtain ⟨g0, g1, g2, gRest, hgSplit⟩ : ∃ a b c rest,
      pySplit record.gSessionId '@' = a :: b :: c :: rest := by
    match pySplit record.gSessionId '@', hgParts with
    | a :: b :: c :: rest, _ => exact ⟨a, b, c, rest, rfl⟩
  have hsession : (pySplit record.hashSessionId '@')[1]? = some sessionId := by
    rw [hhash]
    rfl
  -- the session number is read with `int()`, which a well-formed record does not stop
  obtain ⟨number, hnumber⟩ := Option.ne_none_iff_exists'.mp (hrecord sessionId hsession)
  obtain ⟨request, g₁, hrun₁, ⟨hqueue₁, hcount₁, hchained₁⟩, hmade⟩ := createRequest_spec
    args env timeInterval hash0 g0 g1 hashIds hg houtputLen hsession hnumber
  obtain ⟨g₂, hrun₂, hqueue₂, hcount₂, hchained₂⟩ := generateRequestHelper_spec
    args env (g := { g₁ with curNumRequest := g₁.curNumRequest + 1 }) request
    hchained₁
  refine ⟨g₂, ?_, ⟨[request], ?_, .cons hmade .nil⟩, ?_, hchained₂⟩
  · rw [generateRequestOffline, hsome]
    dsimp only
    rw [if_neg hchecks, hhash]
    dsimp only
    rw [if_neg (Nat.not_le_of_lt hmodelLen), hgSplit]
    dsimp only
    rw [Py.bind_ok hrun₁, Py.bind_ok (Py.modify_apply _ _)]
    exact hrun₂
  · rw [hqueue₂, ← hqueue₁]
  · rw [hcount₂, hcount₁]
    rfl

/-- A record that does not pass them is skipped. -/
theorem generateRequestOffline_skips {record : Record}
    (hpasses : ¬ record.Passes args.maxModelLen) (timeInterval : ℚ) :
    generateRequestOffline args env record timeInterval g = .ok ⟨⟩ g := by
  rw [generateRequestOffline]
  cases hsome : record.hashIds with
  | none => rfl
  | some hashIds =>
    dsimp only
    by_cases hchecks : record.gSessionId = "" ∨ record.hashSessionId = "" ∨
        record.prompts = "" ∨ args.maxModelLen < record.inputIds.length ∨
        record.inputIds.length = 0 ∨ record.outputLen ≤ 0 ∨ hashIds.length < 1
    · rw [if_pos hchecks]
      rfl
    rw [if_neg hchecks]
    match hhash : pySplit record.hashSessionId '@' with
    | [] => rfl
    | [_] => rfl
    | hash0 :: sessionId :: _ =>
      dsimp only
      by_cases hmodelLen : args.maxModelLen ≤ record.inputIds.length
      · rw [if_pos hmodelLen]
        rfl
      rw [if_neg hmodelLen]
      match hgSplit : pySplit record.gSessionId '@' with
      | [] => rfl
      | [_] => rfl
      | [_, _] => rfl
      | g0 :: g1 :: g2 :: _ =>
        -- all checks were passed
        exfalso
        push Not at hchecks
        obtain ⟨hgSession, hhashSession, hprompts, -, hinputs, houtputLen, hhashes⟩ := hchecks
        refine hpasses ⟨hgSession, hhashSession, hprompts, ?_, not_le.mp hmodelLen, houtputLen,
          ?_, ?_, ?_⟩
        · exact fun h => hinputs (h ▸ rfl)
        · rw [hsome]
          exact List.length_pos_iff.mp hhashes
        · rw [hhash]
          exact Nat.le_add_left 2 _
        · rw [hgSplit]
          exact Nat.le_add_left 3 _

/-- The records among these that become requests. -/
def accepted (args : GeneratorArgs) (records : List Record) : List Record :=
  records.filter (fun record => record.Passes args.maxModelLen)

/-- A group is submitted without the records that do not pass the checks. -/
theorem flushGroup_spec (args : GeneratorArgs) (env : Surroundings) {group : List Record}
    (hgroup : ∀ record ∈ group, record.WellFormed)
    (hg : g.prefixExpansionCtrl.Chained) (timeInterval : ℚ) :
    ∃ g', flushGroup args env group timeInterval g = .ok ⟨⟩ g' ∧
      Submits (accepted args group) g g' := by
  induction group generalizing g with
  | nil => exact ⟨g, rfl, .nil hg⟩
  | cons record group ih =>
    have hrest : ∀ r ∈ group, r.WellFormed := fun r hr => hgroup r (List.mem_cons_of_mem _ hr)
    by_cases hpasses : record.Passes args.maxModelLen
    · obtain ⟨g₁, hrun₁, h₁⟩ := generateRequestOffline_passes env
        (hgroup record List.mem_cons_self) hpasses hg timeInterval
      obtain ⟨g₂, hrun₂, h₂⟩ := ih hrest h₁.chained
      refine ⟨g₂, (Py.bind_ok hrun₁).trans hrun₂, ?_⟩
      rw [accepted, List.filter_cons_of_pos (by simpa using hpasses)]
      exact h₁.append h₂
    · obtain ⟨g₂, hrun₂, h₂⟩ := ih hrest hg
      refine ⟨g₂, (Py.bind_ok (generateRequestOffline_skips hpasses timeInterval)).trans hrun₂, ?_⟩
      rw [accepted, List.filter_cons_of_neg (by simpa using hpasses)]
      exact h₂

/-! ## The groups -/

/-- Maximal runs of records of one timestamp. -/
def runs (records : List Record) : List (List Record) :=
  records.splitBy (fun a b => a.timestamp = b.timestamp)

/-- The groups that `generate_from_file` forms: runs of the valid records after the offset. -/
def groups (args : GeneratorArgs) (dataset : List Record) : List (List Record) :=
  runs ((dataset.drop args.requestsNumDatasetStart).filter (validRecordOffline ·))

/-- The groups up to the first one before which the waiting time cannot be computed: this is a
division by the rate of the requests, which only happens after the warm-up, and not for the
last group. -/
def flushable (args : GeneratorArgs) : ℕ → List (List Record) → List (List Record)
  | _, [] => []
  | cur, group :: rest =>
    if args.requestGenerateQps = 0 ∧ args.warmUpRequestsNum ≤ cur ∧ rest ≠ [] then []
    else group :: flushable args (cur + (accepted args group).length) rest

/-- What is submitted of some groups when the limit is looked at between them. -/
def untilLimit (args : GeneratorArgs) : ℕ → List (List Record) → List Record
  | _, [] => []
  | cur, group :: rest =>
    if args.numRequest ≤ cur then []
    else accepted args group ++ untilLimit args (cur + (accepted args group).length) rest

theorem untilLimit_of_le {cur : ℕ} (h : args.numRequest ≤ cur) (gs : List (List Record)) :
    untilLimit args cur gs = [] := by
  cases gs with
  | nil => rfl
  | cons group rest => rw [untilLimit, if_pos h]

/-- A run is one group. -/
theorem runs_of_eq {group : List Record} {t : ℚ} (hgroup : ∀ r ∈ group, r.timestamp = t)
    (hne : group ≠ []) : runs group = [group] := by
  refine List.splitBy_of_isChain hne (List.Pairwise.isChain ?_)
  refine List.pairwise_iff_forall_sublist.mpr (fun {a b} hab => ?_)
  have ha := hgroup a (hab.subset List.mem_cons_self)
  have hb := hgroup b (hab.subset (List.mem_cons_of_mem _ List.mem_cons_self))
  simp [ha, hb]

/-- A record of another timestamp ends the run. -/
theorem runs_append_cons {group rest : List Record} {t : ℚ} {record : Record}
    (hgroup : ∀ r ∈ group, r.timestamp = t) (hne : group ≠ []) (hrecord : record.timestamp ≠ t) :
    runs (group ++ record :: rest) = group :: runs (record :: rest) := by
  rw [runs, List.splitBy_append, ← runs, runs_of_eq hgroup hne]
  · rfl
  · intro a ha b hb
    have ha' := hgroup a (List.mem_of_getLast? ha)
    obtain rfl : record = b := Option.some.inj hb
    simpa [ha'] using Ne.symm hrecord

/-! ## The loop -/

/-- What the loop holds back: nothing yet, or a group of one timestamp. -/
def Pending (r : Reader) : Prop :=
  (r.currentGroup = [] ∧ r.prevTimestamp = none) ∨
    ∃ t, r.prevTimestamp = some t ∧ r.currentGroup ≠ [] ∧ ∀ x ∈ r.currentGroup, x.timestamp = t

/-- A record of another timestamp meets a group that is held back. -/
theorem Pending.group_of_other {r : Reader} (hpending : Pending r) {timestamp : ℚ}
    (hother : ¬ r.prevTimestamp.getD timestamp = timestamp) :
    ∃ t, r.prevTimestamp = some t ∧ r.currentGroup ≠ [] ∧
      (∀ x ∈ r.currentGroup, x.timestamp = t) ∧ timestamp ≠ t := by
  rcases hpending with ⟨-, hnone⟩ | ⟨t, hprev, hne, hgroup⟩
  · rw [hnone] at hother
    exact absurd rfl hother
  · rw [hprev] at hother
    exact ⟨t, hprev, hne, hgroup, Ne.symm hother⟩

/-- The groups that a reader past the offset has still to submit. -/
def pendingGroups (r : Reader) : List (List Record) :=
  runs (r.currentGroup ++ r.file.filter (validRecordOffline ·))

/-- The code returns, or it stops with the division, after submitting these records. -/
def EndsWith (records : List Record) (code : Py (RequestGenerator capPerLevel) Unit)
    (g : RequestGenerator capPerLevel) : Prop :=
  ∃ g', (code g = .ok ⟨⟩ g' ∨ code g = .error (.exception .zeroDivisionError) g') ∧
    Submits records g g'

theorem nextTimeInterval_error (hqps : args.requestGenerateQps = 0)
    (hwarm : args.warmUpRequestsNum ≤ g.curNumRequest) (group : List Record) (t t' : ℚ) :
    nextTimeInterval args group t t' g = .error (.exception .zeroDivisionError) g := by
  rw [nextTimeInterval, Py.bind_ok (Py.get_apply g), if_neg (not_lt.mpr hwarm), if_pos hqps]
  rfl

theorem nextTimeInterval_ok
    (h : ¬ (args.requestGenerateQps = 0 ∧ args.warmUpRequestsNum ≤ g.curNumRequest))
    (group : List Record) (t t' : ℚ) :
    ∃ timeInterval, nextTimeInterval args group t t' g = .ok timeInterval g := by
  rw [nextTimeInterval, Py.bind_ok (Py.get_apply g)]
  split_ifs with hwarm hrate hqps
  · exact ⟨_, rfl⟩
  · exact ⟨_, rfl⟩
  · exact absurd ⟨hqps, not_lt.mp hwarm⟩ h
  · exact ⟨_, rfl⟩

/-- A record of the same timestamp joins the group. -/
theorem takeRecord_same (args : GeneratorArgs) (env : Surroundings)
    (g : RequestGenerator capPerLevel) {r : Reader} {record : Record} (hpending : Pending r)
    (h : r.prevTimestamp.getD record.timestamp = record.timestamp) :
    ∃ r', takeRecord args env record r g = .ok r' g ∧ Pending r' ∧ r'.file = r.file ∧
      r'.curLineNum = r.curLineNum ∧ r'.currentGroup = r.currentGroup ++ [record] := by
  rw [takeRecord, if_pos h.symm]
  refine ⟨_, rfl, Or.inr ⟨record.timestamp, congrArg some h, by simp, ?_⟩, rfl, rfl, rfl⟩
  intro x hx
  rcases List.mem_append.mp hx with hx | hx
  · rcases hpending with ⟨hnil, -⟩ | ⟨t, hprev, -, hgroup⟩
    · rw [hnil] at hx
      cases hx
    · rw [hprev] at h
      exact (hgroup x hx).trans h
  · rw [List.mem_singleton.mp hx]

/-- A record of another timestamp starts a group, after the one before was submitted. -/
theorem takeRecord_other (env : Surroundings) {r : Reader} {record : Record} {t : ℚ}
    (hprev : r.prevTimestamp = some t) (hne : r.currentGroup ≠ []) (h : record.timestamp ≠ t)
    (hwell : ∀ x ∈ r.currentGroup, x.WellFormed) (hg : g.prefixExpansionCtrl.Chained)
    (hqps : ¬ (args.requestGenerateQps = 0 ∧ args.warmUpRequestsNum ≤ g.curNumRequest)) :
    ∃ r' g', takeRecord args env record r g = .ok r' g' ∧
      Submits (accepted args r.currentGroup) g g' ∧ Pending r' ∧ r'.file = r.file ∧
      r'.curLineNum = r.curLineNum ∧ r'.currentGroup = [record] := by
  obtain ⟨timeInterval, hrun⟩ := nextTimeInterval_ok hqps r.currentGroup t record.timestamp
  obtain ⟨g₁, hrun₁, h₁⟩ := flushGroup_spec args env hwell hg timeInterval
  rw [takeRecord, hprev, Option.getD_some, if_neg h]
  simp only [if_pos hne]
  rw [Py.bind_ok hrun, Py.bind_ok hrun₁, pure_bind]
  refine ⟨_, g₁, rfl, h₁, Or.inr ⟨record.timestamp, rfl, List.cons_ne_nil _ _, ?_⟩, rfl, rfl, rfl⟩
  intro x hx
  rw [List.mem_singleton.mp hx]

theorem takeRecord_error {r : Reader} {record : Record} {t : ℚ}
    (hprev : r.prevTimestamp = some t) (hne : r.currentGroup ≠ []) (h : record.timestamp ≠ t)
    (hqps : args.requestGenerateQps = 0) (hwarm : args.warmUpRequestsNum ≤ g.curNumRequest) :
    takeRecord args env record r g = .error (.exception .zeroDivisionError) g := by
  rw [takeRecord, hprev, Option.getD_some, if_neg h]
  simp only [if_pos hne]
  rw [Py.bind_error (nextTimeInterval_error hqps hwarm _ _ _)]

theorem Pending.runs_eq {r : Reader} (hpending : Pending r) :
    runs r.currentGroup = if r.currentGroup = [] then [] else [r.currentGroup] := by
  rcases hpending with ⟨hnil, -⟩ | ⟨t, -, hne, hgroup⟩
  · rw [if_pos hnil, hnil]
    rfl
  · rw [if_neg hne, runs_of_eq hgroup hne]

/-- At the end of the file what is held back is submitted. -/
theorem untilLimit_last {r : Reader} (hpending : Pending r) {cur : ℕ}
    (hlimit : ¬ args.numRequest ≤ cur) :
    untilLimit args cur (flushable args cur (runs r.currentGroup)) =
      accepted args r.currentGroup := by
  rw [hpending.runs_eq]
  split_ifs with hnil
  · rw [hnil]
    rfl
  · rw [flushable, if_neg (fun h => h.2.2 rfl), flushable, untilLimit, if_neg hlimit, untilLimit,
      List.append_nil]

/-- The first of several groups. -/
theorem untilLimit_cons {cur : ℕ} (hlimit : ¬ args.numRequest ≤ cur)
    (hqps : ¬ (args.requestGenerateQps = 0 ∧ args.warmUpRequestsNum ≤ cur))
    (group : List Record) (rest : List (List Record)) :
    untilLimit args cur (flushable args cur (group :: rest)) = accepted args group ++
      untilLimit args (cur + (accepted args group).length)
        (flushable args (cur + (accepted args group).length) rest) := by
  rw [flushable, if_neg (fun h => hqps ⟨h.1, h.2.1⟩), untilLimit, if_neg hlimit]

/-- Past the offset, the loop submits the groups up to the limit. -/
theorem readLines_spec (env : Surroundings) (turns : ℕ) {r : Reader}
    (hturns : r.file.length < turns) (hoffset : args.requestsNumDatasetStart ≤ r.curLineNum)
    (hpending : Pending r) (hgroup : ∀ x ∈ r.currentGroup, x.WellFormed)
    (hfile : ∀ x ∈ r.file, x.WellFormed) (hg : g.prefixExpansionCtrl.Chained) :
    EndsWith (untilLimit args g.curNumRequest (flushable args g.curNumRequest (pendingGroups r)))
      (readLines args env turns r) g := by
  induction turns generalizing r g with
  | zero => exact absurd hturns (Nat.not_lt_zero _)
  | succ turns ih =>
    rw [EndsWith, readLines, Py.bind_ok (Py.get_apply g)]
    by_cases hlimit : args.numRequest ≤ g.curNumRequest
    · rw [if_pos hlimit, untilLimit_of_le hlimit]
      exact ⟨g, Or.inl rfl, .nil hg⟩
    rw [if_neg hlimit, if_neg (show ¬ r.curLineNum + 1 ≤ args.requestsNumDatasetStart by omega)]
    cases hlines : r.file with
    | nil =>
      obtain ⟨g₁, hrun₁, h₁⟩ :=
        flushGroup_spec args env hgroup hg r.timeInterval
      refine ⟨g₁, Or.inl hrun₁, ?_⟩
      rw [pendingGroups, hlines, List.filter_nil, List.append_nil, untilLimit_last hpending hlimit]
      exact h₁
    | cons record file =>
      dsimp only [List.head?_cons, List.tail_cons]
      have hfile' : ∀ x ∈ file, x.WellFormed :=
        fun x hx => hfile x (hlines ▸ List.mem_cons_of_mem _ hx)
      have hrecord : record.WellFormed := hfile record (hlines ▸ List.mem_cons_self)
      have hlength : file.length < turns := by
        rw [hlines, List.length_cons] at hturns
        omega
      have hpast : args.requestsNumDatasetStart ≤ r.curLineNum + 1 := by omega
      cases hvalid : validRecordOffline record with
      -- an invalid line is counted and skipped
      | false =>
        have hrest := ih (r := { r with file := file, curLineNum := r.curLineNum + 1 }) hlength
          hpast hpending hgroup hfile' hg
        rwa [pendingGroups, ← List.filter_cons_of_neg (a := record) (by simp [hvalid]), ← hlines]
          at hrest
      | true =>
        set r₀ : Reader := { r with file := file, curLineNum := r.curLineNum + 1 } with hr₀
        have hpendingGroups : pendingGroups r =
            runs (r.currentGroup ++ record :: file.filter (validRecordOffline ·)) := by
          rw [pendingGroups, hlines, List.filter_cons_of_pos hvalid]
        rw [hpendingGroups]
        -- the same timestamp extends the group, another one flushes it and starts the next
        by_cases hsame : r.prevTimestamp.getD record.timestamp = record.timestamp
        · obtain ⟨r', hrun, hpending', hrest, hline, hcurrent⟩ :=
            takeRecord_same args env g (r := r₀) hpending hsame
          have hends := ih (r := r') (g := g) (hrest ▸ hlength) (hline ▸ hpast) hpending'
            (by
              rw [hcurrent]
              exact List.forall_mem_append.mpr ⟨hgroup, by simpa using hrecord⟩)
            (hrest ▸ hfile') hg
          rw [pendingGroups, hcurrent, hrest, List.append_assoc] at hends
          rw [Bool.not_true, if_neg (by decide), Py.bind_ok hrun]
          exact hends
        · obtain ⟨t, hprev, hne, htime, hother⟩ := hpending.group_of_other hsame
          rw [runs_append_cons htime hne hother, Bool.not_true, if_neg (by decide)]
          by_cases hqps : args.requestGenerateQps = 0 ∧ args.warmUpRequestsNum ≤ g.curNumRequest
          · refine ⟨g, Or.inr ?_, ?_⟩
            · rw [Py.bind_error (takeRecord_error (r := r₀) hprev hne hother hqps.1 hqps.2)]
            · rw [flushable,
                if_pos ⟨hqps.1, hqps.2, List.splitBy_ne_nil.mpr (List.cons_ne_nil _ _)⟩]
              exact .nil hg
          · obtain ⟨r', g₁, hrun, h₁, hpending', hrest, hline, hcurrent⟩ := takeRecord_other
              env (r := r₀) hprev hne hother hgroup hg hqps
            obtain ⟨g₂, hrun₂, h₂⟩ := ih (r := r') (g := g₁) (hrest ▸ hlength) (hline ▸ hpast)
              hpending' (by
                rw [hcurrent]
                simpa using hrecord)
              (hrest ▸ hfile') h₁.chained
            rw [pendingGroups, hcurrent, hrest, h₁.count] at h₂
            rw [untilLimit_cons hlimit hqps]
            rw [Py.bind_ok hrun]
            exact ⟨g₂, hrun₂, h₁.append h₂⟩

/-- Before the offset, lines are read and dropped. -/
theorem readLines_skip (env : Surroundings) (turns skip : ℕ) {r : Reader}
    (hskip : r.curLineNum + skip = args.requestsNumDatasetStart)
    (hturns : skip + r.file.length < turns)
    (hgroup : r.currentGroup = []) (hprev : r.prevTimestamp = none)
    (hfile : ∀ x ∈ r.file, x.WellFormed) (hg : g.prefixExpansionCtrl.Chained) :
    EndsWith (untilLimit args g.curNumRequest (flushable args g.curNumRequest
      (runs ((r.file.drop skip).filter (validRecordOffline ·)))))
      (readLines args env turns r) g := by
  induction skip generalizing turns r with
  | zero =>
    -- every line to be skipped is behind, and the reader has no group yet
    have hends := readLines_spec env turns (by omega)
      (Nat.le_of_eq hskip.symm) (Or.inl ⟨hgroup, hprev⟩) (by rw [hgroup]; simp) hfile hg
    rwa [pendingGroups, hgroup, List.nil_append] at hends
  | succ skip ih =>
    obtain ⟨turns, rfl⟩ := Nat.exists_eq_succ_of_ne_zero (Nat.ne_of_gt (Nat.zero_lt_of_lt hturns))
    rw [EndsWith, readLines, Py.bind_ok (Py.get_apply g)]
    by_cases hlimit : args.numRequest ≤ g.curNumRequest
    · rw [if_pos hlimit, untilLimit_of_le hlimit]
      exact ⟨g, Or.inl rfl, .nil hg⟩
    rw [if_neg hlimit, if_pos (show r.curLineNum + 1 ≤ args.requestsNumDatasetStart by omega)]
    have hends := ih turns
      (r := { r with file := r.file.tail, curLineNum := r.curLineNum + 1 })
      (by dsimp only; omega) (by rw [List.length_tail]; omega) hgroup hprev
      (fun x hx => hfile x (List.mem_of_mem_tail hx))
    rwa [List.drop_tail] at hends

/-- What `generate_from_file` submits. -/
theorem generateFromFile_spec (capPerLevel : ℕ) (env : Surroundings) {dataset : List Record}
    (hwell : ∀ record ∈ dataset, record.WellFormed) (detector : HotPrefixDetector (List ℤ))
    (counter : ℕ) :
    ∃ g : RequestGenerator capPerLevel,
      generateFromFile args env dataset (init detector counter) = .ok ⟨⟩ g ∧
        Submits (untilLimit args 0 (flushable args 0 (groups args dataset)))
          (init detector counter) g := by
  have hchained : (LazyExpansionController.init detector :
      LazyExpansionController capPerLevel).Chained := LazyPrefixTable.chained_init
  obtain ⟨g, hrun, hsubmits⟩ := readLines_skip (g := init detector counter) env
    (args.requestsNumDatasetStart + dataset.length + 1) args.requestsNumDatasetStart
    (r := ⟨dataset, 0, [], none, 1⟩) (Nat.zero_add _) (Nat.lt_succ_self _) rfl rfl hwell hchained
  refine ⟨g, ?_, hsubmits⟩
  rcases hrun with hrun | hrun
  · exact Py.tryExcept_ok hrun
  · rw [generateFromFile, Py.tryExcept, hrun]
    rfl

/-! ## When the replay is faithful -/

/-- All records that should become requests. -/
def acceptableRecords (args : GeneratorArgs) (dataset : List Record) : List Record :=
  (dataset.drop args.requestsNumDatasetStart).filter
    (fun record => record.Acceptable args.maxModelLen)

theorem accepted_groups (args : GeneratorArgs) (dataset : List Record) :
    accepted args (groups args dataset).flatten = acceptableRecords args dataset := by
  rw [groups, runs, List.flatten_splitBy, accepted, List.filter_filter]
  refine List.filter_congr (fun record _ => ?_)
  by_cases htime : record.timestamp < 0
  · rw [validRecordOffline, if_pos htime, Bool.and_false]
    exact (decide_eq_false (fun h => absurd h.1 (not_le.mpr htime))).symm
  · simp [validRecordOffline, Record.Acceptable, htime, not_lt.mp htime]

/-- The groups that can be submitted are the first ones. -/
theorem flushable_begins (args : GeneratorArgs) (cur : ℕ) (gs : List (List Record)) :
    flushable args cur gs <+: gs := by
  induction gs generalizing cur with
  | nil => exact List.prefix_refl _
  | cons group rest ih =>
    rw [flushable]
    split_ifs
    · exact List.nil_prefix
    · exact List.prefix_cons_inj _ |>.mpr (ih _)

theorem accepted_append (args : GeneratorArgs) (records more : List Record) :
    accepted args (records ++ more) = accepted args records ++ accepted args more :=
  List.filter_append ..

theorem accepted_begins (args : GeneratorArgs) {gs gs' : List (List Record)} (h : gs <+: gs') :
    accepted args gs.flatten <+: accepted args gs'.flatten := by
  obtain ⟨rest, rfl⟩ := h
  rw [List.flatten_append, accepted_append]
  exact List.prefix_append _ _

/-- The limit cuts after the first groups that reach it. -/
theorem untilLimit_spec (args : GeneratorArgs) (cur : ℕ) (gs : List (List Record)) :
    ∃ k, untilLimit args cur gs = accepted args (gs.take k).flatten ∧
      (∀ i, args.numRequest ≤ cur + (accepted args (gs.take i).flatten).length →
        k ≤ i) ∧
      (args.numRequest ≤ cur + (accepted args (gs.take k).flatten).length ∨
        gs.take k = gs) := by
  induction gs generalizing cur with
  | nil => exact ⟨0, rfl, fun i _ => Nat.zero_le i, Or.inr rfl⟩
  | cons group rest ih =>
    by_cases hlimit : args.numRequest ≤ cur
    · exact ⟨0, untilLimit_of_le hlimit _, fun i _ => Nat.zero_le i,
        Or.inl (hlimit.trans (Nat.le_add_right _ _))⟩
    -- one group more is accepted, and the limit is tested again after it
    · obtain ⟨k, hk, hleast, hreached⟩ := ih (cur + (accepted args group).length)
      refine ⟨k + 1, ?_, fun i hi => ?_, ?_⟩
      · rw [untilLimit, if_neg hlimit, hk, List.take_succ_cons, List.flatten_cons, accepted_append]
      · cases i with
        | zero => exact absurd hi hlimit
        | succ i =>
          rw [List.take_succ_cons, List.flatten_cons, accepted_append, List.length_append,
            ← Nat.add_assoc] at hi
          exact Nat.succ_le_succ (hleast i hi)
      · rw [List.take_succ_cons, List.flatten_cons, accepted_append, List.length_append,
          ← Nat.add_assoc]
        exact hreached.imp_right (congrArg (group :: ·))

/-- The replay submits exactly the first acceptable records, as many as were asked for. -/
def Faithful (capPerLevel : ℕ) (args : GeneratorArgs) (env : Surroundings)
    (detector : HotPrefixDetector (List ℤ)) (counter : ℕ) (dataset : List Record) : Prop :=
  ∃ g : RequestGenerator capPerLevel,
    generateFromFile args env dataset (init detector counter) = .ok ⟨⟩ g ∧
      List.Forall₂ MadeFrom g.runtimeRequestQueue
        ((acceptableRecords args dataset).take args.numRequest)

/-- The replay is faithful exactly when some number of the first groups that can be submitted
have as many acceptable records as are to be submitted. -/
theorem generateFromFile_faithful_iff (capPerLevel : ℕ) (args : GeneratorArgs)
    (env : Surroundings) (detector : HotPrefixDetector (List ℤ)) (counter : ℕ)
    {dataset : List Record} (hwell : ∀ record ∈ dataset, record.WellFormed) :
    Faithful capPerLevel args env detector counter dataset ↔
      ∃ k, (accepted args ((flushable args 0 (groups args dataset)).take k).flatten).length =
        min args.numRequest (acceptableRecords args dataset).length := by
  obtain ⟨g, hrun, hsubmits⟩ := generateFromFile_spec capPerLevel env hwell detector counter
  obtain ⟨requests, hqueue, hmade⟩ := hsubmits.queue
  rw [show (init detector counter : RequestGenerator capPerLevel).runtimeRequestQueue = [] from rfl,
    List.nil_append] at hqueue
  set gs := flushable args 0 (groups args dataset) with hgs
  set total := acceptableRecords args dataset with htotal
  -- what is submitted begins the acceptable records
  have hbegins : ∀ k, accepted args (gs.take k).flatten <+: total := by
    intro k
    rw [htotal, ← accepted_groups]
    exact accepted_begins args ((List.take_prefix k gs).trans (flushable_begins args 0 _))
  obtain ⟨k, hk, hleast, hreached⟩ := untilLimit_spec args 0 gs
  simp only [Nat.zero_add] at hleast hreached
  rw [hk] at hmade
  constructor
  · rintro ⟨g', hrun', hfaithful⟩
    obtain ⟨-, rfl⟩ := EStateM.Result.ok.inj (hrun.symm.trans hrun')
    refine ⟨k, ?_⟩
    rw [hqueue] at hfaithful
    rw [← hmade.length_eq, hfaithful.length_eq, List.length_take]
  · rintro ⟨i, hi⟩
    -- the loop stops at the first such end of a group, or goes on to the last group
    have hbelow : (accepted args (gs.take k).flatten).length ≤
        (accepted args (gs.take i).flatten).length := by
      rcases le_total args.numRequest total.length with hle | hle
      · rw [Nat.min_eq_left hle] at hi
        exact (accepted_begins args (List.take_prefix_take_left (hleast i hi.ge))).length_le
      · rw [hi, Nat.min_eq_right hle]
        exact (hbegins k).length_le
    have habove : (accepted args (gs.take i).flatten).length ≤
        (accepted args (gs.take k).flatten).length := by
      rcases hreached with hreached | hall
      · exact hi.le.trans ((Nat.min_le_left _ _).trans hreached)
      · rw [hall]
        exact (accepted_begins args (List.take_prefix i gs)).length_le
    refine ⟨g, hrun, ?_⟩
    rw [hqueue, ← htotal, List.take_eq_take_min, ← hi, ← Nat.le_antisymm hbelow habove,
      ← List.prefix_iff_eq_take.mp (hbegins k)]
    exact hmade

/-! ## Beyond the limit -/

theorem runs_timestamp {records group : List Record} (hgroup : group ∈ runs records) :
    ∃ t, ∀ r ∈ group, r.timestamp = t := by
  have hchain : group.IsChain (fun a b => a.timestamp = b.timestamp) :=
    (List.isChain_of_mem_splitBy hgroup).imp (fun _ _ h => of_decide_eq_true h)
  cases group with
  | nil => exact ⟨0, fun _ h => absurd h List.not_mem_nil⟩
  | cons first rest =>
    have htrans : IsTrans Record (fun a b => a.timestamp = b.timestamp) :=
      ⟨fun _ _ _ => Eq.trans⟩
    have hall := List.pairwise_cons.mp hchain.pairwise
    refine ⟨first.timestamp, fun r hr => ?_⟩
    rcases List.mem_cons.mp hr with rfl | hr
    · rfl
    · exact (hall.1 r hr).symm

/-- From the record that reaches the limit on, all that are submitted have one timestamp. -/
theorem untilLimit_overshoots (args : GeneratorArgs) (cur : ℕ) {gs : List (List Record)}
    (hgroups : ∀ group ∈ gs, ∃ t, ∀ r ∈ group, r.timestamp = t) :
    ∃ t, ∀ r ∈ (untilLimit args cur gs).drop (args.numRequest - 1 - cur), r.timestamp = t := by
  induction gs generalizing cur with
  | nil => exact ⟨0, by simp [untilLimit]⟩
  | cons group rest ih =>
    rw [untilLimit]
    split
    · exact ⟨0, by simp⟩
    · rw [List.drop_append]
      -- the group that reaches the limit is the last one, and its records share a timestamp
      by_cases hreached : args.numRequest ≤ cur + (accepted args group).length
      · obtain ⟨t, ht⟩ := hgroups group List.mem_cons_self
        refine ⟨t, fun r hr => ht r ?_⟩
        rw [untilLimit_of_le hreached, List.drop_nil, List.append_nil] at hr
        exact List.mem_of_mem_filter (List.mem_of_mem_drop hr)
      · obtain ⟨t, ht⟩ := ih (cur + (accepted args group).length)
          (fun other hother => hgroups other (List.mem_cons_of_mem _ hother))
        refine ⟨t, fun r hr => ht r ?_⟩
        have hpast : (accepted args group).length ≤ args.numRequest - 1 - cur := by omega
        rw [List.drop_eq_nil_of_le hpast, List.nil_append] at hr
        rwa [← Nat.sub_sub]

/-- With a rate, the limit alone ends the replay. -/
theorem flushable_eq (hqps : args.requestGenerateQps ≠ 0) (cur : ℕ) (gs : List (List Record)) :
    flushable args cur gs = gs := by
  induction gs generalizing cur with
  | nil => rfl
  | cons group rest ih => rw [flushable, if_neg (fun h => hqps h.1), ih]

/-- With a rate, the first acceptable records are submitted, as many as are asked for, and more
than that only of the timestamp at which the limit is reached. -/
theorem generateFromFile_first (capPerLevel : ℕ) (env : Surroundings) {dataset : List Record}
    (hwell : ∀ record ∈ dataset, record.WellFormed) (hqps : args.requestGenerateQps ≠ 0)
    (detector : HotPrefixDetector (List ℤ)) (counter : ℕ) :
    ∃ (g : RequestGenerator capPerLevel) (n : ℕ),
      generateFromFile args env dataset (init detector counter) = .ok ⟨⟩ g ∧
      List.Forall₂ MadeFrom g.runtimeRequestQueue ((acceptableRecords args dataset).take n) ∧
      min args.numRequest (acceptableRecords args dataset).length ≤ n ∧
      ∃ t, ∀ r ∈ ((acceptableRecords args dataset).take n).drop (args.numRequest - 1),
        r.timestamp = t := by
  obtain ⟨g, hrun, hsubmits⟩ := generateFromFile_spec capPerLevel env hwell detector counter
  obtain ⟨requests, hqueue, hmade⟩ := hsubmits.queue
  rw [show (init detector counter : RequestGenerator capPerLevel).runtimeRequestQueue = [] from rfl,
    List.nil_append] at hqueue
  rw [flushable_eq hqps] at hmade
  obtain ⟨k, hk, -, hreached⟩ := untilLimit_spec args 0 (groups args dataset)
  -- whole groups are accepted, so what is submitted begins the list of acceptable records
  have hbegins : accepted args ((groups args dataset).take k).flatten <+:
      acceptableRecords args dataset :=
    accepted_groups args dataset ▸ accepted_begins args (List.take_prefix k _)
  have htake := List.prefix_iff_eq_take.mp hbegins
  obtain ⟨t, ht⟩ : ∃ t, ∀ r ∈ (untilLimit args 0 (groups args dataset)).drop
      (args.numRequest - 1 - 0), r.timestamp = t :=
    untilLimit_overshoots args 0 (fun _ => runs_timestamp)
  rw [hk, htake, Nat.sub_zero] at ht
  refine ⟨g, _, hrun, ?_, ?_, t, ht⟩
  · rw [hqueue, ← htake, ← hk]
    exact hmade
  · rcases hreached with hreached | hall
    · exact (Nat.min_le_left _ _).trans (hreached.trans_eq (Nat.zero_add _))
    · rw [hall, accepted_groups]
      exact Nat.min_le_right _ _

/-! ### Two records of one timestamp -/

/-- A record of a conversation, at the given time. -/
def recordAt (timestamp : ℚ) : Record where
  timestamp
  prompts := "a"
  inputIds := [1]
  outputLen := 1
  gSessionId := "0@1@2"
  hashSessionId := "0@1"
  hashIds := some [1]

/-- A generator that is asked for some requests, at the given rate. -/
def argsFor (numRequest : ℕ) : GeneratorArgs where
  maxModelLen := 100
  datasetType := "toolagent"
  requestGenerateQps := 3
  numRequest
  warmUpRequestsNum := 0
  warmUpQps := 1 / 2
  requestsNumDatasetStart := 0
  numReplicas := 1

/-- A router that sends everything to the first replica. -/
def oneReplica : Surroundings where
  perfCounter _ := 0
  replicaId _ := some 0
  selected _ := Option.some_ne_none 0

theorem passes_recordAt (numRequest : ℕ) (timestamp : ℚ) :
    (recordAt timestamp).Passes (argsFor numRequest).maxModelLen := by
  refine ⟨?_, ?_, ?_, ?_, ?_, ?_, ?_, ?_, ?_⟩ <;> simp [recordAt, argsFor, pySplit]
  · decide
  · decide

theorem wellFormed_recordAt (timestamp : ℚ) : (recordAt timestamp).WellFormed := by
  intro sessionId hsession
  have hsplit : pySplit (recordAt timestamp).hashSessionId '@' =
      [String.ofList ['0'], String.ofList ['1']] := by
    simp only [recordAt, pySplit, String.reduceToList]
    rfl
  rw [hsplit] at hsession
  obtain rfl : String.ofList ['1'] = sessionId := Option.some.inj hsession
  decide +kernel

/-- Two lines of the same time. -/
def twins : List Record := [recordAt 0, recordAt 0]

theorem wellFormed_twins : ∀ record ∈ twins, record.WellFormed := by
  intro record hrecord
  simp only [twins, List.mem_cons, List.not_mem_nil, or_false, or_self] at hrecord
  exact hrecord ▸ wellFormed_recordAt 0

theorem accepted_twins (numRequest : ℕ) : accepted (argsFor numRequest) twins = twins := by
  refine List.filter_eq_self.mpr (fun record hrecord => ?_)
  simp only [twins, List.mem_cons, List.not_mem_nil, or_false, or_self] at hrecord
  rw [hrecord]
  exact decide_eq_true (passes_recordAt numRequest 0)

theorem groups_twins (numRequest : ℕ) : groups (argsFor numRequest) twins = [twins] := rfl

/-- One request is asked for, and both records of the same time are submitted. -/
theorem twins_overshoot : ¬ Faithful 10000 (argsFor 1) oneReplica (.init 200 (612 / 10000) 20) 0
    twins := by
  rintro ⟨g, hrun, hfaithful⟩
  obtain ⟨g', hrun', hsubmits⟩ := generateFromFile_spec 10000 oneReplica wellFormed_twins
    (.init 200 (612 / 10000) 20) 0
  obtain ⟨-, rfl⟩ := EStateM.Result.ok.inj (hrun.symm.trans hrun')
  obtain ⟨requests, hqueue, hmade⟩ := hsubmits.queue
  have htwo : requests.length = 2 := by
    rw [hmade.length_eq, groups_twins]
    show (accepted (argsFor 1) twins ++ []).length = 2
    rw [accepted_twins]
    rfl
  have hone := hfaithful.length_eq.trans_le (List.length_take_le _ _)
  rw [hqueue, List.length_append, htwo] at hone
  exact absurd hone (by decide)

theorem generateFromFile_faithful_twins :
    Faithful 10000 (argsFor 2) oneReplica (.init 200 (612 / 10000) 20) 0 twins := by
  refine (generateFromFile_faithful_iff 10000 (argsFor 2) oneReplica _ 0
    wellFormed_twins).mpr ⟨1, ?_⟩
  have hflushable : flushable (argsFor 2) 0 [twins] = [twins] := rfl
  rw [← accepted_groups, groups_twins, hflushable, List.take_of_length_le (by decide),
    List.flatten_singleton, accepted_twins]
  rfl

end RequestGenerator

end DualMap
