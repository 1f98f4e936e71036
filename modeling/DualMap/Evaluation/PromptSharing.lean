import DualMap.Evaluation.ProcessDataset
import DualMap.Foundation.BlockExpansion
import Mathlib.Algebra.Order.Ring.Rat
import Mathlib.Data.List.Basic

/-!
# Sharing Between Prompts

Two prompts of a processed dataset should have the same first tokens exactly where their records
have the same first hashes. A prompt is its blocks one after the other, cut at its length
(`tokenIds_eq_take`), so blocks are compared at the same places in all prompts. But the token of
a block only depends on its hash modulo the number of tokens: whole blocks agree exactly when
their hashes are congruent (`take_tokenIds_eq_iff`).

Every valid record becomes a line of the processed dataset, with as many tokens as the trace
says (`generateRequest_logs`), all of which the tokenizer reads back.
-/

namespace DualMap.Evaluation

open BlockExpansion

/-! ## The mapping -/

/-- A token that the tokenizer reads back from its text. -/
structure IsStable (tokenizer : Tokenizer) (tokenId : ℕ) : Prop where
  ordinary : tokenId ∉ tokenizer.allSpecialIds
  readBack : tokenizer.encode (tokenizer.decode [tokenId]) = [tokenId]

/-- The loop adds stable tokens, and it stops when there are 5000. -/
theorem collectStableTokens_spec (tokenizer : Tokenizer) (candidates : List ℕ)
    {stableMapping : List ℕ} (hlength : stableMapping.length < 5000)
    (hstable : ∀ tokenId ∈ stableMapping, IsStable tokenizer tokenId) :
    (collectStableTokens tokenizer candidates stableMapping).length ≤ 5000 ∧
      ∀ tokenId ∈ collectStableTokens tokenizer candidates stableMapping,
        IsStable tokenizer tokenId := by
  induction candidates generalizing stableMapping with
  | nil => exact ⟨hlength.le, hstable⟩
  | cons tokenId rest ih =>
    rw [collectStableTokens]
    split
    · exact ih hlength hstable
    · next hordinary =>
      split
      -- only a token that reads back as itself is taken up
      · next hread =>
        have hall : ∀ token ∈ stableMapping ++ [tokenId], IsStable tokenizer token := by
          intro token htoken
          rcases List.mem_append.mp htoken with hold | hnew
          · exact hstable token hold
          · exact List.mem_singleton.mp hnew ▸ ⟨hordinary, hread⟩
        have hnext : (stableMapping ++ [tokenId]).length = stableMapping.length + 1 := by
          rw [List.length_append, List.length_singleton]
        dsimp only
        split
        · exact ⟨hnext ▸ hlength, hall⟩
        · next hmore => exact ih (not_le.mp hmore) hall
      · exact ih hlength hstable

/-- The mapping has at most 5000 tokens, all of them stable. -/
theorem buildStableTokenMapping_spec {tokenizer : Tokenizer} {stableTokens : StableTokens}
    (hbuild : buildStableTokenMapping tokenizer = .ok stableTokens) :
    stableTokens.size ≤ 5000 ∧
      ∀ tokenId ∈ stableTokens.tokens, IsStable tokenizer tokenId := by
  rw [buildStableTokenMapping] at hbuild
  split at hbuild
  · cases hbuild
  · have hempty : ([] : List ℕ).length < 5000 := by decide
    obtain ⟨hlength, hstable⟩ := collectStableTokens_spec tokenizer (candidateTokens tokenizer)
      hempty (fun _ h => absurd h List.not_mem_nil)
    obtain rfl := Except.ok.inj hbuild
    simp only [StableTokens.size]
    exact ⟨hlength, hstable⟩

/-! ## Tokens and hashes -/

namespace StableTokens

variable (stableTokens : StableTokens)

/-- The key of the token of a hash. -/
def keyOf (hashId : ℤ) : Fin stableTokens.tokens.length :=
  ⟨(hashId % stableTokens.size).toNat, stableTokens.emod_size_lt hashId⟩

theorem keyOf_val (hashId : ℤ) :
    ((stableTokens.keyOf hashId : ℕ) : ℤ) = hashId % stableTokens.size := by
  have hpos : (0 : ℤ) < stableTokens.size := by exact_mod_cast stableTokens.size_pos
  exact Int.toNat_of_nonneg (Int.emod_nonneg hashId hpos.ne')

/-- The tokens are distinct, so they tell the hashes apart up to the size of the mapping. -/
theorem map_getTokenForHash_inj {hashIds hashIds' : List ℤ} :
    hashIds.map stableTokens.getTokenForHash = hashIds'.map stableTokens.getTokenForHash ↔
      hashIds.map (· % (stableTokens.size : ℤ)) = hashIds'.map (· % (stableTokens.size : ℤ)) := by
  have htokens : Function.Injective stableTokens.tokens.get :=
    List.nodup_iff_injective_get.mp stableTokens.nodup
  have hkeys : Function.Injective (fun key : Fin stableTokens.tokens.length => ((key : ℕ) : ℤ)) :=
    fun _ _ hsame => Fin.ext (Int.ofNat.inj hsame)
  -- the tokens have no repetition, so equal tokens come from equal keys
  have htoken : ∀ ids : List ℤ, ids.map stableTokens.getTokenForHash =
      (ids.map stableTokens.keyOf).map stableTokens.tokens.get := by
    intro ids
    rw [List.map_map]
    rfl
  have hmod : ∀ ids : List ℤ, ids.map (· % (stableTokens.size : ℤ)) =
      (ids.map stableTokens.keyOf).map
        (fun key : Fin stableTokens.tokens.length => ((key : ℕ) : ℤ)) := by
    intro ids
    rw [List.map_map]
    exact List.map_congr_left (fun hashId _ => (stableTokens.keyOf_val hashId).symm)
  rw [htoken, htoken, hmod, hmod, (List.map_injective_iff.mpr htokens).eq_iff,
    (List.map_injective_iff.mpr hkeys).eq_iff]

/-! ## The blocks of a prompt -/

/-- The loop lays out the blocks until nothing remains of the length. -/
theorem fillBlocks_eq (hashIds : List ℤ) (remaining : ℕ) (tokenIds : List ℕ) :
    stableTokens.fillBlocks hashIds remaining tokenIds =
      (tokenIds ++ (expand blockSize (hashIds.map stableTokens.getTokenForHash)).take remaining,
        ((remaining - blockSize * hashIds.length : ℕ) : ℤ)) := by
  induction hashIds generalizing remaining tokenIds with
  | nil => simp [fillBlocks]
  | cons hid rest ih =>
    have hsize : min (blockSize : ℤ) remaining = ((min blockSize remaining : ℕ) : ℤ) := by omega
    have hleft : (remaining : ℤ) - ((min blockSize remaining : ℕ) : ℤ) =
        ((remaining - blockSize : ℕ) : ℤ) := by omega
    have hlength : remaining - blockSize - blockSize * rest.length =
        remaining - blockSize * (rest.length + 1) := by
      rw [Nat.sub_sub, Nat.mul_succ, Nat.add_comm]
    rw [fillBlocks, hsize, hleft, ih, Int.toNat_natCast, List.map_cons, take_expand_cons,
      List.append_assoc, List.length_cons, hlength]

/-- The last block is as long as what remains. -/
theorem tokenIds_eq {record : TraceRecord} {length : ℕ} (hlength : record.inputLength = length)
    {first : List ℤ} {last : ℤ} (hhashIds : record.hashIds = first ++ [last]) :
    stableTokens.tokenIds record false =
      .ok ((expand blockSize (first.map stableTokens.getTokenForHash) ++
        List.replicate length (stableTokens.getTokenForHash last)).take length) := by
  have hcut : ((expand blockSize (first.map stableTokens.getTokenForHash) ++
      List.replicate length (stableTokens.getTokenForHash last)).take length) =
      (expand blockSize (first.map stableTokens.getTokenForHash)).take length ++
        List.replicate (length - blockSize * first.length)
          (stableTokens.getTokenForHash last) := by
    rw [List.take_append, length_expand, List.length_map, List.take_replicate,
      Nat.min_eq_left (Nat.sub_le ..)]
  rw [tokenIds, if_neg Bool.false_ne_true, hhashIds, List.dropLast_concat, hlength, fillBlocks_eq,
    List.nil_append, hcut]
  dsimp only
  split
  · rw [List.getLast?_concat, Int.toNat_natCast]
  · next hnone =>
    have hzero : length - blockSize * first.length = 0 := by omega
    rw [hzero, List.replicate_zero, List.append_nil]

/-- If there is a hash for every block, the prompt is its blocks, cut at its length. -/
theorem tokenIds_eq_take {record : TraceRecord} {length : ℕ}
    (hlength : record.inputLength = length) (hne : record.hashIds ≠ [])
    (hblocks : length ≤ blockSize * record.hashIds.length) :
    stableTokens.tokenIds record false =
      .ok ((expand blockSize (record.hashIds.map stableTokens.getTokenForHash)).take length) := by
  obtain ⟨first, last, hhashIds⟩ := (List.eq_nil_or_concat' record.hashIds).resolve_left hne
  have hlast : length - blockSize * first.length ≤ blockSize := by
    rw [hhashIds, List.length_append, List.length_singleton, Nat.mul_succ] at hblocks
    omega
  rw [stableTokens.tokenIds_eq hlength hhashIds, hhashIds, List.map_append, expand_append,
    List.take_append, List.take_append, length_expand, List.length_map, List.map_singleton,
    expand_cons, expand_nil, List.append_nil, List.take_replicate, List.take_replicate,
    Nat.min_eq_left (Nat.sub_le ..), Nat.min_eq_left hlast]

end StableTokens

/-! ## Valid records -/

namespace RequestGenerator

theorem validRecord_iff {record : TraceRecord} : validRecord record = true ↔
    0 ≤ record.timestamp ∧ 0 < record.inputLength ∧ 0 ≤ record.outputLength ∧
      record.hashIds ≠ [] := by
  simp only [validRecord, Bool.not_eq_true', Bool.or_eq_false_iff, decide_eq_false_iff_not, not_lt,
    not_le, Nat.lt_one_iff, List.length_eq_zero_iff, and_assoc, ne_eq]

/-- The prompt of a valid record has the length of the trace. -/
theorem length_tokenIds (stableTokens : StableTokens) {record : TraceRecord}
    (hvalid : validRecord record) : ∃ tokenIds,
      stableTokens.tokenIds record false = .ok tokenIds ∧
        (tokenIds.length : ℤ) = record.inputLength := by
  obtain ⟨-, hpos, -, hne⟩ := validRecord_iff.mp hvalid
  obtain ⟨length, hlength⟩ := Int.eq_ofNat_of_zero_le hpos.le
  obtain ⟨first, last, hhashIds⟩ := (List.eq_nil_or_concat' record.hashIds).resolve_left hne
  refine ⟨_, stableTokens.tokenIds_eq hlength hhashIds, ?_⟩
  rw [List.length_take, List.length_append, List.length_replicate,
    Nat.min_eq_left (Nat.le_add_left ..), hlength]

/-- The tokens of a valid prompt are tokens of the mapping. -/
theorem mem_tokenIds (stableTokens : StableTokens) {record : TraceRecord}
    (hvalid : validRecord record) {tokenIds : List ℕ}
    (htokenIds : stableTokens.tokenIds record false = .ok tokenIds) :
    ∀ tokenId ∈ tokenIds, tokenId ∈ stableTokens.tokens := by
  obtain ⟨-, hpos, -, hne⟩ := validRecord_iff.mp hvalid
  obtain ⟨length, hlength⟩ := Int.eq_ofNat_of_zero_le hpos.le
  obtain ⟨first, last, hhashIds⟩ := (List.eq_nil_or_concat' record.hashIds).resolve_left hne
  have hmapped : ∀ hashId, stableTokens.getTokenForHash hashId ∈ stableTokens.tokens :=
    fun _ => List.get_mem _ _
  intro tokenId htokenId
  rw [stableTokens.tokenIds_eq hlength hhashIds] at htokenIds
  rw [← Except.ok.inj htokenIds] at htokenId
  -- either in one of the first blocks or in the last one
  rcases List.mem_append.mp (List.mem_of_mem_take htokenId) with hblock | hlast
  · obtain ⟨token, htoken, hsame⟩ := List.mem_flatMap.mp hblock
    obtain ⟨hashId, -, rfl⟩ := List.mem_map.mp htoken
    exact List.eq_of_mem_replicate hsame ▸ hmapped hashId
  · exact List.eq_of_mem_replicate hlast ▸ hmapped last

/-! ## Lines of the processed dataset -/

/-- A line that a record becomes: its own data, the prompt of its tokens, and as many ids as
the trace says. -/
structure LoggedAs (tokenizer : Tokenizer) (stableTokens : StableTokens) (record : TraceRecord)
    (entry : LogEntry) : Prop where
  timestamp : entry.timestamp = record.timestamp
  inputLength : entry.inputLength = record.inputLength
  outputLen : entry.outputLen = record.outputLength
  hashIds : entry.hashIds = record.hashIds
  tokens : ∃ tokenIds, stableTokens.tokenIds record false = .ok tokenIds ∧
    entry.prompts = tokenizer.decode tokenIds ∧ entry.inputIds = encodeAgain tokenizer tokenIds
  numInputIds : entry.numInputIds = entry.inputIds.length
  complete : (entry.inputIds.length : ℤ) = record.inputLength

theorem length_encodeAgain (tokenizer : Tokenizer) (tokenIds : List ℕ) :
    (encodeAgain tokenizer tokenIds).length = tokenIds.length := by
  rw [encodeAgain]
  split
  · rfl
  · next hsame => exact not_not.mp hsame

theorem sessionId_returns {record : TraceRecord} (hne : record.hashIds ≠ []) :
    ∃ id, sessionId record = .ok id := by
  unfold sessionId
  split
  · next hnil => exact absurd hnil hne
  · exact ⟨_, rfl⟩
  · exact ⟨_, rfl⟩

theorem hashSessionIdOf_spec (nowTime : ℕ → String) (id : String) (g : RequestGenerator) :
    ∃ hashId ids readings, hashSessionIdOf nowTime id g =
      .ok hashId { g with hashSessionIdMap := ids, readings := readings } := by
  rw [hashSessionIdOf, readNowTime, Py.bind_ok (Py.modifyGet_apply _ g),
    Py.bind_ok (Py.get_apply _)]
  cases g.hashSessionIdMap.get? id with
  | none => exact ⟨_, _, _, rfl⟩
  | some hashId => exact ⟨_, _, _, rfl⟩

/-- A valid record becomes one more line. -/
theorem generateRequest_logs (tokenizer : Tokenizer) (nowTime : ℕ → String)
    (g : RequestGenerator) {record : TraceRecord} (hvalid : validRecord record) :
    ∃ entry g', generateRequest tokenizer nowTime record false g = .ok () g' ∧
      g'.stableTokens = g.stableTokens ∧
      g'.processedDatasetFile = g.processedDatasetFile ++ [entry] ∧
      LoggedAs tokenizer g.stableTokens record entry := by
  obtain ⟨tokenIds, htokenIds, hlength⟩ := length_tokenIds g.stableTokens hvalid
  obtain ⟨id, hid⟩ := sessionId_returns (validRecord_iff.mp hvalid).2.2.2
  rw [generateRequest, nextRequestId, Py.bind_ok (Py.modifyGet_apply _ g),
    Py.bind_ok (Py.get_apply _), htokenIds, hid]
  obtain ⟨hashId, ids, readings, hhash⟩ := hashSessionIdOf_spec nowTime id
    { g with requestIdCounter := g.requestIdCounter + 1 }
  simp only [Py.ofExcept, pure_bind]
  rw [Py.bind_ok hhash]
  have hcomplete : ((encodeAgain tokenizer tokenIds).length : ℤ) = record.inputLength := by
    rw [length_encodeAgain, hlength]
  exact ⟨_, _, rfl, rfl, rfl,
    ⟨rfl, rfl, rfl, rfl, ⟨tokenIds, htokenIds, rfl, rfl⟩, rfl, hcomplete⟩⟩

/-! ## Shared tokens -/

/-- A record with a hash for each of its blocks, of which the first `k` are whole. -/
structure HasWholeBlocks (record : TraceRecord) (k : ℕ) : Prop where
  nonempty : record.hashIds ≠ []
  covered : record.inputLength ≤ blockSize * record.hashIds.length
  whole : (blockSize * k : ℤ) ≤ record.inputLength

section Shared

variable (stableTokens : StableTokens) {record record' : TraceRecord} {tokenIds tokenIds' : List ℕ}
  {k : ℕ}

/-- The whole blocks at the front are those of the first hashes. -/
theorem HasWholeBlocks.take_tokenIds (h : HasWholeBlocks record k)
    (htokenIds : stableTokens.tokenIds record false = .ok tokenIds) :
    tokenIds.take (blockSize * k) =
      (expand blockSize (record.hashIds.map stableTokens.getTokenForHash)).take
        (blockSize * k) := by
  obtain ⟨length, hlength⟩ := Int.eq_ofNat_of_zero_le ((Int.natCast_nonneg _).trans h.whole)
  have hcovered : length ≤ blockSize * record.hashIds.length := by
    exact_mod_cast hlength ▸ h.covered
  have hwhole : blockSize * k ≤ length := by
    exact_mod_cast hlength ▸ h.whole
  rw [stableTokens.tokenIds_eq_take hlength h.nonempty hcovered] at htokenIds
  rw [← Except.ok.inj htokenIds, List.take_take, Nat.min_eq_left hwhole]

/-- Two prompts agree on whole blocks exactly when the hashes of these are congruent. -/
theorem take_tokenIds_eq_iff (h : HasWholeBlocks record k) (h' : HasWholeBlocks record' k)
    (htokenIds : stableTokens.tokenIds record false = .ok tokenIds)
    (htokenIds' : stableTokens.tokenIds record' false = .ok tokenIds') :
    tokenIds.take (blockSize * k) = tokenIds'.take (blockSize * k) ↔
      (record.hashIds.take k).map (· % (stableTokens.size : ℤ)) =
        (record'.hashIds.take k).map (· % (stableTokens.size : ℤ)) := by
  rw [h.take_tokenIds stableTokens htokenIds, h'.take_tokenIds stableTokens htokenIds',
    take_expand_eq_iff (by decide), ← List.map_take, ← List.map_take,
    stableTokens.map_getTokenForHash_inj]

end Shared

/-- The prompts of two valid records have the lengths of the trace, and they agree on whole
blocks exactly when the hashes of these are congruent modulo the size of the mapping. -/
theorem tokenIds_share_iff (stableTokens : StableTokens) {record record' : TraceRecord}
    (hvalid : validRecord record) (hvalid' : validRecord record')
    (hblocks : record.inputLength ≤ blockSize * record.hashIds.length)
    (hblocks' : record'.inputLength ≤ blockSize * record'.hashIds.length) {k : ℕ}
    (hk : (blockSize * k : ℤ) ≤ record.inputLength)
    (hk' : (blockSize * k : ℤ) ≤ record'.inputLength) :
    ∃ tokenIds tokenIds', stableTokens.tokenIds record false = .ok tokenIds ∧
      stableTokens.tokenIds record' false = .ok tokenIds' ∧
      (tokenIds.length : ℤ) = record.inputLength ∧
      (tokenIds'.length : ℤ) = record'.inputLength ∧
      (tokenIds.take (blockSize * k) = tokenIds'.take (blockSize * k) ↔
        (record.hashIds.take k).map (· % (stableTokens.size : ℤ)) =
          (record'.hashIds.take k).map (· % (stableTokens.size : ℤ))) := by
  obtain ⟨tokenIds, htokenIds, hlength⟩ := length_tokenIds stableTokens hvalid
  obtain ⟨tokenIds', htokenIds', hlength'⟩ := length_tokenIds stableTokens hvalid'
  have hwhole : HasWholeBlocks record k := ⟨(validRecord_iff.mp hvalid).2.2.2, hblocks, hk⟩
  have hwhole' : HasWholeBlocks record' k := ⟨(validRecord_iff.mp hvalid').2.2.2, hblocks', hk'⟩
  exact ⟨tokenIds, tokenIds', htokenIds, htokenIds', hlength, hlength',
    take_tokenIds_eq_iff stableTokens hwhole hwhole' htokenIds htokenIds'⟩

/-! ## Hashes that share a token -/

/-- As many tokens as a mapping can have. -/
def fullMapping : StableTokens where
  tokens := List.range' 1000 5000
  nodup := List.nodup_range'
  nonempty := List.ne_nil_of_length_pos (by rw [List.length_range']; decide)

/-- A record of one block. -/
def blockRecord (hashId : ℤ) : TraceRecord where
  timestamp := 0
  inputLength := 512
  outputLength := 1
  hashIds := [hashId]

/-- A record of two blocks. -/
def twoBlocks (first second : ℤ) : TraceRecord where
  timestamp := 0
  inputLength := 1024
  outputLength := 1
  hashIds := [first, second]

/-- Two records with the first block in common: so have their prompts, and no more. -/
theorem tokenIds_share_iff_twoBlocks : ∃ tokenIds tokenIds',
    fullMapping.tokenIds (twoBlocks 7 1) false = .ok tokenIds ∧
    fullMapping.tokenIds (twoBlocks 7 2) false = .ok tokenIds' ∧
    tokenIds.take 512 = tokenIds'.take 512 ∧ tokenIds.take 1024 ≠ tokenIds'.take 1024 := by
  have hshared (k : ℕ) (hk : (blockSize * k : ℤ) ≤ 1024) :=
    @tokenIds_share_iff fullMapping (twoBlocks 7 1) (twoBlocks 7 2) (by decide +kernel)
      (by decide +kernel) (by decide) (by decide) k hk hk
  obtain ⟨tokenIds, tokenIds', htokenIds, htokenIds', -, -, hfirst⟩ := hshared 1 (by decide)
  obtain ⟨_, _, hsame, hsame', -, -, hboth⟩ := hshared 2 (by decide)
  obtain rfl := Except.ok.inj (htokenIds.symm.trans hsame)
  obtain rfl := Except.ok.inj (htokenIds'.symm.trans hsame')
  refine ⟨tokenIds, tokenIds', htokenIds, htokenIds', hfirst.mpr (by decide +kernel), ?_⟩
  exact fun hall => absurd (hboth.mp hall) (by decide +kernel)

/-- Two blocks with different hashes become the same 512 tokens. -/
theorem tokenIds_share_too_much : ¬ ∀ (stableTokens : StableTokens) (record record' : TraceRecord),
    validRecord record → validRecord record' →
    (blockSize * (record.hashIds.length - 1) < record.inputLength ∧
      record.inputLength ≤ blockSize * record.hashIds.length) →
    (blockSize * (record'.hashIds.length - 1) < record'.inputLength ∧
      record'.inputLength ≤ blockSize * record'.hashIds.length) →
    ∀ k : ℕ, (blockSize * k : ℤ) ≤ record.inputLength →
      (blockSize * k : ℤ) ≤ record'.inputLength →
    ∃ tokenIds tokenIds', stableTokens.tokenIds record false = .ok tokenIds ∧
      stableTokens.tokenIds record' false = .ok tokenIds' ∧
      (tokenIds.length : ℤ) = record.inputLength ∧
      (tokenIds'.length : ℤ) = record'.inputLength ∧
      (tokenIds.take (blockSize * k) = tokenIds'.take (blockSize * k) ↔
        record.hashIds.take k = record'.hashIds.take k) := by
  intro h
  obtain ⟨tokenIds, tokenIds', htokenIds, htokenIds', -, -, hshare⟩ :=
    h fullMapping (blockRecord 0) (blockRecord 5000) (by decide +kernel) (by decide +kernel)
      (by decide) (by decide) 1 (by decide) (by decide)
  have hwhole : HasWholeBlocks (blockRecord 0) 1 := ⟨by decide, by decide, by decide⟩
  have hwhole' : HasWholeBlocks (blockRecord 5000) 1 := ⟨by decide, by decide, by decide⟩
  have hsame := (take_tokenIds_eq_iff fullMapping hwhole hwhole' htokenIds htokenIds').mpr
    (by decide +kernel)
  exact absurd (hshare.mp hsame) (by decide)

end RequestGenerator

end DualMap.Evaluation
