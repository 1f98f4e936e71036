import DualMap.Preble.WindowInvariants

/-!
# Entries Come, Go and Are Renamed

What `add_request`, `_remove_old_entries` and `replace_old_node_with_new` do to the window,
as functions without effects (`addEntry`, `afterRemoval`, `renameNode`). Each of them keeps
the dictionaries in step, and the methods compute them without failing.
-/

namespace DualMap.Preble

namespace SlidingWindowHistogram

variable {n : ℕ} {nodes : ℕ → TreeNode n} {h h' : SlidingWindowHistogram n}

/-! ## Changes of a dictionary -/

theorem popKey_eq {κ ν : Type} [DecidableEq κ]
    (attr : Attr (SlidingWindowHistogram n) (OrderedDict κ ν)) {key : κ} {value : ν}
    (hget : (attr.get h).get? key = some value) :
    popKey attr key h = .ok value (attr.set ((attr.get h).erase key) h) := by
  rw [popKey, Py.bind_ok (Py.get_apply h), hget, Py.ofOption_some, pure_bind,
    Py.bind_ok (Py.set_apply _ _)]
  rfl

theorem delKey_eq {κ ν : Type} [DecidableEq κ]
    (attr : Attr (SlidingWindowHistogram n) (OrderedDict κ ν)) {key : κ}
    (hmem : key ∈ (attr.get h).keys) :
    delKey attr key h = .ok () (attr.set ((attr.get h).erase key) h) := by
  obtain ⟨value, hvalue⟩ := OrderedDict.get?_of_mem_keys hmem
  rw [delKey, Py.bind_ok (popKey_eq attr hvalue)]
  rfl

theorem moveKey_eq {κ ν : Type} [DecidableEq κ]
    (attr : Attr (SlidingWindowHistogram n) (OrderedDict κ ν)) {old : κ} (new : κ)
    (hlens : ∀ d, attr.get (attr.set d h) = d)
    (hset : ∀ d d', attr.set d' (attr.set d h) = attr.set d' h)
    (hmem : old ∈ (attr.get h).keys) :
    moveKey attr old new h = .ok () (attr.set ((attr.get h).rename old new) h) := by
  obtain ⟨value, hvalue⟩ := OrderedDict.get?_of_mem_keys hmem
  rw [moveKey, Py.bind_ok (popKey_eq attr hvalue), Py.modify_apply, hlens, hset,
    OrderedDict.rename, hvalue]

/-! ## An entry leaves -/

/-- The first entry is taken off its sums. -/
def subtractEntry (nodes : ℕ → TreeNode n) (h : SlidingWindowHistogram n)
    (entry : WindowEntry) : SlidingWindowHistogram n :=
  let leaf := nodes entry.leafNode
  { h with
    timestamps := h.timestamps.tail
    histogram := h.histogram.add entry.node (-leaf.contextLength)
    numRequestsForNodeMaps := h.numRequestsForNodeMaps.add entry.node (-1)
    sumShareTokensForNodeMaps :=
      h.sumShareTokensForNodeMaps.add entry.node (-(leaf.contextLength - leaf.numTokens))
    sumPromptTokensForNodeMaps :=
      h.sumPromptTokensForNodeMaps.add entry.node (-leaf.contextLength) }

/-- A node without entries is forgotten, and its allocation is reset. -/
def forgetNode (h : SlidingWindowHistogram n) (node : ℕ) : SlidingWindowHistogram n :=
  { h with
    histogram := h.histogram.erase node
    numRequestsForNodeMaps := h.numRequestsForNodeMaps.erase node
    unsharePrefixRatioForNodeMaps := h.unsharePrefixRatioForNodeMaps.erase node
    sumShareTokensForNodeMaps := h.sumShareTokensForNodeMaps.erase node
    sumPromptTokensForNodeMaps := h.sumPromptTokensForNodeMaps.erase node
    curNumDecodeForNodeMaps := h.curNumDecodeForNodeMaps.erase node
    gpuAllocations := h.gpuAllocations.set node ∅ }

/-- The window after its first entry was removed. -/
def afterRemoval (nodes : ℕ → TreeNode n) (h : SlidingWindowHistogram n) (entry : WindowEntry) :
    SlidingWindowHistogram n :=
  let h₁ := subtractEntry nodes h entry
  if (h₁.histogram.get? entry.node).getD 0 ≤ 0 then forgetNode h₁ entry.node else h₁

theorem SameWindow.forgetNode (hsame : SameWindow h h') (node : ℕ) :
    SameWindow (h.forgetNode node) (h'.forgetNode node) := by
  obtain ⟨_, _, _, rfl⟩ := hsame
  exact ⟨_, _, _, rfl⟩

section Removal

variable {entry : WindowEntry} {rest : List WindowEntry}

/-- The running length of a node is that of the entries it keeps. -/
theorem Windowed.length_subtractEntry (hw : Windowed nodes h)
    (htime : h.timestamps = entry :: rest) :
    ((subtractEntry nodes h entry).histogram.get? entry.node).getD 0 =
      OrderedDict.sumOf (rest.map fun e => (e.node, promptLength nodes e.leafNode)) entry.node := by
  have hsums := hw.histogram
  rw [amounts, htime, List.map_cons] at hsums
  exact hsums.getD_subtract entry.node

/-- A node is forgotten exactly when it keeps no entry. -/
theorem Windowed.afterRemoval_eq (hw : Windowed nodes h)
    (htime : h.timestamps = entry :: rest) :
    afterRemoval nodes h entry =
      if entry.node ∈ rest.map WindowEntry.node then subtractEntry nodes h entry
      else (subtractEntry nodes h entry).forgetNode entry.node := by
  have hlength := hw.length_subtractEntry htime
  have hfst : (rest.map fun e => (e.node, promptLength nodes e.leafNode)).map Prod.fst =
      rest.map WindowEntry.node := by
    rw [List.map_map]
    rfl
  rw [afterRemoval]
  -- the code forgets the node when its tokens come to zero: that is, when it has no entry left
  by_cases hmem : entry.node ∈ rest.map WindowEntry.node
  · rw [if_pos hmem, if_neg]
    have hpos : 0 < OrderedDict.sumOf
        (rest.map fun e => (e.node, promptLength nodes e.leafNode)) entry.node := by
      refine OrderedDict.sumOf_pos ?_ (by rwa [hfst])
      intro amount hamount
      obtain ⟨e, he, rfl⟩ := List.mem_map.mp hamount
      exact Int.natCast_pos.mpr (hw.positive e (htime ▸ List.mem_cons_of_mem _ he))
    omega
  · rw [if_neg hmem, if_pos]
    rw [hlength, OrderedDict.sumOf_eq_zero (by rwa [hfst])]

theorem Windowed.afterRemoval (hw : Windowed nodes h) (htime : h.timestamps = entry :: rest) :
    Windowed nodes (afterRemoval nodes h entry) ∧
      (SlidingWindowHistogram.afterRemoval nodes h entry).timestamps = rest := by
  have hhist := hw.histogram
  have hprompt := hw.sumPrompt
  have hnum := hw.numRequests
  have hshare := hw.sumShare
  have hratio := hw.ratio
  have hdecode := hw.curNumDecode
  simp only [amounts, htime, List.map_cons] at hhist hprompt hnum hshare hratio hdecode
  have hold : ∀ e ∈ rest, e ∈ h.timestamps :=
    fun e he => htime ▸ List.mem_cons_of_mem _ he
  have hfst : ∀ {M : Type} (amount : ℕ → M),
      (rest.map fun e => (e.node, amount e.leafNode)).map Prod.fst =
        rest.map WindowEntry.node := by
    intro M amount
    rw [List.map_map]
    rfl
  have hrest : rest = h.timestamps.tail := by rw [htime, List.tail_cons]
  rw [hw.afterRemoval_eq htime]
  -- the removed entry is the node's last one in the window, or others remain
  by_cases hmem : entry.node ∈ rest.map WindowEntry.node
  · rw [if_pos hmem]
    have hkey : ∀ {M : Type} (amount : ℕ → M),
        entry.node ∈ (rest.map fun e => (e.node, amount e.leafNode)).map Prod.fst := by
      intro M amount
      rwa [hfst]
    subst hrest
    exact ⟨{ histogram := hhist.subtract (hkey _)
             sumPrompt := hprompt.subtract (hkey _)
             numRequests := hnum.subtract (hkey fun _ => 1)
             sumShare := hshare.subtract hmem _
             ratio := hratio.tail_of_mem hmem
             curNumDecode := hdecode.tail_of_mem hmem
             totalDecode := fun e he => hw.totalDecode e (hold e he)
             positive := fun e he => hw.positive e (hold e he)
             allocated := fun e he => hw.allocated e (hold e he) }, rfl⟩
  · rw [if_neg hmem]
    have hkey : ∀ {M : Type} (amount : ℕ → M),
        entry.node ∉ (rest.map fun e => (e.node, amount e.leafNode)).map Prod.fst := by
      intro M amount
      rwa [hfst]
    subst hrest
    exact ⟨{ histogram := hhist.forget (hkey _)
             sumPrompt := hprompt.forget (hkey _)
             numRequests := hnum.forget (hkey fun _ => 1)
             sumShare := hshare.forget hmem _
             ratio := hratio.erase hmem
             curNumDecode := hdecode.erase hmem
             totalDecode := fun e he => hw.totalDecode e (hold e he)
             positive := fun e he => hw.positive e (hold e he)
             allocated := fun e he =>
               OrderedDict.mem_keys_set.mpr (Or.inr (hw.allocated e (hold e he))) }, rfl⟩

/-- The keys of a forgotten node can all be deleted. -/
theorem delKeys_eq {node : ℕ} (hhist : node ∈ h.histogram.keys)
    (hnum : node ∈ h.numRequestsForNodeMaps.keys)
    (hratio : node ∈ h.unsharePrefixRatioForNodeMaps.keys)
    (hshare : node ∈ h.sumShareTokensForNodeMaps.keys)
    (hprompt : node ∈ h.sumPromptTokensForNodeMaps.keys)
    (hdecode : node ∈ h.curNumDecodeForNodeMaps.keys) :
    (do delKey histogramAttr node
        delKey numRequestsAttr node
        delKey unsharePrefixRatioAttr node
        delKey sumShareTokensAttr node
        delKey sumPromptTokensAttr node
        delKey curNumDecodeAttr node
        modify (fun s => { s with gpuAllocations := s.gpuAllocations.set node ∅ }) :
      Py (SlidingWindowHistogram n) Unit) h = .ok () (h.forgetNode node) := by
  rw [Py.bind_ok (delKey_eq histogramAttr hhist)]
  refine (Py.bind_ok (delKey_eq numRequestsAttr ?_)).trans ?_
  · exact hnum
  refine (Py.bind_ok (delKey_eq unsharePrefixRatioAttr ?_)).trans ?_
  · exact hratio
  refine (Py.bind_ok (delKey_eq sumShareTokensAttr ?_)).trans ?_
  · exact hshare
  refine (Py.bind_ok (delKey_eq sumPromptTokensAttr ?_)).trans ?_
  · exact hprompt
  refine (Py.bind_ok (delKey_eq curNumDecodeAttr ?_)).trans ?_
  · exact hdecode
  rfl

/-- The window after its first entry was removed and the costs of its node were updated. -/
def removeEntry (nodes : ℕ → TreeNode n) (h : SlidingWindowHistogram n) (entry : WindowEntry) :
    SlidingWindowHistogram n :=
  let h₁ := updateCosts nodes (subtractEntry nodes h entry) entry.node (List.finRange n)
  if (h₁.histogram.get? entry.node).getD 0 ≤ 0 then forgetNode h₁ entry.node else h₁

theorem sameWindow_removeEntry (nodes : ℕ → TreeNode n) (h : SlidingWindowHistogram n)
    (entry : WindowEntry) :
    SameWindow (afterRemoval nodes h entry) (removeEntry nodes h entry) := by
  have hsame := sameWindow_updateCosts nodes (subtractEntry nodes h entry) entry.node
    (List.finRange n)
  rw [afterRemoval, removeEntry]
  simp only [hsame.histogram]
  split
  · exact hsame.forgetNode entry.node
  · exact hsame

/-- Removing the first entry does not fail. -/
theorem removeOldEntry_eq (hw : Windowed nodes h) (htime : h.timestamps = entry :: rest) :
    removeOldEntry nodes entry h = .ok () (removeEntry nodes h entry) := by
  have hentry : entry ∈ h.timestamps := htime ▸ List.mem_cons_self
  have hnode : entry.node ∈ h.timestamps.map WindowEntry.node := List.mem_map_of_mem hentry
  -- the costs are updated between the subtraction and the test for zero
  let h₁ := subtractEntry nodes h entry
  let h₂ := updateCosts nodes h₁ entry.node (List.finRange n)
  have hrun : (List.finRange n).forM (updatePrefillCostForGpuWithNode nodes entry.node) h₁ =
      .ok () h₂ := forM_updatePrefillCost_eq nodes (List.finRange n) (hw.allocated entry hentry)
  have hsame : SameWindow h₁ h₂ := sameWindow_updateCosts nodes h₁ entry.node (List.finRange n)
  have hmodify : ∀ s : SlidingWindowHistogram n, (modify (fun s => { s with
      timestamps := s.timestamps.tail
      histogram := s.histogram.add entry.node (-(nodes entry.leafNode).contextLength)
      numRequestsForNodeMaps := s.numRequestsForNodeMaps.add entry.node (-1)
      sumShareTokensForNodeMaps := s.sumShareTokensForNodeMaps.add entry.node
        (-((nodes entry.leafNode).contextLength - (nodes entry.leafNode).numTokens))
      sumPromptTokensForNodeMaps := s.sumPromptTokensForNodeMaps.add entry.node
        (-(nodes entry.leafNode).contextLength) }) : Py (SlidingWindowHistogram n) PUnit) s =
      .ok ⟨⟩ (subtractEntry nodes s entry) := fun _ => rfl
  have hself : ∀ {d : OrderedDict ℕ ℤ} {amount : ℤ},
      entry.node ∈ (d.add entry.node amount).keys :=
    OrderedDict.mem_keys_add.mpr (Or.inl rfl)
  -- the test reads a key that `subtract_entry` has just written
  obtain ⟨length, hlength⟩ : ∃ length, h₂.histogram.get? entry.node = some length := by
    rw [hsame.histogram]
    exact OrderedDict.get?_of_mem_keys hself
  have hread : readKey histogramAttr entry.node h₂ = .ok length h₂ :=
    readKey_eq histogramAttr rfl hlength
  have hremove : removeEntry nodes h entry =
      if length ≤ 0 then forgetNode h₂ entry.node else h₂ := by
    rw [removeEntry]
    show (if (h₂.histogram.get? entry.node).getD 0 ≤ 0 then _ else _) = _
    rw [hlength]
    rfl
  rw [removeOldEntry, Py.bind_ok (hmodify h), Py.bind_ok hrun, Py.bind_ok hread, hremove]
  split
  · rw [hsame.eq]
    exact delKeys_eq hself hself ((hw.ratio _).mpr hnode) hself hself
      ((hw.curNumDecode _).mpr hnode)
  · rfl

end Removal

/-- The window after the removal of its first entries, one after the other. -/
inductive Removed (nodes : ℕ → TreeNode n) :
    List WindowEntry → SlidingWindowHistogram n → SlidingWindowHistogram n → Prop
  | nil (h : SlidingWindowHistogram n) : Removed nodes [] h h
  | cons {entry : WindowEntry} {entries : List WindowEntry} {h h₁ h' : SlidingWindowHistogram n}
      (hsame : SameWindow (afterRemoval nodes h entry) h₁) (hrest : Removed nodes entries h₁ h') :
      Removed nodes (entry :: entries) h h'

theorem afterRemoval_mem_gpuAllocations {entry : WindowEntry} {node : ℕ}
    (hnode : node ∈ h.gpuAllocations.keys) :
    node ∈ (afterRemoval nodes h entry).gpuAllocations.keys := by
  rw [afterRemoval]
  split
  · exact OrderedDict.mem_keys_set.mpr (Or.inr hnode)
  · exact hnode

theorem Removed.mem_gpuAllocations {entries : List WindowEntry}
    (hremoved : Removed nodes entries h h') {node : ℕ} (hnode : node ∈ h.gpuAllocations.keys) :
    node ∈ h'.gpuAllocations.keys := by
  induction hremoved with
  | nil => exact hnode
  | cons hsame _ ih =>
    apply ih
    obtain ⟨_, _, _, rfl⟩ := hsame
    exact afterRemoval_mem_gpuAllocations hnode

/-- The nodes that keep no entry lose their allocations, and no others. -/
theorem Removed.get?_gpuAllocations {entries rest : List WindowEntry}
    (hremoved : Removed nodes entries h h') (hw : Windowed nodes h)
    (htime : h.timestamps = entries ++ rest) (node : ℕ) :
    h'.gpuAllocations.get? node =
      if node ∈ entries.map WindowEntry.node ∧ node ∉ rest.map WindowEntry.node then some ∅
      else h.gpuAllocations.get? node := by
  induction hremoved with
  | nil => simp
  | @cons entry entries h h₁ h' hsame _ ih =>
    have htime : h.timestamps = entry :: (entries ++ rest) := htime
    obtain ⟨hw₁, htime₁⟩ := hw.afterRemoval htime
    rw [ih (hw₁.of_sameWindow hsame) (hsame.timestamps.trans htime₁), hsame.gpuAllocations,
      hw.afterRemoval_eq htime]
    simp only [List.map_cons, List.mem_cons, List.map_append, List.mem_append]
    by_cases hlater : node ∈ entries.map WindowEntry.node ∧ node ∉ rest.map WindowEntry.node
    · rw [if_pos hlater, if_pos ⟨Or.inr hlater.1, hlater.2⟩]
    · rw [if_neg hlater]
      by_cases hnode : node = entry.node
      · subst hnode
        -- the last entry of the node takes its allocation along
        split
        · next hkept => rw [if_neg fun hgone => hlater ⟨hkept.resolve_right hgone.2, hgone.2⟩]; rfl
        · next hgone =>
          rw [if_pos ⟨Or.inl rfl, fun hrest => hgone (Or.inr hrest)⟩]
          exact OrderedDict.get?_set_self ..
      · have hother : ¬ ((node = entry.node ∨ node ∈ entries.map WindowEntry.node) ∧
            node ∉ rest.map WindowEntry.node) :=
          fun hgone => hlater ⟨hgone.1.resolve_left hnode, hgone.2⟩
        rw [if_neg hother]
        split
        · rfl
        · exact OrderedDict.get?_set_of_ne _ _ hnode

/-- The entries that are too old, from the front on. -/
def expired (windowStart : ℚ) (entries : List WindowEntry) : List WindowEntry :=
  entries.takeWhile (fun entry => entry.timestamp < windowStart)

/-- The entries that stay. -/
def remaining (windowStart : ℚ) (entries : List WindowEntry) : List WindowEntry :=
  entries.dropWhile (fun entry => entry.timestamp < windowStart)

theorem expired_append_remaining (windowStart : ℚ) (entries : List WindowEntry) :
    expired windowStart entries ++ remaining windowStart entries = entries :=
  List.takeWhile_append_dropWhile

theorem expired_cons (windowStart : ℚ) (entry : WindowEntry) (entries : List WindowEntry) :
    expired windowStart (entry :: entries) =
      if entry.timestamp < windowStart then entry :: expired windowStart entries else [] := by
  rw [expired, List.takeWhile_cons]
  by_cases hold : entry.timestamp < windowStart
  · rw [if_pos hold, if_pos (decide_eq_true hold), expired]
  · rw [if_neg hold, if_neg (by rwa [decide_eq_true_eq])]

theorem remaining_cons (windowStart : ℚ) (entry : WindowEntry) (entries : List WindowEntry) :
    remaining windowStart (entry :: entries) =
      if entry.timestamp < windowStart then remaining windowStart entries
      else entry :: entries := by
  rw [remaining, List.dropWhile_cons]
  by_cases hold : entry.timestamp < windowStart
  · rw [if_pos hold, if_pos (decide_eq_true hold), remaining]
  · rw [if_neg hold, if_neg (by rwa [decide_eq_true_eq])]

/-- The node has entries, and all of them are too old. -/
def Forgotten (windowStart : ℚ) (entries : List WindowEntry) (node : ℕ) : Prop :=
  node ∈ (expired windowStart entries).map WindowEntry.node ∧
    node ∉ (remaining windowStart entries).map WindowEntry.node

instance (windowStart : ℚ) (entries : List WindowEntry) (node : ℕ) :
    Decidable (Forgotten windowStart entries node) :=
  inferInstanceAs (Decidable (_ ∧ _))

/-- The window after its first entries were removed, with the costs. -/
def removeEntries (nodes : ℕ → TreeNode n) (h : SlidingWindowHistogram n)
    (entries : List WindowEntry) : SlidingWindowHistogram n :=
  entries.foldl (removeEntry nodes) h

/-- The loop removes entries from the front as long as they are old. -/
theorem removeOldEntriesLoop_spec (windowStart : ℚ) (entries : List WindowEntry)
    (hw : Windowed nodes h) (htime : h.timestamps = entries) :
    removeOldEntriesLoop nodes windowStart entries h =
        .ok () (removeEntries nodes h (expired windowStart entries)) ∧
      Removed nodes (expired windowStart entries) h
        (removeEntries nodes h (expired windowStart entries)) ∧
      Windowed nodes (removeEntries nodes h (expired windowStart entries)) ∧
      (removeEntries nodes h (expired windowStart entries)).timestamps =
        remaining windowStart entries := by
  induction entries generalizing h with
  | nil => exact ⟨rfl, .nil h, hw, htime⟩
  | cons entry entries ih =>
    rw [removeOldEntriesLoop, expired_cons, remaining_cons]
    by_cases hold : entry.timestamp < windowStart
    · have hsame := sameWindow_removeEntry nodes h entry
      obtain ⟨hw₁, htime₁⟩ := hw.afterRemoval htime
      obtain ⟨hloop, hremoved, hw', htime'⟩ :=
        ih (hw₁.of_sameWindow hsame) (hsame.timestamps.trans htime₁)
      rw [if_pos hold, if_pos hold, if_pos hold, Py.bind_ok (removeOldEntry_eq hw htime)]
      exact ⟨hloop, .cons hsame hremoved, hw', htime'⟩
    · rw [if_neg hold, if_neg hold, if_neg hold]
      exact ⟨rfl, .nil h, hw, htime⟩

/-! ## An entry comes in -/

/-- The window with a new entry at the end. -/
def addEntry (nodes : ℕ → TreeNode n) (h : SlidingWindowHistogram n) (entry : WindowEntry)
    (decodingLength : ℤ) : SlidingWindowHistogram n :=
  let leaf := nodes entry.leafNode
  let share := (h.sumShareTokensForNodeMaps.get? entry.node).getD 0 +
    (leaf.contextLength - leaf.numTokens)
  let prompt := (h.sumPromptTokensForNodeMaps.get? entry.node).getD 0 + leaf.contextLength
  { h with
    timestamps := h.timestamps ++ [entry]
    histogram := h.histogram.add entry.node leaf.contextLength
    numRequestsForNodeMaps := h.numRequestsForNodeMaps.add entry.node 1
    curNumDecodeForNodeMaps := h.curNumDecodeForNodeMaps.set entry.node decodingLength
    totalDecodeLengthForNodeMaps :=
      h.totalDecodeLengthForNodeMaps.add (some entry.node) decodingLength
    sumShareTokensForNodeMaps :=
      h.sumShareTokensForNodeMaps.add entry.node (leaf.contextLength - leaf.numTokens)
    sumPromptTokensForNodeMaps :=
      h.sumPromptTokensForNodeMaps.add entry.node leaf.contextLength
    unsharePrefixRatioForNodeMaps :=
      h.unsharePrefixRatioForNodeMaps.set entry.node (1 - (share : ℚ) / prompt) }

theorem amounts_addEntry {M : Type} (h : SlidingWindowHistogram n) (entry : WindowEntry)
    (decodingLength : ℤ) (amount : ℕ → M) :
    (addEntry nodes h entry decodingLength).amounts amount =
      h.amounts amount ++ [(entry.node, amount entry.leafNode)] := by
  simp [amounts, addEntry]

theorem Windowed.addEntry (hw : Windowed nodes h) {entry : WindowEntry} (decodingLength : ℤ)
    (hleaf : 0 < (nodes entry.leafNode).contextLength)
    (halloc : entry.node ∈ h.gpuAllocations.keys) :
    Windowed nodes (addEntry nodes h entry decodingLength) := by
  have hmap : (h.timestamps ++ [entry]).map WindowEntry.node =
      h.timestamps.map WindowEntry.node ++ [entry.node] := by
    rw [List.map_append, List.map_singleton]
  -- the counters gain the amounts of one entry, the other maps a key
  constructor
  · rw [amounts_addEntry]
    exact hw.histogram.append ..
  · rw [amounts_addEntry]
    exact hw.sumPrompt.append ..
  · rw [amounts_addEntry]
    exact hw.numRequests.append ..
  · exact hmap ▸ hw.sumShare.set entry.node _
  · exact hmap ▸ hw.ratio.set entry.node _
  · exact hmap ▸ hw.curNumDecode.set entry.node _
  · intro e he
    rcases List.mem_append.mp he with he | he
    · exact OrderedDict.mem_keys_add.mpr (Or.inr (hw.totalDecode e he))
    · rw [List.mem_singleton.mp he]
      exact OrderedDict.mem_keys_add.mpr (Or.inl rfl)
  · intro e he
    rcases List.mem_append.mp he with he | he
    · exact hw.positive e he
    · rw [List.mem_singleton.mp he]
      exact hleaf
  · intro e he
    rcases List.mem_append.mp he with he | he
    · exact hw.allocated e he
    · rw [List.mem_singleton.mp he]
      exact halloc

/-- The window when a request has come in and the old ones have left, with the costs. -/
def afterRequest (nodes : ℕ → TreeNode n) (h : SlidingWindowHistogram n) (entry : WindowEntry)
    (gpu : Fin n) (decodingLength : ℤ) : SlidingWindowHistogram n :=
  let h₁ := removeEntries nodes (addEntry nodes h entry decodingLength)
    (expired (entry.timestamp - h.windowDuration) (h.timestamps ++ [entry]))
  let h₂ := updateCost nodes h₁ entry.node gpu
  let length := h₂.currentDecodeLengthsPerGpu gpu + decodingLength
  { h₂ with
    currentDecodeLengthsPerGpu := Function.update h₂.currentDecodeLengthsPerGpu gpu length }

/-- A request whose node has an allocation can be added. -/
theorem addRequest_eq (hw : Windowed nodes h) (entry : WindowEntry) (gpu : Fin n)
    (decodingLength : ℤ) (hleaf : 0 < (nodes entry.leafNode).contextLength)
    (halloc : entry.node ∈ h.gpuAllocations.keys) :
    addRequest nodes entry.timestamp entry.node entry.leafNode gpu decodingLength h =
      .ok () (afterRequest nodes h entry gpu decodingLength) := by
  let windowStart := entry.timestamp - h.windowDuration
  have hadded := hw.addEntry decodingLength hleaf halloc
  obtain ⟨hloop, hremoved, -⟩ :=
    removeOldEntriesLoop_spec windowStart (h.timestamps ++ [entry]) hadded rfl
  have hold : removeOldEntries nodes entry.timestamp (SlidingWindowHistogram.addEntry nodes h
      entry decodingLength) = .ok () (removeEntries nodes (SlidingWindowHistogram.addEntry nodes h
        entry decodingLength) (expired windowStart (h.timestamps ++ [entry]))) := by
    rw [removeOldEntries, Py.bind_ok (Py.get_apply _)]
    exact hloop
  have hupdate := updatePrefillCost_eq nodes gpu (hremoved.mem_gpuAllocations halloc)
  -- the division is safe: the sum of the prompts holds the entry's own length
  have hprompt : (h.sumPromptTokensForNodeMaps.get? entry.node).getD 0 +
      (nodes entry.leafNode).contextLength ≠ (0 : ℤ) := by
    have hsum := hadded.sumPrompt.getD entry.node
    have hmem : entry.node ∈ (h.timestamps ++ [entry]).map WindowEntry.node := by simp
    have hpos := hadded.sum_pos hmem
    rw [← hsum] at hpos
    have hself : ((SlidingWindowHistogram.addEntry nodes h entry
        decodingLength).sumPromptTokensForNodeMaps.get? entry.node) =
        some ((h.sumPromptTokensForNodeMaps.get? entry.node).getD 0 +
          (nodes entry.leafNode).contextLength) :=
      OrderedDict.get?_set_self ..
    rw [hself] at hpos
    exact hpos.ne'
  have hshared : readKey sumShareTokensAttr entry.node ({ SlidingWindowHistogram.addEntry nodes h
      entry decodingLength with
        unsharePrefixRatioForNodeMaps := h.unsharePrefixRatioForNodeMaps }) = .ok
        ((h.sumShareTokensForNodeMaps.get? entry.node).getD 0 +
          ((nodes entry.leafNode).contextLength - (nodes entry.leafNode).numTokens)) _ :=
    readKey_eq sumShareTokensAttr rfl (OrderedDict.get?_set_self ..)
  have hprompted : readKey sumPromptTokensAttr entry.node ({ SlidingWindowHistogram.addEntry nodes
      h entry decodingLength with
        unsharePrefixRatioForNodeMaps := h.unsharePrefixRatioForNodeMaps }) = .ok
        ((h.sumPromptTokensForNodeMaps.get? entry.node).getD 0 +
          (nodes entry.leafNode).contextLength) _ :=
    readKey_eq sumPromptTokensAttr rfl (OrderedDict.get?_set_self ..)
  -- the request is added, its ratio divided, old entries removed, the cost of its node updated
  rw [addRequest]
  refine (Py.bind_ok (Py.modify_apply _ _)).trans ?_
  refine (Py.bind_ok hshared).trans ?_
  refine (Py.bind_ok hprompted).trans ?_
  rw [if_neg hprompt]
  refine (Py.bind_ok (Py.modify_apply _ _)).trans ?_
  refine (Py.bind_ok (a := ()) hold).trans ?_
  exact (Py.bind_ok hupdate).trans rfl

theorem addRequest_spec (hw : Windowed nodes h) (timestamp : ℚ) {node leaf : ℕ} (gpu : Fin n)
    (decodingLength : ℤ) (hleaf : 0 < (nodes leaf).contextLength)
    (halloc : node ∈ h.gpuAllocations.keys) :
    ∃ h₁ h', addRequest nodes timestamp node leaf gpu decodingLength h = .ok () h' ∧
      Removed nodes (expired (timestamp - h.windowDuration)
          (h.timestamps ++ [⟨timestamp, node, leaf⟩]))
        (addEntry nodes h ⟨timestamp, node, leaf⟩ decodingLength) h₁ ∧
      SameWindow h₁ h' ∧ Windowed nodes h' ∧
      h'.timestamps = remaining (timestamp - h.windowDuration)
        (h.timestamps ++ [⟨timestamp, node, leaf⟩]) := by
  let entry : WindowEntry := ⟨timestamp, node, leaf⟩
  have hadded : Windowed nodes (SlidingWindowHistogram.addEntry nodes h entry decodingLength) :=
    hw.addEntry decodingLength hleaf halloc
  obtain ⟨-, hremoved, hw₁, htime₁⟩ :=
    removeOldEntriesLoop_spec (timestamp - h.windowDuration) (h.timestamps ++ [entry]) hadded rfl
  have hsame : SameWindow _ (afterRequest nodes h entry gpu decodingLength) :=
    (sameWindow_updateCost nodes _ node gpu).trans ⟨_, _, _, rfl⟩
  exact ⟨_, _, addRequest_eq hw entry gpu decodingLength hleaf halloc, hremoved, hsame,
    hw₁.of_sameWindow hsame, hsame.timestamps.trans htime₁⟩

/-! ## A node is renamed -/

/-- An entry of the old node becomes one of the new node. -/
def WindowEntry.rename (old new : ℕ) (entry : WindowEntry) : WindowEntry :=
  if entry.node = old then { entry with node := new } else entry

theorem WindowEntry.rename_node (old new : ℕ) (entry : WindowEntry) :
    (WindowEntry.rename old new entry).node = if entry.node = old then new else entry.node := by
  unfold rename
  split <;> rfl

theorem WindowEntry.rename_leafNode (old new : ℕ) (entry : WindowEntry) :
    (WindowEntry.rename old new entry).leafNode = entry.leafNode := by
  unfold rename
  split <;> rfl

/-- The window in which everything of the old node is the new node's. -/
def renameNode (h : SlidingWindowHistogram n) (old new : ℕ) : SlidingWindowHistogram n :=
  { h with
    histogram := h.histogram.rename old new
    numRequestsForNodeMaps := h.numRequestsForNodeMaps.rename old new
    unsharePrefixRatioForNodeMaps := h.unsharePrefixRatioForNodeMaps.rename old new
    sumShareTokensForNodeMaps := h.sumShareTokensForNodeMaps.rename old new
    sumPromptTokensForNodeMaps := h.sumPromptTokensForNodeMaps.rename old new
    curNumDecodeForNodeMaps := h.curNumDecodeForNodeMaps.rename old new
    totalDecodeLengthForNodeMaps :=
      h.totalDecodeLengthForNodeMaps.rename (some old) (some new)
    timestamps := h.timestamps.map (WindowEntry.rename old new) }

theorem amounts_renameNode {M : Type} (h : SlidingWindowHistogram n) (old new : ℕ)
    (amount : ℕ → M) : (h.renameNode old new).amounts amount =
      (h.amounts amount).map (fun e => (if e.1 = old then new else e.1, e.2)) := by
  simp only [amounts, renameNode, List.map_map]
  refine List.map_congr_left (fun entry _ => ?_)
  simp only [Function.comp_apply, WindowEntry.rename_node, WindowEntry.rename_leafNode]

theorem Windowed.renameNode (hw : Windowed nodes h) {old new : ℕ}
    (hold : old ∈ h.timestamps.map WindowEntry.node)
    (hnew : new ∉ h.timestamps.map WindowEntry.node)
    (halloc : new ∈ h.gpuAllocations.keys) : Windowed nodes (h.renameNode old new) := by
  -- renaming the entries' nodes and the keys of the maps is one substitution
  have hnodes : (h.timestamps.map (WindowEntry.rename old new)).map WindowEntry.node =
      (h.timestamps.map WindowEntry.node).map (fun key => if key = old then new else key) := by
    rw [List.map_map, List.map_map]
    exact List.map_congr_left (fun entry _ => WindowEntry.rename_node old new entry)
  refine { histogram := ?_, sumPrompt := ?_, numRequests := ?_, sumShare := ?_, ratio := ?_,
           curNumDecode := ?_, totalDecode := ?_, positive := ?_, allocated := ?_ }
  · rw [amounts_renameNode]
    exact hw.histogram.rename (by rwa [amounts_fst]) (by rwa [amounts_fst])
  · rw [amounts_renameNode]
    exact hw.sumPrompt.rename (by rwa [amounts_fst]) (by rwa [amounts_fst])
  · rw [amounts_renameNode]
    exact hw.numRequests.rename (by rwa [amounts_fst]) (by rwa [amounts_fst])
  · exact hnodes ▸ hw.sumShare.rename hold
  · exact hnodes ▸ hw.ratio.rename hold
  · exact hnodes ▸ hw.curNumDecode.rename hold
  · intro entry hentry
    obtain ⟨e, he, rfl⟩ := List.mem_map.mp hentry
    obtain ⟨o, ho, rfl⟩ := List.mem_map.mp hold
    refine (OrderedDict.mem_keys_rename (hw.totalDecode o ho)).mpr ?_
    rw [WindowEntry.rename_node]
    by_cases heq : e.node = o.node
    · rw [if_pos heq]
      exact Or.inl rfl
    · rw [if_neg heq]
      exact Or.inr ⟨fun hsome => heq (Option.some.inj hsome), hw.totalDecode e he⟩
  · intro entry hentry
    obtain ⟨e, he, rfl⟩ := List.mem_map.mp hentry
    rw [WindowEntry.rename_leafNode]
    exact hw.positive e he
  · intro entry hentry
    obtain ⟨e, he, rfl⟩ := List.mem_map.mp hentry
    rw [WindowEntry.rename_node]
    by_cases heq : e.node = old
    · rw [if_pos heq]
      exact halloc
    · rw [if_neg heq]
      exact hw.allocated e he

/-- The dictionaries of a node in the window can all be moved to another. -/
theorem moveKeys_eq {old : ℕ} (new : ℕ) (hhist : old ∈ h.histogram.keys)
    (hnum : old ∈ h.numRequestsForNodeMaps.keys)
    (hratio : old ∈ h.unsharePrefixRatioForNodeMaps.keys)
    (hshare : old ∈ h.sumShareTokensForNodeMaps.keys)
    (hprompt : old ∈ h.sumPromptTokensForNodeMaps.keys)
    (hdecode : old ∈ h.curNumDecodeForNodeMaps.keys)
    (htotal : some old ∈ h.totalDecodeLengthForNodeMaps.keys)
    (next : Py (SlidingWindowHistogram n) Unit) :
    (do moveKey histogramAttr old new
        moveKey numRequestsAttr old new
        moveKey unsharePrefixRatioAttr old new
        moveKey sumShareTokensAttr old new
        moveKey sumPromptTokensAttr old new
        moveKey curNumDecodeAttr old new
        moveKey totalDecodeLengthAttr (some old) (some new)
        next : Py (SlidingWindowHistogram n) Unit) h =
      next { h.renameNode old new with timestamps := h.timestamps } := by
  refine (Py.bind_ok (moveKey_eq histogramAttr new (fun _ => rfl) (fun _ _ => rfl) ?_)).trans ?_
  · exact hhist
  refine (Py.bind_ok (moveKey_eq numRequestsAttr new (fun _ => rfl) (fun _ _ => rfl) ?_)).trans ?_
  · exact hnum
  refine (Py.bind_ok (moveKey_eq unsharePrefixRatioAttr new (fun _ => rfl) (fun _ _ => rfl)
    ?_)).trans ?_
  · exact hratio
  refine (Py.bind_ok (moveKey_eq sumShareTokensAttr new (fun _ => rfl) (fun _ _ => rfl)
    ?_)).trans ?_
  · exact hshare
  refine (Py.bind_ok (moveKey_eq sumPromptTokensAttr new (fun _ => rfl) (fun _ _ => rfl)
    ?_)).trans ?_
  · exact hprompt
  refine (Py.bind_ok (moveKey_eq curNumDecodeAttr new (fun _ => rfl) (fun _ _ => rfl)
    ?_)).trans ?_
  · exact hdecode
  refine (Py.bind_ok (moveKey_eq totalDecodeLengthAttr (some new) (fun _ => rfl)
    (fun _ _ => rfl) ?_)).trans ?_
  · exact htotal
  rfl

/-- What is remembered of the old node is the new node's. -/
def passRemembered (h : SlidingWindowHistogram n) (old new : ℕ) : SlidingWindowHistogram n :=
  let costs := (h.actualPrefillCostPerGpuForNodeMaps.read old).2
  { h with
    actualPrefillCostPerGpuForNodeMaps := (costs.set new (h.rememberedCost old)).set old 0 }

/-- What is remembered of the old node is the new node's, whose cost is updated then. -/
def moveCost (nodes : ℕ → TreeNode n) (old new : ℕ) (h : SlidingWindowHistogram n)
    (gpu : Fin n) : SlidingWindowHistogram n :=
  updateCost nodes (h.passRemembered old new) new gpu

theorem sameWindow_moveCost (nodes : ℕ → TreeNode n) (old new : ℕ)
    (h : SlidingWindowHistogram n) (gpu : Fin n) : SameWindow h (moveCost nodes old new h gpu) :=
  SameWindow.trans ⟨_, _, _, rfl⟩ (sameWindow_updateCost nodes _ new gpu)

/-- The costs of a node can be moved to one that has an allocation. -/
theorem moveCost_eq (nodes : ℕ → TreeNode n) (old : ℕ) {new : ℕ} (gpu : Fin n)
    (halloc : new ∈ h.gpuAllocations.keys) :
    (do
        let cost ← readKey actualPrefillCostAttr old
        modify (fun s : SlidingWindowHistogram n => { s with
          actualPrefillCostPerGpuForNodeMaps :=
            (s.actualPrefillCostPerGpuForNodeMaps.set new cost).set old 0 })
        updatePrefillCostForGpuWithNode nodes new gpu) h =
      .ok () (moveCost nodes old new h gpu) := by
  have hmoved : new ∈ (h.passRemembered old new).gpuAllocations.keys := halloc
  have hread := rememberedCost_eq_read h old
  refine (Py.bind_ok (Py.modifyGet_apply _ _)).trans ?_
  refine (Py.bind_ok (Py.modify_apply _ _)).trans ?_
  rw [moveCost, ← updatePrefillCost_eq nodes gpu hmoved, passRemembered, hread]
  rfl

/-- The costs of a node can be moved on some replicas, one after the other. -/
theorem forM_moveCost_eq (nodes : ℕ → TreeNode n) (old : ℕ) {new : ℕ} (gpus : List (Fin n))
    (halloc : new ∈ h.gpuAllocations.keys) :
    (gpus.forM (fun gpu => do
        let cost ← readKey actualPrefillCostAttr old
        modify (fun s : SlidingWindowHistogram n => { s with
          actualPrefillCostPerGpuForNodeMaps :=
            (s.actualPrefillCostPerGpuForNodeMaps.set new cost).set old 0 })
        updatePrefillCostForGpuWithNode nodes new gpu) :
      Py (SlidingWindowHistogram n) Unit) h =
      .ok () (gpus.foldl (moveCost nodes old new) h) := by
  induction gpus generalizing h with
  | nil => rfl
  | cons gpu gpus ih =>
    rw [List.forM_eq_forM, List.forM_cons, Py.bind_ok (moveCost_eq nodes old gpu halloc)]
    refine ih ?_
    rwa [(sameWindow_moveCost nodes old new h gpu).gpuAllocations]

/-- The window in which everything of the old node is the new node's, with the costs. -/
def replaceNode (nodes : ℕ → TreeNode n) (h : SlidingWindowHistogram n) (old new : ℕ) :
    SlidingWindowHistogram n :=
  { (List.finRange n).foldl (moveCost nodes old new)
      { h.renameNode old new with timestamps := h.timestamps } with
    timestamps := h.timestamps.map (WindowEntry.rename old new) }

theorem sameWindow_foldl_moveCost (nodes : ℕ → TreeNode n) (old new : ℕ) (gpus : List (Fin n))
    (h : SlidingWindowHistogram n) : SameWindow h (gpus.foldl (moveCost nodes old new) h) := by
  induction gpus generalizing h with
  | nil => exact .refl h
  | cons gpu gpus ih => exact (sameWindow_moveCost nodes old new h gpu).trans (ih _)

/-- Renaming a node does not fail. -/
theorem replaceOldNodeWithNew_eq (hw : Windowed nodes h) {old new : ℕ}
    (hold : old ∈ h.timestamps.map WindowEntry.node) (halloc : new ∈ h.gpuAllocations.keys) :
    replaceOldNodeWithNew nodes old new h = .ok () (replaceNode nodes h old new) := by
  have hhist : old ∈ h.histogram.keys := (hw.histogram.keysOf _).mpr (by rwa [amounts_fst])
  have hnum := (hw.numRequests.keysOf old).mpr (by rwa [amounts_fst])
  have hprompt := (hw.sumPrompt.keysOf old).mpr (by rwa [amounts_fst])
  have htotal : some old ∈ h.totalDecodeLengthForNodeMaps.keys := by
    obtain ⟨entry, hentry, rfl⟩ := List.mem_map.mp hold
    exact hw.totalDecode entry hentry
  have halloc' : new ∈ ({ h.renameNode old new with
      timestamps := h.timestamps } : SlidingWindowHistogram n).gpuAllocations.keys := halloc
  rw [replaceOldNodeWithNew, Py.bind_ok (Py.get_apply h), if_pos hhist]
  refine (moveKeys_eq new hhist hnum ((hw.ratio old).mpr hold) ((hw.sumShare old).mpr hold)
    hprompt ((hw.curNumDecode old).mpr hold) htotal _).trans ?_
  refine (Py.bind_ok (forM_moveCost_eq nodes old (List.finRange n) halloc')).trans ?_
  rw [Py.modify_apply, (sameWindow_foldl_moveCost nodes old new (List.finRange n) _).timestamps]
  rfl

theorem sameWindow_replaceNode (nodes : ℕ → TreeNode n) (h : SlidingWindowHistogram n)
    (old new : ℕ) : SameWindow (h.renameNode old new) (replaceNode nodes h old new) := by
  have hsame := sameWindow_foldl_moveCost nodes old new (List.finRange n)
    { h.renameNode old new with timestamps := h.timestamps }
  rw [replaceNode, hsame.eq]
  exact ⟨_, _, _, rfl⟩

theorem replaceOldNodeWithNew_spec (hw : Windowed nodes h) {old new : ℕ}
    (hold : old ∈ h.timestamps.map WindowEntry.node) (halloc : new ∈ h.gpuAllocations.keys) :
    ∃ h', replaceOldNodeWithNew nodes old new h = .ok () h' ∧
      SameWindow (h.renameNode old new) h' :=
  ⟨_, replaceOldNodeWithNew_eq hw hold halloc, sameWindow_replaceNode nodes h old new⟩

/-- Without entries of the node there is nothing to rename. -/
theorem replaceOldNodeWithNew_of_notMem (hw : Windowed nodes h) {old : ℕ} (new : ℕ)
    (hold : old ∉ h.timestamps.map WindowEntry.node) :
    replaceOldNodeWithNew nodes old new h = .ok () h := by
  have hhist : old ∉ h.histogram.keys := by
    rw [hw.histogram.keysOf, amounts_fst]
    exact hold
  rw [replaceOldNodeWithNew, Py.bind_ok (Py.get_apply h), if_neg hhist]
  rfl

end SlidingWindowHistogram

end DualMap.Preble
