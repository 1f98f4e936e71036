import DualMap.Preble.ExactSums

/-!
# Runs of the Window

The tree grows by insertions, allocations are made, the requests of a split node are moved to
the node above it, and requests come in, in any order. A request that leaves takes off what
its leaf shares then. In every run in which that is what it contributed wherever its node
keeps other requests, the sums are exact (`window_sums_exact`); an insertion that splits the
leaf of a request of the window is enough to leave a sum wrong (`split_leaf_drifts`).
-/

namespace DualMap.Preble

open LPRadixCache (WellFormed Inserted rootNode)
open SlidingWindowHistogram

variable {n : ℕ} {rt : Runtime n}

/-! ## Operations -/

/-- The tree and the window, with what each request contributed when it came in, from the
first on. -/
structure WindowState (n : ℕ) where
  cache : LPRadixCache n
  window : SlidingWindowHistogram n
  contributions : List Contribution

/-- What happens to the tree and to the window. -/
inductive WindowOperation (n : ℕ)
  | insert (inputIds : List ℕ)
  | allocate (node : ℕ) (gpus : Finset (Fin n))
  | replaceOldNodeWithNew (oldChildNode newParentNode : ℕ)
  | addRequest (timestamp : ℚ) (node leaf : ℕ) (gpu : Fin n) (decodingLength : ℤ)

namespace WindowState

/-- An empty tree and an empty window. -/
def init (rt : Runtime n) (windowDuration prefillTpot : ℚ) : WindowState n where
  cache := LPRadixCache.init rt
  window := { prefillTpot := prefillTpot, windowDuration := windowDuration }
  contributions := []

/-- Run code of the window, which reads the nodes of the tree. -/
def onWindow (code : (ℕ → TreeNode n) → Py (SlidingWindowHistogram n) Unit) :
    Py (WindowState n) Unit := fun s =>
  Py.zoom (·.window) (fun s window => { s with window := window }) (code s.cache.nodes) s

/-- What an operation does. -/
def perform (rt : Runtime n) : WindowOperation n → Py (WindowState n) Unit
  | .insert inputIds => do
    let _ ← Py.zoom (·.cache) (fun s cache => { s with cache := cache })
      (LPRadixCache.insert rt inputIds none .empty)
  | .allocate node gpus =>
    onWindow (fun _ => modify (fun h => { h with
      gpuAllocations := h.gpuAllocations.set node gpus }))
  | .replaceOldNodeWithNew oldChildNode newParentNode =>
    onWindow (fun nodes =>
      SlidingWindowHistogram.replaceOldNodeWithNew nodes oldChildNode newParentNode)
  | .addRequest timestamp node leaf gpu decodingLength => do
    modify (fun s => { s with
      contributions := s.contributions ++ [contribution s.cache.nodes leaf] })
    onWindow (fun nodes =>
      SlidingWindowHistogram.addRequest nodes timestamp node leaf gpu decodingLength)

/-- What callers see to: requests end in nodes below the root, and a node gets its allocation
before it gets requests. -/
def Permitted (s : WindowState n) : WindowOperation n → Prop
  | .insert _ => True
  | .allocate _ _ => True
  | .replaceOldNodeWithNew _ newParentNode =>
    newParentNode ∈ s.cache.allNodes ∧ newParentNode ∈ s.window.gpuAllocations.keys
  | .addRequest _ node leaf _ _ =>
    node ∈ s.cache.allNodes ∧ leaf ∈ s.cache.allNodes ∧ leaf ≠ rootNode ∧
      node ∈ s.window.gpuAllocations.keys

instance (s : WindowState n) (op : WindowOperation n) : Decidable (s.Permitted op) := by
  cases op <;> unfold Permitted <;> infer_instance

/-- The requests of the window and what they contributed. -/
def entries (s : WindowState n) : List (WindowEntry × Contribution) :=
  contributed s.window s.contributions

/-- Every request that leaves when the entry comes in, and whose node keeps another, has a
leaf that shares as much as when it came in: the leaf was not split. -/
def LeavesUnsplit (s : WindowState n) (entry : WindowEntry) : Prop :=
  let entries := s.entries ++ [(entry, contribution s.cache.nodes entry.leafNode)]
  let windowStart := entry.timestamp - s.window.windowDuration
  ∀ e ∈ leaving windowStart entries, e.1.node ∈ (staying windowStart entries).map (·.1.node) →
    e.2.share = (contribution s.cache.nodes e.1.leafNode).share

instance (s : WindowState n) (entry : WindowEntry) : Decidable (s.LeavesUnsplit entry) := by
  unfold LeavesUnsplit
  infer_instance

/-- The requests of a node are only moved to one without requests, and requests leave with
what they contributed. -/
def Harmless (s : WindowState n) : WindowOperation n → Prop
  | .insert _ => True
  | .allocate _ _ => True
  | .replaceOldNodeWithNew _ newParentNode =>
    newParentNode ∉ s.window.timestamps.map WindowEntry.node
  | .addRequest timestamp node leaf _ _ => s.LeavesUnsplit ⟨timestamp, node, leaf⟩

instance (s : WindowState n) (op : WindowOperation n) : Decidable (s.Harmless op) := by
  cases op <;> unfold Harmless <;> infer_instance

end WindowState

/-- The states that runs reach whose operations are all `Allowed`. -/
inductive WindowRun (rt : Runtime n) (windowDuration prefillTpot : ℚ)
    (Allowed : WindowState n → WindowOperation n → Prop) : WindowState n → Prop
  | init : WindowRun rt windowDuration prefillTpot Allowed (.init rt windowDuration prefillTpot)
  | step {s s' : WindowState n} {op : WindowOperation n}
      (h : WindowRun rt windowDuration prefillTpot Allowed s) (hpermitted : s.Permitted op)
      (hallowed : Allowed s op) (hrun : WindowState.perform rt op s = .ok () s') :
      WindowRun rt windowDuration prefillTpot Allowed s'

section Runs

variable (Allowed : WindowState n → WindowOperation n → Prop)
  [∀ s op, Decidable (Allowed s op)]

/-- The state after some operations, if all are permitted and allowed and none fails. -/
def WindowState.performAll (rt : Runtime n) :
    List (WindowOperation n) → WindowState n → Option (WindowState n)
  | [], s => some s
  | op :: ops, s =>
    if s.Permitted op ∧ Allowed s op then
      match WindowState.perform rt op s with
      | .ok _ s' => WindowState.performAll rt ops s'
      | .error _ _ => none
    else none

variable {Allowed}

theorem WindowRun.performAll {windowDuration prefillTpot : ℚ} {s s' : WindowState n}
    {ops : List (WindowOperation n)} (h : WindowRun rt windowDuration prefillTpot Allowed s)
    (hrun : WindowState.performAll Allowed rt ops s = some s') :
    WindowRun rt windowDuration prefillTpot Allowed s' := by
  induction ops generalizing s with
  | nil =>
    obtain rfl := Option.some.inj hrun
    exact h
  | cons op ops ih =>
    rw [WindowState.performAll] at hrun
    split at hrun
    · next hboth =>
      split at hrun
      · next s₁ hstep => exact ih (h.step hboth.1 hboth.2 hstep) hrun
      · cases hrun
    · cases hrun

end Runs

/-! ## The invariant of a run -/

namespace WindowState

/-- The tree is well formed, the window is in step with it, and its requests, with what they
contributed, are the last of all. -/
structure Exact (s : WindowState n) (σ : ℕ → List ℕ)
    (entries : List (WindowEntry × Contribution)) : Prop where
  wellFormed : WellFormed s.cache σ
  windowed : Windowed s.cache.nodes s.window
  inTree : ∀ entry ∈ s.window.timestamps,
    entry.node ∈ s.cache.allNodes ∧ entry.leafNode ∈ s.cache.allNodes
  tracked : Tracked s.cache.nodes s.window entries
  logged : entries.map Prod.snd <:+ s.contributions

variable {s : WindowState n} {σ : ℕ → List ℕ} {entries : List (WindowEntry × Contribution)}

theorem Exact.entries_eq (hs : Exact s σ entries) : s.entries = entries := by
  have hlog : s.contributions.rtake s.window.timestamps.length = entries.map Prod.snd := by
    have hdrop := List.suffix_iff_eq_drop.mp hs.logged
    rw [hdrop, List.rtake, ← hs.tracked.entries_fst, List.length_map, List.length_map]
  rw [WindowState.entries, contributed, hlog]
  exact (List.zip_of_prod hs.tracked.entries_fst rfl).symm

theorem init_exact (rt : Runtime n) (windowDuration prefillTpot : ℚ) :
    Exact (init rt windowDuration prefillTpot) (fun _ => []) [] where
  wellFormed := LPRadixCache.init_wellFormed rt
  windowed := init_windowed _ windowDuration prefillTpot
  inTree := fun _ h => absurd h List.not_mem_nil
  tracked :=
    { entries_fst := rfl
      prompt := fun _ h => absurd h List.not_mem_nil
      bounds := fun _ h => absurd h List.not_mem_nil
      sumShare := OrderedDict.sumsTo_empty
      ratio := fun _ _ h => by cases h }
  logged := List.nil_suffix

theorem onWindow_ok (code : (ℕ → TreeNode n) → Py (SlidingWindowHistogram n) Unit)
    {h : SlidingWindowHistogram n} (hcode : code s.cache.nodes s.window = .ok () h) :
    onWindow code s = .ok () { s with window := h } := by
  rw [onWindow, Py.zoom_ok hcode]

/-- A split leaves the lengths of prompts alone. -/
theorem Exact.insert (hs : Exact s σ entries) (rt : Runtime n) (inputIds : List ℕ) :
    ∃ s' σ', perform rt (.insert inputIds) s = .ok () s' ∧ Exact s' σ' entries := by
  obtain ⟨leaf, splits, c, σ', hrun, hins⟩ :=
    LPRadixCache.insert_spec rt hs.wellFormed inputIds
  -- an insertion keeps the context length of every old node, so no recorded amount changes
  have hlength : ∀ entry ∈ s.window.timestamps,
      (c.nodes entry.leafNode).contextLength = (s.cache.nodes entry.leafNode).contextLength :=
    fun entry hentry => hins.contextLength hs.wellFormed (hs.inTree entry hentry).2
  have hzoom : Py.zoom (·.cache) (fun (s : WindowState n) cache => { s with cache := cache })
      (LPRadixCache.insert rt inputIds none .empty) s = .ok (leaf, splits) { s with cache := c } :=
    Py.zoom_ok hrun
  refine ⟨{ s with cache := c }, σ', ?_, ?_⟩
  · rw [perform, Py.bind_ok hzoom]
    rfl
  · exact
      { wellFormed := hins.wellFormed hs.wellFormed
        windowed := hs.windowed.congr hlength
        inTree := fun entry hentry =>
          ⟨(hins.spell hs.wellFormed (hs.inTree entry hentry).1).1,
            (hins.spell hs.wellFormed (hs.inTree entry hentry).2).1⟩
        tracked := hs.tracked.congr hlength
        logged := hs.logged }

/-- Allocations play no role for the sums. -/
theorem Exact.allocate (hs : Exact s σ entries) (rt : Runtime n) (node : ℕ)
    (gpus : Finset (Fin n)) :
    ∃ s', perform rt (.allocate node gpus) s = .ok () s' ∧ Exact s' σ entries := by
  refine ⟨_, by rw [perform]; exact onWindow_ok _ (Py.modify_apply _ _), ?_⟩
  exact
    { wellFormed := hs.wellFormed
      windowed := { hs.windowed with
        allocated := fun entry hentry =>
          OrderedDict.mem_keys_set.mpr (Or.inr (hs.windowed.allocated entry hentry)) }
      inTree := hs.inTree
      tracked := { hs.tracked with }
      logged := hs.logged }

/-- The requests of a node are moved to one without requests. -/
theorem Exact.replaceOldNodeWithNew (hs : Exact s σ entries) (rt : Runtime n) (old : ℕ)
    {new : ℕ} (hnew : new ∈ s.cache.allNodes) (halloc : new ∈ s.window.gpuAllocations.keys)
    (hfree : new ∉ s.window.timestamps.map WindowEntry.node) :
    ∃ s' entries', perform rt (.replaceOldNodeWithNew old new) s = .ok () s' ∧
      Exact s' σ entries' := by
  -- a node without entries has nothing to rename, and the call is skipped
  by_cases hold : old ∈ s.window.timestamps.map WindowEntry.node
  · obtain ⟨h', hrun, hsame⟩ := replaceOldNodeWithNew_spec hs.windowed hold halloc
    refine ⟨_, renameEntries old new entries, by rw [perform]; exact onWindow_ok _ hrun, ?_⟩
    refine
      { wellFormed := hs.wellFormed
        windowed := (hs.windowed.renameNode hold hfree halloc).of_sameWindow hsame
        inTree := ?_
        tracked := (hs.tracked.renameNode hold hfree).of_sameWindow hsame
        logged := ?_ }
    · obtain ⟨_, _, _, rfl⟩ := hsame
      intro entry hentry
      obtain ⟨e, he, rfl⟩ := List.mem_map.mp hentry
      obtain ⟨hnode, hleaf⟩ := hs.inTree e he
      rw [WindowEntry.rename_node, WindowEntry.rename_leafNode]
      refine ⟨?_, hleaf⟩
      split
      · exact hnew
      · exact hnode
    · rw [renameEntries, List.map_map]
      exact hs.logged
  · have hrun := replaceOldNodeWithNew_of_notMem hs.windowed new hold
    exact ⟨s, entries, by rw [perform]; exact onWindow_ok _ hrun, hs⟩

/-- A node owns no more tokens than lie on its path. -/
theorem numTokens_le {c : LPRadixCache n} (hc : WellFormed c σ) {m : ℕ} (hm : m ∈ c.allNodes)
    (hroot : m ≠ rootNode) :
    (c.nodes m).numTokens ≤ (c.nodes m).contextLength ∧ 0 < (c.nodes m).contextLength := by
  obtain ⟨p, hp, a, rest, -, hlabel, -, hspell⟩ := hc.spelled.up m hm hroot
  have hlength : (c.nodes m).contextLength = (σ p).length + (c.nodes m).numTokens := by
    rw [hc.context m hm, hspell, List.length_append, TreeNode.numTokens, hc.value_eq m hm]
    rfl
  have hpos : 0 < (c.nodes m).numTokens := by
    have hkey : (c.nodes m).key = a :: rest := hlabel
    rw [TreeNode.numTokens, hc.value_eq m hm, hkey, List.length_cons]
    omega
  omega

/-- A request comes in, and the oldest leave with what they contributed. -/
theorem Exact.addRequest (hs : Exact s σ entries) (rt : Runtime n) {timestamp : ℚ}
    {node leaf : ℕ} (gpu : Fin n) (decodingLength : ℤ)
    (hpermitted : s.Permitted (.addRequest timestamp node leaf gpu decodingLength))
    (hunsplit : s.LeavesUnsplit ⟨timestamp, node, leaf⟩) :
    ∃ s' entries', perform rt (.addRequest timestamp node leaf gpu decodingLength) s =
      .ok () s' ∧ Exact s' σ entries' := by
  obtain ⟨hnode, hleaf, hroot, halloc⟩ := hpermitted
  obtain ⟨htokens, hlength⟩ := numTokens_le hs.wellFormed hleaf hroot
  obtain ⟨h₁, h', hrun, hremoved, hsame, hw', htime⟩ := addRequest_spec hs.windowed timestamp gpu
    decodingLength hlength halloc
  let entry : WindowEntry := ⟨timestamp, node, leaf⟩
  let windowStart := timestamp - s.window.windowDuration
  let entries' := entries ++ [(entry, contribution s.cache.nodes leaf)]
  have hfst : entries'.map Prod.fst = s.window.timestamps ++ [entry] := by
    rw [List.map_append, hs.tracked.entries_fst]
    rfl
  have hleaving : (leaving windowStart entries').map Prod.fst =
      expired windowStart (s.window.timestamps ++ [entry]) := by
    rw [leaving_fst, hfst]
  have hstaying : h'.timestamps = (staying windowStart entries').map Prod.fst := by
    rw [staying_fst, hfst]
    exact htime
  -- all sums with the new request, and then without those that leave
  have hadded : Tracked s.cache.nodes
      (addEntry s.cache.nodes s.window entry decodingLength)
      (leaving windowStart entries' ++ staying windowStart entries') := by
    rw [leaving_append_staying]
    exact hs.tracked.addEntry hs.windowed entry decodingLength htokens
  have hkept : ∀ e ∈ leaving windowStart entries',
      e.1.node ∈ ((staying windowStart entries').map Prod.fst).map WindowEntry.node →
      e.2.share = (contribution s.cache.nodes e.1.leafNode).share := by
    intro e he hmem
    rw [LeavesUnsplit, hs.entries_eq] at hunsplit
    rw [List.map_map] at hmem
    exact hunsplit e he hmem
  have hstaying₁ : h₁.timestamps = (staying windowStart entries').map Prod.fst := by
    obtain ⟨_, _, _, rfl⟩ := hsame.symm
    exact hstaying
  have htracked : Tracked s.cache.nodes h₁ (staying windowStart entries') :=
    hadded.removed hremoved (hs.windowed.addEntry decodingLength hlength halloc)
      (hw'.of_sameWindow hsame.symm) hleaving hstaying₁ hkept
  refine ⟨{ s with
    contributions := s.contributions ++ [contribution s.cache.nodes leaf]
    window := h' }, staying windowStart entries', ?_, ?_⟩
  · rw [perform, Py.bind_ok (Py.modify_apply _ _)]
    exact onWindow_ok _ hrun
  · refine
      { wellFormed := hs.wellFormed
        windowed := hw'
        inTree := ?_
        tracked := htracked.of_sameWindow hsame
        logged := ?_ }
    · intro e he
      have hmem : e ∈ s.window.timestamps ++ [entry] := by
        rw [htime] at he
        exact (List.dropWhile_sublist _).subset he
      rcases List.mem_append.mp hmem with hold | hnew
      · exact hs.inTree e hold
      · rw [List.mem_singleton.mp hnew]
        exact ⟨hnode, hleaf⟩
    · have hsuffix : staying windowStart entries' <:+ entries' := List.dropWhile_suffix _
      refine (hsuffix.map Prod.snd).trans ?_
      rw [List.map_append]
      obtain ⟨earlier, hearlier⟩ := hs.logged
      exact ⟨earlier, by rw [← hearlier, List.append_assoc]; rfl⟩

/-- Every operation that is permitted and harmless keeps the sums exact. -/
theorem Exact.perform (hs : Exact s σ entries) (rt : Runtime n) {op : WindowOperation n}
    (hpermitted : s.Permitted op) (hharmless : s.Harmless op) :
    ∃ s' σ' entries', perform rt op s = .ok () s' ∧ Exact s' σ' entries' := by
  cases op with
  | insert inputIds =>
    obtain ⟨s', σ', hrun, hs'⟩ := hs.insert rt inputIds
    exact ⟨s', σ', entries, hrun, hs'⟩
  | allocate node gpus =>
    obtain ⟨s', hrun, hs'⟩ := hs.allocate rt node gpus
    exact ⟨s', σ, entries, hrun, hs'⟩
  | replaceOldNodeWithNew old new =>
    obtain ⟨hnew, halloc⟩ := hpermitted
    obtain ⟨s', entries', hrun, hs'⟩ := hs.replaceOldNodeWithNew rt old hnew halloc hharmless
    exact ⟨s', σ, entries', hrun, hs'⟩
  | addRequest timestamp node leaf gpu decodingLength =>
    obtain ⟨s', entries', hrun, hs'⟩ :=
      hs.addRequest rt gpu decodingLength hpermitted hharmless
    exact ⟨s', σ, entries', hrun, hs'⟩

end WindowState

/-! ## Main results -/

theorem WindowRun.exact {windowDuration prefillTpot : ℚ} {s : WindowState n}
    (h : WindowRun rt windowDuration prefillTpot WindowState.Harmless s) :
    ∃ σ entries, s.Exact σ entries := by
  induction h with
  | init => exact ⟨_, _, WindowState.init_exact rt windowDuration prefillTpot⟩
  | step _ hpermitted hharmless hrun ih =>
    obtain ⟨σ, entries, hs⟩ := ih
    obtain ⟨s', σ', entries', hrun', hs'⟩ := hs.perform rt hpermitted hharmless
    obtain ⟨-, rfl⟩ := EStateM.Result.ok.inj (hrun'.symm.trans hrun)
    exact ⟨σ', entries', hs'⟩

/-- In every run of harmless operations the sums are those of what the requests of the window
contributed, and the ratios lie between 0 and 1. -/
theorem window_sums_exact {windowDuration prefillTpot : ℚ} {s : WindowState n}
    (h : WindowRun rt windowDuration prefillTpot WindowState.Harmless s) :
    ExactSums s.window s.entries := by
  obtain ⟨σ, entries, hs⟩ := h.exact
  rw [hs.entries_eq]
  exact hs.tracked.exactSums hs.windowed

/-! ## A leaf that is split -/

/-- A prompt comes in at time 0, and a second one, at time 1, splits its leaf: the request is
moved to the node above. In a window of 10 seconds the third, at 10.5, lets the first leave. -/
def splitLeaf : List (WindowOperation 1) :=
  let gpu := Fin.last 0
  [.insert [1, 2, 3, 4], .allocate 1 {gpu}, .addRequest 0 1 1 gpu 8,
    .insert [1, 2, 9], .allocate 2 {gpu}, .replaceOldNodeWithNew 1 2, .addRequest 1 2 3 gpu 8,
    .addRequest (21 / 2) 2 3 gpu 8]

/-- Up to the third prompt nothing leaves. -/
theorem window_sums_exact_splitLeaf : ∃ s : WindowState 1,
    WindowState.performAll WindowState.Harmless (.ascending 1 fun i => i) splitLeaf.dropLast
      (.init (.ascending 1 fun i => i) 10 1) = some s ∧ ExactSums s.window s.entries := by
  have hsome : (WindowState.performAll WindowState.Harmless (.ascending 1 fun i => i)
      splitLeaf.dropLast (.init (.ascending 1 fun i => i) 10 1)).isSome := by decide +kernel
  obtain ⟨s, hs⟩ := Option.isSome_iff_exists.mp hsome
  exact ⟨s, hs, window_sums_exact (WindowRun.init.performAll hs)⟩

/-- The first request contributed nothing to what is shared, and the others 2 tokens each.
When it leaves, its leaf shares 2 tokens, so of the 4 tokens of the others 2 are left. -/
theorem split_leaf_drifts : ∃ s : WindowState 1,
    WindowRun (.ascending 1 fun i => i) 10 1 (fun _ _ => True) s ∧
      s.window.sumShareTokensForNodeMaps.get? 2 = some 2 ∧
      OrderedDict.sumOf (perNode s.entries Contribution.share) 2 = 4 ∧
      ¬ ExactSums s.window s.entries := by
  have hsums : (WindowState.performAll (fun _ _ => True) (.ascending 1 fun i => i) splitLeaf
      (.init (.ascending 1 fun i => i) 10 1)).map (fun s =>
        (s.window.sumShareTokensForNodeMaps.get? 2,
          OrderedDict.sumOf (perNode s.entries Contribution.share) 2)) = some (some 2, 4) := by
    decide +kernel
  obtain ⟨s, hs, heq⟩ := Option.map_eq_some_iff.mp hsums
  obtain ⟨hshare, hsum⟩ := Prod.mk.inj heq
  refine ⟨s, WindowRun.init.performAll hs, hshare, hsum, ?_⟩
  intro hexact
  have hget := hexact.sumShare.getD 2
  rw [hshare, hsum] at hget
  cases hget

end DualMap.Preble
