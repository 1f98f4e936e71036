import DualMap.Preble.SchedulerRuns
import DualMap.Preble.InsertedRequest

/-!
# The Window After Splits

Every entry of the window should be attributed to the important ancestor of its leaf. When a
node is split, `update_histogram_with_split_node` moves its entries to the upper half, where
this one only is important. A half that is important still has the entries, then; but where
neither half is important, the entries stay at the lower one, and the important ancestor is a
node above. `windowAttribution_iff`: this is the only way in which entries go astray.
-/

namespace DualMap.Preble

open LPRadixCache (SameShape WellFormed)

variable {n : ℕ} {rt : Runtime n} {σ σ₁ : ℕ → List ℕ} {reserved : List (List ℕ × Fin n)}
  {fresh : Finset ℕ}

namespace PrebleGlobalSchedulerUtils

variable {s s' s₁ : PrebleGlobalSchedulerUtils n}

/-- The entry is attributed to the important ancestor of its leaf. -/
def Attributed (s : PrebleGlobalSchedulerUtils n) (entry : WindowEntry) : Prop :=
  s.getNearestAncestorNodeWithLowSharePrefixRatio (some entry.leafNode) = some entry.node

/-- All entries are attributed to the important ancestors of their leaves, so all nodes of the
histogram own more tokens than lie before them. -/
structure AttributedWindow (s : PrebleGlobalSchedulerUtils n) : Prop where
  nearest : ∀ entry ∈ s.histogram.timestamps, s.Attributed entry
  important : ∀ node ∈ s.histogram.histogram.keys, s.IsUnsharePrefixOver50PercentForNode node

/-- The request cuts the node into two halves, neither of which owns more tokens than lie
before it. -/
def CutsSmall (s : PrebleGlobalSchedulerUtils n) (inputIds : List ℕ) (node : ℕ) : Prop :=
  let before := (s.cache.nodes node).contextSoFar
  let length : ℤ := (s.cache.nodes node).contextLength
  let shared : ℤ := s.cache.sharedTokens inputIds node
  (before < shared ∧ shared < length) ∧ shared ≤ 2 * before ∧ length ≤ 2 * shared

instance (s : PrebleGlobalSchedulerUtils n) (inputIds : List ℕ) (node : ℕ) :
    Decidable (s.CutsSmall inputIds node) :=
  inferInstanceAs (Decidable (_ ∧ _))

/-- The request cuts no node of the window in this way. -/
def KeepsAttribution (s : PrebleGlobalSchedulerUtils n) (inputIds : List ℕ) : Prop :=
  ∀ entry ∈ s.histogram.timestamps, ¬ s.CutsSmall inputIds entry.node

instance (s : PrebleGlobalSchedulerUtils n) (inputIds : List ℕ) :
    Decidable (s.KeepsAttribution inputIds) :=
  inferInstanceAs (Decidable (∀ _ ∈ _, _))

theorem Sound.attributedWindow_iff (hs : Sound s σ reserved fresh) :
    s.AttributedWindow ↔ ∀ entry ∈ s.histogram.timestamps, s.Attributed entry := by
  refine ⟨AttributedWindow.nearest, fun hnearest => ⟨hnearest, fun node hnode => ?_⟩⟩
  obtain ⟨entry, hentry, rfl⟩ := hs.windowed.mem_histogram.mp hnode
  exact ((getNearestAncestor_iff hs.wellFormed (hs.inTree entry hentry).2).mp
    (hnearest entry hentry)).2.1

theorem sameShape_attributed (hshape : SameShape s.cache s'.cache) (entry : WindowEntry) :
    s'.Attributed entry ↔ s.Attributed entry := by
  have hfind : s'.getNearestAncestorNodeWithLowSharePrefixRatio (some entry.leafNode) =
      s.getNearestAncestorNodeWithLowSharePrefixRatio (some entry.leafNode) := by
    show (s'.cache.ancestors entry.leafNode).find?
        (fun m => s'.IsUnsharePrefixOver50PercentForNode m) =
      (s.cache.ancestors entry.leafNode).find?
        (fun m => s.IsUnsharePrefixOver50PercentForNode m)
    rw [hshape.ancestors]
    simp only [sameShape_isUnshare hshape]
  rw [Attributed, Attributed, hfind]

end PrebleGlobalSchedulerUtils

namespace PrebleGlobalScheduler

open PrebleGlobalSchedulerUtils

variable {s s₁ : PrebleGlobalSchedulerUtils n} {inputIds : List ℕ} {leaf : ℕ}
  {splits : OrderedDict ℕ ℕ}

/-! ## One entry -/

section Inserted

variable (hs : Sound s σ reserved ∅) (hins : RequestInserted rt s σ inputIds leaf splits s₁ σ₁)

include hs hins

/-- No important node ends below the important ancestor of an old leaf. -/
theorem RequestInserted.contextLength_le {entry : WindowEntry}
    (hleaf : entry.leafNode ∈ s.cache.allNodes) (hatt : s.Attributed entry) {m : ℕ}
    (hm : m ∈ s₁.cache.ancestors entry.leafNode)
    (hunshare : s₁.IsUnsharePrefixOver50PercentForNode m) :
    (s₁.cache.nodes m).contextLength ≤ (s.cache.nodes entry.node).contextLength := by
  obtain ⟨hnode, -, hmax⟩ := (getNearestAncestor_iff hs.wellFormed hleaf).mp hatt
  rcases (hins.mem_ancestors_old hs hleaf).mp hm with hold | ⟨child, hchild, hsplit⟩
  · obtain ⟨hmem, -⟩ := (hs.wellFormed.mem_ancestors hleaf).mp hold
    rw [hins.contextLength hs hmem]
    refine hmax m hold ?_
    cases hcut : splits.get? m with
    | none => exact (hins.isUnshare_old hs hmem hcut).mp hunshare
    | some new =>
      -- the lower half has more before it than the node had
      obtain ⟨-, hinside, -, -, hlower⟩ := hins.isUnshare_cut hs hcut
      have hunshare := hlower.mp hunshare
      rw [isUnshare_iff]
      omega
  · obtain ⟨-, hinside, hlength, hupper, -⟩ := hins.isUnshare_cut hs hsplit
    have hunshare := hupper.mp hunshare
    have hle := hmax child hchild (by rw [isUnshare_iff]; omega)
    omega

/-- An entry whose node is still important stays where it is, and is right there. -/
theorem RequestInserted.attributed_stays {entry : WindowEntry}
    (hleaf : entry.leafNode ∈ s.cache.allNodes) (hatt : s.Attributed entry)
    (hunshare : s₁.IsUnsharePrefixOver50PercentForNode entry.node) :
    s₁.Attributed (s₁.moved splits entry) := by
  have hstays : s₁.moved splits entry = entry := by
    rw [moved]
    split
    · exact if_neg fun hmoves => hmoves.2 hunshare
    · rfl
  have hwf := hins.wellFormed hs.wellFormed
  obtain ⟨hnode, -, -⟩ := (getNearestAncestor_iff hs.wellFormed hleaf).mp hatt
  obtain ⟨hmem, -⟩ := (hs.wellFormed.mem_ancestors hleaf).mp hnode
  rw [hstays]
  refine (getNearestAncestor_iff hwf (hins.mem_allNodes hs.wellFormed hleaf).1).mpr
    ⟨(hins.mem_ancestors_old hs hleaf).mpr (Or.inl hnode), hunshare, fun m hm hmunshare => ?_⟩
  rw [hins.contextLength hs hmem]
  exact hins.contextLength_le hs hleaf hatt hm hmunshare

/-- An entry that moves to the upper half is right there. -/
theorem RequestInserted.attributed_moves {entry : WindowEntry} {new : ℕ}
    (hleaf : entry.leafNode ∈ s.cache.allNodes) (hatt : s.Attributed entry)
    (hsplit : splits.get? entry.node = some new)
    (hupper : s₁.IsUnsharePrefixOver50PercentForNode new)
    (hlower : ¬ s₁.IsUnsharePrefixOver50PercentForNode entry.node) :
    s₁.Attributed (s₁.moved splits entry) := by
  -- the entry moves, as only the upper half passes the test
  have hmoves : s₁.moved splits entry = { entry with node := new } := by
    rw [moved, hsplit]
    exact if_pos ⟨hupper, hlower⟩
  have hwf := hins.wellFormed hs.wellFormed
  obtain ⟨hnode, -, -⟩ := (getNearestAncestor_iff hs.wellFormed hleaf).mp hatt
  obtain ⟨hmem, hpre⟩ := (hs.wellFormed.mem_ancestors hleaf).mp hnode
  obtain ⟨-, hinside, hlength, -⟩ := hins.isUnshare_cut hs hsplit
  rw [hmoves]
  refine (getNearestAncestor_iff hwf (hins.mem_allNodes hs.wellFormed hleaf).1).mpr
    ⟨(hins.mem_ancestors_old hs hleaf).mpr (Or.inr ⟨entry.node, hnode, hsplit⟩), hupper,
      fun m hm hunshare => ?_⟩
  rcases (hins.mem_ancestors_old hs hleaf).mp hm with hold | ⟨child, -, hchild⟩
  · -- an old node above the lower half ends before the upper half begins
    obtain ⟨hm', hmpre⟩ := (hs.wellFormed.mem_ancestors hleaf).mp hold
    have hle := hins.contextLength_le hs hleaf hatt hm hunshare
    rw [hins.contextLength hs hm', hs.wellFormed.context m hm',
      hs.wellFormed.context entry.node hmem] at hle
    have habove : m ∈ s.cache.ancestors entry.node :=
      (hs.wellFormed.mem_ancestors hmem).mpr
        ⟨hm', List.prefix_of_prefix_length_le hmpre hpre hle⟩
    have hne : m ≠ entry.node := fun heq => hlower (heq ▸ hunshare)
    have hbefore := hs.wellFormed.contextLength_le hmem habove hne
    rw [hins.contextLength hs hm', hlength]
    omega
  -- the upper half itself is as deep as the node found
  · rw [(hins.split_unique hsplit hchild).2]

/-- An entry stays right exactly when the request does not cut its node into two unimportant
halves. -/
theorem RequestInserted.attributed_iff {entry : WindowEntry}
    (hentry : entry ∈ s.histogram.timestamps) (hatt : s.Attributed entry) :
    s₁.Attributed (s₁.moved splits entry) ↔ ¬ s.CutsSmall inputIds entry.node := by
  obtain ⟨hmem, hleaf⟩ := hs.inTree entry hentry
  obtain ⟨-, hunshare, -⟩ := (getNearestAncestor_iff hs.wellFormed hleaf).mp hatt
  -- an uncut node keeps its importance; for a cut one, each half is important or not
  cases hsplit : splits.get? entry.node with
  | none =>
    refine iff_of_true (hins.attributed_stays hs hleaf hatt
      ((hins.isUnshare_old hs hmem hsplit).mpr hunshare)) (fun hsmall => ?_)
    obtain ⟨new, hnew⟩ :=
      hins.split_of_inside hs hmem hsmall.1.1 (by exact_mod_cast hsmall.1.2)
    rw [hsplit] at hnew
    cases hnew
  | some new =>
    obtain ⟨-, hinside, -, hupper, hlower⟩ := hins.isUnshare_cut hs hsplit
    by_cases hlow : s₁.IsUnsharePrefixOver50PercentForNode entry.node
    · refine iff_of_true (hins.attributed_stays hs hleaf hatt hlow) (fun hsmall => ?_)
      have hlow := hlower.mp hlow
      have hsmall := hsmall.2.2
      omega
    · by_cases hup : s₁.IsUnsharePrefixOver50PercentForNode new
      · refine iff_of_true (hins.attributed_moves hs hleaf hatt hsplit hup hlow)
          (fun hsmall => ?_)
        have hup := hupper.mp hup
        have hsmall := hsmall.2.1
        omega
      · -- nothing moves the entry, and its node is not important any more
        have hstays : s₁.moved splits entry = entry := by
          rw [moved, hsplit]
          exact if_neg fun hmoves => hup hmoves.1
        rw [hstays]
        refine iff_of_false (fun hright => ?_) (not_not.mpr ?_)
        · exact hlow ((getNearestAncestor_iff (hins.wellFormed hs.wellFormed)
            (hins.mem_allNodes hs.wellFormed hleaf).1).mp hright).2.1
        · rw [hlower] at hlow
          rw [hupper] at hup
          refine ⟨⟨hinside.1, by exact_mod_cast hinside.2⟩, ?_, ?_⟩
          · show (s.cache.sharedTokens inputIds entry.node : ℤ) ≤ _
            omega
          · show _ ≤ 2 * (s.cache.sharedTokens inputIds entry.node : ℤ)
            omega

/-- All entries stay right exactly when the request does this to no node of the window. -/
theorem RequestInserted.attributed_all_iff
    (hatt : ∀ entry ∈ s.histogram.timestamps, s.Attributed entry) :
    (∀ entry ∈ s₁.histogram.timestamps, s₁.Attributed entry) ↔ s.KeepsAttribution inputIds := by
  rw [hins.timestamps, List.forall_mem_map]
  exact forall₂_congr fun entry hentry => hins.attributed_iff hs hentry (hatt entry hentry)

end Inserted

/-! ## Main results -/

/-- In every run whose requests do not cut nodes of the window into two unimportant halves, all
entries are attributed to the important ancestors of their leaves. After the tokens of a next
request were put into the tree, this is so exactly when it does not do it either. -/
theorem windowAttribution_iff {windowDuration maxDramTokens prefillTpot : ℚ}
    {unfinished : List (List ℕ × Fin n)} (hn : 0 < n)
    (h : SchedulerRun rt windowDuration maxDramTokens prefillTpot KeepsAttribution s
      unfinished) :
    AttributedWindow s ∧ ∀ inputIds leaf s₁, insertRequest rt inputIds s = .ok leaf s₁ →
      (AttributedWindow s₁ ↔ KeepsAttribution s inputIds) := by
  have hkeep : ∀ s s' : PrebleGlobalSchedulerUtils n, SameShape s.cache s'.cache →
      s'.histogram.timestamps = s.histogram.timestamps →
      (∀ entry ∈ s.histogram.timestamps, s.Attributed entry) →
      ∀ entry ∈ s'.histogram.timestamps, s'.Attributed entry := by
    intro s s' hshape htime hatt entry hentry
    rw [htime] at hentry
    exact (sameShape_attributed hshape entry).mpr (hatt entry hentry)
  -- the request comes in with its important ancestor, and some of the oldest entries leave
  have hschedule : ∀ s σ reserved request leaf splits s₁ σ₁ node gpu s₂,
      Sound s σ reserved ∅ → (∀ entry ∈ s.histogram.timestamps, s.Attributed entry) →
      s.KeepsAttribution request.inputIds →
      ScheduledVia rt s σ reserved request leaf splits s₁ σ₁ node gpu s₂ →
      ∀ entry ∈ s₂.histogram.timestamps, s₂.Attributed entry := by
    intro s σ reserved request leaf splits s₁ σ₁ node gpu s₂ hs hatt hallowed hvia entry hentry
    have hatt₁ := (hvia.inserted.attributed_all_iff hs hatt).mpr hallowed
    rw [sameShape_attributed hvia.reservedOn.shape]
    rw [hvia.reservedOn.timestamps] at hentry
    rcases List.mem_append.mp ((List.dropWhile_sublist _).subset hentry) with hold | hnew
    · exact hatt₁ entry hold
    · rw [List.mem_singleton.mp hnew]
      exact hvia.nearest
  obtain ⟨⟨σ, reserved, hs, -⟩, hatt⟩ :=
    h.invariant hn (fun _ hentry => absurd hentry List.not_mem_nil) hkeep hschedule
  refine ⟨hs.attributedWindow_iff.mpr hatt, fun inputIds leaf s₁ hinsert => ?_⟩
  obtain ⟨leaf', splits, s₁', σ₁, hinsert', hs₁, hins⟩ := insertRequest_window rt hs inputIds
  obtain ⟨rfl, rfl⟩ := EStateM.Result.ok.inj (hinsert.symm.trans hinsert')
  rw [hs₁.attributedWindow_iff]
  exact hins.attributed_all_iff hs hatt

/-! ## Entries that go astray -/

/-- One replica, and a clock that shows the number of its reading. -/
def oneReplica : Runtime 1 := .ascending 1 fun reading => reading

/-- The scheduler after requests with the prompts. -/
def afterRequests (prompts : List (List ℕ)) : PrebleGlobalSchedulerUtils 1 :=
  prompts.foldl
    (fun s inputIds => Py.finalState
      (schedule oneReplica (some ⟨0, "s", inputIds, inputIds.length, 8, 0⟩) s))
    (init oneReplica 180 1000 (1 / 10))

/-- The second request continues the first one, with more tokens. -/
theorem afterRequests_run {Allowed : PrebleGlobalSchedulerUtils 1 → List ℕ → Prop}
    (hfirst : Allowed (afterRequests []) [1, 2, 3])
    (hsecond : Allowed (afterRequests [[1, 2, 3]]) [1, 2, 3, 4, 5, 6, 7, 8]) :
    SchedulerRun oneReplica 180 1000 (1 / 10) Allowed
      (afterRequests [[1, 2, 3], [1, 2, 3, 4, 5, 6, 7, 8]])
      [([1, 2, 3, 4, 5, 6, 7, 8], Fin.last 0), ([1, 2, 3], Fin.last 0)] := by
  have hrun₁ : schedule oneReplica (some ⟨0, "s", [1, 2, 3], 3, 8, 0⟩) (afterRequests []) =
      .ok (Fin.last 0).val (afterRequests [[1, 2, 3]]) :=
    Py.eq_ok_of_returned (by decide +kernel)
  have hrun₂ : schedule oneReplica (some ⟨0, "s", [1, 2, 3, 4, 5, 6, 7, 8], 8, 8, 0⟩)
      (afterRequests [[1, 2, 3]]) =
      .ok (Fin.last 0).val (afterRequests [[1, 2, 3], [1, 2, 3, 4, 5, 6, 7, 8]]) :=
    Py.eq_ok_of_returned (by decide +kernel)
  refine SchedulerRun.schedule (SchedulerRun.schedule .init ?_ hrun₁) ?_ hrun₂
  · exact hfirst
  · exact hsecond

theorem windowAttribution_iff_two :
    AttributedWindow (afterRequests [[1, 2, 3], [1, 2, 3, 4, 5, 6, 7, 8]]) ∧
    ∀ inputIds leaf s₁, insertRequest oneReplica inputIds
        (afterRequests [[1, 2, 3], [1, 2, 3, 4, 5, 6, 7, 8]]) = .ok leaf s₁ →
      (AttributedWindow s₁ ↔
        KeepsAttribution (afterRequests [[1, 2, 3], [1, 2, 3, 4, 5, 6, 7, 8]]) inputIds) :=
  windowAttribution_iff Nat.one_pos (afterRequests_run (by decide +kernel) (by decide +kernel))

/-- A third request cuts the node of the tokens 4 to 8 after the 5: it stays in the histogram,
with three tokens that have five before them. -/
theorem not_attributedWindow : ¬ ∀ (s : PrebleGlobalSchedulerUtils 1)
    (unfinished : List (List ℕ × Fin 1)) (inputIds : List ℕ) (leaf : ℕ)
    (s₁ : PrebleGlobalSchedulerUtils 1),
    SchedulerRun oneReplica 180 1000 (1 / 10) (fun _ _ => True) s unfinished →
      insertRequest oneReplica inputIds s = .ok leaf s₁ → AttributedWindow s₁ := by
  intro h
  have hinsert : insertRequest oneReplica [1, 2, 3, 4, 5, 9]
      (afterRequests [[1, 2, 3], [1, 2, 3, 4, 5, 6, 7, 8]]) = .ok 4 _ :=
    Py.eq_ok_of_returned (by decide +kernel)
  have himportant := (h _ _ _ _ _ (afterRequests_run trivial trivial) hinsert).important 2
    (by decide +kernel)
  revert himportant
  decide +kernel

end PrebleGlobalScheduler

end DualMap.Preble
