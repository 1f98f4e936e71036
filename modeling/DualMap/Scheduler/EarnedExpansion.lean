import DualMap.Foundation.ObservedWindow
import DualMap.Scheduler.HotPrefixWindow
import DualMap.Scheduler.PrefixExpansion
import Mathlib.Algebra.Order.Field.Rat

/-!
# Expansions Are Earned

Nothing is in the table that was not hot once: an entry for a prefix was put there by a call of
`process` on a prompt with this prefix, when its share of the window was at least the ratio of
the detector. A prompt is counted once for each prefix that is observed for it, so the share is
one of the prompts that came last (`lookup_earned`).

Prefixes are the same to the table when their hashes are.
-/

namespace DualMap.Scheduler

/-! ## One bucket -/

theorem LRUCapBucket.get?_put_ne {κ ν : Type} {capacity : ℕ} [DecidableEq κ]
    {b : LRUCapBucket κ ν capacity} {key other : κ} {value : ν}
    (h : (b.put key value).data.get? other ≠ none) : other = key ∨ b.data.get? other ≠ none := by
  obtain ⟨v, hv⟩ := Option.ne_none_iff_exists'.mp h
  have hmem : (other, v) ∈ (store b.data key value).entries := by
    rw [OrderedDict.get?_eq_some, entries_put] at hv
    split at hv
    · exact List.mem_of_mem_tail hv
    · exact hv
  rw [entries_store, List.mem_append, List.mem_singleton] at hmem
  rcases hmem with hold | hnew
  · refine Or.inr (fun hnone => ?_)
    rw [OrderedDict.get?_of_mem_entries (List.mem_of_mem_filter hold)] at hnone
    cases hnone
  · exact Or.inl (Prod.mk.inj hnew).1

namespace LazyPrefixTable

variable {capPerLevel : ℕ} {t : LazyPrefixTable capPerLevel}

/-- Only the expanded prefix gets an entry. -/
theorem entry_of_markExpand {prefixBlocks : List ℤ} {depth k : ℕ} {h : ℤ}
    (hentry : (t.markExpand prefixBlocks (depth + 1)).entry k h ≠ none) :
    (k = depth ∧ h = rollingHash prefixBlocks depth) ∨ t.entry k h ≠ none := by
  by_cases hk : k = depth
  · subst hk
    have hput := entry_markExpand t prefixBlocks (k + 1) h
    rw [Nat.add_sub_cancel] at hput
    rw [hput] at hentry
    rcases LRUCapBucket.get?_put_ne hentry with hsame | hold
    · exact Or.inl ⟨rfl, hsame⟩
    · exact Or.inr hold
  · rw [entry_markExpand_of_ne t prefixBlocks h hk] at hentry
    exact Or.inr hentry

theorem entry_of_markShrink {prefixBlocks : List ℤ} {depth k : ℕ} {h : ℤ}
    (hentry : (t.markShrink prefixBlocks depth).entry k h ≠ none) : t.entry k h ≠ none := by
  rw [entry_markShrink] at hentry
  split at hentry
  · exact absurd rfl hentry
  · exact hentry

end LazyPrefixTable

/-! ## One observation -/

namespace HotPrefixDetector

variable {α : Type} [DecidableEq α] {d : HotPrefixDetector α}

theorem params_popOldest (d : HotPrefixDetector α) :
    d.popOldest.hotRatio = d.hotRatio ∧ d.popOldest.minSamples = d.minSamples := by
  unfold popOldest
  split
  · split
    · exact ⟨rfl, rfl⟩
    · exact ⟨rfl, rfl⟩
  · exact ⟨rfl, rfl⟩

theorem params_observe (d : HotPrefixDetector α) (key : α) :
    (d.observe key).2.hotRatio = d.hotRatio ∧ (d.observe key).2.minSamples = d.minSamples :=
  params_popOldest (d.append key)

/-- A hot prefix has its share of a window that is long enough. -/
theorem share_of_hot (hcounts : Counts d.counts d.window) (hratio : 0 < d.hotRatio) {key : α}
    (hhot : (d.observe key).1.1 = true) :
    max 21 d.minSamples ≤ (d.observe key).2.window.length ∧
      (d.observe key).2.window.length * d.hotRatio ≤ (d.observe key).2.window.count key := by
  obtain ⟨hsameRatio, hsameSamples⟩ := params_observe d key
  have hcount := (counts_observe hcounts key).getD key
  have hheat : ((d.observe key).2.heat key).1 = true := hhot
  unfold heat at hheat
  rw [hcount, hsameRatio, hsameSamples] at hheat
  dsimp only at hheat
  split at hheat
  · cases hheat
  · next hsamples =>
    have hshare := of_decide_eq_true hheat
    -- up to twenty samples the code takes a share of zero
    split at hshare
    · next htwenty =>
      have hpos : (0 : ℚ) < (d.observe key).2.window.length := by
        exact_mod_cast (Nat.zero_le 20).trans_lt htwenty
      rw [le_div_iff₀ hpos] at hshare
      refine ⟨max_le (by exact_mod_cast htwenty) (not_lt.mp hsamples), ?_⟩
      rw [mul_comm]
      exact_mod_cast hshare
    · exact absurd hshare (not_le.mpr hratio)

end HotPrefixDetector

/-! ## One call -/

namespace LazyExpansionController

variable {capPerLevel : ℕ} {c : LazyExpansionController capPerLevel}

/-- The detector after the call for a prompt that was looked up to this depth. -/
def detectorAfter (d : HotPrefixDetector (List ℤ)) (prefixBlocks : List ℤ) (depth : ℕ) :
    HotPrefixDetector (List ℤ) :=
  if 1 < depth then
    ((d.observe (prefixBlocks.take depth)).2.observe (prefixBlocks.take (depth - 1))).2
  else (d.observe (prefixBlocks.take depth)).2

/-- The table after the call, from the one that the look-up left. -/
def tableAfter (d : HotPrefixDetector (List ℤ)) (t : LazyPrefixTable capPerLevel)
    (prefixBlocks : List ℤ) (depth : ℕ) : LazyPrefixTable capPerLevel :=
  let hot := d.observe (prefixBlocks.take depth)
  let parent := hot.2.observe (prefixBlocks.take (depth - 1))
  let t := if hot.1.1 ∧ depth < prefixBlocks.length then t.markExpand prefixBlocks (depth + 1)
    else t
  if 1 < depth ∧ parent.1.2 < 2 / 100 then t.markShrink prefixBlocks depth else t

theorem observe_apply (key : List ℤ) (c : LazyExpansionController capPerLevel) :
    observe key c = .ok (c.detector.observe key).1
      { c with detector := (c.detector.observe key).2 } := rfl

theorem onTable_modify (f : LazyPrefixTable capPerLevel → LazyPrefixTable capPerLevel)
    (c : LazyExpansionController capPerLevel) :
    onTable (modify f) c = .ok ⟨⟩ { c with table := f c.table } := rfl

/-- The second half of a call, which looks at the parent of the prefix. -/
theorem shrink_eq (prefixBlocks : List ℤ) (depth : ℕ) (c : LazyExpansionController capPerLevel) :
    (if 1 < depth then
      observe (prefixBlocks.take (depth - 1)) >>= fun parent =>
        match parent with
        | (_, pRatio) =>
          if pRatio < 2 / 100 then onTable (modify (·.markShrink prefixBlocks depth)) else pure ⟨⟩
    else pure ⟨⟩) c = .ok ⟨⟩ {
      table :=
        if 1 < depth ∧ (c.detector.observe (prefixBlocks.take (depth - 1))).1.2 < 2 / 100 then
          c.table.markShrink prefixBlocks depth
        else c.table
      detector :=
        if 1 < depth then (c.detector.observe (prefixBlocks.take (depth - 1))).2 else c.detector
      cnt := c.cnt } := by
  by_cases hdeep : 1 < depth
  · rw [if_pos hdeep, if_pos hdeep, Py.bind_ok (observe_apply _ c)]
    by_cases hcold : (c.detector.observe (prefixBlocks.take (depth - 1))).1.2 < 2 / 100
    · rw [if_pos ⟨hdeep, hcold⟩]
      exact (congrFun (if_pos hcold) _).trans (onTable_modify ..)
    · rw [if_neg (fun h => hcold h.2)]
      exact congrFun (if_neg hcold) _
  · rw [if_neg hdeep, if_neg hdeep, if_neg (fun h => hdeep h.1)]
    rfl

theorem process_eq {prefixBlocks : List ℤ} {depth : ℕ} {t : LazyPrefixTable capPerLevel}
    (hlookup : LazyPrefixTable.lookup prefixBlocks c.table = .ok depth t) :
    process prefixBlocks c = .ok ⟨⟩ {
      table := tableAfter c.detector t prefixBlocks depth
      detector := detectorAfter c.detector prefixBlocks depth
      cnt := c.cnt + 1 } := by
  have hfound : onTable (LazyPrefixTable.lookup prefixBlocks) { c with cnt := c.cnt + 1 } =
      .ok depth { c with cnt := c.cnt + 1, table := t } := Py.zoom_ok hlookup
  unfold process tableAfter detectorAfter
  rw [Py.bind_ok (Py.modify_apply _ c), Py.bind_ok hfound, Py.bind_ok (observe_apply _ _)]
  dsimp only
  by_cases hexpand : (c.detector.observe (prefixBlocks.take depth)).1.1 = true ∧
      depth < prefixBlocks.length
  · rw [if_pos hexpand, if_pos hexpand, Py.bind_ok (onTable_modify _ _)]
    exact shrink_eq prefixBlocks depth _
  · rw [if_neg hexpand, if_neg hexpand]
    exact shrink_eq prefixBlocks depth _

/-- Only a hot prefix gets an entry in the table. -/
theorem entry_tableAfter {d : HotPrefixDetector (List ℤ)} {t : LazyPrefixTable capPerLevel}
    {prefixBlocks : List ℤ} {depth k : ℕ} {h : ℤ}
    (hentry : (tableAfter d t prefixBlocks depth).entry k h ≠ none) :
    t.entry k h ≠ none ∨
      ((d.observe (prefixBlocks.take depth)).1.1 = true ∧ k = depth ∧
        depth < prefixBlocks.length ∧ h = LazyPrefixTable.rollingHash prefixBlocks depth) := by
  have hexpanded : (if (d.observe (prefixBlocks.take depth)).1.1 = true ∧
        depth < prefixBlocks.length then t.markExpand prefixBlocks (depth + 1)
      else t).entry k h ≠ none := by
    unfold tableAfter at hentry
    dsimp only at hentry
    split at hentry
    · exact LazyPrefixTable.entry_of_markShrink hentry
    · exact hentry
  split at hexpanded
  · next hexpand =>
    rcases LazyPrefixTable.entry_of_markExpand hexpanded with ⟨hk, hh⟩ | hold
    · exact Or.inr ⟨hexpand.1, hk, hexpand.2, hh⟩
    · exact Or.inl hold
  · exact Or.inl hexpanded

/-! ## What the window says of the prompts -/

/-- How many of the prompts begin with the prefix. -/
def sharers (key : List ℤ) (prompts : List (List ℤ)) : ℕ :=
  prompts.countP (fun prompt => key <+: prompt)

/-- Prefixes of prompts are observed. -/
abbrev Observed (seen : List (List (List ℤ))) (prompts : List (List ℤ)) : Prop :=
  ObservedWindow.Observed (fun key prompt => key <+: prompt) seen prompts

/-- The observations of a call. -/
def keysOf (prefixBlocks : List ℤ) (depth : ℕ) : List (List ℤ) :=
  if 1 < depth then [prefixBlocks.take depth, prefixBlocks.take (depth - 1)]
  else [prefixBlocks.take depth]

theorem observedFor_keysOf {prefixBlocks : List ℤ} {depth : ℕ}
    (hwithin : depth ≤ prefixBlocks.length) :
    ObservedWindow.ObservedFor (fun key prompt => key <+: prompt)
      (keysOf prefixBlocks depth) prefixBlocks := by
  unfold keysOf
  split
  · next hdeep =>
    refine ⟨List.cons_ne_nil _ _, ?_, ?_⟩
    · -- the two prefixes have different lengths
      refine List.nodup_cons.mpr ⟨fun hmem => ?_, List.nodup_singleton _⟩
      have hlengths := congrArg List.length (List.mem_singleton.mp hmem)
      rw [List.length_take_of_le hwithin, List.length_take_of_le (by omega)] at hlengths
      omega
    · intro key hkey
      rcases List.mem_pair.mp hkey with rfl | rfl
      · exact List.take_prefix _ _
      · exact List.take_prefix _ _
  · refine ⟨List.cons_ne_nil _ _, List.nodup_singleton _, fun key hkey => ?_⟩
    rw [List.mem_singleton.mp hkey]
    exact List.take_prefix _ _

end LazyExpansionController

namespace HotPrefixDetector

/-- The state of a detector on its way through the observations. -/
structure Watching (start d : HotPrefixDetector (List ℤ)) (observed : List (List ℤ)) :
    Prop where
  counts : Counts d.counts d.window
  recent : d.window <:+ observed
  within : d.window.length ≤ start.windowSize.toNat
  windowSize : d.windowSize = start.windowSize
  hotRatio : d.hotRatio = start.hotRatio
  minSamples : d.minSamples = start.minSamples

theorem Watching.observe {start d : HotPrefixDetector (List ℤ)} {observed : List (List ℤ)}
    (h : Watching start d observed) (key : List ℤ) :
    Watching start (d.observe key).2 (observed ++ [key]) where
  counts := counts_observe h.counts key
  recent := by
    have happended : d.window ++ [key] <:+ observed ++ [key] := by
      obtain ⟨before, hbefore⟩ := h.recent
      exact ⟨before, by rw [← List.append_assoc, hbefore]⟩
    rw [window_observe]
    split
    · exact (List.tail_suffix _).trans happended
    · exact happended
  within := by
    have hwithin := h.within
    have hsize := h.windowSize
    -- the window drops its oldest observation exactly when it is full
    rw [window_observe]
    split
    · rw [List.length_tail, List.length_append]
      exact hwithin
    · next hroom =>
      rw [List.length_append, List.length_singleton]
      omega
  windowSize := (windowSize_observe d key).trans h.windowSize
  hotRatio := (params_observe d key).1.trans h.hotRatio
  minSamples := (params_observe d key).2.trans h.minSamples

end HotPrefixDetector

namespace LazyExpansionController

variable {capPerLevel : ℕ} {c : LazyExpansionController capPerLevel}

/-! ## Runs -/

/-- A call on the controller, or on the table that it expands. -/
inductive Call where
  | process (prefixBlocks : List ℤ)
  | lookup (prefixBlocks : List ℤ)

namespace Call

def run : Call → Py (LazyExpansionController capPerLevel) PUnit
  | .process prefixBlocks => LazyExpansionController.process prefixBlocks
  | .lookup prefixBlocks => do
    let _ ← onTable (LazyPrefixTable.lookup prefixBlocks)

/-- The prompts that a call is processed for. -/
def processed : Call → List (List ℤ)
  | .process prefixBlocks => [prefixBlocks]
  | .lookup _ => []

end Call

/-- A prefix of the prompt was hot when the prompt was processed: of the last `n` prompts by
then, enough began with it. -/
structure HotAt (start : HotPrefixDetector (List ℤ)) (earlier : List (List ℤ))
    (prompt : List ℤ) (depth n : ℕ) : Prop where
  deeper : depth < prompt.length
  enough : max 21 start.minSamples ≤ n
  within : n ≤ start.windowSize
  share : n * start.hotRatio ≤ sharers (prompt.take depth) ((earlier ++ [prompt]).rtake n)

/-- One of the prompts had a hot prefix with this hash when it came. -/
def Earned (start : HotPrefixDetector (List ℤ)) (prompts : List (List ℤ)) (depth : ℕ) (h : ℤ) :
    Prop :=
  ∃ earlier prompt later n, prompts = earlier ++ prompt :: later ∧
    LazyPrefixTable.rollingHash prompt depth = h ∧ HotAt start earlier prompt depth n

theorem Earned.append {start : HotPrefixDetector (List ℤ)} {prompts : List (List ℤ)} {depth : ℕ}
    {h : ℤ} (hearned : Earned start prompts depth h) (more : List (List ℤ)) :
    Earned start (prompts ++ more) depth h := by
  obtain ⟨earlier, prompt, later, n, rfl, hhash, hhot⟩ := hearned
  exact ⟨earlier, prompt, later ++ more, n, by simp, hhash, hhot⟩

/-- What holds after the prompts have been processed. -/
structure Grounded (start : HotPrefixDetector (List ℤ)) (prompts : List (List ℤ))
    (c : LazyExpansionController capPerLevel) : Prop where
  chained : c.Chained
  watching : ∃ seen, Observed seen prompts ∧
    HotPrefixDetector.Watching start c.detector seen.flatten
  earned : ∀ depth h, c.table.entry depth h ≠ none → Earned start prompts depth h

theorem watching_detectorAfter {start d : HotPrefixDetector (List ℤ)}
    {observed : List (List ℤ)} (h : HotPrefixDetector.Watching start d observed)
    (prefixBlocks : List ℤ) (depth : ℕ) :
    HotPrefixDetector.Watching start (detectorAfter d prefixBlocks depth)
      (observed ++ keysOf prefixBlocks depth) := by
  unfold detectorAfter keysOf
  split
  · have htwice := (h.observe (prefixBlocks.take depth)).observe (prefixBlocks.take (depth - 1))
    rwa [List.append_assoc, List.singleton_append] at htwice
  · exact h.observe _

/-- What makes a prefix hot is the prompts that begin with it. -/
theorem hotAt_of_hot {start d : HotPrefixDetector (List ℤ)} {seen : List (List (List ℤ))}
    {prompts : List (List ℤ)} (hseen : Observed seen prompts)
    (hwatching : HotPrefixDetector.Watching start d seen.flatten) (hratio : 0 < start.hotRatio)
    {prompt : List ℤ} {depth : ℕ} (hdeeper : depth < prompt.length)
    (hhot : (d.observe (prompt.take depth)).1.1 = true) :
    ∃ n, HotAt start prompts prompt depth n := by
  set key := prompt.take depth with hkey
  obtain ⟨henough, hshare⟩ :=
    HotPrefixDetector.share_of_hot hwatching.counts (hwatching.hotRatio ▸ hratio) hhot
  rw [hwatching.minSamples] at henough
  rw [hwatching.hotRatio] at hshare
  have hafter := hwatching.observe key
  -- the observations up to this one, prompt by prompt
  have hall : Observed (seen ++ [[key]]) (prompts ++ [prompt]) := by
    refine hseen.snoc ⟨List.cons_ne_nil _ _, List.nodup_singleton _, ?_⟩
    intro other hother
    rw [List.mem_singleton.mp hother]
    exact List.take_prefix _ _
  have hrecent : (d.observe key).2.window <:+ (seen ++ [[key]]).flatten := by
    rw [List.flatten_append, List.flatten_singleton]
    exact hafter.recent
  have hsharers := hall.count_window_le hrecent key
  have hwithin := hafter.within
  exact ⟨(d.observe key).2.window.length, hdeeper, henough, by omega,
    hshare.trans (by exact_mod_cast hsharers)⟩

theorem process_grounded {start : HotPrefixDetector (List ℤ)} (hratio : 0 < start.hotRatio)
    {prompts : List (List ℤ)} (h : Grounded start prompts c) (prefixBlocks : List ℤ) :
    ∃ c', process prefixBlocks c = .ok ⟨⟩ c' ∧ Grounded start (prompts ++ [prefixBlocks]) c' := by
  obtain ⟨depth, hstop⟩ := exists_stopsAt (c.table.Marked prefixBlocks) prefixBlocks.length
  obtain ⟨t, hlookup, hentry⟩ := LazyPrefixTable.lookup_spec h.chained hstop
  have hrun := process_eq hlookup
  obtain ⟨_, c', hrun', hchained⟩ := process_returns prefixBlocks c h.chained
  obtain ⟨-, rfl⟩ := EStateM.Result.ok.inj (hrun.symm.trans hrun')
  obtain ⟨seen, hseen, hwatching⟩ := h.watching
  refine ⟨_, hrun, hchained, ⟨seen ++ [keysOf prefixBlocks depth],
    hseen.snoc (observedFor_keysOf hstop.within), ?_⟩, ?_⟩
  -- what the table gained was earned by this prompt, observed at its depths
  · rw [List.flatten_append, List.flatten_singleton]
    exact watching_detectorAfter hwatching prefixBlocks depth
  · intro k hash hnew
    rcases entry_tableAfter hnew with hold | ⟨hhot, rfl, hdeeper, rfl⟩
    · rw [hentry] at hold
      exact (h.earned k hash hold).append _
    · obtain ⟨n, hat⟩ := hotAt_of_hot hseen hwatching hratio hdeeper hhot
      exact ⟨prompts, prefixBlocks, [], n, rfl, rfl, hat⟩

theorem Call.run_grounded {start : HotPrefixDetector (List ℤ)} (hratio : 0 < start.hotRatio)
    {prompts : List (List ℤ)} (h : Grounded start prompts c) (call : Call) :
    ∃ c', call.run c = .ok ⟨⟩ c' ∧ Grounded start (prompts ++ call.processed) c' := by
  cases call with
  | process prefixBlocks => exact process_grounded hratio h prefixBlocks
  | lookup prefixBlocks =>
    obtain ⟨depth, hstop⟩ := exists_stopsAt (c.table.Marked prefixBlocks) prefixBlocks.length
    obtain ⟨t, hlookup, hentry⟩ := LazyPrefixTable.lookup_spec h.chained hstop
    have hfound : onTable (LazyPrefixTable.lookup prefixBlocks) c =
        .ok depth { c with table := t } := Py.zoom_ok hlookup
    refine ⟨{ c with table := t }, Py.bind_ok hfound, h.chained.congr hentry, ?_, ?_⟩
    · rw [processed, List.append_nil]
      exact h.watching
    · rw [processed, List.append_nil]
      intro k hash hnew
      exact h.earned k hash (hentry ▸ hnew)

theorem grounded_init (start : HotPrefixDetector (List ℤ)) (hnew : start.window = [])
    (hcounts : start.counts = .empty) :
    Grounded start [] (init start : LazyExpansionController capPerLevel) where
  chained := LazyPrefixTable.chained_init
  watching := by
    refine ⟨[], .nil, ?_, ?_, ?_, rfl, rfl, rfl⟩
    · intro key
      simp [init, hnew, hcounts]
    · simp [init, hnew]
    · simp [init, hnew]
  earned _ _ hentry := absurd rfl hentry

theorem run_grounded {start : HotPrefixDetector (List ℤ)} (hratio : 0 < start.hotRatio)
    {prompts : List (List ℤ)} (h : Grounded start prompts c) (calls : List Call) :
    ∃ c', calls.forM Call.run c = .ok ⟨⟩ c' ∧
      Grounded start (prompts ++ calls.flatMap Call.processed) c' := by
  induction calls generalizing c prompts with
  | nil => exact ⟨c, rfl, by simpa using h⟩
  | cons call calls ih =>
    obtain ⟨c₁, hcall, hc₁⟩ := call.run_grounded hratio h
    obtain ⟨c₂, hrest, hc₂⟩ := ih hc₁
    refine ⟨c₂, (Py.bind_ok hcall).trans hrest, ?_⟩
    rwa [List.flatMap_cons, ← List.append_assoc]

/-- After any calls, a look-up returns, and wherever it did not stop, a prompt with the same
hash had come whose prefix was hot: of the prompts that came last, a window of at least 21 and
of no more than the window size, at least `hot_ratio` began with this prefix. -/
theorem lookup_earned (windowSize minSamples : ℤ) {hotRatio : ℚ} (hratio : 0 < hotRatio)
    (calls : List Call) (prefixBlocks : List ℤ) :
    ∃ c depth t, calls.forM Call.run
        (init (.init windowSize hotRatio minSamples) : LazyExpansionController capPerLevel) =
          .ok ⟨⟩ c ∧
      LazyPrefixTable.lookup prefixBlocks c.table = .ok depth t ∧
      ∀ i, 1 ≤ i → i < depth →
        Earned (.init windowSize hotRatio minSamples) (calls.flatMap Call.processed) i
          (LazyPrefixTable.rollingHash prefixBlocks i) := by
  have hstart : Grounded (.init windowSize hotRatio minSamples) []
      (init (.init windowSize hotRatio minSamples) : LazyExpansionController capPerLevel) :=
    grounded_init _ rfl rfl
  obtain ⟨c, hrun, hgrounded⟩ := run_grounded hratio hstart calls
  obtain ⟨depth, hstop⟩ := exists_stopsAt (c.table.Marked prefixBlocks) prefixBlocks.length
  obtain ⟨t, hlookup, -⟩ := LazyPrefixTable.lookup_spec hgrounded.chained hstop
  exact ⟨c, depth, t, hrun, hlookup, fun i hi hlt =>
    hgrounded.earned i _ (hstop.reached i hi hlt)⟩

/-- A prompt that is processed 21 times, with a look-up before the last time. -/
def hotCalls : List Call :=
  List.replicate 20 (.process hotPrompt) ++ [.lookup hotPrompt, .process hotPrompt]

/-- What the calls leave behind. -/
def hotEnd : LazyExpansionController 10000 := Py.finalState (hotCalls.forM Call.run hotStart)

theorem hotCalls_returns : hotCalls.forM Call.run hotStart = .ok ⟨⟩ hotEnd :=
  Py.eq_ok_of_returned (by decide +kernel)

theorem lookup_hotEnd : Py.returned (LazyPrefixTable.lookup hotPrompt hotEnd.table) = some 2 := by
  decide +kernel

/-- The look-up does not stop at the first block, which was hot at the end. -/
theorem lookup_earned_hotPrompt :
    Earned (.init 200 (612 / 10000) 20) (hotCalls.flatMap Call.processed) 1
      (LazyPrefixTable.rollingHash hotPrompt 1) := by
  obtain ⟨c, depth, t, hrun, hlookup, hearned⟩ :=
    @lookup_earned 10000 200 20 (612 / 10000) (by decide +kernel) hotCalls hotPrompt
  have hend : c = hotEnd := (EStateM.Result.ok.inj (hrun.symm.trans hotCalls_returns)).2
  rw [hend, Py.eq_ok_of_returned lookup_hotEnd] at hlookup
  have hdepth : 2 = depth := (EStateM.Result.ok.inj hlookup).1
  exact hearned 1 le_rfl (hdepth ▸ one_lt_two)

end LazyExpansionController

end DualMap.Scheduler
