import DualMap.Scheduler.LazyPrefixTable
import Mathlib.Order.Basic

/-!
# Expanding and Shrinking Prefixes

A table is a set of marks: a prefix is marked at a depth when the bucket of that depth has an
entry for it, and every entry leads one level deeper (`Chained`). So a look-up stops at the
first depth that is not marked, or at the end of the prompt (`StopsAt`).

`mark_expand` to a depth marks the depth above, and `mark_shrink` from a depth takes away the
mark of the depth itself. The mark that led there stays, so the look-up stops where it did.

## Main Results

- `StopsAt.unique`, `exists_stopsAt`: marks determine where a look-up stops
- `lookup_eq_ok_iff`: what `lookup` returns, in terms of the marks
- `process_chained`: the controller keeps tables chained
- `lookup_markShrink`: shrinking from the depth of a prefix does not change that depth
-/

namespace DualMap.Scheduler

/-! ## Marks -/

/-- Of the depths up to `limit`, the first one without a mark, or else `limit`. -/
structure StopsAt (marked : ℕ → Prop) (limit depth : ℕ) : Prop where
  starts : min 1 limit ≤ depth
  within : depth ≤ limit
  reached : ∀ k, 1 ≤ k → k < depth → marked k
  stops : depth = limit ∨ ¬ marked depth

theorem StopsAt.unique {marked : ℕ → Prop} {limit d d' : ℕ} (h : StopsAt marked limit d)
    (h' : StopsAt marked limit d') : d = d' := by
  -- the smaller depth is marked on the way to the larger one
  have hle : ∀ {a b : ℕ}, StopsAt marked limit a → StopsAt marked limit b → b ≤ a := by
    intro a b ha hb
    by_contra hlt
    have hlt := not_le.mp hlt
    rcases ha.stops with hlimit | hunmarked
    · exact absurd (hlimit ▸ hlt) (not_lt.mpr hb.within)
    · refine hunmarked (hb.reached a ?_ hlt)
      have hstarts := ha.starts
      have hwithin := hb.within
      omega
  exact le_antisymm (hle h' h) (hle h h')

theorem exists_stopsAt (marked : ℕ → Prop) (limit : ℕ) : ∃ d, StopsAt marked limit d := by
  induction limit with
  | zero => exact ⟨0, by simp, le_rfl, by simp, Or.inl rfl⟩
  | succ limit ih =>
    obtain ⟨d, h⟩ := ih
    by_cases hgo : d = limit ∧ (1 ≤ d → marked d)
    · -- the marks now reach one depth further
      obtain ⟨rfl, hmark⟩ := hgo
      refine ⟨d + 1, by omega, le_rfl, fun k hk hlt => ?_, Or.inl rfl⟩
      rcases Nat.lt_succ_iff_lt_or_eq.mp hlt with hlt | rfl
      · exact h.reached k hk hlt
      · exact hmark hk
    · have hpos : 1 ≤ d := by
        have hstarts := h.starts
        by_contra hzero
        exact hgo ⟨by omega, fun hd => absurd hd hzero⟩
      have hstop : ¬ marked d := by
        intro hmark
        rcases h.stops with hlimit | hunmarked
        · exact hgo ⟨hlimit, fun _ => hmark⟩
        · exact hunmarked hmark
      exact ⟨d, (Nat.min_le_left _ _).trans hpos, h.within.trans (Nat.le_succ _), h.reached,
        Or.inr hstop⟩

/-! ## Buckets -/

namespace LRUCapBucket

variable {κ ν : Type} {capacity : ℕ} [DecidableEq κ]

@[simp] theorem get?_get (b : LRUCapBucket κ ν capacity) (key other : κ) :
    (b.get key).2.data.get? other = b.data.get? other := OrderedDict.get?_moveToEnd ..

theorem entries_store (data : OrderedDict κ ν) (key : κ) (value : ν) :
    (store data key value).entries = (data.erase key).entries ++ [(key, value)] := by
  have hother : ∀ e ∈ (data.erase key).entries, e.1 ≠ key := fun e he =>
    by simpa using (List.mem_filter.mp he).2
  -- a new key goes to the end; an old one is moved there and then overwritten
  cases hget : data.get? key with
  | none =>
    have hnew : key ∉ data.keys := OrderedDict.get?_eq_none.mp hget
    have hsame : (data.erase key).entries = data.entries := by
      refine List.filter_eq_self.mpr (fun e he => ?_)
      simp only [ne_eq, decide_eq_true_eq]
      rintro rfl
      exact hnew (List.mem_map_of_mem he)
    rw [store, OrderedDict.moveToEnd, hget, OrderedDict.set_of_notMem value hnew, hsame]
    rfl
  | some old =>
    have hmoved : data.moveToEnd key =
        (data.erase key).append key old (data.key_notMem_erase key) := by
      rw [OrderedDict.moveToEnd, hget]
    have hmem : key ∈ (data.moveToEnd key).keys := by
      rw [hmoved, OrderedDict.keys_append]
      exact List.mem_append_right _ (List.mem_singleton_self key)
    rw [store, OrderedDict.set, dif_pos hmem]
    simp only [hmoved, OrderedDict.append, List.map_append, List.map_cons, List.map_nil, if_true]
    congr 1
    exact (List.map_congr_left (fun e he => if_neg (hother e he))).trans (List.map_id _)

theorem entries_put (b : LRUCapBucket κ ν capacity) (key : κ) (value : ν) :
    (b.put key value).data.entries =
      if capacity < (store b.data key value).entries.length
        then (store b.data key value).entries.tail else (store b.data key value).entries := by
  unfold put
  dsimp only
  split
  · exact entries_evictOldest _
  · rfl

/-- With room for one entry, an entry just put is there. -/
theorem get?_put_self (b : LRUCapBucket κ ν capacity) (key : κ) (value : ν)
    (hcapacity : 0 < capacity) : (b.put key value).data.get? key = some value := by
  rw [OrderedDict.get?_eq_some, entries_put]
  split
  · next hfull =>
    -- the new entry is the last of several, and the first one goes
    rw [entries_store] at hfull ⊢
    cases hold : (b.data.erase key).entries with
    | nil =>
      rw [hold] at hfull
      exact absurd hfull (not_lt.mpr hcapacity)
    | cons e es => simp
  · rw [entries_store]
    exact List.mem_append_right _ (List.mem_singleton_self _)

theorem get?_put_of_capacity_zero (b : LRUCapBucket κ ν 0) (key other : κ) (value : ν) :
    (b.put key value).data.get? other = none := by
  have hempty := List.length_eq_zero_iff.mp (Nat.le_zero.mp (b.put key value).bounded)
  rw [OrderedDict.get?, hempty]
  rfl

/-- A bucket answers with the values put in. -/
theorem get?_of_put {b : LRUCapBucket κ ν capacity} {key other : κ} {value v : ν}
    (h : (b.put key value).data.get? other = some v) : v = value ∨ b.data.get? other = some v := by
  have hmem : (other, v) ∈ (store b.data key value).entries := by
    rw [OrderedDict.get?_eq_some, entries_put] at h
    split at h
    · exact List.mem_of_mem_tail h
    · exact h
  rw [entries_store, List.mem_append, List.mem_singleton] at hmem
  rcases hmem with hold | hnew
  · exact Or.inr (OrderedDict.get?_of_mem_entries (List.mem_of_mem_filter hold))
  · exact Or.inl (Prod.mk.inj hnew).2

end LRUCapBucket

/-! ## Entries of a table -/

namespace LazyPrefixTable

variable {capPerLevel : ℕ} {t t' : LazyPrefixTable capPerLevel}

/-- The bucket of a depth, which is empty until it is created. -/
def bucket (t : LazyPrefixTable capPerLevel) (depth : ℕ) : LRUCapBucket ℤ ℕ capPerLevel :=
  (t.levelBuckets.get? depth).getD .init

/-- What the bucket of a depth answers for a hash. -/
def entry (t : LazyPrefixTable capPerLevel) (depth : ℕ) (h : ℤ) : Option ℕ :=
  (t.bucket depth).data.get? h

/-- Every entry leads to the next depth. -/
def Chained (t : LazyPrefixTable capPerLevel) : Prop :=
  ∀ depth h next, t.entry depth h = some next → next = depth + 1

/-- The bucket of a depth has an entry for the prefix of this depth. -/
def Marked (t : LazyPrefixTable capPerLevel) (prefixBlocks : List ℤ) (depth : ℕ) : Prop :=
  t.entry depth (rollingHash prefixBlocks depth) ≠ none

theorem chained_init : (init : LazyPrefixTable capPerLevel).Chained := fun _ _ _ h => by cases h

/-- The two branches of `_get_bucket` agree on what the bucket is. -/
theorem onBucket_spec {α : Type} (t : LazyPrefixTable capPerLevel) (depth : ℕ)
    (f : LRUCapBucket ℤ ℕ capPerLevel → α × LRUCapBucket ℤ ℕ capPerLevel) :
    (t.onBucket depth f).1 = (f (t.bucket depth)).1 ∧
      (t.onBucket depth f).2.levelBuckets =
        t.levelBuckets.set depth (f (t.bucket depth)).2 := by
  unfold onBucket bucket
  split
  · next b hb => simp [hb]
  · next hnone => simp [hnone]

theorem entry_onBucket {α : Type} (t : LazyPrefixTable capPerLevel) (depth k : ℕ) (h : ℤ)
    (f : LRUCapBucket ℤ ℕ capPerLevel → α × LRUCapBucket ℤ ℕ capPerLevel) :
    (t.onBucket depth f).2.entry k h =
      if k = depth then (f (t.bucket depth)).2.data.get? h else t.entry k h := by
  rw [entry, bucket, (onBucket_spec t depth f).2, OrderedDict.get?_set]
  split
  · rfl
  · rfl

/-- Reading a bucket changes no entry. -/
theorem readBucket_spec (t : LazyPrefixTable capPerLevel) (prefixBlocks : List ℤ) (depth : ℕ) :
    (readBucket prefixBlocks depth t).1 = t.entry depth (rollingHash prefixBlocks depth) ∧
      (readBucket prefixBlocks depth t).2.entry = t.entry := by
  refine ⟨(onBucket_spec ..).1, ?_⟩
  funext k h
  refine (entry_onBucket t depth k h _).trans ?_
  split
  · next hk => rw [LRUCapBucket.get?_get, hk, entry]
  · rfl

theorem entry_markShrink (t : LazyPrefixTable capPerLevel) (prefixBlocks : List ℤ)
    (oldDepth k : ℕ) (h : ℤ) : (t.markShrink prefixBlocks oldDepth).entry k h =
      if k = oldDepth ∧ h = rollingHash prefixBlocks oldDepth then none else t.entry k h := by
  rw [markShrink, entry_onBucket]
  by_cases hk : k = oldDepth
  · subst hk
    by_cases hh : h = rollingHash prefixBlocks k
    · simp [hh, LRUCapBucket.delete]
    · simp [hh, LRUCapBucket.delete, OrderedDict.get?_erase_of_ne, entry]
  · simp [hk]

theorem entry_markExpand_of_ne {k newDepth : ℕ} (t : LazyPrefixTable capPerLevel)
    (prefixBlocks : List ℤ) (h : ℤ) (hk : k ≠ newDepth - 1) :
    (t.markExpand prefixBlocks newDepth).entry k h = t.entry k h := by
  rw [markExpand, entry_onBucket, if_neg hk]

theorem entry_markExpand (t : LazyPrefixTable capPerLevel) (prefixBlocks : List ℤ)
    (newDepth : ℕ) (h : ℤ) : (t.markExpand prefixBlocks newDepth).entry (newDepth - 1) h =
      ((t.bucket (newDepth - 1)).put (rollingHash prefixBlocks (newDepth - 1))
        newDepth).data.get? h := by
  rw [markExpand, entry_onBucket, if_pos rfl]

theorem Chained.congr (h : t.Chained) (hentry : t'.entry = t.entry) : t'.Chained :=
  fun depth hash next hnext => h depth hash next (hentry ▸ hnext)

theorem Chained.markShrink (h : t.Chained) (prefixBlocks : List ℤ) (oldDepth : ℕ) :
    (t.markShrink prefixBlocks oldDepth).Chained := by
  intro depth hash next hnext
  rw [entry_markShrink] at hnext
  split at hnext
  · cases hnext
  · exact h depth hash next hnext

theorem Chained.markExpand (h : t.Chained) (prefixBlocks : List ℤ) (depth : ℕ) :
    (t.markExpand prefixBlocks (depth + 1)).Chained := by
  intro k hash next hnext
  by_cases hk : k = depth
  · subst hk
    rcases LRUCapBucket.get?_of_put ((entry_markExpand t prefixBlocks (k + 1) hash) ▸ hnext) with
      hnew | hold
    · exact hnew
    · exact h k hash next hold
  · rw [entry_markExpand_of_ne t prefixBlocks hash hk] at hnext
    exact h k hash next hnext

/-! ## Look-ups -/

/-- The loop walks along the marks, one depth at each turn. -/
theorem lookupLoop_spec {prefixBlocks : List ℤ} {d : ℕ} (turns depth : ℕ) (hchained : t.Chained)
    (hstop : StopsAt (t.Marked prefixBlocks) prefixBlocks.length d) (hpos : 1 ≤ depth)
    (hdepth : depth ≤ d ∨ depth = d + 1 ∧ d = prefixBlocks.length)
    (hturns : prefixBlocks.length + 2 ≤ depth + turns) :
    ∃ t', lookupLoop prefixBlocks turns depth t = .ok d t' ∧ t'.entry = t.entry := by
  induction turns generalizing t depth with
  | zero =>
    have hwithin := hstop.within
    omega
  | succ turns ih =>
    by_cases hle : depth ≤ prefixBlocks.length
    · have hd : depth ≤ d := hdepth.resolve_right (by omega)
      obtain ⟨hanswer, hentry⟩ := readBucket_spec t prefixBlocks depth
      simp only [lookupLoop, if_pos hle]
      rw [Py.bind_ok (Py.modifyGet_apply _ t), hanswer]
      cases hdecision : t.entry depth (rollingHash prefixBlocks depth) with
      | none =>
        -- an unmarked depth is the one where the marks stop
        have heq : depth = d := by
          by_contra hne
          exact hstop.reached depth hpos (lt_of_le_of_ne hd hne) hdecision
        exact ⟨_, by rw [heq]; rfl, hentry⟩
      | some next =>
        obtain rfl := hchained depth _ next hdecision
        have hmarked : t.Marked prefixBlocks depth := by
          rw [Marked, hdecision]
          exact Option.some_ne_none _
        have hnext : depth + 1 ≤ d ∨ depth + 1 = d + 1 ∧ d = prefixBlocks.length := by
          rcases Nat.lt_or_eq_of_le hd with hlt | rfl
          · exact Or.inl hlt
          · exact Or.inr ⟨rfl, hstop.stops.resolve_right (not_not_intro hmarked)⟩
        have hsame : (readBucket prefixBlocks depth t).2.Marked prefixBlocks =
            t.Marked prefixBlocks := by
          funext k
          rw [Marked, hentry, Marked]
        obtain ⟨t', hrun, ht'⟩ := ih (depth + 1) (hchained.congr hentry) (hsame ▸ hstop)
          (Nat.le_add_left _ _) hnext (by omega)
        exact ⟨t', hrun, ht'.trans hentry⟩
    · have hd : d = prefixBlocks.length := by
        have hwithin := hstop.within
        omega
      simp only [lookupLoop, if_neg hle]
      exact ⟨t, by rw [hd]; rfl, rfl⟩

theorem lookup_spec {prefixBlocks : List ℤ} {d : ℕ} (hchained : t.Chained)
    (hstop : StopsAt (t.Marked prefixBlocks) prefixBlocks.length d) :
    ∃ t', lookup prefixBlocks t = .ok d t' ∧ t'.entry = t.entry := by
  refine lookupLoop_spec _ 1 hchained hstop le_rfl ?_ (by omega)
  have hstarts := hstop.starts
  have hwithin := hstop.within
  omega

/-- A look-up returns, and every entry still leads to the next depth. -/
theorem lookup_returns (prefixBlocks : List ℤ) :
    Py.Returns (@Chained capPerLevel) (lookup prefixBlocks) := by
  intro t ht
  obtain ⟨d, hstop⟩ := exists_stopsAt (t.Marked prefixBlocks) prefixBlocks.length
  obtain ⟨t', hrun, hentry⟩ := lookup_spec ht hstop
  exact ⟨d, t', hrun, ht.congr hentry⟩

/-- A look-up in a chained table returns the depth where the marks stop. -/
theorem lookup_eq_ok_iff {prefixBlocks : List ℤ} {d : ℕ} (hchained : t.Chained) :
    (∃ t', lookup prefixBlocks t = .ok d t') ↔
      StopsAt (t.Marked prefixBlocks) prefixBlocks.length d := by
  constructor
  · rintro ⟨t', hrun⟩
    obtain ⟨d', hstop⟩ := exists_stopsAt (t.Marked prefixBlocks) prefixBlocks.length
    obtain ⟨t'', hrun', -⟩ := lookup_spec hchained hstop
    obtain ⟨rfl, -⟩ := EStateM.Result.ok.inj (hrun.symm.trans hrun')
    exact hstop
  · intro hstop
    obtain ⟨t', hrun, -⟩ := lookup_spec hchained hstop
    exact ⟨t', hrun⟩

theorem entry_of_lookup {prefixBlocks : List ℤ} {d : ℕ} (hchained : t.Chained)
    (h : lookup prefixBlocks t = .ok d t') : t'.entry = t.entry := by
  obtain ⟨t'', hrun, hentry⟩ := lookup_spec hchained ((lookup_eq_ok_iff hchained).mp ⟨t', h⟩)
  obtain ⟨-, rfl⟩ := EStateM.Result.ok.inj (h.symm.trans hrun)
  exact hentry

/-! ## Shrinking -/

theorem marked_markShrink_of_ne {prefixBlocks : List ℤ} {k d : ℕ} (hk : k ≠ d) :
    (t.markShrink prefixBlocks d).Marked prefixBlocks k ↔ t.Marked prefixBlocks k := by
  rw [Marked, entry_markShrink, if_neg (fun h => hk h.1), Marked]

theorem not_marked_markShrink (t : LazyPrefixTable capPerLevel) (prefixBlocks : List ℤ) (d : ℕ) :
    ¬ (t.markShrink prefixBlocks d).Marked prefixBlocks d := by
  rw [Marked, entry_markShrink, if_pos ⟨rfl, rfl⟩]
  exact not_not_intro rfl

/-- The marks on the way to a depth stay when the prefix is shrunk from it. -/
theorem stopsAt_markShrink {prefixBlocks : List ℤ} {limit d : ℕ} (hstarts : min 1 limit ≤ d)
    (hwithin : d ≤ limit) (hreached : ∀ k, 1 ≤ k → k < d → t.Marked prefixBlocks k) :
    StopsAt ((t.markShrink prefixBlocks d).Marked prefixBlocks) limit d where
  starts := hstarts
  within := hwithin
  reached k hk hlt := (marked_markShrink_of_ne hlt.ne).mpr (hreached k hk hlt)
  stops := Or.inr (not_marked_markShrink t prefixBlocks d)

theorem marked_markExpand_of_ne {prefixBlocks : List ℤ} {k d : ℕ} (hk : k ≠ d - 1) :
    (t.markExpand prefixBlocks d).Marked prefixBlocks k ↔ t.Marked prefixBlocks k := by
  rw [Marked, entry_markExpand_of_ne t prefixBlocks _ hk, Marked]

/-- An expansion marks the depth above, if the buckets can hold an entry at all. -/
theorem marked_markExpand (t : LazyPrefixTable capPerLevel) (prefixBlocks : List ℤ) (d : ℕ) :
    (t.markExpand prefixBlocks d).Marked prefixBlocks (d - 1) ↔ 0 < capPerLevel := by
  rw [Marked, entry_markExpand]
  cases capPerLevel with
  | zero => simp [LRUCapBucket.get?_put_of_capacity_zero]
  | succ n => simp [LRUCapBucket.get?_put_self]

/-- Where a look-up stops after an expansion that is shrunk again at once. -/
theorem stopsAt_markExpand_markShrink {prefixBlocks : List ℤ} {limit d : ℕ} (hd : 1 < d)
    (hstop : StopsAt (t.Marked prefixBlocks) limit (d - 1)) :
    StopsAt (((t.markExpand prefixBlocks d).markShrink prefixBlocks d).Marked prefixBlocks) limit
      (if limit < d ∨ capPerLevel = 0 then d - 1 else d) := by
  -- the marks above the old depth have not been touched
  have hbefore : ∀ k, 1 ≤ k → k < d - 1 → (t.markExpand prefixBlocks d).Marked prefixBlocks k :=
    fun k hk hlt => (marked_markExpand_of_ne hlt.ne).mpr (hstop.reached k hk hlt)
  have hstarts := hstop.starts
  split
  · next hvoid =>
    refine ⟨hstarts, hstop.within, fun k hk hlt => ?_, ?_⟩
    · exact (marked_markShrink_of_ne (by omega)).mpr (hbefore k hk hlt)
    · rcases hvoid with hend | hzero
      · exact Or.inl (by have hwithin := hstop.within; omega)
      · refine Or.inr (fun hmarked => ?_)
        have hpos := (marked_markExpand t prefixBlocks d).mp
          ((marked_markShrink_of_ne (by omega)).mp hmarked)
        exact hpos.ne' hzero
  · next hgrown =>
    refine stopsAt_markShrink (by omega) (by omega) (fun k hk hlt => ?_)
    by_cases hlast : k = d - 1
    · rw [hlast]
      exact (marked_markExpand t prefixBlocks d).mpr (by omega)
    · exact hbefore k hk (by omega)

end LazyPrefixTable

/-! ## Runs of the controller -/

namespace LazyExpansionController

variable {capPerLevel : ℕ} {c : LazyExpansionController capPerLevel}

/-- What holds of the table at every step. -/
def Chained (c : LazyExpansionController capPerLevel) : Prop := c.table.Chained

theorem onTable_returns {α : Type} {code : Py (LazyPrefixTable capPerLevel) α}
    (hcode : Py.Returns LazyPrefixTable.Chained code) : Py.Returns Chained (onTable code) :=
  hcode.zoom (fun _ hc => hc) (fun _ _ _ ht => ht)

theorem observe_returns (key : List ℤ) :
    Py.Returns (@Chained capPerLevel) (observe key) :=
  Py.Returns.modifyGet (fun _ hc => hc)

/-- A call returns, and every entry of the table still leads to the next depth. -/
theorem process_returns (prefixBlocks : List ℤ) :
    Py.Returns (@Chained capPerLevel) (process prefixBlocks) := by
  have hcount : Py.Returns (@Chained capPerLevel)
      (modify (fun c => { c with cnt := c.cnt + 1 })) := Py.Returns.modify (fun _ hc => hc)
  refine hcount.bind (fun _ => ?_)
  refine (onTable_returns (LazyPrefixTable.lookup_returns prefixBlocks)).bind (fun depth => ?_)
  refine (observe_returns _).bind (fun hot => ?_)
  have hexpand : Py.Returns (@Chained capPerLevel)
      (onTable (modify (·.markExpand prefixBlocks (depth + 1)))) :=
    onTable_returns (Py.Returns.modify (fun _ ht => ht.markExpand prefixBlocks depth))
  have hshrink : Py.Returns (@Chained capPerLevel)
      (onTable (modify (·.markShrink prefixBlocks depth))) :=
    onTable_returns (Py.Returns.modify (fun _ ht => ht.markShrink prefixBlocks depth))
  -- the second half, which follows an expansion or not
  have hrest := Py.Returns.ite (p := 1 < depth)
    ((observe_returns (prefixBlocks.take (depth - 1))).bind
      (fun parent => Py.Returns.ite (p := parent.2 < 2 / 100) hshrink (.pure ⟨⟩))) (.pure ⟨⟩)
  exact Py.Returns.ite (hexpand.bind (fun _ => hrest)) hrest

/-- Every table that calls of `process` reach is chained. -/
theorem chained_of_run {detector : HotPrefixDetector (List ℤ)} {prompts : List (List ℤ)}
    (hrun : prompts.forM process (init detector) = .ok ⟨⟩ c) : c.table.Chained := by
  have hreturns : Py.Returns (@Chained capPerLevel) (prompts.forM process) :=
    Py.Returns.forM (fun prompt _ => process_returns prompt)
  obtain ⟨_, c', hrun', hc'⟩ := hreturns (init detector) LazyPrefixTable.chained_init
  obtain ⟨-, rfl⟩ := EStateM.Result.ok.inj (hrun.symm.trans hrun')
  exact hc'

/-! ## Shrinking from the depth of a prefix -/

/-- In every table of a run, shrinking a prefix from its depth leaves it at this depth. The
depth from before an expansion comes back only where the expansion had no effect: at the end
of the prompt, or with buckets that hold nothing. -/
theorem lookup_markShrink {detector : HotPrefixDetector (List ℤ)} {prompts : List (List ℤ)}
    (hrun : prompts.forM process (init detector) = .ok ⟨⟩ c) (prefixBlocks : List ℤ) {d : ℕ}
    (hd : 1 < d) :
    (∀ t, LazyPrefixTable.lookup prefixBlocks c.table = .ok d t →
      (∃ t', LazyPrefixTable.lookup prefixBlocks (t.markShrink prefixBlocks d) = .ok d t') ∧
      ¬ ∃ t', LazyPrefixTable.lookup prefixBlocks (t.markShrink prefixBlocks d) =
        .ok (d - 1) t') ∧
    (∀ t, LazyPrefixTable.lookup prefixBlocks c.table = .ok (d - 1) t →
      ((∃ t', LazyPrefixTable.lookup prefixBlocks
          ((t.markExpand prefixBlocks d).markShrink prefixBlocks d) = .ok (d - 1) t') ↔
        prefixBlocks.length < d ∨ capPerLevel = 0)) := by
  have hc := chained_of_run hrun
  -- a look-up leaves a chained table with the same marks
  have hafter : ∀ {depth t}, LazyPrefixTable.lookup prefixBlocks c.table = .ok depth t →
      t.Chained ∧ StopsAt (t.Marked prefixBlocks) prefixBlocks.length depth := by
    intro depth t hlookup
    have hentry := LazyPrefixTable.entry_of_lookup hc hlookup
    have hsame : t.Marked prefixBlocks = c.table.Marked prefixBlocks := by
      funext k
      rw [LazyPrefixTable.Marked, hentry, LazyPrefixTable.Marked]
    exact ⟨hc.congr hentry, hsame ▸ (LazyPrefixTable.lookup_eq_ok_iff hc).mp ⟨t, hlookup⟩⟩
  constructor
  · intro t hlookup
    obtain ⟨ht, hstop⟩ := hafter hlookup
    have hstays := LazyPrefixTable.stopsAt_markShrink hstop.starts hstop.within hstop.reached
    refine ⟨(LazyPrefixTable.lookup_eq_ok_iff (ht.markShrink _ _)).mpr hstays, fun hundone => ?_⟩
    have hsame := hstays.unique
      ((LazyPrefixTable.lookup_eq_ok_iff (ht.markShrink _ _)).mp hundone)
    omega
  · intro t hlookup
    obtain ⟨ht, hstop⟩ := hafter hlookup
    have hexpanded : (t.markExpand prefixBlocks d).Chained := by
      obtain ⟨e, rfl⟩ := Nat.exists_eq_add_of_lt hd
      exact ht.markExpand prefixBlocks (1 + e)
    have hstays := LazyPrefixTable.stopsAt_markExpand_markShrink hd hstop
    rw [LazyPrefixTable.lookup_eq_ok_iff (hexpanded.markShrink _ _)]
    constructor
    · intro hundone
      by_contra hgrown
      rw [if_neg hgrown] at hstays
      have hsame := hstays.unique hundone
      omega
    · intro hvoid
      rwa [if_pos hvoid] at hstays

/-- A prompt seen 21 times, which a detector with the default parameters finds hot. -/
def hotPrompt : List ℤ := [1, 2, 3]

def hotRun : Py (LazyExpansionController 10000) PUnit :=
  (List.replicate 21 hotPrompt).forM process

def hotStart : LazyExpansionController 10000 := init (.init 200 (612 / 10000) 20)

/-- The prompt was expanded to depth 2, and a shrink from depth 2 does not bring it back. -/
theorem hotPrompt_not_shrunk :
    ∃ c t t', hotRun hotStart = .ok ⟨⟩ c ∧
      LazyPrefixTable.lookup hotPrompt c.table = .ok 2 t ∧
      LazyPrefixTable.lookup hotPrompt (t.markShrink hotPrompt 2) = .ok 2 t' := by
  refine ⟨Py.finalState (hotRun hotStart), _, _, Py.eq_ok_of_returned (by decide +kernel),
    Py.eq_ok_of_returned (by decide +kernel), Py.eq_ok_of_returned (by decide +kernel)⟩

/-- The table that the run reaches stays at depth 2 when the prompt is shrunk from it, and goes to
depth 3 when the prompt is expanded to it and shrunk again. -/
theorem lookup_markShrink_hotPrompt :
    ∃ c t, hotRun hotStart = .ok ⟨⟩ c ∧ LazyPrefixTable.lookup hotPrompt c.table = .ok 2 t ∧
      (¬ ∃ t', LazyPrefixTable.lookup hotPrompt (t.markShrink hotPrompt 2) = .ok 1 t') ∧
      ¬ ∃ t', LazyPrefixTable.lookup hotPrompt
        ((t.markExpand hotPrompt 3).markShrink hotPrompt 3) = .ok 2 t' := by
  have hrun : hotRun hotStart = .ok ⟨⟩ (Py.finalState (hotRun hotStart)) :=
    Py.eq_ok_of_returned (by decide +kernel)
  have hlookup : LazyPrefixTable.lookup hotPrompt (Py.finalState (hotRun hotStart)).table =
      .ok 2 (Py.finalState
        (LazyPrefixTable.lookup hotPrompt (Py.finalState (hotRun hotStart)).table)) :=
    Py.eq_ok_of_returned (by decide +kernel)
  refine ⟨_, _, hrun, hlookup, ((lookup_markShrink hrun hotPrompt (by decide)).1 _ hlookup).2, ?_⟩
  rw [(lookup_markShrink hrun hotPrompt (d := 3) (by decide)).2 _ hlookup]
  decide

end LazyExpansionController
end DualMap.Scheduler
