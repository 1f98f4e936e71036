import DualMap.Scheduler.PrefixExpansion

/-!
# Look-ups in a Table

The table by itself: its three methods are called in any order, for any prompts and any depths
from 2 on. An expansion stores the next depth in the bucket of the depth above, whatever else
has the same hash, and an eviction or a shrink only takes an entry away. So every table stays
chained, and a look-up walks along the marks of its prompt, one depth at a time.
-/

namespace DualMap.Scheduler.LazyPrefixTable

variable {capPerLevel : ℕ} {t t' : LazyPrefixTable capPerLevel}

/-! ## Runs of the table -/

/-- A call of a method of the table. -/
inductive Call where
  | lookup (prefixBlocks : List ℤ)
  | markExpand (prefixBlocks : List ℤ) (newDepth : ℕ)
  | markShrink (prefixBlocks : List ℤ) (oldDepth : ℕ)

namespace Call

/-- Prefixes are expanded to depths from 2 on, and shrunk from such depths. -/
def FromTwo : Call → Prop
  | .lookup _ => True
  | .markExpand _ newDepth => 2 ≤ newDepth
  | .markShrink _ oldDepth => 2 ≤ oldDepth

instance : DecidablePred FromTwo
  | .lookup _ => inferInstanceAs (Decidable True)
  | .markExpand _ newDepth => inferInstanceAs (Decidable (2 ≤ newDepth))
  | .markShrink _ oldDepth => inferInstanceAs (Decidable (2 ≤ oldDepth))

def run : Call → Py (LazyPrefixTable capPerLevel) PUnit
  | .lookup prefixBlocks => do
    let _ ← LazyPrefixTable.lookup prefixBlocks
  | .markExpand prefixBlocks newDepth => modify (·.markExpand prefixBlocks newDepth)
  | .markShrink prefixBlocks oldDepth => modify (·.markShrink prefixBlocks oldDepth)

/-- A call returns, and every entry still leads to the next depth. -/
theorem run_returns {call : Call} (hcall : call.FromTwo) :
    Py.Returns (@Chained capPerLevel) call.run := by
  cases call with
  | lookup prefixBlocks =>
    exact (lookup_returns prefixBlocks).bind (fun _ => Py.Returns.pure _)
  | markExpand prefixBlocks newDepth =>
    refine Py.Returns.modify (fun t ht => ?_)
    obtain ⟨depth, rfl⟩ := Nat.exists_eq_add_of_le hcall
    rw [Nat.add_comm 2 depth]
    exact ht.markExpand prefixBlocks (depth + 1)
  | markShrink prefixBlocks oldDepth =>
    exact Py.Returns.modify (fun t ht => ht.markShrink prefixBlocks oldDepth)

end Call

/-! ## What a look-up returns -/

/-- A depth where the marks of a prompt stop, in the words of the buckets. -/
structure EndsChain (t : LazyPrefixTable capPerLevel) (prefixBlocks : List ℤ) (depth : ℕ) :
    Prop where
  starts : 1 ≤ depth
  within : depth ≤ prefixBlocks.length
  unbroken : ∀ i, 1 ≤ i → i < depth →
    (t.bucket i).data.get? (rollingHash prefixBlocks i) ≠ none
  ends : depth ≠ prefixBlocks.length →
    (t.bucket depth).data.get? (rollingHash prefixBlocks depth) = none

theorem StopsAt.endsChain {prefixBlocks : List ℤ} {depth : ℕ} (hne : prefixBlocks ≠ [])
    (h : StopsAt (t.Marked prefixBlocks) prefixBlocks.length depth) :
    t.EndsChain prefixBlocks depth where
  starts := by
    have hlength := List.length_pos_of_ne_nil hne
    have hstarts := h.starts
    omega
  within := h.within
  unbroken := h.reached
  ends hlast := not_not.mp (h.stops.resolve_left hlast)

/-- The chain is one of entries, so it stays where no entry changes. -/
theorem EndsChain.congr {prefixBlocks : List ℤ} {depth : ℕ} (h : t.EndsChain prefixBlocks depth)
    (hentry : t'.entry = t.entry) : t'.EndsChain prefixBlocks depth where
  starts := h.starts
  within := h.within
  unbroken i hi hlt := by
    have hsame := congrFun (congrFun hentry i) (rollingHash prefixBlocks i)
    exact fun hnone => h.unbroken i hi hlt (hsame.symm.trans hnone)
  ends hlast := by
    have hsame := congrFun (congrFun hentry depth) (rollingHash prefixBlocks depth)
    exact hsame.trans (h.ends hlast)

/-- In every run each call returns and no bucket is over its capacity. A look-up of a prompt
then returns the depth where the unbroken chain of its entries ends, before it as after it. -/
theorem lookup_endsChain {calls : List Call} (hcalls : ∀ call ∈ calls, call.FromTwo) :
    ∃ t : LazyPrefixTable capPerLevel, calls.forM Call.run init = .ok ⟨⟩ t ∧
      (∀ depth, (t.bucket depth).data.entries.length ≤ capPerLevel) ∧
      ∀ prefixBlocks, prefixBlocks ≠ [] → ∃ depth t',
        lookup prefixBlocks t = .ok depth t' ∧ t.EndsChain prefixBlocks depth ∧
          t'.EndsChain prefixBlocks depth := by
  obtain ⟨_, t, hrun, hchained⟩ :=
    Py.Returns.forM (fun call hcall => Call.run_returns (hcalls call hcall)) init chained_init
  refine ⟨t, hrun, fun depth => (t.bucket depth).bounded, fun prefixBlocks hne => ?_⟩
  obtain ⟨depth, hstop⟩ := exists_stopsAt (t.Marked prefixBlocks) prefixBlocks.length
  obtain ⟨t', hlookup, hentry⟩ := lookup_spec hchained hstop
  have hchain := StopsAt.endsChain hne hstop
  exact ⟨depth, t', hlookup, hchain, hchain.congr hentry⟩

/-- With room for one entry in each bucket, the second prompt evicts the entry of the first. -/
def evictingCalls : List Call :=
  [.markExpand [1, 2, 3] 2, .lookup [1, 2, 3], .markExpand [4, 5] 2, .markShrink [4, 5] 2]

theorem lookup_endsChain_evicted :
    ∃ t : LazyPrefixTable 1, evictingCalls.forM Call.run init = .ok ⟨⟩ t ∧
      ∃ depth t', lookup [4, 5] t = .ok depth t' ∧ t.EndsChain [4, 5] depth ∧
        t'.EndsChain [4, 5] depth := by
  have hcalls : ∀ call ∈ evictingCalls, call.FromTwo := by decide
  obtain ⟨t, hrun, -, hlookup⟩ := @lookup_endsChain 1 evictingCalls hcalls
  exact ⟨t, hrun, hlookup [4, 5] (by decide)⟩

end DualMap.Scheduler.LazyPrefixTable
