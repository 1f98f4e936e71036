import DualMap.Foundation.OrderedDict
import DualMap.Foundation.PyEffect
import Mathlib.Algebra.Field.Rat

/-!
# Lazy Prefix Expansion

How many leading blocks of a prompt are hashed for the double-hash choice. A table with one
bucket for each depth is followed from depth 1 until a bucket has no entry for the prefix.
A detector counts the prefixes of the last observations, and the controller extends the
chain of a hot prefix and shrinks the chain of one whose parent has gone cold.

Ratios are exact rationals, and locks are left out: one call runs at a time.
-/

namespace DualMap.Scheduler

/-! ## Buckets -/

/-- `LRUCapBucket`: a dictionary that drops its least recently used entry when it is full. -/
structure LRUCapBucket (κ ν : Type) (capacity : ℕ) where
  data : OrderedDict κ ν
  bounded : data.entries.length ≤ capacity

namespace LRUCapBucket

variable {κ ν : Type} {capacity : ℕ} [DecidableEq κ]

/-- `LRUCapBucket.__init__`. -/
def init : LRUCapBucket κ ν capacity := ⟨.empty, Nat.zero_le _⟩

/-- `LRUCapBucket.get`. -/
def get (b : LRUCapBucket κ ν capacity) (key : κ) : Option ν × LRUCapBucket κ ν capacity :=
  (b.data.get? key,
    ⟨b.data.moveToEnd key, by
      rw [(b.data.entries_moveToEnd_perm key).length_eq]
      exact b.bounded⟩)

/-- The entry of a key becomes the newest one. -/
def store (data : OrderedDict κ ν) (key : κ) (value : ν) : OrderedDict κ ν :=
  (data.moveToEnd key).set key value

/-- `popitem(last=False)` of a dictionary that is not empty. -/
def evictOldest (data : OrderedDict κ ν) : OrderedDict κ ν :=
  match data.popFirst with
  | some (_, rest) => rest
  | none => data

omit [DecidableEq κ] in
theorem entries_evictOldest (data : OrderedDict κ ν) :
    (evictOldest data).entries = data.entries.tail := by
  obtain ⟨es, h⟩ := data
  cases es with
  | nil => rfl
  | cons e es => rfl

theorem length_store_le (data : OrderedDict κ ν) (key : κ) (value : ν) :
    (store data key value).entries.length ≤ data.entries.length + 1 := by
  have hmoved := (data.entries_moveToEnd_perm key).length_eq
  unfold store OrderedDict.set
  split
  · simp only [List.length_map]
    omega
  · simp only [OrderedDict.append, List.length_append, List.length_singleton]
    omega

/-- `LRUCapBucket.put`. -/
def put (b : LRUCapBucket κ ν capacity) (key : κ) (value : ν) : LRUCapBucket κ ν capacity :=
  let data := store b.data key value
  if h : capacity < data.entries.length then
    ⟨evictOldest data, by
      have hle : data.entries.length ≤ b.data.entries.length + 1 := length_store_le ..
      rw [entries_evictOldest, List.length_tail]
      exact Nat.sub_le_of_le_add (hle.trans (Nat.add_le_add_right b.bounded 1))⟩
  else ⟨data, not_lt.mp h⟩

/-- `LRUCapBucket.delete`. -/
def delete (b : LRUCapBucket κ ν capacity) (key : κ) : LRUCapBucket κ ν capacity :=
  ⟨b.data.erase key, (List.length_filter_le _ _).trans b.bounded⟩

end LRUCapBucket

/-! ## The table -/

/-- `LazyPrefixTable`: a bucket for each depth, whose entries are the next depths to look at,
and how often each bucket was read. A bucket is counted from the moment it exists. -/
structure LazyPrefixTable (capPerLevel : ℕ) where
  levelBuckets : OrderedDict ℕ (LRUCapBucket ℤ ℕ capPerLevel)
  stats : OrderedDict ℕ ℕ
  counted : ∀ depth ∈ levelBuckets.keys, depth ∈ stats.keys

namespace LazyPrefixTable

variable {capPerLevel : ℕ}

/-- `LazyPrefixTable.__init__`. -/
def init : LazyPrefixTable capPerLevel := ⟨.empty, .empty, by simp⟩

def hashBase : ℤ := 1315423911

/-- `rolling_hash`: a polynomial hash of the first blocks, kept to 64 bits. -/
def rollingHash (prefixBlocks : List ℤ) (depth : ℕ) : ℤ :=
  (prefixBlocks.take depth).foldl (fun h b => (h * hashBase + b) % 2 ^ 64) 0

/-- `_get_bucket`, and what is then done to the bucket. -/
def onBucket {α : Type} (t : LazyPrefixTable capPerLevel) (depth : ℕ)
    (f : LRUCapBucket ℤ ℕ capPerLevel → α × LRUCapBucket ℤ ℕ capPerLevel) :
    α × LazyPrefixTable capPerLevel :=
  match h : t.levelBuckets.get? depth with
  | some bucket =>
    ((f bucket).1,
      { t with
        levelBuckets := t.levelBuckets.set depth (f bucket).2
        counted := by
          intro k hk
          rcases OrderedDict.mem_keys_set.mp hk with rfl | hold
          · exact t.counted k (OrderedDict.mem_keys_iff.mpr ⟨bucket, h⟩)
          · exact t.counted k hold })
  | none =>
    ((f .init).1,
      { levelBuckets := t.levelBuckets.set depth (f .init).2
        stats := t.stats.set depth 0
        counted := by
          intro k hk
          rcases OrderedDict.mem_keys_set.mp hk with rfl | hold
          · exact OrderedDict.mem_keys_set.mpr (Or.inl rfl)
          · exact OrderedDict.mem_keys_set.mpr (Or.inr (t.counted k hold)) })

/-- `self.stats[depth] += 1` where the bucket of the depth exists. -/
def countRead (t : LazyPrefixTable capPerLevel) (depth : ℕ) : LazyPrefixTable capPerLevel :=
  { t with
    stats := t.stats.add depth 1
    counted := fun k hk => OrderedDict.mem_keys_add.mpr (Or.inr (t.counted k hk)) }

/-- The body of the loop of `lookup`: the decision of the bucket of this depth. -/
def readBucket (prefixBlocks : List ℤ) (depth : ℕ) (t : LazyPrefixTable capPerLevel) :
    Option ℕ × LazyPrefixTable capPerLevel :=
  let (decision, t) := t.onBucket depth (fun bucket => bucket.get (rollingHash prefixBlocks depth))
  (decision, t.countRead depth)

/-- The loop of `lookup`. Reading buckets does not change what they answer, so a loop that
visits more depths than there are repeats one, and never ends. -/
def lookupLoop (prefixBlocks : List ℤ) : ℕ → ℕ → Py (LazyPrefixTable capPerLevel) ℕ
  | 0, _ => throw .hang
  | turns + 1, depth => do
    if depth ≤ prefixBlocks.length then
      match ← modifyGet (readBucket prefixBlocks depth) with
      | none => return depth
      | some next => lookupLoop prefixBlocks turns next
    else
      return prefixBlocks.length

/-- `LazyPrefixTable.lookup`. -/
def lookup (prefixBlocks : List ℤ) : Py (LazyPrefixTable capPerLevel) ℕ :=
  lookupLoop prefixBlocks (prefixBlocks.length + 1) 1

/-- `LazyPrefixTable.mark_expand`. -/
def markExpand (t : LazyPrefixTable capPerLevel) (prefixBlocks : List ℤ) (newDepth : ℕ) :
    LazyPrefixTable capPerLevel :=
  (t.onBucket (newDepth - 1) (fun bucket =>
    ((), bucket.put (rollingHash prefixBlocks (newDepth - 1)) newDepth))).2

/-- `LazyPrefixTable.mark_shrink`. -/
def markShrink (t : LazyPrefixTable capPerLevel) (prefixBlocks : List ℤ) (oldDepth : ℕ) :
    LazyPrefixTable capPerLevel :=
  (t.onBucket oldDepth (fun bucket => ((), bucket.delete (rollingHash prefixBlocks oldDepth)))).2

end LazyPrefixTable

/-! ## The detector -/

/-- `HotPrefixDetector`: the last observed prefixes and how often each of them occurs. -/
structure HotPrefixDetector (α : Type) where
  windowSize : ℤ
  hotRatio : ℚ
  minSamples : ℤ
  window : List α
  counts : OrderedDict α ℤ

namespace HotPrefixDetector

variable {α : Type} [DecidableEq α]

/-- `HotPrefixDetector.__init__`. -/
def init (windowSize : ℤ) (hotRatio : ℚ) (minSamples : ℤ) : HotPrefixDetector α :=
  ⟨windowSize, hotRatio, minSamples, [], .empty⟩

/-- `self.counts[old] -= 1`, and the key goes when nothing is left of it. -/
def countDown (counts : OrderedDict α ℤ) (old : α) : OrderedDict α ℤ :=
  let counts := counts.add old (-1)
  if (counts.get? old).getD 0 ≤ 0 then counts.erase old else counts

/-- Append a prefix to the window and count it. -/
def append (d : HotPrefixDetector α) (key : α) : HotPrefixDetector α :=
  { d with
    window := d.window ++ [key]
    counts := d.counts.add key 1 }

/-- The oldest prefix leaves a window that is longer than it should be. -/
def popOldest (d : HotPrefixDetector α) : HotPrefixDetector α :=
  if d.windowSize < d.window.length then
    match d.window with
    | old :: window => { d with window, counts := countDown d.counts old }
    -- `observe` has just appended a prefix
    | [] => d
  else d

/-- Whether a prefix is hot, and its share of the window. -/
def heat (d : HotPrefixDetector α) (key : α) : Bool × ℚ :=
  let total := d.window.length
  if total < d.minSamples then (false, 0)
  else
    let cnt := (d.counts.get? key).getD 0
    let ratio : ℚ := if 20 < total then cnt / total else 0
    (decide (d.hotRatio ≤ ratio), ratio)

/-- `HotPrefixDetector.observe`. -/
def observe (d : HotPrefixDetector α) (key : α) : (Bool × ℚ) × HotPrefixDetector α :=
  let d := (d.append key).popOldest
  (d.heat key, d)

/-- `HotPrefixDetector.set_params`. -/
def setParams (d : HotPrefixDetector α) (windowSize : Option ℤ) (hotRatio : Option ℚ)
    (minSamples : Option ℤ) : HotPrefixDetector α :=
  { d with
    windowSize := windowSize.getD d.windowSize
    hotRatio := hotRatio.getD d.hotRatio
    minSamples := minSamples.getD d.minSamples }

end HotPrefixDetector

/-! ## The controller -/

/-- `LazyExpansionController`. -/
structure LazyExpansionController (capPerLevel : ℕ) where
  table : LazyPrefixTable capPerLevel
  detector : HotPrefixDetector (List ℤ)
  cnt : ℕ

namespace LazyExpansionController

variable {capPerLevel : ℕ}

/-- `LazyExpansionController.__init__` on a table that is still empty. -/
def init (detector : HotPrefixDetector (List ℤ)) : LazyExpansionController capPerLevel :=
  ⟨.init, detector, 0⟩

/-- Run code on the table. -/
def onTable {α : Type} (code : Py (LazyPrefixTable capPerLevel) α) :
    Py (LazyExpansionController capPerLevel) α :=
  Py.zoom table (fun c table => { c with table }) code

/-- Observe a prefix with the detector. -/
def observe (key : List ℤ) : Py (LazyExpansionController capPerLevel) (Bool × ℚ) :=
  modifyGet (fun c => ((c.detector.observe key).1,
    { c with detector := (c.detector.observe key).2 }))

/-- `LazyExpansionController.process`. -/
def process (prefixBlocks : List ℤ) : Py (LazyExpansionController capPerLevel) PUnit := do
  modify (fun c => { c with cnt := c.cnt + 1 })
  let depth ← onTable (LazyPrefixTable.lookup prefixBlocks)
  let (isHot, _) ← observe (prefixBlocks.take depth)
  if isHot ∧ depth < prefixBlocks.length then
    onTable (modify (·.markExpand prefixBlocks (depth + 1)))
  if 1 < depth then
    let (_, pRatio) ← observe (prefixBlocks.take (depth - 1))
    if pRatio < 2 / 100 then
      onTable (modify (·.markShrink prefixBlocks depth))

end LazyExpansionController

end DualMap.Scheduler
