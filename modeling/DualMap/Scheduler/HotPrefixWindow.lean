import DualMap.Scheduler.LazyPrefixTable
import Mathlib.Data.List.Count
import Mathlib.Data.List.Infix
import Mathlib.Tactic.Ring

/-!
# The Window of the Hot-Prefix Detector

Calls of `observe` and `set_params` in any order. The window is always the most recent part
of what was observed, and the counts are always those of the window. Its length is another
matter: one call of `observe` removes at most one prefix, so after `set_params` has made the
window smaller than what it holds, it stays too long.

## Main Results

- `Counts.append`, `Counts.tail`: counting along with a queue
- `window_runOps`, `counts_runOps`: what holds after any sequence of calls
- `observe_exact_iff`: when the window is exact after `observe`
-/

namespace DualMap.Scheduler

namespace HotPrefixDetector

variable {α : Type} [DecidableEq α]

/-! ## Counting a queue -/

/-- The counts are those of the members of the window, and of nothing else. -/
def Counts (counts : OrderedDict α ℤ) (window : List α) : Prop :=
  ∀ key, counts.get? key = if key ∈ window then some (window.count key : ℤ) else none

theorem Counts.getD {counts : OrderedDict α ℤ} {window : List α} (h : Counts counts window)
    (key : α) : (counts.get? key).getD 0 = window.count key := by
  rw [h key]
  split
  · rfl
  · next hnot => simp [List.count_eq_zero_of_not_mem hnot]

theorem Counts.append {counts : OrderedDict α ℤ} {window : List α} (h : Counts counts window)
    (key : α) : Counts (counts.add key 1) (window ++ [key]) := by
  intro other
  rw [OrderedDict.add, OrderedDict.get?_set, h.getD key, List.count_append]
  by_cases hother : other = key
  · subst hother
    simp
  · rw [if_neg hother, h other]
    have hcount : [key].count other = 0 :=
      List.count_eq_zero_of_not_mem (by simpa using hother)
    simp [hother, hcount]

theorem Counts.tail {counts : OrderedDict α ℤ} {window : List α} {old : α}
    (h : Counts counts (old :: window)) : Counts (countDown counts old) window := by
  intro other
  -- what is left of the oldest prefix
  have hleft : (counts.get? old).getD 0 + -1 = window.count old := by
    rw [h.getD old, List.count_cons_self]
    push_cast
    ring
  have hget : (counts.add old (-1)).get? other =
      if other = old then some (window.count old : ℤ) else counts.get? other := by
    rw [OrderedDict.add, OrderedDict.get?_set, hleft]
  have hold : ((counts.add old (-1)).get? old).getD 0 = window.count old := by
    rw [OrderedDict.add, OrderedDict.get?_set_self, hleft]
    rfl
  have hothers : other ≠ old → counts.get? other =
      if other ∈ window then some (window.count other : ℤ) else none := by
    intro hne
    rw [h other, List.count_cons_of_ne (Ne.symm hne)]
    simp [hne]
  unfold countDown
  simp only [hold]
  split
  · next hgone =>
    have hnot : old ∉ window := by
      intro hmem
      have hpos := List.count_pos_iff.mpr hmem
      omega
    by_cases hne : other = old
    · rw [hne, OrderedDict.get?_erase_self, if_neg hnot]
    · rw [OrderedDict.get?_erase_of_ne _ hne, hget, if_neg hne, hothers hne]
  · next hstays =>
    have hmem : old ∈ window := List.count_pos_iff.mp (by omega)
    rw [hget]
    by_cases hne : other = old
    · rw [if_pos hne, hne, if_pos hmem]
    · rw [if_neg hne, hothers hne]

/-! ## One observation -/

/-- The window after a prefix is appended and the oldest one leaves, if there are too many. -/
theorem window_observe (d : HotPrefixDetector α) (key : α) :
    (d.observe key).2.window =
      if d.windowSize < d.window.length + 1 then (d.window ++ [key]).tail
        else d.window ++ [key] := by
  simp only [observe, popOldest, append, List.length_append, List.length_singleton,
    Nat.cast_add, Nat.cast_one]
  split
  · cases d.window with
    | nil => rfl
    | cons old window => rfl
  · rfl

theorem windowSize_popOldest (d : HotPrefixDetector α) :
    d.popOldest.windowSize = d.windowSize := by
  unfold popOldest
  split
  · split
    · rfl
    · rfl
  · rfl

theorem windowSize_observe (d : HotPrefixDetector α) (key : α) :
    (d.observe key).2.windowSize = d.windowSize := windowSize_popOldest (d.append key)

theorem counts_observe {d : HotPrefixDetector α} (h : Counts d.counts d.window) (key : α) :
    Counts (d.observe key).2.counts (d.observe key).2.window := by
  have happend : Counts (d.append key).counts (d.append key).window := h.append key
  show Counts (d.append key).popOldest.counts (d.append key).popOldest.window
  unfold popOldest
  split
  · split
    · next old window heq =>
      rw [heq] at happend
      exact happend.tail
    · exact happend
  · exact happend

/-- With enough observations, the ratio is the share of the prefix in the window. -/
theorem ratio_observe {d : HotPrefixDetector α} (h : Counts d.counts d.window) (key : α)
    (henough : max 20 (d.observe key).2.minSamples < (d.observe key).2.window.length) :
    (d.observe key).1.2 =
      ((d.observe key).2.window.count key : ℚ) / (d.observe key).2.window.length := by
  have hcount := (counts_observe h key).getD key
  obtain ⟨htwenty, hsamples⟩ := max_lt_iff.mp henough
  show ((d.observe key).2.heat key).2 = _
  unfold heat
  rw [if_neg (not_lt.mpr hsamples.le), hcount]
  simp only [if_pos (show 20 < (d.observe key).2.window.length by exact_mod_cast htwenty),
    Int.cast_natCast]

/-! ## Any sequence of calls -/

/-- A call on the detector. -/
inductive Op (α : Type) where
  | observe (key : α)
  | setParams (windowSize : Option ℤ) (hotRatio : Option ℚ) (minSamples : Option ℤ)

def Op.run (d : HotPrefixDetector α) : Op α → HotPrefixDetector α
  | .observe key => (d.observe key).2
  | .setParams windowSize hotRatio minSamples => d.setParams windowSize hotRatio minSamples

/-- The detector after a sequence of calls. -/
def runOps (d : HotPrefixDetector α) (ops : List (Op α)) : HotPrefixDetector α := ops.foldl Op.run d

/-- The prefixes that a call adds to those observed before. -/
def Op.observed : Op α → List α
  | .observe key => [key]
  | .setParams _ _ _ => []

/-- All prefixes observed, from the oldest to the newest. -/
def history (ops : List (Op α)) : List α := ops.flatMap Op.observed

variable (windowSize : ℤ) (hotRatio : ℚ) (minSamples : ℤ)

theorem counts_runOps (ops : List (Op α)) :
    Counts ((init windowSize hotRatio minSamples).runOps ops).counts
      ((init windowSize hotRatio minSamples).runOps ops).window := by
  -- calls are added at the end of the sequence
  induction ops using List.reverseRecOn with
  | nil => exact fun _ => rfl
  | append_singleton ops op ih =>
    rw [runOps, List.foldl_append]
    cases op with
    | observe key => exact counts_observe ih key
    | setParams w r m => exact ih

/-- The window is the most recent part of the history. -/
theorem window_runOps (ops : List (Op α)) :
    ((init windowSize hotRatio minSamples).runOps ops).window <:+ history ops := by
  induction ops using List.reverseRecOn with
  | nil => exact List.suffix_rfl
  | append_singleton ops op ih =>
    rw [runOps, List.foldl_append, history, List.flatMap_append]
    -- new parameters keep the window; an observation is added at the end, and the oldest may go
    cases op with
    | setParams w r m =>
      rw [List.flatMap_singleton, Op.observed, List.append_nil]
      exact ih
    | observe key =>
      have hgrown : ((init windowSize hotRatio minSamples).runOps ops).window ++ [key] <:+
          history ops ++ [key] := by
        obtain ⟨before, hbefore⟩ := ih
        exact ⟨before, by rw [← List.append_assoc, hbefore]⟩
      show (((init windowSize hotRatio minSamples).runOps ops).observe key).2.window <:+ _
      rw [window_observe]
      split
      · exact (List.tail_suffix _).trans hgrown
      · exact hgrown

/-- After an observation of `key` the window holds the last observations with `key` as the newest
one, no more of them than it may and no fewer than it could keep of those it held before. The
counts are its counts, and with enough observations the reading is the share of the prefix. -/
structure Exact (d : HotPrefixDetector α) (before history : List α) (key : α) (ratio : ℚ) :
    Prop where
  recent : d.window <:+ history
  newest : 0 < d.windowSize → d.window.getLast? = some key
  bounded : d.window.length ≤ d.windowSize
  kept : (d.window.length : ℤ) = min ((before.length : ℤ) + 1) d.windowSize
  counted : Counts d.counts d.window
  share : max 20 d.minSamples < d.window.length →
    ratio = (d.window.count key : ℚ) / d.window.length

/-- The observation is the last one in the window, if the window may hold any. -/
theorem getLast?_window_observe (d : HotPrefixDetector α) (key : α) (hpos : 0 < d.windowSize) :
    (d.observe key).2.window.getLast? = some key := by
  rw [window_observe]
  split
  · next hfull =>
    -- the prefix that goes is an older one
    cases hwindow : d.window with
    | nil =>
      rw [hwindow, List.length_nil] at hfull
      push_cast at hfull
      omega
    | cons old window => exact List.getLast?_concat
  · exact List.getLast?_concat

/-- The window may be exact after an observation only if it was not too long before it. -/
theorem length_observe_le_iff (d : HotPrefixDetector α) (key : α) :
    (d.observe key).2.window.length ≤ (d.observe key).2.windowSize ↔
      d.window.length ≤ d.windowSize := by
  rw [windowSize_observe, window_observe]
  split
  · next hfull =>
    -- one prefix comes and one goes
    rw [List.length_tail, List.length_append, List.length_singleton, Nat.add_sub_cancel]
  · next hroom =>
    rw [List.length_append, List.length_singleton]
    push_cast
    omega

/-- A window that was not too long drops a prefix only where it has to. -/
theorem length_window_observe {d : HotPrefixDetector α} (hlength : d.window.length ≤ d.windowSize)
    (key : α) : ((d.observe key).2.window.length : ℤ) =
      min ((d.window.length : ℤ) + 1) d.windowSize := by
  rw [window_observe]
  split
  · next hfull =>
    rw [List.length_tail, List.length_append, List.length_singleton, Nat.add_sub_cancel]
    omega
  · next hroom =>
    rw [List.length_append, List.length_singleton, min_eq_left (not_lt.mp hroom)]
    push_cast
    rfl

/-- After any calls, `observe` leaves an exact window if and only if the window it found was
no longer than the window size, which `set_params` may have lowered. -/
theorem observe_exact_iff (ops : List (Op α)) (key : α) :
    Exact (((init windowSize hotRatio minSamples).runOps ops).observe key).2
        ((init windowSize hotRatio minSamples).runOps ops).window (history ops ++ [key]) key
        (((init windowSize hotRatio minSamples).runOps ops).observe key).1.2 ↔
      ((init windowSize hotRatio minSamples).runOps ops).window.length ≤
        ((init windowSize hotRatio minSamples).runOps ops).windowSize := by
  rw [← length_observe_le_iff _ key]
  have hcounts := counts_runOps windowSize hotRatio minSamples ops
  constructor
  · intro hexact
    exact hexact.bounded
  · intro hbounded
    have hrecent := window_runOps windowSize hotRatio minSamples (ops ++ [.observe key])
    rw [runOps, List.foldl_append, history, List.flatMap_append, List.flatMap_singleton] at hrecent
    refine ⟨hrecent, fun hpos => ?_, hbounded, ?_, counts_observe hcounts key,
      ratio_observe hcounts key⟩
    · exact getLast?_window_observe _ key (windowSize_observe _ key ▸ hpos)
    · rw [windowSize_observe]
      exact length_window_observe ((length_observe_le_iff _ key).mp hbounded) key

/-- Two prefixes are in the window when its size is lowered to one. -/
def shrunkWindow : List (Op ℕ) := [.observe 1, .observe 2, .setParams (some 1) none none]

/-- The next observation leaves two prefixes in a window of size one. -/
theorem shrunkWindow_not_exact :
    ¬ Exact (((init 200 (612 / 10000) 20).runOps shrunkWindow).observe 3).2
      ((init 200 (612 / 10000) 20).runOps shrunkWindow).window (history shrunkWindow ++ [3]) 3
      (((init 200 (612 / 10000) 20).runOps shrunkWindow).observe 3).1.2 := by
  intro h
  exact absurd h.bounded (by decide)

end HotPrefixDetector
end DualMap.Scheduler
