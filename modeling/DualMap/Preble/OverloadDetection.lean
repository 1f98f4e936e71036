import DualMap.Foundation.PurgedWindow
import DualMap.Preble.PrebleGlobalSchedulerUtils

/-!
# Overload Detection

The detector stores first-token times for pairs of a node and a replica, and purges them when
a point is added, relative to that point. A query at a later time takes everything stored
before the middle of its window for the first half, also points from before the window.

A `PointLog` keeps every point and purges nothing. The detector stores the part of it that
the purges keep (`Run.follows`), and what the halves of a window should be is said over the
log.

## Main Results

- `Run.follows`: what is stored after any calls
- `isNodeOverloaded_iff`: what the query compares
- `overloaded_exact_iff`: when this is the comparison of the two halves of the window
-/

namespace DualMap.Preble

open PurgedWindow

variable {n : ℕ}

/-- All points recorded for a node and a replica, from the oldest to the newest. -/
abbrev PointLog (n : ℕ) := Option ℕ × Fin n → List (ℚ × ℚ)

namespace TTFTWindowedOverloadedDetector

/-! ## Runs -/

/-- A run of the detector, with the points recorded so far and the time of the last call. A
split moves the points of a node to a node without points. -/
inductive Run (window : ℚ) : TTFTWindowedOverloadedDetector n → PointLog n → ℚ → Prop where
  | start (clock : ℚ) : Run window { windowDuration := window } (fun _ => []) clock
  | addDataPoint {d : TTFTWindowedOverloadedDetector n} {log : PointLog n} {clock : ℚ}
      (h : Run window d log clock) {timestamp : ℚ} (hlater : clock ≤ timestamp)
      (node : Option ℕ) (gpu : Fin n) (value : ℚ) :
      Run window (d.addDataPoint timestamp node gpu value)
        (Function.update log (node, gpu) (log (node, gpu) ++ [(timestamp, value)])) timestamp
  | replaceOldNodeWithNew {d : TTFTWindowedOverloadedDetector n} {log : PointLog n} {clock : ℚ}
      (h : Run window d log clock) (oldNode : ℕ) {newNode : ℕ} {gpu : Fin n}
      (hfresh : log (some newNode, gpu) = []) :
      Run window (d.replaceOldNodeWithNew oldNode newNode gpu)
        (Function.update (Function.update log (some oldNode, gpu) []) (some newNode, gpu)
          (log (some oldNode, gpu))) clock
  | deleteNodeInTargetGpu {d : TTFTWindowedOverloadedDetector n} {log : PointLog n} {clock : ℚ}
      (h : Run window d log clock) (node : ℕ) (gpu : Fin n) :
      Run window (d.deleteNodeInTargetGpu node gpu)
        (Function.update log (some node, gpu) []) clock

/-- What is stored for a key with these points; a key without points is not there. -/
def stored (window : ℚ) (points : List (ℚ × ℚ)) : Option (List (ℚ × ℚ)) :=
  if points = [] then none else some (kept Prod.fst window points)

/-- The detector follows the log, in which the points came in order, up to the clock. -/
structure Follows (window : ℚ) (d : TTFTWindowedOverloadedDetector n) (log : PointLog n)
    (clock : ℚ) : Prop where
  windowDuration : d.windowDuration = window
  data : ∀ key, d.data.get? key = stored window (log key)
  inOrder : ∀ key, InOrder Prod.fst (log key)
  past : ∀ key, ∀ point ∈ log key, point.1 ≤ clock

variable {window clock : ℚ} {d : TTFTWindowedOverloadedDetector n} {log : PointLog n}

theorem getD_stored (window : ℚ) (points : List (ℚ × ℚ)) :
    (stored window points).getD [] = kept Prod.fst window points := by
  unfold stored
  split
  · next h => rw [h]; rfl
  · rfl

theorem Follows.addDataPoint (h : Follows window d log clock) {timestamp : ℚ}
    (hlater : clock ≤ timestamp) (node : Option ℕ) (gpu : Fin n) (value : ℚ) :
    Follows window (d.addDataPoint timestamp node gpu value)
      (Function.update log (node, gpu) (log (node, gpu) ++ [(timestamp, value)])) timestamp := by
  have hbefore : ∀ key, ∀ point ∈ log key, point.1 ≤ timestamp :=
    fun key point hpoint => (h.past key point hpoint).trans hlater
  have horder : InOrder Prod.fst (log (node, gpu) ++ [(timestamp, value)]) := by
    refine List.pairwise_append.mpr ⟨h.inOrder _, List.pairwise_singleton _ _, ?_⟩
    intro point hpoint other hother
    rw [List.mem_singleton.mp hother]
    exact hbefore _ point hpoint
  refine ⟨h.windowDuration, fun key => ?_, fun key => ?_, fun key => ?_⟩
  -- the purge on adding is relative to the newest point, which is what `kept` says
  · by_cases hkey : key = (node, gpu)
    · subst hkey
      rw [Function.update_self, stored, if_neg (by simp), ← kept_concat horder]
      simp only [TTFTWindowedOverloadedDetector.addDataPoint, OrderedDict.get?_set_self, h.data,
        getD_stored, h.windowDuration]
    · rw [Function.update_of_ne hkey, ← h.data key]
      exact OrderedDict.get?_set_of_ne _ _ hkey
  · by_cases hkey : key = (node, gpu)
    · subst hkey
      rwa [Function.update_self]
    · rw [Function.update_of_ne hkey]
      exact h.inOrder key
  · by_cases hkey : key = (node, gpu)
    · subst hkey
      rw [Function.update_self]
      intro point hpoint
      rcases List.mem_append.mp hpoint with hold | hnew
      · exact hbefore _ point hold
      · rw [List.mem_singleton.mp hnew]
    · rw [Function.update_of_ne hkey]
      exact hbefore key

/-- A change of the log that only forgets points or moves the points of a key. -/
theorem Follows.of_moved {d' : TTFTWindowedOverloadedDetector n} {log' : PointLog n}
    (h : Follows window d log clock) (hduration : d'.windowDuration = d.windowDuration)
    (hdata : ∀ key, d'.data.get? key = stored window (log' key))
    (hmoved : ∀ key, log' key = [] ∨ ∃ other, log' key = log other) :
    Follows window d' log' clock where
  windowDuration := hduration.trans h.windowDuration
  data := hdata
  inOrder key := by
    rcases hmoved key with hempty | ⟨other, hother⟩
    · rw [hempty]; exact List.Pairwise.nil
    · rw [hother]; exact h.inOrder other
  past key point hpoint := by
    rcases hmoved key with hempty | ⟨other, hother⟩
    · rw [hempty] at hpoint; cases hpoint
    · rw [hother] at hpoint; exact h.past other point hpoint

theorem Follows.deleteNodeInTargetGpu (h : Follows window d log clock) (node : ℕ) (gpu : Fin n) :
    Follows window (d.deleteNodeInTargetGpu node gpu)
      (Function.update log (some node, gpu) []) clock := by
  refine h.of_moved rfl (fun key => ?_) (fun key => ?_)
  · by_cases hkey : key = (some node, gpu)
    · subst hkey
      rw [Function.update_self]
      exact OrderedDict.get?_erase_self _ _
    · rw [Function.update_of_ne hkey, ← h.data key]
      exact OrderedDict.get?_erase_of_ne _ hkey
  · by_cases hkey : key = (some node, gpu)
    · exact Or.inl (by rw [hkey, Function.update_self])
    · exact Or.inr ⟨key, Function.update_of_ne hkey _ _⟩

theorem Follows.replaceOldNodeWithNew (h : Follows window d log clock) (oldNode : ℕ)
    {newNode : ℕ} {gpu : Fin n} (hfresh : log (some newNode, gpu) = []) :
    Follows window (d.replaceOldNodeWithNew oldNode newNode gpu)
      (Function.update (Function.update log (some oldNode, gpu) []) (some newNode, gpu)
        (log (some oldNode, gpu))) clock := by
  have hold := h.data (some oldNode, gpu)
  refine h.of_moved ?_ (fun key => ?_) (fun key => ?_)
  · unfold TTFTWindowedOverloadedDetector.replaceOldNodeWithNew
    split <;> rfl
  · unfold TTFTWindowedOverloadedDetector.replaceOldNodeWithNew
    by_cases hnone : log (some oldNode, gpu) = []
    · -- there is nothing to move
      have hget : d.data.get? (some oldNode, gpu) = none := by rw [hold, stored, if_pos hnone]
      simp only [hget]
      rw [h.data key, hnone]
      congr 1
      by_cases hnew : key = (some newNode, gpu)
      · rw [hnew, Function.update_self, hfresh]
      · rw [Function.update_of_ne hnew]
        by_cases hkey : key = (some oldNode, gpu)
        · rw [hkey, Function.update_self, hnone]
        · rw [Function.update_of_ne hkey]
    · have hget : d.data.get? (some oldNode, gpu) =
          some (kept Prod.fst window (log (some oldNode, gpu))) := by
        rw [hold, stored, if_neg hnone]
      simp only [hget]
      rw [OrderedDict.get?_set]
      by_cases hnew : key = (some newNode, gpu)
      -- the new key takes over the old list, which is not purged by the move
      · rw [if_pos hnew, hnew, Function.update_self, stored, if_neg hnone]
      · rw [if_neg hnew, Function.update_of_ne hnew]
        by_cases hkey : key = (some oldNode, gpu)
        · rw [hkey, Function.update_self, OrderedDict.get?_erase_self]
          rfl
        · rw [Function.update_of_ne hkey, OrderedDict.get?_erase_of_ne _ hkey, h.data key]
  · by_cases hnew : key = (some newNode, gpu)
    · exact Or.inr ⟨(some oldNode, gpu), by rw [hnew, Function.update_self]⟩
    · rw [Function.update_of_ne hnew]
      by_cases hkey : key = (some oldNode, gpu)
      · exact Or.inl (by rw [hkey, Function.update_self])
      · exact Or.inr ⟨key, Function.update_of_ne hkey _ _⟩

/-- After any calls, the detector stores what the purges keep of the log. -/
theorem Run.follows (h : Run window d log clock) : Follows window d log clock := by
  induction h with
  | start clock =>
    exact ⟨rfl, fun _ => rfl, fun _ => List.Pairwise.nil, fun _ _ hpoint => by cases hpoint⟩
  | addDataPoint _ hlater node gpu value ih => exact ih.addDataPoint hlater node gpu value
  | replaceOldNodeWithNew _ oldNode hfresh ih => exact ih.replaceOldNodeWithNew oldNode hfresh
  | deleteNodeInTargetGpu _ node gpu ih => exact ih.deleteNodeInTargetGpu node gpu

/-! ## The two halves -/

/-- The average value of some points. -/
def average (points : List (ℚ × ℚ)) : ℚ := (points.map Prod.snd).sum / points.length

/-- The points in the first half of the window that ends at `t`. -/
def firstHalf (window t : ℚ) (points : List (ℚ × ℚ)) : List (ℚ × ℚ) :=
  points.filter (fun point => t - window ≤ point.1 ∧ point.1 < t - window / 2)

/-- The points in the second half of the window that ends at `t`. -/
def secondHalf (window t : ℚ) (points : List (ℚ × ℚ)) : List (ℚ × ℚ) :=
  points.filter (fun point => t - window / 2 ≤ point.1 ∧ point.1 ≤ t)

/-- Both halves have points, and the average of the second is at least twice that of the
first. -/
def Doubled (first second : List (ℚ × ℚ)) : Prop :=
  first ≠ [] ∧ second ≠ [] ∧ 2 * average first ≤ average second

/-- The stored points from before the middle of the window. -/
def earlier (window t : ℚ) (points : List (ℚ × ℚ)) : List (ℚ × ℚ) :=
  (kept Prod.fst window points).filter (fun point => point.1 < t - window / 2)

/-- The stored points from the middle of the window on. -/
def later (window t : ℚ) (points : List (ℚ × ℚ)) : List (ℚ × ℚ) :=
  (kept Prod.fst window points).filter (fun point => ¬ point.1 < t - window / 2)

/-- The query compares everything stored before the middle of the window with the rest. -/
theorem isNodeOverloaded_iff (h : Follows window d log clock) (t : ℚ) (node : ℕ) (gpu : Fin n) :
    d.IsNodeOverloaded t node gpu ↔
      Doubled (earlier window t (log (some node, gpu)))
        (later window t (log (some node, gpu))) := by
  have hdata := h.data (some node, gpu)
  unfold IsNodeOverloaded calculateHalfWindowAverages
  -- without points, or with an empty half, the code answers no
  by_cases hnone : log (some node, gpu) = []
  · rw [hdata, hnone]
    simp [stored, Doubled, earlier]
  · rw [hdata, stored, if_neg hnone]
    simp only [Option.bind_eq_bind, Option.bind_some, List.map_eq_nil_iff, List.length_map,
      h.windowDuration]
    by_cases hempty : earlier window t (log (some node, gpu)) = [] ∨
        later window t (log (some node, gpu)) = []
    · have hnot : ¬ Doubled (earlier window t (log (some node, gpu)))
          (later window t (log (some node, gpu))) := fun hdoubled =>
        hempty.elim hdoubled.1 hdoubled.2.1
      unfold earlier later at hempty
      rw [if_pos hempty]
      exact iff_of_false (fun hfalse => hfalse) hnot
    · obtain ⟨hearlier, hlater⟩ := not_or.mp hempty
      unfold earlier later at hempty
      rw [if_neg hempty]
      exact ⟨fun hle => ⟨hearlier, hlater, hle⟩, fun hdoubled => hdoubled.2.2⟩

/-- Reading the log past the middle of the window finds the stored points. -/
theorem later_eq {points : List (ℚ × ℚ)} {t : ℚ} (hwindow : 0 ≤ window)
    (hpast : ∀ point ∈ points, point.1 ≤ t) :
    later window t points = secondHalf window t points := by
  have hrecent : recent Prod.fst (t - window) (kept Prod.fst window points) =
      recent Prod.fst (t - window) points := recent_kept hpast
  -- both are the part of the window from its middle on
  have hlater : later window t points =
      (recent Prod.fst (t - window) (kept Prod.fst window points)).filter
        (fun point => ¬ point.1 < t - window / 2) := by
    rw [later, recent, List.filter_filter]
    refine List.filter_congr (fun point _ => ?_)
    rw [← Bool.decide_and, decide_eq_decide]
    constructor
    · intro hmiddle
      exact ⟨hmiddle, by linarith [not_lt.mp hmiddle]⟩
    · exact And.left
  rw [hlater, hrecent, recent, List.filter_filter, secondHalf]
  refine List.filter_congr (fun point hpoint => ?_)
  have hle := hpast point hpoint
  simp only [not_lt, ← Bool.decide_and, decide_eq_decide]
  constructor
  · rintro ⟨hmiddle, -⟩
    exact ⟨hmiddle, hle⟩
  · rintro ⟨hmiddle, -⟩
    exact ⟨hmiddle, by linarith⟩

/-- Without older points, the stored points before the middle are the first half. -/
theorem earlier_eq {points : List (ℚ × ℚ)} {t : ℚ} (hpast : ∀ point ∈ points, point.1 ≤ t)
    (hfresh : ∀ point ∈ kept Prod.fst window points, t - window ≤ point.1) :
    earlier window t points = firstHalf window t points := by
  rw [earlier, kept_eq_recent hpast hfresh, recent, List.filter_filter, firstHalf]
  refine List.filter_congr (fun point _ => ?_)
  rw [← Bool.decide_and, decide_eq_decide]
  exact and_comm

/-- Points from before the window do not change the answer: there are none, or the second half
is empty, or they are not exceeded twofold where the first half is empty, or both averages,
with and without them, lie on the same side. -/
def StaleHarmless (window t : ℚ) (points : List (ℚ × ℚ)) : Prop :=
  (∀ point ∈ kept Prod.fst window points, t - window ≤ point.1) ∨
    secondHalf window t points = [] ∨
    (firstHalf window t points = [] ∧
      average (secondHalf window t points) < 2 * average (earlier window t points)) ∨
    (firstHalf window t points ≠ [] ∧
      (average (secondHalf window t points) <
          min (2 * average (firstHalf window t points)) (2 * average (earlier window t points)) ∨
        max (2 * average (firstHalf window t points)) (2 * average (earlier window t points)) ≤
          average (secondHalf window t points)))

/-- Two thresholds give the same answer for a value that is below or above both. -/
theorem same_side_iff {a b c : ℚ} : (b ≤ c ↔ a ≤ c) ↔ c < min a b ∨ max a b ≤ c := by
  rw [lt_min_iff, max_le_iff]
  constructor
  · intro h
    by_cases ha : a ≤ c
    · exact Or.inr ⟨ha, h.mpr ha⟩
    · exact Or.inl ⟨not_le.mp ha, not_le.mp (fun hb => ha (h.mp hb))⟩
  · rintro (⟨ha, hb⟩ | ⟨ha, hb⟩)
    · exact iff_of_false (not_le.mpr hb) (not_le.mpr ha)
    · exact iff_of_true hb ha

/-- After any calls and at any later time, the query compares the two halves of the window that
ends then if and only if the points from before this window do not change the answer. -/
theorem overloaded_exact_iff (hrun : Run window d log clock) {t : ℚ} (ht : clock ≤ t)
    (node : ℕ) (gpu : Fin n) :
    (d.IsNodeOverloaded t node gpu ↔
        Doubled (firstHalf window t (log (some node, gpu)))
          (secondHalf window t (log (some node, gpu)))) ↔
      StaleHarmless window t (log (some node, gpu)) := by
  have hfollows := hrun.follows
  rw [isNodeOverloaded_iff hfollows]
  have hpast : ∀ point ∈ log (some node, gpu), point.1 ≤ t :=
    fun point hpoint => (hfollows.past _ point hpoint).trans ht
  have horder := hfollows.inOrder (some node, gpu)
  generalize log (some node, gpu) = points at hpast horder ⊢
  unfold StaleHarmless
  rcases lt_or_ge window 0 with hnegative | hwindow
  · -- a negative window keeps nothing
    have hkept : kept Prod.fst window points = [] := kept_eq_nil horder hnegative
    have hsecond : secondHalf window t points = [] := by
      refine List.filter_eq_nil_iff.mpr (fun point _ => ?_)
      rw [decide_eq_true_eq]
      rintro ⟨hmiddle, hle⟩
      linarith
    refine iff_of_true (iff_of_false (fun h => h.1 ?_) (fun h => h.2.1 hsecond)) (Or.inl ?_)
    · rw [earlier, hkept, List.filter_nil]
    · rw [hkept]
      exact fun point hpoint => absurd hpoint List.not_mem_nil
  -- only the first half can differ: it keeps points that have left the window since
  · rw [later_eq hwindow hpast]
    by_cases hfresh : ∀ point ∈ kept Prod.fst window points, t - window ≤ point.1
    · rw [earlier_eq hpast hfresh]
      exact iff_of_true Iff.rfl (Or.inl hfresh)
    · rw [or_iff_right hfresh]
      -- a stale point makes the code's first half non-empty, whatever the window holds
      obtain ⟨point, hpoint, hstale⟩ : ∃ point ∈ kept Prod.fst window points,
          point.1 < t - window := by
        by_contra hnone
        exact hfresh (fun point hp => not_lt.mp (fun hlt => hnone ⟨point, hp, hlt⟩))
      have hearlier : earlier window t points ≠ [] := by
        refine List.ne_nil_of_mem (a := point) (List.mem_filter.mpr ⟨hpoint, ?_⟩)
        simp only [decide_eq_true_eq]
        linarith
      by_cases hsecond : secondHalf window t points = []
      · exact iff_of_true (iff_of_false (fun h => h.2.1 hsecond) (fun h => h.2.1 hsecond))
          (Or.inl hsecond)
      · rw [or_iff_right hsecond]
        by_cases hfirst : firstHalf window t points = []
        · simp [hfirst, Doubled, hearlier, hsecond]
        · simp only [Doubled, hearlier, hsecond, hfirst, ne_eq, not_false_eq_true, true_and,
            false_and, false_or]
          exact same_side_iff

/-- A node with a point at time 0 and one of twice the value at time 150. -/
def twoPoints : TTFTWindowedOverloadedDetector 1 :=
  (addDataPoint { windowDuration := 180 } 0 (some 5) (Fin.last 0) 1).addDataPoint
    150 (some 5) (Fin.last 0) 2

theorem twoPoints_run :
    Run 180 twoPoints
      (Function.update (Function.update (fun _ => []) (some 5, Fin.last 0) [(0, 1)])
        (some 5, Fin.last 0) [(0, 1), (150, 2)]) 150 := by
  have hstart : Run 180 ({ windowDuration := 180 } : TTFTWindowedOverloadedDetector 1)
      (fun _ => []) 0 := Run.start 0
  have hrun := (hstart.addDataPoint le_rfl (some 5) (Fin.last 0) 1).addDataPoint
    (show (0 : ℚ) ≤ 150 by norm_num) (some 5) (Fin.last 0) 2
  rwa [Function.update_self] at hrun

/-- At time 200 the first point is not in the window any more, whose first half is empty. -/
theorem twoPoints_overloaded :
    ∃ log, Run 180 twoPoints log 150 ∧
      ¬ (twoPoints.IsNodeOverloaded 200 5 (Fin.last 0) ↔
        Doubled (firstHalf 180 200 (log (some 5, Fin.last 0)))
          (secondHalf 180 200 (log (some 5, Fin.last 0)))) := by
  refine ⟨_, twoPoints_run, ?_⟩
  rw [Function.update_self]
  have hfirst : firstHalf 180 200 [(0, 1), (150, 2)] = [] := by decide +kernel
  have hoverloaded : twoPoints.IsNodeOverloaded 200 5 (Fin.last 0) := by decide +kernel
  exact fun h => (h.mp hoverloaded).1 hfirst

/-- At time 170 both points are in the window. -/
theorem overloaded_exact_iff_twoPoints :
    ∃ log, Run 180 twoPoints log 150 ∧
      (twoPoints.IsNodeOverloaded 170 5 (Fin.last 0) ↔
        Doubled (firstHalf 180 170 (log (some 5, Fin.last 0)))
          (secondHalf 180 170 (log (some 5, Fin.last 0)))) := by
  refine ⟨_, twoPoints_run, ?_⟩
  refine (overloaded_exact_iff twoPoints_run (by norm_num) 5 (Fin.last 0)).mpr (Or.inl ?_)
  rw [Function.update_self]
  decide +kernel

end TTFTWindowedOverloadedDetector
end DualMap.Preble
