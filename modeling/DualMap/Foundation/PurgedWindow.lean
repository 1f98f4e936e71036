import Mathlib.Data.List.Basic
import Mathlib.Data.Rat.Defs
import Mathlib.Algebra.Order.Field.Rat
import Mathlib.Tactic.Linarith

/-!
# Windows Purged on Arrival

Entries with times come in one after the other, and whenever one comes in, those older than
the window are dropped from the front. What is stored afterwards (`kept`) is the window that
ends with the last entry. A reader at a later time is interested in a later window
(`recent`): everything in it is stored, but not everything stored is in it.

Main results: one arrival and the purge after it (`kept_concat`), and the window of a later
reader inside what is stored (`recent_kept`).
-/

namespace PurgedWindow

variable {α : Type*} {time : α → ℚ}

/-- The entries from a point in time on. -/
def recent (time : α → ℚ) (start : ℚ) (l : List α) : List α := l.filter (fun a => start ≤ time a)

/-- What is stored of the entries that came in: those no older than the window when the last
one came. -/
def kept (time : α → ℚ) (window : ℚ) (l : List α) : List α :=
  match l.getLast? with
  | none => []
  | some last => recent time (time last - window) l

/-- The entries came in the order of their times. -/
abbrev InOrder (time : α → ℚ) (l : List α) : Prop := l.Pairwise (fun a b => time a ≤ time b)

theorem mem_recent {start : ℚ} {l : List α} {a : α} :
    a ∈ recent time start l ↔ a ∈ l ∧ start ≤ time a := by
  simp [recent]

@[simp] theorem kept_nil (window : ℚ) : kept time window [] = [] := rfl

theorem kept_append_singleton (window : ℚ) (l : List α) (a : α) :
    kept time window (l ++ [a]) = recent time (time a - window) (l ++ [a]) := by
  simp [kept]

theorem kept_sublist (window : ℚ) (l : List α) : (kept time window l).Sublist l := by
  unfold kept
  split
  · exact List.nil_sublist l
  · exact List.filter_sublist

/-- In a list in order, dropping from the front what is too old leaves the recent entries. -/
theorem dropWhile_eq_recent {l : List α} (h : InOrder time l) (start : ℚ) :
    l.dropWhile (fun a => time a < start) = recent time start l := by
  induction l with
  | nil => rfl
  | cons a l ih =>
    obtain ⟨hfirst, hrest⟩ := List.pairwise_cons.mp h
    by_cases hold : time a < start
    · rw [List.dropWhile_cons_of_pos (by simpa using hold), ih hrest, recent, recent,
        List.filter_cons_of_neg (by simpa using hold)]
    · -- nothing after an entry that is recent is older
      have hall : ∀ b ∈ a :: l, start ≤ time b := by
        intro b hb
        rcases List.mem_cons.mp hb with rfl | hb
        · exact not_lt.mp hold
        · exact (not_lt.mp hold).trans (hfirst b hb)
      rw [List.dropWhile_cons_of_neg (by simpa using hold), recent,
        List.filter_eq_self.mpr (fun b hb => by simpa using hall b hb)]

/-- Everything in the window of a later reader is stored. -/
theorem recent_kept {window t : ℚ} {l : List α} (ht : ∀ a ∈ l, time a ≤ t) :
    recent time (t - window) (kept time window l) = recent time (t - window) l := by
  unfold kept
  split
  · next hnone => rw [List.getLast?_eq_none_iff.mp hnone]
  · next last hlast =>
    have hle := ht last (List.mem_of_getLast? hlast)
    rw [recent, recent, recent, List.filter_filter]
    refine List.filter_congr (fun a _ => ?_)
    simp only [Bool.and_eq_left_iff_imp, decide_eq_true_eq]
    intro h
    linarith

/-- An entry comes in, and the front is purged relative to it. -/
theorem kept_concat {window : ℚ} {l : List α} {a : α} (h : InOrder time (l ++ [a])) :
    (kept time window l ++ [a]).dropWhile (fun b => time b < time a - window) =
      kept time window (l ++ [a]) := by
  have hkept : InOrder time (kept time window l ++ [a]) :=
    h.sublist ((kept_sublist window l).append_right [a])
  have hbefore : ∀ b ∈ l, time b ≤ time a := by
    intro b hb
    exact (List.pairwise_append.mp h).2.2 b hb a (List.mem_singleton_self a)
  rw [dropWhile_eq_recent hkept, kept_append_singleton, recent, List.filter_append, ← recent,
    recent_kept hbefore, recent, ← List.filter_append, ← recent]

/-- A window of negative length keeps nothing. -/
theorem kept_eq_nil {window : ℚ} {l : List α} (h : InOrder time l) (hwindow : window < 0) :
    kept time window l = [] := by
  rcases List.eq_nil_or_concat l with rfl | ⟨before, last, rfl⟩
  · rfl
  · rw [List.concat_eq_append] at h ⊢
    rw [kept_append_singleton, recent, List.filter_eq_nil_iff]
    intro a ha
    have hle : time a ≤ time last := by
      rcases List.mem_append.mp ha with hbefore | hlast
      · exact (List.pairwise_append.mp h).2.2 a hbefore last (List.mem_singleton_self last)
      · rw [List.mem_singleton.mp hlast]
    rw [decide_eq_true_eq]
    linarith

/-- What is stored is the window of a reader who comes before anything in it is too old. -/
theorem kept_eq_recent {window t : ℚ} {l : List α} (ht : ∀ a ∈ l, time a ≤ t)
    (hfresh : ∀ a ∈ kept time window l, t - window ≤ time a) :
    kept time window l = recent time (t - window) l := by
  rw [← recent_kept ht, recent, List.filter_eq_self.mpr (fun a ha => by simpa using hfresh a ha)]

end PurgedWindow
