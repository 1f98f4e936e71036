import Mathlib.Algebra.BigOperators.Group.List.Basic
import Mathlib.Data.List.DropRight
import Mathlib.Data.List.Forall2
import Mathlib.Data.List.Infix
import Mathlib.Data.List.Nodup

/-!
# Observations in a Window

Events come one after another, and each is observed under some keys: one at least, and none
twice (`ObservedFor`). A window holds the keys that were observed last. It cannot say more than
the events do: how often a key is in the window is how many of the last events, no more than
the window is long, the key may be about (`count_window_le`).
-/

namespace ObservedWindow

variable {κ ε : Type*} {about : κ → ε → Prop}

/-- The keys under which an event is observed. -/
structure ObservedFor (about : κ → ε → Prop) (keys : List κ) (event : ε) : Prop where
  ne_nil : keys ≠ []
  nodup : keys.Nodup
  about : ∀ key ∈ keys, about key event

/-- The keys that were observed for the events, in their order. -/
abbrev Observed (about : κ → ε → Prop) (seen : List (List κ)) (events : List ε) : Prop :=
  List.Forall₂ (ObservedFor about) seen events

variable {seen : List (List κ)} {events : List ε}

theorem Observed.snoc (h : Observed about seen events) {keys : List κ} {event : ε}
    (hkeys : ObservedFor about keys event) : Observed about (seen ++ [keys]) (events ++ [event]) :=
  List.rel_append h (.cons hkeys .nil)

theorem Observed.rtake (h : Observed about seen events) (n : ℕ) :
    Observed about (seen.rtake n) (events.rtake n) := by
  rw [List.rtake, List.rtake, h.length_eq]
  exact List.forall₂_drop _ h

theorem Observed.ne_nil (h : Observed about seen events) : ∀ keys ∈ seen, keys ≠ [] := by
  induction h with
  | nil => exact fun _ hkeys => absurd hkeys List.not_mem_nil
  | cons hkeys _ ih => exact List.forall_mem_cons.mpr ⟨hkeys.ne_nil, ih⟩

/-- A window on lists that are not empty lies in as many of the last ones. -/
theorem suffix_flatten_rtake {window : List κ} (hne : ∀ keys ∈ seen, keys ≠ [])
    (h : window <:+ seen.flatten) : window <:+ (seen.rtake window.length).flatten := by
  have hrecent : (seen.rtake window.length).flatten <:+ seen.flatten := by
    refine ⟨(seen.take (seen.length - window.length)).flatten, ?_⟩
    rw [← List.flatten_append, List.rtake, List.take_append_drop]
  rcases Nat.le_total window.length seen.length with hle | hall
  · refine List.suffix_of_suffix_length_le h hrecent ?_
    have hone : ∀ n ∈ (seen.rtake window.length).map List.length, 1 ≤ n := by
      intro n hn
      obtain ⟨keys, hkeys, rfl⟩ := List.mem_map.mp hn
      exact List.length_pos_of_ne_nil (hne keys (List.mem_of_mem_drop hkeys))
    have hlength := List.length_le_sum_of_one_le _ hone
    rw [List.length_map, List.rtake, List.length_drop] at hlength
    rw [List.length_flatten, List.rtake]
    omega
  · rwa [List.rtake, Nat.sub_eq_zero_of_le hall, List.drop_zero]

variable [DecidableEq κ] [DecidableRel about]

theorem Observed.count_flatten_le (h : Observed about seen events) (key : κ) :
    seen.flatten.count key ≤ events.countP (fun event => about key event) := by
  induction h with
  | nil => exact le_rfl
  | @cons keys event seen events hkeys _ ih =>
    rw [List.flatten_cons, List.count_append, List.countP_cons]
    by_cases hmem : key ∈ keys
    · have hone := List.nodup_iff_count_le_one.mp hkeys.nodup key
      rw [if_pos (decide_eq_true (hkeys.about key hmem))]
      omega
    · rw [List.count_eq_zero_of_not_mem hmem]
      omega

/-- What a window says of a key, the last events account for. -/
theorem Observed.count_window_le (h : Observed about seen events) {window : List κ}
    (hwindow : window <:+ seen.flatten) (key : κ) :
    window.count key ≤ (events.rtake window.length).countP (fun event => about key event) :=
  calc window.count key ≤ (seen.rtake window.length).flatten.count key :=
        (suffix_flatten_rtake h.ne_nil hwindow).sublist.count_le key
    _ ≤ (events.rtake window.length).countP (fun event => about key event) :=
        (h.rtake window.length).count_flatten_le key

end ObservedWindow
