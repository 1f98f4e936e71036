import Mathlib.Data.List.TakeDrop
import Mathlib.Tactic.Common

/-!
# Lists in Blocks

A list in which every item is repeated equally often (`expand`). Such a list is cut at a
multiple of the length of its blocks by cutting the items, so two of them agree on their first
blocks exactly when the items of these blocks agree.
-/

namespace BlockExpansion

variable {α : Type} {b : ℕ}

/-- Every item `b` times. -/
def expand (b : ℕ) (xs : List α) : List α := xs.flatMap (List.replicate b)

@[simp] theorem expand_nil : expand b ([] : List α) = [] := rfl

@[simp] theorem expand_cons (x : α) (xs : List α) :
    expand b (x :: xs) = List.replicate b x ++ expand b xs := List.flatMap_cons

@[simp] theorem expand_append (xs ys : List α) :
    expand b (xs ++ ys) = expand b xs ++ expand b ys := List.flatMap_append

@[simp] theorem length_expand (b : ℕ) (xs : List α) : (expand b xs).length = b * xs.length := by
  induction xs with
  | nil => rfl
  | cons x xs ih =>
    rw [expand_cons, List.length_append, List.length_replicate, ih, List.length_cons,
      Nat.mul_succ, Nat.add_comm]

/-- The first block is cut, or it is whole and the rest is cut. -/
theorem take_expand_cons (n : ℕ) (x : α) (xs : List α) :
    (expand b (x :: xs)).take n = List.replicate (min b n) x ++ (expand b xs).take (n - b) := by
  rw [expand_cons, List.take_append, List.take_replicate, List.length_replicate, Nat.min_comm]

/-- To cut after some blocks is to cut after their items. -/
theorem take_expand (k : ℕ) (xs : List α) :
    (expand b xs).take (b * k) = expand b (xs.take k) := by
  induction xs generalizing k with
  | nil => rw [List.take_nil, expand_nil, List.take_nil]
  | cons x xs ih =>
    cases k with
    | zero => rw [Nat.mul_zero, List.take_zero, List.take_zero, expand_nil]
    | succ k =>
      have hwhole : min b (b * (k + 1)) = b :=
        Nat.min_eq_left (Nat.le_mul_of_pos_right b (Nat.succ_pos k))
      have hrest : b * (k + 1) - b = b * k := by rw [Nat.mul_succ, Nat.add_sub_cancel]
      rw [take_expand_cons, hwhole, hrest, ih, List.take_succ_cons, expand_cons]

/-- Blocks that are not empty show their items. -/
theorem expand_inj (hb : 0 < b) {xs ys : List α} : expand b xs = expand b ys ↔ xs = ys := by
  refine ⟨fun h => ?_, fun h => h ▸ rfl⟩
  have hlength : xs.length = ys.length := by
    have hlong := congrArg List.length h
    rw [length_expand, length_expand] at hlong
    exact Nat.eq_of_mul_eq_mul_left hb hlong
  -- equal expansions have equal first blocks, which are repetitions of one item each
  induction xs generalizing ys with
  | nil => exact (List.length_eq_zero_iff.mp hlength.symm).symm
  | cons x xs ih =>
    cases ys with
    | nil => cases hlength
    | cons y ys =>
      rw [expand_cons, expand_cons] at h
      obtain ⟨hhead, htail⟩ := List.append_inj h (by
        rw [List.length_replicate, List.length_replicate])
      obtain rfl : x = y := (List.replicate_inj.mp hhead).2.resolve_left (Nat.ne_of_gt hb)
      rw [ih htail (Nat.succ.inj hlength)]

/-- Two lists in blocks agree on their first blocks exactly when the items of these agree. -/
theorem take_expand_eq_iff (hb : 0 < b) (k : ℕ) {xs ys : List α} :
    (expand b xs).take (b * k) = (expand b ys).take (b * k) ↔ xs.take k = ys.take k := by
  rw [take_expand, take_expand, expand_inj hb]

end BlockExpansion
