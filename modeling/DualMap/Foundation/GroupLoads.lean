import Mathlib.Algebra.BigOperators.Group.Finset.Basic
import Mathlib.Algebra.BigOperators.Group.Finset.Piecewise
import Mathlib.Algebra.Order.Group.Defs
import Mathlib.Tactic.Abel

/-!
# Loads of Groups

Each key belongs to some groups and weighs something on each of them; the load of a group is
what its keys weigh on it. Nested loops over the keys and their groups add the loads up
(`foldl_load`). When some keys are given to one group instead, every other group is left with
the keys that stay (`load_reassign_of_ne`), and the one group gets all that were given to it
(`load_reassign`).
-/

namespace GroupLoads

variable {κ ι M : Type*} [DecidableEq κ] [DecidableEq ι] [AddCommMonoid M]

/-- What the keys weigh on a group. -/
def load (keys : Finset κ) (groups : κ → Finset ι) (weight : κ → ι → M) (i : ι) : M :=
  ∑ k ∈ keys with i ∈ groups k, weight k i

variable {keys moved : Finset κ} {groups groups' : κ → Finset ι} {weight weight' : κ → ι → M}
  {i light : ι}

omit [DecidableEq κ] in
/-- Only the keys that count matter, and of these what they weigh on their groups. -/
theorem load_congr (hgroups : ∀ k ∈ keys, groups' k = groups k)
    (hweight : ∀ k ∈ keys, i ∈ groups k → weight' k i = weight k i) :
    load keys groups' weight' i = load keys groups weight i := by
  rw [load, load, Finset.sum_filter, Finset.sum_filter]
  refine Finset.sum_congr rfl (fun k hk => ?_)
  rw [hgroups k hk]
  split
  · next hi => exact hweight k hk hi
  · rfl

omit [DecidableEq κ] in
/-- No key weighs anything on a group that it does not belong to. -/
theorem load_eq_zero (h : ∀ k ∈ keys, i ∉ groups k) : load keys groups weight i = 0 := by
  rw [load, Finset.filter_false_of_mem h, Finset.sum_empty]

omit [DecidableEq κ] in
/-- If all keys belong to the group, it has the whole of each. -/
theorem load_eq_sum (h : ∀ k ∈ keys, i ∈ groups k) :
    load keys groups weight i = ∑ k ∈ keys, weight k i := by
  rw [load, Finset.filter_true_of_mem h]

/-- The keys of a group are those of two parts. -/
theorem load_sdiff_add_inter (keys moved : Finset κ) (groups : κ → Finset ι)
    (weight : κ → ι → M) (i : ι) :
    load (keys \ moved) groups weight i + load (keys ∩ moved) groups weight i =
      load keys groups weight i := by
  simp only [load, Finset.sum_filter]
  rw [add_comm]
  exact Finset.sum_inter_add_sum_sdiff keys moved _

/-! ## Keys are given to another group -/

section Reassign

variable (hgroups : ∀ k ∈ keys, groups' k = if k ∈ moved then {light} else groups k)
  (hweight : ∀ k ∈ keys, k ∉ moved → weight' k i = weight k i)

include hgroups hweight

theorem load_sdiff_reassign :
    load (keys \ moved) groups' weight' i = load (keys \ moved) groups weight i := by
  refine load_congr (fun k hk => ?_) (fun k hk _ => ?_)
  · obtain ⟨hk, hnot⟩ := Finset.mem_sdiff.mp hk
    rw [hgroups k hk, if_neg hnot]
  · obtain ⟨hk, hnot⟩ := Finset.mem_sdiff.mp hk
    exact hweight k hk hnot

/-- Another group keeps the keys that stay. -/
theorem load_reassign_of_ne (hne : i ≠ light) :
    load keys groups' weight' i = load (keys \ moved) groups weight i := by
  have hnone : load (keys ∩ moved) groups' weight' i = 0 := by
    refine load_eq_zero (fun k hk => ?_)
    obtain ⟨hk, hmoved⟩ := Finset.mem_inter.mp hk
    rw [hgroups k hk, if_pos hmoved]
    exact Finset.notMem_singleton.mpr hne
  rw [← load_sdiff_add_inter keys moved groups' weight' i, hnone, add_zero,
    load_sdiff_reassign hgroups hweight]

end Reassign

/-- The group that keys are given to has the whole of them. -/
theorem load_reassign
    (hgroups : ∀ k ∈ keys, groups' k = if k ∈ moved then {light} else groups k)
    (hweight : ∀ k ∈ keys, k ∉ moved → weight' k light = weight k light) :
    load keys groups' weight' light =
      load (keys \ moved) groups weight light + ∑ k ∈ keys ∩ moved, weight' k light := by
  rw [← load_sdiff_add_inter keys moved groups' weight' light,
    load_sdiff_reassign hgroups hweight]
  refine congrArg (_ + ·) (load_eq_sum fun k hk => ?_)
  obtain ⟨hk, hmoved⟩ := Finset.mem_inter.mp hk
  rw [hgroups k hk, if_pos hmoved]
  exact Finset.mem_singleton_self light

/-- Whether the one group becomes heavier than another: the other loses what the keys weigh on
it, and the one gains the whole of the keys in place of what they weigh on it. -/
theorem load_reassign_le_iff {M : Type*} [AddCommGroup M] [PartialOrder M] [IsOrderedAddMonoid M]
    {weight weight' : κ → ι → M} {heavy : ι}
    (hgroups : ∀ k ∈ keys, groups' k = if k ∈ moved then {light} else groups k)
    (hweight : ∀ k ∈ keys, k ∉ moved → weight' k = weight k) (hne : heavy ≠ light) :
    load keys groups' weight' light ≤ load keys groups' weight' heavy ↔
      load (keys ∩ moved) groups weight heavy + (∑ k ∈ keys ∩ moved, weight' k light -
        load (keys ∩ moved) groups weight light) ≤
        load keys groups weight heavy - load keys groups weight light := by
  have hsame : ∀ i, ∀ k ∈ keys, k ∉ moved → weight' k i = weight k i :=
    fun i k hk hnot => congrFun (hweight k hk hnot) i
  rw [load_reassign hgroups (hsame light), load_reassign_of_ne hgroups (hsame heavy) hne,
    ← load_sdiff_add_inter keys moved groups weight heavy,
    ← load_sdiff_add_inter keys moved groups weight light]
  generalize load (keys \ moved) groups weight heavy = a
  generalize load (keys \ moved) groups weight light = b
  generalize load (keys ∩ moved) groups weight heavy = c
  generalize load (keys ∩ moved) groups weight light = d
  generalize ∑ k ∈ keys ∩ moved, weight' k light = e
  have hdiff : a - (b + e) = a + c - (b + d) - (c + (e - d)) := by abel
  rw [← sub_nonneg, hdiff, sub_nonneg]

/-! ## Adding up -/

omit [DecidableEq κ] in
/-- A loop that adds an amount to some groups. -/
theorem foldl_update_add (l : List ι) (hnodup : l.Nodup) (amount loads : ι → M) :
    l.foldl (fun loads i => Function.update loads i (loads i + amount i)) loads =
      fun i => loads i + if i ∈ l then amount i else 0 := by
  induction l generalizing loads with
  | nil =>
    funext i
    rw [if_neg List.not_mem_nil, add_zero]
    rfl
  | cons j l ih =>
    obtain ⟨hj, hnodup⟩ := List.nodup_cons.mp hnodup
    rw [List.foldl_cons, ih hnodup]
    funext i
    by_cases hi : i = j
    · subst hi
      rw [Function.update_self, if_neg hj, if_pos List.mem_cons_self, add_zero]
    · rw [Function.update_of_ne hi]
      simp only [List.mem_cons, hi, false_or]

/-- Over the keys that count, and the groups of each. -/
theorem foldl_load (counts : κ → Prop) [DecidablePred counts] (order : κ → List ι)
    (horder : ∀ k, (order k).Nodup ∧ ∀ i, i ∈ order k ↔ i ∈ groups k) {l : List κ}
    (hnodup : l.Nodup) :
    l.foldl (fun loads k => (order k).foldl (fun loads i =>
        if counts k then Function.update loads i (loads i + weight k i) else loads) loads)
      (fun _ => 0) = load {k ∈ l.toFinset | counts k} groups weight := by
  -- one key adds its weights, if it counts
  have hturn : ∀ (k : κ) (loads : ι → M), (order k).foldl (fun loads i =>
      if counts k then Function.update loads i (loads i + weight k i) else loads) loads =
      fun i => loads i + if counts k ∧ i ∈ groups k then weight k i else 0 := by
    intro k loads
    by_cases hcounts : counts k
    · simp only [hcounts, if_true, true_and]
      rw [foldl_update_add _ (horder k).1]
      simp only [(horder k).2]
    · simp only [hcounts, if_false, false_and, add_zero, List.foldl_fixed]
  simp only [hturn]
  suffices hall : ∀ loads : ι → M, l.foldl (fun loads k => fun i =>
      loads i + if counts k ∧ i ∈ groups k then weight k i else 0) loads =
      fun i => loads i + load {k ∈ l.toFinset | counts k} groups weight i by
    rw [hall]
    funext i
    exact zero_add _
  induction l with
  | nil =>
    intro loads
    funext i
    exact (add_zero _).symm
  | cons k l ih =>
    intro loads
    obtain ⟨hk, hnodup⟩ := List.nodup_cons.mp hnodup
    rw [List.foldl_cons, ih hnodup]
    funext i
    rw [add_assoc]
    refine congrArg (loads i + ·) ?_
    simp only [load, Finset.filter_filter, Finset.sum_filter]
    rw [List.toFinset_cons, Finset.sum_insert (by rwa [List.mem_toFinset])]

end GroupLoads
