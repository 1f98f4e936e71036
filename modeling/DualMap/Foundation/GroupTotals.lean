import Mathlib.Algebra.BigOperators.Group.Finset.Basic
import Mathlib.Algebra.BigOperators.Group.Finset.Piecewise
import Mathlib.Data.Finset.Union
import Mathlib.Tactic.Abel

/-!
# Totals of Groups

Each key belongs to some groups, and each group has a total, which is kept without adding up
its keys: when the amount of a key changes, the difference to the amount that is remembered
of the key is added to the total of one group. This keeps every total the sum of what is
remembered of the keys of its group as long as a key whose amount changes belongs to that
group and to no other (`Balanced.settle`). The groups of a key of which nothing is remembered
are free to change.
-/

/-- The total of each group, and what is remembered of each key. -/
structure GroupTotals (κ ι M : Type*) where
  total : ι → M
  remembered : κ → M

namespace GroupTotals

variable {κ ι M : Type*} [DecidableEq κ] [DecidableEq ι] [AddCommGroup M]
  {a : GroupTotals κ ι M} {groups groups' : κ → Finset ι} {k old new : κ} {i : ι} {x : M}

/-- The amount of `k` is `x` now, and the total of `i` follows. -/
def settle (a : GroupTotals κ ι M) (k : κ) (i : ι) (x : M) : GroupTotals κ ι M where
  total := Function.update a.total i (a.total i - a.remembered k + x)
  remembered := Function.update a.remembered k x

@[simp] theorem settle_remembered_self (a : GroupTotals κ ι M) (k : κ) (i : ι) (x : M) :
    (a.settle k i x).remembered k = x := Function.update_self ..

@[simp] theorem settle_total_self (a : GroupTotals κ ι M) (k : κ) (i : ι) (x : M) :
    (a.settle k i x).total i = a.total i - a.remembered k + x := Function.update_self ..

theorem settle_remembered_of_ne {m : κ} (hm : m ≠ k) :
    (a.settle k i x).remembered m = a.remembered m := Function.update_of_ne hm ..

theorem settle_total_of_ne {j : ι} (hj : j ≠ i) : (a.settle k i x).total j = a.total j :=
  Function.update_of_ne hj ..

/-- Every total is the sum over any keys among which are all that something is remembered
of. -/
def Balanced (a : GroupTotals κ ι M) (groups : κ → Finset ι) : Prop :=
  ∀ keys : Finset κ, (∀ k, a.remembered k ≠ 0 → k ∈ keys) →
    ∀ i, a.total i = ∑ k ∈ keys with i ∈ groups k, a.remembered k

omit [DecidableEq κ] in
theorem balanced_zero (groups : κ → Finset ι) :
    Balanced (⟨fun _ => 0, fun _ => 0⟩ : GroupTotals κ ι M) groups :=
  fun _ _ _ => Finset.sum_const_zero.symm

/-- Adding one key that is not among them, with nothing remembered of it. -/
theorem sum_insert_of_zero (groups : κ → Finset ι) (i : ι) {remembered : κ → M} {keys : Finset κ}
    (hzero : k ∉ keys → remembered k = 0) :
    ∑ m ∈ insert k keys with i ∈ groups m, remembered m =
      ∑ m ∈ keys with i ∈ groups m, remembered m := by
  rw [Finset.sum_filter, Finset.sum_filter]
  refine Finset.sum_insert_of_eq_zero_if_notMem (fun hk => ?_)
  rw [hzero hk, ite_self]

/-- The amount of a key that belongs to one group changes. -/
theorem Balanced.settle (h : a.Balanced groups) (hk : groups k = {i}) (x : M) :
    (a.settle k i x).Balanced groups := by
  intro keys hkeys j
  -- all that is remembered before is of `k` and of these keys
  have hbefore : ∀ m, a.remembered m ≠ 0 → m ∈ insert k keys := by
    intro m hm
    by_cases hmk : m = k
    · rw [hmk]
      exact Finset.mem_insert_self k keys
    · refine Finset.mem_insert_of_mem (hkeys m ?_)
      rwa [settle_remembered_of_ne hmk]
  have hold := h (insert k keys) hbefore j
  have hzero : k ∉ keys → (a.settle k i x).remembered k = 0 := by
    intro hnot
    by_contra hne
    exact hnot (hkeys k hne)
  rw [← sum_insert_of_zero groups j hzero]
  -- the other keys stay as they are
  have hothers : ∑ m ∈ (insert k keys).erase k, (if j ∈ groups m then
        (a.settle k i x).remembered m else 0) =
      ∑ m ∈ (insert k keys).erase k, if j ∈ groups m then a.remembered m else 0 := by
    refine Finset.sum_congr rfl (fun m hm => ?_)
    rw [settle_remembered_of_ne (Finset.ne_of_mem_erase hm)]
  rw [Finset.sum_filter, ← Finset.add_sum_erase _ _ (Finset.mem_insert_self k keys)] at hold ⊢
  rw [hothers, hk]
  rw [hk] at hold
  by_cases hj : j = i
  · subst hj
    rw [if_pos (Finset.mem_singleton_self j)] at hold ⊢
    rw [settle_total_self, settle_remembered_self, hold]
    abel
  · have hnot : j ∉ ({i} : Finset ι) := Finset.notMem_singleton.mpr hj
    rw [if_neg hnot] at hold ⊢
    rw [settle_total_of_ne hj]
    exact hold

omit [DecidableEq κ] in
/-- Only the groups of keys matter of which something is remembered. -/
theorem Balanced.congr (h : a.Balanced groups)
    (hsame : ∀ k, a.remembered k ≠ 0 → groups' k = groups k) : a.Balanced groups' := by
  intro keys hkeys i
  rw [h keys hkeys i, Finset.sum_filter, Finset.sum_filter]
  refine Finset.sum_congr rfl (fun k _ => ?_)
  by_cases hk : a.remembered k = 0
  · rw [hk, ite_self, ite_self]
  · rw [hsame k hk]

/-- What is remembered of a key becomes what is remembered of another one of its group. -/
theorem Balanced.rename (h : a.Balanced groups) (hne : new ≠ old) (hnew : a.remembered new = 0)
    (hgroups : groups old = {i}) (hgroups' : groups new = {i}) :
    Balanced ⟨a.total, Function.update (Function.update a.remembered new (a.remembered old))
      old 0⟩ groups := by
  -- the new key takes the amount in, and then the old one gives it back
  have hboth := (h.settle hgroups' (a.remembered old)).settle hgroups 0
  have hsame : (a.settle new i (a.remembered old)).settle old i 0 =
      ⟨a.total, Function.update (Function.update a.remembered new (a.remembered old)) old 0⟩ := by
    simp only [GroupTotals.settle, Function.update_self, Function.update_of_ne hne.symm, hnew,
      Function.update_idem]
    congr 1
    refine Function.update_eq_self_iff.mpr ?_
    abel
  rwa [hsame] at hboth

end GroupTotals
