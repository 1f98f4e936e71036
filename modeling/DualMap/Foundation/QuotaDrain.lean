import Mathlib.Algebra.BigOperators.Group.Finset.Basic
import Mathlib.Algebra.Order.BigOperators.Group.Finset

/-!
# Taking Out Items until a Quota Is Met

A set of items is drained: an item of least key is taken out, and the next one, and so on
until the sizes of the items taken reach a quota or no item is left. `Drains` relates the set
to the items taken, in their order.

Main results:
- `Drains.dropLast_lt`: without the last item the quota was not met;
- `Drains.met_or_empty`: at the end it is met or no item is left;
- `Drains.mem_iff`: with distinct keys, an item is taken iff the items before it do not meet
  the quota.
-/

variable {α κ M : Type*} [DecidableEq α] [LinearOrder κ] [AddCommMonoid M] [LinearOrder M]

/-- `Drains key size quota s taken xs`: of the items in `s`, when those taken before had the
sizes `taken`, the items `xs` are taken one after the other. -/
inductive Drains (key : α → κ) (size : α → M) (quota : M) : Finset α → M → List α → Prop where
  /-- The quota is met. -/
  | enough {s : Finset α} {taken : M} (h : quota ≤ taken) : Drains key size quota s taken []
  /-- No item is left. -/
  | empty {taken : M} : Drains key size quota ∅ taken []
  | take {s : Finset α} {taken : M} {x : α} {xs : List α} (hmore : taken < quota) (hx : x ∈ s)
      (hleast : ∀ y ∈ s, key x ≤ key y)
      (hrest : Drains key size quota (s.erase x) (taken + size x) xs) :
      Drains key size quota s taken (x :: xs)

namespace Drains

variable {key : α → κ} {size : α → M} {quota taken : M} {s : Finset α} {xs : List α}

theorem mem (h : Drains key size quota s taken xs) : ∀ x ∈ xs, x ∈ s := by
  induction h with
  | enough => simp
  | empty => simp
  | take _ hx _ _ ih =>
    intro y hy
    rcases List.mem_cons.mp hy with rfl | hy
    · exact hx
    · exact Finset.mem_of_mem_erase (ih y hy)

theorem nodup (h : Drains key size quota s taken xs) : xs.Nodup := by
  induction h with
  | enough => exact List.nodup_nil
  | empty => exact List.nodup_nil
  | take _ _ _ hrest ih =>
    refine List.nodup_cons.mpr ⟨fun hin => ?_, ih⟩
    exact Finset.notMem_erase _ _ (hrest.mem _ hin)

/-- The last item is taken only because those before it do not meet the quota. -/
theorem dropLast_lt (h : Drains key size quota s taken xs) (hne : xs ≠ []) :
    taken + (xs.dropLast.map size).sum < quota := by
  induction h with
  | enough => exact absurd rfl hne
  | empty => exact absurd rfl hne
  | @take s taken x xs hmore hx hleast hrest ih =>
    cases xs with
    | nil => simpa using hmore
    | cons y ys =>
      have := ih (List.cons_ne_nil y ys)
      rwa [List.dropLast_cons_cons, List.map_cons, List.sum_cons, ← add_assoc]

/-- Afterwards the quota is met, or every item was taken. -/
theorem met_or_empty (h : Drains key size quota s taken xs) :
    quota ≤ taken + (xs.map size).sum ∨ ∀ x ∈ s, x ∈ xs := by
  induction h with
  | enough h => exact .inl (by simpa using h)
  | empty => exact .inr (by simp)
  | @take s taken x xs _ _ _ _ ih =>
    rcases ih with hmet | hall
    · left
      rwa [List.map_cons, List.sum_cons, ← add_assoc]
    · right
      intro y hy
      by_cases hyx : y = x
      · exact hyx ▸ List.mem_cons_self
      · exact List.mem_cons_of_mem _ (hall y (Finset.mem_erase.mpr ⟨hyx, hy⟩))

/-- With distinct keys the items taken are those before which the quota is not met. -/
theorem mem_iff [IsOrderedAddMonoid M] (h : Drains key size quota s taken xs)
    (hsize : ∀ x, 0 ≤ size x) (hinj : Set.InjOn key s) {x : α} :
    x ∈ xs ↔ x ∈ s ∧ taken + ∑ y ∈ s.filter (fun y => key y < key x), size y < quota := by
  induction h with
  | enough h =>
    -- nothing comes off what was taken before
    have hnot (t : Finset α) : ¬ _ + ∑ y ∈ t, size y < quota :=
      not_lt.mpr (le_add_of_le_of_nonneg h (Finset.sum_nonneg fun y _ => hsize y))
    exact ⟨fun hx => absurd hx List.not_mem_nil, fun hx => absurd hx.2 (hnot _)⟩
  | empty => simp
  | @take s taken x₀ xs hmore hx₀ hleast _ ih =>
    have ih := ih (hinj.mono (Finset.coe_subset.mpr (Finset.erase_subset x₀ s)))
    by_cases hx : x = x₀
    · subst hx
      have hnone : s.filter (fun y => key y < key x) = ∅ :=
        Finset.filter_eq_empty_iff.mpr (fun y hy => not_lt.mpr (hleast y hy))
      simp [hnone, hmore, hx₀]
    rw [List.mem_cons, or_iff_right hx, ih, Finset.mem_erase, and_iff_right hx]
    refine and_congr_right (fun hxs => ?_)
    -- the first item comes before every other one
    have hlt : key x₀ < key x :=
      lt_of_le_of_ne (hleast x hxs) (fun heq => hx (hinj hx₀ hxs heq).symm)
    have hsum := Finset.add_sum_erase (s.filter (fun y => key y < key x)) size
      (Finset.mem_filter.mpr ⟨hx₀, hlt⟩)
    rw [← hsum, Finset.filter_erase, add_assoc]

end Drains
