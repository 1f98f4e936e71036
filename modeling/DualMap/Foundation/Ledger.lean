import Mathlib.Algebra.BigOperators.Group.List.Basic
import Mathlib.Algebra.Order.BigOperators.Group.List
import Mathlib.Data.List.Nodup
import Mathlib.Tactic.Abel

/-!
# Reservation Ledgers

A fixed total, part of which is available and part of which is reserved: each holder has
reserved an amount that is fixed when it reserves and given back unchanged when it
releases. Amounts of those who hold nothing may change freely.

Main result: `Step.balanced`, available and reserved amounts add up to the total after
every step, and nobody holds two reservations.
-/

/-- What is available, who holds a reservation, and how much. -/
structure Ledger (α M : Type*) where
  available : M
  reserved : List α
  amount : α → M

namespace Ledger

variable {α M : Type*} [AddCommGroup M]

/-- The sum of all reserved amounts. -/
def held (l : Ledger α M) : M := (l.reserved.map l.amount).sum

variable [DecidableEq α]

/-- `a` reserves the amount `x`. -/
def reserve (l : Ledger α M) (a : α) (x : M) : Ledger α M :=
  ⟨l.available - x, l.reserved ++ [a], Function.update l.amount a x⟩

/-- `a` gives its reservation back. -/
def release (l : Ledger α M) (a : α) : Ledger α M :=
  ⟨l.available + l.amount a, l.reserved.erase a, l.amount⟩

variable [PartialOrder M]

/-- One step: a new reservation, the end of one, or a write to amounts nobody holds. -/
inductive Step : Ledger α M → Ledger α M → Prop where
  | reserve {l : Ledger α M} {a : α} {x : M} (hnew : a ∉ l.reserved) (hx : 0 ≤ x) :
      Step l (l.reserve a x)
  | release {l : Ledger α M} {a : α} (hmem : a ∈ l.reserved) : Step l (l.release a)
  | write {l : Ledger α M} {amount : α → M} (hheld : ∀ a ∈ l.reserved, amount a = l.amount a) :
      Step l { l with amount := amount }

/-- The reserved amounts make up for what is missing, and nobody reserved twice. -/
structure Balanced (total : M) (l : Ledger α M) : Prop where
  sum : l.available + l.held = total
  nodup : l.reserved.Nodup
  nonneg : ∀ a ∈ l.reserved, 0 ≤ l.amount a

omit [DecidableEq α] [PartialOrder M] in
theorem held_congr {l : Ledger α M} {amount : α → M}
    (h : ∀ a ∈ l.reserved, amount a = l.amount a) :
    held { l with amount := amount } = l.held := by
  apply congrArg List.sum
  exact List.map_congr_left h

omit [PartialOrder M] in
theorem held_reserve {l : Ledger α M} {a : α} (x : M) (hnew : a ∉ l.reserved) :
    (l.reserve a x).held = l.held + x := by
  -- writing the amount of `a` changes no amount that was reserved before
  have hold : l.reserved.map (Function.update l.amount a x) = l.reserved.map l.amount := by
    apply List.map_congr_left
    intro b hb
    apply Function.update_of_ne
    rintro rfl
    exact hnew hb
  simp [held, reserve, hold]

omit [PartialOrder M] in
theorem held_release {l : Ledger α M} {a : α} (hmem : a ∈ l.reserved) :
    l.amount a + (l.release a).held = l.held := by
  have hperm := (List.perm_cons_erase hmem).map l.amount
  rw [held, held, hperm.sum_eq, List.map_cons, List.sum_cons]
  rfl

theorem Step.balanced {total : M} {l l' : Ledger α M} (h : Balanced total l)
    (hstep : Step l l') : Balanced total l' := by
  cases hstep with
  | @reserve a x hnew hx =>
    -- what becomes reserved is no longer available
    refine ⟨?_, ?_, ?_⟩
    · rw [held_reserve x hnew, ← h.sum]
      simp only [Ledger.reserve]
      abel
    · apply List.nodup_append.mpr
      refine ⟨h.nodup, List.nodup_singleton a, ?_⟩
      intro b hb c hc hbc
      rw [List.mem_singleton.mp hc] at hbc
      exact hnew (hbc ▸ hb)
    · intro b hb
      simp only [Ledger.reserve, List.mem_append, List.mem_singleton] at hb ⊢
      -- the new holder has just got its amount, the others keep theirs
      by_cases hba : b = a
      · rw [hba, Function.update_self]
        exact hx
      · rw [Function.update_of_ne hba]
        exact h.nonneg b (hb.resolve_right hba)
  | @release a hmem =>
    -- the amount given back is the one that was reserved
    refine ⟨?_, h.nodup.erase a, ?_⟩
    · rw [← h.sum, ← held_release hmem]
      simp only [Ledger.release]
      abel
    · intro b hb
      exact h.nonneg b (List.mem_of_mem_erase hb)
  | @write amount hheld =>
    -- nobody holds what is written
    refine ⟨?_, h.nodup, ?_⟩
    · rw [held_congr hheld]
      exact h.sum
    · intro b hb
      show 0 ≤ amount b
      rw [hheld b hb]
      exact h.nonneg b hb

omit [DecidableEq α] in
theorem Balanced.held_nonneg [IsOrderedAddMonoid M] {total : M} {l : Ledger α M}
    (h : Balanced total l) : 0 ≤ l.held := by
  apply List.sum_nonneg
  intro x hx
  obtain ⟨a, ha, rfl⟩ := List.mem_map.mp hx
  exact h.nonneg a ha

end Ledger
