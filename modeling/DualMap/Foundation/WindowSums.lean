import DualMap.Foundation.OrderedDict
import Mathlib.Algebra.BigOperators.Group.List.Basic
import Mathlib.Algebra.Order.BigOperators.Group.List

/-!
# Sums over a Window

A window is a list of entries, each with a key and an amount. A dictionary of running sums
follows it (`SumsTo`): it adds the amount of an entry that comes in, subtracts that of an
entry that leaves, and forgets a key with its last entry. Such a dictionary holds, for each
key with an entry, the sum of the amounts of its entries, and no other key. Keys can also be
renamed, all their entries at once.
-/

namespace OrderedDict

variable {κ M : Type*} [DecidableEq κ]

/-! ## The sum of one key -/

/-- What the entries of the key amount to. -/
def sumOf [AddCommMonoid M] (entries : List (κ × M)) (key : κ) : M :=
  ((entries.filter (fun e => e.1 = key)).map Prod.snd).sum

section SumOf

variable [AddCommMonoid M] {entries : List (κ × M)} {key : κ}

theorem sumOf_cons (e : κ × M) :
    sumOf (e :: entries) key = (if e.1 = key then e.2 else 0) + sumOf entries key := by
  unfold sumOf
  rw [List.filter_cons]
  by_cases h : e.1 = key <;> simp [h]

theorem sumOf_append (entries entries' : List (κ × M)) (key : κ) :
    sumOf (entries ++ entries') key = sumOf entries key + sumOf entries' key := by
  simp [sumOf]

theorem sumOf_eq_zero (h : key ∉ entries.map Prod.fst) : sumOf entries key = 0 := by
  induction entries with
  | nil => rfl
  | cons e entries ih =>
    rw [List.map_cons, List.mem_cons, not_or] at h
    rw [sumOf_cons, if_neg (Ne.symm h.1), ih h.2, add_zero]

theorem sumOf_mono [PartialOrder M] [IsOrderedAddMonoid M] {α : Type*} {f g : α → M}
    (key : α → κ) {l : List α} (h : ∀ a ∈ l, f a ≤ g a) (k : κ) :
    sumOf (l.map fun a => (key a, f a)) k ≤ sumOf (l.map fun a => (key a, g a)) k := by
  induction l with
  | nil => exact le_refl _
  | cons a l ih =>
    simp only [List.map_cons, sumOf_cons]
    refine add_le_add ?_ (ih (fun b hb => h b (List.mem_cons_of_mem _ hb)))
    split
    · exact h a List.mem_cons_self
    · exact le_refl _

theorem sumOf_nonneg [PartialOrder M] [IsOrderedAddMonoid M]
    (h : ∀ e ∈ entries, 0 ≤ e.2) : 0 ≤ sumOf entries key := by
  refine List.sum_nonneg ?_
  intro a ha
  obtain ⟨e, he, rfl⟩ := List.mem_map.mp ha
  exact h e (List.mem_of_mem_filter he)

/-- A key with an entry has a positive sum, if all amounts are positive. -/
theorem sumOf_pos [PartialOrder M] [IsOrderedCancelAddMonoid M] (h : ∀ e ∈ entries, 0 < e.2)
    (hkey : key ∈ entries.map Prod.fst) : 0 < sumOf entries key := by
  induction entries with
  | nil => exact absurd hkey List.not_mem_nil
  | cons e entries ih =>
    have htail : ∀ d ∈ entries, 0 < d.2 := fun d hd => h d (List.mem_cons_of_mem _ hd)
    rw [sumOf_cons]
    by_cases hin : key ∈ entries.map Prod.fst
    · have hpos := ih htail hin
      split
      · exact add_pos (h e List.mem_cons_self) hpos
      · rwa [zero_add]
    · -- the entry is the only one of the key
      have hself : e.1 = key := by
        rcases List.mem_cons.mp hkey with heq | hmem
        · exact heq.symm
        · exact absurd hmem hin
      rw [if_pos hself, sumOf_eq_zero hin, add_zero]
      exact h e List.mem_cons_self

theorem sumOf_rename {old new : κ} (hnew : new ∉ entries.map Prod.fst) (hne : new ≠ old) :
    sumOf (entries.map fun e => (if e.1 = old then new else e.1, e.2)) key =
      if key = new then sumOf entries old else if key = old then 0 else sumOf entries key := by
  induction entries with
  | nil => simp [sumOf]
  | cons e entries ih =>
    rw [List.map_cons, List.mem_cons, not_or] at hnew
    simp only [List.map_cons, sumOf_cons, ih hnew.2]
    have he := hnew.1
    by_cases hk : key = new
    · subst hk
      by_cases ho : e.1 = old
      · simp [ho]
      · simp [ho, Ne.symm he]
    · by_cases hko : key = old
      · subst hko
        by_cases ho : e.1 = key
        · simp [ho, hne, Ne.symm hne]
        · simp [ho, Ne.symm hne]
      · by_cases ho : e.1 = old
        · simp [ho, hk, hko, Ne.symm hk, Ne.symm hko]
        · simp [ho, hk, hko]

end SumOf

/-! ## Keys that follow the window -/

variable {ν : Type*} {keys : List κ} {d : OrderedDict κ ν} {key : κ}

/-- The keys of the dictionary are those of the window. -/
def KeysOf (d : OrderedDict κ ν) (keys : List κ) : Prop := ∀ key, key ∈ d.keys ↔ key ∈ keys

theorem KeysOf.set (h : d.KeysOf keys) (key : κ) (value : ν) :
    (d.set key value).KeysOf (keys ++ [key]) := by
  intro other
  rw [mem_keys_set, h other, List.mem_append, List.mem_singleton, or_comm]

/-- An entry leaves, and its key keeps another. -/
theorem KeysOf.subtract [Zero ν] [Add ν] (h : d.KeysOf (key :: keys)) (hmem : key ∈ keys)
    (amount : ν) : (d.add key amount).KeysOf keys := by
  intro other
  rw [mem_keys_add, h other, List.mem_cons]
  constructor
  · rintro (rfl | rfl | hin)
    · exact hmem
    · exact hmem
    · exact hin
  · exact fun hin => Or.inr (Or.inr hin)

omit [DecidableEq κ] in
theorem KeysOf.tail_of_mem (h : d.KeysOf (key :: keys)) (hmem : key ∈ keys) :
    d.KeysOf keys := by
  intro other
  rw [h other, List.mem_cons]
  refine or_iff_right_of_imp ?_
  rintro rfl
  exact hmem

/-- The last entry of a key leaves. -/
theorem KeysOf.erase (h : d.KeysOf (key :: keys)) (hmem : key ∉ keys) :
    (d.erase key).KeysOf keys := by
  intro other
  rw [mem_keys_erase, h other, List.mem_cons]
  constructor
  · rintro ⟨hne, heq | hin⟩
    · exact absurd heq hne
    · exact hin
  · intro hin
    refine ⟨?_, Or.inr hin⟩
    rintro rfl
    exact hmem hin

theorem KeysOf.forget [Zero ν] [Add ν] (h : d.KeysOf (key :: keys)) (hmem : key ∉ keys)
    (amount : ν) : ((d.add key amount).erase key).KeysOf keys := by
  refine KeysOf.erase (fun other => ?_) hmem
  rw [mem_keys_add, h other, List.mem_cons]
  exact or_self_left

/-- All entries of a key get another key. -/
theorem KeysOf.rename {old new : κ} (h : d.KeysOf keys) (hold : old ∈ keys) :
    (d.rename old new).KeysOf (keys.map fun key => if key = old then new else key) := by
  intro other
  rw [mem_keys_rename ((h old).mpr hold), h other, List.mem_map]
  constructor
  · rintro (rfl | ⟨ho, hin⟩)
    · exact ⟨old, hold, if_pos rfl⟩
    · exact ⟨other, hin, if_neg ho⟩
  · rintro ⟨key, hin, rfl⟩
    by_cases hkey : key = old
    · rw [if_pos hkey]
      exact Or.inl rfl
    · rw [if_neg hkey]
      exact Or.inr ⟨hkey, hin⟩

/-! ## Running sums -/

/-- The dictionary holds the sums of the keys with an entry. -/
structure SumsTo [AddCommMonoid M] (d : OrderedDict κ M) (entries : List (κ × M)) : Prop where
  keysOf : d.KeysOf (entries.map Prod.fst)
  getD : ∀ key, (d.get? key).getD 0 = sumOf entries key

section SumsTo

variable [AddCommGroup M] {sums : OrderedDict κ M} {entries : List (κ × M)} {amount : M}

theorem sumsTo_empty : (empty : OrderedDict κ M).SumsTo [] where
  keysOf := fun _ => Iff.rfl
  getD := fun _ => rfl

theorem SumsTo.get? (h : sums.SumsTo entries) (hkey : key ∈ entries.map Prod.fst) :
    sums.get? key = some (sumOf entries key) := by
  obtain ⟨value, hvalue⟩ := get?_of_mem_keys ((h.keysOf key).mpr hkey)
  have hsum := h.getD key
  rw [hvalue] at hsum ⊢
  exact congrArg some hsum

theorem getD_add (sums : OrderedDict κ M) (key : κ) (amount : M) (other : κ) :
    ((sums.add key amount).get? other).getD 0 =
      (sums.get? other).getD 0 + if other = key then amount else 0 := by
  rw [add, get?_set]
  by_cases h : other = key
  · rw [if_pos h, if_pos h, h]
    rfl
  · rw [if_neg h, if_neg h, add_zero]

/-- An entry comes in. -/
theorem SumsTo.append (h : sums.SumsTo entries) (key : κ) (amount : M) :
    (sums.add key amount).SumsTo (entries ++ [(key, amount)]) where
  keysOf := by
    rw [List.map_append]
    exact h.keysOf.set key _
  getD := by
    intro other
    rw [getD_add, h.getD, sumOf_append, sumOf_cons]
    by_cases hother : other = key
    · simp [hother, sumOf]
    · simp [hother, Ne.symm hother, sumOf]

theorem SumsTo.getD_subtract (h : sums.SumsTo ((key, amount) :: entries)) (other : κ) :
    ((sums.add key (-amount)).get? other).getD 0 = sumOf entries other := by
  rw [getD_add, h.getD, sumOf_cons]
  by_cases hother : other = key
  · simp [hother]
  · simp [hother, Ne.symm hother]

/-- An entry leaves, and its key keeps another. -/
theorem SumsTo.subtract (h : sums.SumsTo ((key, amount) :: entries))
    (hmem : key ∈ entries.map Prod.fst) : (sums.add key (-amount)).SumsTo entries where
  keysOf := h.keysOf.subtract hmem _
  getD := h.getD_subtract

/-- The last entry of a key leaves. -/
theorem SumsTo.forget (h : sums.SumsTo ((key, amount) :: entries))
    (hmem : key ∉ entries.map Prod.fst) :
    ((sums.add key (-amount)).erase key).SumsTo entries where
  keysOf := h.keysOf.forget hmem _
  getD := by
    intro other
    by_cases hother : other = key
    · rw [hother, get?_erase_self, sumOf_eq_zero hmem]
      rfl
    · rw [get?_erase_of_ne _ hother, h.getD_subtract]

/-- All entries of a key get another key, which had none. -/
theorem SumsTo.rename {old new : κ} (h : sums.SumsTo entries)
    (hold : old ∈ entries.map Prod.fst) (hnew : new ∉ entries.map Prod.fst) :
    (sums.rename old new).SumsTo
      (entries.map fun e => (if e.1 = old then new else e.1, e.2)) where
  keysOf := by
    have hkeys : (sums.rename old new).KeysOf _ := h.keysOf.rename hold
    rwa [List.map_map] at hkeys ⊢
  getD := by
    intro other
    have hne : new ≠ old := fun heq => hnew (heq ▸ hold)
    rw [sumOf_rename hnew hne, OrderedDict.rename, h.get? hold]
    simp only [get?_set]
    by_cases ho : other = new
    · rw [if_pos ho, if_pos ho]
      rfl
    · rw [if_neg ho, if_neg ho]
      by_cases hold' : other = old
      · rw [if_pos hold', hold', get?_erase_self]
        rfl
      · rw [if_neg hold', get?_erase_of_ne _ hold', h.getD]

end SumsTo

end OrderedDict
