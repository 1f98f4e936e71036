import Mathlib.Data.List.Nodup
import Mathlib.Data.List.Perm.Basic

/-!
# Insertion-Ordered Dictionaries

Python's `dict` and `collections.OrderedDict`: a finite map that remembers the order in
which its keys were inserted. Assigning to a key that is present keeps its position,
`moveToEnd` makes it the newest one, and items can be popped from either end.

The entries carry the proof that their keys are pairwise distinct, so every value of the
type is a dictionary. `keys` lists the keys from the oldest to the newest.
-/

/-- A dictionary whose entries are listed from the oldest to the newest. -/
structure OrderedDict (κ ν : Type*) where
  entries : List (κ × ν)
  nodup : (entries.map Prod.fst).Nodup

namespace OrderedDict

variable {κ ν : Type*}

/-- The keys, from the oldest to the newest. -/
def keys (d : OrderedDict κ ν) : List κ := d.entries.map Prod.fst

/-- The values, in the order of their keys. -/
def values (d : OrderedDict κ ν) : List ν := d.entries.map Prod.snd

/-- The dictionary without entries. -/
def empty : OrderedDict κ ν := ⟨[], List.nodup_nil⟩

@[simp] theorem keys_empty : (empty : OrderedDict κ ν).keys = [] := rfl

@[simp] theorem values_empty : (empty : OrderedDict κ ν).values = [] := rfl

theorem keys_nodup (d : OrderedDict κ ν) : d.keys.Nodup := d.nodup

theorem length_keys (d : OrderedDict κ ν) : d.keys.length = d.entries.length :=
  List.length_map ..

theorem length_values (d : OrderedDict κ ν) : d.values.length = d.keys.length := by
  rw [length_keys]; exact List.length_map ..

/-! ## Popping from either end -/

/-- `popitem(last=False)`: the oldest entry and the rest; `none` when empty. -/
def popFirst (d : OrderedDict κ ν) : Option ((κ × ν) × OrderedDict κ ν) :=
  match d with
  | ⟨[], _⟩ => none
  | ⟨e :: es, h⟩ => some (e, ⟨es, (List.nodup_cons.mp h).2⟩)

/-- `popitem()`: the dictionary without its newest entry. -/
def dropLast (d : OrderedDict κ ν) : OrderedDict κ ν :=
  ⟨d.entries.dropLast, d.nodup.sublist ((List.dropLast_sublist _).map _)⟩

theorem popFirst_eq_none {d : OrderedDict κ ν} : d.popFirst = none ↔ d.keys = [] := by
  obtain ⟨es, h⟩ := d
  cases es with
  | nil => simp [popFirst, keys]
  | cons e es => simp [popFirst, keys]

theorem popFirst_entries {d rest : OrderedDict κ ν} {e : κ × ν}
    (h : d.popFirst = some (e, rest)) : d.entries = e :: rest.entries := by
  obtain ⟨es, hnd⟩ := d
  cases es with
  | nil => simp [popFirst] at h
  | cons e' es =>
    simp only [popFirst, Option.some.injEq, Prod.mk.injEq] at h
    obtain ⟨rfl, rfl⟩ := h
    rfl

theorem popFirst_keys {d rest : OrderedDict κ ν} {e : κ × ν}
    (h : d.popFirst = some (e, rest)) : d.keys = e.1 :: rest.keys := by
  rw [keys, popFirst_entries h]
  rfl

/-! ## Appending a new key -/

/-- Add an entry for a new key at the end. -/
def append (d : OrderedDict κ ν) (key : κ) (value : ν) (h : key ∉ d.keys) :
    OrderedDict κ ν :=
  ⟨d.entries ++ [(key, value)], by
    rw [List.map_append]
    exact List.nodup_append.mpr ⟨d.nodup, List.nodup_singleton key, by
      intro a ha b hb hab
      simp only [List.map_cons, List.map_nil, List.mem_singleton] at hb
      exact h (by rw [← hb, ← hab]; exact ha)⟩⟩

theorem keys_append (d : OrderedDict κ ν) (key : κ) (value : ν) (h : key ∉ d.keys) :
    (d.append key value h).keys = d.keys ++ [key] := by
  simp [keys, append]

theorem values_append (d : OrderedDict κ ν) (key : κ) (value : ν) (h : key ∉ d.keys) :
    (d.append key value h).values = d.values ++ [value] := by
  simp [values, append]

/-! ## Lookup and update -/

section Lookup

variable [DecidableEq κ]

/-- `d.get(key)`. -/
def get? (d : OrderedDict κ ν) (key : κ) : Option ν :=
  (d.entries.find? (fun e => e.1 = key)).map Prod.snd

/-- The entries without the one of `key`, in the same order. -/
def erase (d : OrderedDict κ ν) (key : κ) : OrderedDict κ ν :=
  ⟨d.entries.filter (fun e => e.1 ≠ key), d.nodup.sublist (List.filter_sublist.map _)⟩

/-- `d[key] = value`: a key that is present keeps its position. -/
def set (d : OrderedDict κ ν) (key : κ) (value : ν) : OrderedDict κ ν :=
  -- the value is replaced where the entry stands
  if h : key ∈ d.keys then
    ⟨d.entries.map (fun e => if e.1 = key then (key, value) else e), by
      have hkeys : (d.entries.map (fun e => if e.1 = key then (key, value) else e)).map Prod.fst =
          d.entries.map Prod.fst := by
        rw [List.map_map]
        refine List.map_congr_left (fun e _ => ?_)
        by_cases he : e.1 = key <;> simp [he]
      rw [hkeys]
      exact d.nodup⟩
  else d.append key value h

theorem keys_erase (d : OrderedDict κ ν) (key : κ) :
    (d.erase key).keys = d.keys.filter (fun k => k ≠ key) := by
  simp [keys, erase, List.filter_map, Function.comp_def]

theorem key_notMem_erase (d : OrderedDict κ ν) (key : κ) : key ∉ (d.erase key).keys := by
  simp [keys_erase]

/-- `d.move_to_end(key)` for a key that is present. -/
def moveToEnd (d : OrderedDict κ ν) (key : κ) : OrderedDict κ ν :=
  match d.get? key with
  | some value => (d.erase key).append key value (d.key_notMem_erase key)
  | none => d

theorem get?_eq_none {d : OrderedDict κ ν} {key : κ} : d.get? key = none ↔ key ∉ d.keys := by
  simp only [get?, Option.map_eq_none_iff, List.find?_eq_none, decide_eq_true_eq, keys,
    List.mem_map, not_exists, not_and]

theorem mem_entries_of_get? {d : OrderedDict κ ν} {key : κ} {value : ν}
    (h : d.get? key = some value) : (key, value) ∈ d.entries := by
  simp only [get?, Option.map_eq_some_iff] at h
  obtain ⟨e, he, rfl⟩ := h
  have hkey : e.1 = key := by simpa using List.find?_some he
  rw [← hkey]
  exact List.mem_of_find?_eq_some he

theorem get?_of_mem_keys {d : OrderedDict κ ν} {key : κ} (h : key ∈ d.keys) :
    ∃ value, d.get? key = some value := by
  cases hget : d.get? key with
  | none => exact absurd h (get?_eq_none.mp hget)
  | some value => exact ⟨value, rfl⟩

/-- Removing a key takes exactly its entry out. -/
theorem entries_perm_erase {d : OrderedDict κ ν} {key : κ} {value : ν}
    (h : d.get? key = some value) : d.entries.Perm ((key, value) :: (d.erase key).entries) := by
  obtain ⟨es, hnd⟩ := d
  have hmem : (key, value) ∈ es := mem_entries_of_get? h
  -- the entry splits the list, and no other entry has its key
  obtain ⟨before, after, rfl⟩ := List.append_of_mem hmem
  have hnot : ∀ e ∈ before ++ after, e.1 ≠ key := by
    simp only [List.map_append, List.map_cons, List.nodup_append, List.nodup_cons] at hnd
    obtain ⟨-, ⟨hafter, -⟩, hdisj⟩ := hnd
    intro e he heq
    rcases List.mem_append.mp he with hb | ha
    · exact hdisj e.1 (List.mem_map_of_mem hb) key (List.mem_cons_self ..) heq
    · exact hafter (heq ▸ List.mem_map_of_mem ha)
  -- so the filter drops this entry and nothing else
  have herase : (before ++ (key, value) :: after).filter (fun e => decide (e.1 ≠ key)) =
      before ++ after := by
    rw [List.filter_append, List.filter_cons_of_neg (by simp), ← List.filter_append]
    exact List.filter_eq_self.mpr (fun e he => by simpa using hnot e he)
  show (before ++ (key, value) :: after).Perm
    ((key, value) :: (before ++ (key, value) :: after).filter (fun e => decide (e.1 ≠ key)))
  rw [herase]
  exact List.perm_middle

theorem values_perm_erase {d : OrderedDict κ ν} {key : κ} {value : ν}
    (h : d.get? key = some value) : d.values.Perm (value :: (d.erase key).values) :=
  (entries_perm_erase h).map Prod.snd

theorem set_of_notMem {d : OrderedDict κ ν} {key : κ} (value : ν) (h : key ∉ d.keys) :
    d.set key value = d.append key value h := by
  simp [set, h]

theorem keys_set_of_notMem {d : OrderedDict κ ν} {key : κ} (value : ν) (h : key ∉ d.keys) :
    (d.set key value).keys = d.keys ++ [key] := by
  rw [set_of_notMem value h, keys_append]

theorem values_set_of_notMem {d : OrderedDict κ ν} {key : κ} (value : ν) (h : key ∉ d.keys) :
    (d.set key value).values = d.values ++ [value] := by
  rw [set_of_notMem value h, values_append]

/-- `move_to_end` only reorders the entries. -/
theorem entries_moveToEnd_perm (d : OrderedDict κ ν) (key : κ) :
    (d.moveToEnd key).entries.Perm d.entries := by
  cases hget : d.get? key with
  | none => simp [moveToEnd, hget]
  | some value =>
    have happend : (d.moveToEnd key).entries = (d.erase key).entries ++ [(key, value)] := by
      simp [moveToEnd, hget, append]
    rw [happend]
    exact (List.perm_append_singleton _ _).trans (entries_perm_erase hget).symm

/-- `move_to_end` makes the key the newest one and keeps the others in order. -/
theorem keys_moveToEnd {d : OrderedDict κ ν} {key : κ} (h : key ∈ d.keys) :
    (d.moveToEnd key).keys = d.keys.filter (fun k => k ≠ key) ++ [key] := by
  obtain ⟨value, hvalue⟩ := get?_of_mem_keys h
  simp only [moveToEnd, hvalue, keys_append, keys_erase]

/-- A key just appended is already the newest one. -/
theorem keys_moveToEnd_set {d : OrderedDict κ ν} {key : κ} (value : ν) (h : key ∉ d.keys) :
    ((d.set key value).moveToEnd key).keys = d.keys ++ [key] := by
  have hkeys := keys_set_of_notMem value h
  -- the filter finds nothing to drop among the older keys
  have hself : d.keys.filter (fun k => decide (k ≠ key)) = d.keys := by
    refine List.filter_eq_self.mpr (fun k hk => ?_)
    simp only [ne_eq, decide_eq_true_eq]
    rintro rfl
    exact h hk
  rw [keys_moveToEnd (by rw [hkeys]; simp), hkeys, List.filter_append, hself]
  simp

/-! ### Reading back -/

/-- `{key: value}`. -/
def single (key : κ) (value : ν) : OrderedDict κ ν := empty.set key value

@[simp] theorem get?_empty (key : κ) : (empty : OrderedDict κ ν).get? key = none := rfl

theorem get?_of_mem_entries {d : OrderedDict κ ν} {key : κ} {value : ν}
    (h : (key, value) ∈ d.entries) : d.get? key = some value := by
  obtain ⟨other, hother⟩ := get?_of_mem_keys (List.mem_map_of_mem (f := Prod.fst) h)
  -- an entry is determined by its key
  have hsame := List.inj_on_of_nodup_map d.nodup (mem_entries_of_get? hother) h rfl
  rw [hother, (Prod.mk.inj hsame).2]

theorem get?_eq_some {d : OrderedDict κ ν} {key : κ} {value : ν} :
    d.get? key = some value ↔ (key, value) ∈ d.entries :=
  ⟨mem_entries_of_get?, get?_of_mem_entries⟩

theorem mem_keys_iff {d : OrderedDict κ ν} {key : κ} :
    key ∈ d.keys ↔ ∃ value, d.get? key = some value := by
  refine ⟨get?_of_mem_keys, ?_⟩
  rintro ⟨value, hvalue⟩
  exact List.mem_map_of_mem (f := Prod.fst) (mem_entries_of_get? hvalue)

theorem mem_values_iff {d : OrderedDict κ ν} {value : ν} :
    value ∈ d.values ↔ ∃ key, d.get? key = some value := by
  constructor
  · intro h
    obtain ⟨e, he, rfl⟩ := List.mem_map.mp h
    exact ⟨e.1, get?_of_mem_entries he⟩
  · rintro ⟨key, hkey⟩
    exact List.mem_map_of_mem (f := Prod.snd) (mem_entries_of_get? hkey)

@[simp] theorem get?_moveToEnd (d : OrderedDict κ ν) (key other : κ) :
    (d.moveToEnd key).get? other = d.get? other := by
  apply Option.ext
  intro v
  rw [get?_eq_some, get?_eq_some, (entries_moveToEnd_perm d key).mem_iff]

/-- The entries after an assignment are the new one and those of the other keys. -/
theorem mem_entries_set {d : OrderedDict κ ν} {key : κ} {value : ν} {e : κ × ν} :
    e ∈ (d.set key value).entries ↔ e = (key, value) ∨ (e ∈ d.entries ∧ e.1 ≠ key) := by
  unfold set
  split
  -- an existing key keeps its place, a new one goes to the end
  · next hmem =>
    rw [List.mem_map]
    constructor
    · rintro ⟨e', he', rfl⟩
      by_cases hkey : e'.1 = key
      · exact Or.inl (if_pos hkey)
      · rw [if_neg hkey]
        exact Or.inr ⟨he', hkey⟩
    · rintro (rfl | ⟨he, hkey⟩)
      · obtain ⟨e', he', hkey⟩ := List.mem_map.mp hmem
        exact ⟨e', he', if_pos hkey⟩
      · exact ⟨e, he, if_neg hkey⟩
  · next hnew =>
    have hother : e ∈ d.entries → e.1 ≠ key := by
      rintro he rfl
      exact hnew (List.mem_map_of_mem he)
    simp only [append, List.mem_append, List.mem_singleton]
    tauto

@[simp] theorem get?_set_self (d : OrderedDict κ ν) (key : κ) (value : ν) :
    (d.set key value).get? key = some value :=
  get?_of_mem_entries (mem_entries_set.mpr (Or.inl rfl))

theorem get?_set_of_ne (d : OrderedDict κ ν) {key other : κ} (value : ν) (h : other ≠ key) :
    (d.set key value).get? other = d.get? other := by
  apply Option.ext
  intro v
  rw [get?_eq_some, get?_eq_some, mem_entries_set]
  simp [h]

theorem get?_set (d : OrderedDict κ ν) (key other : κ) (value : ν) :
    (d.set key value).get? other = if other = key then some value else d.get? other := by
  split
  · next h => rw [h, get?_set_self]
  · next h => exact get?_set_of_ne d value h

@[simp] theorem get?_single_self (key : κ) (value : ν) :
    (single key value).get? key = some value := get?_set_self ..

theorem get?_single_eq_some {key other : κ} {value v : ν} :
    (single key value).get? other = some v ↔ other = key ∧ v = value := by
  rw [single, get?_set]
  split
  · next h => simp [h, eq_comm]
  · next h => simp [h]

@[simp] theorem get?_erase_self (d : OrderedDict κ ν) (key : κ) : (d.erase key).get? key = none :=
  get?_eq_none.mpr (d.key_notMem_erase key)

theorem get?_erase_of_ne (d : OrderedDict κ ν) {key other : κ} (h : other ≠ key) :
    (d.erase key).get? other = d.get? other := by
  apply Option.ext
  intro v
  rw [get?_eq_some, get?_eq_some]
  simp [erase, h]

theorem get?_of_get?_erase {d : OrderedDict κ ν} {key other : κ} {value : ν}
    (h : (d.erase key).get? other = some value) : d.get? other = some value := by
  by_cases hother : other = key
  · rw [hother, get?_erase_self] at h
    cases h
  · rwa [get?_erase_of_ne d hother] at h

theorem mem_keys_set {d : OrderedDict κ ν} {key other : κ} {value : ν} :
    other ∈ (d.set key value).keys ↔ other = key ∨ other ∈ d.keys := by
  rw [mem_keys_iff, mem_keys_iff]
  by_cases h : other = key
  · simp [h]
  · simp [get?_set_of_ne d value h, h]

theorem mem_keys_erase {d : OrderedDict κ ν} {key other : κ} :
    other ∈ (d.erase key).keys ↔ other ≠ key ∧ other ∈ d.keys := by
  rw [keys_erase, List.mem_filter, decide_eq_true_eq]
  exact and_comm

/-! ### Default values -/

/-- `d[key]` of a `defaultdict`: a missing key is put there with the value 0. -/
def read [Zero ν] (d : OrderedDict κ ν) (key : κ) : ν × OrderedDict κ ν :=
  match d.get? key with
  | some value => (value, d)
  | none => (0, d.set key 0)

/-- `d[key] += amount` of a `defaultdict`. -/
def add [Zero ν] [Add ν] (d : OrderedDict κ ν) (key : κ) (amount : ν) : OrderedDict κ ν :=
  d.set key ((d.get? key).getD 0 + amount)

/-- `d[new] = d.pop(old)` where `old` is present. -/
def rename (d : OrderedDict κ ν) (old new : κ) : OrderedDict κ ν :=
  match d.get? old with
  | some value => (d.erase old).set new value
  | none => d

theorem mem_keys_rename {d : OrderedDict κ ν} {old new other : κ} (h : old ∈ d.keys) :
    other ∈ (d.rename old new).keys ↔ other = new ∨ (other ≠ old ∧ other ∈ d.keys) := by
  obtain ⟨value, hvalue⟩ := get?_of_mem_keys h
  rw [rename, hvalue]
  exact mem_keys_set.trans (or_congr_right mem_keys_erase)

theorem get?_rename {d : OrderedDict κ ν} {old new : κ} (h : old ∈ d.keys) (other : κ) :
    (d.rename old new).get? other =
      if other = new then d.get? old else if other = old then none else d.get? other := by
  obtain ⟨value, hvalue⟩ := get?_of_mem_keys h
  rw [rename, hvalue]
  simp only [get?_set]
  split
  · rfl
  · split
    · next heq =>
      rw [heq]
      exact get?_erase_self d old
    · next hne => exact get?_erase_of_ne d hne

theorem read_of_get? [Zero ν] {d : OrderedDict κ ν} {key : κ} {value : ν}
    (h : d.get? key = some value) : d.read key = (value, d) := by
  rw [read, h]

theorem mem_keys_read [Zero ν] {d : OrderedDict κ ν} {key other : κ} :
    other ∈ (d.read key).2.keys ↔ other = key ∨ other ∈ d.keys := by
  cases h : d.get? key with
  | none =>
    rw [read, h]
    exact mem_keys_set
  | some value =>
    rw [read_of_get? h]
    refine (or_iff_right_of_imp ?_).symm
    rintro rfl
    exact mem_keys_iff.mpr ⟨value, h⟩

theorem read_fst [Zero ν] (d : OrderedDict κ ν) (key : κ) :
    (d.read key).1 = (d.get? key).getD 0 := by
  rw [read]
  split
  · next value hvalue => rw [hvalue, Option.getD_some]
  · next hnone => rw [hnone, Option.getD_none]

/-- Reading a key changes no value. -/
theorem getD_read [Zero ν] (d : OrderedDict κ ν) (key other : κ) :
    ((d.read key).2.get? other).getD 0 = (d.get? other).getD 0 := by
  cases h : d.get? key with
  | none =>
    rw [read, h, get?_set]
    split
    · next heq =>
      rw [heq, h]
      rfl
    · rfl
  | some value => rw [read_of_get? h]

theorem mem_keys_add [Zero ν] [Add ν] {d : OrderedDict κ ν} {key other : κ} {amount : ν} :
    other ∈ (d.add key amount).keys ↔ other = key ∨ other ∈ d.keys := mem_keys_set

end Lookup

end OrderedDict
