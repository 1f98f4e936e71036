import DualMap.Foundation.Heapq
import Mathlib.Data.List.Sort

/-!
# The Order in Which a Heap Is Emptied

`sorted` lists items by their keys. When no two items share a key there is only one such
list, and a heap is emptied along it: `heappop` returns its first item and leaves a heap of
the others.

Main results:
- `sorted_unique`: a list in the order of the keys is the sorted one;
- `sorted_heappop`: what `heappop` returns is the head, what it leaves is the tail;
- `sorted_perm`: the order depends on the items only, not on how the heap stores them;
- `takeWhile_eq_filter_lt`: what stands in front of an item of the order.
-/

namespace Heapq

variable {α κ : Type*} [LinearOrder κ] (key : α → κ)

/-- The items by increasing key. -/
def sorted (items : List α) : List α := items.insertionSort (fun a b => key a ≤ key b)

/-- No two items share a key. -/
def DistinctKeys (items : List α) : Prop := (items.map key).Nodup

theorem sorted_perm_self (items : List α) : (sorted key items).Perm items :=
  List.perm_insertionSort _ items

theorem mem_sorted {items : List α} {x : α} : x ∈ sorted key items ↔ x ∈ items :=
  (sorted_perm_self key items).mem_iff

@[simp] theorem length_sorted (items : List α) : (sorted key items).length = items.length :=
  (sorted_perm_self key items).length_eq

theorem sorted_pairwise (items : List α) :
    (sorted key items).Pairwise (fun a b => key a ≤ key b) := by
  have : Std.Total (fun a b : α => key a ≤ key b) := ⟨fun a b => le_total (key a) (key b)⟩
  have : IsTrans α (fun a b => key a ≤ key b) := ⟨fun _ _ _ => le_trans⟩
  exact List.pairwise_insertionSort _ items

variable {key}

omit [LinearOrder κ] in
theorem DistinctKeys.perm {items items' : List α} (hdistinct : DistinctKeys key items)
    (hperm : items.Perm items') : DistinctKeys key items' :=
  ((hperm.map key).nodup_iff).mp hdistinct

omit [LinearOrder κ] in
/-- Items of one key are one item. -/
theorem DistinctKeys.inj {items : List α} (hdistinct : DistinctKeys key items) {a b : α}
    (ha : a ∈ items) (hb : b ∈ items) (hab : key a = key b) : a = b :=
  List.inj_on_of_nodup_map hdistinct ha hb hab

omit [LinearOrder κ] in
theorem DistinctKeys.tail {item : α} {items : List α}
    (hdistinct : DistinctKeys key (item :: items)) : DistinctKeys key items := by
  rw [DistinctKeys, List.map_cons] at hdistinct
  exact hdistinct.of_cons

/-- With distinct keys only one arrangement of the items is in the order of the keys. -/
theorem sorted_unique {items arranged : List α} (hdistinct : DistinctKeys key items)
    (hperm : arranged.Perm items)
    (hpairwise : arranged.Pairwise (fun a b => key a ≤ key b)) :
    sorted key items = arranged := by
  have hanti : ∀ a b, a ∈ sorted key items → b ∈ arranged → key a ≤ key b → key b ≤ key a →
      a = b := by
    intro a b ha hb hab hba
    exact hdistinct.inj ((mem_sorted key).mp ha) (hperm.mem_iff.mp hb) (le_antisymm hab hba)
  exact List.Perm.eq_of_pairwise hanti (sorted_pairwise key items) hpairwise
    ((sorted_perm_self key items).trans hperm.symm)

theorem sorted_perm {items items' : List α} (hdistinct : DistinctKeys key items)
    (hperm : items.Perm items') : sorted key items = sorted key items' :=
  sorted_unique hdistinct ((sorted_perm_self key items').trans hperm.symm)
    (sorted_pairwise key items')

/-- An item of least key comes first. -/
theorem sorted_cons_of_le {item : α} {items : List α}
    (hdistinct : DistinctKeys key (item :: items)) (hmin : ∀ x ∈ items, key item ≤ key x) :
    sorted key (item :: items) = item :: sorted key items := by
  apply sorted_unique hdistinct ((sorted_perm_self key items).cons item)
  refine List.pairwise_cons.mpr ⟨?_, sorted_pairwise key items⟩
  intro x hx
  exact hmin x ((mem_sorted key).mp hx)

/-- `heappop` on a heap takes the first item of the order and leaves a heap of the others. -/
theorem sorted_heappop {heap rest : List α} {item : α} (hdistinct : DistinctKeys key heap)
    (hheap : IsHeap key heap) (hpop : heappop key heap = some (item, rest)) :
    sorted key heap = item :: sorted key rest ∧ DistinctKeys key rest ∧ IsHeap key rest := by
  have hperm := heappop_perm key hpop
  have hmin := hheap.root_le key (heappop_head key hpop)
  have hdistinct' := hdistinct.perm hperm
  refine ⟨?_, hdistinct'.tail, heappop_isHeap key hheap hpop⟩
  rw [sorted_perm hdistinct hperm]
  apply sorted_cons_of_le hdistinct'
  intro x hx
  exact hmin x (heappop_subset key hpop hx)

theorem heappop_eq_none {heap : List α} : heappop key heap = none ↔ heap = [] := by
  match heap with
  | [] => simp [heappop]
  | [_] => simp [heappop]
  | a :: b :: rest => simp [heappop]

/-- In a list ordered by key, stopping at the items of key `bound` keeps those with a smaller
key. -/
theorem takeWhile_eq_filter_lt {p : α → Bool} {bound : κ} {items : List α}
    (hpairwise : items.Pairwise (fun a b => key a ≤ key b))
    (hbefore : ∀ x ∈ items, key x < bound → p x = true)
    (hat : ∀ x ∈ items, key x = bound → p x = false) (hstop : ∃ x ∈ items, key x = bound) :
    items.takeWhile p = items.filter (fun x => key x < bound) := by
  induction items with
  | nil => rfl
  | cons item items ih =>
    obtain ⟨hmin, hpairwise'⟩ := List.pairwise_cons.mp hpairwise
    by_cases hlt : key item < bound
    · -- this item comes before the stop, which is among the later ones
      have hstop' : ∃ x ∈ items, key x = bound := by
        obtain ⟨x, hx, hkey⟩ := hstop
        rcases List.mem_cons.mp hx with rfl | hx
        · exact absurd hkey hlt.ne
        · exact ⟨x, hx, hkey⟩
      rw [List.takeWhile_cons_of_pos (hbefore item (List.mem_cons_self ..) hlt),
        List.filter_cons_of_pos (by simpa using hlt),
        ih hpairwise' (fun x hx => hbefore x (List.mem_cons_of_mem _ hx))
          (fun x hx => hat x (List.mem_cons_of_mem _ hx)) hstop']
    · -- no item is before this one, so it is the stop
      have hge : bound ≤ key item := not_lt.mp hlt
      have hkey : key item = bound := by
        obtain ⟨x, hx, hkey⟩ := hstop
        rcases List.mem_cons.mp hx with rfl | hx
        · exact hkey
        · exact le_antisymm (hkey ▸ hmin x hx) hge
      rw [List.takeWhile_cons_of_neg (by simp [hat item (List.mem_cons_self ..) hkey]),
        List.filter_cons_of_neg (by simpa using hge), eq_comm, List.filter_eq_nil_iff]
      intro x hx
      simpa using hge.trans (hmin x hx)

end Heapq
