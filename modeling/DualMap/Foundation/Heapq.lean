import Mathlib.Order.Lattice
import Mathlib.Data.List.Basic
import Mathlib.Logic.Function.Iterate
import Mathlib.Data.List.Perm.Basic

/-!
# Array-Backed Binary Min-Heaps (`heapq`)

The list operations of CPython's `heapq`, over any items ordered by a key:
`heappush` appends and lets the new item rise, `heappop` moves the last item to the
root, bubbles the smaller child up until a leaf is reached and lets the moved item
rise again, `heapify` repairs every inner position from the back to the front.

Main results:
- every operation permutes the items it is given (`heappush_perm`, `heappop_perm`,
  `heapify_perm`);
- `heappush` and `heappop` keep the heap shape, `heapify` establishes it;
- the root of a heap, which is what `heappop` returns, has a least key.
-/

namespace Heapq

variable {α κ : Type*} [LinearOrder κ] (key : α → κ)

/-! ## Positions of the implicit tree -/

/-- The parent position of `pos`. -/
def parent (pos : ℕ) : ℕ := (pos - 1) / 2

theorem parent_lt {pos : ℕ} (h : 0 < pos) : parent pos < pos := by
  unfold parent; omega

theorem parent_le (pos : ℕ) : parent pos ≤ pos := by
  unfold parent; omega

/-- A position other than the root is the left or the right child of its parent. -/
theorem eq_child_of_parent {pos p : ℕ} (hpos : 0 < pos) (h : parent pos = p) :
    pos = 2 * p + 1 ∨ pos = 2 * p + 2 := by
  unfold parent at h; omega

@[simp] theorem parent_left (p : ℕ) : parent (2 * p + 1) = p := by
  unfold parent; omega

@[simp] theorem parent_right (p : ℕ) : parent (2 * p + 2) = p := by
  unfold parent; omega

/-- `pos` lies in the subtree rooted at `s`: some iterate of `parent` leads there. -/
def Below (s pos : ℕ) : Prop := ∃ k, parent^[k] pos = s

theorem Below.refl (s : ℕ) : Below s s := ⟨0, rfl⟩

theorem Below.zero (pos : ℕ) : Below 0 pos := by
  induction pos using Nat.strongRecOn with
  | ind pos ih =>
    -- the way to the root is one step longer than the one of the parent
    rcases Nat.eq_zero_or_pos pos with rfl | hpos
    · exact Below.refl 0
    · obtain ⟨k, hk⟩ := ih (parent pos) (parent_lt hpos)
      exact ⟨k + 1, by rw [Function.iterate_succ_apply]; exact hk⟩

theorem iterate_parent_le (k pos : ℕ) : parent^[k] pos ≤ pos := by
  induction k generalizing pos with
  | zero => exact le_refl pos
  | succ k ih =>
    rw [Function.iterate_succ_apply]
    exact le_trans (ih (parent pos)) (parent_le pos)

/-- Going up from strictly below `s` stays below `s`. -/
theorem Below.parent {s pos : ℕ} (h : Below s pos) (hlt : s < pos) :
    Below s (parent pos) := by
  obtain ⟨k, hk⟩ := h
  cases k with
  | zero => simp at hk; omega
  | succ k => exact ⟨k, by rwa [Function.iterate_succ_apply] at hk⟩

theorem Below.le {s pos : ℕ} (h : Below s pos) : s ≤ pos := by
  obtain ⟨k, rfl⟩ := h
  exact iterate_parent_le k pos

theorem Below.child {s pos c : ℕ} (h : Below s pos) (hc : Heapq.parent c = pos) :
    Below s c := by
  obtain ⟨k, hk⟩ := h
  exact ⟨k + 1, by rw [Function.iterate_succ_apply, hc]; exact hk⟩

/-! ## The operations -/

/-- The loop of `siftdown`: the item at `pos` changes places with its parent as long as
it is smaller and `startpos` is not reached. -/
def siftdownLoop : ℕ → List α → ℕ → ℕ → List α
  | 0, heap, _, _ => heap
  | fuel + 1, heap, startpos, pos =>
    match heap[pos]?, heap[parent pos]? with
    | some newitem, some parentitem =>
      -- a larger parent follows the newitem down, otherwise the loop breaks
      if startpos < pos ∧ key newitem < key parentitem then
        siftdownLoop fuel (heap.swap pos (parent pos)) startpos (parent pos)
      else heap
    -- no item stands at `pos`, which no caller asks for
    | _, _ => heap

/-- `heapq`'s `siftdown`: let the item at `pos` rise, not above `startpos`. Every
iteration moves to a smaller position, so `pos` iterations are enough. -/
def siftdown (heap : List α) (startpos pos : ℕ) : List α :=
  siftdownLoop key pos heap startpos pos

/-- The position of the smaller child of `pos`, the right one when the two are equal. -/
def smallerChild (heap : List α) (pos : ℕ) : Option ℕ :=
  match heap[2 * pos + 1]?, heap[2 * pos + 2]? with
  -- `not heap[childpos] < heap[rightpos]` decides for the right child
  | some left, some right => some (if key left < key right then 2 * pos + 1 else 2 * pos + 2)
  | some _, none => some (2 * pos + 1)
  | none, _ => none

/-- The first loop of `siftup`: the smaller child moves up until a leaf is hit. -/
def bubbleUp : ℕ → List α → ℕ → List α × ℕ
  | 0, heap, pos => (heap, pos)
  | fuel + 1, heap, pos =>
    match smallerChild key heap pos with
    | some child => bubbleUp fuel (heap.swap pos child) child
    | none => (heap, pos)

/-- `heapq`'s `siftup`: bubble the smaller child up from `pos`, then let the displaced
item rise to its final place. -/
def siftup (heap : List α) (pos : ℕ) : List α :=
  -- `swap` carries the newitem along, so it already stands at the leaf
  let (bubbled, leaf) := bubbleUp key heap.length heap pos
  siftdown key bubbled pos leaf

/-- `heapq.heappush`. -/
def heappush (heap : List α) (item : α) : List α :=
  siftdown key (heap ++ [item]) 0 heap.length

/-- `heapq.heappop`: the returned item and the remaining heap; `none` is the
`IndexError` of an empty heap. -/
def heappop (heap : List α) : Option (α × List α) :=
  match heap with
  | [] => none
  | [lastelt] => some (lastelt, [])
  | returnitem :: x :: xs =>
    some (returnitem, siftup key ((x :: xs).getLast (by simp) :: (x :: xs).dropLast) 0)

/-- `heapq.heapify`: `siftup` at every inner position, the last one first. -/
def heapify (heap : List α) : List α :=
  (List.range (heap.length / 2)).foldr (fun pos h => siftup key h pos) heap

/-! ## Every operation permutes its items -/

theorem siftdownLoop_perm (fuel : ℕ) (heap : List α) (startpos pos : ℕ) :
    (siftdownLoop key fuel heap startpos pos).Perm heap := by
  induction fuel generalizing heap pos with
  | zero => exact List.Perm.refl heap
  | succ fuel ih =>
    simp only [siftdownLoop]
    split
    · split
      · exact (ih _ _).trans (List.swap_perm heap _ _)
      · exact List.Perm.refl heap
    · exact List.Perm.refl heap

theorem siftdown_perm (heap : List α) (startpos pos : ℕ) :
    (siftdown key heap startpos pos).Perm heap :=
  siftdownLoop_perm key pos heap startpos pos

theorem bubbleUp_perm (fuel : ℕ) (heap : List α) (pos : ℕ) :
    (bubbleUp key fuel heap pos).1.Perm heap := by
  induction fuel generalizing heap pos with
  | zero => exact List.Perm.refl heap
  | succ fuel ih =>
    simp only [bubbleUp]
    split
    · exact (ih _ _).trans (List.swap_perm heap _ _)
    · exact List.Perm.refl heap

theorem siftup_perm (heap : List α) (pos : ℕ) : (siftup key heap pos).Perm heap :=
  (siftdown_perm key _ _ _).trans (bubbleUp_perm key heap.length heap pos)

/-- `heappush` adds exactly the pushed item. -/
theorem heappush_perm (heap : List α) (item : α) :
    (heappush key heap item).Perm (item :: heap) :=
  (siftdown_perm key _ _ _).trans (List.perm_append_singleton item heap)

theorem foldl_heappush_perm (items heap : List α) :
    (items.foldl (heappush key) heap).Perm (items ++ heap) := by
  induction items generalizing heap with
  | nil => exact List.Perm.refl heap
  | cons item items ih =>
    rw [List.foldl_cons]
    exact (ih _).trans
      (((heappush_perm key heap item).append_left items).trans List.perm_middle)

theorem getLast_cons_dropLast_perm (l : List α) (h : l ≠ []) :
    (l.getLast h :: l.dropLast).Perm l :=
  calc l.getLast h :: l.dropLast
      |>.Perm (l.dropLast ++ [l.getLast h]) := (List.perm_append_singleton _ _).symm
    _ = l := List.dropLast_append_getLast h

/-- `heappop` takes exactly the item it returns. -/
theorem heappop_perm {heap rest : List α} {item : α}
    (h : heappop key heap = some (item, rest)) : heap.Perm (item :: rest) := by
  match heap with
  | [] => simp [heappop] at h
  | [x] =>
    simp [heappop] at h
    obtain ⟨rfl, rfl⟩ := h
    exact List.Perm.refl _
  | y :: x :: xs =>
    simp only [heappop, Option.some.injEq, Prod.mk.injEq] at h
    obtain ⟨rfl, rfl⟩ := h
    exact ((siftup_perm key _ _).trans
      (getLast_cons_dropLast_perm (x :: xs) (by simp))).symm.cons y

theorem heappop_length {heap rest : List α} {item : α}
    (h : heappop key heap = some (item, rest)) : heap.length = rest.length + 1 :=
  (heappop_perm key h).length_eq

theorem heappop_mem {heap rest : List α} {item : α}
    (h : heappop key heap = some (item, rest)) : item ∈ heap :=
  (heappop_perm key h).mem_iff.mpr List.mem_cons_self

theorem heappop_subset {heap rest : List α} {item : α}
    (h : heappop key heap = some (item, rest)) : rest ⊆ heap :=
  fun _ hx => (heappop_perm key h).mem_iff.mpr (List.mem_cons_of_mem _ hx)

/-- The other items stay. -/
theorem mem_rest_of_heappop {heap rest : List α} {item x : α}
    (h : heappop key heap = some (item, rest)) (hx : x ∈ heap) (hne : x ≠ item) : x ∈ rest :=
  (List.mem_cons.mp ((heappop_perm key h).mem_iff.mp hx)).resolve_left hne

/-- `heappop` returns the item at the root. -/
theorem heappop_head {heap rest : List α} {item : α}
    (h : heappop key heap = some (item, rest)) : heap.head? = some item := by
  match heap with
  | [] => simp [heappop] at h
  | [x] => simp [heappop] at h; simp [h.1]
  | y :: x :: xs => simp [heappop] at h; simp [h.1]

theorem heappop_of_ne_nil {heap : List α} (h : heap ≠ []) :
    ∃ item rest, heappop key heap = some (item, rest) := by
  match heap with
  | [] => exact absurd rfl h
  | [x] => exact ⟨x, [], rfl⟩
  | x :: y :: ys => exact ⟨x, _, rfl⟩

/-- `heapify` only rearranges. -/
theorem heapify_perm (heap : List α) : (heapify key heap).Perm heap := by
  unfold heapify
  induction List.range (heap.length / 2) with
  | nil => exact List.Perm.refl heap
  | cons pos ps ih => exact (siftup_perm key _ pos).trans ih

/-! ## The heap shape -/

/-- The items at positions `p` and `i` are in order, when both exist. -/
def InOrder (heap : List α) (p i : ℕ) : Prop :=
  ∀ x y, heap[p]? = some x → heap[i]? = some y → key x ≤ key y

/-- Every item whose parent stands at or after `s` is in order with its parent. -/
def IsHeapFrom (s : ℕ) (heap : List α) : Prop :=
  ∀ i, 0 < i → s ≤ parent i → InOrder key heap (parent i) i

/-- The heap shape: every item is in order with its parent. -/
def IsHeap (heap : List α) : Prop := IsHeapFrom key 0 heap

theorem InOrder.trans {heap : List α} {p q i : ℕ} (hpq : InOrder key heap p q)
    (hqi : InOrder key heap q i) (hq : q < heap.length) : InOrder key heap p i := by
  intro x y hx hy
  have hz : heap[q]? = some heap[q] := List.getElem?_eq_getElem hq
  exact le_trans (hpq x _ hx hz) (hqi _ y hz hy)

theorem getElem?_swap {heap : List α} {i j : ℕ} (hi : i < heap.length)
    (hj : j < heap.length) (k : ℕ) :
    (heap.swap i j)[k]? =
      if k = i then heap[j]? else if k = j then heap[i]? else heap[k]? := by
  have hlen : (heap.swap i j).length = heap.length := List.length_swap
  by_cases hk : k < heap.length
  · rw [List.getElem?_eq_getElem (by omega)]
    split
    · next h => subst h; rw [List.getElem_swap_left, dif_pos hj, List.getElem?_eq_getElem hj]
    · split
      · next h => subst h; rw [List.getElem_swap_right, dif_pos hi, List.getElem?_eq_getElem hi]
      · next h1 h2 => rw [List.getElem_swap_of_ne h1 h2, List.getElem?_eq_getElem hk]
  · rw [List.getElem?_eq_none (by omega), if_neg (by omega), if_neg (by omega),
      List.getElem?_eq_none (by omega)]

/-- What `siftdown` needs at `pos`: every pair at or after `s` is in order, except the
one of `pos` and its parent, and the parent of `pos` is in order with the children of
`pos`. -/
structure Rising (s pos : ℕ) (heap : List α) : Prop where
  bound : pos < heap.length
  below : Below s pos
  others : ∀ i, 0 < i → s ≤ parent i → i ≠ pos → InOrder key heap (parent i) i
  grand : s < pos → ∀ i, 0 < i → parent i = pos → InOrder key heap (parent pos) i

/-- One step of `siftdown` moves the misplaced item to its parent's position. -/
theorem Rising.step {s pos : ℕ} {heap : List α} (h : Rising key s pos heap)
    (hlt : s < pos) {newitem parentitem : α} (hnew : heap[pos]? = some newitem)
    (hpar : heap[parent pos]? = some parentitem) (hless : key newitem < key parentitem) :
    Rising key s (parent pos) (heap.swap pos (parent pos)) := by
  have hpos : 0 < pos := by omega
  have hp : parent pos < pos := parent_lt hpos
  have hpl : parent pos < heap.length := lt_trans hp h.bound
  have hsp : s ≤ parent pos := (h.below.parent hlt).le
  have swap_at := getElem?_swap h.bound hpl
  -- the pair of `pos` is repaired, the one above it becomes the open one
  refine ⟨by rw [List.length_swap]; exact hpl, h.below.parent hlt, ?_, ?_⟩
  · intro i hi hsi hne x y hx hy
    rw [swap_at] at hx hy
    by_cases hip : i = pos
    · -- the pair of `pos` and its parent, whose items changed places
      subst hip
      rw [if_neg (by omega), if_pos rfl, hnew] at hx
      rw [if_pos rfl, hpar] at hy
      obtain rfl := Option.some.inj hx
      obtain rfl := Option.some.inj hy
      exact le_of_lt hless
    · rw [if_neg hip, if_neg hne] at hy
      by_cases hpi : parent i = pos
      · -- a child of `pos`: the old parent of `pos` is now above it
        rw [if_pos hpi] at hx
        exact h.grand hlt i hi hpi x y hx hy
      · rw [if_neg hpi] at hx
        by_cases hpp : parent i = parent pos
        · -- the sibling of `pos`
          rw [if_pos hpp, hnew] at hx
          obtain rfl := Option.some.inj hx
          have hsib := h.others i hi hsi hip
          rw [hpp] at hsib
          exact le_trans (le_of_lt hless) (hsib parentitem y hpar hy)
        · rw [if_neg hpp] at hx
          exact h.others i hi hsi hip x y hx hy
  -- the item above the new position is in order with both of its children
  · intro hs i hi hpi x y hx hy
    have hpp : parent (parent pos) < parent pos := parent_lt (by omega)
    rw [swap_at, if_neg (by omega), if_neg (by omega)] at hx
    have hup : InOrder key heap (parent (parent pos)) (parent pos) :=
      h.others (parent pos) (by omega) ((h.below.parent hlt).parent hs).le (by omega)
    rw [swap_at] at hy
    by_cases hip : i = pos
    -- the old parent now stands at `pos`, below its own parent as before
    · rw [if_pos hip] at hy
      exact hup x y hx hy
    -- the sibling was in order with the old parent, hence with the one above it
    · have hne : i ≠ parent pos := by
        intro heq
        rw [heq] at hpi
        omega
      rw [if_neg hip, if_neg hne] at hy
      have hsib := h.others i hi (by rw [hpi]; exact hsp) hip
      rw [hpi] at hsib
      exact hup.trans key hsib hpl x y hx hy

/-- When the item at `pos` need not rise, the shape holds from `s` on. -/
theorem Rising.stop {s pos : ℕ} {heap : List α} (h : Rising key s pos heap)
    (hstop : s < pos → InOrder key heap (parent pos) pos) : IsHeapFrom key s heap := by
  intro i hi hsi
  by_cases hip : i = pos
  · subst hip
    exact hstop (lt_of_le_of_lt hsi (parent_lt hi))
  · exact h.others i hi hsi hip

theorem siftdownLoop_isHeapFrom {s : ℕ} (fuel : ℕ) (heap : List α) (pos : ℕ)
    (hfuel : pos ≤ fuel) (h : Rising key s pos heap) :
    IsHeapFrom key s (siftdownLoop key fuel heap s pos) := by
  -- induction on the bound: `pos` moves to its parent, which is smaller
  induction fuel generalizing heap pos with
  | zero => exact h.stop key (fun hs => by omega)
  | succ fuel ih =>
    have hbound := h.bound
    have hp : parent pos < heap.length := lt_of_le_of_lt (parent_le pos) hbound
    simp only [siftdownLoop, List.getElem?_eq_getElem hbound, List.getElem?_eq_getElem hp]
    split
    · next hcond =>
      have hpos : parent pos < pos := parent_lt (by omega)
      exact ih _ _ (by omega) (h.step key hcond.1 (List.getElem?_eq_getElem hbound)
        (List.getElem?_eq_getElem hp) hcond.2)
    · next hcond =>
      -- the loop breaks: `startpos` is reached, or the pair is in order already
      refine h.stop key (fun hs x y hx hy => ?_)
      rw [List.getElem?_eq_getElem hp] at hx
      rw [List.getElem?_eq_getElem hbound] at hy
      obtain rfl := Option.some.inj hx
      obtain rfl := Option.some.inj hy
      exact not_lt.mp (fun hlt => hcond ⟨hs, hlt⟩)

/-- `siftdown` repairs the one pair that may be out of order. -/
theorem siftdown_isHeapFrom {s : ℕ} {heap : List α} {pos : ℕ} (h : Rising key s pos heap) :
    IsHeapFrom key s (siftdown key heap s pos) :=
  siftdownLoop_isHeapFrom key pos heap pos (le_refl pos) h

/-- What holds while the smaller child moves up to `pos`: every pair at or after `s` that
does not touch `pos` is in order, and the parent of `pos` is in order with the children
of `pos`. -/
structure Bubbling (s pos : ℕ) (heap : List α) : Prop where
  bound : pos < heap.length
  below : Below s pos
  others : ∀ i, 0 < i → s ≤ parent i → i ≠ pos → parent i ≠ pos →
    InOrder key heap (parent i) i
  grand : s < pos → ∀ i, 0 < i → parent i = pos → InOrder key heap (parent pos) i

theorem smallerChild_spec {heap : List α} {pos child : ℕ}
    (h : smallerChild key heap pos = some child) :
    (child = 2 * pos + 1 ∨ child = 2 * pos + 2) ∧ child < heap.length ∧
      ∀ i, 0 < i → parent i = pos → InOrder key heap child i := by
  unfold smallerChild at h
  split at h
  -- two children: the test decides which of them is not above the other
  · next left right hleft hright =>
    have hl : 2 * pos + 1 < heap.length := (List.getElem?_eq_some_iff.mp hleft).1
    have hr : 2 * pos + 2 < heap.length := (List.getElem?_eq_some_iff.mp hright).1
    split at h
    · next hlt =>
      obtain rfl := Option.some.inj h
      refine ⟨Or.inl rfl, hl, fun i hi hpi x y hx hy => ?_⟩
      rw [hleft] at hx
      obtain rfl := Option.some.inj hx
      rcases eq_child_of_parent hi hpi with rfl | rfl
      · rw [hleft] at hy; rw [Option.some.inj hy]
      · rw [hright] at hy; obtain rfl := Option.some.inj hy; exact le_of_lt hlt
    · next hnlt =>
      obtain rfl := Option.some.inj h
      refine ⟨Or.inr rfl, hr, fun i hi hpi x y hx hy => ?_⟩
      rw [hright] at hx
      obtain rfl := Option.some.inj hx
      rcases eq_child_of_parent hi hpi with rfl | rfl
      · rw [hleft] at hy; obtain rfl := Option.some.inj hy; exact not_lt.mp hnlt
      · rw [hright] at hy; rw [Option.some.inj hy]
  -- only the left child exists
  · next left hleft hright =>
    obtain rfl := Option.some.inj h
    refine ⟨Or.inl rfl, (List.getElem?_eq_some_iff.mp hleft).1, fun i hi hpi x y hx hy => ?_⟩
    rcases eq_child_of_parent hi hpi with rfl | rfl
    · rw [hx] at hy; rw [Option.some.inj hy]
    · rw [hright] at hy; cases hy
  · cases h

theorem smallerChild_none {heap : List α} {pos : ℕ} (h : smallerChild key heap pos = none) :
    heap.length ≤ 2 * pos + 1 := by
  unfold smallerChild at h
  split at h
  · split at h <;> cases h
  · cases h
  · next hnone => exact List.getElem?_eq_none_iff.mp hnone

/-- One step of the first loop of `siftup`. -/
theorem Bubbling.step {s pos child : ℕ} {heap : List α} (h : Bubbling key s pos heap)
    (hchild : smallerChild key heap pos = some child) :
    Bubbling key s child (heap.swap pos child) := by
  obtain ⟨hc, hcl, hmin⟩ := smallerChild_spec key hchild
  have hpc : parent child = pos := by rcases hc with rfl | rfl <;> simp
  have hlt : pos < child := by omega
  have swap_at := getElem?_swap h.bound hcl
  -- only pairs with `child` may be out of order after the exchange
  refine ⟨by rw [List.length_swap]; exact hcl, h.below.child hpc, ?_, ?_⟩
  · intro i hi hsi hic hpic x y hx hy
    rw [swap_at] at hx hy
    rw [if_neg hpic] at hx
    rw [if_neg hic] at hy
    by_cases hip : i = pos
    · -- the child that moved up to `pos`, below the parent of `pos`
      subst hip
      have hp : parent i < i := parent_lt hi
      rw [if_neg (by omega)] at hx
      rw [if_pos rfl] at hy
      exact h.grand (lt_of_le_of_lt hsi hp) child (by omega) hpc x y hx hy
    · rw [if_neg hip] at hy
      by_cases hpi : parent i = pos
      · -- the sibling of the child that moved up
        rw [if_pos hpi] at hx
        exact hmin i hi hpi x y hx hy
      · rw [if_neg hpi] at hx
        exact h.others i hi hsi hip hpi x y hx hy
  -- the smaller child, now at `pos`, was in order with its own children
  · intro _ i hi hpi x y hx hy
    have hci : child < i := by have := parent_lt hi; omega
    rw [swap_at, hpc, if_pos rfl] at hx
    rw [swap_at, if_neg (by omega), if_neg (by omega)] at hy
    have hpair := h.others i hi (by rw [hpi]; exact (h.below.child hpc).le) (by omega) (by omega)
    rw [hpi] at hpair
    exact hpair x y hx hy

/-- At a leaf, the pair of `pos` and its parent is the only one left to repair. -/
theorem Bubbling.leaf {s pos : ℕ} {heap : List α} (h : Bubbling key s pos heap)
    (hleaf : heap.length ≤ 2 * pos + 1) : Rising key s pos heap := by
  refine ⟨h.bound, h.below, ?_, h.grand⟩
  intro i hi hsi hip
  by_cases hpi : parent i = pos
  · intro x y _ hy
    have hil : i < heap.length := (List.getElem?_eq_some_iff.mp hy).1
    rcases eq_child_of_parent hi hpi with rfl | rfl <;> omega
  · exact h.others i hi hsi hip hpi

theorem bubbleUp_rising {s : ℕ} (fuel : ℕ) (heap : List α) (pos : ℕ)
    (hfuel : heap.length ≤ fuel + pos) (h : Bubbling key s pos heap) :
    Rising key s (bubbleUp key fuel heap pos).2 (bubbleUp key fuel heap pos).1 := by
  -- a child stands behind its parent, so the distance to the end shrinks
  induction fuel generalizing heap pos with
  | zero => have := h.bound; omega
  | succ fuel ih =>
    simp only [bubbleUp]
    split
    · next child hchild =>
      have hc := (smallerChild_spec key hchild).1
      exact ih _ _ (by rw [List.length_swap]; omega) (h.step key hchild)
    · next hnone => exact h.leaf key (smallerChild_none key hnone)

/-- `siftup` extends the heap shape by one position to the front. -/
theorem siftup_isHeapFrom {heap : List α} {pos : ℕ} (hpos : pos < heap.length)
    (h : IsHeapFrom key (pos + 1) heap) : IsHeapFrom key pos (siftup key heap pos) := by
  -- pairs that do not touch `pos` start at `pos + 1` or later
  have hb : Bubbling key pos pos heap := by
    refine ⟨hpos, Below.refl pos, ?_, fun hlt => absurd hlt (lt_irrefl pos)⟩
    intro i hi hsi _ hne
    exact h i hi (by omega)
  exact siftdown_isHeapFrom key (bubbleUp_rising key heap.length heap pos (by omega) hb)

@[simp] theorem IsHeap.nil : IsHeap key ([] : List α) := by
  intro i _ _ x y hx
  simp at hx

/-- `heappush` keeps the heap shape. -/
theorem heappush_isHeap {heap : List α} (h : IsHeap key heap) (item : α) :
    IsHeap key (heappush key heap item) := by
  -- the appended item has no children, so its pair is the only open one
  refine siftdown_isHeapFrom key ⟨by simp, Below.zero _, ?_, ?_⟩
  · intro i hi _ hne x y hx hy
    have hil : i < (heap ++ [item]).length := (List.getElem?_eq_some_iff.mp hy).1
    have hil' : i < heap.length := by simp at hil; omega
    have hp : parent i < i := parent_lt hi
    rw [List.getElem?_append_left (by omega)] at hx hy
    exact h i hi (Nat.zero_le _) x y hx hy
  · intro _ i hi hpi x y _ hy
    have hil : i < (heap ++ [item]).length := (List.getElem?_eq_some_iff.mp hy).1
    have hp : parent i < i := parent_lt hi
    simp at hil
    omega

/-- Replacing the root and dropping the last item leaves every pair below the root. -/
theorem isHeapFrom_one_of_replace_root {y last : α} {l : List α}
    (h : IsHeap key (y :: l)) : IsHeapFrom key 1 (last :: l.dropLast) := by
  intro i hi hpi a b ha hb
  obtain ⟨p, hp⟩ : ∃ p, parent i = p + 1 := ⟨parent i - 1, by omega⟩
  obtain ⟨j, rfl⟩ : ∃ j, i = j + 1 := ⟨i - 1, by omega⟩
  have hpair := h (j + 1) hi (Nat.zero_le _)
  rw [hp] at ha hpair
  rw [List.getElem?_cons_succ] at ha hb
  -- from position 1 on both lists hold the same items
  have hlift : ∀ {k : ℕ} {c : α}, l.dropLast[k]? = some c → (y :: l)[k + 1]? = some c := by
    intro k c hk
    rw [List.getElem?_cons_succ]
    have hkl : k < l.dropLast.length := (List.getElem?_eq_some_iff.mp hk).1
    rw [List.getElem?_dropLast, if_pos (by simpa using hkl)] at hk
    exact hk
  exact hpair a b (hlift ha) (hlift hb)

/-- `heappop` keeps the heap shape. -/
theorem heappop_isHeap {heap rest : List α} {item : α} (h : IsHeap key heap)
    (hpop : heappop key heap = some (item, rest)) : IsHeap key rest := by
  match heap with
  | [] => simp [heappop] at hpop
  | [x] =>
    simp [heappop] at hpop
    obtain ⟨-, rfl⟩ := hpop
    exact IsHeap.nil key
  | y :: x :: xs =>
    simp only [heappop, Option.some.injEq, Prod.mk.injEq] at hpop
    obtain ⟨-, rfl⟩ := hpop
    exact siftup_isHeapFrom key (by simp) (isHeapFrom_one_of_replace_root key h)

/-- A position past the middle has no children, so the shape holds from there on. -/
theorem isHeapFrom_half (heap : List α) : IsHeapFrom key (heap.length / 2) heap := by
  intro i hi hpi x y _ hy
  have hil : i < heap.length := (List.getElem?_eq_some_iff.mp hy).1
  unfold parent at hpi
  omega

/-- `heapify` establishes the heap shape. -/
theorem heapify_isHeap (heap : List α) : IsHeap key (heapify key heap) := by
  -- once the shape holds from `n` on, the positions before `n` are repaired one by one
  have step : ∀ n ≤ heap.length / 2, ∀ h : List α, h.length = heap.length →
      IsHeapFrom key n h →
      IsHeapFrom key 0 ((List.range n).foldr (fun pos h => siftup key h pos) h) := by
    intro n
    induction n with
    | zero => intro _ h _ hh; exact hh
    | succ n ih =>
      intro hn h hlen hh
      rw [List.range_succ, List.foldr_append]
      refine ih (by omega) (siftup key h n) ?_ (siftup_isHeapFrom key (by omega) hh)
      rw [(siftup_perm key h n).length_eq, hlen]
  exact step _ (le_refl _) heap rfl (isHeapFrom_half key heap)

/-- The root of a heap has a least key. -/
theorem IsHeap.root_le {heap : List α} (h : IsHeap key heap) {root : α}
    (hroot : heap.head? = some root) : ∀ x ∈ heap, key root ≤ key x := by
  -- along the parents, keys only get smaller, and every chain of parents ends at the root
  have hpos : ∀ (i : ℕ) (x : α), heap[i]? = some x → key root ≤ key x := by
    intro i
    induction i using Nat.strongRecOn with
    | ind i ih =>
      intro x hx
      rcases Nat.eq_zero_or_pos i with rfl | hi
      · rw [← List.head?_eq_getElem?, hroot] at hx
        rw [Option.some.inj hx]
      · have hp : parent i < i := parent_lt hi
        have hil : i < heap.length := (List.getElem?_eq_some_iff.mp hx).1
        have hparent := List.getElem?_eq_getElem (l := heap) (i := parent i) (by omega)
        exact le_trans (ih (parent i) hp _ hparent) (h i hi (Nat.zero_le _) _ x hparent hx)
  intro x hx
  obtain ⟨i, hi⟩ := List.mem_iff_getElem?.mp hx
  exact hpos i x hi

end Heapq
