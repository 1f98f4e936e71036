import DualMap.Foundation.Heapq
import DualMap.Foundation.PyEffect

/-!
# Heaps of Items That Cannot Always Be Compared

`heappush` where the comparison of two items may raise. Items have a key, and two items with
one key may be `tied`: then comparing them raises. The item is appended before anything is
compared, so a push that raises has already changed the heap.

Main results: a push raises exactly when the first item on its way up that is not larger is
tied with it (`Blocked`), and otherwise does what `heappush` does on the keys
(`heappush_cases`).
-/

namespace Heapq.Raising

variable {α κ : Type} [LinearOrder κ]

/-- The loop of `siftdown`, with the comparison that the items have. -/
def siftdownLoop (lt : α → α → Except PyException Bool) : ℕ → ℕ → ℕ → Py (List α) PUnit
  | 0, _, _ => pure ⟨⟩
  | fuel + 1, startpos, pos => do
    let heap ← get
    match heap[pos]?, heap[parent pos]? with
    | some newitem, some parentitem =>
      if startpos < pos then
        if ← Py.ofExcept (lt newitem parentitem) then
          set (heap.swap pos (parent pos))
          siftdownLoop lt fuel startpos (parent pos)
    -- no item stands at `pos`, which no caller asks for
    | _, _ => pure ⟨⟩

/-- `heapq.heappush`. -/
def heappush (lt : α → α → Except PyException Bool) (item : α) : Py (List α) PUnit := do
  let heap ← get
  set (heap ++ [item])
  siftdownLoop lt heap.length 0 heap.length

/-- `<` on items of which two tied ones cannot be compared. -/
def less (key : α → κ) (tied : α → α → Prop) [DecidableRel tied] (a b : α) :
    Except PyException Bool :=
  if tied a b then .error .typeError else .ok (decide (key a < key b))

/-- The items above a position, from its parent to the root. -/
def wayUp (heap : List α) : ℕ → ℕ → List α
  | 0, _ => []
  | fuel + 1, pos =>
    if 0 < pos then heap[parent pos]?.toList ++ wayUp heap fuel (parent pos) else []

/-- What a new item meets on its way up from the end of the heap. -/
def pushWay (heap : List α) : List α := wayUp heap heap.length heap.length

theorem wayUp_congr {heap heap' : List α} (fuel pos : ℕ) (h : ∀ i < pos, heap[i]? = heap'[i]?) :
    wayUp heap fuel pos = wayUp heap' fuel pos := by
  induction fuel generalizing pos with
  | zero => rfl
  | succ fuel ih =>
    by_cases hpos : 0 < pos
    · have hparent := parent_lt hpos
      rw [wayUp, wayUp, if_pos hpos, if_pos hpos, h _ hparent,
        ih (parent pos) (fun i hi => h i (hi.trans hparent))]
    · rw [wayUp, wayUp, if_neg hpos, if_neg hpos]

section Tied

variable (key : α → κ) (tied : α → α → Prop)

/-- The first item on a way up that is not larger than this one is tied with it. -/
def Blocked (item : α) (way : List α) : Prop :=
  ∃ a, way.find? (fun a => ¬ key item < key a) = some a ∧ tied item a

variable {key tied}

theorem blocked_cons_of_lt {item a : α} {way : List α} (h : key item < key a) :
    Blocked key tied item (a :: way) ↔ Blocked key tied item way := by
  rw [Blocked, List.find?_cons_of_neg (by simpa using h), Blocked]

theorem blocked_cons_of_not_lt {item a : α} {way : List α} (h : ¬ key item < key a) :
    Blocked key tied item (a :: way) ↔ tied item a := by
  rw [Blocked, List.find?_cons_of_pos (by simpa using h)]
  simp

variable [DecidableRel tied]

/-- The rising item is compared with the items on its way up until one is not larger. -/
theorem siftdownLoop_cases (htied : ∀ a b, tied a b → key a = key b) (fuel pos : ℕ)
    (heap : List α) {item : α} (hitem : heap[pos]? = some item) :
    (¬ Blocked key tied item (wayUp heap fuel pos) ∧
        siftdownLoop (less key tied) fuel 0 pos heap =
          .ok ⟨⟩ (Heapq.siftdownLoop key fuel heap 0 pos)) ∨
      (Blocked key tied item (wayUp heap fuel pos) ∧
        ∃ heap', siftdownLoop (less key tied) fuel 0 pos heap =
          .error (.exception .typeError) heap' ∧ heap'.Perm heap) := by
  induction fuel generalizing heap pos with
  | zero =>
    refine Or.inl ⟨?_, rfl⟩
    rintro ⟨_, h, _⟩
    cases h
  | succ fuel ih =>
    have hbound : pos < heap.length := (List.getElem?_eq_some_iff.mp hitem).1
    by_cases hpos : 0 < pos
    · have hparent := parent_lt hpos
      obtain ⟨parentitem, hparentitem⟩ : ∃ a, heap[parent pos]? = some a :=
        ⟨_, List.getElem?_eq_getElem (hparent.trans hbound)⟩
      have hway : wayUp heap (fuel + 1) pos =
          parentitem :: wayUp heap fuel (parent pos) := by
        rw [wayUp, if_pos hpos, hparentitem]
        rfl
      rw [hway]
      simp only [siftdownLoop, Heapq.siftdownLoop]
      rw [Py.bind_ok (Py.get_apply heap)]
      simp only [hitem, hparentitem, if_pos hpos]
      by_cases ht : tied item parentitem
      · -- comparing them raises
        have hnot : ¬ key item < key parentitem := (htied _ _ ht).not_lt
        refine Or.inr ⟨(blocked_cons_of_not_lt hnot).mpr ht, heap, ?_, List.Perm.refl heap⟩
        rw [less, if_pos ht]
        rfl
      · rw [less, if_neg ht]
        by_cases hlt : key item < key parentitem
        · have hswap := getElem?_swap hbound (hparent.trans hbound)
          have hrisen : (heap.swap pos (parent pos))[parent pos]? = some item := by
            rw [hswap, if_neg hparent.ne, if_pos rfl, hitem]
          -- the items further up are where they were
          have hsame : wayUp (heap.swap pos (parent pos)) fuel (parent pos) =
              wayUp heap fuel (parent pos) := by
            refine wayUp_congr fuel (parent pos) (fun i hi => ?_)
            rw [hswap, if_neg (hi.trans hparent).ne, if_neg hi.ne]
          have hrest := ih (parent pos) (heap.swap pos (parent pos)) hrisen
          rw [hsame] at hrest
          rw [blocked_cons_of_lt hlt]
          simp only [hlt, decide_true, hpos, and_self, if_true]
          rcases hrest with ⟨hfree, hrun⟩ | ⟨hblocked, heap', hrun, hperm⟩
          · exact Or.inl ⟨hfree, hrun⟩
          · exact Or.inr ⟨hblocked, heap', hrun, hperm.trans (List.swap_perm heap _ _)⟩
        · refine Or.inl ⟨fun h => ht ((blocked_cons_of_not_lt hlt).mp h), ?_⟩
          simp only [hlt, decide_false, and_false, if_false]
          rfl
    · obtain rfl : pos = 0 := Nat.eq_zero_of_not_pos hpos
      refine Or.inl ⟨?_, ?_⟩
      · rintro ⟨_, h, _⟩
        rw [wayUp, if_neg hpos] at h
        cases h
      · simp only [siftdownLoop, Heapq.siftdownLoop]
        rw [Py.bind_ok (Py.get_apply heap)]
        have hparent : heap[parent 0]? = some item := hitem
        simp only [hitem, hparent, lt_irrefl, false_and, if_false]
        rfl

theorem heappush_cases (htied : ∀ a b, tied a b → key a = key b) (heap : List α) (item : α) :
    (¬ Blocked key tied item (pushWay heap) ∧
        heappush (less key tied) item heap = .ok ⟨⟩ (Heapq.heappush key heap item)) ∨
      (Blocked key tied item (pushWay heap) ∧
        ∃ heap', heappush (less key tied) item heap = .error (.exception .typeError) heap' ∧
          heap'.Perm (item :: heap)) := by
  have hitem : (heap ++ [item])[heap.length]? = some item := by simp
  have hway : wayUp (heap ++ [item]) heap.length heap.length = pushWay heap :=
    wayUp_congr _ _ (fun i hi => List.getElem?_append_left hi)
  have hcases := siftdownLoop_cases htied heap.length heap.length (heap ++ [item]) hitem
  rw [hway] at hcases
  rcases hcases with ⟨hfree, hrun⟩ | ⟨hblocked, heap', hrun, hperm⟩
  · exact Or.inl ⟨hfree, hrun⟩
  · exact Or.inr ⟨hblocked, heap', hrun, hperm.trans (List.perm_append_singleton item heap)⟩

end Tied

end Heapq.Raising
