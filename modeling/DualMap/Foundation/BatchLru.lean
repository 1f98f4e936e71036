import Mathlib.Data.List.Nodup
import Mathlib.Data.List.DropRight
import Mathlib.Data.List.Chain
import Mathlib.Tactic.Tauto

/-!
# Least-Recently-Used Order with Batch Eviction

The abstract behaviour of a bounded cache that is listed from the least to the most
recently used item. Touching an item that is cached moves it to the end. Touching a new
one first looks at the room that is left: below a watermark, a whole batch of the oldest
items is evicted; then the new item is appended.

Main results:
- `mem_touchAll_of_watermark_eq_zero`: without a watermark nothing is ever evicted;
- `touchAll_recent`: while items are touched one after the other, those touched so far
  stay the newest ones, so no eviction in between can reach them;
- `Chained.touchAll`, `Chained.mem_or_head`: when items are touched along chains, an item
  that has lost its predecessor is the oldest one.
-/

namespace BatchLru

variable {α : Type*} [DecidableEq α]

/-- How many items fit, below which room evictions start, and how many items go at once. -/
structure Policy where
  capacity : ℕ
  watermark : ℕ
  batch : ℕ

variable (p : Policy)

/-- Evict a batch of the oldest items when too little room is left. -/
def makeRoom (order : List α) : List α :=
  if p.capacity - order.length < p.watermark then order.drop p.batch else order

/-- Use the item `x`. -/
def touch (order : List α) (x : α) : List α :=
  if x ∈ order then order.filter (fun y => y ≠ x) ++ [x] else makeRoom p order ++ [x]

/-- Use the items of a list one after the other. -/
def touchAll (order xs : List α) : List α := xs.foldl (touch p) order

@[simp] theorem touchAll_nil (order : List α) : touchAll p order [] = order := rfl

@[simp] theorem touchAll_cons (order : List α) (x : α) (xs : List α) :
    touchAll p order (x :: xs) = touchAll p (touch p order x) xs := rfl

theorem touch_of_mem {order : List α} {x : α} (h : x ∈ order) :
    touch p order x = order.filter (fun y => y ≠ x) ++ [x] := if_pos h

theorem touch_of_notMem {order : List α} {x : α} (h : x ∉ order) :
    touch p order x = makeRoom p order ++ [x] := if_neg h

omit [DecidableEq α] in
theorem makeRoom_sublist (order : List α) : (makeRoom p order).Sublist order := by
  unfold makeRoom
  split
  · exact List.drop_sublist _ _
  · exact List.Sublist.refl order

/-- Without a watermark nothing is ever evicted. -/
theorem mem_touch_of_watermark_eq_zero (hp : p.watermark = 0) {order : List α} {x y : α} :
    y ∈ touch p order x ↔ y ∈ order ∨ y = x := by
  by_cases hx : x ∈ order
  · rw [touch_of_mem p hx, List.mem_append, List.mem_filter, List.mem_singleton,
      decide_eq_true_eq]
    by_cases hy : y = x
    · simp [hy]
    · simp [hy]
  · have hkeep : makeRoom p order = order := by
      unfold makeRoom
      rw [hp, if_neg (Nat.not_lt_zero _)]
    rw [touch_of_notMem p hx, hkeep, List.mem_append, List.mem_singleton]

theorem mem_touchAll_of_watermark_eq_zero (hp : p.watermark = 0) {order xs : List α} {y : α} :
    y ∈ touchAll p order xs ↔ y ∈ order ∨ y ∈ xs := by
  induction xs generalizing order with
  | nil => simp
  | cons x xs ih =>
    rw [touchAll_cons, ih, mem_touch_of_watermark_eq_zero p hp, List.mem_cons]
    tauto

/-- The items `recent` at the end of the order survive a touch: they are moved by nothing
but a touch of one of them, and an eviction finds enough older items. -/
theorem touch_recent (old : List α) {recent : List α} {x : α} (hx : x ∉ recent)
    (hsize : recent.length + p.watermark + p.batch ≤ p.capacity + 1) :
    ∃ old', touch p (old ++ recent) x = old' ++ (recent ++ [x]) := by
  -- `x` is cached, so among the old items, or new, and may cause an eviction
  by_cases hmem : x ∈ old ++ recent
  · refine ⟨old.filter (fun y => y ≠ x), ?_⟩
    have hrecent : recent.filter (fun y => decide (y ≠ x)) = recent := by
      apply List.filter_eq_self.mpr
      intro y hy
      simp only [ne_eq, decide_eq_true_eq]
      rintro rfl
      exact hx hy
    rw [touch_of_mem p hmem, List.filter_append, hrecent, List.append_assoc]
  · rw [touch_of_notMem p hmem]
    unfold makeRoom
    split
    · next hreclaim =>
      refine ⟨old.drop p.batch, ?_⟩
      rw [List.length_append] at hreclaim
      -- the reclaim fires only when more than `capacity - watermark` items are cached
      have hold : p.batch ≤ old.length := by omega
      rw [List.drop_append_of_le_length hold, List.append_assoc]
    · exact ⟨old, by rw [List.append_assoc]⟩

/-- After touching the items `xs` one after the other, they are the newest items, in that
order, although batches may have been evicted in between. -/
theorem touchAll_recent (xs old recent : List α) (hnd : (recent ++ xs).Nodup)
    (hsize : (recent ++ xs).length + p.watermark + p.batch ≤ p.capacity + 2) :
    ∃ old', touchAll p (old ++ recent) xs = old' ++ (recent ++ xs) := by
  induction xs generalizing old recent with
  | nil => exact ⟨old, by simp⟩
  | cons x xs ih =>
    -- the item touched next joins the recent ones
    have hassoc : recent ++ x :: xs = (recent ++ [x]) ++ xs := by simp
    have hx : x ∉ recent := by
      intro hmem
      have hdisj := (List.nodup_append.mp hnd).2.2
      exact hdisj x hmem x (List.mem_cons_self ..) rfl
    have hlen : recent.length + p.watermark + p.batch ≤ p.capacity + 1 := by
      simp only [List.length_append, List.length_cons] at hsize
      omega
    obtain ⟨old', hold'⟩ := touch_recent p old hx hlen
    rw [touchAll_cons, hold', hassoc]
    apply ih
    · rw [← hassoc]; exact hnd
    · rw [← hassoc]; exact hsize

/-- As long as there is room, new items are only appended. -/
theorem touchAll_of_room (xs order : List α) (hnd : (order ++ xs).Nodup)
    (hroom : (order ++ xs).length + p.watermark ≤ p.capacity + 1) :
    touchAll p order xs = order ++ xs := by
  induction xs generalizing order with
  | nil => simp
  | cons x xs ih =>
    have hassoc : order ++ x :: xs = (order ++ [x]) ++ xs := by simp
    have hx : x ∉ order := fun hmem =>
      (List.nodup_append.mp hnd).2.2 x hmem x (List.mem_cons_self ..) rfl
    have hkeep : makeRoom p order = order := by
      rw [List.length_append, List.length_cons] at hroom
      exact if_neg (by omega)
    rw [touchAll_cons, touch_of_notMem p hx, hkeep, hassoc]
    rw [hassoc] at hnd hroom
    exact ih _ hnd hroom

/-! ## Items in chains

Some items have predecessors, and an item is only touched right after its predecessors.
Then an item whose predecessor is gone can only be the oldest one. -/

section Chained

variable {prev : α → α → Prop}

omit [DecidableEq α] in
theorem getLast?_of_suffix {order order' : List α} (h : order' <:+ order) :
    ∀ l ∈ order'.getLast?, l ∈ order.getLast? := by
  obtain ⟨old, rfl⟩ := h
  intro l hl
  rw [List.getLast?_append, Option.mem_def.mp hl]
  rfl

/-- Where `y` follows `x` in the order, the predecessors of `y` are not older than `x`. -/
def Chained (prev : α → α → Prop) (order : List α) : Prop :=
  ∀ old x y new, order = old ++ x :: y :: new → ∀ g, prev g y → g ∈ x :: y :: new

omit [DecidableEq α] in
theorem Chained.nil : Chained prev [] := by
  intro old x y new h
  simp at h

omit [DecidableEq α] in
/-- An item whose predecessor is missing is the oldest one. -/
theorem Chained.mem_or_head {order : List α} (h : Chained prev order) {g y : α}
    (hy : y ∈ order) (hg : prev g y) : g ∈ order ∨ order.head? = some y := by
  obtain ⟨old, new, rfl⟩ := List.append_of_mem hy
  rcases List.eq_nil_or_concat old with rfl | ⟨older, x, rfl⟩
  · exact Or.inr rfl
  · left
    have hsplit : older.concat x ++ y :: new = older ++ x :: y :: new := by simp
    rw [hsplit]
    exact List.mem_append_right _ (h older x y new hsplit g hg)

omit [DecidableEq α] in
theorem Chained.suffix {order order' : List α} (h : Chained prev order)
    (hsuffix : order' <:+ order) : Chained prev order' := by
  obtain ⟨evicted, rfl⟩ := hsuffix
  intro old x y new heq
  exact h (evicted ++ old) x y new (by rw [heq, List.append_assoc])

omit [DecidableEq α] in
theorem Chained.append {order : List α} {z : α} (h : Chained prev order)
    (hlast : ∀ l ∈ order.getLast?, ∀ g, prev g z → g = l) : Chained prev (order ++ [z]) := by
  intro old x y new heq g hg
  rcases List.eq_nil_or_concat new with rfl | ⟨newer, w, rfl⟩
  · -- `y` is the item just appended, and `x` was the last one before it
    have hsplit : order ++ [z] = (old ++ [x]) ++ [y] := by simpa using heq
    obtain ⟨rfl, hzy⟩ := List.append_inj' hsplit rfl
    obtain rfl : z = y := by simpa using hzy
    rw [hlast x (by simp) g hg]
    exact List.mem_cons_self ..
  · have hsplit : order ++ [z] = (old ++ x :: y :: newer) ++ [w] := by simpa using heq
    obtain ⟨hord, -⟩ := List.append_inj' hsplit rfl
    have hmem := h old x y newer hord g hg
    rw [List.concat_eq_append, ← List.cons_append, ← List.cons_append]
    exact List.mem_append_left _ hmem

/-- Moving an item to the end keeps the others chained: what had it as a predecessor now
has it among the newer items. -/
theorem Chained.moveToEnd {order : List α} {z : α} (h : Chained prev order)
    (hlast : ∀ l ∈ order.getLast?, ∀ g, prev g z → g = l) :
    Chained prev (order.filter (fun y => y ≠ z) ++ [z]) := by
  intro old x y new heq g hg
  by_cases hgz : g = z
  · -- `z` is the last item of the new order
    have hz : (x :: y :: new).getLast? = some z := by
      have hgl := congrArg List.getLast? heq
      simpa using hgl.symm
    rw [hgz]
    exact List.mem_of_getLast? hz
  rcases List.eq_nil_or_concat new with rfl | ⟨newer, w, rfl⟩
  · have hsplit : order.filter (fun y => decide (y ≠ z)) ++ [z] = (old ++ [x]) ++ [y] := by
      simpa using heq
    obtain ⟨hfilter, hzy⟩ := List.append_inj' hsplit rfl
    obtain rfl : z = y := by simpa using hzy
    -- the last item of the old order is `g`, which the filter keeps in its place
    obtain ⟨older, l, hord⟩ : ∃ older l, order = older ++ [l] := by
      rcases List.eq_nil_or_concat order with rfl | ⟨older, l, rfl⟩
      · simp at hfilter
      · exact ⟨older, l, by simp⟩
    have hgl : g = l := hlast l (by rw [hord]; simp) g hg
    rw [hord, List.filter_append, ← hgl] at hfilter
    have hkeep : [g].filter (fun y => decide (y ≠ z)) = [g] := by simp [hgz]
    rw [hkeep] at hfilter
    obtain ⟨-, hgx⟩ := List.append_inj' hfilter rfl
    rw [show g = x by simpa using hgx]
    exact List.mem_cons_self ..
  · have hsplit : order.filter (fun y => decide (y ≠ z)) ++ [z] =
        (old ++ x :: y :: newer) ++ [w] := by simpa using heq
    obtain ⟨hfilter, -⟩ := List.append_inj' hsplit rfl
    obtain ⟨l₁, l₂, hord, -, hl₂⟩ := List.filter_eq_append_iff.mp hfilter
    obtain ⟨l₃, l₄, hl₂', -, -, hl₄⟩ := List.filter_eq_cons_iff.mp hl₂
    obtain ⟨l₅, l₆, hl₄', hl₅, -, hl₆⟩ := List.filter_eq_cons_iff.mp hl₄
    -- between `x` and `y` the old order had at most `z`
    have hmem : g ∈ x :: y :: l₆ := by
      rcases List.eq_nil_or_concat l₅ with rfl | ⟨between, c, rfl⟩
      · exact h (l₁ ++ l₃) x y l₆ (by rw [hord, hl₂', hl₄']; simp) g hg
      · have hc : c = z := by simpa using hl₅ c (by simp)
        have hin := h (l₁ ++ l₃ ++ x :: between) c y l₆ (by rw [hord, hl₂', hl₄']; simp) g hg
        rw [hc] at hin
        exact List.mem_cons_of_mem _ ((List.mem_cons.mp hin).resolve_left hgz)
    have hnewer : g ∈ x :: y :: newer := by
      rcases List.mem_cons.mp hmem with rfl | hmem
      · exact List.mem_cons_self ..
      rcases List.mem_cons.mp hmem with rfl | hmem
      · exact List.mem_cons_of_mem _ (List.mem_cons_self ..)
      · refine List.mem_cons_of_mem _ (List.mem_cons_of_mem _ ?_)
        rw [← hl₆, List.mem_filter]
        exact ⟨hmem, by simpa using hgz⟩
    rw [List.concat_eq_append, ← List.cons_append, ← List.cons_append]
    exact List.mem_append_left _ hnewer

theorem getLast?_touch (order : List α) (x : α) : (touch p order x).getLast? = some x := by
  by_cases hx : x ∈ order
  · rw [touch_of_mem p hx]; simp
  · rw [touch_of_notMem p hx]; simp

theorem Chained.touch {order : List α} {x : α} (h : Chained prev order)
    (hlast : ∀ l ∈ order.getLast?, ∀ g, prev g x → g = l) : Chained prev (touch p order x) := by
  by_cases hx : x ∈ order
  · rw [touch_of_mem p hx]
    exact h.moveToEnd hlast
  · -- an eviction takes items from the old end only
    have hsuffix : makeRoom p order <:+ order := by
      unfold makeRoom
      split
      · exact List.drop_suffix _ _
      · exact List.suffix_refl _
    rw [touch_of_notMem p hx]
    exact (h.suffix hsuffix).append (fun l hl => hlast l (getLast?_of_suffix hsuffix l hl))

/-- Touching the items of a chain in their order keeps the order chained. -/
theorem Chained.touchAll {order xs : List α} (h : Chained prev order)
    (hxs : List.IsChain (fun x y => ∀ g, prev g y → g = x) xs)
    (hfirst : ∀ x ∈ xs.head?, ∀ l ∈ order.getLast?, ∀ g, prev g x → g = l) :
    Chained prev (touchAll p order xs) := by
  induction xs generalizing order with
  | nil => exact h
  | cons x xs ih =>
    obtain ⟨hnext, hrest⟩ := List.isChain_cons.mp hxs
    rw [touchAll_cons]
    apply ih (h.touch p (hfirst x rfl)) hrest
    -- the item just touched is the last one, and the next one follows it in the chain
    intro y hy l hl
    rw [getLast?_touch, Option.mem_def, Option.some.injEq] at hl
    subst hl
    exact hnext y hy

end Chained

end BatchLru
