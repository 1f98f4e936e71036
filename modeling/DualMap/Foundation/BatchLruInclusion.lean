import DualMap.Foundation.BatchLru
import Mathlib.Data.List.Infix
import Mathlib.Data.List.Nodup

/-!
# Caches of Different Sizes

Two caches with batch eviction that are used in the same way. One item at a time would leave
the larger cache with everything that the smaller one has. A batch does not: right after an
eviction a cache holds less than one that is a little smaller and has evicted before.

Main results:
- `touchAll_suffix`: with a whole batch between their limits, the smaller cache holds the
  newest items of the larger one;
- `exists_lost`: with less than that, some use of both leaves an item in the smaller cache
  that the larger one has lost.
-/

namespace BatchLru

variable {α : Type*} {p p' : Policy}

/-- A cache with more items than that evicts a batch for the next new one. -/
def Policy.limit (p : Policy) : ℕ := p.capacity - p.watermark

/-- Evictions start before the cache is full. -/
structure Policy.Evicts (p : Policy) : Prop where
  watermark_pos : 0 < p.watermark
  watermark_le : p.watermark ≤ p.capacity

theorem makeRoom_eq (hp : p.Evicts) (order : List α) :
    makeRoom p order = if p.limit < order.length then order.drop p.batch else order := by
  have hpos := hp.watermark_pos
  have hle := hp.watermark_le
  have hiff : p.capacity - order.length < p.watermark ↔ p.limit < order.length := by
    unfold Policy.limit
    omega
  unfold makeRoom
  exact if_congr hiff rfl rfl

theorem makeRoom_suffix_self (order : List α) : makeRoom p order <:+ order := by
  unfold makeRoom
  split
  · exact List.drop_suffix _ _
  · exact List.suffix_rfl

theorem makeRoom_suffix (hp : p.Evicts) (hp' : p'.Evicts) (hbatch : p.batch = p'.batch)
    (hlimit : p.limit + p.batch ≤ p'.limit + 1) {order order' : List α} (h : order <:+ order') :
    makeRoom p order <:+ makeRoom p' order' := by
  have hlength := h.length_le
  have hsmall : makeRoom p order <:+ order' := (makeRoom_suffix_self order).trans h
  rw [makeRoom_eq hp']
  split
  · next hlarge =>
    -- what the smaller cache keeps is no longer than what the larger one keeps
    refine List.suffix_of_suffix_length_le hsmall (List.drop_suffix _ _) ?_
    rw [makeRoom_eq hp, List.length_drop]
    split
    · rw [List.length_drop]
      omega
    · omega
  · exact hsmall

variable [DecidableEq α]

theorem touch_suffix (hp : p.Evicts) (hp' : p'.Evicts) (hbatch : p.batch = p'.batch)
    (hlimit : p.limit + p.batch ≤ p'.limit + 1) {order order' : List α} (h : order <:+ order')
    (x : α) : touch p order x <:+ touch p' order' x := by
  have hgrow : ∀ {l l' : List α}, l <:+ l' → l ++ [x] <:+ l' ++ [x] := by
    rintro l l' ⟨old, rfl⟩
    exact ⟨old, (List.append_assoc ..).symm⟩
  -- an item of the smaller cache is one of the larger; otherwise the smaller makes room
  by_cases hx : x ∈ order
  · rw [touch_of_mem p hx, touch_of_mem p' (h.mem hx)]
    exact hgrow (h.filter _)
  · by_cases hx' : x ∈ order'
    · -- a hit of the larger cache only: the item is not among those of the smaller one
      have hsame : order.filter (fun y => y ≠ x) = order := by
        refine List.filter_eq_self.mpr (fun y hy => decide_eq_true ?_)
        rintro rfl
        exact hx hy
      have hfilter := h.filter (fun y => decide (y ≠ x))
      rw [hsame] at hfilter
      rw [touch_of_notMem p hx, touch_of_mem p' hx']
      exact hgrow ((makeRoom_suffix_self order).trans hfilter)
    · rw [touch_of_notMem p hx, touch_of_notMem p' hx']
      exact hgrow (makeRoom_suffix hp hp' hbatch hlimit h)

/-- With a whole batch between the limits, the smaller cache holds the newest items of the
larger one. -/
theorem touchAll_suffix (hp : p.Evicts) (hp' : p'.Evicts) (hbatch : p.batch = p'.batch)
    (hlimit : p.limit + p.batch ≤ p'.limit + 1) {order order' : List α} (h : order <:+ order')
    (xs : List α) : touchAll p order xs <:+ touchAll p' order' xs := by
  induction xs generalizing order order' with
  | nil => exact h
  | cons x xs ih => exact ih (touch_suffix hp hp' hbatch hlimit h x)

/-- Only the limit and the batch of a policy matter. -/
theorem touchAll_congr (hp : p.Evicts) (hp' : p'.Evicts) (hbatch : p.batch = p'.batch)
    (hlimit : p.limit = p'.limit) (order xs : List α) :
    touchAll p order xs = touchAll p' order xs := by
  have hroom : ∀ order : List α, makeRoom p order = makeRoom p' order := by
    intro order
    rw [makeRoom_eq hp, makeRoom_eq hp', hbatch, hlimit]
  induction xs generalizing order with
  | nil => rfl
  | cons x xs ih =>
    have htouch : touch p order x = touch p' order x := by
      unfold touch
      rw [hroom]
    rw [touchAll_cons, touchAll_cons, htouch, ih]

/-! ## Items that the larger cache loses -/

theorem touchAll_append (order xs ys : List α) :
    touchAll p order (xs ++ ys) = touchAll p (touchAll p order xs) ys := List.foldl_append

theorem mem_of_mem_touchAll {order xs : List α} {y : α} (h : y ∈ touchAll p order xs) :
    y ∈ order ∨ y ∈ xs := by
  induction xs generalizing order with
  | nil => exact Or.inl h
  | cons x xs ih =>
    rcases ih h with htouch | hlater
    · by_cases hx : x ∈ order
      · rw [touch_of_mem p hx, List.mem_append, List.mem_singleton] at htouch
        exact htouch.elim (fun hold => Or.inl (List.mem_of_mem_filter hold))
          (fun hnew => Or.inr (hnew ▸ List.mem_cons_self))
      · rw [touch_of_notMem p hx, List.mem_append, List.mem_singleton] at htouch
        exact htouch.elim (fun hold => Or.inl ((makeRoom_sublist p order).mem hold))
          (fun hnew => Or.inr (hnew ▸ List.mem_cons_self))
    · exact Or.inr (List.mem_cons_of_mem x hlater)

/-- Using the oldest items again, in their order, makes them the newest ones. -/
theorem touchAll_oldest {xs rest : List α} (hnd : (xs ++ rest).Nodup) :
    touchAll p (xs ++ rest) xs = rest ++ xs := by
  induction xs generalizing rest with
  | nil => simp
  | cons x xs ih =>
    rw [List.cons_append, List.nodup_cons] at hnd
    have hfilter : (x :: (xs ++ rest)).filter (fun y => y ≠ x) = xs ++ rest := by
      rw [List.filter_cons_of_neg (by simp)]
      refine List.filter_eq_self.mpr (fun y hy => decide_eq_true ?_)
      rintro rfl
      exact hnd.1 hy
    have hmoved : (xs ++ (rest ++ [x])).Nodup := by
      rw [← List.append_assoc]
      exact List.nodup_append_comm.mp (List.nodup_cons.mpr hnd)
    rw [touchAll_cons, List.cons_append, touch_of_mem p List.mem_cons_self, hfilter,
      List.append_assoc, ih hmoved, List.append_assoc, List.singleton_append]

/-- Renaming the items changes nothing. -/
theorem touchAll_map {β : Type*} [DecidableEq β] {f : β → α} (hf : Function.Injective f)
    (order xs : List β) :
    touchAll p (order.map f) (xs.map f) = (touchAll p order xs).map f := by
  have hroom : ∀ order : List β, makeRoom p (order.map f) = (makeRoom p order).map f := by
    intro order
    unfold makeRoom
    rw [List.length_map]
    split
    · rw [List.map_drop]
    · rfl
  have htouch : ∀ (order : List β) (x : β),
      touch p (order.map f) (f x) = (touch p order x).map f := by
    intro order x
    by_cases hx : x ∈ order
    · rw [touch_of_mem p hx, touch_of_mem p (List.mem_map_of_mem hx), List.filter_map,
        List.map_append]
      simp [Function.comp_def, hf.eq_iff]
    · have hfx : f x ∉ order.map f := fun h => hx ((List.mem_map_of_injective hf).mp h)
      rw [touch_of_notMem p hx, touch_of_notMem p hfx, hroom, List.map_append]
      rfl
  induction xs generalizing order with
  | nil => rfl
  | cons x xs ih => rw [List.map_cons, touchAll_cons, touchAll_cons, htouch, ih]

theorem touchAll_range (hp : p.Evicts) {n : ℕ} (hn : n ≤ p.limit + 1) :
    touchAll p [] (List.range n) = List.range n := by
  have hle := hp.watermark_le
  have hroom : (([] : List ℕ) ++ List.range n).length + p.watermark ≤ p.capacity + 1 := by
    rw [List.nil_append, List.length_range]
    unfold Policy.limit at hn
    omega
  exact touchAll_of_room p (List.range n) [] List.nodup_range hroom

theorem range_eq_append {m n : ℕ} (h : m ≤ n) :
    List.range n = List.range m ++ List.range' m (n - m) := by
  have happend := @List.range'_append_1 0 m (n - m)
  rw [Nat.zero_add, Nat.add_sub_cancel' h] at happend
  rw [List.range_eq_range', List.range_eq_range', happend]

/-- When the next new item comes to a cache at its limit, the first batch goes. -/
theorem touchAll_range_succ (hp : p.Evicts) :
    touchAll p [] (List.range (p.limit + 2)) =
      (List.range (p.limit + 1)).drop p.batch ++ [p.limit + 1] := by
  have hnew : p.limit + 1 ∉ List.range (p.limit + 1) := by
    rw [List.mem_range]
    exact lt_irrefl _
  have hfull : p.limit < (List.range (p.limit + 1)).length := by
    rw [List.length_range]
    exact Nat.lt_succ_self _
  rw [List.range_succ, touchAll_append, touchAll_range hp le_rfl, touchAll_cons, touchAll_nil,
    touch_of_notMem p hnew, makeRoom_eq hp, if_pos hfull]

/-- New items until the smaller cache has evicted, and no other ones. -/
theorem exists_lost_of_limit_lt (hp : p.Evicts) (hp' : p'.Evicts) (hbatch : 0 < p'.batch)
    (hlimit : p'.limit < p.limit) :
    ∃ (xs : List ℕ) (x : ℕ), x ∈ touchAll p [] xs ∧ x ∉ touchAll p' [] xs := by
  refine ⟨List.range (p.limit + 1), 0, ?_, ?_⟩
  · rw [touchAll_range hp le_rfl]
    exact List.mem_range.mpr p.limit.succ_pos
  · rw [range_eq_append (show p'.limit + 2 ≤ p.limit + 1 by omega), touchAll_append,
      touchAll_range_succ hp']
    intro hmem
    rcases mem_of_mem_touchAll hmem with hkept | hlater
    · rw [List.range_eq_range', List.drop_range', List.mem_append] at hkept
      rcases hkept with hkept | hlast
      · have hfrom := (List.mem_range'_1.mp hkept).1
        omega
      · have hzero := List.mem_singleton.mp hlast
        omega
    · have hfrom := (List.mem_range'_1.mp hlater).1
      omega

/-- New items until the larger cache is at its limit, by when the smaller one has evicted
the first batch. The oldest items are used again until the smaller cache is at its limit, and
then the next new item makes the larger one evict. -/
theorem exists_lost_of_lt_limit (hp : p.Evicts) (hp' : p'.Evicts) (hbatch : p.batch = p'.batch)
    (hsize : p.batch ≤ p.limit) (hlimit : p.limit < p'.limit)
    (hclose : p'.limit + 1 < p.limit + p.batch) :
    ∃ (xs : List ℕ) (x : ℕ), x ∈ touchAll p [] xs ∧ x ∉ touchAll p' [] xs := by
  obtain ⟨k, hk⟩ : ∃ k, p.limit + p.batch = p'.limit + 1 + (k + 1) :=
    ⟨p.limit + p.batch - p'.limit - 2, by omega⟩
  refine ⟨List.range (p'.limit + 1) ++ (List.range (k + 1) ++ [p'.limit + 1]), p.batch, ?_, ?_⟩
  · -- after the first eviction the smaller cache has room for all the others
    have hle := hp.watermark_le
    set kept := (List.range (p.limit + 1)).drop p.batch ++ [p.limit + 1] with hkept
    set later := List.range' (p.limit + 2) (p'.limit + 1 - (p.limit + 2)) ++
      (List.range (k + 1) ++ [p'.limit + 1]) with hlater
    have hroom : (kept ++ later).length + p.watermark ≤ p.capacity + 1 := by
      simp only [hkept, hlater, List.length_append, List.length_drop, List.length_range,
        List.length_range', List.length_singleton]
      unfold Policy.limit at *
      omega
    have hnd : (kept ++ later).Nodup := by
      -- the oldest items come back after they have been evicted
      have hkeptNodup : kept.Nodup := by
        refine (List.nodup_range.sublist (List.drop_sublist _ _)).append
          (List.nodup_singleton _) ?_
        intro x hx hlast
        have hlt := List.mem_range.mp (List.mem_of_mem_drop hx)
        have heq := List.mem_singleton.mp hlast
        omega
      have hagain : (List.range (k + 1) ++ [p'.limit + 1]).Nodup := by
        refine List.nodup_range.append (List.nodup_singleton _) ?_
        intro x hx hlast
        have hlt := List.mem_range.mp hx
        have heq := List.mem_singleton.mp hlast
        omega
      have hlaterNodup : later.Nodup := by
        refine List.Nodup.append List.nodup_range' hagain ?_
        intro x hx hmem
        have hfrom := List.mem_range'_1.mp hx
        rw [List.mem_append, List.mem_range, List.mem_singleton] at hmem
        omega
      refine hkeptNodup.append hlaterNodup ?_
      intro x hx hmem
      rw [hkept, List.range_eq_range', List.drop_range', List.mem_append, List.mem_range'_1,
        List.mem_singleton] at hx
      rw [hlater, List.mem_append, List.mem_append, List.mem_range'_1, List.mem_range,
        List.mem_singleton] at hmem
      omega
    rw [range_eq_append (show p.limit + 2 ≤ p'.limit + 1 by omega), List.append_assoc,
      touchAll_append, touchAll_range_succ hp, touchAll_of_room p _ _ hnd hroom]
    refine List.mem_append_left _ (List.mem_append_left _ ?_)
    rw [List.range_eq_range', List.drop_range', List.mem_range'_1]
    omega
  · have hnew : p'.limit + 1 ∉ List.range' (k + 1) (p'.limit - k) ++ List.range (k + 1) := by
      rw [List.mem_append, List.mem_range'_1, List.mem_range]
      omega
    have hfull : p'.limit < (List.range' (k + 1) (p'.limit - k) ++ List.range (k + 1)).length := by
      rw [List.length_append, List.length_range', List.length_range]
      omega
    have hall : List.range (p'.limit + 1) =
        List.range (k + 1) ++ List.range' (k + 1) (p'.limit - k) := by
      rw [range_eq_append (show k + 1 ≤ p'.limit + 1 by omega)]
      congr 2
      omega
    have hnd : (List.range (k + 1) ++ List.range' (k + 1) (p'.limit - k)).Nodup :=
      hall ▸ List.nodup_range
    rw [touchAll_append, touchAll_range hp' le_rfl, hall, touchAll_append, touchAll_oldest hnd,
      touchAll_cons, touchAll_nil, touch_of_notMem p' hnew, makeRoom_eq hp', if_pos hfull,
      ← hbatch, List.drop_append, List.drop_range']
    rw [List.mem_append, List.mem_append, List.mem_range'_1, List.mem_singleton]
    rintro ((hold | holdest) | hlast)
    · omega
    · have hlt := List.mem_range.mp (List.mem_of_mem_drop holdest)
      omega
    · omega

/-- With limits that differ by less than a batch, or the other way, some use leaves an item in
the first cache that the second one has lost. Any items will do. -/
theorem exists_lost (hp : p.Evicts) (hp' : p'.Evicts) (hbatch : p.batch = p'.batch)
    (hpos : 0 < p.batch) (hsize : p.batch ≤ p.limit)
    (hclose : ¬ (p.limit = p'.limit ∨ p.limit + p.batch ≤ p'.limit + 1)) {f : ℕ → α}
    (hf : Function.Injective f) :
    ∃ (xs : List ℕ) (x : ℕ),
      f x ∈ touchAll p [] (xs.map f) ∧ f x ∉ touchAll p' [] (xs.map f) := by
  have hlost : ∃ (xs : List ℕ) (x : ℕ), x ∈ touchAll p [] xs ∧ x ∉ touchAll p' [] xs := by
    rcases Nat.lt_trichotomy p.limit p'.limit with hlt | heq | hgt
    · exact exists_lost_of_lt_limit hp hp' hbatch hsize hlt (by omega)
    · exact absurd (Or.inl heq) hclose
    · exact exists_lost_of_limit_lt hp hp' (hbatch ▸ hpos) hgt
  obtain ⟨xs, x, hmem, hnot⟩ := hlost
  refine ⟨xs, x, ?_, ?_⟩
  · rw [← List.map_nil (f := f), touchAll_map hf]
    exact List.mem_map_of_mem hmem
  · rw [← List.map_nil (f := f), touchAll_map hf]
    exact fun h => hnot ((List.mem_map_of_injective hf).mp h)

/-- With a whole batch between the limits, or the same limit, the second cache keeps whatever
the first one keeps. -/
theorem touchAll_subset (hp : p.Evicts) (hp' : p'.Evicts) (hbatch : p.batch = p'.batch)
    (hlimit : p.limit = p'.limit ∨ p.limit + p.batch ≤ p'.limit + 1) (xs : List α) :
    touchAll p [] xs ⊆ touchAll p' [] xs := by
  rcases hlimit with heq | hle
  · rw [touchAll_congr hp hp' hbatch heq]
    exact List.Subset.refl _
  · exact (touchAll_suffix hp hp' hbatch hle List.suffix_rfl xs).subset

end BatchLru
