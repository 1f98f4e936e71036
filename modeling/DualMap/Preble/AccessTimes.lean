import DualMap.Preble.CacheMetadata

/-!
# Access Times

A node gets a reading of the clock when it is made, and another one whenever a look-up or an
insertion comes by. No two of these are the same reading, so under a clock that never shows a
time twice no two nodes share an access time. This is kept by each of the operations that
the calls of the cache are made of, whatever the shape of the tree.
-/

namespace DualMap.Preble.LPRadixCache

variable {n : ℕ} {rt : Runtime n} {c : LPRadixCache n}

/-- The nodes made so far have distinct access times, all read off the clock. -/
structure DistinctTimes (rt : Runtime n) (c : LPRadixCache n) : Prop where
  read : ∀ m < c.nextId, ∃ k < c.ticks, (c.nodes m).lastAccessTime = rt.time k
  distinct : ∀ m < c.nextId, ∀ m' < c.nextId,
    (c.nodes m).lastAccessTime = (c.nodes m').lastAccessTime → m = m'

theorem init_distinctTimes (rt : Runtime n) : DistinctTimes rt (init rt) where
  read _ _ := ⟨0, Nat.one_pos, rfl⟩
  distinct m hm m' hm' _ := by
    rw [Nat.lt_one_iff.mp hm, Nat.lt_one_iff.mp hm']

/-- Changes outside the access times. -/
theorem DistinctTimes.congr {c' : LPRadixCache n} (h : DistinctTimes rt c)
    (hnext : c'.nextId = c.nextId) (hticks : c'.ticks = c.ticks)
    (htimes : ∀ m, (c'.nodes m).lastAccessTime = (c.nodes m).lastAccessTime) :
    DistinctTimes rt c' where
  read := by simpa only [hnext, hticks, htimes] using h.read
  distinct := by simpa only [hnext, htimes] using h.distinct

/-- A node gets the next reading of the clock. It may be the next one to be made. -/
theorem DistinctTimes.stamp (hclock : Function.Injective rt.time) {c' : LPRadixCache n}
    (h : DistinctTimes rt c) (node : ℕ) (hticks : c'.ticks = c.ticks + 1)
    (hnext : ∀ m < c'.nextId, m ≠ node → m < c.nextId)
    (hstamp : (c'.nodes node).lastAccessTime = rt.time c.ticks)
    (hothers : ∀ m ≠ node, (c'.nodes m).lastAccessTime = (c.nodes m).lastAccessTime) :
    DistinctTimes rt c' := by
  -- the reading is new
  have hnew : ∀ m < c'.nextId, m ≠ node →
      (c'.nodes m).lastAccessTime ≠ (c'.nodes node).lastAccessTime := by
    intro m hm hne heq
    obtain ⟨k, hk, htime⟩ := h.read m (hnext m hm hne)
    rw [hothers m hne, hstamp, htime] at heq
    exact hk.ne (hclock heq)
  refine ⟨fun m hm => ?_, fun m hm m' hm' heq => ?_⟩
  · by_cases hmn : m = node
    · exact ⟨c.ticks, by rw [hticks]; exact Nat.lt_succ_self _, hmn ▸ hstamp⟩
    · obtain ⟨k, hk, htime⟩ := h.read m (hnext m hm hmn)
      exact ⟨k, by rw [hticks]; exact hk.trans (Nat.lt_succ_self _), (hothers m hmn).trans htime⟩
  · by_cases hmn : m = node
    · subst hmn
      by_contra hne
      exact hnew m' hm' (Ne.symm hne) heq.symm
    · by_cases hmn' : m' = node
      · subst hmn'
        exact absurd heq (hnew m hm hmn)
      · rw [hothers m hmn, hothers m' hmn'] at heq
        exact h.distinct m (hnext m hm hmn) m' (hnext m' hm' hmn') heq

/-! ## Operations -/

section Operations

variable (hclock : Function.Injective rt.time)

theorem modifyNode_keepsTimes (node : ℕ) {f : TreeNode n → TreeNode n}
    (hf : ∀ x, (f x).lastAccessTime = x.lastAccessTime) :
    Py.Keeps (DistinctTimes rt) (modifyNode node f) := by
  apply Py.Keeps.modify
  intro c h
  refine h.congr rfl rfl (fun m => ?_)
  by_cases hm : m = node
  · subst hm
    simp [hf]
  · simp [hm]

theorem addNode_keepsTimes (node : ℕ) : Py.Keeps (DistinctTimes rt)
    (modify fun c => { c with allNodes := Insert.insert node c.allNodes }) :=
  Py.Keeps.modify (fun _ h => h.congr rfl rfl (fun _ => rfl))

include hclock

theorem touchNode_keepsTimes (node : ℕ) :
    Py.Keeps (DistinctTimes rt) (touchNode rt node) := by
  intro c h
  rw [touchNode_eq]
  refine h.stamp hclock node rfl (fun m hm _ => hm) ?_ (fun m hm => ?_)
  · simp [touched]
  · simp [touched, hm]

theorem newTreeNode_keepsTimes : Py.Keeps (DistinctTimes rt) (newTreeNode rt) := by
  intro c h
  refine h.stamp hclock c.nextId rfl (fun m hm hne => ?_) ?_ (fun m hm => ?_)
  · exact lt_of_le_of_ne (Nat.le_of_lt_succ hm) hne
  · simp [newTreeNode, readTime, Py.bind_apply]
  · simp [newTreeNode, readTime, Py.bind_apply, hm]

theorem splitNode_keepsTimes (key : List ℕ) (child splitLen : ℕ) :
    Py.Keeps (DistinctTimes rt) (splitNode rt key child splitLen) := by
  refine (newTreeNode_keepsTimes hclock).bind (fun newNode => ?_)
  refine (Py.Keeps.ofOption _ _).bind (fun below => Py.Keeps.get_bind (fun c h => ?_))
  refine Py.Keeps.bind (modifyNode_keepsTimes newNode fun _ => by rfl) (fun _ => ?_) c h
  refine (Py.Keeps.ofOption _ _).bind (fun parent => Py.Keeps.get_bind (fun c h => ?_))
  refine Py.Keeps.bind (modifyNode_keepsTimes newNode fun _ => by rfl) (fun _ => ?_) c h
  refine (modifyNode_keepsTimes child fun _ => by rfl).bind (fun _ => ?_)
  refine (Py.Keeps.ofOption _ _).bind (fun above => ?_)
  refine (modifyNode_keepsTimes parent fun _ => by rfl).bind (fun _ => ?_)
  exact (addNode_keepsTimes newNode).bind (fun _ => Py.Keeps.pure newNode)

theorem insertHelper_keepsTimes (fuel node : ℕ) (key value : List ℕ)
    (splitNodes : OrderedDict ℕ ℕ) (parentContextLength depth : ℕ) :
    Py.Keeps (DistinctTimes rt)
      (insertHelper rt fuel node key value splitNodes parentContextLength depth) := by
  induction fuel generalizing node key value splitNodes parentContextLength depth with
  | zero => exact Py.Keeps.throw _
  | succ fuel ih =>
    refine (touchNode_keepsTimes hclock node).bind (fun _ => ?_)
    refine (modifyNode_keepsTimes node fun _ => by rfl).bind (fun _ => ?_)
    cases key with
    | nil => exact Py.Keeps.pure _
    | cons token key =>
      refine Py.Keeps.get_bind (fun c h => ?_)
      cases hchild : (c.nodes node).children.get? token with
      | some child =>
        simp only
        -- a full match stamps the child, a longer one walks on, a shorter one splits
        split
        · split
          · exact (modifyNode_keepsTimes child fun _ => by rfl).bind (fun _ => Py.Keeps.pure _) c h
          · exact ih _ _ _ _ _ _ c h
        · exact (splitNode_keepsTimes hclock _ _ _).bind (fun _ => ih _ _ _ _ _ _) c h
      -- the new leaf reads the clock once, when it is made
      | none =>
        refine Py.Keeps.bind (newTreeNode_keepsTimes hclock) (fun newNode => ?_) c h
        refine (modifyNode_keepsTimes newNode fun _ => by rfl).bind (fun _ => ?_)
        refine (modifyNode_keepsTimes node fun _ => by rfl).bind (fun _ => ?_)
        exact (addNode_keepsTimes newNode).bind (fun _ => Py.Keeps.pure _)

theorem insert_keepsTimes (key : List ℕ) (value : Option (List ℕ))
    (splitNodes : OrderedDict ℕ ℕ) :
    Py.Keeps (DistinctTimes rt) (insert rt key value splitNodes) :=
  insertHelper_keepsTimes hclock _ _ _ _ _ _ _

theorem matchPrefixHelper_keepsTimes (fuel node : ℕ) (key : List ℕ) :
    Py.Keeps (DistinctTimes rt) (matchPrefixHelper rt fuel node key) := by
  induction fuel generalizing node key with
  | zero => exact Py.Keeps.throw _
  | succ fuel ih =>
    refine (touchNode_keepsTimes hclock node).bind (fun _ => ?_)
    cases key with
    | nil => exact Py.Keeps.pure _
    | cons token key =>
      refine Py.Keeps.get_bind (fun c h => ?_)
      cases hchild : (c.nodes node).children.get? token with
      | some child =>
        simp only
        split
        · exact h
        · exact ih _ _ c h
      | none => exact h

theorem findNode_keepsTimes (key : List ℕ) :
    Py.Keeps (DistinctTimes rt) (findNode rt key) :=
  matchPrefixHelper_keepsTimes hclock _ _ _

theorem removeCompletedInputIds_keepsTimes (inputIds : List ℕ) (gpu : Fin n) :
    Py.Keeps (DistinctTimes rt) (removeCompletedInputIds rt inputIds gpu) := by
  refine (findNode_keepsTimes hclock inputIds).bind (fun found => ?_)
  refine (Py.Keeps.ofOption _ _).bind (fun node => Py.Keeps.get_bind (fun c h => ?_))
  refine Py.Keeps.forM (fun m => ?_) _ c h
  refine (modifyNode_keepsTimes m fun _ => by rfl).bind (fun _ => ?_)
  exact Py.Keeps.get_bind (fun c h => Py.Keeps.assert _ c h)

end Operations

/-- Counting a request reads no clock. -/
theorem Counted.distinctTimes {c' : LPRadixCache n} {gpu : Fin n} {way : List ℕ}
    (hcounted : Counted gpu way c c') (h : DistinctTimes rt c) : DistinctTimes rt c' := by
  refine h.congr hcounted.sameShape.nextId hcounted.ticks (fun m => ?_)
  rw [hcounted.nodes]
  split <;> rfl

end DualMap.Preble.LPRadixCache
