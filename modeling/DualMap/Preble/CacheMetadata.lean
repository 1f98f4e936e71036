import DualMap.Preble.RadixInsert

/-!
# The Walks to the Root

`update_cache_metadada` counts a request on the way from its node to the root, and
`remove_completed_input_ids` takes it off again. Both walks change each node on the way once
(`foldl_nodes`); what is changed there is `TreeNode.counted` and `TreeNode.discounted`.
-/

namespace DualMap.Preble

variable {n : ℕ}

/-- The node with one more uncompleted request of the replica, and cached there. -/
def TreeNode.counted (x : TreeNode n) (gpu : Fin n) : TreeNode n :=
  { x with
    numUncompletedRequestForGpuMap := Function.update x.numUncompletedRequestForGpuMap gpu
      (x.numUncompletedRequestForGpuMap gpu + 1)
    evictedGpus := x.evictedGpus.erase gpu
    cachedGpus := Insert.insert gpu x.cachedGpus }

/-- The node with one uncompleted request of the replica less. -/
def TreeNode.discounted (x : TreeNode n) (gpu : Fin n) : TreeNode n :=
  { x with
    numUncompletedRequestForGpuMap := Function.update x.numUncompletedRequestForGpuMap gpu
      (x.numUncompletedRequestForGpuMap gpu - 1) }

theorem TreeNode.hasCachedGpu_counted (x : TreeNode n) (gpu : Fin n) :
    (x.counted gpu).hasCachedGpu gpu :=
  ⟨Finset.mem_insert_self .., Finset.notMem_erase gpu _⟩

theorem TreeNode.hasCachedGpu_counted_of_ne (x : TreeNode n) {gpu gpu' : Fin n}
    (h : gpu' ≠ gpu) : (x.counted gpu).hasCachedGpu gpu' ↔ x.hasCachedGpu gpu' := by
  simp [TreeNode.hasCachedGpu, TreeNode.counted, h]

namespace LPRadixCache

variable {rt : Runtime n} {c : LPRadixCache n} {σ : ℕ → List ℕ} {gpu : Fin n}

/-! ## The nodes on the way -/

theorem WellFormed.mem_ancestors (hc : WellFormed c σ) {m x : ℕ} (hm : m ∈ c.allNodes) :
    x ∈ c.ancestors m ↔ x ∈ c.allNodes ∧ σ x <+: σ m :=
  hc.spelled.mem_ancestors hm (by rw [hc.context m hm]; omega)

theorem WellFormed.ancestors_nodup (hc : WellFormed c σ) {m : ℕ} (hm : m ∈ c.allNodes) :
    (c.ancestors m).Nodup :=
  hc.spelled.ancestors_nodup hm (by rw [hc.context m hm]; omega)

/-- The nodes on the way to the root, without the root. -/
theorem WellFormed.takeWhile_ancestors (hc : WellFormed c σ) {m : ℕ} (hm : m ∈ c.allNodes) :
    ((c.ancestors m).takeWhile (· ≠ rootNode)).Nodup ∧
      ∀ x, x ∈ (c.ancestors m).takeWhile (· ≠ rootNode) ↔
        x ∈ c.allNodes ∧ σ x <+: σ m ∧ x ≠ rootNode := by
  obtain ⟨way, hway, hroot⟩ := hc.spelled.ancestors_eq_append hm
    (show (σ m).length < (c.nodes m).contextLength + 1 by rw [hc.context m hm]; omega)
  have hway : c.ancestors m = way ++ [rootNode] := hway
  have hroot : rootNode ∉ way := hroot
  -- the walk up ends at the root, which occurs once, at the end
  have htake : (c.ancestors m).takeWhile (· ≠ rootNode) = way := by
    rw [hway, List.takeWhile_append_of_pos]
    · simp
    · intro x hx
      simp only [decide_eq_true_eq]
      rintro rfl
      exact hroot hx
  have hnodup := hc.ancestors_nodup hm
  rw [hway] at hnodup
  refine ⟨htake ▸ hnodup.of_append_left, fun x => ?_⟩
  rw [htake, ← and_assoc, ← hc.mem_ancestors hm, hway, List.mem_append, List.mem_singleton]
  constructor
  · intro hx
    refine ⟨Or.inl hx, ?_⟩
    rintro rfl
    exact hroot hx
  · rintro ⟨hx, hne⟩
    exact hx.resolve_right hne

/-- A walk that changes each node that it meets. -/
theorem foldl_nodes (turn : LPRadixCache n → ℕ → LPRadixCache n) (f : TreeNode n → TreeNode n)
    (hturn : ∀ c m, (turn c m).nodes = Function.update c.nodes m (f (c.nodes m)))
    {way : List ℕ} (hway : way.Nodup) (c : LPRadixCache n) (m : ℕ) :
    (way.foldl turn c).nodes m = if m ∈ way then f (c.nodes m) else c.nodes m := by
  induction way generalizing c with
  | nil => rfl
  | cons x way ih =>
    obtain ⟨hx, hway⟩ := List.nodup_cons.mp hway
    rw [List.foldl_cons, ih hway, hturn]
    by_cases hm : m = x
    · subst hm
      rw [if_neg hx, Function.update_self, if_pos List.mem_cons_self]
    · rw [Function.update_of_ne hm]
      simp only [List.mem_cons, hm, false_or]

/-- What no turn changes is not changed by the walk. -/
theorem foldl_eq {β : Type} (turn : LPRadixCache n → ℕ → LPRadixCache n)
    (part : LPRadixCache n → β) (hturn : ∀ c m, part (turn c m) = part c) (way : List ℕ)
    (c : LPRadixCache n) : part (way.foldl turn c) = part c := by
  induction way generalizing c with
  | nil => rfl
  | cons x way ih => rw [List.foldl_cons, ih, hturn]

/-! ## Counting a request -/

/-- The cache after one turn of the loop of `update_cache_metadada`. -/
def countOne (gpu : Fin n) (c : LPRadixCache n) (node : ℕ) : LPRadixCache n :=
  { c with
    nodes := Function.update c.nodes node ((c.nodes node).counted gpu)
    allocatedSizeForGpusList := Function.update c.allocatedSizeForGpusList gpu
      (c.allocatedSizeForGpusList gpu +
        if (c.nodes node).hasCachedGpu gpu then 0 else ((c.nodes node).value.length : ℤ)) }

theorem countRequest_eq (gpu : Fin n) (node : ℕ) (c : LPRadixCache n) :
    countRequest gpu node c = .ok () (countOne gpu c node) := by
  have hcached : ∀ f, ({ c.nodes node with numUncompletedRequestForGpuMap := f } :
      TreeNode n).hasCachedGpu gpu ↔ (c.nodes node).hasCachedGpu gpu := fun _ => Iff.rfl
  by_cases h : (c.nodes node).hasCachedGpu gpu
  · have hinsert := Finset.insert_eq_of_mem h.1
    have herase := Finset.erase_eq_of_notMem h.2
    simp only [countRequest, modifyNode, Py.bind_apply, Py.modify_apply, Py.get_apply,
      Function.update_self, hcached, h, not_true_eq_false, if_false, Py.pure_apply, countOne,
      TreeNode.counted, hinsert, herase, if_true, add_zero, Function.update_eq_self]
  · simp only [countRequest, modifyNode, Py.bind_apply, Py.modify_apply, Py.get_apply,
      Function.update_self, hcached, h, not_false_eq_true, if_true, countOne,
      TreeNode.counted, if_false, Function.update_idem]

/-- The walk of `update_cache_metadada` never fails. -/
theorem updateCacheMetadada_eq (node : ℕ) (gpu : Fin n) (c : LPRadixCache n) :
    updateCacheMetadada node gpu c = .ok () ((c.ancestors node).foldl (countOne gpu) c) := by
  rw [updateCacheMetadada, Py.bind_ok (Py.get_apply c)]
  exact Py.forM_ok (countRequest_eq gpu) _ c

/-- A request was counted on the way from a node to the root. -/
structure Counted (gpu : Fin n) (way : List ℕ) (c c' : LPRadixCache n) : Prop where
  sameShape : SameShape c c'
  ticks : c'.ticks = c.ticks
  nodes : ∀ m, c'.nodes m = if m ∈ way then (c.nodes m).counted gpu else c.nodes m

theorem counted_foldl {way : List ℕ} (hway : way.Nodup) (gpu : Fin n) (c : LPRadixCache n) :
    Counted gpu way c (way.foldl (countOne gpu) c) := by
  have hnodes := foldl_nodes (countOne gpu) (TreeNode.counted · gpu) (fun _ _ => rfl) hway c
  refine { sameShape := { nextId := ?_, allNodes := ?_, nodes := ?_ }, ticks := ?_,
           nodes := hnodes }
  · exact foldl_eq (countOne gpu) LPRadixCache.nextId (fun _ _ => rfl) way c
  · exact foldl_eq (countOne gpu) LPRadixCache.allNodes (fun _ _ => rfl) way c
  · intro m
    rw [hnodes]
    split <;> exact ⟨rfl, rfl, rfl, rfl, rfl⟩
  · exact foldl_eq (countOne gpu) LPRadixCache.ticks (fun _ _ => rfl) way c

/-! ## Taking a request off -/

/-- The cache after one turn of the loop of `dec_num_uncompleted_request_for_gpu`. -/
def discountOne (gpu : Fin n) (c : LPRadixCache n) (node : ℕ) : LPRadixCache n :=
  { c with nodes := Function.update c.nodes node ((c.nodes node).discounted gpu) }

/-- A request was taken off on the way from a node to the root. -/
structure Discounted (gpu : Fin n) (way : List ℕ) (c c' : LPRadixCache n) : Prop where
  sameShape : SameShape c c'
  ticks : c'.ticks = c.ticks
  allocated : c'.allocatedSizeForGpusList = c.allocatedSizeForGpusList
  nodes : ∀ m, c'.nodes m = if m ∈ way then (c.nodes m).discounted gpu else c.nodes m

theorem discounted_foldl {way : List ℕ} (hway : way.Nodup) (gpu : Fin n)
    (c : LPRadixCache n) : Discounted gpu way c (way.foldl (discountOne gpu) c) := by
  have hnodes := foldl_nodes (discountOne gpu) (TreeNode.discounted · gpu) (fun _ _ => rfl) hway c
  refine { sameShape := { nextId := ?_, allNodes := ?_, nodes := ?_ }, ticks := ?_,
           allocated := ?_, nodes := hnodes }
  · exact foldl_eq (discountOne gpu) LPRadixCache.nextId (fun _ _ => rfl) way c
  · exact foldl_eq (discountOne gpu) LPRadixCache.allNodes (fun _ _ => rfl) way c
  · intro m
    rw [hnodes]
    split <;> exact ⟨rfl, rfl, rfl, rfl, rfl⟩
  · exact foldl_eq (discountOne gpu) LPRadixCache.ticks (fun _ _ => rfl) way c
  · exact foldl_eq (discountOne gpu) LPRadixCache.allocatedSizeForGpusList (fun _ _ => rfl) way c

/-- The assertion holds as long as the request is counted at every node on the way. -/
theorem decNumUncompleted_forM {way : List ℕ} (hway : way.Nodup) (c : LPRadixCache n)
    (hpos : ∀ m ∈ way, 0 < (c.nodes m).numUncompletedRequestForGpuMap gpu) :
    (way.forM (fun m => do
      modifyNode m (fun x => { x with
        numUncompletedRequestForGpuMap := Function.update x.numUncompletedRequestForGpuMap gpu
          (x.numUncompletedRequestForGpuMap gpu - 1) })
      let c ← get
      Py.assert (0 ≤ (c.nodes m).numUncompletedRequestForGpuMap gpu))) c =
      .ok () (way.foldl (discountOne gpu) c) := by
  induction way generalizing c with
  | nil => rfl
  | cons x way ih =>
    obtain ⟨hx, hway⟩ := List.nodup_cons.mp hway
    -- the count was positive, so the assertion after the decrement holds
    have hassert : 0 ≤ (((discountOne gpu c x).nodes x).numUncompletedRequestForGpuMap gpu) := by
      have hpos := hpos x List.mem_cons_self
      simp only [discountOne, TreeNode.discounted, Function.update_self]
      omega
    have hturn : modifyNode x (fun x => { x with
        numUncompletedRequestForGpuMap := Function.update x.numUncompletedRequestForGpuMap gpu
          (x.numUncompletedRequestForGpuMap gpu - 1) }) c = .ok () (discountOne gpu c x) := rfl
    rw [List.forM_eq_forM, List.forM_cons, bind_assoc, Py.bind_ok hturn, bind_assoc,
      Py.bind_ok (Py.get_apply _), Py.assert_pos hassert, pure_bind, List.foldl_cons]
    apply ih hway
    intro m hm
    -- the way has no node twice, so the others still have their counts
    have hne : m ≠ x := fun heq => hx (heq ▸ hm)
    have hsame : (discountOne gpu c x).nodes m = c.nodes m := Function.update_of_ne hne ..
    rw [hsame]
    exact hpos m (List.mem_cons_of_mem _ hm)

/-- Where a node counts the request all the way up, taking it off there does not fail. -/
theorem decNumUncompleted_spec (hc : WellFormed c σ) {node : ℕ} (hnode : node ∈ c.allNodes)
    (hpos : ∀ m ∈ c.allNodes, σ m <+: σ node → m ≠ rootNode →
      0 < (c.nodes m).numUncompletedRequestForGpuMap gpu) :
    ∃ c', decNumUncompletedRequestForGpu (some node) gpu c = .ok () c' ∧
      Discounted gpu ((c.ancestors node).takeWhile (· ≠ rootNode)) c c' := by
  obtain ⟨hnodup, hmem⟩ := hc.takeWhile_ancestors hnode
  refine ⟨_, ?_, discounted_foldl hnodup gpu c⟩
  rw [decNumUncompletedRequestForGpu, Py.ofOption_some, pure_bind,
    Py.bind_ok (Py.get_apply c)]
  apply decNumUncompleted_forM hnodup
  intro m hm
  obtain ⟨hm, hpre, hroot⟩ := (hmem m).mp hm
  exact hpos m hm hpre hroot

end LPRadixCache

end DualMap.Preble
