import DualMap.Preble.AllocatedSize

/-!
# Reference Counts Are Exact

Requests start, finish and evict in any order, and the edges on their paths are split in
between. The count of a node and a replica is always the number of unfinished requests of
the replica whose sequence passes through the node (`Reserved`): a new upper half takes over
the count of the node that it is split from, because no unfinished sequence ends inside an
edge, and a new leaf has none, because none passes through it yet.
-/

namespace DualMap.Preble.LPRadixCache

variable {n : ℕ} {rt : Runtime n} {c : LPRadixCache n} {σ : ℕ → List ℕ} {gpu : Fin n}
  {unfinished : List (List ℕ × Fin n)}

/-- How many requests of the replica run through the node whose path is `path`. -/
def passing (unfinished : List (List ℕ × Fin n)) (path : List ℕ) (gpu : Fin n) : ℕ :=
  unfinished.countP (fun r => r.2 = gpu ∧ path <+: r.1)

/-- The counts of the cache are those of the unfinished requests, and each of these has its
node. -/
structure Reserved (c : LPRadixCache n) (σ : ℕ → List ℕ)
    (unfinished : List (List ℕ × Fin n)) : Prop where
  counts : ∀ m ∈ c.allNodes, m ≠ rootNode → ∀ gpu,
    (c.nodes m).numUncompletedRequestForGpuMap gpu = passing unfinished (σ m) gpu
  complete : ∀ r ∈ unfinished, ∃ m ∈ c.allNodes, σ m = r.1

theorem init_reserved (rt : Runtime n) (σ : ℕ → List ℕ) : Reserved (init rt) σ [] where
  counts := fun _ hm hroot => absurd (Finset.mem_singleton.mp hm) hroot
  complete := fun _ hr => absurd hr List.not_mem_nil

theorem passing_congr {path path' : List ℕ}
    (h : ∀ r ∈ unfinished, path <+: r.1 ↔ path' <+: r.1) (gpu : Fin n) :
    passing unfinished path gpu = passing unfinished path' gpu := by
  refine List.countP_congr (fun r hr => ?_)
  simp only [decide_eq_true_eq, h r hr]

theorem passing_eq_zero {path : List ℕ} (h : ∀ r ∈ unfinished, ¬ path <+: r.1)
    (gpu : Fin n) : passing unfinished path gpu = 0 := by
  rw [passing, List.countP_eq_zero]
  intro r hr
  simp only [decide_eq_true_eq, not_and]
  exact fun _ => h r hr

theorem passing_cons (key path : List ℕ) (gpu gpu' : Fin n) :
    passing ((key, gpu) :: unfinished) path gpu' =
      passing unfinished path gpu' + if gpu = gpu' ∧ path <+: key then 1 else 0 := by
  simp only [passing, List.countP_cons, decide_eq_true_eq]

theorem passing_erase {key : List ℕ} (hmem : (key, gpu) ∈ unfinished) (path : List ℕ)
    (gpu' : Fin n) : passing unfinished path gpu' =
      passing (unfinished.erase (key, gpu)) path gpu' +
        if gpu = gpu' ∧ path <+: key then 1 else 0 := by
  rw [← passing_cons]
  exact (List.perm_cons_erase hmem).countP_eq _

/-! ## What each change keeps -/

/-- Changes outside the counts. -/
theorem Reserved.congr {c' : LPRadixCache n} (h : Reserved c σ unfinished)
    (hshape : SameShape c c') (hcounts : ∀ m, (c'.nodes m).numUncompletedRequestForGpuMap =
      (c.nodes m).numUncompletedRequestForGpuMap) : Reserved c' σ unfinished where
  counts := by
    intro m hm hroot gpu
    rw [hcounts]
    exact h.counts m (hshape.allNodes ▸ hm) hroot gpu
  complete := by
    rw [hshape.allNodes]
    exact h.complete

/-- With a new node the unfinished requests still have theirs. -/
theorem Reserved.complete_insert (h : Reserved c σ unfinished) (hc : WellFormed c σ)
    (path : List ℕ) : ∀ r ∈ unfinished, ∃ m ∈ Insert.insert c.nextId c.allNodes,
      Function.update σ c.nextId path m = r.1 := by
  intro r hr
  obtain ⟨m, hm, hmr⟩ := h.complete r hr
  exact ⟨m, Finset.mem_insert_of_mem hm, (hc.update_spell hm path).trans hmr⟩

/-- The upper half takes over the count of the node. -/
theorem afterSplit_reserved (hc : WellFormed c σ) {p child a b : ℕ} {x y : List ℕ}
    (hp : p ∈ c.allNodes) (hedge : c.tree.Edge p a child)
    (hkey : (c.nodes child).key = (a :: x) ++ b :: y) (h : Reserved c σ unfinished) :
    Reserved (afterSplit rt c p child (x.length + 1) a b)
      (Function.update σ c.nextId (σ p ++ a :: x)) unfinished := by
  obtain ⟨hchild, hroot, hpc, hpn, hcn⟩ := hc.split_nodes hp hedge
  refine { counts := ?_, complete := ?_ }
  · intro m hm hne gpu
    rcases afterSplit_cases rt c p child (x.length + 1) a b m with
      rfl | rfl | rfl | ⟨-, -, hnew, hsame⟩
    · rw [afterSplit_parent, hc.update_spell hp]
      exact h.counts m hp hne gpu
    · rw [afterSplit_child rt hpc.symm, hc.update_spell hchild]
      exact h.counts m hchild hne gpu
    · rw [afterSplit_new rt hcn.symm hpn.symm, Function.update_self]
      refine (h.counts child hchild hroot gpu).trans ?_
      rw [passing_congr]
      -- a sequence that enters the edge has its node below it
      intro r hr
      obtain ⟨z, hz, hrz⟩ := h.complete r hr
      have hlabel : a :: x <+: c.tree.label child := ⟨b :: y, hkey.symm⟩
      have hcut : σ p ++ a :: x <+: σ child := by
        rw [hc.spelled.spell_child hp hedge]
        exact (List.prefix_append_right_inj _).mpr hlabel
      rw [← hrz]
      constructor
      · exact fun hpre => hcut.trans hpre
      · exact fun hpre => hc.spelled.edge_prefix hp hz hedge (List.cons_ne_nil _ _) hlabel hpre
    · have hm := (Finset.mem_insert.mp hm).resolve_left hnew
      rw [hsame, hc.update_spell hm]
      exact h.counts m hm hne gpu
  · exact h.complete_insert hc _

/-- No unfinished sequence passes through a new leaf. -/
theorem afterGraft_reserved (hc : WellFormed c σ) {p a contextLength depth : ℕ}
    {x value : List ℕ} (hp : p ∈ c.allNodes) (hnone : (c.nodes p).children.get? a = none)
    (h : Reserved c σ unfinished) :
    Reserved (afterGraft rt c p a (a :: x) value contextLength depth)
      (Function.update σ c.nextId (σ p ++ a :: x)) unfinished := by
  have hpn : p ≠ c.nextId := hc.ne_nextId hp
  refine { counts := ?_, complete := ?_ }
  · intro m hm hne gpu
    rcases afterGraft_cases rt c p a (a :: x) value contextLength depth m with
      rfl | rfl | ⟨-, hnew, hsame⟩
    · rw [afterGraft_parent, hc.update_spell hp]
      exact h.counts m hp hne gpu
    -- no unfinished request can end below the new leaf: its path left the tree at `p`
    · rw [afterGraft_new rt hpn.symm, Function.update_self, passing_eq_zero]
      · rfl
      · intro r hr
        obtain ⟨z, hz, hrz⟩ := h.complete r hr
        rw [← hrz]
        exact hc.spelled.not_prefix_of_no_edge hp hz hnone
    · have hm := (Finset.mem_insert.mp hm).resolve_left hnew
      rw [hsame, hc.update_spell hm]
      exact h.counts m hm hne gpu
  · exact h.complete_insert hc _

theorem GrowsTo.reserved {s s' : LPRadixCache n × (ℕ → List ℕ)} (hgrows : GrowsTo rt s s')
    (hs : WellFormed s.1 s.2) (h : Reserved s.1 s.2 unfinished) :
    Reserved s'.1 s'.2 unfinished := by
  refine (hgrows.invariant (I := fun c σ => Reserved c σ unfinished) hs h ?_).2
  intro u u' hu h hgrows
  cases hgrows with
  | visit hvisit => exact h.congr hvisit.sameShape hvisit.numUncompleted
  | split hp hedge hkey => exact afterSplit_reserved hu hp hedge hkey h
  | graft hp hnone => exact afterGraft_reserved hu hp hnone h

/-- A request that is counted on the way from its node is one more unfinished request. -/
theorem Counted.reserved {c' : LPRadixCache n} {leaf : ℕ} (hc : WellFormed c σ)
    (hleaf : leaf ∈ c.allNodes) (hcounted : Counted gpu (c.ancestors leaf) c c')
    (h : Reserved c σ unfinished) : Reserved c' σ ((σ leaf, gpu) :: unfinished) where
  counts := by
    intro m hm hroot gpu'
    rw [hcounted.sameShape.allNodes] at hm
    have hold := h.counts m hm hroot gpu'
    have hway := hc.mem_ancestors (x := m) hleaf
    rw [hcounted.nodes, passing_cons]
    -- the leaf's ancestors are exactly the nodes whose spelling it extends
    by_cases hpre : σ m <+: σ leaf
    · rw [if_pos (hway.mpr ⟨hm, hpre⟩)]
      by_cases hgpu : gpu = gpu'
      · subst hgpu
        simp [TreeNode.counted, hpre, hold]
      · simp [TreeNode.counted, hgpu, Ne.symm hgpu, hold]
    · rw [if_neg (fun hin => hpre (hway.mp hin).2), if_neg (fun hin => hpre hin.2), hold,
        add_zero]
  complete := by
    rw [hcounted.sameShape.allNodes]
    rintro r (_ | ⟨_, hr⟩)
    · exact ⟨leaf, hleaf, rfl⟩
    · exact h.complete r hr

/-- An unfinished request is counted on its whole way. -/
theorem Reserved.pos (h : Reserved c σ unfinished) {leaf : ℕ}
    (hmem : (σ leaf, gpu) ∈ unfinished) {m : ℕ} (hm : m ∈ c.allNodes) (hpre : σ m <+: σ leaf)
    (hroot : m ≠ rootNode) : 0 < (c.nodes m).numUncompletedRequestForGpuMap gpu := by
  rw [h.counts m hm hroot gpu, passing_erase hmem, if_pos ⟨rfl, hpre⟩]
  omega

/-- A request that is taken off on the way from its node is finished. -/
theorem Discounted.reserved {c' : LPRadixCache n} {leaf : ℕ} (hc : WellFormed c σ)
    (hleaf : leaf ∈ c.allNodes)
    (hdis : Discounted gpu ((c.ancestors leaf).takeWhile (· ≠ rootNode)) c c')
    (hmem : (σ leaf, gpu) ∈ unfinished) (h : Reserved c σ unfinished) :
    Reserved c' σ (unfinished.erase (σ leaf, gpu)) where
  counts := by
    intro m hm hroot gpu'
    rw [hdis.sameShape.allNodes] at hm
    have hold := h.counts m hm hroot gpu'
    have hway := (hc.takeWhile_ancestors hleaf).2 m
    rw [passing_erase hmem] at hold
    rw [hdis.nodes]
    -- one start of this leaf is gone, and it passed through every node above it but the root
    by_cases hpre : σ m <+: σ leaf
    · rw [if_pos (hway.mpr ⟨hm, hpre, hroot⟩)]
      by_cases hgpu : gpu = gpu'
      · subst hgpu
        rw [if_pos ⟨rfl, hpre⟩] at hold
        simp only [TreeNode.discounted, Function.update_self]
        omega
      · rw [if_neg (fun hin => hgpu hin.1), add_zero] at hold
        simp only [TreeNode.discounted, Function.update_of_ne (Ne.symm hgpu)]
        exact hold
    · rw [if_neg (fun hin => hpre (hway.mp hin).2.1)]
      rw [if_neg (fun hin => hpre hin.2), add_zero] at hold
      exact hold
  complete := by
    rw [hdis.sameShape.allNodes]
    exact fun r hr => h.complete r (List.mem_of_mem_erase hr)

/-! ## The calls of the cache -/

/-- What every matched call keeps. -/
structure Accounted (c : LPRadixCache n) (σ : ℕ → List ℕ)
    (unfinished : List (List ℕ × Fin n)) : Prop where
  wellFormed : WellFormed c σ
  reserved : Reserved c σ unfinished
  exactOn : ∀ gpu, c.ExactOn gpu

theorem init_accounted (rt : Runtime n) : Accounted (init rt) (fun _ => []) [] :=
  ⟨init_wellFormed rt, init_reserved rt _, init_exactOn rt⟩

section Calls

variable (h : Accounted c σ unfinished)

include h

/-- Changes of fields that account for nothing. -/
theorem Accounted.congr {c' : LPRadixCache n} (hshape : SameShape c c')
    (halloc : c'.allocatedSizeForGpusList = c.allocatedSizeForGpusList)
    (hcounts : ∀ m, (c'.nodes m).numUncompletedRequestForGpuMap =
      (c.nodes m).numUncompletedRequestForGpuMap)
    (hcached : ∀ m gpu, (c'.nodes m).hasCachedGpu gpu ↔ (c.nodes m).hasCachedGpu gpu) :
    Accounted c' σ unfinished where
  wellFormed := hshape.wellFormed h.wellFormed
  reserved := h.reserved.congr hshape hcounts
  exactOn := fun gpu =>
    (h.exactOn gpu).congr hshape (congrFun halloc gpu) (fun m => hcached m gpu)

theorem Accounted.visited {c' : LPRadixCache n} (hvisit : Visited c c') :
    Accounted c' σ unfinished :=
  h.congr hvisit.sameShape hvisit.allocated hvisit.numUncompleted hvisit.hasCachedGpu

theorem Accounted.insert (rt : Runtime n) (key : List ℕ) :
    ∃ leaf splits c' σ', insert rt key none .empty c = .ok (leaf, splits) c' ∧
      Inserted rt c σ key leaf splits c' σ' ∧ Accounted c' σ' unfinished := by
  obtain ⟨leaf, splits, c', σ', hrun, hins⟩ := insert_spec rt h.wellFormed key
  exact ⟨leaf, splits, c', σ', hrun, hins, hins.wellFormed h.wellFormed,
    hins.grows.reserved h.wellFormed h.reserved,
    fun gpu => hins.grows.exactOn h.wellFormed (h.exactOn gpu)⟩

theorem Accounted.updateCacheMetadada {leaf : ℕ} (hleaf : leaf ∈ c.allNodes) (gpu : Fin n) :
    ∃ c', updateCacheMetadada leaf gpu c = .ok () c' ∧ SameShape c c' ∧
      Accounted c' σ ((σ leaf, gpu) :: unfinished) := by
  have hcounted := counted_foldl (h.wellFormed.ancestors_nodup hleaf) gpu c
  exact ⟨_, updateCacheMetadada_eq leaf gpu c, hcounted.sameShape,
    hcounted.sameShape.wellFormed h.wellFormed,
    hcounted.reserved h.wellFormed hleaf h.reserved,
    fun gpu' => updateCacheMetadada_exactOn h.wellFormed hleaf gpu (h.exactOn gpu')⟩

theorem Accounted.findNode (rt : Runtime n) (key : List ℕ) :
    ∃ found c', findNode rt key c = .ok found c' ∧ SameShape c c' ∧
      Accounted c' σ unfinished ∧ ∀ m ∈ c.allNodes, σ m = key → found = some m := by
  obtain ⟨found, c', hrun, hvisit, -, hfound⟩ := findNode_spec rt h.wellFormed key
  exact ⟨found, c', hrun, hvisit.sameShape, h.visited hvisit, hfound⟩

theorem Accounted.removeCompletedInputIds (rt : Runtime n) {key : List ℕ}
    (hmem : (key, gpu) ∈ unfinished) :
    ∃ c', removeCompletedInputIds rt key gpu c = .ok () c' ∧ SameShape c c' ∧
      Accounted c' σ (unfinished.erase (key, gpu)) := by
  obtain ⟨leaf, hleaf, rfl⟩ := h.reserved.complete _ hmem
  obtain ⟨found, c₁, hrun, hshape, h₁, hfound⟩ := h.findNode rt (σ leaf)
  obtain rfl := hfound leaf hleaf rfl
  have hleaf₁ : leaf ∈ c₁.allNodes := hshape.allNodes ▸ hleaf
  obtain ⟨c₂, hdec, hdis⟩ := decNumUncompleted_spec h₁.wellFormed hleaf₁
    (fun m hm hpre hroot => h₁.reserved.pos hmem hm hpre hroot)
  refine ⟨c₂, ?_, hshape.trans hdis.sameShape, hdis.sameShape.wellFormed h₁.wellFormed,
    hdis.reserved h₁.wellFormed hleaf₁ hmem h₁.reserved, fun gpu' => ?_⟩
  · rw [LPRadixCache.removeCompletedInputIds, Py.bind_ok hrun]
    exact hdec
  · refine (h₁.exactOn gpu').congr hdis.sameShape (congrFun hdis.allocated gpu') (fun m => ?_)
    rw [hdis.nodes]
    split <;> rfl

theorem Accounted.handleCacheEvictionForGpu (maxTokensForGpuList : Fin n → ℚ) (gpu : Fin n) :
    ∃ c', handleCacheEvictionForGpu maxTokensForGpuList gpu c = .ok () c' ∧ SameShape c c' ∧
      Accounted c' σ unfinished := by
  obtain ⟨c', hrun, hev, hexact', -⟩ :=
    handleCacheEvictionForGpu_spec maxTokensForGpuList h.wellFormed (h.exactOn gpu)
  refine ⟨c', hrun, hev.sameShape, hev.sameShape.wellFormed h.wellFormed,
    h.reserved.congr hev.sameShape hev.numUncompleted, fun gpu' => ?_⟩
  by_cases hne : gpu' = gpu
  · rw [hne]
    exact hexact'
  · exact hev.exactOn hne (h.exactOn gpu')

end Calls

/-! ## Main results -/

/-- What happens to a request, and an eviction on a replica. -/
inductive RequestStep (n : ℕ) where
  | start (key : List ℕ) (gpu : Fin n)
  | finish (key : List ℕ) (gpu : Fin n)
  | evict (gpu : Fin n)

namespace RequestStep

/-- The calls of a step. -/
def perform (rt : Runtime n) (maxTokensForGpuList : Fin n → ℚ) :
    RequestStep n → Py (LPRadixCache n) Unit
  | start key gpu => do
    let (leaf, _) ← insert rt key none .empty
    updateCacheMetadada leaf gpu
  | finish key gpu => removeCompletedInputIds rt key gpu
  | evict gpu => handleCacheEvictionForGpu maxTokensForGpuList gpu

def performAll (rt : Runtime n) (maxTokensForGpuList : Fin n → ℚ) :
    List (RequestStep n) → Py (LPRadixCache n) Unit
  | [] => pure ()
  | step :: steps => do
    step.perform rt maxTokensForGpuList
    performAll rt maxTokensForGpuList steps

/-- The unfinished requests after a step. -/
def track (unfinished : List (List ℕ × Fin n)) : RequestStep n → List (List ℕ × Fin n)
  | start key gpu => (key, gpu) :: unfinished
  | finish key gpu => unfinished.erase (key, gpu)
  | evict _ => unfinished

/-- Every request that finishes has started and has not finished yet. -/
def Matched (unfinished : List (List ℕ × Fin n)) : List (RequestStep n) → Prop
  | [] => True
  | step :: steps =>
    (∀ key gpu, step = finish key gpu → (key, gpu) ∈ unfinished) ∧
      Matched (step.track unfinished) steps

end RequestStep

theorem RequestStep.perform_accounted (rt : Runtime n) (maxTokensForGpuList : Fin n → ℚ)
    (h : Accounted c σ unfinished) (step : RequestStep n)
    (hmatched : ∀ key gpu, step = .finish key gpu → (key, gpu) ∈ unfinished) :
    ∃ c' σ', step.perform rt maxTokensForGpuList c = .ok () c' ∧
      Accounted c' σ' (step.track unfinished) := by
  cases step with
  | start key gpu =>
    obtain ⟨leaf, splits, c₁, σ₁, hrun, hins, h₁⟩ := h.insert rt key
    obtain ⟨c₂, hcount, -, h₂⟩ := h₁.updateCacheMetadada hins.leaf_mem gpu
    rw [hins.leaf_spell] at h₂
    exact ⟨c₂, σ₁, by rw [perform, Py.bind_ok hrun]; exact hcount, h₂⟩
  | finish key gpu =>
    obtain ⟨c', hrun, -, h'⟩ := h.removeCompletedInputIds rt (hmatched key gpu rfl)
    exact ⟨c', σ, hrun, h'⟩
  | evict gpu =>
    obtain ⟨c', hrun, -, h'⟩ := h.handleCacheEvictionForGpu maxTokensForGpuList gpu
    exact ⟨c', σ, hrun, h'⟩

theorem RequestStep.performAll_accounted (rt : Runtime n) (maxTokensForGpuList : Fin n → ℚ)
    (h : Accounted c σ unfinished) (steps : List (RequestStep n))
    (hmatched : RequestStep.Matched unfinished steps) :
    ∃ c' σ', RequestStep.performAll rt maxTokensForGpuList steps c = .ok () c' ∧
      Accounted c' σ' (steps.foldl RequestStep.track unfinished) := by
  induction steps generalizing c σ unfinished with
  | nil => exact ⟨c, σ, rfl, h⟩
  | cons step steps ih =>
    obtain ⟨c₁, σ₁, hrun, h₁⟩ := step.perform_accounted rt maxTokensForGpuList h hmatched.1
    obtain ⟨c₂, σ₂, hrun₂, h₂⟩ := ih h₁ hmatched.2
    exact ⟨c₂, σ₂, by rw [performAll, Py.bind_ok hrun]; exact hrun₂, h₂⟩

/-- In every interleaving of starts, matched finishes and evictions nothing fails, the
assertion on the counts included, and the count of a node is the number of unfinished
requests whose sequence has the path of the node as a prefix. -/
theorem referenceCounts_exact (rt : Runtime n) (maxTokensForGpuList : Fin n → ℚ)
    (steps : List (RequestStep n)) (hmatched : RequestStep.Matched [] steps) :
    ∃ c, RequestStep.performAll rt maxTokensForGpuList steps (init rt) = .ok () c ∧
      ∀ m s, c.tree.RootPath m s → m ≠ rootNode → ∀ gpu,
        (c.nodes m).numUncompletedRequestForGpuMap gpu =
          ((steps.foldl RequestStep.track []).filter
            (fun r => r.2 = gpu ∧ s <+: r.1)).length := by
  obtain ⟨c, σ, hrun, h⟩ :=
    RequestStep.performAll_accounted rt maxTokensForGpuList (init_accounted rt) steps hmatched
  refine ⟨c, hrun, fun m s hpath hroot gpu => ?_⟩
  obtain ⟨hm, rfl⟩ := h.wellFormed.spelled.rootPath_iff.mp hpath
  rw [h.reserved.counts m hm hroot gpu, passing, List.countP_eq_length_filter]

/-- Two requests share tokens, so the second splits the node of the first. -/
theorem referenceCounts_exact_two :
    ∃ c, RequestStep.performAll (.ascending 1 fun _ => 0) (fun _ => 1)
        [.start [1, 2] 0, .start [1, 3] 0, .finish [1, 2] 0, .evict 0]
        (init (.ascending 1 fun _ => 0)) = .ok () c ∧
      ∀ m s, c.tree.RootPath m s → m ≠ rootNode → ∀ gpu,
        (c.nodes m).numUncompletedRequestForGpuMap gpu =
          ([(([1, 3] : List ℕ), (0 : Fin 1))].filter
            (fun r => r.2 = gpu ∧ s <+: r.1)).length :=
  referenceCounts_exact (.ascending 1 fun _ => 0) (fun _ => 1)
    [.start [1, 2] 0, .start [1, 3] 0, .finish [1, 2] 0, .evict 0]
    (by simp [RequestStep.Matched, RequestStep.track])

end DualMap.Preble.LPRadixCache
