import DualMap.Preble.AccessTimes
import DualMap.Preble.EvictionOutcome
import DualMap.Preble.ReferenceCounts

/-!
# Cached Nodes and Their Parents

What is cached on a replica should be prefixes: with a node its parent is cached as well.
Insertions, look-ups and counting keep it so, and an eviction keeps it exactly when it reaches
no node before one of its cached children (`ChildrenFirst`).

It does not always do so. The heap of an eviction holds inner nodes as well as leaves, oldest
first, and a walk down from the root visits a parent before its child. So the older of the two
is the parent, and an eviction that stops in between drops a prefix and keeps its
continuation.
-/

namespace DualMap.Preble.LPRadixCache

variable {n : ℕ} {rt : Runtime n} {c : LPRadixCache n} {σ : ℕ → List ℕ} {gpu : Fin n}
  {unfinished : List (List ℕ × Fin n)}

/-- With every node other than the root its parent is cached. -/
def CachedPrefixes (c : LPRadixCache n) : Prop :=
  ∀ gpu, ∀ m ∈ c.allNodes, m ≠ rootNode → (c.nodes m).hasCachedGpu gpu →
    ∃ p, (c.nodes m).parent = some p ∧ (c.nodes p).hasCachedGpu gpu

theorem init_cachedPrefixes (rt : Runtime n) : CachedPrefixes (init rt) :=
  fun _ _ hm hroot => absurd (Finset.mem_singleton.mp hm) hroot

/-- Changes outside the tree and outside what is cached. -/
theorem CachedPrefixes.congr {c' : LPRadixCache n} (h : CachedPrefixes c)
    (hshape : SameShape c c')
    (hcached : ∀ m gpu, (c'.nodes m).hasCachedGpu gpu ↔ (c.nodes m).hasCachedGpu gpu) :
    CachedPrefixes c' := by
  intro gpu m hm hroot hin
  obtain ⟨p, hparent, hp⟩ := h gpu m (hshape.allNodes ▸ hm) hroot ((hcached m gpu).mp hin)
  exact ⟨p, (hshape.nodes m).1.trans hparent, (hcached p gpu).mpr hp⟩

/-! ## Growth -/

/-- The upper half of a split node is cached where the node is. -/
theorem afterSplit_hasCachedGpu (rt : Runtime n) (hc : WellFormed c σ) {p child a : ℕ}
    (hp : p ∈ c.allNodes) (hedge : c.tree.Edge p a child) (splitLen above below m : ℕ)
    (gpu : Fin n) :
    ((afterSplit rt c p child splitLen above below).nodes m).hasCachedGpu gpu ↔
      (c.nodes (if m = c.nextId then child else m)).hasCachedGpu gpu := by
  obtain ⟨-, -, hpc, hpn, hcn⟩ := hc.split_nodes hp hedge
  rcases afterSplit_cases rt c p child splitLen above below m with
    rfl | rfl | rfl | ⟨-, -, hnew, hsame⟩
  · rw [afterSplit_parent, if_neg hpn]
    rfl
  · rw [afterSplit_child rt hpc.symm, if_neg hcn]
    rfl
  · rw [afterSplit_new rt hcn.symm hpn.symm, if_pos rfl]
    rfl
  · rw [hsame, if_neg hnew]

theorem afterSplit_cachedPrefixes (rt : Runtime n) (hc : WellFormed c σ) {p child a b : ℕ}
    {x : List ℕ} (hp : p ∈ c.allNodes) (hedge : c.tree.Edge p a child)
    (h : CachedPrefixes c) :
    CachedPrefixes (afterSplit rt c p child (x.length + 1) a b) := by
  obtain ⟨hchild, hroot, hpc, hpn, hcn⟩ := hc.split_nodes hp hedge
  have hparent : (c.nodes child).parent = some p := (hc.spelled.down p hp a child hedge).2.1
  have hcached := afterSplit_hasCachedGpu rt hc hp hedge (x.length + 1) a b
  -- what was above a node of the tree still is, and is cached where it was
  have hold (gpu : Fin n) (m : ℕ) (hm : m ∈ c.allNodes) (hne : m ≠ rootNode)
      (hin : (c.nodes m).hasCachedGpu gpu) : ∃ q, (c.nodes m).parent = some q ∧
      ((afterSplit rt c p child (x.length + 1) a b).nodes q).hasCachedGpu gpu := by
    obtain ⟨q, hq, hqin⟩ := h gpu m hm hne hin
    obtain ⟨q', hq', -, -, hparent', -⟩ := hc.spelled.up m hm hne
    obtain rfl : q = q' := Option.some.inj (hq.symm.trans hparent')
    refine ⟨q, hq, ?_⟩
    rw [hcached, if_neg (hc.fresh q hq').ne]
    exact hqin
  intro gpu m hm hne hin
  rw [hcached] at hin
  rcases afterSplit_cases rt c p child (x.length + 1) a b m with
    rfl | rfl | rfl | ⟨-, -, hnew, hsame⟩
  · rw [if_neg hpn] at hin
    rw [afterSplit_parent]
    exact hold gpu m hp hne hin
  · rw [if_neg hcn] at hin
    refine ⟨c.nextId, by rw [afterSplit_child rt hpc.symm], ?_⟩
    rw [hcached, if_pos rfl]
    exact hin
  · rw [if_pos rfl] at hin
    obtain ⟨q, hq, hqin⟩ := hold gpu child hchild hroot hin
    obtain rfl : q = p := Option.some.inj (hq.symm.trans hparent)
    exact ⟨q, by rw [afterSplit_new rt hcn.symm hpn.symm], hqin⟩
  · rw [if_neg hnew] at hin
    rw [hsame]
    exact hold gpu m ((Finset.mem_insert.mp hm).resolve_left hnew) hne hin

theorem afterGraft_cachedPrefixes (rt : Runtime n) (hc : WellFormed c σ)
    {p token contextLength depth : ℕ} {key value : List ℕ} (hp : p ∈ c.allNodes)
    (h : CachedPrefixes c) :
    CachedPrefixes (afterGraft rt c p token key value contextLength depth) := by
  have hpn : p ≠ c.nextId := (hc.fresh p hp).ne
  generalize hc' : afterGraft rt c p token key value contextLength depth = c'
  -- the old nodes keep parent and caching; only `p` gets a child
  have hold (m : ℕ) (hm : m ∈ c.allNodes) : (c'.nodes m).parent = (c.nodes m).parent ∧
      ∀ gpu, (c'.nodes m).hasCachedGpu gpu ↔ (c.nodes m).hasCachedGpu gpu := by
    subst hc'
    rcases afterGraft_cases rt c p token key value contextLength depth m with
      rfl | rfl | ⟨-, -, hsame⟩
    · rw [afterGraft_parent]
      exact ⟨rfl, fun _ => Iff.rfl⟩
    · exact absurd hm hc.nextId_notMem
    · rw [hsame]
      exact ⟨rfl, fun _ => Iff.rfl⟩
  intro gpu m hm hne hin
  by_cases hnew : m = c.nextId
  · -- the new leaf is cached nowhere
    subst hc'
    rw [hnew, afterGraft_new rt hpn.symm] at hin
    exact absurd hin.1 (Finset.notMem_empty _)
  · have hm : m ∈ c.allNodes := by
      subst hc'
      exact (Finset.mem_insert.mp hm).resolve_left hnew
    obtain ⟨q, hq, hqin⟩ := h gpu m hm hne (((hold m hm).2 gpu).mp hin)
    obtain ⟨q', hq', -, -, hparent', -⟩ := hc.spelled.up m hm hne
    obtain rfl : q = q' := Option.some.inj (hq.symm.trans hparent')
    exact ⟨q, (hold m hm).1.trans hq, ((hold q hq').2 gpu).mpr hqin⟩

theorem GrowsTo.cachedPrefixes {s s' : LPRadixCache n × (ℕ → List ℕ)}
    (hgrows : GrowsTo rt s s') (hs : WellFormed s.1 s.2) (h : CachedPrefixes s.1) :
    CachedPrefixes s'.1 := by
  refine (hgrows.invariant (I := fun c _ => CachedPrefixes c) hs h ?_).2
  intro u u' hu h hgrows
  cases hgrows with
  | visit hvisit => exact h.congr hvisit.sameShape hvisit.hasCachedGpu
  | split hp hedge hkey => exact afterSplit_cachedPrefixes rt hu hp hedge h
  | graft hp hnone => exact afterGraft_cachedPrefixes rt hu hp h

/-! ## Counting -/

/-- A request is cached on its whole way. -/
theorem Counted.cachedPrefixes {c' : LPRadixCache n} {node : ℕ} (hc : WellFormed c σ)
    (hnode : node ∈ c.allNodes) (hcounted : Counted gpu (c.ancestors node) c c')
    (h : CachedPrefixes c) : CachedPrefixes c' := by
  have hmore (m : ℕ) (gpu' : Fin n) (hin : (c.nodes m).hasCachedGpu gpu') :
      (c'.nodes m).hasCachedGpu gpu' := by
    rw [hcounted.nodes]
    split
    · by_cases hgpu : gpu' = gpu
      · exact hgpu ▸ TreeNode.hasCachedGpu_counted _ _
      · exact (TreeNode.hasCachedGpu_counted_of_ne _ hgpu).mpr hin
    · exact hin
  intro gpu' m hm hne hin
  rw [hcounted.sameShape.allNodes] at hm
  rw [(hcounted.sameShape.nodes m).1]
  by_cases hbefore : (c.nodes m).hasCachedGpu gpu'
  · obtain ⟨p, hparent, hp⟩ := h gpu' m hm hne hbefore
    exact ⟨p, hparent, hmore p gpu' hp⟩
  -- the node has just been counted, so its parent has, too
  · have hway : m ∈ c.ancestors node ∧ gpu' = gpu := by
      rw [hcounted.nodes] at hin
      split at hin
      · refine ⟨‹_›, ?_⟩
        by_contra hgpu
        exact hbefore ((TreeNode.hasCachedGpu_counted_of_ne _ hgpu).mp hin)
      · exact absurd hin hbefore
    obtain ⟨hway, rfl⟩ := hway
    obtain ⟨p, hp, a, -, hparent, -, hedge, hspell⟩ := hc.spelled.up m hm hne
    refine ⟨p, hparent, ?_⟩
    have hpre := ((hc.mem_ancestors hnode).mp hway).2
    rw [hspell] at hpre
    rw [hcounted.nodes, if_pos ((hc.mem_ancestors hnode).mpr
      ⟨hp, (List.prefix_append _ _).trans hpre⟩)]
    exact TreeNode.hasCachedGpu_counted _ _

/-- Taking a request off changes nothing that is cached. -/
theorem removeCompletedInputIds_keepsPrefixes (rt : Runtime n) (inputIds : List ℕ)
    (gpu : Fin n) (hc : WellFormed c σ) (h : CachedPrefixes c) :
    CachedPrefixes (Py.finalState (removeCompletedInputIds rt inputIds gpu c)) := by
  obtain ⟨found, c₁, hfind, hvisit, -⟩ := findNode_spec rt hc inputIds
  have h₁ : CachedPrefixes c₁ := h.congr hvisit.sameShape hvisit.hasCachedGpu
  rw [removeCompletedInputIds, Py.bind_ok hfind]
  refine (Py.Keeps.ofOption _ _).bind (fun node => Py.Keeps.get_bind (fun c h => ?_)) c₁ h₁
  refine Py.Keeps.forM (fun m => Py.Keeps.bind (Py.Keeps.modify (fun c h => ?_))
    (fun _ => Py.Keeps.get_bind (fun c h => Py.Keeps.assert _ c h))) _ c h
  have hturn : Discounted gpu [m] c (discountOne gpu c m) :=
    discounted_foldl (List.nodup_singleton m) gpu c
  refine h.congr hturn.sameShape (fun x gpu' => ?_)
  show ((discountOne gpu c m).nodes x).hasCachedGpu gpu' ↔ _
  rw [hturn.nodes]
  split <;> rfl

/-! ## Eviction -/

/-- The tokens of the candidates that come before the node in the heap. -/
def tokensBefore (c : LPRadixCache n) (gpu : Fin n) (m : ℕ) : ℚ :=
  ∑ x ∈ (c.candidates gpu).filter (fun x => (c.nodes x).heapKey < (c.nodes m).heapKey),
    c.evictedTokens x

/-- An eviction gets to the node: it is a candidate, and the candidates before it do not make
up the excess. -/
def GetsTo (c : LPRadixCache n) (maxTokensForGpuList : Fin n → ℚ) (gpu : Fin n) (m : ℕ) :
    Prop :=
  m ∈ c.candidates gpu ∧
    c.tokensBefore gpu m < c.allocatedSizeForGpu gpu - maxTokensForGpuList gpu

instance (c : LPRadixCache n) (maxTokensForGpuList : Fin n → ℚ) (gpu : Fin n) (m : ℕ) :
    Decidable (c.GetsTo maxTokensForGpuList gpu m) :=
  inferInstanceAs (Decidable (_ ∧ _))

/-- An eviction that gets to a node also gets to each of its cached children. -/
def ChildrenFirst (c : LPRadixCache n) (maxTokensForGpuList : Fin n → ℚ) (gpu : Fin n) :
    Prop :=
  ∀ child ∈ c.allNodes, (c.nodes child).hasCachedGpu gpu →
    ∀ p, (c.nodes child).parent = some p → c.GetsTo maxTokensForGpuList gpu p →
      c.GetsTo maxTokensForGpuList gpu child

/-- An eviction that gets to every node but the root gets to all children. -/
theorem childrenFirst_of_getsTo {maxTokensForGpuList : Fin n → ℚ}
    (h : ∀ m ∈ c.allNodes, (c.nodes m).parent = none ∨ c.GetsTo maxTokensForGpuList gpu m) :
    c.ChildrenFirst maxTokensForGpuList gpu := by
  intro child hchild _ p hparent _
  rcases h child hchild with hroot | hgets
  · rw [hroot] at hparent
    cases hparent
  · exact hgets

/-- With distinct access times the victims are the nodes that the eviction gets to. -/
theorem mem_handlerVictims_iff (maxTokensForGpuList : Fin n → ℚ) (hc : WellFormed c σ)
    (hr : Ranked c) (hexact : c.ExactOn gpu) (htimes : DistinctTimes rt c) {m : ℕ} :
    m ∈ c.handlerVictims maxTokensForGpuList gpu ↔ c.GetsTo maxTokensForGpuList gpu m := by
  have hdrains := handlerVictims_drains maxTokensForGpuList hc hr hexact
  rw [hdrains.mem_iff (fun x => Nat.cast_nonneg _), zero_add]
  · rfl
  · intro x hx y hy hkey
    have hx := hc.fresh x (mem_candidates.mp hx).1
    have hy := hc.fresh y (mem_candidates.mp hy).1
    exact htimes.distinct x hx y hy (Prod.ext_iff.mp hkey).2

/-- An eviction keeps the prefixes exactly when it gets to the children first. -/
theorem cachedPrefixes_evict_iff (maxTokensForGpuList : Fin n → ℚ) {c' : LPRadixCache n}
    (hc : WellFormed c σ) (hr : Ranked c) (hexact : c.ExactOn gpu) (htimes : DistinctTimes rt c)
    (hrun : handleCacheEvictionForGpu maxTokensForGpuList gpu c = .ok () c')
    (h : CachedPrefixes c) :
    CachedPrefixes c' ↔ c.ChildrenFirst maxTokensForGpuList gpu := by
  obtain ⟨c₁, hrun₁, hev, -, heq⟩ := handleCacheEvictionForGpu_spec maxTokensForGpuList hc hexact
  obtain ⟨-, rfl⟩ := EStateM.Result.ok.inj (hrun₁.symm.trans hrun)
  have hvictim (m : ℕ) := mem_handlerVictims_iff maxTokensForGpuList hc hr hexact htimes (m := m)
  have hdrains := handlerVictims_drains maxTokensForGpuList hc hr hexact
  -- what is cached afterwards was cached before, and the eviction has not got to it
  have hcached (m : ℕ) : (c₁.nodes m).hasCachedGpu gpu ↔
      (c.nodes m).hasCachedGpu gpu ∧ ¬ c.GetsTo maxTokensForGpuList gpu m := by
    rw [heq, evictAll_nodes c gpu hdrains.nodup, ← hvictim]
    split
    · exact iff_of_false (TreeNode.not_hasCachedGpu_evictedFrom _ _) (fun hin => hin.2 ‹_›)
    · exact (and_iff_left ‹_›).symm
  constructor
  · intro h' child hchild hin p hparent hgets
    by_contra hnot
    have hroot : child ≠ rootNode := by
      rintro rfl
      have hnone : (c.nodes rootNode).parent = none := hc.spelled.root_parent
      rw [hnone] at hparent
      cases hparent
    obtain ⟨q, hq, hqin⟩ := h' gpu child (hev.allNodes ▸ hchild) hroot
      ((hcached child).mpr ⟨hin, hnot⟩)
    rw [(hev.sameShape.nodes child).1, hparent] at hq
    obtain rfl := Option.some.inj hq
    exact ((hcached p).mp hqin).2 hgets
  · intro hfirst gpu' m hm hroot hin
    rw [hev.allNodes] at hm
    rw [(hev.sameShape.nodes m).1]
    by_cases hgpu : gpu' = gpu
    · subst hgpu
      obtain ⟨hbefore, hnot⟩ := (hcached m).mp hin
      obtain ⟨p, hparent, hp⟩ := h gpu' m hm hroot hbefore
      exact ⟨p, hparent, (hcached p).mpr ⟨hp, fun hgets =>
        hnot (hfirst m hm hbefore p hparent hgets)⟩⟩
    · obtain ⟨p, hparent, hp⟩ := h gpu' m hm hroot ((hev.hasCachedGpu m hgpu).mp hin)
      exact ⟨p, hparent, (hev.hasCachedGpu p hgpu).mpr hp⟩

/-! ## Runs -/

/-- The caches that matched calls lead to, and the requests that are counted and not yet taken
off: a node of the tree is counted as a request for the string that leads to it, and a
request is taken off only when it was counted. `Allowed` says which evictions take place. -/
inductive MatchedRun (rt : Runtime n)
    (Allowed : LPRadixCache n → (Fin n → ℚ) → Fin n → Prop) :
    LPRadixCache n → List (List ℕ × Fin n) → Prop
  | init : MatchedRun rt Allowed (init rt) []
  | insert {c c' : LPRadixCache n} {unfinished : List (List ℕ × Fin n)}
      (h : MatchedRun rt Allowed c unfinished) (key : List ℕ) {leaf : ℕ}
      {splits : OrderedDict ℕ ℕ} (hrun : insert rt key none .empty c = .ok (leaf, splits) c') :
      MatchedRun rt Allowed c' unfinished
  | updateCacheMetadada {c c' : LPRadixCache n} {unfinished : List (List ℕ × Fin n)}
      (h : MatchedRun rt Allowed c unfinished) {node : ℕ} {path : List ℕ}
      (hpath : c.tree.RootPath node path) (gpu : Fin n)
      (hrun : updateCacheMetadada node gpu c = .ok () c') :
      MatchedRun rt Allowed c' ((path, gpu) :: unfinished)
  | removeCompletedInputIds {c c' : LPRadixCache n} {unfinished : List (List ℕ × Fin n)}
      (h : MatchedRun rt Allowed c unfinished) {key : List ℕ} {gpu : Fin n}
      (hmatched : (key, gpu) ∈ unfinished)
      (hrun : removeCompletedInputIds rt key gpu c = .ok () c') :
      MatchedRun rt Allowed c' (unfinished.erase (key, gpu))
  | handleCacheEvictionForGpu {c c' : LPRadixCache n} {unfinished : List (List ℕ × Fin n)}
      (h : MatchedRun rt Allowed c unfinished) (maxTokensForGpuList : Fin n → ℚ) (gpu : Fin n)
      (hallowed : Allowed c maxTokensForGpuList gpu)
      (hrun : handleCacheEvictionForGpu maxTokensForGpuList gpu c = .ok () c') :
      MatchedRun rt Allowed c' unfinished

/-- What every matched call keeps under a clock that shows no time twice. -/
structure Timed (rt : Runtime n) (c : LPRadixCache n) (σ : ℕ → List ℕ)
    (unfinished : List (List ℕ × Fin n)) : Prop where
  accounted : Accounted c σ unfinished
  ranked : Ranked c
  times : DistinctTimes rt c

theorem Timed.consistent (h : Timed rt c σ unfinished) : Consistent c where
  exact := ⟨⟨σ, h.accounted.wellFormed⟩, h.accounted.exactOn⟩
  ranked := h.ranked

section Calls

variable {c' : LPRadixCache n} (h : Timed rt c σ unfinished)

include h

theorem Timed.insert (hclock : Function.Injective rt.time) {key : List ℕ} {leaf : ℕ}
    {splits : OrderedDict ℕ ℕ} (hrun : insert rt key none .empty c = .ok (leaf, splits) c') :
    ∃ σ', Timed rt c' σ' unfinished ∧ (CachedPrefixes c → CachedPrefixes c') := by
  obtain ⟨_, _, _, σ', hrun', hins, h'⟩ := h.accounted.insert rt key
  obtain ⟨-, rfl⟩ := EStateM.Result.ok.inj (hrun.symm.trans hrun')
  have htimes := insert_keepsTimes hclock key none .empty c h.times
  rw [hrun] at htimes
  have hc := h.accounted.wellFormed
  exact ⟨σ', ⟨h', hins.grows.ranked hc h.ranked, htimes⟩, hins.grows.cachedPrefixes hc⟩

theorem Timed.updateCacheMetadada {node : ℕ} {path : List ℕ}
    (hpath : c.tree.RootPath node path) {gpu : Fin n}
    (hrun : updateCacheMetadada node gpu c = .ok () c') :
    Timed rt c' σ ((path, gpu) :: unfinished) ∧ (CachedPrefixes c → CachedPrefixes c') := by
  have hc := h.accounted.wellFormed
  obtain ⟨hnode, rfl⟩ := hc.spelled.rootPath_iff.mp hpath
  obtain ⟨c₁, hrun', -, h'⟩ := h.accounted.updateCacheMetadada hnode gpu
  obtain ⟨-, rfl⟩ := EStateM.Result.ok.inj (hrun'.symm.trans hrun)
  have hcounted := counted_foldl (hc.ancestors_nodup hnode) gpu c
  rw [updateCacheMetadada_eq] at hrun
  obtain ⟨-, rfl⟩ := EStateM.Result.ok.inj hrun
  exact ⟨⟨h', hcounted.ranked hc hnode h.ranked, hcounted.distinctTimes h.times⟩,
    hcounted.cachedPrefixes hc hnode⟩

theorem Timed.removeCompletedInputIds (hclock : Function.Injective rt.time) {key : List ℕ}
    {gpu : Fin n} (hmatched : (key, gpu) ∈ unfinished)
    (hrun : removeCompletedInputIds rt key gpu c = .ok () c') :
    Timed rt c' σ (unfinished.erase (key, gpu)) ∧ (CachedPrefixes c → CachedPrefixes c') := by
  obtain ⟨c₁, hrun', -, h'⟩ := h.accounted.removeCompletedInputIds rt hmatched
  obtain ⟨-, rfl⟩ := EStateM.Result.ok.inj (hrun'.symm.trans hrun)
  have hranked := removeCompletedInputIds_ranked rt key gpu h.consistent
  have htimes := removeCompletedInputIds_keepsTimes hclock key gpu c h.times
  have hprefixes := removeCompletedInputIds_keepsPrefixes rt key gpu h.accounted.wellFormed
  rw [hrun] at hranked htimes hprefixes
  exact ⟨⟨h', hranked.resolve_left (fun ⟨_, hfail⟩ => by cases hfail), htimes⟩, hprefixes⟩

theorem Timed.handleCacheEvictionForGpu {maxTokensForGpuList : Fin n → ℚ} {gpu : Fin n}
    (hrun : handleCacheEvictionForGpu maxTokensForGpuList gpu c = .ok () c') :
    Timed rt c' σ unfinished ∧ (CachedPrefixes c →
      (CachedPrefixes c' ↔ c.ChildrenFirst maxTokensForGpuList gpu)) := by
  have hc := h.accounted.wellFormed
  have hexact := h.accounted.exactOn gpu
  obtain ⟨c₁, hrun', -, h'⟩ := h.accounted.handleCacheEvictionForGpu maxTokensForGpuList gpu
  obtain ⟨-, rfl⟩ := EStateM.Result.ok.inj (hrun'.symm.trans hrun)
  obtain ⟨c₂, hrun'', hev, -⟩ := handleCacheEvictionForGpu_spec maxTokensForGpuList hc hexact
  obtain ⟨-, rfl⟩ := EStateM.Result.ok.inj (hrun''.symm.trans hrun)
  refine ⟨⟨h', h.ranked.congr hev.allNodes hev.numUncompleted, ?_⟩,
    cachedPrefixes_evict_iff maxTokensForGpuList hc h.ranked hexact h.times hrun⟩
  refine h.times.congr hev.nextId hev.ticks (fun m => ?_)
  rcases hev.nodes m with hm | hm <;> rw [hm]
  rfl

end Calls

theorem MatchedRun.timed {Allowed : LPRadixCache n → (Fin n → ℚ) → Fin n → Prop}
    (hclock : Function.Injective rt.time) (h : MatchedRun rt Allowed c unfinished) :
    ∃ σ, Timed rt c σ unfinished := by
  induction h with
  | init => exact ⟨_, init_accounted rt, init_ranked rt, init_distinctTimes rt⟩
  | insert _ key hrun ih =>
    obtain ⟨σ, h⟩ := ih
    obtain ⟨σ', h', -⟩ := h.insert hclock hrun
    exact ⟨σ', h'⟩
  | updateCacheMetadada _ hpath gpu hrun ih =>
    obtain ⟨σ, h⟩ := ih
    exact ⟨σ, (h.updateCacheMetadada hpath hrun).1⟩
  | removeCompletedInputIds _ hmatched hrun ih =>
    obtain ⟨σ, h⟩ := ih
    exact ⟨σ, (h.removeCompletedInputIds hclock hmatched hrun).1⟩
  | handleCacheEvictionForGpu _ limits gpu _ hrun ih =>
    obtain ⟨σ, h⟩ := ih
    exact ⟨σ, (h.handleCacheEvictionForGpu hrun).1⟩

/-- As long as every eviction gets to the children first, the cached nodes are prefixes after
every call, and the next eviction keeps them so exactly when it does, too. -/
theorem cachedPrefixes_of_childrenFirst (hclock : StrictMono rt.time)
    (h : MatchedRun rt ChildrenFirst c unfinished) :
    CachedPrefixes c ∧ ∀ maxTokensForGpuList gpu c',
      handleCacheEvictionForGpu maxTokensForGpuList gpu c = .ok () c' →
      (CachedPrefixes c' ↔ c.ChildrenFirst maxTokensForGpuList gpu) := by
  have hinj := hclock.injective
  have hprefixes : CachedPrefixes c := by
    -- every call keeps the prefixes; an eviction does so exactly under its condition
    induction h with
    | init => exact init_cachedPrefixes rt
    | insert hbefore key hrun ih =>
      obtain ⟨σ, htimed⟩ := hbefore.timed hinj
      obtain ⟨σ', -, hkeeps⟩ := htimed.insert hinj hrun
      exact hkeeps ih
    | updateCacheMetadada hbefore hpath gpu hrun ih =>
      obtain ⟨σ, htimed⟩ := hbefore.timed hinj
      exact (htimed.updateCacheMetadada hpath hrun).2 ih
    | removeCompletedInputIds hbefore hmatched hrun ih =>
      obtain ⟨σ, htimed⟩ := hbefore.timed hinj
      exact (htimed.removeCompletedInputIds hinj hmatched hrun).2 ih
    | handleCacheEvictionForGpu hbefore limits gpu hfirst hrun ih =>
      obtain ⟨σ, htimed⟩ := hbefore.timed hinj
      exact ((htimed.handleCacheEvictionForGpu hrun).2 ih).mpr hfirst
  obtain ⟨σ, htimed⟩ := h.timed hinj
  exact ⟨hprefixes, fun _ _ _ hrun => (htimed.handleCacheEvictionForGpu hrun).2 hprefixes⟩

/-! ### A shared prefix -/

/-- Requests that start and finish make a matched run. -/
theorem MatchedRun.performAll {Allowed : LPRadixCache n → (Fin n → ℚ) → Fin n → Prop}
    (hclock : Function.Injective rt.time) (maxTokensForGpuList : Fin n → ℚ)
    (steps : List (RequestStep n)) (hmatched : RequestStep.Matched unfinished steps)
    (hnone : ∀ gpu, .evict gpu ∉ steps) (h : MatchedRun rt Allowed c unfinished) :
    MatchedRun rt Allowed
      (Py.finalState (RequestStep.performAll rt maxTokensForGpuList steps c))
      (steps.foldl RequestStep.track unfinished) := by
  induction steps generalizing c unfinished with
  | nil => exact h
  | cons step steps ih =>
    have hnone' : ∀ gpu, .evict gpu ∉ steps := fun gpu hmem =>
      hnone gpu (List.mem_cons_of_mem _ hmem)
    obtain ⟨σ, htimed⟩ := h.timed hclock
    -- a start inserts and then counts, a finish only discounts
    cases step with
    | start key gpu =>
      obtain ⟨leaf, splits, c₁, σ₁, hinsert, hins, h₁⟩ := htimed.accounted.insert rt key
      obtain ⟨c₂, hcount, -⟩ := h₁.updateCacheMetadada hins.leaf_mem gpu
      have hpath : c₁.tree.RootPath leaf key :=
        h₁.wellFormed.spelled.rootPath_iff.mpr ⟨hins.leaf_mem, hins.leaf_spell.symm⟩
      have hstep : (RequestStep.start key gpu).perform rt maxTokensForGpuList c = .ok () c₂ := by
        rw [RequestStep.perform, Py.bind_ok hinsert]
        exact hcount
      rw [RequestStep.performAll, Py.bind_ok hstep]
      exact ih hmatched.2 hnone' ((h.insert key hinsert).updateCacheMetadada hpath gpu hcount)
    | finish key gpu =>
      have hmem := hmatched.1 key gpu rfl
      obtain ⟨c₁, hrun, -⟩ := htimed.accounted.removeCompletedInputIds rt hmem
      have hstep : (RequestStep.finish key gpu).perform rt maxTokensForGpuList c = .ok () c₁ :=
        hrun
      rw [RequestStep.performAll, Py.bind_ok hstep]
      exact ih hmatched.2 hnone' (h.removeCompletedInputIds hmem hrun)
    | evict gpu => exact absurd List.mem_cons_self (hnone gpu)

/-- A clock that shows the number of its reading. -/
def countingClock : Runtime 1 := .ascending 1 fun i => i

theorem countingClock_strictMono : StrictMono countingClock.time := Nat.strictMono_cast

/-- A request and one that continues it, both finished. -/
def twoFinished : List (RequestStep 1) :=
  [.start [1, 2] (Fin.last 0), .start [1, 2, 3] (Fin.last 0), .finish [1, 2] (Fin.last 0),
    .finish [1, 2, 3] (Fin.last 0)]

/-- Three tokens are cached, the two of the prefix in the older node. -/
def afterTwoFinished : LPRadixCache 1 :=
  Py.finalState (RequestStep.performAll countingClock (fun _ => 3) twoFinished
    (init countingClock))

theorem matchedRun_afterTwoFinished
    (Allowed : LPRadixCache 1 → (Fin 1 → ℚ) → Fin 1 → Prop) :
    MatchedRun countingClock Allowed afterTwoFinished [] :=
  MatchedRun.performAll countingClock_strictMono.injective (fun _ => 3) twoFinished
    (by simp [twoFinished, RequestStep.Matched, RequestStep.track]) (by simp [twoFinished]) .init

/-- With no token allowed to stay an eviction gets to both nodes. -/
theorem childrenFirst_afterTwoFinished : afterTwoFinished.ChildrenFirst (fun _ => 0) 0 :=
  childrenFirst_of_getsTo (by decide +kernel)

/-- The cache after that eviction. -/
def afterFullEviction : LPRadixCache 1 :=
  Py.finalState (handleCacheEvictionForGpu (fun _ => 0) (Fin.last 0) afterTwoFinished)

theorem cachedPrefixes_of_childrenFirst_two :
    CachedPrefixes afterFullEviction ∧ ∀ maxTokensForGpuList gpu c',
      handleCacheEvictionForGpu maxTokensForGpuList gpu afterFullEviction = .ok () c' →
      (CachedPrefixes c' ↔ afterFullEviction.ChildrenFirst maxTokensForGpuList gpu) :=
  cachedPrefixes_of_childrenFirst countingClock_strictMono
    ((matchedRun_afterTwoFinished _).handleCacheEvictionForGpu (fun _ => 0) (Fin.last 0)
      childrenFirst_afterTwoFinished (Py.eq_ok_of_returned (by decide +kernel)))

/-- With one token too many the eviction drops the prefix and keeps its continuation. -/
theorem not_cachedPrefixes : ¬ ∀ (c : LPRadixCache 1) (unfinished : List (List ℕ × Fin 1)),
    MatchedRun countingClock (fun _ _ _ => True) c unfinished → CachedPrefixes c := by
  intro h
  have hrun : handleCacheEvictionForGpu (fun _ => 2) 0 afterTwoFinished = .ok ()
      (Py.finalState (handleCacheEvictionForGpu (fun _ => 2) 0 afterTwoFinished)) :=
    Py.eq_ok_of_returned (by decide +kernel)
  have hprefixes := h _ _ ((matchedRun_afterTwoFinished _).handleCacheEvictionForGpu
    (fun _ => 2) 0 trivial hrun)
  obtain ⟨p, hparent, hp⟩ := hprefixes 0 2 (by decide +kernel) (by decide) (by decide +kernel)
  have hone : ((Py.finalState (handleCacheEvictionForGpu (fun _ => 2) 0
      afterTwoFinished)).nodes 2).parent = some 1 := by decide +kernel
  obtain rfl : 1 = p := Option.some.inj (hone.symm.trans hparent)
  revert hp
  decide +kernel

end DualMap.Preble.LPRadixCache
