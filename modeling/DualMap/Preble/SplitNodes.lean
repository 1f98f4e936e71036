import DualMap.Preble.SchedulerInvariant

/-!
# What Is Known of Split Nodes

After an insertion the new node above a split node gets its allocation and, where it is the
important one now, its part of the window. The new node is not in the window yet, so nothing
there is lost. `insertRequest_window`: then all nodes but the new leaf have allocations, and
the entries are those from before, at the upper half where it is the important one.
-/

namespace DualMap.Preble

variable {n : ℕ} {rt : Runtime n} {σ : ℕ → List ℕ} {reserved : List (List ℕ × Fin n)}
  {fresh : Finset ℕ}

namespace LPRadixCache

/-- The cache after the recorded lengths of answers of a node were replaced. -/
def withDecodeLengths (c : LPRadixCache n) (m : ℕ) (lengths : List ℚ) : LPRadixCache n :=
  { c with
    nodes := Function.update c.nodes m { c.nodes m with decodeLengthQueue := lengths } }

theorem withDecodeLengths_nodes (c : LPRadixCache n) (m : ℕ) (lengths : List ℚ) (x : ℕ) :
    (c.withDecodeLengths m lengths).nodes x = { c.nodes x with
      decodeLengthQueue := if x = m then lengths else (c.nodes x).decodeLengthQueue } := by
  by_cases hx : x = m
  · subst hx
    rw [if_pos rfl]
    exact Function.update_self ..
  · rw [if_neg hx]
    exact Function.update_of_ne hx ..

theorem withDecodeLengths_sameShape (c : LPRadixCache n) (m : ℕ) (lengths : List ℚ) :
    SameShape c (c.withDecodeLengths m lengths) := by
  refine ⟨rfl, rfl, fun x => ?_⟩
  rw [withDecodeLengths_nodes]
  exact ⟨rfl, rfl, rfl, rfl, rfl⟩

/-- The recorded lengths of answers play no role for the tree and the counts. -/
theorem Accounted.withDecodeLengths {c : LPRadixCache n} (h : Accounted c σ reserved) (m : ℕ)
    (lengths : List ℚ) : Accounted (c.withDecodeLengths m lengths) σ reserved := by
  refine h.congr (withDecodeLengths_sameShape c m lengths) rfl (fun x => ?_) (fun x gpu => ?_)
  · rw [withDecodeLengths_nodes]
  · rw [withDecodeLengths_nodes]
    exact Iff.rfl

end LPRadixCache

namespace PrebleGlobalSchedulerUtils

open LPRadixCache (SameShape rootNode)
open SlidingWindowHistogram (SameWindow Windowed)

variable {s s' : PrebleGlobalSchedulerUtils n}

theorem sameShape_isUnshare (hshape : SameShape s.cache s'.cache) (node : ℕ) :
    s'.IsUnsharePrefixOver50PercentForNode node ↔ s.IsUnsharePrefixOver50PercentForNode node := by
  rw [IsUnsharePrefixOver50PercentForNode, IsUnsharePrefixOver50PercentForNode,
    TreeNode.contextSoFar, TreeNode.contextSoFar, TreeNode.numTokens, TreeNode.numTokens,
    hshape.value, hshape.contextLength]

/-- An entry of a node that was split moves to the upper half where this one only is
important. -/
def moved (s : PrebleGlobalSchedulerUtils n) (splits : OrderedDict ℕ ℕ) (entry : WindowEntry) :
    WindowEntry :=
  match splits.get? entry.node with
  | some new =>
    if s.IsUnsharePrefixOver50PercentForNode new ∧
        ¬ s.IsUnsharePrefixOver50PercentForNode entry.node then
      { entry with node := new }
    else entry
  | none => entry

theorem moved_timestamp (s : PrebleGlobalSchedulerUtils n) (splits : OrderedDict ℕ ℕ)
    (entry : WindowEntry) : (moved s splits entry).timestamp = entry.timestamp := by
  rw [moved]
  split
  · split <;> rfl
  · rfl

theorem moved_single (s : PrebleGlobalSchedulerUtils n) (child new : ℕ) (entry : WindowEntry) :
    moved s (.single child new) entry =
      if s.IsUnsharePrefixOver50PercentForNode new ∧
          ¬ s.IsUnsharePrefixOver50PercentForNode child then
        SlidingWindowHistogram.WindowEntry.rename child new entry
      else entry := by
  rw [moved, SlidingWindowHistogram.WindowEntry.rename]
  by_cases hnode : entry.node = child
  · rw [hnode, OrderedDict.get?_single_self, if_pos rfl]
  · have hnone : (OrderedDict.single child new).get? entry.node = none := by
      refine Option.eq_none_iff_forall_ne_some.mpr (fun other hother => ?_)
      exact hnode (OrderedDict.get?_single_eq_some.mp hother).1
    rw [hnone, if_neg hnode, ite_self]

theorem moved_congr (hshape : SameShape s.cache s'.cache) (splits : OrderedDict ℕ ℕ) :
    s'.moved splits = s.moved splits := by
  funext entry
  rw [moved, moved]
  split
  · simp only [sameShape_isUnshare hshape]
  · rfl

/-- The entries of a split node become those of the new node. -/
theorem Sound.replaceOldNodeWithNew_spec (hs : Sound s σ reserved fresh) (child : ℕ) {new : ℕ}
    (hnew : new ∈ s.cache.allNodes) (halloc : new ∈ s.gpuAllocations.keys)
    (hwindow : new ∉ s.histogram.timestamps.map WindowEntry.node) :
    ∃ h', SlidingWindowHistogram.replaceOldNodeWithNew s.cache.nodes child new s.histogram =
      .ok () h' ∧ h'.gpuAllocations = s.gpuAllocations ∧
      h'.timestamps = s.histogram.timestamps.map
        (SlidingWindowHistogram.WindowEntry.rename child new) ∧
      h'.windowDuration = s.histogram.windowDuration ∧
      (h' = if child ∈ s.histogram.timestamps.map WindowEntry.node then
        SlidingWindowHistogram.replaceNode s.cache.nodes s.histogram child new
      else s.histogram) ∧
      Sound { s with histogram := h' } σ reserved fresh := by
  -- the rename only happens for a node with entries; any other has nothing to hand on
  by_cases hold : child ∈ s.histogram.timestamps.map WindowEntry.node
  · have hsame := SlidingWindowHistogram.sameWindow_replaceNode s.cache.nodes s.histogram child new
    have hw := (hs.windowed.renameNode hold hwindow halloc).of_sameWindow hsame
    have hrun := SlidingWindowHistogram.replaceOldNodeWithNew_eq hs.windowed hold halloc
    have htime : (SlidingWindowHistogram.replaceNode s.cache.nodes s.histogram child
        new).timestamps = s.histogram.timestamps.map
          (SlidingWindowHistogram.WindowEntry.rename child new) := hsame.timestamps
    have hqueues : (SlidingWindowHistogram.replaceNode s.cache.nodes s.histogram child
        new).toptQueuesForGpus = s.histogram.toptQueuesForGpus := by rw [hsame.eq]; rfl
    refine ⟨_, hrun, hsame.gpuAllocations, htime, hsame.windowDuration, (if_pos hold).symm,
      hs.withHistogram hw (fun entry hentry => ?_) (fun m hm => ?_) hqueues⟩
    · rw [htime] at hentry
      obtain ⟨e, he, rfl⟩ := List.mem_map.mp hentry
      obtain ⟨hnode, hleaf⟩ := hs.inTree e he
      rw [SlidingWindowHistogram.WindowEntry.rename_node,
        SlidingWindowHistogram.WindowEntry.rename_leafNode]
      refine ⟨?_, hleaf⟩
      split
      · exact hnew
      · exact hnode
    · rw [hsame.gpuAllocations]
      exact hm
  · have hkeep : ∀ entry ∈ s.histogram.timestamps,
        SlidingWindowHistogram.WindowEntry.rename child new entry = id entry :=
      fun entry hentry => if_neg (fun hnode : entry.node = child =>
        hold (List.mem_map.mpr ⟨entry, hentry, hnode⟩))
    exact ⟨s.histogram,
      SlidingWindowHistogram.replaceOldNodeWithNew_of_notMem hs.windowed new hold, rfl,
      ((List.map_congr_left hkeep).trans (List.map_id _)).symm, rfl, (if_neg hold).symm, hs⟩

/-- The costs of a node that has an allocation can be updated on any replicas. -/
theorem forM_updatePrefillCost_eq {node : ℕ} (halloc : node ∈ s.gpuAllocations.keys)
    (gpus : List (Fin n)) :
    (gpus.forM (fun gpu => onHistogram (fun nodes =>
        SlidingWindowHistogram.updatePrefillCostForGpuWithNode nodes node gpu))) s =
      .ok () { s with histogram :=
        SlidingWindowHistogram.updateCosts s.cache.nodes s.histogram node gpus } := by
  induction gpus generalizing s with
  | nil => rfl
  | cons gpu gpus ih =>
    have hrun := SlidingWindowHistogram.updatePrefillCost_eq s.cache.nodes gpu halloc
    have hsame := SlidingWindowHistogram.sameWindow_updateCost s.cache.nodes s.histogram node gpu
    rw [List.forM_eq_forM, List.forM_cons, Py.bind_ok (onHistogram_ok hrun)]
    refine ih ?_
    rw [gpuAllocations, hsame.gpuAllocations]
    exact halloc

/-- The window after the costs of a node were updated where it is important. -/
def updateIfImportant (s : PrebleGlobalSchedulerUtils n) (node : ℕ) (gpus : List (Fin n)) :
    SlidingWindowHistogram n :=
  if s.IsUnsharePrefixOver50PercentForNode node then
    SlidingWindowHistogram.updateCosts s.cache.nodes s.histogram node gpus
  else s.histogram

/-- Costs of the lower half follow, where it is important. -/
theorem Sound.updateCostsIfImportant_spec (hs : Sound s σ reserved fresh) {node : ℕ}
    (hnode : node ∈ s.gpuAllocations.keys) (gpus : List (Fin n)) :
    (do
      let s ← get
      if s.IsUnsharePrefixOver50PercentForNode node then
        gpus.forM (fun gpu => onHistogram (fun nodes =>
          SlidingWindowHistogram.updatePrefillCostForGpuWithNode nodes node gpu))
      else pure () : Py (PrebleGlobalSchedulerUtils n) Unit) s =
        .ok () { s with histogram := s.updateIfImportant node gpus } ∧
      SameWindow s.histogram (s.updateIfImportant node gpus) ∧
      Sound { s with histogram := s.updateIfImportant node gpus } σ reserved fresh := by
  rw [Py.bind_ok (Py.get_apply s), updateIfImportant]
  split
  · have hsame := SlidingWindowHistogram.sameWindow_updateCosts s.cache.nodes s.histogram node gpus
    exact ⟨forM_updatePrefillCost_eq hnode gpus, hsame, hs.sameWindow hsame⟩
  · exact ⟨rfl, .refl _, hs⟩

/-- The window after a node was split, with the costs. -/
def followSplit (s : PrebleGlobalSchedulerUtils n) (child new : ℕ) (gpus : List (Fin n)) :
    SlidingWindowHistogram n :=
  if s.IsUnsharePrefixOver50PercentForNode new ∧
      ¬ s.IsUnsharePrefixOver50PercentForNode child then
    if child ∈ s.histogram.timestamps.map WindowEntry.node then
      SlidingWindowHistogram.replaceNode s.cache.nodes s.histogram child new
    else s.histogram
  else s.updateIfImportant child gpus

/-- The detector learns of the new node. It takes no part in the invariant. -/
theorem replaceInDetector_eq (s : PrebleGlobalSchedulerUtils n) (child new : ℕ)
    (gpus : List (Fin n)) :
    ∃ d, (gpus.forM (fun gpu => modify (fun s : PrebleGlobalSchedulerUtils n => { s with
        overloadDetector := s.overloadDetector.replaceOldNodeWithNew child new gpu })) :
      Py (PrebleGlobalSchedulerUtils n) PUnit) s = .ok ⟨⟩ { s with overloadDetector := d } := by
  have hturn : ∀ gpu ∈ gpus, ∀ t, (∃ d, t = { s with overloadDetector := d }) →
      ∃ t', (modify (fun s : PrebleGlobalSchedulerUtils n => { s with
          overloadDetector := s.overloadDetector.replaceOldNodeWithNew child new gpu }) :
        Py (PrebleGlobalSchedulerUtils n) PUnit) t = .ok ⟨⟩ t' ∧
        ∃ d, t' = { s with overloadDetector := d } := by
    rintro gpu - t ⟨d, rfl⟩
    exact ⟨_, Py.modify_apply _ _, _, rfl⟩
  obtain ⟨_, hloop, d, rfl⟩ := Py.forM_returns hturn ⟨s.overloadDetector, rfl⟩
  exact ⟨d, hloop⟩

/-- The histogram follows a split, if the new node has an allocation and no entries yet. -/
theorem Sound.updateHistogramWithSplitNode_spec (rt : Runtime n)
    (hs : Sound s σ reserved fresh) {child new : ℕ} (hnew : new ∈ s.cache.allNodes)
    (hchild : child ∈ s.gpuAllocations.keys) (halloc : new ∈ s.gpuAllocations.keys)
    (hwindow : new ∉ s.histogram.timestamps.map WindowEntry.node) :
    ∃ s', updateHistogramWithSplitNode rt (.single child new) s = .ok () s' ∧
      Sound s' σ reserved fresh ∧ SameShape s.cache s'.cache ∧
      s'.histogram.timestamps = s.histogram.timestamps.map (moved s (.single child new)) ∧
      s'.histogram.windowDuration = s.histogram.windowDuration ∧
      s'.histogram = s.followSplit child new
        (rt.iterGpus ((s.gpuAllocations.get? child).getD ∅)) := by
  have hentries : (OrderedDict.single child new).entries = [(child, new)] := rfl
  rw [updateHistogramWithSplitNode, hentries, List.forM_eq_forM, List.forM_cons, List.forM_nil,
    bind_pure]
  simp only
  rw [Py.bind_ok (Py.get_apply s)]
  split
  · next hmoves =>
    obtain ⟨h', hrun, hkeys, htime, hduration, hreplaced, hs₁⟩ :=
      hs.replaceOldNodeWithNew_spec child hnew halloc hwindow
    rw [Py.bind_ok (onHistogram_ok hrun)]
    -- the recorded lengths move to the upper half
    let lengths := (s.cache.nodes child).decodeLengthQueue
    let c₁ := s.cache.withDecodeLengths new ((s.cache.nodes new).decodeLengthQueue ++ lengths)
    let c₂ := c₁.withDecodeLengths child []
    have hshape : SameShape s.cache c₂ :=
      (LPRadixCache.withDecodeLengths_sameShape ..).trans
        (LPRadixCache.withDecodeLengths_sameShape ..)
    have hs₂ : Sound { s with histogram := h', cache := c₂ } σ reserved fresh :=
      hs₁.withCache hshape ((hs.accounted.withDecodeLengths ..).withDecodeLengths ..)
    have hupper : onCache (LPRadixCache.modifyNode new (fun x => { x with
        decodeLengthQueue := x.decodeLengthQueue ++ lengths })) { s with histogram := h' } =
        .ok () { s with histogram := h', cache := c₁ } := rfl
    have hlower : onCache (LPRadixCache.modifyNode child (fun x => { x with
        decodeLengthQueue := [] })) { s with histogram := h', cache := c₁ } =
        .ok () { s with histogram := h', cache := c₂ } := rfl
    rw [Py.bind_ok hupper, Py.bind_ok hlower]
    obtain ⟨d, hloop⟩ := replaceInDetector_eq { s with histogram := h', cache := c₂ } child new
      (rt.iterGpus ((s.gpuAllocations.get? child).getD ∅))
    rw [Py.bind_ok hloop]
    have hs₃ : Sound { s with histogram := h', cache := c₂, overloadDetector := d } σ reserved
        fresh := hs₂.congr rfl rfl
    have hkey : child ∈ h'.gpuAllocations.keys := by
      rw [hkeys]
      exact hchild
    obtain ⟨hlast, hsame, hs₄⟩ := hs₃.updateCostsIfImportant_spec hkey (rt.iterGpus
      ((s.gpuAllocations.get? child).getD ∅))
    -- the lower half is not important
    have hlower : updateIfImportant { s with histogram := h', cache := c₂, overloadDetector := d }
        child (rt.iterGpus ((s.gpuAllocations.get? child).getD ∅)) = h' := by
      rw [updateIfImportant, if_neg]
      exact fun himportant => hmoves.2 ((sameShape_isUnshare hshape child).mp himportant)
    have hentry : ∀ entry, moved s (.single child new) entry =
        SlidingWindowHistogram.WindowEntry.rename child new entry :=
      fun entry => by rw [moved_single, if_pos hmoves]
    refine ⟨_, hlast, hs₄, hshape, ?_, ?_, ?_⟩
    · rw [hsame.timestamps, List.map_congr_left (fun entry _ => hentry entry)]
      exact htime
    · rw [hsame.windowDuration]
      exact hduration
    · rw [followSplit, if_pos hmoves, hlower]
      exact hreplaced
  · next hstay =>
    obtain ⟨hlast, hsame, hs'⟩ := hs.updateCostsIfImportant_spec hchild (rt.iterGpus
      ((s.gpuAllocations.get? child).getD ∅))
    refine ⟨_, hlast, hs', .refl _, ?_, hsame.windowDuration, (if_neg hstay).symm⟩
    rw [hsame.timestamps]
    refine (List.map_id'' (fun entry => ?_) _).symm
    rw [moved_single, if_neg hstay]

theorem updateGpuAllocationsWithSplitNodes_eq {child : ℕ} (new : ℕ) {gpus : Finset (Fin n)}
    (hgpus : s.gpuAllocations.get? child = some gpus) :
    updateGpuAllocationsWithSplitNodes (.single child new) s =
      .ok () (s.withAllocation new gpus) := by
  have hentries : (OrderedDict.single child new).entries = [(child, new)] := rfl
  rw [updateGpuAllocationsWithSplitNodes, hentries, List.forM_eq_forM, List.forM_cons,
    List.forM_nil, bind_pure]
  simp only
  rw [Py.bind_ok (Py.get_apply s), hgpus, Py.ofOption_some, pure_bind]
  rfl

/-- An insertion leaves the lengths of old nodes alone. -/
theorem Sound.inserted {key : List ℕ} {leaf : ℕ} {splits : OrderedDict ℕ ℕ}
    {c : LPRadixCache n} {σ' : ℕ → List ℕ} (hs : Sound s σ reserved ∅)
    (hins : LPRadixCache.Inserted rt s.cache σ key leaf splits c σ')
    (hc : LPRadixCache.Accounted c σ' reserved) :
    Sound { s with cache := c } σ' reserved (insert leaf splits.values.toFinset) where
  accounted := hc
  windowed := hs.windowed.congr (fun entry hentry =>
    hins.contextLength hs.wellFormed (hs.inTree entry hentry).2)
  inTree := by
    intro entry hentry
    obtain ⟨hnode, hleaf⟩ := hs.inTree entry hentry
    exact ⟨(hins.spell hs.wellFormed hnode).1, (hins.spell hs.wellFormed hleaf).1⟩
  allocated := by
    intro m hm hroot hfresh
    rw [Finset.mem_insert, List.mem_toFinset, not_or] at hfresh
    rcases hins.nodes m hm with hold | rfl | hnew
    · exact hs.allocated m hold hroot (Finset.notMem_empty m)
    · exact absurd rfl hfresh.1
    · exact absurd hnew hfresh.2
  topts := hs.topts

end PrebleGlobalSchedulerUtils

namespace PrebleGlobalScheduler

open PrebleGlobalSchedulerUtils
open LPRadixCache (SameShape rootNode)

variable {s : PrebleGlobalSchedulerUtils n}

/-- What becomes of the tree and of the window when a request is put into the tree. -/
structure RequestInserted (rt : Runtime n) (s : PrebleGlobalSchedulerUtils n) (σ : ℕ → List ℕ)
    (inputIds : List ℕ) (leaf : ℕ) (splits : OrderedDict ℕ ℕ)
    (s' : PrebleGlobalSchedulerUtils n) (σ' : ℕ → List ℕ) : Prop where
  tree : ∃ c, LPRadixCache.Inserted rt s.cache σ inputIds leaf splits c σ' ∧
    LPRadixCache.CutAt s.cache σ inputIds splits c ∧ SameShape c s'.cache
  timestamps : s'.histogram.timestamps = s.histogram.timestamps.map (s'.moved splits)
  windowDuration : s'.histogram.windowDuration = s.histogram.windowDuration

/-- What becomes of the window with the costs: nothing, or it follows a split of a node whose
upper half has got its allocation. -/
inductive WindowFollows (rt : Runtime n) (s : PrebleGlobalSchedulerUtils n)
    (splits : OrderedDict ℕ ℕ) (s' : PrebleGlobalSchedulerUtils n) : Prop
  | unsplit (hsplits : splits = .empty) (hsame : s'.histogram = s.histogram)
  | split {c : LPRadixCache n} {child new : ℕ} {gpus : Finset (Fin n)}
      (hsplits : splits = .single child new) (hgpus : s.gpuAllocations.get? child = some gpus)
      (hfresh : new ∉ s.cache.allNodes) (hshape : SameShape c s'.cache)
      (hfollow : s'.histogram =
        (withAllocation { s with cache := c } new gpus).followSplit child new (rt.iterGpus
          (((withAllocation { s with cache := c } new gpus).gpuAllocations.get? child).getD ∅)))

/-- A request is put into the tree, and only its leaf may have no allocation then. -/
theorem insertRequest_follows (rt : Runtime n) (hs : Sound s σ reserved ∅)
    (inputIds : List ℕ) :
    ∃ leaf splits s' σ', insertRequest rt inputIds s = .ok leaf s' ∧
      Sound s' σ' reserved {leaf} ∧ RequestInserted rt s σ inputIds leaf splits s' σ' ∧
      WindowFollows rt s splits s' := by
  obtain ⟨leaf, splits, c, σ', hrun, hins, hc⟩ := hs.accounted.insert rt inputIds
  obtain ⟨leaf', splits', c', -, hrun', -, hcut⟩ :=
    LPRadixCache.insert_spec_cut rt hs.wellFormed inputIds
  obtain ⟨heq, rfl⟩ := EStateM.Result.ok.inj (hrun.symm.trans hrun')
  obtain ⟨rfl, rfl⟩ := Prod.mk.inj heq
  have hs₁ := hs.inserted hins hc
  rw [insertRequest, Py.bind_ok (onCache_ok hrun)]
  rcases hins.splits with rfl | ⟨child, new, rfl, hchild, hroot, hnew, hfresh, -⟩
  · exact ⟨leaf, .empty, _, σ', rfl, hs₁,
      { tree := ⟨c, hins, hcut, .refl c⟩
        timestamps := (List.map_id _).symm
        windowDuration := rfl }, .unsplit rfl rfl⟩
  · have hkey : child ∈ s.gpuAllocations.keys :=
      hs.allocated child hchild hroot (Finset.notMem_empty child)
    obtain ⟨gpus, hgpus⟩ := OrderedDict.get?_of_mem_keys hkey
    have hcopy : updateGpuAllocationsWithSplitNodes (.single child new) { s with cache := c } =
        .ok () (withAllocation { s with cache := c } new gpus) :=
      updateGpuAllocationsWithSplitNodes_eq new hgpus
    have hs₂ := hs₁.withAllocation new gpus
    have hwindow : new ∉ s.histogram.timestamps.map WindowEntry.node := by
      intro hmem
      obtain ⟨entry, hentry, rfl⟩ := List.mem_map.mp hmem
      exact hfresh (hs.inTree entry hentry).1
    obtain ⟨s', hsplit, hs', hshape, htime, hduration, hfollow⟩ :=
      hs₂.updateHistogramWithSplitNode_spec rt hnew
        (mem_withAllocation.mpr (Or.inr hkey)) (mem_withAllocation.mpr (Or.inl rfl)) hwindow
    simp only
    rw [Py.bind_ok hcopy, Py.bind_ok hsplit]
    refine ⟨leaf, .single child new, s', σ', rfl, hs'.mono ?_,
      { tree := ⟨c, hins, hcut, hshape⟩
        timestamps := by
          rw [moved_congr hshape]
          exact htime
        windowDuration := hduration }, .split rfl hgpus hfresh hshape hfollow⟩
    -- the new node has its allocation, so the leaf is all that is left
    intro m hm
    obtain ⟨hne, hm⟩ := Finset.mem_erase.mp hm
    rcases Finset.mem_insert.mp hm with rfl | hm
    · exact Finset.mem_singleton_self m
    · exact absurd (List.mem_singleton.mp (List.mem_toFinset.mp hm)) hne

theorem insertRequest_window (rt : Runtime n) (hs : Sound s σ reserved ∅)
    (inputIds : List ℕ) :
    ∃ leaf splits s' σ', insertRequest rt inputIds s = .ok leaf s' ∧
      Sound s' σ' reserved {leaf} ∧ RequestInserted rt s σ inputIds leaf splits s' σ' := by
  obtain ⟨leaf, splits, s', σ', hrun, hs', hinserted, -⟩ := insertRequest_follows rt hs inputIds
  exact ⟨leaf, splits, s', σ', hrun, hs', hinserted⟩

theorem RequestInserted.leaf_spell {inputIds : List ℕ} {leaf : ℕ} {splits : OrderedDict ℕ ℕ}
    {s' : PrebleGlobalSchedulerUtils n} {σ' : ℕ → List ℕ}
    (h : RequestInserted rt s σ inputIds leaf splits s' σ') :
    leaf ∈ s'.cache.allNodes ∧ σ' leaf = inputIds := by
  obtain ⟨c, hins, -, hshape⟩ := h.tree
  exact ⟨hshape.allNodes ▸ hins.leaf_mem, hins.leaf_spell⟩

theorem insertRequest_spec (rt : Runtime n) (hs : Sound s σ reserved ∅)
    (inputIds : List ℕ) :
    ∃ leaf s' σ', insertRequest rt inputIds s = .ok leaf s' ∧ Sound s' σ' reserved {leaf} ∧
      leaf ∈ s'.cache.allNodes ∧ σ' leaf = inputIds := by
  obtain ⟨leaf, splits, s', σ', hrun, hs', hinserted⟩ := insertRequest_window rt hs inputIds
  exact ⟨leaf, s', σ', hrun, hs', hinserted.leaf_spell⟩

end PrebleGlobalScheduler

end DualMap.Preble
