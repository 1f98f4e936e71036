import DualMap.Preble.InsertedRequest

/-!
# The Path of a Request

Where the path of a request will lead can be told before its tokens are put into the tree: an
old node lies on it if its own path is shared to the end, a node that is cut gives it the upper
half, and a leaf that is grafted begins where the longest shared part ends. A node of the path
is known by the number of tokens at which it ends, its place. `pathPlace` is the place of a
node's entries in the window, and `nearestPlace` that of the important ancestor of the request.
-/

namespace DualMap.Preble

variable {n : ℕ} {rt : Runtime n} {σ σ₁ : ℕ → List ℕ} {reserved : List (List ℕ × Fin n)}
  {fresh : Finset ℕ}

namespace LPRadixCache

variable {c c' : LPRadixCache n} {σ' : ℕ → List ℕ} {key : List ℕ} {leaf : ℕ}
  {splits : OrderedDict ℕ ℕ}

theorem prefix_iff_length_le_matchLen {x key : List ℕ} :
    x <+: key ↔ x.length ≤ matchLen x key := by
  obtain ⟨y, r, t, rfl, rfl, hlen, hdiff⟩ := matchLen_spec x key
  rw [hlen, List.prefix_append_right_inj]
  cases r with
  | nil => simp
  | cons a r =>
    refine iff_of_false ?_ (by simp)
    rintro ⟨z, rfl⟩
    exact hdiff a rfl a rfl rfl

theorem matchLen_le_length (x key : List ℕ) : matchLen x key ≤ x.length := by
  obtain ⟨y, r, t, rfl, rfl, hlen, -⟩ := matchLen_spec x key
  rw [hlen, List.length_append]
  omega

theorem matchLen_le_length_right (x key : List ℕ) : matchLen x key ≤ key.length := by
  obtain ⟨y, r, t, rfl, rfl, hlen, -⟩ := matchLen_spec x key
  rw [hlen, List.length_append]
  omega

/-! ## Places -/

/-- The longest part of the key that the tree has. -/
def longestShared (c : LPRadixCache n) (key : List ℕ) : ℕ :=
  c.allNodes.sup (c.sharedTokens key)

/-- The place that the entries of a node have on the path of a key: where the node ends if its
path is shared to the end, and where the key leaves the node if only the upper half is
important. -/
def pathPlace (c : LPRadixCache n) (key : List ℕ) (m : ℕ) : Option ℕ :=
  let before := (c.nodes m).contextSoFar
  let length : ℤ := (c.nodes m).contextLength
  let shared := c.sharedTokens key m
  if length ≤ shared ∨ (2 * before < shared ∧ length ≤ 2 * shared) then some shared else none

/-- The place of the important ancestor of a key: its end, if more of it is new than is in the
tree, and if not the end of the last part of it that owns more tokens than lie before. -/
def nearestPlace (c : LPRadixCache n) (key : List ℕ) : ℕ :=
  if 2 * c.longestShared key < key.length then key.length
  else (c.allNodes.filter (fun m =>
    2 * (c.nodes m).contextSoFar < c.sharedTokens key m)).sup (c.sharedTokens key)

theorem sharedTokens_le_longestShared {m : ℕ} (hm : m ∈ c.allNodes) :
    c.sharedTokens key m ≤ c.longestShared key :=
  Finset.le_sup (f := c.sharedTokens key) hm

theorem WellFormed.contextSoFar_nonneg (hc : WellFormed c σ) {m : ℕ} (hm : m ∈ c.allNodes) :
    0 ≤ (c.nodes m).contextSoFar := by
  by_cases hroot : m = rootNode
  · subst hroot
    exact hc.contextSoFar_root.1.ge
  · obtain ⟨p, hparent⟩ := hc.parent_isSome hm hroot
    rw [(hc.contextSoFar_eq hm hparent).2.1]
    exact Int.natCast_nonneg _

theorem WellFormed.sharedTokens_le (hc : WellFormed c σ) (key : List ℕ) {m : ℕ}
    (hm : m ∈ c.allNodes) : c.sharedTokens key m ≤ (c.nodes m).contextLength := by
  rw [hc.sharedTokens_eq key hm, hc.context m hm]
  exact matchLen_le_length _ _

/-- Two nodes of one path end at different places. -/
theorem WellFormed.eq_of_contextLength_eq (hc : WellFormed c σ) {m x y : ℕ}
    (hm : m ∈ c.allNodes) (hx : x ∈ c.ancestors m) (hy : y ∈ c.ancestors m)
    (heq : (c.nodes x).contextLength = (c.nodes y).contextLength) : x = y := by
  obtain ⟨hx, hxm⟩ := (hc.mem_ancestors hm).mp hx
  obtain ⟨hy, hym⟩ := (hc.mem_ancestors hm).mp hy
  rw [hc.context x hx, hc.context y hy] at heq
  exact hc.spelled.eq_of_spell_eq hx hy
    ((List.prefix_of_prefix_length_le hxm hym heq.le).eq_of_length heq)

/-- The place of a node on the path of a leaf. -/
def placeOn (c : LPRadixCache n) (leaf m : ℕ) : Option ℕ :=
  if m ∈ c.ancestors leaf then some (c.nodes m).contextLength else none

/-- The nodes of a path are known by their places. -/
theorem WellFormed.placeOn_inj (hc : WellFormed c σ) {x y : ℕ} (hleaf : leaf ∈ c.allNodes)
    (hx : x ∈ c.ancestors leaf) (heq : c.placeOn leaf y = c.placeOn leaf x) : y = x := by
  rw [placeOn, placeOn, if_pos hx] at heq
  split at heq
  · next hy => exact hc.eq_of_contextLength_eq hleaf hy hx (Option.some.inj heq)
  · cases heq

/-! ## The nodes of the path -/

section Inserted

variable (hc : WellFormed c σ) (hins : Inserted rt c σ key leaf splits c' σ')
  (hcut : CutAt c σ key splits c')

include hc hins

/-- An old node is on the path of the key exactly when its own path is shared to the end. -/
theorem Inserted.mem_ancestors_leaf {m : ℕ} (hm : m ∈ c.allNodes) :
    m ∈ c'.ancestors leaf ↔ (c.nodes m).contextLength ≤ c.sharedTokens key m := by
  obtain ⟨hm', hspell⟩ := hins.spell hc hm
  rw [(hins.wellFormed hc).mem_ancestors hins.leaf_mem, hins.leaf_spell, hspell,
    and_iff_right hm', hc.sharedTokens_eq key hm, hc.context m hm]
  exact prefix_iff_length_le_matchLen

include hcut

/-- The upper half of a node that is cut is on the path. -/
theorem CutAt.upper_mem_ancestors_leaf {child new : ℕ} (hsplit : splits.get? child = some new) :
    new ∈ c'.ancestors leaf := by
  have hwf := hins.wellFormed hc
  obtain ⟨-, -, hnew, -, habove⟩ := hins.split_mem hsplit
  obtain ⟨-, -, hlength⟩ := hcut.contextSoFar_cut hc hins hsplit
  refine (hwf.mem_ancestors hins.leaf_mem).mpr ⟨hnew, ?_⟩
  obtain ⟨x, r, t, hx, hkey, hlen, -⟩ := matchLen_spec (σ child) key
  have hxchild : x <+: σ child := hx ▸ List.prefix_append _ _
  have hxkey : x <+: key := hkey ▸ List.prefix_append _ _
  rw [hwf.context new hnew, hlen] at hlength
  rw [hins.leaf_spell]
  exact (List.prefix_of_prefix_length_le habove hxchild hlength.le).trans hxkey

/-- The lower half is not. -/
theorem CutAt.lower_not_mem_ancestors_leaf {child new : ℕ}
    (hsplit : splits.get? child = some new) : child ∉ c'.ancestors leaf := by
  obtain ⟨hchild, -⟩ := hins.split_mem hsplit
  obtain ⟨-, hbelow⟩ := hcut.inside hc hins hsplit
  rw [hins.mem_ancestors_leaf hc hchild, hc.sharedTokens_eq key hchild, not_le]
  exact hbelow

/-- A leaf that is grafted begins where the longest shared part ends. -/
theorem CutAt.contextSoFar_leaf (hleaf : leaf ∉ c.allNodes)
    (hvalues : ∀ child, splits.get? child ≠ some leaf) :
    (c'.nodes leaf).contextSoFar = c.longestShared key := by
  have hwf := hins.wellFormed hc
  have hroot : leaf ≠ rootNode := by
    rintro rfl
    exact hleaf hc.root_mem
  obtain ⟨p, hp, a, -, hparent, -, hedge, hlabel⟩ :=
    hwf.spelled.up leaf hins.leaf_mem hroot
  obtain ⟨-, hsofar, hlt⟩ := hwf.contextSoFar_eq hins.leaf_mem hparent
  rw [hsofar, Nat.cast_inj]
  refine le_antisymm ?_ (Finset.sup_le fun m hm => ?_)
  · -- the node above is an old one or the upper half of one
    have hpath : p ∈ c'.ancestors leaf :=
      (hwf.mem_ancestors hins.leaf_mem).mpr ⟨hp, hlabel ▸ List.prefix_append _ _⟩
    rcases hins.nodes p hp with hold | rfl | hnew
    · have hshared := (hins.mem_ancestors_leaf hc hold).mp hpath
      rw [hins.contextLength hc hold]
      exact hshared.trans (sharedTokens_le_longestShared hold)
    · rw [hsofar] at hlt
      exact absurd hlt (lt_irrefl _)
    · obtain ⟨child, hsplit⟩ := OrderedDict.mem_values_iff.mp hnew
      obtain ⟨hchild, -⟩ := hins.split_mem hsplit
      rw [(hcut.contextSoFar_cut hc hins hsplit).2.2, ← hc.sharedTokens_eq key hchild]
      exact sharedTokens_le_longestShared hchild
  · -- a node that shares more is below the leaf
    obtain ⟨hm', hspell⟩ := hins.spell hc hm
    by_contra hmore
    rw [not_le, hwf.context p hp, hc.sharedTokens_eq key hm] at hmore
    obtain ⟨x, r, t, hx, hkey, hlen, -⟩ := matchLen_spec (σ m) key
    rw [hlen] at hmore
    have hbelow : σ' leaf <+: σ' m := by
      refine hwf.spelled.prefix_of_shared hp hm' hedge hmore ?_ ?_
      · rw [hins.leaf_spell, hkey]
        exact List.prefix_append _ _
      · rw [hspell, hx]
        exact List.prefix_append _ _
    obtain rfl := hcut.leaf_not_above hc hins hleaf hvalues hm' hbelow
    exact hleaf hm

end Inserted

end LPRadixCache

namespace PrebleGlobalScheduler

open PrebleGlobalSchedulerUtils
open LPRadixCache (placeOn)

variable {s s₁ : PrebleGlobalSchedulerUtils n} {inputIds : List ℕ} {leaf : ℕ}
  {splits : OrderedDict ℕ ℕ}

/-! ## The places of the entries and of the request -/

section Inserted

variable (hs : Sound s σ reserved ∅) (hins : RequestInserted rt s σ inputIds leaf splits s₁ σ₁)

include hs hins

theorem RequestInserted.mem_ancestors_leaf {m : ℕ} (hm : m ∈ s.cache.allNodes) :
    m ∈ s₁.cache.ancestors leaf ↔
      (s.cache.nodes m).contextLength ≤ s.cache.sharedTokens inputIds m := by
  obtain ⟨c, hinserted, -, hshape⟩ := hins.tree
  rw [hshape.ancestors]
  exact hinserted.mem_ancestors_leaf hs.wellFormed hm

/-- The halves of a node that is cut: the upper one is on the path, the lower one is not. -/
theorem RequestInserted.halves_mem_ancestors_leaf {child new : ℕ}
    (hsplit : splits.get? child = some new) :
    new ∈ s₁.cache.ancestors leaf ∧ child ∉ s₁.cache.ancestors leaf := by
  obtain ⟨c, hinserted, hcut, hshape⟩ := hins.tree
  rw [hshape.ancestors]
  exact ⟨hcut.upper_mem_ancestors_leaf hs.wellFormed hinserted hsplit,
    hcut.lower_not_mem_ancestors_leaf hs.wellFormed hinserted hsplit⟩

theorem RequestInserted.contextLength_leaf :
    (s₁.cache.nodes leaf).contextLength = inputIds.length := by
  obtain ⟨hleaf, hspell⟩ := hins.leaf_spell
  rw [(hins.wellFormed hs.wellFormed).context leaf hleaf, hspell]

/-- A node of the path that is neither old nor an upper half is the leaf. -/
theorem RequestInserted.eq_leaf {m : ℕ} (hm : m ∈ s₁.cache.ancestors leaf)
    (hold : m ∉ s.cache.allNodes) (hvalues : ∀ child, splits.get? child ≠ some m) :
    m = leaf := by
  obtain ⟨hmem, -⟩ := ((hins.wellFormed hs.wellFormed).mem_ancestors hins.leaf_spell.1).mp hm
  obtain ⟨c, hinserted, -, hshape⟩ := hins.tree
  rw [hshape.allNodes] at hmem
  rcases hinserted.nodes m hmem with hm | hm | hm
  · exact absurd hm hold
  · exact hm
  · obtain ⟨child, hsplit⟩ := OrderedDict.mem_values_iff.mp hm
    exact absurd hsplit (hvalues child)

/-- A leaf that is grafted is important if more of the request is new than is in the tree. -/
theorem RequestInserted.isUnshare_leaf (hleaf : leaf ∉ s.cache.allNodes)
    (hvalues : ∀ child, splits.get? child ≠ some leaf) :
    s₁.IsUnsharePrefixOver50PercentForNode leaf ↔
      2 * s.cache.longestShared inputIds < inputIds.length := by
  obtain ⟨c, hinserted, hcut, hshape⟩ := hins.tree
  have hsofar := hcut.contextSoFar_leaf hs.wellFormed hinserted hleaf hvalues
  rw [TreeNode.contextSoFar, TreeNode.numTokens, ← hshape.value, ← hshape.contextLength]
    at hsofar
  rw [isUnshare_iff, TreeNode.contextSoFar, TreeNode.numTokens, hsofar,
    hins.contextLength_leaf hs]
  norm_cast

/-- An old node of the path was not cut. -/
theorem RequestInserted.get?_splits_eq_none {m : ℕ} (hm : m ∈ s₁.cache.ancestors leaf) :
    splits.get? m = none := by
  refine Option.eq_none_iff_forall_ne_some.mpr (fun new hnew => ?_)
  exact (hins.halves_mem_ancestors_leaf hs hnew).2 hm

/-- If the tree has not all of the request, the leaf is grafted. -/
theorem RequestInserted.leaf_fresh
    (hnew : s.cache.longestShared inputIds < inputIds.length) :
    leaf ∉ s.cache.allNodes ∧ ∀ child, splits.get? child ≠ some leaf := by
  have hlength := hins.contextLength_leaf hs
  constructor
  -- the leaf is on its own path: were it old, the whole prompt would have been shared before
  · intro hold
    obtain ⟨hleaf, -⟩ := hins.leaf_spell
    have hself : leaf ∈ s₁.cache.ancestors leaf :=
      ((hins.wellFormed hs.wellFormed).mem_ancestors hleaf).mpr ⟨hleaf, List.prefix_refl _⟩
    have hthrough := (hins.mem_ancestors_leaf hs hold).mp hself
    have hle : s.cache.sharedTokens inputIds leaf ≤ s.cache.longestShared inputIds :=
      LPRadixCache.sharedTokens_le_longestShared hold
    rw [hins.contextLength hs hold] at hlength
    omega
  · intro child hsplit
    obtain ⟨hchild, -, hupper, -⟩ := hins.isUnshare_cut hs hsplit
    have hle : s.cache.sharedTokens inputIds child ≤ s.cache.longestShared inputIds :=
      LPRadixCache.sharedTokens_le_longestShared hchild
    omega

/-- The places of the important nodes on the path of the request. -/
theorem RequestInserted.important_place_iff {k : ℕ} :
    (∃ m ∈ s₁.cache.ancestors leaf, s₁.IsUnsharePrefixOver50PercentForNode m ∧
      (s₁.cache.nodes m).contextLength = k) ↔
    (∃ m ∈ s.cache.allNodes,
      2 * (s.cache.nodes m).contextSoFar < s.cache.sharedTokens inputIds m ∧
        s.cache.sharedTokens inputIds m = k) ∨
    (2 * s.cache.longestShared inputIds < inputIds.length ∧ inputIds.length = k) := by
  have hwf := hins.wellFormed hs.wellFormed
  obtain ⟨hleaf, -⟩ := hins.leaf_spell
  constructor
  -- a node of the path is old and whole, an upper half, or the new leaf
  · rintro ⟨m, hm, hunshare, rfl⟩
    by_cases hold : m ∈ s.cache.allNodes
    · left
      have hnone := hins.get?_splits_eq_none hs hm
      have hthrough := (hins.mem_ancestors_leaf hs hold).mp hm
      have hle := hs.wellFormed.sharedTokens_le inputIds hold
      have hunshare := (isUnshare_iff s m).mp ((hins.isUnshare_old hs hold hnone).mp hunshare)
      rw [hins.contextLength hs hold]
      exact ⟨m, hold, by omega, by omega⟩
    · by_cases hvalue : ∃ child, splits.get? child = some m
      · left
        obtain ⟨child, hsplit⟩ := hvalue
        obtain ⟨hchild, -, hlength, hupper, -⟩ := hins.isUnshare_cut hs hsplit
        exact ⟨child, hchild, hupper.mp hunshare, hlength.symm⟩
      · right
        push Not at hvalue
        obtain rfl := hins.eq_leaf hs hm hold hvalue
        exact ⟨(hins.isUnshare_leaf hs hold hvalue).mp hunshare,
          (hins.contextLength_leaf hs).symm⟩
  -- an old node that is not on the path has its upper half there
  · rintro (⟨m, hm, hunshare, rfl⟩ | ⟨hnew, rfl⟩)
    · have hle := hs.wellFormed.sharedTokens_le inputIds hm
      rcases hle.eq_or_lt with hthrough | hbelow
      · have hpath := (hins.mem_ancestors_leaf hs hm).mpr hthrough.ge
        have hnone := hins.get?_splits_eq_none hs hpath
        refine ⟨m, hpath, (hins.isUnshare_old hs hm hnone).mpr ?_, ?_⟩
        · rw [isUnshare_iff]
          omega
        · rw [hins.contextLength hs hm, hthrough]
      · -- the request leaves the node, and its upper half is on the path
        have hnonneg := hs.wellFormed.contextSoFar_nonneg hm
        obtain ⟨new, hsplit⟩ := hins.split_of_inside hs hm (by omega) hbelow
        obtain ⟨-, -, hlength, hupper, -⟩ := hins.isUnshare_cut hs hsplit
        exact ⟨new, (hins.halves_mem_ancestors_leaf hs hsplit).1, hupper.mpr hunshare, hlength⟩
    · obtain ⟨hfresh, hvalues⟩ := hins.leaf_fresh hs (by omega)
      exact ⟨leaf, (hwf.mem_ancestors hleaf).mpr ⟨hleaf, List.prefix_refl _⟩,
        (hins.isUnshare_leaf hs hfresh hvalues).mpr hnew, hins.contextLength_leaf hs⟩

/-- The place of the important ancestor of the request. -/
theorem RequestInserted.contextLength_nearest {node : ℕ}
    (hnearest : s₁.getNearestAncestorNodeWithLowSharePrefixRatio (some leaf) = some node) :
    (s₁.cache.nodes node).contextLength = s.cache.nearestPlace inputIds := by
  obtain ⟨hnode, hunshare, hmax⟩ := (getNearestAncestor_iff (hins.wellFormed hs.wellFormed)
    hins.leaf_spell.1).mp hnearest
  have hplace := (hins.important_place_iff hs).mp ⟨node, hnode, hunshare, rfl⟩
  have hle : ∀ k, _ → k ≤ (s₁.cache.nodes node).contextLength := fun k hk => by
    obtain ⟨m, hm, hunshare, rfl⟩ := (hins.important_place_iff hs (k := k)).mpr hk
    exact hmax m hm hunshare
  rw [LPRadixCache.nearestPlace]
  split
  · next hnew =>
    -- nothing ends below the leaf
    refine le_antisymm ?_ (hle _ (Or.inr ⟨hnew, rfl⟩))
    rcases hplace with ⟨m, hm, -, heq⟩ | ⟨-, heq⟩
    · rw [← heq, hs.wellFormed.sharedTokens_eq inputIds hm]
      exact LPRadixCache.matchLen_le_length_right _ _
    · exact heq.ge
  · next hold =>
    refine le_antisymm ?_ (Finset.sup_le fun m hm => ?_)
    · rcases hplace with ⟨m, hm, hunshare, heq⟩ | ⟨hnew, -⟩
      · rw [← heq]
        exact Finset.le_sup (Finset.mem_filter.mpr ⟨hm, hunshare⟩)
      · exact absurd hnew hold
    · obtain ⟨hm, hunshare⟩ := Finset.mem_filter.mp hm
      exact hle _ (Or.inl ⟨m, hm, hunshare, rfl⟩)

/-- The place of a node's entries. -/
theorem RequestInserted.placeOn_moved {entry : WindowEntry}
    (hentry : entry ∈ s.histogram.timestamps) :
    s₁.cache.placeOn leaf (s₁.moved splits entry).node =
      s.cache.pathPlace inputIds entry.node := by
  obtain ⟨hm, -⟩ := hs.inTree entry hentry
  have hnonneg := hs.wellFormed.contextSoFar_nonneg hm
  have hle := hs.wellFormed.sharedTokens_le inputIds hm
  have hiff := hins.mem_ancestors_leaf hs hm
  rw [placeOn, LPRadixCache.pathPlace]
  cases hsplit : splits.get? entry.node with
  | none =>
    -- a node that is not cut is on the path, or nothing of it is
    have hstays : s₁.moved splits entry = entry := by
      rw [moved, hsplit]
    have hcut : ¬ ((s.cache.nodes entry.node).contextSoFar <
        s.cache.sharedTokens inputIds entry.node ∧
        s.cache.sharedTokens inputIds entry.node < (s.cache.nodes entry.node).contextLength) := by
      rintro ⟨habove, hbelow⟩
      obtain ⟨new, hnew⟩ := hins.split_of_inside hs hm habove hbelow
      rw [hsplit] at hnew
      cases hnew
    rw [hstays, hins.contextLength hs hm]
    by_cases hthrough :
        (s.cache.nodes entry.node).contextLength ≤ s.cache.sharedTokens inputIds entry.node
    · rw [if_pos (hiff.mpr hthrough), if_pos (Or.inl (by exact_mod_cast hthrough)),
        le_antisymm hthrough hle]
    · rw [if_neg (fun hpath => hthrough (hiff.mp hpath)), if_neg (by omega)]
  | some new =>
    obtain ⟨-, hinside, hlength, hupper, hlower⟩ := hins.isUnshare_cut hs hsplit
    obtain ⟨hnew, hold⟩ := hins.halves_mem_ancestors_leaf hs hsplit
    by_cases hmoves : s₁.IsUnsharePrefixOver50PercentForNode new ∧
        ¬ s₁.IsUnsharePrefixOver50PercentForNode entry.node
    · have hmoved : s₁.moved splits entry = { entry with node := new } := by
        rw [moved, hsplit]
        exact if_pos hmoves
      rw [hupper, hlower] at hmoves
      rw [hmoved, if_pos hnew, hlength, if_pos (by omega)]
    · have hstays : s₁.moved splits entry = entry := by
        rw [moved, hsplit]
        exact if_neg hmoves
      rw [hupper, hlower] at hmoves
      rw [hstays, if_neg hold, if_neg (by omega)]

end Inserted

end PrebleGlobalScheduler

end DualMap.Preble
