import DualMap.Preble.CacheMetadata

/-!
# Paths After an Insertion

An insertion cuts at most one edge. Every other old node has before it what it had; the lower
half of the cut edge has the tokens before it that the key shares with its path, and the new
node above it ends there. So the path of an old node gets longer by the new node if it leads
through the cut edge (`CutAt.mem_ancestors_old`), and is as it was if not.
-/

namespace DualMap.Preble.LPRadixCache

variable {n : ℕ} {rt : Runtime n} {c c' : LPRadixCache n} {σ σ' : ℕ → List ℕ} {key : List ℕ}
  {leaf : ℕ} {splits : OrderedDict ℕ ℕ}

/-! ## The path of a node -/

/-- The tokens on the way from the root to a node. -/
def pathTokens (c : LPRadixCache n) (m : ℕ) : List ℕ :=
  ((c.ancestors m).reverse.map (fun x => (c.nodes x).key)).flatten

/-- How many leading tokens a key shares with the path of a node. -/
def sharedTokens (c : LPRadixCache n) (key : List ℕ) (m : ℕ) : ℕ :=
  matchLen (c.pathTokens m) key

theorem WellFormed.pathTokens_eq (hc : WellFormed c σ) {m : ℕ} (hm : m ∈ c.allNodes) :
    c.pathTokens m = σ m :=
  hc.spelled.labels_ancestors hm (by rw [hc.context m hm]; omega)

theorem WellFormed.sharedTokens_eq (hc : WellFormed c σ) (key : List ℕ) {m : ℕ}
    (hm : m ∈ c.allNodes) : c.sharedTokens key m = matchLen (σ m) key := by
  rw [sharedTokens, hc.pathTokens_eq hm]

/-- What lies before a node is the path of its parent. -/
theorem WellFormed.contextSoFar_eq (hc : WellFormed c σ) {m p : ℕ} (hm : m ∈ c.allNodes)
    (hparent : (c.nodes m).parent = some p) :
    p ∈ c.allNodes ∧ (c.nodes m).contextSoFar = (c.nodes p).contextLength ∧
      (c.nodes m).contextSoFar < (c.nodes m).contextLength := by
  have hroot : m ≠ c.tree.root := by
    rintro rfl
    have hnone : (c.nodes c.tree.root).parent = none := hc.spelled.root_parent
    rw [hnone] at hparent
    cases hparent
  obtain ⟨q, hq, a, rest, hparent', hlabel, -, hspell⟩ := hc.spelled.up m hm hroot
  obtain rfl : q = p := Option.some.inj (hparent'.symm.trans hparent)
  have hvalue : (c.nodes m).value = a :: rest := (hc.value_eq m hm).trans hlabel
  rw [hlabel] at hspell
  rw [TreeNode.contextSoFar, TreeNode.numTokens, hvalue, hc.context m hm, hc.context q hq, hspell]
  simp only [List.length_append, List.length_cons, Nat.cast_add]
  exact ⟨hq, by omega, by omega⟩

theorem WellFormed.parent_isSome (hc : WellFormed c σ) {m : ℕ} (hm : m ∈ c.allNodes)
    (hroot : m ≠ rootNode) : ∃ p, (c.nodes m).parent = some p := by
  obtain ⟨p, -, a, rest, hparent, -⟩ := hc.spelled.up m hm hroot
  exact ⟨p, hparent⟩

theorem WellFormed.contextSoFar_root (hc : WellFormed c σ) :
    (c.nodes rootNode).contextSoFar = 0 ∧ (c.nodes rootNode).contextLength = 0 := by
  have hvalue : (c.nodes rootNode).value = [] :=
    (hc.value_eq rootNode hc.root_mem).trans hc.spelled.root_label
  have hroot : σ rootNode = [] := hc.spelled.root_spell
  have hcontext := hc.context rootNode hc.root_mem
  rw [hroot, List.length_nil] at hcontext
  rw [TreeNode.contextSoFar, TreeNode.numTokens, hvalue, hcontext]
  exact ⟨rfl, rfl⟩

/-- A node above another one ends before what the other owns. -/
theorem WellFormed.contextLength_le (hc : WellFormed c σ) {x y : ℕ} (hx : x ∈ c.allNodes)
    (hy : y ∈ c.ancestors x) (hne : y ≠ x) :
    (c.nodes y).contextLength ≤ (c.nodes x).contextSoFar := by
  obtain ⟨hymem, hpre⟩ := (hc.mem_ancestors hx).mp hy
  have hroot : x ≠ rootNode := by
    rintro rfl
    have hnil : σ rootNode = [] := hc.spelled.root_spell
    rw [hnil, List.prefix_nil] at hpre
    exact hne ((hc.spelled.spell_eq_nil hymem).mp hpre)
  obtain ⟨p, hparent⟩ := hc.parent_isSome hx hroot
  obtain ⟨hp, hsofar, -⟩ := hc.contextSoFar_eq hx hparent
  -- an ancestor other than the node is an ancestor of its parent
  have hancestors : c.tree.ancestors ((σ x).length + 1) x =
      x :: c.tree.ancestors (σ x).length p := by
    have hparent : c.tree.parent x = some p := hparent
    rw [RadixTree.ancestors, hparent]
  have hmem : y ∈ c.tree.ancestors ((σ x).length + 1) x :=
    (hc.spelled.mem_ancestors hx (Nat.lt_succ_self _)).mpr ⟨hymem, hpre⟩
  rw [hancestors] at hmem
  have hyp := (List.mem_cons.mp hmem).resolve_left hne
  have hlt : (σ p).length < (σ x).length := by
    have hlt := (hc.contextSoFar_eq hx hparent).2.2
    rw [hsofar, hc.context p hp, hc.context x hx] at hlt
    exact_mod_cast hlt
  have hle := ((hc.spelled.mem_ancestors hp hlt).mp hyp).2.length_le
  rw [hsofar, hc.context y hymem, hc.context p hp]
  exact_mod_cast hle

theorem SameShape.ancestors (h : SameShape c c') (m : ℕ) : c'.ancestors m = c.ancestors m := by
  rw [LPRadixCache.ancestors, LPRadixCache.ancestors, h.tree, h.contextLength]

/-! ## The cut -/

section Inserted

variable (hc : WellFormed c σ) (hins : Inserted rt c σ key leaf splits c' σ')
  (hcut : CutAt c σ key splits c')

include hins

theorem Inserted.split_mem {child new : ℕ} (hsplit : splits.get? child = some new) :
    child ∈ c.allNodes ∧ child ≠ rootNode ∧ new ∈ c'.allNodes ∧ new ∉ c.allNodes ∧
      σ' new <+: σ child := by
  rcases hins.splits with rfl | ⟨child', new', rfl, hmem⟩
  · cases hsplit
  · obtain ⟨rfl, rfl⟩ := OrderedDict.get?_single_eq_some.mp hsplit
    exact hmem

theorem Inserted.split_unique {child new child' new' : ℕ} (hsplit : splits.get? child = some new)
    (hsplit' : splits.get? child' = some new') : child' = child ∧ new' = new := by
  rcases hins.splits with rfl | ⟨x, y, rfl, -⟩
  · cases hsplit
  · obtain ⟨rfl, rfl⟩ := OrderedDict.get?_single_eq_some.mp hsplit
    exact OrderedDict.get?_single_eq_some.mp hsplit'

include hc hcut

/-- An old node that was not split has before it what it had. -/
theorem CutAt.contextSoFar_old {m : ℕ} (hm : m ∈ c.allNodes) (hnone : splits.get? m = none) :
    (c'.nodes m).contextSoFar = (c.nodes m).contextSoFar := by
  have hwf := hins.wellFormed hc
  obtain ⟨hm', -⟩ := hins.spell hc hm
  by_cases hroot : m = rootNode
  · subst hroot
    rw [hwf.contextSoFar_root.1, hc.contextSoFar_root.1]
  · obtain ⟨p, hparent⟩ := hc.parent_isSome hm hroot
    obtain ⟨hp, hsofar, -⟩ := hc.contextSoFar_eq hm hparent
    obtain ⟨-, hsofar', -⟩ := hwf.contextSoFar_eq hm' ((hcut.parent m hm hnone).trans hparent)
    rw [hsofar, hsofar', hins.contextLength hc hp]

/-- The two halves of a node that was split. -/
theorem CutAt.contextSoFar_cut {child new : ℕ} (hsplit : splits.get? child = some new) :
    (c'.nodes child).contextSoFar = matchLen (σ child) key ∧
      (c'.nodes new).contextSoFar = (c.nodes child).contextSoFar ∧
      (c'.nodes new).contextLength = matchLen (σ child) key := by
  have hwf := hins.wellFormed hc
  obtain ⟨hchild, hroot, hnew, hfresh, -⟩ := hins.split_mem hsplit
  obtain ⟨hchild', -⟩ := hins.spell hc hchild
  obtain ⟨hbelow, habove, hlength⟩ := hcut.cut child new hsplit
  obtain ⟨p, hparent⟩ := hc.parent_isSome hchild hroot
  obtain ⟨hp, hsofar, -⟩ := hc.contextSoFar_eq hchild hparent
  obtain ⟨-, hlower, -⟩ := hwf.contextSoFar_eq hchild' hbelow
  obtain ⟨-, hupper, -⟩ := hwf.contextSoFar_eq hnew (habove.trans hparent)
  rw [hlower, hupper, hsofar, hlength, hins.contextLength hc hp]
  exact ⟨rfl, rfl, rfl⟩

/-- The cut lies inside the edge. -/
theorem CutAt.inside {child new : ℕ} (hsplit : splits.get? child = some new) :
    (c.nodes child).contextSoFar < matchLen (σ child) key ∧
      matchLen (σ child) key < (c.nodes child).contextLength := by
  have hwf := hins.wellFormed hc
  obtain ⟨hchild, hroot, hnew, hfresh, -⟩ := hins.split_mem hsplit
  obtain ⟨hchild', -⟩ := hins.spell hc hchild
  obtain ⟨hbelow, habove, -⟩ := hcut.cut child new hsplit
  obtain ⟨hlower, hupper, hlength⟩ := hcut.contextSoFar_cut hc hins hsplit
  obtain ⟨p, hparent⟩ := hc.parent_isSome hchild hroot
  obtain ⟨-, -, hlt⟩ := hwf.contextSoFar_eq hchild' hbelow
  obtain ⟨-, -, hlt'⟩ := hwf.contextSoFar_eq hnew (habove.trans hparent)
  rw [hlower, hins.contextLength hc hchild] at hlt
  rw [hupper, hlength] at hlt'
  exact ⟨hlt', by exact_mod_cast hlt⟩

/-- A key that ends or parts inside an edge cuts it. -/
theorem CutAt.split_of_inside {m : ℕ} (hm : m ∈ c.allNodes)
    (habove : (c.nodes m).contextSoFar < matchLen (σ m) key)
    (hbelow : matchLen (σ m) key < (c.nodes m).contextLength) :
    ∃ new, splits.get? m = some new := by
  by_contra hnot
  have hnone : splits.get? m = none := Option.eq_none_iff_forall_ne_some.mpr
    (fun new hnew => hnot ⟨new, hnew⟩)
  have hwf := hins.wellFormed hc
  obtain ⟨hm', hspell⟩ := hins.spell hc hm
  have hroot : m ≠ rootNode := by
    rintro rfl
    rw [hc.contextSoFar_root.2] at hbelow
    exact absurd hbelow (Nat.not_lt_zero _)
  -- the key reads into the label of the node, which is still one edge
  obtain ⟨p, hp, a, -, hparent, -, hedge, -⟩ := hwf.spelled.up m hm' hroot
  obtain ⟨-, hsofar, -⟩ := hwf.contextSoFar_eq hm' hparent
  rw [hcut.contextSoFar_old hc hins hm hnone] at hsofar
  obtain ⟨x, r, s, hx, hkey, hlen, hdiff⟩ := matchLen_spec (σ m) key
  rw [hlen, hsofar, hwf.context p hp, Nat.cast_lt] at habove
  rw [hlen, hc.context m hm] at hbelow
  -- so it reads through it
  have hthrough : σ' m <+: σ' leaf := by
    refine hwf.spelled.prefix_of_shared hp hins.leaf_mem hedge habove ?_ ?_
    · rw [hspell, hx]
      exact List.prefix_append _ _
    · rw [hins.leaf_spell, hkey]
      exact List.prefix_append _ _
  rw [hspell, hins.leaf_spell] at hthrough
  rw [hx, hkey, List.prefix_append_right_inj] at hthrough
  obtain ⟨b, r', rfl⟩ := List.exists_cons_of_ne_nil (l := r) (by
    rintro rfl
    rw [hx, List.append_nil] at hbelow
    exact lt_irrefl _ hbelow)
  obtain ⟨t, rfl⟩ := hthrough
  exact hdiff b rfl b rfl rfl

/-- A leaf that is neither old nor the upper half of a cut edge has nothing below it. -/
theorem CutAt.leaf_not_above (hleaf : leaf ∉ c.allNodes)
    (hvalues : ∀ child, splits.get? child ≠ some leaf) {m : ℕ} (hm : m ∈ c'.allNodes)
    (hpre : σ' leaf <+: σ' m) : m = leaf := by
  have hwf := hins.wellFormed hc
  rcases hwf.spelled.prefix_child hins.leaf_mem hm hpre with heq | ⟨a, x, hedge, -⟩
  · exact heq.symm
  · exfalso
    obtain ⟨hx, hparent, -⟩ := hwf.spelled.down leaf hins.leaf_mem a x hedge
    have hparent : (c'.nodes x).parent = some leaf := hparent
    -- what lies below the leaf is old, the leaf itself, or an upper half: none has it as parent
    rcases hins.nodes x hx with hold | rfl | hnew
    · cases hsplit : splits.get? x with
      | none =>
        rw [hcut.parent x hold hsplit] at hparent
        exact hleaf (hc.contextSoFar_eq hold hparent).1
      | some new =>
        rw [(hcut.cut x new hsplit).1] at hparent
        exact hvalues x (hsplit.trans hparent)
    · exact absurd (hwf.spelled.length_lt hins.leaf_mem hedge) (lt_irrefl _)
    · obtain ⟨child, hsplit⟩ := OrderedDict.mem_values_iff.mp hnew
      rw [(hcut.cut child x hsplit).2.1] at hparent
      exact hleaf (hc.contextSoFar_eq (hins.split_mem hsplit).1 hparent).1

/-- What lies below the upper half of a cut edge lies below the lower half, or is new. -/
theorem CutAt.below_new {child new m : ℕ} (hsplit : splits.get? child = some new)
    (hm : m ∈ c.allNodes) (hpre : σ' new <+: σ m) : σ child <+: σ m := by
  have hwf := hins.wellFormed hc
  obtain ⟨hchild, -, hnew, hfresh, -⟩ := hins.split_mem hsplit
  obtain ⟨hm', hspell⟩ := hins.spell hc hm
  rw [← hspell] at hpre ⊢
  rcases hwf.spelled.prefix_child hnew hm' hpre with rfl | ⟨a, x, hedge, hxm⟩
  · exact absurd hm hfresh
  · obtain ⟨hx, hparent, -⟩ := hwf.spelled.down new hnew a x hedge
    have hparent : (c'.nodes x).parent = some new := hparent
    -- the only old node right below the new one is the lower half
    have hold : ∀ y, y ∈ c.allNodes → (c'.nodes y).parent = some new → y = child := by
      intro y hy hyparent
      cases hcuty : splits.get? y with
      | none =>
        rw [hcut.parent y hy hcuty] at hyparent
        exact absurd (hc.contextSoFar_eq hy hyparent).1 hfresh
      | some new' => exact (hins.split_unique hsplit hcuty).1
    by_cases hxold : x ∈ c.allNodes
    · obtain rfl := hold x hxold hparent
      rwa [(hins.spell hc hchild).2] at hxm
    · rcases hins.nodes x hx with hmem | rfl | hvalue
      · exact absurd hmem hxold
      · by_cases hvalues : ∀ y, splits.get? y ≠ some x
        · obtain rfl := hcut.leaf_not_above hc hins hxold hvalues hm' hxm
          exact absurd hm hxold
        · push Not at hvalues
          obtain ⟨y, hy⟩ := hvalues
          obtain ⟨-, rfl⟩ := hins.split_unique hsplit hy
          exact absurd (hwf.spelled.length_lt hnew hedge) (lt_irrefl _)
      · obtain ⟨y, hy⟩ := OrderedDict.mem_values_iff.mp hvalue
        obtain ⟨-, rfl⟩ := hins.split_unique hsplit hy
        exact absurd (hwf.spelled.length_lt hnew hedge) (lt_irrefl _)

/-- The path of an old node gets longer by the new node, if it leads through the cut. -/
theorem CutAt.mem_ancestors_old {m x : ℕ} (hm : m ∈ c.allNodes) :
    x ∈ c'.ancestors m ↔
      x ∈ c.ancestors m ∨ ∃ child ∈ c.ancestors m, splits.get? child = some x := by
  have hwf := hins.wellFormed hc
  obtain ⟨hm', hspell⟩ := hins.spell hc hm
  simp only [hwf.mem_ancestors hm', hc.mem_ancestors hm, hspell]
  constructor
  · rintro ⟨hx, hpre⟩
    by_cases hold : x ∈ c.allNodes
    · exact Or.inl ⟨hold, (hins.spell hc hold).2 ▸ hpre⟩
    · right
      -- a new node on the path is the upper half
      have hvalue : ∃ child, splits.get? child = some x := by
        by_contra hnone
        push Not at hnone
        rcases hins.nodes x hx with hmem | rfl | hvalue
        · exact hold hmem
        · obtain rfl := hcut.leaf_not_above hc hins hold hnone hm' (hspell.symm ▸ hpre)
          exact hold hm
        · obtain ⟨child, hsplit⟩ := OrderedDict.mem_values_iff.mp hvalue
          exact hnone child hsplit
      obtain ⟨child, hsplit⟩ := hvalue
      exact ⟨child, ⟨(hins.split_mem hsplit).1, hcut.below_new hc hins hsplit hm hpre⟩, hsplit⟩
  · rintro (⟨hx, hpre⟩ | ⟨child, ⟨-, hpre⟩, hsplit⟩)
    · obtain ⟨hx', hxspell⟩ := hins.spell hc hx
      exact ⟨hx', hxspell.symm ▸ hpre⟩
    · obtain ⟨-, -, hnew, -, habove⟩ := hins.split_mem hsplit
      exact ⟨hnew, habove.trans hpre⟩

end Inserted

end DualMap.Preble.LPRadixCache
