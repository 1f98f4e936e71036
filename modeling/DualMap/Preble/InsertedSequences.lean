import DualMap.Preble.RadixInsert

/-!
# The Tree Denotes What Was Inserted

After any sequence of insertions the tree reads exactly the prefixes of the inserted
sequences (`insertAll_denotes`), and an inserted sequence keeps its node: however often the
edges on its path are split later, the same object is found for it and returned when it is
inserted again (`insert_stable`).
-/

namespace DualMap.Preble.LPRadixCache

variable {n : ℕ}

/-- Insert sequences one after the other. -/
def insertAll (rt : Runtime n) : List (List ℕ) → Py (LPRadixCache n) Unit
  | [] => pure ()
  | key :: rest => do
    let _ ← insert rt key none .empty
    insertAll rt rest

/-- The tree is well formed and denotes the sequences in `keys`. -/
structure Denotes (c : LPRadixCache n) (keys : List (List ℕ)) : Prop where
  /-- Every node but the root owns tokens. -/
  owns : ∀ m ∈ c.allNodes, m ≠ rootNode →
    (c.nodes m).key ≠ [] ∧ (c.nodes m).value = (c.nodes m).key
  /-- It is stored below its parent, under its first token. -/
  stored : ∀ m ∈ c.allNodes, m ≠ rootNode → ∃ p ∈ c.allNodes, ∃ token,
    (c.nodes m).parent = some p ∧ (c.nodes m).key.head? = some token ∧
      (c.nodes p).children.get? token = some m
  /-- What is stored below a node points back to it. -/
  children : ∀ p ∈ c.allNodes, ∀ token child, (c.nodes p).children.get? token = some child →
    child ∈ c.allNodes ∧ (c.nodes child).parent = some p ∧
      (c.nodes child).key.head? = some token
  siblings : ∀ p ∈ c.allNodes, ∀ token token' child child',
    (c.nodes p).children.get? token = some child →
    (c.nodes p).children.get? token' = some child' → child ≠ child' →
      (c.nodes child).key.head? ≠ (c.nodes child').key.head?
  context : ∀ m s, c.tree.RootPath m s → (c.nodes m).contextLength = s.length
  reachable : ∀ m, m ∈ c.allNodes ↔ ∃ s, c.tree.RootPath m s
  reads : ∀ s, c.tree.Reads s ↔ s = [] ∨ ∃ key ∈ keys, s <+: key
  size : c.totalSize = ((keys.flatMap List.inits).toFinset.erase []).card

/-! ## The invariant of insertions -/

/-- The nodes stand at prefixes of the sequences, and each sequence has its node. -/
structure Holds (c : LPRadixCache n) (σ : ℕ → List ℕ) (keys : List (List ℕ)) : Prop where
  wellFormed : WellFormed c σ
  prefixes : ∀ m ∈ c.allNodes, σ m = [] ∨ ∃ key ∈ keys, σ m <+: key
  complete : ∀ key ∈ keys, ∃ m ∈ c.allNodes, σ m = key

theorem init_holds (rt : Runtime n) : Holds (init rt) (fun _ => []) [] where
  wellFormed := init_wellFormed rt
  prefixes := fun _ _ => Or.inl rfl
  complete := by simp

section Insert

variable {rt : Runtime n} {c : LPRadixCache n} {σ : ℕ → List ℕ} {keys : List (List ℕ)}

theorem Holds.insert (h : Holds c σ keys) {key : List ℕ} {leaf : ℕ} {splits : OrderedDict ℕ ℕ}
    {c' : LPRadixCache n} {σ' : ℕ → List ℕ} (hins : Inserted rt c σ key leaf splits c' σ') :
    Holds c' σ' (keys ++ [key]) where
  wellFormed := hins.wellFormed h.wellFormed
  prefixes := by
    intro m hm
    -- the string of an old node, or a prefix of one, is as it was
    have hold : ∀ x ∈ c.allNodes, ∀ s, s <+: σ x → s = [] ∨ ∃ k ∈ keys ++ [key], s <+: k := by
      intro x hx s hs
      rcases h.prefixes x hx with hnil | ⟨k, hk, hpre⟩
      · rw [hnil, List.prefix_nil] at hs
        exact Or.inl hs
      · exact Or.inr ⟨k, List.mem_append_left _ hk, hs.trans hpre⟩
    rcases hins.nodes m hm with hmem | rfl | hmem
    · rw [(hins.spell h.wellFormed hmem).2]
      exact hold m hmem _ (List.prefix_refl _)
    · exact Or.inr ⟨key, by simp, hins.leaf_spell ▸ List.prefix_refl _⟩
    · rcases hins.splits with rfl | ⟨child, new, rfl, hchild, -, -, -, hpre⟩
      · cases hmem
      · obtain ⟨token, htoken⟩ := OrderedDict.mem_values_iff.mp hmem
        obtain ⟨-, rfl⟩ := OrderedDict.get?_single_eq_some.mp htoken
        exact hold child hchild _ hpre
  complete := by
    intro k hk
    rcases List.mem_append.mp hk with hk | hk
    · obtain ⟨m, hm, hspell⟩ := h.complete k hk
      obtain ⟨hm', hsame⟩ := hins.spell h.wellFormed hm
      exact ⟨m, hm', hsame.trans hspell⟩
    · rw [List.mem_singleton] at hk
      exact ⟨leaf, hins.leaf_mem, hk ▸ hins.leaf_spell⟩

/-- A sequence of insertions never fails, and no node changes its string. -/
theorem insertAll_holds (rt : Runtime n) (h : Holds c σ keys) (more : List (List ℕ)) :
    ∃ c' σ', insertAll rt more c = .ok () c' ∧ Holds c' σ' (keys ++ more) ∧
      ∀ m ∈ c.allNodes, m ∈ c'.allNodes ∧ σ' m = σ m := by
  induction more generalizing c σ keys with
  | nil => exact ⟨c, σ, rfl, by rwa [List.append_nil], fun m hm => ⟨hm, rfl⟩⟩
  | cons key more ih =>
    obtain ⟨leaf, splits, c₁, σ₁, hrun, hins⟩ := insert_spec rt h.wellFormed key
    obtain ⟨c₂, σ₂, hrun₂, hholds, hspell⟩ := ih (h.insert hins)
    refine ⟨c₂, σ₂, ?_, ?_, ?_⟩
    · rw [insertAll, Py.bind_ok hrun]
      exact hrun₂
    · rwa [List.append_assoc] at hholds
    · intro m hm
      obtain ⟨hm₁, hspell₁⟩ := hins.spell h.wellFormed hm
      obtain ⟨hm₂, hspell₂⟩ := hspell m hm₁
      exact ⟨hm₂, hspell₂.trans hspell₁⟩

/-! ## The size of the tree -/

theorem totalSizeHelper_eq (c : LPRadixCache n) (fuel node : ℕ) :
    c.totalSizeHelper fuel node =
      ((c.tree.preorder fuel node).map (fun m => (c.nodes m).value.length)).sum := by
  induction fuel generalizing node with
  | zero => rfl
  | succ fuel ih =>
    have hchildren : ∀ children : List ℕ, (children.map (c.totalSizeHelper fuel)).sum =
        ((children.flatMap (c.tree.preorder fuel)).map
          (fun m => (c.nodes m).value.length)).sum := by
      intro children
      induction children with
      | nil => rfl
      | cons child children ihc =>
        rw [List.map_cons, List.sum_cons, List.flatMap_cons, List.map_append, List.sum_append,
          ih child, ihc]
    rw [totalSizeHelper, RadixTree.preorder, List.map_cons, List.sum_cons, hchildren]
    rfl

/-- The strings of the nodes have the same prefixes as the sequences. -/
theorem Holds.prefix_iff (h : Holds c σ keys) {s : List ℕ} :
    (∃ m ∈ c.allNodes, s <+: σ m) ↔ s = [] ∨ ∃ key ∈ keys, s <+: key := by
  constructor
  · rintro ⟨m, hm, hs⟩
    rcases h.prefixes m hm with hnil | ⟨key, hkey, hpre⟩
    · rw [hnil, List.prefix_nil] at hs
      exact Or.inl hs
    · exact Or.inr ⟨key, hkey, hs.trans hpre⟩
  · rintro (rfl | ⟨key, hkey, hs⟩)
    · exact ⟨rootNode, h.wellFormed.root_mem, List.nil_prefix⟩
    · obtain ⟨m, hm, rfl⟩ := h.complete key hkey
      exact ⟨m, hm, hs⟩

/-- The total size is the number of tokens that the nodes own. -/
theorem WellFormed.totalSize_eq (hc : WellFormed c σ) :
    c.totalSize = ∑ m ∈ c.allNodes, (c.nodes m).key.length := by
  obtain ⟨hnodup, hnodes⟩ := hc.collectNodes_spec
  rw [totalSize, totalSizeHelper_eq]
  show (c.collectNodes.map (fun m => (c.nodes m).value.length)).sum = _
  rw [← List.sum_toFinset _ hnodup, hnodes]
  exact Finset.sum_congr rfl (fun m hm => by rw [hc.value_eq m hm])

/-! ## Main results -/

theorem Holds.denotes (h : Holds c σ keys) : Denotes c keys where
  owns := fun m hm hroot =>
    ⟨h.wellFormed.spelled.label_ne_nil hm hroot, h.wellFormed.value_eq m hm⟩
  stored := by
    intro m hm hroot
    obtain ⟨p, hp, a, rest, hparent, hlabel, hedge, -⟩ := h.wellFormed.spelled.up m hm hroot
    have hkey : (c.nodes m).key = a :: rest := hlabel
    exact ⟨p, hp, a, hparent, by rw [hkey]; rfl, hedge⟩
  children := by
    intro p hp token child hedge
    obtain ⟨hchild, hparent, rest, hlabel⟩ := h.wellFormed.spelled.down p hp token child hedge
    have hkey : (c.nodes child).key = token :: rest := hlabel
    exact ⟨hchild, hparent, by rw [hkey]; rfl⟩
  siblings := by
    intro p hp token token' child child' hedge hedge' hne heq
    obtain ⟨-, -, rest, hlabel⟩ := h.wellFormed.spelled.down p hp token child hedge
    obtain ⟨-, -, rest', hlabel'⟩ := h.wellFormed.spelled.down p hp token' child' hedge'
    have hkey : (c.nodes child).key = token :: rest := hlabel
    have hkey' : (c.nodes child').key = token' :: rest' := hlabel'
    rw [hkey, hkey'] at heq
    -- one token has one child
    obtain rfl : token = token' := Option.some.inj heq
    rw [hedge] at hedge'
    exact hne (Option.some.inj hedge')
  context := by
    intro m s hpath
    obtain ⟨hm, rfl⟩ := h.wellFormed.spelled.rootPath_iff.mp hpath
    exact h.wellFormed.context m hm
  reachable := by
    intro m
    constructor
    · intro hm
      exact ⟨σ m, h.wellFormed.spelled.rootPath_iff.mpr ⟨hm, rfl⟩⟩
    · rintro ⟨s, hpath⟩
      exact (h.wellFormed.spelled.rootPath_iff.mp hpath).1
  reads := by
    intro s
    rw [h.wellFormed.spelled.reads_iff]
    exact h.prefix_iff
  size := by
    rw [h.wellFormed.totalSize_eq]
    refine (h.wellFormed.spelled.sum_length_label).trans (congrArg Finset.card ?_)
    ext s
    simp only [Finset.mem_erase, Finset.mem_biUnion, List.mem_toFinset, List.mem_inits,
      List.mem_flatMap]
    exact and_congr_right (fun hs => h.prefix_iff.trans (or_iff_right hs))

end Insert

/-- After any sequence of insertions the tree denotes the inserted sequences. -/
theorem insertAll_denotes (rt : Runtime n) (keys : List (List ℕ)) :
    ∃ c, insertAll rt keys (init rt) = .ok () c ∧ Denotes c keys := by
  obtain ⟨c, σ, hrun, hholds, -⟩ := insertAll_holds rt (init_holds rt) keys
  exact ⟨c, hrun, hholds.denotes⟩

/-- The node returned for a sequence is the one whose path spells it, and stays it: after
any further insertions it is found for the sequence, and returned when the sequence is
inserted again. -/
theorem insert_stable (rt : Runtime n) (before : List (List ℕ)) (key : List ℕ)
    (after : List (List ℕ)) :
    ∃ c₁ leaf splits c₂ c₃, insertAll rt before (init rt) = .ok () c₁ ∧
      insert rt key none .empty c₁ = .ok (leaf, splits) c₂ ∧
      (∀ m, c₂.tree.RootPath m key ↔ m = leaf) ∧
      insertAll rt after c₂ = .ok () c₃ ∧
      (∀ m, c₃.tree.RootPath m key ↔ m = leaf) ∧
      (∃ c₄, findNode rt key c₃ = .ok (some leaf) c₄ ∧
        (c₄.nodes leaf).contextLength = key.length) ∧
      ∃ splits' c₄, insert rt key none .empty c₃ = .ok (leaf, splits') c₄ ∧
        (c₄.nodes leaf).contextLength = key.length := by
  obtain ⟨c₁, σ₁, hrun₁, hholds₁, -⟩ := insertAll_holds rt (init_holds rt) before
  obtain ⟨leaf, splits, c₂, σ₂, hrun₂, hins⟩ := insert_spec rt hholds₁.wellFormed key
  obtain ⟨c₃, σ₃, hrun₃, hholds₃, hspell₃⟩ :=
    insertAll_holds rt (hholds₁.insert hins) after
  obtain ⟨hleaf, hleafSpell⟩ := hspell₃ leaf hins.leaf_mem
  rw [hins.leaf_spell] at hleafSpell
  -- in every tree the node of a string is unique
  have hunique : ∀ {c : LPRadixCache n} {σ : ℕ → List ℕ}, WellFormed c σ →
      leaf ∈ c.allNodes → σ leaf = key → ∀ m, c.tree.RootPath m key ↔ m = leaf := by
    intro c σ hc hmem hspell m
    rw [hc.spelled.rootPath_iff, ← hspell]
    constructor
    · rintro ⟨hm, heq⟩
      exact hc.spelled.eq_of_spell_eq hm hmem heq.symm
    · rintro rfl
      exact ⟨hmem, rfl⟩
  refine ⟨c₁, leaf, splits, c₂, c₃, hrun₁, hrun₂,
    hunique (hins.wellFormed hholds₁.wellFormed) hins.leaf_mem hins.leaf_spell, hrun₃,
    hunique hholds₃.wellFormed hleaf hleafSpell, ?_, ?_⟩
  · obtain ⟨found, c₄, hrun₄, hvisit, -, hfound⟩ :=
      findNode_spec rt hholds₃.wellFormed key
    refine ⟨c₄, ?_, ?_⟩
    · rw [hrun₄, hfound leaf hleaf hleafSpell]
    · rw [hvisit.sameShape.contextLength, hholds₃.wellFormed.context leaf hleaf, hleafSpell]
  · obtain ⟨leaf', splits', c₄, σ₄, hrun₄, hins'⟩ :=
      insert_spec rt hholds₃.wellFormed key
    have hwf₄ := hins'.wellFormed hholds₃.wellFormed
    obtain ⟨hleaf₄, hspell₄⟩ := hins'.spell hholds₃.wellFormed hleaf
    -- the node returned has the same string as before, so it is the same node
    obtain rfl : leaf' = leaf := hwf₄.spelled.eq_of_spell_eq hins'.leaf_mem hleaf₄
      (hins'.leaf_spell.trans (hspell₄.trans hleafSpell).symm)
    exact ⟨splits', c₄, hrun₄, by rw [hwf₄.context leaf' hleaf₄, hins'.leaf_spell]⟩

end DualMap.Preble.LPRadixCache
