import DualMap.Preble.SplitNodes
import DualMap.Preble.SplitPaths

/-!
# What Is Important After an Insertion

A request that is put into the tree cuts at most one node (`SplitPaths`). Old nodes that are
not cut are important if they were. Of a node that is cut the upper half is important if twice
the tokens before the node are less than what the request shares with its path, and the lower
half if twice the latter is less than the length of the path.
-/

namespace DualMap.Preble.PrebleGlobalScheduler

open PrebleGlobalSchedulerUtils
open LPRadixCache (WellFormed)

variable {n : ℕ} {rt : Runtime n} {σ σ₁ : ℕ → List ℕ} {reserved : List (List ℕ × Fin n)}
  {s s₁ : PrebleGlobalSchedulerUtils n} {inputIds : List ℕ} {leaf : ℕ}
  {splits : OrderedDict ℕ ℕ}

theorem RequestInserted.wellFormed (hins : RequestInserted rt s σ inputIds leaf splits s₁ σ₁)
    (hc : WellFormed s.cache σ) : WellFormed s₁.cache σ₁ := by
  obtain ⟨c, hinserted, -, hshape⟩ := hins.tree
  exact hshape.wellFormed (hinserted.wellFormed hc)

theorem RequestInserted.mem_allNodes (hins : RequestInserted rt s σ inputIds leaf splits s₁ σ₁)
    (hc : WellFormed s.cache σ) {m : ℕ} (hm : m ∈ s.cache.allNodes) :
    m ∈ s₁.cache.allNodes ∧ σ₁ m = σ m := by
  obtain ⟨c, hinserted, -, hshape⟩ := hins.tree
  rw [hshape.allNodes]
  exact hinserted.spell hc hm

theorem RequestInserted.split_unique (hins : RequestInserted rt s σ inputIds leaf splits s₁ σ₁)
    {child new child' new' : ℕ} (hsplit : splits.get? child = some new)
    (hsplit' : splits.get? child' = some new') : child' = child ∧ new' = new := by
  obtain ⟨c, hinserted, -⟩ := hins.tree
  exact hinserted.split_unique hsplit hsplit'

section Inserted

variable (hs : Sound s σ reserved ∅) (hins : RequestInserted rt s σ inputIds leaf splits s₁ σ₁)

include hs hins

theorem RequestInserted.contextLength {m : ℕ} (hm : m ∈ s.cache.allNodes) :
    (s₁.cache.nodes m).contextLength = (s.cache.nodes m).contextLength := by
  obtain ⟨c, hinserted, -, hshape⟩ := hins.tree
  rw [hshape.contextLength, hinserted.contextLength hs.wellFormed hm]

theorem RequestInserted.isUnshare_old {m : ℕ} (hm : m ∈ s.cache.allNodes)
    (hnone : splits.get? m = none) :
    s₁.IsUnsharePrefixOver50PercentForNode m ↔ s.IsUnsharePrefixOver50PercentForNode m := by
  obtain ⟨c, hinserted, hcut, hshape⟩ := hins.tree
  have hsofar := hcut.contextSoFar_old hs.wellFormed hinserted hm hnone
  rw [isUnshare_iff, isUnshare_iff, hins.contextLength hs hm, TreeNode.contextSoFar,
    TreeNode.numTokens, hshape.value, hshape.contextLength]
  rw [TreeNode.contextSoFar, TreeNode.numTokens] at hsofar
  rw [hsofar]

/-- The two halves of a node that the request cuts. -/
theorem RequestInserted.isUnshare_cut {child new : ℕ} (hsplit : splits.get? child = some new) :
    child ∈ s.cache.allNodes ∧
    ((s.cache.nodes child).contextSoFar < s.cache.sharedTokens inputIds child ∧
      s.cache.sharedTokens inputIds child < (s.cache.nodes child).contextLength) ∧
    (s₁.cache.nodes new).contextLength = s.cache.sharedTokens inputIds child ∧
    (s₁.IsUnsharePrefixOver50PercentForNode new ↔
      2 * (s.cache.nodes child).contextSoFar < s.cache.sharedTokens inputIds child) ∧
    (s₁.IsUnsharePrefixOver50PercentForNode child ↔
      2 * s.cache.sharedTokens inputIds child < (s.cache.nodes child).contextLength) := by
  obtain ⟨c, hinserted, hcut, hshape⟩ := hins.tree
  obtain ⟨hchild, -⟩ := hinserted.split_mem hsplit
  have hinside := hcut.inside hs.wellFormed hinserted hsplit
  obtain ⟨hlower, hupper, hlength⟩ := hcut.contextSoFar_cut hs.wellFormed hinserted hsplit
  have hsofar : ∀ m, (s₁.cache.nodes m).contextSoFar = (c.nodes m).contextSoFar := by
    intro m
    rw [TreeNode.contextSoFar, TreeNode.contextSoFar, TreeNode.numTokens, TreeNode.numTokens,
      hshape.value, hshape.contextLength]
  rw [← hs.wellFormed.sharedTokens_eq inputIds hchild] at hinside hlower hlength
  refine ⟨hchild, hinside, (hshape.contextLength new).trans hlength, ?_, ?_⟩
  · rw [isUnshare_iff, hsofar, hupper, hshape.contextLength, hlength]
  · rw [isUnshare_iff, hsofar, hlower, hins.contextLength hs hchild]
    norm_cast

/-- The path of an old node, after the insertion. -/
theorem RequestInserted.mem_ancestors_old {m x : ℕ} (hm : m ∈ s.cache.allNodes) :
    x ∈ s₁.cache.ancestors m ↔ x ∈ s.cache.ancestors m ∨
      ∃ child ∈ s.cache.ancestors m, splits.get? child = some x := by
  obtain ⟨c, hinserted, hcut, hshape⟩ := hins.tree
  rw [hshape.ancestors]
  exact hcut.mem_ancestors_old hs.wellFormed hinserted hm

theorem RequestInserted.split_of_inside {m : ℕ} (hm : m ∈ s.cache.allNodes)
    (habove : (s.cache.nodes m).contextSoFar < s.cache.sharedTokens inputIds m)
    (hbelow : s.cache.sharedTokens inputIds m < (s.cache.nodes m).contextLength) :
    ∃ new, splits.get? m = some new := by
  obtain ⟨c, hinserted, hcut, -⟩ := hins.tree
  rw [hs.wellFormed.sharedTokens_eq inputIds hm] at habove hbelow
  exact hcut.split_of_inside hs.wellFormed hinserted hm habove hbelow

end Inserted

end DualMap.Preble.PrebleGlobalScheduler
