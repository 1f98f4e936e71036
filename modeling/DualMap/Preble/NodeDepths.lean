import DualMap.Preble.InsertedSequences
import DualMap.Preble.RequestPath

/-!
# The Depths of Nodes

`_insert_helper` threads the depth of a node through its recursion, and `_split_node` patches
two depths: the upper half of a cut edge takes the depth of the node, and the lower half one
more. What lies below the lower half moves down too, but keeps its depth; and the recursion
goes on at the upper half as if it were one level deeper than it is.

So an insertion keeps depths right exactly when it cuts no edge, or cuts one above a leaf and
ends at the cut.

## Main Results

- `insert_spec_depths`: the depths after an insertion
- `stepsRight_insert_iff`: when an insertion keeps them right
- `depths_exact_iff`: when they are right in all states of a sequence of insertions
-/

namespace DualMap.Preble.LPRadixCache

variable {n : ℕ} {rt : Runtime n} {c c' : LPRadixCache n} {σ σ' : ℕ → List ℕ} {key : List ℕ}
  {leaf : ℕ} {splits : OrderedDict ℕ ℕ}

/-! ## Right depths -/

/-- The depth of every node is its distance from the root, and the difference of the depths of
a node and one above it is the length of the chain between them. -/
structure DepthsRight (c : LPRadixCache n) : Prop where
  distance : ∀ m ∈ c.allNodes, (c.nodes m).depth + 1 = (c.ancestors m).length
  chain : ∀ m ∈ c.allNodes, ∀ x ∈ c.ancestors m,
    ((c.nodes m).depth : ℤ) - (c.nodes x).depth = ((c.ancestors m).takeWhile (· ≠ x)).length

/-- The root has depth 0, and every edge leads one level down. -/
structure StepsRight (c : LPRadixCache n) : Prop where
  root : (c.nodes rootNode).depth = 0
  edge : ∀ p ∈ c.allNodes, ∀ a m, c.tree.Edge p a m → (c.nodes m).depth = (c.nodes p).depth + 1

theorem WellFormed.ancestors_root (hc : WellFormed c σ) : c.ancestors rootNode = [rootNode] :=
  hc.spelled.ancestors_root _

/-- The way up from a node is the node and the way up from its parent. -/
theorem WellFormed.ancestors_cons (hc : WellFormed c σ) {p a m : ℕ} (hp : p ∈ c.allNodes)
    (hedge : c.tree.Edge p a m) : c.ancestors m = m :: c.ancestors p := by
  have hm := (hc.spelled.down p hp a m hedge).1
  have hlt := hc.spelled.length_lt hp hedge
  have hcontext := hc.context m hm
  have hcontext' := hc.context p hp
  rw [ancestors, hc.spelled.ancestors_succ hp hedge]
  exact congrArg (m :: ·) (hc.spelled.ancestors_of_lt hp (by omega) (by omega))

/-- What holds at the root and goes down every edge holds of every node. -/
theorem WellFormed.induction_edges (hc : WellFormed c σ) {P : ℕ → Prop} (hroot : P rootNode)
    (hedge : ∀ p ∈ c.allNodes, ∀ a m, c.tree.Edge p a m → P p → P m) :
    ∀ m ∈ c.allNodes, P m := by
  intro m hm
  -- the string of the parent is shorter
  induction hlen : (σ m).length using Nat.strong_induction_on generalizing m with
  | h len ih =>
    by_cases hm' : m = rootNode
    · rw [hm']; exact hroot
    · obtain ⟨p, hp, a, rest, -, -, hpm, -⟩ := hc.spelled.up m hm hm'
      exact hedge p hp a m hpm (ih _ (hlen ▸ hc.spelled.length_lt hp hpm) p hp rfl)

theorem StepsRight.distance (h : StepsRight c) (hc : WellFormed c σ) :
    ∀ m ∈ c.allNodes, (c.nodes m).depth + 1 = (c.ancestors m).length := by
  refine hc.induction_edges (P := fun m => (c.nodes m).depth + 1 = (c.ancestors m).length) ?_ ?_
  · rw [h.root, hc.ancestors_root]
    rfl
  · intro p hp a m hpm hdistance
    rw [h.edge p hp a m hpm, hc.ancestors_cons hp hpm, List.length_cons, ← hdistance]

/-- Depths that are distances differ by the length of the chain. -/
theorem chain_of_distance (hc : WellFormed c σ)
    (h : ∀ m ∈ c.allNodes, (c.nodes m).depth + 1 = (c.ancestors m).length) :
    ∀ m ∈ c.allNodes, ∀ x ∈ c.ancestors m,
      ((c.nodes m).depth : ℤ) - (c.nodes x).depth =
        ((c.ancestors m).takeWhile (· ≠ x)).length := by
  refine hc.induction_edges (P := fun m => ∀ x ∈ c.ancestors m,
      ((c.nodes m).depth : ℤ) - (c.nodes x).depth =
        ((c.ancestors m).takeWhile (· ≠ x)).length) ?_ ?_
  -- at the root there is nothing above; below it the chain is one node longer
  · intro x hx
    rw [hc.ancestors_root, List.mem_singleton] at hx
    rw [hx, hc.ancestors_root]
    simp
  · intro p hp a m hpm hchain x hx
    have hm := (hc.spelled.down p hp a m hpm).1
    have hdepth := h m hm
    have hdepth' := h p hp
    rw [hc.ancestors_cons hp hpm] at hx hdepth ⊢
    rw [List.length_cons] at hdepth
    rcases List.mem_cons.mp hx with rfl | hx
    · simp
    · -- the node itself is not met again above it
      have hne : m ≠ x := by
        rintro rfl
        have hnodup := hc.ancestors_nodup hm
        rw [hc.ancestors_cons hp hpm] at hnodup
        exact (List.nodup_cons.mp hnodup).1 hx
      rw [List.takeWhile_cons_of_pos (by simpa using hne), List.length_cons, Nat.cast_add,
        Nat.cast_one, ← hchain x hx]
      omega

theorem depthsRight_iff (hc : WellFormed c σ) : DepthsRight c ↔ StepsRight c := by
  constructor
  · intro h
    refine ⟨?_, fun p hp a m hpm => ?_⟩
    · have hroot := h.distance rootNode hc.root_mem
      rw [hc.ancestors_root, List.length_singleton] at hroot
      omega
    · have hm := h.distance m (hc.spelled.down p hp a m hpm).1
      rw [hc.ancestors_cons hp hpm, List.length_cons, ← h.distance p hp] at hm
      omega
  · intro h
    exact ⟨h.distance hc, chain_of_distance hc (h.distance hc)⟩

/-! ## The depths after an insertion -/

/-- The depths that an insertion leaves: old nodes keep theirs, but for a node that was split;
the new leaf is one level below an old node, or two below the upper half. -/
structure DepthAt (c : LPRadixCache n) (leaf : ℕ) (splits : OrderedDict ℕ ℕ)
    (c' : LPRadixCache n) : Prop where
  old : ∀ m ∈ c.allNodes,
    (c'.nodes m).depth = (c.nodes m).depth + if splits.get? m = none then 0 else 1
  upper : ∀ child new, splits.get? child = some new →
    (c'.nodes new).depth = (c.nodes child).depth
  grafted : leaf ∉ c.allNodes → splits = .empty → ∀ p, (c'.nodes leaf).parent = some p →
    (c'.nodes leaf).depth = (c'.nodes p).depth + 1
  hung : ∀ child new, splits.get? child = some new → leaf ≠ new →
    (c'.nodes leaf).parent = some new ∧ (c'.nodes leaf).depth = (c'.nodes new).depth + 2

theorem Visited.depth (h : Visited c c') (m : ℕ) : (c'.nodes m).depth = (c.nodes m).depth := by
  obtain ⟨time, load, hm⟩ := h.nodes m
  rw [hm]

theorem DepthAt.of_visited {c₁ : LPRadixCache n} (hvisit : Visited c c₁)
    (h : DepthAt c₁ leaf splits c') : DepthAt c leaf splits c' where
  old m hm := by rw [h.old m (hvisit.allNodes ▸ hm), hvisit.depth]
  upper child new hsplit := by rw [h.upper child new hsplit, hvisit.depth]
  grafted hleaf := h.grafted (hvisit.allNodes ▸ hleaf)
  hung := h.hung

theorem depthAt_visit (hvisit : Visited c c') (hleaf : leaf ∈ c.allNodes) :
    DepthAt c leaf .empty c' where
  old m _ := hvisit.depth m
  upper _ _ h := by cases h
  grafted hnot := absurd hleaf hnot
  hung _ _ h := by cases h

theorem StepsRight.of_visited (h : StepsRight c) (hvisit : Visited c c') : StepsRight c' where
  root := (hvisit.depth rootNode).trans h.root
  edge p hp a m hpm := by
    rw [hvisit.depth, hvisit.depth]
    exact h.edge p (hvisit.allNodes ▸ hp) a m (hvisit.sameShape.tree ▸ hpm)

/-- A graft changes the depth of no node that was there. -/
theorem afterGraft_depth (rt : Runtime n) (hc : WellFormed c σ) (p token : ℕ)
    (key value : List ℕ) (contextLength depth : ℕ) {m : ℕ} (hm : m ∈ c.allNodes) :
    ((afterGraft rt c p token key value contextLength depth).nodes m).depth =
      (c.nodes m).depth := by
  rcases afterGraft_cases rt c p token key value contextLength depth m with
    rfl | rfl | ⟨-, -, hsame⟩
  · rw [afterGraft_parent]
  · exact absurd hm hc.nextId_notMem
  · rw [hsame]

theorem depthAt_graft (rt : Runtime n) (hc : WellFormed c σ) {node a : ℕ} {x : List ℕ}
    (hnode : node ∈ c.allNodes) (contextLength : ℕ) :
    DepthAt c c.nextId .empty
      (afterGraft rt c node a (a :: x) (a :: x) contextLength ((c.nodes node).depth + 1)) := by
  have hnew : c.nextId ≠ node := (hc.ne_nextId hnode).symm
  have hold : ∀ m ∈ c.allNodes, ((afterGraft rt c node a (a :: x) (a :: x) contextLength
      ((c.nodes node).depth + 1)).nodes m).depth = (c.nodes m).depth :=
    fun m hm => afterGraft_depth rt hc node a _ _ _ _ hm
  refine ⟨hold, fun _ _ h => (by cases h), fun _ _ p hparent => ?_, fun _ _ h => (by cases h)⟩
  rw [afterGraft_new rt hnew] at hparent ⊢
  rw [← Option.some.inj hparent, hold node hnode]

/-- A split puts the new node at the depth of the child, which goes one level down. -/
theorem afterSplit_depth (rt : Runtime n) (hc : WellFormed c σ) {node child a b : ℕ}
    {x : List ℕ} (hnode : node ∈ c.allNodes) (hedge : c.tree.Edge node a child)
    {c' : LPRadixCache n}
    (hc' : c' = afterSplit rt (enter rt c node) node child (x.length + 1) a b) :
    (c'.nodes child).depth = (c.nodes child).depth + 1 ∧
    (c'.nodes c.nextId).depth = (c.nodes child).depth ∧
    ∀ m ∈ c.allNodes, m ≠ child → (c'.nodes m).depth = (c.nodes m).depth := by
  obtain ⟨-, -, hne, hnodeNew, hchildNew⟩ := hc.split_nodes hnode hedge
  have hvisit := enter_visited rt c node
  subst hc'
  refine ⟨?_, ?_, fun m hm hmc => ?_⟩
  · rw [afterSplit_child rt hne.symm, ← hvisit.depth child]
  · rw [show c.nextId = (enter rt c node).nextId from rfl,
      afterSplit_new rt (c := enter rt c node) hchildNew.symm hnodeNew.symm,
      ← hvisit.depth child]
  · rcases afterSplit_cases rt (enter rt c node) node child (x.length + 1) a b m with
      rfl | rfl | rfl | ⟨-, -, -, hsame⟩
    · rw [afterSplit_parent, ← hvisit.depth m]
    · exact absurd rfl hmc
    · exact absurd hm hc.nextId_notMem
    · rw [hsame, hvisit.depth]

/-- What a split leaves, when nothing after it changes the depth of a node that was there. -/
theorem DepthAt.of_split {child new : ℕ}
    (hchild : (c'.nodes child).depth = (c.nodes child).depth + 1)
    (hnew : (c'.nodes new).depth = (c.nodes child).depth)
    (hold : ∀ m ∈ c.allNodes, m ≠ child → (c'.nodes m).depth = (c.nodes m).depth)
    (hleaf : leaf ≠ new → (c'.nodes leaf).parent = some new ∧
      (c'.nodes leaf).depth = (c'.nodes new).depth + 2) :
    DepthAt c leaf (.single child new) c' where
  old m hm := by
    -- the lower half is one deeper, the upper half where the child was
    by_cases hmc : m = child
    · rw [hmc, hchild, OrderedDict.get?_single_self]
      rfl
    · have hget : (OrderedDict.single child new).get? m = none :=
        (OrderedDict.get?_set_of_ne _ _ hmc).trans rfl
      rw [hold m hm hmc, hget]
      rfl
  upper m upper hget := by
    obtain ⟨rfl, rfl⟩ := OrderedDict.get?_single_eq_some.mp hget
    exact hnew
  grafted _ hnone := by
    have hget := OrderedDict.get?_single_self child new
    rw [hnone] at hget
    cases hget
  hung m upper hget hne := by
    obtain ⟨rfl, rfl⟩ := OrderedDict.get?_single_eq_some.mp hget
    exact hleaf hne

/-- A split above a child, after which what is left of the key is inserted at the new node. -/
theorem depthAt_split (rt : Runtime n) (fuel : ℕ) {node child a b : ℕ} {x y s : List ℕ}
    (hc : WellFormed c σ) (hright : StepsRight c) (hnode : node ∈ c.allNodes)
    (hedge : c.tree.Edge node a child) (hkey : (c.nodes child).key = (a :: x) ++ b :: y)
    (hlen : matchLen ((a :: x) ++ b :: y) (a :: (x ++ s)) = x.length + 1)
    (hdiff : ∀ d ∈ s.head?, d ≠ b) :
    ∃ leaf splits c', insertHelper rt (fuel + 2) node (a :: (x ++ s)) (a :: (x ++ s)) .empty
        (c.nodes node).contextLength (c.nodes node).depth c = .ok (leaf, splits) c' ∧
      DepthAt c leaf splits c' := by
  obtain ⟨hchild, -, hne, hnodeNew, hchildNew⟩ := hc.split_nodes hnode hedge
  have hrun := insertHelper_split (c := c) rt (fuel + 1) node .empty
    (c.nodes node).contextLength (c.nodes node).depth hedge
    (hc.spelled.down node hnode a child hedge).2.1 hkey hlen hne hchildNew hnodeNew
  have hsplit := inserted_split rt hc hnode hedge hkey
  set c₁ := enter rt c node with hc₁
  set c₂ := afterSplit rt c₁ node child (x.length + 1) a b with hc₂
  have hwf₂ := hsplit.wellFormed hc
  obtain ⟨hchild₂, hnew₂, hold₂⟩ := afterSplit_depth rt hc hnode hedge hc₂
  have hvisit₂ := enter_visited rt c₂ c.nextId
  cases s with
  | nil =>
    rw [List.append_nil] at hrun ⊢
    refine ⟨c.nextId, _, _, hrun.trans (insertHelper_nil rt fuel c.nextId [] _ _ _), ?_⟩
    refine DepthAt.of_split ?_ ?_ (fun m hm hmc => ?_) (fun h => absurd rfl h)
    · rw [hvisit₂.depth, hchild₂]
    · rw [hvisit₂.depth, hnew₂]
    · rw [hvisit₂.depth, hold₂ m hm hmc]
  | cons d s =>
    have hbd : d ≠ b := hdiff d rfl
    have hchildren : (c₂.nodes c.nextId).children.get? d = none := by
      rw [hc₂, show c.nextId = c₁.nextId from rfl,
        afterSplit_new rt (c := c₁) hchildNew.symm hnodeNew.symm]
      show (OrderedDict.single b child).get? d = none
      rw [OrderedDict.single, OrderedDict.get?_set_of_ne _ _ hbd]
      rfl
    refine ⟨c₂.nextId, _, _, hrun.trans (insertHelper_graft rt fuel c.nextId _ _ _ _ hchildren
      (Nat.ne_of_lt (Nat.lt_succ_self _))), ?_⟩
    -- the recursion counts two levels for the one from `node` to the new node
    have hcount : (c.nodes node).depth + 2 + 1 = (c.nodes child).depth + 2 := by
      rw [hright.edge node hnode a child hedge]
    rw [hcount]
    set c₃ := afterGraft rt (enter rt c₂ c.nextId) c.nextId d (d :: s) (d :: s)
      ((c.nodes node).contextLength + (x.length + 1) + (s.length + 1))
      ((c.nodes child).depth + 2) with hc₃
    have hsame : ∀ m ∈ c₂.allNodes, (c₃.nodes m).depth = (c₂.nodes m).depth := by
      intro m hm
      rw [hc₃, afterGraft_depth rt (hvisit₂.sameShape.wellFormed hwf₂) _ _ _ _ _ _
        (hvisit₂.allNodes ▸ hm), hvisit₂.depth]
    have hin : ∀ m ∈ c.allNodes, m ∈ c₂.allNodes := fun m hm => Finset.mem_insert_of_mem hm
    have hnew₃ := (hsame _ hsplit.leaf_mem).trans hnew₂
    have hnewLeaf : (enter rt c₂ c.nextId).nextId ≠ c.nextId :=
      (Nat.ne_of_lt (Nat.lt_succ_self _)).symm
    have hleaf := afterGraft_new rt hnewLeaf d (d :: s) (d :: s)
      ((c.nodes node).contextLength + (x.length + 1) + (s.length + 1)) ((c.nodes child).depth + 2)
    refine DepthAt.of_split ((hsame _ (hin _ hchild)).trans hchild₂) hnew₃
      (fun m hm hmc => (hsame m (hin m hm)).trans (hold₂ m hm hmc)) (fun _ => ?_)
    rw [hnew₃, hc₃, show c₂.nextId = (enter rt c₂ c.nextId).nextId from rfl, hleaf]
    exact ⟨rfl, rfl⟩

/-- The depths after an insertion into a tree with right depths. -/
theorem insertHelper_depths (rt : Runtime n) (fuel : ℕ) {node : ℕ} (hc : WellFormed c σ)
    (hright : StepsRight c) (hnode : node ∈ c.allNodes) (hfuel : key.length < fuel) :
    ∃ leaf splits c', insertHelper rt fuel node key key .empty (c.nodes node).contextLength
        (c.nodes node).depth c = .ok (leaf, splits) c' ∧ DepthAt c leaf splits c' := by
  obtain ⟨fuel, levels, last, rest, c₁, hvisit₁, hlast, hstep, -, hrest, hlevel, hrun⟩ :=
    insertHelper_walk rt fuel (c.nodes node).depth hc hnode hfuel
  have hwf := hvisit₁.sameShape.wellFormed hc
  have hlast₁ : last ∈ c₁.allNodes := hvisit₁.allNodes ▸ hlast
  have hvisit := enter_visited rt c₁ last
  -- the count of the levels is the depth of the last node
  have hdepth : (c.nodes node).depth + levels = (c₁.nodes last).depth := by
    rw [hvisit₁.depth, hlevel (fun m => (c.nodes m).depth) hright.edge]
  rw [hrun, hdepth]
  obtain ⟨fuel, rfl⟩ := Nat.exists_eq_succ_of_ne_zero (Nat.ne_of_gt (Nat.zero_lt_of_lt hrest))
  cases hstep with
  | stop =>
    exact ⟨last, .empty, _, insertHelper_nil rt fuel last [] _ _ _,
      (depthAt_visit hvisit hlast₁).of_visited hvisit₁⟩
  | graft hnone =>
    have hnode' : last ≠ c₁.nextId := hwf.ne_nextId hlast₁
    refine ⟨c₁.nextId, .empty, _, insertHelper_graft rt fuel last _ _ _ _ hnone hnode', ?_⟩
    rw [← hvisit.depth last]
    exact ((depthAt_graft rt (hvisit.sameShape.wellFormed hwf) hlast₁ _).of_visited
      hvisit).of_visited hvisit₁
  | @found child a x hedge hkey =>
    obtain ⟨c', hrun', hvisit'⟩ := insertHelper_found (c := c₁) rt fuel last
      (a :: x) .empty (c₁.nodes last).contextLength (c₁.nodes last).depth hedge hkey
    exact ⟨child, .empty, c', hrun', (depthAt_visit hvisit'
      (hwf.spelled.down last hlast₁ a child hedge).1).of_visited hvisit₁⟩
  | split hedge hkey hlen hdiff =>
    obtain ⟨fuel, rfl⟩ : ∃ k, fuel = k + 1 := Nat.exists_eq_succ_of_ne_zero (by
      simp only [List.length_cons] at hrest
      omega)
    obtain ⟨leaf, splits, c', hrun', hat⟩ := depthAt_split rt fuel hwf
      (hright.of_visited hvisit₁) hlast₁ hedge hkey hlen hdiff
    exact ⟨leaf, splits, c', hrun', hat.of_visited hvisit₁⟩

theorem insert_spec_depths (rt : Runtime n) (hc : WellFormed c σ) (hright : StepsRight c)
    (key : List ℕ) :
    ∃ leaf splits c' σ', insert rt key none .empty c = .ok (leaf, splits) c' ∧
      Inserted rt c σ key leaf splits c' σ' ∧ CutAt c σ key splits c' ∧
      DepthAt c leaf splits c' := by
  obtain ⟨leaf, splits, c', σ', hrun, hins, hcut⟩ := insert_spec_cut rt hc key
  obtain ⟨leaf', splits', c'', hrun', hat⟩ := insertHelper_depths rt (key.length + 1) hc hright
    hc.root_mem (Nat.lt_succ_self key.length)
  have hroot : σ rootNode = [] := hc.spelled.root_spell
  rw [hc.context _ hc.root_mem, hroot, List.length_nil, hright.root] at hrun'
  -- both are the one result of the insertion
  obtain ⟨hpair, rfl⟩ := EStateM.Result.ok.inj (hrun.symm.trans hrun')
  obtain ⟨rfl, rfl⟩ := Prod.mk.inj hpair
  exact ⟨leaf, splits, c', σ', hrun, hins, hcut, hat⟩

/-! ## When the depths stay right -/

/-- Where the key cuts an edge, it ends there and nothing lies below. -/
def CutsAboveLeaf (c : LPRadixCache n) (key : List ℕ) : Prop :=
  ∀ m ∈ c.allNodes, (c.nodes m).contextSoFar < c.sharedTokens key m →
    c.sharedTokens key m < (c.nodes m).contextLength →
      key.length = c.sharedTokens key m ∧ (c.nodes m).children.keys = []

section Inserted

variable (hc : WellFormed c σ) (hins : Inserted rt c σ key leaf splits c' σ')
  (hcut : CutAt c σ key splits c')

include hc hins hcut

/-- The condition on the key, in terms of what the insertion does. -/
theorem cutsAboveLeaf_iff :
    CutsAboveLeaf c key ↔ ∀ child new, splits.get? child = some new →
      leaf = new ∧ (c.nodes child).children.keys = [] := by
  have hwf := hins.wellFormed hc
  -- the key ends at the cut exactly when its node is the upper half
  have hends : ∀ child new, splits.get? child = some new →
      (leaf = new ↔ key.length = c.sharedTokens key child) := by
    intro child new hsplit
    obtain ⟨hchild, -, hnew, -, -⟩ := hins.split_mem hsplit
    have hlength := (hcut.cut child new hsplit).2.2
    have hleaf := hwf.context leaf hins.leaf_mem
    rw [hins.leaf_spell] at hleaf
    rw [hc.sharedTokens_eq key hchild, ← hlength, ← hleaf]
    constructor
    · rintro rfl
      rfl
    · exact hwf.eq_of_contextLength_eq hins.leaf_mem
        ((hwf.mem_ancestors hins.leaf_mem).mpr ⟨hins.leaf_mem, List.prefix_refl _⟩)
        (hcut.upper_mem_ancestors_leaf hc hins hsplit)
  constructor
  · intro h child new hsplit
    obtain ⟨hchild, -⟩ := hins.split_mem hsplit
    obtain ⟨habove, hbelow⟩ := hcut.inside hc hins hsplit
    rw [← hc.sharedTokens_eq key hchild] at habove hbelow
    obtain ⟨hlength, hnone⟩ := h child hchild habove hbelow
    exact ⟨(hends child new hsplit).mpr hlength, hnone⟩
  · intro h m hm habove hbelow
    have hshared := hc.sharedTokens_eq key hm
    obtain ⟨new, hsplit⟩ := hcut.split_of_inside hc hins hm (hshared ▸ habove) (hshared ▸ hbelow)
    obtain ⟨hleaf, hnone⟩ := h m new hsplit
    exact ⟨(hends m new hsplit).mp hleaf, hnone⟩

omit hins in
/-- The edge above an old node that was not split is an old edge. -/
theorem CutAt.edge_old (hright : StepsRight c) (hat : DepthAt c leaf splits c') {m p : ℕ}
    (hm : m ∈ c.allNodes) (hparent : (c'.nodes m).parent = some p)
    (hnone : splits.get? m = none) :
    p ∈ c.allNodes ∧ (c.nodes p).children.keys ≠ [] ∧
      (c'.nodes m).depth = (c.nodes p).depth + 1 := by
  rw [hcut.parent m hm hnone] at hparent
  obtain ⟨hp, a, hedge⟩ := hc.edge_iff.mpr ⟨hm, hparent⟩
  refine ⟨hp, List.ne_nil_of_mem (OrderedDict.mem_keys_iff.mpr ⟨m, hedge⟩), ?_⟩
  rw [hat.old m hm, if_pos hnone, hright.edge p hp a m hedge]

omit hcut in
/-- The node above a node that was split was not split. -/
theorem Inserted.get?_splits_parent {child new p : ℕ} (hsplit : splits.get? child = some new)
    (hparent : (c.nodes child).parent = some p) : splits.get? p = none := by
  obtain ⟨hchild, -⟩ := hins.split_mem hsplit
  obtain ⟨hp, a, hedge⟩ := hc.edge_iff.mpr ⟨hchild, hparent⟩
  refine Option.eq_none_iff_forall_ne_some.mpr (fun other hother => ?_)
  obtain ⟨rfl, -⟩ := hins.split_unique hsplit hother
  exact absurd (hc.spelled.length_lt hp hedge) (lt_irrefl _)

/-- If the depths are right after a cut, the key ends there and nothing lies below. -/
theorem CutAt.of_stepsRight (hright : StepsRight c) (hat : DepthAt c leaf splits c')
    (h : StepsRight c') {child new : ℕ} (hsplit : splits.get? child = some new) :
    leaf = new ∧ (c.nodes child).children.keys = [] := by
  have hwf := hins.wellFormed hc
  obtain ⟨hchild, -⟩ := hins.split_mem hsplit
  refine ⟨?_, ?_⟩
  · -- a leaf below the upper half is one too deep
    by_contra hne
    obtain ⟨hparent, hdepth⟩ := hat.hung child new hsplit hne
    obtain ⟨hp, a, hedge⟩ := hwf.edge_iff.mpr ⟨hins.leaf_mem, hparent⟩
    have hright' := h.edge new hp a leaf hedge
    omega
  · -- what is below the lower half did not move down with it
    refine List.eq_nil_iff_forall_not_mem.mpr (fun a ha => ?_)
    obtain ⟨m, hedge⟩ := OrderedDict.get?_of_mem_keys ha
    obtain ⟨hm, hparent⟩ := hc.edge_iff.mp ⟨hchild, a, hedge⟩
    have hnone : splits.get? m = none := by
      refine Option.eq_none_iff_forall_ne_some.mpr (fun other hother => ?_)
      obtain ⟨rfl, -⟩ := hins.split_unique hsplit hother
      exact absurd (hc.spelled.length_lt hchild hedge) (lt_irrefl _)
    have hparent' := (hcut.parent m hm hnone).trans hparent
    obtain ⟨hchild', b, hedge'⟩ := hwf.edge_iff.mpr ⟨(hins.spell hc hm).1, hparent'⟩
    have hright' := h.edge child hchild' b m hedge'
    have hdepth := (hcut.edge_old hc hright hat hm hparent' hnone).2.2
    rw [hat.old child hchild, hsplit, if_neg (Option.some_ne_none new)] at hright'
    omega

/-- The depths stay right if the key ends where it cuts, and nothing lies below. -/
theorem StepsRight.of_cut (hright : StepsRight c) (hat : DepthAt c leaf splits c')
    (h : ∀ child new, splits.get? child = some new →
      leaf = new ∧ (c.nodes child).children.keys = []) : StepsRight c' := by
  have hwf := hins.wellFormed hc
  refine ⟨?_, fun p hp a m hedge => ?_⟩
  · have hnone : splits.get? rootNode = none := Option.eq_none_iff_forall_ne_some.mpr
      (fun new hsplit => (hins.split_mem hsplit).2.1 rfl)
    rw [hat.old rootNode hc.root_mem, if_pos hnone, hright.root]
  obtain ⟨hm, hparent⟩ := hwf.edge_iff.mp ⟨hp, a, hedge⟩
  -- the upper half stands where the split node stood
  have hupper : ∀ child, splits.get? child = some m →
      (c'.nodes m).depth = (c'.nodes p).depth + 1 := by
    intro child hsplit
    obtain ⟨hchild, -⟩ := hins.split_mem hsplit
    rw [(hcut.cut child m hsplit).2.1] at hparent
    obtain ⟨hp, b, hedge⟩ := hc.edge_iff.mpr ⟨hchild, hparent⟩
    rw [hat.upper child m hsplit, hat.old p hp,
      if_pos (hins.get?_splits_parent hc hsplit hparent), hright.edge p hp b child hedge]
  by_cases hold : m ∈ c.allNodes
  · cases hsplit : splits.get? m with
    | none =>
      obtain ⟨hp, hchildren, hdepth⟩ := hcut.edge_old hc hright hat hold hparent hsplit
      -- the node above was not split, as it has a child
      have hnone : splits.get? p = none :=
        Option.eq_none_iff_forall_ne_some.mpr (fun new hnew => hchildren (h p new hnew).2)
      rw [hdepth, hat.old p hp, if_pos hnone]
    | some new =>
      obtain rfl : new = p :=
        Option.some.inj ((hcut.cut m new hsplit).1.symm.trans hparent)
      rw [hat.old m hold, hsplit, if_neg (Option.some_ne_none new), hat.upper m new hsplit]
  · rcases hins.nodes m hm with hmem | rfl | hvalue
    · exact absurd hmem hold
    · rcases hins.splits with hempty | ⟨child, new, hsingle, -⟩
      · exact hat.grafted hold hempty p hparent
      · have hsplit : splits.get? child = some new := hsingle ▸ OrderedDict.get?_single_self ..
        obtain ⟨rfl, -⟩ := h child new hsplit
        exact hupper child hsplit
    · obtain ⟨child, hsplit⟩ := OrderedDict.mem_values_iff.mp hvalue
      exact hupper child hsplit

/-- The insertion keeps the depths right exactly when no edge is cut, or one is where the key
ends and nothing lies below. -/
theorem stepsRight_insert_iff (hright : StepsRight c) (hat : DepthAt c leaf splits c') :
    StepsRight c' ↔ CutsAboveLeaf c key := by
  rw [cutsAboveLeaf_iff hc hins hcut]
  constructor
  · intro h child new hsplit
    exact hcut.of_stepsRight hc hins hright hat h hsplit
  · intro h
    exact hright.of_cut hc hins hcut hat h

end Inserted

/-! ## Sequences of insertions -/

theorem insertAll_append (rt : Runtime n) (keys more : List (List ℕ)) :
    insertAll rt (keys ++ more) = (do insertAll rt keys; insertAll rt more) := by
  induction keys with
  | nil => rfl
  | cons key keys ih =>
    rw [List.cons_append, insertAll, insertAll, ih, bind_assoc]

/-- The cache after a sequence of insertions. -/
def afterInsertions (rt : Runtime n) (keys : List (List ℕ)) : LPRadixCache n :=
  Py.finalState (insertAll rt keys (init rt))

/-- The next insertion, and when it keeps the depths right. -/
theorem afterInsertions_concat (rt : Runtime n) (before : List (List ℕ)) (key : List ℕ)
    (hright : StepsRight (afterInsertions rt before)) :
    StepsRight (afterInsertions rt (before ++ [key])) ↔
      CutsAboveLeaf (afterInsertions rt before) key := by
  obtain ⟨c, σ, hrun, hholds, -⟩ := insertAll_holds rt (init_holds rt) before
  have hc : afterInsertions rt before = c := by rw [afterInsertions, hrun, Py.finalState]
  rw [hc] at hright ⊢
  obtain ⟨leaf, splits, c', σ', hrun', hins, hcut, hat⟩ :=
    insert_spec_depths rt hholds.wellFormed hright key
  have hc' : afterInsertions rt (before ++ [key]) = c' := by
    rw [afterInsertions, insertAll_append, Py.bind_ok hrun, insertAll, Py.bind_ok hrun']
    rfl
  rw [hc']
  exact stepsRight_insert_iff hholds.wellFormed hins hcut hright hat

theorem afterInsertions_nil (rt : Runtime n) : StepsRight (afterInsertions rt []) where
  root := rfl
  edge p hp a m hpm := by
    have hc := init_wellFormed rt
    have hm := (hc.spelled.down p hp a m hpm).1
    -- the only node is the root
    rw [Finset.mem_singleton.mp hm] at hpm
    exact absurd rfl (hc.spelled.ne_root hp hpm)

theorem depthsRight_afterInsertions_iff (rt : Runtime n) (keys : List (List ℕ)) :
    DepthsRight (afterInsertions rt keys) ↔ StepsRight (afterInsertions rt keys) := by
  obtain ⟨c, σ, hrun, hholds, -⟩ := insertAll_holds rt (init_holds rt) keys
  have hc : afterInsertions rt keys = c := by rw [afterInsertions, hrun, Py.finalState]
  rw [hc]
  exact depthsRight_iff hholds.wellFormed

/-- In all states of a sequence of insertions the depth of every node is its distance from the
root, and the differences of depths are the lengths of chains, exactly when every key that
cuts an edge ends at the cut and nothing lies below the node it cuts. -/
theorem depths_exact_iff (rt : Runtime n) (keys : List (List ℕ)) :
    (∀ before, before <+: keys → DepthsRight (afterInsertions rt before)) ↔
      ∀ before key, before ++ [key] <+: keys → CutsAboveLeaf (afterInsertions rt before) key := by
  simp only [depthsRight_afterInsertions_iff]
  constructor
  · intro h before key hkeys
    have hbefore := h before ((List.prefix_append _ _).trans hkeys)
    exact (afterInsertions_concat rt before key hbefore).mp (h _ hkeys)
  · intro h before
    induction before using List.reverseRecOn with
    | nil => exact fun _ => afterInsertions_nil rt
    | append_singleton before key ih =>
      intro hkeys
      exact (afterInsertions_concat rt before key
        (ih ((List.prefix_append _ _).trans hkeys))).mpr (h before key hkeys)

/-- A sequence that shares its first token with one in the tree: its leaf gets depth 3, and two
edges lead to it. -/
theorem sharedToken_depth :
    ¬ ∀ before, before <+: [[1, 2], [1, 3]] →
      DepthsRight (afterInsertions (.ascending 1 fun _ => 0) before) := by
  intro h
  have hright := (h _ (List.prefix_refl _)).distance 3 (by decide +kernel)
  revert hright
  decide +kernel

end DualMap.Preble.LPRadixCache
