import DualMap.Preble.LPRadixCache

/-!
# How the Radix Cache Grows

What one insertion does to the tree: on its way down it visits nodes, it splits at most one
edge, and it grafts at most one node. `Grows` lists these three changes, once and for all;
what an insertion keeps is proved for each of them. `insert_spec` says that an insertion
never fails, is a sequence of such changes, and returns the node whose string is the key.
-/

namespace DualMap.Preble.LPRadixCache

variable {n : ℕ}

/-! ## Well-formed caches -/

/-- The objects form a radix tree in which `σ m` is the token string of the node `m`. -/
structure WellFormed (c : LPRadixCache n) (σ : ℕ → List ℕ) : Prop where
  spelled : c.tree.Spelled σ
  fresh : ∀ m ∈ c.allNodes, m < c.nextId
  value_eq : ∀ m ∈ c.allNodes, (c.nodes m).value = (c.nodes m).key
  context : ∀ m ∈ c.allNodes, (c.nodes m).contextLength = (σ m).length

theorem init_wellFormed (rt : Runtime n) : WellFormed (init rt) (fun _ => []) where
  spelled := RadixTree.spelled_leaf rootNode
  fresh := by
    intro m hm
    rw [Finset.mem_singleton.mp hm]
    exact Nat.one_pos
  value_eq := fun _ _ => rfl
  context := fun _ _ => rfl

theorem WellFormed.nextId_notMem {c : LPRadixCache n} {σ : ℕ → List ℕ} (hc : WellFormed c σ) :
    c.nextId ∉ c.allNodes := fun hmem => lt_irrefl _ (hc.fresh _ hmem)

theorem WellFormed.ne_nextId {c : LPRadixCache n} {σ : ℕ → List ℕ} (hc : WellFormed c σ)
    {m : ℕ} (hm : m ∈ c.allNodes) : m ≠ c.nextId := (hc.fresh m hm).ne

/-- The number of a new node is below the next one, as those of the old nodes are. -/
theorem WellFormed.fresh_insert {c : LPRadixCache n} {σ : ℕ → List ℕ} (hc : WellFormed c σ)
    {m : ℕ} (hm : m ∈ Insert.insert c.nextId c.allNodes) : m < c.nextId + 1 := by
  rcases Finset.mem_insert.mp hm with rfl | hm
  · exact Nat.lt_succ_self _
  · exact Nat.lt_succ_of_lt (hc.fresh m hm)

/-- A new node changes no string of an old one. -/
theorem WellFormed.update_spell {c : LPRadixCache n} {σ : ℕ → List ℕ} (hc : WellFormed c σ)
    {m : ℕ} (hm : m ∈ c.allNodes) (path : List ℕ) :
    Function.update σ c.nextId path m = σ m := Function.update_of_ne (hc.ne_nextId hm) ..

theorem WellFormed.root_mem {c : LPRadixCache n} {σ : ℕ → List ℕ} (hc : WellFormed c σ) :
    rootNode ∈ c.allNodes := hc.spelled.root_mem

/-- The edges are where the parents say. -/
theorem WellFormed.edge_iff {c : LPRadixCache n} {σ : ℕ → List ℕ} (hc : WellFormed c σ)
    {p m : ℕ} :
    (p ∈ c.allNodes ∧ ∃ a, c.tree.Edge p a m) ↔
      m ∈ c.allNodes ∧ (c.nodes m).parent = some p := by
  constructor
  · rintro ⟨hp, a, hpm⟩
    obtain ⟨hm, hparent, -⟩ := hc.spelled.down p hp a m hpm
    exact ⟨hm, hparent⟩
  · rintro ⟨hm, hparent⟩
    have hroot : m ≠ rootNode := by
      rintro rfl
      have hnone : (c.nodes rootNode).parent = none := hc.spelled.root_parent
      rw [hnone] at hparent
      cases hparent
    obtain ⟨q, hq, a, -, hparent', -, hedge, -⟩ := hc.spelled.up m hm hroot
    obtain rfl : q = p := Option.some.inj (hparent'.symm.trans hparent)
    exact ⟨hq, a, hedge⟩

/-- The walk of `_collect_nodes` meets every node once. -/
theorem WellFormed.collectNodes_spec {c : LPRadixCache n} {σ : ℕ → List ℕ}
    (hc : WellFormed c σ) : c.collectNodes.Nodup ∧ c.collectNodes.toFinset = c.allNodes := by
  obtain ⟨hnodup, hmem⟩ := hc.spelled.preorder_root
  refine ⟨hnodup, ?_⟩
  ext m
  rw [List.mem_toFinset]
  exact hmem m

/-! ## Changes that leave the tree as it is -/

/-- The objects are the same, and so are the fields of each that make the tree. -/
structure SameShape (c c' : LPRadixCache n) : Prop where
  nextId : c'.nextId = c.nextId
  allNodes : c'.allNodes = c.allNodes
  nodes : ∀ m, (c'.nodes m).parent = (c.nodes m).parent ∧ (c'.nodes m).key = (c.nodes m).key ∧
    (c'.nodes m).children = (c.nodes m).children ∧ (c'.nodes m).value = (c.nodes m).value ∧
    (c'.nodes m).contextLength = (c.nodes m).contextLength

theorem SameShape.refl (c : LPRadixCache n) : SameShape c c :=
  ⟨rfl, rfl, fun _ => ⟨rfl, rfl, rfl, rfl, rfl⟩⟩

theorem SameShape.trans {c c' c'' : LPRadixCache n} (h : SameShape c c')
    (h' : SameShape c' c'') : SameShape c c'' where
  nextId := h'.nextId.trans h.nextId
  allNodes := h'.allNodes.trans h.allNodes
  nodes := by
    intro m
    obtain ⟨h₁, h₂, h₃, h₄, h₅⟩ := h.nodes m
    obtain ⟨h₁', h₂', h₃', h₄', h₅'⟩ := h'.nodes m
    exact ⟨h₁'.trans h₁, h₂'.trans h₂, h₃'.trans h₃, h₄'.trans h₄, h₅'.trans h₅⟩

section SameShape

variable {c c' : LPRadixCache n} (h : SameShape c c')

include h

theorem SameShape.value (m : ℕ) : (c'.nodes m).value = (c.nodes m).value :=
  (h.nodes m).2.2.2.1

theorem SameShape.contextLength (m : ℕ) :
    (c'.nodes m).contextLength = (c.nodes m).contextLength :=
  (h.nodes m).2.2.2.2

theorem SameShape.tree : c'.tree = c.tree := by
  have hparent : ∀ m, (c'.nodes m).parent = (c.nodes m).parent := fun m => (h.nodes m).1
  have hkey : ∀ m, (c'.nodes m).key = (c.nodes m).key := fun m => (h.nodes m).2.1
  have hchildren : ∀ m, (c'.nodes m).children = (c.nodes m).children :=
    fun m => (h.nodes m).2.2.1
  simp only [LPRadixCache.tree, h.allNodes, hparent, hkey, hchildren]

theorem SameShape.wellFormed {σ : ℕ → List ℕ} (hc : WellFormed c σ) : WellFormed c' σ where
  spelled := h.tree ▸ hc.spelled
  fresh := by
    intro m hm
    rw [h.nextId]
    exact hc.fresh m (h.allNodes ▸ hm)
  value_eq := by
    intro m hm
    rw [h.value, (h.nodes m).2.1]
    exact hc.value_eq m (h.allNodes ▸ hm)
  context := by
    intro m hm
    rw [h.contextLength]
    exact hc.context m (h.allNodes ▸ hm)

end SameShape

/-- Nodes were visited: nothing but access times, loads and the clock has changed. -/
structure Visited (c c' : LPRadixCache n) : Prop where
  nextId : c'.nextId = c.nextId
  allNodes : c'.allNodes = c.allNodes
  allocated : c'.allocatedSizeForGpusList = c.allocatedSizeForGpusList
  nodes : ∀ m, ∃ time load,
    c'.nodes m = { c.nodes m with lastAccessTime := time, load := load }

theorem Visited.refl (c : LPRadixCache n) : Visited c c :=
  ⟨rfl, rfl, rfl, fun m => ⟨(c.nodes m).lastAccessTime, (c.nodes m).load, rfl⟩⟩

theorem Visited.trans {c c' c'' : LPRadixCache n} (h : Visited c c') (h' : Visited c' c'') :
    Visited c c'' where
  nextId := h'.nextId.trans h.nextId
  allNodes := h'.allNodes.trans h.allNodes
  allocated := h'.allocated.trans h.allocated
  nodes := by
    intro m
    obtain ⟨time, load, hm⟩ := h.nodes m
    obtain ⟨time', load', hm'⟩ := h'.nodes m
    exact ⟨time', load', by rw [hm', hm]⟩

section Visited

variable {c c' : LPRadixCache n} (h : Visited c c')

include h

theorem Visited.sameShape : SameShape c c' where
  nextId := h.nextId
  allNodes := h.allNodes
  nodes := by
    intro m
    obtain ⟨time, load, hm⟩ := h.nodes m
    rw [hm]
    exact ⟨rfl, rfl, rfl, rfl, rfl⟩

theorem Visited.numUncompleted (m : ℕ) : (c'.nodes m).numUncompletedRequestForGpuMap =
    (c.nodes m).numUncompletedRequestForGpuMap := by
  obtain ⟨time, load, hm⟩ := h.nodes m
  rw [hm]

theorem Visited.hasCachedGpu (m : ℕ) (gpu : Fin n) :
    (c'.nodes m).hasCachedGpu gpu ↔ (c.nodes m).hasCachedGpu gpu := by
  obtain ⟨time, load, hm⟩ := h.nodes m
  rw [hm]
  rfl

end Visited

/-- A node is changed in its access time and load only. -/
theorem visited_update (c : LPRadixCache n) (m ticks load : ℕ) (time : ℚ) :
    Visited c { c with
      nodes := Function.update c.nodes m
        { c.nodes m with lastAccessTime := time, load := load }
      ticks := ticks } where
  nextId := rfl
  allNodes := rfl
  allocated := rfl
  nodes := by
    intro x
    by_cases hx : x = m
    · subst hx
      exact ⟨time, load, Function.update_self ..⟩
    · exact ⟨(c.nodes x).lastAccessTime, (c.nodes x).load, Function.update_of_ne hx ..⟩

/-! ## Splits and grafts -/

/-- The cache after `_split_node` has put a new node between `parent` and `child`, when the
key of `child` is cut after `splitLen` tokens, between `above` and `below`. -/
def afterSplit (rt : Runtime n) (c : LPRadixCache n) (parent child splitLen above below : ℕ) :
    LPRadixCache n :=
  let x := c.nodes child
  { c with
    nodes := Function.update (Function.update (Function.update c.nodes c.nextId
      { children := .single below child
        parent := some parent
        value := x.value.take splitLen
        key := x.key.take splitLen
        numUncompletedRequestForGpuMap := x.numUncompletedRequestForGpuMap
        load := x.load
        lastAccessTime := rt.time c.ticks
        evictedGpus := x.evictedGpus
        cachedGpus := x.cachedGpus
        contextLength := (c.nodes parent).contextLength + splitLen
        depth := x.depth })
      child { x with
        parent := some c.nextId
        key := x.key.drop splitLen
        value := x.value.drop splitLen
        depth := x.depth + 1 })
      parent { c.nodes parent with children := (c.nodes parent).children.set above c.nextId }
    nextId := c.nextId + 1
    ticks := c.ticks + 1
    allNodes := Insert.insert c.nextId c.allNodes }

/-- The cache after a new node was hung below `parent`. -/
def afterGraft (rt : Runtime n) (c : LPRadixCache n) (parent token : ℕ) (key value : List ℕ)
    (contextLength depth : ℕ) : LPRadixCache n :=
  { c with
    nodes := Function.update (Function.update c.nodes c.nextId
      { parent := some parent
        value := value
        key := key
        load := 1
        lastAccessTime := rt.time c.ticks
        contextLength := contextLength
        depth := depth })
      parent { c.nodes parent with children := (c.nodes parent).children.set token c.nextId }
    nextId := c.nextId + 1
    ticks := c.ticks + 1
    allNodes := Insert.insert c.nextId c.allNodes }

theorem splitNode_eq (rt : Runtime n) {c : LPRadixCache n} {key : List ℕ}
    {parent child splitLen above below : ℕ} (hparent : (c.nodes child).parent = some parent)
    (hne : parent ≠ child) (hchild : child ≠ c.nextId) (hparent' : parent ≠ c.nextId)
    (habove : (key.take splitLen).head? = some above)
    (hbelow : (key.drop splitLen).head? = some below) :
    splitNode rt key child splitLen c =
      .ok c.nextId (afterSplit rt c parent child splitLen above below) := by
  simp only [splitNode, newTreeNode, readTime, modifyNode, Py.bind_apply, Py.modifyGet_apply,
    Py.get_apply, Py.modify_apply, habove, hbelow, Py.ofOption_some, Py.pure_apply,
    Function.update_of_ne hchild, Function.update_of_ne hparent', hparent]
  simp only [afterSplit, Function.update_self, Function.update_idem,
    Function.update_of_ne hne, Function.update_of_ne hparent']

/-! ## The changes of an insertion -/

/-- One change that an insertion makes, with the strings of the nodes before and after. -/
inductive Grows (rt : Runtime n) :
    LPRadixCache n × (ℕ → List ℕ) → LPRadixCache n × (ℕ → List ℕ) → Prop
  | visit {c c' : LPRadixCache n} {σ : ℕ → List ℕ} (h : Visited c c') : Grows rt (c, σ) (c', σ)
  | split {c : LPRadixCache n} {σ : ℕ → List ℕ} {p child a b : ℕ} {x y : List ℕ}
      (hp : p ∈ c.allNodes) (hedge : c.tree.Edge p a child)
      (hkey : (c.nodes child).key = (a :: x) ++ b :: y) :
      Grows rt (c, σ) (afterSplit rt c p child (x.length + 1) a b,
        Function.update σ c.nextId (σ p ++ a :: x))
  | graft {c : LPRadixCache n} {σ : ℕ → List ℕ} {p a depth : ℕ} {x : List ℕ}
      (hp : p ∈ c.allNodes) (hnone : (c.nodes p).children.get? a = none) :
      Grows rt (c, σ) (afterGraft rt c p a (a :: x) (a :: x)
          ((c.nodes p).contextLength + (x.length + 1)) depth,
        Function.update σ c.nextId (σ p ++ a :: x))

section Grows

variable {rt : Runtime n} {c : LPRadixCache n} {σ : ℕ → List ℕ}

/-- What a split needs to know about the three nodes it touches. -/
theorem WellFormed.split_nodes (hc : WellFormed c σ) {p child a : ℕ} (hp : p ∈ c.allNodes)
    (hedge : c.tree.Edge p a child) :
    child ∈ c.allNodes ∧ child ≠ rootNode ∧ p ≠ child ∧ p ≠ c.nextId ∧ child ≠ c.nextId := by
  have hchild := (hc.spelled.down p hp a child hedge).1
  have hne : p ≠ child := by
    rintro rfl
    exact absurd (hc.spelled.length_lt hp hedge) (lt_irrefl _)
  exact ⟨hchild, hc.spelled.ne_root hp hedge, hne, hc.ne_nextId hp, hc.ne_nextId hchild⟩

theorem afterSplit_parent (rt : Runtime n) (c : LPRadixCache n)
    (p child splitLen above below : ℕ) :
    (afterSplit rt c p child splitLen above below).nodes p =
      { c.nodes p with children := (c.nodes p).children.set above c.nextId } :=
  Function.update_self ..

theorem afterSplit_child (rt : Runtime n) {c : LPRadixCache n} {p child : ℕ} (hne : child ≠ p)
    (splitLen above below : ℕ) :
    (afterSplit rt c p child splitLen above below).nodes child =
      { c.nodes child with
        parent := some c.nextId
        key := (c.nodes child).key.drop splitLen
        value := (c.nodes child).value.drop splitLen
        depth := (c.nodes child).depth + 1 } := by
  simp [afterSplit, hne]

theorem afterSplit_new (rt : Runtime n) {c : LPRadixCache n} {p child : ℕ}
    (hchild : c.nextId ≠ child) (hp : c.nextId ≠ p) (splitLen above below : ℕ) :
    (afterSplit rt c p child splitLen above below).nodes c.nextId =
      { children := .single below child
        parent := some p
        value := (c.nodes child).value.take splitLen
        key := (c.nodes child).key.take splitLen
        numUncompletedRequestForGpuMap := (c.nodes child).numUncompletedRequestForGpuMap
        load := (c.nodes child).load
        lastAccessTime := rt.time c.ticks
        evictedGpus := (c.nodes child).evictedGpus
        cachedGpus := (c.nodes child).cachedGpus
        contextLength := (c.nodes p).contextLength + splitLen
        depth := (c.nodes child).depth } := by
  simp [afterSplit, hchild, hp]

/-- A node is one of the three that a split touches, or as it was. -/
theorem afterSplit_cases (rt : Runtime n) (c : LPRadixCache n)
    (p child splitLen above below m : ℕ) :
    m = p ∨ m = child ∨ m = c.nextId ∨ (m ≠ p ∧ m ≠ child ∧ m ≠ c.nextId ∧
      (afterSplit rt c p child splitLen above below).nodes m = c.nodes m) := by
  by_cases hp : m = p
  · exact Or.inl hp
  by_cases hchild : m = child
  · exact Or.inr (Or.inl hchild)
  by_cases hnew : m = c.nextId
  · exact Or.inr (Or.inr (Or.inl hnew))
  · exact Or.inr (Or.inr (Or.inr ⟨hp, hchild, hnew, by simp [afterSplit, hchild, hp, hnew]⟩))

theorem afterGraft_parent (rt : Runtime n) (c : LPRadixCache n) (p token : ℕ)
    (key value : List ℕ) (contextLength depth : ℕ) :
    (afterGraft rt c p token key value contextLength depth).nodes p =
      { c.nodes p with children := (c.nodes p).children.set token c.nextId } :=
  Function.update_self ..

theorem afterGraft_new (rt : Runtime n) {c : LPRadixCache n} {p : ℕ} (hp : c.nextId ≠ p)
    (token : ℕ) (key value : List ℕ) (contextLength depth : ℕ) :
    (afterGraft rt c p token key value contextLength depth).nodes c.nextId =
      { parent := some p
        value := value
        key := key
        load := 1
        lastAccessTime := rt.time c.ticks
        contextLength := contextLength
        depth := depth } := by
  simp [afterGraft, hp]

theorem afterGraft_cases (rt : Runtime n) (c : LPRadixCache n) (p token : ℕ)
    (key value : List ℕ) (contextLength depth m : ℕ) :
    m = p ∨ m = c.nextId ∨ (m ≠ p ∧ m ≠ c.nextId ∧
      (afterGraft rt c p token key value contextLength depth).nodes m = c.nodes m) := by
  by_cases hp : m = p
  · exact Or.inl hp
  by_cases hnew : m = c.nextId
  · exact Or.inr (Or.inl hnew)
  · exact Or.inr (Or.inr ⟨hp, hnew, by simp [afterGraft, hp, hnew]⟩)

theorem afterSplit_tree (hc : WellFormed c σ) {p child a b : ℕ} {x y : List ℕ}
    (hp : p ∈ c.allNodes) (hedge : c.tree.Edge p a child)
    (hkey : (c.nodes child).key = (a :: x) ++ b :: y) :
    (afterSplit rt c p child (x.length + 1) a b).tree =
      c.tree.split p child c.nextId a x b y := by
  obtain ⟨-, -, hpc, hpn, hcn⟩ := hc.split_nodes hp hedge
  have htake : (c.nodes child).key.take (x.length + 1) = a :: x := by
    rw [hkey]; simp
  have hdrop : (c.nodes child).key.drop (x.length + 1) = b :: y := by
    rw [hkey]; simp
  have hparent := afterSplit_parent rt c p child (x.length + 1) a b
  have hchild := afterSplit_child rt hpc.symm (c := c) (x.length + 1) a b
  have hnew := afterSplit_new rt hcn.symm hpn.symm (x.length + 1) a b
  have hcases := afterSplit_cases rt c p child (x.length + 1) a b
  -- the split touches three nodes: the one above, the lower half and the new upper half
  refine RadixTree.ext rfl rfl (funext fun m => ?_) (funext fun m => ?_) (funext fun m => ?_)
  · rcases hcases m with rfl | rfl | rfl | ⟨h₁, h₂, h₃, hm⟩
    · simp [LPRadixCache.tree, RadixTree.split, hparent, hpc, hpn]
    · simp [LPRadixCache.tree, RadixTree.split, hchild]
    · simp [LPRadixCache.tree, RadixTree.split, hnew, hcn.symm]
    · simp [LPRadixCache.tree, RadixTree.split, hm, h₂, h₃]
  · rcases hcases m with rfl | rfl | rfl | ⟨h₁, h₂, h₃, hm⟩
    · simp [LPRadixCache.tree, RadixTree.split, hparent, hpc, hpn]
    · simp [LPRadixCache.tree, RadixTree.split, hchild, hdrop]
    · simp [LPRadixCache.tree, RadixTree.split, hnew, hcn.symm, htake]
    · simp [LPRadixCache.tree, RadixTree.split, hm, h₂, h₃]
  · rcases hcases m with rfl | rfl | rfl | ⟨h₁, h₂, h₃, hm⟩
    · simp [LPRadixCache.tree, RadixTree.split, hparent]
    · simp [LPRadixCache.tree, RadixTree.split, hchild, hpc.symm, hcn]
    · simp [LPRadixCache.tree, RadixTree.split, hnew, hpn.symm]
    · simp [LPRadixCache.tree, RadixTree.split, hm, h₁, h₃]

theorem afterGraft_tree (hc : WellFormed c σ) {p a contextLength depth : ℕ} {x value : List ℕ}
    (hp : p ∈ c.allNodes) :
    (afterGraft rt c p a (a :: x) value contextLength depth).tree =
      c.tree.graft p c.nextId a x := by
  have hpn : p ≠ c.nextId := hc.ne_nextId hp
  have hparent := afterGraft_parent rt c p a (a :: x) value contextLength depth
  have hnew := afterGraft_new rt hpn.symm a (a :: x) value contextLength depth
  have hcases := afterGraft_cases rt c p a (a :: x) value contextLength depth
  -- the new leaf and its parent are the only nodes the insertion writes
  refine RadixTree.ext rfl rfl (funext fun m => ?_) (funext fun m => ?_) (funext fun m => ?_)
  · rcases hcases m with rfl | rfl | ⟨h₁, h₂, hm⟩
    · simp [LPRadixCache.tree, RadixTree.graft, hparent, hpn]
    · simp [LPRadixCache.tree, RadixTree.graft, hnew]
    · simp [LPRadixCache.tree, RadixTree.graft, hm, h₂]
  · rcases hcases m with rfl | rfl | ⟨h₁, h₂, hm⟩
    · simp [LPRadixCache.tree, RadixTree.graft, hparent, hpn]
    · simp [LPRadixCache.tree, RadixTree.graft, hnew]
    · simp [LPRadixCache.tree, RadixTree.graft, hm, h₂]
  · rcases hcases m with rfl | rfl | ⟨h₁, h₂, hm⟩
    · simp [LPRadixCache.tree, RadixTree.graft, hparent]
    · simp [LPRadixCache.tree, RadixTree.graft, hnew, hpn.symm]
    · simp [LPRadixCache.tree, RadixTree.graft, hm, h₁, h₂]

theorem afterSplit_wellFormed (hc : WellFormed c σ) {p child a b : ℕ} {x y : List ℕ}
    (hp : p ∈ c.allNodes) (hedge : c.tree.Edge p a child)
    (hkey : (c.nodes child).key = (a :: x) ++ b :: y) :
    WellFormed (afterSplit rt c p child (x.length + 1) a b)
      (Function.update σ c.nextId (σ p ++ a :: x)) := by
  obtain ⟨hchild, -, hpc, hpn, hcn⟩ := hc.split_nodes hp hedge
  -- `_split_node` cuts key and value at one place, and leaves the node above as it is
  refine { spelled := ?_, fresh := ?_, value_eq := ?_, context := ?_ }
  · rw [afterSplit_tree hc hp hedge hkey]
    exact hc.spelled.split hp hedge hkey hc.nextId_notMem
  · intro m hm
    exact hc.fresh_insert hm
  · intro m hm
    rcases afterSplit_cases rt c p child (x.length + 1) a b m with
      rfl | rfl | rfl | ⟨-, -, hne, hsame⟩
    · rw [afterSplit_parent]
      exact hc.value_eq m hp
    · simp only [afterSplit_child rt hpc.symm, hc.value_eq m hchild]
    · simp only [afterSplit_new rt hcn.symm hpn.symm, hc.value_eq child hchild]
    · rw [hsame]
      exact hc.value_eq m ((Finset.mem_insert.mp hm).resolve_left hne)
  · intro m hm
    rcases afterSplit_cases rt c p child (x.length + 1) a b m with
      rfl | rfl | rfl | ⟨-, -, hne, hsame⟩
    · rw [afterSplit_parent, hc.update_spell hp]
      exact hc.context m hp
    · rw [afterSplit_child rt hpc.symm, hc.update_spell hchild]
      exact hc.context m hchild
    -- the upper half spells up to the cut, which is the context length `_split_node` stores
    · rw [afterSplit_new rt hcn.symm hpn.symm, Function.update_self, List.length_append]
      simp only [hc.context p hp, List.length_cons]
    · have hm := (Finset.mem_insert.mp hm).resolve_left hne
      rw [hsame, hc.update_spell hm]
      exact hc.context m hm

theorem afterGraft_wellFormed (hc : WellFormed c σ) {p a depth : ℕ} {x : List ℕ}
    (hp : p ∈ c.allNodes) (hnone : (c.nodes p).children.get? a = none) :
    WellFormed (afterGraft rt c p a (a :: x) (a :: x)
        ((c.nodes p).contextLength + (x.length + 1)) depth)
      (Function.update σ c.nextId (σ p ++ a :: x)) := by
  have hpn : p ≠ c.nextId := hc.ne_nextId hp
  -- nothing was spelled below `p` through `a`, so the new leaf's path is free
  refine { spelled := ?_, fresh := ?_, value_eq := ?_, context := ?_ }
  · rw [afterGraft_tree hc hp]
    exact hc.spelled.graft x hp hnone hc.nextId_notMem
  · intro m hm
    exact hc.fresh_insert hm
  · intro m hm
    rcases afterGraft_cases rt c p a (a :: x) (a :: x)
      ((c.nodes p).contextLength + (x.length + 1)) depth m with rfl | rfl | ⟨-, hne, hsame⟩
    · rw [afterGraft_parent]
      exact hc.value_eq m hp
    · rw [afterGraft_new rt hpn.symm]
    · rw [hsame]
      exact hc.value_eq m ((Finset.mem_insert.mp hm).resolve_left hne)
  · intro m hm
    rcases afterGraft_cases rt c p a (a :: x) (a :: x)
      ((c.nodes p).contextLength + (x.length + 1)) depth m with rfl | rfl | ⟨-, hne, hsame⟩
    · rw [afterGraft_parent, hc.update_spell hp]
      exact hc.context m hp
    · rw [afterGraft_new rt hpn.symm, Function.update_self, List.length_append]
      simp only [hc.context p hp, List.length_cons]
    · have hm := (Finset.mem_insert.mp hm).resolve_left hne
      rw [hsame, hc.update_spell hm]
      exact hc.context m hm

/-- A change keeps the cache well formed, its nodes and their strings. -/
theorem Grows.wellFormed {s s' : LPRadixCache n × (ℕ → List ℕ)} (h : Grows rt s s')
    (hs : WellFormed s.1 s.2) : WellFormed s'.1 s'.2 := by
  cases h with
  | visit h => exact h.sameShape.wellFormed hs
  | split hp hedge hkey => exact afterSplit_wellFormed hs hp hedge hkey
  | graft hp hnone => exact afterGraft_wellFormed hs hp hnone

theorem Grows.spell {s s' : LPRadixCache n × (ℕ → List ℕ)} (h : Grows rt s s')
    (hs : WellFormed s.1 s.2) {m : ℕ} (hm : m ∈ s.1.allNodes) :
    m ∈ s'.1.allNodes ∧ s'.2 m = s.2 m := by
  cases h with
  | visit h => exact ⟨h.allNodes ▸ hm, rfl⟩
  | split hp hedge hkey => exact ⟨Finset.mem_insert_of_mem hm, hs.update_spell hm _⟩
  | graft hp hnone => exact ⟨Finset.mem_insert_of_mem hm, hs.update_spell hm _⟩

/-- Several changes, one after the other. -/
def GrowsTo (rt : Runtime n) : LPRadixCache n × (ℕ → List ℕ) → LPRadixCache n × (ℕ → List ℕ) →
    Prop := Relation.ReflTransGen (Grows rt)

/-- What every change keeps is kept by all of them. -/
theorem GrowsTo.invariant {I : LPRadixCache n → (ℕ → List ℕ) → Prop}
    {s s' : LPRadixCache n × (ℕ → List ℕ)} (h : GrowsTo rt s s') (hwf : WellFormed s.1 s.2)
    (hs : I s.1 s.2)
    (hstep : ∀ u u' : LPRadixCache n × (ℕ → List ℕ), WellFormed u.1 u.2 → I u.1 u.2 →
      Grows rt u u' → I u'.1 u'.2) : WellFormed s'.1 s'.2 ∧ I s'.1 s'.2 := by
  induction h with
  | refl => exact ⟨hwf, hs⟩
  | tail _ hgrows ih => exact ⟨hgrows.wellFormed ih.1, hstep _ _ ih.1 ih.2 hgrows⟩

theorem GrowsTo.wellFormed {s s' : LPRadixCache n × (ℕ → List ℕ)} (h : GrowsTo rt s s')
    (hs : WellFormed s.1 s.2) : WellFormed s'.1 s'.2 :=
  (h.invariant (I := fun _ _ => True) hs trivial (fun _ _ _ _ _ => trivial)).1

theorem GrowsTo.spell {s s' : LPRadixCache n × (ℕ → List ℕ)} (h : GrowsTo rt s s')
    (hs : WellFormed s.1 s.2) {m : ℕ} (hm : m ∈ s.1.allNodes) :
    m ∈ s'.1.allNodes ∧ s'.2 m = s.2 m :=
  (h.invariant (I := fun c σ => m ∈ c.allNodes ∧ σ m = s.2 m) hs ⟨hm, rfl⟩
    (fun _ _ hu hI hgrows => ⟨(hgrows.spell hu hI.1).1, (hgrows.spell hu hI.1).2.trans hI.2⟩)).2

end Grows

end DualMap.Preble.LPRadixCache
