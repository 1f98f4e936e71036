import DualMap.Preble.RadixGrowth

/-!
# Insertions and Look-Ups

An insertion never fails. It is a sequence of the changes listed in `Grows`, it returns the
node whose string is the key, and it splits at most one node (`insert_spec`). Looking a key
up visits nodes only, and finds the node whose string is the key if there is one
(`findNode_spec`).
-/

namespace DualMap.Preble.LPRadixCache

variable {n : ℕ} {rt : Runtime n} {c : LPRadixCache n} {σ : ℕ → List ℕ}

/-! ## The common beginning of two sequences -/

/-- `match` cuts both sequences after their longest common beginning. -/
theorem matchLen_spec (key seq : List ℕ) :
    ∃ x r s, key = x ++ r ∧ seq = x ++ s ∧ matchLen key seq = x.length ∧
      ∀ a ∈ r.head?, ∀ b ∈ s.head?, a ≠ b := by
  induction key generalizing seq with
  | nil => exact ⟨[], [], seq, rfl, rfl, by simp [matchLen], by simp⟩
  | cons k key ih =>
    cases seq with
    | nil => exact ⟨[], k :: key, [], rfl, rfl, by simp [matchLen], by simp⟩
    | cons w seq =>
      by_cases hkw : k = w
      · obtain ⟨x, r, s, rfl, rfl, hlen, hne⟩ := ih seq
        exact ⟨k :: x, r, s, rfl, by rw [hkw]; rfl, by simp [matchLen, hkw, hlen], hne⟩
      · refine ⟨[], k :: key, w :: seq, rfl, rfl, by simp [matchLen, hkw], ?_⟩
        intro a ha b hb
        obtain rfl := Option.some.inj ha
        obtain rfl := Option.some.inj hb
        exact hkw

theorem matchLen_append (x r s : List ℕ) :
    matchLen (x ++ r) (x ++ s) = x.length + matchLen r s := by
  induction x with
  | nil => simp
  | cons a x ih =>
    simp only [List.cons_append, matchLen, if_true, ih, List.length_cons]
    omega

/-! ## One call of the helper -/

/-- The cache after `_insert_helper` has noted its visit to a node. -/
def enter (rt : Runtime n) (c : LPRadixCache n) (node : ℕ) : LPRadixCache n :=
  { c with
    nodes := Function.update c.nodes node
      { c.nodes node with lastAccessTime := rt.time c.ticks, load := (c.nodes node).load + 1 }
    ticks := c.ticks + 1 }

/-- The cache after `node.last_access_time = time.time()`. -/
def touched (rt : Runtime n) (c : LPRadixCache n) (node : ℕ) : LPRadixCache n :=
  { c with
    nodes := Function.update c.nodes node { c.nodes node with lastAccessTime := rt.time c.ticks }
    ticks := c.ticks + 1 }

theorem touchNode_eq (rt : Runtime n) (c : LPRadixCache n) (node : ℕ) :
    touchNode rt node c = .ok () (touched rt c node) := by
  simp only [touchNode, readTime, modifyNode, Py.bind_apply, Py.modifyGet_apply,
    Py.modify_apply, touched]

theorem load_eq (rt : Runtime n) (c : LPRadixCache n) (node : ℕ) :
    modifyNode node (fun x => { x with load := x.load + 1 }) (touched rt c node) =
      .ok () (enter rt c node) := by
  simp only [modifyNode, Py.modify_apply, touched, enter, Function.update_self,
    Function.update_idem]

theorem enter_visited (rt : Runtime n) (c : LPRadixCache n) (node : ℕ) :
    Visited c (enter rt c node) := visited_update c node _ _ _

theorem enter_children (rt : Runtime n) (c : LPRadixCache n) (node m : ℕ) :
    ((enter rt c node).nodes m).children = (c.nodes m).children := by
  obtain ⟨time, load, hm⟩ := (enter_visited rt c node).nodes m
  rw [hm]

theorem enter_key (rt : Runtime n) (c : LPRadixCache n) (node m : ℕ) :
    ((enter rt c node).nodes m).key = (c.nodes m).key := by
  obtain ⟨time, load, hm⟩ := (enter_visited rt c node).nodes m
  rw [hm]

theorem enter_parent (rt : Runtime n) (c : LPRadixCache n) (node m : ℕ) :
    ((enter rt c node).nodes m).parent = (c.nodes m).parent := by
  obtain ⟨time, load, hm⟩ := (enter_visited rt c node).nodes m
  rw [hm]

section Equations

variable (rt : Runtime n) (fuel node : ℕ) (value : List ℕ) (splitNodes : OrderedDict ℕ ℕ)
  (parentContextLength depth : ℕ)

theorem insertHelper_nil :
    insertHelper rt (fuel + 1) node [] value splitNodes parentContextLength depth c =
      .ok (node, splitNodes) (enter rt c node) := by
  rw [insertHelper, Py.bind_ok (touchNode_eq rt c node), Py.bind_ok (load_eq rt c node),
    Py.pure_apply]

theorem insertHelper_graft {a : ℕ} {x : List ℕ} (hnone : (c.nodes node).children.get? a = none)
    (hnode : node ≠ c.nextId) :
    insertHelper rt (fuel + 1) node (a :: x) value splitNodes parentContextLength depth c =
      .ok (c.nextId, splitNodes) (afterGraft rt (enter rt c node) node a (a :: x) value
        (parentContextLength + (x.length + 1)) (depth + 1)) := by
  have hnone' : ((enter rt c node).nodes node).children.get? a = none := by
    rw [enter_children]
    exact hnone
  rw [insertHelper, Py.bind_ok (touchNode_eq rt c node), Py.bind_ok (load_eq rt c node)]
  simp only [Py.bind_apply, Py.get_apply, hnone', newTreeNode, readTime, modifyNode,
    Py.modifyGet_apply, Py.modify_apply, Py.pure_apply]
  have hnode' : node ≠ (enter rt c node).nextId := hnode
  simp only [Function.update_self, Function.update_idem, Function.update_of_ne hnode']
  rfl

variable {child : ℕ} {a : ℕ} {x s : List ℕ}

theorem insertHelper_found (hedge : (c.nodes node).children.get? a = some child)
    (hkey : (c.nodes child).key = a :: x) :
    ∃ c', insertHelper rt (fuel + 1) node (a :: x) value splitNodes parentContextLength depth c =
      .ok (child, splitNodes) c' ∧ Visited c c' := by
  have hedge' : ((enter rt c node).nodes node).children.get? a = some child := by
    rw [enter_children]
    exact hedge
  -- touching the nodes on the way changes neither edges nor keys
  have hkey' : ((enter rt c node).nodes child).key = a :: x := by
    rw [enter_key]
    exact hkey
  have hlen : matchLen (a :: x) (a :: x) = (a :: x).length := by
    generalize a :: x = l
    induction l with
    | nil => rfl
    | cons b l ih => simp [matchLen, ih]
  refine ⟨_, ?_, (enter_visited rt c node).trans
    (visited_update (enter rt c node) child (enter rt c node).ticks
      (((enter rt c node).nodes child).load + 1) ((enter rt c node).nodes child).lastAccessTime)⟩
  rw [insertHelper, Py.bind_ok (touchNode_eq rt c node), Py.bind_ok (load_eq rt c node)]
  simp only [Py.bind_apply, Py.get_apply, hedge', hkey', hlen, if_true, modifyNode,
    Py.modify_apply, Py.pure_apply]

theorem insertHelper_down (hedge : (c.nodes node).children.get? a = some child)
    (hkey : (c.nodes child).key = a :: x) (hs : s ≠ [])
    (hlen : matchLen (a :: x) (a :: (x ++ s)) = x.length + 1) :
    insertHelper rt (fuel + 1) node (a :: (x ++ s)) (a :: (x ++ s)) splitNodes
        parentContextLength depth c =
      insertHelper rt fuel child s s splitNodes (parentContextLength + (x.length + 1))
        (depth + 1) (enter rt c node) := by
  have hedge' : ((enter rt c node).nodes node).children.get? a = some child := by
    rw [enter_children]
    exact hedge
  have hkey' : ((enter rt c node).nodes child).key = a :: x := by
    rw [enter_key]
    exact hkey
  have hshort : ¬ x.length + 1 = (x ++ s).length + 1 := by
    have hpos := List.length_pos_iff.mpr hs
    rw [List.length_append]
    omega
  have hdrop : (a :: (x ++ s)).drop (x.length + 1) = s := by simp
  rw [insertHelper, Py.bind_ok (touchNode_eq rt c node), Py.bind_ok (load_eq rt c node),
    Py.bind_ok (Py.get_apply _)]
  simp only [hedge', hkey', hlen, hshort, hdrop, List.length_cons, if_true, if_false]

theorem insertHelper_split {b : ℕ} {y : List ℕ}
    (hedge : (c.nodes node).children.get? a = some child)
    (hparent : (c.nodes child).parent = some node)
    (hkey : (c.nodes child).key = (a :: x) ++ b :: y)
    (hlen : matchLen ((a :: x) ++ b :: y) (a :: (x ++ s)) = x.length + 1)
    (hne : node ≠ child) (hchild : child ≠ c.nextId) (hnode : node ≠ c.nextId) :
    insertHelper rt (fuel + 1) node (a :: (x ++ s)) (a :: (x ++ s)) splitNodes
        parentContextLength depth c =
      insertHelper rt fuel c.nextId s s (splitNodes.set child c.nextId)
        (parentContextLength + (x.length + 1)) (depth + 2)
        (afterSplit rt (enter rt c node) node child (x.length + 1) a b) := by
  -- the walk has written only counters and times before it splits
  have hedge' : ((enter rt c node).nodes node).children.get? a = some child := by
    rw [enter_children]
    exact hedge
  have hkey' : ((enter rt c node).nodes child).key = (a :: x) ++ b :: y := by
    rw [enter_key]
    exact hkey
  have hsplit : splitNode rt ((a :: x) ++ b :: y) child (x.length + 1) (enter rt c node) =
      .ok c.nextId (afterSplit rt (enter rt c node) node child (x.length + 1) a b) := by
    refine splitNode_eq rt ?_ hne hchild hnode ?_ ?_
    · rw [enter_parent]
      exact hparent
    · simp
    · simp
  -- the match ends inside the child's key, so the code takes the branch that splits
  have hshort : ¬ x.length + 1 = ((a :: x) ++ b :: y).length := by
    rw [List.length_append, List.length_cons, List.length_cons]
    omega
  have hdrop : (a :: (x ++ s)).drop (x.length + 1) = s := by simp
  rw [insertHelper, Py.bind_ok (touchNode_eq rt c node), Py.bind_ok (load_eq rt c node),
    Py.bind_ok (Py.get_apply _)]
  simp only [hedge', hkey', hlen, hshort, if_false]
  rw [Py.bind_ok hsplit]
  simp only [hdrop]

end Equations

/-! ## Insertions -/

/-- What an insertion at `node` of the key `s` leads to: the node `leaf`, and the dictionary
`splits` of what was split. -/
structure Inserted (rt : Runtime n) (c : LPRadixCache n) (σ : ℕ → List ℕ) (key : List ℕ)
    (leaf : ℕ) (splits : OrderedDict ℕ ℕ) (c' : LPRadixCache n) (σ' : ℕ → List ℕ) : Prop where
  grows : GrowsTo rt (c, σ) (c', σ')
  leaf_mem : leaf ∈ c'.allNodes
  leaf_spell : σ' leaf = key
  /-- A new node is the leaf, or it was put above a node that was split. -/
  nodes : ∀ m ∈ c'.allNodes, m ∈ c.allNodes ∨ m = leaf ∨ m ∈ splits.values
  /-- Nothing was split, or one old node below the root. -/
  splits : splits = .empty ∨ ∃ child new, splits = .single child new ∧ child ∈ c.allNodes ∧
    child ≠ rootNode ∧ new ∈ c'.allNodes ∧ new ∉ c.allNodes ∧ σ' new <+: σ child

theorem Inserted.wellFormed {key : List ℕ} {leaf : ℕ} {splits : OrderedDict ℕ ℕ}
    {c' : LPRadixCache n} {σ' : ℕ → List ℕ} (h : Inserted rt c σ key leaf splits c' σ')
    (hc : WellFormed c σ) : WellFormed c' σ' := h.grows.wellFormed hc

/-- The old nodes stay, with their strings. -/
theorem Inserted.spell {key : List ℕ} {leaf : ℕ} {splits : OrderedDict ℕ ℕ}
    {c' : LPRadixCache n} {σ' : ℕ → List ℕ} (h : Inserted rt c σ key leaf splits c' σ')
    (hc : WellFormed c σ) {m : ℕ} (hm : m ∈ c.allNodes) : m ∈ c'.allNodes ∧ σ' m = σ m :=
  h.grows.spell hc hm

/-- A split changes what nodes own, but not how long their paths are. -/
theorem Inserted.contextLength {key : List ℕ} {leaf : ℕ} {splits : OrderedDict ℕ ℕ}
    {c' : LPRadixCache n} {σ' : ℕ → List ℕ} (h : Inserted rt c σ key leaf splits c' σ')
    (hc : WellFormed c σ) {m : ℕ} (hm : m ∈ c.allNodes) :
    (c'.nodes m).contextLength = (c.nodes m).contextLength := by
  obtain ⟨hm', hspell⟩ := h.spell hc hm
  rw [hc.context m hm, (h.wellFormed hc).context m hm', hspell]

/-- An insertion that starts with a visit. -/
theorem Inserted.of_visited {key : List ℕ} {leaf : ℕ} {splits : OrderedDict ℕ ℕ}
    {c₁ c' : LPRadixCache n} {σ' : ℕ → List ℕ} (hvisit : Visited c c₁)
    (h : Inserted rt c₁ σ key leaf splits c' σ') : Inserted rt c σ key leaf splits c' σ' where
  grows := Relation.ReflTransGen.head (Grows.visit hvisit) h.grows
  leaf_mem := h.leaf_mem
  leaf_spell := h.leaf_spell
  nodes := by
    rw [← hvisit.allNodes]
    exact h.nodes
  splits := by
    rw [← hvisit.allNodes]
    exact h.splits

/-- Where the insertion of the key cuts the tree: an old node has its parent as before, or
it was split, and its parent is the new node, which lies where the key parts from its
string. -/
structure CutAt (c : LPRadixCache n) (σ : ℕ → List ℕ) (key : List ℕ) (splits : OrderedDict ℕ ℕ)
    (c' : LPRadixCache n) : Prop where
  parent : ∀ m ∈ c.allNodes, splits.get? m = none → (c'.nodes m).parent = (c.nodes m).parent
  cut : ∀ child new, splits.get? child = some new → (c'.nodes child).parent = some new ∧
    (c'.nodes new).parent = (c.nodes child).parent ∧
    (c'.nodes new).contextLength = matchLen (σ child) key

theorem CutAt.of_visited {key : List ℕ} {splits : OrderedDict ℕ ℕ} {c₁ c' : LPRadixCache n}
    (hvisit : Visited c c₁) (h : CutAt c₁ σ key splits c') : CutAt c σ key splits c' where
  parent := by
    intro m hm hnone
    rw [h.parent m (hvisit.allNodes ▸ hm) hnone]
    exact (hvisit.sameShape.nodes m).1
  cut := by
    intro child new hsplit
    obtain ⟨hchild, hnew, hlength⟩ := h.cut child new hsplit
    exact ⟨hchild, hnew.trans (hvisit.sameShape.nodes child).1, hlength⟩

theorem cutAt_visit (key : List ℕ) {c' : LPRadixCache n} (hvisit : Visited c c') :
    CutAt c σ key .empty c' where
  parent := fun m _ _ => (hvisit.sameShape.nodes m).1
  cut := fun _ _ hsplit => by cases hsplit

theorem cutAt_graft (rt : Runtime n) (depth : ℕ) (hc : WellFormed c σ) (key : List ℕ)
    {node a : ℕ} {x value : List ℕ} {contextLength : ℕ} :
    CutAt c σ key .empty
      (afterGraft rt (enter rt c node) node a x value contextLength depth) := by
  refine CutAt.of_visited (enter_visited rt c node) ⟨fun m hm _ => ?_, fun _ _ h => by cases h⟩
  rcases afterGraft_cases rt (enter rt c node) node a x value contextLength depth m with
    rfl | rfl | ⟨-, -, hsame⟩
  · rw [afterGraft_parent]
  · exact absurd hm hc.nextId_notMem
  · rw [hsame]

theorem cutAt_split (rt : Runtime n) {node child a b : ℕ} {x y s : List ℕ}
    (hc : WellFormed c σ) (hnode : node ∈ c.allNodes) (hedge : c.tree.Edge node a child)
    (hkey : (c.nodes child).key = (a :: x) ++ b :: y)
    (hlen : matchLen ((a :: x) ++ b :: y) (a :: (x ++ s)) = x.length + 1) :
    CutAt c σ (σ node ++ a :: (x ++ s)) (.single child c.nextId)
      (afterSplit rt (enter rt c node) node child (x.length + 1) a b) := by
  have hvisit := enter_visited rt c node
  obtain ⟨-, -, hne, hnodeNew, hchildNew⟩ := hc.split_nodes hnode hedge
  have hspell : σ child = σ node ++ ((a :: x) ++ b :: y) := by
    rw [hc.spelled.spell_child hnode hedge]
    exact congrArg (σ node ++ ·) hkey
  refine CutAt.of_visited hvisit ⟨fun m hm hnone => ?_, fun m new hsplit => ?_⟩
  -- an unsplit node keeps its parent; the split one is asked for its upper half
  · rcases afterSplit_cases rt (enter rt c node) node child (x.length + 1) a b m with
      rfl | rfl | rfl | ⟨-, -, -, hsame⟩
    · rw [afterSplit_parent]
    · rw [OrderedDict.get?_single_self] at hnone
      cases hnone
    · exact absurd hm hc.nextId_notMem
    · rw [hsame]
  · obtain ⟨rfl, rfl⟩ := OrderedDict.get?_single_eq_some.mp hsplit
    refine ⟨?_, ?_, ?_⟩
    · rw [afterSplit_child rt hne.symm]
      rfl
    · rw [show c.nextId = (enter rt c node).nextId from rfl,
        afterSplit_new rt (c := enter rt c node) hchildNew.symm hnodeNew.symm, enter_parent]
      exact (hc.spelled.down node hnode a m hedge).2.1.symm
    · rw [show c.nextId = (enter rt c node).nextId from rfl,
        afterSplit_new rt (c := enter rt c node) hchildNew.symm hnodeNew.symm, hspell,
        matchLen_append, hlen, ← hc.context node hnode]
      exact congrArg (· + (x.length + 1)) (hvisit.sameShape.contextLength node)

/-- What follows a split leaves the cut as it is. -/
theorem CutAt.extend {key key' : List ℕ} {splits : OrderedDict ℕ ℕ} {c₁ c' : LPRadixCache n}
    {σ₁ : ℕ → List ℕ} (h : CutAt c σ key splits c₁)
    (hold : ∀ m ∈ c.allNodes, m ∈ c₁.allNodes) (hnew : ∀ new ∈ splits.values, new ∈ c₁.allNodes)
    (h' : CutAt c₁ σ₁ key' .empty c')
    (hlength : ∀ m ∈ c₁.allNodes, (c'.nodes m).contextLength = (c₁.nodes m).contextLength)
    (hsplit : ∀ child new, splits.get? child = some new → child ∈ c.allNodes) :
    CutAt c σ key splits c' where
  parent := fun m hm hnone => (h'.parent m (hold m hm) rfl).trans (h.parent m hm hnone)
  cut := by
    intro child new hget
    obtain ⟨hchild, hparent, hcontext⟩ := h.cut child new hget
    have hnew := hnew new (OrderedDict.mem_values_iff.mpr ⟨child, hget⟩)
    rw [h'.parent child (hold child (hsplit child new hget)) rfl, h'.parent new hnew rfl,
      hlength new hnew]
    exact ⟨hchild, hparent, hcontext⟩

/-- Inserting below a node that has no child for the next token grafts a new node. -/
theorem inserted_graft (rt : Runtime n) (depth : ℕ) (hc : WellFormed c σ) {node a : ℕ}
    {x : List ℕ}
    (hnode : node ∈ c.allNodes) (hnone : (c.nodes node).children.get? a = none) :
    Inserted rt c σ (σ node ++ a :: x) c.nextId .empty
      (afterGraft rt (enter rt c node) node a (a :: x) (a :: x)
        ((c.nodes node).contextLength + (x.length + 1)) depth)
      (Function.update σ c.nextId (σ node ++ a :: x)) := by
  apply Inserted.of_visited (enter_visited rt c node)
  have hwf := (enter_visited rt c node).sameShape.wellFormed hc
  rw [← (enter_visited rt c node).sameShape.contextLength node]
  have hgrow : Grows rt (enter rt c node, σ)
      (afterGraft rt (enter rt c node) node a (a :: x) (a :: x)
        (((enter rt c node).nodes node).contextLength + (x.length + 1)) depth,
        Function.update σ c.nextId (σ node ++ a :: x)) :=
    Grows.graft hnode (by rw [enter_children]; exact hnone)
  exact
    { grows := Relation.ReflTransGen.single hgrow
      leaf_mem := Finset.mem_insert_self ..
      leaf_spell := Function.update_self ..
      nodes := fun m hm => (Finset.mem_insert.mp hm).symm.imp_right Or.inl
      splits := Or.inl rfl }

/-- A visit inserts the string of a node that is there. -/
theorem inserted_visit (rt : Runtime n) {c' : LPRadixCache n} {node : ℕ} (hvisit : Visited c c')
    (hnode : node ∈ c.allNodes) : Inserted rt c σ (σ node) node .empty c' σ where
  grows := Relation.ReflTransGen.single (Grows.visit hvisit)
  leaf_mem := hvisit.allNodes ▸ hnode
  leaf_spell := rfl
  nodes := fun _ hm => Or.inl (hvisit.allNodes ▸ hm)
  splits := Or.inl rfl

/-- Where the key parts from the label of a child inside the edge, the edge is split. The new
node is the upper half. -/
theorem inserted_split (rt : Runtime n) {node child a b : ℕ} {x y : List ℕ}
    (hc : WellFormed c σ) (hnode : node ∈ c.allNodes) (hedge : c.tree.Edge node a child)
    (hkey : (c.nodes child).key = (a :: x) ++ b :: y) :
    Inserted rt c σ (σ node ++ a :: x) c.nextId (.single child c.nextId)
      (afterSplit rt (enter rt c node) node child (x.length + 1) a b)
      (Function.update σ c.nextId (σ node ++ a :: x)) := by
  have hvisit := enter_visited rt c node
  obtain ⟨hchild, hchildRoot, -, -, -⟩ := hc.split_nodes hnode hedge
  have hkey' : ((enter rt c node).nodes child).key = (a :: x) ++ b :: y := by
    rw [enter_key]
    exact hkey
  have hedge' : (enter rt c node).tree.Edge node a child := by
    rw [hvisit.sameShape.tree]
    exact hedge
  -- the two steps that `Grows` records: the walk, then the split
  have hgrow : Grows rt (enter rt c node, σ)
      (afterSplit rt (enter rt c node) node child (x.length + 1) a b,
        Function.update σ c.nextId (σ node ++ a :: x)) :=
    Grows.split hnode hedge' hkey'
  have habove : σ node ++ a :: x <+: σ child := by
    rw [hc.spelled.spell_child hnode hedge, List.prefix_append_right_inj]
    show a :: x <+: (c.nodes child).key
    rw [hkey]
    exact List.prefix_append _ _
  exact
    { grows := Relation.ReflTransGen.head (Grows.visit hvisit)
        (Relation.ReflTransGen.single hgrow)
      leaf_mem := Finset.mem_insert_self ..
      leaf_spell := Function.update_self ..
      nodes := fun m hm => (Finset.mem_insert.mp hm).symm.imp_right Or.inl
      splits := Or.inr ⟨child, c.nextId, rfl, hchild, hchildRoot, Finset.mem_insert_self ..,
        hc.nextId_notMem, by rw [Function.update_self]; exact habove⟩ }

/-- After an insertion that made a split another one, without a split, may follow. -/
theorem Inserted.extend {key key' : List ℕ} {top leaf : ℕ} {splits : OrderedDict ℕ ℕ}
    {c₁ c' : LPRadixCache n} {σ₁ σ' : ℕ → List ℕ} (h : Inserted rt c σ key top splits c₁ σ₁)
    (hc : WellFormed c σ) (htop : top ∈ splits.values)
    (h' : Inserted rt c₁ σ₁ key' leaf .empty c' σ') :
    Inserted rt c σ key' leaf splits c' σ' where
  grows := h.grows.trans h'.grows
  leaf_mem := h'.leaf_mem
  leaf_spell := h'.leaf_spell
  nodes := by
    intro m hm
    -- a node of the second walk is one of the first, whose upper half is already counted
    rcases h'.nodes m hm with hold | hleaf | hsplit
    · rcases h.nodes m hold with hold | rfl | hsplit
      · exact Or.inl hold
      · exact Or.inr (Or.inr htop)
      · exact Or.inr (Or.inr hsplit)
    · exact Or.inr (Or.inl hleaf)
    · cases hsplit
  splits := by
    rcases h.splits with hnone | ⟨child, new, hsingle, hchild, hroot, hnew, hfresh, habove⟩
    · exact Or.inl hnone
    · obtain ⟨hnew', hspell⟩ := h'.spell (h.wellFormed hc) hnew
      exact Or.inr ⟨child, new, hsingle, hchild, hroot, hnew', hfresh, hspell.symm ▸ habove⟩

/-- After the split, what is left of the key is grafted below the new node. -/
theorem insertHelper_split_spec (rt : Runtime n) (fuel depth : ℕ) {node child a b : ℕ}
    {x y s : List ℕ} (hc : WellFormed c σ) (hnode : node ∈ c.allNodes)
    (hedge : c.tree.Edge node a child)
    (hkey : (c.nodes child).key = (a :: x) ++ b :: y)
    (hlen : matchLen ((a :: x) ++ b :: y) (a :: (x ++ s)) = x.length + 1)
    (hdiff : ∀ d ∈ s.head?, d ≠ b) :
    ∃ leaf splits c' σ', insertHelper rt (fuel + 2) node (a :: (x ++ s)) (a :: (x ++ s)) .empty
        (c.nodes node).contextLength depth c = .ok (leaf, splits) c' ∧
      Inserted rt c σ (σ node ++ a :: (x ++ s)) leaf splits c' σ' ∧
      CutAt c σ (σ node ++ a :: (x ++ s)) splits c' := by
  obtain ⟨-, -, hne, hnodeNew, hchildNew⟩ := hc.split_nodes hnode hedge
  have hrun := insertHelper_split (c := c) rt (fuel + 1) node .empty
    (c.nodes node).contextLength depth hedge (hc.spelled.down node hnode a child hedge).2.1
    hkey hlen hne hchildNew hnodeNew
  have hsplit := inserted_split rt hc hnode hedge hkey
  have hcut := cutAt_split rt (s := s) hc hnode hedge hkey hlen
  have hvalues : c.nextId ∈ (OrderedDict.single child c.nextId).values :=
    OrderedDict.mem_values_iff.mpr ⟨child, OrderedDict.get?_single_self ..⟩
  set c₂ := afterSplit rt (enter rt c node) node child (x.length + 1) a b with hc₂
  have hwf₂ := hsplit.wellFormed hc
  have hspell₂ := hsplit.leaf_spell
  -- what follows at the new node does not cut again
  have hextend : ∀ {key' : List ℕ} {leaf : ℕ} {c' : LPRadixCache n} {σ' : ℕ → List ℕ},
      Inserted rt c₂ (Function.update σ c.nextId (σ node ++ a :: x)) key' leaf .empty c' σ' →
      CutAt c₂ (Function.update σ c.nextId (σ node ++ a :: x)) key' .empty c' →
      CutAt c σ (σ node ++ a :: (x ++ s)) (.single child c.nextId) c' := by
    intro key' leaf c' σ' hins hcut'
    refine hcut.extend (fun m hm => (hsplit.spell hc hm).1) (fun new hnew => ?_) hcut'
      (fun m hm => hins.contextLength hwf₂ hm) (fun m new hget => ?_)
    · obtain ⟨m, hget⟩ := OrderedDict.mem_values_iff.mp hnew
      rw [(OrderedDict.get?_single_eq_some.mp hget).2]
      exact hsplit.leaf_mem
    · rw [(OrderedDict.get?_single_eq_some.mp hget).1]
      exact (hc.split_nodes hnode hedge).1
  cases s with
  | nil =>
    -- the key ends at the cut
    have hvisit₂ := inserted_visit rt (enter_visited rt c₂ c.nextId) hsplit.leaf_mem
      (σ := Function.update σ c.nextId (σ node ++ a :: x))
    have hcut₂ := hextend hvisit₂ (cutAt_visit _ (enter_visited rt c₂ c.nextId))
    rw [hspell₂] at hvisit₂
    rw [List.append_nil] at hrun hcut₂ ⊢
    exact ⟨c.nextId, _, _, _, hrun.trans (insertHelper_nil rt fuel c.nextId [] _ _ _),
      hsplit.extend hc hvalues hvisit₂, hcut₂⟩
  | cons d s =>
    -- the only child of the new node begins with `b`, and the rest of the key with `d`
    have hbd : d ≠ b := hdiff d rfl
    have hchildren : (c₂.nodes c.nextId).children.get? d = none := by
      have hchildNew' : (enter rt c node).nextId ≠ child := hchildNew.symm
      have hnode₂ := afterSplit_new rt hchildNew' (p := node) hnodeNew.symm (x.length + 1) a b
      rw [hc₂, show c.nextId = (enter rt c node).nextId from rfl, hnode₂]
      show (OrderedDict.single b child).get? d = none
      rw [OrderedDict.single, OrderedDict.get?_set_of_ne _ _ hbd]
      rfl
    have hcontext₂ : (c₂.nodes c.nextId).contextLength =
        (c.nodes node).contextLength + (x.length + 1) := by
      rw [hwf₂.context _ hsplit.leaf_mem, hspell₂, hc.context node hnode, List.length_append,
        List.length_cons]
    have hgraft := inserted_graft rt (depth + 2 + 1) (x := s) hwf₂ hsplit.leaf_mem hchildren
    rw [hcontext₂, hspell₂, List.append_assoc, List.cons_append] at hgraft
    exact ⟨c₂.nextId, _, _, _,
      hrun.trans (insertHelper_graft rt fuel c.nextId _ _ _ _ hchildren
        (Nat.ne_of_lt (Nat.lt_succ_self _))), hsplit.extend hc hvalues hgraft,
      hextend hgraft (cutAt_graft rt _ hwf₂ _)⟩

/-- What is left to do where an insertion stops going down. -/
inductive LastStep (c : LPRadixCache n) (node : ℕ) : List ℕ → Prop
  | stop : LastStep c node []
  | graft {a : ℕ} {x : List ℕ} (hnone : (c.nodes node).children.get? a = none) :
      LastStep c node (a :: x)
  | found {child a : ℕ} {x : List ℕ} (hedge : c.tree.Edge node a child)
      (hkey : (c.nodes child).key = a :: x) : LastStep c node (a :: x)
  | split {child a b : ℕ} {x y s : List ℕ} (hedge : c.tree.Edge node a child)
      (hkey : (c.nodes child).key = (a :: x) ++ b :: y)
      (hlen : matchLen ((a :: x) ++ b :: y) (a :: (x ++ s)) = x.length + 1)
      (hdiff : ∀ d ∈ s.head?, d ≠ b) : LastStep c node (a :: (x ++ s))

/-- On its way down an insertion visits nodes, and counts the edges it takes. -/
theorem insertHelper_walk (rt : Runtime n) (fuel depth : ℕ) {node : ℕ} {key : List ℕ}
    (hc : WellFormed c σ) (hnode : node ∈ c.allNodes) (hfuel : key.length < fuel) :
    ∃ fuel' levels last rest c₁, Visited c c₁ ∧ last ∈ c.allNodes ∧ LastStep c₁ last rest ∧
      σ node ++ key = σ last ++ rest ∧ rest.length < fuel' ∧
      (∀ level : ℕ → ℕ, (∀ p ∈ c.allNodes, ∀ a m, c.tree.Edge p a m → level m = level p + 1) →
        level last = level node + levels) ∧
      insertHelper rt fuel node key key .empty (c.nodes node).contextLength depth c =
        insertHelper rt fuel' last rest rest .empty (c₁.nodes last).contextLength
          (depth + levels) c₁ := by
  -- the fuel falls with the rest of the key, of which every edge takes a token
  induction fuel generalizing c node key depth with
  | zero => exact absurd hfuel (Nat.not_lt_zero _)
  | succ fuel ih =>
    have hhere : LastStep c node key → ∃ fuel' levels last rest c₁, Visited c c₁ ∧
        last ∈ c.allNodes ∧ LastStep c₁ last rest ∧ σ node ++ key = σ last ++ rest ∧
        rest.length < fuel' ∧
        (∀ level : ℕ → ℕ, (∀ p ∈ c.allNodes, ∀ a m, c.tree.Edge p a m → level m = level p + 1) →
          level last = level node + levels) ∧
        insertHelper rt (fuel + 1) node key key .empty (c.nodes node).contextLength depth c =
          insertHelper rt fuel' last rest rest .empty (c₁.nodes last).contextLength
            (depth + levels) c₁ := fun hlast =>
      ⟨fuel + 1, 0, node, key, c, Visited.refl c, hnode, hlast, rfl, hfuel, fun _ _ => rfl, rfl⟩
    cases key with
    | nil => exact hhere .stop
    | cons a key =>
      cases hget : (c.nodes node).children.get? a with
      | none => exact hhere (.graft hget)
      | some child =>
        have hedge : c.tree.Edge node a child := hget
        obtain ⟨hchild, -, rest, hkey⟩ := hc.spelled.down node hnode a child hedge
        have hkey : (c.nodes child).key = a :: rest := hkey
        have hspell : σ child = σ node ++ (c.nodes child).key := hc.spelled.spell_child hnode hedge
        -- cut the key and the label of the child after their common beginning
        obtain ⟨x, r, s, rfl, rfl, hlen, hdiff⟩ := matchLen_spec rest key
        have hlen' : matchLen (a :: (x ++ r)) (a :: (x ++ s)) = x.length + 1 := by
          simp [matchLen, hlen]
        cases r with
        | cons b y =>
          exact hhere (.split hedge hkey hlen' (fun d hd hdb => hdiff b rfl d hd hdb.symm))
        | nil =>
          rw [List.append_nil] at hkey hlen'
          rw [hkey] at hspell
          cases s with
          | nil =>
            rw [List.append_nil] at hhere ⊢
            exact hhere (.found hedge hkey)
          | cons d s =>
            -- the rest of the key continues below the child
            have hvisit := enter_visited rt c node
            have hcontext : ((enter rt c node).nodes child).contextLength =
                (c.nodes node).contextLength + (x.length + 1) := by
              rw [hvisit.sameShape.contextLength, hc.context child hchild, hc.context node hnode,
                hspell, List.length_append, List.length_cons]
            have hshort : (d :: s).length < fuel := by
              simp only [List.length_cons, List.length_append] at hfuel ⊢
              omega
            obtain ⟨fuel', levels, last, rest, c₁, hvisit', hlast, hstep, hwhole, hrest, hlevel,
              hrun⟩ := ih (depth + 1) (hvisit.sameShape.wellFormed hc) hchild hshort
            refine ⟨fuel', levels + 1, last, rest, c₁, hvisit.trans hvisit', hlast, hstep, ?_,
              hrest, fun level hedges => ?_, ?_⟩
            · rw [← hwhole, hspell]
              simp
            · rw [hlevel level (hvisit.sameShape.tree ▸ hvisit.allNodes ▸ hedges),
                hedges node hnode a child hedge]
              omega
            · rw [insertHelper_down rt fuel node .empty _ _ hget hkey (List.cons_ne_nil d s)
                hlen', ← hcontext, hrun, Nat.add_right_comm, Nat.add_assoc]

/-- Inserting a key returns the node whose string is the key, after a sequence of changes
that splits at most one node, where the key parts from its string. -/
theorem insertHelper_spec (rt : Runtime n) (fuel depth : ℕ) {node : ℕ} {key : List ℕ}
    (hc : WellFormed c σ) (hnode : node ∈ c.allNodes) (hfuel : key.length < fuel) :
    ∃ leaf splits c' σ', insertHelper rt fuel node key key .empty (c.nodes node).contextLength
        depth c = .ok (leaf, splits) c' ∧
      Inserted rt c σ (σ node ++ key) leaf splits c' σ' ∧
      CutAt c σ (σ node ++ key) splits c' := by
  obtain ⟨fuel, levels, last, rest, c₁, hvisit₁, hlast, hstep, hwhole, hrest, -, hrun⟩ :=
    insertHelper_walk rt fuel depth hc hnode hfuel
  have hwf := hvisit₁.sameShape.wellFormed hc
  have hlast₁ : last ∈ c₁.allNodes := hvisit₁.allNodes ▸ hlast
  have hvisit := enter_visited rt c₁ last
  rw [hrun, hwhole]
  obtain ⟨fuel, rfl⟩ := Nat.exists_eq_succ_of_ne_zero (Nat.ne_of_gt (Nat.zero_lt_of_lt hrest))
  -- what holds of the last step holds of the whole insertion
  have hwalked : ∀ {key : List ℕ} {leaf : ℕ} {splits : OrderedDict ℕ ℕ} {c' : LPRadixCache n}
      {σ' : ℕ → List ℕ}, Inserted rt c₁ σ key leaf splits c' σ' → CutAt c₁ σ key splits c' →
      Inserted rt c σ key leaf splits c' σ' ∧ CutAt c σ key splits c' :=
    fun hins hcut => ⟨hins.of_visited hvisit₁, hcut.of_visited hvisit₁⟩
  cases hstep with
  | stop =>
    rw [List.append_nil]
    exact ⟨last, .empty, _, σ, insertHelper_nil rt fuel last [] _ _ _,
      hwalked (inserted_visit rt hvisit hlast₁) (cutAt_visit _ hvisit)⟩
  | graft hnone =>
    have hnode' : last ≠ c₁.nextId := hwf.ne_nextId hlast₁
    exact ⟨c₁.nextId, .empty, _, _, insertHelper_graft rt fuel last _ _ _ _ hnone hnode',
      hwalked (inserted_graft rt _ hwf hlast₁ hnone) (cutAt_graft rt _ hwf _)⟩
  | @found child a x hedge hkey =>
    -- the key ends where the child does
    have hchild := (hwf.spelled.down last hlast₁ a child hedge).1
    have hspell : σ child = σ last ++ a :: x :=
      (hwf.spelled.spell_child hlast₁ hedge).trans (congrArg (σ last ++ ·) hkey)
    obtain ⟨c', hrun', hvisit'⟩ := insertHelper_found (c := c₁) rt fuel last
      (a :: x) .empty (c₁.nodes last).contextLength (depth + levels) hedge hkey
    exact ⟨child, .empty, c', σ, hrun',
      hwalked (hspell ▸ inserted_visit rt hvisit' hchild) (cutAt_visit _ hvisit')⟩
  | @split child a b x y s hedge hkey hlen hdiff =>
    obtain ⟨fuel, rfl⟩ : ∃ k, fuel = k + 1 := Nat.exists_eq_succ_of_ne_zero (by
      simp only [List.length_cons] at hrest
      omega)
    obtain ⟨leaf, splits, c', σ', hrun', hins, hcut⟩ :=
      insertHelper_split_spec rt fuel (depth + levels) hwf hlast₁ hedge hkey hlen hdiff
    exact ⟨leaf, splits, c', σ', hrun', hwalked hins hcut⟩

theorem insert_spec_cut (rt : Runtime n) (hc : WellFormed c σ) (key : List ℕ) :
    ∃ leaf splits c' σ', insert rt key none .empty c = .ok (leaf, splits) c' ∧
      Inserted rt c σ key leaf splits c' σ' ∧ CutAt c σ key splits c' := by
  obtain ⟨leaf, splits, c', σ', hrun, hins, hcut⟩ :=
    insertHelper_spec rt (key.length + 1) 0 hc hc.root_mem (Nat.lt_succ_self key.length)
  have hroot : σ rootNode = [] := hc.spelled.root_spell
  rw [hc.context _ hc.root_mem, hroot, List.length_nil] at hrun
  rw [hroot, List.nil_append] at hins hcut
  exact ⟨leaf, splits, c', σ', hrun, hins, hcut⟩

/-- `insert` never fails, and returns the node whose string is the key. -/
theorem insert_spec (rt : Runtime n) (hc : WellFormed c σ) (key : List ℕ) :
    ∃ leaf splits c' σ', insert rt key none .empty c = .ok (leaf, splits) c' ∧
      Inserted rt c σ key leaf splits c' σ' := by
  obtain ⟨leaf, splits, c', σ', hrun, hins, -⟩ := insert_spec_cut rt hc key
  exact ⟨leaf, splits, c', σ', hrun, hins⟩

/-! ## Look-ups -/

theorem touched_visited (rt : Runtime n) (c : LPRadixCache n) (node : ℕ) :
    Visited c (touched rt c node) := visited_update c node _ _ _

theorem touched_children (rt : Runtime n) (c : LPRadixCache n) (node m : ℕ) :
    ((touched rt c node).nodes m).children = (c.nodes m).children := by
  obtain ⟨time, load, hm⟩ := (touched_visited rt c node).nodes m
  rw [hm]

theorem touched_key (rt : Runtime n) (c : LPRadixCache n) (node m : ℕ) :
    ((touched rt c node).nodes m).key = (c.nodes m).key := by
  obtain ⟨time, load, hm⟩ := (touched_visited rt c node).nodes m
  rw [hm]

section LookUps

variable (rt : Runtime n) (fuel : ℕ) {node child a : ℕ} {x s : List ℕ}

theorem matchPrefixHelper_nil :
    matchPrefixHelper rt (fuel + 1) node [] c = .ok (some node) (touched rt c node) := by
  rw [matchPrefixHelper, Py.bind_ok (touchNode_eq rt c node), Py.pure_apply]

theorem matchPrefixHelper_none (hnone : (c.nodes node).children.get? a = none) :
    matchPrefixHelper rt (fuel + 1) node (a :: s) c = .ok (some node) (touched rt c node) := by
  rw [matchPrefixHelper, Py.bind_ok (touchNode_eq rt c node), Py.bind_ok (Py.get_apply _)]
  simp only [touched_children, hnone, Py.pure_apply]

theorem matchPrefixHelper_inside {b : ℕ} {y : List ℕ}
    (hedge : (c.nodes node).children.get? a = some child)
    (hkey : (c.nodes child).key = (a :: x) ++ b :: y)
    (hlen : matchLen ((a :: x) ++ b :: y) (a :: (x ++ s)) = x.length + 1) :
    matchPrefixHelper rt (fuel + 1) node (a :: (x ++ s)) c = .ok none (touched rt c node) := by
  have hinside : x.length + 1 < ((a :: x) ++ b :: y).length := by
    rw [List.length_append, List.length_cons, List.length_cons]
    omega
  rw [matchPrefixHelper, Py.bind_ok (touchNode_eq rt c node), Py.bind_ok (Py.get_apply _)]
  simp only [touched_children, touched_key, hedge, hkey, hlen, hinside, if_true, Py.pure_apply]

theorem matchPrefixHelper_down (hedge : (c.nodes node).children.get? a = some child)
    (hkey : (c.nodes child).key = a :: x)
    (hlen : matchLen (a :: x) (a :: (x ++ s)) = x.length + 1) :
    matchPrefixHelper rt (fuel + 1) node (a :: (x ++ s)) c =
      matchPrefixHelper rt fuel child s (touched rt c node) := by
  have hthrough : ¬ x.length + 1 < (a :: x).length := Nat.lt_irrefl _
  have hdrop : (a :: (x ++ s)).drop (x.length + 1) = s := by simp
  rw [matchPrefixHelper, Py.bind_ok (touchNode_eq rt c node), Py.bind_ok (Py.get_apply _)]
  simp only [touched_children, touched_key, hedge, hkey, hlen, hthrough, if_false, hdrop]

end LookUps

/-- A look-up visits nodes. It returns nodes of the tree only, and finds the node whose
string is the key, if there is one. -/
theorem matchPrefixHelper_spec (rt : Runtime n) (fuel : ℕ) {node : ℕ} {key : List ℕ}
    (hc : WellFormed c σ) (hnode : node ∈ c.allNodes) (hfuel : key.length < fuel) :
    ∃ found c', matchPrefixHelper rt fuel node key c = .ok found c' ∧ Visited c c' ∧
      (∀ m ∈ found, m ∈ c.allNodes) ∧
      ∀ m ∈ c.allNodes, σ m = σ node ++ key → found = some m := by
  induction fuel generalizing c node key with
  | zero => exact absurd hfuel (Nat.not_lt_zero _)
  | succ fuel ih =>
    have hvisit := touched_visited rt c node
    have hself : ∀ m ∈ some node, m ∈ c.allNodes := by
      rintro m ⟨⟩
      exact hnode
    cases key with
    | nil =>
      refine ⟨some node, _, matchPrefixHelper_nil rt fuel, hvisit, hself, ?_⟩
      intro m hm hspell
      rw [List.append_nil] at hspell
      rw [hc.spelled.eq_of_spell_eq hm hnode hspell]
    | cons a key =>
      cases hget : (c.nodes node).children.get? a with
      | none =>
        refine ⟨some node, _, matchPrefixHelper_none rt fuel hget, hvisit, hself, ?_⟩
        -- no string of the tree continues with this token
        intro m hm hspell
        exact absurd (hspell ▸ List.prefix_refl _)
          (hc.spelled.not_prefix_of_no_edge (x := key) hnode hm hget)
      | some child =>
        have hedge : c.tree.Edge node a child := hget
        obtain ⟨hchild, -, rest, hkey⟩ := hc.spelled.down node hnode a child hedge
        have hkey : (c.nodes child).key = a :: rest := hkey
        have hspell : σ child = σ node ++ (c.nodes child).key := hc.spelled.spell_child hnode hedge
        obtain ⟨x, r, s, rfl, rfl, hlen, hdiff⟩ := matchLen_spec rest key
        have hlen' : matchLen (a :: (x ++ r)) (a :: (x ++ s)) = x.length + 1 := by
          simp [matchLen, hlen]
        cases r with
        | cons b y =>
          -- what parts from the label inside the edge is not in the tree
          refine ⟨none, _, matchPrefixHelper_inside rt fuel hget hkey hlen', hvisit, by simp, ?_⟩
          intro m hm hspell'
          exact absurd hspell' (hc.spelled.spell_ne_of_parts hnode hm hedge
            (List.cons_ne_nil a x) hkey (fun d hd hdb => hdiff b rfl d hd hdb.symm))
        | nil =>
          rw [List.append_nil] at hkey hlen'
          have hshort : s.length < fuel := by
            simp only [List.length_cons, List.length_append] at hfuel
            omega
          obtain ⟨found, c', hrun, hvisit', hmem, hfound⟩ :=
            ih (hvisit.sameShape.wellFormed hc) hchild hshort
          refine ⟨found, c', ?_, hvisit.trans hvisit', hmem, ?_⟩
          · rw [matchPrefixHelper_down rt fuel hget hkey hlen']
            exact hrun
          · intro m hm hspell'
            apply hfound m hm
            rw [hspell', hspell, hkey]
            simp

theorem findNode_spec (rt : Runtime n) (hc : WellFormed c σ) (key : List ℕ) :
    ∃ found c', findNode rt key c = .ok found c' ∧ Visited c c' ∧
      (∀ m ∈ found, m ∈ c.allNodes) ∧ ∀ m ∈ c.allNodes, σ m = key → found = some m := by
  have hspec := matchPrefixHelper_spec rt (key.length + 1) hc hc.root_mem
    (Nat.lt_succ_self key.length)
  have hroot : σ rootNode = [] := hc.spelled.root_spell
  rw [hroot, List.nil_append] at hspec
  exact hspec

end DualMap.Preble.LPRadixCache
