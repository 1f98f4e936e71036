import DualMap.Foundation.PyEffect
import DualMap.Foundation.Heapq
import DualMap.Foundation.RadixWalk
import Mathlib.Data.List.Lex
import Mathlib.Data.Prod.Lex
import Mathlib.Order.Lattice.Nat
import Mathlib.Algebra.Order.Field.Rat

/-!
# The Global Radix Cache of the Preble Scheduler

The model of `global_lru_cache_preble.py`: a radix tree over the token sequences of all
requests, whose nodes say on which replicas (GPUs) their tokens are cached, how many
uncompleted requests of each replica run through them, and when they were last visited.

A `TreeNode` is an object, known by the id it gets when it is made; `LPRadixCache.nodes` is
the store of these objects. `time.time()` is a parameter, the `i`-th reading being `time i`,
and so is the order in which a Python set is iterated.
-/

namespace DualMap.Preble

/-- What the code leaves to the Python runtime: the clock, and the order in which a set of
nodes or of replica ids is iterated. -/
structure Runtime (n : ℕ) where
  time : ℕ → ℚ
  iterNodes : Finset ℕ → List ℕ
  iterGpus : Finset (Fin n) → List (Fin n)
  iterNodes_perm : ∀ s, (iterNodes s).Nodup ∧ ∀ x, x ∈ iterNodes s ↔ x ∈ s
  iterGpus_perm : ∀ s, (iterGpus s).Nodup ∧ ∀ x, x ∈ iterGpus s ↔ x ∈ s

/-- A runtime whose clock reads `time` and that iterates sets in ascending order. -/
def Runtime.ascending (n : ℕ) (time : ℕ → ℚ) : Runtime n where
  time := time
  iterNodes s := (List.range (s.sup id + 1)).filter (· ∈ s)
  iterGpus s := (List.finRange n).filter (· ∈ s)
  iterNodes_perm := by
    intro s
    refine ⟨List.nodup_range.filter _, fun x => ?_⟩
    simp only [List.mem_filter, List.mem_range, decide_eq_true_eq, and_iff_right_iff_imp]
    intro hx
    exact Nat.lt_succ_of_le (Finset.le_sup (f := id) hx)
  iterGpus_perm := by
    intro s
    refine ⟨(List.nodup_finRange n).filter _, fun x => ?_⟩
    simp

/-- `TreeNode`. Tokens are natural numbers. -/
structure TreeNode (n : ℕ) where
  children : OrderedDict ℕ ℕ := .empty
  parent : Option ℕ := none
  value : List ℕ := []
  key : List ℕ := []
  numUncompletedRequestForGpuMap : Fin n → ℤ := fun _ => 0
  load : ℕ := 0
  lastAccessTime : ℚ
  evictedGpus : Finset (Fin n) := ∅
  cachedGpus : Finset (Fin n) := ∅
  decodeLengthQueue : List ℚ := []
  contextLength : ℕ := 0
  depth : ℕ := 0

namespace TreeNode

variable {n : ℕ}

/-- `has_cached_gpu`. -/
def hasCachedGpu (x : TreeNode n) (gpu : Fin n) : Prop :=
  gpu ∈ x.cachedGpus ∧ gpu ∉ x.evictedGpus

instance (x : TreeNode n) (gpu : Fin n) : Decidable (x.hasCachedGpu gpu) :=
  inferInstanceAs (Decidable (_ ∧ _))

/-- `num_tokens`. -/
def numTokens (x : TreeNode n) : ℕ := x.value.length

/-- `context_so_far`. -/
def contextSoFar (x : TreeNode n) : ℤ := x.contextLength - x.numTokens

/-- What `__lt__` compares: the lists of counts, and the access times where they are
equal. -/
def heapKey (x : TreeNode n) : List ℤ ×ₗ ℚ :=
  toLex (List.ofFn x.numUncompletedRequestForGpuMap, x.lastAccessTime)

end TreeNode

/-- `match`: how many leading tokens two sequences share. -/
def matchLen : List ℕ → List ℕ → ℕ
  | k :: key, w :: seq => if k = w then matchLen key seq + 1 else 0
  | _, _ => 0

/-- `LPRadixCache`. Node ids below `nextId` are given out, and `ticks` readings of the clock
have been taken. -/
structure LPRadixCache (n : ℕ) where
  nodes : ℕ → TreeNode n
  nextId : ℕ
  ticks : ℕ
  allNodes : Finset ℕ
  allocatedSizeForGpusList : Fin n → ℤ

namespace LPRadixCache

variable {n : ℕ}

/-- `root_node` is the first object made. -/
def rootNode : ℕ := 0

/-- `__init__`, that is `reset`. -/
def init (rt : Runtime n) : LPRadixCache n where
  nodes _ := { numUncompletedRequestForGpuMap := fun _ => 1, lastAccessTime := rt.time 0 }
  nextId := 1
  ticks := 1
  allNodes := {rootNode}
  allocatedSizeForGpusList _ := 0

/-- The tree that the objects form. -/
def tree (c : LPRadixCache n) : RadixTree ℕ ℕ where
  root := rootNode
  nodes := c.allNodes
  parent m := (c.nodes m).parent
  label m := (c.nodes m).key
  children m := (c.nodes m).children

/-! ## Objects and the clock -/

variable (rt : Runtime n)

/-- `time.time()`. -/
def readTime : Py (LPRadixCache n) ℚ :=
  modifyGet (fun c => (rt.time c.ticks, { c with ticks := c.ticks + 1 }))

/-- `TreeNode(num_nodes=self.num_gpus)`. -/
def newTreeNode : Py (LPRadixCache n) ℕ := do
  let now ← readTime rt
  modifyGet (fun c => (c.nextId,
    { c with
      nodes := Function.update c.nodes c.nextId { lastAccessTime := now }
      nextId := c.nextId + 1 }))

/-- Assign to fields of an object. -/
def modifyNode (node : ℕ) (f : TreeNode n → TreeNode n) : Py (LPRadixCache n) Unit :=
  modify (fun c => { c with nodes := Function.update c.nodes node (f (c.nodes node)) })

/-- `node.last_access_time = time.time()`. -/
def touchNode (node : ℕ) : Py (LPRadixCache n) Unit := do
  let now ← readTime rt
  modifyNode node (fun x => { x with lastAccessTime := now })

/-! ## Looking up -/

/-- `_match_prefix_helper`: `none` where the key ends or parts inside an edge. -/
def matchPrefixHelper : ℕ → ℕ → List ℕ → Py (LPRadixCache n) (Option ℕ)
  | 0, _, _ => throw .hang
  | fuel + 1, node, key => do
    touchNode rt node
    match key with
    | [] => pure (some node)
    | token :: _ =>
      let c ← get
      match (c.nodes node).children.get? token with
      | none => pure (some node)
      | some child =>
        let prefixLen := matchLen (c.nodes child).key key
        if prefixLen < (c.nodes child).key.length then
          pure none
        else
          matchPrefixHelper fuel child (key.drop prefixLen)

/-- `find_node`. Every call of the helper takes a token off the key. -/
def findNode (key : List ℕ) : Py (LPRadixCache n) (Option ℕ) :=
  matchPrefixHelper rt (key.length + 1) rootNode key

/-! ## Inserting -/

/-- `_split_node`, for which `key` is the key of `child`. -/
def splitNode (key : List ℕ) (child splitLen : ℕ) : Py (LPRadixCache n) ℕ := do
  let newNode ← newTreeNode rt
  let below ← Py.ofOption .indexError (key.drop splitLen).head?
  let x := (← get).nodes child
  modifyNode newNode (fun y => { y with
    children := .single below child
    key := x.key.take splitLen
    parent := x.parent
    load := x.load
    depth := x.depth
    cachedGpus := x.cachedGpus
    evictedGpus := x.evictedGpus
    numUncompletedRequestForGpuMap := x.numUncompletedRequestForGpuMap })
  let parent ← Py.ofOption .attributeError x.parent
  let parentContextLength := ((← get).nodes parent).contextLength
  modifyNode newNode (fun y => { y with
    contextLength := parentContextLength + splitLen
    value := x.value.take splitLen })
  modifyNode child (fun y => { y with
    parent := some newNode
    key := y.key.drop splitLen
    value := y.value.drop splitLen
    depth := x.depth + 1 })
  let above ← Py.ofOption .indexError (key.take splitLen).head?
  modifyNode parent (fun y => { y with children := y.children.set above newNode })
  modify (fun c => { c with allNodes := insert newNode c.allNodes })
  pure newNode

/-- `_insert_helper`: the node for the key, and the dictionary of the nodes that were split,
with the new node above each. -/
def insertHelper : ℕ → ℕ → List ℕ → List ℕ → OrderedDict ℕ ℕ → ℕ → ℕ →
    Py (LPRadixCache n) (ℕ × OrderedDict ℕ ℕ)
  | 0, _, _, _, _, _, _ => throw .hang
  | fuel + 1, node, key, value, splitNodes, parentContextLength, depth => do
    touchNode rt node
    modifyNode node (fun x => { x with load := x.load + 1 })
    match key with
    | [] => pure (node, splitNodes)
    | token :: _ =>
      let c ← get
      match (c.nodes node).children.get? token with
      | some child =>
        let childKey := (c.nodes child).key
        let prefixLen := matchLen childKey key
        if prefixLen = childKey.length then
          if prefixLen = key.length then do
            modifyNode child (fun x => { x with load := x.load + 1 })
            pure (child, splitNodes)
          else
            insertHelper fuel child (key.drop prefixLen) (value.drop prefixLen) splitNodes
              (parentContextLength + prefixLen) (depth + 1)
        else do
          let newNode ← splitNode rt childKey child prefixLen
          -- the recursion starts at the new node, two levels deeper by its own count
          insertHelper fuel newNode (key.drop prefixLen) (value.drop prefixLen)
            (splitNodes.set child newNode) (parentContextLength + prefixLen) (depth + 2)
      | none => do
        let newNode ← newTreeNode rt
        modifyNode newNode (fun y => { y with
          parent := some node
          value := value
          key := key
          load := 1
          depth := depth + 1
          contextLength := parentContextLength + key.length })
        modifyNode node (fun x => { x with children := x.children.set token newNode })
        modify (fun c => { c with allNodes := insert newNode c.allNodes })
        pure (newNode, splitNodes)

/-- `insert`. The value defaults to the tokens of the key. -/
def insert (key : List ℕ) (value : Option (List ℕ)) (splitNodes : OrderedDict ℕ ℕ) :
    Py (LPRadixCache n) (ℕ × OrderedDict ℕ ℕ) :=
  insertHelper rt (key.length + 1) rootNode key (value.getD key) splitNodes 0 0

/-! ## Walking -/

/-- The node, its parent and so on up to the root: the nodes that `while node: ...;
node = node.parent` visits. Every edge has a token, so the context length bounds them. -/
def ancestors (c : LPRadixCache n) (node : ℕ) : List ℕ :=
  c.tree.ancestors ((c.nodes node).contextLength + 1) node

/-- `_collect_nodes`: depth first, each node before its children. -/
def collectNodes (c : LPRadixCache n) : List ℕ := c.tree.preorder c.allNodes.card rootNode

/-- `_total_size_helper`. -/
def totalSizeHelper (c : LPRadixCache n) : ℕ → ℕ → ℕ
  | 0, _ => 0
  | fuel + 1, node =>
    (c.nodes node).value.length +
      ((c.nodes node).children.values.map (totalSizeHelper c fuel)).sum

/-- `total_size`. No way down is longer than there are nodes. -/
def totalSize (c : LPRadixCache n) : ℕ := c.totalSizeHelper c.allNodes.card rootNode

/-! ## Reference counts -/

/-- `dec_num_uncompleted_request_for_gpu`. The root, where the walk ends, is left out; a
missing node is a `None` that is asked for its counts. -/
def decNumUncompletedRequestForGpu (node : Option ℕ) (runtimeId : Fin n) :
    Py (LPRadixCache n) Unit := do
  let node ← Py.ofOption .attributeError node
  let c ← get
  ((c.ancestors node).takeWhile (· ≠ rootNode)).forM (fun m => do
    modifyNode m (fun x => { x with
      numUncompletedRequestForGpuMap := Function.update x.numUncompletedRequestForGpuMap
        runtimeId (x.numUncompletedRequestForGpuMap runtimeId - 1) })
    let c ← get
    Py.assert (0 ≤ (c.nodes m).numUncompletedRequestForGpuMap runtimeId))

/-- `remove_completed_input_ids`. -/
def removeCompletedInputIds (inputIds : List ℕ) (runtimeId : Fin n) :
    Py (LPRadixCache n) Unit := do
  let node ← findNode rt inputIds
  decNumUncompletedRequestForGpu node runtimeId

/-- The body of the loop of `update_cache_metadada`. -/
def countRequest (runtimeId : Fin n) (node : ℕ) : Py (LPRadixCache n) Unit := do
  modifyNode node (fun x => { x with
    numUncompletedRequestForGpuMap := Function.update x.numUncompletedRequestForGpuMap
      runtimeId (x.numUncompletedRequestForGpuMap runtimeId + 1) })
  let x := (← get).nodes node
  if ¬ x.hasCachedGpu runtimeId then do
    modify (fun c => { c with
      allocatedSizeForGpusList := Function.update c.allocatedSizeForGpusList runtimeId
        (c.allocatedSizeForGpusList runtimeId + x.value.length) })
    modifyNode node (fun x => { x with
      evictedGpus := x.evictedGpus.erase runtimeId
      cachedGpus := Insert.insert runtimeId x.cachedGpus })

/-- `update_cache_metadada`. -/
def updateCacheMetadada (node : ℕ) (runtimeId : Fin n) : Py (LPRadixCache n) Unit := do
  let c ← get
  (c.ancestors node).forM (countRequest runtimeId)

/-! ## Eviction -/

/-- `allocated_size_for_gpu`. -/
def allocatedSizeForGpu (c : LPRadixCache n) (runtimeId : Fin n) : ℤ :=
  c.allocatedSizeForGpusList runtimeId

/-- `collected_nodes_with_runtime_idx`: the cached nodes without uncompleted requests. The
allocated size is counted anew on the way. -/
def collectedNodesWithRuntimeIdx (runtimeId : Fin n) : Py (LPRadixCache n) (List ℕ) := do
  let c ← get
  let nodes := c.collectNodes
  let currentAllocatedSize :=
    ((nodes.filter (fun m => (c.nodes m).hasCachedGpu runtimeId)).map
      (fun m => ((c.nodes m).value.length : ℤ))).sum
  let priorityQueue :=
    (nodes.filter (fun m => (c.nodes m).numUncompletedRequestForGpuMap runtimeId = 0 ∧
      (c.nodes m).hasCachedGpu runtimeId)).foldl
      (Heapq.heappush (fun m => (c.nodes m).heapKey)) []
  set { c with
    allocatedSizeForGpusList :=
      Function.update c.allocatedSizeForGpusList runtimeId currentAllocatedSize }
  pure priorityQueue

/-- The loop of `evict_with_runtime_id_without_removing`. -/
def evictLoop (numTokensToEvict : ℚ) (evictCallback : ℕ → Py (LPRadixCache n) ℕ)
    (runtimeId : Fin n) : ℕ → List ℕ → ℕ → Py (LPRadixCache n) Unit
  | 0, _, _ => throw .hang
  | fuel + 1, leaves, numEvicted => do
    if (numEvicted : ℚ) < numTokensToEvict then
      let c ← get
      match Heapq.heappop (fun m => (c.nodes m).heapKey) leaves with
      | none => pure ()
      | some (x, leaves) =>
        if x = rootNode then
          pure ()
        else if 0 < (c.nodes x).numUncompletedRequestForGpuMap runtimeId then
          evictLoop numTokensToEvict evictCallback runtimeId fuel leaves numEvicted
        else if (c.nodes x).hasCachedGpu runtimeId then do
          modify (fun c => { c with
            allocatedSizeForGpusList := Function.update c.allocatedSizeForGpusList runtimeId
              (c.allocatedSizeForGpusList runtimeId - (c.nodes x).value.length) })
          let evicted ← evictCallback x
          let c ← get
          let parent ← Py.ofOption .attributeError (c.nodes x).parent
          -- the parent becomes a leaf once no other child of it is cached here
          if ∀ child ∈ (c.nodes parent).children.values, child ≠ x →
              ¬ (c.nodes child).hasCachedGpu runtimeId then
            evictLoop numTokensToEvict evictCallback runtimeId fuel
              (Heapq.heappush (fun m => (c.nodes m).heapKey) leaves parent)
              (numEvicted + evicted)
          else
            evictLoop numTokensToEvict evictCallback runtimeId fuel leaves (numEvicted + evicted)
        else
          evictLoop numTokensToEvict evictCallback runtimeId fuel leaves numEvicted
    else pure ()

/-- `evict_with_runtime_id_without_removing`. Every turn takes a node off the heap, and only
an eviction puts one there, which no node undergoes twice. -/
def evictWithRuntimeIdWithoutRemoving (numTokensToEvict : ℚ)
    (evictCallback : ℕ → Py (LPRadixCache n) ℕ) (runtimeId : Fin n) :
    Py (LPRadixCache n) Unit := do
  let leaves ← collectedNodesWithRuntimeIdx runtimeId
  let c ← get
  evictLoop numTokensToEvict evictCallback runtimeId (leaves.length + c.allNodes.card + 1)
    (Heapq.heapify (fun m => (c.nodes m).heapKey) leaves) 0

/-- `collect_nodes_on_runtime_by_ref_cnt_and_access_time`. -/
def collectNodesOnRuntime (c : LPRadixCache n) (runtimeId : Fin n) : List ℕ :=
  ((rt.iterNodes c.allNodes).filter (fun m => (c.nodes m).hasCachedGpu runtimeId)).foldl
    (Heapq.heappush (fun m => (c.nodes m).heapKey)) []

/-- The loop of `virtual_lru_eviction`, which changes nothing. The nodes visited are the
nodes evicted virtually. -/
def virtualEvictLoop (c : LPRadixCache n) (numTokensToEvict : ℕ) (runtimeId : Fin n) :
    ℕ → List ℕ → ℕ → Finset ℕ → Except Fault (Finset ℕ)
  | 0, _, _, _ => .error .hang
  | fuel + 1, leaves, numEvicted, visited =>
    if numEvicted < numTokensToEvict then
      match Heapq.heappop (fun m => (c.nodes m).heapKey) leaves with
      | none => .ok visited
      | some (x, leaves) =>
        if x = rootNode then
          .ok visited
        else
          match (c.nodes x).parent with
          | none => .error (.exception .attributeError)
          | some parent =>
            let visited := Insert.insert x visited
            let leaves :=
              if ∀ child ∈ (c.nodes parent).children.values,
                  ¬ (child ≠ x ∧ (c.nodes child).hasCachedGpu runtimeId ∧ child ∉ visited) then
                Heapq.heappush (fun m => (c.nodes m).heapKey) leaves parent
              else leaves
            virtualEvictLoop c numTokensToEvict runtimeId fuel leaves
              (numEvicted + (c.nodes x).value.length) visited
    else .ok visited

/-- `virtual_lru_eviction`. A node that leaves the heap puts at most its parent there, whose
context is shorter. -/
def virtualLruEviction (c : LPRadixCache n) (numTokensToEvict : ℕ) (runtimeId : Fin n) :
    Except Fault (Finset ℕ) :=
  let leaves := c.collectNodesOnRuntime rt runtimeId
  c.virtualEvictLoop numTokensToEvict runtimeId
    ((leaves.map (fun m => (c.nodes m).contextLength + 1)).sum + 1)
    (Heapq.heapify (fun m => (c.nodes m).heapKey) leaves) 0 ∅

end LPRadixCache

end DualMap.Preble
