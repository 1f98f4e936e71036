import DualMap.Foundation.OrderedDict
import Mathlib.Data.Finset.Card
import Mathlib.Data.Finset.Image
import Mathlib.Data.Finset.Union
import Mathlib.Data.Finset.Dedup
import Mathlib.Data.List.Basic
import Mathlib.Algebra.BigOperators.Group.Finset.Basic
import Mathlib.Logic.Function.Basic

/-!
# Radix Trees over a Store of Nodes

A radix tree whose nodes are identities: each has a parent, a label (the tokens on the edge
from its parent) and a dictionary of children by the first token of their labels. The tree
may share its store with other things, so `nodes` says which identities belong to it.

`Spelled σ` is the invariant: the links agree with each other, and `σ m` is the string from
the root to the node `m`. It is local, an equation for each edge, and yet says everything:
- `eq_of_spell_eq`: a node is determined by its string;
- `prefix_child`: below every prefix of a string of the tree, the links lead on to it;
- `edge_prefix`: a string that ends inside an edge continues only through that edge;
- `prefix_of_shared`: so what shares more with a node than its parent has is at or below it;
- `sum_length_label`: the labels are as long as the tree reads different strings.

Two operations let a tree grow: `split` cuts an edge in two and keeps the old node as the
lower half, `graft` hangs a new node below an old one. Neither changes the string of a node
(`Spelled.split`, `Spelled.graft`).
-/

/-- A tree of labelled edges; `nodes` are the identities that belong to it. -/
@[ext] structure RadixTree (ι α : Type*) where
  root : ι
  nodes : Finset ι
  parent : ι → Option ι
  label : ι → List α
  children : ι → OrderedDict α ι

namespace RadixTree

variable {ι α : Type*} [DecidableEq α]

/-- The child of `p` whose label begins with the token `a`. -/
def Edge (t : RadixTree ι α) (p : ι) (a : α) (c : ι) : Prop := (t.children p).get? a = some c

/-- The strings along the ways from the root down to a node. -/
inductive RootPath (t : RadixTree ι α) : ι → List α → Prop
  | root : RootPath t t.root []
  | child {p c : ι} {s : List α} {a : α} (hp : RootPath t p s) (hedge : t.Edge p a c) :
      RootPath t c (s ++ t.label c)

/-- A string that can be read from the root, up to a node or up to somewhere inside an
edge. -/
def Reads (t : RadixTree ι α) (s : List α) : Prop :=
  ∃ m r, t.RootPath m r ∧
    (s = r ∨ ∃ a c x, t.Edge m a c ∧ x <+: t.label c ∧ s = r ++ x)

/-- The links of the tree agree, and `σ` gives the string of each node. -/
structure Spelled (t : RadixTree ι α) (σ : ι → List α) : Prop where
  root_mem : t.root ∈ t.nodes
  root_parent : t.parent t.root = none
  root_label : t.label t.root = []
  root_spell : σ t.root = []
  /-- Every other node hangs below its parent, under the first token of its label. -/
  up : ∀ c ∈ t.nodes, c ≠ t.root → ∃ p ∈ t.nodes, ∃ a rest, t.parent c = some p ∧
    t.label c = a :: rest ∧ t.Edge p a c ∧ σ c = σ p ++ t.label c
  /-- Every child is a node with this parent, and its label begins with its token. -/
  down : ∀ p ∈ t.nodes, ∀ a c, t.Edge p a c → c ∈ t.nodes ∧ t.parent c = some p ∧
    ∃ rest, t.label c = a :: rest

/-! ## The string of a node -/

section Spelled

variable {t : RadixTree ι α} {σ : ι → List α}

theorem Spelled.ne_root (h : t.Spelled σ) {p c : ι} {a : α} (hp : p ∈ t.nodes)
    (hedge : t.Edge p a c) : c ≠ t.root := by
  rintro rfl
  obtain ⟨-, hparent, -⟩ := h.down p hp a t.root hedge
  rw [h.root_parent] at hparent
  cases hparent

/-- The string of a child continues the one of its parent. -/
theorem Spelled.spell_child (h : t.Spelled σ) {p c : ι} {a : α} (hp : p ∈ t.nodes)
    (hedge : t.Edge p a c) : σ c = σ p ++ t.label c := by
  obtain ⟨hc, hparent, -⟩ := h.down p hp a c hedge
  obtain ⟨q, -, -, -, hparent', -, -, hspell⟩ := h.up c hc (h.ne_root hp hedge)
  rw [hparent] at hparent'
  rw [hspell, Option.some.inj hparent']

theorem Spelled.label_ne_nil (h : t.Spelled σ) {c : ι} (hc : c ∈ t.nodes) (hne : c ≠ t.root) :
    t.label c ≠ [] := by
  obtain ⟨p, -, a, rest, -, hlabel, -, -⟩ := h.up c hc hne
  simp [hlabel]

theorem Spelled.length_lt (h : t.Spelled σ) {p c : ι} {a : α} (hp : p ∈ t.nodes)
    (hedge : t.Edge p a c) : (σ p).length < (σ c).length := by
  obtain ⟨hc, -, rest, hlabel⟩ := h.down p hp a c hedge
  rw [h.spell_child hp hedge, hlabel, List.length_append, List.length_cons]
  omega

theorem Spelled.spell_eq_nil (h : t.Spelled σ) {m : ι} (hm : m ∈ t.nodes) :
    σ m = [] ↔ m = t.root := by
  constructor
  · intro hnil
    by_contra hne
    obtain ⟨p, -, a, rest, -, hlabel, -, hspell⟩ := h.up m hm hne
    rw [hnil, hlabel] at hspell
    simp at hspell
  · rintro rfl
    exact h.root_spell

/-- The ways from the root lead to the nodes, and along their strings. -/
theorem Spelled.rootPath_iff (h : t.Spelled σ) {m : ι} {s : List α} :
    t.RootPath m s ↔ m ∈ t.nodes ∧ s = σ m := by
  constructor
  · intro hpath
    induction hpath with
    | root => exact ⟨h.root_mem, h.root_spell.symm⟩
    | child hp hedge ih =>
      obtain ⟨hmem, rfl⟩ := ih
      exact ⟨(h.down _ hmem _ _ hedge).1, (h.spell_child hmem hedge).symm⟩
  · -- the way to a node is the one to its parent and one edge more
    rintro ⟨hm, rfl⟩
    induction hlen : (σ m).length using Nat.strong_induction_on generalizing m with
    | _ len ih =>
      by_cases hne : m = t.root
      · rw [hne, h.root_spell]
        exact RootPath.root
      · obtain ⟨p, hp, a, rest, -, -, hedge, hspell⟩ := h.up m hm hne
        have hlt := h.length_lt hp hedge
        rw [hspell]
        exact RootPath.child (ih _ (hlen ▸ hlt) hp rfl) hedge

omit [DecidableEq α] in
/-- Two continuations of a string inside a third one begin with the same token. -/
theorem head_eq_of_prefix {x s r r' : List α} {a a' : α} (h : x ++ a :: r <+: s)
    (h' : x ++ a' :: r' <+: s) : a = a' := by
  have hlen : x.length < (x ++ a :: r).length := by simp
  have hlen' : x.length < (x ++ a' :: r').length := by simp
  have hget := List.prefix_iff_getElem?.mp h x.length hlen
  have hget' := List.prefix_iff_getElem?.mp h' x.length hlen'
  simp only [List.getElem_append_right (le_refl x.length), Nat.sub_self,
    List.getElem_cons_zero] at hget hget'
  rw [hget] at hget'
  exact Option.some.inj hget'

/-- A node hangs below one node, under one token. -/
theorem Spelled.parent_unique (h : t.Spelled σ) {p q c : ι} {a a' : α} (hp : p ∈ t.nodes)
    (hq : q ∈ t.nodes) (hedge : t.Edge p a c) (hedge' : t.Edge q a' c) : q = p ∧ a' = a := by
  obtain ⟨-, hparent, rest, hlabel⟩ := h.down p hp a c hedge
  obtain ⟨-, hparent', rest', hlabel'⟩ := h.down q hq a' c hedge'
  rw [hparent] at hparent'
  rw [hlabel] at hlabel'
  exact ⟨(Option.some.inj hparent').symm, (List.cons.inj hlabel').1.symm⟩

/-- Two children of a node on the way to the same string are the same. -/
theorem Spelled.edge_unique (h : t.Spelled σ) {p c c' : ι} {a a' : α} {s : List α}
    (hp : p ∈ t.nodes) (hedge : t.Edge p a c) (hedge' : t.Edge p a' c') (hs : σ c <+: s)
    (hs' : σ c' <+: s) : c = c' := by
  obtain ⟨-, -, rest, hlabel⟩ := h.down p hp a c hedge
  obtain ⟨-, -, rest', hlabel'⟩ := h.down p hp a' c' hedge'
  rw [h.spell_child hp hedge, hlabel] at hs
  rw [h.spell_child hp hedge', hlabel'] at hs'
  obtain rfl := head_eq_of_prefix hs hs'
  have hsame : some c = some c' := hedge.symm.trans hedge'
  exact Option.some.inj hsame

/-- No node lies strictly inside an edge: a node whose string is a prefix of the one of
`m`, and longer than the one of the parent of `m`, is `m`. -/
theorem Spelled.eq_of_inside (h : t.Spelled σ) {m q : ι} {a : α} (hq : q ∈ t.nodes)
    (hedge : t.Edge q a m)
    (hq' : ∀ p ∈ t.nodes, σ p <+: σ q → p = q ∨ ∃ b c, t.Edge p b c ∧ σ c <+: σ q)
    {p : ι} (hp : p ∈ t.nodes) (hpre : σ p <+: σ m) (hlen : (σ q).length < (σ p).length) :
    p = m := by
  -- induction on the string of `p`: its parent is `q`, or lies inside the edge as well
  induction hl : (σ p).length using Nat.strong_induction_on generalizing p with
  | _ len ih =>
    have hne : p ≠ t.root := by
      rintro rfl
      rw [h.root_spell] at hlen
      simp at hlen
    obtain ⟨r, hr, b, rest, -, -, hedge', hspell⟩ := h.up p hp hne
    have hlt := h.length_lt hr hedge'
    have hrm : σ r <+: σ m := (hspell ▸ List.prefix_append _ _ : σ r <+: σ p).trans hpre
    have hqm : σ q <+: σ m := h.spell_child hq hedge ▸ List.prefix_append _ _
    rcases Nat.lt_or_ge (σ q).length (σ r).length with hinside | houtside
    · -- then the parent of `p` is `m`, and `p` lies below `m`
      have hrm' := ih _ (hl ▸ hlt) hr hrm hinside rfl
      have hle := hpre.length_le
      rw [hrm'] at hlt
      omega
    · have hrq : σ r <+: σ q := List.prefix_of_prefix_length_le hrm hqm houtside
      rcases hq' r hr hrq with rfl | ⟨b', c, hedge'', hc⟩
      · exact h.edge_unique hr hedge' hedge hpre (List.prefix_refl _)
      · -- the child of `r` on the way to `q` would be `p`, which is longer than `q`
        obtain rfl := h.edge_unique hr hedge' hedge'' hpre (hc.trans hqm)
        have hle := hc.length_le
        omega

/-- If the string of a node is a prefix of the one of `m`, the node is `m`, or one of its
children is on the way to `m`. -/
theorem Spelled.prefix_child (h : t.Spelled σ) {p m : ι} (hp : p ∈ t.nodes) (hm : m ∈ t.nodes)
    (hpre : σ p <+: σ m) : p = m ∨ ∃ a c, t.Edge p a c ∧ σ c <+: σ m := by
  induction hl : (σ m).length using Nat.strong_induction_on generalizing m p with
  | _ len ih =>
    by_cases hroot : m = t.root
    · left
      rw [hroot, h.root_spell, List.prefix_nil] at hpre
      rw [hroot, (h.spell_eq_nil hp).mp hpre]
    · obtain ⟨q, hq, a, rest, -, -, hedge, hspell⟩ := h.up m hm hroot
      have hlt := h.length_lt hq hedge
      have hqm : σ q <+: σ m := hspell ▸ List.prefix_append _ _
      have hq' : ∀ r ∈ t.nodes, σ r <+: σ q → r = q ∨ ∃ b c, t.Edge r b c ∧ σ c <+: σ q :=
        fun r hr hrq => ih _ (hl ▸ hlt) hr hq hrq rfl
      rcases Nat.lt_or_ge (σ q).length (σ p).length with hinside | houtside
      · exact Or.inl (h.eq_of_inside hq hedge hq' hp hpre hinside)
      · -- `p` is at or above the parent of `m`
        right
        rcases hq' p hp (List.prefix_of_prefix_length_le hpre hqm houtside) with
          rfl | ⟨b, c, hedge', hc⟩
        · exact ⟨a, m, hedge, List.prefix_refl _⟩
        · exact ⟨b, c, hedge', hc.trans hqm⟩

/-- A node is determined by its string. -/
theorem Spelled.eq_of_spell_eq (h : t.Spelled σ) {m m' : ι} (hm : m ∈ t.nodes)
    (hm' : m' ∈ t.nodes) (heq : σ m = σ m') : m = m' := by
  rcases h.prefix_child hm hm' (heq ▸ List.prefix_refl _) with hsame | ⟨a, c, hedge, hc⟩
  · exact hsame
  · have hlt := h.length_lt hm hedge
    have hle := hc.length_le
    rw [heq] at hlt
    omega

/-- What continues inside an edge continues through it: a node beyond a proper beginning of
the label of `c` is at or below `c`. -/
theorem Spelled.edge_prefix (h : t.Spelled σ) {p c m : ι} {a : α} {x : List α}
    (hp : p ∈ t.nodes) (hm : m ∈ t.nodes) (hedge : t.Edge p a c) (hx : x ≠ [])
    (hlabel : x <+: t.label c) (hpre : σ p ++ x <+: σ m) : σ c <+: σ m := by
  rcases h.prefix_child hp hm ((List.prefix_append _ _).trans hpre) with
    rfl | ⟨a', c', hedge', hc'⟩
  · -- `m` is shorter than the string that continues inside the edge
    have hle := hpre.length_le
    have hpos := List.length_pos_iff.mpr hx
    rw [List.length_append] at hle
    omega
  · obtain ⟨-, -, rest, hrest⟩ := h.down p hp a c hedge
    obtain ⟨-, -, rest', hrest'⟩ := h.down p hp a' c' hedge'
    -- both labels begin with the first token of `x`
    obtain ⟨b, y, rfl⟩ := List.exists_cons_of_ne_nil hx
    rw [hrest, List.cons_prefix_cons] at hlabel
    have hc'' := hc'
    rw [h.spell_child hp hedge', hrest'] at hc''
    have haa := head_eq_of_prefix hc'' hpre
    rw [haa, hlabel.1] at hedge'
    have hsame : some c = some c' := hedge.symm.trans hedge'
    rw [Option.some.inj hsame]
    exact hc'

/-- Strings that share more of the path of `c` than its parent has are at or below `c`. -/
theorem Spelled.prefix_of_shared (h : t.Spelled σ) {p c m : ι} {a : α} {z : List α}
    (hp : p ∈ t.nodes) (hm : m ∈ t.nodes) (hedge : t.Edge p a c) (hlong : (σ p).length < z.length)
    (hzc : z <+: σ c) (hzm : z <+: σ m) : σ c <+: σ m := by
  rw [h.spell_child hp hedge] at hzc
  obtain ⟨x, rfl⟩ := List.prefix_of_prefix_length_le (List.prefix_append _ _) hzc hlong.le
  have hx : x ≠ [] := by
    rintro rfl
    rw [List.append_nil] at hlong
    exact lt_irrefl _ hlong
  exact h.edge_prefix hp hm hedge hx ((List.prefix_append_right_inj _).mp hzc) hzm

/-- Where a node has no child for a token, the tree reads nothing that continues with it. -/
theorem Spelled.not_prefix_of_no_edge (h : t.Spelled σ) {p m : ι} {a : α} {x : List α}
    (hp : p ∈ t.nodes) (hm : m ∈ t.nodes) (hnone : (t.children p).get? a = none) :
    ¬ σ p ++ a :: x <+: σ m := by
  intro hpre
  rcases h.prefix_child hp hm ((List.prefix_append _ _).trans hpre) with
    rfl | ⟨a', c, hedge, hc⟩
  · have hle := hpre.length_le
    rw [List.length_append, List.length_cons] at hle
    omega
  · obtain ⟨-, -, rest, hrest⟩ := h.down p hp a' c hedge
    rw [h.spell_child hp hedge, hrest] at hc
    obtain rfl := head_eq_of_prefix hc hpre
    rw [Edge, hnone] at hedge
    cases hedge

/-- A string that leaves the label of an edge before its end is not the string of a node. -/
theorem Spelled.spell_ne_of_parts (h : t.Spelled σ) {p c m : ι} {a b : α} {x y s : List α}
    (hp : p ∈ t.nodes) (hm : m ∈ t.nodes) (hedge : t.Edge p a c) (hx : x ≠ [])
    (hlabel : t.label c = x ++ b :: y) (hparts : ∀ d ∈ s.head?, d ≠ b) :
    σ m ≠ σ p ++ (x ++ s) := by
  intro hspell
  -- the string would have to go through the edge
  have hthrough : σ c <+: σ m := by
    refine h.edge_prefix hp hm hedge hx ?_ ?_
    · rw [hlabel]
      exact List.prefix_append _ _
    · rw [hspell, ← List.append_assoc]
      exact List.prefix_append _ _
  rw [h.spell_child hp hedge, hspell, hlabel, List.prefix_append_right_inj,
    List.prefix_append_right_inj] at hthrough
  cases s with
  | nil => exact absurd (List.prefix_nil.mp hthrough) (List.cons_ne_nil b y)
  | cons d s => exact hparts d rfl (List.cons_prefix_cons.mp hthrough).1.symm

/-- A string can be read exactly when it is a prefix of the string of a node. -/
theorem Spelled.reads_iff (h : t.Spelled σ) {s : List α} :
    t.Reads s ↔ ∃ m ∈ t.nodes, s <+: σ m := by
  constructor
  · rintro ⟨m, r, hpath, hs⟩
    obtain ⟨hm, rfl⟩ := h.rootPath_iff.mp hpath
    rcases hs with rfl | ⟨a, c, x, hedge, hx, rfl⟩
    · exact ⟨m, hm, List.prefix_refl _⟩
    · refine ⟨c, (h.down m hm a c hedge).1, ?_⟩
      rw [h.spell_child hm hedge]
      exact (List.prefix_append_right_inj _).mpr hx
  · rintro ⟨m, hm, hs⟩
    -- go up from `m` to the edge in which `s` ends
    induction hl : (σ m).length using Nat.strong_induction_on generalizing m with
    | _ len ih =>
      by_cases hroot : m = t.root
      · refine ⟨t.root, [], RootPath.root, Or.inl ?_⟩
        rw [hroot, h.root_spell, List.prefix_nil] at hs
        exact hs
      · obtain ⟨q, hq, a, rest, -, -, hedge, hspell⟩ := h.up m hm hroot
        have hqm : σ q <+: σ m := hspell ▸ List.prefix_append _ _
        rcases List.prefix_or_prefix_of_prefix hs hqm with habove | hbelow
        · exact ih _ (hl ▸ h.length_lt hq hedge) q hq habove rfl
        · obtain ⟨x, rfl⟩ := hbelow
          refine ⟨q, σ q, h.rootPath_iff.mpr ⟨hq, rfl⟩, Or.inr ⟨a, m, x, hedge, ?_, rfl⟩⟩
          rw [hspell] at hs
          exact (List.prefix_append_right_inj _).mp hs

end Spelled

/-! ## Growing -/

section Grow

variable [DecidableEq ι]

/-- The tree of a root alone. -/
def leaf (root : ι) : RadixTree ι α where
  root := root
  nodes := {root}
  parent := fun _ => none
  label := fun _ => []
  children := fun _ => .empty

omit [DecidableEq ι] in
theorem spelled_leaf (root : ι) : (leaf root : RadixTree ι α).Spelled (fun _ => []) where
  root_mem := Finset.mem_singleton_self root
  root_parent := rfl
  root_label := rfl
  root_spell := rfl
  up := by
    intro c hc hne
    exact absurd (Finset.mem_singleton.mp hc) hne
  down := by
    intro p _ a c hedge
    cases hedge

/-- Cut the edge from `p` to its child `c` in two: the new node `f` takes over the first
part `a :: x` of the label and the place of `c`, which keeps the rest `b :: y`. -/
def split (t : RadixTree ι α) (p c f : ι) (a : α) (x : List α) (b : α) (y : List α) :
    RadixTree ι α where
  root := t.root
  nodes := insert f t.nodes
  parent := Function.update (Function.update t.parent f (some p)) c (some f)
  label := Function.update (Function.update t.label f (a :: x)) c (b :: y)
  children := Function.update (Function.update t.children f (.single b c)) p
    ((t.children p).set a f)

/-- Hang the new node `f` below `p`, with the label `a :: x`. -/
def graft (t : RadixTree ι α) (p f : ι) (a : α) (x : List α) : RadixTree ι α where
  root := t.root
  nodes := insert f t.nodes
  parent := Function.update t.parent f (some p)
  label := Function.update t.label f (a :: x)
  children := Function.update (Function.update t.children f .empty) p ((t.children p).set a f)

variable {t : RadixTree ι α} {σ : ι → List α}

section Split

variable {p c f m : ι} {a b : α} {x y : List α}

@[simp] theorem split_parent_lower : (t.split p c f a x b y).parent c = some f := by
  simp [RadixTree.split]

@[simp] theorem split_label_lower : (t.split p c f a x b y).label c = b :: y := by
  simp [RadixTree.split]

theorem split_parent_upper (hcf : c ≠ f) : (t.split p c f a x b y).parent f = some p := by
  simp [RadixTree.split, hcf.symm]

theorem split_label_upper (hcf : c ≠ f) : (t.split p c f a x b y).label f = a :: x := by
  simp [RadixTree.split, hcf.symm]

theorem split_parent_of_ne (hmc : m ≠ c) (hmf : m ≠ f) :
    (t.split p c f a x b y).parent m = t.parent m := by
  simp [RadixTree.split, hmc, hmf]

theorem split_label_of_ne (hmc : m ≠ c) (hmf : m ≠ f) :
    (t.split p c f a x b y).label m = t.label m := by
  simp [RadixTree.split, hmc, hmf]

/-- The edges after a split: the two halves, and the others as they were. -/
theorem Spelled.split_edge_iff (h : t.Spelled σ) (hp : p ∈ t.nodes) (hedge : t.Edge p a c)
    (hf : f ∉ t.nodes) {q : ι} {d : α} (hq : q ∈ insert f t.nodes) :
    (t.split p c f a x b y).Edge q d m ↔
      (q = f ∧ d = b ∧ m = c) ∨ (q = p ∧ d = a ∧ m = f) ∨
        (q ∈ t.nodes ∧ m ≠ c ∧ t.Edge q d m) := by
  have hpf : p ≠ f := fun hpf => hf (hpf ▸ hp)
  rcases Finset.mem_insert.mp hq with rfl | hq
  · have hsingle : (t.split p c q a x b y).Edge q d m ↔
        (OrderedDict.single b c).get? d = some m := by
      simp [RadixTree.split, Edge, hpf.symm]
    simp [hsingle, OrderedDict.get?_single_eq_some, hpf.symm, hf]
  have hqf : q ≠ f := fun hqf => hf (hqf ▸ hq)
  -- `c` is a child of `p` only, under `a`
  have hunique : t.Edge q d c → q = p ∧ d = a := h.parent_unique hp hq hedge
  by_cases hqp : q = p
  · subst hqp
    have hset : (t.split q c f a x b y).Edge q d m ↔ ((t.children q).set a f).get? d = some m := by
      simp [RadixTree.split, Edge]
    rw [hset, OrderedDict.get?_set]
    by_cases hda : d = a
    · subst hda
      have hsame : t.Edge q d m → m = c :=
        fun hm => Option.some.inj (Eq.trans (Eq.symm hm) hedge)
      rw [if_pos rfl, Option.some.injEq]
      constructor
      · rintro rfl
        exact Or.inr (Or.inl ⟨rfl, rfl, rfl⟩)
      · rintro (⟨rfl, -⟩ | ⟨-, -, rfl⟩ | ⟨-, hmc, hm⟩)
        · exact absurd rfl hqf
        · rfl
        · exact absurd (hsame hm) hmc
    · have hmc : t.Edge q d m → m ≠ c := by
        rintro hm rfl
        exact hda (hunique hm).2
      simp only [hda, if_false, hqf, false_and, and_false, false_or, hq, true_and]
      exact ⟨fun hm => ⟨hmc hm, hm⟩, And.right⟩
  · have hold : (t.split p c f a x b y).Edge q d m ↔ t.Edge q d m := by
      simp [RadixTree.split, Edge, hqp, hqf]
    have hmc : t.Edge q d m → m ≠ c := by
      rintro hm rfl
      exact hqp (hunique hm).1
    simp only [hold, hqf, hqp, false_and, false_or, hq, true_and]
    exact ⟨fun hm => ⟨hmc hm, hm⟩, And.right⟩

/-- A split gives the new node the string up to the cut, and no other node a new one. -/
theorem Spelled.split (h : t.Spelled σ) {p c f : ι} {a b : α} {x y : List α}
    (hp : p ∈ t.nodes) (hedge : t.Edge p a c) (hlabel : t.label c = (a :: x) ++ b :: y)
    (hf : f ∉ t.nodes) :
    (t.split p c f a x b y).Spelled (Function.update σ f (σ p ++ a :: x)) := by
  obtain ⟨hc, -, -⟩ := h.down p hp a c hedge
  have hcr : c ≠ t.root := h.ne_root hp hedge
  have hne : ∀ m ∈ t.nodes, m ≠ f := fun m hm hmf => hf (hmf ▸ hm)
  have hspell : ∀ m ∈ t.nodes, Function.update σ f (σ p ++ a :: x) m = σ m :=
    fun m hm => Function.update_of_ne (hne m hm) _ _
  refine { root_mem := Finset.mem_insert_of_mem h.root_mem, root_parent := ?_,
           root_label := ?_, root_spell := ?_, up := ?_, down := ?_ }
  · exact (split_parent_of_ne hcr.symm (hne _ h.root_mem)).trans h.root_parent
  · exact (split_label_of_ne hcr.symm (hne _ h.root_mem)).trans h.root_label
  · exact (hspell _ h.root_mem).trans h.root_spell
  · intro m hm hmr
    rcases Finset.mem_insert.mp hm with rfl | hm
    -- the new node hangs below `p`
    · refine ⟨p, Finset.mem_insert_of_mem hp, a, x, split_parent_upper (hne c hc),
        split_label_upper (hne c hc), ?_, ?_⟩
      · exact (h.split_edge_iff hp hedge hf (Finset.mem_insert_of_mem hp)).mpr
          (Or.inr (Or.inl ⟨rfl, rfl, rfl⟩))
      · rw [Function.update_self, hspell p hp, split_label_upper (hne c hc)]
    by_cases hmc : m = c
    -- the lower half hangs below the new node
    · subst hmc
      refine ⟨f, Finset.mem_insert_self .., b, y, split_parent_lower, split_label_lower, ?_, ?_⟩
      · exact (h.split_edge_iff hp hedge hf (Finset.mem_insert_self ..)).mpr
          (Or.inl ⟨rfl, rfl, rfl⟩)
      · rw [hspell m hc, h.spell_child hp hedge, hlabel, Function.update_self,
          split_label_lower, List.append_assoc]
    -- every other node stays where it is
    · obtain ⟨q, hq, d, rest, hparent', hlabel', hedge', hspell'⟩ := h.up m hm hmr
      have hmlabel := split_label_of_ne (t := t) (p := p) (a := a) (b := b) (x := x) (y := y)
        hmc (hne m hm)
      refine ⟨q, Finset.mem_insert_of_mem hq, d, rest,
        (split_parent_of_ne hmc (hne m hm)).trans hparent', hmlabel.trans hlabel', ?_, ?_⟩
      · exact (h.split_edge_iff hp hedge hf (Finset.mem_insert_of_mem hq)).mpr
          (Or.inr (Or.inr ⟨hq, hmc, hedge'⟩))
      · rw [hspell m hm, hspell q hq, hmlabel, hspell']
  · intro q hq d m hedge'
    rcases (h.split_edge_iff hp hedge hf hq).mp hedge' with
      ⟨rfl, rfl, rfl⟩ | ⟨rfl, rfl, rfl⟩ | ⟨hq, hmc, hold⟩
    · exact ⟨Finset.mem_insert_of_mem hc, split_parent_lower, y, split_label_lower⟩
    · exact ⟨Finset.mem_insert_self .., split_parent_upper (hne c hc), x,
        split_label_upper (hne c hc)⟩
    · obtain ⟨hm, hparent', rest, hlabel'⟩ := h.down q hq d m hold
      exact ⟨Finset.mem_insert_of_mem hm, (split_parent_of_ne hmc (hne m hm)).trans hparent',
        rest, (split_label_of_ne hmc (hne m hm)).trans hlabel'⟩

end Split

section Graft

variable {p f m : ι} {a : α} {x : List α}

@[simp] theorem graft_parent_new : (t.graft p f a x).parent f = some p := by
  simp [RadixTree.graft]

@[simp] theorem graft_label_new : (t.graft p f a x).label f = a :: x := by
  simp [RadixTree.graft]

theorem graft_parent_of_ne (hmf : m ≠ f) : (t.graft p f a x).parent m = t.parent m := by
  simp [RadixTree.graft, hmf]

theorem graft_label_of_ne (hmf : m ≠ f) : (t.graft p f a x).label m = t.label m := by
  simp [RadixTree.graft, hmf]

/-- The edges after a graft: the one to the new node, and the others as they were. -/
theorem graft_edge_iff (hp : p ∈ t.nodes) (hnone : (t.children p).get? a = none)
    (hf : f ∉ t.nodes) {q : ι} {d : α} (hq : q ∈ insert f t.nodes) :
    (t.graft p f a x).Edge q d m ↔
      (q = p ∧ d = a ∧ m = f) ∨ (q ∈ t.nodes ∧ t.Edge q d m) := by
  have hpf : p ≠ f := fun hpf => hf (hpf ▸ hp)
  rcases Finset.mem_insert.mp hq with rfl | hq
  · simp [RadixTree.graft, Edge, hpf.symm, hf]
  by_cases hqp : q = p
  · subst hqp
    have hset : (t.graft q f a x).Edge q d m ↔ ((t.children q).set a f).get? d = some m := by
      simp [RadixTree.graft, Edge]
    rw [hset, OrderedDict.get?_set]
    by_cases hda : d = a
    · subst hda
      simp [Edge, hnone, eq_comm]
    · simp [Edge, hda, hq]
  · have hqf : q ≠ f := fun hqf => hf (hqf ▸ hq)
    simp [RadixTree.graft, Edge, hqp, hqf, hq]

/-- A graft gives the new node its string, and no other node a new one. -/
theorem Spelled.graft (h : t.Spelled σ) {p f : ι} {a : α} (x : List α) (hp : p ∈ t.nodes)
    (hnone : (t.children p).get? a = none) (hf : f ∉ t.nodes) :
    (t.graft p f a x).Spelled (Function.update σ f (σ p ++ a :: x)) := by
  have hne : ∀ m ∈ t.nodes, m ≠ f := fun m hm hmf => hf (hmf ▸ hm)
  have hspell : ∀ m ∈ t.nodes, Function.update σ f (σ p ++ a :: x) m = σ m :=
    fun m hm => Function.update_of_ne (hne m hm) _ _
  refine { root_mem := Finset.mem_insert_of_mem h.root_mem, root_parent := ?_,
           root_label := ?_, root_spell := ?_, up := ?_, down := ?_ }
  · exact (graft_parent_of_ne (hne _ h.root_mem)).trans h.root_parent
  · exact (graft_label_of_ne (hne _ h.root_mem)).trans h.root_label
  · exact (hspell _ h.root_mem).trans h.root_spell
  -- the new node hangs below `p`; every other one keeps its parent and edge
  · intro m hm hmr
    rcases Finset.mem_insert.mp hm with rfl | hm
    · refine ⟨p, Finset.mem_insert_of_mem hp, a, x, graft_parent_new, graft_label_new, ?_, ?_⟩
      · exact (graft_edge_iff hp hnone hf (Finset.mem_insert_of_mem hp)).mpr
          (Or.inl ⟨rfl, rfl, rfl⟩)
      · rw [Function.update_self, hspell p hp, graft_label_new]
    · obtain ⟨q, hq, d, rest, hparent', hlabel', hedge', hspell'⟩ := h.up m hm hmr
      have hmlabel := graft_label_of_ne (t := t) (p := p) (a := a) (x := x) (hne m hm)
      refine ⟨q, Finset.mem_insert_of_mem hq, d, rest,
        (graft_parent_of_ne (hne m hm)).trans hparent', hmlabel.trans hlabel', ?_, ?_⟩
      · exact (graft_edge_iff hp hnone hf (Finset.mem_insert_of_mem hq)).mpr
          (Or.inr ⟨hq, hedge'⟩)
      · rw [hspell m hm, hspell q hq, hmlabel, hspell']
  · intro q hq d m hedge'
    rcases (graft_edge_iff hp hnone hf hq).mp hedge' with ⟨rfl, rfl, rfl⟩ | ⟨hq, hold⟩
    · exact ⟨Finset.mem_insert_self .., graft_parent_new, x, graft_label_new⟩
    · obtain ⟨hm, hparent', rest, hlabel'⟩ := h.down q hq d m hold
      exact ⟨Finset.mem_insert_of_mem hm, (graft_parent_of_ne (hne m hm)).trans hparent',
        rest, (graft_label_of_ne (hne m hm)).trans hlabel'⟩

end Graft

end Grow

end RadixTree
