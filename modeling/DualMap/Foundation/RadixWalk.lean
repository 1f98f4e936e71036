import DualMap.Foundation.RadixTree
import Mathlib.Data.List.Infix
import Mathlib.Data.List.Nodup
import Mathlib.Algebra.BigOperators.Group.List.Basic
import Mathlib.Algebra.Order.BigOperators.Group.Finset

/-!
# Walks on a Radix Tree

Walking from a node up to the root (`ancestors`) and over all nodes below it (`preorder`),
with a bound on the number of steps, and what the walks meet when the tree is well formed:
the ancestors of a node are the nodes whose strings are prefixes of its own, and the nodes
below it those of whose strings its own is a prefix. The tree reads as many different
non-empty strings as its labels are long together (`sum_length_label`).
-/

namespace RadixTree

variable {ι α : Type*} [DecidableEq α]

/-- A node, its parent, and so on up to the root. -/
def ancestors (t : RadixTree ι α) : ℕ → ι → List ι
  | 0, _ => []
  | fuel + 1, m =>
    match t.parent m with
    | none => [m]
    | some p => m :: ancestors t fuel p

/-- A node and everything below it, each node before its children. -/
def preorder (t : RadixTree ι α) : ℕ → ι → List ι
  | 0, _ => []
  | fuel + 1, m => m :: (t.children m).values.flatMap (preorder t fuel)

variable {t : RadixTree ι α} {σ : ι → List α}

/-! ## Upwards -/

/-- Enough steps to get from a node to the root. -/
theorem Spelled.ancestors_succ (h : t.Spelled σ) {p c : ι} {a : α} (hp : p ∈ t.nodes)
    (hedge : t.Edge p a c) (fuel : ℕ) : t.ancestors (fuel + 1) c = c :: t.ancestors fuel p := by
  rw [ancestors, (h.down p hp a c hedge).2.1]

theorem Spelled.ancestors_root (h : t.Spelled σ) (fuel : ℕ) :
    t.ancestors (fuel + 1) t.root = [t.root] := by
  rw [ancestors, h.root_parent]

/-- Any number of steps that suffices gives the same way up. -/
theorem Spelled.ancestors_of_lt (h : t.Spelled σ) {m : ι} {fuel fuel' : ℕ} (hm : m ∈ t.nodes)
    (hfuel : (σ m).length < fuel) (hfuel' : (σ m).length < fuel') :
    t.ancestors fuel m = t.ancestors fuel' m := by
  induction fuel generalizing m fuel' with
  | zero => exact absurd hfuel (Nat.not_lt_zero _)
  | succ fuel ih =>
    obtain ⟨fuel', rfl⟩ :=
      Nat.exists_eq_add_one_of_ne_zero (Nat.ne_of_gt (Nat.zero_lt_of_lt hfuel'))
    by_cases hroot : m = t.root
    · rw [hroot, h.ancestors_root, h.ancestors_root]
    · obtain ⟨p, hp, a, rest, -, -, hedge, -⟩ := h.up m hm hroot
      have hlt := h.length_lt hp hedge
      rw [h.ancestors_succ hp hedge, h.ancestors_succ hp hedge]
      exact congrArg (m :: ·) (ih hp (by omega) (by omega))

/-- The nodes above a node, itself included, are those whose strings begin its own. -/
theorem Spelled.mem_ancestors (h : t.Spelled σ) {m x : ι} {fuel : ℕ} (hm : m ∈ t.nodes)
    (hfuel : (σ m).length < fuel) : x ∈ t.ancestors fuel m ↔ x ∈ t.nodes ∧ σ x <+: σ m := by
  induction fuel generalizing m with
  | zero => exact absurd hfuel (Nat.not_lt_zero _)
  | succ fuel ih =>
    by_cases hroot : m = t.root
    · subst hroot
      rw [h.ancestors_root, List.mem_singleton, h.root_spell, List.prefix_nil]
      constructor
      · rintro rfl
        exact ⟨hm, h.root_spell⟩
      · rintro ⟨hx, hnil⟩
        exact (h.spell_eq_nil hx).mp hnil
    · obtain ⟨p, hp, a, rest, -, -, hedge, hspell⟩ := h.up m hm hroot
      have hlt := h.length_lt hp hedge
      have hpm : σ p <+: σ m := hspell ▸ List.prefix_append _ _
      rw [h.ancestors_succ hp hedge, List.mem_cons, ih hp (by omega)]
      constructor
      · rintro (rfl | ⟨hx, hpre⟩)
        · exact ⟨hm, List.prefix_refl _⟩
        · exact ⟨hx, hpre.trans hpm⟩
      · rintro ⟨hx, hpre⟩
        -- a node on the way is `m`, or it is not longer than the parent of `m`
        rcases h.prefix_child hx hm hpre with rfl | ⟨b, c, hedge', hc⟩
        · exact Or.inl rfl
        · right
          refine ⟨hx, ?_⟩
          rcases Nat.lt_or_ge (σ p).length (σ x).length with hinside | houtside
          · have hxm := h.eq_of_inside hp hedge
              (fun r hr hrp => h.prefix_child hr hp hrp) hx hpre hinside
            exact absurd (h.length_lt hx hedge') (by rw [hxm]; have := hc.length_le; omega)
          · exact List.prefix_of_prefix_length_le hpre hpm houtside

theorem Spelled.ancestors_nodup (h : t.Spelled σ) {m : ι} {fuel : ℕ} (hm : m ∈ t.nodes)
    (hfuel : (σ m).length < fuel) : (t.ancestors fuel m).Nodup := by
  induction fuel generalizing m with
  | zero => exact List.nodup_nil
  | succ fuel ih =>
    by_cases hroot : m = t.root
    · rw [hroot, h.ancestors_root]
      exact List.nodup_singleton _
    · obtain ⟨p, hp, a, rest, -, -, hedge, -⟩ := h.up m hm hroot
      have hlt := h.length_lt hp hedge
      rw [h.ancestors_succ hp hedge]
      refine List.nodup_cons.mpr ⟨fun hmem => ?_, ih hp (by omega)⟩
      -- a node above the parent is shorter than the node
      have hle := ((h.mem_ancestors hp (by omega)).mp hmem).2.length_le
      omega

/-- The way up ends at the root, which it meets only there. -/
theorem Spelled.ancestors_eq_append (h : t.Spelled σ) {m : ι} {fuel : ℕ} (hm : m ∈ t.nodes)
    (hfuel : (σ m).length < fuel) :
    ∃ way, t.ancestors fuel m = way ++ [t.root] ∧ t.root ∉ way := by
  induction fuel generalizing m with
  | zero => exact absurd hfuel (Nat.not_lt_zero _)
  | succ fuel ih =>
    by_cases hroot : m = t.root
    · exact ⟨[], by rw [hroot, h.ancestors_root]; rfl, List.not_mem_nil⟩
    · obtain ⟨p, hp, a, rest, -, -, hedge, -⟩ := h.up m hm hroot
      have hlt := h.length_lt hp hedge
      obtain ⟨way, hway, hnot⟩ := ih hp (by omega)
      refine ⟨m :: way, ?_, ?_⟩
      · rw [h.ancestors_succ hp hedge, hway, List.cons_append]
      · rintro (_ | ⟨_, hmem⟩)
        · exact hroot rfl
        · exact hnot hmem

/-- On the way up the strings get shorter. -/
theorem Spelled.ancestors_sorted (h : t.Spelled σ) {m : ι} {fuel : ℕ} (hm : m ∈ t.nodes)
    (hfuel : (σ m).length < fuel) :
    (t.ancestors fuel m).Pairwise (fun x y => (σ y).length < (σ x).length) := by
  induction fuel generalizing m with
  | zero => exact List.Pairwise.nil
  | succ fuel ih =>
    by_cases hroot : m = t.root
    · rw [hroot, h.ancestors_root]
      exact List.pairwise_singleton _ _
    · obtain ⟨p, hp, a, rest, -, -, hedge, -⟩ := h.up m hm hroot
      have hlt := h.length_lt hp hedge
      rw [h.ancestors_succ hp hedge]
      refine List.pairwise_cons.mpr ⟨fun x hx => ?_, ih hp (by omega)⟩
      have hle := ((h.mem_ancestors hp (by omega)).mp hx).2.length_le
      omega

/-- The labels on the way down to a node spell its string. -/
theorem Spelled.labels_ancestors (h : t.Spelled σ) {m : ι} {fuel : ℕ} (hm : m ∈ t.nodes)
    (hfuel : (σ m).length < fuel) : ((t.ancestors fuel m).reverse.map t.label).flatten = σ m := by
  induction fuel generalizing m with
  | zero => exact absurd hfuel (Nat.not_lt_zero _)
  | succ fuel ih =>
    by_cases hroot : m = t.root
    · rw [hroot, h.ancestors_root, h.root_spell]
      simp [h.root_label]
    · obtain ⟨p, hp, a, rest, -, -, hedge, hspell⟩ := h.up m hm hroot
      have hlt := h.length_lt hp hedge
      rw [h.ancestors_succ hp hedge, List.reverse_cons, List.map_append, List.flatten_append,
        ih hp (by omega), hspell]
      simp

/-- In a list with falling keys the first item with a property is the one with the largest
key. -/
theorem find?_iff_of_falling {l : List ι} {key : ι → ℕ} {marked : ι → Bool}
    (hl : l.Pairwise (fun x y => key y < key x)) {x : ι} :
    l.find? marked = some x ↔ x ∈ l ∧ marked x ∧ ∀ y ∈ l, marked y → key y ≤ key x := by
  induction l with
  | nil => simp
  | cons a l ih =>
    obtain ⟨ha, hl⟩ := List.pairwise_cons.mp hl
    -- in a falling list the first marked item is the greatest
    cases hmarked : marked a with
    | true =>
      rw [List.find?_cons_of_pos hmarked]
      constructor
      · intro heq
        obtain rfl := Option.some.inj heq
        refine ⟨List.mem_cons_self, hmarked, fun y hy _ => ?_⟩
        rcases List.mem_cons.mp hy with rfl | hy
        · exact le_refl _
        · exact (ha y hy).le
      · rintro ⟨hx, -, hle⟩
        rcases List.mem_cons.mp hx with rfl | hx
        · rfl
        · exact absurd (ha x hx) (not_lt.mpr (hle a List.mem_cons_self hmarked))
    | false =>
      have hnot : ¬ marked a = true := by rw [hmarked]; exact Bool.false_ne_true
      rw [List.find?_cons_of_neg hnot, ih hl]
      constructor
      · rintro ⟨hx, hmarkedx, hle⟩
        refine ⟨List.mem_cons_of_mem _ hx, hmarkedx, fun y hy hmarkedy => ?_⟩
        rcases List.mem_cons.mp hy with rfl | hy
        · exact absurd hmarkedy hnot
        · exact hle y hy hmarkedy
      · rintro ⟨hx, hmarkedx, hle⟩
        rcases List.mem_cons.mp hx with rfl | hx
        · exact absurd hmarkedx hnot
        · exact ⟨hx, hmarkedx, fun y hy => hle y (List.mem_cons_of_mem _ hy)⟩

/-! ## Downwards -/

theorem Spelled.children_nodup (h : t.Spelled σ) {m : ι} (hm : m ∈ t.nodes) :
    (t.children m).values.Nodup := by
  refine List.Nodup.map_on ?_ (List.Nodup.of_map Prod.fst (t.children m).nodup)
  -- a child is stored under the first token of its label
  rintro ⟨a, c⟩ ha ⟨b, d⟩ hb hcd
  obtain rfl : c = d := hcd
  obtain ⟨-, -, rest, hlabel⟩ := h.down m hm a c (OrderedDict.get?_of_mem_entries ha)
  obtain ⟨-, -, rest', hlabel'⟩ := h.down m hm b c (OrderedDict.get?_of_mem_entries hb)
  rw [hlabel] at hlabel'
  rw [(List.cons.inj hlabel').1]

/-- The nodes at or below a node. -/
def below (t : RadixTree ι α) (σ : ι → List α) (m : ι) : Finset ι :=
  t.nodes.filter (fun x => σ m <+: σ x)

theorem mem_below {m x : ι} : x ∈ t.below σ m ↔ x ∈ t.nodes ∧ σ m <+: σ x :=
  Finset.mem_filter

/-- There is less below a child than below its parent. -/
theorem Spelled.card_below_lt (h : t.Spelled σ) {p c : ι} {a : α} (hp : p ∈ t.nodes)
    (hedge : t.Edge p a c) : (t.below σ c).card < (t.below σ p).card := by
  apply Finset.card_lt_card
  rw [Finset.ssubset_iff_of_subset]
  · refine ⟨p, mem_below.mpr ⟨hp, List.prefix_refl _⟩, fun hmem => ?_⟩
    have hle := (mem_below.mp hmem).2.length_le
    have hlt := h.length_lt hp hedge
    omega
  · intro x hx
    obtain ⟨hx, hpre⟩ := mem_below.mp hx
    refine mem_below.mpr ⟨hx, List.IsPrefix.trans ?_ hpre⟩
    rw [h.spell_child hp hedge]
    exact List.prefix_append _ _

/-- The walk over everything below a node meets these nodes, each of them once. -/
theorem Spelled.preorder_spec (h : t.Spelled σ) {m : ι} {fuel : ℕ} (hm : m ∈ t.nodes)
    (hfuel : (t.below σ m).card ≤ fuel) :
    (t.preorder fuel m).Nodup ∧
      ∀ x, x ∈ t.preorder fuel m ↔ x ∈ t.nodes ∧ σ m <+: σ x := by
  induction fuel generalizing m with
  | zero =>
    have hmem : m ∈ t.below σ m := mem_below.mpr ⟨hm, List.prefix_refl _⟩
    rw [Finset.card_eq_zero.mp (Nat.le_zero.mp hfuel)] at hmem
    exact absurd hmem (Finset.notMem_empty m)
  | succ fuel ih =>
    have hchild : ∀ c ∈ (t.children m).values, c ∈ t.nodes ∧ (σ m).length < (σ c).length ∧
        σ m <+: σ c ∧ (t.preorder fuel c).Nodup ∧
          ∀ x, x ∈ t.preorder fuel c ↔ x ∈ t.nodes ∧ σ c <+: σ x := by
      intro c hc
      obtain ⟨a, hedge⟩ := OrderedDict.mem_values_iff.mp hc
      have hcm := (h.down m hm a c hedge).1
      have hlt := h.card_below_lt hm hedge
      refine ⟨hcm, h.length_lt hm hedge, ?_, ih hcm (by omega)⟩
      rw [h.spell_child hm hedge]
      exact List.prefix_append _ _
    rw [preorder]
    constructor
    · refine List.nodup_cons.mpr ⟨?_, List.nodup_flatMap.mpr ⟨?_, ?_⟩⟩
      · intro hmem
        obtain ⟨c, hc, hmc⟩ := List.mem_flatMap.mp hmem
        obtain ⟨-, hlt, -, -, hspec⟩ := hchild c hc
        have hle := ((hspec m).mp hmc).2.length_le
        omega
      · exact fun c hc => (hchild c hc).2.2.2.1
      · -- nothing is below two children
        refine (h.children_nodup hm).imp_of_mem (fun {c d} hc hd hcd => ?_)
        rw [Function.onFun, List.disjoint_left]
        intro x hxc hxd
        obtain ⟨a, hedge⟩ := OrderedDict.mem_values_iff.mp hc
        obtain ⟨b, hedge'⟩ := OrderedDict.mem_values_iff.mp hd
        exact hcd (h.edge_unique hm hedge hedge' (((hchild c hc).2.2.2.2 x).mp hxc).2
          (((hchild d hd).2.2.2.2 x).mp hxd).2)
    · intro x
      rw [List.mem_cons, List.mem_flatMap]
      constructor
      · rintro (rfl | ⟨c, hc, hx⟩)
        · exact ⟨hm, List.prefix_refl _⟩
        · obtain ⟨-, -, hmc, -, hspec⟩ := hchild c hc
          obtain ⟨hx, hpre⟩ := (hspec x).mp hx
          exact ⟨hx, hmc.trans hpre⟩
      · rintro ⟨hx, hpre⟩
        rcases h.prefix_child hm hx hpre with rfl | ⟨a, c, hedge, hc⟩
        · exact Or.inl rfl
        · have hcv : c ∈ (t.children m).values := OrderedDict.mem_values_iff.mpr ⟨a, hedge⟩
          exact Or.inr ⟨c, hcv, ((hchild c hcv).2.2.2.2 x).mpr ⟨hx, hc⟩⟩

/-- The walk from the root meets every node once. -/
theorem Spelled.preorder_root (h : t.Spelled σ) :
    (t.preorder t.nodes.card t.root).Nodup ∧
      ∀ x, x ∈ t.preorder t.nodes.card t.root ↔ x ∈ t.nodes := by
  have hcard : (t.below σ t.root).card ≤ t.nodes.card :=
    Finset.card_le_card (fun x hx => (mem_below.mp hx).1)
  obtain ⟨hnodup, hmem⟩ := h.preorder_spec h.root_mem hcard
  refine ⟨hnodup, fun x => ?_⟩
  rw [hmem x, h.root_spell]
  simp

/-! ## How many strings the tree reads -/

/-- The strings that end inside the edge above `c`, or at `c`. -/
def edgeStrings (t : RadixTree ι α) (σ : ι → List α) (c : ι) : Finset (List α) :=
  ((σ c).inits.drop ((σ c).length - (t.label c).length + 1)).toFinset

omit [DecidableEq α] in
theorem mem_drop_inits {s x : List α} {k : ℕ} :
    x ∈ s.inits.drop k ↔ x <+: s ∧ k ≤ x.length := by
  constructor
  · intro h
    obtain ⟨i, hi⟩ := List.mem_iff_getElem?.mp h
    rw [List.getElem?_drop] at hi
    obtain ⟨hlt, rfl⟩ := List.getElem?_eq_some_iff.mp hi
    rw [List.length_inits] at hlt
    rw [List.getElem_inits]
    refine ⟨List.take_prefix _ _, ?_⟩
    rw [List.length_take]
    omega
  -- the prefix of length `j` stands at place `j`
  · rintro ⟨hpre, hk⟩
    have hlen := hpre.length_le
    refine List.mem_of_getElem? (i := x.length - k) ?_
    rw [List.getElem?_drop, Nat.add_sub_cancel' hk]
    have hlt : x.length < s.inits.length := by
      rw [List.length_inits]
      omega
    rw [List.getElem?_eq_getElem hlt, List.getElem_inits, ← List.prefix_iff_eq_take.mp hpre]

omit [DecidableEq α] in
theorem inits_nodup (s : List α) : s.inits.Nodup := by
  apply List.Nodup.of_map List.length
  have hmap : s.inits.map List.length = List.range (s.length + 1) := by
    apply List.ext_getElem
    · rw [List.length_map, List.length_inits, List.length_range]
    · intro i h₁ h₂
      rw [List.length_range] at h₂
      rw [List.getElem_map, List.getElem_inits, List.getElem_range, List.length_take]
      omega
  rw [hmap]
  exact List.nodup_range

theorem Spelled.card_edgeStrings (h : t.Spelled σ) {c : ι} (hc : c ∈ t.nodes) :
    (t.edgeStrings σ c).card = (t.label c).length := by
  have hle : (t.label c).length ≤ (σ c).length := by
    by_cases hroot : c = t.root
    · rw [hroot, h.root_label]
      exact Nat.zero_le _
    · obtain ⟨p, -, -, -, -, -, -, hspell⟩ := h.up c hc hroot
      rw [hspell, List.length_append]
      omega
  rw [edgeStrings, List.toFinset_card_of_nodup ((inits_nodup _).sublist (List.drop_sublist _ _)),
    List.length_drop, List.length_inits]
  omega

/-- The strings of an edge are those between the string of the parent and that of the
child. -/
theorem Spelled.mem_edgeStrings (h : t.Spelled σ) {p c : ι} {a : α} {s : List α}
    (hp : p ∈ t.nodes) (hedge : t.Edge p a c) :
    s ∈ t.edgeStrings σ c ↔ s <+: σ c ∧ (σ p).length < s.length := by
  have hlen : (σ c).length = (σ p).length + (t.label c).length := by
    rw [h.spell_child hp hedge, List.length_append]
  rw [edgeStrings, List.mem_toFinset, mem_drop_inits]
  refine and_congr_right (fun _ => ?_)
  omega

theorem Spelled.edgeStrings_root (h : t.Spelled σ) : t.edgeStrings σ t.root = ∅ := by
  rw [← Finset.card_eq_zero, h.card_edgeStrings h.root_mem, h.root_label, List.length_nil]

/-- A string of an edge is longer than the string of the upper end. -/
theorem Spelled.of_mem_edgeStrings (h : t.Spelled σ) {c : ι} {s : List α} (hc : c ∈ t.nodes)
    (hs : s ∈ t.edgeStrings σ c) :
    ∃ p ∈ t.nodes, ∃ a, t.Edge p a c ∧ s <+: σ c ∧ (σ p).length < s.length := by
  have hroot : c ≠ t.root := by
    rintro rfl
    rw [h.edgeStrings_root] at hs
    exact absurd hs (Finset.notMem_empty s)
  obtain ⟨p, hp, a, -, -, -, hedge, -⟩ := h.up c hc hroot
  exact ⟨p, hp, a, hedge, (h.mem_edgeStrings hp hedge).mp hs⟩

/-- What continues a string of an edge goes through the edge. -/
theorem Spelled.prefix_of_mem_edgeStrings (h : t.Spelled σ) {c d : ι} {s : List α}
    (hc : c ∈ t.nodes) (hd : d ∈ t.nodes) (hs : s ∈ t.edgeStrings σ c) (hsd : s <+: σ d) :
    σ c <+: σ d := by
  obtain ⟨p, hp, a, hedge, hpre, hlt⟩ := h.of_mem_edgeStrings hc hs
  have hspell := h.spell_child hp hedge
  have hpc : σ p <+: σ c := hspell ▸ List.prefix_append _ _
  obtain ⟨x, rfl⟩ := List.prefix_of_prefix_length_le hpc hpre (le_of_lt hlt)
  rw [hspell, List.prefix_append_right_inj] at hpre
  refine h.edge_prefix hp hd hedge ?_ hpre hsd
  rintro rfl
  rw [List.append_nil] at hlt
  exact lt_irrefl _ hlt

/-- Every prefix of the string of a node is a string of an edge. -/
theorem Spelled.exists_mem_edgeStrings (h : t.Spelled σ) {m : ι} {s : List α} (hm : m ∈ t.nodes)
    (hs : s ≠ []) (hpre : s <+: σ m) : ∃ c ∈ t.nodes, s ∈ t.edgeStrings σ c := by
  -- go up from `m` to the edge in which `s` ends
  induction hl : (σ m).length using Nat.strong_induction_on generalizing m with
  | _ len ih =>
    have hroot : m ≠ t.root := by
      rintro rfl
      rw [h.root_spell, List.prefix_nil] at hpre
      exact hs hpre
    obtain ⟨p, hp, a, rest, -, -, hedge, hspell⟩ := h.up m hm hroot
    rcases Nat.lt_or_ge (σ p).length s.length with hinside | habove
    · exact ⟨m, hm, (h.mem_edgeStrings hp hedge).mpr ⟨hpre, hinside⟩⟩
    · have hpm : σ p <+: σ m := hspell ▸ List.prefix_append _ _
      exact ih _ (hl ▸ h.length_lt hp hedge) hp
        (List.prefix_of_prefix_length_le hpre hpm habove) rfl

/-- No two edges share a string, which would continue through both of them. -/
theorem Spelled.disjoint_edgeStrings (h : t.Spelled σ) {c d : ι} (hc : c ∈ t.nodes)
    (hd : d ∈ t.nodes) (hne : c ≠ d) : Disjoint (t.edgeStrings σ c) (t.edgeStrings σ d) := by
  rw [Finset.disjoint_left]
  intro s hsc hsd
  obtain ⟨-, -, -, -, hprec, -⟩ := h.of_mem_edgeStrings hc hsc
  obtain ⟨-, -, -, -, hpred, -⟩ := h.of_mem_edgeStrings hd hsd
  have hcd := h.prefix_of_mem_edgeStrings hc hd hsc hpred
  have hdc := h.prefix_of_mem_edgeStrings hd hc hsd hprec
  exact hne (h.eq_of_spell_eq hc hd (hcd.eq_of_length_le hdc.length_le))

/-- Every non-empty string that the tree reads ends in exactly one edge. -/
theorem Spelled.sum_length_label (h : t.Spelled σ) :
    ∑ m ∈ t.nodes, (t.label m).length =
      ((t.nodes.biUnion (fun m => (σ m).inits.toFinset)).erase []).card := by
  have hunion : (t.nodes.biUnion (fun m => (σ m).inits.toFinset)).erase [] =
      t.nodes.biUnion (t.edgeStrings σ) := by
    ext s
    simp only [Finset.mem_erase, Finset.mem_biUnion, List.mem_toFinset, List.mem_inits]
    constructor
    · rintro ⟨hs, m, hm, hpre⟩
      exact h.exists_mem_edgeStrings hm hs hpre
    · rintro ⟨m, hm, hs⟩
      obtain ⟨p, -, -, -, hpre, hlt⟩ := h.of_mem_edgeStrings hm hs
      refine ⟨?_, m, hm, hpre⟩
      rintro rfl
      exact absurd hlt (Nat.not_lt_zero _)
  rw [hunion, Finset.card_biUnion (fun c hc d hd hne => h.disjoint_edgeStrings hc hd hne)]
  exact Finset.sum_congr rfl (fun m hm => (h.card_edgeStrings hm).symm)

end RadixTree
