import Mathlib.Algebra.BigOperators.Group.Finset.Basic
import Mathlib.Algebra.Order.BigOperators.Group.Finset
import Mathlib.Algebra.Order.BigOperators.Group.Multiset
import Mathlib.Algebra.Order.Ring.Int
import Mathlib.Data.Fintype.BigOperators
import Mathlib.Logic.Relation
import Mathlib.Tactic.Linarith

/-!
# Greedy Assignment with Late News

Weights are assigned to places one after the other, always to a place whose load is the least
of all, up to a slack. But a weight that was assigned is seen in the load of its place only
later, and at most as what was announced, or never. Meanwhile loads go down again.

Nothing keeps the loads level then. What remains is a fair share (`Step.fairShare`): no place
ever has more than its part of the peak of all loads together, and the weights that can be
under way. As long as no load goes down, a place that was assigned something is level with every
other one, up to what can be under way (`Step.level`).
-/

namespace GreedyLoads

/-- The loads that can be seen, the weights that are assigned and not seen yet, and all
assignments so far. -/
structure Loads (ι : Type*) where
  seen : ι → ℤ
  coming : Multiset (ι × ℤ)
  log : List (ι × ℤ)

variable {ι : Type*} [DecidableEq ι]

namespace Loads

/-- What is coming to a place. -/
def comingTo (l : Loads ι) (i : ι) : ℤ := ((l.coming.filter (fun c => c.1 = i)).map Prod.snd).sum

/-- The load of a place with what is coming to it. -/
def total (l : Loads ι) (i : ι) : ℤ := l.seen i + l.comingTo i

end Loads

/-- One step with at most `k` weights of at most `M` under way. Whether loads go down is a
parameter. -/
inductive Step (k : ℕ) (M slack : ℤ) (finishes : Prop) : Loads ι → Loads ι → Prop where
  | assign {l : Loads ι} (i : ι) (w : ℤ) (hroom : Multiset.card l.coming < k)
      (hw : 0 ≤ w ∧ w ≤ M) (hmin : ∀ j, l.seen i ≤ l.seen j + slack) :
      Step k M slack finishes l
        { l with coming := (i, w) ::ₘ l.coming, log := l.log ++ [(i, w)] }
  | arrive {l : Loads ι} (i : ι) (w x : ℤ) (hmem : (i, w) ∈ l.coming) (hx : 0 ≤ x ∧ x ≤ w) :
      Step k M slack finishes l
        { l with
          seen := Function.update l.seen i (l.seen i + x)
          coming := l.coming.erase (i, w) }
  | lose {l : Loads ι} (i : ι) (w : ℤ) (hmem : (i, w) ∈ l.coming) :
      Step k M slack finishes l { l with coming := l.coming.erase (i, w) }
  | finish {l : Loads ι} (i : ι) (x : ℤ) (hx : 0 ≤ x) (hfinishes : finishes) :
      Step k M slack finishes l { l with seen := Function.update l.seen i (l.seen i - x) }

/-- As much is under way as can be, and no weight is too large. -/
structure UnderWay (k : ℕ) (M : ℤ) (l : Loads ι) : Prop where
  few : Multiset.card l.coming ≤ k
  light : ∀ c ∈ l.coming, 0 ≤ c.2 ∧ c.2 ≤ M

namespace Loads

variable {l : Loads ι} {k : ℕ} {M : ℤ}

theorem comingTo_cons (l : Loads ι) (i j : ι) (w : ℤ) (log : List (ι × ℤ)) :
    ({ l with coming := (i, w) ::ₘ l.coming, log := log } : Loads ι).comingTo j =
      (if i = j then w else 0) + l.comingTo j := by
  unfold comingTo
  by_cases hij : i = j
  · simp [hij]
  · simp [hij]

theorem comingTo_erase {l : Loads ι} {i : ι} {w : ℤ} (hmem : (i, w) ∈ l.coming) (j : ι)
    (seen : ι → ℤ) :
    (if i = j then w else 0) +
        ({ l with seen := seen, coming := l.coming.erase (i, w) } : Loads ι).comingTo j =
      l.comingTo j := by
  have hcons := Multiset.cons_erase hmem
  unfold comingTo
  rw [← hcons]
  by_cases hij : i = j
  · simp [hij]
  · simp [hij]

theorem comingTo_nonneg (h : UnderWay k M l) (i : ι) : 0 ≤ l.comingTo i := by
  refine Multiset.sum_nonneg (fun w hw => ?_)
  obtain ⟨c, hc, rfl⟩ := Multiset.mem_map.mp hw
  exact (h.light c (Multiset.mem_of_mem_filter hc)).1

/-- No more is coming to a place than is under way. -/
theorem comingTo_le (h : UnderWay k M l) (hM : 0 ≤ M) (i : ι) :
    l.comingTo i ≤ Multiset.card l.coming * M := by
  have hlight : ∀ w ∈ (l.coming.filter (fun c => c.1 = i)).map Prod.snd, w ≤ M := by
    intro w hw
    obtain ⟨c, hc, rfl⟩ := Multiset.mem_map.mp hw
    exact (h.light c (Multiset.mem_of_mem_filter hc)).2
  have hcard : Multiset.card ((l.coming.filter (fun c => c.1 = i)).map Prod.snd) ≤
      Multiset.card l.coming := by
    rw [Multiset.card_map]
    exact Multiset.card_le_card (Multiset.filter_le _ _)
  calc l.comingTo i ≤ Multiset.card ((l.coming.filter (fun c => c.1 = i)).map Prod.snd) • M :=
        Multiset.sum_le_card_nsmul _ _ hlight
    _ ≤ Multiset.card l.coming * M := by
        rw [nsmul_eq_mul]
        exact mul_le_mul_of_nonneg_right (by exact_mod_cast hcard) hM

end Loads

variable {k : ℕ} {M slack : ℤ} {finishes : Prop} {l l' : Loads ι}

theorem UnderWay.erase (h : UnderWay k M l) (c : ι × ℤ) (seen : ι → ℤ) :
    UnderWay k M { l with seen := seen, coming := l.coming.erase c } where
  few := (Multiset.card_erase_le).trans h.few
  light := fun c' hc' => h.light c' (Multiset.mem_of_mem_erase hc')

theorem Step.underWay (h : UnderWay k M l) (hstep : Step k M slack finishes l l') :
    UnderWay k M l' := by
  cases hstep with
  | assign i w hroom hw _ =>
    refine ⟨?_, fun c hc => ?_⟩
    · rw [Multiset.card_cons]
      exact hroom
    · rcases Multiset.mem_cons.mp hc with rfl | hold
      · exact hw
      · exact h.light c hold
  | arrive i w x _ _ => exact h.erase (i, w) _
  | lose i w _ => exact h.erase (i, w) _
  | finish i x _ _ => exact ⟨h.few, h.light⟩

/-- A place that something is assigned to has at most what it had, and what can be under way. -/
theorem total_assign_le (h : UnderWay k M l) (hM : 0 ≤ M) {i : ι} {w : ℤ}
    (hroom : Multiset.card l.coming < k) (hw : w ≤ M) :
    l.seen i + (w + l.comingTo i) ≤ l.seen i + k * M := by
  have hcoming := l.comingTo_le h hM i
  have hk : ((Multiset.card l.coming : ℤ) + 1) * M ≤ k * M :=
    mul_le_mul_of_nonneg_right (by exact_mod_cast hroom) hM
  linarith

theorem total_assign (l : Loads ι) (i j : ι) (w : ℤ) :
    ({ l with coming := (i, w) ::ₘ l.coming, log := l.log ++ [(i, w)] } : Loads ι).total j =
      (if i = j then w else 0) + l.total j := by
  unfold Loads.total
  rw [l.comingTo_cons]
  exact add_left_comm _ _ _

/-- Other steps than assignments lower the loads with what is coming, if they change them. -/
theorem Step.cases_assign (h : UnderWay k M l) (hstep : Step k M slack finishes l l') :
    (∃ i w, Multiset.card l.coming < k ∧ (0 ≤ w ∧ w ≤ M) ∧ (∀ j, l.seen i ≤ l.seen j + slack) ∧
      l' = { l with coming := (i, w) ::ₘ l.coming, log := l.log ++ [(i, w)] }) ∨
    (l'.log = l.log ∧ (∀ j, l'.total j ≤ l.total j) ∧
      (¬ finishes → ∀ j, l.seen j ≤ l'.seen j)) := by
  -- an assignment raises one total; arriving keeps it, and losing and finishing lower it
  cases hstep with
  | assign i w hroom hw hmin => exact Or.inl ⟨i, w, hroom, hw, hmin, rfl⟩
  | arrive i w x hmem hx =>
    refine Or.inr ⟨rfl, fun j => ?_, fun _ j => ?_⟩
    · have hcoming := Loads.comingTo_erase hmem j (Function.update l.seen i (l.seen i + x))
      unfold Loads.total
      by_cases hij : i = j
      · subst hij
        simp only [if_true, Function.update_self] at hcoming ⊢
        linarith [hx.2]
      · simp only [if_neg hij, Function.update_of_ne (Ne.symm hij)] at hcoming ⊢
        linarith
    · show l.seen j ≤ Function.update l.seen i (l.seen i + x) j
      by_cases hij : j = i
      · rw [hij, Function.update_self]
        linarith [hx.1]
      · rw [Function.update_of_ne hij]
  | lose i w hmem =>
    have hw := (h.light _ hmem).1
    refine Or.inr ⟨rfl, fun j => ?_, fun _ _ => le_rfl⟩
    have hcoming := Loads.comingTo_erase hmem j l.seen
    unfold Loads.total
    by_cases hij : i = j
    · rw [if_pos hij] at hcoming
      linarith
    · rw [if_neg hij] at hcoming
      linarith
  | finish i x hx hfinishes =>
    refine Or.inr ⟨rfl, fun j => ?_, fun hnot => absurd hfinishes hnot⟩
    show Function.update l.seen i (l.seen i - x) j + l.comingTo j ≤ l.seen j + l.comingTo j
    by_cases hij : j = i
    · rw [hij, Function.update_self]
      linarith
    · rw [Function.update_of_ne hij]

/-! ## Fair shares -/

section FairShare

variable [Fintype ι]

/-- No place has more than its share of the peak `T`, up to what can be under way. -/
structure FairShare (k : ℕ) (M slack T : ℤ) (l : Loads ι) : Prop where
  underWay : UnderWay k M l
  peak : ∑ i, l.total i ≤ T
  share : ∀ i, Fintype.card ι * l.total i ≤ T + Fintype.card ι * (k * M + slack)

variable {T : ℤ}

theorem FairShare.assign (h : FairShare k M slack T l) (hM : 0 ≤ M) {i : ι} {w : ℤ}
    (hroom : Multiset.card l.coming < k) (hw : w ≤ M) (hmin : ∀ j, l.seen i ≤ l.seen j + slack)
    (j : ι) :
    Fintype.card ι * ((if i = j then w else 0) + l.total j) ≤
      T + Fintype.card ι * (k * M + slack) := by
  by_cases hij : i = j
  · subst hij
    -- the least load is at most the average
    have haverage : Fintype.card ι * l.seen i ≤ T + Fintype.card ι * slack := by
      calc Fintype.card ι * l.seen i = ∑ _j : ι, l.seen i := by
            rw [Finset.sum_const, Finset.card_univ, nsmul_eq_mul]
        _ ≤ ∑ j, (l.total j + slack) := by
            refine Finset.sum_le_sum (fun j _ => ?_)
            have hcoming := l.comingTo_nonneg h.underWay j
            have hleast := hmin j
            unfold Loads.total
            linarith
        _ = ∑ j, l.total j + Fintype.card ι * slack := by
            rw [Finset.sum_add_distrib, Finset.sum_const, Finset.card_univ, nsmul_eq_mul]
        _ ≤ T + Fintype.card ι * slack := by linarith [h.peak]
    have htotal := mul_le_mul_of_nonneg_left (total_assign_le h.underWay hM hroom hw (i := i))
      (Int.natCast_nonneg (Fintype.card ι))
    have hregroup : w + (l.seen i + l.comingTo i) = l.seen i + (w + l.comingTo i) :=
      add_left_comm _ _ _
    rw [if_pos rfl, Loads.total, hregroup]
    linarith
  · rw [if_neg hij, zero_add]
    exact h.share j

theorem Step.fairShare (h : FairShare k M slack T l) (hM : 0 ≤ M)
    (hstep : Step k M slack finishes l l') (hpeak : ∑ i, l'.total i ≤ T) :
    FairShare k M slack T l' := by
  refine ⟨hstep.underWay h.underWay, hpeak, fun j => ?_⟩
  rcases hstep.cases_assign h.underWay with ⟨i, w, hroom, hw, hmin, rfl⟩ | ⟨-, hlower, -⟩
  · rw [total_assign]
    exact h.assign hM hroom hw.2 hmin j
  · exact (mul_le_mul_of_nonneg_left (hlower j) (Int.natCast_nonneg _)).trans (h.share j)

theorem run_fairShare (h : FairShare k M slack T l) (hM : 0 ≤ M)
    (hrun : Relation.ReflTransGen
      (fun l l' => Step k M slack finishes l l' ∧ ∑ i, l'.total i ≤ T) l l') :
    FairShare k M slack T l' := by
  induction hrun with
  | refl => exact h
  | tail _ hstep ih => exact hstep.1.fairShare ih hM hstep.2

end FairShare

/-! ## Level loads -/

/-- Since a moment, the places that got something are level with all others. -/
structure Level (k : ℕ) (M slack : ℤ) (before l : Loads ι) : Prop where
  underWay : UnderWay k M l
  log : before.log <+: l.log
  level : ∀ i w, (i, w) ∈ l.log.drop before.log.length → ∀ j,
    l.total i ≤ l.seen j + (k * M + slack)

theorem Step.level {before : Loads ι} (h : Level k M slack before l) (hM : 0 ≤ M)
    (hstep : Step k M slack False l l') : Level k M slack before l' := by
  have hunderWay := hstep.underWay h.underWay
  -- what was assigned since the start is compared with the loads of that moment
  rcases hstep.cases_assign h.underWay with ⟨i, w, hroom, hw, hmin, rfl⟩ | ⟨hlog, hlower, hseen⟩
  · refine ⟨hunderWay, h.log.trans (List.prefix_append _ _), fun i' w' hmem j => ?_⟩
    rw [total_assign]
    by_cases hii : i = i'
    · subst hii
      have htotal := total_assign_le h.underWay hM hroom hw.2 (i := i)
      have hleast := hmin j
      rw [if_pos rfl, Loads.total]
      show _ ≤ l.seen j + _
      linarith
    · rw [List.drop_append_of_le_length h.log.length_le, List.mem_append] at hmem
      rcases hmem with hold | hnew
      · rw [if_neg hii, zero_add]
        exact h.level i' w' hold j
      · have hsame := (Prod.mk.inj (List.mem_singleton.mp hnew)).1
        exact absurd hsame.symm hii
  · refine ⟨hunderWay, hlog ▸ h.log, fun i w hmem j => ?_⟩
    rw [hlog] at hmem
    have hbefore := h.level i w hmem j
    linarith [hlower i, hseen not_false j]

theorem run_level (h : UnderWay k M l) (hM : 0 ≤ M)
    (hrun : Relation.ReflTransGen (Step k M slack False) l l') : Level k M slack l l' := by
  induction hrun with
  | refl =>
    refine ⟨h, List.prefix_rfl, fun i w hmem => ?_⟩
    rw [List.drop_length] at hmem
    exact absurd hmem List.not_mem_nil
  | tail _ hstep ih => exact hstep.level ih hM

end GreedyLoads
