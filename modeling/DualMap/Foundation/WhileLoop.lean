import Mathlib.Data.Nat.Notation
import Mathlib.Logic.Relation

/-!
# While Loops

`whileLoop body` repeats `body` until it breaks (`none`). The loop is bounded by a number
of turns, and is without a value when they do not suffice.

Main results: a measure that every turn lowers bounds the turns (`whileLoop_terminates`),
more turns than enough change nothing (`whileLoop_of_le`), and what every turn keeps holds
at the end (`TurnsTo.invariant`).
-/

variable {σ : Type*}

/-- Repeat `body` until it breaks, at most so many times. -/
def whileLoop (body : σ → Option σ) : ℕ → σ → Option σ
  | 0, _ => none
  | turns + 1, s =>
    match body s with
    | none => some s
    | some s' => whileLoop body turns s'

/-- The states at the beginning of the turns of a loop. -/
def TurnsTo (body : σ → Option σ) : σ → σ → Prop :=
  Relation.ReflTransGen (fun s s' => body s = some s')

variable {body : σ → Option σ}

theorem whileLoop_none {s : σ} (h : body s = none) (turns : ℕ) :
    whileLoop body (turns + 1) s = some s := by
  simp [whileLoop, h]

theorem whileLoop_some {s s' : σ} (h : body s = some s') (turns : ℕ) :
    whileLoop body (turns + 1) s = whileLoop body turns s' := by
  simp [whileLoop, h]

/-- A loop that ends has taken turns to a state where its body breaks. -/
theorem turnsTo_of_whileLoop {turns : ℕ} {s t : σ} (h : whileLoop body turns s = some t) :
    TurnsTo body s t ∧ body t = none := by
  -- the bound drops by one at every turn, so a turn of the loop is a step of the induction
  induction turns generalizing s with
  | zero => cases h
  | succ turns ih =>
    cases hbody : body s with
    | none =>
      rw [whileLoop_none hbody] at h
      rw [← Option.some.inj h]
      exact ⟨.refl, hbody⟩
    | some s' =>
      rw [whileLoop_some hbody] at h
      obtain ⟨hturns, hbreak⟩ := ih h
      exact ⟨.head hbody hturns, hbreak⟩

/-- A loop ends when every turn keeps the invariant `I` and lowers a measure. -/
theorem whileLoop_terminates {I : σ → Prop} (measure : σ → ℕ)
    (hturn : ∀ s s', I s → body s = some s' → I s' ∧ measure s' < measure s)
    {turns : ℕ} {s : σ} (hs : I s) (hmeasure : measure s < turns) :
    ∃ t, whileLoop body turns s = some t := by
  induction turns generalizing s with
  | zero => exact absurd hmeasure (Nat.not_lt_zero _)
  | succ turns ih =>
    cases hbody : body s with
    | none => exact ⟨s, whileLoop_none hbody turns⟩
    | some s' =>
      obtain ⟨hs', hlower⟩ := hturn s s' hs hbody
      rw [whileLoop_some hbody]
      -- the lowered measure fits the lowered bound
      exact ih hs' (Nat.lt_of_lt_of_le hlower (Nat.le_of_lt_succ hmeasure))

/-- A bound on the turns that suffices may be raised. -/
theorem whileLoop_of_le {turns turns' : ℕ} {s t : σ} (hle : turns ≤ turns')
    (h : whileLoop body turns s = some t) : whileLoop body turns' s = some t := by
  induction turns generalizing s turns' with
  | zero => cases h
  | succ turns ih =>
    -- the larger bound is a successor too, and both loops take the same turn
    obtain ⟨turns', rfl⟩ := Nat.exists_eq_add_of_lt hle
    cases hbody : body s with
    | none =>
      rw [whileLoop_none hbody] at h ⊢
      exact h
    | some s' =>
      rw [whileLoop_some hbody] at h ⊢
      exact ih (Nat.le_add_right turns turns') h

/-- What every turn keeps holds whenever a turn begins. -/
theorem TurnsTo.invariant {I : σ → Prop} {s t : σ} (h : TurnsTo body s t) (hs : I s)
    (hturn : ∀ u u', TurnsTo body s u → I u → body u = some u' → I u') : I t := by
  induction h with
  | refl => exact hs
  | tail hturns hbody ih => exact hturn _ _ hturns ih hbody
