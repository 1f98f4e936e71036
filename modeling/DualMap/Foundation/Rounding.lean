import Mathlib.Data.Rat.Floor
import Mathlib.Tactic.FieldSimp
import Mathlib.Tactic.Linarith

/-!
# Decimal Rounding

Python's `round`: to the nearest multiple of a power of ten, and to the even one of two
equally near multiples. The numbers are exact rationals; where rounding to floats matters
too, it is a parameter of the code.

Main results:
- `roundHalfEven_near`: the rounded value is at most half a unit away;
- `pyRound_intCast_mul_lt`: multiples of a step of at least one unit keep their strict order.
-/

/-- `round(x)`: the nearest integer, the even one of two. -/
def roundHalfEven (x : ℚ) : ℤ :=
  if x - ⌊x⌋ < 1 / 2 then ⌊x⌋
  else if 1 / 2 < x - ⌊x⌋ then ⌊x⌋ + 1
  -- exactly in the middle: the even one of the two neighbours
  else if ⌊x⌋ % 2 = 0 then ⌊x⌋
  else ⌊x⌋ + 1

/-- `round(x, ndigits)`. -/
def pyRound (ndigits : ℕ) (x : ℚ) : ℚ := roundHalfEven (x * 10 ^ ndigits) / 10 ^ ndigits

example : pyRound 2 (1 / 3) = 33 / 100 := by decide +kernel
example : pyRound 0 (5 / 2) = 2 := by decide +kernel

theorem roundHalfEven_near (x : ℚ) :
    (roundHalfEven x : ℚ) ≤ x + 1 / 2 ∧ x - 1 / 2 ≤ (roundHalfEven x : ℚ) := by
  have hfloor := Int.floor_le x
  have hceil := Int.lt_floor_add_one x
  unfold roundHalfEven
  split_ifs with hbelow habove heven
  · exact ⟨by linarith, by linarith⟩
  · push_cast
    exact ⟨by linarith, by linarith⟩
  · exact ⟨by linarith, by linarith⟩
  · push_cast
    exact ⟨by linarith, by linarith⟩

@[simp] theorem roundHalfEven_intCast (z : ℤ) : roundHalfEven (z : ℚ) = z := by
  simp [roundHalfEven]

/-- Integers times a step of at least one unit stay in strict order when they are rounded to
units. Two numbers exactly one apart may round to the same even one, so a step of exactly
one unit is a case of its own. -/
theorem roundHalfEven_intCast_mul_lt {step : ℚ} (hstep : 1 ≤ step) {a b : ℤ} (hab : a < b) :
    roundHalfEven (a * step) < roundHalfEven (b * step) := by
  rcases hstep.eq_or_lt with rfl | hstep
  · simpa using hab
  · -- the products are more than one apart, and rounding moves each by at most one half
    have hapart : (a : ℚ) + 1 ≤ b := by exact_mod_cast hab
    have hproduct : (a : ℚ) * step + 1 < b * step := by nlinarith
    have hlow := (roundHalfEven_near (a * step)).1
    have hhigh := (roundHalfEven_near (b * step)).2
    have hlt : (roundHalfEven (a * step) : ℚ) < roundHalfEven (b * step) := by linarith
    exact_mod_cast hlt

/-- Integers times a step of at least one unit of the last digit keep their strict order. -/
theorem pyRound_intCast_mul_lt {ndigits : ℕ} {step : ℚ} (hstep : 1 / 10 ^ ndigits ≤ step)
    {a b : ℤ} (hab : a < b) : pyRound ndigits (a * step) < pyRound ndigits (b * step) := by
  have hpow : (0 : ℚ) < 10 ^ ndigits := by positivity
  have hunits : 1 ≤ step * 10 ^ ndigits := (div_le_iff₀ hpow).mp hstep
  have hlt := roundHalfEven_intCast_mul_lt hunits hab
  rw [← mul_assoc, ← mul_assoc] at hlt
  rw [pyRound, pyRound, div_lt_div_iff_of_pos_right hpow]
  exact_mod_cast hlt
