import Mathlib.Data.Rat.Floor

/-!
# Numbers of double precision

A finite double is the rational number that it stands for.  `round` is the double next to a rational number, ties to
the even one, with 53 bits of precision and the least exponent -1074; overflow to infinity is left out.
-/

namespace Binary64

/-- The nearest integer, the even one if there are two. -/
def nearest (q : ℚ) : Int :=
  let n := ⌊q⌋
  if q - n < 1 / 2 then n
  else if q - n > 1 / 2 then n + 1
  else if n % 2 = 0 then n else n + 1

/-- The exponent of the leading bit. -/
def exponent (q : ℚ) : Int :=
  let e : Int := (Nat.log2 q.num.natAbs : Int) - Nat.log2 q.den
  if |q| < (2 : ℚ) ^ e then e - 1 else e

/-- The exponent of the last bit that is kept. -/
def ulp (q : ℚ) : Int := max (exponent q - 52) (-1074)

def round (q : ℚ) : ℚ := nearest (q / (2 : ℚ) ^ ulp q) * (2 : ℚ) ^ ulp q

theorem nearest_intCast (n : Int) : nearest n = n := by
  unfold nearest
  simp

theorem round_intCast {n : Int} (h : n.natAbs < 2 ^ 53) : round n = n := by
  have hlog : Nat.log2 n.natAbs ≤ 52 := by
    by_cases hn : n.natAbs = 0
    · rw [hn]
      decide
    · exact Nat.le_of_lt_succ ((Nat.log2_lt hn).2 h)
  have hexponent : exponent n ≤ 52 := by
    unfold exponent
    simp only [Rat.num_intCast, Rat.den_intCast, show Nat.log2 1 = 0 from rfl]
    split <;> omega
  obtain ⟨k, hk⟩ : ∃ k : ℕ, ulp n = -k := ⟨(-ulp n).toNat, by unfold ulp; omega⟩
  have hscaled : (n : ℚ) / (2 : ℚ) ^ ulp n = ((n * 2 ^ k : Int) : ℚ) := by
    rw [hk, zpow_neg, zpow_natCast, div_inv_eq_mul]
    push_cast
    rfl
  unfold round
  rw [hscaled, nearest_intCast, ← hscaled, div_mul_cancel₀]
  exact zpow_ne_zero _ two_ne_zero

end Binary64
