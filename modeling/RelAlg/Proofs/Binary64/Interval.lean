import Mathlib.Algebra.Order.Field.Power
import Mathlib.Data.Rat.Cast.Order
import Mathlib.Tactic.FieldSimp
import Mathlib.Tactic.Linarith
import Mathlib.Tactic.NormNum
import Mathlib.Tactic.Positivity
import Mathlib.Tactic.Ring
import RelAlg.Binary64.Shortest

/-!
# Rounding intervals

Every finite nonzero double owns an interval of reals.  Neighbouring intervals meet in one
point at most, and that point belongs to the double with the even significand, so a real lies
in one interval only.

* `Binary64.Owns`          : a real lies in the interval of a double;
* `Binary64.eq_of_owns`    : the magnitudes of two doubles that own one real are the same;
* `Binary64.ext_of_parts`  : a double is given by its sign and its magnitude.
-/

namespace RelAlg

namespace Binary64

variable {x y : Binary64}

/-! ## Powers as fractions -/

/-- A power with an exponent of either sign, as a fraction. -/
theorem natPow_div_natPow {b : Nat} (hb : 0 < b) (k : Int) :
    ((Nat.pow b k.toNat : Nat) : ℚ) / (Nat.pow b (-k).toNat : Nat) = (b : ℚ) ^ k := by
  have hne : (b : ℚ) ≠ 0 := by exact_mod_cast hb.ne'
  rw [Nat.pow_eq, Nat.pow_eq, Nat.cast_pow, Nat.cast_pow, ← zpow_natCast, ← zpow_natCast,
    ← zpow_sub₀ hne]
  congr 1
  omega

/-- A multiple of a power is compared with a fraction by multiplying out. -/
theorem mul_zpow_le_div_iff {b : Nat} (hb : 0 < b) (a : Nat) (k : Int) (num : Nat) {den : Nat}
    (hden : 0 < den) : (a * b ^ k : ℚ) ≤ num / den ↔
      a * (den * Nat.pow b k.toNat) ≤ num * Nat.pow b (-k).toNat := by
  have h₁ : (0 : ℚ) < (Nat.pow b (-k).toNat : Nat) := by exact_mod_cast Nat.pow_pos hb
  have h₂ : (0 : ℚ) < den := by exact_mod_cast hden
  rw [← natPow_div_natPow hb, ← mul_div_assoc, div_le_div_iff₀ h₁ h₂, mul_assoc,
    mul_comm _ (den : ℚ)]
  exact_mod_cast Iff.rfl

theorem div_le_mul_zpow_iff {b : Nat} (hb : 0 < b) (a : Nat) (k : Int) (num : Nat) {den : Nat}
    (hden : 0 < den) : (num / den : ℚ) ≤ a * b ^ k ↔
      num * Nat.pow b (-k).toNat ≤ a * (den * Nat.pow b k.toNat) := by
  have h₁ : (0 : ℚ) < (Nat.pow b (-k).toNat : Nat) := by exact_mod_cast Nat.pow_pos hb
  have h₂ : (0 : ℚ) < den := by exact_mod_cast hden
  rw [← natPow_div_natPow hb, ← mul_div_assoc, div_le_div_iff₀ h₂ h₁, mul_assoc,
    mul_comm _ (den : ℚ)]
  exact_mod_cast Iff.rfl

/-! ## Significands -/

theorem fraction_lt (x : Binary64) : x.fraction < 4503599627370496 :=
  Nat.mod_lt _ (by decide)

theorem biasedExponent_lt (x : Binary64) : x.biasedExponent < 2048 :=
  Nat.mod_lt _ (by decide)

theorem significand_lt (x : Binary64) : x.significand < 9007199254740992 := by
  have := x.fraction_lt
  unfold significand
  split <;> omega

theorem significand_pos (h : x.isZero = false) : 0 < x.significand := by
  unfold isZero at h
  unfold significand
  split
  · simp_all
    omega
  · omega

/-- A significand above the subnormal ones. -/
theorem significand_eq_of_pos (h : 0 < x.biasedExponent) :
    x.significand = x.fraction + 4503599627370496 := by
  rw [significand, if_neg (by omega)]

/-- The exponents of a finite double. -/
theorem exponent_bounds (h : x.isFinite = true) : -1074 ≤ x.exponent ∧ x.exponent ≤ 971 := by
  have hlt := x.biasedExponent_lt
  have hne : x.biasedExponent ≠ 2047 := by simpa [isFinite] using h
  unfold exponent
  split <;> omega

/-- Sign, exponent and fraction make up all bits. -/
theorem bits_eq (x : Binary64) : x.bits.toNat
    = (if x.isNegative then 9223372036854775808 else 0) + x.biasedExponent * 4503599627370496
      + x.fraction := by
  have hlt := x.bits.toNat_lt
  unfold isNegative biasedExponent fraction
  simp only [beq_iff_eq]
  split <;> omega

theorem ext_of_parts (hs : x.isNegative = y.isNegative)
    (he : x.biasedExponent = y.biasedExponent) (hf : x.fraction = y.fraction) : x = y := by
  have h : x.bits.toNat = y.bits.toNat := by rw [x.bits_eq, y.bits_eq, hs, he, hf]
  cases x
  cases y
  exact congrArg Binary64.mk (UInt64.toNat_inj.1 h)

/-! ## Intervals -/

/-- The distance from the lower end of the interval to zero, in quarter steps. -/
def lowerQuarters (x : Binary64) : Nat :=
  if x.fraction = 0 ∧ 1 < x.biasedExponent then 4 * x.significand - 1 else 4 * x.significand - 2

/-- The distance from the upper end of the interval to zero, in quarter steps. -/
def upperQuarters (x : Binary64) : Nat := 4 * x.significand + 2

/-- A quarter of the step between neighbours of a double. -/
def quarter (x : Binary64) : ℚ := 2 ^ (x.exponent - 2)

theorem quarter_pos (x : Binary64) : 0 < x.quarter := zpow_pos (by norm_num) _

/-- The real `c` lies in the interval of `x`, whose ends belong to it iff the
significand is even. -/
def Owns (x : Binary64) (c : ℚ) : Prop :=
  if x.significand % 2 = 0 then
    x.lowerQuarters * x.quarter ≤ c ∧ c ≤ x.upperQuarters * x.quarter
  else x.lowerQuarters * x.quarter < c ∧ c < x.upperQuarters * x.quarter

theorem Owns.bounds {c : ℚ} (h : x.Owns c) :
    x.lowerQuarters * x.quarter ≤ c ∧ c ≤ x.upperQuarters * x.quarter := by
  unfold Owns at h
  split at h
  · exact h
  · exact ⟨le_of_lt h.1, le_of_lt h.2⟩

/-- At an end of the interval the significand is even. -/
theorem Owns.even {c : ℚ} (h : x.Owns c)
    (hend : c = x.lowerQuarters * x.quarter ∨ c = x.upperQuarters * x.quarter) :
    x.significand % 2 = 0 := by
  by_contra hodd
  rw [Owns, if_neg hodd] at h
  rcases hend with rfl | rfl
  · exact lt_irrefl _ h.1
  · exact lt_irrefl _ h.2

/-- Two doubles with one exponent: the intervals meet in one point at most, and then one
significand is odd. -/
theorem not_owns_of_significand_lt {c : ℚ} (he : x.exponent = y.exponent)
    (hlt : x.significand < y.significand)
    (hlower : y.lowerQuarters = 4 * y.significand - 2) : ¬(x.Owns c ∧ y.Owns c) := by
  rintro ⟨hx, hy⟩
  have hq : y.quarter = x.quarter := by rw [quarter, quarter, he]
  have hpos := x.quarter_pos
  have hle : (x.upperQuarters : ℚ) ≤ y.lowerQuarters := by
    rw [hlower, upperQuarters]
    exact_mod_cast (by omega : 4 * x.significand + 2 ≤ 4 * y.significand - 2)
  have hmeet : (y.lowerQuarters : ℚ) * x.quarter ≤ x.upperQuarters * x.quarter :=
    (hq ▸ hy.bounds.1).trans hx.bounds.2
  have heq : x.upperQuarters = y.lowerQuarters := by
    exact_mod_cast le_antisymm hle (le_of_mul_le_mul_right hmeet hpos)
  have hc : c = x.upperQuarters * x.quarter :=
    le_antisymm hx.bounds.2 (by rw [heq, ← hq]; exact hy.bounds.1)
  have hxe := hx.even (Or.inr hc)
  have hye := hy.even (Or.inl (by rw [hc, heq, hq]))
  rw [hlower, upperQuarters] at heq
  omega

/-- Two doubles with different exponents: the interval of the smaller one ends where the least
significand of the larger one begins, and there its significand is odd. -/
theorem not_owns_of_exponent_lt {c : ℚ} (he : x.exponent < y.exponent)
    (hlower : 18014398509481983 ≤ y.lowerQuarters) : ¬(x.Owns c ∧ y.Owns c) := by
  rintro ⟨hx, hy⟩
  have hpos := x.quarter_pos
  have hm := x.significand_lt
  have hq : 2 * x.quarter ≤ y.quarter := by
    have : (2 : ℚ) * 2 ^ (x.exponent - 2) = 2 ^ (x.exponent - 2 + 1) := by
      rw [zpow_add₀ (by norm_num), zpow_one, mul_comm]
    rw [quarter, quarter, this]
    exact zpow_le_zpow_right₀ (by norm_num) (by omega)
  have hy' : (36028797018963966 : ℚ) * x.quarter ≤ c := by
    have h₁ : (18014398509481983 : ℚ) ≤ y.lowerQuarters := by exact_mod_cast hlower
    have h₂ : (18014398509481983 : ℚ) * (2 * x.quarter) ≤ y.lowerQuarters * y.quarter :=
      mul_le_mul h₁ hq (by positivity) (by positivity)
    linarith [hy.bounds.1]
  have hmeet : (36028797018963966 : ℚ) * x.quarter ≤ x.upperQuarters * x.quarter :=
    hy'.trans hx.bounds.2
  have hle : 36028797018963966 ≤ x.upperQuarters := by
    exact_mod_cast le_of_mul_le_mul_right hmeet hpos
  have hupper : x.upperQuarters = 36028797018963966 := by
    unfold upperQuarters at hle ⊢
    omega
  have heven := hx.even (Or.inr (le_antisymm hx.bounds.2 (by rw [hupper]; exact_mod_cast hy')))
  unfold upperQuarters at hupper
  omega

/-- Where the interval of a double above the least exponent begins. -/
theorem lowerQuarters_of_one_lt (h : 1 < y.biasedExponent) :
    18014398509481983 ≤ y.lowerQuarters := by
  have := y.significand_eq_of_pos (by omega)
  unfold lowerQuarters
  split <;> omega

/-- Of two doubles with different magnitudes only one owns a given real. -/
theorem not_owns_of_lt {c : ℚ} (hlt : x.biasedExponent < y.biasedExponent ∨
    x.biasedExponent = y.biasedExponent ∧ x.fraction < y.fraction) : ¬(x.Owns c ∧ y.Owns c) := by
  have hf := x.fraction_lt
  rcases hlt with hlt | ⟨heq, hlt⟩
  · have hy := y.significand_eq_of_pos (by omega)
    by_cases hone : y.biasedExponent = 1
    · -- the greatest subnormal double and the least normal one have one exponent
      have hx : x.significand = x.fraction := by rw [significand, if_pos (by omega)]
      refine not_owns_of_significand_lt ?_ (by omega) ?_
      · rw [exponent, exponent, if_pos (by omega), if_neg (by omega), hone]
        rfl
      · rw [lowerQuarters, if_neg (by omega)]
    · refine not_owns_of_exponent_lt ?_ (lowerQuarters_of_one_lt (by omega))
      unfold exponent
      split <;> split <;> omega
  · refine not_owns_of_significand_lt (by rw [exponent, exponent, heq]) ?_ ?_
    · rw [significand, significand, heq]
      split <;> omega
    · rw [lowerQuarters, if_neg (by omega)]

/-- Doubles that own one real have the same magnitude. -/
theorem eq_of_owns {c : ℚ} (hx : x.Owns c) (hy : y.Owns c) :
    x.biasedExponent = y.biasedExponent ∧ x.fraction = y.fraction := by
  by_contra hne
  have hxy := mt (not_owns_of_lt (x := x) (y := y) (c := c)) (not_not.2 ⟨hx, hy⟩)
  have hyx := mt (not_owns_of_lt (x := y) (y := x) (c := c)) (not_not.2 ⟨hy, hx⟩)
  omega

end Binary64

end RelAlg
