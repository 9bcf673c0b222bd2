import RelAlg.Binary64.Scaling
import RelAlg.Proofs.Binary64.Rounding

/-!
# Reading by scaling

Scaling rounds up to three times: the significand, the power of ten, and their product or quotient.
A number that is too large is noticed all the same, so what is read is finite.  If the significand
has 53 bits and the power of ten is a small one, neither of them is changed, and the last step gives
the double nearest to the decimal.

* `Binary64.exists_mul_eq`, `Binary64.exists_div_eq`: a product or quotient is rounded once;
* `Binary64.isFinite_of_ofScaled?`                  : a decimal that is read is finite;
* `Binary64.ofScaled?_eq_ofDecimal?`                : a short one is read as the nearest double.
-/

namespace RelAlg

namespace Binary64

variable {x y : Binary64}

/-! ## Significands and powers of ten -/

/-- A significand of 64 bits is rounded to a finite double. -/
theorem isFinite_ofRatio_one (negative : Bool) {n : Nat} (h : n < 0x10000000000000000) :
    (ofRatio negative n 1).isFinite = true := by
  have hmax : (⟨0x43F0000000000000⟩ : Binary64).modulus = 2 ^ 64 := by
    have hm : (⟨0x43F0000000000000⟩ : Binary64).significand = 4503599627370496 := by decide
    have hq : (⟨0x43F0000000000000⟩ : Binary64).exponent = 12 := by decide
    rw [modulus, hm, hq]
    norm_num
  refine isFinite_ofRatio (x := ⟨0x43F0000000000000⟩) _ one_pos (by decide) ?_
  rw [hmax, Nat.cast_one, div_one]
  exact_mod_cast h.le

/-- A significand of 53 bits is not rounded at all. -/
theorem modulus_ofRatio_one (negative : Bool) {n : Nat} (hn : n < 9007199254740992) :
    (ofRatio negative n 1).modulus = n := by
  have hvalue : (n : ℚ) / (1 : Nat) = n * 2 ^ (0 : Int) := by simp
  rw [modulus_ofRatio negative one_pos hn (by decide) (by decide) hvalue, Nat.cast_one, div_one]

theorem one_le_modulus_tenPow (k : Nat) : 1 ≤ (tenPow k).modulus := by
  have hone : (ofRatio false 1 1).modulus = 1 := by
    rw [modulus_ofRatio_one false (by decide), Nat.cast_one]
  have hten : 1 ≤ Nat.pow 10 k := Nat.pow_pos (by decide)
  rw [← hone]
  refine modulus_le_modulus_ofRatio false one_pos (isFinite_ofRatio_one false (by decide)) ?_
  rw [hone, Nat.cast_one, div_one]
  exact_mod_cast hten

/-- A power of ten has 53 significant bits if the power of five in it has. -/
theorem modulus_tenPow {k : Nat} (hk : k ≤ 22) : (tenPow k).modulus = 10 ^ k := by
  have hfive : 5 ^ k < 9007199254740992 :=
    (Nat.pow_le_pow_right (by decide) hk).trans_lt (by decide)
  have hten : ((Nat.pow 10 k : Nat) : ℚ) / (1 : Nat) = (5 ^ k : Nat) * 2 ^ (k : Int) := by
    rw [Nat.pow_eq, Nat.cast_one, div_one, zpow_natCast]
    exact_mod_cast Nat.mul_pow 5 2 k
  rw [tenPow, modulus_ofRatio false one_pos hfive (by omega) (by omega) hten]
  simp

/-! ## Products and quotients -/

/-- A product is rounded once. -/
theorem exists_mul_eq (x y : Binary64) : ∃ num den : Nat, 0 < den ∧
    (num / den : ℚ) = x.modulus * y.modulus ∧
    x.mul y = ofRatio (x.isNegative != y.isNegative) num den := by
  have hpower : ∀ k, 0 < Nat.pow 2 k := fun k => Nat.pow_pos (by decide)
  refine ⟨_, _, hpower _, ?_, rfl⟩
  rw [Nat.cast_mul, Nat.cast_mul, mul_div_assoc, natPow_div_natPow (by decide), modulus, modulus,
    Nat.cast_ofNat, zpow_add₀ two_ne_zero, mul_mul_mul_comm]

/-- A quotient is rounded once. -/
theorem exists_div_eq (x : Binary64) (hy : 0 < y.modulus) : ∃ num den : Nat, 0 < den ∧
    (num / den : ℚ) = x.modulus / y.modulus ∧
    x.div y = ofRatio (x.isNegative != y.isNegative) num den := by
  have hsignificand : y.significand ≠ 0 := by
    intro h
    rw [modulus, h, Nat.cast_zero, zero_mul] at hy
    exact lt_irrefl _ hy
  have hpower : ∀ k, 0 < Nat.pow 2 k := fun k => Nat.pow_pos (by decide)
  refine ⟨_, _, Nat.mul_pos (by omega) (hpower _), ?_, rfl⟩
  rw [Nat.cast_mul, Nat.cast_mul, ← div_mul_div_comm, natPow_div_natPow (by decide), modulus,
    modulus, ← div_mul_div_comm, Nat.cast_ofNat, zpow_sub₀ two_ne_zero]

/-- A quotient by one or more is finite. -/
theorem isFinite_div (hx : x.isFinite = true) (hy : 1 ≤ y.modulus) :
    (x.div y).isFinite = true := by
  obtain ⟨num, den, hden, hratio, heq⟩ := exists_div_eq x (one_pos.trans_le hy)
  rw [heq]
  refine isFinite_ofRatio _ hden hx ?_
  rw [hratio]
  exact div_le_self x.modulus_nonneg hy

/-! ## Decimals -/

/-- Each step of the scaling keeps a finite number finite. -/
theorem isFinite_of_scale? {e : Int} (hx : x.isFinite = true) (h : x.scale? e = some y) :
    y.isFinite = true := by
  fun_induction scale? x e with
  | case1 x e _ _ z hz => exact Option.some.inj h ▸ hz
  | case2 => cases h
  | case3 x e =>
    cases h
    exact isFinite_div hx (one_le_modulus_tenPow _)
  | case4 =>
    cases h
    exact hx
  | case5 => cases h
  | case6 x e _ _ _ ih => exact ih (isFinite_div hx (one_le_modulus_tenPow _)) h

/-- A decimal with a significand of 64 bits that is read by scaling gives a finite double. -/
theorem isFinite_of_ofScaled? {negative : Bool} {n : Nat} {e : Int}
    (hn : n < 0x10000000000000000) (h : ofScaled? negative n e = some x) : x.isFinite = true :=
  isFinite_of_scale? (isFinite_ofRatio_one negative hn) h

/-- A decimal with a significand of 53 bits and a power of ten up to the twenty-second is read by
scaling as the double nearest to it, since only the last step rounds. -/
theorem ofScaled?_eq_ofDecimal? (negative : Bool) {n : Nat} {e : Int} (hn : n < 9007199254740992)
    (he : e.natAbs ≤ 22) : ofScaled? negative n e = ofDecimal? negative n e := by
  have hnumber := modulus_ofRatio_one negative hn
  have hfinite := isFinite_ofRatio_one negative (by omega : n < 0x10000000000000000)
  have hpower := modulus_tenPow he
  have hone := one_le_modulus_tenPow e.natAbs
  have hsign : ((ofRatio negative n 1).isNegative != (tenPow e.natAbs).isNegative) = negative := by
    rw [tenPow, isNegative_ofRatio, isNegative_ofRatio, Bool.bne_false]
  rw [ofScaled?, scale?, if_pos (by omega)]
  generalize ofRatio negative n 1 = x at *
  generalize tenPow e.natAbs = y at *
  split
  · have hvalue : x.modulus * y.modulus = n * 10 ^ e := by
      rw [hnumber, hpower, ← zpow_natCast, Int.natAbs_of_nonneg ‹0 ≤ e›]
    obtain ⟨num, den, hden, hratio, heq⟩ := exists_mul_eq x y
    rw [heq, hsign, ofDecimal?_eq negative hden (hratio.trans hvalue) (by omega) (by omega)]
  · have hvalue : x.modulus / y.modulus = n * 10 ^ e := by
      rw [hnumber, hpower, ← zpow_natCast, Int.ofNat_natAbs_of_nonpos (by omega), zpow_neg,
        div_inv_eq_mul]
    have hquotient := isFinite_div hfinite hone
    obtain ⟨num, den, hden, hratio, heq⟩ := exists_div_eq x (one_pos.trans_le hone)
    rw [heq, hsign] at hquotient ⊢
    rw [ofDecimal?_eq negative hden (hratio.trans hvalue) (by omega) (by omega),
      if_pos hquotient]

/-- With 56 bits the nearest double can be missed. -/
example : ofScaled? false 51248178375505404 (-15) ≠ ofDecimal? false 51248178375505404 (-15) := by
  decide +kernel

end Binary64

end RelAlg
