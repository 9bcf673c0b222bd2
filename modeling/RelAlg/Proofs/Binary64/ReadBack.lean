import RelAlg.Proofs.Binary64.Rounding
import RelAlg.Proofs.Binary64.Shortest

/-!
# The text of a double reads back

A double owns the reals that are nearer to it than to any other double.  They are what is rounded to
it: where the grid changes below the double, only the finer grid has to be looked at.  The shortest
decimal is owned, so the text of a finite double is read exactly as this double.

* `Binary64.magnitudeOfRatio_of_owns`: an owned fraction is rounded to the bits of its owner;
* `Binary64.ofDecimal?_of_owns`      : an owned decimal is read as its owner;
* `Binary64.ofDecimal?_of_text`      : the text of a finite double is read as this double.
-/

namespace RelAlg

namespace Binary64

variable {x : Binary64}

/-! ## Owned reals -/

/-- Whether a double owns a real is told in quarters of its step. -/
theorem owns_mul_iff (x : Binary64) (u : ℚ) : x.Owns (u * 2 ^ x.exponent) ↔
    if x.significand % 2 = 0 then (x.lowerQuarters : ℚ) ≤ 4 * u ∧ 4 * u ≤ x.upperQuarters
    else (x.lowerQuarters : ℚ) < 4 * u ∧ 4 * u < x.upperQuarters := by
  have hpos := x.quarter_pos
  have hscale : u * 2 ^ x.exponent = 4 * u * x.quarter := by
    rw [quarter, zpow_sub₀ two_ne_zero]
    ring
  rw [Owns, hscale]
  simp only [mul_le_mul_iff_left₀ hpos, mul_lt_mul_iff_left₀ hpos]

theorem quarters_of_owns {u : ℚ} (h : x.Owns (u * 2 ^ x.exponent)) :
    (x.lowerQuarters : ℚ) ≤ 4 * u ∧ 4 * u ≤ x.upperQuarters := by
  rw [owns_mul_iff] at h
  split at h
  · exact h
  · exact ⟨h.1.le, h.2.le⟩

/-- The significand of the owner is the nearest integer. -/
theorem isNearest_of_owns {u : ℚ} (h : x.Owns (u * 2 ^ x.exponent)) :
    IsNearest u x.significand := by
  have hlower : (4 * x.significand - 2 : ℚ) ≤ x.lowerQuarters := by
    have : 4 * x.significand ≤ x.lowerQuarters + 2 := by
      unfold lowerQuarters
      split <;> omega
    rw [sub_le_iff_le_add]
    exact_mod_cast this
  have hupper : (x.upperQuarters : ℚ) = 4 * x.significand + 2 := by
    unfold upperQuarters
    push_cast
    rfl
  rw [owns_mul_iff] at h
  split at h
  · exact ⟨abs_le.2 ⟨by linarith [h.1], by linarith [h.2]⟩, fun _ => ‹_›⟩
  · have hlt : |u - x.significand| < 1 / 2 :=
      abs_lt.2 ⟨by linarith [h.1], by linarith [h.2]⟩
    exact ⟨hlt.le, fun heq => absurd heq hlt.ne⟩

/-- What lies below the grid of its owner lies in the quarter step below the least significand. -/
theorem isGrid_or_of_owns {u : ℚ} (h : x.Owns (u * 2 ^ x.exponent)) :
    IsGrid (u * 2 ^ x.exponent) x.exponent ∨ -1074 < x.exponent ∧
      x.significand = 4503599627370496 ∧ 4503599627370496 - 1 / 4 ≤ u ∧ u < 4503599627370496 := by
  have hm := x.significand_lt
  have hnormal := x.normal
  rw [isGrid_mul_iff]
  obtain ⟨hlower, hupper⟩ := quarters_of_owns h
  have hupper' : (x.upperQuarters : ℚ) ≤ 36028797018963966 := by
    have : x.upperQuarters ≤ 36028797018963966 := by
      unfold upperQuarters
      omega
    exact_mod_cast this
  by_cases hlow : x.exponent = -1074 ∨ 4503599627370496 ≤ u
  · exact Or.inl ⟨by omega, by linarith, hlow⟩
  · obtain ⟨hne, hlt⟩ := not_or.1 hlow
    have hlt := not_le.1 hlt
    have hquarters : x.lowerQuarters < 18014398509481984 := by
      exact_mod_cast hlower.trans_lt (by linarith : 4 * u < 18014398509481984)
    have hbiased : 1 < x.biasedExponent := by
      unfold exponent at hne
      split at hne <;> omega
    have hsignificand := x.significand_eq_of_pos (by omega)
    have hleast : x.fraction = 0 := by
      unfold lowerQuarters at hquarters
      split at hquarters <;> omega
    have heq : x.lowerQuarters = 18014398509481983 := by
      rw [lowerQuarters, if_pos ⟨hleast, hbiased⟩, hsignificand, hleast]
    refine Or.inr ⟨(hnormal.resolve_left hne).1, by omega, ?_, hlt⟩
    rw [heq] at hlower
    push_cast at hlower
    linarith

/-- A fraction that a double owns is rounded to the bits of this double. -/
theorem magnitudeOfRatio_of_owns {num den : Nat} (hden : 0 < den) (hzero : x.isZero = false)
    (h : x.Owns (num / den)) : magnitudeOfRatio num den = x.magnitudeBits := by
  have hnum : 0 < num := by
    refine Nat.pos_of_ne_zero fun hnum => (h.pos hzero).ne' ?_
    rw [hnum, Nat.cast_zero, zero_div]
  have hpos : (0 : ℚ) < 2 ^ x.exponent := by positivity
  obtain ⟨u, hu⟩ : ∃ u : ℚ, (num / den : ℚ) = u * 2 ^ x.exponent :=
    ⟨_, (div_mul_cancel₀ _ hpos.ne').symm⟩
  rw [hu] at h
  rw [magnitudeBits_eq]
  rcases isGrid_or_of_owns h with hgrid | ⟨hleast, hsignificand, hlow, hhigh⟩
  · refine magnitudeOfRatio_eq hnum hden (hu ▸ hgrid) ?_
    rw [hu, mul_div_cancel_right₀ _ hpos.ne']
    exact isNearest_of_owns h
  -- on the grid below, the significand is the first one that is too large
  · have hdouble : u * 2 ^ x.exponent = 2 * u * 2 ^ (x.exponent - 1) := by
      rw [zpow_sub₀ two_ne_zero]
      ring
    have hgrid : IsGrid (num / den) (x.exponent - 1) := by
      rw [hu, hdouble, isGrid_mul_iff]
      exact ⟨by omega, by linarith, Or.inr (by linarith)⟩
    have hnearest : IsNearest (num / den / 2 ^ (x.exponent - 1)) 9007199254740992 := by
      rw [hu, hdouble, mul_div_cancel_right₀ _ (by positivity)]
      refine ⟨abs_le.2 ⟨?_, ?_⟩, fun _ => rfl⟩
      · push_cast
        linarith
      · push_cast
        linarith
    rw [magnitudeOfRatio_eq hnum hden hgrid hnearest, hsignificand]
    omega

theorem ofMagnitude_magnitudeBits (x : Binary64) :
    ofMagnitude x.isNegative x.magnitudeBits = x := by
  have hlt : x.magnitudeBits < 9223372036854775808 := by
    have := x.biasedExponent_lt
    have := x.fraction_lt
    unfold magnitudeBits
    omega
  have h : (ofMagnitude x.isNegative x.magnitudeBits).bits.toNat = x.bits.toNat := by
    rw [toNat_bits_ofMagnitude _ hlt, x.bits_eq, magnitudeBits, Nat.add_assoc]
  cases x
  exact congrArg Binary64.mk (UInt64.toNat_inj.1 h)

/-- A fraction that a finite double owns is rounded to this double. -/
theorem ofRatio_of_owns {num den : Nat} (hden : 0 < den) (hx : x.isFinite = true)
    (hzero : x.isZero = false) (h : x.Owns (num / den)) :
    ofRatio x.isNegative num den = x := by
  have hnum : num ≠ 0 := fun hnum => (h.pos hzero).ne' (by rw [hnum, Nat.cast_zero, zero_div])
  rw [ofRatio, if_neg hnum, magnitudeOfRatio_of_owns hden hzero h,
    Nat.min_eq_left (isFinite_iff.1 hx).le, ofMagnitude_magnitudeBits]

/-! ## Decimals -/

theorem lt_ten_pow_digitBound (n : Nat) : n < 10 ^ digitBound n :=
  Nat.lt_log2_self.trans_le (two_pow_le_ten_pow (by unfold digitBound; omega))

/-- The reals that a finite double owns are neither too large nor too small for exact reading. -/
theorem Owns.range {c : ℚ} (hx : x.isFinite = true) (hzero : x.isZero = false) (h : x.Owns c) :
    c < 2 ^ (1024 : Int) ∧ 2 ^ (-1076 : Int) ≤ c := by
  obtain ⟨hleast, hgreatest⟩ := exponent_bounds hx
  have hpos := significand_pos hzero
  have hm := x.significand_lt
  obtain ⟨hlow, hhigh⟩ := h.bounds
  have hquarter : x.quarter ≤ 2 ^ (969 : Int) := zpow_le_zpow_right₀ one_le_two (by omega)
  have hquarter' : 2 ^ (-1076 : Int) ≤ x.quarter := zpow_le_zpow_right₀ one_le_two (by omega)
  have hlower : 1 ≤ x.lowerQuarters := by
    unfold lowerQuarters
    split <;> omega
  have hupper : x.upperQuarters < 2 ^ 55 := by
    unfold upperQuarters
    omega
  constructor
  · calc c ≤ x.upperQuarters * x.quarter := hhigh
      _ < 2 ^ (55 : Int) * x.quarter :=
        mul_lt_mul_of_pos_right (by exact_mod_cast hupper) x.quarter_pos
      _ ≤ 2 ^ (55 : Int) * 2 ^ (969 : Int) := by gcongr
      _ = 2 ^ (1024 : Int) := (zpow_add₀ two_ne_zero 55 969).symm
  · calc (2 : ℚ) ^ (-1076 : Int) ≤ x.quarter := hquarter'
      _ = 1 * x.quarter := (one_mul _).symm
      _ ≤ x.lowerQuarters * x.quarter :=
        mul_le_mul_of_nonneg_right (by exact_mod_cast hlower) x.quarter_pos.le
      _ ≤ c := hlow

/-- A decimal that a finite double owns is read as this double. -/
theorem ofDecimal?_of_owns {n : Nat} {e : Int} (hx : x.isFinite = true) (hzero : x.isZero = false)
    (h : x.Owns (n * 10 ^ e)) : ofDecimal? x.isNegative n e = some x := by
  obtain ⟨hlt, hle⟩ := h.range hx hzero
  have hn : 0 < n := by
    refine Nat.pos_of_ne_zero fun hn => (h.pos hzero).ne' ?_
    rw [hn, Nat.cast_zero, zero_mul]
  have hhigh : e ≤ 310 := by
    by_contra hlarge
    refine absurd hlt (not_lt.2 ?_)
    calc (2 : ℚ) ^ (1024 : Int) ≤ 10 ^ (311 : Int) := by
          exact_mod_cast two_pow_le_ten_pow (a := 311) (b := 1024) (by decide)
      _ ≤ 10 ^ e := zpow_le_zpow_right₀ (by norm_num) (by omega)
      _ ≤ n * 10 ^ e := le_mul_of_one_le_left (by positivity) (by exact_mod_cast hn)
  have hlow : -330 ≤ e + digitBound n := by
    by_contra hsmall
    refine absurd hle (not_le.2 ?_)
    calc (n * 10 ^ e : ℚ) < 10 ^ digitBound n * 10 ^ e :=
          mul_lt_mul_of_pos_right (by exact_mod_cast lt_ten_pow_digitBound n) (by positivity)
      _ = 10 ^ (digitBound n + e) := by rw [zpow_add₀ (by norm_num), zpow_natCast]
      _ ≤ 10 ^ (-331 : Int) := zpow_le_zpow_right₀ (by norm_num) (by omega)
      _ ≤ 2 ^ (-1076 : Int) := by
          rw [zpow_neg, zpow_neg]
          refine inv_anti₀ (by positivity) ?_
          exact_mod_cast two_pow_le_ten_pow (a := 331) (b := 1076) (by decide)
  have hten : 0 < Nat.pow 10 (-e).toNat := Nat.pow_pos (by decide)
  have hratio : ((n * Nat.pow 10 e.toNat : Nat) / (Nat.pow 10 (-e).toNat : Nat) : ℚ)
      = n * 10 ^ e := by
    rw [Nat.cast_mul, mul_div_assoc, natPow_div_natPow (by decide), Nat.cast_ofNat]
  rw [ofDecimal?_eq x.isNegative hten hratio hhigh hlow,
    ofRatio_of_owns hten hx hzero (hratio ▸ h), if_pos hx]

/-- The text of a finite double, in either layout, stands for a decimal that is read as it. -/
theorem ofDecimal?_of_text {l : Layout} (hl : l.Signs) (hx : x.isFinite = true) {s : Spelling}
    (hs : s.text = l.magnitude x) :
    ofDecimal? x.isNegative (Numeral.value (s.whole ++ s.fraction))
      ((s.exponent.map Spelling.exponentValue).getD 0 - s.fraction.length) = some x := by
  obtain ⟨t, ht, htvalue⟩ := Layout.exists_spelling_magnitude hl x
  have hvalue := (Spelling.value_eq_of_text_eq (hs.trans ht.symm)).trans htvalue
  rw [Spelling.value] at hvalue
  cases hzero : x.isZero with
  | false =>
    rw [hzero, if_neg Bool.false_ne_true] at hvalue
    exact ofDecimal?_of_owns hx hzero (hvalue ▸ owns_shortest l.tie hx hzero)
  | true =>
    rw [hzero, if_pos rfl, mul_eq_zero, or_iff_left (by positivity), Nat.cast_eq_zero] at hvalue
    have hbits : x.magnitudeBits = 0 := by
      simp only [isZero, Bool.and_eq_true, beq_iff_eq] at hzero
      rw [magnitudeBits, hzero.1, hzero.2]
    have hsame := ofMagnitude_magnitudeBits x
    rw [hbits] at hsame
    rw [ofDecimal?, magnitudeOfDecimal?, if_pos hvalue, Option.map_some, hsame]

end Binary64

end RelAlg
