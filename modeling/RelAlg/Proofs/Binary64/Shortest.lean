import RelAlg.Proofs.Binary64.Interval
import RelAlg.Proofs.Binary64.Text

/-!
# The shortest decimal lies in the rounding interval

The search for the shortest digits tests its candidates exactly and has found one at the latest with
seventeen digits.  So the text of a finite double stands for a real that this double owns, and
different doubles have different texts.

* `Binary64.contains_iff`      : the exact test of the search is membership in the interval;
* `Binary64.decimalExponent_le`: the search starts on a grid that is not too coarse;
* `Binary64.owns_shortest`     : the shortest decimal of a double lies in its interval;
* `Layout.text_inj`            : different finite doubles have different texts.
-/

namespace RelAlg

namespace Binary64

/-! ## The exact test -/

theorem roundingInterval_denominator_pos (x : Binary64) : 0 < x.roundingInterval.denominator :=
  Nat.pow_pos (by decide)

/-- A quarter step over the denominator of the interval. -/
theorem quarter_eq (x : Binary64) :
    x.quarter = (Nat.pow 2 (x.exponent - 2).toNat : Nat)
      / (x.roundingInterval.denominator : ℚ) := by
  have h := natPow_div_natPow (b := 2) (by decide) (x.exponent - 2)
  rw [quarter, show (2 : ℚ) = (2 : Nat) from rfl, ← h, roundingInterval]
  congr 4
  omega

/-- A quotient is compared with an end of the interval by multiplying out. -/
theorem quarters_le_iff (x : Binary64) {a num den : Nat} (hden : 0 < den) :
    a * Nat.pow 2 (x.exponent - 2).toNat * den ≤ num * x.roundingInterval.denominator ↔
      (a * x.quarter : ℚ) ≤ num / den := by
  have h := mul_zpow_le_div_iff (b := 2) (by decide) a (x.exponent - 2) num hden
  rw [Int.neg_sub] at h
  rw [Nat.mul_assoc, Nat.mul_comm _ den]
  exact h.symm

theorem le_quarters_iff (x : Binary64) {a num den : Nat} (hden : 0 < den) :
    num * x.roundingInterval.denominator ≤ a * Nat.pow 2 (x.exponent - 2).toNat * den ↔
      (num / den : ℚ) ≤ a * x.quarter := by
  have h := div_le_mul_zpow_iff (b := 2) (by decide) a (x.exponent - 2) num hden
  rw [Int.neg_sub] at h
  rw [Nat.mul_assoc, Nat.mul_comm _ den]
  exact h.symm

/-- The test of the search is membership in the interval. -/
theorem contains_iff (x : Binary64) {num den : Nat} (hden : 0 < den) :
    x.roundingInterval.contains num den = true ↔ x.Owns (num / den) := by
  have hlower : x.roundingInterval.lower
      = x.lowerQuarters * Nat.pow 2 (x.exponent - 2).toNat := rfl
  have hupper : x.roundingInterval.upper
      = x.upperQuarters * Nat.pow 2 (x.exponent - 2).toNat := rfl
  have hclosed : x.roundingInterval.closed = (x.significand % 2 == 0) := rfl
  rw [RoundingInterval.contains, Owns, hlower, hupper, hclosed]
  by_cases heven : x.significand % 2 = 0
  · simp only [heven, beq_self_eq_true, if_true, decide_eq_true_eq, x.quarters_le_iff hden,
      x.le_quarters_iff hden]
  · have hodd : (x.significand % 2 == 0) = false := by simpa using heven
    simp only [hodd, heven, if_false, Bool.false_eq_true, decide_eq_true_eq, ← not_le,
      x.quarters_le_iff hden, x.le_quarters_iff hden]

/-! ## Candidates -/

/-- A candidate of the search lies in the interval. -/
theorem owns_of_candidate? {x : Binary64} {tie : Tie} {k : Int} {n : Nat}
    (h : x.roundingInterval.candidate? tie k = some n) : x.Owns (n * 10 ^ k) := by
  have hgrid : ∀ a : Nat, x.roundingInterval.contains (a * Nat.pow 10 k.toNat)
      (Nat.pow 10 (-k).toNat) = true → x.Owns (a * 10 ^ k) := by
    intro a ha
    have hdown : 0 < Nat.pow 10 (-k).toNat := Nat.pow_pos (by decide)
    rw [x.contains_iff hdown, Nat.cast_mul, mul_div_assoc, natPow_div_natPow (by decide)] at ha
    exact ha
  unfold RoundingInterval.candidate? at h
  dsimp only at h
  split at h
  · rename_i hbelow habove
    split at h
    · cases h; exact hgrid _ hbelow
    · split at h
      · cases h; exact hgrid _ habove
      · split at h
        · cases h
          split
          · exact hgrid _ hbelow
          · exact hgrid _ habove
        · cases h; exact hgrid _ habove
  · rename_i hbelow _; cases h; exact hgrid _ hbelow
  · rename_i _ habove; cases h; exact hgrid _ habove
  · cases h

/-- On a grid that is finer than the interval the search finds a candidate. -/
theorem candidate?_isSome {i : RoundingInterval} (tie : Tie) {k : Int} (hpos : 0 < i.denominator)
    (hlower : i.lower < i.value) (hupper : i.value < i.upper)
    (hfine : i.denominator * Nat.pow 10 k.toNat + i.lower * Nat.pow 10 (-k).toNat
      < i.upper * Nat.pow 10 (-k).toNat) : (i.candidate? tie k).isSome = true := by
  have hup : 0 < Nat.pow 10 k.toNat := Nat.pow_pos (by decide)
  have hdown : 0 < Nat.pow 10 (-k).toNat := Nat.pow_pos (by decide)
  unfold RoundingInterval.candidate?
  generalize Nat.pow 10 k.toNat = up at *
  generalize Nat.pow 10 (-k).toNat = down at *
  dsimp only
  have hstep : 0 < i.denominator * up := Nat.mul_pos hpos hup
  have hdiv := Nat.div_add_mod (i.value * down) (i.denominator * up)
  have hmod := Nat.mod_lt (i.value * down) hstep
  generalize i.value * down / (i.denominator * up) = below at *
  generalize i.value * down % (i.denominator * up) = rest at *
  have hlow : i.lower * down < i.value * down := Nat.mul_lt_mul_of_pos_right hlower hdown
  have hupp : i.value * down < i.upper * down := Nat.mul_lt_mul_of_pos_right hupper hdown
  have hinside : ∀ a : Nat, i.lower * down < i.denominator * up * a →
      i.denominator * up * a < i.upper * down → i.contains (a * up) down = true := by
    intro a h₁ h₂
    have : a * up * i.denominator = i.denominator * up * a := by ring
    unfold RoundingInterval.contains
    simp only [this]
    split <;> simp only [decide_eq_true_eq] <;> omega
  have hsome : i.contains (below * up) down = true ∨ i.contains ((below + 1) * up) down = true := by
    by_cases h : i.lower * down < i.denominator * up * below
    · exact Or.inl (hinside below h (by omega))
    · refine Or.inr (hinside (below + 1) ?_ ?_) <;> rw [Nat.mul_succ] <;> omega
  split
  · split
    · rfl
    · split
      · rfl
      · cases tie <;> rfl
  · rfl
  · rfl
  · rename_i h₁ h₂
    rw [h₁, h₂] at hsome
    simp at hsome

/-! ## The first grid -/

theorem ten_pow_le_two_pow {a b : Nat} (h : 103 * a ≤ 31 * b) : 10 ^ a ≤ 2 ^ b := by
  refine (Nat.pow_le_pow_iff_left (n := 31) (by decide)).1 ?_
  calc (10 ^ a) ^ 31 = (10 ^ 31) ^ a := by rw [← pow_mul, ← pow_mul, mul_comm]
    _ ≤ (2 ^ 103) ^ a := Nat.pow_le_pow_left (by norm_num) a
    _ = 2 ^ (103 * a) := (pow_mul 2 103 a).symm
    _ ≤ 2 ^ (31 * b) := Nat.pow_le_pow_right (by decide) h
    _ = (2 ^ b) ^ 31 := by rw [← pow_mul, mul_comm]

theorem two_pow_le_ten_pow {a b : Nat} (h : 28 * b ≤ 93 * a) : 2 ^ b ≤ 10 ^ a := by
  refine (Nat.pow_le_pow_iff_left (n := 93) (by decide)).1 ?_
  calc (2 ^ b) ^ 93 = (2 ^ 93) ^ b := by rw [← pow_mul, ← pow_mul, mul_comm]
    _ ≤ (10 ^ 28) ^ b := Nat.pow_le_pow_left (by norm_num) b
    _ = 10 ^ (28 * b) := (pow_mul 10 28 b).symm
    _ ≤ 10 ^ (93 * a) := Nat.pow_le_pow_right (by decide) h
    _ = (10 ^ a) ^ 93 := by rw [← pow_mul, mul_comm]

/-- One below the guess the power of ten is small enough, for the exponents of a double
and well beyond. -/
theorem guess_le {e : Int} (hlow : -2000 ≤ e) (hhigh : e ≤ 2000) :
    (10 : ℚ) ^ (e * 30103 / 100000 - 1) ≤ 2 ^ e := by
  obtain ⟨b, rfl | rfl⟩ := e.eq_nat_or_neg
  · by_cases hneg : (b : Int) * 30103 / 100000 - 1 < 0
    · exact (zpow_le_one_of_nonpos₀ (by norm_num) hneg.le).trans
        (one_le_zpow₀ (by norm_num) (by omega))
    · obtain ⟨a, ha⟩ := Int.eq_ofNat_of_zero_le (not_lt.1 hneg)
      rw [ha, zpow_natCast, zpow_natCast]
      exact_mod_cast ten_pow_le_two_pow (by omega : 103 * a ≤ 31 * b)
  · obtain ⟨a, ha⟩ := Int.eq_ofNat_of_zero_le
      (by omega : 0 ≤ -(-(b : Int) * 30103 / 100000 - 1))
    rw [← neg_neg (-(b : Int) * 30103 / 100000 - 1), ha, zpow_neg, zpow_neg, zpow_natCast,
      zpow_natCast]
    refine inv_anti₀ (by positivity) ?_
    exact_mod_cast two_pow_le_ten_pow (by omega : 28 * b ≤ 93 * a)

/-- The test for the decimal exponent. -/
def reaches (num den : Nat) (k : Int) : Bool :=
  if 0 ≤ k then den * Nat.pow 10 k.toNat ≤ num else den ≤ num * Nat.pow 10 (-k).toNat

/-- The test is a comparison of rationals. -/
theorem le_of_reaches {num den : Nat} (hden : 0 < den) {k : Int} (h : reaches num den k = true) :
    (10 : ℚ) ^ k ≤ num / den := by
  have hiff := mul_zpow_le_div_iff (b := 10) (by decide) 1 k num hden
  rw [Nat.cast_one, one_mul, one_mul] at hiff
  refine hiff.2 ?_
  unfold reaches at h
  split at h
  · rw [Int.toNat_of_nonpos (by omega : -k ≤ 0)]
    simpa using h
  · rw [Int.toNat_of_nonpos (by omega : k ≤ 0)]
    simpa using h

/-- The decimal exponent is one that was tested, or the one below the guess. -/
theorem decimalExponent_cases (num den : Nat) : reaches num den (decimalExponent num den) = true ∨
    decimalExponent num den = ((Nat.log2 num : Int) - Nat.log2 den) * 30103 / 100000 - 1 := by
  have heq : decimalExponent num den =
      let guess : Int := ((Nat.log2 num : Int) - (Nat.log2 den : Int)) * 30103 / 100000
      if reaches num den (guess + 2) then guess + 2
      else if reaches num den (guess + 1) then guess + 1
      else if reaches num den guess then guess
      else guess - 1 := rfl
  rw [heq]
  dsimp only
  split
  · left; assumption
  · split
    · left; assumption
    · split
      · left; assumption
      · right; rfl

/-- The decimal exponent of a quotient by a power of two does not exceed it. -/
theorem decimalExponent_le {num d : Nat} (hnum : 0 < num)
    (hlow : -2000 ≤ (Nat.log2 num : Int) - d) (hhigh : (Nat.log2 num : Int) - d ≤ 2000) :
    (10 : ℚ) ^ decimalExponent num (Nat.pow 2 d) ≤ num / (Nat.pow 2 d : Nat) := by
  have hden : 0 < Nat.pow 2 d := Nat.pow_pos (by decide)
  have hlog : Nat.log2 (Nat.pow 2 d) = d := Nat.log2_two_pow
  rcases decimalExponent_cases num (Nat.pow 2 d) with h | h
  · exact le_of_reaches hden h
  · rw [h, hlog]
    refine (guess_le hlow hhigh).trans ?_
    rw [zpow_sub₀ (by norm_num), zpow_natCast, zpow_natCast, Nat.pow_eq, Nat.cast_pow]
    refine div_le_div_of_nonneg_right ?_ (by positivity)
    exact_mod_cast Nat.log2_self_le hnum.ne'

/-! ## Seventeen digits are enough -/

/-- The value of a double on the scale of its interval. -/
theorem value_eq (x : Binary64) :
    (x.roundingInterval.value : ℚ) / x.roundingInterval.denominator
      = (4 * x.significand : Nat) * x.quarter := by
  have h : x.roundingInterval.value
      = 4 * x.significand * Nat.pow 2 (x.exponent - 2).toNat := rfl
  rw [quarter_eq, h, Nat.cast_mul, mul_div_assoc]

/-- The first grid of the search is not coarser than the double. -/
theorem ten_pow_top_le {x : Binary64} (hfinite : x.isFinite = true) (hzero : x.isZero = false) :
    (10 : ℚ) ^ decimalExponent x.roundingInterval.value x.roundingInterval.denominator
      ≤ (4 * x.significand : Nat) * x.quarter := by
  rw [← value_eq]
  have hpos := significand_pos hzero
  have hlt := x.significand_lt
  have hexp := exponent_bounds hfinite
  have hvalue : x.roundingInterval.value
      = 4 * x.significand * 2 ^ (x.exponent - 2).toNat := rfl
  have hnum : x.roundingInterval.value ≠ 0 := by
    rw [hvalue]
    exact Nat.mul_ne_zero (by omega) (pow_ne_zero _ (by decide))
  have hlow : (x.exponent - 2).toNat ≤ Nat.log2 x.roundingInterval.value := by
    rw [Nat.le_log2 hnum, hvalue]
    exact Nat.le_mul_of_pos_left _ (by omega)
  have hhigh : Nat.log2 x.roundingInterval.value < 55 + (x.exponent - 2).toNat := by
    rw [Nat.log2_lt hnum, hvalue, pow_add]
    exact Nat.mul_lt_mul_of_pos_right (by omega) (pow_pos (by decide) _)
  exact decimalExponent_le (Nat.pos_of_ne_zero hnum) (by omega) (by omega)

/-- Sixteen places below the value of a double the grid is finer than its interval. -/
theorem fine_of_le {x : Binary64} (hzero : x.isZero = false) {top : Int}
    (h : (10 : ℚ) ^ top ≤ (4 * x.significand : Nat) * x.quarter) :
    (10 : ℚ) ^ (top - 16) + x.lowerQuarters * x.quarter < x.upperQuarters * x.quarter := by
  have hpos := significand_pos hzero
  have hlt := x.significand_lt
  have hwidth : 4 * x.significand + x.lowerQuarters * 10 ^ 16 < x.upperQuarters * 10 ^ 16 := by
    unfold lowerQuarters upperQuarters
    split
    · rename_i hleast
      have := x.significand_eq_of_pos (by omega)
      omega
    · omega
  have hwidth' : ((4 * x.significand : Nat) : ℚ) + x.lowerQuarters * 10 ^ 16
      < x.upperQuarters * 10 ^ 16 := by exact_mod_cast hwidth
  have hscaled := mul_lt_mul_of_pos_right hwidth' x.quarter_pos
  have hstep : (10 : ℚ) ^ (top - 16) * 10 ^ 16 = 10 ^ top := by
    rw [← zpow_natCast, ← zpow_add₀ (by norm_num)]
    congr 1
    omega
  refine lt_of_mul_lt_mul_right ?_ (by positivity : (0 : ℚ) ≤ 10 ^ 16)
  rw [add_mul, hstep]
  linarith

/-- A fine grid, over the common denominators of the search. -/
theorem candidate?_isSome_of_fine {x : Binary64} (tie : Tie) (hzero : x.isZero = false) {k : Int}
    (h : (10 : ℚ) ^ k + x.lowerQuarters * x.quarter < x.upperQuarters * x.quarter) :
    (x.roundingInterval.candidate? tie k).isSome = true := by
  have hpos := significand_pos hzero
  have hden := x.roundingInterval_denominator_pos
  have hdown : 0 < Nat.pow 10 (-k).toNat := Nat.pow_pos (by decide)
  have hstep : 0 < Nat.pow 2 (x.exponent - 2).toNat := Nat.pow_pos (by decide)
  have hlower : x.roundingInterval.lower
      = x.lowerQuarters * Nat.pow 2 (x.exponent - 2).toNat := rfl
  have hupper : x.roundingInterval.upper
      = x.upperQuarters * Nat.pow 2 (x.exponent - 2).toNat := rfl
  have hvalue : x.roundingInterval.value
      = 4 * x.significand * Nat.pow 2 (x.exponent - 2).toNat := rfl
  have hup : ((Nat.pow 10 k.toNat : Nat) : ℚ) = 10 ^ k * (Nat.pow 10 (-k).toNat : Nat) := by
    rw [← div_eq_iff (by exact_mod_cast hdown.ne')]
    exact_mod_cast natPow_div_natPow (b := 10) (by decide) k
  have hquarter : ((Nat.pow 2 (x.exponent - 2).toNat : Nat) : ℚ)
      = x.quarter * x.roundingInterval.denominator := by
    rw [quarter_eq, div_mul_cancel₀ _ (by exact_mod_cast hden.ne')]
  refine candidate?_isSome tie hden ?_ ?_ ?_
  · rw [hlower, hvalue]
    refine Nat.mul_lt_mul_of_pos_right ?_ hstep
    unfold lowerQuarters
    split <;> omega
  · rw [hupper, hvalue]
    refine Nat.mul_lt_mul_of_pos_right ?_ hstep
    unfold upperQuarters
    omega
  · have hboth : (0 : ℚ) < x.roundingInterval.denominator * (Nat.pow 10 (-k).toNat : Nat) := by
      exact_mod_cast Nat.mul_pos hden hdown
    have hscaled := mul_lt_mul_of_pos_right h hboth
    rw [← Nat.cast_lt (α := ℚ), hlower, hupper]
    push_cast only [Nat.cast_add, Nat.cast_mul]
    rw [hup, hquarter]
    linarith

/-- The shortest decimal of a double lies in its interval. -/
theorem owns_shortest {x : Binary64} (tie : Tie) (hfinite : x.isFinite = true)
    (hzero : x.isZero = false) : x.Owns (x.shortest tie).value := by
  obtain ⟨n, k, heq, hsearch⟩ := x.shortest_eq tie
  rw [heq, value_dropTrailingZeros]
  generalize htop : decimalExponent x.roundingInterval.value x.roundingInterval.denominator = top
    at hsearch
  have hle := htop ▸ ten_pow_top_le hfinite hzero
  have hlast := candidate?_isSome_of_fine tie hzero (fine_of_le hzero hle)
  generalize hfind : (List.range 17).findSome? _ = found at hsearch
  cases found with
  | none =>
    rw [List.findSome?_eq_none_iff] at hfind
    have := hfind 16 (by decide)
    rw [Option.map_eq_none_iff] at this
    rw [show ((16 : Nat) : Int) = 16 from rfl] at this
    rw [this] at hlast
    exact absurd hlast (by decide)
  | some r =>
    obtain ⟨i, -, hi⟩ := List.exists_of_findSome?_eq_some hfind
    obtain ⟨m, hm, rfl⟩ := Option.map_eq_some_iff.1 hi
    cases hsearch
    exact owns_of_candidate? hm

/-- An owned real is positive. -/
theorem Owns.pos {x : Binary64} {c : ℚ} (hzero : x.isZero = false) (h : x.Owns c) : 0 < c := by
  have hpos := significand_pos hzero
  have hlower : 0 < x.lowerQuarters := by
    unfold lowerQuarters
    split <;> omega
  have : (0 : ℚ) < x.lowerQuarters * x.quarter :=
    mul_pos (by exact_mod_cast hlower) x.quarter_pos
  exact this.trans_le h.bounds.1

/-- The shortest decimal starts with the first digit that counts. -/
theorem exists_cons_digits_shortest {x : Binary64} (tie : Tie) (hfinite : x.isFinite = true)
    (hzero : x.isZero = false) : ∃ c rest, (x.shortest tie).digits = c :: rest ∧ c ≠ '0' := by
  have hpos := (owns_shortest tie hfinite hzero).pos hzero
  obtain ⟨n, k, heq, -⟩ := x.shortest_eq tie
  rw [heq] at hpos ⊢
  rw [value_dropTrailingZeros] at hpos
  have hn : 0 < n := by exact_mod_cast pos_of_mul_pos_left hpos (by positivity)
  obtain ⟨c, cs, hcs, hc⟩ := Numeral.exists_cons_ofNat hn
  exact ⟨c, _, by rw [hcs]; rfl, hc⟩

end Binary64

/-! ## Texts -/

namespace Layout

open Binary64

/-- The text of a magnitude starts with a zero only if the point follows. -/
theorem head_magnitude (l : Layout) {x : Binary64} (hx : x.isFinite = true) :
    (∃ rest, l.magnitude x = '0' :: '.' :: rest) ∨
      ∃ c rest, l.magnitude x = c :: rest ∧ c ≠ '0' := by
  unfold magnitude
  split
  · exact Or.inl ⟨_, rfl⟩
  · obtain ⟨c, rest, hdigits, hc⟩ :=
      exists_cons_digits_shortest l.tie hx (Bool.eq_false_of_not_eq_true ‹_›)
    dsimp only
    split
    · unfold positional
      split
      · exact Or.inl ⟨_, rfl⟩
      · dsimp only
        split
        · exact Or.inr ⟨c, _, by rw [hdigits]; rfl, hc⟩
        · exact Or.inr ⟨c, _, by rw [hdigits]; rfl, hc⟩
    · refine Or.inr ⟨c, ?_⟩
      unfold scientific
      rw [hdigits]
      cases rest <;> exact ⟨_, rfl, hc⟩

/-- The text of a magnitude determines the magnitude. -/
theorem magnitude_inj {l : Layout} (hl : l.Signs) {x y : Binary64} (hx : x.isFinite = true)
    (hy : y.isFinite = true) (h : l.magnitude x = l.magnitude y) :
    x.biasedExponent = y.biasedExponent ∧ x.fraction = y.fraction := by
  obtain ⟨s, hs, hsvalue⟩ := exists_spelling_magnitude hl x
  obtain ⟨t, ht, htvalue⟩ := exists_spelling_magnitude hl y
  have hvalue : s.value = t.value := Spelling.value_eq_of_text_eq (by rw [hs, ht, h])
  rw [hsvalue, htvalue] at hvalue
  cases hxz : x.isZero <;> cases hyz : y.isZero <;> simp only [hxz, hyz, if_true, if_false,
    Bool.false_eq_true] at hvalue
  · have hown := owns_shortest l.tie hy hyz
    rw [← hvalue] at hown
    exact eq_of_owns (owns_shortest l.tie hx hxz) hown
  · have := (owns_shortest l.tie hx hxz).pos hxz
    rw [hvalue] at this
    exact (lt_irrefl _ this).elim
  · have := (owns_shortest l.tie hy hyz).pos hyz
    rw [← hvalue] at this
    exact (lt_irrefl _ this).elim
  · simp only [isZero, Bool.and_eq_true, beq_iff_eq] at hxz hyz
    exact ⟨hxz.1.trans hyz.1.symm, hxz.2.trans hyz.2.symm⟩

/-- The text of a magnitude starts with a digit, so not with a minus sign. -/
theorem magnitude_ne_minus {l : Layout} (hl : l.Signs) (x : Binary64) (cs : List Char) :
    l.magnitude x ≠ '-' :: cs := by
  obtain ⟨s, hs, -⟩ := exists_spelling_magnitude hl x
  obtain ⟨c, rest, htext, hdigit⟩ := s.head_text
  rw [← hs, htext]
  rintro ⟨⟩
  exact absurd hdigit (by decide)

/-- Different finite doubles have different texts. -/
theorem text_inj {l : Layout} (hl : l.Signs) {x y : Binary64} (hx : x.isFinite = true)
    (hy : y.isFinite = true) : l.text x = l.text y ↔ x = y := by
  refine ⟨fun h => ?_, fun h => h ▸ rfl⟩
  rw [l.text_of_isFinite hx, l.text_of_isFinite hy] at h
  cases hxs : x.isNegative <;> cases hys : y.isNegative <;> simp only [hxs, hys, if_true, if_false,
    Bool.false_eq_true, List.nil_append, List.singleton_append] at h
  · obtain ⟨he, hf⟩ := magnitude_inj hl hx hy h
    exact ext_of_parts (hxs.trans hys.symm) he hf
  · exact (magnitude_ne_minus hl x _ h).elim
  · exact (magnitude_ne_minus hl y _ h.symm).elim
  · obtain ⟨he, hf⟩ := magnitude_inj hl hx hy (List.cons.inj h).2
    exact ext_of_parts (hxs.trans hys.symm) he hf

/-! ## Words -/

/-- The text of a finite double is not a whole number. -/
theorem mark_mem_text {l : Layout} (hl : l.Signs) {x : Binary64} (hx : x.isFinite = true) :
    '.' ∈ l.text x ∨ 'e' ∈ l.text x := by
  obtain ⟨s, hs, -⟩ := exists_spelling_magnitude hl x
  rw [l.text_of_isFinite hx, ← hs]
  exact s.mark_mem_text.imp (List.mem_append_right _) (List.mem_append_right _)

/-- The text of a finite double starts with a digit or a minus sign. -/
theorem head_text {l : Layout} (hl : l.Signs) {x : Binary64} (hx : x.isFinite = true) :
    ∀ c ∈ (l.text x).head?, c.isDigit = true ∨ c = '-' := by
  obtain ⟨s, hs, -⟩ := exists_spelling_magnitude hl x
  obtain ⟨c, rest, htext, hdigit⟩ := s.head_text
  rw [l.text_of_isFinite hx, ← hs, htext]
  cases x.isNegative <;> simp [hdigit]

/-- The characters of the text of a finite double. -/
theorem mem_text {l : Layout} (hl : l.Signs) {x : Binary64} (hx : x.isFinite = true) {c : Char}
    (hc : c ∈ l.text x) : c.isDigit = true ∨ c = '.' ∨ c = 'e' ∨ c = '-' ∨ c = '+' := by
  obtain ⟨s, hs, -⟩ := exists_spelling_magnitude hl x
  rw [l.text_of_isFinite hx, ← hs] at hc
  rcases List.mem_append.1 hc with hc | hc
  · cases hsign : x.isNegative <;> simp_all
  · exact s.mem_text hc

/-- The text of a double is not empty. -/
theorem text_ne_nil {l : Layout} (hl : l.Signs) {x : Binary64} (hx : x.isFinite = true) :
    l.text x ≠ [] := by
  rcases mark_mem_text hl hx with h | h <;> exact List.ne_nil_of_mem h

end Layout

end RelAlg
