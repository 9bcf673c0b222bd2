import RelAlg.Binary64.Scaling
import RelAlg.Proofs.Binary64.Interval

/-!
# Rounding to double precision

A fraction is rounded on the grid on which it has 53 bits, to the nearest integer there.  So
fractions of one value are rounded alike, one with 53 significant bits is not changed, and one on
one side of a double is not rounded to the other side.

* `Binary64.IsNearest`              : the nearest integer, a half going to the even one;
* `Binary64.IsGrid`                 : the grid on which a number has 53 bits;
* `Binary64.magnitudeOfRatio_eq`    : a fraction is rounded to the nearest integer on its grid;
* `Binary64.magnitudeOfRatio_congr` : fractions of one value are rounded alike;
* `Binary64.modulus_ofRatio`        : a fraction with 53 significant bits is rounded to itself;
* `Binary64.isFinite_ofRatio`       : what does not exceed a finite double is rounded to one;
* `Binary64.ofDecimal?_eq`          : a decimal is read exactly by rounding it once.
-/

namespace RelAlg

namespace Binary64

variable {x y : Binary64}

/-! ## The nearest integer -/

/-- No integer is nearer to `c` than `k`, and if another one is as near then `k` is even. -/
def IsNearest (c : ℚ) (k : Nat) : Prop := |c - k| ≤ 1 / 2 ∧ (|c - k| = 1 / 2 → k % 2 = 0)

theorem IsNearest.unique {c : ℚ} {j k : Nat} (hj : IsNearest c j) (hk : IsNearest c k) :
    j = k := by
  obtain ⟨hjle, hjtie⟩ := hj
  obtain ⟨hkle, hktie⟩ := hk
  by_contra hne
  have hge : (1 : ℚ) ≤ |(j - k : ℚ)| := by
    exact_mod_cast Int.one_le_abs (by omega : (j - k : Int) ≠ 0)
  have hsum : |(j - k : ℚ)| ≤ |c - j| + |c - k| := by
    rw [abs_sub_comm c j]
    exact abs_sub_le _ _ _
  -- both are half a step away, so they are even and next to each other
  have hjeven := hjtie (by linarith)
  have hkeven := hktie (by linarith)
  have hle : |(j - k : ℚ)| ≤ 1 := by linarith
  have hle : |(j - k : Int)| ≤ 1 := by exact_mod_cast hle
  have := abs_le.1 hle
  omega

theorem IsNearest.le_of_le {c : ℚ} {j k : Nat} (hj : IsNearest c j) (hk : c ≤ k) : j ≤ k := by
  by_contra h
  have hstep : (k + 1 : ℚ) ≤ j := by exact_mod_cast Nat.lt_of_not_le h
  linarith [(abs_le.1 hj.1).1]

theorem IsNearest.ge_of_ge {c : ℚ} {j k : Nat} (hj : IsNearest c j) (hk : k ≤ c) : k ≤ j := by
  by_contra h
  have hstep : (j + 1 : ℚ) ≤ k := by exact_mod_cast Nat.lt_of_not_le h
  linarith [(abs_le.1 hj.1).2]

/-- Rounding gives the nearest integer. -/
theorem isNearest_nearestEven {num den : Nat} (hden : 0 < den) :
    IsNearest (num / den) (nearestEven num den) := by
  have hpos : (0 : ℚ) < den := by exact_mod_cast hden
  have hsplit : (num / den : ℚ) = (num / den : Nat) + (num % den : Nat) / (den : ℚ) := by
    rw [div_eq_iff hpos.ne', add_mul, div_mul_cancel₀ _ hpos.ne', mul_comm]
    exact_mod_cast (Nat.div_add_mod num den).symm
  have hnonneg : (0 : ℚ) ≤ (num % den : Nat) / (den : ℚ) := by positivity
  have hlt : (num % den : Nat) / (den : ℚ) < 1 := by
    rw [div_lt_one hpos]
    exact_mod_cast Nat.mod_lt num hden
  have hbelow : (num % den : Nat) / (den : ℚ) < 1 / 2 ↔ 2 * (num % den) < den := by
    rw [div_lt_div_iff₀ hpos two_pos, one_mul, mul_comm]
    exact_mod_cast Iff.rfl
  have habove : (1 / 2 : ℚ) < (num % den : Nat) / (den : ℚ) ↔ den < 2 * (num % den) := by
    rw [div_lt_div_iff₀ two_pos hpos, one_mul, mul_comm]
    exact_mod_cast Iff.rfl
  unfold nearestEven IsNearest
  dsimp only
  rw [hsplit]
  simp only [← hbelow, ← habove]
  generalize num / den = quotient
  generalize ((num % den : Nat) / (den : ℚ)) = r at *
  split
  · rw [add_sub_cancel_left, abs_of_nonneg hnonneg]
    exact ⟨by linarith, fun h => by linarith⟩
  · split
    · rw [Nat.cast_add, Nat.cast_one, add_sub_add_left_eq_sub, abs_of_neg (by linarith)]
      exact ⟨by linarith, fun h => by linarith⟩
    · obtain rfl : r = 1 / 2 := by linarith
      rcases Nat.mod_two_eq_zero_or_one quotient with heven | hodd
      · rw [heven, add_zero, add_sub_cancel_left, abs_of_nonneg (by norm_num)]
        exact ⟨le_rfl, fun _ => heven⟩
      · rw [hodd, Nat.cast_add, Nat.cast_one, add_sub_add_left_eq_sub, abs_of_neg (by norm_num)]
        exact ⟨by norm_num, fun _ => by omega⟩

/-! ## The grid -/

/-- A positive number lies between the power of two of its logarithm and the next one. -/
theorem log2_bounds {n : Nat} (hn : 0 < n) :
    (2 : ℚ) ^ (Nat.log2 n : Int) ≤ n ∧ (n : ℚ) < 2 ^ ((Nat.log2 n : Int) + 1) := by
  have hlow := Nat.log2_self_le hn.ne'
  have hhigh := Nat.lt_log2_self (n := n)
  constructor
  · rw [zpow_natCast]
    exact_mod_cast hlow
  · exact_mod_cast hhigh

/-- Up to the least exponent the grid is chosen by the logarithm of the fraction. -/
theorem exists_gridExponent {num den : Nat} (hnum : 0 < num) (hden : 0 < den) : ∃ e : Int,
    gridExponent num den = max e (-1074) ∧ (2 : ℚ) ^ (e + 52) ≤ num / den ∧
      (num / den : ℚ) < 2 ^ (e + 53) := by
  have hpos : (0 : ℚ) < den := by exact_mod_cast hden
  obtain ⟨hnumlow, hnumhigh⟩ := log2_bounds hnum
  obtain ⟨hdenlow, hdenhigh⟩ := log2_bounds hden
  unfold gridExponent
  dsimp only
  generalize (Nat.log2 num : Int) = a at *
  generalize (Nat.log2 den : Int) = b at *
  have hlow : (2 : ℚ) ^ (a - b - 1) ≤ num / den := by
    rw [le_div_iff₀ hpos]
    calc (2 : ℚ) ^ (a - b - 1) * den ≤ 2 ^ (a - b - 1) * 2 ^ (b + 1) := by gcongr
      _ = 2 ^ a := by rw [← zpow_add₀ two_ne_zero]; congr 1; omega
      _ ≤ num := hnumlow
  have hhigh : (num / den : ℚ) < 2 ^ (a - b + 1) := by
    rw [div_lt_iff₀ hpos]
    calc (num : ℚ) < 2 ^ (a + 1) := hnumhigh
      _ = 2 ^ (a - b + 1) * 2 ^ b := by rw [← zpow_add₀ two_ne_zero]; congr 1; omega
      _ ≤ 2 ^ (a - b + 1) * den := by gcongr
  have hreached : (if 0 ≤ a - b then decide (den * Nat.pow 2 (a - b).toNat ≤ num)
      else decide (den ≤ num * Nat.pow 2 (-(a - b)).toNat)) = true ↔
        (2 : ℚ) ^ (a - b) ≤ num / den := by
    have h := mul_zpow_le_div_iff (b := 2) (by decide) 1 (a - b) num hden
    rw [Nat.cast_one, one_mul, one_mul] at h
    rw [show (2 : ℚ) = (2 : Nat) from rfl, h]
    split
    · rw [decide_eq_true_iff, Int.toNat_of_nonpos (by omega : -(a - b) ≤ 0)]
      simp
    · rw [decide_eq_true_iff, Int.toNat_of_nonpos (by omega : a - b ≤ 0)]
      simp
  by_cases h : (2 : ℚ) ^ (a - b) ≤ num / den
  · refine ⟨a - b - 52, by rw [if_pos (hreached.2 h)], ?_, ?_⟩
    · rwa [Int.sub_add_cancel]
    · rwa [show a - b - 52 + 53 = a - b + 1 by omega]
  · refine ⟨a - b - 53, by rw [if_neg (mt hreached.1 h)], ?_, ?_⟩
    · rwa [show a - b - 53 + 52 = a - b - 1 by omega]
    · rwa [Int.sub_add_cancel, ← not_le]

/-- On the grid of step 2 ^ q the number `c` has 53 bits, or fewer if there is no finer grid. -/
def IsGrid (c : ℚ) (q : Int) : Prop :=
  -1074 ≤ q ∧ c < 2 ^ (q + 53) ∧ (q = -1074 ∨ 2 ^ (q + 52) ≤ c)

/-- What lies below the end of a grid has no coarser one. -/
theorem IsGrid.le_of_lt {c : ℚ} {p q : Int} (hp : IsGrid c p) (hq : -1074 ≤ q)
    (h : c < 2 ^ (q + 53)) : p ≤ q := by
  obtain ⟨-, -, rfl | hlow⟩ := hp
  · exact hq
  · have := (zpow_lt_zpow_iff_right₀ one_lt_two).1 (hlow.trans_lt h)
    omega

/-- A greater number has no finer grid. -/
theorem IsGrid.mono {c d : ℚ} {p q : Int} (hp : IsGrid c p) (hq : IsGrid d q) (h : c ≤ d) :
    p ≤ q :=
  hp.le_of_lt hq.1 (h.trans_lt hq.2.1)

theorem IsGrid.unique {c : ℚ} {p q : Int} (hp : IsGrid c p) (hq : IsGrid c q) : p = q :=
  le_antisymm (hp.mono hq le_rfl) (hq.mono hp le_rfl)

/-- The multiples of the step that are on their grid. -/
theorem isGrid_mul_iff {u : ℚ} {q : Int} : IsGrid (u * 2 ^ q) q ↔
    -1074 ≤ q ∧ u < 9007199254740992 ∧ (q = -1074 ∨ 4503599627370496 ≤ u) := by
  have hpos : (0 : ℚ) < 2 ^ q := by positivity
  have hscale : ∀ k : Int, (2 : ℚ) ^ (q + k) = 2 ^ k * 2 ^ q := fun k => by
    rw [zpow_add₀ two_ne_zero, mul_comm]
  rw [IsGrid, hscale, hscale, mul_lt_mul_iff_left₀ hpos, mul_le_mul_iff_left₀ hpos]
  norm_num

theorem isGrid_natCast_mul_iff {m : Nat} {q : Int} : IsGrid (m * 2 ^ q) q ↔
    -1074 ≤ q ∧ m < 9007199254740992 ∧ (q = -1074 ∨ 4503599627370496 ≤ m) := by
  rw [isGrid_mul_iff]
  norm_cast

/-- A fraction is rounded on its grid. -/
theorem isGrid_gridExponent {num den : Nat} (hnum : 0 < num) (hden : 0 < den) :
    IsGrid (num / den) (gridExponent num den) := by
  obtain ⟨e, he, hlow, hhigh⟩ := exists_gridExponent hnum hden
  rw [he]
  refine ⟨le_max_right _ _, hhigh.trans_le ?_, ?_⟩
  · exact zpow_le_zpow_right₀ (by norm_num) (by omega)
  · rcases le_total (-1074) e with h | h
    · exact Or.inr (by rwa [max_eq_left h])
    · exact Or.inl (max_eq_right h)

/-- On its grid a fraction is rounded to the nearest integer. -/
theorem exists_magnitudeOfRatio (num : Nat) {den : Nat} (hden : 0 < den) : ∃ m : Nat,
    magnitudeOfRatio num den = (gridExponent num den + 1074).toNat * 4503599627370496 + m ∧
      IsNearest (num / den / 2 ^ gridExponent num den) m := by
  unfold magnitudeOfRatio
  dsimp only
  generalize gridExponent num den = q
  have hpos : 0 < den * Nat.pow 2 q.toNat := Nat.mul_pos hden (Nat.pow_pos (by decide))
  have hratio : (((num * Nat.pow 2 (-q).toNat : Nat) : ℚ) / (den * Nat.pow 2 q.toNat : Nat))
      = num / den / 2 ^ q := by
    have hpower := natPow_div_natPow (b := 2) (by decide) (-q)
    rw [neg_neg, Nat.cast_ofNat, zpow_neg] at hpower
    rw [Nat.cast_mul, Nat.cast_mul, mul_div_mul_comm, hpower, ← div_eq_mul_inv]
  refine ⟨nearestEven (num * Nat.pow 2 (-q).toNat) (den * Nat.pow 2 q.toNat), ?_, ?_⟩
  · split
    · rw [Int.toNat_of_nonpos (by omega : -q ≤ 0)]
      simp
    · rw [Int.toNat_of_nonpos (by omega : q ≤ 0)]
      simp
  · rw [← hratio]
    exact isNearest_nearestEven hpos

/-- What a fraction is rounded to is told by its grid and the nearest integer on it. -/
theorem magnitudeOfRatio_eq {num den m : Nat} {q : Int} (hnum : 0 < num) (hden : 0 < den)
    (hq : IsGrid (num / den) q) (hm : IsNearest (num / den / 2 ^ q) m) :
    magnitudeOfRatio num den = (q + 1074).toNat * 4503599627370496 + m := by
  obtain ⟨n, hn, hnearest⟩ := exists_magnitudeOfRatio num hden
  rw [(isGrid_gridExponent hnum hden).unique hq] at hn hnearest
  rw [hn, hnearest.unique hm]

/-! ## Magnitudes -/

/-- The distance of a finite double from zero. -/
def modulus (x : Binary64) : ℚ := x.significand * 2 ^ x.exponent

/-- The bits of a double without its sign. -/
def magnitudeBits (x : Binary64) : Nat := x.biasedExponent * 4503599627370496 + x.fraction

theorem modulus_nonneg (x : Binary64) : 0 ≤ x.modulus := by
  unfold modulus
  positivity

/-- The bits on the grid of the exponent. -/
theorem magnitudeBits_eq (x : Binary64) :
    x.magnitudeBits = (x.exponent + 1074).toNat * 4503599627370496 + x.significand := by
  unfold magnitudeBits exponent significand
  split <;> omega

theorem isFinite_iff : x.isFinite = true ↔ x.magnitudeBits < 9218868437227405312 := by
  have := x.fraction_lt
  have := x.biasedExponent_lt
  rw [isFinite, bne_iff_ne, magnitudeBits]
  omega

/-- Above the least exponent a significand has 53 bits. -/
theorem normal (x : Binary64) :
    x.exponent = -1074 ∨ -1074 < x.exponent ∧ 4503599627370496 ≤ x.significand := by
  unfold exponent significand
  split <;> omega

theorem isGrid_modulus (x : Binary64) : IsGrid x.modulus x.exponent := by
  have hnormal := x.normal
  exact isGrid_natCast_mul_iff.2 ⟨by omega, x.significand_lt, hnormal.imp_right And.right⟩

/-- The bits without the sign are ordered as the numbers are. -/
theorem modulus_le_of_magnitudeBits_le (h : x.magnitudeBits ≤ y.magnitudeBits) :
    x.modulus ≤ y.modulus := by
  have hx := x.significand_lt
  have hy := y.significand_lt
  have hxnormal := x.normal
  have hynormal := y.normal
  rw [magnitudeBits_eq, magnitudeBits_eq] at h
  rcases (by omega : x.exponent < y.exponent ∨
    x.exponent = y.exponent ∧ x.significand ≤ y.significand) with hlt | ⟨heq, hle⟩
  · obtain ⟨hleast, hhigh, -⟩ := x.isGrid_modulus
    obtain ⟨-, -, hlow⟩ := y.isGrid_modulus
    calc x.modulus ≤ 2 ^ (x.exponent + 53) := hhigh.le
      _ ≤ 2 ^ (y.exponent + 52) := zpow_le_zpow_right₀ (by norm_num) (by omega)
      _ ≤ y.modulus := hlow.resolve_left (by omega)
  · rw [modulus, modulus, heq]
    gcongr

/-- A significand on its grid is found in the bits again. -/
theorem modulus_of_magnitudeBits {m : Nat} {q : Int} (hq : IsGrid (m * 2 ^ q) q)
    (h : x.magnitudeBits = (q + 1074).toNat * 4503599627370496 + m) :
    x.modulus = m * 2 ^ q := by
  obtain ⟨hleast, hlt, hle⟩ := isGrid_natCast_mul_iff.1 hq
  have hnormal := x.normal
  have := x.significand_lt
  rw [magnitudeBits_eq] at h
  have hexponent : x.exponent = q := by omega
  have hsignificand : x.significand = m := by omega
  rw [modulus, hexponent, hsignificand]

/-! ## Rounding a fraction -/

/-- A fraction that does not exceed a double is not rounded beyond it. -/
theorem magnitudeOfRatio_le {num den : Nat} (hnum : 0 < num) (hden : 0 < den)
    (h : (num / den : ℚ) ≤ x.modulus) : magnitudeOfRatio num den ≤ x.magnitudeBits := by
  obtain ⟨m, hm, hnearest⟩ := exists_magnitudeOfRatio num hden
  have hgrid := isGrid_gridExponent hnum hden
  have hnormal := x.normal
  rw [hm, magnitudeBits_eq]
  generalize gridExponent num den = q at *
  have hpos : (0 : ℚ) < 2 ^ q := by positivity
  rcases (hgrid.mono x.isGrid_modulus h).lt_or_eq with hlt | rfl
  -- rounding reaches the least significand of the next grid at most
  · have hcarry : m ≤ 9007199254740992 := by
      refine hnearest.le_of_le ((div_le_iff₀ hpos).2 (hgrid.2.1.le.trans_eq ?_))
      rw [zpow_add₀ two_ne_zero, mul_comm]
      norm_num
    have := hgrid.1
    omega
  · have := hnearest.le_of_le ((div_le_iff₀ hpos).2 h)
    omega

/-- A fraction that is not below a double is not rounded below it. -/
theorem le_magnitudeOfRatio {num den : Nat} (hnum : 0 < num) (hden : 0 < den)
    (h : x.modulus ≤ num / den) : x.magnitudeBits ≤ magnitudeOfRatio num den := by
  obtain ⟨m, hm, hnearest⟩ := exists_magnitudeOfRatio num hden
  have hgrid := isGrid_gridExponent hnum hden
  have hnormal := x.normal
  have hsignificand := x.significand_lt
  rw [hm, magnitudeBits_eq]
  generalize gridExponent num den = q at *
  have hpos : (0 : ℚ) < 2 ^ q := by positivity
  rcases (x.isGrid_modulus.mono hgrid h).lt_or_eq with hlt | rfl
  -- on a coarser grid the fraction has all of its 53 bits
  · have hlow := hgrid.2.2.resolve_left (by omega)
    have hleast : 4503599627370496 ≤ m := by
      refine hnearest.ge_of_ge ((le_div_iff₀ hpos).2 (le_trans (le_of_eq ?_) hlow))
      rw [zpow_add₀ two_ne_zero, mul_comm]
      norm_num
    omega
  · have := hnearest.ge_of_ge ((le_div_iff₀ hpos).2 h)
    omega

/-- Fractions of one value are rounded alike. -/
theorem magnitudeOfRatio_congr {num den num' den' : Nat} (hnum : 0 < num) (hden : 0 < den)
    (hnum' : 0 < num') (hden' : 0 < den') (h : (num / den : ℚ) = num' / den') :
    magnitudeOfRatio num den = magnitudeOfRatio num' den' := by
  obtain ⟨m, hm, hnearest⟩ := exists_magnitudeOfRatio num' hden'
  have hgrid := isGrid_gridExponent hnum' hden'
  rw [← h] at hnearest hgrid
  rw [hm]
  exact magnitudeOfRatio_eq hnum hden hgrid hnearest

theorem toNat_bits_ofMagnitude (negative : Bool) {m : Nat} (h : m < 9223372036854775808) :
    (ofMagnitude negative m).bits.toNat = (if negative then 9223372036854775808 else 0) + m := by
  refine UInt64.toNat_ofNat_of_lt' ?_
  rw [UInt64.size]
  split <;> omega

theorem magnitudeBits_ofMagnitude (negative : Bool) {m : Nat} (h : m < 9223372036854775808) :
    (ofMagnitude negative m).magnitudeBits = m := by
  rw [magnitudeBits, biasedExponent, fraction, toNat_bits_ofMagnitude negative h]
  split <;> omega

theorem isNegative_ofMagnitude (negative : Bool) {m : Nat} (h : m < 9223372036854775808) :
    (ofMagnitude negative m).isNegative = negative := by
  rw [isNegative, toNat_bits_ofMagnitude negative h]
  cases negative <;> simp <;> omega

theorem isNegative_ofRatio (negative : Bool) (num den : Nat) :
    (ofRatio negative num den).isNegative = negative := by
  unfold ofRatio
  split
  · exact isNegative_ofMagnitude negative (by decide)
  · exact isNegative_ofMagnitude negative (by omega)

theorem magnitudeBits_ofRatio (negative : Bool) (num den : Nat) :
    (ofRatio negative num den).magnitudeBits =
      if num = 0 then 0 else min (magnitudeOfRatio num den) 9218868437227405312 := by
  unfold ofRatio
  split
  · exact magnitudeBits_ofMagnitude negative (by decide)
  · exact magnitudeBits_ofMagnitude negative (by omega)

/-- A fraction with 53 significant bits is rounded to itself. -/
theorem modulus_ofRatio (negative : Bool) {num den j : Nat} {i : Int} (hden : 0 < den)
    (hj : j < 9007199254740992) (hleast : -1074 ≤ i) (hgreatest : i ≤ 971)
    (h : (num / den : ℚ) = j * 2 ^ i) : (ofRatio negative num den).modulus = num / den := by
  rcases Nat.eq_zero_or_pos num with rfl | hnum
  · have hzero : IsGrid ((0 : Nat) * 2 ^ (-1074 : Int)) (-1074) :=
      isGrid_natCast_mul_iff.2 ⟨le_rfl, by decide, Or.inl rfl⟩
    rw [modulus_of_magnitudeBits hzero (magnitudeBits_ofRatio negative 0 den)]
    simp
  have hgrid := isGrid_gridExponent hnum hden
  generalize gridExponent num den = q at hgrid
  -- the bits suffice on the grid of step 2 ^ i, so they do on a finer one
  have hq : q ≤ i := by
    refine hgrid.le_of_lt hleast ?_
    rw [h, add_comm, zpow_add₀ two_ne_zero]
    gcongr
    exact_mod_cast hj
  obtain ⟨d, rfl⟩ := Int.le.dest hq
  have hvalue : (num / den : ℚ) = (j * 2 ^ d : Nat) * 2 ^ q := by
    rw [h, zpow_add₀ two_ne_zero, zpow_natCast]
    push_cast
    ring
  have hbits := magnitudeOfRatio_eq hnum hden hgrid (m := j * 2 ^ d) (by
    rw [hvalue, mul_div_cancel_right₀ _ (by positivity), IsNearest, sub_self, abs_zero]
    norm_num)
  rw [hvalue] at hgrid ⊢
  obtain ⟨-, hlt, -⟩ := isGrid_natCast_mul_iff.1 hgrid
  refine modulus_of_magnitudeBits hgrid ?_
  rw [magnitudeBits_ofRatio, if_neg hnum.ne', hbits]
  omega

/-- What does not exceed a finite double is rounded to a finite one. -/
theorem isFinite_ofRatio (negative : Bool) {num den : Nat} (hden : 0 < den)
    (hx : x.isFinite = true) (h : (num / den : ℚ) ≤ x.modulus) :
    (ofRatio negative num den).isFinite = true := by
  rw [isFinite_iff, magnitudeBits_ofRatio]
  split
  · decide
  · have := magnitudeOfRatio_le (by omega) hden h
    have := isFinite_iff.1 hx
    omega

/-- What is not below a finite double is not rounded below it. -/
theorem modulus_le_modulus_ofRatio (negative : Bool) {num den : Nat} (hden : 0 < den)
    (hx : x.isFinite = true) (h : x.modulus ≤ num / den) :
    x.modulus ≤ (ofRatio negative num den).modulus := by
  rcases Nat.eq_zero_or_pos num with rfl | hnum
  · refine h.trans ?_
    rw [Nat.cast_zero, zero_div]
    exact modulus_nonneg _
  · refine modulus_le_of_magnitudeBits_le ?_
    rw [magnitudeBits_ofRatio, if_neg hnum.ne']
    exact le_min (le_magnitudeOfRatio hnum hden h) (isFinite_iff.1 hx).le

/-! ## Reading a decimal -/

/-- A decimal is read exactly by rounding it once, unless its size alone decides. -/
theorem ofDecimal?_eq (negative : Bool) {n num den : Nat} {e : Int} (hden : 0 < den)
    (h : (num / den : ℚ) = n * 10 ^ e) (hhigh : e ≤ 310) (hlow : -330 ≤ e + digitBound n) :
    ofDecimal? negative n e =
      if (ofRatio negative num den).isFinite then some (ofRatio negative num den) else none := by
  have hpower : (10 : ℚ) ^ e ≠ 0 := by positivity
  have hzero : num = 0 ↔ n = 0 := by
    have hratio : (num / den : ℚ) = 0 ↔ num = 0 := by simp [hden.ne']
    rw [← hratio, h, mul_eq_zero, or_iff_left hpower, Nat.cast_eq_zero]
  unfold ofDecimal? magnitudeOfDecimal?
  simp only [isFinite_iff, magnitudeBits_ofRatio, hzero]
  split
  · rename_i hn
    rw [ofRatio, if_pos (hzero.2 hn)]
    rfl
  · rename_i hn
    rw [if_neg (by omega), if_neg (by omega)]
    have hbits : (if 0 ≤ e then magnitudeOfRatio (n * Nat.pow 10 e.toNat) 1
        else magnitudeOfRatio n (Nat.pow 10 (-e).toNat)) = magnitudeOfRatio num den := by
      have hnum : 0 < num := Nat.pos_of_ne_zero (mt hzero.1 hn)
      have hten : ∀ k, 0 < Nat.pow 10 k := fun k => Nat.pow_pos (by decide)
      split
      · obtain ⟨k, rfl⟩ := Int.eq_ofNat_of_zero_le ‹0 ≤ e›
        refine magnitudeOfRatio_congr (Nat.mul_pos (by omega) (hten _)) one_pos hnum hden ?_
        rw [h, Nat.cast_one, div_one, Int.toNat_natCast, zpow_natCast, Nat.pow_eq]
        push_cast
        rfl
      · obtain ⟨k, hk⟩ := Int.eq_ofNat_of_zero_le (by omega : 0 ≤ -e)
        obtain rfl : e = -k := by omega
        refine magnitudeOfRatio_congr (by omega) (hten _) hnum hden ?_
        rw [h, neg_neg, Int.toNat_natCast, zpow_neg, zpow_natCast, Nat.pow_eq, div_eq_mul_inv]
        push_cast
        rfl
    rw [hbits, ofRatio, if_neg (mt hzero.1 hn)]
    have hfits : min (magnitudeOfRatio num den) 9218868437227405312 < 9218868437227405312 ↔
        magnitudeOfRatio num den < 9218868437227405312 := by omega
    simp only [hfits]
    split
    · rw [min_eq_left (by omega)]
      rfl
    · rfl

end Binary64

end RelAlg
