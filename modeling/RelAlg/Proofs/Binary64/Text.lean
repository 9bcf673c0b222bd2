import Mathlib.Data.List.TakeWhile
import Mathlib.Tactic.NormNum
import RelAlg.Binary64.Layout
import RelAlg.Proofs.Binary64.Spelling

/-!
# The text of a double, taken apart

Both layouts write a finite magnitude as a decimal spelling that stands for exactly the decimal
it was given.

* `Layout.Signs`                    : the only signs of positive exponents, none or a plus;
* `Layout.exists_spelling`          : the spelling behind the text of a decimal, and its value;
* `Binary64.isValid_shortest`       : the shortest decimal has digits, and nothing but digits;
* `Layout.exists_spelling_magnitude`: the spelling behind the text of a magnitude;
* `Layout.text_of_isFinite`         : the text of a finite double, up to its sign.
-/

namespace RelAlg

/-! ## Decimals -/

namespace Decimal

/-- The number a decimal stands for. -/
def value (d : Decimal) : ℚ := Numeral.value d.digits * 10 ^ (d.exponent + 1 - d.digits.length)

/-- There are digits, and nothing but digits. -/
def IsValid (d : Decimal) : Prop := d.digits ≠ [] ∧ ∀ c ∈ d.digits, c.isDigit = true

end Decimal

namespace Layout

/-- A positive exponent has no sign or a plus. -/
def Signs (l : Layout) : Prop := l.plus = [] ∨ l.plus = ['+']

theorem signs_document : document.Signs := Or.inr rfl

theorem signs_expression : expression.Signs := Or.inl rfl

/-! ## Exponents -/

theorem isDigits_ofNat (n : Nat) : Symbol.isDigits (Numeral.ofNat n) = true := by
  have hne : (Numeral.ofNat n).isEmpty = false := by simpa using Numeral.ofNat_ne_nil n
  rw [Symbol.isDigits, hne, Bool.not_false, Bool.true_and, List.all_eq_true]
  exact fun c => Numeral.isDigit_of_mem_ofNat

/-- Digits have no sign to drop and count for themselves. -/
theorem unsigned_digits {digits : List Char} (h : ∀ c ∈ digits, c.isDigit = true) :
    Symbol.dropSign digits = digits ∧ Spelling.exponentValue digits = Numeral.value digits := by
  cases digits with
  | nil => exact ⟨rfl, rfl⟩
  | cons c rest =>
    have hc := h c List.mem_cons_self
    refine ⟨Symbol.dropSign_of_isDigit hc, ?_⟩
    unfold Spelling.exponentValue
    split
    · rename_i heq
      cases heq
      exact absurd hc (by decide)
    · rename_i heq
      cases heq
      exact absurd hc (by decide)
    · rfl

/-- The exponent part of a layout reads as the exponent. -/
theorem exponent_spelled {l : Layout} (hl : l.Signs) (k : Int) :
    Symbol.isDigits (Symbol.dropSign ((if k < 0 then [] else l.plus) ++ Numeral.ofInt k)) = true ∧
    Spelling.exponentValue ((if k < 0 then [] else l.plus) ++ Numeral.ofInt k) = k := by
  have hunsigned := unsigned_digits
    fun c (hc : c ∈ Numeral.ofNat k.natAbs) => Numeral.isDigit_of_mem_ofNat hc
  by_cases hk : k < 0
  · rw [if_pos hk, List.nil_append, Numeral.ofInt, if_pos hk]
    refine ⟨isDigits_ofNat _, ?_⟩
    show -(Numeral.value (Numeral.ofNat k.natAbs) : Int) = k
    rw [Numeral.value_ofNat]
    omega
  · rw [if_neg hk, Numeral.ofInt, if_neg hk]
    rcases hl with hplus | hplus
    · rw [hplus, List.nil_append, hunsigned.1, hunsigned.2, Numeral.value_ofNat]
      exact ⟨isDigits_ofNat _, by omega⟩
    · rw [hplus]
      refine ⟨isDigits_ofNat _, ?_⟩
      show (Numeral.value (Numeral.ofNat k.natAbs) : Int) = k
      rw [Numeral.value_ofNat]
      omega

/-! ## Positional notation -/

theorem isDigit_zero : ∀ c ∈ ['0'], c.isDigit = true := List.forall_mem_singleton.2 rfl

theorem isDigit_replicate {k : Nat} {c : Char} (h : c ∈ List.replicate k '0') :
    c.isDigit = true := by
  rw [List.eq_of_mem_replicate h]
  decide

section Positional

variable {d : Decimal}

/-- Digits behind a point and zeros. -/
theorem exists_spelling_below_one (hd : d.IsValid) (hneg : d.exponent < 0) :
    ∃ s : Spelling, s.text = '0' :: '.' :: (List.replicate (-d.exponent - 1).toNat '0' ++ d.digits)
      ∧ s.value = d.value := by
  obtain ⟨hne, hdigits⟩ := hd
  refine ⟨⟨['0'], List.replicate (-d.exponent - 1).toNat '0' ++ d.digits, none, isDigit_zero,
    by decide, ?_, nofun, Or.inl (by simp [hne])⟩, ?_, ?_⟩
  · intro c hc
    rcases List.mem_append.1 hc with hc | hc
    · exact isDigit_replicate hc
    · exact hdigits c hc
  · simp [Spelling.text, Spelling.fractionText, Spelling.exponentText, hne]
  · have hvalue :
        Numeral.value (['0'] ++ (List.replicate (-d.exponent - 1).toNat '0' ++ d.digits))
          = Numeral.value d.digits := by
      rw [Numeral.value_append, Numeral.value_append, Numeral.value_replicate_zero]
      simp [Numeral.value, Numeral.digitValue]
    rw [Spelling.value, Decimal.value, hvalue]
    simp only [List.length_append, List.length_replicate, Option.map_none, Option.getD_none]
    congr 2
    omega

/-- All digits in front of the point, with zeros to fill up. -/
theorem exists_spelling_whole (hd : d.IsValid) (hneg : ¬d.exponent < 0)
    (hlen : d.digits.length ≤ d.exponent.toNat + 1) :
    ∃ s : Spelling, s.text = d.digits
        ++ List.replicate (d.exponent.toNat + 1 - d.digits.length) '0' ++ ['.', '0']
      ∧ s.value = d.value := by
  obtain ⟨hne, hdigits⟩ := hd
  refine ⟨⟨d.digits ++ List.replicate (d.exponent.toNat + 1 - d.digits.length) '0', ['0'], none,
    ?_, by simp [hne], isDigit_zero, nofun, Or.inl (by decide)⟩, ?_, ?_⟩
  · intro c hc
    rcases List.mem_append.1 hc with hc | hc
    · exact hdigits c hc
    · exact isDigit_replicate hc
  · simp [Spelling.text, Spelling.fractionText, Spelling.exponentText]
  · have hexp : d.exponent + 1 - d.digits.length
        = ((d.exponent.toNat + 1 - d.digits.length : Nat) : Int) := by omega
    have hzero : Numeral.value ['0'] = 0 := rfl
    rw [Spelling.value, Decimal.value, Numeral.value_append, Numeral.value_append,
      Numeral.value_replicate_zero, hexp]
    simp only [hzero, List.length_replicate, List.length_singleton, Option.map_none,
      Option.getD_none, add_zero, Nat.cast_mul, Nat.cast_pow, Nat.cast_ofNat, zpow_natCast]
    norm_num
    ring

/-- A point among the digits. -/
theorem exists_spelling_split (hd : d.IsValid) (hneg : ¬d.exponent < 0)
    (hlen : d.exponent.toNat + 1 < d.digits.length) :
    ∃ s : Spelling, s.text = d.digits.take (d.exponent.toNat + 1)
        ++ '.' :: d.digits.drop (d.exponent.toNat + 1)
      ∧ s.value = d.value := by
  obtain ⟨hne, hdigits⟩ := hd
  have hdrop : d.digits.drop (d.exponent.toNat + 1) ≠ [] := by
    rw [Ne, List.drop_eq_nil_iff]
    omega
  refine ⟨⟨d.digits.take (d.exponent.toNat + 1), d.digits.drop (d.exponent.toNat + 1), none,
    fun c hc => hdigits c (List.mem_of_mem_take hc), by simp [hne],
    fun c hc => hdigits c (List.mem_of_mem_drop hc), nofun, Or.inl hdrop⟩, ?_, ?_⟩
  · rw [Spelling.text, Spelling.fractionText, if_neg hdrop]
    simp [Spelling.exponentText]
  · rw [Spelling.value, Decimal.value, List.take_append_drop, List.length_drop]
    simp only [Option.map_none, Option.getD_none]
    congr 2
    omega

/-- A positional text spells its decimal. -/
theorem exists_spelling_positional (hd : d.IsValid) :
    ∃ s : Spelling, s.text = positional d ∧ s.value = d.value := by
  unfold positional
  dsimp only
  split
  · exact exists_spelling_below_one hd ‹_›
  · split
    · exact exists_spelling_whole hd ‹_› ‹_›
    · exact exists_spelling_split hd ‹_› (by omega)

end Positional

/-! ## Scientific notation -/

/-- A scientific text spells its decimal. -/
theorem exists_spelling_scientific {l : Layout} (hl : l.Signs) {d : Decimal} (hd : d.IsValid) :
    ∃ s : Spelling, s.text = l.scientific d ∧ s.value = d.value := by
  obtain ⟨hne, hdigits⟩ := hd
  obtain ⟨c, rest, hcs⟩ := List.exists_cons_of_ne_nil hne
  obtain ⟨hexp, hvalue⟩ := exponent_spelled hl d.exponent
  have hdvalue : d.value = Numeral.value (c :: rest) * 10 ^ (d.exponent - rest.length) := by
    rw [Decimal.value, hcs, List.length_cons]
    congr 2
    push_cast
    ring
  rw [hcs] at hdigits
  refine ⟨⟨[c], rest, some ((if d.exponent < 0 then [] else l.plus) ++ Numeral.ofInt d.exponent),
    fun x hx => hdigits x (List.mem_singleton.1 hx ▸ List.mem_cons_self), by simp,
    fun x hx => hdigits x (List.mem_cons_of_mem _ hx), ?_, Or.inr rfl⟩, ?_, ?_⟩
  · rintro e ⟨⟩
    exact hexp
  · cases rest with
    | nil => simp [Spelling.text, Spelling.fractionText, Spelling.exponentText, scientific, hcs]
    | cons x rest =>
      simp [Spelling.text, Spelling.fractionText, Spelling.exponentText, scientific, hcs]
  · rw [Spelling.value, hdvalue, List.singleton_append]
    simp only [Option.map_some, Option.getD_some, hvalue]

/-! ## Doubles -/

/-- The text of a decimal in a layout, positional or not. -/
theorem exists_spelling {l : Layout} (hl : l.Signs) {d : Decimal} (hd : d.IsValid) :
    ∃ s : Spelling, s.value = d.value ∧
      s.text = if l.leastPlain ≤ d.exponent ∧ d.exponent < 16 then positional d
        else l.scientific d := by
  split
  · obtain ⟨s, htext, hvalue⟩ := exists_spelling_positional hd
    exact ⟨s, hvalue, htext⟩
  · obtain ⟨s, htext, hvalue⟩ := exists_spelling_scientific hl hd
    exact ⟨s, hvalue, htext⟩

end Layout

namespace Binary64

/-- Dropping zeros at the end of a numeral leaves its front. -/
theorem dropTrailingZeros_append (cs : List Char) :
    ∃ k, cs = dropTrailingZeros cs ++ List.replicate k '0' := by
  cases cs with
  | nil => exact ⟨0, rfl⟩
  | cons c rest =>
    refine ⟨(rest.reverse.takeWhile (· == '0')).length, ?_⟩
    have hzeros : rest.reverse.takeWhile (· == '0')
        = List.replicate (rest.reverse.takeWhile (· == '0')).length '0' :=
      List.eq_replicate_of_mem fun x hx => by simpa using List.mem_takeWhile_imp hx
    have hsplit := congrArg List.reverse
      (List.takeWhile_append_dropWhile (p := (· == '0')) (l := rest.reverse))
    rw [List.reverse_append, List.reverse_reverse, hzeros, List.reverse_replicate] at hsplit
    simp only [dropTrailingZeros, List.cons_append]
    exact congrArg (c :: ·) hsplit.symm

theorem dropTrailingZeros_ne_nil {cs : List Char} (h : cs ≠ []) : dropTrailingZeros cs ≠ [] := by
  cases cs with
  | nil => exact (h rfl).elim
  | cons c rest => exact List.cons_ne_nil _ _

/-- The result of the search for the shortest digits, whatever it is, as a decimal. -/
theorem shortest_eq (tie : Tie) (x : Binary64) : ∃ (n : Nat) (k : Int),
    x.shortest tie
      = ⟨dropTrailingZeros (Numeral.ofNat n), k + ((Numeral.ofNat n).length - 1 : Nat)⟩ ∧
    ((List.range 17).findSome? fun i : Nat =>
      (x.roundingInterval.candidate? tie
        (decimalExponent x.roundingInterval.value x.roundingInterval.denominator - i)).map
      (·, decimalExponent x.roundingInterval.value x.roundingInterval.denominator - i)).getD (0, 0)
      = (n, k) :=
  ⟨_, _, rfl, rfl⟩

theorem isValid_shortest (tie : Tie) (x : Binary64) : (x.shortest tie).IsValid := by
  obtain ⟨n, k, h, -⟩ := x.shortest_eq tie
  rw [h]
  refine ⟨dropTrailingZeros_ne_nil (Numeral.ofNat_ne_nil n), fun c hc => ?_⟩
  obtain ⟨j, hj⟩ := dropTrailingZeros_append (Numeral.ofNat n)
  refine Numeral.isDigit_of_mem_ofNat (n := n) ?_
  rw [hj]
  exact List.mem_append_left _ hc

/-- Dropping zeros and counting the exponent from the first digit keep the number. -/
theorem value_dropTrailingZeros (n : Nat) (k : Int) :
    Decimal.value ⟨dropTrailingZeros (Numeral.ofNat n), k + ((Numeral.ofNat n).length - 1 : Nat)⟩
      = n * 10 ^ k := by
  obtain ⟨j, hj⟩ := dropTrailingZeros_append (Numeral.ofNat n)
  have hlen := congrArg List.length hj
  rw [List.length_append, List.length_replicate] at hlen
  have hpos : 0 < (Numeral.ofNat n).length := List.length_pos_iff.2 (Numeral.ofNat_ne_nil n)
  have hn : n = Numeral.value (dropTrailingZeros (Numeral.ofNat n)) * 10 ^ j := by
    have := congrArg Numeral.value hj
    rwa [Numeral.value_ofNat, Numeral.value_append, Numeral.value_replicate_zero,
      List.length_replicate, add_zero] at this
  have hexp : k + ((Numeral.ofNat n).length - 1 : Nat) + 1
      - (dropTrailingZeros (Numeral.ofNat n)).length = j + k := by omega
  rw [Decimal.value, hexp, zpow_add₀ (by norm_num), zpow_natCast, ← mul_assoc]
  conv_rhs => rw [hn]
  push_cast
  rfl

end Binary64

namespace Layout

/-- The text of the magnitude of a double is a spelling. -/
theorem exists_spelling_magnitude {l : Layout} (hl : l.Signs) (x : Binary64) :
    ∃ s : Spelling, s.text = l.magnitude x ∧
      s.value = if x.isZero then 0 else (x.shortest l.tie).value := by
  unfold magnitude
  split
  · exact ⟨⟨['0'], ['0'], none, isDigit_zero, by decide, isDigit_zero, nofun,
      Or.inl (by decide)⟩, rfl, by simp [Spelling.value, Numeral.value, Numeral.digitValue]⟩
  · obtain ⟨s, hvalue, htext⟩ := exists_spelling hl (x.isValid_shortest l.tie)
    exact ⟨s, htext, hvalue⟩

theorem isNaN_eq_false_of_isFinite {x : Binary64} (h : x.isFinite = true) : x.isNaN = false := by
  unfold Binary64.isFinite at h
  unfold Binary64.isNaN
  simp_all

/-- The text of a finite double: a minus sign if it is negative, and its magnitude. -/
theorem text_of_isFinite (l : Layout) {x : Binary64} (h : x.isFinite = true) :
    l.text x = (if x.isNegative then ['-'] else []) ++ l.magnitude x := by
  rw [text, isNaN_eq_false_of_isFinite h, h]
  cases x.isNegative <;> rfl

/-- The text of a double that is not finite is one of three words. -/
theorem text_of_not_isFinite (l : Layout) {x : Binary64} (h : x.isFinite = false) :
    l.text x ∈ [l.nan, l.infinity, l.negativeInfinity] := by
  rw [text, h]
  cases x.isNaN <;> cases x.isNegative <;> simp

end Layout

end RelAlg
