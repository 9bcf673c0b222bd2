import RelAlg.Document.Reader
import RelAlg.Proofs.Binary64.ReadBack
import RelAlg.Proofs.Binary64.Scaling

/-!
# Numbers are read up to their end

A number in a text ends where neither a digit nor a point nor an exponent goes on.  Up to there a
numeral is read as its whole number, and the text of a finite double as it would be read alone.

* `Scan.EndsNumber`            : what may follow a number;
* `Scan.number_ofInt`          : a numeral in one of the two integer ranges is read as an integer;
* `Scan.fractionalNumber_eq`   : a number with few digits is read as the nearest double;
* `Binary64.readsBack`         : the text of a double, read alone, gives the double;
* `Binary64.number_text`       : so it does in front of whatever ends a number;
* `Binary64.readsBack_of_short`: a double whose text has few digits is read back.
-/

namespace RelAlg

namespace Scan

/-- The text does not go on with a number. -/
def EndsNumber (cs : List Char) : Prop :=
  ∀ c ∈ cs.head?, c.isDigit = false ∧ c ≠ '.' ∧ c ≠ 'e' ∧ c ≠ 'E'

theorem endsNumber_nil : EndsNumber [] := nofun

/-- It is enough to look at the first character. -/
theorem endsNumber_cons {c : Char} (cs : List Char) (h : c ∈ [',', ']', '}', '\n', ' ']) :
    EndsNumber (c :: cs) := by
  rintro c ⟨⟩
  simp only [List.mem_cons, List.not_mem_nil, or_false] at h
  rcases h with rfl | rfl | rfl | rfl | rfl <;> decide

theorem EndsNumber.noDigitHead {cs : List Char} (h : EndsNumber cs) : Spelling.NoDigitHead cs :=
  fun c hc => (h c hc).1

/-! ## Exponents -/

/-- Nothing that ends a number is an exponent. -/
theorem exponent_of_endsNumber {rest : List Char} (h : EndsNumber rest) :
    exponent rest = some (none, rest) := by
  cases rest with
  | nil => rfl
  | cons c rest =>
    obtain ⟨-, -, he, hE⟩ := h c rfl
    simp [exponent, he, hE]

/-- The digits of an exponent, behind its sign. -/
theorem exponent_e {cs rest : List Char} (hdigits : Symbol.isDigits (Symbol.dropSign cs) = true)
    (hrest : EndsNumber rest) :
    exponent ('e' :: (cs ++ rest)) = some (some (Spelling.exponentValue cs), rest) := by
  have hspan : ∀ digits : List Char, Symbol.isDigits digits = true →
      digits.isEmpty = false ∧ (digits ++ rest).takeWhile Char.isDigit = digits
        ∧ (digits ++ rest).dropWhile Char.isDigit = rest := by
    intro digits h
    simp only [Symbol.isDigits, Bool.and_eq_true, Bool.not_eq_true', List.all_eq_true] at h
    exact ⟨h.1, Spelling.takeWhile_digits h.2 hrest.noDigitHead,
      Spelling.dropWhile_digits h.2 hrest.noDigitHead⟩
  unfold Symbol.dropSign at hdigits
  split at hdigits
  · obtain ⟨hne, htake, hdrop⟩ := hspan _ hdigits
    simp [exponent, htake, hdrop, hne, Spelling.exponentValue]
  · obtain ⟨hne, htake, hdrop⟩ := hspan _ hdigits
    simp [exponent, htake, hdrop, hne, Spelling.exponentValue]
  · rename_i hplus hminus
    obtain ⟨hne, htake, hdrop⟩ := hspan _ hdigits
    cases cs with
    | nil => cases hne
    | cons c cs =>
      have hc : c ≠ '-' ∧ c ≠ '+' := ⟨fun h => hminus cs (h ▸ rfl), fun h => hplus cs (h ▸ rfl)⟩
      have hvalue : Spelling.exponentValue (c :: cs) = Numeral.value (c :: cs) := by
        simp [Spelling.exponentValue]
      simp only [List.cons_append] at htake hdrop
      simp [exponent, hc, htake, hdrop, hvalue]

/-! ## Numbers -/

theorem pointed_of_ne {cs : List Char} (h : ∀ rest, cs ≠ '.' :: rest) :
    pointed cs = (false, cs) := by
  unfold pointed
  split
  · exact absurd rfl (h _)
  · rfl

theorem number_minus (cs : List Char) : number ('-' :: cs) = magnitude true cs := rfl

theorem number_of_isDigit {c : Char} (cs : List Char) (h : c.isDigit = true) :
    number (c :: cs) = magnitude false (c :: cs) := by
  unfold number
  split
  · rename_i heq
    rw [(List.cons.inj heq).1] at h
    exact absurd h (by decide)
  · rfl

/-- Digits alone are a whole number. -/
theorem magnitude_digits (negative : Bool) {digits rest : List Char}
    (hdigits : ∀ c ∈ digits, c.isDigit = true) (hwhole : isWhole digits = true)
    (hrest : EndsNumber rest) :
    magnitude negative (digits ++ rest) = some (wholeNumber negative digits, rest) := by
  have hpoint : pointed rest = (false, rest) :=
    pointed_of_ne fun tail h => (hrest '.' (h ▸ rfl)).2.1 rfl
  rw [magnitude, Spelling.takeWhile_digits hdigits hrest.noDigitHead,
    Spelling.dropWhile_digits hdigits hrest.noDigitHead, hpoint]
  simp [hwhole, exponent_of_endsNumber hrest]

/-- A spelling is a fractional number, unless it has a superfluous zero in front. -/
theorem magnitude_spelling (negative : Bool) (s : Spelling) {rest : List Char}
    (hrest : EndsNumber rest) :
    magnitude negative (s.text ++ rest) =
      if isWhole s.whole then
        some (fractionalNumber negative s.whole s.fraction
          ((s.exponent.map Spelling.exponentValue).getD 0), rest)
      else none := by
  have hexponent : exponent (s.exponentText ++ rest)
      = some (s.exponent.map Spelling.exponentValue, rest) := by
    cases he : s.exponent with
    | none => simpa [Spelling.exponentText, he] using exponent_of_endsNumber hrest
    | some e => simpa [Spelling.exponentText, he] using exponent_e (s.exponent_digits e he) hrest
  have hbehind : Spelling.NoDigitHead (s.exponentText ++ rest) := by
    unfold Spelling.exponentText
    split
    · exact hrest.noDigitHead
    · simp [Spelling.NoDigitHead]
  have htext : s.text ++ rest = s.whole ++ (s.fractionText ++ (s.exponentText ++ rest)) := by
    simp [Spelling.text]
  by_cases hfraction : s.fraction = []
  -- without a fraction there is an exponent, and that makes the number fractional
  · have hmarked : s.exponent.isSome = true := s.marked.resolve_left (not_not_intro hfraction)
    obtain ⟨e, he⟩ := Option.isSome_iff_exists.1 hmarked
    have htail : s.fractionText ++ (s.exponentText ++ rest) = s.exponentText ++ rest := by
      simp [Spelling.fractionText, hfraction]
    have hpoint : pointed (s.exponentText ++ rest) = (false, s.exponentText ++ rest) :=
      pointed_of_ne fun tail h => by simp [Spelling.exponentText, he] at h
    rw [magnitude, htext, htail, Spelling.takeWhile_digits s.whole_digits hbehind,
      Spelling.dropWhile_digits s.whole_digits hbehind, hpoint]
    cases isWhole s.whole <;> simp [hexponent, hfraction, he]
  · have htail : s.fractionText ++ (s.exponentText ++ rest)
        = '.' :: (s.fraction ++ (s.exponentText ++ rest)) := by
      simp [Spelling.fractionText, hfraction]
    have hpoint : Spelling.NoDigitHead ('.' :: (s.fraction ++ (s.exponentText ++ rest))) := by
      simp [Spelling.NoDigitHead]
    rw [magnitude, htext, htail, Spelling.takeWhile_digits s.whole_digits hpoint,
      Spelling.dropWhile_digits s.whole_digits hpoint, pointed]
    cases isWhole s.whole <;> simp [Spelling.takeWhile_digits s.fraction_digits hbehind,
      Spelling.dropWhile_digits s.fraction_digits hbehind, hexponent, hfraction]

/-! ## Numerals -/

/-- A numeral has no superfluous zero. -/
theorem isWhole_ofNat (n : Nat) : isWhole (Numeral.ofNat n) = true := by
  rcases Nat.eq_zero_or_pos n with rfl | hn
  · rw [Numeral.ofNat, if_pos (by decide)]
    rfl
  · obtain ⟨c, cs, hcs, hc⟩ := Numeral.exists_cons_ofNat hn
    rw [hcs]
    unfold isWhole
    split <;> simp_all

/-- Digits that leave the significand with 64 bits are taken to the last one. -/
theorem takeDigits_eq {n : Nat} {cs : List Char}
    (h : n * 10 ^ cs.length + Numeral.value cs < 0x10000000000000000) :
    takeDigits n cs = (n * 10 ^ cs.length + Numeral.value cs, []) := by
  induction cs generalizing n with
  | nil => simp [takeDigits, Numeral.value]
  | cons c cs ih =>
    have hvalue : n * 10 ^ (c :: cs).length + Numeral.value (c :: cs)
        = (10 * n + Numeral.digitValue c) * 10 ^ cs.length + Numeral.value cs := by
      rw [← List.singleton_append, Numeral.value_append, List.singleton_append, List.length_cons]
      simp [Numeral.value]
      ring
    rw [hvalue] at h ⊢
    have hfits : 10 * n + Numeral.digitValue c < 0x10000000000000000 :=
      ((Nat.le_mul_of_pos_right _ (by positivity)).trans (Nat.le_add_right _ _)).trans_lt h
    rw [takeDigits, if_pos hfits, ih h]

/-- A numeral of 64 bits is taken as a whole. -/
theorem takeDigits_ofNat {n : Nat} (h : n < 0x10000000000000000) :
    takeDigits 0 (Numeral.ofNat n) = (n, []) := by
  rw [takeDigits_eq] <;> rw [Nat.zero_mul, Nat.zero_add, Numeral.value_ofNat]
  exact h

/-- A numeral in one of the two integer ranges is read as an integer. -/
theorem number_ofInt {n : Int} (hlow : -0x8000000000000000 ≤ n) (hhigh : n < 0x10000000000000000)
    {rest : List Char} (hrest : EndsNumber rest) :
    number (Numeral.ofInt n ++ rest) = some (.integer n, rest) := by
  have hdigits : ∀ c ∈ Numeral.ofNat n.natAbs, c.isDigit = true := fun c =>
    Numeral.isDigit_of_mem_ofNat
  have htake : takeDigits 0 (Numeral.ofNat n.natAbs) = (n.natAbs, []) :=
    takeDigits_ofNat (by omega)
  have hnumeral := fun negative => magnitude_digits negative hdigits (isWhole_ofNat n.natAbs) hrest
  unfold Numeral.ofInt
  split
  · rw [List.cons_append, number_minus, hnumeral, wholeNumber, htake]
    simp only [Bool.not_true, Bool.false_eq_true, if_false]
    rw [if_pos (by omega)]
    congr 3
    omega
  · obtain ⟨c, cs, hcs⟩ := List.exists_cons_of_ne_nil (Numeral.ofNat_ne_nil n.natAbs)
    have hnumber : number (Numeral.ofNat n.natAbs ++ rest)
        = magnitude false (Numeral.ofNat n.natAbs ++ rest) := by
      rw [hcs]
      exact number_of_isDigit _ (hdigits c (hcs ▸ List.mem_cons_self))
    rw [hnumber, hnumeral, wholeNumber, htake]
    simp only [Bool.not_false, if_true]
    congr 3
    omega

end Scan

/-! ## Doubles -/

namespace Scan

/-- A number whose digits have 53 bits and whose power of ten is small is read as the nearest
double. -/
theorem fractionalNumber_eq (negative : Bool) {whole fraction : List Char} {e : Int}
    (hn : Numeral.value (whole ++ fraction) < 9007199254740992)
    (he : (e - fraction.length).natAbs ≤ 22) :
    fractionalNumber negative whole fraction e =
      (Binary64.ofDecimal? negative (Numeral.value (whole ++ fraction))
        (e - fraction.length)).elim .unreadable .float := by
  rw [Numeral.value_append] at hn ⊢
  have hwhole : Numeral.value whole ≤ Numeral.value whole * 10 ^ fraction.length :=
    Nat.le_mul_of_pos_right _ (by positivity)
  have htake : takeDigits 0 whole = (Numeral.value whole, []) := by
    rw [takeDigits_eq] <;> rw [Nat.zero_mul, Nat.zero_add]
    omega
  rw [fractionalNumber, htake]
  dsimp only
  rw [takeDigits_eq (by omega)]
  simp only [List.length_nil, Nat.cast_zero, add_zero, scaledNumber]
  rw [Binary64.ofScaled?_eq_ofDecimal? negative hn he]
  cases Binary64.ofDecimal? negative _ _ <;> rfl

/-- The whole part of the text of a double has no superfluous zero. -/
theorem isWhole_of_text {l : Layout} {x : Binary64} (hx : x.isFinite = true) {s : Spelling}
    (hs : s.text = l.magnitude x) : isWhole s.whole = true := by
  rcases l.head_magnitude hx with ⟨rest, htext⟩ | ⟨c, rest, htext, hc⟩
  · have hwhole := s.takeWhile_text
    rw [hs, htext] at hwhole
    rw [← hwhole]
    simp [isWhole]
  · obtain ⟨d, w, hw⟩ := List.exists_cons_of_ne_nil s.whole_ne_nil
    rw [htext, Spelling.text, hw, List.cons_append] at hs
    rw [hw, (List.cons.inj hs).1]
    unfold isWhole
    split <;> simp_all

end Scan

namespace Binary64

/-- The text of a double, read alone, gives the double. -/
def readsBack (x : Binary64) : Bool :=
  match Scan.number (Layout.document.text x) with
  | some (.float y, []) => x == y
  | _ => false

/-- The text of a finite double is a number with a fraction or an exponent, up to its end. -/
theorem number_of_text {x : Binary64} (hx : x.isFinite = true) {s : Spelling}
    (hs : s.text = Layout.document.magnitude x) {rest : List Char} (hrest : Scan.EndsNumber rest) :
    Scan.number (Layout.document.text x ++ rest) =
      some (Scan.fractionalNumber x.isNegative s.whole s.fraction
        ((s.exponent.map Spelling.exponentValue).getD 0), rest) := by
  have hmagnitude := Scan.magnitude_spelling x.isNegative s hrest
  rw [if_pos (Scan.isWhole_of_text hx hs)] at hmagnitude
  rw [← hmagnitude, Layout.text_of_isFinite _ hx, ← hs]
  cases x.isNegative
  · obtain ⟨c, cs, hcs, hdigit⟩ := s.head_text
    rw [hcs]
    exact Scan.number_of_isDigit _ hdigit
  · rfl

/-- In front of whatever ends a number, the text of a double is read as it is read alone. -/
theorem number_text {x : Binary64} (hx : x.isFinite = true) (hback : x.readsBack = true)
    {rest : List Char} (hrest : Scan.EndsNumber rest) :
    Scan.number (Layout.document.text x ++ rest) = some (.float x, rest) := by
  obtain ⟨s, hs, -⟩ := Layout.exists_spelling_magnitude Layout.signs_document x
  have halone := number_of_text hx hs Scan.endsNumber_nil
  rw [List.append_nil] at halone
  rw [readsBack, halone] at hback
  rw [number_of_text hx hs hrest]
  split at hback
  · rename_i y heq
    simp only [Option.some.injEq, Prod.mk.injEq] at heq
    rw [heq.1, beq_iff_eq.1 hback]
  · cases hback

/-- A finite double is read back if the digits of its text, taken as a whole number, have 53 bits
and the power of ten behind them is a small one. -/
theorem readsBack_of_short {x : Binary64} (hx : x.isFinite = true) {s : Spelling}
    (hs : s.text = Layout.document.magnitude x)
    (hdigits : Numeral.value (s.whole ++ s.fraction) < 9007199254740992)
    (hpower : ((s.exponent.map Spelling.exponentValue).getD 0 - s.fraction.length).natAbs ≤ 22) :
    x.readsBack = true := by
  have htext := number_of_text hx hs Scan.endsNumber_nil
  rw [List.append_nil, Scan.fractionalNumber_eq _ hdigits hpower,
    ofDecimal?_of_text Layout.signs_document hx hs, Option.elim_some] at htext
  rw [readsBack, htext]
  exact beq_self_eq_true x

end Binary64

end RelAlg
