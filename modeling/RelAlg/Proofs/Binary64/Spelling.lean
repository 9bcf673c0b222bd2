import Mathlib.Algebra.Order.Field.Power
import Mathlib.Data.Rat.Cast.Order
import RelAlg.Proofs.Numeral
import RelAlg.Sexp.Symbol

/-!
# Decimal spellings

The text of a finite magnitude is digits, then a point with digits behind it, then an exponent,
where one of the last two may be missing but not both.

* `Spelling`              : such a text, taken apart;
* `Spelling.value`        : the number it stands for;
* `Spelling.value_eq_of_text_eq`: the text determines the number;
* `Spelling.isDecimal_text`: the text spells a number in the sense of `Symbol.readsAsNumber`.
-/

namespace RelAlg

/-! ## Signs -/

namespace Symbol

/-- A digit is no sign. -/
theorem dropSign_of_isDigit {c : Char} {rest : List Char} (h : c.isDigit = true) :
    dropSign (c :: rest) = c :: rest := by
  unfold dropSign
  split
  · rename_i heq
    cases heq
    exact absurd h (by decide)
  · rename_i heq
    cases heq
    exact absurd h (by decide)
  · rfl

/-- Only a sign is dropped. -/
theorem mem_dropSign {c : Char} {cs : List Char} (hplus : c ≠ '+') (hminus : c ≠ '-')
    (h : c ∈ cs) : c ∈ dropSign cs := by
  unfold dropSign
  split
  · exact (List.mem_cons.1 h).resolve_left hplus
  · exact (List.mem_cons.1 h).resolve_left hminus
  · exact h

end Symbol

/-! ## Spellings -/

/-- The parts of a decimal text that is not just digits. -/
structure Spelling where
  whole : List Char
  /-- The digits behind the point; there is no point if there are none. -/
  fraction : List Char
  /-- What stands behind the `e`. -/
  exponent : Option (List Char)
  whole_digits : ∀ c ∈ whole, c.isDigit = true
  whole_ne_nil : whole ≠ []
  fraction_digits : ∀ c ∈ fraction, c.isDigit = true
  exponent_digits : ∀ e, exponent = some e → Symbol.isDigits (Symbol.dropSign e) = true
  marked : fraction ≠ [] ∨ exponent.isSome = true

namespace Spelling

/-- The digits behind the point, with the point. -/
def fractionText (s : Spelling) : List Char :=
  if s.fraction = [] then [] else '.' :: s.fraction

/-- The exponent with the `e` in front of it. -/
def exponentText (s : Spelling) : List Char :=
  match s.exponent with
  | none => []
  | some e => 'e' :: e

def text (s : Spelling) : List Char := s.whole ++ (s.fractionText ++ s.exponentText)

/-- The whole number an exponent stands for. -/
def exponentValue : List Char → Int
  | '-' :: digits => -(Numeral.value digits : Int)
  | '+' :: digits => Numeral.value digits
  | digits => Numeral.value digits

/-- The number a text stands for: its digits without the point, scaled. -/
def value (s : Spelling) : ℚ :=
  Numeral.value (s.whole ++ s.fraction)
    * 10 ^ ((s.exponent.map exponentValue).getD 0 - s.fraction.length)

/-! ## Taking a text apart -/

/-- The first character is no digit. -/
def NoDigitHead (cs : List Char) : Prop := ∀ c ∈ cs.head?, c.isDigit = false

theorem takeWhile_digits {digits rest : List Char} (h : ∀ c ∈ digits, c.isDigit = true)
    (hrest : NoDigitHead rest) : (digits ++ rest).takeWhile Char.isDigit = digits := by
  rw [List.takeWhile_append_of_pos h]
  cases rest with
  | nil => simp
  | cons c rest => simp [hrest c (by simp)]

theorem dropWhile_digits {digits rest : List Char} (h : ∀ c ∈ digits, c.isDigit = true)
    (hrest : NoDigitHead rest) : (digits ++ rest).dropWhile Char.isDigit = rest := by
  rw [List.dropWhile_append_of_pos h]
  cases rest with
  | nil => rfl
  | cons c rest => simp [hrest c (by simp)]

variable (s : Spelling)

theorem noDigitHead_exponentText : NoDigitHead s.exponentText := by
  unfold exponentText
  split <;> simp [NoDigitHead]

theorem noDigitHead_tail : NoDigitHead (s.fractionText ++ s.exponentText) := by
  unfold fractionText
  split
  · exact s.noDigitHead_exponentText
  · simp [NoDigitHead]

theorem takeWhile_text : s.text.takeWhile Char.isDigit = s.whole :=
  takeWhile_digits s.whole_digits s.noDigitHead_tail

theorem dropWhile_text : s.text.dropWhile Char.isDigit = s.fractionText ++ s.exponentText :=
  dropWhile_digits s.whole_digits s.noDigitHead_tail

/-- The fraction can be read off what follows the whole part. -/
theorem fraction_eq_of_tail_eq {s t : Spelling}
    (h : s.fractionText ++ s.exponentText = t.fractionText ++ t.exponentText) :
    s.fraction = t.fraction ∧ s.exponentText = t.exponentText := by
  have hpoint : ∀ u : Spelling, u.fraction ≠ [] → ∀ v : Spelling, v.fraction = [] →
      u.fractionText ++ u.exponentText ≠ v.fractionText ++ v.exponentText := by
    intro u hu v hv heq
    rw [fractionText, if_neg hu, fractionText, if_pos hv] at heq
    unfold exponentText at heq
    cases hve : v.exponent <;> simp [hve] at heq
  by_cases hs : s.fraction = [] <;> by_cases ht : t.fraction = []
  · rw [fractionText, if_pos hs, fractionText, if_pos ht] at h
    exact ⟨hs.trans ht.symm, h⟩
  · exact (hpoint t ht s hs h.symm).elim
  · exact (hpoint s hs t ht h).elim
  · rw [fractionText, if_neg hs, fractionText, if_neg ht] at h
    have h' : s.fraction ++ s.exponentText = t.fraction ++ t.exponentText := (List.cons.inj h).2
    have htake := congrArg (List.takeWhile Char.isDigit) h'
    have hdrop := congrArg (List.dropWhile Char.isDigit) h'
    rw [takeWhile_digits s.fraction_digits s.noDigitHead_exponentText,
      takeWhile_digits t.fraction_digits t.noDigitHead_exponentText] at htake
    rw [dropWhile_digits s.fraction_digits s.noDigitHead_exponentText,
      dropWhile_digits t.fraction_digits t.noDigitHead_exponentText] at hdrop
    exact ⟨htake, hdrop⟩

/-- The text determines the number. -/
theorem value_eq_of_text_eq {s t : Spelling} (h : s.text = t.text) : s.value = t.value := by
  have hwhole := congrArg (List.takeWhile Char.isDigit) h
  have htail := congrArg (List.dropWhile Char.isDigit) h
  rw [takeWhile_text, takeWhile_text] at hwhole
  rw [dropWhile_text, dropWhile_text] at htail
  obtain ⟨hfraction, hexp⟩ := fraction_eq_of_tail_eq htail
  have hexponent : s.exponent = t.exponent := by
    unfold exponentText at hexp
    cases hs : s.exponent <;> cases ht : t.exponent <;> simp_all
  rw [value, value, hwhole, hfraction, hexponent]

/-! ## As numbers of bare text -/

theorem isExponent_exponentText : Symbol.isExponent s.exponentText = true := by
  unfold exponentText
  cases he : s.exponent with
  | none => rfl
  | some e => simp [Symbol.isExponent, s.exponent_digits e he]

theorem isDecimal_text : Symbol.isDecimal s.text = true := by
  have hne : s.whole.isEmpty = false := by simpa using s.whole_ne_nil
  have hexp := s.isExponent_exponentText
  by_cases hfraction : s.fraction = []
  · have htail : s.fractionText ++ s.exponentText = s.exponentText := by
      simp [fractionText, hfraction]
    simp only [Symbol.isDecimal, takeWhile_text, dropWhile_text, htail, hne]
    split
    · rename_i rest heq
      unfold exponentText at heq
      split at heq <;> simp at heq
    · exact hexp
  · have htail : s.fractionText ++ s.exponentText = '.' :: (s.fraction ++ s.exponentText) := by
      simp [fractionText, hfraction]
    simp only [Symbol.isDecimal, takeWhile_text, dropWhile_text, htail, hne,
      dropWhile_digits s.fraction_digits s.noDigitHead_exponentText, hexp]
    rfl

/-- A point or an `e` shows that the text is not a whole number. -/
theorem mark_mem_text : '.' ∈ s.text ∨ 'e' ∈ s.text := by
  unfold text
  rcases s.marked with h | h
  · left
    simp [fractionText, h]
  · right
    obtain ⟨e, he⟩ := Option.isSome_iff_exists.1 h
    simp [exponentText, he]

/-- The text starts with a digit. -/
theorem head_text : ∃ c rest, s.text = c :: rest ∧ c.isDigit = true := by
  obtain ⟨c, w, hw⟩ := List.exists_cons_of_ne_nil s.whole_ne_nil
  refine ⟨c, w ++ (s.fractionText ++ s.exponentText), by rw [text, hw]; rfl, ?_⟩
  exact s.whole_digits c (by rw [hw]; exact List.mem_cons_self)

theorem dropSign_text : Symbol.dropSign s.text = s.text := by
  obtain ⟨c, rest, htext, hdigit⟩ := s.head_text
  rw [htext, Symbol.dropSign_of_isDigit hdigit]

/-- All characters of the text. -/
theorem mem_text {c : Char} (h : c ∈ s.text) :
    c.isDigit = true ∨ c = '.' ∨ c = 'e' ∨ c = '-' ∨ c = '+' := by
  rcases List.mem_append.1 h with h | h
  · exact Or.inl (s.whole_digits c h)
  rcases List.mem_append.1 h with h | h
  · unfold fractionText at h
    split at h
    · cases h
    · rcases List.mem_cons.1 h with rfl | h
      · exact Or.inr (Or.inl rfl)
      · exact Or.inl (s.fraction_digits c h)
  · unfold exponentText at h
    cases he : s.exponent with
    | none => rw [he] at h; cases h
    | some e =>
      rw [he] at h
      rcases List.mem_cons.1 h with rfl | h
      · exact Or.inr (Or.inr (Or.inl rfl))
      · have hdigits := s.exponent_digits e he
        unfold Symbol.isDigits Symbol.dropSign at hdigits
        simp only [Bool.and_eq_true, List.all_eq_true] at hdigits
        split at hdigits
        · rcases List.mem_cons.1 h with rfl | h
          · simp
          · exact Or.inl (hdigits.2 c h)
        · rcases List.mem_cons.1 h with rfl | h
          · simp
          · exact Or.inl (hdigits.2 c h)
        · exact Or.inl (hdigits.2 c h)

end Spelling

end RelAlg
