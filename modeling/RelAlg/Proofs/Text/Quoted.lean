import RelAlg.Document.Quoted
import RelAlg.Document.Reader
import RelAlg.Proofs.Text.Bracketed

/-!
# Quoted strings are read back

* `Scan.string_body`    : reading the inside of a quoted string gives the string, and stops
  at its end;
* `Quoted.text_inj`     : different strings have different texts;
* `Quoted.isWord_text`  : in bracketed text a quoted string is one word, whatever it holds.
-/

namespace RelAlg

namespace Numeral

theorem hexDigit?_hexChar {d : Nat} (h : d < 16) : hexDigit? (hexChar d) = some d := by
  have : ∀ d < 16, hexDigit? (hexChar d) = some d := by decide
  exact this d h

theorem hexChar_ne {d : Nat} (h : d < 16) : hexChar d ≠ '\\' ∧ hexChar d ≠ '"' := by
  have : ∀ d < 16, hexChar d ≠ '\\' ∧ hexChar d ≠ '"' := by decide
  exact this d h

end Numeral

namespace Quoted

/-- The three forms of an escaped character: a backslash and a letter, a code of four digits,
the character itself. -/
theorem escape_cases (c : Char) :
    (∃ e, escape c = ['\\', e] ∧ e ≠ 'u' ∧ Scan.shortEscape? e = some c) ∨
    (c.toNat < 32 ∧ escape c =
      ['\\', 'u', '0', '0', Numeral.hexChar (c.toNat / 16), Numeral.hexChar (c.toNat % 16)]) ∨
    (32 ≤ c.toNat ∧ c ≠ '"' ∧ c ≠ '\\' ∧ escape c = [c]) := by
  unfold escape
  split
  · subst_vars; exact Or.inl ⟨'"', rfl, by decide, rfl⟩
  split
  · subst_vars; exact Or.inl ⟨'\\', rfl, by decide, rfl⟩
  split
  · subst_vars; exact Or.inl ⟨'b', rfl, by decide, rfl⟩
  split
  · subst_vars; exact Or.inl ⟨'t', rfl, by decide, rfl⟩
  split
  · subst_vars; exact Or.inl ⟨'n', rfl, by decide, rfl⟩
  split
  · subst_vars; exact Or.inl ⟨'f', rfl, by decide, rfl⟩
  split
  · subst_vars; exact Or.inl ⟨'r', rfl, by decide, rfl⟩
  split
  · exact Or.inr (Or.inl ⟨‹_›, rfl⟩)
  · exact Or.inr (Or.inr ⟨by omega, ‹_›, ‹_›, rfl⟩)

end Quoted

/-! ## Reading back -/

namespace Scan

/-- The unit of a code for a character below 32. -/
theorem unit?_code {n : Nat} (h : n < 32) :
    unit? '0' '0' (Numeral.hexChar (n / 16)) (Numeral.hexChar (n % 16)) = some n := by
  have h₀ : Numeral.hexDigit? '0' = some 0 := by decide
  rw [unit?, h₀, Numeral.hexDigit?_hexChar (by omega), Numeral.hexDigit?_hexChar (by omega)]
  show some (((0 * 16 + 0) * 16 + n / 16) * 16 + n % 16) = some n
  congr 1
  omega

/-- An escaped character is read as one piece, which stands for that character. -/
theorem pieces_escape (c : Char) : ∃ p : Piece,
    (∀ rest, pieces (Quoted.escape c ++ rest) = (pieces rest).map fun q => (p :: q.1, q.2)) ∧
    ∀ ps, joined (p :: ps) = (joined ps).map (c :: ·) := by
  rcases Quoted.escape_cases c with ⟨e, he, hne, hc⟩ | ⟨hlt, hc⟩ | ⟨hge, hquote, hslash, hc⟩
  · refine ⟨.char c, fun rest => ?_, fun ps => rfl⟩
    rw [he]
    show pieces ('\\' :: e :: rest) = _
    rw [pieces, hc]
    · cases pieces rest <;> rfl
    · intro a b d f tail hu
      exact (hne hu).elim
  · refine ⟨.unit c.toNat, fun rest => ?_, fun ps => ?_⟩
    · rw [hc]
      show pieces ('\\' :: 'u' :: '0' :: '0' :: _ :: _ :: rest) = _
      rw [pieces, unit?_code hlt]
      cases pieces rest <;> rfl
    · have hhigh : isHigh c.toNat = false := by simp [isHigh]; omega
      have hlow : isLow c.toNat = false := by simp [isLow]; omega
      rw [joined.eq_def]
      simp only [hhigh, hlow, Bool.false_eq_true, if_false, Char.ofNat_toNat]
  · refine ⟨.char c, fun rest => ?_, fun ps => rfl⟩
    rw [hc]
    show pieces (c :: rest) = _
    rw [pieces, if_neg (by omega)]
    · cases pieces rest <;> rfl
    · exact hquote
    · rintro a b d f tail rfl
      exact (hslash rfl).elim
    · rintro e tail rfl
      exact (hslash rfl).elim

/-- The inside of a quoted string is read up to the quote that ends it. -/
theorem pieces_body (cs rest : List Char) :
    ∃ ps, pieces (Quoted.body cs ++ '"' :: rest) = some (ps, rest) ∧ joined ps = some cs := by
  induction cs with
  | nil => exact ⟨[], rfl, rfl⟩
  | cons c cs ih =>
    obtain ⟨ps, hps, hjoined⟩ := ih
    obtain ⟨p, hp, hc⟩ := pieces_escape c
    refine ⟨p :: ps, ?_, by rw [hc, hjoined]; rfl⟩
    rw [Quoted.body, List.flatMap_cons, List.append_assoc, hp, ← Quoted.body, hps]
    rfl

/-- Reading the inside of a quoted string gives the string, and stops at its end. -/
theorem string_body (s : String) (rest : List Char) :
    string (Quoted.body s.toList ++ '"' :: rest) = some (some s, rest) := by
  obtain ⟨ps, hps, hjoined⟩ := pieces_body s.toList rest
  rw [string, hps]
  show some ((joined ps).map String.ofList, rest) = _
  rw [hjoined, Option.map_some, String.ofList_toList]

end Scan

namespace Quoted

/-- Different strings have different texts. -/
theorem text_inj {s t : String} : text s = text t ↔ s = t := by
  refine ⟨fun h => ?_, fun h => h ▸ rfl⟩
  have hbody := (List.cons.inj h).2
  have hs := Scan.string_body s []
  rw [hbody, Scan.string_body t []] at hs
  simpa using hs.symm

/-! ## As words -/

variable {L : Lexicon}

/-- An escaped character does not end the quoted part. -/
theorem run_escape (c : Char) : L.run (.quoted '"') (escape c) = some (.quoted '"') := by
  rcases escape_cases c with ⟨e, he, -, -⟩ | ⟨hlt, hc⟩ | ⟨-, hquote, hslash, hc⟩
  · rw [he]; rfl
  · have h₁ := Numeral.hexChar_ne (d := c.toNat / 16) (by omega)
    have h₂ := Numeral.hexChar_ne (d := c.toNat % 16) (by omega)
    rw [hc]
    simp [Lexicon.run, Lexicon.next, h₁, h₂]
  · rw [hc]
    simp [Lexicon.run, Lexicon.next, hquote, hslash]

/-- A quoted string is one word. -/
theorem isWord_text (hcut : L.cuts '"' = false) (hquote : L.quotes '"' = true) (s : String) :
    L.IsWord (text s) :=
  ⟨Lexicon.run_quoted hcut hquote (by decide) (Lexicon.run_flatMap fun c _ => run_escape c),
    List.cons_ne_nil _ _⟩

end Quoted

end RelAlg
