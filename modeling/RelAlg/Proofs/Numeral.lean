import Mathlib.Data.List.Induction
import Mathlib.Tactic.Ring
import RelAlg.Numeral

/-!
# Numerals and their values

* `Numeral.isDigit_of_mem_ofNat`: a numeral of a natural number consists of digits;
* `Numeral.value_ofNat`         : its value is the number it was made from;
* `Numeral.ofInt_inj`           : different whole numbers have different numerals;
* `Numeral.value_append`        : the value of digits put side by side.
-/

namespace RelAlg

namespace Numeral

/-! ## Digits -/

theorem isDigit_digitChar {d : Nat} (h : d < 10) : (digitChar d).isDigit = true := by
  have : ∀ d < 10, (digitChar d).isDigit = true := by decide
  exact this d h

theorem digitValue_digitChar {d : Nat} (h : d < 10) : digitValue (digitChar d) = d := by
  have : ∀ d < 10, digitValue (digitChar d) = d := by decide
  exact this d h

theorem isDigit_of_mem_ofNat {n : Nat} {c : Char} (h : c ∈ ofNat n) : c.isDigit = true := by
  induction n using ofNat.induct with
  | case1 n hn =>
    rw [ofNat, if_pos hn, List.mem_singleton] at h
    exact h ▸ isDigit_digitChar hn
  | case2 n hn ih =>
    rw [ofNat, if_neg hn, List.mem_append, List.mem_singleton] at h
    rcases h with h | rfl
    · exact ih h
    · exact isDigit_digitChar (Nat.mod_lt _ (by decide))

theorem ofNat_ne_nil (n : Nat) : ofNat n ≠ [] := by
  rw [ofNat]
  split <;> simp

/-- The numeral of a positive number does not start with a zero. -/
theorem exists_cons_ofNat {n : Nat} (hn : 0 < n) :
    ∃ c cs, ofNat n = c :: cs ∧ c ≠ '0' := by
  induction n using ofNat.induct with
  | case1 n hlt =>
    have hdigit : ∀ n < 10, 0 < n → digitChar n ≠ '0' := by decide
    exact ⟨_, [], by rw [ofNat, if_pos hlt], hdigit n hlt hn⟩
  | case2 n hge ih =>
    obtain ⟨c, cs, hcs, hc⟩ := ih (by omega)
    exact ⟨c, cs ++ [_], by rw [ofNat, if_neg hge, hcs]; rfl, hc⟩

/-! ## Values -/

theorem value_concat (digits : List Char) (c : Char) :
    value (digits ++ [c]) = 10 * value digits + digitValue c := by
  simp [value]

/-- Digits in front count as many tens as there are digits behind them. -/
theorem value_append (a b : List Char) : value (a ++ b) = value a * 10 ^ b.length + value b := by
  induction b using List.reverseRecOn with
  | nil => simp [value]
  | append_singleton b c ih =>
    rw [← List.append_assoc, value_concat, value_concat, ih, List.length_append,
      List.length_singleton, pow_succ]
    ring

theorem value_replicate_zero (k : Nat) : value (List.replicate k '0') = 0 := by
  induction k with
  | zero => rfl
  | succ k ih =>
    rw [List.replicate_succ', value_concat, ih]
    rfl

theorem value_ofNat (n : Nat) : value (ofNat n) = n := by
  induction n using ofNat.induct with
  | case1 n hn =>
    rw [ofNat, if_pos hn]
    simp [value, digitValue_digitChar hn]
  | case2 n hn ih =>
    rw [ofNat, if_neg hn, value_concat, ih, digitValue_digitChar (Nat.mod_lt _ (by decide))]
    omega

/-! ## Whole numbers -/

theorem minus_notMem_ofNat (n : Nat) : '-' ∉ ofNat n := fun h =>
  absurd (isDigit_of_mem_ofNat h) (by decide)

/-- Numerals of whole numbers hold digits and minus signs. -/
theorem isDigit_or_eq_minus_of_mem_ofInt {n : Int} {c : Char} (h : c ∈ ofInt n) :
    c.isDigit = true ∨ c = '-' := by
  unfold ofInt at h
  split at h
  · rcases List.mem_cons.1 h with rfl | h
    · exact Or.inr rfl
    · exact Or.inl (isDigit_of_mem_ofNat h)
  · exact Or.inl (isDigit_of_mem_ofNat h)

theorem quote_notMem_ofInt (n : Int) : '"' ∉ ofInt n := fun h => by
  rcases isDigit_or_eq_minus_of_mem_ofInt h with h | h <;> exact absurd h (by decide)

/-- What starts a numeral starts nothing that has a first character of its own. -/
theorem notMem_of_digit_or_minus {specials : List Char}
    (hspecials : (specials.all fun d => !d.isDigit && d != '-') = true) {c : Char}
    (h : c.isDigit = true ∨ c = '-') : c ∉ specials := by
  intro hmem
  have hspecial := List.all_eq_true.1 hspecials c hmem
  rcases h with h | rfl
  · simp [h] at hspecial
  · exact absurd hspecial (by decide)

theorem ofInt_ne_nil (n : Int) : ofInt n ≠ [] := by
  unfold ofInt
  split
  · simp
  · exact ofNat_ne_nil _

theorem ofInt_natCast (n : Nat) : ofInt n = ofNat n := by
  rw [ofInt, if_neg (by omega), Int.natAbs_natCast]

/-- Different whole numbers have different numerals. -/
theorem ofInt_inj {m n : Int} : ofInt m = ofInt n ↔ m = n := by
  refine ⟨fun h => ?_, fun h => h ▸ rfl⟩
  have hvalue : ∀ {a b : Nat}, ofNat a = ofNat b → a = b := fun {a b} h => by
    rw [← value_ofNat a, h, value_ofNat]
  unfold ofInt at h
  split at h <;> split at h
  · have := hvalue (List.cons.inj h).2
    omega
  · exact (minus_notMem_ofNat _ (h ▸ List.mem_cons_self)).elim
  · exact (minus_notMem_ofNat _ (h ▸ List.mem_cons_self)).elim
  · have := hvalue h
    omega

theorem ofInt_toInt_inj {m n : Int64} : ofInt m.toInt = ofInt n.toInt ↔ m = n := by
  rw [ofInt_inj, Int64.toInt_inj]

theorem ofInt_toNat_inj {m n : UInt64} : ofInt m.toNat = ofInt n.toNat ↔ m = n := by
  rw [ofInt_inj, Int.natCast_inj, UInt64.toNat_inj]

end Numeral

end RelAlg
