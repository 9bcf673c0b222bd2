import RelAlg.Proofs.Binary64.Scaling
import RelAlg.Document.Reader

/-!
# What is found in a text

A text holds fewer documents than there are: a number that is read as a float is finite, because one
that is too large is not read at all, and the whole number zero has no sign.

* `Scan.takeDigits_lt`             : a significand has 64 bits;
* `Document.isTextual`             : finite floats only, and no whole zero with a sign;
* `Source.isTextual_ofText`        : the document in a text is of this kind, however far
  it is readable.
-/

namespace RelAlg

/-! ## Documents -/

namespace Document

mutual

/-- Every float is finite, and no whole zero has a sign. -/
def isTextual : Document → Bool
  | float x => x.isFinite
  | minusZero => false
  | array items => isTextualItems items
  | object ms => isTextualMembers ms
  | null | boolean _ | integer _ | string _ | unreadable | broken => true

def isTextualItems : List Document → Bool
  | [] => true
  | d :: rest => isTextual d && isTextualItems rest

def isTextualMembers : List (Key × Document) → Bool
  | [] => true
  | (_, d) :: rest => isTextual d && isTextualMembers rest

end

theorem isTextualItems_iff {items : List Document} :
    isTextualItems items = true ↔ ∀ d ∈ items, d.isTextual = true := by
  induction items with
  | nil => simp [isTextualItems]
  | cons d items ih => simp [isTextualItems, ih]

theorem isTextualMembers_iff {ms : List (Key × Document)} :
    isTextualMembers ms = true ↔ ∀ m ∈ ms, m.2.isTextual = true := by
  induction ms with
  | nil => simp [isTextualMembers]
  | cons m ms ih => simp [isTextualMembers, ih]

end Document

namespace Scan

/-- A significand has 64 bits. -/
theorem takeDigits_lt {n : Nat} (hn : n < 0x10000000000000000) (cs : List Char) :
    (takeDigits n cs).1 < 0x10000000000000000 := by
  induction cs generalizing n with
  | nil => exact hn
  | cons c cs ih =>
    unfold takeDigits
    dsimp only
    split
    · exact ih ‹_›
    · exact hn

theorem isTextual_scaledNumber (negative : Bool) {n : Nat} (hn : n < 0x10000000000000000)
    (e : Int) : (scaledNumber negative n e).isTextual = true := by
  unfold scaledNumber
  split
  · exact Binary64.isFinite_of_ofScaled? hn ‹_›
  · rfl

theorem isTextual_wholeNumber (negative : Bool) (whole : List Char) :
    (wholeNumber negative whole).isTextual = true := by
  have hlt := takeDigits_lt (by decide : 0 < 0x10000000000000000) whole
  unfold wholeNumber
  split
  · rename_i n heq
    rw [heq] at hlt
    split
    · rfl
    · split
      · rfl
      · exact Binary64.isFinite_ofRatio_one true hlt
  · rename_i heq
    rw [heq] at hlt
    exact isTextual_scaledNumber negative hlt _

theorem isTextual_fractionalNumber (negative : Bool) (whole fraction : List Char) (e : Int) :
    (fractionalNumber negative whole fraction e).isTextual = true :=
  isTextual_scaledNumber negative (takeDigits_lt (takeDigits_lt (by decide) whole) fraction) _

theorem isTextual_of_magnitude {negative : Bool} {cs rest : List Char} {d : Document}
    (h : magnitude negative cs = some (d, rest)) : d.isTextual = true := by
  unfold magnitude at h
  simp only [Option.bind_eq_bind, Option.bind_eq_some_iff] at h
  obtain ⟨_, -, _, -, _, -, h⟩ := h
  split at h
  · cases h
    exact isTextual_wholeNumber _ _
  · cases h
    exact isTextual_fractionalNumber _ _ _ _

theorem isTextual_of_number {cs rest : List Char} {d : Document} (h : number cs = some (d, rest)) :
    d.isTextual = true := by
  unfold number at h
  split at h <;> exact isTextual_of_magnitude h

theorem isTextual_constant {word cs : List Char} {d : Document} (h : d.isTextual = true) :
    (constant word d cs).1.isTextual = true := by
  unfold constant
  split
  · exact h
  · rfl

/-- Whatever the reader has found after so many steps is textual. -/
theorem isTextual_value (steps : Nat) :
    (∀ cs, (value steps cs).1.isTextual = true) ∧
    (∀ cs, Document.isTextualItems (items steps cs).1 = true) ∧
    ∀ cs, Document.isTextualMembers (members steps cs).1 = true := by
  induction steps with
  | zero => exact ⟨fun _ => rfl, fun _ => rfl, fun _ => rfl⟩
  | succ steps ih =>
    obtain ⟨hvalue, hitems, hmembers⟩ := ih
    refine ⟨fun cs => ?_, fun cs => ?_, fun cs => ?_⟩
    · unfold value
      split
      · split
        · rfl
        · exact hitems _
      · split
        · rfl
        · exact hmembers _
      · split <;> rfl
      · exact isTextual_constant rfl
      · exact isTextual_constant rfl
      · exact isTextual_constant rfl
      · split
        · exact isTextual_of_number ‹_›
        · rfl
    · have hd := hvalue cs
      unfold items
      split
      · simp_all [Document.isTextualItems]
      · split <;> simp_all [Document.isTextualItems, Document.isTextual]
    · unfold members
      split
      · split
        · rfl
        · dsimp only
          split
          · rename_i after _
            have hd := hvalue after
            split
            · simp_all [Document.isTextualMembers]
            · split <;> simp_all [Document.isTextualMembers, Document.isTextual]
          · rfl
      · rfl

end Scan

/-- The document in a text is textual, however far the text is readable. -/
theorem Source.isTextual_ofText (text : String) : (ofText text).document.isTextual = true := by
  have h := (Scan.isTextual_value (2 * text.toList.length + 2)).1 text.toList
  unfold ofText
  dsimp only
  split
  · rename_i heq
    rwa [heq] at h
  · rename_i heq
    rwa [heq] at h

end RelAlg
