import Mathlib.Data.List.Nodup
import RelAlg.Decode.Streamed

/-!
# Words determine elements

Every vocabulary of a document lists each of its elements once and gives each a word of its own, so
the element that a word stands for is the one that is written as that word.

* `LawfulVocabulary`  : every element is listed and no two have one word;
* `find?_word`        : a listed element is found by its word;
* `Decode.known_word` : in a document the word of an element stands for that element.
-/

namespace RelAlg

/-- Every element is listed, and no two have one word. -/
class LawfulVocabulary (α : Type) [Vocabulary α] : Prop where
  mem_all : ∀ a : α, a ∈ (Vocabulary.all : List α)
  nodup_words : (Vocabulary.words α).Nodup

section

variable {α : Type} [Vocabulary α]

/-- A listed element is found by its word, if no two have one word. -/
theorem find?_word {l : List α} (h : (l.map Vocabulary.word).Nodup) {a : α} (ha : a ∈ l) :
    (l.find? fun b => Vocabulary.word b == Vocabulary.word a) = some a := by
  induction l with
  | nil => cases ha
  | cons b l ih =>
    obtain ⟨hb, hl⟩ := List.nodup_cons.1 h
    rcases List.mem_cons.1 ha with rfl | ha
    · simp
    · have hne : Vocabulary.word b ≠ Vocabulary.word a :=
        fun heq => hb (heq ▸ List.mem_map_of_mem ha)
      simpa [hne] using ih hl ha

variable [LawfulVocabulary α]

/-- The word of an element stands for that element. -/
theorem Decode.known_word (a : α) : known (Vocabulary.word a) = .ok a := by
  rw [known, Vocabulary.find?, find?_word LawfulVocabulary.nodup_words (LawfulVocabulary.mem_all a)]

end

/-! ## The vocabularies of documents -/

instance : LawfulVocabulary AttributeKind := ⟨by intro a; cases a <;> decide, by decide⟩

instance : LawfulVocabulary SortOrder := ⟨by intro a; cases a <;> decide, by decide⟩

instance : LawfulVocabulary Combinator := ⟨by intro a; cases a <;> decide, by decide⟩

instance : LawfulVocabulary BinaryOp := ⟨by intro a; cases a <;> decide, by decide⟩

instance : LawfulVocabulary UnaryOp := ⟨by intro a; cases a <;> decide, by decide⟩

instance : LawfulVocabulary RelationForm := ⟨by intro a; cases a <;> decide, by decide⟩

instance : LawfulVocabulary FunctionForm := ⟨by intro a; cases a <;> decide, by decide⟩

instance : LawfulVocabulary OperandSort := ⟨by intro a; cases a <;> decide, by decide⟩

instance : LawfulVocabulary Decode.NodeSort := ⟨by intro a; cases a <;> decide, by decide⟩

instance : LawfulVocabulary Decode.AttributeField := ⟨by intro a; cases a <;> decide, by decide⟩

instance : LawfulVocabulary Decode.DirectionField := ⟨by intro a; cases a <;> decide, by decide⟩

end RelAlg
