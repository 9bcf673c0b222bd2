/-!
# Closed vocabularies

Many parts of a relational-algebra tree are drawn from a small closed set: attribute kinds,
operators, sort orders, node kinds, field names.  In a document each element is written as
one fixed word.

* `Vocabulary α`    : the elements in declaration order and the word of each;
* `Vocabulary.find?`: the element a word stands for, if any.
-/

namespace RelAlg

/-- Finitely many elements, in a fixed order, each with the word that names it in a document. -/
class Vocabulary (α : Type) where
  /-- Every element once, in declaration order. -/
  all : List α
  /-- The word for an element. -/
  word : α → String

namespace Vocabulary

variable {α : Type} [Vocabulary α]

/-- The element named by `w`. -/
def find? (w : String) : Option α :=
  (all : List α).find? fun a => word a == w

/-- All words, in declaration order. -/
def words (α : Type) [Vocabulary α] : List String :=
  (all : List α).map word

end Vocabulary

end RelAlg
