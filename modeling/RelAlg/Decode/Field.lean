import RelAlg.Document.Error
import RelAlg.Vocabulary

/-!
# Fields of a record

A record is read field by field in the order of the document.  What has been read is kept as a
list of parts, each the value of one field; afterwards the fields are taken from it in the order
of their declaration.

* `Parts.get?`, `Parts.need`: the value of a field, and the error if it is missing;
* `nextField`               : the field a member is for, unless that field has been read already.
-/

namespace RelAlg

variable {σ : Type} {type : σ → Type} [DecidableEq σ] [Vocabulary σ]

/-- Values of fields. -/
abbrev Parts (type : σ → Type) := List ((s : σ) × type s)

namespace Parts

/-- The value of the field `s`. -/
def get? (parts : Parts type) (s : σ) : Option (type s) :=
  match parts with
  | [] => none
  | ⟨t, v⟩ :: rest => if h : t = s then some (h ▸ v) else get? rest s

/-- The value of a field that has to be there. -/
def need (parts : Parts type) (s : σ) : Except ReadError (type s) :=
  match parts.get? s with
  | some v => .ok v
  | none => .error (.missingField (Vocabulary.word s))

end Parts

/-- The field that a member of this name is for: `none` if the record has no such field. -/
def fieldOf? (fields : List σ) : Key → Except ReadError (Option σ)
  | .text w => .ok (fields.find? fun s => Vocabulary.word s == w)
  | .index n => .ok fields[n]?
  | .foreign _ | .unreadable => .error .malformed

/-- The field that the next member is for, where `done` has been read before. -/
def nextField (fields : List σ) (done : Parts type) (key : Key) : Except ReadError (Option σ) := do
  match ← fieldOf? fields key with
  | none => return none
  | some s =>
    if (done.get? s).isSome then .error (.duplicateField (Vocabulary.word s))
    else return some s

end RelAlg
