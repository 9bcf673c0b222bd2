import RelAlg.Decode.Held
import RelAlg.Document.Encoding
import RelAlg.Proofs.Decode.Fields

/-!
# Relations and functions as records

A relation or a function is a form and a value for each field of that form.  Seen so, all forms are
written in one way and read in one way, as a record whose first member tells the form.

* `Relation.form`, `Relation.parts`    : the form and the fields;
* `Relation.toDocument_eq`             : a relation is written as its form and then field by field;
* `RelationForm.assemble_eq_ok_iff`    : parts assemble to the relation whose fields they hold;
* `Held.relation_toDocument_of_parts`  : a relation is read back if its fields are;
* `Held.parts_of_relation`             : each field was read from its own place in the document.

The same is done for functions.
-/

namespace RelAlg

/-! ## Tagged records -/

namespace Held

section Tagged

variable {φ σ : Type} {type : σ → Type} [Vocabulary φ] [LawfulVocabulary φ] [DecidableEq σ]
  [Vocabulary σ]

/-- The form that a document names: in the member called `name`, or in its first item. -/
def form? (name : String) : Document → Option φ
  | .object ms => (formOf name none ms).toOption
  | .array (t :: _) => (tag t).toOption
  | _ => none

/-- The value of a field of a document with a form: that of the first member for it, or of the item
in its place behind the form. -/
def value? (name : String) (fields : List σ) (s : σ) : Document → Option Document
  | .object ms => memberValue? (· == .text name) fields s ms
  | .array (_ :: items) => itemValue? fields s items
  | _ => none

/-- The values of a document nest less deeply than the document. -/
theorem depth_lt_of_value? {name : String} {fields : List σ} {s : σ} {d e : Document}
    (h : value? name fields s d = some e) : e.depth < d.depth := by
  unfold value? at h
  split at h
  · exact Nat.lt_one_add_iff.2 (Document.depth_le_of_memberValue? h)
  · exact Nat.lt_one_add_iff.2
      (Nat.le_trans (Document.depth_le_of_itemValue? h) (Nat.le_max_right _ _))
  · cases h

/-- The first member names the form, if no other has its name. -/
theorem formOf_written {form : φ} {name : String} {ms : List (Key × Document)}
    (hms : ∀ m ∈ ms, m.1 ≠ .text name) :
    formOf name none ((.text name, .string (Vocabulary.word form)) :: ms) = .ok form := by
  have hrest : ∀ ms : List (Key × Document), (∀ m ∈ ms, m.1 ≠ .text name) →
      formOf name (some form) ms = .ok form := by
    intro ms h
    induction ms with
    | nil => rfl
    | cons m ms ih =>
      obtain ⟨hm, hms⟩ := List.forall_mem_cons.1 h
      rw [formOf, if_neg hm, ih hms]
  rw [formOf, if_pos rfl, tag, Decode.known_word]
  exact hrest ms hms

/-- A record written with its form in front is read as that form and these fields. -/
theorem tagged_written (name : String) (form : φ) {fields : List σ} {parts : Parts type}
    {read : (s : σ) → Document → Except ReadError (type s)} (write : (s : σ) → type s → Document)
    (hfields : parts.map Sigma.fst = fields) (hnames : (fields.map Vocabulary.word).Nodup)
    (hname : ∀ s ∈ fields, Vocabulary.word s ≠ name)
    (hread : ∀ p ∈ parts, read p.1 (write p.1 p.2) = .ok p.2) :
    ∃ ms, ((Key.text name, Document.string (Vocabulary.word form)) ::
        parts.map fun p => (.text (Vocabulary.word p.1), write p.1 p.2)) = ms ∧
      formOf name none ms = .ok form ∧
      ∃ done, readMembers (· == .text name) (fun _ => true) fields read [] ms = .ok done ∧
        ∀ p ∈ parts, done.get? p.1 = some p.2 := by
  have hother : ∀ p ∈ parts, Vocabulary.word p.1 ≠ name := fun p hp =>
    hname p.1 (hfields ▸ List.mem_map_of_mem hp)
  obtain ⟨done, hdone, hheld⟩ := readMembers_written (· == .text name) (fun _ => true) write hnames
    hfields
    fun p hp => ⟨by simpa using hother p hp, hread p hp⟩
  refine ⟨_, rfl, formOf_written ?_, done, ?_, hheld⟩
  · intro m hm
    obtain ⟨p, hp, rfl⟩ := List.mem_map.1 hm
    simpa using hother p hp
  · rw [readMembers, if_pos (by simp), hdone]

end Tagged

end Held

/-! ## Relations -/

namespace Relation

def form : Relation → RelationForm
  | .base .. => .base
  | .materialized .. => .materialized
  | .order .. => .order
  | .limit .. => .limit
  | .offset .. => .offset
  | .reverse .. => .reverse
  | .deletion .. => .deletion
  | .insertion .. => .insertion
  | .combine .. => .combine
  | .projection .. => .projection
  | .restriction .. => .restriction
  | .extension .. => .extension
  | .rename .. => .rename
  | .summarization .. => .summarization

/-- The values of the fields, in declaration order. -/
def parts : Relation → Parts RelationField.Type
  | .base name header => [⟨.name, name⟩, ⟨.header, header⟩]
  | .materialized header tuples => [⟨.header, header⟩, ⟨.tuples, tuples⟩]
  | .order operand directions => [⟨.operand, operand⟩, ⟨.directions, directions⟩]
  | .limit operand n => [⟨.operand, operand⟩, ⟨.limit, n⟩]
  | .offset operand n => [⟨.operand, operand⟩, ⟨.offset, n⟩]
  | .reverse operand => [⟨.operand, operand⟩]
  | .deletion operand other => [⟨.operand, operand⟩, ⟨.other, other⟩]
  | .insertion operand other => [⟨.operand, operand⟩, ⟨.other, other⟩]
  | .combine op left right => [⟨.op, op⟩, ⟨.left, left⟩, ⟨.right, right⟩]
  | .projection operand header => [⟨.operand, operand⟩, ⟨.header, header⟩]
  | .restriction operand predicate => [⟨.operand, operand⟩, ⟨.predicate, predicate⟩]
  | .extension operand extensions => [⟨.operand, operand⟩, ⟨.extensions, extensions⟩]
  | .rename operand aliases => [⟨.operand, operand⟩, ⟨.aliases, aliases⟩]
  | .summarization operand per => [⟨.operand, operand⟩, ⟨.summarizePer, per⟩]

theorem map_fst_parts (r : Relation) : r.parts.map Sigma.fst = r.form.fields := by
  cases r <;> rfl

end Relation

/-- The value of a field as it is written. -/
def RelationField.toDocument : (s : RelationField) → s.Type → Document
  | .name, w => .string w
  | .header, h => h.toDocument
  | .tuples, ts => .array (ts.map tupleDocument)
  | .directions, s => s.toDocument
  | .limit, n | .offset, n => .integer n.toNat
  | .op, c => wordDocument (c : Combinator)
  | .predicate, f => f.toDocument
  | .extensions, es => extensionsDocument es
  | .aliases, s => s.toDocument
  | .operand, r | .other, r | .left, r | .right, r | .summarizePer, r => r.toDocument

/-- A relation is written as its form and then field by field. -/
theorem Relation.toDocument_eq (r : Relation) : r.toDocument = .object
    ((.text "relation", .string (Vocabulary.word r.form)) ::
      r.parts.map fun p => (.text (Vocabulary.word p.1), p.1.toDocument p.2)) := by
  cases r <;> rfl

/-- The relation in a field, if the field holds one. -/
def RelationField.relation? : (s : RelationField) → s.Type → Option Relation
  | .operand, r | .other, r | .left, r | .right, r | .summarizePer, r => some r
  | _, _ => none

/-- What holds of a relation if it holds of the relations in its fields, holds of every relation. -/
theorem Relation.parts_induction {motive : Relation → Prop}
    (step : ∀ r : Relation, (∀ p ∈ r.parts, ∀ q, p.1.relation? p.2 = some q → motive q) → motive r)
    (r : Relation) : motive r := by
  induction r <;> refine step _ fun p hp q hq => ?_ <;>
    simp only [Relation.parts, List.mem_cons, List.not_mem_nil, or_false] at hp <;>
    rcases hp with rfl | rfl | rfl <;> cases hq <;> assumption

namespace RelationForm

theorem nodup_words (form : RelationForm) : (form.fields.map Vocabulary.word).Nodup := by
  cases form <;> decide

theorem word_ne_relation (s : RelationField) : Vocabulary.word s ≠ "relation" := by
  cases s <;> decide

/-- Parts assemble to the relation whose fields they hold. -/
theorem assemble_eq_ok_iff {parts : Parts RelationField.Type} {form : RelationForm} {r : Relation} :
    form.assemble parts = .ok r ↔ r.form = form ∧ ∀ p ∈ r.parts, parts.get? p.1 = some p.2 := by
  constructor
  · intro h
    cases form <;> simp only [assemble, bind_eq_ok_iff, Parts.need_eq_ok_iff] at h
    case reverse =>
      obtain ⟨_, h₁, ⟨⟩⟩ := h
      exact ⟨rfl, by simp [Relation.parts, h₁]⟩
    case combine =>
      obtain ⟨_, h₁, _, h₂, _, h₃, ⟨⟩⟩ := h
      exact ⟨rfl, by simp [Relation.parts, h₁, h₂, h₃]⟩
    all_goals
      obtain ⟨_, h₁, _, h₂, ⟨⟩⟩ := h
      exact ⟨rfl, by simp [Relation.parts, h₁, h₂]⟩
  · rintro ⟨rfl, h⟩
    cases r <;> simp only [Relation.parts, List.forall_mem_cons] at h <;>
      simp [Relation.form, assemble, Parts.need, h] <;> rfl

end RelationForm

namespace Held

/-- The value of a field of a relation. -/
def relationValue (s : RelationField) (d : Document) : Except ReadError s.Type :=
  relationField (fun _ => relation d) d s

theorem relationMembers_eq (form : RelationForm) (ms : List (Key × Document))
    (done : Parts RelationField.Type) :
    relationMembers form done ms
      = readMembers (· == .text "relation") (fun _ => true) form.fields relationValue done ms := by
  induction ms generalizing done with
  | nil => rw [relationMembers, readMembers]
  | cons m ms ih =>
    obtain ⟨key, d⟩ := m
    rw [relationMembers, readMembers]
    by_cases hkey : key = .text "relation"
    · rw [if_pos hkey, if_pos (beq_iff_eq.2 hkey), ih]
    · rw [if_neg hkey, if_neg (mt beq_iff_eq.1 hkey)]
      simp only [ih, if_true, relationValue]
      congr 1
      funext s?
      cases s? <;> rfl

theorem relationItems_eq (wrongLength : ReadError) (fields : List RelationField)
    (items : List Document) :
    relationItems wrongLength fields items
      = Decode.positional wrongLength relationValue fields items := by
  induction fields generalizing items with
  | nil => cases items <;> simp [relationItems, Decode.positional]
  | cons s fields ih => cases items <;> simp [relationItems, Decode.positional, ih, relationValue]

/-- A relation is read back if its fields are. -/
theorem relation_toDocument_of_parts {r : Relation}
    (h : ∀ p ∈ r.parts, relationValue p.1 (p.1.toDocument p.2) = .ok p.2) :
    relation r.toDocument = .ok r := by
  obtain ⟨ms, hms, hform, parts, hparts, hheld⟩ := tagged_written "relation" r.form
    RelationField.toDocument r.map_fst_parts r.form.nodup_words
    (fun s _ => RelationForm.word_ne_relation s) h
  rw [Relation.toDocument_eq, hms, relation]
  simp only [hform, relationMembers_eq]
  show (readMembers _ _ _ _ _ _ >>= _) = _
  rw [hparts]
  exact RelationForm.assemble_eq_ok_iff.2 ⟨rfl, hheld⟩

/-- Each field of a relation was read from its own place in the document. -/
theorem parts_of_relation {d : Document} {r : Relation} (h : relation d = .ok r) :
    form? "relation" d = some r.form ∧
    ∀ p ∈ r.parts, ∃ e, value? "relation" r.form.fields p.1 d = some e ∧
      relationValue p.1 e = .ok p.2 := by
  cases d with
  | object ms =>
    rw [relation] at h
    obtain ⟨form, hform, h⟩ := bind_eq_ok_iff.1 h
    obtain ⟨parts, hparts, h⟩ := bind_eq_ok_iff.1 h
    obtain ⟨rfl, hheld⟩ := RelationForm.assemble_eq_ok_iff.1 h
    rw [relationMembers_eq] at hparts
    exact ⟨by rw [form?, hform]; rfl, fun p hp => exists_memberValue? hparts (hheld p hp)⟩
  | array items =>
    cases items with
    | nil => cases h
    | cons t items =>
      rw [relation] at h
      obtain ⟨form, hform, h⟩ := bind_eq_ok_iff.1 h
      obtain ⟨parts, hparts, h⟩ := bind_eq_ok_iff.1 h
      obtain ⟨rfl, hheld⟩ := RelationForm.assemble_eq_ok_iff.1 h
      rw [relationItems_eq] at hparts
      exact ⟨by rw [form?, hform]; rfl, fun p hp => Decode.exists_itemValue? hparts (hheld p hp)⟩
  | _ => cases h

end Held

/-! ## Functions -/

namespace Function

def form : Function → FunctionForm
  | .binary .. => .binary
  | .unary .. => .unary
  | .tautology => .tautology
  | .contradiction => .contradiction

/-- The values of the fields, in declaration order. -/
def parts : Function → Parts FunctionField.Type
  | .binary op left right => [⟨.binaryOp, op⟩, ⟨.left, left⟩, ⟨.right, right⟩]
  | .unary op operand => [⟨.unaryOp, op⟩, ⟨.operand, operand⟩]
  | .tautology => []
  | .contradiction => []

theorem map_fst_parts (f : Function) : f.parts.map Sigma.fst = f.form.fields := by
  cases f <;> rfl

end Function

/-- The value of a field as it is written. -/
def FunctionField.toDocument : (s : FunctionField) → s.Type → Document
  | .binaryOp, op => wordDocument (op : BinaryOp)
  | .unaryOp, op => wordDocument (op : UnaryOp)
  | .left, e | .right, e | .operand, e => e.toDocument

/-- A function is written as its form and then field by field. -/
theorem Function.toDocument_eq (f : Function) : f.toDocument = .object
    ((.text "function", .string (Vocabulary.word f.form)) ::
      f.parts.map fun p => (.text (Vocabulary.word p.1), p.1.toDocument p.2)) := by
  cases f <;> simp only [Function.toDocument] <;> rfl

namespace FunctionForm

theorem nodup_words (form : FunctionForm) : (form.fields.map Vocabulary.word).Nodup := by
  cases form <;> decide

theorem word_ne_function (s : FunctionField) : Vocabulary.word s ≠ "function" := by
  cases s <;> decide

/-- Parts assemble to the function whose fields they hold. -/
theorem assemble_eq_ok_iff {parts : Parts FunctionField.Type} {form : FunctionForm} {f : Function} :
    form.assemble parts = .ok f ↔ f.form = form ∧ ∀ p ∈ f.parts, parts.get? p.1 = some p.2 := by
  constructor
  · intro h
    cases form <;> simp only [assemble, bind_eq_ok_iff, Parts.need_eq_ok_iff] at h
    case binary =>
      obtain ⟨_, h₁, _, h₂, _, h₃, ⟨⟩⟩ := h
      exact ⟨rfl, by simp [Function.parts, h₁, h₂, h₃]⟩
    case unary =>
      obtain ⟨_, h₁, _, h₂, ⟨⟩⟩ := h
      exact ⟨rfl, by simp [Function.parts, h₁, h₂]⟩
    all_goals
      cases h
      exact ⟨rfl, by simp [Function.parts]⟩
  · rintro ⟨rfl, h⟩
    cases f <;> simp only [Function.parts, List.forall_mem_cons] at h <;>
      simp [Function.form, assemble, Parts.need, h] <;> rfl

end FunctionForm

namespace Held

/-- The value of a field of a function. -/
def functionValue (s : FunctionField) (d : Document) : Except ReadError s.Type :=
  functionField (fun _ => operand d) d s

theorem functionMembers_eq (form : FunctionForm) (ms : List (Key × Document))
    (done : Parts FunctionField.Type) :
    functionMembers form done ms
      = readMembers (· == .text "function") (fun _ => true) form.fields functionValue done ms := by
  induction ms generalizing done with
  | nil => rw [functionMembers, readMembers]
  | cons m ms ih =>
    obtain ⟨key, d⟩ := m
    rw [functionMembers, readMembers]
    by_cases hkey : key = .text "function"
    · rw [if_pos hkey, if_pos (beq_iff_eq.2 hkey), ih]
    · rw [if_neg hkey, if_neg (mt beq_iff_eq.1 hkey)]
      simp only [ih, if_true, functionValue]
      congr 1
      funext s?
      cases s? <;> rfl

theorem functionItems_eq (wrongLength : ReadError) (fields : List FunctionField)
    (items : List Document) :
    functionItems wrongLength fields items
      = Decode.positional wrongLength functionValue fields items := by
  induction fields generalizing items with
  | nil => cases items <;> simp [functionItems, Decode.positional]
  | cons s fields ih => cases items <;> simp [functionItems, Decode.positional, ih, functionValue]

/-- An object is read by its form; the two constant functions have no fields that could
be at fault. -/
theorem function_object (ms : List (Key × Document)) :
    function (.object ms) = (formOf "function" none ms >>= fun form =>
      (if form.fields = [] then .ok [] else functionMembers form [] ms) >>= fun parts =>
        form.assemble parts) := by
  rw [function]
  congr 1
  funext form
  cases form <;> rfl

/-- A function is read back if its fields are. -/
theorem function_toDocument_of_parts {f : Function}
    (h : ∀ p ∈ f.parts, functionValue p.1 (p.1.toDocument p.2) = .ok p.2) :
    function f.toDocument = .ok f := by
  obtain ⟨ms, hms, hform, parts, hparts, hheld⟩ := tagged_written "function" f.form
    FunctionField.toDocument f.map_fst_parts f.form.nodup_words
    (fun s _ => FunctionForm.word_ne_function s) h
  rw [Function.toDocument_eq, hms, function_object, hform]
  refine bind_eq_ok_iff.2 ⟨f.form, rfl, ?_⟩
  split
  · rename_i hempty
    have hparts : f.parts = [] := List.map_eq_nil_iff.1 (f.map_fst_parts.trans hempty)
    exact FunctionForm.assemble_eq_ok_iff.2 ⟨rfl, by simp [hparts]⟩
  · rw [functionMembers_eq, hparts]
    exact FunctionForm.assemble_eq_ok_iff.2 ⟨rfl, hheld⟩

/-- Each field of a function was read from its own place in the document. -/
theorem parts_of_function {d : Document} {f : Function} (h : function d = .ok f) :
    form? "function" d = some f.form ∧
    ∀ p ∈ f.parts, ∃ e, value? "function" f.form.fields p.1 d = some e ∧
      functionValue p.1 e = .ok p.2 := by
  cases d with
  | object ms =>
    rw [function_object] at h
    obtain ⟨form, hform, h⟩ := bind_eq_ok_iff.1 h
    obtain ⟨parts, hparts, h⟩ := bind_eq_ok_iff.1 h
    obtain ⟨rfl, hheld⟩ := FunctionForm.assemble_eq_ok_iff.1 h
    refine ⟨by rw [form?, hform]; rfl, fun p hp => ?_⟩
    have hfields : f.form.fields ≠ [] :=
      f.map_fst_parts ▸ mt List.map_eq_nil_iff.1 (List.ne_nil_of_mem hp)
    rw [if_neg hfields, functionMembers_eq] at hparts
    exact exists_memberValue? hparts (hheld p hp)
  | array items =>
    cases items with
    | nil => cases h
    | cons t items =>
      rw [function] at h
      obtain ⟨form, hform, h⟩ := bind_eq_ok_iff.1 h
      obtain ⟨parts, hparts, h⟩ := bind_eq_ok_iff.1 h
      obtain ⟨rfl, hheld⟩ := FunctionForm.assemble_eq_ok_iff.1 h
      rw [functionItems_eq] at hparts
      exact ⟨by rw [form?, hform]; rfl, fun p hp => Decode.exists_itemValue? hparts (hheld p hp)⟩
  | _ => cases h

end Held

end RelAlg
