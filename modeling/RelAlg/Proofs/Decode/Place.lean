import RelAlg.Proofs.Decode.Depth

/-!
# Places in a document

What a value in a document stands for depends on where it stands: the form of a relation tells which
of its members are relations, which are attributes and which are read by nobody.  One change to the
spelling of a document puts the members of an object into another order or adds one, wherever the
object is; what it keeps is stated for each sort of place.

* `Place`     : the sorts of place, and what stands at the members and items of each;
* `Respelled` : one change;
* `Agrees`    : what is read at a place is read after the change, and as the same thing;
* `relationValue_of_agrees`, `functionValue_of_agrees`: so are the fields of
  relations and functions.
-/

namespace RelAlg

/-! ## Places -/

/-- What stands at a place of a document. -/
inductive Place where
  | relation
  | function
  | operand
  | attr
  | direction
  /-- An array whose items all stand at one sort of place. -/
  | list (item : Place)
  /-- An array of a name and a value. -/
  | named (value : Place)
  /-- A value without members of its own, or one that nobody reads. -/
  | other

def RelationField.place : RelationField → Place
  | .header => .list .attr
  | .directions => .list .direction
  | .predicate => .function
  | .extensions => .list (.named .operand)
  | .operand | .other | .left | .right | .summarizePer => .relation
  | .name | .tuples | .limit | .offset | .op | .aliases => .other

def FunctionField.place : FunctionField → Place
  | .left | .right | .operand => .operand
  | .binaryOp | .unaryOp => .other

def OperandSort.place : OperandSort → Place
  | .attr => .attr
  | .function => .function
  | .literal => .other

def Decode.DirectionField.place : DirectionField → Place
  | .order => .other
  | .attr => .attr

def Decode.AttributeField.place : AttributeField → Place
  | .name | .kind => .other

namespace Place

open Decode (AttributeField DirectionField)

section Fields

variable {φ σ : Type}

/-- The fields of a form, and none where no form is named. -/
def fieldsOf (fields : φ → List σ) : Except ReadError φ → List σ
  | .ok form => fields form
  | .error _ => []

/-- The place of the value of a member, in a record with the given fields. -/
def ofKey [Vocabulary σ] (place : σ → Place) (fields : List σ) (key : Key) : Place :=
  match memberOf? fields key with
  | some s => place s
  | none => .other

/-- The place of an item, in an array of the given fields. -/
def ofIndex (place : σ → Place) (fields : List σ) (i : Nat) : Place :=
  match fields[i]? with
  | some s => place s
  | none => .other

end Fields

/-- The place of the value of a member of an object; the form of the object tells its fields. -/
def member : Place → List (Key × Document) → Key → Place
  | relation, ms, key =>
    ofKey RelationField.place (fieldsOf RelationForm.fields (Held.formOf "relation" none ms)) key
  | function, ms, key =>
    ofKey FunctionField.place (fieldsOf FunctionForm.fields (Held.formOf "function" none ms)) key
  | operand, _, key =>
    match (Decode.knownKey key : Except ReadError OperandSort) with
    | .ok sort => sort.place
    | .error _ => .other
  | attr, _, key => ofKey AttributeField.place Vocabulary.all key
  | direction, _, key => ofKey DirectionField.place Vocabulary.all key
  | _, _, _ => .other

/-- The place of an item of an array; the first item of a relation or a function
tells its fields. -/
def item : Place → List Document → Nat → Place
  | relation, t :: _, i + 1 =>
    ofIndex RelationField.place (fieldsOf RelationForm.fields (Held.tag t)) i
  | function, t :: _, i + 1 =>
    ofIndex FunctionField.place (fieldsOf FunctionForm.fields (Held.tag t)) i
  | attr, _, i => ofIndex AttributeField.place Vocabulary.all i
  | direction, _, i => ofIndex DirectionField.place Vocabulary.all i
  | list p, _, _ => p
  | named p, _, 1 => p
  | _, _, _ => .other

/-- A member of this name may be added to an object: it names neither the form nor a field
of that form. -/
def Foreign : Place → List (Key × Document) → String → Prop
  | relation, ms, w =>
    w ≠ "relation" ∧ ∃ form : RelationForm, Held.formOf "relation" none ms = .ok form ∧
      ∀ s ∈ form.fields, Vocabulary.word s ≠ w
  | function, ms, w =>
    w ≠ "function" ∧ ∃ form : FunctionForm, Held.formOf "function" none ms = .ok form ∧
      ∀ s ∈ form.fields, Vocabulary.word s ≠ w
  | attr, _, w => ∀ s ∈ (Vocabulary.all : List AttributeField), Vocabulary.word s ≠ w
  | direction, _, w => ∀ s ∈ (Vocabulary.all : List DirectionField), Vocabulary.word s ≠ w
  | _, _, _ => False

end Place

/-! ## Changes -/

/-- One change to the spelling of what stands at a place: the members of an object in another order,
one more member, in front of the others and with a string as its value, or a change inside of a
member or an item. -/
inductive Respelled : Place → Document → Document → Prop where
  | permute (p : Place) {ms ms' : List (Key × Document)} (h : ms.Perm ms') :
    Respelled p (.object ms) (.object ms')
  | add (p : Place) {w : String} (s : String) (ms : List (Key × Document)) (h : p.Foreign ms w) :
    Respelled p (.object ms) (.object ((.text w, .string s) :: ms))
  | member (p : Place) {key : Key} {d d' : Document} (before after : List (Key × Document))
    (h : Respelled (p.member (before ++ (key, d) :: after) key) d d') :
    Respelled p (.object (before ++ (key, d) :: after)) (.object (before ++ (key, d') :: after))
  | item (p : Place) {d d' : Document} (before after : List Document)
    (h : Respelled (p.item (before ++ d :: after) before.length) d d') :
    Respelled p (.array (before ++ d :: after)) (.array (before ++ d' :: after))

/-- Strings have no other spelling. -/
theorem not_respelled_string {p : Place} {w : String} {d : Document} :
    ¬Respelled p (.string w) d :=
  nofun

/-- What tells a form has no other spelling. -/
theorem not_respelled_tag {φ : Type} [Vocabulary φ] {p : Place} {d d' : Document} {form : φ}
    (h : Held.tag d = .ok form) : ¬Respelled p d d' := by
  intro hd
  cases hd <;> cases h

/-! ## Objects with at most one member -/

namespace Document

mutual

/-- Every object in the document has at most one member. -/
def thin : Document → Bool
  | array items => thinItems items
  | object ms => decide (ms.length ≤ 1) && thinMembers ms
  | _ => true

def thinItems : List Document → Bool
  | [] => true
  | d :: rest => thin d && thinItems rest

def thinMembers : List (Key × Document) → Bool
  | [] => true
  | (_, d) :: rest => thin d && thinMembers rest

end

theorem thinItems_iff {items : List Document} :
    thinItems items = true ↔ ∀ d ∈ items, d.thin = true := by
  induction items with
  | nil => simp [thinItems]
  | cons d items ih => simp [thinItems, ih]

theorem thinMembers_iff {ms : List (Key × Document)} :
    thinMembers ms = true ↔ ∀ m ∈ ms, m.2.thin = true := by
  induction ms with
  | nil => simp [thinMembers]
  | cons m ms ih =>
    obtain ⟨key, d⟩ := m
    simp [thinMembers, ih]

end Document

namespace Decode

theorem thin_of_string {d : Document} {s : String} (h : string d = .ok s) : d.thin = true := by
  cases d <;> first | rfl | cases h

theorem thin_of_count {d : Document} {n : UInt64} (h : count d = .ok n) : d.thin = true := by
  cases d <;> first | rfl | cases h

theorem thin_of_unit {d : Document} (h : unit .held d = .ok ()) : d.thin = true := by
  unfold unit at h
  split at h
  · rfl
  · rfl
  · cases h

theorem thin_of_word {α : Type} [Vocabulary α] {d : Document} {a : α} (h : word .held d = .ok a) :
    d.thin = true := by
  cases d with
  | string w => rfl
  | object ms =>
    cases ms with
    | nil => cases h
    | cons m ms =>
      obtain ⟨key, e⟩ := m
      cases ms with
      | nil =>
        obtain ⟨b, -, h⟩ := bind_eq_ok_iff.1 h
        obtain ⟨⟨⟩, he, -⟩ := bind_eq_ok_iff.1 h
        simp [Document.thin, Document.thinMembers, thin_of_unit he]
      | cons n ms => cases h
  | _ => cases h

theorem thin_of_sequence {α : Type} {read : Document → Except ReadError α}
    (hread : ∀ {d a}, read d = .ok a → d.thin = true) {d : Document} {l : List α}
    (h : sequence read d = .ok l) : d.thin = true := by
  obtain ⟨items, rfl, hitems⟩ := sequence_cases h
  rw [Document.thin, Document.thinItems_iff]
  clear h
  induction hitems with
  | nil => exact List.forall_mem_nil _
  | cons ha _ ih => exact List.forall_mem_cons.2 ⟨hread ha, ih⟩

end Decode

namespace Held

mutual

theorem thin_of_literal? : ∀ (d : Document) {l : Literal}, literal? d = some l → d.thin = true
  | .null, _, _ | .boolean _, _, _ | .float _, _, _ | .string _, _, _ | .integer _, _, _
  | .minusZero, _, _ => rfl
  | .array items, _, h => by
    obtain ⟨ls, hls, -⟩ := Option.map_eq_some_iff.1 h
    exact thin_of_literals? items hls
  | .object _, _, h | .unreadable, _, h | .broken, _, h => by cases h

theorem thin_of_literals? : ∀ (ds : List Document) {ls : List Literal}, literals? ds = some ls →
    Document.thinItems ds = true
  | [], _, _ => rfl
  | d :: ds, _, h => by
    simp only [literals?, Option.bind_eq_bind, Option.bind_eq_some_iff] at h
    obtain ⟨l, hl, ls, hls, -⟩ := h
    rw [Document.thinItems, thin_of_literal? d hl, thin_of_literals? ds hls]
    rfl

end

theorem thin_of_literal {d : Document} {l : Literal} (h : literal d = .ok l) : d.thin = true :=
  thin_of_literal? d (literal_eq_ok_iff.1 h)

end Held

/-! ## What a change keeps -/

/-- What is read at a place is read after the change, and as the same thing.  A list keeps its
length, and a value without members of its own does not change at all. -/
def Agrees : Place → Document → Document → Prop
  | .relation, d, d' => ∀ r, Held.relation d = .ok r → Held.relation d' = .ok r
  | .function, d, d' => ∀ f, Held.function d = .ok f → Held.function d' = .ok f
  | .operand, d, d' => ∀ e, Held.operand d = .ok e → Held.operand d' = .ok e
  | .attr, d, d' => ∀ a, Decode.attr .held d = .ok a → Decode.attr .held d' = .ok a
  | .direction, d, d' => ∀ x, Decode.direction .held d = .ok x → Decode.direction .held d' = .ok x
  | .list p, d, d' => ∀ items, d = .array items → ∃ items', d' = .array items' ∧
    List.Forall₂ (Agrees p) items items'
  | .named p, d, d' =>
    ∀ x y, d = .array [x, y] → x.thin = true → ∃ y', d' = .array [x, y'] ∧ Agrees p y y'
  | .other, d, d' => d.thin = true → d' = d

theorem Agrees.refl : ∀ (p : Place) (d : Document), Agrees p d d
  | .relation, _ | .function, _ | .operand, _ | .attr, _ | .direction, _ => fun _ h => h
  | .list p, _ => fun items h => ⟨items, h, List.forall₂_same.2 fun d _ => Agrees.refl p d⟩
  | .named p, _ => fun _ y h _ => ⟨y, h, Agrees.refl p y⟩
  | .other, _ => fun _ => rfl

section Fields

variable {d d' : Document}

/-- A list is read alike if its items are. -/
theorem sequence_of_agrees {α : Type} {p : Place} {read : Document → Except ReadError α}
    (hread : ∀ {e e'}, Agrees p e e' → ∀ {a}, read e = .ok a → read e' = .ok a)
    (h : Agrees (.list p) d d') {l : List α} (hl : Decode.sequence read d = .ok l) :
    Decode.sequence read d' = .ok l := by
  obtain ⟨items, rfl, hitems⟩ := Decode.sequence_cases hl
  obtain ⟨items', rfl, hagrees⟩ := h items rfl
  refine mapM_eq_ok_iff.2 ?_
  clear h hl
  induction hagrees generalizing l with
  | nil => exact hitems
  | cons he _ ih =>
    cases hitems with
    | cons ha hrest => exact .cons (hread he ha) (ih hrest)

/-- A name with a value is read alike if the value is. -/
theorem pair_of_agrees {α β : Type} {p : Place} {first : Document → Except ReadError α}
    {second : Document → Except ReadError β} (hfirst : ∀ {e a}, first e = .ok a → e.thin = true)
    (hsecond : ∀ {e e'}, Agrees p e e' → ∀ {b}, second e = .ok b → second e' = .ok b)
    (h : Agrees (.named p) d d') {x : α × β} (hx : Decode.pair .held first second d = .ok x) :
    Decode.pair .held first second d' = .ok x := by
  obtain ⟨e, f, rfl, he, hf⟩ := Decode.pair_cases hx
  obtain ⟨f', rfl, hagrees⟩ := h e f rfl (hfirst he)
  exact Decode.pair_array he (hsecond hagrees hf)

/-- A value without members of its own is read alike. -/
theorem eq_of_agrees_other {α : Type} {read : Document → Except ReadError α}
    (hthin : ∀ {e a}, read e = .ok a → e.thin = true) (h : Agrees .other d d') {a : α}
    (ha : read d = .ok a) : read d' = .ok a := by
  rw [h (hthin ha)]
  exact ha

/-- A field of a relation is read alike. -/
theorem relationValue_of_agrees : ∀ {s : RelationField} {v : s.Type}, Agrees s.place d d' →
    Held.relationValue s d = .ok v → Held.relationValue s d' = .ok v
  | .name, _, h, hv => eq_of_agrees_other Decode.thin_of_string h hv
  | .header, _, h, hv => by
    obtain ⟨l, hl, rfl⟩ := map_eq_ok_iff.1 hv
    exact map_eq_ok_iff.2 ⟨l, sequence_of_agrees (p := .attr) (fun he _ => he _) h hl, rfl⟩
  | .tuples, _, h, hv =>
    eq_of_agrees_other (Decode.thin_of_sequence (Decode.thin_of_sequence Held.thin_of_literal)) h hv
  | .directions, _, h, hv => by
    obtain ⟨l, hl, rfl⟩ := map_eq_ok_iff.1 hv
    exact map_eq_ok_iff.2 ⟨l, sequence_of_agrees (p := .direction) (fun he _ => he _) h hl, rfl⟩
  | .limit, _, h, hv | .offset, _, h, hv => eq_of_agrees_other Decode.thin_of_count h hv
  | .op, _, h, hv => eq_of_agrees_other Decode.thin_of_word h hv
  | .predicate, f, h, hv => h f hv
  | .extensions, _, h, hv =>
    sequence_of_agrees (p := .named .operand)
      (fun he _ => pair_of_agrees (p := .operand) Decode.thin_of_string (fun hf _ => hf _) he) h hv
  | .aliases, _, h, hv => by
    refine eq_of_agrees_other (fun {e a} ha => ?_) h hv
    obtain ⟨l, hl, -⟩ := map_eq_ok_iff.1 ha
    refine Decode.thin_of_sequence (fun {e x} hx => ?_) hl
    obtain ⟨y, z, rfl, hy, hz⟩ := Decode.pair_cases hx
    simp [Document.thin, Document.thinItems, Decode.thin_of_string hy, Decode.thin_of_string hz]
  | .operand, r, h, hv | .other, r, h, hv | .left, r, h, hv | .right, r, h, hv
  | .summarizePer, r, h, hv => h r hv

/-- A field of a function is read alike. -/
theorem functionValue_of_agrees : ∀ {s : FunctionField} {v : s.Type}, Agrees s.place d d' →
    Held.functionValue s d = .ok v → Held.functionValue s d' = .ok v
  | .binaryOp, _, h, hv | .unaryOp, _, h, hv => eq_of_agrees_other Decode.thin_of_word h hv
  | .left, e, h, hv | .right, e, h, hv | .operand, e, h, hv => h e hv

open Decode (AttributeField DirectionField)

/-- A field of an attribute is read alike. -/
theorem attributeValue_of_agrees : ∀ {s : AttributeField} {v : s.Type}, Agrees s.place d d' →
    s.read .held d = .ok v → s.read .held d' = .ok v
  | .name, _, h, hv => eq_of_agrees_other Decode.thin_of_string h hv
  | .kind, _, h, hv => eq_of_agrees_other Decode.thin_of_word h hv

/-- A field of a direction is read alike. -/
theorem directionValue_of_agrees : ∀ {s : DirectionField} {v : s.Type}, Agrees s.place d d' →
    s.read .held d = .ok v → s.read .held d' = .ok v
  | .order, _, h, hv => eq_of_agrees_other Decode.thin_of_word h hv
  | .attr, a, h, hv => h a hv

end Fields

end RelAlg
