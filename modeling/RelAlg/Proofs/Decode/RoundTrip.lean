import RelAlg.Emit
import RelAlg.Proofs.Decode.Held
import RelAlg.Proofs.Decode.Hold
import RelAlg.Proofs.Document.Reader

/-!
# Reading undoes writing

A node is written as a JSON text and the text is read.  The reader finds the document that
was written, checks that it nests no deeper than it allows, and interprets it as the node it
was made from.

* `Literal.isReadable`        : the literals for which this is so;
* `Relation.survives_toDocument`: nothing of a relation with such literals is lost in the text;
* `Document.sound_of_survives`: what is not lost passes the check made before interpretation;
* `Decode.hold_of_sound`       : so does a sound relation or function with its form in front;
* `Decode.node_toDocument`    : a document of a node is interpreted as that node;
* `decode_render`             : the text of a node is read as that node, that of a relation
  as that relation.
-/

namespace RelAlg

/-! ## Literals that are read back -/

/-- A float is what is read from its own text. -/
def Literal.floatReadsBack : Literal → Bool
  | .float x => x.readsBack
  | _ => true

/-- A regular literal that, as a float, is what is read from its own text. -/
def Literal.isReadable (l : Literal) : Bool := l.isRegular && l.floatReadsBack

theorem Literal.isRegular_of_isReadable {l : Literal} (h : l.isReadable = true) :
    l.isRegular = true :=
  (Bool.and_eq_true_iff.1 h).1

/-! ## Nothing is lost in the text -/

namespace Document

theorem survivesItems_map {α : Type} {write : α → Document} {l : List α}
    (h : ∀ a ∈ l, (write a).survives = true) : survivesItems (l.map write) = true := by
  induction l with
  | nil => rfl
  | cons a l ih =>
    obtain ⟨ha, hl⟩ := List.forall_mem_cons.1 h
    rw [List.map_cons, survivesItems, ha, ih hl]
    rfl

theorem survivesMembers_map {α : Type} {name : α → String} {write : α → Document} {l : List α}
    (h : ∀ a ∈ l, (write a).survives = true) :
    survivesMembers (l.map fun a => (.text (name a), write a)) = true := by
  induction l with
  | nil => rfl
  | cons a l ih =>
    obtain ⟨ha, hl⟩ := List.forall_mem_cons.1 h
    rw [List.map_cons, survivesMembers, ha, ih hl]
    rfl

theorem survives_ofFields {fields : List (String × Document)}
    (h : ∀ m ∈ fields, m.2.survives = true) : (ofFields fields).survives = true :=
  survivesMembers_map h

theorem survives_count (n : UInt64) : (integer n.toNat).survives = true := by
  have hlt := n.toNat_lt
  simp only [survives, decide_eq_true_eq]
  omega

end Document

theorem Header.survives_toDocument (h : Header) : h.toDocument.survives = true :=
  Document.survivesItems_map fun _ _ => rfl

theorem DirectionSet.survives_toDocument (s : DirectionSet) : s.toDocument.survives = true :=
  Document.survivesItems_map fun _ _ => rfl

theorem AliasSet.survives_toDocument (s : AliasSet) : s.toDocument.survives = true :=
  Document.survivesItems_map fun _ _ => rfl

mutual

theorem Literal.survives_toDocument : ∀ l : Literal, (∀ k ∈ l.scalars, k.isReadable = true) →
    l.toDocument.survives = true
  | .null, _ | .boolean _, _ | .string _, _ => rfl
  | .integer n, _ => by
    have hlow := n.le_toInt
    have hhigh := n.toInt_lt
    simp only [Literal.toDocument, Document.survives, decide_eq_true_eq]
    omega
  | .unsigned n, _ => Document.survives_count n
  | .float x, h => h (.float x) (List.mem_singleton.2 rfl)
  | .array items, h => Literal.survivesItems_toDocuments items h

theorem Literal.survivesItems_toDocuments : ∀ ls : List Literal,
    (∀ k ∈ Literal.scalarsAll ls, k.isReadable = true) →
    Document.survivesItems (Literal.toDocuments ls) = true
  | [], _ => rfl
  | l :: ls, h => by
    obtain ⟨hl, hls⟩ := List.forall_mem_append.1 h
    rw [Literal.toDocuments, Document.survivesItems, Literal.survives_toDocument l hl,
      Literal.survivesItems_toDocuments ls hls]
    rfl

end

/-- A relation or function survives in the text if its fields do. -/
theorem Document.survives_tagged {α : Type} {tag word : String} {name : α → String}
    {write : α → Document} {l : List α} (h : ∀ a ∈ l, (write a).survives = true) :
    (Document.object
      ((.text tag, .string word) :: l.map fun a => (.text (name a), write a))).survives = true :=
  survivesMembers_map h

mutual

theorem Operand.survives_toDocument : ∀ e : Operand, (∀ l ∈ e.scalars, l.isReadable = true) →
    e.toDocument.survives = true
  | .attr _, _ => by
    rw [Operand.toDocument]
    rfl
  | .function f, h => by
    rw [Operand.toDocument]
    exact Document.survives_ofFields
      (List.forall_mem_singleton.2 (Function.survives_toDocument f h))
  | .literal l, h => by
    rw [Operand.toDocument]
    exact Document.survives_ofFields (List.forall_mem_singleton.2 (Literal.survives_toDocument l h))

theorem Function.survives_toDocument : ∀ f : Function, (∀ l ∈ f.scalars, l.isReadable = true) →
    f.toDocument.survives = true
  | .binary op left right, h => by
    obtain ⟨hleft, hright⟩ := List.forall_mem_append.1 h
    rw [Function.toDocument]
    refine Document.survives_ofFields ?_
    simp [Operand.survives_toDocument left hleft, Operand.survives_toDocument right hright,
      Document.survives, wordDocument]
  | .unary op e, h => by
    rw [Function.toDocument]
    refine Document.survives_ofFields ?_
    simp [Operand.survives_toDocument e h, Document.survives, wordDocument]
  | .tautology, _ | .contradiction, _ => by
    rw [Function.toDocument]
    rfl

end

/-- A field survives in the text, if a relation in it does. -/
theorem RelationField.survives_toDocument : ∀ (s : RelationField) (v : s.Type),
    (∀ l ∈ s.scalars v, l.isReadable = true) →
    (∀ r, s.relation? v = some r → r.toDocument.survives = true) → (s.toDocument v).survives = true
  | .name, _, _, _ | .op, _, _, _ => rfl
  | .header, h, _, _ => h.survives_toDocument
  | .tuples, _, h, _ => Document.survivesItems_map fun t ht =>
    Literal.survivesItems_toDocuments t fun l hl => h l (List.mem_flatMap.2 ⟨t, ht, hl⟩)
  | .directions, s, _, _ => s.survives_toDocument
  | .limit, n, _, _ | .offset, n, _, _ => Document.survives_count n
  | .predicate, f, h, _ => f.survives_toDocument h
  | .extensions, _, h, _ => Document.survivesItems_map fun x hx => by
    have hx := x.2.survives_toDocument fun l hl => h l (List.mem_flatMap.2 ⟨x, hx, hl⟩)
    simp [Document.survives, Document.survivesItems, hx]
  | .aliases, s, _, _ => s.survives_toDocument
  | .operand, _, _, h | .other, _, _, h | .left, _, _, h | .right, _, _, h
  | .summarizePer, _, _, h => h _ rfl

/-- Nothing of a relation is lost in its text. -/
theorem Relation.survives_toDocument (r : Relation) (h : ∀ l ∈ r.scalars, l.isReadable = true) :
    r.toDocument.survives = true := by
  refine Relation.scalars_induction (motive := fun r => r.toDocument.survives = true)
    (fun r ih => ?_) r h
  rw [Relation.toDocument_eq]
  exact Document.survives_tagged fun p hp => p.1.survives_toDocument p.2 (ih p hp).1 (ih p hp).2

/-! ## Reading into memory -/

namespace Document

mutual

/-- What survives in its text passes the check of a document in memory, if it does not
nest too deeply. -/
theorem sound_of_survives : ∀ (room : Nat) (d : Document), d.survives = true → d.depth ≤ room →
    d.sound room = true
  | _, null, _, _ | _, boolean _, _, _ | _, integer _, _, _ | _, float _, _, _
  | _, string _, _, _ => rfl
  | room, array items, h, hd => by
    rw [depth] at hd
    rw [sound, soundItems_of_survives (room - 1) items h (by omega), decide_eq_true (by omega)]
    rfl
  | room, object ms, h, hd => by
    rw [depth] at hd
    rw [sound, soundMembers_of_survives (room - 1) ms h (by omega), decide_eq_true (by omega)]
    rfl

theorem soundItems_of_survives :
    ∀ (room : Nat) (items : List Document), survivesItems items = true →
      depthItems items ≤ room → soundItems room items = true
  | _, [], _, _ => rfl
  | room, d :: items, h, hd => by
    obtain ⟨h₁, h₂⟩ := Bool.and_eq_true_iff.1 h
    obtain ⟨hd₁, hd₂⟩ := max_le_iff.1 hd
    rw [soundItems, sound_of_survives room d h₁ hd₁, soundItems_of_survives room items h₂ hd₂]
    rfl

theorem soundMembers_of_survives : ∀ (room : Nat) (ms : List (Key × Document)),
    survivesMembers ms = true → depthMembers ms ≤ room → soundMembers room ms = true
  | _, [], _, _ => rfl
  | room, (.text _, d) :: ms, h, hd => by
    obtain ⟨h₁, h₂⟩ := Bool.and_eq_true_iff.1 h
    obtain ⟨hd₁, hd₂⟩ := max_le_iff.1 hd
    rw [soundMembers, sound_of_survives room d h₁ hd₁, soundMembers_of_survives room ms h₂ hd₂]
    rfl

end

end Document

namespace Decode

/-- A document that starts with the name of a form passes if it is sound. -/
theorem hold_of_sound {α : Type} {room : Nat} {name word : String} {words : List String}
    {field : α → String} {write : α → Document} {l : List α} (hword : word ∈ words)
    (hfield : ∀ a ∈ l, field a ≠ name)
    (h : (Document.object ((.text name, .string word) ::
      l.map fun a => (.text (field a), write a))).sound room = true) :
    hold room name words
      (.object ((.text name, .string word) :: l.map fun a => (.text (field a), write a)))
        = .ok () := by
  have hrest : valuesAt (· == .text name) (l.map fun a => (Key.text (field a), write a)) = [] :=
    valuesAt_eq_nil_iff.2 (List.forall_mem_map.2 fun a ha => by simpa using hfield a ha)
  have hvalues : valuesAt (· == .text name)
      ((.text name, .string word) :: l.map fun a => (.text (field a), write a))
        = .string word ::
          valuesAt (· == .text name) (l.map fun a => (Key.text (field a), write a)) :=
    valuesAt_cons_of_pos (beq_self_eq_true _)
  exact hold_object_eq_ok_iff.2 ⟨h, .inr ⟨word, hword, by rw [hvalues, hrest]⟩⟩

theorem word_mem_words {φ : Type} [Vocabulary φ] [LawfulVocabulary φ] (form : φ) :
    Vocabulary.word form ∈ Vocabulary.words φ :=
  List.mem_map_of_mem (LawfulVocabulary.mem_all form)

/-- A relation that is written is read straight from its text. -/
theorem relation_toDocument {room : Nat} {r : Relation} (h : ∀ l ∈ r.scalars, l.isReadable = true)
    (hd : r.toDocument.depth ≤ room) : relation room r.toDocument = .ok r := by
  have hsound := Document.sound_of_survives room _ (r.survives_toDocument h) hd
  have hhold : hold room "relation" (Vocabulary.words RelationForm) r.toDocument = .ok () := by
    rw [Relation.toDocument_eq] at hsound ⊢
    exact hold_of_sound (word_mem_words r.form) (fun p _ => RelationForm.word_ne_relation p.1)
      hsound
  rw [relation, hhold]
  exact Held.relation_toDocument r fun l hl => Literal.isRegular_of_isReadable (h l hl)

/-- A function that is written is read straight from its text. -/
theorem function_toDocument {room : Nat} {f : Function} (h : ∀ l ∈ f.scalars, l.isReadable = true)
    (hd : f.toDocument.depth ≤ room) : function room f.toDocument = .ok f := by
  have hsound := Document.sound_of_survives room _ (f.survives_toDocument h) hd
  have hhold : hold room "function" (Vocabulary.words FunctionForm) f.toDocument = .ok () := by
    rw [Function.toDocument_eq] at hsound ⊢
    exact hold_of_sound (word_mem_words f.form) (fun p _ => FunctionForm.word_ne_function p.1)
      hsound
  rw [function, hhold]
  exact Held.function_toDocument f fun l hl => Literal.isRegular_of_isReadable (h l hl)

/-- A literal that is written is read straight from its text. -/
theorem literal_toDocument {room : Nat} {l : Literal} (h : ∀ k ∈ l.scalars, k.isReadable = true)
    (hd : l.toDocument.depth ≤ room) : literal room l.toDocument = .ok l := by
  have hsound := Document.sound_of_survives room _ (l.survives_toDocument h) hd
  rw [literal, if_pos hsound, Held.literal_eq_ok_iff]
  exact Held.literal?_toDocument l fun k hk => Literal.isRegular_of_isReadable (h k hk)

/-! ## Nodes -/

/-- An object with one member is read as the sort of content it names. -/
theorem choice_ofFields {φ α : Type} [Vocabulary φ] [LawfulVocabulary φ]
    (content : φ → Document → Except ReadError α) (sort : φ) {d : Document} {a : α}
    (h : content sort d = .ok a) :
    choice content (.object [(.text (Vocabulary.word sort), d)]) = .ok a := by
  have hkey : knownKey (.text (Vocabulary.word sort)) = .ok sort := known_word sort
  rw [choice, hkey]
  show (content sort d >>= _) = _
  rw [h]
  rfl

/-- A node that is written is read straight from its text. -/
theorem node_toDocument {room : Nat} {n : Node} (h : ∀ l ∈ n.scalars, l.isReadable = true)
    (hd : n.toDocument.depth ≤ room) : node room n.toDocument = .ok n := by
  have hroom : ∀ {w : String} {d : Document}, (Document.ofFields [(w, d)]).depth ≤ room →
      d.depth ≤ room - 1 := by
    intro w d hd
    simp only [Document.ofFields, List.map_cons, List.map_nil, Document.depth,
      Document.depthMembers] at hd
    omega
  cases n with
  | relation r =>
    exact choice_ofFields _ NodeSort.relation
      (map_eq_ok_iff.2 ⟨r, relation_toDocument h (hroom hd), rfl⟩)
  | function f =>
    exact choice_ofFields _ NodeSort.function
      (map_eq_ok_iff.2 ⟨f, function_toDocument h (hroom hd), rfl⟩)
  | literal l =>
    exact choice_ofFields _ NodeSort.literal
      (map_eq_ok_iff.2 ⟨l, literal_toDocument h (hroom hd), rfl⟩)
  | attr a =>
    exact choice_ofFields _ NodeSort.attr (map_eq_ok_iff.2 ⟨a, attr_toDocument .streamed a, rfl⟩)
  | header x =>
    exact choice_ofFields _ NodeSort.header
      (map_eq_ok_iff.2 ⟨x, header_toDocument .streamed x, rfl⟩)
  | direction d =>
    exact choice_ofFields _ NodeSort.direction
      (map_eq_ok_iff.2 ⟨d, direction_toDocument .streamed d, rfl⟩)
  | directionSet s =>
    exact choice_ofFields _ NodeSort.directionSet
      (map_eq_ok_iff.2 ⟨s, directionSet_toDocument .streamed s, rfl⟩)
  | aliases s =>
    exact choice_ofFields _ NodeSort.aliases
      (map_eq_ok_iff.2 ⟨s, aliasSet_toDocument .streamed s, rfl⟩)
  | count n => exact choice_ofFields _ NodeSort.count (map_eq_ok_iff.2 ⟨n, count_toNat n, rfl⟩)

end Decode

/-- Nothing of a node is lost in its text. -/
theorem Node.survives_toDocument {n : Node} (h : ∀ l ∈ n.scalars, l.isReadable = true) :
    n.toDocument.survives = true := by
  have hone : ∀ {w : String} {d : Document}, d.survives = true →
      (Document.ofFields [(w, d)]).survives = true := fun hd =>
    Document.survives_ofFields (List.forall_mem_singleton.2 hd)
  cases n with
  | relation r =>
    exact hone (r.survives_toDocument h)
  | function f =>
    exact hone (f.survives_toDocument h)
  | literal l =>
    exact hone (l.survives_toDocument h)
  | attr a => rfl
  | header x => exact hone x.survives_toDocument
  | direction d => rfl
  | directionSet s => exact hone s.survives_toDocument
  | aliases s => exact hone s.survives_toDocument
  | count n => exact hone (Document.survives_count n)

/-! ## Texts -/

/-- A document that is read as `a` is, as a text, read as `a`. -/
theorem Source.decode_ofText_render {α : Type} {read : Document → Except ReadError α}
    (isPretty : Bool) {d : Document} {a : α} (hd : d.survives = true) (h : read d = .ok a) :
    (Source.ofText (d.render isPretty)).decode read = .ok a := by
  rw [ofText_render isPretty hd, decode, h]
  rfl

/-- The text of a node is read as that node, and the text of a relation as that relation,
in either form. -/
theorem decode_render (isPretty : Bool) :
    (∀ n : Node, (∀ l ∈ n.scalars, l.isReadable = true) → n.toDocument.depth ≤ Document.maxDepth →
      (Source.ofText (n.toDocument.render isPretty)).decode (Decode.node Document.maxDepth)
        = .ok n) ∧
    ∀ r : Relation, (∀ l ∈ r.scalars, l.isReadable = true) →
      r.toDocument.depth ≤ Document.maxDepth →
      decodeRelation .json (r.toDocument.render isPretty) = .ok r := by
  constructor
  · intro n h hd
    exact Source.decode_ofText_render isPretty (Node.survives_toDocument h)
      (Decode.node_toDocument h hd)
  · intro r h hd
    rw [decodeRelation, Source.decode_ofText_render isPretty (r.survives_toDocument h)
      (Decode.relation_toDocument h hd)]

/-- One row with a float, a number above the signed range and a name that has to be escaped,
filtered by a function. -/
def weights : Relation :=
  .restriction
    (.materialized ⟨[⟨"\"w\"\n", .float⟩, ⟨"n", .integer⟩]⟩
      [[.float ⟨0x3FB999999999999A⟩, .unsigned 0x8000000000000000]])
    (.unary .not (.literal (.array [.integer (-5), .float ⟨0x444B1AE4D6E2EF50⟩, .null])))

/-- Reading undoes writing for a node and for a relation. -/
theorem decode_render_weights :
    (∀ l ∈ weights.scalars, l.isReadable = true) ∧
    (Node.relation weights).toDocument.depth ≤ Document.maxDepth ∧
    weights.toDocument.depth ≤ Document.maxDepth ∧
    (Source.ofText ((Node.relation weights).toDocument.render true)).decode
      (Decode.node Document.maxDepth) = .ok (.relation weights) ∧
    decodeRelation .json (weights.toDocument.render false) = .ok weights := by
  have hscalars : ∀ l ∈ weights.scalars, l.isReadable = true := by decide +kernel
  have hnode : (Node.relation weights).toDocument.depth ≤ Document.maxDepth := by decide +kernel
  have hdepth : weights.toDocument.depth ≤ Document.maxDepth := by decide +kernel
  exact ⟨hscalars, hnode, hdepth, (decode_render true).1 (.relation weights) hscalars hnode,
    (decode_render false).2 weights hscalars hdepth⟩

end RelAlg
