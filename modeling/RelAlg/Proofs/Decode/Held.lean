import RelAlg.Proofs.Decode.Scalars
import RelAlg.Proofs.Emit.Faithful

/-!
# Documents in memory are read back

Reading the document of a relation, once it is in memory, gives that relation, provided that its
literals are regular: an unsigned number with room among the signed ones would come back as a signed
one.  The flat parts are read back in either access.

* `Decode.attr_toDocument`, `Decode.header_toDocument` and so on: flat parts;
* `Held.literal?_toDocument`, `Held.function_toDocument`        : literals and functions;
* `Held.relation_toDocument`                                    : relations.
-/

namespace RelAlg

namespace Decode

/-! ## Flat parts -/

@[simp] theorem word_wordDocument {α : Type} [Vocabulary α] [LawfulVocabulary α] (access : Access)
    (a : α) : word access (wordDocument a) = .ok a := by
  cases access <;> exact known_word a

@[simp] theorem count_toNat (n : UInt64) : count (.integer n.toNat) = .ok n := by
  have hlt := n.toNat_lt
  rw [count, if_pos (by omega), Int.toNat_natCast, UInt64.ofNat_toNat]

section Record

variable {σ : Type} {type : σ → Type} [DecidableEq σ] [Vocabulary σ]

theorem members_eq (access : Access) (read : (s : σ) → Document → Except ReadError (type s))
    (ms : List (Key × Document)) (done : Parts type) :
    members access read done ms =
      readMembers (fun _ => false) (fun d => access = .held ∨ d.grammatical) Vocabulary.all read
        done ms := by
  induction ms generalizing done with
  | nil => rw [members, readMembers]
  | cons m ms ih =>
    obtain ⟨key, d⟩ := m
    rw [members, readMembers, if_neg Bool.false_ne_true]
    refine congrArg _ (funext fun s? => ?_)
    cases s? with
    | none => simp only [ih, decide_eq_true_eq]
    | some s => simp only [ih]

/-- A record written field by field is read field by field. -/
theorem record_written [LawfulVocabulary σ] (access : Access) (name : String)
    (read : (s : σ) → Document → Except ReadError (type s)) (write : (s : σ) → type s → Document)
    (parts : Parts type) (hfields : parts.map Sigma.fst = Vocabulary.all)
    (hread : ∀ p ∈ parts, read p.1 (write p.1 p.2) = .ok p.2) :
    ∃ done, record access name read
        (.object (parts.map fun p => (.text (Vocabulary.word p.1), write p.1 p.2))) = .ok done ∧
      ∀ p ∈ parts, done.get? p.1 = some p.2 := by
  rw [record, members_eq]
  exact readMembers_written _ _ write LawfulVocabulary.nodup_words hfields fun p hp =>
    ⟨rfl, hread p hp⟩

end Record

@[simp] theorem attr_toDocument (access : Access) (a : Attribute) :
    attr access a.toDocument = .ok a := by
  obtain ⟨done, hdone, hheld⟩ := record_written access "Attribute" (AttributeField.read access)
    (fun | .name, w => .string w | .kind, k => wordDocument (k : AttributeKind))
    [⟨.name, a.name⟩, ⟨.kind, a.kind⟩] rfl
    (by simp [AttributeField.read, string])
  simp only [List.forall_mem_cons] at hheld
  refine bind_eq_ok_iff.2 ⟨done, hdone, ?_⟩
  simp only [bind_eq_ok_iff, Parts.need_eq_ok_iff]
  exact ⟨_, hheld.1, _, hheld.2.1, rfl⟩

@[simp] theorem direction_toDocument (access : Access) (d : Direction) :
    direction access d.toDocument = .ok d := by
  obtain ⟨done, hdone, hheld⟩ := record_written access "Direction" (DirectionField.read access)
    (fun | .order, o => wordDocument (o : SortOrder) | .attr, a => Attribute.toDocument a)
    [⟨.order, d.order⟩, ⟨.attr, d.attr⟩] rfl
    (by simp [DirectionField.read])
  simp only [List.forall_mem_cons] at hheld
  refine bind_eq_ok_iff.2 ⟨done, hdone, ?_⟩
  simp only [bind_eq_ok_iff, Parts.need_eq_ok_iff]
  exact ⟨_, hheld.1, _, hheld.2.1, rfl⟩

/-- A list is read back if its items are. -/
theorem sequence_map {α : Type} {read : Document → Except ReadError α} {write : α → Document}
    {l : List α} (h : ∀ a ∈ l, read (write a) = .ok a) :
    sequence read (.array (l.map write)) = .ok l := by
  have hl := mapM_eq_ok_map (f := read ∘ write) (g := id) h
  rwa [List.map_id, ← List.mapM_map] at hl

theorem pair_array {α β : Type} {access : Access} {first : Document → Except ReadError α}
    {second : Document → Except ReadError β} {d e : Document} {a : α} {b : β} (hd : first d = .ok a)
    (he : second e = .ok b) : pair access first second (.array [d, e]) = .ok (a, b) := by
  rw [pair, hd]
  show (second e >>= _) = _
  rw [he]
  rfl

@[simp] theorem header_toDocument (access : Access) (h : Header) :
    header access h.toDocument = .ok h :=
  map_eq_ok_iff.2 ⟨_, sequence_map fun a _ => attr_toDocument access a, rfl⟩

@[simp] theorem directionSet_toDocument (access : Access) (s : DirectionSet) :
    directionSet access s.toDocument = .ok s :=
  map_eq_ok_iff.2 ⟨_, sequence_map fun d _ => direction_toDocument access d, rfl⟩

@[simp] theorem aliasSet_toDocument (access : Access) (s : AliasSet) :
    aliasSet access s.toDocument = .ok s :=
  map_eq_ok_iff.2 ⟨_, sequence_map fun _ _ => pair_array rfl rfl, rfl⟩

end Decode

/-! ## Literals -/

namespace Literal

theorem ofInt?_toInt (n : Int64) : ofInt? n.toInt = some (.integer n) := by
  have hlow := n.le_toInt
  have hhigh := n.toInt_lt
  rw [ofInt?, if_pos (by omega), Int64.ofInt_toInt]

theorem ofInt?_toNat {n : UInt64} (h : (unsigned n).isRegular = true) :
    ofInt? n.toNat = some (.unsigned n) := by
  have hlt := n.toNat_lt
  simp only [isRegular, decide_eq_true_eq] at h
  rw [ofInt?, if_neg (by omega), if_pos (by omega), Int.toNat_natCast, UInt64.ofNat_toNat]

/-- A whole number is read as a signed number, or as an unsigned one above the signed range. -/
theorem ofInt?_cases {n : Int} {l : Literal} (h : ofInt? n = some l) :
    (∃ k : Int64, l = .integer k ∧ k.toInt = n) ∨
      ∃ k : UInt64, l = .unsigned k ∧ (k.toNat : Int) = n ∧ (unsigned k).isRegular = true := by
  unfold ofInt? at h
  split at h
  · rename_i hrange
    cases h
    exact .inl ⟨_, rfl, Int64.toInt_ofInt_of_le hrange.1 hrange.2⟩
  · split at h
    · rename_i hsigned hrange
      cases h
      have hn : (UInt64.ofNat n.toNat).toNat = n.toNat :=
        UInt64.toNat_ofNat_of_lt' (by rw [UInt64.size]; omega)
      refine .inr ⟨_, rfl, by omega, ?_⟩
      rw [isRegular, decide_eq_true_eq]
      omega
    · cases h

end Literal

namespace Held

mutual

/-- A literal with regular scalars is read back from its document. -/
theorem literal?_toDocument : ∀ l : Literal, (∀ k ∈ l.scalars, k.isRegular = true) →
    literal? l.toDocument = some l
  | .null, _ | .boolean _, _ | .float _, _ | .string _, _ => rfl
  | .integer n, _ => Literal.ofInt?_toInt n
  | .unsigned n, h => Literal.ofInt?_toNat (h (.unsigned n) (List.mem_singleton.2 rfl))
  | .array items, h => by
    rw [Literal.toDocument, literal?, literals?_toDocuments items h]
    rfl

theorem literals?_toDocuments :
    ∀ ls : List Literal, (∀ k ∈ Literal.scalarsAll ls, k.isRegular = true) →
      literals? (Literal.toDocuments ls) = some ls
  | [], _ => rfl
  | l :: ls, h => by
    obtain ⟨hl, hls⟩ := List.forall_mem_append.1 h
    rw [Literal.toDocuments, literals?, literal?_toDocument l hl, literals?_toDocuments ls hls]
    rfl

end

theorem literal_eq_ok_iff {d : Document} {l : Literal} :
    literal d = .ok l ↔ literal? d = some l := by
  rw [literal]
  cases literal? d <;> simp

/-- A row is read as a list of literals. -/
theorem mapM_literal_eq_ok_iff {ds : List Document} {ls : List Literal} :
    ds.mapM literal = .ok ls ↔ literals? ds = some ls := by
  induction ds generalizing ls with
  | nil => simp [literals?, pure, Except.pure]
  | cons d ds ih =>
    simp only [List.mapM_cons, bind_eq_ok_iff, literal_eq_ok_iff, ih, literals?,
      Option.bind_eq_bind, Option.bind_eq_some_iff]
    simp [pure, Except.pure]

/-! ## Functions and operands -/

/-- An object with one member is read as the sort of operand it names. -/
theorem operand_object (sort : OperandSort) (d : Document) :
    operand (.object [(.text (Vocabulary.word sort), d)]) = match sort with
      | .attr => Operand.attr <$> Decode.attr .held d
      | .function => Operand.function <$> function d
      | .literal => Operand.literal <$> literal d := by
  have hkey : Decode.knownKey (.text (Vocabulary.word sort)) = .ok sort := Decode.known_word sort
  rw [operand, hkey]
  cases sort <;> rfl

mutual

theorem operand_toDocument : ∀ e : Operand, (∀ l ∈ e.scalars, l.isRegular = true) →
    operand e.toDocument = .ok e
  | .attr a, _ => by
    rw [Operand.toDocument]
    exact (operand_object .attr _).trans (map_eq_ok_iff.2 ⟨a, Decode.attr_toDocument .held a, rfl⟩)
  | .function f, h => by
    rw [Operand.toDocument]
    exact (operand_object .function _).trans (map_eq_ok_iff.2 ⟨f, function_toDocument f h, rfl⟩)
  | .literal l, h => by
    rw [Operand.toDocument]
    exact (operand_object .literal _).trans
      (map_eq_ok_iff.2 ⟨l, literal_eq_ok_iff.2 (literal?_toDocument l h), rfl⟩)

theorem function_toDocument : ∀ f : Function, (∀ l ∈ f.scalars, l.isRegular = true) →
    function f.toDocument = .ok f
  | .binary op left right, h => by
    obtain ⟨hleft, hright⟩ := List.forall_mem_append.1 h
    refine function_toDocument_of_parts ?_
    simp [Function.parts, functionValue, functionField, FunctionField.toDocument,
      operand_toDocument left hleft, operand_toDocument right hright]
  | .unary op e, h => by
    refine function_toDocument_of_parts ?_
    simp [Function.parts, functionValue, functionField, FunctionField.toDocument,
      operand_toDocument e h]
  | .tautology, _ | .contradiction, _ => function_toDocument_of_parts nofun

end

/-! ## Relations -/

theorem tuples_toDocument {ts : List Tuple}
    (h : ∀ l ∈ ts.flatMap Literal.scalarsAll, l.isRegular = true) :
    Decode.sequence (Decode.sequence literal) (.array (ts.map tupleDocument)) = .ok ts :=
  Decode.sequence_map fun t ht => mapM_literal_eq_ok_iff.2 <|
    literals?_toDocuments t fun l hl => h l (List.mem_flatMap.2 ⟨t, ht, hl⟩)

theorem extensions_toDocument {es : List (String × Operand)}
    (h : ∀ l ∈ es.flatMap fun x => x.2.scalars, l.isRegular = true) :
    Decode.sequence (Decode.pair .held Decode.string operand) (extensionsDocument es) = .ok es :=
  Decode.sequence_map fun x hx => Decode.pair_array rfl <|
    operand_toDocument x.2 fun l hl => h l (List.mem_flatMap.2 ⟨x, hx, hl⟩)

/-- A field is read back, if a relation in it is. -/
theorem relationValue_toDocument : ∀ (s : RelationField) (v : s.Type),
    (∀ l ∈ s.scalars v, l.isRegular = true) →
    (∀ r, s.relation? v = some r → relation r.toDocument = .ok r) →
    relationValue s (s.toDocument v) = .ok v
  | .name, _, _, _ => rfl
  | .header, h, _, _ => Decode.header_toDocument .held h
  | .tuples, _, h, _ => tuples_toDocument h
  | .directions, s, _, _ => Decode.directionSet_toDocument .held s
  | .limit, n, _, _ | .offset, n, _, _ => Decode.count_toNat n
  | .op, c, _, _ => Decode.word_wordDocument .held (c : Combinator)
  | .predicate, f, h, _ => function_toDocument f h
  | .extensions, _, h, _ => extensions_toDocument h
  | .aliases, s, _, _ => Decode.aliasSet_toDocument .held s
  | .operand, _, _, h | .other, _, _, h | .left, _, _, h | .right, _, _, h
  | .summarizePer, _, _, h => h _ rfl

/-- A relation with regular scalars is read back from its document. -/
theorem relation_toDocument (r : Relation) (h : ∀ l ∈ r.scalars, l.isRegular = true) :
    relation r.toDocument = .ok r := by
  refine Relation.scalars_induction (motive := fun r => relation r.toDocument = .ok r)
    (fun r ih => ?_) r h
  exact relation_toDocument_of_parts fun p hp =>
    relationValue_toDocument p.1 p.2 (ih p hp).1 (ih p hp).2

end Held

end RelAlg
