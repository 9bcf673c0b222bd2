import RelAlg.Proofs.Decode.Held

/-!
# What is read nests no deeper when it is written

A document may spell a part of a tree with an array in place of an object, or with members that
nobody reads.  Neither makes it shallower than the document that the part is written as.

* `Held.operand_cases`     : the three spellings of an operand;
* `Decode.depth_of_record` : a field of a record lies inside the record;
* `Held.depth_of_function`, `Held.depth_of_relation`: what is read nests no deeper when
  it is written.
-/

namespace RelAlg

/-! ## Tagged records -/

namespace Document

theorem depthMembers_le {ms : List (Key × Document)} {n : Nat} (h : ∀ m ∈ ms, m.2.depth ≤ n) :
    depthMembers ms ≤ n := by
  induction ms with
  | nil => exact Nat.zero_le n
  | cons m ms ih =>
    obtain ⟨hm, hms⟩ := List.forall_mem_cons.1 h
    exact max_le hm (ih hms)

/-- A record with its form in front nests one deeper than its fields. -/
theorem depth_tagged {α : Type} {tag word : String} {name : α → String} {write : α → Document}
    {l : List α} {n : Nat} (hn : 0 < n) (h : ∀ a ∈ l, (write a).depth < n) :
    (object ((.text tag, .string word) :: l.map fun a => (.text (name a), write a))).depth ≤ n := by
  have hms : depthMembers ((.text tag, .string word) :: l.map fun a => (.text (name a), write a))
      ≤ n - 1 := by
    refine depthMembers_le (List.forall_mem_cons.2 ⟨Nat.zero_le _, fun m hm => ?_⟩)
    obtain ⟨a, ha, rfl⟩ := List.mem_map.1 hm
    exact Nat.le_sub_one_of_lt (h a ha)
  rw [depth]
  omega

end Document

/-! ## Flat parts -/

namespace Decode

section Record

variable {σ : Type} {type : σ → Type} [DecidableEq σ] [Vocabulary σ] {access : Access}
  {name : String} {read : (s : σ) → Document → Except ReadError (type s)} {d : Document}
  {parts : Parts type}

/-- A record is an object or an array. -/
theorem depth_pos_of_record (h : record access name read d = .ok parts) : 0 < d.depth := by
  cases d with
  | object ms => exact Nat.lt_add_right _ Nat.one_pos
  | array items => exact Nat.lt_add_right _ Nat.one_pos
  | _ => cases h

/-- A field of a record lies inside the record. -/
theorem depth_of_record (h : record access name read d = .ok parts) {s : σ} {v : type s}
    (hv : parts.get? s = some v) : ∃ e : Document, e.depth < d.depth ∧ read s e = .ok v := by
  cases d with
  | object ms =>
    rw [record, members_eq] at h
    obtain ⟨e, he, hread⟩ := exists_memberValue? h hv
    exact ⟨e, Nat.lt_one_add_iff.2 (Document.depth_le_of_memberValue? he), hread⟩
  | array items =>
    obtain ⟨e, he, hread⟩ := exists_itemValue? h hv
    exact ⟨e, Nat.lt_one_add_iff.2 (Document.depth_le_of_itemValue? he), hread⟩
  | _ => cases h

end Record

theorem depth_of_attr {access : Access} {d : Document} {a : Attribute} (h : attr access d = .ok a) :
    a.toDocument.depth ≤ d.depth := by
  obtain ⟨parts, hparts, -⟩ := bind_eq_ok_iff.1 h
  exact depth_pos_of_record hparts

theorem depth_of_direction {access : Access} {d : Document} {x : Direction}
    (h : direction access d = .ok x) : x.toDocument.depth ≤ d.depth := by
  obtain ⟨parts, hparts, h⟩ := bind_eq_ok_iff.1 h
  simp only [bind_eq_ok_iff, Parts.need_eq_ok_iff] at h
  obtain ⟨-, -, a, ha, -⟩ := h
  obtain ⟨e, he, hread⟩ := depth_of_record hparts ha
  have hattr : 0 < e.depth := depth_of_attr hread
  show 2 ≤ d.depth
  omega

/-- A list is read item by item. -/
theorem sequence_cases {α : Type} {read : Document → Except ReadError α} {d : Document} {l : List α}
    (h : sequence read d = .ok l) :
    ∃ items, d = .array items ∧ List.Forall₂ (fun d a => read d = .ok a) items l := by
  cases d with
  | array items => exact ⟨items, rfl, mapM_eq_ok_iff.1 h⟩
  | _ => cases h

/-- A list nests no deeper than its document, if its items do not. -/
theorem depth_of_sequence {α : Type} {read : Document → Except ReadError α} {write : α → Document}
    (hread : ∀ {d a}, read d = .ok a → (write a).depth ≤ d.depth) {d : Document} {l : List α}
    (h : sequence read d = .ok l) : (Document.array (l.map write)).depth ≤ d.depth := by
  obtain ⟨items, rfl, hitems⟩ := sequence_cases h
  have hdepth : Document.depthItems (l.map write) ≤ Document.depthItems items := by
    clear h
    induction hitems with
    | nil => exact Nat.le_refl _
    | cons ha _ ih => exact max_le_max (hread ha) ih
  exact Nat.add_le_add_left hdepth 1

/-- A pair is an array of two. -/
theorem pair_cases {α β : Type} {access : Access} {first : Document → Except ReadError α}
    {second : Document → Except ReadError β} {d : Document} {p : α × β}
    (h : pair access first second d = .ok p) :
    ∃ x y, d = .array [x, y] ∧ first x = .ok p.1 ∧ second y = .ok p.2 := by
  unfold pair at h
  split at h
  · cases h
  · obtain ⟨-, -, h⟩ := bind_eq_ok_iff.1 h
    cases h
  · obtain ⟨a, ha, h⟩ := bind_eq_ok_iff.1 h
    obtain ⟨b, hb, h⟩ := bind_eq_ok_iff.1 h
    simp only [ite_eq_iff, reduceCtorEq, and_false, or_false, List.isEmpty_iff] at h
    obtain ⟨rfl, ⟨⟩⟩ := h
    exact ⟨_, _, rfl, ha, hb⟩
  · cases h

theorem depth_of_header {access : Access} {d : Document} {h : Header}
    (hd : header access d = .ok h) : h.toDocument.depth ≤ d.depth := by
  obtain ⟨l, hl, rfl⟩ := map_eq_ok_iff.1 hd
  exact depth_of_sequence depth_of_attr hl

theorem depth_of_directionSet {access : Access} {d : Document} {s : DirectionSet}
    (hd : directionSet access d = .ok s) : s.toDocument.depth ≤ d.depth := by
  obtain ⟨l, hl, rfl⟩ := map_eq_ok_iff.1 hd
  exact depth_of_sequence depth_of_direction hl

theorem depth_of_aliasSet {access : Access} {d : Document} {s : AliasSet}
    (hd : aliasSet access d = .ok s) : s.toDocument.depth ≤ d.depth := by
  obtain ⟨l, hl, rfl⟩ := map_eq_ok_iff.1 hd
  refine depth_of_sequence (fun h => ?_) hl
  obtain ⟨x, y, rfl, -, -⟩ := pair_cases h
  exact Nat.le_add_right 1 _

end Decode

/-! ## Literals -/

theorem Literal.depth_of_ofInt? {n : Int} {l : Literal} (h : ofInt? n = some l) :
    l.toDocument.depth = 0 := by
  obtain ⟨k, rfl, -⟩ | ⟨k, rfl, -⟩ := ofInt?_cases h
  · rfl
  · rfl

namespace Held

mutual

theorem depth_of_literal? : ∀ (d : Document) {l : Literal}, literal? d = some l →
    l.toDocument.depth ≤ d.depth
  | .null, _, h | .boolean _, _, h | .float _, _, h | .string _, _, h => by
    cases h
    exact Nat.le_refl _
  | .integer _, _, h | .minusZero, _, h => Nat.le_of_eq (Literal.depth_of_ofInt? h)
  | .array items, _, h => by
    obtain ⟨ls, hls, rfl⟩ := Option.map_eq_some_iff.1 h
    exact Nat.add_le_add_left (depth_of_literals? items hls) 1
  | .object _, _, h | .unreadable, _, h | .broken, _, h => by cases h

theorem depth_of_literals? : ∀ (ds : List Document) {ls : List Literal}, literals? ds = some ls →
    Document.depthItems (Literal.toDocuments ls) ≤ Document.depthItems ds
  | [], _, h => by
    cases h
    exact Nat.le_refl _
  | d :: ds, _, h => by
    simp only [literals?, Option.bind_eq_bind, Option.bind_eq_some_iff] at h
    obtain ⟨l, hl, ls, hls, h⟩ := h
    cases h
    exact max_le_max (depth_of_literal? d hl) (depth_of_literals? ds hls)

end

/-- A row is an array of literals. -/
theorem row_cases {d : Document} {ls : List Literal} (h : Decode.sequence literal d = .ok ls) :
    ∃ items, d = .array items ∧ literals? items = some ls := by
  obtain ⟨items, rfl, hitems⟩ := Decode.sequence_cases h
  exact ⟨items, rfl, mapM_literal_eq_ok_iff.1 (mapM_eq_ok_iff.2 hitems)⟩

theorem depth_of_tuples {d : Document} {ts : List Tuple}
    (h : Decode.sequence (Decode.sequence literal) d = .ok ts) :
    (Document.array (ts.map tupleDocument)).depth ≤ d.depth := by
  refine Decode.depth_of_sequence (fun {d t} ht => ?_) h
  obtain ⟨items, rfl, hitems⟩ := row_cases ht
  exact Nat.add_le_add_left (depth_of_literals? items hitems) 1

/-! ## Functions and operands -/

/-- An operand is an object whose one member tells its sort. -/
theorem operand_cases {d : Document} {e : Operand} (h : operand d = .ok e) :
    ∃ key c, d = .object [(key, c)] ∧
      ((∃ a, e = .attr a ∧
          Decode.knownKey key = .ok OperandSort.attr ∧ Decode.attr .held c = .ok a) ∨
        (∃ f, e = .function f ∧
          Decode.knownKey key = .ok OperandSort.function ∧ function c = .ok f) ∨
        ∃ l, e = .literal l ∧
          Decode.knownKey key = .ok OperandSort.literal ∧ literal c = .ok l) := by
  unfold operand at h
  split at h
  · obtain ⟨-, -, h⟩ := bind_eq_ok_iff.1 h
    cases h
  · rename_i key c
    obtain ⟨sort, hsort, h⟩ := bind_eq_ok_iff.1 h
    refine ⟨key, c, rfl, ?_⟩
    cases sort with
    | attr =>
      obtain ⟨a, ha, rfl⟩ := map_eq_ok_iff.1 h
      exact .inl ⟨a, rfl, hsort, ha⟩
    | function =>
      obtain ⟨f, hf, rfl⟩ := map_eq_ok_iff.1 h
      exact .inr (.inl ⟨f, rfl, hsort, hf⟩)
    | literal =>
      obtain ⟨l, hl, rfl⟩ := map_eq_ok_iff.1 h
      exact .inr (.inr ⟨l, rfl, hsort, hl⟩)
  · cases h
  · cases h

/-- A document with a form is an object or an array. -/
theorem depth_pos_of_form? {φ : Type} [Vocabulary φ] {name : String} {d : Document} {form : φ}
    (h : form? name d = some form) : 0 < d.depth := by
  unfold form? at h
  split at h
  · exact Nat.lt_add_right _ Nat.one_pos
  · exact Nat.lt_add_right _ Nat.one_pos
  · cases h

/-- A function nests no deeper than what it was read from, if its fields do not. -/
theorem depth_of_function_parts {d : Document} {f : Function} (h : function d = .ok f)
    (hfields : ∀ p ∈ f.parts, ∀ e, functionValue p.1 e = .ok p.2 →
      (p.1.toDocument p.2).depth ≤ e.depth) :
    f.toDocument.depth ≤ d.depth := by
  obtain ⟨hform, hparts⟩ := parts_of_function h
  rw [Function.toDocument_eq]
  refine Document.depth_tagged (depth_pos_of_form? hform) fun p hp => ?_
  obtain ⟨e, he, hread⟩ := hparts p hp
  exact Nat.lt_of_le_of_lt (hfields p hp e hread) (depth_lt_of_value? he)

mutual

theorem depth_of_operand {d : Document} :
    ∀ e : Operand, operand d = .ok e → e.toDocument.depth ≤ d.depth
  | .attr a, h => by
    obtain ⟨_, c, rfl, ⟨_, ⟨⟩, -, ha⟩ | ⟨_, ⟨⟩, -⟩ | ⟨_, ⟨⟩, -⟩⟩ := operand_cases h
    rw [Operand.toDocument]
    exact Nat.add_le_add_left (max_le_max_right 0 (Decode.depth_of_attr ha)) 1
  | .function f, h => by
    obtain ⟨_, c, rfl, ⟨_, ⟨⟩, -⟩ | ⟨_, ⟨⟩, -, hf⟩ | ⟨_, ⟨⟩, -⟩⟩ := operand_cases h
    rw [Operand.toDocument]
    exact Nat.add_le_add_left (max_le_max_right 0 (depth_of_function f hf)) 1
  | .literal l, h => by
    obtain ⟨_, c, rfl, ⟨_, ⟨⟩, -⟩ | ⟨_, ⟨⟩, -⟩ | ⟨_, ⟨⟩, -, hl⟩⟩ := operand_cases h
    rw [Operand.toDocument]
    exact Nat.add_le_add_left (max_le_max_right 0 (depth_of_literal? c (literal_eq_ok_iff.1 hl))) 1

/-- A function nests no deeper than what it was read from. -/
theorem depth_of_function {d : Document} :
    ∀ f : Function, function d = .ok f → f.toDocument.depth ≤ d.depth
  | .binary op left right, h => by
    refine depth_of_function_parts h ?_
    simp only [Function.parts, List.forall_mem_cons]
    exact ⟨fun _ _ => Nat.zero_le _, fun _ => depth_of_operand left,
      fun _ => depth_of_operand right, nofun⟩
  | .unary op operand, h => by
    refine depth_of_function_parts h ?_
    simp only [Function.parts, List.forall_mem_cons]
    exact ⟨fun _ _ => Nat.zero_le _, fun _ => depth_of_operand operand, nofun⟩
  | .tautology, h | .contradiction, h => depth_of_function_parts h nofun

end

/-! ## Relations -/

/-- A field nests no deeper than what it was read from, if a relation in it does not. -/
theorem depth_of_relationValue {d : Document} : ∀ (s : RelationField) (v : s.Type),
    relationValue s d = .ok v →
    (∀ r, s.relation? v = some r → relation d = .ok r → r.toDocument.depth ≤ d.depth) →
    (s.toDocument v).depth ≤ d.depth
  | .name, _, _, _ | .op, _, _, _ | .limit, _, _, _ | .offset, _, _, _ => Nat.zero_le _
  | .header, _, h, _ => Decode.depth_of_header h
  | .tuples, _, h, _ => depth_of_tuples h
  | .directions, _, h, _ => Decode.depth_of_directionSet h
  | .predicate, f, h, _ => depth_of_function f h
  | .extensions, _, h, _ => Decode.depth_of_sequence (fun {d x} hx => by
    obtain ⟨a, b, rfl, -, hb⟩ := Decode.pair_cases hx
    have hb := depth_of_operand x.2 hb
    simp only [Document.depth, Document.depthItems] at hb ⊢
    omega) h
  | .aliases, _, h, _ => Decode.depth_of_aliasSet h
  | .operand, _, h, ih | .other, _, h, ih | .left, _, h, ih | .right, _, h, ih
  | .summarizePer, _, h, ih => ih _ rfl h

/-- A relation nests no deeper than what it was read from. -/
theorem depth_of_relation {d : Document} {r : Relation} (h : relation d = .ok r) :
    r.toDocument.depth ≤ d.depth := by
  -- on the relation, not on the document: its members may be many, but the fields say which
  -- ones count
  induction r using Relation.parts_induction generalizing d with
  | step r ih =>
    obtain ⟨hform, hparts⟩ := parts_of_relation h
    rw [Relation.toDocument_eq]
    refine Document.depth_tagged (depth_pos_of_form? hform) fun p hp => ?_
    obtain ⟨e, he, hread⟩ := hparts p hp
    refine Nat.lt_of_le_of_lt ?_ (depth_lt_of_value? he)
    exact depth_of_relationValue p.1 p.2 hread fun q hq hq' => ih p hp q hq hq'

end Held

end RelAlg
