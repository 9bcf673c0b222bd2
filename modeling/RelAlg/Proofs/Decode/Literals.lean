import RelAlg.Proofs.Decode.Depth
import RelAlg.Proofs.Document.Textual

/-!
# Where a document has literals

The places of a document where literals are read can be told without reading it, from the names of
forms and the members or items that the fields of a form take their values from.  What is read there
from a text keeps its value: a whole number is never taken for a float.

* `Held.relationScalars`, `Held.functionScalars`: the scalars where literals are read,
  in tree order;
* `Literal.Keeps`                               : a literal keeps the value of a scalar;
* `Held.forall₂_keeps_of_relation`              : every literal of a relation keeps the value
  it was read.
-/

namespace RelAlg

/-! ## Scalars of a document -/

mutual

/-- The scalars of a value: those inside of an array, or else the value itself. -/
def Document.scalars : Document → List Document
  | .array items => Document.scalarsItems items
  | d => [d]

def Document.scalarsItems : List Document → List Document
  | [] => []
  | d :: rest => Document.scalars d ++ Document.scalarsItems rest

end

theorem Document.scalarsItems_eq (items : List Document) :
    scalarsItems items = items.flatMap scalars := by
  induction items with
  | nil => rfl
  | cons d items ih => rw [scalarsItems, ih, List.flatMap_cons]

namespace Held

/-- What the values of the fields give, field by field. -/
def overFields {σ α : Type} [DecidableEq σ] [Vocabulary σ] (name : String) (fields : List σ)
    (d : Document) (f : σ → (e : Document) → e.depth < d.depth → List α) : List α :=
  fields.flatMap fun s =>
    match h : value? name fields s d with
    | some e => f s e (depth_lt_of_value? h)
    | none => []

/-- The scalars where a field of a function has literals, given those where an operand in
its place has. -/
def functionFieldScalars (operand : List Document) : FunctionField → List Document
  | .binaryOp | .unaryOp => []
  | .left | .right | .operand => operand

mutual

/-- The scalars where an operand has literals. -/
def operandScalars : Document → List Document
  | .object [(key, d)] =>
    match (Decode.knownKey key : Except ReadError OperandSort) with
    | .ok .literal => d.scalars
    | .ok .function => functionScalars d
    | .ok .attr | .error _ => []
  | _ => []
termination_by d => d.depth
decreasing_by exact Nat.lt_one_add_iff.2 (Nat.le_max_left _ _)

/-- The scalars where a function has literals. -/
def functionScalars (d : Document) : List Document :=
  match (form? "function" d : Option FunctionForm) with
  | none => []
  | some form =>
    overFields "function" form.fields d fun s e _ => functionFieldScalars (operandScalars e) s
termination_by d.depth

end

/-- The scalars where a list of extensions has literals. -/
def extensionScalars : Document → List Document
  | .array items => items.flatMap fun
    | .array [_, e] => operandScalars e
    | _ => []
  | _ => []

/-- The scalars where a field of a relation has literals, given those where a relation in
its place has. -/
def relationFieldScalars (relation : List Document) (d : Document) : RelationField → List Document
  | .tuples => d.scalars
  | .predicate => functionScalars d
  | .extensions => extensionScalars d
  | .operand | .other | .left | .right | .summarizePer => relation
  | .name | .header | .directions | .limit | .offset | .op | .aliases => []

/-- The scalars where a relation has literals. -/
def relationScalars (d : Document) : List Document :=
  match (form? "relation" d : Option RelationForm) with
  | none => []
  | some form =>
    overFields "relation" form.fields d fun s e _ => relationFieldScalars (relationScalars e) e s
termination_by d.depth

end Held

/-! ## Keeping a value -/

/-- The whole number that a literal is. -/
def Literal.whole? : Literal → Option Int
  | .integer n => some n.toInt
  | .unsigned n => some n.toNat
  | _ => none

/-- The literal is regular and keeps the value of the scalar `d`: it is written as `d`, and a whole
number stays one. -/
structure Literal.Keeps (d : Document) (l : Literal) : Prop where
  regular : l.isRegular = true
  written : l.toDocument = d
  whole : ∀ n, d = .integer n → l.whole? = some n

theorem Literal.isRegular_of_forall₂_keeps {ds : List Document} {ls : List Literal}
    (h : List.Forall₂ Keeps ds ls) : ∀ l ∈ ls, l.isRegular = true := by
  induction h with
  | nil => exact List.forall_mem_nil _
  | cons hl _ ih => exact List.forall_mem_cons.2 ⟨hl.regular, ih⟩

/-- A whole number that is read as a literal stays the number it is. -/
theorem Literal.keeps_of_ofInt? {n : Int} {l : Literal} (h : ofInt? n = some l) :
    l.Keeps (.integer n) := by
  obtain ⟨k, rfl, rfl⟩ | ⟨k, rfl, rfl, hk⟩ := ofInt?_cases h
  · exact ⟨rfl, rfl, fun _ heq => by cases heq; rfl⟩
  · exact ⟨hk, rfl, fun _ heq => by cases heq; rfl⟩

namespace Held

mutual

/-- The scalars of a literal keep the values of the scalars it was read from. -/
theorem forall₂_keeps_of_literal? : ∀ (d : Document) {l : Literal}, d.isTextual = true →
    literal? d = some l → List.Forall₂ Literal.Keeps d.scalars l.scalars
  | .null, _, _, h | .boolean _, _, _, h | .string _, _, _, h => by
    cases h
    exact .cons ⟨rfl, rfl, nofun⟩ .nil
  | .float x, _, hd, h => by
    cases h
    exact .cons ⟨hd, rfl, nofun⟩ .nil
  | .integer _, _, _, h => by
    have hkeeps := Literal.keeps_of_ofInt? h
    obtain ⟨k, rfl, -⟩ | ⟨k, rfl, -⟩ := Literal.ofInt?_cases h
    · exact .cons hkeeps .nil
    · exact .cons hkeeps .nil
  | .array items, _, hd, h => by
    obtain ⟨ls, hls, rfl⟩ := Option.map_eq_some_iff.1 h
    exact forall₂_keeps_of_literals? items hd hls

theorem forall₂_keeps_of_literals? : ∀ (ds : List Document) {ls : List Literal},
    Document.isTextualItems ds = true → literals? ds = some ls →
    List.Forall₂ Literal.Keeps (Document.scalarsItems ds) (Literal.scalarsAll ls)
  | [], _, _, h => by
    cases h
    exact .nil
  | d :: ds, _, hd, h => by
    simp only [literals?, Option.bind_eq_bind, Option.bind_eq_some_iff] at h
    obtain ⟨l, hl, ls, hls, h⟩ := h
    cases h
    obtain ⟨hd, hds⟩ := Bool.and_eq_true_iff.1 hd
    exact List.rel_append (forall₂_keeps_of_literal? d hd hl)
      (forall₂_keeps_of_literals? ds hds hls)

end

/-! ## Trees -/

/-- A value in a textual document is textual. -/
theorem isTextual_of_value? {σ : Type} [DecidableEq σ] [Vocabulary σ] {name : String}
    {fields : List σ} {s : σ} {d e : Document} (hd : d.isTextual = true)
    (h : value? name fields s d = some e) : e.isTextual = true := by
  unfold value? at h
  split at h
  · obtain ⟨key, hmem⟩ := mem_of_memberValue? h
    exact Document.isTextualMembers_iff.1 hd _ hmem
  · obtain ⟨-, hitems⟩ := Bool.and_eq_true_iff.1 hd
    exact Document.isTextualItems_iff.1 hitems _ (mem_of_itemValue? h)
  · cases h

/-- What relates the values of the fields to the fields, relates all of them. -/
theorem forall₂_overFields {σ α β : Type} {type : σ → Type} [DecidableEq σ] [Vocabulary σ]
    {name : String} {fields : List σ} {d : Document}
    {f : σ → (e : Document) → e.depth < d.depth → List α} {g : (s : σ) → type s → List β}
    {R : α → β → Prop} {parts : Parts type} (hfields : parts.map Sigma.fst = fields)
    (h : ∀ p ∈ parts, ∃ e, ∃ he : value? name fields p.1 d = some e,
      List.Forall₂ R (f p.1 e (depth_lt_of_value? he)) (g p.1 p.2)) :
    List.Forall₂ R (overFields name fields d f) (parts.flatMap fun p => g p.1 p.2) := by
  have hpaired : List.Forall₂ (fun s p => p ∈ parts ∧ p.1 = s) fields parts := by
    rw [← hfields, List.forall₂_map_left_iff, List.forall₂_same]
    exact fun p hp => ⟨hp, rfl⟩
  refine List.rel_flatMap hpaired ?_
  rintro _ p ⟨hp, rfl⟩
  obtain ⟨e, he, hR⟩ := h p hp
  dsimp only
  split
  · rename_i e' he'
    cases he.symm.trans he'
    exact hR
  · rename_i hnone
    rw [he] at hnone
    cases hnone

/-- The literals of a function keep the values of the scalars they were read from, if those of
its fields do. -/
theorem forall₂_keeps_of_function_parts {d : Document} {f : Function} (hd : d.isTextual = true)
    (h : function d = .ok f)
    (hfields : ∀ p ∈ f.parts, ∀ e, e.isTextual = true → functionValue p.1 e = .ok p.2 →
      List.Forall₂ Literal.Keeps (functionFieldScalars (operandScalars e) p.1) (p.1.scalars p.2)) :
    List.Forall₂ Literal.Keeps (functionScalars d) f.scalars := by
  obtain ⟨hform, hparts⟩ := parts_of_function h
  rw [functionScalars, hform, Function.scalars_eq]
  refine forall₂_overFields (g := fun s => s.scalars) f.map_fst_parts fun p hp => ?_
  obtain ⟨e, he, hread⟩ := hparts p hp
  exact ⟨e, he, hfields p hp e (isTextual_of_value? hd he) hread⟩

mutual

theorem forall₂_keeps_of_operand {d : Document} :
    ∀ e : Operand, d.isTextual = true → operand d = .ok e →
      List.Forall₂ Literal.Keeps (operandScalars d) e.scalars
  | .attr a, hd, h => by
    obtain ⟨_, c, rfl, ⟨_, ⟨⟩, hkey, ha⟩ | ⟨_, ⟨⟩, -⟩ | ⟨_, ⟨⟩, -⟩⟩ := operand_cases h
    rw [operandScalars, hkey, Operand.scalars]
    exact .nil
  | .function f, hd, h => by
    obtain ⟨_, c, rfl, ⟨_, ⟨⟩, -⟩ | ⟨_, ⟨⟩, hkey, hf⟩ | ⟨_, ⟨⟩, -⟩⟩ := operand_cases h
    have hc : c.isTextual = true := Document.isTextualMembers_iff.1 hd _ List.mem_cons_self
    rw [operandScalars, hkey, Operand.scalars]
    exact forall₂_keeps_of_function f hc hf
  | .literal l, hd, h => by
    obtain ⟨_, c, rfl, ⟨_, ⟨⟩, -⟩ | ⟨_, ⟨⟩, -⟩ | ⟨_, ⟨⟩, hkey, hl⟩⟩ := operand_cases h
    have hc : c.isTextual = true := Document.isTextualMembers_iff.1 hd _ List.mem_cons_self
    rw [operandScalars, hkey, Operand.scalars]
    exact forall₂_keeps_of_literal? c hc (literal_eq_ok_iff.1 hl)

/-- The literals of a function keep the values of the scalars they were read from. -/
theorem forall₂_keeps_of_function {d : Document} :
    ∀ f : Function, d.isTextual = true → function d = .ok f →
      List.Forall₂ Literal.Keeps (functionScalars d) f.scalars
  | .binary op left right, hd, h => by
    refine forall₂_keeps_of_function_parts hd h ?_
    simp only [Function.parts, List.forall_mem_cons]
    exact ⟨fun _ _ _ => .nil, fun _ => forall₂_keeps_of_operand left,
      fun _ => forall₂_keeps_of_operand right, nofun⟩
  | .unary op e, hd, h => by
    refine forall₂_keeps_of_function_parts hd h ?_
    simp only [Function.parts, List.forall_mem_cons]
    exact ⟨fun _ _ _ => .nil, fun _ => forall₂_keeps_of_operand e, nofun⟩
  | .tautology, hd, h | .contradiction, hd, h => forall₂_keeps_of_function_parts hd h nofun

end

theorem forall₂_keeps_of_tuples {d : Document} {ts : List Tuple} (hd : d.isTextual = true)
    (h : Decode.sequence (Decode.sequence literal) d = .ok ts) :
    List.Forall₂ Literal.Keeps d.scalars (ts.flatMap Literal.scalarsAll) := by
  obtain ⟨items, rfl, hitems⟩ := Decode.sequence_cases h
  have hrows := (List.forall₂_and_left items _).2 ⟨Document.isTextualItems_iff.1 hd, hitems⟩
  rw [Document.scalars, Document.scalarsItems_eq]
  refine List.rel_flatMap hrows ?_
  rintro row t ⟨hrow, ht⟩
  obtain ⟨items, rfl, hitems⟩ := row_cases ht
  exact forall₂_keeps_of_literals? items hrow hitems

theorem forall₂_keeps_of_extensions {d : Document} {es : List (String × Operand)}
    (hd : d.isTextual = true)
    (h : Decode.sequence (Decode.pair .held Decode.string operand) d = .ok es) :
    List.Forall₂ Literal.Keeps (extensionScalars d) (es.flatMap fun x => x.2.scalars) := by
  obtain ⟨items, rfl, hitems⟩ := Decode.sequence_cases h
  have hpairs := (List.forall₂_and_left items _).2 ⟨Document.isTextualItems_iff.1 hd, hitems⟩
  rw [extensionScalars]
  refine List.rel_flatMap hpairs ?_
  rintro d x ⟨hd, hx⟩
  obtain ⟨name, e, rfl, -, he⟩ := Decode.pair_cases hx
  have hetext : e.isTextual = true := Document.isTextualItems_iff.1 hd e (by simp)
  exact forall₂_keeps_of_operand x.2 hetext he

/-- The literals of a field keep the values of the scalars they were read from, if those of a
relation in it do. -/
theorem forall₂_keeps_of_relationValue {d : Document} (hd : d.isTextual = true) :
    ∀ (s : RelationField) (v : s.Type), relationValue s d = .ok v →
    (∀ r, s.relation? v = some r → relation d = .ok r →
      List.Forall₂ Literal.Keeps (relationScalars d) r.scalars) →
    List.Forall₂ Literal.Keeps (relationFieldScalars (relationScalars d) d s) (s.scalars v)
  | .tuples, _, h, _ => forall₂_keeps_of_tuples hd h
  | .predicate, f, h, _ => forall₂_keeps_of_function f hd h
  | .extensions, _, h, _ => forall₂_keeps_of_extensions hd h
  | .operand, _, h, ih | .other, _, h, ih | .left, _, h, ih | .right, _, h, ih
  | .summarizePer, _, h, ih => ih _ rfl h
  | .name, _, _, _ | .header, _, _, _ | .directions, _, _, _ | .limit, _, _, _ | .offset, _, _, _
  | .op, _, _, _ | .aliases, _, _, _ => .nil

/-- Every literal of a relation keeps the value of the scalar it was read from. -/
theorem forall₂_keeps_of_relation {d : Document} {r : Relation} (hd : d.isTextual = true)
    (h : relation d = .ok r) : List.Forall₂ Literal.Keeps (relationScalars d) r.scalars := by
  induction r using Relation.parts_induction generalizing d with
  | step r ih =>
    obtain ⟨hform, hparts⟩ := parts_of_relation h
    rw [relationScalars, hform, Relation.scalars_eq]
    refine forall₂_overFields (g := fun s => s.scalars) r.map_fst_parts fun p hp => ?_
    obtain ⟨e, he, hread⟩ := hparts p hp
    have hetext := isTextual_of_value? hd he
    exact ⟨e, he,
      forall₂_keeps_of_relationValue hetext p.1 p.2 hread fun q hq => ih p hp q hq hetext⟩

end Held

end RelAlg
