import RelAlg.Proofs.Algebra.Arity
import RelAlg.Proofs.Sexp.Separation

/-!
# Tables in the output

The lists of a canonical s-expression that stand for materialized relations can be told from all
others by their shape: three elements, of which the first is the symbol `materialized`.  Names of
attributes and extensions are symbols too, but head pairs only.  So the output has one such list for
each materialized relation of the tree, in the same order, and its rows are as long as its header if
the tuples fit the header.

* `Sexp.lists`, `Sexp.tables`  : all lists in an s-expression, and those with that shape;
* `Relation.tables_translate`  : the tables in the output are the materialized relations
  of the tree;
* `ofNode_rectangular`         : no ragged table in the output of a relation that was read or built.
-/

namespace RelAlg

/-! ## Lists of a certain shape -/

namespace Sexp

mutual

/-- All lists in an s-expression, each in front of those in it. -/
def lists : Sexp → List (List Sexp)
  | list items => items :: listsAll items
  | _ => []

def listsAll : List Sexp → List (List Sexp)
  | [] => []
  | s :: rest => lists s ++ listsAll rest

end

/-- The header and the rows, if the list has the shape of a materialized relation. -/
def table? : List Sexp → Option (Sexp × Sexp)
  | [symbol tag, header, rows] => if tag = "materialized" then some (header, rows) else none
  | _ => none

/-- The headers and the rows of all lists with the shape of a materialized relation. -/
def tables (s : Sexp) : List (Sexp × Sexp) := s.lists.filterMap table?

theorem listsAll_eq_flatMap (ss : List Sexp) : listsAll ss = ss.flatMap lists := by
  induction ss with
  | nil => rfl
  | cons s rest ih => rw [listsAll, ih, List.flatMap_cons]

theorem table?_eq_some_iff {items : List Sexp} {header rows : Sexp} :
    table? items = some (header, rows) ↔ items = [symbol "materialized", header, rows] := by
  constructor
  · intro h
    unfold table? at h
    split at h
    · split at h
      · rename_i htag
        cases h
        rw [htag]
      · cases h
    · cases h
  · rintro rfl
    rfl

theorem mem_tables_iff {s header rows : Sexp} :
    (header, rows) ∈ s.tables ↔ [symbol "materialized", header, rows] ∈ s.lists := by
  rw [tables, List.mem_filterMap]
  simp only [table?_eq_some_iff]
  exact ⟨fun ⟨_, h, heq⟩ => heq ▸ h, fun h => ⟨_, h, rfl⟩⟩

/-- The tables of a list are the list itself, if it has the shape, and those of its elements. -/
theorem tables_list (items : List Sexp) :
    (list items).tables = (table? items).toList ++ items.flatMap tables := by
  rw [tables, lists, listsAll_eq_flatMap, List.filterMap_cons, List.filterMap_flatMap]
  cases table? items <;> rfl

/-- A list without a symbol at its head does not have the shape. -/
theorem tables_untagged {items : List Sexp} (h : ∀ name, items.head? ≠ some (symbol name)) :
    (list items).tables = items.flatMap tables := by
  rw [tables_list]
  cases htable : table? items with
  | none => rfl
  | some t =>
    rw [table?_eq_some_iff.1 htable] at h
    exact absurd rfl (h _)

/-- Nor does a list with another symbol at its head. -/
theorem tables_tagged {tag : String} {parts : List Sexp} (h : tag ≠ "materialized") :
    (list (symbol tag :: parts)).tables = parts.flatMap tables := by
  rw [tables_list, List.flatMap_cons]
  cases htable : table? (symbol tag :: parts) with
  | none => rfl
  | some t =>
    have hhead := (List.cons.inj (table?_eq_some_iff.1 htable)).1
    exact absurd (symbol.inj hhead) h

/-- Nor does a pair, whatever its head is. -/
theorem tables_pair (name : String) (s : Sexp) : (list [symbol name, s]).tables = s.tables := by
  rw [tables_list]
  exact List.append_nil s.tables

/-- A list of lists has the tables of these. -/
theorem tables_list_map {α : Type} {f : α → Sexp} (xs : List α) (h : ∀ x, (f x).isList = true) :
    (list (xs.map f)).tables = xs.flatMap fun x => (f x).tables := by
  rw [tables_untagged, List.flatMap_map]
  intro name hhead
  obtain ⟨x, -, hx⟩ := List.mem_map.1 (List.mem_of_head? hhead)
  have hlist := h x
  rw [hx] at hlist
  cases hlist

end Sexp

/-! ## Tables of translations -/

open Sexp

mutual

/-- A literal turns into lists of atoms, none of which is a symbol. -/
theorem Literal.tables_translate : ∀ l : Literal, l.translate.tables = []
  | .array items => by
    rw [Literal.translate, tables_untagged, Literal.tables_translateAll items]
    intro name hhead
    cases items with
    | nil => cases hhead
    | cons l rest => cases l <;> cases hhead
  | .null | .boolean _ | .integer _ | .unsigned _ | .float _ | .string _ => rfl

theorem Literal.tables_translateAll : ∀ ls : List Literal,
    (Literal.translateAll ls).flatMap tables = []
  | [] => rfl
  | l :: rest => by
    rw [Literal.translateAll, List.flatMap_cons, Literal.tables_translate l,
      Literal.tables_translateAll rest]
    rfl

end

/-- A row is written like an array. -/
theorem Tuple.tables_translate (t : Tuple) : (Tuple.translate t).tables = [] :=
  Literal.tables_translate (.array t)

theorem Attribute.tables_translate (a : Attribute) : a.translate.tables = [] :=
  tables_pair "attr" (.symbol a.name)

theorem Header.tables_translate (h : Header) : h.translate.tables = [] := by
  rw [Header.translate, tables_list_map _ fun _ => rfl]
  exact List.flatMap_eq_nil_iff.2 fun a _ => a.tables_translate

theorem Header.tables_declaration (h : Header) : h.declaration.tables = [] := by
  rw [Header.declaration, tables_list_map _ fun _ => rfl]
  exact List.flatMap_eq_nil_iff.2 fun a _ => tables_pair a.name (.kind a.kind)

theorem DirectionSet.tables_translate (s : DirectionSet) : s.translate.tables = [] := by
  rw [DirectionSet.translate, tables_list_map _ fun _ => rfl]
  refine List.flatMap_eq_nil_iff.2 fun d _ => ?_
  rw [Direction.translate, tables_pair, d.attr.tables_translate]

theorem BinaryOp.tag_ne_materialized (op : BinaryOp) : op.tag ≠ "materialized" := by
  cases op <;> decide

mutual

theorem Operand.tables_translate : ∀ e : Operand, e.translate.tables = []
  | .attr a => a.tables_translate
  | .function f => Function.tables_translate f
  | .literal l => l.tables_translate

/-- No relation is part of a function. -/
theorem Function.tables_translate : ∀ f : Function, f.translate.tables = []
  | .binary op left right => by
    rw [Function.translate, tables_tagged op.tag_ne_materialized, List.flatMap_cons,
      List.flatMap_singleton, Operand.tables_translate left, Operand.tables_translate right]
    rfl
  | .unary op operand => by
    rw [Function.translate, tables_pair, Operand.tables_translate operand]
  | .tautology | .contradiction => rfl

end

theorem tables_extensionsTranslate (extensions : List (String × Operand)) :
    (extensionsTranslate extensions).tables = [] := by
  rw [extensionsTranslate, tables_list_map _ fun _ => rfl]
  exact List.flatMap_eq_nil_iff.2 fun x _ => (tables_pair x.1 _).trans x.2.tables_translate

/-- The header and the rows of the list for a materialized relation. -/
def Table.translate (t : Table) : Sexp × Sexp :=
  (t.header.declaration, .list (t.tuples.map Tuple.translate))

theorem Relation.tables_translate_materialized (header : Header) (tuples : List Tuple) :
    (Relation.materialized header tuples).translate.tables
      = [Table.translate ⟨header, tuples⟩] := by
  have hrows : (Sexp.list (tuples.map Tuple.translate)).tables = [] := by
    rw [tables_list_map _ fun _ => rfl]
    exact List.flatMap_eq_nil_iff.2 fun t _ => Tuple.tables_translate t
  rw [Relation.translate, tables_list, List.flatMap_cons, List.flatMap_cons, List.flatMap_singleton,
    header.tables_declaration, hrows]
  rfl

/-- An operation shows the tables of its two parts. -/
theorem tables_operation {tag : String} (s t : Sexp) (h : tag ≠ "materialized") :
    (list [symbol tag, s, t]).tables = s.tables ++ t.tables := by
  rw [tables_tagged h, List.flatMap_cons, List.flatMap_singleton]

/-- The tables in the output are the materialized relations of the tree, in the same order. -/
theorem Relation.tables_translate (r : Relation) :
    r.translate.tables = r.tables.map Table.translate := by
  induction r with
  | base name header =>
    rw [Relation.translate, tables_operation _ _ (by decide), header.tables_declaration]
    rfl
  | materialized header tuples => exact tables_translate_materialized header tuples
  | order operand directions ih =>
    rw [Relation.translate, tables_operation _ _ (by decide), directions.tables_translate,
      List.append_nil, ih, Relation.tables]
  | limit operand n ih | offset operand n ih =>
    rw [Relation.translate, tables_operation _ _ (by decide), ih, Relation.tables]
    exact List.append_nil _
  | reverse operand ih => rw [Relation.translate, tables_pair, ih, Relation.tables]
  | deletion operand other ih₁ ih₂ | insertion operand other ih₁ ih₂
  | summarization operand other ih₁ ih₂ =>
    rw [Relation.translate, tables_operation _ _ (by decide), ih₁, ih₂, Relation.tables,
      List.map_append]
  | combine op left right ih₁ ih₂ =>
    rw [Relation.translate, tables_operation _ _ (op.tag_ne (by decide)), ih₁, ih₂, Relation.tables,
      List.map_append]
  | projection operand header ih =>
    rw [Relation.translate, tables_operation _ _ (by decide), header.tables_translate,
      List.append_nil, ih, Relation.tables]
  | restriction operand predicate ih =>
    rw [Relation.translate, tables_operation _ _ (by decide), predicate.tables_translate,
      List.append_nil, ih, Relation.tables]
  | extension operand extensions ih =>
    rw [Relation.translate, tables_operation _ _ (by decide), tables_extensionsTranslate,
      List.append_nil, ih, Relation.tables]
  | rename operand aliases ih =>
    rw [Relation.translate, tables_operation _ _ (by decide), ih, Relation.tables]
    exact List.append_nil _

theorem Literal.length_translateAll (ls : List Literal) :
    (Literal.translateAll ls).length = ls.length := by
  induction ls with
  | nil => rfl
  | cons l rest ih => rw [Literal.translateAll, List.length_cons, List.length_cons, ih]

/-- Every row of the list for a rectangular table is as long as its header. -/
theorem Table.IsRectangular.translate {t : Table} (h : t.IsRectangular) :
    ∃ hs rs, t.translate = (.list hs, .list rs) ∧
      ∀ row ∈ rs, ∃ cells, row = .list cells ∧ cells.length = hs.length := by
  refine ⟨_, _, rfl, fun row hrow => ?_⟩
  obtain ⟨values, hvalues, rfl⟩ := List.mem_map.1 hrow
  refine ⟨_, rfl, ?_⟩
  rw [Literal.length_translateAll, List.length_map]
  exact h values hvalues

/-! ## No ragged tables -/

/-- A relation that was read or built passes its check.  In its canonical s-expression the lists for
materialized relations are those for the materialized relations of the tree, in the same order, and
each of their rows has as many elements as their header. -/
theorem ofNode_rectangular {r : Relation} (h : r.Obtained) :
    r.validate = .ok () ∧
    ∃ s, Sexp.ofNode .canonical (.relation r) = .ok s ∧
      s.tables = r.tables.map Table.translate ∧
      ∀ header rows, [.symbol "materialized", header, rows] ∈ s.lists →
        ∃ hs rs, header = .list hs ∧ rows = .list rs ∧
          ∀ row ∈ rs, ∃ cells, row = .list cells ∧ cells.length = hs.length := by
  refine ⟨h.validate, r.translate, Sexp.ofNode_relation r, r.tables_translate, ?_⟩
  intro header rows hmem
  rw [← mem_tables_iff, r.tables_translate] at hmem
  obtain ⟨t, ht, htranslate⟩ := List.mem_map.1 hmem
  obtain ⟨hs, rs, heq, hrows⟩ := (Relation.validate_eq_ok_iff.1 h.validate t ht).translate
  rw [htranslate, Prod.mk.injEq] at heq
  exact ⟨hs, rs, heq.1, heq.2, hrows⟩

/-- One row of two columns. -/
def oneRow : Table := ⟨⟨[⟨"x", .integer⟩, ⟨"materialized", .string⟩]⟩, [[.integer 1, .null]]⟩

/-- The table, subtracted from a base relation.  Names and an extension pretend to be tables. -/
def disguised : Relation :=
  ((Relation.base "materialized" ⟨[⟨"materialized", .integer⟩]⟩).difference
    (.materialized oneRow.header oneRow.tuples)).extend
    [("materialized", .literal (.array [.string "materialized", .array [], .array [.array []]]))]

/-- Its output has one table, which is rectangular. -/
theorem ofNode_rectangular_disguised :
    disguised.Obtained ∧ disguised.validate = .ok () ∧
    ∃ s, Sexp.ofNode .canonical (.relation disguised) = .ok s ∧
      s.tables = [(.list
        [.list [.symbol "x", .kind .integer], .list [.symbol "materialized", .kind .string]],
        .list [.list [.integer 1, .null]])] := by
  have htable : Relation.materialized? oneRow.header oneRow.tuples
      = .ok (.materialized oneRow.header oneRow.tuples) := rfl
  have hobtained : disguised.Obtained :=
    ((Relation.Obtained.base _ _).difference (.materialized htable)).extend _
  obtain ⟨hvalid, s, hs, htables, -⟩ := ofNode_rectangular hobtained
  exact ⟨hobtained, hvalid, s, hs, htables⟩

end RelAlg
