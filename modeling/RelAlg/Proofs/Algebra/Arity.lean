import RelAlg.Emit
import RelAlg.Proofs.Except

/-!
# Tuples that fit their headers

All that can be wrong with a tree are the lengths of its tuples.  Only materialized relations hold
tuples, so checking a tree comes down to checking the tables at its leaves one after the other.  The
check is made once, where a text is read or a relation is materialized: no operation can spoil it.

* `Table`, `Relation.tables`         : the materialized relations of a tree, from left to right;
* `Table.IsRectangular`              : every tuple has one value for each attribute;
* `Relation.failure?_validate`       : a tree fails its check as the first of its tables that does;
* `Relation.validate_eq_ok_iff`      : a tree passes exactly when all of its tables are rectangular;
* `Relation.materialized?_eq_ok_iff` : what can be materialized is a rectangular table;
* `Relation.Obtained`                : the ways to come by a relation, by reading or by building;
* `Relation.Obtained.validate`       : whatever is read or built passes its check.
-/

namespace RelAlg

/-! ## Tables -/

/-- What a materialized relation holds. -/
structure Table where
  header : Header
  tuples : List Tuple

namespace Table

/-- Every tuple has one value for each attribute. -/
def IsRectangular (t : Table) : Prop := ∀ row ∈ t.tuples, row.length = t.header.length

/-- The first tuple that does not fit the header. -/
def fault? (t : Table) : Option TupleArity := TupleArity.firstFrom t.header.length 0 t.tuples

end Table

theorem TupleArity.firstFrom_eq_none_iff {width index : Nat} {tuples : List Tuple} :
    firstFrom width index tuples = none ↔ ∀ row ∈ tuples, row.length = width := by
  induction tuples generalizing index with
  | nil => simp [firstFrom]
  | cons row rest ih =>
    rw [firstFrom, List.forall_mem_cons]
    split
    · rename_i hrow
      rw [ih]
      exact ⟨fun h => ⟨hrow, h⟩, And.right⟩
    · rename_i hrow
      exact ⟨nofun, fun h => absurd h.1 hrow⟩

theorem Table.fault?_eq_none_iff {t : Table} : t.fault? = none ↔ t.IsRectangular :=
  TupleArity.firstFrom_eq_none_iff

/-! ## Trees -/

namespace Relation

/-- The materialized relations of a tree, from left to right. -/
def tables : Relation → List Table
  | .base _ _ => []
  | .materialized header tuples => [⟨header, tuples⟩]
  | .order operand _ | .limit operand _ | .offset operand _ | .reverse operand
  | .projection operand _ | .restriction operand _ | .extension operand _
  | .rename operand _ => operand.tables
  | .deletion operand other | .insertion operand other => operand.tables ++ other.tables
  | .combine _ left right => left.tables ++ right.tables
  | .summarization operand per => operand.tables ++ per.tables

/-- The check of one table fails with its first faulty tuple. -/
theorem failure?_checkArity (header : Header) (tuples : List Tuple) :
    failure? (checkArity header tuples) = Table.fault? ⟨header, tuples⟩ := by
  rw [checkArity, Table.fault?]
  cases TupleArity.firstFrom header.length 0 tuples <;> rfl

/-- Two trees that are checked in a row fail as the first of all their tables that does. -/
theorem failure?_checks {a b : Relation} {as bs : List Table}
    (ha : failure? a.validate = as.findSome? Table.fault?)
    (hb : failure? b.validate = bs.findSome? Table.fault?) :
    failure? (a.validate >>= fun _ => b.validate) = (as ++ bs).findSome? Table.fault? := by
  rw [failure?_bind a.validate fun _ => hb, ha, List.findSome?_append]

/-- A tree fails its check as the first of its tables that does. -/
theorem failure?_validate (r : Relation) :
    failure? r.validate = r.tables.findSome? Table.fault? := by
  induction r with
  | base => rfl
  | materialized header tuples =>
    rw [validate, failure?_checkArity, tables, findSome?_cons_or, List.findSome?_nil,
      Option.or_none]
  | order _ _ ih | limit _ _ ih | offset _ _ ih | reverse _ ih | projection _ _ ih
  | restriction _ _ ih | extension _ _ ih | rename _ _ ih => exact ih
  | deletion _ _ ih₁ ih₂ | insertion _ _ ih₁ ih₂ | combine _ _ _ ih₁ ih₂
  | summarization _ _ ih₁ ih₂ => exact failure?_checks ih₁ ih₂

/-- A tree passes its check exactly when all of its tables are rectangular. -/
theorem validate_eq_ok_iff {r : Relation} :
    r.validate = .ok () ↔ ∀ t ∈ r.tables, t.IsRectangular := by
  have hfault : (∀ t ∈ r.tables, t.fault? = none) ↔ ∀ t ∈ r.tables, t.IsRectangular :=
    forall₂_congr fun _ _ => Table.fault?_eq_none_iff
  rw [← hfault, ← List.findSome?_eq_none_iff, ← failure?_validate, failure?_eq_none_iff]
  exact ⟨fun h => ⟨(), h⟩, fun ⟨_, h⟩ => h⟩

/-- What can be materialized is a rectangular table. -/
theorem materialized?_eq_ok_iff {header : Header} {tuples : List Tuple} {r : Relation} :
    materialized? header tuples = .ok r ↔
      r = .materialized header tuples ∧ Table.IsRectangular ⟨header, tuples⟩ := by
  have hcheck : checkArity header tuples = .ok () ↔ Table.IsRectangular ⟨header, tuples⟩ :=
    (@validate_eq_ok_iff (.materialized header tuples)).trans List.forall_mem_singleton
  rw [materialized?, bind_eq_ok_iff]
  constructor
  · rintro ⟨_, hok, h⟩
    cases h
    exact ⟨rfl, hcheck.1 hok⟩
  · rintro ⟨rfl, hrect⟩
    exact ⟨(), hcheck.2 hrect, rfl⟩

end Relation

/-! ## Relations that are read or built -/

theorem parseRelation_eq_ok_iff {format : InputFormat} {text : String} {r : Relation} :
    parseRelation format text = .ok r ↔
      decodeRelation format text = .ok r ∧ r.validate = .ok () := by
  rw [parseRelation, bind_eq_ok_iff]
  constructor
  · rintro ⟨q, hq, h⟩
    split at h
    · rename_i hvalid
      cases h
      exact ⟨hq, hvalid⟩
    · cases h
  · rintro ⟨hr, hvalid⟩
    refine ⟨r, hr, ?_⟩
    rw [hvalid]
    rfl

namespace Relation

/-- Read from a document, or built from base relations, checked tables and relations
that were read. -/
inductive Obtained : Relation → Prop where
  | parsed {format : InputFormat} {text : String} {r : Relation}
    (h : parseRelation format text = .ok r) : Obtained r
  | base (name : String) (header : Header) : Obtained (.base name header)
  | materialized {header : Header} {tuples : List Tuple} {r : Relation}
    (h : materialized? header tuples = .ok r) : Obtained r
  | sortBy {r : Relation} (h : Obtained r) (directions : DirectionSet) :
    Obtained (r.sortBy directions)
  | take {r : Relation} (h : Obtained r) (n : UInt64) : Obtained (r.take n)
  | skip {r : Relation} (h : Obtained r) (n : UInt64) : Obtained (r.skip n)
  | reverse {r : Relation} (h : Obtained r) : Obtained (.reverse r)
  | delete {r s : Relation} (h : Obtained r) (hs : Obtained s) : Obtained (r.delete s)
  | insert {r s : Relation} (h : Obtained r) (hs : Obtained s) : Obtained (r.insert s)
  | combine {r s : Relation} (op : Combinator) (h : Obtained r) (hs : Obtained s) :
    Obtained (.combine op r s)
  | join {r s : Relation} (h : Obtained r) (hs : Obtained s) : Obtained (r.join s)
  | product {r s : Relation} (h : Obtained r) (hs : Obtained s) : Obtained (r.product s)
  | union {r s : Relation} (h : Obtained r) (hs : Obtained s) : Obtained (r.union s)
  | intersect {r s : Relation} (h : Obtained r) (hs : Obtained s) : Obtained (r.intersect s)
  | difference {r s : Relation} (h : Obtained r) (hs : Obtained s) : Obtained (r.difference s)
  | project {r : Relation} (h : Obtained r) (header : Header) : Obtained (r.project header)
  | restrict {r : Relation} (h : Obtained r) (predicate : Function) :
    Obtained (r.restrict predicate)
  | extend {r : Relation} (h : Obtained r) (extensions : List (String × Operand)) :
    Obtained (r.extend extensions)
  | rename {r : Relation} (h : Obtained r) (aliases : AliasSet) : Obtained (.rename r aliases)
  | summarize {r s : Relation} (h : Obtained r) (hs : Obtained s) : Obtained (r.summarize s)

/-- Two checks in a row pass if both do. -/
theorem checks_eq_ok {r s : Relation} (hr : r.validate = .ok ()) (hs : s.validate = .ok ()) :
    (r.validate >>= fun _ => s.validate) = .ok () := by
  rw [hr]
  exact hs

/-- Whatever is read or built passes its check. -/
theorem Obtained.validate {r : Relation} (h : Obtained r) : r.validate = .ok () := by
  induction h with
  | parsed h => exact (parseRelation_eq_ok_iff.1 h).2
  | base => rfl
  | materialized h =>
    obtain ⟨rfl, hrect⟩ := materialized?_eq_ok_iff.1 h
    exact validate_eq_ok_iff.2 (List.forall_mem_singleton.2 hrect)
  | sortBy _ _ ih | take _ _ ih | skip _ _ ih | reverse _ ih | project _ _ ih | restrict _ _ ih
  | extend _ _ ih | rename _ _ ih => exact ih
  | delete _ _ ih₁ ih₂ | insert _ _ ih₁ ih₂ | combine _ _ _ ih₁ ih₂ | join _ _ ih₁ ih₂
  | product _ _ ih₁ ih₂ | union _ _ ih₁ ih₂ | intersect _ _ ih₁ ih₂ | difference _ _ ih₁ ih₂
  | summarize _ _ ih₁ ih₂ => exact checks_eq_ok ih₁ ih₂

end Relation

end RelAlg
