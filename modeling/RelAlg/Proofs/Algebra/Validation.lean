import Mathlib.Logic.Relation
import RelAlg.Node.Basic
import RelAlg.Proofs.Algebra.Arity

/-!
# What the check of a tree reports

A tree is checked table by table from left to right, and a table tuple by tuple.  The check
therefore succeeds exactly when every materialized relation that occurs in the tree is rectangular,
however deep it lies, and otherwise tells of the first tuple, in the first table, that does not fit.

* `Table.OccursIn`                     : a table found by going from relations to their operands;
* `Relation.mem_tables_iff_occursIn`   : these are the tables of the tree;
* `Table.FirstMisfit`                  : the first tuple that does not fit its header, as an error;
* `Relation.validate_eq_error_iff`     : the table and the tuple that a failed check tells of;
* `validate_outcome`                   : when a check succeeds and what it reports when it does not.
-/

namespace RelAlg

/-! ## Occurrence -/

/-- `q` stands in a slot of `r`. -/
def Relation.HasOperand (r q : Relation) : Prop := ∃ f, r.field f = some (.relation q)

/-- Going from relations to their operands leads from the tree to a materialized relation
with this content. -/
def Table.OccursIn (t : Table) (r : Relation) : Prop :=
  Relation.ReflTransGen Relation.HasOperand r (.materialized t.header t.tuples)

namespace Relation

/-- The tables of an operand are tables of the tree. -/
theorem mem_tables_of_hasOperand {r q : Relation} {t : Table} (h : r.HasOperand q)
    (ht : t ∈ q.tables) : t ∈ r.tables := by
  obtain ⟨f, hf⟩ := h
  cases r <;> cases f <;> simp [field] at hf <;> subst hf <;> simp [tables, ht]

/-- What is found below an operand is found below the tree. -/
theorem occursIn_of_slot {r q : Relation} {t : Table} (f : Field)
    (hf : r.field f = some (.relation q)) (h : t.OccursIn q) : t.OccursIn r :=
  .head ⟨f, hf⟩ h

theorem occursIn_of_mem_tables {r : Relation} {t : Table} (h : t ∈ r.tables) : t.OccursIn r := by
  induction r with
  | base => cases h
  | materialized header tuples =>
    rw [List.mem_singleton.1 h]
    exact .refl
  | order _ _ ih | limit _ _ ih | offset _ _ ih | reverse _ ih | projection _ _ ih
  | restriction _ _ ih | extension _ _ ih | rename _ _ ih =>
    exact occursIn_of_slot .operand rfl (ih h)
  | deletion _ _ ih₁ ih₂ | insertion _ _ ih₁ ih₂ =>
    rcases List.mem_append.1 h with h | h
    · exact occursIn_of_slot .operand rfl (ih₁ h)
    · exact occursIn_of_slot .other rfl (ih₂ h)
  | combine _ _ _ ih₁ ih₂ =>
    rcases List.mem_append.1 h with h | h
    · exact occursIn_of_slot .left rfl (ih₁ h)
    · exact occursIn_of_slot .right rfl (ih₂ h)
  | summarization _ _ ih₁ ih₂ =>
    rcases List.mem_append.1 h with h | h
    · exact occursIn_of_slot .operand rfl (ih₁ h)
    · exact occursIn_of_slot .summarizePer rfl (ih₂ h)

/-- The tables of a tree are those that occur in it. -/
theorem mem_tables_iff_occursIn {r : Relation} {t : Table} : t ∈ r.tables ↔ t.OccursIn r := by
  constructor
  · exact occursIn_of_mem_tables
  · intro h
    induction h using Relation.ReflTransGen.head_induction_on with
    | refl => exact List.mem_singleton_self t
    | head hstep _ ih => exact mem_tables_of_hasOperand hstep ih

end Relation

/-! ## The first misfit -/

/-- The error tells of the first tuple that does not fit: its position, the length of the header
and its own. -/
def Table.FirstMisfit (t : Table) (e : TupleArity) : Prop :=
  ∃ front row back, t.tuples = front ++ row :: back ∧ (∀ x ∈ front, x.length = t.header.length) ∧
    row.length ≠ t.header.length ∧ e = ⟨front.length, t.header.length, row.length⟩

theorem TupleArity.firstFrom_eq_some_iff {width index : Nat} {tuples : List Tuple}
    {e : TupleArity} :
    firstFrom width index tuples = some e ↔ ∃ front row back, tuples = front ++ row :: back ∧
      (∀ x ∈ front, x.length = width) ∧ row.length ≠ width ∧
      e = ⟨index + front.length, width, row.length⟩ := by
  constructor
  · intro h
    induction tuples generalizing index with
    | nil => cases h
    | cons row rest ih =>
      rw [firstFrom] at h
      split at h
      · rename_i hrow
        obtain ⟨front, misfit, back, rfl, hfront, hmisfit, rfl⟩ := ih h
        refine ⟨row :: front, misfit, back, rfl, List.forall_mem_cons.2 ⟨hrow, hfront⟩, hmisfit, ?_⟩
        rw [List.length_cons, Nat.add_assoc, Nat.add_comm 1]
      · rename_i hrow
        cases h
        exact ⟨[], row, rest, rfl, List.forall_mem_nil _, hrow, rfl⟩
  · rintro ⟨front, row, back, rfl, hfront, hrow, rfl⟩
    induction front generalizing index with
    | nil => rw [List.nil_append, firstFrom, if_neg hrow, List.length_nil, Nat.add_zero]
    | cons x front ih =>
      obtain ⟨hx, hfront⟩ := List.forall_mem_cons.1 hfront
      rw [List.cons_append, firstFrom, if_pos hx, ih hfront, List.length_cons, Nat.add_assoc,
        Nat.add_comm 1]

theorem Table.fault?_eq_some_iff {t : Table} {e : TupleArity} :
    t.fault? = some e ↔ t.FirstMisfit e := by
  rw [fault?, TupleArity.firstFrom_eq_some_iff]
  simp only [Nat.zero_add]
  rfl

/-- A failed check tells of the first misfit of the first table that is not rectangular. -/
theorem Relation.validate_eq_error_iff {r : Relation} {e : TupleArity} :
    r.validate = .error e ↔ ∃ before t after, r.tables = before ++ t :: after ∧
      (∀ b ∈ before, b.IsRectangular) ∧ t.FirstMisfit e := by
  rw [← failure?_eq_some_iff, failure?_validate, List.findSome?_eq_some_iff]
  simp only [Table.fault?_eq_none_iff, Table.fault?_eq_some_iff]
  constructor
  · rintro ⟨before, t, after, htables, hmisfit, hbefore⟩
    exact ⟨before, t, after, htables, hbefore, hmisfit⟩
  · rintro ⟨before, t, after, htables, hbefore, hmisfit⟩
    exact ⟨before, t, after, htables, hmisfit, hbefore⟩

/-- The check of a tree succeeds exactly when every materialized relation that occurs in it is
rectangular.  Otherwise it reports, of the first table from the left that is not, the first tuple
whose length is not that of the header, with its position and both lengths. -/
theorem validate_outcome (r : Relation) :
    (r.validate = .ok () ↔ ∀ t : Table, t.OccursIn r → t.IsRectangular) ∧
    ∀ e, r.validate = .error e ↔ ∃ before t after, r.tables = before ++ t :: after ∧
      (∀ b ∈ before, b.IsRectangular) ∧ t.FirstMisfit e := by
  refine ⟨?_, fun e => Relation.validate_eq_error_iff⟩
  rw [Relation.validate_eq_ok_iff]
  exact forall_congr' fun t => imp_congr_left Relation.mem_tables_iff_occursIn

end RelAlg
