import RelAlg.Rule

/-!
# Registries

A registry gives at most one rule to each node kind.

* `Registry`          : entries in strictly increasing order of kinds, so that equal tables
  are equal values;
* `Registry.ofEntries`: the table with the given entries, or the first kind that is given twice;
* `Registry.canonical`: the rules for every kind except sets of aliases.
-/

namespace RelAlg

/-! ## Entries in kind order -/

/-- A rule for a kind that already has one. -/
structure DuplicateRule where
  kind : NodeKind
deriving DecidableEq

namespace DuplicateRule

def message (e : DuplicateRule) : String :=
  s!"[SX002] Duplicate rule for node kind '{Vocabulary.word e.kind}'"

end DuplicateRule

/-- Strictly increasing kinds. -/
def KindOrdered (entries : List (NodeKind × Rule)) : Prop :=
  entries.Pairwise fun a b => a.1.rank < b.1.rank

/-- A table of rules, sorted by kind. -/
structure Registry where
  entries : List (NodeKind × Rule)
  ordered : KindOrdered entries

/-- The entries with one more in its place, `none` if its kind is taken. -/
def insertEntry (e : NodeKind × Rule) : List (NodeKind × Rule) → Option (List (NodeKind × Rule))
  | [] => some [e]
  | d :: rest =>
    if e.1.rank < d.1.rank then some (e :: d :: rest)
    else if d.1.rank < e.1.rank then (insertEntry e rest).map (d :: ·)
    else none

theorem mem_of_insertEntry {e x : NodeKind × Rule} {l m : List (NodeKind × Rule)}
    (h : insertEntry e l = some m) : x ∈ m ↔ x = e ∨ x ∈ l := by
  induction l generalizing m with
  | nil => simp_all [insertEntry, eq_comm]
  | cons d rest ih =>
    rw [insertEntry] at h
    split at h
    · cases h; simp
    · split at h
      · obtain ⟨t, ht, rfl⟩ := Option.map_eq_some_iff.1 h
        simp only [List.mem_cons, ih ht]
        constructor
        · rintro (h | h | h) <;> simp [h]
        · rintro (h | h | h) <;> simp [h]
      · cases h

theorem KindOrdered.insertEntry {e : NodeKind × Rule} {l m : List (NodeKind × Rule)}
    (hl : KindOrdered l) (h : insertEntry e l = some m) : KindOrdered m := by
  induction l generalizing m with
  | nil => cases h; simp [KindOrdered]
  | cons d rest ih =>
    have ⟨hd, hrest⟩ := List.pairwise_cons.1 hl
    rw [RelAlg.insertEntry] at h
    split at h
    · rename_i hlt
      cases h
      refine List.pairwise_cons.2 ⟨fun x hx => ?_, hl⟩
      rcases List.mem_cons.1 hx with rfl | hx
      · exact hlt
      · exact Nat.lt_trans hlt (hd x hx)
    · split at h
      · rename_i hgt
        obtain ⟨t, ht, rfl⟩ := Option.map_eq_some_iff.1 h
        refine List.pairwise_cons.2 ⟨fun x hx => ?_, ih hrest ht⟩
        rcases (mem_of_insertEntry ht).1 hx with rfl | hx
        · exact hgt
        · exact hd x hx
      · cases h

namespace Registry

/-- The table without rules. -/
def empty : Registry := ⟨[], List.Pairwise.nil⟩

/-- The table with one more rule. -/
def insert (r : Registry) (e : NodeKind × Rule) : Except DuplicateRule Registry :=
  match h : insertEntry e r.entries with
  | some entries => .ok ⟨entries, r.ordered.insertEntry h⟩
  | none => .error ⟨e.1⟩

/-- The table with the given entries; the first kind that occurs a second time is an error. -/
def ofEntries (entries : List (NodeKind × Rule)) : Except DuplicateRule Registry :=
  entries.foldlM insert empty

/-- The rule for a kind. -/
def rule? (r : Registry) (k : NodeKind) : Option Rule :=
  (r.entries.find? fun e => e.1 == k).map (·.2)

def contains (r : Registry) (k : NodeKind) : Bool := (r.rule? k).isSome

def length (r : Registry) : Nat := r.entries.length

def isEmpty (r : Registry) : Bool := r.entries.isEmpty

/-! ## The canonical rules -/

/-- The rule of every kind but sets of aliases, which pass through. -/
def canonicalEntries : List (NodeKind × Rule) :=
  [ (.base, .base)
  , (.materialized, .materialized)
  , (.order, .binary "order" .operand .directions)
  , (.header, .collect)
  , (.directionSet, .collect)
  , (.ascending, .unary "asc" .attr)
  , (.descending, .unary "desc" .attr)
  , (.limit, .binary "limit" .operand .limit)
  , (.offset, .binary "offset" .operand .offset)
  , (.deletion, .binary "delete" .operand .other)
  , (.insertion, .binary "insert" .operand .other)
  , (.reverse, .onOperand "reverse")
  , (.difference, .onSides "difference")
  , (.extension, .extend)
  , (.intersection, .onSides "intersect")
  , (.join, .onSides "join")
  , (.product, .onSides "product")
  , (.projection, .binary "project" .operand .header)
  , (.rename, .binary "rename" .operand .aliases)
  , (.restriction, .binary "restrict" .operand .predicate)
  , (.summarization, .binary "summarize" .operand .summarizePer)
  , (.union, .onSides "union")
  , (.conjunction, .onSides "and")
  , (.disjunction, .onSides "or")
  , (.negation, .onOperand "not")
  , (.length, .onOperand "length")
  , (.equality, .onSides "eq")
  , (.exclusion, .onSides "ex")
  , (.greaterThan, .onSides "gt")
  , (.greaterThanOrEqualTo, .onSides "gte")
  , (.inclusion, .onSides "in")
  , (.inequality, .onSides "neq")
  , (.lessThan, .onSides "lt")
  , (.lessThanOrEqualTo, .onSides "lte")
  , (.patternMatch, .onSides "match")
  , (.noPatternMatch, .onSides "no_match")
  , (.absolute, .onOperand "abs")
  , (.addition, .onSides "add")
  , (.division, .onSides "div")
  , (.exponentiation, .onSides "exp")
  , (.modulo, .onSides "mod")
  , (.multiplication, .onSides "mul")
  , (.squareRoot, .onOperand "sqr")
  , (.subtraction, .onSides "sub")
  , (.unaryMinus, .onOperand "unary_minus")
  , (.unaryPlus, .onOperand "unary_plus")
  , (.tautology, .fixed "true")
  , (.contradiction, .fixed "false")
  , (.booleanAttribute, .attr)
  , (.dateAttribute, .attr)
  , (.dateTimeAttribute, .attr)
  , (.decimalAttribute, .attr)
  , (.floatAttribute, .attr)
  , (.integerAttribute, .attr)
  , (.stringAttribute, .attr)
  , (.timeAttribute, .attr)
  , (.objectAttribute, .attr) ]

/-- The table of the canonical entries. -/
def canonical : Registry := (ofEntries canonicalEntries).toOption.getD empty

end Registry

end RelAlg
