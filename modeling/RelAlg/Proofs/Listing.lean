import RelAlg.Listing
import RelAlg.Proofs.Registry.Lookup
import RelAlg.Proofs.Sexp.Failure

/-!
# What the listing says about formatting

The listing is made from the table of rules alone, without formatting anything.  It still tells what
formatting does with every node of a kind: a kind without a rule passes through, and a kind with a
rule becomes a list with the announced tag and one element for each announced field, or, where no
tag is announced, one element for each item.

* `Registry.filter_contains_all` : the kinds with a rule, in the order of all kinds, are those
  of the entries;
* `Listing.filter_entries`       : the rows with a rule are the entries of the registry;
* `Listing.unregistered_entries` : how many kinds pass through;
* `Rule.layout_of_tag?`          : what a rule with a tag lays out;
* `listing_describes`            : all of this at once.
-/

namespace RelAlg

/-! ## Kinds in order -/

namespace NodeKind

theorem nodup_all : (Vocabulary.all : List NodeKind).Nodup := by decide

/-- All kinds are listed by increasing rank. -/
theorem pairwise_rank_all :
    (Vocabulary.all : List NodeKind).Pairwise fun j k => j.rank < k.rank := by
  rw [List.pairwise_iff_getElem]
  intro i j hi hj hij
  rw [rank, rank, nodup_all.idxOf_getElem i hi, nodup_all.idxOf_getElem j hj]
  exact hij

end NodeKind

namespace Registry

theorem contains_iff {r : Registry} {k : NodeKind} :
    r.contains k = true ↔ k ∈ r.entries.map Prod.fst := by
  rw [contains, Option.isSome_iff_exists, List.mem_map]
  constructor
  · rintro ⟨rule, hrule⟩
    exact ⟨(k, rule), rule?_eq_some_iff.1 hrule, rfl⟩
  · rintro ⟨⟨_, rule⟩, hmem, rfl⟩
    exact ⟨rule, rule?_eq_some_iff.2 hmem⟩

/-- The kinds with a rule, in the order of all kinds, are those of the entries. -/
theorem filter_contains_all (r : Registry) :
    (Vocabulary.all : List NodeKind).filter r.contains = r.entries.map Prod.fst := by
  have hlisted : ((Vocabulary.all : List NodeKind).filter r.contains).Pairwise
      fun j k => j.rank < k.rank :=
    NodeKind.pairwise_rank_all.filter _
  have hentries : (r.entries.map Prod.fst).Pairwise fun j k => j.rank < k.rank :=
    List.pairwise_map.2 r.ordered
  have hperm :
      ((Vocabulary.all : List NodeKind).filter r.contains).Perm (r.entries.map Prod.fst) := by
    rw [List.perm_ext_iff_of_nodup (NodeKind.nodup_all.filter _) r.nodup_kinds]
    intro k
    rw [List.mem_filter, contains_iff]
    exact and_iff_right (NodeKind.mem_all k)
  exact List.Perm.eq_of_pairwise (fun _ _ _ _ hjk hkj => absurd hkj (Nat.lt_asymm hjk))
    hlisted hentries hperm

end Registry

/-! ## Rows of the listing -/

namespace Listing

theorem map_kind_entries (r : Registry) :
    (entries r).map (·.kind) = (Vocabulary.all : List NodeKind) := by
  rw [entries, List.map_map]
  exact List.map_id _

theorem mem_entries (r : Registry) (k : NodeKind) : ⟨k, r.rule? k⟩ ∈ entries r :=
  List.mem_map_of_mem (NodeKind.mem_all k)

/-- A row shows the rule of its kind. -/
theorem rule_of_mem_entries {r : Registry} {e : Entry} (h : e ∈ entries r) :
    e.rule = r.rule? e.kind := by
  obtain ⟨k, -, rfl⟩ := List.mem_map.1 h
  rfl

/-- The rows with a rule are the entries of the registry, in the same order. -/
theorem filter_entries (r : Registry) :
    (entries r).filter (fun e => e.rule.isSome) = r.entries.map fun x => ⟨x.1, some x.2⟩ := by
  have hkinds : (entries r).filter (fun e => e.rule.isSome)
      = (r.entries.map Prod.fst).map fun k => ⟨k, r.rule? k⟩ := by
    rw [← r.filter_contains_all, entries, List.filter_map]
    rfl
  rw [hkinds, List.map_map]
  refine List.map_congr_left fun x hx => ?_
  rw [Function.comp_apply, Registry.rule?_eq_some_iff.2 hx]

/-- A kind either has an entry or passes through. -/
theorem unregistered_entries (r : Registry) : unregistered (entries r) + r.length = 58 := by
  have hrows : (entries r).length = 58 := by
    rw [← List.length_map (·.kind), map_kind_entries]
    rfl
  have hregistered : ((entries r).filter fun e => e.rule.isSome).length = r.length := by
    rw [filter_entries, List.length_map]
    rfl
  have hsplit := List.length_eq_length_filter_add (l := entries r) fun e => e.rule.isSome
  simp only [Option.not_isSome] at hsplit
  rw [hrows, hregistered] at hsplit
  rw [unregistered]
  omega

end Listing

/-! ## Output of rules -/

namespace Rule

variable {n : Node} {rule : Rule} {ss : List Sexp}

/-- A slot that is provided holds one part. -/
theorem length_toList_of_provides {α : Type} {o : Option α} (h : o.isSome = true) :
    o.toList.length = 1 := by
  obtain ⟨a, rfl⟩ := Option.isSome_iff_exists.1 h
  rfl

/-- A rule with a tag lays out the tag and then one element for each of its fields. -/
theorem layout_of_tag? {tag : String} (htag : rule.tag? = some tag) (hfields : rule.lacks? n = none)
    (hlength : ss.length = (rule.parts n).length) :
    ∃ rest, rule.layout n ss = .list (.symbol tag :: rest) ∧ rest.length = rule.fields.length := by
  cases rule with
  | fixed t =>
    cases htag
    exact ⟨ss, rfl, hlength⟩
  | unary t f =>
    cases htag
    have hf : (n.field f).isSome = true := provides_of_mem_fields hfields List.mem_cons_self
    exact ⟨ss, rfl, hlength.trans (length_toList_of_provides hf)⟩
  | binary t f g =>
    cases htag
    have hf : (n.field f).isSome = true := provides_of_mem_fields hfields List.mem_cons_self
    have hg : (n.field g).isSome = true :=
      provides_of_mem_fields hfields (List.mem_cons_of_mem _ List.mem_cons_self)
    refine ⟨ss, rfl, ?_⟩
    rw [hlength, parts, List.length_append, length_toList_of_provides hf,
      length_toList_of_provides hg]
    rfl
  | collect => cases htag
  | base | materialized | extend | attr =>
    cases htag
    exact ⟨_, rfl, rfl⟩

end Rule

/-- The list that a row announces for a node of its kind: the tag and one element for each field, or
without a tag the formatted items one by one. -/
def Listing.Entry.Announces (r : Registry) (e : Listing.Entry) (n : Node) (elements : List Sexp) :
    Prop :=
  match e.tag with
  | some tag => ∃ rest, elements = .symbol tag :: rest ∧ rest.length = e.fields.length
  | none => ∃ items, n.items = some items ∧
      List.Forall₂ (fun item s => Sexp.ofNode r item = .ok s) items elements

/-- What a rule lays out for a node is what the row of the rule announces. -/
theorem Listing.announces_of_ofNode {r : Registry} {k : NodeKind} {rule : Rule} {n : Node}
    {s : Sexp} (hk : n.kind = some k) (hr : r.rule? k = some rule) (h : Sexp.ofNode r n = .ok s) :
    ∃ elements, s = .list elements ∧ Entry.Announces r ⟨k, some rule⟩ n elements := by
  rw [Sexp.ofNode_of_rule hk hr] at h
  obtain ⟨hfields, ss, hvisited, rfl⟩ := Rule.format_eq_ok_iff.1 h
  cases htag : rule.tag? with
  | some tag =>
    obtain ⟨rest, hlayout, hlength⟩ := Rule.layout_of_tag? htag hfields hvisited.length_eq.symm
    refine ⟨_, hlayout, ?_⟩
    rw [Entry.Announces, show Entry.tag ⟨k, some rule⟩ = some tag from htag]
    exact ⟨rest, rfl, by rw [hlength, Entry.fields, List.length_map]⟩
  | none =>
    -- only collections have no tag
    obtain rfl : rule = .collect := by cases rule <;> first | rfl | cases htag
    have hitems : n.items.isSome = true := Rule.provides_of_mem_fields hfields List.mem_cons_self
    obtain ⟨items, hitems⟩ := Option.isSome_iff_exists.1 hitems
    rw [Rule.parts, hitems] at hvisited
    exact ⟨ss, rfl, items, hitems, hvisited⟩

/-- The listing shows every kind once.  Its rows with a rule are the entries of the registry, so the
others are as many as are missing to 58.  A node of a kind without a rule passes through; of a kind
with a rule it becomes, if it is formatted at all, a list as its row announces. -/
theorem listing_describes (r : Registry) :
    (∀ k, ((Listing.entries r).map (·.kind)).count k = 1) ∧
    (Listing.entries r).filter (fun e => e.rule.isSome) = r.entries.map (fun x => ⟨x.1, some x.2⟩) ∧
    Listing.unregistered (Listing.entries r) + r.length = 58 ∧
    ∀ e ∈ Listing.entries r, ∀ n : Node, n.kind = some e.kind →
      (e.ruleName = none → Sexp.ofNode r n = .ok (.node n)) ∧
      ∀ name s, e.ruleName = some name → Sexp.ofNode r n = .ok s →
        ∃ elements, s = .list elements ∧ e.Announces r n elements := by
  refine ⟨fun k => ?_, Listing.filter_entries r, Listing.unregistered_entries r,
    fun e he n hk => ?_⟩
  · rw [Listing.map_kind_entries]
    exact List.count_eq_one_of_mem NodeKind.nodup_all (NodeKind.mem_all k)
  · have hrule := Listing.rule_of_mem_entries he
    constructor
    · intro hname
      have hnone : r.rule? e.kind = none := by rwa [← hrule, ← Option.map_eq_none_iff]
      rw [Sexp.ofNode_of_rule?_eq_none hk hnone]
      cases n <;> first | rfl | cases hk
    · intro name s hname hs
      obtain ⟨rule, he', -⟩ := Option.map_eq_some_iff.1 hname
      obtain ⟨elements, rfl, hannounced⟩ := Listing.announces_of_ofNode hk (hrule.symm.trans he') hs
      refine ⟨elements, rfl, ?_⟩
      rwa [show e = ⟨e.kind, some rule⟩ from by rw [← he']]

/-- A table with one rule, for limits. -/
def limitsOnly : Registry :=
  ⟨[(.limit, .binary "limit" .operand .limit)], List.pairwise_singleton _ _⟩

/-- The rows of this table: base relations pass through, and limits become lists of a tag
and two elements. -/
theorem listing_describes_limit :
    Listing.unregistered (Listing.entries limitsOnly) + 1 = 58 ∧
    Sexp.ofNode limitsOnly (.relation (.base "a" ⟨[]⟩)) = .ok (.node (.relation (.base "a" ⟨[]⟩))) ∧
    ∃ rest, Sexp.ofNode limitsOnly (.relation (.limit (.base "a" ⟨[]⟩) 2))
      = .ok (.list (.symbol "limit" :: rest)) ∧ rest.length = 2 := by
  obtain ⟨-, -, hcount, hrows⟩ := listing_describes limitsOnly
  have hbase := (hrows _ (Listing.mem_entries _ .base) (.relation (.base "a" ⟨[]⟩)) rfl).1 rfl
  have hlimit : Sexp.ofNode limitsOnly (.relation (.limit (.base "a" ⟨[]⟩) 2)) = _ :=
    Sexp.ofNode_binary rfl
      (by decide : limitsOnly.rule? .limit = some (.binary "limit" .operand .limit)) rfl
      rfl hbase (Sexp.ofNode_of_kind_eq_none rfl)
  have hrow :=
    (hrows _ (Listing.mem_entries _ .limit) (.relation (.limit (.base "a" ⟨[]⟩) 2)) rfl).2
  obtain ⟨_, hlist, rest, rfl, hlength⟩ := hrow "binary" _ rfl hlimit
  exact ⟨hcount, hbase, rest, hlimit.trans (congrArg Except.ok hlist), hlength⟩

end RelAlg
