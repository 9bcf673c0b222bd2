import RelAlg.Proofs.Except
import RelAlg.Proofs.Registry.Lookup

/-!
# Building tables

A table is built from a list of entries, one for each kind.  The order of the list leaves no trace:
what is kept are its entries, sorted by kind.  A kind that is given twice ends the building at its
second entry, also if that entry repeats the rule of the first.

* `Registry.eq_of_entries_perm`     : a table is determined by its entries, whatever their order;
* `Registry.ofEntries_eq_ok_iff`    : the table of a list holds the entries of that list;
* `Registry.exists_ofEntries_iff`   : a list makes a table exactly when no kind occurs twice in it;
* `Registry.ofEntries_eq_error_iff` : the kind that is reported when one does;
* `ofEntries_outcome`               : what building a table comes to.
-/

namespace RelAlg

namespace Registry

/-! ## Entries determine tables -/

/-- A table is determined by its entries, whatever their order. -/
theorem eq_of_entries_perm {r s : Registry} (h : r.entries.Perm s.entries) : r = s := by
  have hentries : r.entries = s.entries :=
    List.Perm.eq_of_pairwise (fun _ _ _ _ hab hba => absurd hba (Nat.lt_asymm hab))
      r.ordered s.ordered h
  cases r
  cases s
  cases hentries
  rfl

/-- Entries are kept in the order in which their kinds are declared. -/
theorem pairwise_ctorIdx (r : Registry) :
    (r.entries.map fun e => e.1.ctorIdx).Pairwise (· < ·) := by
  simp only [← NodeKind.rank_eq_ctorIdx]
  exact List.pairwise_map.2 r.ordered

/-! ## Success -/

/-- The table of a list holds the entries of that list, and there is no other such table. -/
theorem ofEntries_eq_ok_iff {l : List (NodeKind × Rule)} {r : Registry} :
    ofEntries l = .ok r ↔ r.entries.Perm l := by
  constructor
  · exact entries_ofEntries
  · intro h
    obtain ⟨s, hs⟩ := exists_ofEntries ((h.map Prod.fst).nodup_iff.1 r.nodup_kinds)
    rw [eq_of_entries_perm (h.trans (entries_ofEntries hs).symm), hs]

/-- A list makes a table exactly when no kind occurs twice in it. -/
theorem exists_ofEntries_iff {l : List (NodeKind × Rule)} :
    (∃ r, ofEntries l = .ok r) ↔ (l.map Prod.fst).Nodup := by
  constructor
  · rintro ⟨r, hr⟩
    exact ((entries_ofEntries hr).map Prod.fst).nodup_iff.1 r.nodup_kinds
  · exact exists_ofEntries

/-! ## Failure -/

/-- The reported kind is that of the first entry whose kind stands in front of it. -/
theorem ofEntries_eq_error_iff {l : List (NodeKind × Rule)} {e : DuplicateRule} :
    ofEntries l = .error e ↔ ∃ before rule after, l = before ++ (e.kind, rule) :: after ∧
      (before.map Prod.fst).Nodup ∧ e.kind ∈ before.map Prod.fst := by
  rw [ofEntries, foldlM_eq_error_iff]
  constructor
  · rintro ⟨before, ⟨k, rule⟩, after, r, rfl, hr, hins⟩
    obtain ⟨⟨d, hd, hdk⟩, rfl⟩ := insert_eq_error_iff.1 hins
    refine ⟨before, rule, after, rfl, exists_ofEntries_iff.1 ⟨r, hr⟩, ?_⟩
    have hmem : d ∈ before := (mem_entries_ofEntries hr).1 hd
    exact List.mem_map.2 ⟨d, hmem, hdk⟩
  · rintro ⟨before, rule, after, rfl, hnodup, hmem⟩
    obtain ⟨r, hr⟩ := exists_ofEntries hnodup
    obtain ⟨d, hd, hdk⟩ := List.mem_map.1 hmem
    have htaken : d ∈ r.entries := (mem_entries_ofEntries hr).2 hd
    exact ⟨before, (e.kind, rule), after, r, rfl, hr, insert_eq_error_iff.2 ⟨⟨d, htaken, hdk⟩, rfl⟩⟩

end Registry

/-- A list of entries makes a table exactly when no kind occurs twice in it.  The table finds a rule
for a kind exactly when that is an entry, and lists the entries once each in the order in which
their kinds are declared; every rearrangement of the list makes the same table.  Otherwise the error
names the kind of the first entry whose kind occurs in front of it. -/
theorem ofEntries_outcome (l : List (NodeKind × Rule)) :
    ((∃ r, Registry.ofEntries l = .ok r) ↔ (l.map Prod.fst).Nodup) ∧
    (∀ r, Registry.ofEntries l = .ok r →
      (∀ k rule, r.rule? k = some rule ↔ (k, rule) ∈ l) ∧ r.length = l.length ∧
      r.entries.Perm l ∧ (r.entries.map fun e => e.1.ctorIdx).Pairwise (· < ·) ∧
      ∀ m, m.Perm l → Registry.ofEntries m = .ok r) ∧
    ∀ e, Registry.ofEntries l = .error e ↔ ∃ before rule after,
      l = before ++ (e.kind, rule) :: after ∧ (before.map Prod.fst).Nodup ∧
      e.kind ∈ before.map Prod.fst := by
  refine ⟨Registry.exists_ofEntries_iff, fun r hr => ?_, fun e => Registry.ofEntries_eq_error_iff⟩
  have hperm : r.entries.Perm l := Registry.entries_ofEntries hr
  refine ⟨fun k rule => ?_, hperm.length_eq, hperm, r.pairwise_ctorIdx, fun m hm => ?_⟩
  · rw [Registry.rule?_eq_some_iff, hperm.mem_iff]
  · exact Registry.ofEntries_eq_ok_iff.2 (hperm.trans hm.symm)

/-- Two entries make one table in either order.  Of two repeated kinds the one that is repeated
first is reported, also where its rule is the same again. -/
theorem ofEntries_outcome_repeated :
    (∃ r, Registry.ofEntries [(.limit, .onOperand "limit"), (.join, .onSides "join")] = .ok r ∧
      Registry.ofEntries [(.join, .onSides "join"), (.limit, .onOperand "limit")] = .ok r) ∧
    Registry.ofEntries [(.limit, .onOperand "limit"), (.join, .onSides "join"),
      (.join, .onSides "join"), (.limit, .collect)] = .error ⟨.join⟩ := by
  constructor
  · obtain ⟨hmakes, htable, -⟩ :=
      ofEntries_outcome [(.limit, .onOperand "limit"), (.join, .onSides "join")]
    obtain ⟨r, hr⟩ := hmakes.2 (by decide)
    obtain ⟨-, -, -, -, hrearranged⟩ := htable r hr
    exact ⟨r, hr, hrearranged _ (.swap _ _ [])⟩
  · obtain ⟨-, -, hfails⟩ :=
      ofEntries_outcome [(.limit, .onOperand "limit"), (.join, .onSides "join"),
        (.join, .onSides "join"), (.limit, .collect)]
    exact (hfails ⟨.join⟩).2 ⟨[(.limit, .onOperand "limit"), (.join, .onSides "join")],
      .onSides "join", [(.limit, .collect)], rfl, by decide, by decide⟩

end RelAlg
