import Mathlib.Data.List.Nodup
import RelAlg.Registry

/-!
# Looking up rules

A registry is built by inserting entries one at a time.  This file ties the finished table back to
the list it was built from:

* `Registry.rule?_eq_some_iff`    : a rule is found exactly when its entry is in the table;
* `Registry.entries_ofEntries`    : the table holds the entries it was built from and no others;
* `Registry.exists_ofEntries`     : entries for different kinds always make a table;
* `Registry.rule?_canonical`      : the same, read off the list of canonical entries.
-/

namespace RelAlg

/-! ## Ranks -/

namespace NodeKind

/-- Every kind stands in the list of all kinds. -/
theorem mem_all (k : NodeKind) : k ∈ (Vocabulary.all : List NodeKind) := by
  cases k <;> decide

/-- The rank tells kinds apart. -/
theorem rank_inj {j k : NodeKind} : j.rank = k.rank ↔ j = k :=
  List.idxOf_inj (mem_all j)

/-- Kinds are listed in the order of their declaration. -/
theorem rank_eq_ctorIdx (k : NodeKind) : k.rank = k.ctorIdx := by
  cases k <;> rfl

theorem ne_of_rank_lt {j k : NodeKind} (h : j.rank < k.rank) : j ≠ k := by
  rintro rfl
  exact Nat.lt_irrefl _ h

end NodeKind

/-! ## Inserting -/

/-- An entry has no place in an ordered table exactly when its kind is taken. -/
theorem insertEntry_eq_none_iff {e : NodeKind × Rule} {l : List (NodeKind × Rule)}
    (hl : KindOrdered l) : insertEntry e l = none ↔ ∃ d ∈ l, d.1 = e.1 := by
  induction l with
  | nil => simp [insertEntry]
  | cons d rest ih =>
    obtain ⟨hd, hrest⟩ := List.pairwise_cons.1 hl
    rw [insertEntry]
    split
    · -- the new kind comes before every kind of the table
      rename_i hlt
      refine ⟨fun h => (Option.some_ne_none _ h).elim, ?_⟩
      rintro ⟨x, hx, hxe⟩
      exfalso
      rcases List.mem_cons.1 hx with rfl | hx
      · rw [hxe] at hlt; exact Nat.lt_irrefl _ hlt
      · have := hd x hx
        rw [hxe] at this; exact Nat.lt_asymm hlt this
    · split
      · rename_i hgt
        rw [Option.map_eq_none_iff, ih hrest]
        constructor
        · rintro ⟨x, hx, hxe⟩
          exact ⟨x, List.mem_cons_of_mem _ hx, hxe⟩
        · rintro ⟨x, hx, hxe⟩
          rcases List.mem_cons.1 hx with rfl | hx
          · rw [hxe] at hgt; exact (Nat.lt_irrefl _ hgt).elim
          · exact ⟨x, hx, hxe⟩
      · rename_i hlt hgt
        have hde : d.1 = e.1 := NodeKind.rank_inj.1 (by omega)
        exact ⟨fun _ => ⟨d, List.mem_cons_self, hde⟩, fun _ => rfl⟩

/-- An insertion puts the entry somewhere among the others. -/
theorem perm_of_insertEntry {e : NodeKind × Rule} {l m : List (NodeKind × Rule)}
    (h : insertEntry e l = some m) : m.Perm (e :: l) := by
  induction l generalizing m with
  | nil =>
    cases h
    exact .refl _
  | cons d rest ih =>
    rw [insertEntry] at h
    split at h
    · cases h
      exact .refl _
    · split at h
      · obtain ⟨t, ht, rfl⟩ := Option.map_eq_some_iff.1 h
        exact ((ih ht).cons d).trans (.swap e d rest)
      · cases h

namespace Registry

/-- A successful insertion adds its entry and nothing else. -/
theorem entries_insert {r s : Registry} {e : NodeKind × Rule} (h : r.insert e = .ok s) :
    s.entries.Perm (e :: r.entries) := by
  unfold insert at h
  split at h
  · rename_i entries hins
    cases h
    exact perm_of_insertEntry hins
  · cases h

/-- Insertion fails exactly when the kind is taken, and names that kind. -/
theorem insert_eq_error_iff {r : Registry} {e : NodeKind × Rule} {err : DuplicateRule} :
    r.insert e = .error err ↔ (∃ d ∈ r.entries, d.1 = e.1) ∧ err = ⟨e.1⟩ := by
  rw [← insertEntry_eq_none_iff r.ordered, insert]
  split
  · rename_i entries hins
    simp [hins]
  · rename_i hins
    simp [hins, eq_comm]

/-! ## Building -/

/-- The entries of a table built on top of another one. -/
theorem entries_foldlM {l : List (NodeKind × Rule)} {r s : Registry}
    (h : l.foldlM insert r = .ok s) : s.entries.Perm (l ++ r.entries) := by
  induction l generalizing r with
  | nil =>
    cases h
    exact .refl _
  | cons e rest ih =>
    rw [List.foldlM_cons] at h
    cases hins : r.insert e with
    | error err => rw [hins] at h; cases h
    | ok t =>
      rw [hins] at h
      have hrest : s.entries.Perm (rest ++ t.entries) := ih h
      have hinserted : (rest ++ t.entries).Perm (rest ++ e :: r.entries) :=
        (entries_insert hins).append_left rest
      exact (hrest.trans hinserted).trans List.perm_middle

/-- A table holds exactly the entries it was built from, in an order of its own. -/
theorem entries_ofEntries {l : List (NodeKind × Rule)} {r : Registry} (h : ofEntries l = .ok r) :
    r.entries.Perm l := by
  have hperm := entries_foldlM h
  rwa [show empty.entries = [] from rfl, List.append_nil] at hperm

theorem mem_entries_ofEntries {l : List (NodeKind × Rule)} {r : Registry} {x : NodeKind × Rule}
    (h : ofEntries l = .ok r) : x ∈ r.entries ↔ x ∈ l :=
  (entries_ofEntries h).mem_iff

/-- Entries for different kinds, none of them taken, can all be inserted. -/
theorem exists_foldlM_insert {l : List (NodeKind × Rule)} {r : Registry}
    (hl : (l.map Prod.fst).Nodup) (hr : ∀ e ∈ l, ∀ d ∈ r.entries, d.1 ≠ e.1) :
    ∃ s, l.foldlM insert r = .ok s := by
  induction l generalizing r with
  | nil => exact ⟨r, rfl⟩
  | cons e rest ih =>
    rw [List.map_cons, List.nodup_cons] at hl
    cases hins : r.insert e with
    | error err =>
      obtain ⟨⟨d, hd, hde⟩, -⟩ := insert_eq_error_iff.1 hins
      exact (hr e List.mem_cons_self d hd hde).elim
    | ok t =>
      obtain ⟨s, hs⟩ := ih (r := t) hl.2 fun x hx d hd hdx => by
        rcases List.mem_cons.1 ((entries_insert hins).mem_iff.1 hd) with rfl | hd
        · exact hl.1 (hdx ▸ List.mem_map_of_mem hx)
        · exact hr x (List.mem_cons_of_mem _ hx) d hd hdx
      refine ⟨s, ?_⟩
      rw [List.foldlM_cons, hins]
      exact hs

/-- Entries for different kinds always make a table. -/
theorem exists_ofEntries {l : List (NodeKind × Rule)} (hl : (l.map Prod.fst).Nodup) :
    ∃ r, ofEntries l = .ok r :=
  exists_foldlM_insert hl fun _ _ d hd => by simp [empty] at hd

/-! ## Looking up -/

/-- No two entries of a table are for one kind. -/
theorem nodup_kinds (r : Registry) : (r.entries.map Prod.fst).Nodup :=
  List.pairwise_map.2 (r.ordered.imp NodeKind.ne_of_rank_lt)

/-- Two entries of a table for one kind are the same entry. -/
theorem eq_of_mem_entries {r : Registry} {k : NodeKind} {a b : Rule} (ha : (k, a) ∈ r.entries)
    (hb : (k, b) ∈ r.entries) : a = b := by
  have := List.inj_on_of_nodup_map r.nodup_kinds ha hb rfl
  exact (Prod.mk.inj this).2

/-- A rule is found exactly when its entry is in the table. -/
theorem rule?_eq_some_iff {r : Registry} {k : NodeKind} {rule : Rule} :
    r.rule? k = some rule ↔ (k, rule) ∈ r.entries := by
  unfold rule?
  constructor
  · intro h
    obtain ⟨⟨j, a⟩, hfind, rfl⟩ := Option.map_eq_some_iff.1 h
    have hj : j = k := by simpa using List.find?_some hfind
    exact hj ▸ List.mem_of_find?_eq_some hfind
  · intro h
    obtain ⟨⟨j, a⟩, hfind⟩ : ∃ e, r.entries.find? (fun e => e.1 == k) = some e :=
      Option.isSome_iff_exists.1 (List.find?_isSome.2 ⟨_, h, by simp⟩)
    have hj : j = k := by simpa using List.find?_some hfind
    subst hj
    rw [hfind, Option.map_some, eq_of_mem_entries (List.mem_of_find?_eq_some hfind) h]

/-- No rule is found exactly when no entry is for the kind. -/
theorem rule?_eq_none_iff {r : Registry} {k : NodeKind} :
    r.rule? k = none ↔ ∀ e ∈ r.entries, e.1 ≠ k := by
  simp [rule?]

/-! ## The canonical rules -/

/-- The canonical entries make a table. -/
theorem ofEntries_canonicalEntries : ofEntries canonicalEntries = .ok canonical := by
  obtain ⟨r, hr⟩ := exists_ofEntries (l := canonicalEntries) (by decide)
  rw [canonical, hr]
  rfl

theorem rule?_canonical {k : NodeKind} {rule : Rule} (h : (k, rule) ∈ canonicalEntries) :
    canonical.rule? k = some rule :=
  rule?_eq_some_iff.2 ((mem_entries_ofEntries ofEntries_canonicalEntries).2 h)

/-- Sets of aliases are the kind without a canonical rule. -/
theorem rule?_canonical_aliasSet : canonical.rule? .aliasSet = none := by
  refine rule?_eq_none_iff.2 fun e he => ?_
  rw [mem_entries_ofEntries ofEntries_canonicalEntries] at he
  revert e
  decide

/-- Every other kind has one. -/
theorem exists_rule?_canonical {k : NodeKind} (hk : k ≠ .aliasSet) :
    ∃ rule, canonical.rule? k = some rule := by
  have hlisted : k ∈ canonicalEntries.map Prod.fst := by
    revert hk
    cases k <;> decide
  obtain ⟨⟨_, rule⟩, hmem, rfl⟩ := List.mem_map.1 hlisted
  exact ⟨rule, rule?_canonical hmem⟩

end Registry

end RelAlg
