import RelAlg.Proofs.Decode.Literals
import RelAlg.Proofs.Decode.RoundTrip

/-!
# Loading normalises

Many texts stand for one relation: members come in any order, some are read by nobody, and a part
may be an array in place of an object.  Whatever the text was, the loaded relation can be written,
within the limits of the reader, and its text is read as the same relation.

* `Decode.relation_eq_ok`      : what is accepted nests no deeper than allowed, and is
  read from memory;
* `reserialize`                : reading a text and writing what was read;
* `decodeRelation_normalizes`  : the literals are regular and keep their values, and writing
  can be undone.
-/

namespace RelAlg

namespace Decode

/-- A relation that is accepted nests no deeper than allowed, and is read as from a
document in memory. -/
theorem relation_eq_ok {room : Nat} (hroom : 0 < room) {d : Document} {r : Relation}
    (h : relation room d = .ok r) : d.depth ≤ room ∧ Held.relation d = .ok r := by
  obtain ⟨⟨⟩, hhold, h⟩ := bind_eq_ok_iff.1 h
  exact ⟨depth_of_hold hroom hhold, h⟩

end Decode

/-! ## Texts -/

/-- The document of a text that is accepted is accepted. -/
theorem relation_of_decodeRelation {text : String} {r : Relation}
    (h : decodeRelation .json text = .ok r) :
    Decode.relation Document.maxDepth (Source.ofText text).document = .ok r := by
  have hdecode : (Source.ofText text).decode (Decode.relation Document.maxDepth) = .ok r := by
    rw [decodeRelation] at h
    split at h
    · rename_i heq
      rwa [Except.ok.inj h] at heq
    · cases h
  obtain ⟨_, hr, h⟩ := bind_eq_ok_iff.1 hdecode
  split at h
  · cases h
    exact hr
  · cases h

/-- Reads a relation from a text and writes it. -/
def reserialize (isPretty : Bool) (text : String) : Except ParseError String :=
  (fun r => r.toDocument.render isPretty) <$> decodeRelation .json text

/-- However a text spells a relation, its literals are regular and keep their values, its whole
numbers included; the relation is written no more deeply nested than it was, and that text is read
as the relation, so that reading and writing once more changes nothing. -/
theorem decodeRelation_normalizes {text : String} {r : Relation}
    (h : decodeRelation .json text = .ok r) :
    (∀ l ∈ r.scalars, l.isRegular = true) ∧
    List.Forall₂ Literal.Keeps (Held.relationScalars (Source.ofText text).document) r.scalars ∧
    (∀ n : Int, -0x8000000000000000 ≤ n → n < 0x10000000000000000 → ∀ rest, Scan.EndsNumber rest →
      Scan.number (Numeral.ofInt n ++ rest) = some (.integer n, rest)) ∧
    r.toDocument.depth ≤ (Source.ofText text).document.depth ∧
    ((∀ l ∈ r.scalars, l.floatReadsBack = true) → ∀ isPretty,
      decodeRelation .json (r.toDocument.render isPretty) = .ok r ∧
      (reserialize isPretty text >>= reserialize isPretty) = reserialize isPretty text) := by
  obtain ⟨hroom, hheld⟩ := Decode.relation_eq_ok (by decide) (relation_of_decodeRelation h)
  have hkeeps := Held.forall₂_keeps_of_relation (Source.isTextual_ofText text) hheld
  have hregular := Literal.isRegular_of_forall₂_keeps hkeeps
  have hdepth := Held.depth_of_relation hheld
  refine ⟨hregular, hkeeps, fun n hlow hhigh rest => Scan.number_ofInt hlow hhigh, hdepth, ?_⟩
  intro hback isPretty
  have hreadable : ∀ l ∈ r.scalars, l.isReadable = true := fun l hl =>
    Bool.and_eq_true_iff.2 ⟨hregular l hl, hback l hl⟩
  have hagain : decodeRelation .json (r.toDocument.render isPretty) = .ok r := by
    rw [decodeRelation, Source.decode_ofText_render isPretty (r.survives_toDocument hreadable)
      (Decode.relation_toDocument hreadable (Nat.le_trans hdepth hroom))]
  refine ⟨hagain, ?_⟩
  rw [reserialize, h]
  show reserialize isPretty (r.toDocument.render isPretty) = _
  rw [reserialize, hagain]

/-- A form named last, a member that nobody reads, and a relation and an attribute
spelled as arrays. -/
def reordered : String :=
  "\x7b\"operand\": [\"materialized\", [[\"n\", \"integer\"]], "
    ++ "[[18446744073709551615], [[-5, 0.5]]]],\n \"note\": [], \"relation\": \"reverse\"\x7d"

/-- The spelling does not matter. -/
theorem decodeRelation_normalizes_reordered :
    ∃ r, decodeRelation .json reordered = .ok r ∧
      r.scalars.filterMap Literal.whole? = [18446744073709551615, -5] ∧
      (∀ l ∈ r.scalars, l.floatReadsBack = true) ∧
      List.Forall₂ Literal.Keeps (Held.relationScalars (Source.ofText reordered).document)
        r.scalars ∧
      decodeRelation .json (r.toDocument.render true) = .ok r := by
  have hread : (decodeRelation .json reordered).toOption.any (fun r =>
      r.scalars.filterMap Literal.whole? == [18446744073709551615, -5]
        && r.scalars.all Literal.floatReadsBack) = true := by decide +kernel
  cases hr : decodeRelation .json reordered with
  | error e =>
    rw [hr] at hread
    cases hread
  | ok r =>
    rw [hr] at hread
    obtain ⟨hwhole, hback⟩ := Bool.and_eq_true_iff.1 hread
    have hback := List.all_eq_true.1 hback
    obtain ⟨-, hkeeps, -, -, hagain⟩ := decodeRelation_normalizes hr
    exact ⟨r, rfl, beq_iff_eq.1 hwhole, hback, hkeeps, (hagain hback true).1⟩

end RelAlg
