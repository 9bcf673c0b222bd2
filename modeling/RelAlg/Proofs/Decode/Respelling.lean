import Mathlib.Logic.Relation
import RelAlg.Proofs.Decode.Loading
import RelAlg.Proofs.Decode.Members
import RelAlg.Proofs.Decode.Place

/-!
# Other spellings of a document

The members of an object may stand in any order, at any depth and wherever the form is named,
and a relation, a function, an attribute or a direction may have further members with names of
no field.  A document that is accepted as a relation stays accepted under such changes, and as
the same relation.

* `Respelled.agrees`           : one change keeps what is read at its place;
* `Respelled.sound`            : nothing becomes unreadable by it or nests more deeply;
* `Decode.relation_respelled`  : one change to a whole document;
* `decodeRelation_respelled`   : any number of changes to the document of a text.
-/

namespace RelAlg

/-! ## Objects -/

namespace Held

/-- An object is a relation if its members name the form and give its fields. -/
theorem relation_object_eq_ok_iff {ms : List (Key × Document)} {r : Relation} :
    relation (.object ms) = .ok r ↔ formOf "relation" none ms = .ok r.form ∧
      ∃ value,
        ReadsAs (· == .text "relation") (fun _ => true) r.form.fields relationValue ms value ∧
        ∀ p ∈ r.parts, value p.1 = some p.2 := by
  rw [relation]
  simp only [bind_eq_ok_iff, RelationForm.assemble_eq_ok_iff, relationMembers_eq]
  constructor
  · rintro ⟨_, hform, parts, hparts, rfl, hheld⟩
    exact ⟨hform, parts.get?, ⟨parts, hparts, fun _ => rfl⟩, hheld⟩
  · rintro ⟨hform, value, ⟨parts, hparts, hvalue⟩, hheld⟩
    exact ⟨_, hform, parts, hparts, rfl, fun p hp => (hvalue p.1).trans (hheld p hp)⟩

/-- An object is a function if its members name the form and give its fields, where it has any. -/
theorem function_object_eq_ok_iff {ms : List (Key × Document)} {f : Function} :
    function (.object ms) = .ok f ↔ formOf "function" none ms = .ok f.form ∧ (f.form.fields ≠ [] →
      ∃ value,
        ReadsAs (· == .text "function") (fun _ => true) f.form.fields functionValue ms value ∧
        ∀ p ∈ f.parts, value p.1 = some p.2) := by
  rw [function_object]
  simp only [bind_eq_ok_iff, FunctionForm.assemble_eq_ok_iff, functionMembers_eq]
  constructor
  · rintro ⟨_, hform, parts, hparts, rfl, hheld⟩
    refine ⟨hform, fun hfields => ?_⟩
    rw [if_neg hfields] at hparts
    exact ⟨Parts.get? parts, ⟨parts, hparts, fun _ => rfl⟩, hheld⟩
  · rintro ⟨hform, hread⟩
    by_cases hfields : f.form.fields = []
    · have hempty : f.parts = [] := List.map_eq_nil_iff.1 (f.map_fst_parts.trans hfields)
      exact ⟨_, hform, [], if_pos hfields, rfl, by simp [hempty]⟩
    · obtain ⟨value, ⟨parts, hparts, hvalue⟩, hheld⟩ := hread hfields
      exact ⟨_, hform, parts, (if_neg hfields).trans hparts, rfl,
        fun p hp => (hvalue p.1).trans (hheld p hp)⟩

end Held

namespace Decode

theorem attr_object_eq_ok_iff {ms : List (Key × Document)} {a : Attribute} :
    attr .held (.object ms) = .ok a ↔
      ∃ value,
        ReadsAs (fun _ => false) (fun _ => true) Vocabulary.all (AttributeField.read .held) ms
          value ∧
        value .name = some a.name ∧ value .kind = some a.kind := by
  rw [attr]
  simp only [bind_eq_ok_iff, Parts.need_eq_ok_iff, record, members_eq]
  constructor
  · rintro ⟨parts, hparts, name, hname, kind, hkind, ⟨⟩⟩
    exact ⟨parts.get?, ⟨parts, by simpa using hparts, fun _ => rfl⟩, hname, hkind⟩
  · rintro ⟨value, ⟨parts, hparts, hvalue⟩, hname, hkind⟩
    exact ⟨parts, by simpa using hparts, _, (hvalue _).trans hname, _, (hvalue _).trans hkind, rfl⟩

theorem direction_object_eq_ok_iff {ms : List (Key × Document)} {x : Direction} :
    direction .held (.object ms) = .ok x ↔
      ∃ value,
        ReadsAs (fun _ => false) (fun _ => true) Vocabulary.all (DirectionField.read .held) ms
          value ∧
        value .order = some x.order ∧ value .attr = some x.attr := by
  rw [direction]
  simp only [bind_eq_ok_iff, Parts.need_eq_ok_iff, record, members_eq]
  constructor
  · rintro ⟨parts, hparts, order, horder, a, ha, ⟨⟩⟩
    exact ⟨parts.get?, ⟨parts, by simpa using hparts, fun _ => rfl⟩, horder, ha⟩
  · rintro ⟨value, ⟨parts, hparts, hvalue⟩, horder, ha⟩
    exact ⟨parts, by simpa using hparts, _, (hvalue _).trans horder, _, (hvalue _).trans ha, rfl⟩

end Decode

/-- What a member is changed into agrees with it. -/
def MemberAgrees (p : Place) (ms : List (Key × Document)) (key : Key) (d d' : Document) : Prop :=
  Respelled (p.member ms key) d d' ∧ Agrees (p.member ms key) d d'

/-- A record is read alike if its fields are. -/
theorem readsAs_of_agrees {σ : Type} {type : σ → Type} [DecidableEq σ] [Vocabulary σ]
    {skips : Key → Bool} {fields : List σ} {place : σ → Place}
    {read : (s : σ) → Document → Except ReadError (type s)}
    (hread : ∀ {s d d' v}, Agrees (place s) d d' → read s d = .ok v → read s d' = .ok v)
    {p : Place} {ms ms' : List (Key × Document)}
    (h : RespelledMembers (p.Foreign ms) (MemberAgrees p ms) ms ms')
    (hforeign : ∀ w, p.Foreign ms w → ∀ s ∈ fields, Vocabulary.word s ≠ w)
    (hmember : ∀ key, p.member ms key = .ofKey place fields key) {value : (s : σ) → Option (type s)}
    (hvalue : ReadsAs skips (fun _ => true) fields read ms value) :
    ReadsAs skips (fun _ => true) fields read ms' value := by
  refine h.readsAs (fun _ => rfl) hforeign (fun key s d d' hd hkey v hv => ?_) hvalue
  have hplace : p.member ms key = place s := by rw [hmember, Place.ofKey, hkey]
  exact hread (hplace ▸ hd.2) hv

section Objects

variable {ms ms' : List (Key × Document)}

theorem agrees_relation_object
    (h : RespelledMembers (Place.relation.Foreign ms) (MemberAgrees .relation ms) ms ms') :
    Agrees .relation (.object ms) (.object ms') := by
  intro r hr
  obtain ⟨hform, value, hvalue, hheld⟩ := Held.relation_object_eq_ok_iff.1 hr
  refine Held.relation_object_eq_ok_iff.2 ⟨?_, value, ?_, hheld⟩
  · exact h.formOf (fun hw => hw.1 rfl) (fun d d' hd ht => (not_respelled_tag ht hd.1).elim) hform
  · refine readsAs_of_agrees relationValue_of_agrees h ?_
      (fun key => by rw [Place.member, hform]; rfl) hvalue
    rintro w ⟨-, form, hform', hw⟩
    rw [hform] at hform'
    cases hform'
    exact hw

theorem agrees_function_object
    (h : RespelledMembers (Place.function.Foreign ms) (MemberAgrees .function ms) ms ms') :
    Agrees .function (.object ms) (.object ms') := by
  intro f hf
  obtain ⟨hform, hread⟩ := Held.function_object_eq_ok_iff.1 hf
  refine Held.function_object_eq_ok_iff.2 ⟨?_, fun hfields => ?_⟩
  · exact h.formOf (fun hw => hw.1 rfl) (fun d d' hd ht => (not_respelled_tag ht hd.1).elim) hform
  · obtain ⟨value, hvalue, hheld⟩ := hread hfields
    refine ⟨value, readsAs_of_agrees functionValue_of_agrees h ?_
      (fun key => by rw [Place.member, hform]; rfl) hvalue, hheld⟩
    rintro w ⟨-, form, hform', hw⟩
    rw [hform] at hform'
    cases hform'
    exact hw

theorem agrees_attr_object
    (h : RespelledMembers (Place.attr.Foreign ms) (MemberAgrees .attr ms) ms ms') :
    Agrees .attr (.object ms) (.object ms') := by
  intro a ha
  obtain ⟨value, hvalue, hheld⟩ := Decode.attr_object_eq_ok_iff.1 ha
  exact Decode.attr_object_eq_ok_iff.2 ⟨value,
    readsAs_of_agrees attributeValue_of_agrees h (fun _ hw => hw) (fun _ => rfl) hvalue, hheld⟩

theorem agrees_direction_object
    (h : RespelledMembers (Place.direction.Foreign ms) (MemberAgrees .direction ms) ms ms') :
    Agrees .direction (.object ms) (.object ms') := by
  intro x hx
  obtain ⟨value, hvalue, hheld⟩ := Decode.direction_object_eq_ok_iff.1 hx
  exact Decode.direction_object_eq_ok_iff.2 ⟨value,
    readsAs_of_agrees directionValue_of_agrees h (fun _ hw => hw) (fun _ => rfl) hvalue, hheld⟩

/-- The one member of an operand stays where it is. -/
theorem agrees_operand_object
    (h : RespelledMembers (Place.operand.Foreign ms) (MemberAgrees .operand ms) ms ms') :
    Agrees .operand (.object ms) (.object ms') := by
  intro e he
  obtain ⟨key, c, hms, hread⟩ := Held.operand_cases he
  have hms := Document.object.inj hms
  cases h with
  | permute h =>
    rw [hms] at h
    rw [List.perm_singleton.1 h.symm, ← hms]
    exact he
  | add s ms hw => exact hw.elim
  | @member key' d d' before after hd =>
    cases before with
    | cons m before => simp at hms
    | nil =>
      obtain ⟨⟨⟩, rfl⟩ := List.cons.inj hms
      have hd := hd.2
      rw [Place.member] at hd
      rw [List.nil_append, Held.operand]
      obtain ⟨a, rfl, hkey, ha⟩ | ⟨f, rfl, hkey, hf⟩ | ⟨l, rfl, hkey, hl⟩ := hread
      · rw [hkey] at hd
        exact bind_eq_ok_iff.2 ⟨_, hkey, map_eq_ok_iff.2 ⟨a, hd a ha, rfl⟩⟩
      · rw [hkey] at hd
        exact bind_eq_ok_iff.2 ⟨_, hkey, map_eq_ok_iff.2 ⟨f, hd f hf, rfl⟩⟩
      · rw [hkey] at hd
        exact bind_eq_ok_iff.2
          ⟨_, hkey, map_eq_ok_iff.2 ⟨l, eq_of_agrees_other Held.thin_of_literal hd hl, rfl⟩⟩

/-- An object with at most one member stays as it is, if the value of that member does. -/
theorem agrees_other_object
    (h : RespelledMembers (Place.other.Foreign ms) (MemberAgrees .other ms) ms ms') :
    Agrees .other (.object ms) (.object ms') := by
  intro hthin
  obtain ⟨hlength, hthin⟩ := Bool.and_eq_true_iff.1 hthin
  cases h with
  | permute h =>
    have hlength := of_decide_eq_true hlength
    rcases Nat.le_one_iff_eq_zero_or_eq_one.1 hlength with hzero | hone
    · obtain rfl := List.eq_nil_of_length_eq_zero hzero
      rw [h.nil_eq]
    · obtain ⟨m, rfl⟩ := List.length_eq_one_iff.1 hone
      rw [List.perm_singleton.1 h.symm]
  | add s ms hw => exact hw.elim
  | @member key d d' before after hd =>
    rw [hd.2 (Document.thinMembers_iff.1 hthin (key, d) (by simp))]

end Objects

/-! ## Arrays -/

/-- Items in their places are read alike if one of them is changed and is read alike. -/
theorem positional_of_agrees {σ : Type} {type : σ → Type} [DecidableEq σ] {place : σ → Place}
    {read : (s : σ) → Document → Except ReadError (type s)}
    (hread : ∀ {s d d' v}, Agrees (place s) d d' → read s d = .ok v → read s d' = .ok v)
    {e : ReadError} {d d' : Document} {before after : List Document} {fields : List σ}
    {parts : Parts type} (hd : Agrees (.ofIndex place fields before.length) d d')
    (h : Decode.positional e read fields (before ++ d :: after) = .ok parts) :
    Decode.positional e read fields (before ++ d' :: after) = .ok parts := by
  induction before generalizing fields parts with
  | nil =>
    cases fields with
    | nil => cases h
    | cons s fields =>
      obtain ⟨v, hv, h⟩ := bind_eq_ok_iff.1 h
      exact bind_eq_ok_iff.2 ⟨v, hread hd hv, h⟩
  | cons c before ih =>
    cases fields with
    | nil => cases h
    | cons s fields =>
      obtain ⟨v, hv, h⟩ := bind_eq_ok_iff.1 h
      obtain ⟨rest, hrest, h⟩ := bind_eq_ok_iff.1 h
      exact bind_eq_ok_iff.2 ⟨v, hv, bind_eq_ok_iff.2 ⟨rest, ih hd hrest, h⟩⟩

/-- So they are in a record. -/
theorem record_array_of_agrees {σ : Type} {type : σ → Type} [DecidableEq σ] [Vocabulary σ]
    {place : σ → Place} {access : Access} {name : String}
    {read : (s : σ) → Document → Except ReadError (type s)}
    (hread : ∀ {s d d' v}, Agrees (place s) d d' → read s d = .ok v → read s d' = .ok v)
    {d d' : Document} {before after : List Document} {parts : Parts type}
    (hd : Agrees (.ofIndex place Vocabulary.all before.length) d d')
    (h : Decode.record access name read (.array (before ++ d :: after)) = .ok parts) :
    Decode.record access name read (.array (before ++ d' :: after)) = .ok parts := by
  have hlength : (before ++ d' :: after).length = (before ++ d :: after).length := by simp
  rw [Decode.record] at h ⊢
  rw [hlength]
  exact positional_of_agrees hread hd h

namespace Held

/-- An array is a relation if its first item names the form and the others give its
fields, in order. -/
theorem relation_array_eq_ok_iff {t : Document} {items : List Document} {r : Relation} :
    relation (.array (t :: items)) = .ok r ↔ tag t = .ok r.form ∧
      ∃ parts, Decode.positional
          (Decode.lengthError .held (.fieldsOf r.form.title r.form.fields.length)
            r.form.fields.length items.length) relationValue r.form.fields items = .ok parts ∧
        ∀ p ∈ r.parts, parts.get? p.1 = some p.2 := by
  rw [relation]
  simp only [bind_eq_ok_iff, RelationForm.assemble_eq_ok_iff, relationItems_eq]
  constructor
  · rintro ⟨_, hform, parts, hparts, rfl, hheld⟩
    exact ⟨hform, parts, hparts, hheld⟩
  · rintro ⟨hform, parts, hparts, hheld⟩
    exact ⟨_, hform, parts, hparts, rfl, hheld⟩

/-- An array is a function if its first item names the form and the others give its
fields, in order. -/
theorem function_array_eq_ok_iff {t : Document} {items : List Document} {f : Function} :
    function (.array (t :: items)) = .ok f ↔ tag t = .ok f.form ∧
      ∃ parts, Decode.positional
          (Decode.lengthError .held (.fieldsOf f.form.title f.form.fields.length)
            f.form.fields.length items.length) functionValue f.form.fields items = .ok parts ∧
        ∀ p ∈ f.parts, parts.get? p.1 = some p.2 := by
  rw [function]
  simp only [bind_eq_ok_iff, FunctionForm.assemble_eq_ok_iff, functionItems_eq]
  constructor
  · rintro ⟨_, hform, parts, hparts, rfl, hheld⟩
    exact ⟨hform, parts, hparts, hheld⟩
  · rintro ⟨hform, parts, hparts, hheld⟩
    exact ⟨_, hform, parts, hparts, rfl, hheld⟩

end Held

section Arrays

variable {d d' : Document} {before after : List Document}

theorem agrees_relation_array
    (hd : Respelled (Place.relation.item (before ++ d :: after) before.length) d d')
    (h : Agrees (Place.relation.item (before ++ d :: after) before.length) d d') :
    Agrees .relation (.array (before ++ d :: after)) (.array (before ++ d' :: after)) := by
  intro r hr
  cases before with
  | nil => exact (not_respelled_tag (Held.relation_array_eq_ok_iff.1 hr).1 hd).elim
  | cons t before =>
    rw [List.cons_append] at h hr ⊢
    obtain ⟨hform, parts, hparts, hheld⟩ := Held.relation_array_eq_ok_iff.1 hr
    have hlength : (before ++ d' :: after).length = (before ++ d :: after).length := by simp
    rw [List.length_cons, Place.item, hform] at h
    refine Held.relation_array_eq_ok_iff.2 ⟨hform, parts, ?_, hheld⟩
    rw [hlength]
    exact positional_of_agrees relationValue_of_agrees h hparts

theorem agrees_function_array
    (hd : Respelled (Place.function.item (before ++ d :: after) before.length) d d')
    (h : Agrees (Place.function.item (before ++ d :: after) before.length) d d') :
    Agrees .function (.array (before ++ d :: after)) (.array (before ++ d' :: after)) := by
  intro f hf
  cases before with
  | nil => exact (not_respelled_tag (Held.function_array_eq_ok_iff.1 hf).1 hd).elim
  | cons t before =>
    rw [List.cons_append] at h hf ⊢
    obtain ⟨hform, parts, hparts, hheld⟩ := Held.function_array_eq_ok_iff.1 hf
    have hlength : (before ++ d' :: after).length = (before ++ d :: after).length := by simp
    rw [List.length_cons, Place.item, hform] at h
    refine Held.function_array_eq_ok_iff.2 ⟨hform, parts, ?_, hheld⟩
    rw [hlength]
    exact positional_of_agrees functionValue_of_agrees h hparts

theorem agrees_attr_array (h : Agrees (Place.attr.item (before ++ d :: after) before.length) d d') :
    Agrees .attr (.array (before ++ d :: after)) (.array (before ++ d' :: after)) := by
  intro a ha
  obtain ⟨parts, hparts, ha⟩ := bind_eq_ok_iff.1 ha
  exact bind_eq_ok_iff.2 ⟨parts, record_array_of_agrees attributeValue_of_agrees h hparts, ha⟩

theorem agrees_direction_array
    (h : Agrees (Place.direction.item (before ++ d :: after) before.length) d d') :
    Agrees .direction (.array (before ++ d :: after)) (.array (before ++ d' :: after)) := by
  intro x hx
  obtain ⟨parts, hparts, hx⟩ := bind_eq_ok_iff.1 hx
  exact bind_eq_ok_iff.2 ⟨parts, record_array_of_agrees directionValue_of_agrees h hparts, hx⟩

theorem agrees_list_array {p : Place} (h : Agrees p d d') :
    Agrees (.list p) (.array (before ++ d :: after)) (.array (before ++ d' :: after)) := by
  rintro _ ⟨⟩
  refine ⟨_, rfl, ?_⟩
  have hrefl : ∀ items : List Document, List.Forall₂ (Agrees p) items items :=
    fun items => List.forall₂_same.2 fun e _ => Agrees.refl p e
  exact List.rel_append (hrefl before) (.cons h (hrefl after))

theorem agrees_named_array {p : Place}
    (h : Agrees ((Place.named p).item (before ++ d :: after) before.length) d d') :
    Agrees (.named p) (.array (before ++ d :: after)) (.array (before ++ d' :: after)) := by
  intro x y hxy hthin
  have hxy := Document.array.inj hxy
  cases before with
  | nil =>
    -- the name, which does not change
    obtain ⟨rfl, rfl⟩ := List.cons.inj hxy
    obtain rfl : d' = d := h hthin
    exact ⟨y, rfl, Agrees.refl p y⟩
  | cons c before =>
    cases before with
    | nil =>
      obtain ⟨rfl, hrest⟩ := List.cons.inj hxy
      obtain ⟨rfl, rfl⟩ := List.cons.inj hrest
      exact ⟨d', rfl, h⟩
    | cons c' before => simp at hxy

theorem agrees_other_array (h : Agrees .other d d') :
    Agrees .other (.array (before ++ d :: after)) (.array (before ++ d' :: after)) := by
  intro hthin
  rw [h (Document.thinItems_iff.1 hthin d (by simp))]

end Arrays

/-! ## One change keeps what is read -/

theorem agrees_object {p : Place} {ms ms' : List (Key × Document)}
    (h : RespelledMembers (p.Foreign ms) (MemberAgrees p ms) ms ms') :
    Agrees p (.object ms) (.object ms') := by
  cases p with
  | relation => exact agrees_relation_object h
  | function => exact agrees_function_object h
  | operand => exact agrees_operand_object h
  | attr => exact agrees_attr_object h
  | direction => exact agrees_direction_object h
  | other => exact agrees_other_object h
  | list p =>
    intro items hitems
    cases hitems
  | named p =>
    intro x y hxy
    cases hxy

theorem agrees_array {p : Place} {d d' : Document} {before after : List Document}
    (hd : Respelled (p.item (before ++ d :: after) before.length) d d')
    (h : Agrees (p.item (before ++ d :: after) before.length) d d') :
    Agrees p (.array (before ++ d :: after)) (.array (before ++ d' :: after)) := by
  cases p with
  | relation => exact agrees_relation_array hd h
  | function => exact agrees_function_array hd h
  | operand =>
    intro e he
    cases he
  | attr => exact agrees_attr_array h
  | direction => exact agrees_direction_array h
  | list p => exact agrees_list_array h
  | named p => exact agrees_named_array h
  | other => exact agrees_other_array h

/-- One change to the spelling of a document keeps what is read from it. -/
theorem Respelled.agrees {p : Place} {d d' : Document} (h : Respelled p d d') : Agrees p d d' := by
  induction h with
  | permute p h => exact agrees_object (.permute h)
  | add p s ms h => exact agrees_object (.add s ms h)
  | member p before after h ih => exact agrees_object (.member before after ⟨h, ih⟩)
  | item p before after h ih => exact agrees_array h ih

/-! ## Whole documents -/

/-- One change to an object is one to its members. -/
theorem Respelled.exists_members {p : Place} {ms : List (Key × Document)} {d : Document}
    (h : Respelled p (.object ms) d) : ∃ ms', d = .object ms' ∧
      RespelledMembers (p.Foreign ms) (fun key => Respelled (p.member ms key)) ms ms' := by
  cases h with
  | permute _ h => exact ⟨_, rfl, .permute h⟩
  | add _ s _ h => exact ⟨_, rfl, .add s _ h⟩
  | member _ before after h => exact ⟨_, rfl, .member before after h⟩

/-- Nothing becomes unreadable by a change, and nothing nests more deeply. -/
theorem Respelled.sound {p : Place} {d d' : Document} (h : Respelled p d d') {room : Nat}
    (hd : d.sound room = true) : d'.sound room = true := by
  induction h generalizing room with
  | permute p h =>
    obtain ⟨hroom, hms⟩ := Bool.and_eq_true_iff.1 hd
    refine Bool.and_eq_true_iff.2 ⟨hroom, Document.soundMembers_iff.2 fun m hm => ?_⟩
    exact Document.soundMembers_iff.1 hms m (h.mem_iff.2 hm)
  | add p s ms h => exact hd
  | member p before after h ih =>
    obtain ⟨hroom, hms⟩ := Bool.and_eq_true_iff.1 hd
    refine Bool.and_eq_true_iff.2 ⟨hroom, ?_⟩
    rw [Document.soundMembers_iff] at hms ⊢
    rw [List.forall_mem_append, List.forall_mem_cons] at hms ⊢
    exact ⟨hms.1, ⟨hms.2.1.1, ih hms.2.1.2⟩, hms.2.2⟩
  | item p before after h ih =>
    obtain ⟨hroom, hitems⟩ := Bool.and_eq_true_iff.1 hd
    refine Bool.and_eq_true_iff.2 ⟨hroom, ?_⟩
    rw [Document.soundItems_iff] at hitems ⊢
    rw [List.forall_mem_append, List.forall_mem_cons] at hitems ⊢
    exact ⟨hitems.1, ih hitems.2.1, hitems.2.2⟩

namespace Decode

/-- The check of a relation that is read into memory still passes after a change. -/
theorem hold_respelled {room : Nat} {words : List String} {d d' : Document}
    (h : Respelled .relation d d') (hd : hold room "relation" words d = .ok ()) :
    hold room "relation" words d' = .ok () := by
  cases d with
  | object ms =>
    obtain ⟨ms', rfl, hms⟩ := h.exists_members
    obtain ⟨hsound, htag⟩ := hold_object_eq_ok_iff.1 hd
    have hp : ∀ w, Place.relation.Foreign ms w → (Key.text w == .text "relation") = false := by
      rintro w ⟨hw, -⟩
      simpa using hw
    refine hold_object_eq_ok_iff.2 ⟨h.sound hsound, ?_⟩
    obtain hnil | ⟨w, hw, hvalue⟩ := htag
    · exact .inl (hms.valuesAt_eq_nil hp hnil)
    · obtain ⟨e', he', rfl | ⟨key, -, hchange⟩⟩ := hms.valuesAt_eq_singleton hp hvalue
      · exact .inr ⟨w, hw, he'⟩
      · exact (not_respelled_string hchange).elim
  | array items =>
    have hsound : ∀ {room}, (Document.array items).sound room = true → d'.sound room = true :=
      h.sound
    cases h with
    | item _ before after h =>
      cases before with
      | nil =>
        obtain ⟨-, w, -, rfl⟩ := hold_array_eq_ok_iff.1 hd
        exact (not_respelled_string h).elim
      | cons t before =>
        obtain ⟨hroom, htag⟩ := hold_array_eq_ok_iff.1 hd
        exact hold_array_eq_ok_iff.2 ⟨hsound hroom, htag⟩
  | _ => cases h

/-- A document that is accepted as a relation stays accepted after a change, and as
the same relation. -/
theorem relation_respelled {room : Nat} {d d' : Document} {r : Relation}
    (h : Respelled .relation d d') (hd : relation room d = .ok r) : relation room d' = .ok r := by
  obtain ⟨⟨⟩, hhold, hread⟩ := bind_eq_ok_iff.1 hd
  exact bind_eq_ok_iff.2 ⟨⟨⟩, hold_respelled h hhold, h.agrees r hread⟩

end Decode

/-- The members of an object may stand in any order, and those with names of no field may be
added, anywhere in the document of a text: it is accepted as the same relation, and so is every
text that spells it. -/
theorem decodeRelation_respelled {text : String} {r : Relation} {d : Document}
    (h : decodeRelation .json text = .ok r)
    (hsteps : Relation.ReflTransGen (Respelled .relation) (Source.ofText text).document d) :
    Decode.relation Document.maxDepth d = .ok r ∧
    ∀ text', Source.ofText text' = ⟨d, true⟩ → decodeRelation .json text' = .ok r := by
  have hread : Decode.relation Document.maxDepth d = .ok r := by
    induction hsteps with
    | refl => exact relation_of_decodeRelation h
    | tail _ hstep ih => exact Decode.relation_respelled hstep ih
  refine ⟨hread, fun text' htext' => ?_⟩
  rw [decodeRelation, htext', Source.decode, hread]
  rfl

/-- The reverse of a relation variable with one attribute. -/
def reversed : Relation := .reverse (.base "r" ⟨[⟨"a", .integer⟩]⟩)

/-- An attribute with a remark. -/
def annotatedAttr : Document :=
  .ofFields [("unit", .string "s"), ("name", .string "a"), ("kind", .string "integer")]

/-- The same reverse with the members of both relations in the opposite order, and with a remark on
each of them and on the attribute. -/
def annotated : Document :=
  .ofFields [
    ("operand", .ofFields [("header", .array [annotatedAttr]), ("name", .string "r"),
      ("relation", .string "base"), ("right", .string "read only")]),
    ("relation", .string "reverse"), ("note", .string "newest first")]

theorem decodeRelation_respelled_annotated :
    decodeRelation .json (reversed.toDocument.render false) = .ok reversed ∧
    Relation.ReflTransGen (Respelled .relation)
      (Source.ofText (reversed.toDocument.render false)).document annotated ∧
    decodeRelation .json (annotated.render true) = .ok reversed := by
  have hread : decodeRelation .json (reversed.toDocument.render false) = .ok reversed :=
    (decode_render false).2 reversed (by decide) (by decide)
  have hoperand : ∀ {d d'}, Respelled .relation d d' →
      Respelled .relation (.ofFields [("relation", .string "reverse"), ("operand", d)])
        (.ofFields [("relation", .string "reverse"), ("operand", d')]) :=
    fun h => .member .relation [(.text "relation", .string "reverse")] [] h
  have hattr : Respelled .attr (Attribute.mk "a" .integer).toDocument annotatedAttr :=
    .add .attr "s" _ (by
      unfold Place.Foreign
      decide)
  have hsteps : Relation.ReflTransGen (Respelled .relation) reversed.toDocument annotated :=
    .head (hoperand
      (.member .relation [(.text "relation", .string "base"), (.text "name", .string "r")] []
      (.item (.list .attr) [] [] hattr))) <|
    .head (hoperand (.add .relation "read only" _ ⟨by decide, .base, rfl, by decide⟩)) <|
    .head (hoperand (.permute .relation (List.reverse_perm _).symm)) <|
    .head (.add .relation "newest first" _ ⟨by decide, .reverse, rfl, by decide⟩) <|
    .single (.permute .relation (List.reverse_perm _).symm)
  have hdocument :
      (Source.ofText (reversed.toDocument.render false)).document = reversed.toDocument := by
    rw [Source.ofText_render false (reversed.survives_toDocument (by decide))]
  rw [← hdocument] at hsteps
  exact ⟨hread, hsteps,
    (decodeRelation_respelled hread hsteps).2 _ (Source.ofText_render true (by decide))⟩

end RelAlg
