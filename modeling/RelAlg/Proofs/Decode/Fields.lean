import RelAlg.Proofs.Except
import RelAlg.Proofs.Vocabulary

/-!
# Records read field by field

Attributes, directions, functions and relations are all read by one loop over the members of an
object, or by one walk along the items of an array.  What such a loop makes of a record that
was written field by field, and where the value of a field came from, is settled here once for
all of them.

* `Parts.get?_of_mem`    : among parts of different fields each is found by its field;
* `readMembers`          : the loop over the members of an object;
* `readMembers_written`  : a record written field by field is read field by field;
* `exists_memberValue?`  : a field that was read was read from the first member for it;
* `Decode.exists_itemValue?`: a field of an array was read from the item in its place.
-/

namespace RelAlg

/-! ## Parts -/

namespace Parts

section

variable {σ : Type} {type : σ → Type} [DecidableEq σ]

@[simp] theorem get?_nil (s : σ) : get? ([] : Parts type) s = none := rfl

@[simp] theorem get?_cons_self (s : σ) (v : type s) (parts : Parts type) :
    get? (⟨s, v⟩ :: parts) s = some v := by
  rw [get?, dif_pos rfl]

theorem get?_cons_of_ne {s t : σ} (h : t ≠ s) (v : type t) (parts : Parts type) :
    get? (⟨t, v⟩ :: parts) s = get? parts s := by
  rw [get?, dif_neg h]

/-- Among parts of different fields each is found by its field. -/
theorem get?_of_mem {parts : Parts type} (h : (parts.map Sigma.fst).Nodup) {p : (s : σ) × type s}
    (hp : p ∈ parts) : parts.get? p.1 = some p.2 := by
  induction parts with
  | nil => cases hp
  | cons q parts ih =>
    obtain ⟨hq, hparts⟩ := List.nodup_cons.1 h
    rcases List.mem_cons.1 hp with rfl | hp
    · exact get?_cons_self _ _ _
    · rw [get?_cons_of_ne, ih hparts hp]
      exact fun heq => hq (heq ▸ List.mem_map_of_mem hp)

end

theorem need_eq_ok_iff {σ : Type} {type : σ → Type} [DecidableEq σ] [Vocabulary σ]
    {parts : Parts type} {s : σ} {v : type s} :
    parts.need s = .ok v ↔ parts.get? s = some v := by
  rw [need]
  cases parts.get? s <;> simp

end Parts

/-! ## Members of an object -/

/-- The field that a member of this name is for, if its name can name a field. -/
def memberOf? {σ : Type} [Vocabulary σ] (fields : List σ) (key : Key) : Option σ :=
  match fieldOf? fields key with
  | .ok s? => s?
  | .error _ => none

section Members

variable {σ : Type} {type : σ → Type} [DecidableEq σ] [Vocabulary σ]

section Loop

variable (skips : Key → Bool) (ignores : Document → Bool) (fields : List σ)
  (read : (s : σ) → Document → Except ReadError (type s))

/-- The fields of an object.  Members whose names `skips` accepts are for something else, and those
for no field must satisfy `ignores`. -/
def readMembers (done : Parts type) : List (Key × Document) → Except ReadError (Parts type)
  | [] => .ok done
  | (key, d) :: rest =>
    if skips key then readMembers done rest
    else do
      match ← nextField fields done key with
      | none => if ignores d then readMembers done rest else .error .malformed
      | some s => do
        let v ← read s d
        readMembers (⟨s, v⟩ :: done) rest

/-- The value of a field among the members: that of the first member for it. -/
def memberValue? (s : σ) (ms : List (Key × Document)) : Option Document :=
  (ms.find? fun m => !skips m.1 && memberOf? fields m.1 == some s).map (·.2)

end Loop

variable {skips : Key → Bool} {ignores : Document → Bool} {fields : List σ}
  {read : (s : σ) → Document → Except ReadError (type s)}

theorem mem_of_memberValue? {s : σ} {ms : List (Key × Document)} {e : Document}
    (h : memberValue? skips fields s ms = some e) : ∃ key, (key, e) ∈ ms := by
  obtain ⟨m, hm, rfl⟩ := Option.map_eq_some_iff.1 h
  exact ⟨m.1, List.mem_of_find?_eq_some hm⟩

/-- One member of an object, for a field that has not been read. -/
theorem readMembers_cons {done : Parts type} {key : Key} {s : σ} {d : Document} {v : type s}
    (hskip : skips key = false) (hkey : fieldOf? fields key = .ok (some s))
    (hdone : done.get? s = none) (hread : read s d = .ok v) (rest : List (Key × Document)) :
    readMembers skips ignores fields read done ((key, d) :: rest)
      = readMembers skips ignores fields read (⟨s, v⟩ :: done) rest := by
  have hnext : nextField fields done key = .ok (some s) := by
    rw [nextField, hkey]
    show (if (done.get? s).isSome then _ else _) = _
    rw [hdone]
    rfl
  rw [readMembers, if_neg (by simp [hskip]), hnext]
  show (read s d >>= _) = _
  rw [hread]
  rfl

/-- Members written for different fields are read one after the other. -/
theorem readMembers_map (write : (s : σ) → type s → Document)
    (hwords : (fields.map Vocabulary.word).Nodup) (parts done : Parts type)
    (hnodup : (parts.map Sigma.fst).Nodup)
    (h : ∀ p ∈ parts, p.1 ∈ fields ∧ skips (.text (Vocabulary.word p.1)) = false ∧
      done.get? p.1 = none ∧ read p.1 (write p.1 p.2) = .ok p.2) :
    readMembers skips ignores fields read done
      (parts.map fun p => (.text (Vocabulary.word p.1), write p.1 p.2))
        = .ok (parts.reverse ++ done) := by
  induction parts generalizing done with
  | nil => rfl
  | cons p parts ih =>
    obtain ⟨⟨hs, hskip, hdone, hread⟩, hparts⟩ := List.forall_mem_cons.1 h
    obtain ⟨hnew, hnodup⟩ := List.nodup_cons.1 hnodup
    have hkey : fieldOf? fields (.text (Vocabulary.word p.1)) = .ok (some p.1) := by
      rw [fieldOf?, find?_word hwords hs]
    rw [List.map_cons, readMembers_cons hskip hkey hdone hread, ih _ hnodup, List.reverse_cons,
      List.append_assoc]
    · rfl
    · intro q hq
      obtain ⟨hs, hskip, hdone, hread⟩ := hparts q hq
      refine ⟨hs, hskip, ?_, hread⟩
      rw [Parts.get?_cons_of_ne, hdone]
      exact fun heq => hnew (heq ▸ List.mem_map_of_mem hq)

/-- A record written field by field is read field by field. -/
theorem readMembers_written (skips : Key → Bool) (ignores : Document → Bool)
    (write : (s : σ) → type s → Document) (hwords : (fields.map Vocabulary.word).Nodup)
    {parts : Parts type} (hfields : parts.map Sigma.fst = fields)
    (h : ∀ p ∈ parts, skips (.text (Vocabulary.word p.1)) = false ∧
      read p.1 (write p.1 p.2) = .ok p.2) :
    ∃ done, readMembers skips ignores fields read []
        (parts.map fun p => (.text (Vocabulary.word p.1), write p.1 p.2)) = .ok done ∧
      ∀ p ∈ parts, done.get? p.1 = some p.2 := by
  have hnodup : (parts.map Sigma.fst).Nodup := hfields ▸ hwords.of_map
  refine ⟨parts.reverse ++ [], readMembers_map write hwords parts [] hnodup fun p hp => ?_,
    fun p hp => ?_⟩
  · obtain ⟨hskip, hread⟩ := h p hp
    exact ⟨hfields ▸ List.mem_map_of_mem hp, hskip, rfl, hread⟩
  · rw [List.append_nil]
    refine Parts.get?_of_mem ?_ (List.mem_reverse.2 hp)
    rw [List.map_reverse]
    exact List.nodup_reverse.2 hnodup

/-- A field holds what was read from the first member for it, or what it held before. -/
theorem get?_readMembers {parts done : Parts type} {ms : List (Key × Document)}
    (h : readMembers skips ignores fields read done ms = .ok parts) (s : σ) :
    parts.get? s
      = (done.get? s).or ((memberValue? skips fields s ms).bind fun d => (read s d).toOption) := by
  induction ms generalizing done with
  | nil =>
    cases h
    simp [memberValue?]
  | cons m ms ih =>
    obtain ⟨key, d⟩ := m
    rw [readMembers] at h
    by_cases hskip : skips key = true
    · rw [if_pos hskip] at h
      rw [ih h]
      simp [memberValue?, hskip]
    · rw [if_neg hskip] at h
      obtain ⟨s?, hnext, h⟩ := bind_eq_ok_iff.1 h
      obtain ⟨t?, hkey, hnext⟩ := bind_eq_ok_iff.1 hnext
      have hfor : memberOf? fields key = t? := by rw [memberOf?, hkey]
      cases t? with
      | none =>
        cases hnext
        change (if ignores d then _ else _) = _ at h
        split at h
        · rw [ih h]
          simp [memberValue?, hfor]
        · cases h
      | some t =>
        change (if (done.get? t).isSome then _ else _) = _ at hnext
        split at hnext
        · cases hnext
        · rename_i hdone
          cases hnext
          obtain ⟨v, hread, h⟩ := bind_eq_ok_iff.1 h
          rw [ih h]
          -- a field that has been read is not read again, so the first member for it decides
          by_cases hts : t = s
          · subst hts
            simp_all [memberValue?, Except.toOption]
          · rw [Parts.get?_cons_of_ne hts]
            simp [memberValue?, hfor, hts]

/-- A field that was read was read from the first member for it. -/
theorem exists_memberValue? {parts : Parts type} {ms : List (Key × Document)}
    (h : readMembers skips ignores fields read [] ms = .ok parts) {s : σ} {v : type s}
    (hv : parts.get? s = some v) :
    ∃ e, memberValue? skips fields s ms = some e ∧ read s e = .ok v := by
  rw [get?_readMembers h, Parts.get?_nil, Option.none_or, Option.bind_eq_some_iff] at hv
  obtain ⟨e, he, hread⟩ := hv
  exact ⟨e, he, toOption_eq_some_iff.1 hread⟩

end Members

/-! ## Items of an array -/

section Items

variable {σ : Type} {type : σ → Type} [DecidableEq σ]

/-- The value of a field among the items: that of the item in its place. -/
def itemValue? (fields : List σ) (s : σ) (items : List Document) : Option Document :=
  ((fields.zip items).find? (·.1 == s)).map (·.2)

theorem mem_of_itemValue? {fields : List σ} {s : σ} {items : List Document} {e : Document}
    (h : itemValue? fields s items = some e) : e ∈ items := by
  obtain ⟨p, hp, rfl⟩ := Option.map_eq_some_iff.1 h
  exact (List.of_mem_zip (List.mem_of_find?_eq_some hp)).2

/-- A field of an array holds what was read from the item in its place. -/
theorem Decode.get?_positional {read : (s : σ) → Document → Except ReadError (type s)}
    {wrongLength : ReadError} {fields : List σ} {items : List Document} {parts : Parts type}
    (h : positional wrongLength read fields items = .ok parts) (s : σ) :
    parts.get? s = (itemValue? fields s items).bind fun d => (read s d).toOption := by
  induction fields generalizing items parts with
  | nil =>
    cases items with
    | nil => cases h; rfl
    | cons d items => cases h
  | cons t fields ih =>
    cases items with
    | nil => cases h
    | cons d items =>
      obtain ⟨v, hread, h⟩ := bind_eq_ok_iff.1 h
      obtain ⟨rest, hrest, h⟩ := bind_eq_ok_iff.1 h
      cases h
      by_cases hts : t = s
      · subst hts
        simp [itemValue?, hread, Except.toOption]
      · rw [Parts.get?_cons_of_ne hts, ih hrest]
        simp [itemValue?, hts]

/-- A field of an array was read from the item in its place. -/
theorem Decode.exists_itemValue? {read : (s : σ) → Document → Except ReadError (type s)}
    {wrongLength : ReadError} {fields : List σ} {items : List Document} {parts : Parts type}
    (h : positional wrongLength read fields items = .ok parts) {s : σ} {v : type s}
    (hv : parts.get? s = some v) : ∃ e, itemValue? fields s items = some e ∧ read s e = .ok v := by
  rw [Decode.get?_positional h, Option.bind_eq_some_iff] at hv
  obtain ⟨e, he, hread⟩ := hv
  exact ⟨e, he, toOption_eq_some_iff.1 hread⟩

end Items

/-! ## Depth -/

namespace Document

theorem depth_le_depthItems {d : Document} {items : List Document} (h : d ∈ items) :
    d.depth ≤ depthItems items := by
  induction items with
  | nil => cases h
  | cons e items ih =>
    rcases List.mem_cons.1 h with rfl | h
    · exact Nat.le_max_left _ _
    · exact Nat.le_trans (ih h) (Nat.le_max_right _ _)

theorem depth_le_depthMembers {m : Key × Document} {ms : List (Key × Document)} (h : m ∈ ms) :
    m.2.depth ≤ depthMembers ms := by
  induction ms with
  | nil => cases h
  | cons n ms ih =>
    rcases List.mem_cons.1 h with rfl | h
    · exact Nat.le_max_left _ _
    · exact Nat.le_trans (ih h) (Nat.le_max_right _ _)

variable {σ : Type} [DecidableEq σ]

theorem depth_le_of_memberValue? [Vocabulary σ] {skips : Key → Bool} {fields : List σ} {s : σ}
    {ms : List (Key × Document)} {e : Document} (h : memberValue? skips fields s ms = some e) :
    e.depth ≤ depthMembers ms := by
  obtain ⟨key, hm⟩ := mem_of_memberValue? h
  exact depth_le_depthMembers hm

theorem depth_le_of_itemValue? {fields : List σ} {s : σ} {items : List Document} {e : Document}
    (h : itemValue? fields s items = some e) : e.depth ≤ depthItems items :=
  depth_le_depthItems (mem_of_itemValue? h)

end Document

end RelAlg
