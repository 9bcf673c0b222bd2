import RelAlg.Proofs.Decode.Form

/-!
# Members in any order

What is read from an object depends on the values that its members give to each name, and not on
where the members stand.  Putting them into another order, adding one for a name that nobody reads
and spelling the value of one differently are therefore settled together, for every kind of record.

* `valuesAt`              : the values of the members whose names satisfy a condition;
* `Held.formOf_eq_ok_iff` : what it takes to name a form;
* `ReadsAs`, `readsAs_iff`: what it takes to be read as a record, and which one;
* `RespelledMembers`      : one change to the members of an object;
* `RespelledMembers.formOf`, `RespelledMembers.readsAs`: it changes neither the form nor the record.
-/

namespace RelAlg

/-! ## Values of members -/

/-- The values of the members whose names satisfy `p`, in order. -/
def valuesAt (p : Key → Bool) (ms : List (Key × Document)) : List Document :=
  (ms.filter fun m => p m.1).map (·.2)

section Values

variable {p : Key → Bool} {key : Key} {d : Document} {ms ms' : List (Key × Document)}

@[simp] theorem valuesAt_nil : valuesAt p [] = [] := rfl

theorem valuesAt_cons_of_pos (h : p key = true) :
    valuesAt p ((key, d) :: ms) = d :: valuesAt p ms := by
  simp [valuesAt, h]

theorem valuesAt_cons_of_neg (h : p key = false) : valuesAt p ((key, d) :: ms) = valuesAt p ms := by
  simp [valuesAt, h]

theorem valuesAt_eq_nil_iff : valuesAt p ms = [] ↔ ∀ m ∈ ms, p m.1 = false := by
  simp [valuesAt]

theorem valuesAt_append : valuesAt p (ms ++ ms') = valuesAt p ms ++ valuesAt p ms' := by
  simp [valuesAt]

theorem valuesAt_perm (h : ms.Perm ms') : (valuesAt p ms).Perm (valuesAt p ms') :=
  (h.filter _).map _

end Values

/-! ## The form -/

namespace Held

/-- An object names a form if exactly one member has the name and its value is a tag
of that form. -/
theorem formOf_eq_ok_iff {φ : Type} [Vocabulary φ] {name : String} {found : Option φ}
    {ms : List (Key × Document)} {form : φ} : formOf name found ms = .ok form ↔
      (found = some form ∧ valuesAt (· == .text name) ms = []) ∨
      (found = none ∧ ∃ d, valuesAt (· == .text name) ms = [d] ∧ tag d = .ok form) := by
  induction ms generalizing found with
  | nil => cases found <;> simp [formOf]
  | cons m ms ih =>
    obtain ⟨key, d⟩ := m
    by_cases hkey : key = .text name
    · have hvalues : valuesAt (· == .text name) ((key, d) :: ms)
          = d :: valuesAt (· == .text name) ms := valuesAt_cons_of_pos (beq_iff_eq.2 hkey)
      rw [hvalues]
      cases found with
      | some f => simp [formOf, hkey]
      | none =>
        rw [formOf, if_pos hkey, bind_eq_ok_iff]
        constructor
        · rintro ⟨f, hf, h⟩
          obtain ⟨⟨⟩, hrest⟩ | ⟨⟨⟩, -⟩ := ih.1 h
          exact .inr ⟨rfl, d, by rw [hrest], hf⟩
        · rintro (⟨⟨⟩, -⟩ | ⟨-, e, hvalue, he⟩)
          obtain ⟨rfl, hrest⟩ := List.cons.inj hvalue
          exact ⟨form, he, ih.2 (.inl ⟨rfl, hrest⟩)⟩
    · have hvalues : valuesAt (· == .text name) ((key, d) :: ms)
          = valuesAt (· == .text name) ms := valuesAt_cons_of_neg (beq_eq_false_iff_ne.2 hkey)
      have hskip : formOf name found ((key, d) :: ms) = formOf name found ms := by
        cases found <;> rw [formOf, if_neg hkey]
      rw [hvalues, hskip, ih]

end Held

/-! ## Records -/

section Records

variable {σ : Type} {type : σ → Type} [DecidableEq σ] [Vocabulary σ] {skips : Key → Bool}
  {ignores : Document → Bool} {fields : List σ}
  {read : (s : σ) → Document → Except ReadError (type s)}

/-- Members with this name are for the field. -/
def isFor (skips : Key → Bool) (fields : List σ) (s : σ) (key : Key) : Bool :=
  !skips key && memberOf? fields key == some s

/-- The name of a member is no name for another thing, or else belongs to a field, or its value is
of no account. -/
def Named (skips : Key → Bool) (ignores : Document → Bool) (fields : List σ) (m : Key × Document) :
    Prop :=
  skips m.1 = true ∨ ∃ s?, fieldOf? fields m.1 = .ok s? ∧ (s? = none → ignores m.2 = true)

/-- The members are read as the record with the given fields. -/
def ReadsAs (skips : Key → Bool) (ignores : Document → Bool) (fields : List σ)
    (read : (s : σ) → Document → Except ReadError (type s)) (ms : List (Key × Document))
    (value : (s : σ) → Option (type s)) : Prop :=
  ∃ parts, readMembers skips ignores fields read [] ms = .ok parts ∧ ∀ s, parts.get? s = value s

variable {done parts : Parts type} {key : Key} {d : Document} {ms : List (Key × Document)} {s : σ}

/-- The next member is for something else. -/
theorem readMembers_cons_of_skips (hskip : skips key = true) :
    readMembers skips ignores fields read done ((key, d) :: ms)
      = readMembers skips ignores fields read done ms := by
  rw [readMembers, if_pos hskip]

/-- The next member is for no field. -/
theorem readMembers_cons_of_none (hskip : skips key = false)
    (hkey : fieldOf? fields key = .ok none) :
    readMembers skips ignores fields read done ((key, d) :: ms)
      = if ignores d then readMembers skips ignores fields read done ms else .error .malformed := by
  have hnext : nextField fields done key = .ok none := by rw [nextField, hkey]; rfl
  rw [readMembers, if_neg (by simp [hskip]), hnext]
  rfl

/-- The next member is for a field. -/
theorem readMembers_cons_eq_ok_iff (hskip : skips key = false)
    (hkey : fieldOf? fields key = .ok (some s)) :
    readMembers skips ignores fields read done ((key, d) :: ms) = .ok parts ↔
      done.get? s = none ∧ ∃ v, read s d = .ok v ∧
        readMembers skips ignores fields read (⟨s, v⟩ :: done) ms = .ok parts := by
  rw [readMembers, if_neg (by simp [hskip]), nextField, hkey]
  show ((if (done.get? s).isSome then _ else _) >>= _) = _ ↔ _
  cases done.get? s with
  | some u => simp [bind_eq_ok_iff]
  | none =>
    show (read s d >>= _) = _ ↔ _
    simp [bind_eq_ok_iff]

/-- A member with a name that cannot be one is an error. -/
theorem readMembers_cons_of_error {e : ReadError} (hskip : skips key = false)
    (hkey : fieldOf? fields key = .error e) :
    readMembers skips ignores fields read done ((key, d) :: ms) = .error e := by
  rw [readMembers, if_neg (by simp [hskip]), nextField, hkey]
  rfl

/-- Members are read, behind others that are done, if their names are in order and each field is
given at most once, the others included. -/
theorem exists_readMembers_iff {value : (s : σ) → Option (type s)} :
    (∃ parts, readMembers skips ignores fields read done ms = .ok parts ∧
        ∀ s, parts.get? s = value s) ↔
      (∀ m ∈ ms, Named skips ignores fields m) ∧
      ∀ s, (valuesAt (isFor skips fields s) ms = [] ∧ value s = done.get? s) ∨
        (done.get? s = none ∧ ∃ e v, valuesAt (isFor skips fields s) ms = [e] ∧ read s e = .ok v ∧
          value s = some v) := by
  induction ms generalizing done with
  | nil => simp [readMembers, eq_comm]
  | cons m ms ih =>
    obtain ⟨key, d⟩ := m
    rw [List.forall_mem_cons]
    cases hskip : skips key with
    | true =>
      have hvalues : ∀ s, valuesAt (isFor skips fields s) ((key, d) :: ms)
          = valuesAt (isFor skips fields s) ms := fun s =>
        valuesAt_cons_of_neg (by simp [isFor, hskip])
      have hnamed : Named skips ignores fields (key, d) := .inl hskip
      simp only [readMembers_cons_of_skips hskip, ih, hvalues, hnamed, true_and]
    | false =>
      have hfor : ∀ s, isFor skips fields s key = (memberOf? fields key == some s) := fun s => by
        simp [isFor, hskip]
      cases hkey : fieldOf? fields key with
      | error e => simp [readMembers_cons_of_error hskip hkey, Named, hskip, hkey]
      | ok s? =>
        have hmember : memberOf? fields key = s? := by rw [memberOf?, hkey]
        cases s? with
        | none =>
          have hvalues : ∀ s, valuesAt (isFor skips fields s) ((key, d) :: ms)
              = valuesAt (isFor skips fields s) ms :=
            fun s => valuesAt_cons_of_neg (by simp [hfor, hmember])
          have hnamed : Named skips ignores fields (key, d) ↔ ignores d = true := by
            simp [Named, hskip, hkey]
          rw [readMembers_cons_of_none hskip hkey, hnamed]
          by_cases hignored : ignores d = true
          · simp only [hignored, if_true, ih, hvalues, true_and]
          · simp [hignored]
        | some t =>
          have hvalues : valuesAt (isFor skips fields t) ((key, d) :: ms)
              = d :: valuesAt (isFor skips fields t) ms :=
            valuesAt_cons_of_pos (by simp [hfor, hmember])
          have hothers : ∀ s, t ≠ s → valuesAt (isFor skips fields s) ((key, d) :: ms)
              = valuesAt (isFor skips fields s) ms :=
            fun s hs => valuesAt_cons_of_neg (by simp [hfor, hmember, hs])
          constructor
          · rintro ⟨parts, hparts, hvalue⟩
            obtain ⟨hdone, v, hread, hrest⟩ := (readMembers_cons_eq_ok_iff hskip hkey).1 hparts
            obtain ⟨hnamed, hfields⟩ := ih.1 ⟨parts, hrest, hvalue⟩
            refine ⟨⟨.inr ⟨_, hkey, (absurd · (Option.some_ne_none t))⟩, hnamed⟩, fun s => ?_⟩
            have hs := hfields s
            by_cases hts : t = s
            · subst hts
              rw [Parts.get?_cons_self] at hs
              obtain ⟨hnil, hv⟩ | ⟨hnone, -⟩ := hs
              · exact .inr ⟨hdone, d, v, by rw [hvalues, hnil], hread, hv⟩
              · cases hnone
            · rw [Parts.get?_cons_of_ne hts] at hs
              rwa [hothers s hts]
          · rintro ⟨⟨-, hnamed⟩, hfields⟩
            obtain ⟨hnil, -⟩ | ⟨hdone, e, v, hvalue, hread, hv⟩ := hfields t
            · rw [hvalues] at hnil
              cases hnil
            · rw [hvalues] at hvalue
              obtain ⟨rfl, hrest⟩ := List.cons.inj hvalue
              obtain ⟨parts, hparts, hheld⟩ := (@ih (⟨t, v⟩ :: done)).2 ⟨hnamed, fun s => by
                by_cases hts : t = s
                · subst hts
                  exact .inl ⟨hrest, by rw [hv, Parts.get?_cons_self]⟩
                · rw [Parts.get?_cons_of_ne hts, ← hothers s hts]
                  exact hfields s⟩
              exact ⟨parts, (readMembers_cons_eq_ok_iff hskip hkey).2 ⟨hdone, v, hread, hparts⟩,
                hheld⟩

/-- An object is read as a record if the names of its members are in order and each field is given
at most once. -/
theorem readsAs_iff {value : (s : σ) → Option (type s)} :
    ReadsAs skips ignores fields read ms value ↔
    (∀ m ∈ ms, Named skips ignores fields m) ∧
    ∀ s, (valuesAt (isFor skips fields s) ms = [] ∧ value s = none) ∨
      ∃ e v, valuesAt (isFor skips fields s) ms = [e] ∧ read s e = .ok v ∧ value s = some v := by
  rw [ReadsAs, exists_readMembers_iff]
  simp only [Parts.get?_nil, true_and]

end Records

/-! ## One change -/

/-- One change to the members of an object: another order, one more member with a foreign name, or
another value that agrees with the one before. -/
inductive RespelledMembers (foreign : String → Prop) (agrees : Key → Document → Document → Prop) :
    List (Key × Document) → List (Key × Document) → Prop where
  | permute {ms ms' : List (Key × Document)} (h : ms.Perm ms') :
    RespelledMembers foreign agrees ms ms'
  | add {w : String} (s : String) (ms : List (Key × Document)) (h : foreign w) :
    RespelledMembers foreign agrees ms ((.text w, .string s) :: ms)
  | member {key : Key} {d d' : Document} (before after : List (Key × Document))
    (h : agrees key d d') :
    RespelledMembers foreign agrees (before ++ (key, d) :: after) (before ++ (key, d') :: after)

namespace RespelledMembers

variable {foreign : String → Prop} {agrees : Key → Document → Document → Prop} {p : Key → Bool}
  {ms ms' : List (Key × Document)}

/-- Names without a value stay so, if the names asked for are not foreign. -/
theorem valuesAt_eq_nil (h : RespelledMembers foreign agrees ms ms')
    (hp : ∀ w, foreign w → p (.text w) = false) (hms : valuesAt p ms = []) :
    valuesAt p ms' = [] := by
  cases h with
  | permute h =>
    have hperm := valuesAt_perm (p := p) h
    rw [hms] at hperm
    exact hperm.nil_eq.symm
  | add s ms hw => rw [valuesAt_cons_of_neg (hp _ hw), hms]
  | @member key d d' before after hd =>
    cases hkey : p key with
    | true => simp [valuesAt_append, valuesAt_cons_of_pos hkey] at hms
    | false =>
      rw [valuesAt_append, valuesAt_cons_of_neg hkey] at hms ⊢
      exact hms

/-- Names with one value keep it, or have it replaced by one that agrees with it. -/
theorem valuesAt_eq_singleton (h : RespelledMembers foreign agrees ms ms')
    (hp : ∀ w, foreign w → p (.text w) = false) {e : Document} (hms : valuesAt p ms = [e]) :
    ∃ e', valuesAt p ms' = [e'] ∧ (e' = e ∨ ∃ key, p key = true ∧ agrees key e e') := by
  cases h with
  | permute h =>
    have hperm := valuesAt_perm (p := p) h
    rw [hms] at hperm
    exact ⟨e, List.perm_singleton.1 hperm.symm, .inl rfl⟩
  | add s ms hw => exact ⟨e, by rw [valuesAt_cons_of_neg (hp _ hw), hms], .inl rfl⟩
  | @member key d d' before after hd =>
    cases hkey : p key with
    | false =>
      rw [valuesAt_append, valuesAt_cons_of_neg hkey] at hms ⊢
      exact ⟨e, hms, .inl rfl⟩
    | true =>
      rw [valuesAt_append, valuesAt_cons_of_pos hkey] at hms ⊢
      -- one value in all, so there is none before and none after
      cases hbefore : valuesAt p before with
      | cons x xs => simp [hbefore] at hms
      | nil =>
        rw [hbefore] at hms
        obtain ⟨rfl, hafter⟩ := List.cons.inj hms
        exact ⟨d', by rw [hafter]; rfl, .inr ⟨key, hkey, hd⟩⟩

/-- Every name stood there before or is foreign. -/
theorem name_cases (h : RespelledMembers foreign agrees ms ms') {m : Key × Document}
    (hm : m ∈ ms') : (∃ d, (m.1, d) ∈ ms) ∨ ∃ w, foreign w ∧ m.1 = .text w := by
  cases h with
  | permute h => exact .inl ⟨m.2, h.mem_iff.2 hm⟩
  | add s ms hw =>
    rcases List.mem_cons.1 hm with rfl | hm
    · exact .inr ⟨_, hw, rfl⟩
    · exact .inl ⟨m.2, hm⟩
  | @member key d d' before after hd =>
    rcases List.mem_append.1 hm with hm | hm
    · exact .inl ⟨m.2, List.mem_append_left _ hm⟩
    · rcases List.mem_cons.1 hm with rfl | hm
      · exact .inl ⟨d, List.mem_append_right _ List.mem_cons_self⟩
      · exact .inl ⟨m.2, List.mem_append_right _ (List.mem_cons_of_mem _ hm)⟩

/-- The form stays, if its name is not foreign and its value does not change. -/
theorem formOf {φ : Type} [Vocabulary φ] {name : String} {form : φ}
    (h : RespelledMembers foreign agrees ms ms') (hforeign : ¬foreign name)
    (htag : ∀ d d', agrees (.text name) d d' → Held.tag d = .ok form → d' = d)
    (hform : Held.formOf name none ms = .ok form) : Held.formOf name none ms' = .ok form := by
  obtain ⟨⟨⟩, -⟩ | ⟨-, d, hd, hread⟩ := Held.formOf_eq_ok_iff.1 hform
  have hp : ∀ w, foreign w → (Key.text w == .text name) = false := by
    intro w hw
    rw [beq_eq_false_iff_ne]
    rintro ⟨⟩
    exact hforeign hw
  obtain ⟨d', hd', hagrees⟩ := h.valuesAt_eq_singleton hp hd
  obtain rfl : d' = d := by
    obtain heq | ⟨key, hkey, hagrees⟩ := hagrees
    · exact heq
    · rw [beq_iff_eq.1 hkey] at hagrees
      exact htag d d' hagrees hread
  exact Held.formOf_eq_ok_iff.2 (.inr ⟨rfl, d', hd', hread⟩)

variable {σ : Type} {type : σ → Type} [DecidableEq σ] [Vocabulary σ] {skips : Key → Bool}
  {ignores : Document → Bool} {fields : List σ}
  {read : (s : σ) → Document → Except ReadError (type s)}

/-- The record stays, if no field has a foreign name and values that agree are read alike. -/
theorem readsAs (h : RespelledMembers foreign agrees ms ms') (hignores : ∀ d, ignores d = true)
    (hforeign : ∀ w, foreign w → ∀ s ∈ fields, Vocabulary.word s ≠ w)
    (hread : ∀ key s d d', agrees key d d' → memberOf? fields key = some s →
      ∀ v, read s d = .ok v → read s d' = .ok v) {value : (s : σ) → Option (type s)}
    (hvalue : ReadsAs skips ignores fields read ms value) :
    ReadsAs skips ignores fields read ms' value := by
  have hnone : ∀ w, foreign w → fieldOf? fields (.text w) = .ok none := by
    intro w hw
    have hfind : (fields.find? fun s => Vocabulary.word s == w) = none :=
      List.find?_eq_none.2 fun s hs => by simpa using hforeign w hw s hs
    rw [fieldOf?, hfind]
  have hp : ∀ s w, foreign w → isFor skips fields s (.text w) = false := by
    intro s w hw
    simp [isFor, memberOf?, hnone w hw]
  obtain ⟨hnamed, hfields⟩ := readsAs_iff.1 hvalue
  refine readsAs_iff.2 ⟨?_, ?_⟩
  · intro m hm
    obtain ⟨d, hd⟩ | ⟨w, hw, hkey⟩ := h.name_cases hm
    · obtain hskip | ⟨s?, hs, -⟩ := hnamed _ hd
      · exact .inl hskip
      · exact .inr ⟨s?, hs, fun _ => hignores m.2⟩
    · exact .inr ⟨none, by rw [hkey, hnone w hw], fun _ => hignores m.2⟩
  · intro s
    obtain ⟨hnil, hs⟩ | ⟨e, v, he, hv, hs⟩ := hfields s
    · exact .inl ⟨h.valuesAt_eq_nil (hp s) hnil, hs⟩
    · obtain ⟨e', he', hagrees⟩ := h.valuesAt_eq_singleton (hp s) he
      refine .inr ⟨e', v, he', ?_, hs⟩
      obtain rfl | ⟨key, hkey, hagrees⟩ := hagrees
      · exact hv
      · rw [isFor, Bool.and_eq_true, beq_iff_eq] at hkey
        exact hread key s e e' hagrees hkey.2 v hv

end RespelledMembers

end RelAlg
