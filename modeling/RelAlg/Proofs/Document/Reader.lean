import Mathlib.Data.List.DropRight
import RelAlg.Proofs.Document.Number
import RelAlg.Proofs.Document.Text

/-!
# Written documents are read back

A document whose numbers have a text of their own is what a reader finds in its text, on one line
and over several lines alike.  The step count of the reader never runs out: a value takes at most
two steps a character.

* `Document.survives`   : every number is one that its text gives back, and nothing is
  broken or unreadable;
* `Scan.value_write`    : the text of such a document is read up to its end;
* `Source.ofText_render`: a whole text is read back.
-/

namespace RelAlg

namespace Document

mutual

/-- Nothing in the document is lost in its text. -/
def survives : Document → Bool
  | integer n => decide (-0x8000000000000000 ≤ n ∧ n < 0x10000000000000000)
  | float x => x.isFinite && x.readsBack
  | array items => survivesItems items
  | object members => survivesMembers members
  | minusZero | unreadable | broken => false
  | null | boolean _ | string _ => true

def survivesItems : List Document → Bool
  | [] => true
  | d :: rest => survives d && survivesItems rest

def survivesMembers : List (Key × Document) → Bool
  | [] => true
  | (.text _, d) :: rest => survives d && survivesMembers rest
  | _ :: _ => false

end

/-! ## First characters -/

/-- The characters that a reader skips. -/
def blanks : List Char := [' ', '\t', '\n', '\r']

/-- The text of a value starts neither with a blank nor with the bracket that closes an array. -/
theorem exists_cons_write (level : Option Nat) (d : Document) :
    ∃ c cs, d.write level = c :: cs ∧ c ∉ ']' :: blanks := by
  cases d with
  | boolean b => cases b <;> exact ⟨_, _, rfl, by decide⟩
  | integer n =>
    obtain ⟨c, cs, hcs⟩ := List.exists_cons_of_ne_nil (Numeral.ofInt_ne_nil n)
    refine ⟨c, cs, hcs, Numeral.notMem_of_digit_or_minus (by decide) ?_⟩
    exact Numeral.isDigit_or_eq_minus_of_mem_ofInt (n := n) (hcs ▸ List.mem_cons_self)
  | float x =>
    cases hx : x.isFinite with
    | true =>
      obtain ⟨c, cs, hcs⟩ :=
        List.exists_cons_of_ne_nil (Layout.text_ne_nil Layout.signs_document hx)
      refine ⟨c, cs, hcs, Numeral.notMem_of_digit_or_minus (by decide) ?_⟩
      exact Layout.head_text Layout.signs_document hx c (by rw [hcs]; rfl)
    | false => exact ⟨'n', ['u', 'l', 'l'], float_text_of_not_isFinite hx, by decide⟩
  | array items => cases items <;> exact ⟨_, _, by rw [write], by decide⟩
  | object members =>
    cases members with
    | nil => exact ⟨_, _, by rw [write], by decide⟩
    | cons m rest => exact ⟨_, _, by rw [write], by decide⟩
  | string s => exact ⟨_, _, by rw [write, Quoted.text], by decide⟩
  | _ => exact ⟨_, _, by rw [write], by decide⟩

end Document

namespace Scan

open Document (lineBreak colon blanks survives survivesItems survivesMembers writeItems
  writeMembers)

/-! ## Blanks -/

theorem skipBlanks_of_notMem {c : Char} (h : c ∉ blanks) (cs : List Char) :
    skipBlanks (c :: cs) = c :: cs := by
  simp only [blanks, List.mem_cons, List.not_mem_nil, or_false, not_or] at h
  simp [skipBlanks, h]

/-- Before a value there is nothing to skip. -/
theorem skipBlanks_write (level : Option Nat) (d : Document) (rest : List Char) :
    skipBlanks (d.write level ++ rest) = d.write level ++ rest := by
  obtain ⟨c, cs, hcs, hc⟩ := d.exists_cons_write level
  rw [hcs, List.cons_append, skipBlanks_of_notMem (List.not_mem_of_not_mem_cons hc)]

theorem skipBlanks_lineBreak (level : Option Nat) (cs : List Char) :
    skipBlanks (lineBreak level ++ cs) = skipBlanks cs := by
  refine List.dropWhile_append_of_pos fun c hc => ?_
  cases level with
  | none => cases hc
  | some n =>
    rcases List.mem_cons.1 hc with rfl | hc
    · rfl
    · rw [List.eq_of_mem_replicate hc]
      rfl

/-- A reader skips the blanks in front of a value itself. -/
theorem value_skipBlanks (steps : Nat) (cs : List Char) :
    value steps (skipBlanks cs) = value steps cs := by
  cases steps with
  | zero => rfl
  | succ steps => rw [value, value, skipBlanks, skipBlanks, List.dropWhile_idempotent]

theorem items_skipBlanks (steps : Nat) (cs : List Char) :
    items steps (skipBlanks cs) = items steps cs := by
  cases steps with
  | zero => rfl
  | succ steps => rw [items, items, value_skipBlanks]

theorem members_skipBlanks (steps : Nat) (cs : List Char) :
    members steps (skipBlanks cs) = members steps cs := by
  cases steps with
  | zero => rfl
  | succ steps => rw [members, members, skipBlanks, skipBlanks, List.dropWhile_idempotent]

/-! ## Scalars -/

/-- What starts with a digit or a minus sign is read as a number. -/
theorem value_of_number {c : Char} {cs rest : List Char} {d : Document} (steps : Nat)
    (hc : c.isDigit = true ∨ c = '-') (h : number (c :: cs) = some (d, rest)) :
    value (steps + 1) (c :: cs) = (d, some rest) := by
  have hskip : skipBlanks (c :: cs) = c :: cs :=
    skipBlanks_of_notMem (Numeral.notMem_of_digit_or_minus (by decide) hc) cs
  have hother : c ∉ ['[', '{', '"', 'n', 't', 'f'] :=
    Numeral.notMem_of_digit_or_minus (by decide) hc
  simp only [List.mem_cons, List.not_mem_nil, or_false, not_or] at hother
  rw [value, hskip]
  simp [hother, h]

theorem string_text (s : String) (rest : List Char) :
    ∃ cs, Quoted.text s ++ rest = '"' :: cs ∧ string cs = some (some s, rest) :=
  ⟨Quoted.body s.toList ++ '"' :: rest, by simp [Quoted.text], string_body s rest⟩

theorem value_string (steps : Nat) (s : String) (rest : List Char) :
    value (steps + 1) (Quoted.text s ++ rest) = (.string s, some rest) := by
  obtain ⟨cs, hcs, hstring⟩ := string_text s rest
  rw [hcs, value, skipBlanks_of_notMem (by decide)]
  simp [hstring]

/-! ## One step -/

/-- Behind a bracket come the items, unless the array is empty. -/
theorem value_bracket (steps : Nat) {cs : List Char} (h : ∀ rest, skipBlanks cs ≠ ']' :: rest) :
    value (steps + 1) ('[' :: cs) = ((items steps cs).map .array id) := by
  rw [value, skipBlanks_of_notMem (by decide)]
  simp only [items_skipBlanks]
  rfl

/-- Behind a brace come the members, unless the object is empty. -/
theorem value_brace (steps : Nat) {cs : List Char} (h : ∀ rest, skipBlanks cs ≠ '}' :: rest) :
    value (steps + 1) ('{' :: cs) = ((members steps cs).map .object id) := by
  rw [value, skipBlanks_of_notMem (by decide)]
  simp only [members_skipBlanks]
  rfl

theorem items_comma {steps : Nat} {cs more rest : List Char} {d : Document}
    (h : value steps cs = (d, some more)) (hcomma : skipBlanks more = ',' :: rest) :
    items (steps + 1) cs = (items steps rest).map (d :: ·) id := by
  rw [items, h]
  simp only [hcomma]
  rfl

theorem items_close {steps : Nat} {cs more rest : List Char} {d : Document}
    (h : value steps cs = (d, some more)) (hclose : skipBlanks more = ']' :: rest) :
    items (steps + 1) cs = ([d], some rest) := by
  rw [items, h]
  simp only [hclose]

/-- The name of a member is read with the colon behind it. -/
theorem members_name {steps : Nat} {cs rest : List Char} {d : Document} (level : Option Nat)
    (s : String) (h : value steps cs = (d, some rest)) :
    members (steps + 1) (Quoted.text s ++ (colon level ++ cs)) =
      match skipBlanks rest with
      | ',' :: rest => (members steps rest).map ((.text s, d) :: ·) id
      | '}' :: rest => ([(.text s, d)], some rest)
      | _ => ([(.text s, d), (.unreadable, .broken)], none) := by
  obtain ⟨tail, htail, hstring⟩ := string_text s (colon level ++ cs)
  have hvalue : ∃ tail,
      skipBlanks (colon level ++ cs) = ':' :: tail ∧ value steps tail = (d, some rest) := by
    cases level with
    | none => exact ⟨cs, skipBlanks_of_notMem (by decide) cs, h⟩
    | some n => exact ⟨' ' :: cs, skipBlanks_of_notMem (by decide) _, by
        rw [← value_skipBlanks] at h ⊢
        exact h⟩
  obtain ⟨behind, hcolon, hvalue⟩ := hvalue
  rw [members, htail, skipBlanks_of_notMem (by decide)]
  simp only [hstring, hcolon, hvalue]
  rfl

/-! ## Values -/

/-- What may follow a value inside an array or object. -/
theorem endsNumber_lineBreak (level : Option Nat) {c : Char} (cs : List Char)
    (h : c ∈ [',', ']', '}', '\n', ' ']) : EndsNumber (lineBreak level ++ c :: cs) := by
  cases level with
  | none => exact endsNumber_cons cs h
  | some n => exact endsNumber_cons _ (by decide)

theorem endsNumber_writeItems (level outer : Option Nat) (ds : List Document) (rest : List Char) :
    EndsNumber (writeItems level ds ++ (lineBreak outer ++ ']' :: rest)) := by
  cases ds with
  | nil => exact endsNumber_lineBreak outer rest (by decide)
  | cons d ds => exact endsNumber_cons _ (by decide)

theorem endsNumber_writeMembers (level outer : Option Nat) (ms : List (Key × Document))
    (rest : List Char) :
    EndsNumber (writeMembers level ms ++ (lineBreak outer ++ '}' :: rest)) := by
  cases ms with
  | nil => exact endsNumber_lineBreak outer rest (by decide)
  | cons m ms => exact endsNumber_cons _ (by decide)

mutual

/-- The text of a document is read up to its end. -/
theorem value_write : ∀ (level : Option Nat) (d : Document) (steps : Nat) (rest : List Char),
    d.survives = true → 2 * (d.write level).length ≤ steps + 1 → EndsNumber rest →
    value (steps + 1) (d.write level ++ rest) = (d, some rest)
  | _, .null, steps, rest, _, _, _ => by rw [Document.write, value]; rfl
  | _, .boolean true, steps, rest, _, _, _ => by rw [Document.write, value]; rfl
  | _, .boolean false, steps, rest, _, _, _ => by rw [Document.write, value]; rfl
  | _, .integer n, steps, rest, hd, _, hrest => by
    simp only [survives, decide_eq_true_eq] at hd
    obtain ⟨c, cs, hcs⟩ := List.exists_cons_of_ne_nil (Numeral.ofInt_ne_nil n)
    have hnumber := number_ofInt hd.1 hd.2 hrest
    have hc := Numeral.isDigit_or_eq_minus_of_mem_ofInt (n := n) (hcs ▸ List.mem_cons_self)
    rw [hcs] at hnumber
    rw [Document.write, hcs]
    exact value_of_number steps hc hnumber
  | _, .float x, steps, rest, hd, _, hrest => by
    simp only [survives, Bool.and_eq_true] at hd
    have hne := Layout.text_ne_nil Layout.signs_document hd.1
    obtain ⟨c, cs, hcs⟩ := List.exists_cons_of_ne_nil hne
    have hnumber := Binary64.number_text hd.1 hd.2 hrest
    have hc := Layout.head_text Layout.signs_document hd.1 c (by rw [hcs]; rfl)
    rw [hcs] at hnumber
    rw [Document.write, hcs]
    exact value_of_number steps hc hnumber
  | _, .string s, steps, rest, _, _, _ => by
    rw [Document.write]
    exact value_string steps s rest
  | _, .array [], steps, rest, _, _, _ => by rw [Document.write, value]; rfl
  | level, .array (d :: ds), steps, rest, hd, hsteps, _ => by
    simp only [Document.write, List.length_append, List.length_cons] at hsteps
    obtain ⟨n, rfl⟩ : ∃ n, steps = n + 1 := ⟨steps - 1, by omega⟩
    have hitems := items_write (level.map (· + 1)) level (d :: ds) n rest (List.cons_ne_nil _ _) hd
      (by simp only [writeItems, List.length_append, List.length_cons]; omega)
    simp only [writeItems, List.tail_cons, List.append_assoc] at hitems
    obtain ⟨c, cs, hcs, hc⟩ := d.exists_cons_write (level.map (· + 1))
    rw [Document.write, List.cons_append]
    simp only [List.append_assoc, List.singleton_append]
    rw [value_bracket, hitems]
    · rfl
    · intro tail
      rw [skipBlanks_lineBreak, skipBlanks_write, hcs]
      exact fun heq => List.ne_of_not_mem_cons hc (List.cons.inj heq).1
  | _, .object [], steps, rest, _, _, _ => by rw [Document.write, value]; rfl
  | level, .object (m :: ms), steps, rest, hd, hsteps, _ => by
    obtain ⟨k, d⟩ := m
    simp only [Document.write, List.length_append, List.length_cons] at hsteps
    obtain ⟨n, rfl⟩ : ∃ n, steps = n + 1 := ⟨steps - 1, by omega⟩
    have hmembers := members_write (level.map (· + 1)) level ((k, d) :: ms) n rest
      (List.cons_ne_nil _ _) hd
      (by simp only [writeMembers, List.length_append, List.length_cons, Document.colon_map]; omega)
    simp only [writeMembers, List.tail_cons, List.append_assoc, Document.colon_map] at hmembers
    rw [Document.write, List.cons_append]
    simp only [List.append_assoc, List.singleton_append]
    rw [value_brace, hmembers]
    · rfl
    · intro tail
      rw [skipBlanks_lineBreak, Quoted.text, List.cons_append, skipBlanks_of_notMem (by decide)]
      exact fun heq => absurd (List.cons.inj heq).1 (by decide)

theorem items_write : ∀ (level outer : Option Nat) (ds : List Document) (steps : Nat)
    (rest : List Char), ds ≠ [] → survivesItems ds = true →
    2 * (writeItems level ds).length ≤ steps →
    items (steps + 1) ((writeItems level ds).tail ++ (lineBreak outer ++ ']' :: rest))
      = (ds, some rest)
  | _, _, [], _, _, hne, _, _ => (hne rfl).elim
  | level, outer, d :: ds, steps, rest, _, hd, hsteps => by
    simp only [survivesItems, Bool.and_eq_true] at hd
    simp only [writeItems, List.length_append, List.length_cons] at hsteps
    obtain ⟨n, rfl⟩ : ∃ n, steps = n + 1 := ⟨steps - 1, by omega⟩
    have hvalue := value_write level d n (writeItems level ds ++ (lineBreak outer ++ ']' :: rest))
      hd.1 (by omega) (endsNumber_writeItems level outer ds rest)
    rw [writeItems, List.tail_cons, ← items_skipBlanks]
    simp only [List.append_assoc, skipBlanks_lineBreak, skipBlanks_write]
    cases ds with
    | nil =>
      refine items_close hvalue ?_
      rw [writeItems, List.nil_append, skipBlanks_lineBreak, skipBlanks_of_notMem (by decide)]
    | cons e ds =>
      have hitems := items_write level outer (e :: ds) n rest (List.cons_ne_nil _ _) hd.2 (by omega)
      rw [items_comma hvalue (skipBlanks_of_notMem (by decide) _)]
      exact congrArg (Prod.map (d :: ·) id) hitems

theorem members_write : ∀ (level outer : Option Nat) (ms : List (Key × Document)) (steps : Nat)
    (rest : List Char), ms ≠ [] → survivesMembers ms = true →
    2 * (writeMembers level ms).length ≤ steps →
    members (steps + 1) ((writeMembers level ms).tail ++ (lineBreak outer ++ '}' :: rest))
      = (ms, some rest)
  | _, _, [], _, _, hne, _, _ => (hne rfl).elim
  | level, outer, (.text s, d) :: ms, steps, rest, _, hd, hsteps => by
    simp only [survivesMembers, Bool.and_eq_true] at hd
    simp only [writeMembers, List.length_append, List.length_cons] at hsteps
    obtain ⟨n, rfl⟩ : ∃ n, steps = n + 1 := ⟨steps - 1, by omega⟩
    have hvalue := value_write level d n (writeMembers level ms ++ (lineBreak outer ++ '}' :: rest))
      hd.1 (by omega) (endsNumber_writeMembers level outer ms rest)
    rw [writeMembers, List.tail_cons, ← members_skipBlanks]
    simp only [List.append_assoc, skipBlanks_lineBreak, members_skipBlanks, Key.spelling]
    rw [members_name level s hvalue]
    cases ms with
    | nil =>
      rw [writeMembers, List.nil_append, skipBlanks_lineBreak, skipBlanks_of_notMem (by decide)]
      rfl
    | cons m ms =>
      have hmembers :=
        members_write level outer (m :: ms) n rest (List.cons_ne_nil _ _) hd.2 (by omega)
      rw [writeMembers, List.cons_append, skipBlanks_of_notMem (by decide)]
      exact congrArg (Prod.map ((Key.text s, d) :: ·) id) hmembers
  | _, _, (.index _, _) :: _, _, _, _, hd, _ | _, _, (.foreign _, _) :: _, _, _, _, hd, _
  | _, _, (.unreadable, _) :: _, _, _, _, hd, _ => by cases hd

end

end Scan

/-- The text of a document, in either form, is read as that document and nothing else. -/
theorem Source.ofText_render (isPretty : Bool) {d : Document} (hd : d.survives = true) :
    Source.ofText (d.render isPretty) = ⟨d, true⟩ := by
  have hlevel : ∃ level, d.render isPretty = String.ofList (d.write level) := by
    cases isPretty <;> exact ⟨_, rfl⟩
  obtain ⟨level, hrender⟩ := hlevel
  have hvalue := Scan.value_write level d (2 * (d.write level).length + 1) [] hd (by omega)
    Scan.endsNumber_nil
  rw [List.append_nil] at hvalue
  rw [hrender, Source.ofText, String.toList_ofList, hvalue]
  rfl

end RelAlg
