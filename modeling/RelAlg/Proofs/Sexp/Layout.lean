import RelAlg.Proofs.Sexp.Normal

/-!
# Where lines begin

A list of depth at most two stands on one line.  A deeper list is broken: its leading atoms stay
beside the parenthesis, and from the first sublist on every element starts a line of its own, two
columns to the right of the parenthesis.  A list that starts with a sublist has all its elements one
column to the right of the parenthesis.  The columns are those of the text, counted from the last
line feed, also where a symbol holds line feeds itself.

* `column`                  : the column in which a text ends;
* `Sexp.LaidOut`            : the rules above, in terms of the text in front;
* `Sexp.pretty_of_depth_le`, `Sexp.pretty_hanging`, `Sexp.pretty_aligned`: the printer,
  case by case;
* `Sexp.laidOut_iff`        : behind any text, what is printed for its column follows the rules, and
  nothing else does;
* `render_iff_laidOut`      : the printed text is the one that follows the rules.
-/

namespace RelAlg

/-! ## Columns -/

/-- The number of characters behind the last line feed. -/
def column (before : List Char) : Nat := (before.reverse.takeWhile (· != '\n')).length

@[simp] theorem column_nil : column [] = 0 := rfl

/-- A character that is no line feed takes one column. -/
theorem column_concat (before : List Char) {c : Char} (hc : c ≠ '\n') :
    column (before ++ [c]) = column before + 1 := by
  simp [column, hc]

/-- Behind a line feed and blanks the column is the number of blanks, whatever stands in front. -/
theorem column_newLine (before : List Char) (n : Nat) :
    column (before ++ '\n' :: List.replicate n ' ') = n := by
  have hblanks : ∀ c ∈ List.replicate n ' ', (c != '\n') = true := by
    intro c hc
    rw [List.eq_of_mem_replicate hc]
    rfl
  rw [column, List.reverse_append, List.reverse_cons, List.reverse_replicate, List.append_assoc,
    List.takeWhile_append_of_pos hblanks]
  simp

namespace Sexp

/-! ## The rules -/

/-- Atoms on one line, with a blank between two of them. -/
def spaced (atoms : List Sexp) : List Char := [' '].intercalate (atoms.map atomText)

mutual

/-- Behind `before` the text shows an s-expression, broken over lines. -/
inductive LaidOut : (before : List Char) → Sexp → (text : List Char) → Prop where
  | atom {before : List Char} {s : Sexp} (hatom : s.isAtom = true) : LaidOut before s s.atomText
  /-- A list of depth at most two stands on one line. -/
  | flat {before : List Char} {items : List Sexp} (hdepth : (list items).depth ≤ 2) :
    LaidOut before (list items) (list items).compact
  /-- The leading atoms of a deeper list stand beside the parenthesis; all elements from the first
  sublist on start lines of their own, two columns to the right of it. -/
  | hanging {before lines : List Char} {leading items rest : List Sexp}
    (hdepth : 2 < (list (leading ++ list items :: rest)).depth) (hleading : leading ≠ [])
    (hatoms : ∀ a ∈ leading, a.isAtom = true)
    (hlines : LaidOutLines (column before + 2) (before ++ '(' :: spaced leading)
      (list items :: rest) lines) :
    LaidOut before (list (leading ++ list items :: rest))
      ('(' :: (spaced leading ++ lines ++ [')']))
  /-- A deeper list that starts with a sublist has it directly behind the parenthesis, and every
  other element on a line of its own, one column to the right of the parenthesis. -/
  | aligned {before text lines : List Char} {items rest : List Sexp}
    (hdepth : 2 < (list (list items :: rest)).depth)
    (hfirst : LaidOut (before ++ ['(']) (list items) text)
    (hlines : LaidOutLines (column before + 1) (before ++ '(' :: text) rest lines) :
    LaidOut before (list (list items :: rest)) ('(' :: (text ++ lines ++ [')']))

/-- Behind `before` the text shows elements that each start a line of their own in column `n`. -/
inductive LaidOutLines :
    (n : Nat) → (before : List Char) → List Sexp → (text : List Char) → Prop where
  | nil {n : Nat} {before : List Char} : LaidOutLines n before [] []
  | cons {n : Nat} {before text lines : List Char} {s : Sexp} {rest : List Sexp}
    (hfirst : LaidOut (before ++ '\n' :: List.replicate n ' ') s text)
    (hlines : LaidOutLines n (before ++ '\n' :: List.replicate n ' ' ++ text) rest lines) :
    LaidOutLines n before (s :: rest) ('\n' :: List.replicate n ' ' ++ text ++ lines)

end

/-! ## The printer, case by case -/

/-- What holds of atoms, and of a list when it does of its elements, holds of every s-expression. -/
theorem elements_induction {P : Sexp → Prop} (hatom : ∀ s, s.isAtom = true → P s)
    (hlist : ∀ items, (∀ s ∈ items, P s) → P (list items)) (s : Sexp) : P s := by
  cases s with
  | list items => exact hlist items fun t _ => elements_induction hatom hlist t
  | _ => exact hatom _ rfl
termination_by sizeOf s
decreasing_by
  have := List.sizeOf_lt_of_mem ‹t ∈ items›
  simp only [list.sizeOf_spec]
  omega

/-- A list of depth at most two is printed on one line. -/
theorem pretty_of_depth_le {items : List Sexp} (h : (list items).depth ≤ 2) (n : Nat) :
    (list items).pretty n = (list items).compact := by
  cases items with
  | nil => rfl
  | cons s rest =>
    have hflat : depthAll (s :: rest) < flatDepth := by
      rw [depth] at h
      rw [flatDepth]
      omega
    rw [pretty, if_pos hflat]

theorem not_flat {items : List Sexp} (h : 2 < (list items).depth) :
    ¬depthAll items < flatDepth := by
  rw [depth] at h
  rw [flatDepth]
  omega

theorem spaced_cons (a : Sexp) (atoms : List Sexp) :
    spaced (a :: atoms) = a.atomText ++ atoms.flatMap fun b => ' ' :: b.atomText := by
  induction atoms generalizing a with
  | nil => simp [spaced, List.intercalate]
  | cons b atoms ih =>
    have hrest : spaced (a :: b :: atoms) = a.atomText ++ ' ' :: spaced (b :: atoms) := by
      simp [spaced, List.intercalate]
    rw [hrest, ih, List.flatMap_cons, List.cons_append]

/-- Atoms beside the parenthesis are followed by what starts at the first sublist. -/
theorem prettyLeading_append {atoms : List Sexp} (hatoms : ∀ a ∈ atoms, a.isAtom = true) (n : Nat)
    (items rest : List Sexp) : prettyLeading n (atoms ++ list items :: rest)
      = (atoms.flatMap fun a => ' ' :: a.atomText) ++ prettyLines n (list items :: rest) := by
  induction atoms with
  | nil =>
    rw [List.nil_append, prettyLeading, prettyLines]
    rfl
  | cons a atoms ih =>
    obtain ⟨ha, hatoms⟩ := List.forall_mem_cons.1 hatoms
    rw [List.cons_append, prettyLeading, if_pos ha, ih hatoms, List.flatMap_cons]
    simp

theorem pretty_hanging {leading items rest : List Sexp}
    (hdepth : 2 < (list (leading ++ list items :: rest)).depth) (hleading : leading ≠ [])
    (hatoms : ∀ a ∈ leading, a.isAtom = true) (n : Nat) :
    (list (leading ++ list items :: rest)).pretty n
      = '(' :: (spaced leading ++ prettyLines (n + 2) (list items :: rest) ++ [')']) := by
  obtain ⟨a, atoms, rfl⟩ := List.exists_cons_of_ne_nil hleading
  obtain ⟨ha, hatoms⟩ := List.forall_mem_cons.1 hatoms
  have hdeep := not_flat hdepth
  rw [List.cons_append] at hdeep ⊢
  rw [pretty, if_neg hdeep, if_pos ha, prettyLeading_append hatoms, spaced_cons,
    List.append_assoc _ _ (prettyLines _ _)]

theorem pretty_aligned {items rest : List Sexp} (hdepth : 2 < (list (list items :: rest)).depth)
    (n : Nat) :
    (list (list items :: rest)).pretty n
      = '(' :: ((list items).pretty (n + 1) ++ prettyLines (n + 1) rest ++ [')']) := by
  rw [pretty, if_neg (not_flat hdepth)]
  rfl

/-- A list that is not flat has a first sublist. -/
theorem exists_sublist {items : List Sexp} (h : 0 < depthAll items) :
    ∃ leading sub rest, items = leading ++ list sub :: rest ∧ ∀ a ∈ leading, a.isAtom = true := by
  induction items with
  | nil => exact absurd h (Nat.lt_irrefl 0)
  | cons s rest ih =>
    by_cases hs : s.isAtom = true
    · have hrest : 0 < depthAll rest := by
        rw [depthAll] at h
        cases s <;> simp_all [depth, isAtom, isList]
      obtain ⟨leading, sub, rest, rfl, hatoms⟩ := ih hrest
      exact ⟨s :: leading, sub, rest, rfl, List.forall_mem_cons.2 ⟨hs, hatoms⟩⟩
    · cases s with
      | list sub => exact ⟨[], sub, rest, rfl, List.forall_mem_nil _⟩
      | _ => exact absurd rfl hs

/-! ## The printer follows the rules -/

/-- Lines follow the rules if their elements do. -/
theorem laidOutLines_prettyLines {items : List Sexp}
    (h : ∀ s ∈ items, ∀ before, LaidOut before s (s.pretty (column before))) (n : Nat)
    (before : List Char) :
    LaidOutLines n before items (prettyLines n items) := by
  induction items generalizing before with
  | nil => exact .nil
  | cons s rest ih =>
    obtain ⟨hs, hrest⟩ := List.forall_mem_cons.1 h
    have hfirst := hs (before ++ '\n' :: List.replicate n ' ')
    rw [column_newLine] at hfirst
    exact .cons hfirst (ih hrest _)

/-- Behind any text, what is printed for its column follows the rules. -/
theorem laidOut_pretty (s : Sexp) (before : List Char) :
    LaidOut before s (s.pretty (column before)) := by
  induction s using elements_induction generalizing before with
  | hatom s hs =>
    obtain ⟨-, -, hpretty⟩ := layout_of_isAtom hs
    rw [hpretty]
    exact .atom hs
  | hlist items ih =>
    by_cases hdepth : (list items).depth ≤ 2
    · rw [pretty_of_depth_le hdepth]
      exact .flat hdepth
    · have hdeep : 2 < (list items).depth := Nat.lt_of_not_le hdepth
      have hsublist : 0 < depthAll items := by
        rw [depth] at hdeep
        omega
      obtain ⟨leading, sub, rest, rfl, hatoms⟩ := exists_sublist hsublist
      by_cases hleading : leading = []
      · subst hleading
        obtain ⟨hsub, hrest⟩ := List.forall_mem_cons.1 ih
        have hfirst := hsub (before ++ ['('])
        rw [column_concat before (by decide)] at hfirst
        rw [List.nil_append, pretty_aligned hdeep]
        exact .aligned hdeep hfirst (laidOutLines_prettyLines hrest _ _)
      · obtain ⟨-, hlines⟩ := List.forall_mem_append.1 ih
        rw [pretty_hanging hdeep hleading hatoms]
        exact .hanging hdeep hleading hatoms (laidOutLines_prettyLines hlines _ _)

/-! ## Nothing else does -/

theorem eq_prettyLines_of_laidOutLines {items : List Sexp}
    (h : ∀ s ∈ items, ∀ before text, LaidOut before s text → text = s.pretty (column before))
    {n : Nat} {before lines : List Char} (hlines : LaidOutLines n before items lines) :
    lines = prettyLines n items := by
  induction items generalizing before lines with
  | nil =>
    cases hlines
    rfl
  | cons s rest ih =>
    obtain ⟨hs, hrest⟩ := List.forall_mem_cons.1 h
    cases hlines with
    | cons hfirst hlines =>
      have htext := hs _ _ hfirst
      rw [column_newLine] at htext
      rw [htext, ih hrest hlines]
      rfl

theorem eq_pretty_of_laidOut {s : Sexp} {before text : List Char} (h : LaidOut before s text) :
    text = s.pretty (column before) := by
  induction s using elements_induction generalizing before text with
  | hatom s hs =>
    cases h with
    | atom =>
      obtain ⟨-, -, hpretty⟩ := layout_of_isAtom hs
      exact (hpretty _).symm
    | flat | hanging | aligned => cases hs
  | hlist items ih =>
    cases h with
    | atom hatom => cases hatom
    | flat hdepth => exact (pretty_of_depth_le hdepth _).symm
    | hanging hdepth hleading hatoms hlines =>
      obtain ⟨-, hrest⟩ := List.forall_mem_append.1 ih
      have hlines := eq_prettyLines_of_laidOutLines (fun s hs _ _ => hrest s hs) hlines
      rw [pretty_hanging hdepth hleading hatoms, hlines]
    | aligned hdepth hfirst hlines =>
      obtain ⟨hsub, hrest⟩ := List.forall_mem_cons.1 ih
      have htext := hsub hfirst
      rw [column_concat before (by decide)] at htext
      have hlines := eq_prettyLines_of_laidOutLines (fun s hs _ _ => hrest s hs) hlines
      rw [pretty_aligned hdepth, htext, hlines]

/-- Behind any text, what is printed for its column follows the rules, and nothing else does. -/
theorem laidOut_iff {s : Sexp} {before text : List Char} :
    LaidOut before s text ↔ text = s.pretty (column before) := by
  constructor
  · exact eq_pretty_of_laidOut
  · rintro rfl
    exact laidOut_pretty s before

end Sexp

/-- The text over several lines is the one text that follows the rules, at every level. -/
theorem render_iff_laidOut (s : Sexp) (text : String) :
    s.render true = text ↔ Sexp.LaidOut [] s text.toList := by
  rw [Sexp.laidOut_iff, column_nil, Sexp.render, if_pos rfl]
  constructor
  · rintro rfl
    exact String.toList_ofList
  · intro h
    rw [← h, String.ofList_toList]

/-- The line feed of a symbol moves no other element. -/
example :
    (Sexp.list [.symbol "a\nb", .symbol "c", .list [.list [.list []], .symbol "d"],
      .symbol "e"]).render true
    = "(|a\nb| c\n  ((())\n   d)\n  e)" := by
  decide

end RelAlg
