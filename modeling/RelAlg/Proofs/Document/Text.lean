import RelAlg.Document.Writer
import RelAlg.Proofs.Binary64.Shortest
import RelAlg.Proofs.Text.Quoted

/-!
# The text of a document

A written document is bracketed text, on one line and over several lines alike: arrays and objects
are groups, everything else is one word.  So the text gives the tree of the document back.

* `Lexicon.TakesNumbers`     : in such a format every numeral is one word;
* `Document.lexicon`         : the special characters of documents;
* `Document.tree`            : the groups and words of a document;
* `Document.spells_write`    : the text of a document spells its tree, at every level of
  indentation;
* `Document.tree_eq_of_write_eq`: documents with one text have one tree;
* `Document.write_tree`      : the tree determines the text, so at every level the same documents
  have one text.
-/

namespace RelAlg

/-! ## Numerals as words -/

/-- The characters of numerals are plain. -/
def Lexicon.TakesNumbers (L : Lexicon) : Prop :=
  ∀ c : Char, c.isDigit = true ∨ c = '.' ∨ c = 'e' ∨ c = '-' ∨ c = '+' → L.isPlain c = true

section Numbers

variable {L : Lexicon}

/-- It is enough to look at the characters that are not plain. -/
theorem Lexicon.takesNumbers_of_notMem {specials : List Char}
    (hplain : ∀ c, c ∉ specials → L.isPlain c = true)
    (hspecials : (specials.all fun d => !(d.isDigit || ['.', 'e', '-', '+'].contains d)) = true) :
    L.TakesNumbers := by
  intro c hc
  refine hplain c fun hmem => ?_
  have hspecial := List.all_eq_true.1 hspecials c hmem
  rcases hc with h | rfl | rfl | rfl | rfl
  · simp [h] at hspecial
  all_goals exact absurd hspecial (by decide)

theorem Numeral.isWord_ofNat (hL : L.TakesNumbers) (n : Nat) : L.IsWord (ofNat n) :=
  Lexicon.isWord_of_forall (ofNat_ne_nil n) fun c hc => hL c (Or.inl (isDigit_of_mem_ofNat hc))

theorem Numeral.isWord_ofInt (hL : L.TakesNumbers) (n : Int) : L.IsWord (ofInt n) :=
  Lexicon.isWord_of_forall (ofInt_ne_nil n) fun c hc => hL c <| by
    rcases isDigit_or_eq_minus_of_mem_ofInt hc with hdigit | hminus
    · exact Or.inl hdigit
    · simp [hminus]

theorem Layout.isWord_text (hL : L.TakesNumbers) {l : Layout} (hl : l.Signs) {x : Binary64}
    (hx : x.isFinite = true) : L.IsWord (l.text x) :=
  Lexicon.isWord_of_forall (text_ne_nil hl hx) fun c hc => hL c (mem_text hl hx hc)

end Numbers

namespace Document

/-! ## Special characters -/

/-- Brackets, braces, commas, colons and quotes; line feeds and blanks for indentation. -/
def lexicon : Lexicon where
  separates c := [' ', '\n', ',', ':'].contains c
  opens c := ['[', '{'].contains c
  closes c := [']', '}'].contains c
  quotes c := c == '"'

theorem isPlain_of_notMem {c : Char}
    (h : c ∉ [' ', '\n', ',', ':', '[', '{', ']', '}', '"']) : lexicon.isPlain c = true := by
  simp only [List.mem_cons, List.not_mem_nil, or_false, not_or] at h
  simp [Lexicon.isPlain, Lexicon.cuts, lexicon, h]

theorem takesNumbers : lexicon.TakesNumbers :=
  Lexicon.takesNumbers_of_notMem (fun _ => isPlain_of_notMem) (by decide)

theorem brackets : lexicon.Brackets '[' ']' := ⟨rfl, rfl, rfl, rfl, rfl⟩

theorem braces : lexicon.Brackets '{' '}' := ⟨rfl, rfl, rfl, rfl, rfl⟩

theorem isWord_quoted (s : String) : lexicon.IsWord (Quoted.text s) :=
  Quoted.isWord_text rfl rfl s

theorem isWord_null : lexicon.IsWord ['n', 'u', 'l', 'l'] := ⟨rfl, by decide⟩

theorem isWord_minusZero : lexicon.IsWord ('-' :: Numeral.ofNat 0) :=
  Lexicon.isWord_of_forall (List.cons_ne_nil _ _) <| List.forall_mem_cons.2
    ⟨rfl, fun c hc => takesNumbers c (Or.inl (Numeral.isDigit_of_mem_ofNat hc))⟩

/-- A float that is not finite is written as null. -/
theorem float_text_of_not_isFinite {x : Binary64} (hx : x.isFinite = false) :
    Layout.document.text x = ['n', 'u', 'l', 'l'] := by
  simpa [Layout.document] using Layout.text_of_not_isFinite Layout.document hx

theorem isWord_float (x : Binary64) : lexicon.IsWord (Layout.document.text x) := by
  cases hx : x.isFinite with
  | true => exact Layout.isWord_text takesNumbers Layout.signs_document hx
  | false =>
    rw [float_text_of_not_isFinite hx]
    exact isWord_null

theorem separates_lineBreak (level : Option Nat) :
    ∀ c ∈ lineBreak level, lexicon.separates c = true := by
  cases level with
  | none => exact nofun
  | some n =>
    intro c hc
    rcases List.mem_cons.1 hc with rfl | hc
    · rfl
    · rw [List.eq_of_mem_replicate hc]
      rfl

theorem separates_colon (level : Option Nat) : ∀ c ∈ colon level, lexicon.separates c = true := by
  cases level <;> simp [colon, lexicon]

theorem colon_ne_nil (level : Option Nat) : colon level ≠ [] := by
  cases level <;> exact List.cons_ne_nil _ _

/-! ## Trees -/

mutual

/-- The groups and words of a document; a name and its value are two parts of their group. -/
def tree : Document → Tree
  | array items => .group '[' (trees items)
  | object members => .group '{' (memberTrees members)
  | d => .word (d.write none)

def trees : List Document → List Tree
  | [] => []
  | d :: rest => tree d :: trees rest

def memberTrees : List (Key × Document) → List Tree
  | [] => []
  | (k, d) :: rest => .word (Quoted.text k.spelling) :: tree d :: memberTrees rest

end

mutual

/-- The text of a document spells its tree. -/
theorem spells_write : ∀ (level : Option Nat) (d : Document), lexicon.Spells (d.write level) d.tree
  | _, null => Lexicon.spells_word isWord_null
  | _, boolean true => Lexicon.spells_word ⟨rfl, List.cons_ne_nil _ _⟩
  | _, boolean false => Lexicon.spells_word ⟨rfl, List.cons_ne_nil _ _⟩
  | _, integer n => Lexicon.spells_word (Numeral.isWord_ofInt takesNumbers n)
  | _, minusZero => Lexicon.spells_word isWord_minusZero
  | _, float x => Lexicon.spells_word (isWord_float x)
  | _, string s => Lexicon.spells_word (isWord_quoted s)
  | _, array [] => Lexicon.spells_group_nil brackets
  | level, array (d :: rest) => by
    have h := Lexicon.spells_group brackets _ _ (separates_lineBreak (level.map (· + 1)))
      (separates_lineBreak level) (spells_write (level.map (· + 1)) d)
      (spellsAll_writeItems (level.map (· + 1)) rest)
    simpa only [write, tree, trees, List.append_assoc] using h
  | _, object [] => Lexicon.spells_group_nil braces
  | level, object ((k, d) :: rest) => by
    have h := Lexicon.spells_group braces _ _ (separates_lineBreak (level.map (· + 1)))
      (separates_lineBreak level) (Lexicon.spells_word (isWord_quoted k.spelling))
      (Lexicon.spellsAll_cons (colon level) (colon_ne_nil level) (separates_colon level)
        (spells_write (level.map (· + 1)) d) (spellsAll_writeMembers (level.map (· + 1)) rest))
    simpa only [write, tree, memberTrees, List.append_assoc] using h
  | _, unreadable => Lexicon.spells_word isWord_null
  | _, broken => Lexicon.spells_word isWord_null

theorem spellsAll_writeItems : ∀ (level : Option Nat) (items : List Document),
    lexicon.SpellsAll (writeItems level items) (trees items)
  | _, [] => Lexicon.spellsAll_nil
  | level, d :: rest => by
    have h := Lexicon.spellsAll_cons (',' :: lineBreak level) (List.cons_ne_nil _ _)
      (List.forall_mem_cons.2 ⟨rfl, separates_lineBreak level⟩) (spells_write level d)
      (spellsAll_writeItems level rest)
    simpa only [writeItems, trees, List.cons_append, List.append_assoc] using h

theorem spellsAll_writeMembers : ∀ (level : Option Nat) (members : List (Key × Document)),
    lexicon.SpellsAll (writeMembers level members) (memberTrees members)
  | _, [] => Lexicon.spellsAll_nil
  | level, (k, d) :: rest => by
    have h := Lexicon.spellsAll_cons (',' :: lineBreak level) (List.cons_ne_nil _ _)
      (List.forall_mem_cons.2 ⟨rfl, separates_lineBreak level⟩)
      (Lexicon.spells_word (isWord_quoted k.spelling))
      (Lexicon.spellsAll_cons (colon level) (colon_ne_nil level) (separates_colon level)
        (spells_write level d) (spellsAll_writeMembers level rest))
    simpa only [writeMembers, memberTrees, List.cons_append, List.append_assoc] using h

end

/-- Documents with one text have one tree. -/
theorem tree_eq_of_write_eq {level : Option Nat} {d e : Document}
    (h : d.write level = e.write level) : d.tree = e.tree :=
  (h ▸ spells_write level d).unique (spells_write level e)

/-! ## Texts of a tree -/

/-- What stands between two parts of a group: a colon in front of a value, a comma in front of an
item or a name. -/
def joint (level : Option Nat) (isValue : Bool) : List Char :=
  if isValue then colon level else ',' :: lineBreak level

/-- The bracket that closes what `c` opens. -/
def closingOf (c : Char) : Char := if c = '[' then ']' else '}'

mutual

/-- The text of a tree at a level. -/
def writeTree (level : Option Nat) : Tree → List Char
  | .word w => w
  | .group c [] => [c, closingOf c]
  | .group c (t :: rest) =>
    c :: (lineBreak (level.map (· + 1)) ++ writeTree (level.map (· + 1)) t
      ++ writeParts (level.map (· + 1)) (c = '{') (c = '{') rest
      ++ lineBreak level ++ [closingOf c])

/-- Further parts of a group, where in an object values and names take turns. -/
def writeParts (level : Option Nat) (isObject isValue : Bool) : List Tree → List Char
  | [] => []
  | t :: rest =>
    joint level isValue ++ writeTree level t
      ++ writeParts level isObject (isObject && !isValue) rest

end

theorem colon_map (level : Option Nat) : colon (level.map (· + 1)) = colon level := by
  cases level <;> rfl

mutual

/-- The tree determines the text. -/
theorem write_tree : ∀ (level : Option Nat) (d : Document), writeTree level d.tree = d.write level
  | _, null | _, boolean true | _, boolean false | _, integer _ | _, minusZero | _, float _
  | _, string _ | _, unreadable | _, broken => rfl
  | _, array [] => rfl
  | level, array (d :: rest) => by
    rw [tree, trees, writeTree, write, write_tree _ d]
    show '[' :: (_ ++ _ ++ writeParts _ false false (trees rest) ++ _ ++ _) = _
    rw [writeParts_trees _ rest]
    rfl
  | _, object [] => rfl
  | level, object ((k, d) :: rest) => by
    rw [tree, memberTrees, writeTree, write]
    show '{' :: (_ ++ Quoted.text k.spelling ++ (joint _ true ++ writeTree _ d.tree
      ++ writeParts _ true false (memberTrees rest)) ++ _ ++ _) = _
    rw [write_tree _ d, writeParts_memberTrees _ rest, joint, if_pos rfl, colon_map]
    simp only [List.append_assoc]
    rfl

theorem writeParts_trees : ∀ (level : Option Nat) (items : List Document),
    writeParts level false false (trees items) = writeItems level items
  | _, [] => rfl
  | level, d :: rest => by
    rw [trees, writeParts, writeItems, write_tree level d]
    show _ ++ _ ++ writeParts level false false (trees rest) = _
    rw [writeParts_trees level rest, joint, if_neg Bool.false_ne_true]
    simp only [List.append_assoc, List.cons_append]

theorem writeParts_memberTrees : ∀ (level : Option Nat) (members : List (Key × Document)),
    writeParts level true false (memberTrees members) = writeMembers level members
  | _, [] => rfl
  | level, (k, d) :: rest => by
    rw [memberTrees, writeParts, writeParts, writeMembers, write_tree level d]
    show _ ++ Quoted.text k.spelling ++ (joint level true ++ _
      ++ writeParts level true false (memberTrees rest)) = _
    rw [writeParts_memberTrees level rest, joint, joint, if_neg Bool.false_ne_true, if_pos rfl]
    simp only [List.append_assoc, List.cons_append]

end

/-- At every level documents have one text exactly when they have one tree. -/
theorem write_eq_iff {level : Option Nat} {d e : Document} :
    d.write level = e.write level ↔ d.tree = e.tree :=
  ⟨tree_eq_of_write_eq, fun h => by rw [← write_tree, h, write_tree]⟩

end Document

end RelAlg
