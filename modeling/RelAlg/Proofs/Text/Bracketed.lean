/-!
# Bracketed text

Two formats are written here, nested lists in parentheses and documents with brackets and braces.
In both a text is a tree of words: brackets open and close groups, blanks and other separators stand
between words, and a quoted part keeps everything inside it together.  This file reads such a text,
for any choice of the special characters, and says when a text is one spelling of a given tree.

* `Lexicon`             : which characters are special;
* `Lexicon.tokens`      : the brackets and words of a text;
* `Lexicon.read`        : the tree of a text;
* `Lexicon.Spells`      : a text that gives the tokens of a tree, whatever text is cut
  off behind it;
* `Lexicon.read_of_spells`: such a text is read as that tree, so it spells no other.
-/

namespace RelAlg

/-- The special characters of a format. -/
structure Lexicon where
  /-- Stands between words and belongs to none. -/
  separates : Char → Bool
  /-- Opens a group. -/
  opens : Char → Bool
  /-- Closes a group. -/
  closes : Char → Bool
  /-- Starts a quoted part, which the same character ends. -/
  quotes : Char → Bool

/-- A piece of bracketed text. -/
inductive Token where
  | opening (c : Char)
  | closing
  | word (w : List Char)

/-- Words in nested groups, each group with its opening bracket. -/
inductive Tree where
  | word (w : List Char)
  | group (c : Char) (parts : List Tree)

/-- Where a reader stands: outside every quoted part, inside one, or inside one
behind a backslash. -/
inductive Mode where
  | plain
  | quoted (q : Char)
  | escaped (q : Char)
deriving DecidableEq

namespace Lexicon

variable (L : Lexicon)

/-- A character that ends a word. -/
def cuts (c : Char) : Bool := L.separates c || L.opens c || L.closes c

/-- The mode behind a character of a word. -/
def next : Mode → Char → Mode
  | .plain, c => if L.quotes c then .quoted c else .plain
  | .quoted q, c => if c = '\\' then .escaped q else if c = q then .plain else .quoted q
  | .escaped q, _ => .quoted q

/-- The tokens of a text whose front part is the rest of a word: that rest, unless it is empty, and
the tokens behind it. -/
def flush : List Char × List Token → List Token
  | ([], ts) => ts
  | (c :: w, ts) => .word (c :: w) :: ts

/-- The rest of a word at the front of a text, and the tokens behind it. -/
def scan : Mode → List Char → List Char × List Token
  | _, [] => ([], [])
  | .plain, c :: cs =>
    if L.separates c then ([], flush (scan .plain cs))
    else if L.opens c then ([], .opening c :: flush (scan .plain cs))
    else if L.closes c then ([], .closing :: flush (scan .plain cs))
    else
      let p := scan (L.next .plain c) cs
      (c :: p.1, p.2)
  | .quoted q, c :: cs =>
    let p := scan (L.next (.quoted q) c) cs
    (c :: p.1, p.2)
  | .escaped q, c :: cs =>
    let p := scan (L.next (.escaped q) c) cs
    (c :: p.1, p.2)

/-- The brackets and words of a text. -/
def tokens (cs : List Char) : List Token := flush (L.scan .plain cs)

/-! ## Words -/

/-- The mode behind a text that stays within one word, `none` if it does not. -/
def run : Mode → List Char → Option Mode
  | m, [] => some m
  | .plain, c :: cs => if L.cuts c then none else run (L.next .plain c) cs
  | .quoted q, c :: cs => run (L.next (.quoted q) c) cs
  | .escaped q, c :: cs => run (L.next (.escaped q) c) cs

/-- A character that may stand in a word without any effect. -/
def isPlain (c : Char) : Bool := !L.cuts c && !L.quotes c

/-- A text that is one word. -/
def IsWord (w : List Char) : Prop := L.run .plain w = some .plain ∧ w ≠ []

/-- Nothing at the front of the text belongs to a word. -/
def Cut (rest : List Char) : Prop := (L.scan .plain rest).1 = []

variable {L}

theorem run_append {m m' : Mode} {v w : List Char} (h : L.run m v = some m') :
    L.run m (v ++ w) = L.run m' w := by
  induction v generalizing m with
  | nil => cases h; rfl
  | cons c v ih =>
    cases m with
    | plain =>
      rw [run] at h
      split at h
      · cases h
      · rename_i hc
        rw [List.cons_append, run, if_neg hc, ih h]
    | quoted q => exact ih h
    | escaped q => exact ih h

/-- A text that stays within a word is the front of that word. -/
theorem scan_append {m m' : Mode} {w rest : List Char} (h : L.run m w = some m') :
    L.scan m (w ++ rest) = (w ++ (L.scan m' rest).1, (L.scan m' rest).2) := by
  induction w generalizing m with
  | nil => cases h; rfl
  | cons c w ih =>
    cases m with
    | plain =>
      rw [run] at h
      split at h
      · cases h
      · rename_i hc
        simp only [cuts, Bool.or_eq_true, not_or, Bool.not_eq_true] at hc
        simp [scan, hc, ih h]
    | quoted q => rw [List.cons_append, scan, ih h]; rfl
    | escaped q => rw [List.cons_append, scan, ih h]; rfl

/-- Two texts of one word each make one word. -/
theorem run_append_plain {v w : List Char} (hv : L.run .plain v = some .plain)
    (hw : L.run .plain w = some .plain) : L.run .plain (v ++ w) = some .plain :=
  (run_append hv).trans hw

/-- Plain characters stay within a word. -/
theorem run_of_forall {w : List Char} (h : ∀ c ∈ w, L.isPlain c = true) :
    L.run .plain w = some .plain := by
  induction w with
  | nil => rfl
  | cons c w ih =>
    have hc := h c List.mem_cons_self
    simp only [isPlain, Bool.and_eq_true, Bool.not_eq_true'] at hc
    rw [run, if_neg (by simp [hc.1]), next, if_neg (by simp [hc.2])]
    exact ih fun d hd => h d (List.mem_cons_of_mem _ hd)

theorem isWord_of_forall {w : List Char} (hne : w ≠ []) (h : ∀ c ∈ w, L.isPlain c = true) :
    L.IsWord w :=
  ⟨run_of_forall h, hne⟩

/-- A quoted part, whose inside never ends it, stays within a word. -/
theorem run_quoted {q : Char} {w : List Char} (hcut : L.cuts q = false) (hq : L.quotes q = true)
    (hne : q ≠ '\\') (h : L.run (.quoted q) w = some (.quoted q)) :
    L.run .plain (q :: (w ++ [q])) = some .plain := by
  rw [run, if_neg (by simp [hcut]), next, if_pos hq, run_append h, run, next, if_neg hne,
    if_pos rfl, run]

/-- Pieces that leave the quoted part open can be put side by side. -/
theorem run_flatMap {m : Mode} {f : Char → List Char} {cs : List Char}
    (h : ∀ c ∈ cs, L.run m (f c) = some m) : L.run m (cs.flatMap f) = some m := by
  induction cs with
  | nil => cases m <;> rfl
  | cons c cs ih =>
    rw [List.flatMap_cons, run_append (h c List.mem_cons_self)]
    exact ih fun d hd => h d (List.mem_cons_of_mem _ hd)

/-! ## Tokens of a text -/

theorem cut_nil : L.Cut [] := rfl

theorem cut_cons {c : Char} {rest : List Char} (h : L.cuts c = true) : L.Cut (c :: rest) := by
  simp only [cuts, Bool.or_eq_true] at h
  unfold Cut scan
  split
  · rfl
  · split
    · rfl
    · split
      · rfl
      · simp_all

theorem tokens_nil : L.tokens [] = [] := rfl

theorem tokens_separator {c : Char} {rest : List Char} (h : L.separates c = true) :
    L.tokens (c :: rest) = L.tokens rest := by
  rw [tokens, scan, if_pos h, flush, tokens]

theorem tokens_opening {c : Char} {rest : List Char} (hs : L.separates c = false)
    (h : L.opens c = true) : L.tokens (c :: rest) = .opening c :: L.tokens rest := by
  rw [tokens, scan, if_neg (by simp [hs]), if_pos h, flush, tokens]

theorem tokens_closing {c : Char} {rest : List Char} (hs : L.separates c = false)
    (ho : L.opens c = false) (h : L.closes c = true) :
    L.tokens (c :: rest) = .closing :: L.tokens rest := by
  rw [tokens, scan, if_neg (by simp [hs]), if_neg (by simp [ho]), if_pos h, flush, tokens]

/-- A word in front of a cut is a token. -/
theorem tokens_word {w rest : List Char} (hw : L.IsWord w) (hcut : L.Cut rest) :
    L.tokens (w ++ rest) = .word w :: L.tokens rest := by
  obtain ⟨c, w', rfl⟩ := List.exists_cons_of_ne_nil hw.2
  have hrest : L.tokens rest = (L.scan .plain rest).2 := by
    unfold Cut at hcut
    unfold tokens
    cases hscan : L.scan .plain rest with
    | mk v ts =>
      rw [hscan] at hcut
      cases hcut
      rfl
  unfold Cut at hcut
  rw [tokens, scan_append hw.1, hcut, List.append_nil, flush, hrest]

theorem tokens_separators {seps rest : List Char} (h : ∀ c ∈ seps, L.separates c = true) :
    L.tokens (seps ++ rest) = L.tokens rest := by
  induction seps with
  | nil => rfl
  | cons c seps ih =>
    rw [List.cons_append, tokens_separator (h c List.mem_cons_self)]
    exact ih fun d hd => h d (List.mem_cons_of_mem _ hd)

end Lexicon

/-! ## Trees -/

namespace Tree

mutual

/-- The brackets and words of a tree. -/
def tokens : Tree → List Token
  | word w => [.word w]
  | group c parts => .opening c :: (tokensAll parts ++ [.closing])

def tokensAll : List Tree → List Token
  | [] => []
  | t :: rest => tokens t ++ tokensAll rest

end

/-- Rebuilds a tree from its tokens.  `parts` are the parts of the innermost open group so far, last
one first, and `outer` the groups around it, each with its bracket and the parts in front of it. -/
def build : List Token → List Tree → List (Char × List Tree) → Option Tree
  | [], [t], [] => some t
  | .word w :: ts, parts, outer => build ts (.word w :: parts) outer
  | .opening c :: ts, parts, outer => build ts [] ((c, parts) :: outer)
  | .closing :: ts, parts, (c, before) :: outer => build ts (.group c parts.reverse :: before) outer
  | _, _, _ => none

mutual

/-- The tokens of a tree add that tree to the innermost group. -/
theorem build_tokens (ts : List Token) : ∀ (t : Tree) (parts : List Tree)
    (outer : List (Char × List Tree)),
    build (t.tokens ++ ts) parts outer = build ts (t :: parts) outer
  | .word w, parts, outer => rfl
  | .group c children, parts, outer => by
    rw [tokens, List.cons_append, build, List.append_assoc, build_tokensAll _ children,
      List.append_nil, List.singleton_append, build, List.reverse_reverse]

theorem build_tokensAll (ts : List Token) : ∀ (l : List Tree) (parts : List Tree)
    (outer : List (Char × List Tree)),
    build (tokensAll l ++ ts) parts outer = build ts (l.reverse ++ parts) outer
  | [], parts, outer => rfl
  | t :: rest, parts, outer => by
    rw [tokensAll, List.append_assoc, build_tokens _ t, build_tokensAll ts rest,
      List.reverse_cons, List.append_assoc, List.singleton_append]

end

end Tree

namespace Lexicon

/-- The tree of a text, `none` if its brackets do not match or it is not exactly one tree. -/
def read (L : Lexicon) (cs : List Char) : Option Tree := Tree.build (L.tokens cs) [] []

/-- The text spells the tree, in front of anything that is cut off from it. -/
def Spells (L : Lexicon) (w : List Char) (t : Tree) : Prop :=
  ∀ rest, L.Cut rest → L.tokens (w ++ rest) = t.tokens ++ L.tokens rest

variable {L : Lexicon}

/-- A text is read as the tree it spells. -/
theorem read_of_spells {w : List Char} {t : Tree} (h : L.Spells w t) : L.read w = some t := by
  have htokens := h [] cut_nil
  rw [List.append_nil, tokens_nil] at htokens
  rw [read, htokens, Tree.build_tokens]
  rfl

/-- A text spells at most one tree. -/
theorem Spells.unique {w : List Char} {t u : Tree} (ht : L.Spells w t) (hu : L.Spells w u) :
    t = u :=
  Option.some.inj ((read_of_spells ht).symm.trans (read_of_spells hu))

theorem spells_word {w : List Char} (hw : L.IsWord w) : L.Spells w (.word w) :=
  fun _ hcut => tokens_word hw hcut

/-! ## Spelling groups -/

/-- The text spells the trees one behind the other, and nothing in front of it can run into them. -/
def SpellsAll (L : Lexicon) (w : List Char) (ts : List Tree) : Prop :=
  ∀ rest, L.Cut rest → L.Cut (w ++ rest) ∧
    L.tokens (w ++ rest) = Tree.tokensAll ts ++ L.tokens rest

theorem spellsAll_nil : L.SpellsAll [] [] := fun _ hcut => ⟨hcut, rfl⟩

/-- One more tree in front, behind at least one separator. -/
theorem spellsAll_cons (seps : List Char) {w v : List Char} {t : Tree} {ts : List Tree}
    (hne : seps ≠ []) (hseps : ∀ c ∈ seps, L.separates c = true) (hw : L.Spells w t)
    (hv : L.SpellsAll v ts) : L.SpellsAll (seps ++ (w ++ v)) (t :: ts) := by
  intro rest hcut
  obtain ⟨hvcut, hvtokens⟩ := hv rest hcut
  constructor
  · obtain ⟨c, seps', rfl⟩ := List.exists_cons_of_ne_nil hne
    exact cut_cons (by simp [cuts, hseps c List.mem_cons_self])
  · rw [List.append_assoc, tokens_separators hseps, List.append_assoc, hw _ hvcut, hvtokens,
      Tree.tokensAll, List.append_assoc]

/-- An opening and a closing bracket. -/
structure Brackets (L : Lexicon) (o c : Char) : Prop where
  open_not_separates : L.separates o = false
  opens : L.opens o = true
  close_not_separates : L.separates c = false
  close_not_opens : L.opens c = false
  closes : L.closes c = true

variable {o c : Char}

theorem spells_group_nil (h : L.Brackets o c) : L.Spells [o, c] (.group o []) := by
  intro rest _
  show L.tokens (o :: c :: rest) = .opening o :: .closing :: L.tokens rest
  rw [tokens_opening h.open_not_separates h.opens,
    tokens_closing h.close_not_separates h.close_not_opens h.closes]

/-- A group: the first part, the other parts each behind its separators, and the closing bracket,
with more separators next to the brackets. -/
theorem spells_group (h : L.Brackets o c) (before after : List Char) {w v : List Char} {t : Tree}
    {ts : List Tree} (hbefore : ∀ d ∈ before, L.separates d = true)
    (hafter : ∀ d ∈ after, L.separates d = true) (hw : L.Spells w t) (hv : L.SpellsAll v ts) :
    L.Spells (o :: (before ++ (w ++ (v ++ (after ++ [c]))))) (.group o (t :: ts)) := by
  intro rest _
  have hend : L.Cut (after ++ (c :: rest)) := by
    cases after with
    | nil => exact cut_cons (by simp [cuts, h.closes])
    | cons d after => exact cut_cons (by simp [cuts, hafter d List.mem_cons_self])
  obtain ⟨hvcut, hvtokens⟩ := hv _ hend
  calc L.tokens (o :: (before ++ (w ++ (v ++ (after ++ [c])))) ++ rest)
      = L.tokens (o :: (before ++ (w ++ (v ++ (after ++ (c :: rest)))))) := by simp
    _ = .opening o :: (t.tokens ++ (Tree.tokensAll ts ++ .closing :: L.tokens rest)) := by
      rw [tokens_opening h.open_not_separates h.opens, tokens_separators hbefore, hw _ hvcut,
        hvtokens, tokens_separators hafter,
        tokens_closing h.close_not_separates h.close_not_opens h.closes]
    _ = (Tree.group o (t :: ts)).tokens ++ L.tokens rest := by
      simp [Tree.tokens, Tree.tokensAll]

end Lexicon

end RelAlg
