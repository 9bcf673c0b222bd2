import Mathlib.Data.List.TakeWhile
import RelAlg.CommandLine.Run
import RelAlg.Proofs.Algebra.Arity
import RelAlg.Proofs.Sexp.Translation

/-!
# Runs that render a tree

What such a run needs is told without the program: a text at the path, a format to read it in,
and a relation in that text whose tuples match their headers.  If it has all this it ends well
and writes the rendering and a line feed; if it lacks anything it fails and writes nothing.
Nothing can go wrong after that, since every relation has a canonical s-expression, and notes
are written elsewhere.

* `Sources.Holds`, `ReadAs`, `Loads`: the text, the format and the relation of a run;
* `extension?_eq_some_iff`          : the extension of a path;
* `readAs_iff`                      : the format in which a source is read;
* `loadRelation_eq_ok_iff`          : what it takes to load a relation;
* `run_emit`                        : exit status and output.
-/

namespace RelAlg

/-! ## Texts -/

/-- Bytes are read as the text that they encode. -/
theorem textOfBytes_eq_ok_iff {bytes : ByteArray} {text : String} :
    textOfBytes bytes = .ok text ↔ bytes = text.toUTF8 := by
  unfold textOfBytes String.fromUTF8?
  constructor
  · intro h
    by_cases hvalid : bytes.IsValidUTF8
    · simp only [hvalid] at h
      cases h
      rfl
    · simp [hvalid] at h
  · rintro rfl
    simp only [String.toUTF8_eq_toByteArray, dif_pos text.isValidUTF8]
    rfl

namespace Sources

/-- The source at a path, a file or for `-` standard input, can be read and encodes the text. -/
def Holds (s : Sources) (path text : String) : Prop :=
  if path = "-" then s.stdin = .ok text.toUTF8 else s.file path = .ok text.toUTF8

variable {s : Sources} {path text : String}

/-- A source gives a text if it can be read and encodes the text. -/
theorem bind_textOfBytes_eq_ok_iff {read : Except FileError ByteArray} :
    (read >>= textOfBytes) = .ok text ↔ read = .ok text.toUTF8 := by
  rw [bind_eq_ok_iff]
  constructor
  · rintro ⟨bytes, hbytes, htext⟩
    rw [hbytes, textOfBytes_eq_ok_iff.1 htext]
  · intro h
    exact ⟨_, h, textOfBytes_eq_ok_iff.2 rfl⟩

theorem inputText_eq_ok_iff : s.inputText = .ok text ↔ s.stdin = .ok text.toUTF8 :=
  bind_textOfBytes_eq_ok_iff

theorem fileText_eq_ok_iff : s.fileText path = .ok text ↔ s.file path = .ok text.toUTF8 :=
  bind_textOfBytes_eq_ok_iff

end Sources

/-! ## Extensions -/

/-- The last part of a path is a stem, a point and the extension. -/
def HasExtension (path ext : String) : Prop :=
  ∃ stem, (pathParts path).getLast? = some (stem ++ '.' :: ext.toList) ∧ stem ≠ [] ∧
    '.' ∉ ext.toList ∧ stem ++ '.' :: ext.toList ≠ ['.', '.']

/-- The end of a name behind its last point. -/
theorem takeWhile_reverse_append {stem ext : List Char} (hext : '.' ∉ ext) :
    ((stem ++ '.' :: ext).reverse.takeWhile (· != '.')).reverse = ext := by
  have hall : ∀ c ∈ ext.reverse, (c != '.') = true := by
    intro c hc
    rw [List.mem_reverse] at hc
    simp only [bne_iff_ne]
    rintro rfl
    exact hext hc
  rw [List.reverse_append, List.reverse_cons, List.append_assoc, List.takeWhile_append_of_pos hall]
  simp

/-- A name with more than its end has a point in front of that end. -/
theorem exists_eq_append_of_lt {name : List Char}
    (h : (name.reverse.takeWhile (· != '.')).reverse.length < name.length) :
    ∃ stem, name = stem ++ '.' :: (name.reverse.takeWhile (· != '.')).reverse := by
  have hsplit := List.takeWhile_append_dropWhile (p := (· != '.')) (l := name.reverse)
  cases hdrop : name.reverse.dropWhile (· != '.') with
  | nil =>
    rw [hdrop, List.append_nil] at hsplit
    rw [hsplit] at h
    simp at h
  | cons c rest =>
    have hc : c = '.' := by
      have hhead := List.head?_dropWhile_not (· != '.') name.reverse
      rw [hdrop] at hhead
      simpa using hhead
    refine ⟨rest.reverse, ?_⟩
    rw [hdrop, hc] at hsplit
    have hname := congrArg List.reverse hsplit
    rw [List.reverse_append, List.reverse_cons, List.append_assoc, List.reverse_reverse] at hname
    exact hname.symm

/-- What stands in front of a point and an end. -/
theorem take_append_point (stem ext : List Char) :
    (stem ++ '.' :: ext).take ((stem ++ '.' :: ext).length - ext.length - 1) = stem := by
  have hlength : (stem ++ '.' :: ext).length - ext.length - 1 = stem.length := by
    rw [List.length_append, List.length_cons]
    omega
  rw [hlength, List.take_left' rfl]

/-- The end behind the last point and what stands in front of that point. -/
theorem eq_append_point_iff {name stem ext : List Char} : name = stem ++ '.' :: ext ∧ '.' ∉ ext ↔
    (name.reverse.takeWhile (· != '.')).reverse = ext ∧ ext.length < name.length ∧
      name.take (name.length - ext.length - 1) = stem := by
  constructor
  · rintro ⟨rfl, hext⟩
    refine ⟨takeWhile_reverse_append hext, ?_, take_append_point stem ext⟩
    rw [List.length_append, List.length_cons]
    omega
  · rintro ⟨hcut, hlength, hstem⟩
    obtain ⟨front, hname⟩ := exists_eq_append_of_lt (hcut.symm ▸ hlength)
    rw [hcut] at hname
    have hfront : front = stem := by
      rw [hname, take_append_point] at hstem
      exact hstem
    refine ⟨hfront ▸ hname, fun hpoint => ?_⟩
    rw [← hcut, List.mem_reverse] at hpoint
    simpa using List.mem_takeWhile_imp hpoint

/-- The extension of a path is what stands behind the last point of its last part. -/
theorem extension?_eq_some_iff {path ext : String} :
    extension? path = some ext ↔ HasExtension path ext := by
  unfold extension? HasExtension
  cases (pathParts path).getLast? with
  | none => simp
  | some name =>
    by_cases hdots : name = ['.', '.']
    · subst hdots
      simp only [beq_self_eq_true, if_true, reduceCtorEq, false_iff]
      rintro ⟨stem, hname, -, -, hne⟩
      exact hne (Option.some.inj hname).symm
    · simp only [beq_iff_eq, hdots, if_false]
      constructor
      · intro h
        split at h
        · rename_i hfound
          rw [Bool.and_eq_true, decide_eq_true_eq] at hfound
          obtain ⟨hname, hext⟩ := eq_append_point_iff.2 ⟨rfl, hfound.1, rfl⟩
          cases h
          rw [String.toList_ofList]
          refine ⟨_, congrArg some hname, ?_, hext, fun heq => hdots (hname.trans heq)⟩
          simpa using hfound.2
        · cases h
      · rintro ⟨stem, hname, hstem, hext, -⟩
        obtain ⟨hcut, hlength, hfront⟩ := eq_append_point_iff.1 ⟨Option.some.inj hname, hext⟩
        rw [hcut, hfront, if_pos, String.ofList_toList]
        simp [hlength, hstem]

/-! ## Formats -/

/-- The format in which the source at a path is read if a format is asked for: that one, or in
its absence JSON for standard input, YAML for the extensions `yaml` and `yml`, and JSON for
any other file. -/
inductive ReadAs (path : String) : InputFormat → InputFormat → Prop where
  | asked {format : InputFormat} (h : format ≠ .auto) : ReadAs path format format
  | input (h : path = "-") : ReadAs path .auto .json
  | yaml (h : path ≠ "-") (hext : HasExtension path "yaml" ∨ HasExtension path "yml") :
    ReadAs path .auto .yaml
  | other (h : path ≠ "-") (hext : ¬(HasExtension path "yaml" ∨ HasExtension path "yml")) :
    ReadAs path .auto .json

theorem resolveFormat_of_ne_auto {path : String} {asked : InputFormat} (h : asked ≠ .auto) :
    resolveFormat path asked = asked := by
  cases asked with
  | auto => exact absurd rfl h
  | json => rfl
  | yaml => rfl

theorem resolveFormat_of_yaml {path : String}
    (h : HasExtension path "yaml" ∨ HasExtension path "yml") :
    resolveFormat path .auto = .yaml := by
  rw [← extension?_eq_some_iff, ← extension?_eq_some_iff] at h
  exact if_pos (by simpa using h)

theorem resolveFormat_of_other {path : String}
    (h : ¬(HasExtension path "yaml" ∨ HasExtension path "yml")) :
    resolveFormat path .auto = .json := by
  rw [← extension?_eq_some_iff, ← extension?_eq_some_iff] at h
  exact if_neg (by simpa using h)

/-- The format in which the source at a path is read. -/
def loadFormat (path : String) (asked : InputFormat) : InputFormat :=
  if path = "-" then (if asked = .auto then .json else asked) else resolveFormat path asked

theorem readAs_iff {path : String} {asked format : InputFormat} :
    ReadAs path asked format ↔ loadFormat path asked = format := by
  unfold loadFormat
  constructor
  · intro h
    cases h with
    | asked hasked => simp [hasked, resolveFormat_of_ne_auto hasked]
    | input hpath => simp [hpath]
    | yaml hpath hext => rw [if_neg hpath, resolveFormat_of_yaml hext]
    | other hpath hext => rw [if_neg hpath, resolveFormat_of_other hext]
  · rintro rfl
    by_cases hasked : asked = .auto
    · subst hasked
      by_cases hpath : path = "-"
      · simpa [hpath] using ReadAs.input hpath
      · rw [if_neg hpath]
        by_cases hext : HasExtension path "yaml" ∨ HasExtension path "yml"
        · rw [resolveFormat_of_yaml hext]
          exact .yaml hpath hext
        · rw [resolveFormat_of_other hext]
          exact .other hpath hext
    · simpa [hasked, resolveFormat_of_ne_auto hasked] using ReadAs.asked hasked

/-! ## Loading -/

/-- The source at the path is a text that decodes as a relation in its format, and the tuples of the
relation match their headers. -/
def Loads (s : Sources) (o : EmitOptions) (r : Relation) : Prop :=
  ∃ text format, s.Holds o.path text ∧ ReadAs o.path o.input format ∧
    decodeRelation format text = .ok r ∧ r.validate = .ok ()

theorem mapError_eq_ok_iff {ε δ α : Type} {f : ε → δ} {x : Except ε α} {a : α} :
    x.mapError f = .ok a ↔ x = .ok a := by
  cases x <;> simp [Except.mapError]

/-- The text at a path, with the errors of loading. -/
def Sources.text (s : Sources) (path : String) : Except LoadError String :=
  if path = "-" then s.inputText.mapError .inputUnread
  else (s.fileText path).mapError (.fileUnread path)

theorem Sources.text_eq_ok_iff {s : Sources} {path text : String} :
    s.text path = .ok text ↔ s.Holds path text := by
  unfold Sources.text Holds
  by_cases hpath : path = "-"
  · rw [if_pos hpath, if_pos hpath, mapError_eq_ok_iff, inputText_eq_ok_iff]
  · rw [if_neg hpath, if_neg hpath, mapError_eq_ok_iff, fileText_eq_ok_iff]

theorem mapError_invalid (path : String) (parsed : Except ParseError Relation) :
    (match parsed with
      | .ok r => return r
      | .error e => .error (.invalid path e)) = parsed.mapError (LoadError.invalid path) := by
  cases parsed <;> rfl

/-- Loading reads the text and then what is in it. -/
theorem loadRelation_eq (s : Sources) (path : String) (asked : InputFormat) :
    loadRelation s path asked = (s.text path >>= fun text =>
      (parseRelation (loadFormat path asked) text).mapError (.invalid path)) := by
  unfold loadRelation Sources.text loadFormat
  by_cases hpath : path = "-"
  · simp only [hpath, if_true]
    cases s.inputText with
    | error e => rfl
    | ok text => exact mapError_invalid "-" _
  · simp only [hpath, if_false]
    cases s.fileText path with
    | error e => rfl
    | ok text => exact mapError_invalid path _

theorem loadRelation_eq_ok_iff {s : Sources} {o : EmitOptions} {r : Relation} :
    loadRelation s o.path o.input = .ok r ↔ Loads s o r := by
  simp only [loadRelation_eq, bind_eq_ok_iff, mapError_eq_ok_iff, Sources.text_eq_ok_iff,
    parseRelation_eq_ok_iff, Loads, readAs_iff]
  constructor
  · rintro ⟨text, htext, hr⟩
    exact ⟨text, _, htext, rfl, hr⟩
  · rintro ⟨text, _, htext, rfl, hr⟩
    exact ⟨text, htext, hr⟩

/-! ## Runs -/

/-- Every relation has a canonical s-expression, and it is rendered. -/
theorem emit_eq (output : OutputFormat) (isPretty : Bool) (r : Relation) :
    emit output isPretty r = .ok (output.render isPretty r.translate) := by
  rw [emit, Sexp.ofNode_relation]
  rfl

/-- A run that loads a relation ends well and writes its rendering, whatever else it notes. -/
theorem runEmit_of_loads {s : Sources} {o : EmitOptions} {r : Relation} (h : Loads s o r)
    (verbose : Bool) :
    (runEmit s verbose o).exit = 0 ∧
    (runEmit s verbose o).stdout = o.output.render o.isPretty r.translate ++ "\n" := by
  simp only [runEmit, loadRelation_eq_ok_iff.2 h, emit_eq]
  exact ⟨rfl, rfl⟩

/-- A run that loads nothing fails and writes nothing. -/
theorem runEmit_of_not_loads {s : Sources} {o : EmitOptions} (h : ¬∃ r, Loads s o r)
    (verbose : Bool) :
    (runEmit s verbose o).exit = 1 ∧ (runEmit s verbose o).stdout = "" := by
  cases hload : loadRelation s o.path o.input with
  | ok r => exact absurd ⟨r, loadRelation_eq_ok_iff.1 hload⟩ h
  | error e =>
    simp only [runEmit, hload]
    exact ⟨rfl, rfl⟩

/-- A run whose arguments ask for a rendering ends well exactly if it loads a relation.  It then
writes the rendering of the canonical s-expression, which every relation has, and a line feed;
else it fails and writes nothing.  Whether it is verbose matters neither for its end nor for
what it writes. -/
theorem run_emit {args : List String} {verbose : Bool} {o : EmitOptions}
    (hargs : Invocation.parse args = .ok ⟨verbose, .emit o⟩) (s : Sources) :
    ((run s args).exit = 0 ↔ ∃ r, Loads s o r) ∧
    (∀ r, Loads s o r → ∃ x, Sexp.ofNode .canonical (.relation r) = .ok x ∧
      (run s args).stdout = o.output.render o.isPretty x ++ "\n") ∧
    ((¬∃ r, Loads s o r) → (run s args).exit = 1 ∧ (run s args).stdout = "") ∧
    (∀ r, ∃ x, Sexp.ofNode .canonical (.relation r) = .ok x ∧
      emit o.output o.isPretty r = .ok (o.output.render o.isPretty x)) ∧
    ∀ args' verbose', Invocation.parse args' = .ok ⟨verbose', .emit o⟩ →
      (run s args').exit = (run s args).exit ∧ (run s args').stdout = (run s args).stdout := by
  have hrun : ∀ {args verbose}, Invocation.parse args = .ok ⟨verbose, .emit o⟩ →
      run s args = runEmit s verbose o := by
    intro args verbose h
    rw [run, h]
  rw [hrun hargs]
  refine ⟨?_, ?_, ?_, ?_, ?_⟩
  · constructor
    · intro hexit
      by_contra hload
      rw [(runEmit_of_not_loads hload verbose).1] at hexit
      cases hexit
    · rintro ⟨r, hr⟩
      exact (runEmit_of_loads hr verbose).1
  · intro r hr
    exact ⟨r.translate, Sexp.ofNode_relation r, (runEmit_of_loads hr verbose).2⟩
  · intro hload
    exact runEmit_of_not_loads hload verbose
  · intro r
    exact ⟨r.translate, Sexp.ofNode_relation r, emit_eq o.output o.isPretty r⟩
  · intro args' verbose' hargs'
    rw [hrun hargs']
    by_cases hload : ∃ r, Loads s o r
    · obtain ⟨r, hr⟩ := hload
      have hthis := runEmit_of_loads hr verbose
      have hother := runEmit_of_loads hr verbose'
      exact ⟨hother.1.trans hthis.1.symm, hother.2.trans hthis.2.symm⟩
    · have hthis := runEmit_of_not_loads hload verbose
      have hother := runEmit_of_not_loads hload verbose'
      exact ⟨hother.1.trans hthis.1.symm, hother.2.trans hthis.2.symm⟩

/-- One tree, in YAML, and an empty standard input. -/
def oneTree : Sources where
  stdin := .ok .empty
  file path :=
    if path = "trees/t.yml" then .ok "relation: base\nname: t\nheader: []\n".toUTF8
    else .error .missing

/-- The tree is read as YAML for its extension and rendered; the empty input is not a tree. -/
theorem run_emit_oneTree :
    (run oneTree ["-v", "emit", "trees/t.yml"]).exit = 0 ∧
    (run oneTree ["-v", "emit", "trees/t.yml"]).stdout = "(base \"t\" ())\n" ∧
    (run oneTree ["emit", "-"]).exit = 1 ∧ (run oneTree ["emit", "-"]).stdout = "" := by
  have hfile : Invocation.parse ["-v", "emit", "trees/t.yml"]
      = .ok ⟨true, .emit ⟨"trees/t.yml", .auto, .sexp, false⟩⟩ := by decide +kernel
  have hinput : Invocation.parse ["emit", "-"] = .ok ⟨false, .emit ⟨"-", .auto, .sexp, false⟩⟩ := by
    decide +kernel
  have hext : HasExtension "trees/t.yml" "yml" :=
    ⟨['t'], by decide +kernel, by decide, by decide, by decide⟩
  have hread : (decodeRelation .yaml "relation: base\nname: t\nheader: []\n").toOption.any (fun r =>
      r.validate.toOption.isSome && r.translate.render false == "(base \"t\" ())") = true := by
    decide +kernel
  obtain ⟨hexit, hstdout, -⟩ := run_emit hfile oneTree
  obtain ⟨-, -, hfails, -⟩ := run_emit hinput oneTree
  have hempty : (loadRelation oneTree "-" .auto).toOption.isNone = true := by decide +kernel
  have hnone : ¬∃ r, Loads oneTree ⟨"-", .auto, .sexp, false⟩ r := by
    rintro ⟨r, hr⟩
    rw [loadRelation_eq_ok_iff.2 hr] at hempty
    cases hempty
  cases hr : decodeRelation .yaml "relation: base\nname: t\nheader: []\n" with
  | error e =>
    rw [hr] at hread
    cases hread
  | ok r =>
    rw [hr] at hread
    obtain ⟨hvalid, htext⟩ := Bool.and_eq_true_iff.1 hread
    have hvalid : r.validate = .ok () := by
      cases h : r.validate with
      | ok => rfl
      | error e => rw [h] at hvalid; cases hvalid
    have hloads : Loads oneTree ⟨"trees/t.yml", .auto, .sexp, false⟩ r :=
      ⟨_, _, rfl, .yaml (by decide) (.inr hext), hr, hvalid⟩
    obtain ⟨x, hx, hout⟩ := hstdout r hloads
    rw [Sexp.ofNode_relation] at hx
    cases hx
    have hrender : r.translate.render false = "(base \"t\" ())" := beq_iff_eq.1 htext
    refine ⟨hexit.2 ⟨r, hloads⟩, ?_, hfails hnone⟩
    rw [hout]
    show r.translate.render false ++ "\n" = _
    rw [hrender]
    rfl

end RelAlg
