import RelAlg.Algebra.Attribute
import RelAlg.Proofs.Except

/-!
# Projecting headers

A header may hold several attributes of one name, and a name stands for the first of them.  A
projection looks up one name after the other, so it gives the first attribute of each name or stops
at the first name that the header lacks.  Every attribute of a projected header is the first of its
name in the original header already, and so a second projection gives what the original header would
have given at once.

* `Header.FirstNamed`           : an attribute with no other of its name in front of it;
* `Header.get_eq_ok_iff`        : looking up a name gives the first attribute of that name;
* `Header.project_eq_ok_iff`    : what a projection gives;
* `Header.project_eq_error_iff` : the name that a failed projection tells of;
* `Header.project_project`      : a projection of a projection is one of the original header;
* `Header.project_names_iff`    : which headers are given back by their own names;
* `Header.project_laws`         : when a projection succeeds, what comes of it, and both laws.
-/

namespace RelAlg

/-- Pairs whose right sides determine the left ones are the right sides and their images. -/
theorem forall₂_image_iff {α β : Type} {f : β → α} {P : β → Prop} {as : List α} {bs : List β} :
    List.Forall₂ (fun a b => f b = a ∧ P b) as bs ↔ bs.map f = as ∧ ∀ b ∈ bs, P b := by
  constructor
  · intro h
    induction h with
    | nil => exact ⟨rfl, nofun⟩
    | cons hb _ ih =>
      exact ⟨by rw [List.map_cons, hb.1, ih.1], List.forall_mem_cons.2 ⟨hb.2, ih.2⟩⟩
  · rintro ⟨rfl, h⟩
    exact List.forall₂_map_left_iff.2 (List.forall₂_same.2 fun b hb => ⟨rfl, h b hb⟩)

namespace Header

/-! ## First attributes -/

/-- No attribute of the header in front of `a` has the name of `a`. -/
def FirstNamed (h : Header) (a : Attribute) : Prop :=
  ∃ before after, h.attributes = before ++ a :: after ∧ ∀ b ∈ before, b.name ≠ a.name

variable {h k : Header} {names : List String} {name : String}

theorem FirstNamed.mem {a : Attribute} (ha : h.FirstNamed a) : a ∈ h.attributes := by
  obtain ⟨before, after, hcut, -⟩ := ha
  rw [hcut]
  exact List.mem_append_right before List.mem_cons_self

theorem mem_names_of_mem {a : Attribute} (ha : a ∈ h.attributes) : a.name ∈ h.names :=
  List.mem_map_of_mem ha

/-! ## One name -/

theorem find?_eq_some_iff {a : Attribute} :
    h.find? name = some a ↔ a.name = name ∧ h.FirstNamed a := by
  rw [find?, List.find?_eq_some_iff_append, beq_iff_eq]
  refine and_congr_right ?_
  rintro rfl
  simp [FirstNamed]

theorem find?_eq_none_iff : h.find? name = none ↔ name ∉ h.names := by
  rw [find?, List.find?_eq_none, names, List.mem_map]
  simp

/-- Looking up a name gives the first attribute of that name. -/
theorem get_eq_ok_iff {a : Attribute} : h.get name = .ok a ↔ a.name = name ∧ h.FirstNamed a := by
  rw [get, ← find?_eq_some_iff]
  cases h.find? name <;> simp

/-- Looking up a name fails if no attribute has it, and the error tells of that name. -/
theorem get_eq_error_iff {e : UnknownAttribute} :
    h.get name = .error e ↔ e = ⟨name⟩ ∧ name ∉ h.names := by
  rw [get, ← find?_eq_none_iff]
  cases h.find? name <;> simp [eq_comm]

theorem exists_get_iff : (∃ a, h.get name = .ok a) ↔ name ∈ h.names := by
  constructor
  · rintro ⟨a, ha⟩
    obtain ⟨rfl, hfirst⟩ := get_eq_ok_iff.1 ha
    exact mem_names_of_mem hfirst.mem
  · intro hname
    cases hget : h.get name with
    | ok a => exact ⟨a, rfl⟩
    | error e => exact absurd hname (get_eq_error_iff.1 hget).2

/-- A name stands for one attribute only. -/
theorem FirstNamed.unique {a b : Attribute} (ha : h.FirstNamed a) (hb : h.FirstNamed b)
    (hname : a.name = b.name) : a = b := by
  have hget : h.get b.name = .ok b := get_eq_ok_iff.2 ⟨rfl, hb⟩
  rw [get_eq_ok_iff.2 ⟨hname, ha⟩] at hget
  exact Except.ok.inj hget

/-! ## Many names -/

/-- A projection gives, for the names in their order, the first attribute of each. -/
theorem project_eq_ok_iff :
    h.project names = .ok k ↔ k.names = names ∧ ∀ a ∈ k.attributes, h.FirstNamed a := by
  calc h.project names = .ok k
      ↔ List.Forall₂ (fun x a => h.get x = .ok a) names k.attributes := by
        rw [project, map_eq_ok_iff, ← mapM_eq_ok_iff]
        exact ⟨fun ⟨_, hattributes, hk⟩ => hk ▸ hattributes,
          fun hattributes => ⟨_, hattributes, rfl⟩⟩
    _ ↔ List.Forall₂ (fun x a => a.name = x ∧ h.FirstNamed a) names k.attributes := by
        simp only [get_eq_ok_iff]
    _ ↔ k.names = names ∧ ∀ a ∈ k.attributes, h.FirstNamed a := forall₂_image_iff

/-- A projection succeeds when the header has all of the names. -/
theorem exists_project_iff : (∃ k, h.project names = .ok k) ↔ ∀ x ∈ names, x ∈ h.names := by
  rw [← failure?_eq_none_iff, project, failure?_map, failure?_mapM, List.findSome?_eq_none_iff]
  exact forall₂_congr fun x _ => failure?_eq_none_iff.trans exists_get_iff

/-- A failed projection tells of the first name that the header lacks. -/
theorem project_eq_error_iff {e : UnknownAttribute} :
    h.project names = .error e ↔ ∃ before after, names = before ++ e.name :: after ∧
      (∀ x ∈ before, x ∈ h.names) ∧ e.name ∉ h.names := by
  rw [← failure?_eq_some_iff, project, failure?_map, failure?_mapM, List.findSome?_eq_some_iff]
  simp only [failure?_eq_some_iff, failure?_eq_none_iff, get_eq_error_iff, exists_get_iff]
  constructor
  · rintro ⟨before, x, after, hnames, ⟨rfl, hlacks⟩, hbefore⟩
    exact ⟨before, after, hnames, hbefore, hlacks⟩
  · rintro ⟨before, after, hnames, hbefore, hlacks⟩
    exact ⟨before, e.name, after, hnames, ⟨rfl, hlacks⟩, hbefore⟩

/-! ## Laws -/

/-- The first attribute of a name in a projected header is also the first of that name in
the original one. -/
theorem FirstNamed.of_project {a : Attribute} (hk : h.project names = .ok k) (ha : k.FirstNamed a) :
    h.FirstNamed a :=
  (project_eq_ok_iff.1 hk).2 a ha.mem

/-- Projecting a projected header is projecting the original one, as long as the names are among
those of the first projection. -/
theorem project_project {more : List String} (hk : h.project names = .ok k)
    (hmore : ∀ x ∈ more, x ∈ names) : k.project more = h.project more := by
  have hnames : k.names = names := (project_eq_ok_iff.1 hk).1
  obtain ⟨m, hm⟩ : ∃ m, k.project more = .ok m := exists_project_iff.2 (hnames ▸ hmore)
  obtain ⟨hmnames, hfirst⟩ := project_eq_ok_iff.1 hm
  rw [hm]
  exact (project_eq_ok_iff.2 ⟨hmnames, fun a ha => (hfirst a ha).of_project hk⟩).symm

/-- A header is given back by its own names if attributes that share a name share their kind. -/
theorem project_names_iff : h.project h.names = .ok h ↔
    ∀ a ∈ h.attributes, ∀ b ∈ h.attributes, a.name = b.name → a.kind = b.kind := by
  rw [project_eq_ok_iff, and_iff_right rfl]
  constructor
  · intro hfirst a ha b hb hname
    rw [(hfirst a ha).unique (hfirst b hb) hname]
  · intro hkinds a ha
    -- `b` is the first attribute with the name of `a`
    obtain ⟨b, hb⟩ := exists_get_iff.2 (mem_names_of_mem ha)
    obtain ⟨hname, hfirst⟩ := get_eq_ok_iff.1 hb
    have hkind : b.kind = a.kind := hkinds b hfirst.mem a ha hname
    have hba : b = a := (Attribute.mk.injEq ..).mpr ⟨hname, hkind⟩
    exact hba ▸ hfirst

/-- A projection succeeds exactly when the header has all of the names.  It then gives these names
in their order, each by its first attribute; otherwise the error tells of the first name that the
header lacks.  What has been projected can be projected again on the names that were asked for and
on no others, and gives then what the original header gives.  A header is given back by its own
names exactly when its attributes of one name are of one kind. -/
theorem project_laws (h : Header) :
    (∀ names, (∃ k, h.project names = .ok k) ↔ ∀ x ∈ names, x ∈ h.names) ∧
    (∀ names k, h.project names = .ok k ↔ k.names = names ∧ ∀ a ∈ k.attributes, h.FirstNamed a) ∧
    (∀ names e, h.project names = .error e ↔ ∃ before after, names = before ++ e.name :: after ∧
      (∀ x ∈ before, x ∈ h.names) ∧ e.name ∉ h.names) ∧
    (∀ names k, h.project names = .ok k → ∀ more,
      ((∃ m, k.project more = .ok m) ↔ ∀ x ∈ more, x ∈ names) ∧
      ((∀ x ∈ more, x ∈ names) → k.project more = h.project more)) ∧
    (h.project h.names = .ok h ↔
      ∀ a ∈ h.attributes, ∀ b ∈ h.attributes, a.name = b.name → a.kind = b.kind) := by
  refine ⟨fun _ => exists_project_iff, fun _ _ => project_eq_ok_iff,
    fun _ _ => project_eq_error_iff, fun names k hk more => ⟨?_, project_project hk⟩,
    project_names_iff⟩
  rw [exists_project_iff, (project_eq_ok_iff.1 hk).1]

/-- A header with two attributes of one name. -/
def doubled : Header := ⟨[⟨"x", .integer⟩, ⟨"y", .string⟩, ⟨"x", .float⟩]⟩

/-- A name that is asked for twice gives its first attribute twice, and what comes of it can be
projected again.  The names of this header do not give it back, since its last attribute stands
behind another of its name. -/
theorem project_laws_doubled :
    doubled.project ["x", "y", "x"] = .ok ⟨[⟨"x", .integer⟩, ⟨"y", .string⟩, ⟨"x", .integer⟩]⟩ ∧
    (∀ x ∈ ["y", "x"], x ∈ ["x", "y", "x"]) ∧
    Header.project ⟨[⟨"x", .integer⟩, ⟨"y", .string⟩, ⟨"x", .integer⟩]⟩ ["y", "x"]
      = doubled.project ["y", "x"] ∧
    doubled.project doubled.names ≠ .ok doubled := by
  obtain ⟨-, -, -, hagain, hself⟩ := project_laws doubled
  have honce : doubled.project ["x", "y", "x"]
      = .ok ⟨[⟨"x", .integer⟩, ⟨"y", .string⟩, ⟨"x", .integer⟩]⟩ := rfl
  have hmore : ∀ x ∈ ["y", "x"], x ∈ ["x", "y", "x"] := by decide
  exact ⟨honce, hmore, (hagain _ _ honce _).2 hmore, fun h => absurd (hself.1 h) (by decide)⟩

end Header

end RelAlg
