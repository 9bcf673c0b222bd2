import Mathlib.Data.List.Forall2

/-!
# Computations that may fail

What a sequence and a map of computations come to, when they succeed and when they do not.

* `bind_eq_ok_iff`, `map_eq_ok_iff`, `mapM_eq_ok_iff`: success, step by step;
* `mapM_congr_of_front`                              : a map stops at its first error;
* `failure?`, `failure?_bind`, `failure?_mapM`       : the error, as that of the first
  step that fails;
* `foldlM_eq_error_iff`                              : a loop ends at the first element
  whose step fails;
* `run_mapM_eq_none_or`, `run_mapM_eq_none_iff`      : a map of computations that may also run
  out of room.
-/

namespace RelAlg

/-! ## Success -/

/-- A sequence of two readers succeeds when the first does and the second does on its result. -/
theorem bind_eq_ok_iff {ε α β : Type} {x : Except ε α} {f : α → Except ε β} {b : β} :
    (x >>= f) = .ok b ↔ ∃ a, x = .ok a ∧ f a = .ok b := by
  cases x with
  | error e => exact ⟨nofun, nofun⟩
  | ok a => exact ⟨fun h => ⟨a, rfl, h⟩, fun ⟨_, ha, h⟩ => by cases ha; exact h⟩

theorem map_eq_ok_iff {ε α β : Type} {x : Except ε α} {f : α → β} {b : β} :
    f <$> x = .ok b ↔ ∃ a, x = .ok a ∧ f a = b := by
  cases x with
  | error e => exact ⟨nofun, nofun⟩
  | ok a => exact ⟨fun h => ⟨a, rfl, by cases h; rfl⟩, fun ⟨_, ha, h⟩ => by cases ha; cases h; rfl⟩

theorem toOption_eq_some_iff {ε α : Type} {x : Except ε α} {a : α} :
    x.toOption = some a ↔ x = .ok a := by
  cases x <;> simp [Except.toOption]

/-- A map succeeds when its function does on every element. -/
theorem mapM_eq_ok_iff {ε α β : Type} {f : α → Except ε β} {as : List α} {bs : List β} :
    as.mapM f = .ok bs ↔ List.Forall₂ (fun a b => f a = .ok b) as bs := by
  induction as generalizing bs with
  | nil => cases bs <;> simp [pure, Except.pure]
  | cons a as ih =>
    rw [List.mapM_cons, bind_eq_ok_iff]
    simp only [bind_eq_ok_iff, ih]
    constructor
    · rintro ⟨b, hb, rest, hrest, h⟩
      cases h
      exact .cons hb hrest
    · rintro (_ | ⟨hb, hrest⟩)
      exact ⟨_, hb, _, hrest, rfl⟩

/-- A map whose function succeeds on every element succeeds. -/
theorem mapM_eq_ok_map {ε α β : Type} {f : α → Except ε β} {g : α → β} {l : List α}
    (h : ∀ x ∈ l, f x = .ok (g x)) : l.mapM f = .ok (l.map g) :=
  mapM_eq_ok_iff.2 (List.forall₂_map_right_iff.2 (List.forall₂_same.2 h))

/-- Keys and results that belong together can be put together afterwards. -/
theorem mapM_zipWith {ε α β γ δ : Type} (f : β → Except ε γ) (g : α → β) (h : α → γ → δ)
    (l : List α) :
    (l.mapM fun x => h x <$> f (g x)) = (fun ys => List.zipWith h l ys) <$> (l.map g).mapM f := by
  induction l with
  | nil => rfl
  | cons x rest ih =>
    simp only [List.mapM_cons, List.map_cons, ih]
    cases f (g x) with
    | error e => rfl
    | ok y =>
      cases (rest.map g).mapM f with
      | error e => rfl
      | ok ys => rfl

/-- A map stops at the first error, so a function matters only on the elements in front of it and
on that one. -/
theorem mapM_congr_of_front {ε α β : Type} {f g : α → Except ε β} {l : List α}
    (h : ∀ front a back, l = front ++ a :: back → (∀ b ∈ front, ∃ y, f b = .ok y) → f a = g a) :
    l.mapM f = l.mapM g := by
  induction l with
  | nil => rfl
  | cons a l ih =>
    have hhead : f a = g a := h [] a l rfl nofun
    rw [List.mapM_cons, List.mapM_cons, ← hhead]
    cases ha : f a with
    | error e => rfl
    | ok y =>
      have htail : l.mapM f = l.mapM g := by
        refine ih fun front b back hl hfront => h (a :: front) b back (by rw [hl]; rfl) ?_
        intro c hc
        rcases List.mem_cons.1 hc with rfl | hc
        · exact ⟨y, ha⟩
        · exact hfront c hc
      rw [htail]

/-! ## Failure -/

section Failure

variable {ε α β : Type}

/-- The error of a computation that fails. -/
def failure? : Except ε α → Option ε
  | .ok _ => none
  | .error e => some e

theorem failure?_eq_some_iff {x : Except ε α} {e : ε} : failure? x = some e ↔ x = .error e := by
  cases x <;> simp [failure?]

theorem failure?_eq_none_iff {x : Except ε α} : failure? x = none ↔ ∃ a, x = .ok a := by
  cases x <;> simp [failure?]

/-- What is made of a result cannot fail. -/
@[simp] theorem failure?_map (f : α → β) (x : Except ε α) : failure? (f <$> x) = failure? x := by
  cases x <;> rfl

/-- Of two computations in a row the first one that fails is reported. -/
theorem failure?_bind (x : Except ε α) {g : α → Except ε β} {o : Option ε}
    (h : ∀ a, failure? (g a) = o) : failure? (x >>= g) = (failure? x).or o := by
  cases x with
  | ok a => exact (h a).trans Option.none_or.symm
  | error e => rfl

/-- The first hit is at the head or behind it. -/
theorem findSome?_cons_or (f : α → Option β) (a : α) (l : List α) :
    (a :: l).findSome? f = (f a).or (l.findSome? f) := by
  rw [List.findSome?_cons]
  cases f a <;> rfl

/-- The first hit in lists put side by side is the first hit of the first list that has one. -/
theorem findSome?_flatMap {γ : Type} {f : α → List β} {g : α → Option γ} {p : β → Option γ}
    {l : List α} (h : ∀ a ∈ l, g a = (f a).findSome? p) :
    l.findSome? g = (l.flatMap f).findSome? p := by
  induction l with
  | nil => rfl
  | cons a rest ih =>
    rw [List.flatMap_cons, List.findSome?_append, findSome?_cons_or, h a List.mem_cons_self,
      ih fun b hb => h b (List.mem_cons_of_mem _ hb)]

/-- Of computations in a row the first one that fails is reported. -/
theorem failure?_mapM (f : α → Except ε β) (l : List α) :
    failure? (l.mapM f) = l.findSome? fun a => failure? (f a) := by
  induction l with
  | nil => rfl
  | cons a rest ih =>
    have hrest : ∀ b, failure? (rest.mapM f >>= fun bs => pure (b :: bs))
        = failure? (rest.mapM f) := fun b => by rw [← map_eq_pure_bind, failure?_map]
    rw [List.mapM_cons, failure?_bind (f a) hrest, ih, findSome?_cons_or]

/-- A loop fails when it has got through some elements and the step for the next one fails. -/
theorem foldlM_eq_error_iff {f : β → α → Except ε β} {l : List α} {b : β} {e : ε} :
    l.foldlM f b = .error e ↔ ∃ before a after c, l = before ++ a :: after ∧
      before.foldlM f b = .ok c ∧ f c a = .error e := by
  constructor
  · intro h
    induction l generalizing b with
    | nil => cases h
    | cons a rest ih =>
      rw [List.foldlM_cons] at h
      cases hstep : f b a with
      | error e' =>
        rw [hstep] at h
        cases h
        exact ⟨[], a, rest, b, rfl, rfl, hstep⟩
      | ok b' =>
        rw [hstep] at h
        obtain ⟨before, x, after, c, rfl, hbefore, hfail⟩ := ih h
        refine ⟨a :: before, x, after, c, rfl, ?_, hfail⟩
        rw [List.foldlM_cons, hstep]
        exact hbefore
  · rintro ⟨before, a, after, c, rfl, hbefore, hfail⟩
    rw [List.foldlM_append, hbefore]
    show (a :: after).foldlM f c = _
    rw [List.foldlM_cons, hfail]
    rfl

end Failure

/-! ## Room

A computation that is given too little room comes to `none`, and is then neither a success
nor a failure. -/

section Room

variable {ε α β : Type} {f : α → ExceptT ε Option β} {g : α → Except ε β} {a : α} {l : List α}

theorem run_mapM_cons_of_none (ha : (f a).run = none) : ((a :: l).mapM f).run = none := by
  rw [List.mapM_cons, ExceptT.run_bind, ha]
  rfl

theorem run_mapM_cons_of_error {e : ε} (ha : (f a).run = some (.error e)) :
    ((a :: l).mapM f).run = some (.error e) := by
  rw [List.mapM_cons, ExceptT.run_bind, ha]
  rfl

theorem run_mapM_cons_of_ok {b : β} (ha : (f a).run = some (.ok b)) :
    ((a :: l).mapM f).run = (l.mapM f).run.map ((b :: ·) <$> ·) := by
  rw [List.mapM_cons, ExceptT.run_bind, ha]
  show (l.mapM f >>= fun bs => pure (b :: bs)).run = _
  rw [← map_eq_pure_bind, ExceptT.run_map]
  rfl

/-- A map runs out of room or has the results that it has with room enough. -/
theorem run_mapM_eq_none_or (h : ∀ a ∈ l, (f a).run = none ∨ (f a).run = some (g a)) :
    (l.mapM f).run = none ∨ (l.mapM f).run = some (l.mapM g) := by
  induction l with
  | nil => exact .inr rfl
  | cons a rest ih =>
    obtain ⟨ha, hrest⟩ := List.forall_mem_cons.1 h
    rcases ha with ha | ha
    · exact .inl (run_mapM_cons_of_none ha)
    · rw [List.mapM_cons (f := g)]
      cases hg : g a with
      | error e => exact .inr (run_mapM_cons_of_error (ha.trans (congrArg some hg)))
      | ok b =>
        rw [run_mapM_cons_of_ok (ha.trans (congrArg some hg))]
        rcases ih hrest with hmap | hmap
        · exact .inl (by rw [hmap]; rfl)
        · rw [hmap]
          exact .inr rfl

/-- A map runs out of room at an element in front of which there is no error. -/
theorem run_mapM_eq_none_iff (h : ∀ a ∈ l, (f a).run = none ∨ (f a).run = some (g a)) :
    (l.mapM f).run = none ↔ ∃ before a after, l = before ++ a :: after ∧
      (∀ b ∈ before, ∃ y, g b = .ok y) ∧ (f a).run = none := by
  induction l with
  | nil => simp
  | cons x rest ih =>
    obtain ⟨hx, hrest⟩ := List.forall_mem_cons.1 h
    constructor
    · intro hnone
      rcases hx with hx | hx
      · exact ⟨[], x, rest, rfl, nofun, hx⟩
      · cases hg : g x with
        | error e =>
          rw [run_mapM_cons_of_error (hx.trans (congrArg some hg))] at hnone
          cases hnone
        | ok y =>
          rw [run_mapM_cons_of_ok (hx.trans (congrArg some hg)), Option.map_eq_none_iff] at hnone
          obtain ⟨before, a, after, rfl, hbefore, ha⟩ := (ih hrest).1 hnone
          exact ⟨x :: before, a, after, rfl, List.forall_mem_cons.2 ⟨⟨y, hg⟩, hbefore⟩, ha⟩
    · rintro ⟨before, a, after, hl, hbefore, ha⟩
      rcases hx with hx | hx
      · exact run_mapM_cons_of_none hx
      · cases before with
        | nil =>
          cases hl
          rw [ha] at hx
          cases hx
        | cons b before =>
          cases hl
          obtain ⟨⟨y, hy⟩, hbefore⟩ := List.forall_mem_cons.1 hbefore
          rw [run_mapM_cons_of_ok (hx.trans (congrArg some hy)), Option.map_eq_none_iff]
          exact (ih hrest).2 ⟨before, a, after, rfl, hbefore, ha⟩

end Room

end RelAlg
