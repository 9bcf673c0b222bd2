import RelAlg.Decode.Streamed
import RelAlg.Proofs.Decode.Members

/-!
# The check of what is read into memory

A relation or a function is checked as a whole before it is interpreted.  An object or an array
passes exactly if it is sound and whatever names its form is one of the known words, given only
once.  So the check does not depend on the order of the members, and what passes nests no
deeper than allowed.

* `Document.soundItems_iff`, `Document.soundMembers_iff`: what is sound, item by item and
  member by member;
* `Decode.hold_object_eq_ok_iff`, `Decode.hold_array_eq_ok_iff`: what passes the check;
* `Decode.depth_of_hold`: how deeply that may nest.
-/

namespace RelAlg

namespace Document

theorem soundItems_iff {room : Nat} {items : List Document} :
    soundItems room items = true ↔ ∀ d ∈ items, d.sound room = true := by
  induction items with
  | nil => simp [soundItems]
  | cons d items ih => simp [soundItems, ih]

theorem soundMembers_iff {room : Nat} {ms : List (Key × Document)} :
    soundMembers room ms = true ↔ ∀ m ∈ ms, (∃ w, m.1 = .text w) ∧ m.2.sound room = true := by
  induction ms with
  | nil => simp [soundMembers]
  | cons m ms ih =>
    obtain ⟨key, d⟩ := m
    cases key <;> simp [soundMembers, ih]

theorem soundMembers_cons {room : Nat} {m : Key × Document} {ms : List (Key × Document)} :
    soundMembers room (m :: ms) = true ↔
      soundMembers room [m] = true ∧ soundMembers room ms = true := by
  simp [soundMembers_iff]

mutual

theorem depth_le_of_sound : ∀ (room : Nat) (d : Document), d.sound room = true → d.depth ≤ room
  | room, array items, h => by
    obtain ⟨hroom, hitems⟩ := Bool.and_eq_true_iff.1 h
    have hroom := of_decide_eq_true hroom
    have hitems := depthItems_le_of_sound (room - 1) items hitems
    rw [depth]
    omega
  | room, object ms, h => by
    obtain ⟨hroom, hms⟩ := Bool.and_eq_true_iff.1 h
    have hroom := of_decide_eq_true hroom
    have hms := depthMembers_le_of_sound (room - 1) ms hms
    rw [depth]
    omega
  | _, null, _ | _, boolean _, _ | _, integer _, _ | _, minusZero, _ | _, float _, _
  | _, string _, _ => Nat.zero_le _

theorem depthItems_le_of_sound :
    ∀ (room : Nat) (items : List Document), soundItems room items = true → depthItems items ≤ room
  | _, [], _ => Nat.zero_le _
  | room, d :: items, h => by
    obtain ⟨hd, hitems⟩ := Bool.and_eq_true_iff.1 h
    exact Nat.max_le.2 ⟨depth_le_of_sound room d hd, depthItems_le_of_sound room items hitems⟩

theorem depthMembers_le_of_sound : ∀ (room : Nat) (ms : List (Key × Document)),
    soundMembers room ms = true → depthMembers ms ≤ room
  | _, [], _ => Nat.zero_le _
  | room, (.text _, d) :: ms, h => by
    obtain ⟨hd, hms⟩ := Bool.and_eq_true_iff.1 h
    exact Nat.max_le.2 ⟨depth_le_of_sound room d hd, depthMembers_le_of_sound room ms hms⟩

end

end Document

namespace Decode

theorem holdTag_eq_ok_iff {words : List String} {d : Document} :
    holdTag words d = .ok () ↔ ∃ w ∈ words, d = .string w := by
  cases d <;> simp [holdTag]

/-- Members pass the check if they are sound and the form is named at most once, by one
of the words. -/
theorem holdMembers_eq_ok_iff {room : Nat} {name : String} {words : List String} {seen : Bool}
    {ms : List (Key × Document)} : holdMembers room name words seen ms = .ok () ↔
      Document.soundMembers room ms = true ∧ (valuesAt (· == .text name) ms = [] ∨
        seen = false ∧ ∃ w ∈ words, valuesAt (· == .text name) ms = [.string w]) := by
  induction ms generalizing seen with
  | nil => simp [holdMembers, Document.soundMembers]
  | cons m ms ih =>
    obtain ⟨key, d⟩ := m
    rw [Document.soundMembers_cons]
    by_cases hkey : key = .text name
    · subst hkey
      have hvalues : valuesAt (· == .text name) ((.text name, d) :: ms)
          = d :: valuesAt (· == .text name) ms := valuesAt_cons_of_pos (beq_self_eq_true _)
      rw [holdMembers, if_pos rfl, hvalues]
      cases seen with
      | true => simp
      | false =>
        rw [if_neg (by decide), bind_eq_ok_iff]
        constructor
        · rintro ⟨⟨⟩, htag, hrest⟩
          obtain ⟨w, hw, rfl⟩ := holdTag_eq_ok_iff.1 htag
          obtain ⟨hsound, hnil | ⟨⟨⟩, -⟩⟩ := ih.1 hrest
          exact ⟨⟨rfl, hsound⟩, .inr ⟨rfl, w, hw, by rw [hnil]⟩⟩
        · rintro ⟨⟨-, hsound⟩, hnil | ⟨-, w, hw, hvalue⟩⟩
          · cases hnil
          · obtain ⟨rfl, hnil⟩ := List.cons.inj hvalue
            exact ⟨⟨⟩, holdTag_eq_ok_iff.2 ⟨w, hw, rfl⟩, ih.2 ⟨hsound, .inl hnil⟩⟩
    · have hvalues : valuesAt (· == .text name) ((key, d) :: ms)
          = valuesAt (· == .text name) ms := valuesAt_cons_of_neg (beq_eq_false_iff_ne.2 hkey)
      rw [holdMembers, if_neg hkey, hvalues, and_assoc]
      cases Document.soundMembers room [(key, d)] with
      | true => simp only [if_true, true_and, ih]
      | false => simp

/-- An object passes the check if it is sound and names its form at most once, by one
of the words. -/
theorem hold_object_eq_ok_iff {room : Nat} {name : String} {words : List String}
    {ms : List (Key × Document)} : hold room name words (.object ms) = .ok () ↔
      (Document.object ms).sound room = true ∧ (valuesAt (· == .text name) ms = [] ∨
        ∃ w ∈ words, valuesAt (· == .text name) ms = [.string w]) := by
  rw [hold, Document.sound, Bool.and_eq_true_iff, decide_eq_true_iff, and_assoc]
  by_cases hroom : room = 0
  · simp [hroom]
  · simp only [if_neg hroom, holdMembers_eq_ok_iff, Nat.pos_of_ne_zero hroom, true_and]

/-- An array passes the check if it is sound and names its form, by one of the words. -/
theorem hold_array_eq_ok_iff {room : Nat} {name : String} {words : List String} {t : Document}
    {items : List Document} : hold room name words (.array (t :: items)) = .ok () ↔
      (Document.array (t :: items)).sound room = true ∧ ∃ w ∈ words, t = .string w := by
  rw [hold, Document.sound, Bool.and_eq_true_iff, decide_eq_true_iff, Document.soundItems]
  by_cases hroom : room = 0
  · simp [hroom]
  · rw [if_neg hroom, bind_eq_ok_iff]
    constructor
    · rintro ⟨⟨⟩, htag, hitems⟩
      obtain ⟨w, hw, rfl⟩ := holdTag_eq_ok_iff.1 htag
      split at hitems
      · rename_i hsound
        exact ⟨⟨Nat.pos_of_ne_zero hroom, Bool.and_eq_true_iff.2 ⟨rfl, hsound⟩⟩, w, hw, rfl⟩
      · cases hitems
    · rintro ⟨⟨-, hsound⟩, w, hw, rfl⟩
      exact ⟨⟨⟩, holdTag_eq_ok_iff.2 ⟨w, hw, rfl⟩, if_pos (Bool.and_eq_true_iff.1 hsound).2⟩

/-- What is read into memory nests no deeper than allowed. -/
theorem depth_of_hold {room : Nat} (hroom : 0 < room) {name : String} {words : List String}
    {d : Document} (h : hold room name words d = .ok ()) : d.depth ≤ room := by
  cases d with
  | object ms => exact Document.depth_le_of_sound _ _ (hold_object_eq_ok_iff.1 h).1
  | array items =>
    cases items with
    -- nothing is checked of an empty array, which nests one deep
    | nil => exact hroom
    | cons t items => exact Document.depth_le_of_sound _ _ (hold_array_eq_ok_iff.1 h).1
  | _ => exact Nat.zero_le _

end Decode

end RelAlg
