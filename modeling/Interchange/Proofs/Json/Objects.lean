import Interchange.Json.Parser

/-!
# Objects as they stand in a text

A tree has the names of an object once each and sorted. `Json.HasMembers` says which members stand in
the text, repeated names among them: a text is read as an object exactly when it has members, and
the tree has the last of each name (`parse_eq_object_iff`).
-/

namespace Interchange.Json

/-- The text is of one object, which stands for no number, and these are its members in turn. -/
def HasMembers (text : String) (members : List (String × Json)) : Prop :=
  ∃ behind rest, skipBlanks text.toList = '\x7b' :: behind ∧ numberMember? behind = none ∧
    objectMembers (value 126) (behind.length + 1) true behind = .ok (members, rest) ∧
    skipBlanks rest = []

variable {item : Reader Json} {text behind rest : List Char} {members : List (String × Json)}

theorem exists_of_bind_eq_ok {ε α β : Type} {a : Except ε α} {f : α → Except ε β} {b : β}
    (bound : (a >>= f) = .ok b) : ∃ x, a = .ok x ∧ f x = .ok b := by
  cases a with
  | error => cases bound
  | ok x => exact ⟨x, rfl, bound⟩

theorem node_object (opened : skipBlanks text = '\x7b' :: behind)
    (plain : numberMember? behind = none)
    (read : objectMembers item (behind.length + 1) true behind = .ok (members, rest)) :
    node (some item) text = .ok (.object (TextMap.ofList members), rest) := by
  rw [node, opened]
  simp only [plain, read]
  rfl

/-- An object is read from behind a brace, and its names are not the one of a number. -/
theorem exists_members_of_node (read : node (some item) text = .ok (.object members, rest)) :
    ∃ behind entries, skipBlanks text = '\x7b' :: behind ∧ numberMember? behind = none ∧
      objectMembers item (behind.length + 1) true behind = .ok (entries, rest) ∧
      members = TextMap.ofList entries := by
  rw [node] at read
  split at read
  case h_8 behind opened =>
    simp only at read
    split at read
    · obtain ⟨_, -, made⟩ := exists_of_bind_eq_ok read
      cases made
    · next plain =>
      obtain ⟨_, inside, made⟩ := exists_of_bind_eq_ok read
      cases made
      exact ⟨behind, _, opened, plain, inside, rfl⟩
  case h_1 => cases read
  case h_9 =>
    split at read
    · obtain ⟨_, -, made⟩ := exists_of_bind_eq_ok read
      cases made
    · cases read
  all_goals
    obtain ⟨_, -, made⟩ := exists_of_bind_eq_ok read
    cases made

/-- What is read to the end of a text is read with only blanks behind it. -/
theorem whole_eq_ok_iff {α : Type} {reader : Reader α} {a : α} : whole reader text = .ok a ↔
    ∃ rest, reader text = .ok (a, rest) ∧ skipBlanks rest = [] := by
  cases here : reader text with
  | error stop =>
    have refused : whole reader text = .error (stop.inText text) := by
      simp only [whole, here, bind, Except.bind]
      rfl
    rw [refused]
    exact iff_of_false (by simp) (by simp)
  | ok found =>
    obtain ⟨found, rest⟩ := found
    cases ended : skipBlanks rest with
    | nil =>
      have read : whole reader text = .ok found := by
        simp only [whole, here, ended, bind, Except.bind]
        rfl
      rw [read]
      constructor
      · rintro ⟨⟩
        exact ⟨rest, rfl, ended⟩
      · rintro ⟨_, ⟨⟩, -⟩
        rfl
    | cons c behind =>
      have refused : ∃ fault, whole reader text = .error fault := by
        simp only [whole, here, ended, bind, Except.bind]
        exact ⟨_, rfl⟩
      obtain ⟨fault, refused⟩ := refused
      rw [refused]
      refine iff_of_false (by simp) ?_
      rintro ⟨_, ⟨⟩, ended'⟩
      rw [ended] at ended'
      cases ended'

/-- A text is read as an object when it has members; the tree has the last of each name. -/
theorem parse_eq_object_iff {text : String} {sorted : List (String × Json)} :
    parse text = .ok (.object sorted) ↔
      ∃ members, HasMembers text members ∧ sorted = TextMap.ofList members := by
  rw [parse, whole_eq_ok_iff]
  constructor
  · rintro ⟨rest, read, ended⟩
    obtain ⟨behind, members, opened, plain, inside, rfl⟩ := exists_members_of_node read
    exact ⟨members, ⟨behind, rest, opened, plain, inside, ended⟩, rfl⟩
  · rintro ⟨members, ⟨behind, rest, opened, plain, inside, ended⟩, rfl⟩
    exact ⟨rest, node_object opened plain inside, ended⟩

end Interchange.Json
