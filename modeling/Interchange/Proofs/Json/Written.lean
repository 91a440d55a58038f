import Mathlib.Data.List.Forall2
import Interchange.Crossing.Tree
import Interchange.Proofs.Crossing.NormalForm
import Interchange.Proofs.Json.Spelling

/-!
# What is written is read back

Both printers write texts of the grammar, so a host value without bytes, instants and handles is
written as a text that is read back as the same host value (`Jsonable.parse_text`). Its containers
are nested no deeper than a reader goes, its floats are finite, and no name stands for a number.
-/

namespace Interchange

namespace Json

/-- Both printers write a tree as texts that spell what is read. -/
structure Written (depth : Nat) (tree read : Json) : Prop where
  compact : Spells depth read (compactChars tree)
  pretty : ∀ indent level, Spells depth read (prettyChars indent level tree)

theorem blank_lineAt (indent level : Nat) : Blank (lineAt indent level) := by
  intro c isChar
  rcases List.mem_cons.1 isChar with rfl | isSpace
  · decide
  · rw [List.eq_of_mem_replicate isSpace]
    decide

theorem blank_space : Blank [' '] := by
  intro c isChar
  rw [List.mem_singleton.1 isChar]
  decide

/-- A number is written as a numeral. -/
theorem written_number {number : Number} {n : Numeral} (proper : n.Proper)
    (chars : n.chars = number.chars) (depth : Nat) :
    Written depth (.number number) (.number n.number) := by
  have spells := (Leaf.number proper).spells depth
  rw [chars] at spells
  exact ⟨by rwa [compactChars], fun indent level => by rwa [prettyChars]⟩

section Containers

variable {depth : Nat}

theorem compactItems_further {trees reads : List Json}
    (each : List.Forall₂ (Written depth) trees reads) :
    Further ']' (Spells depth) reads (compactItems trees) := by
  induction each with
  | nil => exact .close blank_nil
  | @cons tree read trees reads first _ ih =>
    have more := Further.more blank_nil blank_nil first.compact ih
    rw [compactItems]
    simpa using more

theorem prettyItems_further {trees reads : List Json}
    (each : List.Forall₂ (Written depth) trees reads) (indent level : Nat) :
    Further ']' (Spells depth) reads (prettyItems indent level trees) := by
  induction each with
  | nil => exact .close (blank_lineAt indent level)
  | @cons tree read trees reads first _ ih =>
    have more := Further.more blank_nil (blank_lineAt indent (level + 1))
      (first.pretty indent (level + 1)) ih
    rw [prettyItems]
    simpa using more

/-- A list is written by its elements. -/
theorem written_array {trees reads : List Json} (each : List.Forall₂ (Written depth) trees reads) :
    Written (depth + 1) (.array trees) (.array reads) := by
  cases each with
  | nil =>
    have empty : Spells (depth + 1) (.array []) ['[', ']'] := .array (.empty blank_nil)
    exact ⟨empty, fun _ _ => empty⟩
  | @cons tree read trees reads first others =>
    constructor
    · have inside := Inside.some blank_nil first.compact (compactItems_further others)
      rw [compactChars]
      exact .array inside
    · intro indent level
      have inside := Inside.some (blank_lineAt indent (level + 1))
        (first.pretty indent (level + 1)) (prettyItems_further others indent level)
      rw [prettyChars, List.cons_append, List.cons_append, List.append_assoc]
      exact .array inside

/-- A member is written under the name under which it is read. -/
def WrittenMember (depth : Nat) (member read : String × Json) : Prop :=
  member.1 = read.1 ∧ Written depth member.2 read.2

variable {members reads : List (String × Json)}

theorem compactMembers_further (each : List.Forall₂ (WrittenMember depth) members reads) :
    Further '\x7d' (Member (Spells depth)) reads (compactMembers members) := by
  induction each with
  | nil => exact .close blank_nil
  | @cons member read members reads first _ ih =>
    obtain ⟨name, tree⟩ := member
    obtain ⟨_, read⟩ := read
    obtain ⟨rfl, written⟩ := first
    have more := Further.more blank_nil blank_nil
      (Member.mk name blank_nil blank_nil written.compact) ih
    rw [compactMembers]
    simpa using more

theorem prettyMembers_further (each : List.Forall₂ (WrittenMember depth) members reads)
    (indent level : Nat) :
    Further '\x7d' (Member (Spells depth)) reads (prettyMembers indent level members) := by
  induction each with
  | nil => exact .close (blank_lineAt indent level)
  | @cons member read members reads first _ ih =>
    obtain ⟨name, tree⟩ := member
    obtain ⟨_, read⟩ := read
    obtain ⟨rfl, written⟩ := first
    have more := Further.more blank_nil (blank_lineAt indent (level + 1))
      (Member.mk name blank_nil blank_space (written.pretty indent (level + 1))) ih
    rw [prettyMembers]
    simpa using more

/-- An object is written by its members. -/
theorem written_object (each : List.Forall₂ (WrittenMember depth) members reads)
    (plain : ∀ first ∈ reads.head?, first.1 ≠ numberName) :
    Written (depth + 1) (.object members) (.object (TextMap.ofList reads)) := by
  cases each with
  | nil =>
    have empty : Spells (depth + 1) (.object (TextMap.ofList [])) ['\x7b', '\x7d'] :=
      .object (.empty blank_nil) nofun
    exact ⟨empty, fun _ _ => empty⟩
  | @cons member read members reads first others =>
    obtain ⟨name, tree⟩ := member
    obtain ⟨_, read⟩ := read
    obtain ⟨rfl, written⟩ := first
    constructor
    · have inside := Inside.some blank_nil
        (Member.mk name blank_nil blank_nil written.compact)
        (compactMembers_further others)
      rw [compactChars]
      refine .object ?_ plain
      simpa using inside
    · intro indent level
      have inside := Inside.some (blank_lineAt indent (level + 1))
        (Member.mk name blank_nil blank_space (written.pretty indent (level + 1)))
        (prettyMembers_further others indent level)
      rw [prettyChars, List.cons_append, List.cons_append, List.cons_append]
      refine .object ?_ plain
      simpa using inside

end Containers
end Json

namespace HostValue

open Json

/-- A host value that JSON has a form for: no bytes, instants and handles, and maps by name only. Its
containers are nested at most `depth` deep. -/
inductive Jsonable : (depth : Nat) → HostValue → Prop
  | null {depth : Nat} : Jsonable depth null
  | bool {depth : Nat} (b : Bool) : Jsonable depth (bool b)
  | int {depth : Nat} (i : Int) : Jsonable depth (ofInt i)
  | float {depth : Nat} (negative : Bool) (rank : Fin infiniteRank) :
      Jsonable depth (float (.finite negative rank))
  | string {depth : Nat} (s : String) : Jsonable depth (string s)
  | list {depth : Nat} {items : List HostValue} (each : ∀ item ∈ items, Jsonable depth item) :
      Jsonable (depth + 1) (list items)
  | map {depth : Nat} {entries : List (String × HostValue)}
      (ascending : (entries.map Prod.fst).Pairwise (· < ·))
      (plain : ∀ entry ∈ entries, entry.1 ≠ numberName)
      (each : ∀ entry ∈ entries, Jsonable depth entry.2) : Jsonable (depth + 1) (map entries)

/-- A host value has a tree that is written as something that is read as the host value. -/
def Saved (depth : Nat) (h : HostValue) : Prop :=
  ∃ tree read, h.toJson = .ok tree ∧ ofJson read = h ∧ Written depth tree read

variable {depth : Nat}

theorem toJson_ofInt (i : Int) : (ofInt i).toJson = .ok (.ofInt i) := by
  unfold ofInt
  split <;> rfl

theorem saved_int (i : Int) : (ofInt i).Saved depth := by
  obtain ⟨n, proper, chars, number⟩ := exists_numeral_integer i
  refine ⟨.ofInt i, .number n.number, toJson_ofInt i, ?_, written_number proper chars depth⟩
  rw [number]
  rfl

theorem saved_float (negative : Bool) (rank : Fin infiniteRank) :
    (float (.finite negative rank)).Saved depth := by
  obtain ⟨n, proper, chars, number, value⟩ := exists_numeral_decimal
    (Decimal.shortest floatLayout.tie floatLayout.candidates negative rank)
  rw [Decimal.toBinary64_shortest] at value
  refine ⟨_, .number n.number, rfl, ?_, written_number proper chars depth⟩
  rw [number, ofJson]
  simp only [Number.meant, Number.toBinary64, value]
  rfl

theorem saved_items {items : List HostValue} (each : ∀ item ∈ items, item.Saved depth) :
    ∃ trees reads, itemsToJson items = .ok trees ∧ ofJsonItems reads = items ∧
      List.Forall₂ (Written depth) trees reads := by
  induction items with
  | nil => exact ⟨[], [], rfl, rfl, .nil⟩
  | cons item rest ih =>
    obtain ⟨first, others⟩ := List.forall_mem_cons.1 each
    obtain ⟨tree, read, made, back, written⟩ := first
    obtain ⟨trees, reads, made', back', written'⟩ := ih others
    refine ⟨tree :: trees, read :: reads, ?_, ?_, .cons written written'⟩
    · rw [itemsToJson, made, made']
      rfl
    · rw [ofJsonItems, back, back']

theorem saved_entries {entries : List (String × HostValue)}
    (each : ∀ entry ∈ entries, entry.2.Saved depth) :
    ∃ members reads, entriesToJson entries = .ok members ∧ ofJsonMembers reads = entries ∧
      List.Forall₂ (WrittenMember depth) members reads := by
  induction entries with
  | nil => exact ⟨[], [], rfl, rfl, .nil⟩
  | cons entry rest ih =>
    obtain ⟨name, item⟩ := entry
    obtain ⟨first, others⟩ := List.forall_mem_cons.1 each
    obtain ⟨tree, read, made, back, written⟩ := first
    obtain ⟨members, reads, made', back', written'⟩ := ih others
    refine ⟨(name, tree) :: members, (name, read) :: reads, ?_, ?_, .cons ⟨rfl, written⟩ written'⟩
    · rw [entriesToJson, made, made']
      rfl
    · rw [ofJsonMembers, back, back']

theorem ofJsonItems_eq_map (trees : List Json) : ofJsonItems trees = trees.map ofJson := by
  induction trees with
  | nil => rfl
  | cons tree rest ih => rw [ofJsonItems, ih, List.map_cons]

theorem ofJsonMembers_eq_map (members : List (String × Json)) :
    ofJsonMembers members = members.map fun member => (member.1, ofJson member.2) := by
  induction members with
  | nil => rfl
  | cons member rest ih => rw [ofJsonMembers, ih, List.map_cons]

theorem map_fst_ofJsonMembers (members : List (String × Json)) :
    (ofJsonMembers members).map Prod.fst = members.map Prod.fst := by
  rw [ofJsonMembers_eq_map, List.map_map]
  rfl

/-- An object whose names are in order is read as a map of what its members are read as. -/
theorem ofJson_object_of_ascending {members : List (String × Json)}
    (ascending : (members.map Prod.fst).Pairwise (· < ·)) :
    ofJson (.object members) = .map (ofJsonMembers members) := by
  rw [ofJson, ofEntries, TextMap.ofList_of_ascending]
  rwa [map_fst_ofJsonMembers]

theorem Jsonable.saved {h : HostValue} (jsonable : h.Jsonable depth) : h.Saved depth := by
  induction jsonable with
  | @null depth =>
    have spells := Leaf.null.spells depth
    exact ⟨.null, .null, rfl, rfl, spells, fun _ _ => spells⟩
  | @bool depth b =>
    cases b with
    | true =>
      have spells := Leaf.true.spells depth
      exact ⟨.bool true, .bool true, rfl, rfl, spells, fun _ _ => spells⟩
    | false =>
      have spells := Leaf.false.spells depth
      exact ⟨.bool false, .bool false, rfl, rfl, spells, fun _ _ => spells⟩
  | int i => exact saved_int i
  | float negative rank => exact saved_float negative rank
  | @string depth s =>
    have spells := (Leaf.string s).spells depth
    exact ⟨.string s, .string s, rfl, rfl, by rwa [compactChars], fun _ _ => by rwa [prettyChars]⟩
  | list _ ih =>
    obtain ⟨trees, reads, made, back, written⟩ := saved_items ih
    refine ⟨.array trees, .array reads, ?_, ?_, written_array written⟩
    · rw [toJson, made]
      rfl
    · rw [ofJson, back]
  | @map depth entries ascending plain _ ih =>
    obtain ⟨members, reads, made, back, written⟩ := saved_entries ih
    have names : reads.map Prod.fst = entries.map Prod.fst := by
      rw [← back, map_fst_ofJsonMembers]
    refine ⟨.object members, .object (TextMap.ofList reads), ?_, ?_, written_object written ?_⟩
    · rw [toJson, made]
      rfl
    · -- The names ascend already, so that sorting them on both ways back changes nothing.
      rw [TextMap.ofList_of_ascending (names ▸ ascending),
        ofJson_object_of_ascending (names ▸ ascending), back]
    · intro first isFirst
      have isName : first.1 ∈ entries.map Prod.fst :=
        names ▸ List.mem_map_of_mem (List.mem_of_mem_head? isFirst)
      obtain ⟨entry, isEntry, same⟩ := List.mem_map.1 isName
      exact same ▸ plain entry isEntry

/-- The texts of a host value are read as a tree of the same host value. -/
theorem Jsonable.parse_text {h : HostValue} (jsonable : h.Jsonable maxDepth) :
    ∃ tree read, h.toJson = .ok tree ∧ ofJson read = h ∧ parse tree.compact = .ok read ∧
      ∀ indent, parse (tree.pretty indent) = .ok read := by
  obtain ⟨tree, read, made, back, written⟩ := jsonable.saved
  exact ⟨tree, read, made, back, parse_of_spells written.compact,
    fun indent => parse_of_spells (written.pretty indent 0)⟩

end HostValue
end Interchange
