import Interchange.Library
import Interchange.Proofs.Crossing.Mirror
import Interchange.Proofs.History
import Interchange.Proofs.Text.Utf8

/-!
# Values through JSON text

A value that JSON has a form for (`Store.JsonData`) is written, with and without indentation, by the
host and by the library, and each text is read back as a twin of the value, which equals it
(`Reachable.json_faithful`). On the way a value becomes a host value, a tree and a text, and each of
these the one before it: a host value mirrors the value (`JsonData.mirrored`), is what the text is
read as (`Jsonable.parse_text`), and arrives as something that it mirrors (`Jsonable.restored`).
-/

namespace Interchange

open Json (maxDepth)

namespace Store

/-- A value that JSON has a form for. Lists and dicts are nested at most `depth` deep, so it leads to
no cycle; its floats are finite, and keys are texts other than the name that stands for a number. -/
inductive JsonData (s : Store) : (depth : Nat) → Value → Prop
  | nothing {depth : Nat} : JsonData s depth .nothing
  | bool {depth : Nat} (b : Bool) : JsonData s depth (.bool b)
  | int {depth : Nat} (i : Int) : JsonData s depth (.int i)
  | float {depth : Nat} {x : Binary64} (finite : x.isFinite = true) : JsonData s depth (.float x)
  | string {depth : Nat} (text : String) : JsonData s depth (.string text)
  | list {depth : Nat} {ref : Ref} {items : List Value} {frozen : Bool}
      (cell : s.cell ref = .list items frozen) (each : ∀ item ∈ items, JsonData s depth item) :
      JsonData s (depth + 1) (.object ref)
  | dict {depth : Nat} {ref : Ref} {entries : List (Value × Value)} {frozen : Bool}
      (cell : s.cell ref = .dict entries frozen)
      (keys : ∀ entry ∈ entries, ∃ name, entry.1 = .string name ∧ name ≠ Json.numberName)
      (values : ∀ entry ∈ entries, JsonData s depth entry.2) : JsonData s (depth + 1) (.object ref)

variable {s t : Store} {v : Value} {depth : Nat}

/-- What JSON has a form for has an image that JSON has a form for. -/
theorem JsonData.mirrored (keyed : s.WellKeyed) (data : s.JsonData depth v) :
    ∃ h, s.Mirrors h v ∧ h.Jsonable depth := by
  induction data with
  | nothing => exact ⟨.null, .null, .null⟩
  | bool b => exact ⟨.bool b, .bool b, .bool b⟩
  | int i => exact ⟨.ofInt i, .int rfl, .int i⟩
  | @float depth x finite =>
    cases x with
    | finite negative rank => exact ⟨_, .float _, .float negative rank⟩
    | infinity | nan => cases finite
  | string text => exact ⟨.string text, .string text, .string text⟩
  | list cell _ ih =>
    obtain ⟨trees, each⟩ := exists_forall₂ ih
    obtain ⟨length, each⟩ := List.forall₂_iff_zip.1 each
    refine ⟨.list trees, .list cell length.symm fun pair isPair => (each (mem_zip_swap isPair)).1,
      .list fun tree isTree => ?_⟩
    obtain ⟨item, isPair⟩ := exists_pair_of_mem length.symm isTree
    exact (each (mem_zip_swap isPair)).2
  | @dict depth ref entries frozen cell keys _ ih =>
    obtain ⟨raw, rfl, plain⟩ := exists_textEntries keys
    -- The image is in the order of names, and the dict in the order in which they were entered.
    obtain ⟨sorted, ascending⟩ := TextMap.ofList_of_distinct (keyed.nodup cell (.refl _))
    generalize TextMap.ofList raw = fields at sorted ascending
    have image : ∀ field ∈ fields, ∃ entry : String × HostValue,
        field.1 = entry.1 ∧ s.Mirrors entry.2 field.2 ∧ entry.2.Jsonable depth := by
      intro field isField
      obtain ⟨h, mirrors, jsonable⟩ :=
        ih (.string field.1, field.2) (List.mem_map_of_mem (sorted.mem_iff.1 isField))
      exact ⟨(field.1, h), rfl, mirrors, jsonable⟩
    obtain ⟨named, each⟩ := exists_forall₂ image
    have names := names_eq_iff.2 (each.imp fun _ _ both => both.1)
    obtain ⟨length, each⟩ := List.forall₂_iff_zip.1 each
    rw [names] at ascending
    refine ⟨.map named, .map cell (sorted.symm.map _) ascending names.symm fun pair isPair =>
        (each (mem_zip_swap isPair)).2.1,
      .map ascending (fun entry isEntry => ?_) fun entry isEntry => ?_⟩
    all_goals
      obtain ⟨field, isPair⟩ := exists_pair_of_mem length.symm isEntry
      obtain ⟨same, -, jsonable⟩ := each (mem_zip_swap isPair)
    · rw [← same]
      exact plain field (sorted.mem_iff.1 (List.of_mem_zip isPair).2)
    · exact jsonable

theorem Mirrors.has {h : HostValue} (mirrors : s.Mirrors h v) : s.Has v := by
  have inside {ref : Ref} {c : Cell} (cell : s.cell ref = c) (other : c ≠ .tuple []) :
      s.Has (.object ref) := by
    refine has_object.2 (Nat.lt_of_not_le fun out => other ?_)
    rw [← cell, cell_of_size_le out]
  cases mirrors with
  | list cell => exact inside cell nofun
  | map cell => exact inside cell nofun
  | null | bool | int | float | string => exact has_of_scalar rfl

/-! ## Texts -/

/-- Read in the store, by the host and by the library, the text gives a value that equals another
and has numbers of the same kinds. -/
def ReadsBack (s : Store) (text : String) (v : Value) : Prop :=
  ∃ w t, (Op.fromJsonText text).runOn s = (.ok w, t) ∧
    (LibraryFunction.decode.run [.string text]).runOn s = (.ok w, t) ∧
    t.Twin v w ∧ t.equals v w = true

theorem runOn_decode (text : String) :
    (LibraryFunction.decode.run [.string text]).runOn s = (Op.fromJsonText text).runOn s := by
  have body : (LibraryFunction.decode.run [.string text]).runOn s =
      (Op.fromJsonText (Text.decodeLossy (Text.utf8 text))).runOn s := rfl
  rw [body, Text.decodeLossy_utf8]

/-- A text that is read as a tree of an image reads back. -/
theorem Reachable.readsBack (reachable : s.Reachable) {h : HostValue} (mirrors : s.Mirrors h v)
    (restored : h.Restored) {text : String} {tree : Json} (parsed : Json.parse text = .ok tree)
    (host : HostValue.ofJson tree = h) : s.ReadsBack text v := by
  obtain ⟨w, t, arrived, built⟩ := restored s
  have read : (Op.fromJsonText text).runOn s = (.ok w, t) := by
    rw [Op.runOn_fromJsonText parsed, host, arrived]
  have later : t.Reachable := by
    have ran : ((Action.decode text).run.runOn s).2 = t := by
      rw [Action.run, Op.runOn_bind_of_ok read]
      rfl
    exact reachable.later (ran ▸ .act (.decode text) ⟨nofun, nofun⟩)
  have here : t.Mirrors h v := mirrors.kept fun ref inside => built.kept ref inside not_false
  have there : t.Mirrors h w := built.added t fun _ _ _ => rfl
  have twin := here.twin there
  exact ⟨w, t, read, by rw [runOn_decode, read], twin,
    twin.equals later.lawkeeping here.has there.has⟩

theorem hostTree_of_toJson {h : HostValue} {tree : Json} (op : String)
    (made : h.toJson = .ok tree) : hostTree op h = .ok tree := by
  rw [hostTree, made]

theorem writtenTree_of_unfolds {h : HostValue} (unfolds : s.Unfolds v h) {tree : Json}
    (made : h.toJson = .ok tree) (op : String) : s.writtenTree op v = .ok tree := by
  rw [writtenTree, unfolds.depart]
  exact hostTree_of_toJson op made

theorem writtenTree_of_mirrors {h : HostValue} (mirrors : s.Mirrors h v) {tree : Json}
    (made : h.toJson = .ok tree) (op : String) : s.writtenTree op v = .ok tree :=
  writtenTree_of_unfolds mirrors.unfolds made op

theorem toJsonText_of_unfolds {h : HostValue} (unfolds : s.Unfolds v h) {tree : Json}
    (made : h.toJson = .ok tree) : s.toJsonText v = .ok tree.compact := by
  rw [toJsonText, writtenTree_of_unfolds unfolds made]
  rfl

/-- Without an indentation, the library writes as the host does. -/
theorem runOn_encode {text : String} (written : s.toJsonText v = .ok text) {args : List Value}
    (absent : args = [v] ∨ args = [v, .nothing]) :
    (LibraryFunction.encode.run args).runOn s = (.ok (.string text), s) := by
  have body : (LibraryFunction.encode.run args).runOn s =
      (do return .string (← Op.ofExcept (s.toJsonText v)) : Op Value).runOn s := by
    rcases absent with rfl | rfl <;> rfl
  rw [body, written]
  rfl

/-- A tree is laid out with an indentation when there is room for the spaces and for the text. -/
theorem toJsonPretty_of_unfolds {h : HostValue} (unfolds : s.Unfolds v h) {tree : Json}
    (made : h.toJson = .ok tree) (indent : Nat) : s.toJsonPretty indent v =
      if s.hasRoom indent && s.hasRoom (tree.pretty indent).utf8ByteSize then
        .ok (tree.pretty indent)
      else .error .exhausted := by
  rw [toJsonPretty, unfolds.depart]
  change (if s.hasRoom indent = true then _ else _) = _
  rw [hostTree_of_toJson "to_json" made]
  cases s.hasRoom indent with
  | false => rfl
  | true =>
    change (if s.hasRoom (tree.pretty indent).utf8ByteSize = true then _ else _) = _
    cases s.hasRoom (tree.pretty indent).utf8ByteSize <;> rfl

/-- With an indentation, the library writes as the host does; a negative one counts as zero. -/
theorem runOn_encode_indent {i : Int} (fits : Binary64.fitsInt64 i = true) :
    (LibraryFunction.encode.run [v, .int i]).runOn s =
      ((s.toJsonPretty i.toNat v).map .string, s) := by
  have held : s.unpack .int64 (.int i) = .ok i := if_pos fits
  have taken : Arguments.unpackAt s LibraryFunction.encode.name .int64 (.int i) 1 = .ok i := by
    rw [Arguments.unpackAt, held]
  have indent : Arguments.optional s LibraryFunction.encode.name .int64 [v, .int i] 1 =
      .ok (some i) := by
    rw [Arguments.optional]
    simp only [List.getElem?_cons_succ, List.getElem?_cons_zero, taken]
  have counted : Arguments.checkCount LibraryFunction.encode.name [v, .int i].length 1 2 = .ok () :=
    rfl
  simp only [LibraryFunction.run, LibraryFunction.arity, counted, Op.runOn_bind, Op.runOn_get,
    Op.runOn_ofExcept, indent, List.headD_cons]
  cases s.toJsonPretty i.toNat v <;> rfl

/-- **What JSON has a form for comes through its text.** Written by the host or by the library, it is
read back as a value that equals it and has numbers of the same kinds. With an indentation it is
written when the memory has room for the spaces of a level and for the text, and ends the program
otherwise. -/
theorem Reachable.json_faithful (reachable : s.Reachable) (data : s.JsonData maxDepth v) :
    ∃ tree, s.writtenTree "to_json" v = .ok tree ∧
      (s.toJsonText v = .ok tree.compact ∧ s.ReadsBack tree.compact v ∧
        ∀ args, args = [v] ∨ args = [v, .nothing] →
          (LibraryFunction.encode.run args).runOn s = (.ok (.string tree.compact), s)) ∧
      ∀ indent, s.ReadsBack (tree.pretty indent) v ∧
        let result : Except Fault String :=
          if s.hasRoom indent && s.hasRoom (tree.pretty indent).utf8ByteSize then
            .ok (tree.pretty indent)
          else .error .exhausted
        s.toJsonPretty indent v = result ∧
        ∀ i, Binary64.fitsInt64 i = true → i.toNat = indent →
          (LibraryFunction.encode.run [v, .int i]).runOn s = (result.map .string, s) := by
  obtain ⟨h, mirrors, jsonable⟩ := data.mirrored reachable.wellKeyed
  obtain ⟨tree, read, made, host, compact, pretty⟩ := jsonable.parse_text
  have text : s.toJsonText v = .ok tree.compact := toJsonText_of_unfolds mirrors.unfolds made
  refine ⟨tree, writtenTree_of_mirrors mirrors made "to_json", ⟨text,
    reachable.readsBack mirrors jsonable.restored compact host,
    fun args absent => runOn_encode text absent⟩, fun indent => ?_⟩
  have indented := toJsonPretty_of_unfolds mirrors.unfolds made indent
  refine ⟨reachable.readsBack mirrors jsonable.restored (pretty indent) host, indented, ?_⟩
  rintro i fits rfl
  rw [← indented]
  exact runOn_encode_indent fits

/-- A list of numbers that are easily mistaken for each other, in a dict whose keys are out of
order. -/
def numbered : Store := empty.after
  [.newList [.int 1, .float HostValue.floatOne, .int 0x400000000000000000, .nothing],
    .newDict [(.string "tab\t", .object ⟨0⟩), (.string "", .bool true)]]

theorem reachable_numbered : numbered.Reachable :=
  reachable_empty.after ⟨⟨by decide, nofun⟩, ⟨by decide, nofun⟩, trivial⟩

theorem jsonData_numbered : numbered.JsonData maxDepth (.object ⟨1⟩) := by
  have items : numbered.cell ⟨0⟩ =
    .list [.int 1, .float HostValue.floatOne, .int 0x400000000000000000, .nothing] false := rfl
  have entries : numbered.cell ⟨1⟩ =
    .dict [(.string "tab\t", .object ⟨0⟩), (.string "", .bool true)] false := rfl
  have list : numbered.JsonData (125 + 1) (.object ⟨0⟩) := by
    refine .list items fun item isItem => ?_
    simp only [List.mem_cons, List.not_mem_nil, or_false] at isItem
    rcases isItem with rfl | rfl | rfl | rfl
    · exact .int 1
    · exact .float rfl
    · exact .int _
    · exact .nothing
  have dict : numbered.JsonData (126 + 1) (.object ⟨1⟩) := by
    refine .dict entries (fun entry isEntry => ?_) fun entry isEntry => ?_
    all_goals
      simp only [List.mem_cons, List.not_mem_nil, or_false] at isEntry
      rcases isEntry with rfl | rfl
    · exact ⟨_, rfl, by decide⟩
    · exact ⟨_, rfl, by decide⟩
    · exact list
    · exact .bool true
  exact dict

/-- The dict comes through its text, and through its text with two spaces a level. -/
theorem json_faithful_numbered : numbered.Reachable ∧
    numbered.JsonData maxDepth (.object ⟨1⟩) ∧
    (∃ text, numbered.toJsonText (.object ⟨1⟩) = .ok text ∧
      numbered.ReadsBack text (.object ⟨1⟩)) ∧
    ∃ text, (LibraryFunction.encode.run [.object ⟨1⟩, .int 2]).runOn numbered =
      (.ok (.string text), numbered) ∧ numbered.ReadsBack text (.object ⟨1⟩) := by
  obtain ⟨tree, written, ⟨compact, back, -⟩, indented⟩ :=
    reachable_numbered.json_faithful jsonData_numbered
  obtain ⟨back', pretty, encoded⟩ := indented 2
  have answered : (numbered.toJsonPretty 2 (.object ⟨1⟩)).isOk = true := by decide +kernel
  have room : (numbered.hasRoom 2 && numbered.hasRoom (tree.pretty 2).utf8ByteSize) = true := by
    by_contra full
    rw [pretty, if_neg full] at answered
    cases answered
  have encoded := encoded 2 rfl rfl
  rw [if_pos room] at encoded
  exact ⟨reachable_numbered, jsonData_numbered, ⟨_, compact, back⟩, _, encoded, back'⟩

/-- A number is one word of JSON and has no use for an indentation, yet there is no room for the
spaces of the greatest one. -/
theorem json_exhausted_by_indent : empty.Reachable ∧ empty.JsonData maxDepth (.int 5) ∧
    Binary64.fitsInt64 0x7FFFFFFFFFFFFFFF = true ∧
    empty.toJsonPretty 0x7FFFFFFFFFFFFFFF (.int 5) = .error .exhausted ∧
    (LibraryFunction.encode.run [.int 5, .int 0x7FFFFFFFFFFFFFFF]).runOn empty =
      (.error .exhausted, empty) :=
  ⟨reachable_empty, .int 5, rfl, rfl, rfl⟩

end Store
end Interchange
