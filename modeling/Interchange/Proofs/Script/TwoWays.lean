import Interchange.Proofs.Crossing.JsonText
import Interchange.Proofs.Script.Rereading

/-!
# Two ways to the same data

Data comes to a script as script values, or as a JSON text that the script has parsed. Both ways are
open for data in scalars, lists and dicts (`Spellable`), and what comes back from them is equal
exactly when each key of each dict goes by one text in both (`Spellable.agrees`): always for integers
and texts, never for nothing and for truth values, and for floats when the text that a person reads
is plain.
-/

namespace Interchange.Script

open HostValue Store Run

variable {store s : Store} {levels : Nat} {v : Value} {d : Datum} {heap : Array Object}

/-! ## By way of script values -/

theorem Spellable.succeeds (data : Spellable store Nameable levels v) :
    (ofValueWithin levels v).Succeeds store fun _ => True := by
  induction data with
  | nothing | bool | int | string => exact succeeds_pure trivial
  | list cell _ ih => exact succeeds_cell cell ((succeeds_mapM ih).bind fun _ _ => succeeds_alloc _)
  | dict cell keys _ _ _ ih =>
    refine succeeds_cell cell (succeeds_record (fun entry isEntry => ?_) ih)
    obtain ⟨name, found, admitted⟩ := (keys entry isEntry).exists_text (s := store)
    exact ⟨name, found, admitted.plain⟩

/-- An integer of 32 bits is the one of a number that is this integer, but for the negative zero. -/
theorem int32?_of_integer? {x : Binary64} {i : Int} (integer : x.integer? = some i)
    (fits : fitsInt32 i = true) (positive : ∀ rank, x = .finite true rank → i ≠ 0) :
    int32? x = some i := by
  unfold int32?
  split
  · rw [Binary64.integer?_negativeZero] at integer
    exact absurd (Option.some.inj integer).symm (positive _ rfl)
  · rw [integer, Option.filter_some, if_pos fits]

theorem int32?_ofInt {i : Int} (fits : fitsInt32 i = true) : int32? (Binary64.ofInt i) = some i := by
  have small : i.natAbs ≤ 2 ^ 53 := by
    simp only [fitsInt32, Bool.and_eq_true, decide_eq_true_eq] at fits
    omega
  refine int32?_of_integer? (Binary64.integer?_ofInt small) fits ?_
  rintro rank same rfl
  cases Binary64.negative_of_ofInt same

/-- What data became comes back as a copy of it under the texts that its keys have for a person. -/
theorem Spellable.builds (data : Spellable s Nameable levels v) (depicts : Depicts s heap v d) :
    (toValueWithin levels d).Builds heap s.size fun u w => s.Keeps u → Renamed u s.text? v w := by
  induction data generalizing d with
  | nothing | bool | string =>
    cases depicts
    exact builds_pure fun _ _ => .scalar rfl
  | int fits =>
    cases depicts
    rw [numberOfInt, toValueWithin]
    simp only [int32?_ofInt fits]
    exact builds_pure fun _ _ => .scalar rfl
  | list cell _ ih =>
    obtain ⟨place, ds, rfl, each, there⟩ := Depicts.of_list cell depicts
    obtain ⟨length, each⟩ := List.forall₂_iff_zip.1 each.flip
    refine builds_read there ((builds_list (P := fun v u w => s.Keeps u → Renamed u s.text? v w)
      (List.forall₂_iff_zip.2 ⟨length, fun isPair => ih _ (List.of_mem_zip isPair).2
        (each isPair)⟩)).imp ?_)
    rintro u w ⟨q, others, rfl, -, cell', parts⟩ keeps
    obtain ⟨length, parts⟩ := List.forall₂_iff_zip.1 parts
    exact .list (cell_of_keeps keeps cell rfl) cell' length fun _ isPair => parts isPair keeps
  | @dict levels _ entries _ cell keys texts _ _ ih =>
    obtain ⟨place, properties, rfl, each, there⟩ := Depicts.of_dict cell depicts
    obtain ⟨fields, inStep, admitted⟩ := exists_named fun entry isEntry =>
      (keys entry isEntry).exists_text (s := s)
    have distinct := nodup_of_named inStep texts
    obtain ⟨length, each⟩ := List.forall₂_iff_zip.1 each
    have parts : List.Forall₂ (fun entry (property : WideString × Datum) =>
        label? s entry.1 = some property.1 ∧ (toValueWithin levels property.2).Builds heap s.size
          fun u w => s.Keeps u → Renamed u s.text? entry.2 w) entries properties :=
      List.forall₂_iff_zip.2 ⟨length, fun isPair => ⟨(each isPair).1,
        ih _ (List.of_mem_zip isPair).1 (each isPair).2⟩⟩
    have builds : List.Forall₂ (fun (property : WideString × Datum) (field : String × Value) =>
        property.1 = .text field.1 ∧ (toValueWithin levels property.2).Builds heap s.size
          fun u w => s.Keeps u → Renamed u s.text? field.2 w) properties fields :=
      forall₂_trans parts.flip inStep fun _ _ _ first next =>
        ⟨Option.some.inj (first.1.symm.trans (label?_of_text? next.1)), next.2 ▸ first.2⟩
    have named := builds.imp fun _ _ both => both.1
    have there := there fun isName => by
      obtain ⟨property, isProperty, same⟩ := List.mem_map.1 isName
      obtain ⟨field, isField, name⟩ := exists_right named isProperty
      exact (admitted field isField).plain (WideString.text.inj (name.symm.trans same))
    -- The properties come in the order of the record, in which indices are first.
    obtain ⟨sorted, builds, perm⟩ :=
      List.perm_comp_forall₂ (written_perm (nodup_of_texts named distinct)) builds
    refine builds_read there ((builds_dict (P := fun v u w => s.Keeps u → Renamed u s.text? v w)
      builds).imp ?_)
    rintro u w ⟨q, added, rfl, -, cell', parts⟩ keeps
    have whole : List.Forall₂ (fun (field : String × Value) (entry : Value × Value) =>
        entry.1 = .string field.1 ∧ Renamed u s.text? field.2 entry.2) sorted added := by
      obtain ⟨length, parts⟩ := List.forall₂_iff_zip.1 parts
      refine List.forall₂_iff_zip.2 ⟨length, fun {field entry} isPair => ?_⟩
      have isField := perm.mem_iff.1 (List.of_mem_zip isPair).1
      exact ⟨(admitted field isField).whole.beforeNul ▸ (parts isPair).1, (parts isPair).2 keeps⟩
    have apart : added.Pairwise fun a b => scalarEqual b.1 a.1 = false := by
      obtain ⟨others, same, inStep⟩ :=
        exists_fields (R := fun v w => Renamed u s.text? v w) whole
      have names := names_eq_iff.2 (inStep.imp fun _ _ both => both.1)
      rw [same]
      exact pairwise_textEntries (names ▸ (perm.map Prod.fst).nodup_iff.2 distinct)
    rw [collapse_of_distinct apart] at cell'
    exact renamed_dict (cell_of_keeps keeps cell rfl) cell' inStep perm whole

/-! ## Both ways -/

/-- Data becomes a script value and comes back, and it is written as a JSON text and read again, as
copies of it under the texts that its keys have for a person and for a host. -/
theorem Spellable.both_ways {s : Session} (reachable : s.store.Reachable)
    (data : Spellable s.store Nameable (maxDepth + 1) v) : ∃ d t w u text w' m,
      (ofValue v).runIn s = (.ok d, t) ∧ (toValue d).runIn t = (.ok w, u) ∧
      s.store.toJsonText v = .ok text ∧ (Op.fromJsonText text).runOn u.store = (.ok w', m) ∧
      m.Lawkeeping ∧ s.store.Keeps m ∧ Renamed m s.store.text? v w ∧
      Renamed m s.store.keyText? v w' := by
  obtain ⟨d, t, out, sameStore, -⟩ := data.succeeds s rfl
  have depicts : Depicts s.store t.heap v d := sameStore ▸ (depicts_ofValue out).2
  obtain ⟨w, u, back, -, built⟩ := data.builds depicts t rfl (by rw [sameStore])
  have back : (toValue d).runIn t = (.ok w, u) := back
  rw [sameStore] at built
  have shallow : maxDepth + 1 ≤ Json.maxDepth := by decide
  obtain ⟨p, carries⟩ := data.saves shallow
  obtain ⟨w', m, arrived, built'⟩ := carries.restores u.store
  have parsed : Json.parse p.tree.compact = .ok p.read :=
    Json.parse_of_spells carries.written.compact
  have read : (Op.fromJsonText p.tree.compact).runOn u.store = (.ok w', m) := by
    rw [Op.runOn_fromJsonText parsed, arrived]
  have later : m.Lawkeeping := by
    have proceeds := (ensures_toValue d t (sameStore ▸ reachable.sound.closed)).1
    rw [back, sameStore] at proceeds
    have proceeds' := (Op.ensures_fromJsonText p.tree.compact
      (proceeds.evolves.closed reachable.sound.closed)).1
    rw [read] at proceeds'
    exact (proceeds.trans proceeds').lawkeeping reachable
  have keeps : s.store.Keeps m := fun ref inside =>
    (built'.kept ref (Nat.lt_of_lt_of_le inside built.size_le) not_false).trans
      (built.kept ref inside not_false)
  exact ⟨d, t, w, u, _, w', m, out, back, toJsonText_of_unfolds carries.unfolds carries.made, read,
    later, keeps, built.added m (fun ref _ inside => (built'.kept ref inside not_false).symm) keeps,
    built'.added m (fun _ _ _ => rfl) keeps⟩

/-- **The two ways lead to equal data exactly when each key goes by one text in both**: what comes
back from a script and what is read from the JSON text are equal when this is so for each key of each
dict. It is so for integers and texts, and for floats whose text for a person has no exponent and
does not end in a point and a zero. -/
theorem Spellable.agrees {s : Session} (reachable : s.store.Reachable)
    (data : Spellable s.store Nameable (maxDepth + 1) v) :
    (∃ d t w u text w' m, (ofValue v).runIn s = (.ok d, t) ∧ (toValue d).runIn t = (.ok w, u) ∧
      s.store.toJsonText v = .ok text ∧ (Op.fromJsonText text).runOn u.store = (.ok w', m) ∧
      (m.equals w w' = true ↔
        Spellable s.store (fun key => Nameable key ∧ Uniform s.store key) (maxDepth + 1) v)) ∧
    ∀ key, Nameable key → (Uniform s.store key ↔ SpelledAlike key) := by
  obtain ⟨d, t, w, u, text, w', m, out, back, wrote, read, later, keeps, first, second⟩ :=
    data.both_ways reachable
  exact ⟨⟨d, t, w, u, text, w', m, out, back, wrote, read,
    data.equals_iff later keeps first second⟩, fun key nameable => nameable.uniform_iff⟩

/-- The float between zero and one, `0.5` for a person and for a host. -/
def half : Binary64 := .finite false ⟨0x3FE0000000000000, by decide⟩

/-- A dict under an integer and a text, with a list in it, and inside of a dict under a float. -/
def ledger : Store := empty.after
  [.newList [.nothing, .int (-2147483648)],
    .newDict [(.int 10, .object ⟨0⟩), (.string "b", .string "a\x00b")],
    .newDict [(.float half, .object ⟨1⟩)]]

theorem reachable_ledger : ledger.Reachable :=
  reachable_empty.after
    ⟨⟨by decide, nofun⟩, ⟨by decide, nofun⟩, ⟨by decide, nofun⟩, trivial⟩

theorem spellable_ledger {named : Value → Prop} (levels : Nat)
    (keys : named (.int 10) ∧ named (.string "b") ∧ named (.float half)) :
    Spellable ledger named (levels + 4) (.object ⟨2⟩) := by
  have list : Spellable ledger named (levels + 2) (.object ⟨0⟩) := by
    have cell : ledger.cell ⟨0⟩ = .list [.nothing, .int (-2147483648)] false := rfl
    refine .list cell ?_
    simp only [List.forall_mem_cons]
    exact ⟨.nothing, .int (by decide), nofun⟩
  have inner : Spellable ledger named (levels + 3) (.object ⟨1⟩) := by
    have cell : ledger.cell ⟨1⟩ =
      .dict [(.int 10, .object ⟨0⟩), (.string "b", .string "a\x00b")] false := rfl
    refine .dict cell ?_ (by decide) (by decide) ?_
    · simpa only [List.forall_mem_cons] using ⟨keys.1, keys.2.1, nofun⟩
    · simp only [List.forall_mem_cons]
      exact ⟨list, .string _, nofun⟩
  have cell : ledger.cell ⟨2⟩ = .dict [(.float half, .object ⟨1⟩)] false := rfl
  exact .dict cell (List.forall_mem_singleton.2 keys.2.2) (List.nodup_singleton _)
    (List.nodup_singleton _) (List.forall_mem_singleton.2 inner)

/-- The dict comes back equal on both ways. -/
theorem agrees_ledger : ledger.Reachable ∧
    Spellable ledger Nameable (maxDepth + 1) (.object ⟨2⟩) ∧
    ∃ d t w u text w' m, (ofValue (.object ⟨2⟩)).runIn { store := ledger } = (.ok d, t) ∧
      (toValue d).runIn t = (.ok w, u) ∧ ledger.toJsonText (.object ⟨2⟩) = .ok text ∧
      (Op.fromJsonText text).runOn u.store = (.ok w', m) ∧ m.equals w w' = true := by
  have admitted : Admitted "b" := by constructor <;> decide
  have plain : Decimal.Plain (Store.floatLayout.write half).toList := by decide +kernel
  have data : Spellable ledger Nameable (maxDepth + 1) (.object ⟨2⟩) :=
    spellable_ledger 61 ⟨.int 10, .string admitted, .float rfl⟩
  obtain ⟨⟨d, t, w, u, text, w', m, out, back, wrote, read, equal⟩, alike⟩ :=
    Spellable.agrees (s := { store := ledger }) reachable_ledger data
  have uniform {key : Value} (nameable : Nameable key) (spelled : SpelledAlike key) :
      Nameable key ∧ Uniform ledger key := ⟨nameable, (alike key nameable).2 spelled⟩
  refine ⟨reachable_ledger, data, d, t, w, u, text, w', m, out, back, wrote, read, equal.2 ?_⟩
  exact spellable_ledger 61 ⟨uniform (.int 10) trivial, uniform (.string admitted) trivial,
    uniform (.float rfl) plain⟩

/-- A dict under a key that is spelled with different words. -/
def nameless : Store := empty.after [.newDict [(.nothing, .int 1)]]

/-- The dict comes back under `None` on one way, and under `null` on the other. -/
theorem differs_nameless : nameless.Reachable ∧
    Spellable nameless Nameable (maxDepth + 1) (.object ⟨0⟩) ∧
    ∃ d t w u text w' m, (ofValue (.object ⟨0⟩)).runIn { store := nameless } = (.ok d, t) ∧
      (toValue d).runIn t = (.ok w, u) ∧ nameless.toJsonText (.object ⟨0⟩) = .ok text ∧
      (Op.fromJsonText text).runOn u.store = (.ok w', m) ∧ m.equals w w' = false := by
  have reachable : nameless.Reachable := reachable_empty.after ⟨⟨by decide, nofun⟩, trivial⟩
  have cell : nameless.cell ⟨0⟩ = .dict [(.nothing, .int 1)] false := rfl
  have data : Spellable nameless Nameable (maxDepth + 1) (.object ⟨0⟩) := by
    refine .dict cell ?_ (by decide) (by decide) ?_
    · exact List.forall_mem_singleton.2 .nothing
    · exact List.forall_mem_singleton.2 (.int (by decide))
  obtain ⟨d, t, w, u, text, w', m, out, back, wrote, read, later, keeps, first, second⟩ :=
    data.both_ways (s := { store := nameless }) reachable
  refine ⟨reachable, data, d, t, w, u, text, w', m, out, back, wrote, read, ?_⟩
  rw [Bool.eq_false_iff]
  intro equal
  cases (data.equals_iff later keeps first second).1 equal with
  | list other => cases cell.symm.trans other
  | dict same keys =>
    cases cell.symm.trans same
    obtain ⟨nameable, uniform⟩ := keys _ List.mem_cons_self
    exact nameable.uniform_iff.1 uniform

end Interchange.Script
