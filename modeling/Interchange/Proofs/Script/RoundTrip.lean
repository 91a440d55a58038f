import Mathlib.Data.List.TakeWhile
import Interchange.Proofs.Binary64
import Interchange.Proofs.Script.Recovering
import Interchange.Proofs.Store.Twin

/-!
# There and back through a script

Data that a script takes as it is (`Scriptable`) always becomes a script value, and that always
becomes a value again (`Scriptable.returns`). The value is equal to the one that was there before
exactly when no name in it has a NUL: the embedding side is told the name of a property only up to
there (`Text.beforeNul`), so such a key comes back cut short, while texts in other places come back
whole.

What came back is related to what was there part by part (`Echo`), and the first dict with a cut key
is where a comparison finds a difference (`Echo.differs`).
-/

namespace Interchange.Script

open HostValue Store Run

variable {α β : Type} {store s u : Store} {named : String → Prop} {levels : Nat} {v w : Value}
  {d : Datum}

/-- Data that a script takes as it is, on no more than so many levels: what a script has a scalar
for, lists of such data, and dicts of it under texts that may be names. -/
inductive Scriptable (s : Store) (named : String → Prop) : Nat → Value → Prop
  | nothing {levels : Nat} : Scriptable s named (levels + 1) .nothing
  | bool {levels : Nat} (b : Bool) : Scriptable s named (levels + 1) (.bool b)
  | int {levels : Nat} {i : Int} (exact : i.natAbs ≤ 2 ^ 53) : Scriptable s named (levels + 1) (.int i)
  | float {levels : Nat} (x : Binary64) : Scriptable s named (levels + 1) (.float x)
  | string {levels : Nat} (text : String) : Scriptable s named (levels + 1) (.string text)
  | list {levels : Nat} {ref : Ref} {items : List Value} {frozen : Bool}
      (cell : s.cell ref = .list items frozen)
      (each : ∀ item ∈ items, Scriptable s named levels item) :
      Scriptable s named (levels + 1) (.object ref)
  | dict {levels : Nat} {ref : Ref} {fields : List (String × Value)} {frozen : Bool}
      (cell : s.cell ref = .dict (textEntries fields) frozen)
      (names : ∀ field ∈ fields, named field.1)
      (values : ∀ field ∈ fields, Scriptable s named levels field.2) :
      Scriptable s named (levels + 1) (.object ref)

/-- The embedding side is told the whole of the name. -/
def Whole (name : String) : Prop := '\x00' ∉ name.toList

instance (name : String) : Decidable (Whole name) := inferInstanceAs (Decidable (_ ∉ _))

theorem whole_beforeNul (name : String) : Whole (Text.beforeNul name) := by
  rw [Whole, Text.beforeNul, String.toList_ofList]
  intro isMem
  simpa using List.mem_takeWhile_imp isMem

theorem Whole.beforeNul {name : String} (whole : Whole name) : Text.beforeNul name = name := by
  rw [Text.beforeNul, List.takeWhile_eq_self_iff.2, String.ofList_toList]
  intro c isMem
  rw [bne_iff_ne]
  rintro rfl
  exact whole isMem

/-! ## Going out -/

/-- In a session with the store the computation has a result, with a property, and leaves the store
alone. -/
def Run.Succeeds (run : Run α) (store : Store) (post : α → Prop) : Prop :=
  ∀ s : Session, s.store = store → ∃ a t, run.runIn s = (.ok a, t) ∧ t.store = store ∧ post a

namespace Run

variable {run : Run α} {next : α → Run β} {post : β → Prop} {mid : α → Prop}

theorem succeeds_pure {a : α} (holds : mid a) : (pure a : Run α).Succeeds store mid :=
  fun s same => ⟨a, s, rfl, same, holds⟩

theorem succeeds_alloc (object : Object) : (alloc object).Succeeds store fun _ => True :=
  fun _ same => ⟨_, _, rfl, same, trivial⟩

theorem Succeeds.bind (h : run.Succeeds store mid)
    (h' : ∀ a, mid a → (next a).Succeeds store post) : (run >>= next).Succeeds store post := by
  intro s same
  obtain ⟨a, t, ran, same, holds⟩ := h s same
  obtain ⟨b, u, ran', same, holds⟩ := h' a holds t same
  exact ⟨b, u, (runIn_bind_of_ok ran).trans ran', same, holds⟩

theorem succeeds_mapM {f : α → Run β} {items : List α}
    (each : ∀ a ∈ items, (f a).Succeeds store fun _ => True) :
    (items.mapM f).Succeeds store fun _ => True := by
  induction items with
  | nil => exact succeeds_pure trivial
  | cons a rest ih =>
    obtain ⟨first, each⟩ := List.forall_mem_cons.1 each
    rw [List.mapM_cons]
    exact first.bind fun _ _ => (ih each).bind fun _ _ => succeeds_pure trivial

theorem succeeds_foldlM {P : β → Prop} {f : β → α → Run β} {items : List α}
    (each : ∀ a ∈ items, ∀ b, P b → (f b a).Succeeds store P) {b : β} (holds : P b) :
    (items.foldlM f b).Succeeds store P := by
  induction items generalizing b with
  | nil => exact succeeds_pure holds
  | cons a rest ih =>
    obtain ⟨first, each⟩ := List.forall_mem_cons.1 each
    rw [List.foldlM_cons]
    exact (first b holds).bind fun _ holds => ih each holds

end Run

theorem succeeds_put {properties : List (WideString × Datum)} {name : String}
    (plain : name ≠ prototypeName) :
    (embedded ((Object.ofProperties properties).put name d)).Succeeds store
      fun object => ∃ others, object = .ofProperties others := by
  intro s same
  refine ⟨.ofProperties (setProperty name d properties), s, ?_, same, _, rfl⟩
  rw [embedded, runIn_tryCatch, runIn_put (plain ∘ WideString.text.inj)]

theorem succeeds_text {key : Value} {name : String} (found : store.text? key = some name) :
    (Run.onStore (Op.text key)).Succeeds store (· = name) := by
  intro s same
  refine ⟨name, s, runIn_onStore_of_ok ?_, same, rfl⟩
  rw [Op.text, Op.runOn_bind, Op.runOn_get]
  simp only [same, found]
  rfl

theorem succeeds_cell {ref : Ref} {c : Cell} (cell : store.cell ref = c)
    (h : (ofCell (ofValueWithin levels) (store.typeName (.object ref)) ref c).Succeeds store
      fun _ => True) : (ofValueWithin (levels + 1) (.object ref)).Succeeds store fun _ => True := by
  intro s same
  subst same
  rw [← cell] at h
  exact h s rfl

/-- Entries become a record if no key has the name of the prototype as its text. -/
theorem succeeds_record {part : Value → Run Datum} {entries : List (Value × Value)}
    (names : ∀ entry ∈ entries, ∃ name, store.text? entry.1 = some name ∧ name ≠ prototypeName)
    (values : ∀ entry ∈ entries, (part entry.2).Succeeds store fun _ => True) :
    (recordOf part (entries.map fun entry => (Run.onStore (Op.text entry.1), entry.2))).Succeeds store
      fun _ => True := by
  refine (succeeds_foldlM (P := fun object => ∃ others, object = .ofProperties others)
    (fun member isMember object isRecord => ?_) ⟨[], rfl⟩).bind fun _ _ => succeeds_alloc _
  obtain ⟨properties, rfl⟩ := isRecord
  obtain ⟨entry, isEntry, rfl⟩ := List.mem_map.1 isMember
  obtain ⟨name, found, plain⟩ := names entry isEntry
  refine (succeeds_text found).bind fun name same => ?_
  refine (values entry isEntry).bind fun d _ => ?_
  exact succeeds_put (same ▸ plain)

/-- Data becomes a script value. -/
theorem Scriptable.succeeds (data : Scriptable store named levels v)
    (plain : ∀ name, named name → name ≠ prototypeName) :
    (ofValueWithin levels v).Succeeds store fun _ => True := by
  induction data with
  | nothing | bool | int | float | string => exact succeeds_pure trivial
  | list cell _ ih => exact succeeds_cell cell ((succeeds_mapM ih).bind fun _ _ => succeeds_alloc _)
  | @dict _ _ fields _ cell names _ ih =>
    refine succeeds_cell cell (succeeds_record (fun entry isEntry => ?_) fun entry isEntry => ?_)
    all_goals obtain ⟨field, isField, rfl⟩ := List.mem_map.1 isEntry
    · exact ⟨field.1, rfl, plain field.1 (names field isField)⟩
    · exact ih field isField

/-! ## Coming back -/

theorem integer?_of_int32? {x : Binary64} {i : Int} (h : int32? x = some i) :
    x.integer? = some i := by
  unfold int32? at h
  split at h
  · cases h
  · exact (Option.filter_eq_some_iff.1 h).1

/-- A number comes back as a number that is equal to it. -/
theorem builds_number {size : Nat} {heap : Array Object} {x : Binary64}
    (same : scalarEqual v (.float x) = true) :
    (toValueWithin (levels + 1) (.number x)).Builds heap size fun _ w =>
      scalarEqual v w = true := by
  rw [toValueWithin]
  cases found : int32? x with
  | some i =>
    obtain ⟨scalar, numeral⟩ := scalarEqual_iff.1 same
    rw [numeral_float_of_some (integer?_of_int32? found)] at numeral
    exact builds_pure (Q := fun _ w => _) fun _ => scalarEqual_iff.2 ⟨scalar, numeral⟩
  | none => exact builds_pure (Q := fun _ w => _) fun _ => same

/-- What came back for data: equal scalars, lists with echoes as their elements, and dicts with
echoes under the same names, if the embedding side was told all of these; or else, a dict that lacks
a key. What is no scalar is new. -/
inductive Echo (s : Store) : Value → Value → Prop
  | scalar {v w : Value} (same : scalarEqual v w = true) : Echo s v w
  | list {r q : Ref} {items others : List Value} {frozen flag : Bool} (new : r ≠ q)
      (cell : s.cell r = .list items frozen) (cell' : s.cell q = .list others flag)
      (length : items.length = others.length)
      (each : ∀ pair ∈ items.zip others, Echo s pair.1 pair.2) : Echo s (.object r) (.object q)
  | dict {r q : Ref} {entries : List (Value × Value)} {fields others : List (String × Value)}
      {frozen flag : Bool} (new : r ≠ q) (cell : s.cell r = .dict entries frozen)
      (cell' : s.cell q = .dict (textEntries others) flag) (perm : entries.Perm (textEntries fields))
      (whole : ∀ field ∈ fields, Whole field.1) (names : fields.map Prod.fst = others.map Prod.fst)
      (values : ∀ pair ∈ fields.zip others, Echo s pair.1.2 pair.2.2) :
      Echo s (.object r) (.object q)
  | cut {r q : Ref} {fields : List (String × Value)} {others : List (Value × Value)}
      {frozen flag : Bool} (new : r ≠ q) (cell : s.cell r = .dict (textEntries fields) frozen)
      (cell' : s.cell q = .dict others flag) {field : String × Value} (isField : field ∈ fields)
      (cut : ¬ Whole field.1) (told : ∀ entry ∈ others, ∃ name, entry.1 = .string name ∧ Whole name) :
      Echo s (.object r) (.object q)

section Returning

variable {heap : Array Object}

/-- A record that stands for a dict under texts has a property for each text. -/
theorem properties_of_depicts {ref : Ref} {fields : List (String × Value)} {frozen : Bool}
    (cell : s.cell ref = .dict (textEntries fields) frozen)
    (plain : ∀ field ∈ fields, field.1 ≠ prototypeName)
    (depicts : Depicts s heap (.object ref) d) : ∃ place properties, d = .object place ∧
      heap[place.index]? = some (.ofProperties (written properties)) ∧
      List.Forall₂ (fun property field => property.1 = .text field.1 ∧
        Depicts s heap field.2 property.2) properties fields := by
  obtain ⟨place, properties, rfl, each, there⟩ := Depicts.of_dict cell depicts
  rw [textEntries, List.forall₂_map_left_iff] at each
  refine ⟨place, properties, rfl, there fun isName => ?_, each.flip.imp fun _ _ both =>
    ⟨(Option.some.inj both.1).symm, both.2⟩⟩
  obtain ⟨property, isProperty, same⟩ := List.mem_map.1 isName
  obtain ⟨field, isField, both⟩ := exists_left each isProperty
  exact plain field isField (WideString.text.inj ((Option.some.inj both.1).trans same))

theorem builds_read {place : Place} {object : Object} {size : Nat} {Q : Store → Value → Prop}
    (there : heap[place.index]? = some object)
    (h : (ofObject (toValueWithin levels) object).Builds heap size Q) :
    (toValueWithin (levels + 1) (.object place)).Builds heap size Q := by
  intro t same
  have found : (Run.read place).runIn t = (.ok object, t) := by
    subst same
    have : t.heap.getD place.index (.ofProperties []) = object := by
      rw [Array.getD_eq_getD_getElem?, there, Option.getD_some]
    exact congrArg (fun object => (Except.ok object, t)) this
  have run : (toValueWithin (levels + 1) (.object place)).runIn t =
      (ofObject (toValueWithin levels) object).runIn t := runIn_bind_of_ok found
  rw [run]
  exact h t same

/-- A dict of echoes under the names that the embedding side was told is an echo. -/
theorem echo_of_added {ref q : Ref} {fields sorted : List (String × Value)}
    {added : List (Value × Value)} {frozen flag : Bool} (new : ref ≠ q)
    (cell : u.cell ref = .dict (textEntries fields) frozen)
    (cell' : u.cell q = .dict (collapse scalarEqual added) flag) (perm : sorted.Perm fields)
    (distinct : (fields.map Prod.fst).Nodup)
    (parts : List.Forall₂ (fun (field : String × Value) (entry : Value × Value) =>
      entry.1 = .string (Text.beforeNul field.1) ∧ Echo u field.2 entry.2) sorted added) :
    Echo u (.object ref) (.object q) := by
  by_cases whole : ∀ field ∈ fields, Whole field.1
  · have whole : ∀ field ∈ sorted, Whole field.1 := fun field isField =>
      whole field (perm.mem_iff.1 isField)
    obtain ⟨length, each⟩ := List.forall₂_iff_zip.1 parts
    have texts : List.Forall₂ (fun (field : String × Value) (entry : Value × Value) =>
        entry.1 = .string field.1 ∧ Echo u field.2 entry.2) sorted added :=
      List.forall₂_iff_zip.2 ⟨length, fun {field _} isPair =>
        ⟨(whole field (List.of_mem_zip isPair).1).beforeNul ▸ (each isPair).1, (each isPair).2⟩⟩
    obtain ⟨others, rfl, inStep⟩ := exists_fields texts
    have sameNames := names_eq_iff.2 (inStep.imp fun _ _ both => both.1)
    have distinct : (others.map Prod.fst).Nodup :=
      sameNames ▸ (perm.map Prod.fst).nodup_iff.2 distinct
    rw [collapse_of_distinct (pairwise_textEntries distinct)] at cell'
    exact .dict new cell cell' (perm.symm.map _) whole sameNames fun _ isPair =>
      ((List.forall₂_iff_zip.1 inStep).2 isPair).2
  · push Not at whole
    obtain ⟨field, isField, cut⟩ := whole
    refine .cut new cell cell' isField cut fun entry isEntry => ?_
    obtain ⟨other, isOther, same⟩ := List.mem_map.1 (key_mem_of_mem_collapse isEntry)
    obtain ⟨x, -, both⟩ := exists_left parts isOther
    exact ⟨_, same ▸ both.1, whole_beforeNul _⟩

/-- What data became comes back. -/
theorem Scriptable.builds (data : Scriptable s named levels v) (keyed : s.WellKeyed)
    (plain : ∀ name, named name → name ≠ prototypeName) (depicts : Depicts s heap v d) :
    (toValueWithin levels d).Builds heap s.size fun u w => s.Keeps u → Echo u v w := by
  induction data generalizing d with
  | nothing | bool | string =>
    cases depicts
    exact builds_pure fun _ _ => .scalar (by simp [scalarEqual])
  | @int _ i exact =>
    cases depicts
    have same : scalarEqual (.int i) (.float (Binary64.ofInt i)) = true := by
      rw [scalarEqual, Binary64.integer?_ofInt exact, beq_self_eq_true]
    exact (builds_number same).imp fun _ _ same _ => .scalar same
  | float x =>
    cases depicts
    exact (builds_number (scalarEqual_iff.2 ⟨rfl, rfl⟩)).imp fun _ _ same _ => .scalar same
  | @list _ ref items frozen cell _ ih =>
    have inside : ref.index < s.size := lt_size_of_isContainer (by rw [cell]; rfl)
    obtain ⟨place, ds, rfl, each, there⟩ := Depicts.of_list cell depicts
    obtain ⟨length, each⟩ := List.forall₂_iff_zip.1 each.flip
    refine builds_read there ((builds_list (P := fun v u w => s.Keeps u → Echo u v w)
      (List.forall₂_iff_zip.2 ⟨length, fun isPair => ih _ (List.of_mem_zip isPair).2
        (each isPair)⟩)).imp ?_)
    rintro u w ⟨q, others, rfl, new, cell', parts⟩ keeps
    obtain ⟨length, each⟩ := List.forall₂_iff_zip.1 parts
    refine .list ?_ ((keeps ref inside).trans cell) cell' length fun _ isPair => each isPair keeps
    rintro rfl
    exact absurd inside (Nat.not_lt.2 new)
  | @dict levels ref fields frozen cell names values ih =>
    have inside : ref.index < s.size := lt_size_of_isContainer (by rw [cell]; rfl)
    obtain ⟨place, properties, rfl, there, each⟩ := properties_of_depicts cell
      (fun field isField => plain field.1 (names field isField)) depicts
    have distinct : (fields.map Prod.fst).Nodup := keyed.nodup cell (.refl _)
    have apart := nodup_of_texts (each.imp fun _ _ both => both.1) distinct
    obtain ⟨length, each⟩ := List.forall₂_iff_zip.1 each
    have builds : List.Forall₂ (fun (property : WideString × Datum) (field : String × Value) =>
        property.1 = .text field.1 ∧ (toValueWithin levels property.2).Builds heap s.size
          fun u w => s.Keeps u → Echo u field.2 w) properties fields :=
      List.forall₂_iff_zip.2 ⟨length, fun isPair => ⟨(each isPair).1,
        ih _ (List.of_mem_zip isPair).2 (each isPair).2⟩⟩
    -- The properties come in the order of the record, in which indices are first.
    obtain ⟨sorted, builds, perm⟩ :=
      List.perm_comp_forall₂ (written_perm apart) builds
    refine builds_read there ((builds_dict (P := fun v u w => s.Keeps u → Echo u v w) builds).imp ?_)
    rintro u w ⟨q, added, rfl, new, cell', parts⟩ keeps
    have differ : ref ≠ q := by
      rintro rfl
      exact absurd inside (Nat.not_lt.2 new)
    exact echo_of_added differ ((keeps ref inside).trans cell) cell' perm distinct
      (parts.imp fun _ _ both => ⟨both.1, both.2 keeps⟩)

end Returning

/-! ## What came back is compared -/

theorem cell_of_keeps (keeps : s.Keeps u) {ref : Ref} {c : Cell} (cell : s.cell ref = c)
    (container : c.isContainer = true) : u.cell ref = c :=
  (keeps ref (lt_size_of_isContainer (cell ▸ container))).trans cell

/-- Where the embedding side was told all names, what came back matches. -/
theorem Echo.matches (echo : Echo u v w) (keeps : s.Keeps u) (data : Scriptable s named levels v)
    (whole : ∀ name, named name → Whole name) : u.Matches v w := by
  induction echo generalizing levels with
  | scalar same => exact .scalar same
  | list _ cell cell' length _ ih =>
    cases data with
    | dict there => cases cell.symm.trans (cell_of_keeps keeps there rfl)
    | list there each =>
      cases cell.symm.trans (cell_of_keeps keeps there rfl)
      exact .list cell cell' length fun pair isPair =>
        ih pair isPair (each _ (List.of_mem_zip isPair).1)
  | dict _ cell cell' perm _ names _ ih =>
    cases data with
    | list there => cases cell.symm.trans (cell_of_keeps keeps there rfl)
    | dict there _ values =>
      cases cell.symm.trans (cell_of_keeps keeps there rfl)
      refine matches_dict cell cell' perm (.refl _) names fun pair isPair =>
        ih pair isPair (values _ ?_)
      rw [← field_mem_textEntries, perm.mem_iff, field_mem_textEntries]
      exact (List.of_mem_zip isPair).1
  | cut _ cell _ isField cut _ =>
    cases data with
    | list there => cases cell.symm.trans (cell_of_keeps keeps there rfl)
    | dict there names _ =>
      have same := cell.symm.trans (cell_of_keeps keeps there rfl)
      rw [Cell.dict.injEq] at same
      exact absurd (whole _ (names _ (textEntries_injective same.1 ▸ isField))) cut

/-- Where a name was cut, a walk leads from the data to a dict that lacks a key. -/
theorem Echo.differs (echo : Echo u v w) (keyed : u.WellKeyed) (keeps : s.Keeps u)
    (data : Scriptable s named levels v)
    (cut : ¬ Scriptable s (fun name => named name ∧ Whole name) levels v) :
    ∃ n, u.Differs n v w := by
  induction echo generalizing levels with
  | scalar same =>
    cases data with
    | list | dict => cases scalarEqual_object _ _ ▸ same
    | nothing | bool | int | float | string =>
      refine absurd ?_ cut
      constructor
      try assumption
  | @list r q items others _ _ new cell cell' length _ ih =>
    cases data with
    | dict there => cases cell.symm.trans (cell_of_keeps keeps there rfl)
    | list there each =>
      cases cell.symm.trans (cell_of_keeps keeps there rfl)
      obtain ⟨item, isItem, cut⟩ : ∃ item ∈ items, ¬ Scriptable s _ _ item := by
        by_contra all
        push Not at all
        exact cut (.list there all)
      obtain ⟨other, isPair⟩ := exists_pair_of_mem length isItem
      obtain ⟨n, differs⟩ := ih _ isPair (each item isItem) cut
      exact ⟨n + 1, .parts new (by rw [cell, cell']; exact .item isPair) differs⟩
  | @dict r q entries fields others _ _ new cell cell' perm whole names _ ih =>
    cases data with
    | list there => cases cell.symm.trans (cell_of_keeps keeps there rfl)
    | @dict _ _ known _ there named values =>
      cases cell.symm.trans (cell_of_keeps keeps there rfl)
      have isField {field : String × Value} (isKnown : field ∈ known) : field ∈ fields := by
        rwa [← field_mem_textEntries, ← perm.mem_iff, field_mem_textEntries]
      obtain ⟨field, isKnown, cut⟩ : ∃ field ∈ known, ¬ Scriptable s _ _ field.2 := by
        by_contra all
        push Not at all
        exact cut (.dict there (fun field isKnown =>
          ⟨named field isKnown, whole field (isField isKnown)⟩) all)
      obtain ⟨other, isPair⟩ := exists_pair_of_mem (names_eq_iff.1 names).length_eq (isField isKnown)
      obtain ⟨n, differs⟩ := ih _ isPair (values field isKnown) cut
      have same := (List.forall₂_iff_zip.1 (names_eq_iff.1 names)).2 isPair
      have found : u.lookup? (.string field.1) (textEntries others) = some other.2 := by
        rw [lookup?_textEntries, same]
        exact lookup_of_mem (keyed.nodup cell' (.refl _)) (List.of_mem_zip isPair).2
      have isEntry := field_mem_textEntries.2 isKnown
      exact ⟨n + 1, .parts new (by rw [cell, cell']; exact .value isEntry found) differs⟩
  | @cut r q fields others _ _ new cell cell' field isField short told =>
    refine ⟨0, .cells new fun fits => ?_⟩
    rw [cell, cell'] at fits
    cases fits with
    | dict _ found =>
      have isEntry := field_mem_textEntries.2 isField
      obtain ⟨entry, isOther, same⟩ := lookup?_isSome_iff.1 (found _ isEntry)
      obtain ⟨name, isName, whole⟩ := told entry isOther
      rw [isName, equals_string] at same
      exact short (same ▸ whole)

/-- Data becomes a script value, and that becomes a value again, which is equal to what was there
before exactly when the embedding side is told all names in it whole. -/
theorem Scriptable.returns {s : Session} (reachable : s.store.Reachable) (has : s.store.Has v)
    (data : Scriptable s.store (· ≠ prototypeName) (maxDepth + 1) v) :
    ∃ d t w u, (ofValue v).runIn s = (.ok d, t) ∧ (toValue d).runIn t = (.ok w, u) ∧
      (u.store.equals v w = true ↔
        Scriptable s.store (fun name => name ≠ prototypeName ∧ Whole name) (maxDepth + 1) v) := by
  obtain ⟨d, t, out, sameStore, -⟩ := data.succeeds (fun _ => id) s rfl
  have depicts : Depicts s.store t.heap v d := sameStore ▸ (depicts_ofValue out).2
  obtain ⟨w, u, back, -, built⟩ := data.builds reachable.wellKeyed (fun _ => id) depicts t rfl
    (by rw [sameStore])
  rw [sameStore] at built
  have keeps : s.store.Keeps u.store := fun ref inside => built.kept ref inside not_false
  have echo : Echo u.store v w := built.added u.store (fun _ _ _ => rfl) keeps
  obtain ⟨proceeds, hasResult⟩ := ensures_toValue d t (sameStore ▸ reachable.sound.closed)
  have ran : (toValue d).runIn t = (.ok w, u) := back
  rw [ran] at hasResult
  rw [ran, sameStore] at proceeds
  have later := proceeds.lawkeeping reachable
  refine ⟨d, t, w, u, out, ran, fun equal => ?_, fun whole => ?_⟩
  · by_contra cut
    obtain ⟨n, differs⟩ := echo.differs later.toWellKeyed keeps data cut
    refine (equals_iff ?_).1 equal n differs
    intro unanswered
    rw [Store.equals, unanswered] at equal
    cases equal
  · exact (echo.matches keeps whole fun _ => And.right).equals later (proceeds.evolves.has has)
      (hasResult w rfl)

/-- A dict under texts of which some are indices, with a list in it. -/
def jotted : Store := empty.after
  [.newList [.nothing, .bool true, .string "a\x00b"],
    .newDict [(.string "b", .object ⟨0⟩), (.string "10", .float (.infinity true)),
      (.string "9", .int 9007199254740992)]]

theorem reachable_jotted : jotted.Reachable :=
  reachable_empty.after ⟨⟨by decide, nofun⟩, ⟨by decide, nofun⟩, trivial⟩

theorem cell_jotted : jotted.cell ⟨1⟩ = .dict (textEntries [("b", .object ⟨0⟩),
    ("10", .float (.infinity true)), ("9", .int 9007199254740992)]) false := rfl

theorem scriptable_jotted (levels : Nat) (names : named "b" ∧ named "10" ∧ named "9") :
    Scriptable jotted named (levels + 3) (.object ⟨1⟩) := by
  have cell : jotted.cell ⟨0⟩ = .list [.nothing, .bool true, .string "a\x00b"] false := rfl
  have list : Scriptable jotted named (levels + 2) (.object ⟨0⟩) := by
    refine .list cell ?_
    simp only [List.forall_mem_cons]
    exact ⟨.nothing, .bool true, .string _, nofun⟩
  refine .dict cell_jotted ?_ ?_
  · simpa only [List.forall_mem_cons] using ⟨names.1, names.2.1, names.2.2, nofun⟩
  · simp only [List.forall_mem_cons]
    exact ⟨list, .float _, .int (by decide), nofun⟩

/-- The dict comes back, with its keys in another order. -/
theorem returns_jotted : jotted.Reachable ∧
    Scriptable jotted (· ≠ prototypeName) (maxDepth + 1) (.object ⟨1⟩) ∧
    ∃ d t w u, (ofValue (.object ⟨1⟩)).runIn { store := jotted } = (.ok d, t) ∧
      (toValue d).runIn t = (.ok w, u) ∧ u.store.equals (.object ⟨1⟩) w = true := by
  have data : Scriptable jotted (· ≠ prototypeName) (maxDepth + 1) (.object ⟨1⟩) :=
    scriptable_jotted 62 (by decide)
  have whole : Scriptable jotted (fun name => name ≠ prototypeName ∧ Whole name) (maxDepth + 1)
    (.object ⟨1⟩) := scriptable_jotted 62 (by decide)
  obtain ⟨d, t, w, u, out, back, equal⟩ :=
    Scriptable.returns (s := { store := jotted }) reachable_jotted (by decide) data
  exact ⟨reachable_jotted, data, d, t, w, u, out, back, equal.2 whole⟩

/-- A dict under a text with a NUL. -/
def severed : Store := empty.after [.newDict [(.string "a\x00b", .bool true)]]

/-- The dict comes back with another key. -/
theorem returns_severed : severed.Reachable ∧
    Scriptable severed (· ≠ prototypeName) (maxDepth + 1) (.object ⟨0⟩) ∧
    ∃ d t w u, (ofValue (.object ⟨0⟩)).runIn { store := severed } = (.ok d, t) ∧
      (toValue d).runIn t = (.ok w, u) ∧ u.store.equals (.object ⟨0⟩) w = false := by
  have cell : severed.cell ⟨0⟩ = .dict (textEntries [("a\x00b", .bool true)]) false := rfl
  refine ⟨reachable_empty.after ⟨⟨by decide, nofun⟩, trivial⟩, .dict cell (by decide) ?_, ?_⟩
  · exact List.forall_mem_singleton.2 (.bool true)
  · exact ⟨_, _, _, _, rfl, rfl, by decide +kernel⟩

end Interchange.Script
