import Interchange.Proofs.Crossing.Listing
import Interchange.Proofs.Crossing.Mirror
import Interchange.Proofs.Mapping.Merging

/-!
# Entries laid over others

Fields that are entered into a dict one after the other are laid over its entries: a key that is
there keeps its place and gets the value of its field, new keys come behind, in the order of the
fields, and every other entry stays (`enterAll_textEntries`). A merge of fields whose values are data
fails at the first entry or not at all, since data leads to no shared mapping, whatever has been
written to the dict meanwhile (`Mapping.runOn_merge_data`).
-/

namespace Interchange

open Store

namespace Store

variable {s t : Store} {v : Value} {d ref : Ref} {old : List (Value × Value)}
  {fields : List (String × Value)}

/-! ## Overlays -/

/-- The value of a key among fields, if it is a text and has a field. -/
def fieldOf? (fields : List (String × Value)) (key : Value) : Option Value :=
  key.text?.bind fun name => fields.lookup name

/-- Entries with fields laid over them. -/
def overlay (old : List (Value × Value)) (fields : List (String × Value)) : List (Value × Value) :=
  old.map (fun entry => (entry.1, (fieldOf? fields entry.1).getD entry.2)) ++
    textEntries (fields.filter fun field => .string field.1 ∉ old.map Prod.fst)

theorem fieldOf?_cons (field : String × Value) (key : Value) : fieldOf? (field :: fields) key =
    if key = .string field.1 then some field.2 else fieldOf? fields key := by
  cases key with
  | string name =>
    rw [fieldOf?, fieldOf?, Value.text?, Option.bind_some, Option.bind_some, TextMap.lookup_cons]
    simp only [Value.string.injEq]
  | _ => rfl

theorem fieldOf?_nil (key : Value) : fieldOf? [] key = none := by
  cases key <;> rfl

theorem overlay_nil (old : List (Value × Value)) : overlay old [] = old := by
  simp [overlay, fieldOf?_nil, textEntries]

/-- Of the keys that are texts, no two are the same. -/
def TextsDistinct (old : List (Value × Value)) : Prop :=
  (old.map Prod.fst).Pairwise fun key other => ∀ name, key = .string name → other ≠ .string name

theorem WellKeyed.textsDistinct (keyed : s.WellKeyed) {frozen : Bool}
    (cell : s.cell ref = .dict old frozen) : TextsDistinct old := by
  have apart := keyed.apart ref
  rw [cell] at apart
  refine apart.imp fun apart name isText same => ?_
  subst isText same
  have unequal := (apart (.inl (.scalar rfl))).1
  rw [s.equals_self] at unequal
  cases unequal

theorem scalarEqual_string (name : String) (key : Value) :
    scalarEqual (.string name) key = decide (key = .string name) := by
  cases key with
  | string other =>
    rw [scalarEqual, Bool.eq_iff_iff, beq_iff_eq, decide_eq_true_iff, Value.string.injEq, eq_comm]
  | _ => rfl

/-- Among fields of distinct names, a key has at most one value. -/
theorem valuesUnder_textEntries (distinct : (fields.map Prod.fst).Nodup) (key : Value) :
    valuesUnder scalarEqual key (textEntries fields) = (fieldOf? fields key).toList := by
  induction fields with
  | nil => rw [fieldOf?_nil]; rfl
  | cons field rest ih =>
    obtain ⟨fresh, distinct⟩ := List.nodup_cons.1 distinct
    rw [textEntries, List.map_cons, ← textEntries, valuesUnder, List.filter_cons,
      scalarEqual_string, fieldOf?_cons]
    by_cases same : key = .string field.1
    · subst same
      have none : fieldOf? rest (.string field.1) = none :=
        List.lookup_eq_none_iff.2 fun other isOther => by
          refine bne_iff_ne.2 fun same => fresh ?_
          exact same ▸ List.mem_map_of_mem isOther
      rw [decide_eq_true rfl, if_pos rfl, if_pos rfl, List.map_cons, ← valuesUnder, ih distinct, none]
      rfl
    · rw [decide_eq_false same, if_neg Bool.false_ne_true, if_neg same, ← valuesUnder, ih distinct]

theorem without_textEntries (key : Value) :
    without scalarEqual key (textEntries fields) =
      textEntries (fields.filter fun field => key ≠ .string field.1) := by
  simp only [without, textEntries, List.filter_map, Function.comp_def, scalarEqual_string,
    ne_eq, decide_not]

/-- Fields of other names do not bear on a key. -/
theorem fieldOf?_filter {key other : Value}
    (differ : ∀ name, key = .string name → other ≠ .string name) :
    fieldOf? (fields.filter fun field => key ≠ .string field.1) other = fieldOf? fields other := by
  induction fields with
  | nil => rfl
  | cons field rest ih =>
    rw [List.filter_cons, fieldOf?_cons]
    by_cases same : key = .string field.1
    · rw [if_neg (by simp [same]), if_neg (differ _ same), ih]
    · rw [if_pos (by simp [same]), fieldOf?_cons, ih]

/-- Fields of distinct names that are entered one after the other are laid over what is there. -/
theorem enterAll_textEntries (texts : TextsDistinct old) (distinct : (fields.map Prod.fst).Nodup) :
    enterAll scalarEqual old (textEntries fields) = overlay old fields := by
  induction old generalizing fields with
  | nil =>
    rw [enterAll_nil, collapse_of_distinct (pairwise_textEntries distinct)]
    simp [overlay]
  | cons entry rest ih =>
    obtain ⟨key, value⟩ := entry
    obtain ⟨first, texts⟩ := List.pairwise_cons.1 texts
    have others : rest.map (fun entry => (entry.1, (fieldOf?
          (fields.filter fun field => key ≠ .string field.1) entry.1).getD entry.2)) =
        rest.map fun entry => (entry.1, (fieldOf? fields entry.1).getD entry.2) :=
      List.map_congr_left fun entry isRest => by
        rw [fieldOf?_filter (first entry.1 (List.mem_map_of_mem isRest))]
    have value : (valuesUnder scalarEqual key (textEntries fields)).getLastD value =
        (fieldOf? fields key).getD value := by
      rw [valuesUnder_textEntries distinct]
      cases fieldOf? fields key <;> rfl
    rw [enterAll_cons, value, without_textEntries,
      ih texts (distinct.sublist (List.filter_sublist.map Prod.fst)), overlay, overlay, others,
      List.filter_filter, List.map_cons, List.cons_append]
    refine congrArg (fun added => _ :: (_ ++ textEntries added)) (List.filter_congr fun field _ => ?_)
    rw [List.map_cons, ← Bool.decide_and, decide_eq_decide, List.mem_cons, not_or, and_comm]
    exact and_congr_left' (not_congr eq_comm)

/-! ## Data -/

/-- Data leads to no shared mapping. -/
theorem Data.clear (data : s.Data v) : s.Clear v := by
  induction data with
  | scalar scalar => exact clear_of_scalar scalar
  | @sequence ref items anatomy _ ih =>
    have parts : (s.cell ref).isMapping = false ∧ (s.cell ref).parts = items := by
      rw [Store.anatomy] at anatomy
      cases cell : s.cell ref <;> rw [cell] at anatomy <;> cases anatomy <;> exact ⟨rfl, rfl⟩
    exact clear_object parts.1 fun v part => ih v (parts.2 ▸ part)
  | dict cell _ _ ihKeys ihValues =>
    refine clear_object (by rw [cell]; rfl) fun v part => ?_
    rw [cell] at part
    obtain ⟨entry, isEntry, rfl | rfl⟩ := mem_entryParts.1 part
    · exact ihKeys entry isEntry
    · exact ihValues entry isEntry

/-- What has an image is data. -/
theorem Mirrors.data {h : HostValue} (mirrors : s.Mirrors h v) : s.Data v := by
  induction mirrors with
  | null | bool | int | float | string => exact .scalar rfl
  | list cell length _ ih =>
    refine .sequence (by rw [anatomy, cell]) fun item isItem => ?_
    have each := List.forall₂_iff_zip.2 ⟨length, fun isPair => ih _ isPair⟩
    obtain ⟨_, -, data⟩ := exists_left each isItem
    exact data
  | map cell perm _ names _ ih =>
    refine .dict cell (fun entry isEntry => ?_) fun entry isEntry => ?_
    all_goals obtain ⟨field, isField, rfl⟩ := List.mem_map.1 (perm.mem_iff.1 isEntry)
    · exact .scalar rfl
    · have each := List.forall₂_iff_zip.2
        ⟨(names_eq_iff.1 names).length_eq, fun isPair => ih _ isPair⟩
      obtain ⟨_, -, data⟩ := exists_left each isField
      exact data

/-! ## Merging data -/

theorem write_write (s : Store) (ref : Ref) (c c' : Cell) :
    (s.write ref c).write ref c' = s.write ref c' := by
  simp [write, Array.setIfInBounds_setIfInBounds]

end Store

namespace Mapping

variable {s : Store} {d : Ref} {op : String} {old : List (Value × Value)} {frozen : Bool}
  {fields : List (String × Value)}

/-- Nothing is found in what is data whatever a dict holds. -/
theorem storable {v : Value} (closed : s.Closed) (has : s.Has v)
    (data : ∀ c, (s.write d c).Data v) : s.findMapping? v = none := by
  have data := data (s.cell d)
  rw [write_cell] at data
  exact (findMapping?_eq_none_iff closed has).2 data.clear

/-- Data is entered, each value in turn. -/
theorem runOn_merge_open (sound : s.Sound) (cell : s.cell d = .dict old false)
    (has : ∀ field ∈ fields, s.Has field.2)
    (data : ∀ c, ∀ field ∈ fields, (s.write d c).Data field.2) :
    (merge d op (textEntries fields)).runOn s =
      (.ok (), s.write d (.dict (enterAll scalarEqual old (textEntries fields)) false)) := by
  induction fields generalizing s old with
  | nil =>
    have same : s.write d (.dict old false) = s := by rw [← cell, write_cell]
    exact congrArg (Prod.mk _) same.symm
  | cons field rest ih =>
    obtain ⟨hasValue, has⟩ := List.forall_mem_cons.1 has
    have scalar : (Value.string field.1).identity? = none := rfl
    have first : (mergeEntry d op (.string field.1, field.2)).runOn s =
        (.ok (), s.write d (.dict (enter scalarEqual (.string field.1) field.2 old) false)) := by
      rw [runOn_mergeEntry, storable sound.closed hasValue (data · field List.mem_cons_self),
        ← putEntry_of_scalar (s := s) scalar]
      exact HostValue.runOn_insert_scalar cell scalar
    have step := Step.put cell (checkHashableWithin_scalar scalar _) (has_of_scalar scalar) hasValue
    rw [putEntry_of_scalar scalar] at step
    have later := ih (step.sound sound)
      (cell_write_self s _ (lt_size_of_isContainer (by rw [cell]; rfl)))
      (fun other isRest => (has other isRest).mono step.size_le)
      fun c other isRest => by rw [write_write]; exact data c other (List.mem_cons_of_mem _ isRest)
    rw [write_write] at later
    rw [textEntries, List.map_cons, ← textEntries, merge_cons, Op.runOn_bind_of_ok first, later]
    rfl

/-- Fields whose values are data are laid over the entries of a dict, unless it is frozen and there is
a field. -/
theorem runOn_merge_data (op : String) (sound : s.Sound) (cell : s.cell d = .dict old frozen)
    (texts : TextsDistinct old) (distinct : (fields.map Prod.fst).Nodup)
    (has : ∀ field ∈ fields, s.Has field.2)
    (data : ∀ c, ∀ field ∈ fields, (s.write d c).Data field.2) :
    (merge d op (textEntries fields)).runOn s =
      if frozen = true ∧ fields ≠ [] then (.error (.frozen "insert" "dict"), s)
      else (.ok (), s.write d (.dict (overlay old fields) frozen)) := by
  cases frozen with
  | false =>
    rw [if_neg fun both => Bool.false_ne_true both.1, runOn_merge_open sound cell has data,
      enterAll_textEntries texts distinct]
  | true =>
    cases fields with
    | nil =>
      rw [if_neg fun both => both.2 rfl, overlay_nil, ← cell, write_cell]
      rfl
    | cons field rest =>
      have first : (mergeEntry d op (.string field.1, field.2)).runOn s =
          (.error (.frozen "insert" "dict"), s) := by
        have hashable : s.checkHashable (.string field.1) = .ok () := checkHashableWithin_scalar rfl _
        rw [runOn_mergeEntry, storable sound.closed (has field List.mem_cons_self)
          (data · field List.mem_cons_self)]
        change (Dict.insert d _ _).runOn s = _
        rw [Dict.runOn_insert, hashable, cell]
      rw [if_pos ⟨rfl, List.cons_ne_nil _ _⟩, textEntries, List.map_cons, merge_cons,
        Op.runOn_bind, first]

end Mapping
end Interchange
