import Interchange.Proofs.Store.Matching

/-!
# Twins

Two values of a store are twins when they are the same scalar, or lists or dicts with twin parts
(`Store.Twin`): numbers are of the same kind then, and elements in the same order. Twins are equal
(`Twin.equals`).
-/

namespace Interchange.Store

/-- The entries of a dict whose keys are texts. -/
def textEntries (fields : List (String × Value)) : List (Value × Value) :=
  fields.map fun field => (.string field.1, field.2)

/-- The same scalar twice, or two lists with twin elements, or two dicts that have twin values under
the same texts, in any order. -/
inductive Twin (s : Store) : Value → Value → Prop
  | scalar {v : Value} (scalar : v.identity? = none) : Twin s v v
  | list {r q : Ref} {items others : List Value} {frozen flag : Bool}
      (cell : s.cell r = .list items frozen) (cell' : s.cell q = .list others flag)
      (length : items.length = others.length)
      (each : ∀ pair ∈ items.zip others, Twin s pair.1 pair.2) : Twin s (.object r) (.object q)
  | dict {r q : Ref} {entries others : List (Value × Value)}
      {fields fields' : List (String × Value)} {frozen flag : Bool} (cell : s.cell r = .dict entries frozen)
      (cell' : s.cell q = .dict others flag) (perm : entries.Perm (textEntries fields))
      (perm' : others.Perm (textEntries fields'))
      (names : fields.map Prod.fst = fields'.map Prod.fst)
      (values : ∀ pair ∈ fields.zip fields', Twin s pair.1.2 pair.2.2) :
      Twin s (.object r) (.object q)

variable {s : Store} {v w : Value} {fields : List (String × Value)}

/-! ## Entries under texts -/

theorem field_mem_textEntries {field : String × Value} :
    (.string field.1, field.2) ∈ textEntries fields ↔ field ∈ fields := by
  simp [textEntries]

theorem map_fst_textEntries (fields : List (String × Value)) :
    (textEntries fields).map Prod.fst = (fields.map Prod.fst).map Value.string := by
  simp [textEntries]

/-- Entries whose keys are texts. -/
theorem exists_textEntries {entries : List (Value × Value)} {P : String → Prop}
    (keys : ∀ entry ∈ entries, ∃ name, entry.1 = .string name ∧ P name) :
    ∃ fields, entries = textEntries fields ∧ ∀ field ∈ fields, P field.1 := by
  induction entries with
  | nil => exact ⟨[], rfl, nofun⟩
  | cons entry entries ih =>
    obtain ⟨⟨name, isName, holds⟩, others⟩ := List.forall_mem_cons.1 keys
    obtain ⟨fields, rfl, all⟩ := ih others
    obtain ⟨_, value⟩ := entry
    cases isName
    exact ⟨(name, value) :: fields, rfl, List.forall_mem_cons.2 ⟨holds, all⟩⟩

theorem names_eq_iff {α β : Type} {as : List (String × α)} {bs : List (String × β)} :
    as.map Prod.fst = bs.map Prod.fst ↔ List.Forall₂ (fun a b => a.1 = b.1) as bs := by
  rw [← List.forall₂_eq_eq_eq, List.forall₂_map_left_iff, List.forall₂_map_right_iff]

/-- Entries in step with names have these as their keys. -/
theorem exists_fields {α : Type} {R : α → Value → Prop} {xs : List (String × α)}
    {entries : List (Value × Value)}
    (each : List.Forall₂ (fun x entry => entry.1 = .string x.1 ∧ R x.2 entry.2) xs entries) :
    ∃ fields, entries = textEntries fields ∧
      List.Forall₂ (fun x field => x.1 = field.1 ∧ R x.2 field.2) xs fields := by
  induction each with
  | nil => exact ⟨[], rfl, .nil⟩
  | @cons x entry _ _ first _ ih =>
    obtain ⟨fields, rfl, rest⟩ := ih
    obtain ⟨_, value⟩ := entry
    cases first.1
    exact ⟨(x.1, value) :: fields, rfl, .cons ⟨rfl, first.2⟩ rest⟩

theorem pairwise_textEntries (distinct : (fields.map Prod.fst).Nodup) :
    (textEntries fields).Pairwise fun a b => scalarEqual b.1 a.1 = false := by
  refine List.pairwise_map.2 ((List.pairwise_map.1 distinct).imp fun differ => ?_)
  simpa [scalarEqual] using differ.symm

theorem textEntries_injective {fields fields' : List (String × Value)}
    (same : textEntries fields = textEntries fields') : fields = fields' := by
  refine List.map_injective_iff.2 ?_ same
  rintro ⟨name, v⟩ ⟨other, w⟩ same
  cases same
  rfl

theorem equals_string {name other : String} :
    s.equals (.string name) (.string other) = true ↔ name = other := by
  rw [equals_of_scalar rfl]
  simp [scalarEqual]

theorem lookup?_textEntries (name : String) (fields : List (String × Value)) :
    s.lookup? (.string name) (textEntries fields) = fields.lookup name := by
  induction fields with
  | nil => rfl
  | cons field rest ih =>
    have same : s.equals (.string name) (.string field.1) = (name == field.1) := by
      rw [Bool.eq_iff_iff, equals_string, beq_iff_eq]
    rw [textEntries, List.map_cons, lookup?_cons, List.lookup_cons, same, ← textEntries, ih]
    cases name == field.1 <;> rfl

/-- Keys that are texts are distinct. -/
theorem WellKeyed.nodup (keyed : s.WellKeyed) {ref : Ref} {entries : List (Value × Value)}
    {frozen : Bool} (cell : s.cell ref = .dict entries frozen)
    (perm : entries.Perm (textEntries fields)) : (fields.map Prod.fst).Nodup := by
  have keys : (s.cell ref).keys.Perm ((fields.map Prod.fst).map Value.string) := by
    rw [cell, ← map_fst_textEntries]
    exact perm.map Prod.fst
  have distinct := keys.nodup_iff.1 <| keyed.nodup_keys fun key isKey => by
    obtain ⟨name, -, rfl⟩ := List.mem_map.1 (keys.mem_iff.1 isKey)
    rfl
  exact distinct.of_map _

/-- Two dicts that have matching values under the same texts match. -/
theorem matches_dict {r q : Ref} {entries others : List (Value × Value)}
    {fields fields' : List (String × Value)} {frozen flag : Bool}
    (cell : s.cell r = .dict entries frozen) (cell' : s.cell q = .dict others flag)
    (perm : entries.Perm (textEntries fields)) (perm' : others.Perm (textEntries fields'))
    (names : fields.map Prod.fst = fields'.map Prod.fst)
    (values : ∀ pair ∈ fields.zip fields', s.Matches pair.1.2 pair.2.2) :
    s.Matches (.object r) (.object q) := by
  refine .dict cell cell' perm perm' (fun key isKey => ?_) ?_ fun pair isPair => ?_
  · rw [map_fst_textEntries] at isKey
    obtain ⟨name, -, rfl⟩ := List.mem_map.1 isKey
    rfl
  · rw [map_fst_textEntries, map_fst_textEntries, names]
  · rw [textEntries, textEntries, List.zip_map] at isPair
    obtain ⟨fields, isFields, rfl⟩ := List.mem_map.1 isPair
    exact values fields isFields

/-- Twins match. -/
theorem Twin.matches (twin : s.Twin v w) : s.Matches v w := by
  induction twin with
  | scalar scalar => exact .scalar (scalarEqual_iff.2 ⟨scalar, rfl⟩)
  | list cell cell' length _ ih => exact .list cell cell' length ih
  | dict cell cell' perm perm' names _ ih => exact matches_dict cell cell' perm perm' names ih

/-- Twins are equal. -/
theorem Twin.equals (keeps : s.Lawkeeping) (has : s.Has v) (has' : s.Has w)
    (twin : s.Twin v w) : s.equals v w = true :=
  twin.matches.equals keeps has has'

end Interchange.Store
