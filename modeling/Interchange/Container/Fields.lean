import Interchange.Op

/-!
# Named parts

The fields of a record and the members of a module: values by name, in the order in which the
names were first given. A later value for a name takes the place of the earlier one, so names are
distinct (`nodup_names_ofEntries`).
-/

namespace Interchange

namespace Fields

/-- The parts with a value under a name: in place of the earlier one, or at the end. -/
def put (name : String) (value : Value) : List (String × Value) → List (String × Value)
  | [] => [(name, value)]
  | (other, old) :: rest =>
    if name = other then (name, value) :: rest else (other, old) :: put name value rest

/-- The parts of a list of entries. -/
def ofEntries (entries : List (String × Value)) : List (String × Value) :=
  entries.foldl (fun parts entry => put entry.1 entry.2 parts) []

theorem mem_names_put {name x : String} {value : Value} {parts : List (String × Value)} :
    x ∈ (put name value parts).map Prod.fst ↔ x = name ∨ x ∈ parts.map Prod.fst := by
  induction parts with
  | nil => simp [put]
  | cons part rest ih =>
    obtain ⟨other, old⟩ := part
    rw [put]
    split
    · next same => subst same; simp
    · simp only [List.map_cons, List.mem_cons, ih]
      exact or_left_comm

theorem nodup_names_put {name : String} {value : Value} {parts : List (String × Value)}
    (distinct : (parts.map Prod.fst).Nodup) : ((put name value parts).map Prod.fst).Nodup := by
  induction parts with
  | nil => simp [put]
  | cons part rest ih =>
    obtain ⟨other, old⟩ := part
    obtain ⟨fresh, distinctRest⟩ := List.nodup_cons.1 distinct
    rw [put]
    split
    · next same => subst same; exact distinct
    · next differ =>
      refine List.nodup_cons.2 ⟨fun here => ?_, ih distinctRest⟩
      rcases mem_names_put.1 here with same | old
      · exact differ same.symm
      · exact fresh old

/-- Names are distinct, whatever the entries. -/
theorem nodup_names_ofEntries (entries : List (String × Value)) :
    ((ofEntries entries).map Prod.fst).Nodup := by
  suffices ∀ parts : List (String × Value), (parts.map Prod.fst).Nodup →
      ((entries.foldl (fun parts entry => put entry.1 entry.2 parts) parts).map Prod.fst).Nodup from
    this [] List.nodup_nil
  induction entries with
  | nil => exact fun _ distinct => distinct
  | cons entry rest ih => exact fun _ distinct => ih _ (nodup_names_put distinct)

theorem put_of_fresh {name : String} {value : Value} {parts : List (String × Value)}
    (fresh : name ∉ parts.map Prod.fst) : put name value parts = parts ++ [(name, value)] := by
  induction parts with
  | nil => rfl
  | cons part rest ih =>
    rw [put, if_neg (List.ne_of_not_mem_cons fresh), ih (List.not_mem_of_not_mem_cons fresh),
      List.cons_append]

theorem foldl_put_of_distinct {parts entries : List (String × Value)}
    (distinct : ((parts ++ entries).map Prod.fst).Nodup) :
    entries.foldl (fun parts entry => put entry.1 entry.2 parts) parts = parts ++ entries := by
  induction entries generalizing parts with
  | nil => exact (List.append_nil parts).symm
  | cons entry rest ih =>
    have fresh : entry.1 ∉ parts.map Prod.fst := fun isName => by
      rw [List.map_append, List.map_cons] at distinct
      exact (List.nodup_append.1 distinct).2.2 entry.1 isName entry.1 List.mem_cons_self rfl
    rw [List.append_cons] at distinct
    rw [List.foldl_cons, put_of_fresh fresh, ih distinct, ← List.append_cons]

/-- Entries whose names are distinct are the parts. -/
theorem ofEntries_of_distinct {entries : List (String × Value)}
    (distinct : (entries.map Prod.fst).Nodup) : ofEntries entries = entries :=
  foldl_put_of_distinct distinct

end Fields

namespace Op

/-- A new record. -/
def newRecord (tag : Value) (entries : List (String × Value)) : Op Value :=
  new (.record tag (Fields.ofEntries entries))

/-- A new module. -/
def newModule (name : String) (entries : List (String × Value)) : Op Ref :=
  alloc (.module name (Fields.ofEntries entries))

end Op
end Interchange
