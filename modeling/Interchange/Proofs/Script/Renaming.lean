import Interchange.Proofs.Script.KeyText

/-!
# Data under the texts of its keys

What comes back by way of a script, and what comes back by way of a JSON text, is the same data with
its keys replaced by texts (`Renamed`), but not by the same texts. Two such copies are equal exactly
when each key in the data goes by one text in both (`Spellable.equals_iff`): were they equal in
another way, one text would stand for two keys of a dict.
-/

namespace Interchange.Script

open HostValue Store

variable {s u : Store} {name name' : Value → Option String} {named : Value → Prop} {levels : Nat}
  {v w w' : Value} {r q ref : Ref}

/-- Data for a script and for JSON on no more than so many levels: what both have the same scalar
for, lists of such data, and dicts of it under keys of some kind. In neither way do two keys of a
dict go by one text. -/
inductive Spellable (s : Store) (named : Value → Prop) : Nat → Value → Prop
  | nothing {levels : Nat} : Spellable s named (levels + 1) .nothing
  | bool {levels : Nat} (b : Bool) : Spellable s named (levels + 1) (.bool b)
  | int {levels : Nat} {i : Int} (fits : fitsInt32 i = true) : Spellable s named (levels + 1) (.int i)
  | string {levels : Nat} (text : String) : Spellable s named (levels + 1) (.string text)
  | list {levels : Nat} {ref : Ref} {items : List Value} {frozen : Bool}
      (cell : s.cell ref = .list items frozen)
      (each : ∀ item ∈ items, Spellable s named levels item) :
      Spellable s named (levels + 1) (.object ref)
  | dict {levels : Nat} {ref : Ref} {entries : List (Value × Value)} {frozen : Bool}
      (cell : s.cell ref = .dict entries frozen) (keys : ∀ entry ∈ entries, named entry.1)
      (texts : (entries.map fun entry => s.text? entry.1).Nodup)
      (texts' : (entries.map fun entry => s.keyText? entry.1).Nodup)
      (values : ∀ entry ∈ entries, Spellable s named levels entry.2) :
      Spellable s named (levels + 1) (.object ref)

/-- The second value is the first with every key replaced by the text that it goes by. -/
inductive Renamed (s : Store) (name : Value → Option String) : Value → Value → Prop
  | scalar {v : Value} (scalar : v.identity? = none) : Renamed s name v v
  | list {r q : Ref} {items others : List Value} {frozen flag : Bool}
      (cell : s.cell r = .list items frozen) (cell' : s.cell q = .list others flag)
      (length : items.length = others.length)
      (each : ∀ pair ∈ items.zip others, Renamed s name pair.1 pair.2) :
      Renamed s name (.object r) (.object q)
  | dict {r q : Ref} {entries others : List (Value × Value)} {fields : List (String × Value)}
      {frozen flag : Bool} (cell : s.cell r = .dict entries frozen)
      (cell' : s.cell q = .dict others flag) (perm : others.Perm (textEntries fields))
      (length : entries.length = fields.length)
      (names : ∀ pair ∈ entries.zip fields, name pair.1.1 = some pair.2.1)
      (values : ∀ pair ∈ entries.zip fields, Renamed s name pair.1.2 pair.2.2) :
      Renamed s name (.object r) (.object q)

/-- Entries in step with the texts that their keys go by. -/
theorem exists_named {name : Value → Option String} {entries : List (Value × Value)}
    {P : String → Prop} (keys : ∀ entry ∈ entries, ∃ text, name entry.1 = some text ∧ P text) :
    ∃ fields : List (String × Value), List.Forall₂ (fun entry field =>
        name entry.1 = some field.1 ∧ entry.2 = field.2) entries fields ∧
      ∀ field ∈ fields, P field.1 := by
  have each : ∀ entry ∈ entries, ∃ field : String × Value,
      (name entry.1 = some field.1 ∧ entry.2 = field.2) ∧ P field.1 := fun entry isEntry =>
    have ⟨text, found, holds⟩ := keys entry isEntry
    ⟨(text, entry.2), ⟨found, rfl⟩, holds⟩
  obtain ⟨fields, each⟩ := exists_forall₂ each
  refine ⟨fields, each.imp fun _ _ both => both.1, fun field isField => ?_⟩
  obtain ⟨entry, -, both⟩ := exists_left each isField
  exact both.2

/-- Texts are as distinct as the keys that go by them. -/
theorem nodup_of_named {name : Value → Option String} {entries : List (Value × Value)}
    {fields : List (String × Value)} (inStep : List.Forall₂ (fun entry field =>
      name entry.1 = some field.1 ∧ entry.2 = field.2) entries fields)
    (distinct : (entries.map fun entry => name entry.1).Nodup) : (fields.map Prod.fst).Nodup := by
  rw [map_eq_of_forall₂ inStep fun _ _ both => both.1] at distinct
  exact nodup_some_names.1 distinct

/-- A dict of renamed values under the texts of its keys, in whatever order. -/
theorem renamed_dict {entries others : List (Value × Value)} {fields sorted : List (String × Value)}
    {frozen flag : Bool} (cell : s.cell r = .dict entries frozen)
    (cell' : s.cell q = .dict others flag)
    (inStep : List.Forall₂ (fun entry field => name entry.1 = some field.1 ∧ entry.2 = field.2) entries
      fields) (perm : sorted.Perm fields)
    (parts : List.Forall₂ (fun (field : String × Value) (entry : Value × Value) =>
      entry.1 = .string field.1 ∧ Renamed s name field.2 entry.2) sorted others) :
    Renamed s name (.object r) (.object q) := by
  obtain ⟨renamed, rfl, matched⟩ := exists_fields (R := fun v w => Renamed s name v w) parts
  obtain ⟨ordered, matched, perm'⟩ := List.perm_comp_forall₂ perm.symm matched
  have both := forall₂_trans inStep matched (P := fun entry field =>
    name entry.1 = some field.1 ∧ Renamed s name entry.2 field.2) fun _ _ _ first next =>
      ⟨first.1.trans (congrArg some next.1), first.2 ▸ next.2⟩
  obtain ⟨length, both⟩ := List.forall₂_iff_zip.1 both
  exact .dict cell cell' (perm'.symm.map _) length (fun _ isPair => (both isPair).1)
    fun _ isPair => (both isPair).2

/-- A copy of a list. -/
theorem Renamed.of_list {items : List Value} {frozen : Bool} (cell : s.cell r = .list items frozen)
    (renamed : Renamed s name (.object r) w) : ∃ q others flag, w = .object q ∧
      s.cell q = .list others flag ∧ items.length = others.length ∧
      ∀ pair ∈ items.zip others, Renamed s name pair.1 pair.2 := by
  cases renamed with
  | scalar scalar => cases scalar
  | dict other => cases cell.symm.trans other
  | list same cell' length each =>
    cases cell.symm.trans same
    exact ⟨_, _, _, rfl, cell', length, each⟩

/-- A copy of a dict. -/
theorem Renamed.of_dict {entries : List (Value × Value)} {frozen : Bool}
    (cell : s.cell r = .dict entries frozen) (renamed : Renamed s name (.object r) w) :
    ∃ q others flag fields, w = .object q ∧ s.cell q = .dict others flag ∧
      others.Perm (textEntries fields) ∧ entries.length = fields.length ∧
      ∀ pair ∈ entries.zip fields,
        name pair.1.1 = some pair.2.1 ∧ Renamed s name pair.1.2 pair.2.2 := by
  cases renamed with
  | scalar scalar => cases scalar
  | list other => cases cell.symm.trans other
  | dict same cell' perm length names values =>
    cases cell.symm.trans same
    exact ⟨_, _, _, _, rfl, cell', perm, length, fun pair isPair =>
      ⟨names pair isPair, values pair isPair⟩⟩

theorem Renamed.has (renamed : Renamed s name v w) : s.Has w := by
  cases renamed with
  | scalar scalar => exact has_of_scalar scalar
  | list _ cell' | dict _ cell' =>
    exact has_object.2 (lt_size_of_isContainer (by rw [cell']; rfl))

/-! ## Copies are compared -/

theorem not_differs_self (s : Store) (v : Value) (n : Nat) : ¬ s.Differs n v v := by
  have equal := s.equals_self v
  refine (equals_iff fun unanswered => ?_).1 equal n
  rw [Store.equals, unanswered] at equal
  cases equal

section Alike

variable (alike : ∀ n, ¬ u.Differs n (.object r) (.object q))
include alike

theorem alike_parts (other : r ≠ q) : u.Fits (u.cell r) (u.cell q) ∧
    ∀ v w, u.Opposite v w (u.cell r) (u.cell q) → ∀ n, ¬ u.Differs n v w := by
  refine ⟨?_, fun v w opposite n differs => alike (n + 1) (.parts other opposite differs)⟩
  by_contra unfit
  exact alike 0 (.cells other unfit)

theorem alike_items {items others : List Value} {frozen flag : Bool}
    (cell : u.cell r = .list items frozen) (cell' : u.cell q = .list others flag) :
    items.length = others.length ∧ ∀ pair ∈ items.zip others, ∀ n, ¬ u.Differs n pair.1 pair.2 := by
  by_cases same : r = q
  · subst same
    cases cell.symm.trans cell'
    refine ⟨rfl, fun pair isPair => ?_⟩
    have same : pair.1 = pair.2 :=
      (List.forall₂_iff_zip.1 (List.forall₂_same.2 fun item _ => Eq.refl item)).2 isPair
    exact same ▸ not_differs_self u pair.1
  · obtain ⟨fits, parts⟩ := alike_parts alike same
    rw [cell, cell'] at fits parts
    cases fits with
    | list length => exact ⟨length, fun pair isPair => parts _ _ (.item isPair)⟩

/-- Each key of the first dict is a key of the second, with a value that is alike. -/
theorem alike_fields {entries others : List (Value × Value)} {fields fields' : List (String × Value)}
    {frozen flag : Bool} (cell : u.cell r = .dict entries frozen)
    (cell' : u.cell q = .dict others flag) (perm : entries.Perm (textEntries fields))
    (perm' : others.Perm (textEntries fields')) {field : String × Value} (isField : field ∈ fields) :
    ∃ other ∈ fields', field.1 = other.1 ∧ ∀ n, ¬ u.Differs n field.2 other.2 := by
  have isEntry := perm.symm.mem_iff.1 (field_mem_textEntries.2 isField)
  by_cases same : r = q
  · subst same
    cases cell.symm.trans cell'
    exact ⟨field, field_mem_textEntries.1 (perm'.mem_iff.1 isEntry), rfl, not_differs_self u _⟩
  · obtain ⟨fits, parts⟩ := alike_parts alike same
    rw [cell, cell'] at fits parts
    cases fits with
    | dict _ found =>
      obtain ⟨w, found⟩ := Option.isSome_iff_exists.1 (found _ isEntry)
      obtain ⟨key, isOther, equal⟩ := exists_of_lookup? found
      have isOther := perm'.mem_iff.1 isOther
      obtain ⟨other, isField', isOther⟩ := List.mem_map.1 isOther
      cases isOther
      exact ⟨other, isField', equals_string.1 equal, parts _ _ (.value isEntry found)⟩

end Alike

/-! ## Data is compared -/

/-- Where the text of one key of a dict is the other text of another, they are the same key. -/
theorem eq_of_texts {entries : List (Value × Value)} (keys : ∀ entry ∈ entries, Nameable entry.1)
    (texts : (entries.map fun entry => s.text? entry.1).Nodup)
    (texts' : (entries.map fun entry => s.keyText? entry.1).Nodup) {entry other : Value × Value}
    (isEntry : entry ∈ entries) (isOther : other ∈ entries)
    (same : s.text? entry.1 = s.keyText? other.1) : entry = other ∧ Uniform s entry.1 := by
  rcases (keys entry isEntry).uniform_or_uniform (keys other isOther) same with uniform | uniform
  · exact ⟨List.inj_on_of_nodup_map texts' isEntry isOther (uniform.symm.trans same), uniform⟩
  · have equal := List.inj_on_of_nodup_map texts isEntry isOther (same.trans uniform.symm)
    exact ⟨equal, equal ▸ uniform⟩

namespace Spellable

/-- In copies that are alike, each key of the data goes by one text. -/
theorem uniform_of_alike (data : Spellable s Nameable levels v) (keeps : s.Keeps u)
    (first : Renamed u s.text? v w) (second : Renamed u s.keyText? v w')
    (alike : ∀ n, ¬ u.Differs n w w') :
    Spellable s (fun key => Nameable key ∧ Uniform s key) levels v := by
  induction data generalizing w w' with
  | nothing => exact .nothing
  | bool b => exact .bool b
  | int fits => exact .int fits
  | string text => exact .string text
  | list cell _ ih =>
    have there := cell_of_keeps keeps cell rfl
    obtain ⟨_, _, _, rfl, cell₁, length₁, each₁⟩ := first.of_list there
    obtain ⟨_, _, _, rfl, cell₂, length₂, each₂⟩ := second.of_list there
    obtain ⟨-, each⟩ := alike_items alike cell₁ cell₂
    refine .list cell fun item isItem => ?_
    obtain ⟨y, isPair₂⟩ := exists_pair_of_mem length₂ isItem
    obtain ⟨x, isPair₁, isPair⟩ := exists_between length₁ isPair₂
    exact ih item isItem (each₁ _ isPair₁) (each₂ _ isPair₂) (each _ isPair)
  | @dict levels _ entries _ cell keys texts texts' _ ih =>
    have there := cell_of_keeps keeps cell rfl
    obtain ⟨_, _, _, fields₁, rfl, cell₁, perm₁, length₁, each₁⟩ := first.of_dict there
    obtain ⟨_, _, _, fields₂, rfl, cell₂, perm₂, length₂, each₂⟩ := second.of_dict there
    have both : ∀ entry ∈ entries, Uniform s entry.1 ∧
        Spellable s (fun key => Nameable key ∧ Uniform s key) levels entry.2 := by
      intro entry isEntry
      obtain ⟨field, isPair₁⟩ := exists_pair_of_mem length₁ isEntry
      obtain ⟨other, isOther, sameName, alike⟩ := alike_fields alike cell₁ cell₂ perm₁ perm₂
        (List.of_mem_zip isPair₁).2
      obtain ⟨entry', isPair₂⟩ := exists_pair_of_mem length₂.symm isOther
      have isPair₂ := mem_zip_swap isPair₂
      -- What is under one text in both copies comes from one entry.
      have same : s.text? entry.1 = s.keyText? entry'.1 :=
        (each₁ _ isPair₁).1.trans ((congrArg some sameName).trans (each₂ _ isPair₂).1.symm)
      obtain ⟨rfl, uniform⟩ :=
        eq_of_texts keys texts texts' isEntry (List.of_mem_zip isPair₂).1 same
      exact ⟨uniform, ih entry isEntry (each₁ _ isPair₁).2 (each₂ _ isPair₂).2 alike⟩
    exact .dict cell (fun entry isEntry => ⟨keys entry isEntry, (both entry isEntry).1⟩) texts texts'
      fun entry isEntry => (both entry isEntry).2

/-- Where each key of the data goes by one text, the copies are twins. -/
theorem twin_of_uniform (data : Spellable s (fun key => named key ∧ Uniform s key) levels v)
    (keeps : s.Keeps u) (first : Renamed u s.text? v w) (second : Renamed u s.keyText? v w') :
    u.Twin w w' := by
  induction data generalizing w w' with
  | nothing | bool | int | string =>
    cases first
    cases second
    exact .scalar rfl
  | list cell _ ih =>
    have there := cell_of_keeps keeps cell rfl
    obtain ⟨_, _, _, rfl, cell₁, length₁, each₁⟩ := first.of_list there
    obtain ⟨_, _, _, rfl, cell₂, length₂, each₂⟩ := second.of_list there
    refine .list cell₁ cell₂ (length₁.symm.trans length₂) fun pair isPair => ?_
    obtain ⟨item, isPair₁, isPair₂⟩ := exists_between length₁.symm isPair
    exact ih item (List.of_mem_zip isPair₂).1 (each₁ _ (mem_zip_swap isPair₁)) (each₂ _ isPair₂)
  | dict cell keys _ _ _ ih =>
    have there := cell_of_keeps keeps cell rfl
    obtain ⟨_, _, _, fields₁, rfl, cell₁, perm₁, length₁, each₁⟩ := first.of_dict there
    obtain ⟨_, _, _, fields₂, rfl, cell₂, perm₂, length₂, each₂⟩ := second.of_dict there
    have between {pair : (String × Value) × (String × Value)} (isPair : pair ∈ fields₁.zip fields₂) :=
      exists_between length₁.symm isPair
    refine .dict cell₁ cell₂ perm₁ perm₂ (names_eq_iff.2 (List.forall₂_iff_zip.2
      ⟨length₁.symm.trans length₂, fun {field other} isPair => ?_⟩)) fun pair isPair => ?_
    · obtain ⟨entry, isPair₁, isPair₂⟩ := between isPair
      have uniform := (keys entry (List.of_mem_zip isPair₂).1).2
      exact Option.some.inj ((each₁ _ (mem_zip_swap isPair₁)).1.symm.trans
        (uniform.trans (each₂ _ isPair₂).1))
    · obtain ⟨entry, isPair₁, isPair₂⟩ := between isPair
      exact ih entry (List.of_mem_zip isPair₂).1 (each₁ _ (mem_zip_swap isPair₁)).2
        (each₂ _ isPair₂).2

/-- The copies are equal exactly when each key of the data goes by one text. -/
theorem equals_iff (data : Spellable s Nameable levels v) (later : u.Lawkeeping) (keeps : s.Keeps u)
    (first : Renamed u s.text? v w) (second : Renamed u s.keyText? v w') :
    u.equals w w' = true ↔ Spellable s (fun key => Nameable key ∧ Uniform s key) levels v := by
  refine ⟨fun equal => ?_, fun uniform => ?_⟩
  · refine data.uniform_of_alike keeps first second ((Store.equals_iff fun unanswered => ?_).1 equal)
    rw [Store.equals, unanswered] at equal
    cases equal
  · exact (uniform.twin_of_uniform keeps first second).equals later first.has second.has

end Spellable

end Interchange.Script
