import Interchange.Proofs.Crossing.Unfolding

/-!
# The parts of what departs

Whatever a cell becomes on the host side, it is made of what its parts become, or else it is what a
hook of the embedding side answers (`Store.Assembles`). A part departs by itself as it does inside
the cell (`depart_cases`): a walk that has come less far and may go deeper answers the same
(`departWithin_mono`).
-/

namespace Interchange.Store

variable {s : Store} {v : Value} {ref : Ref} {h : HostValue}

/-- What a hook makes of a cell: the cell's own, or that of the value that tags it. -/
inductive Presents (s : Store) (ref : Ref) : HostValue → Prop
  | own {extension : Extension} {h : HostValue} (cell : s.cell ref = .extension extension)
      (departure : extension.departure = some (.ok h)) : Presents s ref h
  | tag {tag : Value} {fields : List (String × Value)} {h : HostValue}
      (cell : s.cell ref = .record tag fields) (departure : s.tagDeparture? tag = some (.ok h)) :
      Presents s ref h

/-- The named parts of a cell that no hook takes over. -/
inductive NamedParts (s : Store) (ref : Ref) : List (String × Value) → Prop
  | record {tag : Value} {fields : List (String × Value)} (cell : s.cell ref = .record tag fields)
      (plain : s.tagDeparture? tag = none) : NamedParts s ref fields
  | module {name : String} {members : List (String × Value)}
      (cell : s.cell ref = .module name members) : NamedParts s ref members
  | attributes {extension : Extension} {attributes : Attributes} {fields : List (String × Value)}
      (cell : s.cell ref = .extension extension) (plain : extension.departure = none)
      (has : extension.attributes = some attributes)
      (listed : attributeEntries attributes = .ok fields) : NamedParts s ref fields

/-- The host form of a cell, given what its parts become. -/
inductive Assembles (s : Store) (part : Value → HostValue → Prop) (ref : Ref) : HostValue → Prop
  | sequence {items : List Value} {trees : List HostValue}
      (anatomy : s.anatomy ref = .sequence items) (each : List.Forall₂ part items trees) :
      Assembles s part ref (.list trees)
  | keyed {entries : List (Value × Value)} {pairs : List (HostValue × HostValue)}
      (anatomy : s.anatomy ref = .keyed entries)
      (each : List.Forall₂ (fun entry pair => part entry.1 pair.1 ∧ part entry.2 pair.2) entries
        pairs) : Assembles s part ref (.ofPairs pairs)
  | named {fields : List (String × Value)} {named : List (String × HostValue)}
      (parts : s.NamedParts ref fields)
      (each : List.Forall₂ (fun field entry => field.1 = entry.1 ∧ part field.2 entry.2) fields
        named) : Assembles s part ref (.ofEntries named)
  | presented {h : HostValue} (presents : s.Presents ref h) : Assembles s part ref h
  | handle {native : Native} (cell : s.cell ref = .proxy native) :
      Assembles s part ref (.native native)

theorem Assembles.imp {part part' : Value → HostValue → Prop} (assembles : s.Assembles part ref h)
    (more : ∀ v h, part v h → part' v h) : s.Assembles part' ref h := by
  cases assembles with
  | sequence anatomy each => exact .sequence anatomy (each.imp more)
  | keyed anatomy each =>
    exact .keyed anatomy (each.imp fun _ _ both => ⟨more _ _ both.1, more _ _ both.2⟩)
  | named parts each => exact .named parts (each.imp fun _ _ both => ⟨both.1, more _ _ both.2⟩)
  | presented presents => exact .presented presents
  | handle cell => exact .handle cell

section Cell

variable {part : Value → Except Fault HostValue} {typeName : String}

theorem mapM_ok_iff {α β : Type} {f : α → Except Fault β} {items : List α} {results : List β} :
    items.mapM f = .ok results ↔ List.Forall₂ (fun a b => f a = .ok b) items results := by
  constructor
  · intro made
    rcases mapM_cases f items with ⟨others, same, each⟩ | ⟨_, _, fault, _, failed⟩
    · rw [made] at same
      cases same
      exact each
    · rw [made] at failed
      cases failed
  · intro each
    induction each with
    | nil => rfl
    | cons first _ ih =>
      rw [List.mapM_cons, first]
      change (do return _ :: (← List.mapM f _)) = _
      rw [ih]
      rfl

theorem bind_ok_iff {ε α β : Type} {result : Except ε α} {f : α → β} {b : β} :
    (do return f (← result)) = Except.ok b ↔ ∃ a, result = .ok a ∧ f a = b := by
  cases result with
  | error fault => exact ⟨nofun, nofun⟩
  | ok a =>
    constructor
    · rintro ⟨⟩
      exact ⟨a, rfl, rfl⟩
    · rintro ⟨_, ⟨⟩, rfl⟩
      rfl

theorem entryTrees_ok_iff {entry : Value × Value} {pair : HostValue × HostValue} :
    entryTrees part entry = .ok pair ↔ part entry.1 = .ok pair.1 ∧ part entry.2 = .ok pair.2 := by
  refine ⟨entryTrees_ok, fun both => ?_⟩
  rw [entryTrees, both.1, both.2]
  rfl

theorem namedTree_ok_iff {field : String × Value} {named : String × HostValue} :
    namedTree part field = .ok named ↔ field.1 = named.1 ∧ part field.2 = .ok named.2 := by
  refine ⟨namedTree_ok, fun both => ?_⟩
  rw [namedTree, both.1, both.2]
  rfl

theorem dict_ok_iff {entries : List (Value × Value)} :
    departCell.dict part entries = .ok h ↔ ∃ pairs, List.Forall₂ (fun entry pair =>
      part entry.1 = .ok pair.1 ∧ part entry.2 = .ok pair.2) entries pairs ∧ .ofPairs pairs = h := by
  change (do return .ofPairs (← entries.mapM (entryTrees part))) = Except.ok h ↔ _
  simp only [bind_ok_iff, mapM_ok_iff, entryTrees_ok_iff]

theorem named_ok_iff {fields : List (String × Value)} :
    departCell.named part fields = .ok h ↔ ∃ named, List.Forall₂ (fun field entry =>
      field.1 = entry.1 ∧ part field.2 = .ok entry.2) fields named ∧ .ofEntries named = h := by
  change (do return .ofEntries (← fields.mapM (namedTree part))) = Except.ok h ↔ _
  simp only [bind_ok_iff, mapM_ok_iff, namedTree_ok_iff]

theorem departCell_of_assembles (assembles : s.Assembles (fun v h => part v = .ok h) ref h) :
    s.departCell typeName part (s.cell ref) = .ok h := by
  cases assembles with
  | @sequence items trees anatomy each =>
    have run : s.departCell typeName part (s.cell ref) = do return .list (← items.mapM part) := by
      rw [Store.anatomy] at anatomy
      cases cell : s.cell ref <;> rw [cell] at anatomy <;> cases anatomy <;> rfl
    rw [run, bind_ok_iff]
    exact ⟨trees, mapM_ok_iff.2 each, rfl⟩
  | @keyed entries pairs anatomy each =>
    have run : s.departCell typeName part (s.cell ref) = departCell.dict part entries := by
      rw [Store.anatomy] at anatomy
      cases cell : s.cell ref <;> rw [cell] at anatomy <;> cases anatomy <;> rfl
    rw [run, dict_ok_iff]
    exact ⟨pairs, each, rfl⟩
  | @named fields named parts each =>
    have run : s.departCell typeName part (s.cell ref) = departCell.named part fields := by
      cases parts with
      | record cell plain =>
        rw [cell]
        simp only [departCell, plain]
      | module cell => rw [cell, departCell]
      | attributes cell plain has listed =>
        rw [cell]
        simp only [departCell, plain, has, listed]
        rfl
    rw [run, named_ok_iff]
    exact ⟨named, each, rfl⟩
  | presented presents =>
    cases presents with
    | own cell departure =>
      rw [cell]
      simp only [departCell, departure]
      rfl
    | tag cell departure =>
      rw [cell]
      simp only [departCell, departure]
  | handle cell => rw [cell, departCell]

theorem assembles_of_departCell (made : s.departCell typeName part (s.cell ref) = .ok h) :
    s.Assembles (fun v h => part v = .ok h) ref h := by
  cases cell : s.cell ref with
  | list items | tuple items | set items =>
    rw [cell] at made
    obtain ⟨trees, each, rfl⟩ := bind_ok_iff.1 made
    exact .sequence (by rw [Store.anatomy, cell]) (mapM_ok_iff.1 each)
  | dict entries | mapping _ dict =>
    rw [cell] at made
    obtain ⟨pairs, each, rfl⟩ := dict_ok_iff.1 made
    exact .keyed (by rw [Store.anatomy, cell]) each
  | record tag fields =>
    cases hook : s.tagDeparture? tag with
    | some result =>
      simp only [cell, departCell, hook] at made
      exact .presented (.tag cell (hook.trans (congrArg some made)))
    | none =>
      simp only [cell, departCell, hook] at made
      obtain ⟨named, each, rfl⟩ := named_ok_iff.1 made
      exact .named (.record cell hook) each
  | module name members =>
    rw [cell] at made
    obtain ⟨named, each, rfl⟩ := named_ok_iff.1 made
    exact .named (.module cell) each
  | extension extension =>
    cases hook : extension.departure with
    | some result =>
      simp only [cell, departCell, hook] at made
      cases result with
      | error message => cases made
      | ok other =>
        cases made
        exact .presented (.own cell hook)
    | none =>
      cases has : extension.attributes with
      | none =>
        simp only [cell, departCell, hook, has] at made
        cases made
      | some attributes =>
        cases listed : attributeEntries attributes with
        | error fault =>
          simp only [cell, departCell, hook, has, listed] at made
          cases made
        | ok fields =>
          simp only [cell, departCell, hook, has, listed] at made
          obtain ⟨named, each, rfl⟩ := named_ok_iff.1 made
          exact .named (.attributes cell hook has listed) each
  | proxy native =>
    rw [cell] at made
    cases made
    exact .handle cell
  | function =>
    rw [cell] at made
    cases made

end Cell

/-! ## The walk -/

/-- What a walk answers about a part of a cell, if it answers with a host value. -/
def partWithin (s : Store) (depth : Nat) (path : List Ref) (v : Value) (h : HostValue) : Prop :=
  (¬ v.identity?.any path.contains = true) ∧ s.departWithin depth path v = .ok h

theorem departWithin_succ_iff {depth : Nat} {path : List Ref} :
    s.departWithin (depth + 1) path (.object ref) = .ok h ↔
      s.Assembles (s.partWithin depth (ref :: path)) ref h := by
  have same (v : Value) (h : HostValue) : (if v.identity?.any (ref :: path).contains then
      .error (.cyclic departureName (s.typeName (.object ref)))
      else s.departWithin depth (ref :: path) v) = Except.ok h ↔
      s.partWithin depth (ref :: path) v h := by
    rw [partWithin]
    split_ifs with met
    · exact ⟨nofun, fun both => absurd met both.1⟩
    · exact (and_iff_right met).symm
  constructor
  · intro made
    exact (assembles_of_departCell made).imp fun v h => (same v h).1
  · intro assembles
    exact departCell_of_assembles (assembles.imp fun v h => (same v h).2)

/-- A walk that is inside of fewer cells and may go deeper answers the same. -/
theorem departWithin_mono {depth depth' : Nat} {path path' : List Ref} (deeper : depth ≤ depth')
    (fewer : path' ⊆ path) (made : s.departWithin depth path v = .ok h) :
    s.departWithin depth' path' v = .ok h := by
  induction depth generalizing depth' path path' v h with
  | zero =>
    cases v with
    | object ref => cases made
    | _ => cases depth' <;> exact made
  | succ depth ih =>
    obtain ⟨depth', rfl⟩ :=
      Nat.exists_eq_add_of_le' (Nat.le_trans (Nat.succ_le_succ (Nat.zero_le _)) deeper)
    cases v with
    | object ref =>
      refine departWithin_succ_iff.2 ((departWithin_succ_iff.1 made).imp fun v h both => ?_)
      have fewer : ref :: path' ⊆ ref :: path := List.cons_subset_cons ref fewer
      refine ⟨fun met => both.1 ?_, ih (Nat.le_of_succ_le_succ deeper) fewer both.2⟩
      cases same : v.identity? with
      | none => rw [same] at met; cases met
      | some r =>
        rw [same] at met
        exact List.contains_iff_mem.2 (fewer (List.contains_iff_mem.1 met))
    | _ => exact made

/-- What a cell becomes is made of what its parts become by themselves. -/
theorem depart_cases (departed : s.depart (.object ref) = .ok h) :
    s.Assembles (fun v h => s.depart v = .ok h) ref h :=
  (departWithin_succ_iff.1 departed).imp fun _ _ both =>
    departWithin_mono (Nat.le_succ _) (List.nil_subset _) both.2

end Interchange.Store
