import Interchange.Proofs.History

/-!
# Calm operations

An operation is calm when it leaves the flag of every cell as it is (`Op.Calm`), whatever store it
is run on and whether it succeeds or fails. Only freezing sets flags: every action of the embedding
side but a freeze and a call of a function is calm (`Action.calm_run`), and so are every method of a
mapping but the one that runs a function (`Mapping.calm_run`) and every edit of a dict but a freeze
(`Edit.calm_run`).
-/

namespace Interchange

namespace Store

variable {s t m : Store}

/-- The cells of a store are still there, with their flags as they were. -/
structure SameFlags (s t : Store) : Prop where
  size_le : s.size ≤ t.size
  flag : ∀ ref, ref.index < s.size → (t.cell ref).isFrozen = (s.cell ref).isFrozen

theorem SameFlags.refl (s : Store) : s.SameFlags s := ⟨Nat.le_refl _, fun _ _ => rfl⟩

theorem SameFlags.trans (h : s.SameFlags m) (h' : m.SameFlags t) : s.SameFlags t where
  size_le := Nat.le_trans h.size_le h'.size_le
  flag := fun ref inside =>
    (h'.flag ref (Nat.lt_of_lt_of_le inside h.size_le)).trans (h.flag ref inside)

theorem sameFlags_alloc (s : Store) (c : Cell) : s.SameFlags (s.alloc c).2 where
  size_le := by
    rw [size_alloc]
    exact Nat.le_succ _
  flag := fun ref inside => by rw [cell_alloc_other s c inside]

theorem sameFlags_write {ref : Ref} {c : Cell} (same : c.isFrozen = (s.cell ref).isFrozen) :
    s.SameFlags (s.write ref c) where
  size_le := Nat.le_of_eq (size_write ..).symm
  flag := fun other inside => by
    by_cases isRef : ref = other
    · subst isRef
      rw [cell_write_self s c inside, same]
    · rw [cell_write_other s c isRef]

end Store

open Store

namespace Op

variable {α β : Type} {op : Op α} {next : α → Op β}

/-- An operation that leaves the flags of all cells as they are. -/
def Calm (op : Op α) : Prop := ∀ s : Store, s.SameFlags (op.runOn s).2

/-- What only reads is calm. -/
theorem calm_of_same (same : ∀ s : Store, (op.runOn s).2 = s) : op.Calm := fun s => by
  rw [same s]
  exact .refl s

theorem calm_pure (a : α) : (pure a : Op α).Calm := calm_of_same fun _ => rfl

theorem calm_throw (fault : Fault) : (throw fault : Op α).Calm := calm_of_same fun _ => rfl

theorem calm_get : (get : Op Store).Calm := calm_of_same fun _ => rfl

theorem calm_cell (ref : Ref) : (cell ref).Calm := calm_of_same fun _ => rfl

theorem calm_alloc (c : Cell) : (alloc c).Calm := fun s => sameFlags_alloc s c

theorem calm_new (c : Cell) : (new c).Calm := fun s => sameFlags_alloc s c

theorem Calm.bind (h : op.Calm) (h' : ∀ a, (next a).Calm) : (op >>= next).Calm := by
  intro s
  have first := h s
  rw [runOn_bind]
  rcases run : op.runOn s with ⟨fault | a, t⟩
  · rw [run] at first
    exact first
  · rw [run] at first
    exact first.trans (h' a t)

theorem calm_forM {f : α → Op PUnit} (items : List α) (each : ∀ a, (f a).Calm) :
    (items.forM f).Calm := by
  induction items with
  | nil => exact calm_pure _
  | cons a rest ih => exact (each a).bind fun _ => ih

theorem calm_mapM {f : α → Op β} (items : List α) (each : ∀ a, (f a).Calm) :
    (items.mapM f).Calm := by
  induction items with
  | nil => exact calm_pure _
  | cons a rest ih =>
    rw [List.mapM_cons]
    exact (each a).bind fun _ => ih.bind fun _ => calm_pure _

theorem calm_ofExcept (result : Except Fault α) : (ofExcept result).Calm := by
  cases result with
  | ok a => exact calm_pure a
  | error fault => exact calm_throw fault

theorem calm_display (v : Value) : (display v).Calm := by
  refine calm_get.bind fun s => ?_
  split
  · exact calm_pure _
  · exact calm_throw _

end Op

/-! ## Containers -/

namespace ValueList

theorem calm_new (items : List Value) : (new items).Calm := Op.calm_new _

theorem calm_items (list : Ref) : (items list).Calm := Op.calm_of_same fun _ => rfl

theorem calm_push (list : Ref) (item : Value) : (push list item).Calm := by
  intro s
  rw [runOn_push]
  split
  · next cell => exact sameFlags_write (by rw [cell]; rfl)
  · exact .refl s

theorem calm_set (list : Ref) (index : Nat) (item : Value) : (set list index item).Calm := by
  intro s
  rw [runOn_set]
  split
  · next cell =>
    split
    · exact sameFlags_write (by rw [cell]; rfl)
    · exact .refl s
  · exact .refl s

theorem calm_pop (list : Ref) : (pop list).Calm := by
  intro s
  rw [runOn_pop]
  split
  · next cell => exact sameFlags_write (by rw [cell]; rfl)
  · exact .refl s

theorem calm_clone (list : Ref) : (clone list).Calm := (calm_items list).bind fun _ => calm_new _

end ValueList

namespace Dict

theorem calm_alloc : alloc.Calm := Op.calm_alloc _

theorem calm_entries (dict : Ref) : (entries dict).Calm := Op.calm_of_same fun _ => rfl

theorem calm_get? (dict : Ref) (key : Value) : (get? dict key).Calm :=
  Op.calm_of_same fun _ => runOn_get?_snd dict key

theorem calm_insert (dict : Ref) (key value : Value) : (insert dict key value).Calm := by
  intro s
  rw [runOn_insert]
  split
  · next cell =>
    split
    · exact sameFlags_write (by rw [cell]; rfl)
    · exact .refl s
  · exact .refl s
  · exact .refl s

theorem calm_remove (dict : Ref) (key : Value) : (remove dict key).Calm := by
  intro s
  rw [runOn_remove]
  split
  · next cell =>
    split
    · exact sameFlags_write (by rw [cell]; rfl)
    · exact .refl s
  · exact .refl s
  · exact .refl s

theorem calm_clear (dict : Ref) : (clear dict).Calm := by
  intro s
  rw [runOn_clear]
  split
  · next cell => exact sameFlags_write (by rw [cell]; rfl)
  · exact .refl s

theorem calm_ofEntries (entries : List (Value × Value)) : (ofEntries entries).Calm :=
  calm_alloc.bind fun dict =>
    (Op.calm_forM entries fun entry => calm_insert dict entry.1 entry.2).bind fun _ =>
      Op.calm_pure dict

theorem calm_clone (dict : Ref) : (clone dict).Calm :=
  (calm_entries dict).bind fun _ => Op.calm_alloc _

end Dict

namespace ValueSet

theorem calm_insert (set : Ref) (v : Value) : (insert set v).Calm := by
  intro s
  rw [runOn_insert]
  split
  · next cell =>
    split
    · split
      · exact .refl s
      · exact sameFlags_write (by rw [cell]; rfl)
    · exact .refl s
  · exact .refl s
  · exact .refl s

theorem calm_ofItems (values : List Value) : (ofItems values).Calm :=
  (Op.calm_alloc _).bind fun set =>
    (Op.calm_forM values fun v => (calm_insert set v).bind fun _ => Op.calm_pure _).bind fun _ =>
      Op.calm_pure set

end ValueSet

/-! ## Arrivals -/

theorem Op.calm_arriveNative (handle : Native) : (arriveNative handle).Calm := by
  unfold arriveNative
  cases handle.isNil with
  | true => exact calm_of_same fun _ => rfl
  | false =>
    cases handle.presentation with
    | some result =>
      cases result with
      | ok v => exact calm_pure _
      | error message => exact calm_throw _
    | none =>
      cases handle.proxied with
      | true => exact calm_new _
      | false => exact calm_throw _

namespace HostValue

mutual

theorem calm_arrive : (h : HostValue) → h.arrive.Calm
  | .null => Op.calm_pure _
  | .bool _ => Op.calm_pure _
  | .int _ => Op.calm_pure _
  | .wide _ => Op.calm_pure _
  | .float _ => Op.calm_pure _
  | .string _ => Op.calm_pure _
  | .bytes _ => Op.calm_pure _
  | .time _ => Op.calm_pure _
  | .list items => (calm_arriveItems items).bind fun _ => ValueList.calm_new _
  | .map entries => Dict.calm_alloc.bind fun dict =>
      (calm_arriveEntries dict entries).bind fun _ => Op.calm_pure _
  | .pairs entries => Dict.calm_alloc.bind fun dict =>
      (calm_arrivePairs dict entries).bind fun _ => Op.calm_pure _
  | .native handle => Op.calm_arriveNative handle

theorem calm_arriveItems : (items : List HostValue) → (arriveItems items).Calm
  | [] => Op.calm_pure _
  | item :: rest => (calm_arrive item).bind fun _ => (calm_arriveItems rest).bind fun _ =>
      Op.calm_pure _

theorem calm_arriveEntries (dict : Ref) :
    (entries : List (String × HostValue)) → (arriveEntries dict entries).Calm
  | [] => Op.calm_pure _
  | (_, item) :: rest => (calm_arrive item).bind fun _ => (Dict.calm_insert dict _ _).bind fun _ =>
      calm_arriveEntries dict rest

theorem calm_arrivePairs (dict : Ref) :
    (entries : List (HostValue × HostValue)) → (arrivePairs dict entries).Calm
  | [] => Op.calm_pure _
  | (key, item) :: rest => (calm_arrive key).bind fun _ => (calm_arrive item).bind fun _ =>
      (Dict.calm_insert dict _ _).bind fun _ => calm_arrivePairs dict rest

end

end HostValue

namespace Op

theorem calm_fromJsonText (text : String) : (fromJsonText text).Calm := by
  unfold fromJsonText
  split
  · exact HostValue.calm_arrive _
  · exact calm_throw _

theorem calm_dictFromJsonText (text : String) : (dictFromJsonText text).Calm := by
  refine (calm_fromJsonText text).bind fun v => calm_get.bind fun s => ?_
  split
  · exact calm_pure _
  · exact calm_throw _

theorem calm_attributeOf? (v : Value) (name : String) : (attributeOf? v name).Calm := by
  cases v with
  | object ref =>
    refine (calm_cell ref).bind fun c => ?_
    split
    · exact calm_pure _
    · exact calm_pure _
    · split
      · exact (calm_new _).bind fun _ => calm_pure _
      · exact calm_pure _
    · unfold extensionAttribute?
      split
      · exact calm_throw _
      · exact calm_pure _
    · exact calm_pure _
  | _ => exact calm_pure _

end Op

/-! ## Mappings -/

namespace Mapping

theorem calm_new (name : String) : (new name).Calm := Dict.calm_alloc.bind fun _ => Op.calm_new _

theorem calm_ofDict (name : String) (dict : Ref) : (ofDict name dict).Calm :=
  (Dict.calm_clone dict).bind fun _ => Op.calm_new _

theorem runOn_read_snd (ref : Ref) (s : Store) : ((read ref).runOn s).2 = s := by
  rw [read, Op.runOn_bind, Op.runOn_cell]
  cases found : ofCell? (s.cell ref) with
  | some mapping => simp only [found, Op.runOn_pure]
  | none => simp only [found, Op.runOn_bind, Op.runOn_get, Op.runOn_throw]

theorem calm_read (ref : Ref) : (read ref).Calm := Op.calm_of_same (runOn_read_snd ref)

theorem calm_checkMutable (mapping : Mapping) (op : String) : (mapping.checkMutable op).Calm := by
  unfold checkMutable
  split
  · exact Op.calm_throw _
  · exact Op.calm_pure _

theorem calm_checkStorable (op : String) (v : Value) : (checkStorable op v).Calm :=
  Op.calm_get.bind fun _ => Op.calm_ofExcept _

theorem calm_get? (ref : Ref) (key : Value) : (get? ref key).Calm :=
  (calm_read ref).bind fun mapping => Dict.calm_get? mapping.dict key

theorem calm_entries (ref : Ref) : (entries ref).Calm :=
  (calm_read ref).bind fun mapping => Dict.calm_entries mapping.dict

theorem calm_keys (ref : Ref) : (keys ref).Calm := (calm_entries ref).bind fun _ => Op.calm_pure _

theorem calm_size (ref : Ref) : (size ref).Calm := (calm_entries ref).bind fun _ => Op.calm_pure _

theorem calm_setKey (ref : Ref) (key value : Value) : (setKey ref key value).Calm :=
  (calm_read ref).bind fun mapping => (calm_checkMutable mapping _).bind fun _ =>
    (calm_checkStorable _ value).bind fun _ => Dict.calm_insert mapping.dict key value

theorem calm_deleteKey (ref : Ref) (key : Value) : (deleteKey ref key).Calm :=
  (calm_read ref).bind fun mapping => (calm_checkMutable mapping _).bind fun _ =>
    Dict.calm_remove mapping.dict key

theorem calm_merge (dict : Ref) (op : String) (entries : List (Value × Value)) :
    (merge dict op entries).Calm :=
  Op.calm_forM entries fun entry => (calm_checkStorable op entry.2).bind fun _ =>
    Dict.calm_insert dict entry.1 entry.2

theorem calm_loadJson (ref : Ref) (text : String) : (loadJson ref text).Calm :=
  (calm_read ref).bind fun mapping => (calm_checkMutable mapping _).bind fun _ =>
    (Op.calm_dictFromJsonText text).bind fun decoded => (Dict.calm_entries decoded).bind fun _ =>
      calm_merge mapping.dict _ _

theorem calm_cloneDict (ref : Ref) : (cloneDict ref).Calm :=
  (calm_read ref).bind fun mapping => (Dict.calm_clone mapping.dict).bind fun _ => Op.calm_pure _

theorem calm_toJson (ref : Ref) : (toJson ref).Calm :=
  (calm_cloneDict ref).bind fun _ => Op.calm_get.bind fun _ => Op.calm_ofExcept _

theorem calm_setDefault (ref : Ref) (key fallback : Value) : (setDefault ref key fallback).Calm := by
  refine (calm_read ref).bind fun mapping => (Dict.calm_get? mapping.dict key).bind fun found => ?_
  split
  · exact Op.calm_pure _
  · exact (calm_checkMutable mapping _).bind fun _ => (calm_checkStorable _ fallback).bind fun _ =>
      (Dict.calm_insert mapping.dict key fallback).bind fun _ => Op.calm_pure _

theorem calm_update (ref other : Ref) : (update ref other).Calm :=
  (calm_read ref).bind fun mapping => (calm_checkMutable mapping _).bind fun _ =>
    (Dict.calm_entries other).bind fun _ => calm_merge mapping.dict _ _

theorem calm_clear (ref : Ref) : (clear ref).Calm :=
  (calm_read ref).bind fun mapping => (calm_checkMutable mapping _).bind fun _ =>
    Dict.calm_clear mapping.dict

theorem calm_pop (ref : Ref) (key : Value) (fallback : Option Value) :
    (pop ref key fallback).Calm := by
  refine (calm_deleteKey ref key).bind fun found => ?_
  split
  · exact Op.calm_pure _
  · exact Op.calm_pure _
  · exact (Op.calm_display key).bind fun _ => Op.calm_throw _

theorem calm_itemPairs (ref : Ref) : (itemPairs ref).Calm :=
  (calm_entries ref).bind fun entries => (Op.calm_mapM entries fun _ => Op.calm_new _).bind fun _ =>
    ValueList.calm_new _

/-- Every method but the one that runs a function is calm. -/
theorem calm_run (call : Ref → List Value → Op Value) (ref : Ref) {method : Method}
    (other : method ≠ .perform) (args : List Value) : (run call ref method args).Calm := by
  refine (Op.calm_ofExcept _).bind fun _ => ?_
  cases method with
  | clear => exact (calm_clear ref).bind fun _ => Op.calm_pure _
  | fromJson =>
    exact Op.calm_get.bind fun _ => (Op.calm_ofExcept _).bind fun text =>
      (calm_loadJson ref text).bind fun _ => Op.calm_pure _
  | get => exact (calm_get? ref _).bind fun _ => Op.calm_pure _
  | items => exact calm_itemPairs ref
  | keys => exact (calm_keys ref).bind fun _ => ValueList.calm_new _
  | size => exact (calm_size ref).bind fun _ => Op.calm_pure _
  | perform => exact absurd rfl other
  | pop => exact calm_pop ref _ _
  | setDefault => exact calm_setDefault ref _ _
  | toDict => exact calm_cloneDict ref
  | toJson => exact (calm_toJson ref).bind fun _ => Op.calm_pure _
  | update =>
    refine Op.calm_get.bind fun _ => (Op.calm_ofExcept _).bind fun found => ?_
    split
    · exact (calm_update ref _).bind fun _ => Op.calm_pure _
    · exact Op.calm_pure _
  | values => exact (calm_entries ref).bind fun _ => ValueList.calm_new _

end Mapping

/-! ## Functions -/

/-- Every edit is calm but a freeze. -/
theorem Edit.calm_run (dict : Ref) {edit : Edit} (plain : edit ≠ .freeze) :
    (edit.run dict).Calm := by
  cases edit with
  | insert | insertSelf => exact (Dict.calm_insert dict _ _).bind fun _ => Op.calm_pure _
  | remove => exact (Dict.calm_remove dict _).bind fun _ => Op.calm_pure _
  | lookup => exact (Dict.calm_get? dict _).bind fun _ => Op.calm_pure _
  | clear => exact (Dict.calm_clear dict).bind fun _ => Op.calm_pure _
  | size =>
    exact ((Dict.calm_entries dict).bind fun _ => Op.calm_pure _).bind fun _ => Op.calm_pure _
  | freeze => exact absurd rfl plain
  | display => exact (Op.calm_display _).bind fun _ => Op.calm_pure _
  | increment key =>
    refine ((Dict.calm_get? dict key).bind fun _ => Op.calm_get.bind fun _ =>
      (Op.calm_ofExcept _).bind fun _ => ?_).bind fun _ => Op.calm_pure _
    exact Dict.calm_insert dict key _
  | unknown => exact Op.calm_throw _

theorem LibraryFunction.calm_run (function : LibraryFunction) (args : List Value) :
    (function.run args).Calm := by
  refine (Op.calm_ofExcept _).bind fun _ => Op.calm_get.bind fun _ => ?_
  cases function with
  | encode =>
    refine (Op.calm_ofExcept _).bind fun indent => ?_
    cases indent with
    | some => exact (Op.calm_ofExcept _).bind fun _ => Op.calm_pure _
    | none => exact (Op.calm_ofExcept _).bind fun _ => Op.calm_pure _
  | decode => exact (Op.calm_ofExcept _).bind fun _ => Op.calm_fromJsonText _
  | sum =>
    refine (Op.calm_ofExcept _).bind fun list => ?_
    split
    · exact Op.calm_pure _
    · exact Op.calm_throw _
  | truncate | byteLength => exact (Op.calm_ofExcept _).bind fun _ => Op.calm_pure _
  | now => exact Op.calm_pure _

/-! ## Actions -/

/-- Every action is calm but a freeze and the call of a function. -/
theorem Action.calm_run {action : Action} (noFreeze : ∀ v, action ≠ .freeze v)
    (noCall : ∀ function args, action ≠ .call function args) : action.run.Calm := by
  cases action with
  | newList items => exact (ValueList.calm_new items).bind fun _ => Op.calm_pure _
  | newTuple items => exact (Op.calm_new _).bind fun _ => Op.calm_pure _
  | newSet items => exact (ValueSet.calm_ofItems items).bind fun _ => Op.calm_pure _
  | newDict entries => exact (Dict.calm_ofEntries entries).bind fun _ => Op.calm_pure _
  | newRecord tag fields => exact (Op.calm_new _).bind fun _ => Op.calm_pure _
  | newModule name members => exact (Op.calm_alloc _).bind fun _ => Op.calm_pure _
  | newFunction function => exact (Op.calm_new _).bind fun _ => Op.calm_pure _
  | newExtension extension => exact (Op.calm_new _).bind fun _ => Op.calm_pure _
  | arrive host => exact (HostValue.calm_arrive host).bind fun _ => Op.calm_pure _
  | decode text => exact (Op.calm_fromJsonText text).bind fun _ => Op.calm_pure _
  | push list item => exact ValueList.calm_push list item
  | assign list index item => exact ValueList.calm_set list index item
  | popItem list => exact (ValueList.calm_pop list).bind fun _ => Op.calm_pure _
  | copyList list => exact (ValueList.calm_clone list).bind fun _ => Op.calm_pure _
  | enter set item => exact (ValueSet.calm_insert set item).bind fun _ => Op.calm_pure _
  | insert dict key value => exact Dict.calm_insert dict key value
  | remove dict key => exact (Dict.calm_remove dict key).bind fun _ => Op.calm_pure _
  | clear dict => exact Dict.calm_clear dict
  | copyDict dict => exact (Dict.calm_clone dict).bind fun _ => Op.calm_pure _
  | freeze v => exact absurd rfl (noFreeze v)
  | newMapping name => exact (Mapping.calm_new name).bind fun _ => Op.calm_pure _
  | mappingOf name dict => exact (Mapping.calm_ofDict name dict).bind fun _ => Op.calm_pure _
  | setKey mapping key value => exact Mapping.calm_setKey mapping key value
  | deleteKey mapping key => exact (Mapping.calm_deleteKey mapping key).bind fun _ => Op.calm_pure _
  | loadJson mapping text => exact Mapping.calm_loadJson mapping text
  | toJson mapping => exact (Mapping.calm_toJson mapping).bind fun _ => Op.calm_pure _
  | cloneDict mapping => exact (Mapping.calm_cloneDict mapping).bind fun _ => Op.calm_pure _
  | attributeOf v name => exact (Op.calm_attributeOf? v name).bind fun _ => Op.calm_pure _
  | call function args => exact absurd rfl (noCall function args)

end Interchange
