import Interchange.Call
import Interchange.Proofs.Crossing.ArrivalConduct

/-!
# The conduct of shared mappings and of calls

Every operation of a shared mapping, its methods, and every call of a function go by steps of the
store. Where a function is run that is not known here, it is assumed to conduct itself so too
(`Op.Conducts`); the functions of a store do (`conducts_callRef`).
-/

namespace Interchange

open Store

variable {s t : Store}

/-- A way to call functions goes by steps of the store, from a store on. -/
def Op.Conducts (call : Ref → List Value → Op Value) (s : Store) : Prop :=
  ∀ function args t, s.Evolves t → (∀ v ∈ args, t.Has v) →
    (call function args).Ensures t fun v u => u.Has v

theorem Op.Conducts.later {call : Ref → List Value → Op Value} (h : Op.Conducts call s)
    (evolved : s.Evolves t) : Op.Conducts call t :=
  fun function args u later => h function args u (evolved.trans later)

namespace Mapping

variable {call : Ref → List Value → Op Value}

theorem ensures_onDict (name : String) {dict : Ref} (isLast : Dict.IsLast dict s) :
    (onDict name dict).Ensures s fun v t => t.Has v := by
  refine Op.ensures_new ⟨rfl, isLast.1, isLast.2⟩ fun v held => ?_
  rw [List.mem_singleton.1 held]
  exact has_object.2 isLast.lt_size

theorem ensures_new (name : String) : (new name).Ensures s fun v t => t.Has v :=
  Dict.ensures_alloc.bind fun _ _ _ isLast => ensures_onDict name isLast

theorem ensures_ofDict (name : String) (dict : Ref) :
    (ofDict name dict).Ensures s fun v t => t.Has v :=
  (Dict.ensures_clone dict).bind fun _ _ _ isLast => ensures_onDict name isLast

theorem ofCell?_eq_some {c : Cell} {mapping : Mapping} :
    ofCell? c = some mapping ↔ c = .mapping mapping.name mapping.dict mapping.frozen := by
  constructor
  · intro h
    cases c <;> cases h
    rfl
  · rintro rfl
    rfl

/-- What is read is the cell as it is. -/
theorem ensures_read (ref : Ref) : (read ref).Ensures s fun mapping t =>
    t = s ∧ s.cell ref = .mapping mapping.name mapping.dict mapping.frozen := by
  refine (Op.ensures_cell ref).bind fun c t _ ⟨same, same'⟩ => ?_
  subst same same'
  split
  · next found => exact Op.ensures_pure fun _ => ⟨rfl, ofCell?_eq_some.1 found⟩
  · exact Op.ensures_get.bind fun _ _ _ _ => Op.ensures_throw _

theorem ensures_checkMutable (mapping : Mapping) (op : String) :
    (mapping.checkMutable op).Ensures s fun _ t => t = s := by
  unfold checkMutable
  split
  · exact Op.ensures_throw _
  · exact Op.ensures_pure fun _ => rfl

theorem ensures_checkStorable (op : String) (v : Value) :
    (checkStorable op v).Ensures s fun _ t => t = s := by
  refine Op.ensures_get.bind fun u t _ ⟨_, same⟩ => ?_
  subst same
  exact (Op.ensures_ofExcept _).imp fun _ _ _ h => h.1

theorem ensures_get? (ref : Ref) (key : Value) :
    (get? ref key).Ensures s fun found t => ∀ v ∈ found, t.Has v :=
  (ensures_read ref).bind fun mapping _ _ _ =>
    (Dict.ensures_get? mapping.dict key).imp fun _ _ _ h => h.2

theorem ensures_entries (ref : Ref) :
    (entries ref).Ensures s fun entries t => ∀ v ∈ entryParts entries, t.Has v :=
  (ensures_read ref).bind fun mapping _ _ _ =>
    (Dict.ensures_entries mapping.dict).imp fun _ _ _ h => h.2.2

theorem ensures_keys (ref : Ref) : (keys ref).Ensures s fun keys t => ∀ v ∈ keys, t.Has v :=
  (ensures_entries ref).bind fun entries t _ has => Op.ensures_pure fun _ v isKey => by
    obtain ⟨entry, isEntry, rfl⟩ := List.mem_map.1 isKey
    exact has _ (mem_entryParts.2 ⟨entry, isEntry, .inl rfl⟩)

theorem ensures_size (ref : Ref) : (size ref).Ensures s fun _ _ => True :=
  (ensures_entries ref).bind fun _ _ _ _ => Op.ensures_pure fun _ => trivial

theorem ensures_contains (ref : Ref) (key : Value) :
    (contains ref key).Ensures s fun _ _ => True :=
  (ensures_get? ref key).bind fun _ _ _ _ => Op.ensures_pure fun _ => trivial

theorem ensures_setKey (ref : Ref) {key value : Value} (hasKey : s.Has key)
    (hasValue : s.Has value) : (setKey ref key value).Ensures s fun _ _ => True := by
  refine (ensures_read ref).bind fun mapping t first _ => ?_
  refine (ensures_checkMutable mapping _).bind fun _ u next _ => ?_
  refine (ensures_checkStorable _ value).bind fun _ w last _ => ?_
  have evolved := (first.trans next).trans last
  exact Dict.ensures_insert mapping.dict (evolved.has hasKey) (evolved.has hasValue)

theorem ensures_deleteKey (ref : Ref) (key : Value) :
    (deleteKey ref key).Ensures s fun found t => ∀ v ∈ found, t.Has v := by
  refine (ensures_read ref).bind fun mapping t _ _ => ?_
  refine (ensures_checkMutable mapping _).bind fun _ u _ _ => ?_
  exact Dict.ensures_remove mapping.dict key

theorem ensures_merge (dict : Ref) (op : String) {entries : List (Value × Value)}
    (has : ∀ v ∈ entryParts entries, s.Has v) :
    (merge dict op entries).Ensures s fun _ _ => True := by
  refine Op.ensures_forM fun entry isEntry t evolved => ?_
  refine (ensures_checkStorable op entry.2).bind fun _ u later _ => ?_
  have here := evolved.trans later
  refine Dict.ensures_insert dict (here.has (has _ ?_)) (here.has (has _ ?_))
  · exact mem_entryParts.2 ⟨entry, isEntry, .inl rfl⟩
  · exact mem_entryParts.2 ⟨entry, isEntry, .inr rfl⟩

theorem ensures_loadJson (ref : Ref) (text : String) :
    (loadJson ref text).Ensures s fun _ _ => True := by
  refine (ensures_read ref).bind fun mapping t _ _ => ?_
  refine (ensures_checkMutable mapping _).bind fun _ u _ _ => ?_
  refine (Op.ensures_dictFromJsonText text).bind fun decoded w _ _ => ?_
  refine (Dict.ensures_entries decoded).bind fun entries x _ found => ?_
  exact ensures_merge mapping.dict _ found.2.2

theorem ensures_cloneDict (ref : Ref) : (cloneDict ref).Ensures s fun v t => t.Has v :=
  (ensures_read ref).bind fun mapping _ _ _ => (Dict.ensures_clone mapping.dict).bind
    fun _ _ _ isLast => Op.ensures_pure fun _ => has_object.2 isLast.lt_size

theorem ensures_toJson (ref : Ref) : (toJson ref).Ensures s fun _ _ => True :=
  (ensures_cloneDict ref).bind fun _ _ _ _ => Op.ensures_get.bind fun _ _ _ _ =>
    (Op.ensures_ofExcept _).imp fun _ _ _ _ => trivial

/-- A routine on the dict of a mapping conducts itself as it does on any dict that is there. -/
theorem ensures_withDict {α : Type} {routine : Ref → Op α} {post : α → Store → Prop} (ref : Ref)
    (conduct : ∀ dict, s.Has (.object dict) → (routine dict).Ensures s post) :
    (withDict routine ref).Ensures s post := by
  refine .of_closed fun closed => (ensures_read ref).bind fun mapping t _ ⟨same, cell⟩ => ?_
  subst same
  refine conduct mapping.dict (closed ref _ ?_)
  rw [cell]
  exact List.mem_cons_self

theorem ensures_perform (conducts : Op.Conducts call s) (ref function : Ref) :
    (perform call ref function).Ensures s fun v t => t.Has v :=
  ensures_withDict ref fun dict has => conducts function _ s (.refl s) fun v isArgument => by
    rwa [List.mem_singleton.1 isArgument]

theorem ensures_setDefault (ref : Ref) {key fallback : Value} (hasKey : s.Has key)
    (hasFallback : s.Has fallback) :
    (setDefault ref key fallback).Ensures s fun v t => t.Has v := by
  refine (ensures_read ref).bind fun mapping t first _ => ?_
  refine (Dict.ensures_get? mapping.dict key).bind fun found u next ⟨_, has⟩ => ?_
  cases found with
  | some existing => exact Op.ensures_pure fun _ => has existing rfl
  | none =>
    refine (ensures_checkMutable mapping _).bind fun _ w third _ => ?_
    refine (ensures_checkStorable _ fallback).bind fun _ x fourth _ => ?_
    have evolved := (first.trans next).trans (third.trans fourth)
    refine (Dict.ensures_insert mapping.dict (evolved.has hasKey) (evolved.has hasFallback)).bind
      fun _ y last _ => Op.ensures_pure fun _ => last.has (evolved.has hasFallback)

theorem ensures_update (ref other : Ref) : (update ref other).Ensures s fun _ _ => True := by
  refine (ensures_read ref).bind fun mapping t _ _ => ?_
  refine (ensures_checkMutable mapping _).bind fun _ u _ _ => ?_
  refine (Dict.ensures_entries other).bind fun entries w _ found => ?_
  exact ensures_merge mapping.dict _ found.2.2

theorem ensures_clear (ref : Ref) : (clear ref).Ensures s fun _ _ => True := by
  refine (ensures_read ref).bind fun mapping t _ _ => ?_
  refine (ensures_checkMutable mapping _).bind fun _ u _ _ => ?_
  exact Dict.ensures_clear mapping.dict

/-! ## Methods -/

theorem ensures_pop (ref : Ref) (key : Value) {fallback : Option Value}
    (has : ∀ v ∈ fallback, s.Has v) : (pop ref key fallback).Ensures s fun v t => t.Has v := by
  refine (ensures_deleteKey ref key).bind fun found t evolved hasFound => ?_
  cases found with
  | some v => exact Op.ensures_pure fun _ => hasFound v rfl
  | none =>
    cases fallback with
    | some v => exact Op.ensures_pure fun _ => evolved.has (has v rfl)
    | none => exact (Op.ensures_display key).bind fun _ _ _ _ => Op.ensures_throw _

theorem ensures_itemPairs (ref : Ref) : (itemPairs ref).Ensures s fun v t => t.Has v := by
  refine (ensures_entries ref).bind fun entries t _ has => ?_
  refine (Op.ensures_mapM (fun v t => t.Has v) (fun entry isEntry u evolved => ?_)
    fun _ _ _ later here => later.has here).bind fun pairs u _ all => ValueList.ensures_new all
  refine Op.ensures_new trivial fun v held => ?_
  rcases List.mem_cons.1 held with rfl | isValue
  · exact evolved.has (has _ (mem_entryParts.2 ⟨entry, isEntry, .inl rfl⟩))
  · rw [List.mem_singleton.1 isValue]
    exact evolved.has (has _ (mem_entryParts.2 ⟨entry, isEntry, .inr rfl⟩))

theorem has_getD {v : Value} {args : List Value} (has : ∀ v ∈ args, s.Has v) (index : Nat)
    (hasDefault : s.Has v) : s.Has (args.getD index v) := by
  rw [List.getD_eq_getElem?_getD]
  cases found : args[index]? with
  | none => exact hasDefault
  | some w => exact has w (List.mem_of_getElem? found)

theorem has_headD {v : Value} {args : List Value} (has : ∀ v ∈ args, s.Has v)
    (hasDefault : s.Has v) : s.Has (args.headD v) := by
  cases args with
  | nil => exact hasDefault
  | cons w _ => exact has w List.mem_cons_self

theorem ensures_run (conducts : Op.Conducts call s) (ref : Ref) (method : Method)
    {args : List Value} (has : ∀ v ∈ args, s.Has v) :
    (run call ref method args).Ensures s fun v t => t.Has v := by
  have hasNothing (t : Store) : t.Has .nothing := has_of_scalar rfl
  have hasFirst : s.Has (args.headD .nothing) := has_headD has (hasNothing s)
  have hasSecond : s.Has (args.getD 1 .nothing) := has_getD has 1 (hasNothing s)
  refine (Op.ensures_ofExcept _).bind fun _ t _ ⟨same, _⟩ => ?_
  subst same
  cases method with
  | clear =>
    exact (ensures_clear ref).bind fun _ _ _ _ => Op.ensures_pure fun _ => hasNothing _
  | fromJson =>
    refine Op.ensures_get.bind fun u _ _ _ => (Op.ensures_ofExcept _).bind fun text _ _ _ => ?_
    exact (ensures_loadJson ref text).bind fun _ _ _ _ => Op.ensures_pure fun _ => hasNothing _
  | get =>
    refine (ensures_get? ref _).bind fun found u evolved hasFound => Op.ensures_pure fun _ => ?_
    cases found with
    | some v => exact hasFound v rfl
    | none => exact evolved.has hasSecond
  | items => exact ensures_itemPairs ref
  | keys => exact (ensures_keys ref).bind fun _ _ _ all => ValueList.ensures_new all
  | size =>
    exact (ensures_size ref).bind fun _ _ _ _ => Op.ensures_pure fun _ => has_of_scalar rfl
  | perform =>
    refine Op.ensures_get.bind fun u _ first _ => ?_
    refine (Op.ensures_ofExcept _).bind fun function _ next _ => ?_
    exact ensures_perform (conducts.later (first.trans next)) ref function
  | pop =>
    exact ensures_pop ref _ fun v found => has v (List.mem_of_getElem? found)
  | setDefault => exact ensures_setDefault ref hasFirst hasSecond
  | toDict => exact ensures_cloneDict ref
  | toJson =>
    exact (ensures_toJson ref).bind fun _ _ _ _ => Op.ensures_pure fun _ => has_of_scalar rfl
  | update =>
    refine Op.ensures_get.bind fun u _ _ _ => (Op.ensures_ofExcept _).bind fun other _ _ _ => ?_
    cases other with
    | some other =>
      exact (ensures_update ref other).bind fun _ _ _ _ => Op.ensures_pure fun _ => hasNothing _
    | none => exact Op.ensures_pure fun _ => hasNothing _
  | values =>
    refine (ensures_entries ref).bind fun entries u _ hasParts => ValueList.ensures_new ?_
    intro v isValue
    obtain ⟨entry, isEntry, rfl⟩ := List.mem_map.1 isValue
    exact hasParts _ (mem_entryParts.2 ⟨entry, isEntry, .inr rfl⟩)

end Mapping

/-! ## Attributes -/

namespace Op

theorem ensures_bind (mapping : Ref) (name : String) (method : Method)
    (inside : s.Has (.object mapping)) :
    (bind mapping name method).Ensures s fun v t => t.Has v :=
  ensures_new trivial fun v held => by rwa [List.mem_singleton.1 held]

theorem lookup_has {parts : List (String × Value)} (has : ∀ v ∈ parts.map Prod.snd, s.Has v)
    (name : String) : ∀ v ∈ parts.lookup name, s.Has v := by
  intro v found
  obtain ⟨before, after, rfl, -⟩ := List.lookup_eq_some_iff.1 found
  exact has v (List.mem_map_of_mem (f := Prod.snd) (a := (name, v)) (by simp))

theorem ensures_attributeOf? (v : Value) (name : String) :
    (attributeOf? v name).Ensures s fun found t => ∀ w ∈ found, t.Has w := by
  unfold attributeOf?
  cases v with
  | object ref =>
    refine (ensures_cell ref).bind fun c t _ ⟨same, same'⟩ => ?_
    subst same same'
    cases cell : t.cell ref with
    | record tag fields =>
      refine ensures_pure fun closed => lookup_has (fun w isField => closed ref w ?_) name
      rw [cell]
      exact List.mem_cons_of_mem _ isField
    | module _ members =>
      refine ensures_pure fun closed => lookup_has (fun w isMember => closed ref w ?_) name
      rw [cell]
      exact isMember
    | mapping mappingName dict frozen =>
      have inside : t.Has (.object ref) := by
        refine has_object.2 (lt_size_of_isContainer ?_)
        rw [cell]
        rfl
      simp only
      split
      · next method _ =>
        exact (ensures_bind ref mappingName method inside).bind fun w u _ has =>
          ensures_pure fun _ x found => by cases found; exact has
      · exact ensures_pure fun _ _ found => by cases found
    | extension e =>
      obtain ⟨typeName, display, truth, hashable, attributes, departure, contents⟩ := e
      cases attributes with
      | none => exact ensures_pure fun _ _ found => by cases found
      | some attributes =>
        change (extensionAttribute? attributes name).Ensures t _
        unfold extensionAttribute?
        split
        · exact ensures_throw _
        · refine ensures_pure fun closed => lookup_has (fun w isValue => closed ref w ?_) name
          rw [cell]
          exact List.mem_append_left _ isValue
    | list | tuple | set | dict | function | proxy =>
      exact ensures_pure fun _ _ found => by cases found
  | nothing | bool | int | float | string | bytes | time =>
    exact ensures_pure fun _ _ found => by cases found

end Op

/-! ## Calls -/

namespace Arguments

theorem unpack_of_unpackAt {function : String} {shape : Shape} {v : Value} {index : Nat}
    {held : shape.Carrier} (h : unpackAt s function shape v index = .ok held) :
    s.unpack shape v = .ok held := by
  unfold unpackAt at h
  cases taken : s.unpack shape v with
  | ok other =>
    rw [taken] at h
    exact congrArg Except.ok (Except.ok.inj h)
  | error mismatch =>
    rw [taken] at h
    cases h

/-- A dict that is taken from arguments is among them. -/
theorem mem_of_required {function : String} {args : List Value} {index : Nat} {dict : Ref}
    (h : required s function .dict args index = .ok dict) : .object dict ∈ args := by
  unfold required at h
  cases found : args[index]? with
  | none =>
    rw [found] at h
    cases h
  | some v =>
    rw [found] at h
    have isDict : v = .object dict := eq_object_of_unpackCell (unpack_of_unpackAt h)
    rw [← isDict]
    exact List.mem_of_getElem? found

end Arguments

namespace Edit

theorem ensures_increase (dict : Ref) {key : Value} (hasKey : s.Has key) :
    (increase dict key).Ensures s fun _ _ => True := by
  refine (Dict.ensures_get? dict key).bind fun found t first _ => ?_
  refine Op.ensures_get.bind fun u _ second _ => ?_
  refine (Op.ensures_ofExcept _).bind fun count w third _ => ?_
  have evolved := (first.trans second).trans third
  exact Dict.ensures_insert dict (evolved.has hasKey) (has_of_scalar rfl)

theorem ensures_run {dict : Ref} (inside : s.Has (.object dict)) (edit : Edit)
    (has : ∀ v ∈ edit.operands, s.Has v) : (edit.run dict).Ensures s fun v t => t.Has v := by
  have hasNothing (t : Store) : t.Has .nothing := has_of_scalar rfl
  have getD {found : Option Value} (t : Store) (has : ∀ v ∈ found, t.Has v) :
      t.Has (found.getD .nothing) := by
    cases found with
    | some v => exact has v rfl
    | none => exact hasNothing t
  cases edit with
  | insert key value =>
    exact (Dict.ensures_insert dict (has key List.mem_cons_self)
      (has value (List.mem_cons_of_mem _ List.mem_cons_self))).bind
      fun _ _ _ _ => Op.ensures_pure fun _ => hasNothing _
  | insertSelf key =>
    exact (Dict.ensures_insert dict (has key List.mem_cons_self) inside).bind
      fun _ _ _ _ => Op.ensures_pure fun _ => hasNothing _
  | remove key =>
    exact (Dict.ensures_remove dict key).bind fun _ t _ found =>
      Op.ensures_pure fun _ => getD t found
  | lookup key =>
    exact (Dict.ensures_get? dict key).bind fun _ t _ found =>
      Op.ensures_pure fun _ => getD t found.2
  | clear =>
    exact (Dict.ensures_clear dict).bind fun _ _ _ _ => Op.ensures_pure fun _ => hasNothing _
  | size =>
    exact (Dict.ensures_size dict).bind fun _ _ _ _ => Op.ensures_pure fun _ => has_of_scalar rfl
  | freeze =>
    exact (Op.ensures_freeze _).bind fun _ _ _ _ => Op.ensures_pure fun _ => hasNothing _
  | display =>
    exact (Op.ensures_display _).bind fun _ _ _ _ => Op.ensures_pure fun _ => has_of_scalar rfl
  | increment key =>
    exact (ensures_increase dict (has key List.mem_cons_self)).bind fun _ _ _ _ =>
      Op.ensures_pure fun _ => hasNothing _
  | unknown word => exact Op.ensures_throw _

/-- Edits are done one after the other. -/
theorem ensures_all {dict : Ref} (inside : s.Has (.object dict)) (steps : List Edit)
    (has : ∀ v ∈ steps.flatMap operands, s.Has v) :
    (steps.mapM (run dict)).Ensures s fun results t => ∀ v ∈ results, t.Has v :=
  Op.ensures_mapM (fun v t => t.Has v)
    (fun edit isEdit _ later => ensures_run (later.has inside) edit fun v isOperand =>
      later.has (has v (List.mem_flatMap.2 ⟨edit, isEdit, isOperand⟩)))
    fun _ _ _ later here => later.has here

end Edit

theorem LibraryFunction.ensures_run (function : LibraryFunction) (args : List Value) :
    (function.run args).Ensures s fun v t => t.Has v := by
  refine (Op.ensures_ofExcept _).bind fun _ t _ _ => Op.ensures_get.bind fun u w _ _ => ?_
  cases function with
  | encode =>
    refine (Op.ensures_ofExcept _).bind fun indent x _ _ => ?_
    cases indent with
    | some indent =>
      exact (Op.ensures_ofExcept _).bind fun _ _ _ _ => Op.ensures_pure fun _ => has_of_scalar rfl
    | none =>
      exact (Op.ensures_ofExcept _).bind fun _ _ _ _ => Op.ensures_pure fun _ => has_of_scalar rfl
  | decode => exact (Op.ensures_ofExcept _).bind fun text _ _ _ => Op.ensures_fromJsonText _
  | sum =>
    refine (Op.ensures_ofExcept _).bind fun list x _ _ => ?_
    split
    · next total _ =>
      refine Op.ensures_pure fun _ => has_of_scalar ?_
      cases total <;> rfl
    · exact Op.ensures_throw _
  | truncate =>
    exact (Op.ensures_ofExcept _).bind fun _ _ _ _ => Op.ensures_pure fun _ => has_of_scalar rfl
  | byteLength =>
    exact (Op.ensures_ofExcept _).bind fun _ _ _ _ => Op.ensures_pure fun _ => has_of_scalar rfl
  | now => exact Op.ensures_pure fun _ => has_of_scalar rfl

/-- No function is run, and a fault is all there is. -/
theorem Op.ensures_notCallable (ref : Ref) : (notCallable ref).Ensures s fun v t => t.Has v :=
  ensures_get.bind fun _ _ _ _ => ensures_throw _

theorem Function.ensures_runWith {inner : Ref → List Value → Op Value}
    (conducts : Op.Conducts inner s) (function : Function)
    (hasOperands : ∀ v ∈ function.routine.operands, s.Has v) {args : List Value}
    (has : ∀ v ∈ args, s.Has v) :
    (function.runWith inner args).Ensures s fun v t => t.Has v := by
  unfold runWith
  cases routine : function.routine with
  | constant v =>
    refine Op.ensures_pure fun _ => hasOperands v ?_
    rw [routine]
    exact List.mem_cons_self
  | failure message => exact Op.ensures_throw _
  | argument index => exact Op.ensures_pure fun _ => Mapping.has_getD has index (has_of_scalar rfl)
  | gather => exact ValueList.ensures_new has
  | edits steps =>
    refine Op.ensures_get.bind fun u t first ⟨same, same'⟩ => ?_
    subst same same'
    refine (Op.ensures_ofExcept _).bind fun dict w next ⟨_, taken⟩ => ?_
    have inside : w.Has (.object dict) := next.has (has _ (Arguments.mem_of_required taken))
    rw [routine] at hasOperands
    exact (Edit.ensures_all inside steps fun v isOperand =>
      next.has (hasOperands v isOperand)).bind fun results x _ all => ValueList.ensures_new all
  | library function => exact function.ensures_run args
  | method mapping method => exact Mapping.ensures_run conducts mapping method has

namespace Op

theorem ensures_callWith {inner : Ref → List Value → Op Value} (conducts : Conducts inner s)
    (ref : Ref) {args : List Value} (has : ∀ v ∈ args, s.Has v) :
    (callWith inner ref args).Ensures s fun v t => t.Has v := by
  refine .of_closed fun closed => (ensures_cell ref).bind fun c t _ ⟨same, same'⟩ => ?_
  subst same same'
  split
  · next function cell =>
    refine function.ensures_runWith conducts (fun v isOperand => closed ref v ?_) has
    rwa [cell]
  · exact ensures_notCallable ref

/-- The functions of a store conduct themselves. -/
theorem conducts_callRef (s : Store) : Conducts callRef s := fun function _ _ _ has =>
  ensures_callWith (fun inner _ _ _ hasInner =>
    ensures_callWith (fun innermost _ _ _ _ => ensures_notCallable innermost) inner hasInner)
    function has

end Op

end Interchange
