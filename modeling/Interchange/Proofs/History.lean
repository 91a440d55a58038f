import Interchange.Proofs.Script.Evaluation
import Interchange.Proofs.Store.Sound

/-!
# Histories

What can become of a store while it is in use (`Store.History`): any calls of the embedding side in
any order, on any cells, the dict under a shared mapping among them; methods of mappings, bound or
called by scripts; functions that work on the dict of a mapping and may do all of this themselves;
and whole scripts. A history is made of steps (`History.evolves`), so a store in use stays sound
(`Reachable.sound`).
-/

namespace Interchange

/-- A call of the embedding side that changes the store by itself. Calls that only read leave the
store as it is, and those that run a function of the caller are parts of a history of their own. -/
inductive Action where
  | newList (items : List Value)
  | newTuple (items : List Value)
  | newSet (items : List Value)
  | newDict (entries : List (Value × Value))
  | newRecord (tag : Value) (fields : List (String × Value))
  | newModule (name : String) (members : List (String × Value))
  | newFunction (function : Function)
  | newExtension (extension : Extension)
  | arrive (host : HostValue)
  | decode (text : String)
  | push (list : Ref) (item : Value)
  | assign (list : Ref) (index : Nat) (item : Value)
  | popItem (list : Ref)
  | copyList (list : Ref)
  | enter (set : Ref) (item : Value)
  | insert (dict : Ref) (key value : Value)
  | remove (dict : Ref) (key : Value)
  | clear (dict : Ref)
  | copyDict (dict : Ref)
  | freeze (v : Value)
  | newMapping (name : String)
  | mappingOf (name : String) (dict : Ref)
  | setKey (mapping : Ref) (key value : Value)
  | deleteKey (mapping : Ref) (key : Value)
  | loadJson (mapping : Ref) (text : String)
  | toJson (mapping : Ref)
  | cloneDict (mapping : Ref)
  | attributeOf (v : Value) (name : String)
  | call (function : Ref) (args : List Value)

namespace Action

/-- Does what the action says; what it answers is left aside. -/
def run : Action → Op Unit
  | newList items => do let _ ← ValueList.new items
  | newTuple items => do let _ ← Op.new (.tuple items)
  | newSet items => do let _ ← ValueSet.ofItems items
  | newDict entries => do let _ ← Dict.ofEntries entries
  | newRecord tag fields => do let _ ← Op.newRecord tag fields
  | newModule name members => do let _ ← Op.newModule name members
  | newFunction function => do let _ ← Op.new (.function function)
  | newExtension extension => do let _ ← Op.new (.extension extension)
  | arrive host => do let _ ← host.arrive
  | decode text => do let _ ← Op.fromJsonText text
  | push list item => ValueList.push list item
  | assign list index item => ValueList.set list index item
  | popItem list => do let _ ← ValueList.pop list
  | copyList list => do let _ ← ValueList.clone list
  | enter set item => do let _ ← ValueSet.insert set item
  | insert dict key value => Dict.insert dict key value
  | remove dict key => do let _ ← Dict.remove dict key
  | clear dict => Dict.clear dict
  | copyDict dict => do let _ ← Dict.clone dict
  | freeze v => Op.freeze v
  | newMapping name => do let _ ← Mapping.new name
  | mappingOf name dict => do let _ ← Mapping.ofDict name dict
  | setKey mapping key value => Mapping.setKey mapping key value
  | deleteKey mapping key => do let _ ← Mapping.deleteKey mapping key
  | loadJson mapping text => Mapping.loadJson mapping text
  | toJson mapping => do let _ ← Mapping.toJson mapping
  | cloneDict mapping => do let _ ← Mapping.cloneDict mapping
  | attributeOf v name => do let _ ← Op.attributeOf? v name
  | call function args => do let _ ← Op.callRef function args

/-- The values that an action brings along. -/
def operands : Action → List Value
  | newList items => items
  | newTuple items => items
  | newSet items => items
  | newDict entries => entryParts entries
  | newRecord tag fields => tag :: fields.map Prod.snd
  | newModule _ members => members.map Prod.snd
  | newFunction function => function.routine.operands
  | newExtension extension => extension.attributeValues ++ extension.contents.toList
  | push _ item => [item]
  | assign _ _ item => [item]
  | enter _ item => [item]
  | insert _ key value => [key, value]
  | setKey _ key value => [key, value]
  | call _ args => args
  | _ => []

/-- The store has what an action brings along. -/
def Fits (action : Action) (s : Store) : Prop :=
  (∀ v ∈ action.operands, s.Has v) ∧ ∀ host, action = arrive host → host.Rooted s

end Action

open Script (Session)

namespace Store

/-- What can become of a store in use. A function that is called on the way may do the same as
anyone else, and what it answers is there. -/
inductive History : Store → Store → Prop
  | refl (s : Store) : History s s
  | trans {s m t : Store} (first : History s m) (next : History m t) : History s t
  | act {s : Store} (action : Action) (fits : action.Fits s) : History s (action.run.runOn s).2
  /-- The embedding side works on the dict of a mapping. -/
  | withDict {s : Store} {α : Type} (routine : Ref → Op α) (mapping : Ref)
      (within : ∀ dict, s.Has (.object dict) → History s ((routine dict).runOn s).2) :
      History s ((Mapping.withDict routine mapping).runOn s).2
  /-- A bound method of a mapping is called. -/
  | method {s : Store} (call : Ref → List Value → Op Value) (mapping : Ref) (method : Method)
      (args : List Value) (has : ∀ v ∈ args, s.Has v)
      (within : ∀ function args u, s.Evolves u → (∀ v ∈ args, u.Has v) →
        History u ((call function args).runOn u).2)
      (answers : ∀ function args u v, s.Evolves u → (∀ v ∈ args, u.Has v) →
        ((call function args).runOn u).1 = .ok v → ((call function args).runOn u).2.Has v) :
      History s ((Mapping.run call mapping method args).runOn s).2
  /-- A script calls a method of a mapping. -/
  | scriptMethod {s : Session} (call : Script.Caller) (mapping : Ref)
      (method : Script.MappingMethod) (args : List Script.Datum)
      (within : ∀ function d args u, s.store.Evolves u.store →
        History u.store ((call function d args).runIn u).2.store) :
      History s.store ((Script.runMethod call mapping method args).runIn s).2.store
  /-- A script is run. -/
  | script {s : Session} (object : String) (statements : List Script.Statement) :
      History s.store ((Script.executeAll object statements).runIn s).2.store
  /-- A statement is run for its value. -/
  | scriptValue {s : Session} (object : String) (statement : Script.Statement) :
      History s.store ((Script.executeForValue object statement).runIn s).2.store
  /-- A function of a script is called. -/
  | scriptCall {s : Session} (name : String) (args : List Value) :
      History s.store ((Script.callGlobal name args).runIn s).2.store

/-- A store that came about from one without cells. -/
def Reachable (s : Store) : Prop := ∃ start : Store, start.size = 0 ∧ History start s

end Store

/-! ## Histories are made of steps -/

namespace Action

variable {s : Store}

/-- An operation whose answer is left aside. -/
theorem ensures_aside {α : Type} {op : Op α} {post : α → Store → Prop} (h : op.Ensures s post) :
    (do let _ ← op : Op Unit).Ensures s fun _ _ => True :=
  h.bind fun _ _ _ _ => Op.ensures_pure fun _ => trivial

theorem ensures_run (action : Action) (fits : action.Fits s) :
    action.run.Ensures s fun _ _ => True := by
  obtain ⟨has, rooted⟩ := fits
  cases action with
  | newList items => exact ensures_aside (ValueList.ensures_new has)
  | newTuple items => exact ensures_aside (Op.ensures_new trivial has)
  | newSet items => exact ensures_aside (ValueSet.ensures_ofItems has)
  | newDict entries => exact ensures_aside (Dict.ensures_ofEntries has)
  | newRecord tag fields =>
    exact ensures_aside (Op.ensures_newRecord (has tag List.mem_cons_self)
      fun v isField => has v (List.mem_cons_of_mem _ isField))
  | newModule name members => exact ensures_aside (Op.ensures_newModule name has)
  | newFunction function => exact ensures_aside (Op.ensures_new trivial has)
  | newExtension extension => exact ensures_aside (Op.ensures_new trivial has)
  | arrive host => exact ensures_aside ((rooted host rfl).arrives s (.refl s))
  | decode text => exact ensures_aside (Op.ensures_fromJsonText text)
  | push list item => exact ValueList.ensures_push list (has item List.mem_cons_self)
  | assign list index item => exact ValueList.ensures_set list index (has item List.mem_cons_self)
  | popItem list => exact ensures_aside (ValueList.ensures_pop list)
  | copyList list => exact ensures_aside (ValueList.ensures_clone list)
  | enter set item => exact ensures_aside (ValueSet.ensures_insert set (has item List.mem_cons_self))
  | insert dict key value =>
    exact Dict.ensures_insert dict (has key List.mem_cons_self)
      (has value (List.mem_cons_of_mem _ List.mem_cons_self))
  | remove dict key => exact ensures_aside (Dict.ensures_remove dict key)
  | clear dict => exact Dict.ensures_clear dict
  | copyDict dict => exact ensures_aside (Dict.ensures_clone dict)
  | freeze v => exact Op.ensures_freeze v
  | newMapping name => exact ensures_aside (Mapping.ensures_new name)
  | mappingOf name dict => exact ensures_aside (Mapping.ensures_ofDict name dict)
  | setKey mapping key value =>
    exact Mapping.ensures_setKey mapping (has key List.mem_cons_self)
      (has value (List.mem_cons_of_mem _ List.mem_cons_self))
  | deleteKey mapping key => exact ensures_aside (Mapping.ensures_deleteKey mapping key)
  | loadJson mapping text => exact Mapping.ensures_loadJson mapping text
  | toJson mapping => exact ensures_aside (Mapping.ensures_toJson mapping)
  | cloneDict mapping => exact ensures_aside (Mapping.ensures_cloneDict mapping)
  | attributeOf v name => exact ensures_aside (Op.ensures_attributeOf? v name)
  | call function args =>
    exact ensures_aside (Op.conducts_callRef s function args s (.refl s) has)

end Action

namespace Store

variable {s t : Store}

/-- A history is made of steps, and keeps names distinct. -/
theorem History.proceeds (h : History s t) (closed : s.Closed) : s.Proceeds t := by
  induction h with
  | refl s => exact .refl s
  | trans _ _ ih ih' =>
    have first := ih closed
    exact first.trans (ih' (first.evolves.closed closed))
  | act action fits => exact (action.ensures_run fits closed).1
  | withDict routine mapping within ih =>
    have conduct : (Mapping.withDict routine mapping).Ensures _ fun _ _ => True :=
      Mapping.ensures_withDict mapping fun dict has closed =>
        ⟨ih dict has closed, fun _ _ => trivial⟩
    exact (conduct closed).1
  | method call mapping method args has within answers ih =>
    have conducts : Op.Conducts call _ := fun function args u later hasArgs closed =>
      ⟨ih function args u later hasArgs closed, fun v => answers function args u v later hasArgs⟩
    exact (Mapping.ensures_run conducts mapping method has closed).1
  | scriptMethod call mapping method args within ih =>
    have conducts : Script.Conducts call _ := fun function d args u later closed =>
      ⟨ih function d args u later closed, fun _ _ => trivial⟩
    exact (Script.ensures_runMethod conducts mapping method args closed).1
  | @script s object statements => exact (Script.steps_executeAll object statements s closed).1
  | @scriptValue s object statement =>
    exact (Script.steps_executeForValue object statement s closed).1
  | @scriptCall s name args => exact (Script.steps_callGlobal name args s closed).1

/-- A history is made of steps. -/
theorem History.evolves (h : History s t) (closed : s.Closed) : s.Evolves t :=
  (h.proceeds closed).evolves

/-- A store in use is sound. -/
theorem Reachable.sound (h : s.Reachable) : s.Sound := by
  obtain ⟨start, none, history⟩ := h
  have sound := sound_of_size_eq_zero none
  exact (history.evolves sound.closed).sound sound

/-- Names are distinct in a store in use. -/
theorem Reachable.named (h : s.Reachable) : s.Named := by
  obtain ⟨start, none, history⟩ := h
  refine (history.proceeds (sound_of_size_eq_zero none).closed).named fun ref => ?_
  rw [cell_of_size_le (none ▸ Nat.zero_le ref.index)]
  exact List.nodup_nil

theorem Reachable.later (h : s.Reachable) (history : History s t) : t.Reachable := by
  obtain ⟨start, none, before⟩ := h
  exact ⟨start, none, before.trans history⟩

/-- A store after some actions, one after the other. -/
def after (s : Store) (actions : List Action) : Store :=
  actions.foldl (fun s action => (action.run.runOn s).2) s

/-- What the actions bring along is there when they are done. -/
def FitsAll (s : Store) : List Action → Prop
  | [] => True
  | action :: rest => action.Fits s ∧ FitsAll (s.after [action]) rest

theorem Reachable.after {actions : List Action} (h : s.Reachable) (fits : s.FitsAll actions) :
    (s.after actions).Reachable := by
  induction actions generalizing s with
  | nil => exact h
  | cons action rest ih => exact ih (h.later (.act action fits.1)) fits.2

theorem reachable_empty : empty.Reachable := ⟨empty, rfl, .refl empty⟩

/-- What is done with a store in use goes by steps. -/
theorem Reachable.evolves (h : s.Reachable) (history : History s t) : s.Evolves t :=
  history.evolves h.sound.closed

end Store
end Interchange
