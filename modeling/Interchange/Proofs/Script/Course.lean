import Interchange.Proofs.Script.Copying
import Interchange.Proofs.Store.Course

/-!
# Courses of scripts

A computation in a session takes the session's store a course (`Run.Goes`) when its parts do, each from
the session in which it is run. What a script does by itself sets no flags (`Run.Calm`): it makes values
and looks at them. So a method of a mapping goes a course when the function that it is given does
(`goes_runMethod`), a function of the store when it does so on the values that were made for it
(`goes_callHost`), a call when what is called does (`goes_callWithin`), and a script when its
statements do (`goes_executeAll`).
-/

namespace Interchange

namespace Store

variable {s t : Store}

theorem Enlarges.sameFlags (h : s.Enlarges t) : s.SameFlags t where
  size_le := h.size_le
  flag := fun ref inside => by rw [h.kept ref inside]

end Store

namespace Script

open Store

namespace Run

variable {α β : Type} {run : Run α} {next : α → Run β} {s : Session}
  {may : Store → Value → Prop}

/-! ## Calm computations -/

/-- A computation that leaves the flags of all cells as they are. -/
def Calm (run : Run α) : Prop := ∀ s : Session, s.store.SameFlags (run.runIn s).2.store

theorem Leaves.calm (h : run.Leaves) : run.Calm := fun s => by
  rw [h s]
  exact .refl s.store

theorem Adds.calm {Q : Store → α → Prop} (h : run.Adds Q) : run.Calm :=
  fun s => (h.enlarges s).sameFlags

theorem calm_pure (a : α) : (pure a : Run α).Calm := (leaves_pure a).calm

theorem Calm.bind (h : run.Calm) (h' : ∀ a, (next a).Calm) : (run >>= next).Calm := by
  intro s
  have first := h s
  rw [runIn_bind]
  rcases ran : run.runIn s with ⟨stop | a, t⟩
  · rwa [ran] at first
  · rw [ran] at first
    exact first.trans (h' a t)

theorem Calm.tryCatch {handle : Stop → Run α} (h : run.Calm) (h' : ∀ stop, (handle stop).Calm) :
    (tryCatch run handle).Calm := by
  intro s
  have first := h s
  rw [runIn_tryCatch]
  rcases ran : run.runIn s with ⟨stop | a, t⟩
  · rw [ran] at first
    exact first.trans (h' stop t)
  · rwa [ran] at first

theorem calm_onStore {op : Op α} (h : op.Calm) : (onStore op).Calm := fun s => by
  rw [runIn_onStore]
  exact h s.store

/-! ## Courses -/

/-- Run in a session with a closed store, a computation takes the store a course. -/
def Goes (may : Store → Value → Prop) (run : Run α) (s : Session) : Prop :=
  s.store.Closed → Course may s.store (run.runIn s).2.store

theorem Calm.goes (calm : run.Calm) (steps : run.Steps) : run.Goes may s :=
  fun closed => .calm (steps s closed).1.evolves (calm s)

theorem Leaves.goes (h : run.Leaves) : run.Goes may s := h.calm.goes h.steps

theorem goes_onStore {op : Op α} (h : s.store.Closed → Course may s.store (op.runOn s.store).2) :
    (onStore op).Goes may s := fun closed => by
  rw [runIn_onStore]
  exact h closed

theorem Goes.bind (h : run.Goes may s)
    (h' : ∀ a t, run.runIn s = (.ok a, t) → (next a).Goes may t) : (run >>= next).Goes may s := by
  intro closed
  have first := h closed
  rw [runIn_bind]
  rcases ran : run.runIn s with ⟨stop | a, t⟩
  · rwa [ran] at first
  · rw [ran] at first
    exact first.trans (h' a t ran (first.evolves.closed closed))

theorem Goes.tryCatch {handle : Stop → Run α} (h : run.Goes may s)
    (h' : ∀ stop t, run.runIn s = (.error stop, t) → (handle stop).Goes may t) :
    (tryCatch run handle).Goes may s := by
  intro closed
  have first := h closed
  rw [runIn_tryCatch]
  rcases ran : run.runIn s with ⟨stop | a, t⟩
  · rw [ran] at first
    exact first.trans (h' stop t ran (first.evolves.closed closed))
  · rwa [ran] at first

/-- What leaves the store alone can come first. -/
theorem Leaves.goes_bind (h : run.Leaves)
    (h' : ∀ a t, t.store = s.store → (next a).Goes may t) : (run >>= next).Goes may s :=
  h.goes.bind fun a t ran => h' a t (by rw [← h s, ran])

/-- The elements of a list are gone through one after the other. -/
theorem goes_forM {f : α → Run PUnit} {items : List α}
    (each : ∀ before a after t, items = before ++ a :: after →
      (before.forM f).runIn s = (.ok ⟨⟩, t) → (f a).Goes may t) :
    (items.forM f).Goes may s := by
  induction items generalizing s with
  | nil => exact (leaves_pure _).goes
  | cons a rest ih =>
    refine (each [] a rest s rfl rfl).bind fun _ t ran => ih fun before b after u isRest went => ?_
    exact each (a :: before) b after u (by rw [isRest, List.cons_append])
      ((runIn_bind_of_ok ran).trans went)

end Run

open Run

variable {α : Type} {run : Run α} {s : Session} {may : Store → Value → Prop} {call : Caller}

/-! ## What stops a run -/

theorem calm_toValue (d : Datum) : (toValue d).Calm := (adds_toValue d).calm

theorem goes_toValue (d : Datum) : (toValue d).Goes may s := (calm_toValue d).goes (steps_toValue d)

theorem goes_thrownText (d : Datum) : (thrownText d).Goes may s :=
  (adds_thrownText d).calm.goes (steps_thrownText d)

theorem goes_catching (h : run.Goes may s) : (catching run).Goes may s := by
  refine h.tryCatch fun stop t _ => ?_
  split
  · exact (goes_thrownText _).bind fun _ _ _ => (leaves_throw _).goes
  · exact (leaves_throw _).goes

theorem leaves_raiseFault (fault : Fault) : (raiseFault fault : Run α).Leaves := by
  unfold raiseFault
  split
  · exact leaves_throw _
  · exact leaves_raise _

theorem calm_shielded (h : run.Calm) : (shielded run).Calm := by
  refine h.tryCatch fun stop => ?_
  split
  · exact (leaves_throw _).calm
  · exact (leaves_raiseFault _).calm
  · exact (adds_stopText _).calm.bind fun _ => (leaves_raise _).calm

theorem goes_shielded (h : run.Goes may s) : (shielded run).Goes may s := by
  refine h.tryCatch fun stop t _ => ?_
  split
  · exact (leaves_throw _).goes
  · exact (leaves_raiseFault _).goes
  · exact ((adds_stopText _).calm.goes (steps_stopText _)).bind fun _ _ _ => (leaves_raise _).goes

theorem leaves_binding (h : run.Leaves) : (binding run).Leaves := by
  refine h.tryCatch fun stop => ?_
  split
  · exact leaves_raise _
  · exact leaves_throw _

theorem goes_faultOfThrown (h : run.Goes may s) : (faultOfThrown run).Goes may s := by
  refine (goes_catching h).tryCatch fun stop t _ => ?_
  split
  · exact (leaves_throw _).goes
  · exact ((adds_stopText _).calm.goes (steps_stopText _)).bind fun _ _ _ => (leaves_throw _).goes

/-! ## Methods of shared mappings -/

theorem calm_mergeReturned (dict : Ref) (returned : Datum) : (mergeReturned dict returned).Calm := by
  refine (calm_toValue returned).bind fun v => leaves_get.calm.bind fun session => ?_
  split
  · next entries _ _ =>
    exact (calm_onStore (Mapping.calm_merge dict "perform" entries)).bind fun _ => calm_pure _
  · exact calm_pure _

/-- Only one method calls a function. -/
theorem runMethod_of_ne_perform (call other : Caller) (mapping : Ref) {method : MappingMethod}
    (plain : method ≠ .perform) (args : List Datum) :
    runMethod call mapping method args = runMethod other mapping method args := by
  cases method with
  | perform => exact absurd rfl plain
  | _ => rfl

/-- A method that does not freeze and does not call leaves all flags as they are. -/
theorem calm_runMethod (mapping : Ref) {method : MappingMethod} (plain : method ≠ .perform)
    (noFreeze : method ≠ .freeze) (args : List Datum) : (runMethod call mapping method args).Calm := by
  refine calm_shielded ?_
  have guarded {body : Run Datum} (h : body.Calm) :
      (if args.length < method.needed then
        binding (throw (.engine (.tooFew args.length method.needed))) >>= fun (_ : Unit) => body
        else body).Calm := by
    split
    · exact (leaves_binding (leaves_throw _)).calm.bind fun _ => h
    · exact h
  cases method with
  | get =>
    exact guarded ((calm_toValue _).bind fun key =>
      (calm_onStore (Mapping.calm_get? mapping key)).bind fun _ => (leaves_ofValue _).calm)
  | set =>
    exact guarded ((calm_toValue _).bind fun key => (calm_toValue _).bind fun value =>
      (calm_onStore (Mapping.calm_setKey mapping key value)).bind fun _ => calm_pure _)
  | has =>
    exact guarded ((calm_toValue _).bind fun key =>
      (calm_onStore ((Mapping.calm_get? mapping key).bind fun _ => Op.calm_pure _)).bind
        fun _ => calm_pure _)
  | size =>
    exact guarded ((calm_onStore (Mapping.calm_size mapping)).bind fun _ => calm_pure _)
  | keys =>
    exact guarded ((calm_onStore ((Mapping.calm_keys mapping).bind fun _ =>
      ValueList.calm_new _)).bind fun _ => (leaves_ofValue _).calm)
  | toDict =>
    exact guarded ((calm_onStore (Mapping.calm_cloneDict mapping)).bind fun _ =>
      (leaves_ofValue _).calm)
  | toJson =>
    exact guarded ((calm_onStore (Mapping.calm_toJson mapping)).bind fun _ => calm_pure _)
  | fromJson =>
    exact guarded ((leaves_binding (leaves_stringOf _)).calm.bind fun text =>
      (calm_onStore (Mapping.calm_loadJson mapping text)).bind fun _ => calm_pure _)
  | freeze => exact absurd rfl noFreeze
  | perform => exact absurd rfl plain

/-- A method goes a course when the function does that it calls; a freeze has to be allowed. -/
theorem goes_runMethod (mapping : Ref) (method : MappingMethod) (args : List Datum)
    (frozen : method = .freeze → may s.store (.object mapping))
    (within : method = .perform → ∀ function d args t, t.store = s.store →
      (call function d args).Goes may t) :
    (runMethod call mapping method args).Goes may s := by
  by_cases isFreeze : method = .freeze
  · subst isFreeze
    refine goes_shielded ((goes_onStore fun _ => .freeze _ (frozen rfl)).bind fun _ t _ => ?_)
    exact (leaves_pure _).goes
  by_cases isPerform : method = .perform
  · subst isPerform
    refine goes_shielded ?_
    have body (t : Session) (same : t.store = s.store) : (do
        let function ← binding (functionOf (args.headD .undefined))
        let state ← Run.onStore (Mapping.read mapping)
        performOn call state.dict function : Run Datum).Goes may t := by
      refine (leaves_binding (leaves_functionOf _)).goes_bind fun function u bound => ?_
      have looks : (Run.onStore (Mapping.read mapping)).Leaves := fun w => by
        rw [runIn_onStore, Mapping.runOn_read_snd]
      refine looks.goes_bind fun state w looked => ?_
      rw [performOn_eq]
      refine (leaves_ofValue _).goes_bind fun snapshot x copied => ?_
      refine (goes_faultOfThrown (within rfl function _ _ x ?_)).bind fun returned y _ => ?_
      · rw [copied, looked, bound, same]
      · exact (calm_mergeReturned _ returned).goes (steps_mergeReturned _ returned)
    dsimp only
    split
    · exact (leaves_binding (leaves_throw _)).goes_bind fun _ t same => body t same
    · exact body s rfl
  · rw [runMethod_of_ne_perform call (fun _ _ _ => pure .undefined) mapping isPerform]
    exact (calm_runMethod mapping isPerform isFreeze args).goes fun t =>
      ensures_runMethod (fun _ _ _ _ _ => Run.ensures_pure trivial) mapping method args

/-! ## Calls and scripts -/

/-- A function of the store is called with the values that are made of the arguments. -/
theorem goes_callHost (function : Ref) (args : List Datum)
    (within : ∀ values t, (args.mapM toValue).runIn s = (.ok values, t) → t.store.Closed →
      Course may t.store ((Op.callRef function values).runOn t.store).2) :
    (callHost function args).Goes may s := by
  refine goes_shielded ?_
  have made : (args.mapM toValue).Goes may s :=
    (Adds.mapM adds_toValue).calm.goes (Steps.mapM fun d _ => steps_toValue d)
  refine made.bind fun values t ran => ?_
  exact (goes_onStore (within values t ran)).bind fun v u _ => (leaves_ofValue v).goes

/-- A function of a session goes a course when what it stands for does: a function of the store, a
method of a mapping or a body. -/
theorem goes_callWithin {calls : Nat} {place : Place} {f : Function} (d : Datum) {args : List Datum}
    (isFunction : (s.objectAt place).nature = .function f)
    (host : ∀ function, f = .host function → (callHost function args).Goes may s)
    (method : ∀ mapping method, f = .method mapping method →
      (runMethod (callWithin calls) mapping method args).Goes may s)
    (body : ∀ body, f = .body body → (runBody (callWithin calls) args body).Goes may s) :
    (callWithin (calls + 1) (.object place) d args).Goes may s := by
  have looked : (Run.read place).runIn s = (.ok (s.objectAt place), s) := rfl
  intro closed
  rw [callWithin, runIn_bind_of_ok looked, isFunction]
  cases f with
  | host function => exact host function rfl closed
  | method mapping name => exact method mapping name rfl closed
  | body => exact body _ rfl closed

theorem goes_executeAll (object : String) (statements : List Statement)
    (each : ∀ before statement after t, statements = before ++ statement :: after →
      (before.forM fun statement => do let _ ← execute object statement).runIn s = (.ok ⟨⟩, t) →
        (execute object statement).Goes may t) :
    (executeAll object statements).Goes may s :=
  goes_catching (goes_forM fun before statement after t isPart ran =>
    (each before statement after t isPart ran).bind fun _ _ _ => (leaves_pure _).goes)

theorem goes_executeForValue (object : String) (statement : Statement)
    (within : (execute object statement).Goes may s) :
    (executeForValue object statement).Goes may s :=
  (goes_catching within).bind fun d _ _ => goes_toValue d

/-- A statement that calls goes a course when its arguments and the call do. -/
theorem goes_execute_call (object name : String) (args : List Argument)
    (evaluated : ∀ t, t.store = s.store → (args.mapM evaluateArgument).Goes may t)
    (within : ∀ found target values t u, t.store = s.store →
      (args.mapM evaluateArgument).runIn t = (.ok values, u) →
        (Script.call found target values).Goes may u) :
    (execute object (.call name args)).Goes may s := by
  refine (leaves_property _ _).goes_bind fun globals t same => ?_
  refine (leaves_property globals object).goes_bind fun target u same' => ?_
  refine (leaves_property target name).goes_bind fun found w same'' => ?_
  have here : w.store = s.store := by rw [same'', same', same]
  exact (evaluated w here).bind fun values x ran => within found target values w x here ran

theorem goes_callGlobal (name : String) (args : List Value)
    (within : ∀ function args t, t.store = s.store →
      (Script.call function .undefined args).Goes may t) : (callGlobal name args).Goes may s := by
  refine (leaves_embedded (leaves_property _ _)).goes_bind fun found t same => ?_
  refine (leaves_functionOf found).goes_bind fun function u same' => ?_
  refine (Leaves.mapM fun v _ => leaves_ofValue v).goes_bind fun args w same'' => ?_
  refine (goes_catching (within function args w ?_)).bind fun d _ _ => goes_toValue d
  rw [same'', same', same]

end Script
end Interchange
