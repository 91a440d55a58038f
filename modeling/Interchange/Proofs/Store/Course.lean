import Interchange.Proofs.Store.Calm

/-!
# Courses

A course is a use of a store that sets flags by freezes alone, and freezes none but the values that may
be frozen at the time (`Course`). Where all may be, every history is a course (`Evolves.course`). Where
not, what is run goes a course when its bodies do: work on the dict of a mapping (`course_withDict`), a
method of a mapping (`course_run`), edits of a dict (`Edit.course_all`), and a function of the store, be
it a list of edits or a method that is bound (`course_callWith`).
-/

namespace Interchange

namespace Store

variable {may : Store → Value → Prop} {s t : Store}

/-- A use of a store: what leaves the flags of all cells as they are, and freezes of values that may be
frozen. -/
inductive Course (may : Store → Value → Prop) : Store → Store → Prop
  | calm {s t : Store} (evolves : s.Evolves t) (same : s.SameFlags t) : Course may s t
  | freeze {s : Store} (v : Value) (allowed : may s v) : Course may s (s.freeze v)
  | trans {s m t : Store} (first : Course may s m) (next : Course may m t) : Course may s t

theorem Course.refl (s : Store) : Course may s s := .calm (.refl s) (.refl s)

theorem Course.evolves (course : Course may s t) : s.Evolves t := by
  induction course with
  | calm evolves => exact evolves
  | freeze v => exact (Step.freeze v).evolves
  | trans _ _ ih ih' => exact ih.trans ih'

/-- Of all that may happen to a store, only a freeze sets flags. -/
theorem Step.course (step : Step s t) : Course (fun _ _ => True) s t := by
  have evolves := step.evolves
  cases step with
  | alloc => exact .calm evolves (sameFlags_alloc s _)
  | list cell | enter cell | put cell | erase _ cell | clear cell =>
    exact .calm evolves (sameFlags_write (by rw [cell]; rfl))
  | freeze v => exact .freeze v trivial

theorem Evolves.course (evolves : s.Evolves t) : Course (fun _ _ => True) s t := by
  induction evolves with
  | refl => exact .refl s
  | tail _ step ih => exact ih.trans step.course

end Store

open Store

variable {may : Store → Value → Prop} {s : Store}

/-! ## Operations -/

namespace Op

variable {α β : Type} {op : Op α} {next : α → Op β} {post : α → Store → Prop}

theorem Ensures.course (ensures : op.Ensures s post) (calm : op.Calm) (closed : s.Closed) :
    Course may s (op.runOn s).2 :=
  .calm (ensures closed).1.evolves (calm s)

theorem course_bind (first : Course may s (op.runOn s).2)
    (rest : ∀ a t, op.runOn s = (.ok a, t) → Course may t ((next a).runOn t).2) :
    Course may s ((op >>= next).runOn s).2 := by
  rw [runOn_bind]
  rcases ran : op.runOn s with ⟨fault | a, t⟩
  · rwa [ran] at first
  · rw [ran] at first
    exact first.trans (rest a t ran)

/-- Something is done with each of some values, one after the other. -/
theorem course_mapM {f : α → Op β} {items : List α}
    (each : ∀ a ∈ items, ∀ t, s.Evolves t → Course may t ((f a).runOn t).2) :
    Course may s ((items.mapM f).runOn s).2 := by
  induction items generalizing s with
  | nil => exact .refl s
  | cons a rest ih =>
    have first := each a List.mem_cons_self s (.refl s)
    rw [List.mapM_cons]
    refine course_bind first fun b t ran => ?_
    rw [ran] at first
    exact course_bind (ih fun c isRest u later =>
      each c (List.mem_cons_of_mem _ isRest) u (first.evolves.trans later)) fun _ u _ => .refl u

/-- What is taken from arguments or not leaves the store as it is. -/
theorem course_ofExcept_bind {result : Except Fault α}
    (rest : ∀ a, result = .ok a → Course may s ((next a).runOn s).2) :
    Course may s ((ofExcept result >>= next).runOn s).2 := by
  refine course_bind (by rw [runOn_ofExcept]; exact .refl s) fun a t ran => ?_
  rw [runOn_ofExcept] at ran
  cases ran
  exact rest a rfl

end Op

/-- An action goes a course unless it calls a function; a freeze has to be allowed. -/
theorem Action.course (action : Action) (fits : action.Fits s) (closed : s.Closed)
    (noCall : ∀ function args, action ≠ .call function args)
    (allowed : ∀ v, action = .freeze v → may s v) : Course may s (action.run.runOn s).2 := by
  by_cases isFreeze : ∃ v, action = .freeze v
  · obtain ⟨v, rfl⟩ := isFreeze
    exact .freeze v (allowed v rfl)
  · exact (action.ensures_run fits).course
      (Action.calm_run (fun v same => isFreeze ⟨v, same⟩) noCall) closed

/-! ## Methods of mappings -/

namespace Mapping

/-- Only one method runs a function. -/
theorem run_of_ne_perform (call other : Ref → List Value → Op Value) (mapping : Ref)
    {method : Method} (plain : method ≠ .perform) (args : List Value) :
    run call mapping method args = run other mapping method args := by
  cases method with
  | perform => exact absurd rfl plain
  | _ => rfl

theorem course_withDict {α : Type} (routine : Ref → Op α) (mapping : Ref) (closed : s.Closed)
    (within : ∀ under, s.Has (.object under) → Course may s ((routine under).runOn s).2) :
    Course may s ((withDict routine mapping).runOn s).2 := by
  refine Op.course_bind ((ensures_read mapping).course (calm_read mapping) closed)
    fun found t ran => ?_
  have isRead := (ensures_read mapping closed).2 found
  rw [ran] at isRead
  obtain ⟨rfl, cell⟩ := isRead rfl
  refine within found.dict (closed mapping _ ?_)
  rw [cell]
  exact List.mem_singleton_self _

/-- A method runs a function on the dict, or nothing. -/
theorem course_run (call : Ref → List Value → Op Value) (mapping : Ref) (method : Method)
    {args : List Value} (has : ∀ v ∈ args, s.Has v) (closed : s.Closed)
    (within : method = .perform → ∀ function under, s.Has (.object under) →
      Course may s ((call function [.object under]).runOn s).2) :
    Course may s ((run call mapping method args).runOn s).2 := by
  by_cases isPerform : method = .perform
  · subst isPerform
    have isBody : run call mapping .perform args = (do
        Op.ofExcept (Arguments.checkCount Method.perform.name args.length 1 1)
        let function ← Op.ofExcept (Arguments.required (← get) Method.perform.name .function args 0)
        perform call mapping function) := rfl
    rw [isBody]
    refine Op.course_ofExcept_bind fun _ _ => Op.course_bind (.refl s) ?_
    rintro _ _ ⟨⟩
    refine Op.course_ofExcept_bind fun function _ => ?_
    exact course_withDict _ mapping closed fun under has => within rfl function under has
  · rw [run_of_ne_perform call (fun _ _ => pure .nothing) mapping isPerform]
    have conducts : Op.Conducts (fun _ _ => pure .nothing) s := fun _ _ _ _ _ =>
      Op.ensures_pure fun _ => has_of_scalar rfl
    exact (ensures_run conducts mapping method has).course (calm_run _ mapping isPerform args) closed

end Mapping

/-! ## Functions -/

/-- An edit goes a course; a freeze of the dict has to be allowed. -/
theorem Edit.course {dict : Ref} (inside : s.Has (.object dict)) {edit : Edit}
    (has : ∀ v ∈ edit.operands, s.Has v) (closed : s.Closed)
    (allowed : edit = .freeze → may s (.object dict)) :
    Course may s ((edit.run dict).runOn s).2 := by
  by_cases isFreeze : edit = .freeze
  · subst isFreeze
    exact .freeze _ (allowed rfl)
  · exact (Edit.ensures_run inside edit has).course (Edit.calm_run dict isFreeze) closed

/-- Edits go a course if the dict may be frozen whenever one of them freezes it. -/
theorem Edit.course_all {dict : Ref} (inside : s.Has (.object dict)) (steps : List Edit)
    (has : ∀ v ∈ steps.flatMap Edit.operands, s.Has v) (closed : s.Closed)
    (allowed : .freeze ∈ steps → ∀ t, s.Evolves t → may t (.object dict)) :
    Course may s ((steps.mapM (Edit.run dict)).runOn s).2 :=
  Op.course_mapM fun edit isStep t evolves =>
    Edit.course (evolves.has inside)
      (fun v isOperand => evolves.has (has v (List.mem_flatMap.2 ⟨edit, isStep, isOperand⟩)))
      (evolves.closed closed) fun isFreeze => allowed (isFreeze ▸ isStep) t evolves

/-- A function of the store goes a course if its edits may freeze what they do, and the method that it
is bound to goes one. -/
theorem Op.course_callWith {inner : Ref → List Value → Op Value} (function : Ref)
    {args : List Value} (has : ∀ v ∈ args, s.Has v) (closed : s.Closed)
    (edits : ∀ body steps dict, s.cell function = .function body → body.routine = .edits steps →
      s.Has (.object dict) → .freeze ∈ steps → ∀ t, s.Evolves t → may t (.object dict))
    (method : ∀ body mapping method, s.cell function = .function body →
      body.routine = .method mapping method →
        Course may s ((Mapping.run inner mapping method args).runOn s).2) :
    Course may s ((callWith inner function args).runOn s).2 := by
  refine course_bind (.refl s) ?_
  rintro _ _ ⟨⟩
  cases cell : s.cell function with
  | function body =>
    dsimp only
    rw [Function.runWith]
    have operands : ∀ v ∈ body.routine.operands, s.Has v := fun v isOperand =>
      closed function v (by rwa [cell])
    cases routine : body.routine with
    | constant | argument => exact .refl s
    | failure => exact .refl s
    | gather => exact (ValueList.ensures_new has).course (ValueList.calm_new args) closed
    | library other => exact (other.ensures_run args).course (other.calm_run args) closed
    | method mapping name => exact method body mapping name cell routine
    | edits steps =>
      rw [routine] at operands
      refine course_bind (.refl s) ?_
      rintro _ _ ⟨⟩
      refine course_ofExcept_bind fun dict taken => ?_
      have inside : s.Has (.object dict) := has _ (Arguments.mem_of_required taken)
      refine course_bind (Edit.course_all inside steps operands closed
        (edits body steps dict cell routine inside)) fun results t ran => ?_
      have made := Edit.ensures_all inside steps operands closed
      rw [ran] at made
      exact (ValueList.ensures_new (made.2 results rfl)).course (ValueList.calm_new results)
        (made.1.evolves.closed closed)
  | _ =>
    exact (ensures_notCallable function).course
      (calm_get.bind fun _ => calm_throw _) closed

end Interchange
