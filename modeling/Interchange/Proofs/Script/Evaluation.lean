import Interchange.Proofs.Script.Conduct

/-!
# The conduct of whole scripts

Whatever a script does, its session's store goes by steps (`steps_call`, `steps_executeAll`): the
functions of the language work on the script's own heap, and calls come down to methods of shared
mappings and to functions of the store. The induction is on the number of calls that may be under
way; all else is for any way to call functions that goes by steps itself.
-/

namespace Interchange.Script

open Store Run

/-- Every call goes by steps of the store. -/
def CallSteps (call : Caller) : Prop := ∀ function d args, (call function d args).Steps

theorem CallSteps.conducts {call : Caller} (steps : CallSteps call) (s : Session) :
    Conducts call s := fun function d args t _ => steps function d args t

variable {call : Caller}

/-! ## Texts and numbers -/

theorem steps_primitiveBy (steps : CallSteps call) (d : Datum) (names : List String) :
    (primitiveBy call d names).Steps := by
  induction names with
  | nil => exact steps_raise _
  | cons name rest ih =>
    refine (leaves_property d name).steps.bind fun method =>
      (leaves_isFunction method).steps.bind fun found => ?_
    split
    · refine (steps method d []).bind fun answer => ?_
      split
      · exact ih
      · exact steps_pure _
    · exact ih

theorem steps_plainText (d : Datum) : (plainText d).Steps := by
  cases d with
  | symbol => exact steps_raise _
  | _ => exact steps_pure _

theorem steps_plainNumber (d : Datum) : (plainNumber d).Steps := by
  cases d with
  | symbol => exact steps_raise _
  | bigint => exact steps_raise _
  | _ => exact steps_pure _

theorem steps_textOf (steps : CallSteps call) (d : Datum) : (textOf call d).Steps := by
  unfold textOf
  split
  · exact (steps_primitiveBy steps d _).bind fun plain => steps_plainText plain
  · exact steps_plainText d

theorem steps_numberOf (steps : CallSteps call) (d : Datum) : (numberOf call d).Steps := by
  unfold numberOf
  split
  · exact (steps_primitiveBy steps d _).bind fun plain => steps_plainNumber plain
  · exact steps_plainNumber d

theorem steps_lengthOf (steps : CallSteps call) (d : Datum) : (lengthOf call d).Steps := by
  unfold lengthOf
  split
  case' h_1 => refine (steps_pure _).bind fun wanted => ?_
  case' h_2 => refine (steps_numberOf steps _).bind fun x => (steps_pure _).bind fun wanted => ?_
  all_goals
    dsimp only
    split
    · split
      · exact steps_pure _
      · exact steps_raise _
    · exact steps_raise _

theorem steps_assign (steps : CallSteps call) (target : Datum) (name : WideString) (d : Datum) :
    (assign call target name d).Steps := by
  have put (place : Place) (object : Object) : (do
      Run.write place (← object.put name d) : Run Unit).Steps :=
    (leaves_put object name d).steps.bind fun _ => steps_write place _
  have other : (if name = prototypeName then return () else Run.raise "not an object" :
      Run Unit).Steps := by
    split
    · exact steps_pure _
    · exact steps_raise _
  cases target with
  | object place =>
    refine (steps_read place).bind fun object => ?_
    split
    · split
      · exact (steps_lengthOf steps d).bind fun _ => steps_write place _
      · exact put place object
    · exact put place object
  | string text =>
    have ofText : (if name = "length" then Run.raise (nameMessage "'" name "' is read-only")
        else if name = prototypeName then return () else Run.raise "not an object" :
        Run Unit).Steps := by
      split
      · exact steps_raise _
      · exact other
    exact ofText
  | _ => exact other

/-! ## Literals and bodies -/

mutual

theorem steps_evaluate (steps : CallSteps call) : (literal : Literal) → (evaluate call literal).Steps
  | .undefined => steps_pure _
  | .null => steps_pure _
  | .bool _ => steps_pure _
  | .number _ => steps_pure _
  | .string _ => steps_pure _
  | .bigint _ => steps_pure _
  | .symbol => steps_pure _
  | .array items => (steps_evaluateItems steps items).bind fun _ => steps_alloc _
  | .record properties => (steps_evaluateProperties steps properties).bind fun _ => steps_alloc _
  | .function => steps_alloc _
  | .error message => (steps_evaluate steps message).bind fun d => by
    split
    · exact steps_alloc _
    · exact (steps_textOf steps d).bind fun _ => steps_alloc _
  | .cyclicArray => steps_get.bind fun _ => steps_alloc _
  | .cyclicRecord => steps_get.bind fun _ => steps_alloc _

theorem steps_evaluateItems (steps : CallSteps call) :
    (items : List Literal) → (evaluateItems call items).Steps
  | [] => steps_pure _
  | item :: rest => (steps_evaluate steps item).bind fun _ =>
    (steps_evaluateItems steps rest).bind fun _ => steps_pure _

theorem steps_evaluateProperties (steps : CallSteps call) :
    (properties : List (WideString × Literal)) → (evaluateProperties call properties).Steps
  | [] => steps_pure _
  | (_, item) :: rest => (steps_evaluate steps item).bind fun _ =>
    (steps_evaluateProperties steps rest).bind fun _ => steps_pure _

end

theorem steps_runBody (steps : CallSteps call) (args : List Datum) (body : Body) :
    (runBody call args body).Steps := by
  cases body with
  | returns value => exact steps_evaluate steps value
  | argument index => exact steps_pure _
  | throws value => exact (steps_evaluate steps value).bind fun _ => steps_throw _
  | gathers => exact steps_alloc _
  | assigns properties =>
    refine (Steps.forM fun property _ => ?_).bind fun _ => steps_pure _
    have assigned : (do
        let d ← evaluate call property.2
        assign call (args.headD .undefined) property.1 d : Run Unit).Steps :=
      (steps_evaluate steps property.2).bind fun d => steps_assign steps _ _ d
    split
    · exact (steps_raise _).bind fun _ => assigned
    · exact assigned

/-! ## Functions of the language -/

theorem steps_demandObject (d : Datum) : (demandObject d).Steps := by
  unfold demandObject
  split
  · exact steps_raise _
  · exact steps_pure _

theorem steps_propertyName? (steps : CallSteps call) (d : Datum) :
    (propertyName? call d).Steps := by
  unfold propertyName?
  split
  · exact steps_pure _
  · exact (steps_textOf steps d).bind fun _ => steps_pure _

theorem steps_kindWord (d : Datum) : (kindWord d).Steps := by
  unfold kindWord
  split
  case h_8 =>
    refine (steps_read _).bind fun object => ?_
    split <;> exact steps_pure _
  all_goals exact steps_pure _

theorem steps_objectOf (d : Datum) : (objectOf d).Steps := by
  cases d with
  | object | builtin => exact steps_pure _
  | _ => exact steps_alloc _

theorem steps_elementsText (steps : CallSteps call) (array : Datum) :
    (elementsText call array).Steps := by
  have texts (length : Nat) : (do
      let texts ← (List.range length).mapM fun index => do
        let item ← property array (toString index)
        if item.isNullish then return .text "" else textOf call item
      return .intercalate "," texts : Run WideString).Steps := by
    refine (Steps.mapM fun index _ => ?_).bind fun _ => steps_pure _
    refine (leaves_property array _).steps.bind fun item => ?_
    split
    · exact steps_pure _
    · exact steps_textOf steps item
  refine (steps_demandObject array).bind fun _ =>
    (leaves_property array _).steps.bind fun length => ?_
  split
  · exact texts _
  · exact texts _

theorem steps_errorText (steps : CallSteps call) (error : Datum) :
    (errorText call error).Steps := by
  have joined (name message : WideString) : (pure (.intercalate ": "
      ([name, message].filter (· != ""))) : Run WideString).Steps := steps_pure _
  have text (d : Datum) : (textOf call d).Steps := steps_textOf steps d
  refine (leaves_property error "name").steps.bind fun name => ?_
  dsimp only
  split
  case' h_1 => refine (steps_pure _).bind fun name => ?_
  case' h_2 => refine (text _).bind fun name => ?_
  all_goals
    refine (leaves_property error "message").steps.bind fun message => ?_
    split
    · exact (steps_pure _).bind (joined name)
    · exact (text _).bind (joined name)

theorem steps_functionText (function : Datum) : (functionText function).Steps := by
  refine (leaves_isFunction function).steps.bind fun isFunction => ?_
  cases isFunction
  case' true => rw [Bool.not_true, if_neg Bool.false_ne_true]
  case' false =>
    rw [Bool.not_false, if_pos rfl]
    refine (steps_raise _).bind fun _ => ?_
  all_goals
    split
    · refine (steps_read _).bind fun object => ?_
      split <;> exact steps_pure _
    · exact steps_pure _

theorem steps_isPrototypeWithin (depth : Nat) (prototype d : Datum) :
    (isPrototypeWithin depth prototype d).Steps := by
  induction depth generalizing d with
  | zero => exact steps_pure _
  | succ depth ih =>
    refine (leaves_prototypeOf d).steps.bind fun found => ?_
    split
    · exact steps_pure _
    · split
      · exact steps_pure _
      · exact ih _

theorem steps_isEnumerable (d : Datum) (name : WideString) : (isEnumerable d name).Steps := by
  unfold isEnumerable
  split
  · refine (steps_read _).bind fun object => ?_
    split <;> exact steps_pure _
  · exact steps_get.bind fun _ => steps_pure _
  · exact steps_pure _

theorem steps_defineAccessor (d : Datum) (name : WideString) : (defineAccessor d name).Steps := by
  unfold defineAccessor
  split
  · exact (steps_read _).bind fun _ => steps_write _ _
  · exact steps_pure _

theorem steps_answer (outcome : EmptyCall) : outcome.answer.Steps := by
  cases outcome with
  | plain => exact steps_pure _
  | symbol => exact steps_pure _
  | error => exact steps_alloc _
  | function => exact steps_alloc _
  | refused message => exact steps_raise message

theorem steps_builtin (steps : CallSteps call) (function : BuiltinFunction) (d : Datum)
    (args : List Datum) : (function.run call d args).Steps := by
  have name := steps_propertyName? steps (args.headD .undefined)
  cases function with
  | objectOf => exact steps_objectOf _
  | kindText => exact (steps_kindWord d).bind fun _ => steps_pure _
  | ownText => exact (leaves_property d _).steps.bind fun method => steps method d []
  | itself => exact (steps_demandObject d).bind fun _ => steps_objectOf d
  | hasOwn =>
    refine (steps_demandObject d).bind fun _ => name.bind fun name => ?_
    split
    · exact (leaves_ownProperty? d _).steps.bind fun _ => steps_pure _
    · exact steps_pure _
  | isPrototype =>
    unfold BuiltinFunction.run
    dsimp only
    split
    · refine (steps_demandObject d).bind fun _ => steps_get.bind fun _ => ?_
      exact (steps_isPrototypeWithin _ d _).bind fun _ => steps_pure _
    · exact steps_pure _
  | isEnumerable =>
    refine (steps_demandObject d).bind fun _ => name.bind fun name => ?_
    split
    · exact (steps_isEnumerable d _).bind fun _ => steps_pure _
    · exact steps_pure _
  | defineAccessor =>
    refine (steps_demandObject d).bind fun _ => (leaves_isFunction _).steps.bind fun isFunction => ?_
    cases isFunction
    case' true => refine name.bind fun name => ?_
    case' false => refine (steps_raise _).bind fun _ => name.bind fun name => ?_
    all_goals
      cases name with
      | some name => exact (steps_defineAccessor d name).bind fun _ => steps_pure _
      | none => exact (steps_pure ()).bind fun _ => steps_pure _
  | findAccessor =>
    refine (steps_demandObject d).bind fun _ => name.bind fun name => ?_
    split
    · refine (leaves_findProperty? d _).steps.bind fun found => ?_
      split <;> exact steps_pure _
    · exact steps_pure _
  | elementsText => exact (steps_elementsText steps d).bind fun _ => steps_pure _
  | functionText => exact (steps_functionText d).bind fun _ => steps_pure _
  | errorText => exact (steps_errorText steps d).bind fun _ => steps_pure _
  | initial outcome => exact steps_answer outcome

/-! ## Calls -/

/-- Arguments become values that the store has, so what a function of the store does with them goes
by steps. -/
theorem steps_callHost (function : Ref) (args : List Datum) : (callHost function args).Steps := by
  intro s
  refine ensures_shielded ?_
  refine (Run.ensures_mapM (fun v t => t.store.Has v) (fun d _ t _ => ensures_toValue d t)
    fun _ _ _ later has => later.has has).bind fun args t _ has => ?_
  refine (ensures_onStore (Op.conducts_callRef t.store function args t.store (.refl _) has)).bind
    fun v u _ _ => (leaves_ofValue v).steps u

/-- However many calls may be under way, each goes by steps of the store. -/
theorem callSteps_callWithin (calls : Nat) : CallSteps (callWithin calls) := by
  induction calls with
  | zero => exact fun _ _ _ => steps_raise _
  | succ calls ih =>
    intro function d args
    cases function with
    | object place =>
      refine (steps_read place).bind fun object => ?_
      split
      · exact steps_callHost _ args
      · exact fun s => ensures_runMethod (ih.conducts s) _ _ args
      · exact steps_runBody ih args _
      · exact steps_raise _
    | builtin b =>
      cases b with
      | function f => exact steps_builtin ih f d args
      | functionPrototype => exact steps_pure _
      | _ => exact steps_raise _
    | _ => exact steps_raise _

theorem callSteps_call : CallSteps Script.call := callSteps_callWithin _

/-! ## Statements and globals -/

theorem steps_global (name : String) : (global name).Steps :=
  (leaves_property _ name).steps

theorem steps_setGlobal (name : String) (d : Datum) : (setGlobal name d).Steps :=
  steps_embedded (steps_get.bind fun _ => (leaves_put _ name d).steps.bind fun _ =>
    steps_modify _ fun _ => rfl)

theorem steps_evaluateArgument (argument : Argument) : (evaluateArgument argument).Steps := by
  cases argument with
  | literal value => exact steps_evaluate callSteps_call value
  | function body => exact steps_alloc _

theorem steps_useProperty (target : Datum) (name : String) (args : Option (List Argument)) :
    (useProperty target name args).Steps := by
  refine (leaves_property target name).steps.bind fun found => ?_
  split
  · exact steps_pure _
  · exact (Steps.mapM fun argument _ => steps_evaluateArgument argument).bind fun args =>
      callSteps_call found target args

theorem steps_useMember (object name : String) (args : Option (List Argument)) :
    (useMember object name args).Steps :=
  (steps_global _).bind fun globals => (leaves_property globals object).steps.bind fun target =>
    steps_useProperty target name args

theorem steps_execute (object : String) (statement : Statement) :
    (execute object statement).Steps := by
  cases statement with
  | call name args => exact steps_useMember object name (some args)
  | throws value => exact (steps_evaluate callSteps_call value).bind fun _ => steps_throw _
  | main body =>
    exact (steps_alloc _).bind fun function => (steps_setGlobal _ function).bind fun _ =>
      steps_pure _

/-- A script of statements goes by steps of the store. -/
theorem steps_executeAll (object : String) (statements : List Statement) :
    (executeAll object statements).Steps := fun s =>
  ensures_catching ((Steps.forM fun statement _ =>
    (steps_execute object statement).bind fun _ => steps_pure _) s)

theorem steps_executeForValue (object : String) (statement : Statement) :
    (executeForValue object statement).Steps := fun s =>
  (ensures_catching (steps_execute object statement s)).bind fun d t _ _ => steps_toValue d t

/-- Calling a global function of the script with values goes by steps of the store. -/
theorem steps_callGlobal (name : String) (args : List Value) : (callGlobal name args).Steps :=
  (steps_embedded (steps_global name)).bind fun found => (leaves_functionOf found).steps.bind
    fun function => (Steps.mapM fun v _ => (leaves_ofValue v).steps).bind fun args =>
      Steps.bind (fun s => ensures_catching (callSteps_call function .undefined args s))
        fun d => steps_toValue d

end Interchange.Script
