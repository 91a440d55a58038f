import Interchange.Proofs.Mapping.Conduct
import Interchange.Proofs.Script.Entering
import Interchange.Proofs.Script.Leaving

/-!
# The conduct of scripts

A computation in a session takes the session's store through steps, and what it does beside that
stays in the script's own heap (`Run.Ensures`). The only way from a script to the store is by the
operations that the embedding side runs for it, so the rules for those are all that is needed.
-/

namespace Interchange

namespace Store

variable {s t : Store} {v : Value}

/-- A scalar or a container, as all that is made of a script value. -/
def Copied (s : Store) (v : Value) : Prop :=
  ∀ ref, v = .object ref → (s.cell ref).isContainer = true

theorem copied_of_scalar (scalar : v.identity? = none) : s.Copied v :=
  fun ref same => by cases same; cases scalar

theorem Copied.has (h : s.Copied v) : s.Has v :=
  fun ref same => lt_size_of_isContainer (h ref same)

theorem Copied.evolves (h : s.Copied v) (evolves : s.Evolves t) : t.Copied v := fun ref same =>
  (evolves.continues (lt_size_of_isContainer (h ref same))).isContainer_eq.trans (h ref same)

end Store

theorem Dict.IsLast.copied {s : Store} {dict : Ref} (h : IsLast dict s) : s.Copied (.object dict) := by
  obtain ⟨-, entries, cell⟩ := h
  intro ref same
  cases same
  rw [cell]
  rfl

namespace Script

open Store

namespace Run

variable {α β : Type} {run : Run α} {next : α → Run β} {s t : Session}
  {post : α → Session → Prop} {mid : α → Session → Prop} {after : β → Session → Prop}

/-- In a session with a closed store, a computation takes the store through steps; a result comes
with a property. -/
def Ensures (run : Run α) (s : Session) (post : α → Session → Prop) : Prop :=
  s.store.Closed → s.store.Proceeds (run.runIn s).2.store ∧
    ∀ a, (run.runIn s).1 = .ok a → post a (run.runIn s).2

/-! ## Rules -/

/-- That the store is closed may be used. -/
theorem Ensures.of_closed (h : s.store.Closed → run.Ensures s post) : run.Ensures s post :=
  fun closed => h closed closed

theorem ensures_pure {a : α} (h : post a s) : (pure a : Run α).Ensures s post :=
  fun _ => ⟨.refl _, fun _ same => by cases same; exact h⟩

theorem ensures_throw (stop : Stop) : (throw stop : Run α).Ensures s post :=
  fun _ => ⟨.refl _, fun _ same => by cases same⟩

theorem Ensures.bind (h : run.Ensures s mid)
    (h' : ∀ a t, s.store.Evolves t.store → mid a t → (next a).Ensures t after) :
    (run >>= next).Ensures s after := by
  intro closed
  obtain ⟨first, result⟩ := h closed
  rw [runIn_bind]
  rcases ran : run.runIn s with ⟨stop | a, t⟩
  · rw [ran] at first
    exact ⟨first, fun _ same => by cases same⟩
  · rw [ran] at first result
    obtain ⟨rest, final⟩ := h' a t first.evolves (result a rfl) (first.evolves.closed closed)
    exact ⟨first.trans rest, final⟩

theorem Ensures.imp {weak : α → Session → Prop} (h : run.Ensures s post)
    (weaker : ∀ a t, s.store.Evolves t.store → post a t → weak a t) : run.Ensures s weak := by
  intro closed
  obtain ⟨proceeds, result⟩ := h closed
  exact ⟨proceeds, fun a same => weaker a _ proceeds.evolves (result a same)⟩

/-- What is done about a stop goes on from where the computation stopped. -/
theorem Ensures.tryCatch {handle : Stop → Run α} (h : run.Ensures s post)
    (h' : ∀ stop t, s.store.Evolves t.store → (handle stop).Ensures t post) :
    (tryCatch run handle).Ensures s post := by
  intro closed
  obtain ⟨first, result⟩ := h closed
  rw [runIn_tryCatch]
  rcases ran : run.runIn s with ⟨stop | a, t⟩
  · rw [ran] at first
    obtain ⟨rest, final⟩ := h' stop t first.evolves (first.evolves.closed closed)
    exact ⟨first.trans rest, final⟩
  · rw [ran] at first result
    exact ⟨first, fun b same => by cases same; exact result a rfl⟩

theorem ensures_get : (get : Run Session).Ensures s fun u t => u = s ∧ t = s :=
  fun _ => ⟨.refl _, fun _ same => by cases same; exact ⟨rfl, rfl⟩⟩

theorem ensures_alloc (object : Object) : (alloc object).Ensures s fun _ _ => True :=
  fun _ => ⟨.refl _, fun _ _ => trivial⟩

theorem ensures_read (place : Place) : (read place).Ensures s fun _ _ => True :=
  fun _ => ⟨.refl _, fun _ _ => trivial⟩

theorem ensures_write (place : Place) (object : Object) :
    (write place object).Ensures s fun _ _ => True :=
  fun _ => ⟨.refl _, fun _ _ => trivial⟩

theorem ensures_raise (message : WideString) : (raise message : Run α).Ensures s post :=
  (ensures_alloc _).bind fun _ _ _ _ => ensures_throw _

/-- An operation on the store conducts itself in a session as it does on the store. -/
theorem ensures_onStore {op : Op α} {post : α → Store → Prop} (h : op.Ensures s.store post) :
    (onStore op).Ensures s fun a t => post a t.store := by
  intro closed
  obtain ⟨proceeds, result⟩ := h closed
  rw [runIn_onStore]
  refine ⟨proceeds, fun a same => result a ?_⟩
  cases ran : (op.runOn s.store).1 with
  | ok b =>
    rw [ran] at same
    cases same
    rfl
  | error fault =>
    rw [ran] at same
    cases same

theorem ensures_forM {f : α → Run PUnit} {items : List α}
    (each : ∀ a ∈ items, ∀ t, s.store.Evolves t.store → (f a).Ensures t fun _ _ => True) :
    (items.forM f).Ensures s fun _ _ => True := by
  induction items generalizing s with
  | nil => exact ensures_pure trivial
  | cons a rest ih =>
    change (f a >>= fun _ => rest.forM f).Ensures s _
    refine (each a List.mem_cons_self s (.refl _)).bind fun _ t evolved _ => ih ?_
    exact fun b isRest u later => each b (List.mem_cons_of_mem _ isRest) u (evolved.trans later)

theorem ensures_mapM (after : β → Session → Prop) {f : α → Run β} {items : List α}
    (each : ∀ a ∈ items, ∀ t, s.store.Evolves t.store → (f a).Ensures t after)
    (lasts : ∀ b t u, t.store.Evolves u.store → after b t → after b u) :
    (items.mapM f).Ensures s fun results t => ∀ b ∈ results, after b t := by
  induction items generalizing s with
  | nil => exact ensures_pure fun b isResult => by cases isResult
  | cons a rest ih =>
    rw [List.mapM_cons]
    refine (each a List.mem_cons_self s (.refl _)).bind fun b t evolved found => ?_
    refine (ih fun b isRest u later =>
      each b (List.mem_cons_of_mem _ isRest) u (evolved.trans later)).bind
        fun others u later all => ensures_pure fun c isResult => ?_
    rcases List.mem_cons.1 isResult with rfl | isOther
    · exact lasts _ _ _ later found
    · exact all c isOther

/-- A computation goes by steps of the store in every session. -/
def Steps (run : Run α) : Prop := ∀ s, run.Ensures s fun _ _ => True

theorem steps_pure (a : α) : (pure a : Run α).Steps := fun _ => ensures_pure trivial

theorem Leaves.steps (h : run.Leaves) : run.Steps := by
  intro s _
  rw [h s]
  exact ⟨.refl _, fun _ _ => trivial⟩

theorem steps_throw (stop : Stop) : (throw stop : Run α).Steps := fun _ => ensures_throw stop

theorem steps_raise (message : WideString) : (raise message : Run α).Steps :=
  fun _ => ensures_raise message

theorem steps_get : (get : Run Session).Steps := fun _ => ensures_get.imp fun _ _ _ _ => trivial

theorem steps_alloc (object : Object) : (alloc object).Steps := fun _ => ensures_alloc object

theorem steps_read (place : Place) : (read place).Steps := fun _ => ensures_read place

theorem steps_write (place : Place) (object : Object) : (write place object).Steps :=
  fun _ => ensures_write place object

theorem steps_modify (f : Session → Session) (same : ∀ s, (f s).store = s.store) :
    (modify f : Run PUnit).Steps := fun s _ => by
  rw [runIn_modify]
  exact ⟨same s ▸ .refl _, fun _ _ => trivial⟩

theorem Steps.bind (h : run.Steps) (h' : ∀ a, (next a).Steps) : (run >>= next).Steps :=
  fun s => (h s).bind fun a t _ _ => h' a t

theorem Steps.tryCatch {handle : Stop → Run α} (h : run.Steps) (h' : ∀ stop, (handle stop).Steps) :
    (tryCatch run handle).Steps :=
  fun s => (h s).tryCatch fun stop t _ => h' stop t

theorem Steps.mapM {f : α → Run β} {items : List α} (each : ∀ a ∈ items, (f a).Steps) :
    (items.mapM f).Steps :=
  fun _ => (ensures_mapM (fun _ _ => True) (fun a isItem t _ => each a isItem t)
    fun _ _ _ _ _ => trivial).imp fun _ _ _ _ => trivial

theorem Steps.forM {f : α → Run PUnit} {items : List α} (each : ∀ a ∈ items, (f a).Steps) :
    (items.forM f).Steps :=
  fun _ => ensures_forM fun a isItem t _ => each a isItem t

end Run

open Run

theorem steps_embedded {α : Type} {run : Run α} (h : run.Steps) : (embedded run).Steps := by
  refine h.tryCatch fun stop => ?_
  split <;> exact steps_throw _

/-! ## Between values and script values -/

theorem ensures_newCopy {c : Cell} {s : Session} (container : c.isContainer = true)
    (fresh : s.store.Fresh c) (has : ∀ v ∈ c.held, s.store.Has v) :
    (Run.onStore (Op.new c)).Ensures s fun v t => t.store.Copied v := by
  have stored : (Op.new c).Ensures s.store fun v t => t.Copied v := by
    refine .of_run (Op.runOn_new c) fun _ => ?_
    refine ⟨.alloc fresh has (names_of_isContainer container ▸ List.nodup_nil), fun v same => ?_⟩
    cases same
    intro ref same
    cases same
    rw [cell_alloc_self, container]
  exact ensures_onStore stored

section Parts

variable {part : Datum → Run Value} {s : Session}
  (each : ∀ d t, s.store.Evolves t.store → (part d).Ensures t fun v u => u.store.Copied v)
include each

theorem ensures_listOf (array : Object) (items : List (Option Datum)) :
    (listOf part array items).Ensures s fun v t => t.store.Copied v := by
  refine (Run.ensures_mapM (fun v t => t.store.Copied v) (fun entry _ t evolved => ?_)
    fun _ _ _ later copied => copied.evolves later).bind fun values t _ all =>
      ensures_newCopy rfl rfl fun v isValue => (all v isValue).has
  exact ((leaves_element array entry.1 entry.2).steps t).bind fun d u later _ =>
    each d u (evolved.trans later)

theorem ensures_dictOf (properties : List (WideString × Datum)) :
    (dictOf part properties).Ensures s fun v t => t.store.Copied v := by
  refine (ensures_onStore Dict.ensures_alloc).bind fun dict t first isLast => ?_
  refine (Run.ensures_forM fun property _ u next => ?_).bind fun _ u next _ =>
    Run.ensures_pure (isLast.copied.evolves next)
  refine ((leaves_tellName _).steps u).bind fun name x told _ => ?_
  refine (each _ x ((first.trans next).trans told)).bind fun v w later copied => ?_
  exact ensures_onStore (Dict.ensures_insert dict (has_of_scalar rfl) copied.has)

theorem ensures_ofObject (object : Object) :
    (ofObject part object).Ensures s fun v t => t.store.Copied v := by
  cases nature : object.nature with
  | array items => exact ofObject_array nature ▸ ensures_listOf each object items
  | record => exact ofObject_record nature ▸ ensures_dictOf each object.properties
  | globals => exact ofObject_globals nature ▸ ensures_dictOf each object.properties
  | function | error =>
    simp only [ofObject, nature]
    exact Run.ensures_throw _

end Parts

theorem ensures_toValueWithin (levels : Nat) (d : Datum) (s : Session) :
    (toValueWithin levels d).Ensures s fun v t => t.store.Copied v := by
  induction levels generalizing d s with
  | zero => exact ((leaves_kindOf d).steps s).bind fun _ _ _ _ => Run.ensures_throw _
  | succ levels ih =>
    have scalar (v : Value) (same : v.identity? = none) :
        (pure v : Run Value).Ensures s fun v t => t.store.Copied v :=
      Run.ensures_pure (copied_of_scalar same)
    have object (object : Object) (t : Session) :
        (ofObject (toValueWithin levels) object).Ensures t fun v t => t.store.Copied v :=
      ensures_ofObject (fun d u _ => ih d u) object
    have plain (b : Builtin) : (if b.kind = "function" then
        throw (.fault (.unsupported intoName b.kind))
        else do return .object (← Run.onStore Dict.alloc) : Run Value).Ensures s
          fun v t => t.store.Copied v := by
      split
      · exact Run.ensures_throw _
      · exact (ensures_onStore Dict.ensures_alloc).bind fun _ _ _ isLast =>
          Run.ensures_pure isLast.copied
    cases d with
    | undefined => exact scalar .nothing rfl
    | null => exact scalar .nothing rfl
    | bool b => exact scalar (.bool b) rfl
    | string s =>
      exact ((leaves_readText s).steps _).bind fun text t _ _ =>
        Run.ensures_pure (copied_of_scalar (v := .string text) rfl)
    | bigint i => exact scalar (.int i) rfl
    | number x =>
      rw [toValueWithin]
      split
      · exact scalar _ rfl
      · exact scalar _ rfl
    | symbol => exact ((leaves_kindOf _).steps s).bind fun _ _ _ _ => Run.ensures_throw _
    | object place => exact (steps_read place s).bind fun o t _ _ => object o t
    | builtin b =>
      cases b with
      | globals => exact (Run.steps_get s).bind fun session t _ _ => object session.globals t
      | arrayPrototype =>
        exact ensures_newCopy rfl rfl fun _ isItem => by cases isItem
      | recordPrototype | functionPrototype | errorPrototype | library | function =>
        exact plain _

/-- What is made of a script value is a scalar or a container. -/
theorem copies_toValue (d : Datum) (s : Session) :
    (toValue d).Ensures s fun v t => t.store.Copied v := ensures_toValueWithin _ d s

theorem ensures_toValue (d : Datum) (s : Session) :
    (toValue d).Ensures s fun v t => t.store.Has v :=
  (copies_toValue d s).imp fun _ _ _ copied => copied.has

theorem steps_toValue (d : Datum) : (toValue d).Steps :=
  fun s => (ensures_toValue d s).imp fun _ _ _ _ => trivial

/-! ## What stops a run -/

theorem steps_thrownText (d : Datum) : (thrownText d).Steps := by
  have plain : (do
      let kind ← kindOf d
      tryCatch (do Run.onStore (Op.text (← toValue d))) fun _ => return kind : Run String).Steps :=
    (leaves_kindOf d).steps.bind fun kind =>
      ((steps_toValue d).bind fun v => (leaves_text v).steps).tryCatch fun _ => steps_pure kind
  cases d with
  | object place =>
    refine (steps_read place).bind fun object => ?_
    split
    · exact steps_pure _
    · exact (leaves_readText _).steps.tryCatch fun _ => steps_pure _
    · exact plain
  | _ => exact plain

theorem steps_stopText (stop : Stop) : (stopText stop).Steps := by
  cases stop with
  | fault | engine | uncaught => exact steps_pure _
  | thrown d => exact (steps_thrownText d).bind fun _ => steps_pure _

section Stopping

variable {α : Type} {run : Run α} {s : Session} {post : α → Session → Prop}

theorem ensures_catching (h : run.Ensures s post) : (catching run).Ensures s post := by
  refine h.tryCatch fun stop t _ => ?_
  split
  · exact (steps_thrownText _ t).bind fun _ _ _ _ => Run.ensures_throw _
  · exact Run.ensures_throw _

theorem ensures_raiseFault (fault : Fault) : (raiseFault fault : Run α).Ensures s post := by
  unfold raiseFault
  split
  · exact Run.ensures_throw _
  · exact Run.ensures_raise _

theorem ensures_shielded (h : run.Ensures s post) : (shielded run).Ensures s post := by
  refine h.tryCatch fun stop t _ => ?_
  split
  · exact Run.ensures_throw _
  · exact ensures_raiseFault _
  · exact (steps_stopText _ t).bind fun _ _ _ _ => Run.ensures_raise _

theorem ensures_binding (h : run.Ensures s post) : (binding run).Ensures s post := by
  refine h.tryCatch fun stop t _ => ?_
  split
  · exact Run.ensures_raise _
  · exact Run.ensures_throw _

theorem ensures_faultOfThrown (h : run.Ensures s post) : (faultOfThrown run).Ensures s post := by
  refine (ensures_catching h).tryCatch fun stop t _ => ?_
  split
  · exact Run.ensures_throw _
  · exact (steps_stopText _ t).bind fun _ _ _ _ => Run.ensures_throw _

end Stopping

/-! ## Methods of shared mappings -/

/-- A way to call the functions of a script goes by steps of the store, from a session on. -/
def Conducts (call : Caller) (s : Session) : Prop :=
  ∀ function d args t, s.store.Evolves t.store → (call function d args).Ensures t fun _ _ => True

/-- Writes what a function returned that was called with a copy of the entries. -/
def mergeReturned (dict : Ref) (returned : Datum) : Run Datum := do
  let v ← toValue returned
  match (← get).store.cellOf? v with
  | some (.dict entries _) => Run.onStore (Mapping.merge dict "perform" entries)
  | _ => pure ()
  return returned

theorem performOn_eq (call : Caller) (dict : Ref) (function : Datum) :
    performOn call dict function = (do
      let snapshot ← ofValue (.object dict)
      let returned ← faultOfThrown (call function .undefined [snapshot])
      mergeReturned dict returned) := rfl

theorem steps_mergeReturned (dict : Ref) (returned : Datum) :
    (mergeReturned dict returned).Steps := by
  intro s
  refine (ensures_toValue returned s).bind fun v t _ has => ?_
  refine .of_closed fun closed => Run.ensures_get.bind fun session x _ ⟨same, same'⟩ => ?_
  subst same same'
  have returns (t : Session) : (pure returned : Run Datum).Ensures t fun _ _ => True :=
    Run.ensures_pure trivial
  split
  · next entries frozen found =>
    have merged : (Run.onStore (Mapping.merge dict "perform" entries)).Ensures x
        fun _ _ => True := by
      refine ensures_onStore (Mapping.ensures_merge dict _ fun w isPart => ?_)
      cases v with
      | object ref =>
        have cell : x.store.cell ref = .dict entries frozen := Option.some.inj found
        exact closed ref w (by rwa [cell])
      | _ => cases found
    exact merged.bind fun _ t _ _ => returns t
  · exact returns x

theorem ensures_performOn {call : Caller} {s : Session} (conducts : Conducts call s) (dict : Ref)
    (function : Datum) : (performOn call dict function).Ensures s fun _ _ => True := by
  rw [performOn_eq]
  refine ((leaves_ofValue (.object dict)).steps s).bind fun snapshot t first _ => ?_
  exact (ensures_faultOfThrown (conducts function _ _ t first)).bind fun returned u _ _ =>
    steps_mergeReturned dict returned u

theorem Conducts.later {call : Caller} {s t : Session} (h : Conducts call s)
    (evolved : s.store.Evolves t.store) : Conducts call t :=
  fun function d args u later => h function d args u (evolved.trans later)

theorem ensures_runMethod {call : Caller} {s : Session} (conducts : Conducts call s)
    (mapping : Ref) (method : MappingMethod) (args : List Datum) :
    (runMethod call mapping method args).Ensures s fun _ _ => True := by
  refine ensures_shielded ?_
  have guarded (body : Run Datum)
      (h : ∀ t, s.store.Evolves t.store → body.Ensures t fun _ _ => True) :
      (if args.length < method.needed then
        binding (throw (.engine (.tooFew args.length method.needed))) >>= fun (_ : Unit) => body
        else body).Ensures s fun _ _ => True := by
    split
    · have refused : (binding (throw (.engine (.tooFew args.length method.needed))) :
          Run Unit).Ensures s fun _ _ => True := ensures_binding (Run.ensures_throw _)
      exact refused.bind fun _ t first _ => h t first
    · exact h s (.refl _)
  have read (t : Session) {α : Type} {op : Op α} (h : op.Ensures t.store fun _ _ => True)
      (f : α → Datum) : (do return f (← Run.onStore op) : Run Datum).Ensures t fun _ _ => True :=
    (ensures_onStore h).bind fun _ _ _ _ => Run.ensures_pure trivial
  cases method with
  | get =>
    refine guarded _ fun t _ => (ensures_toValue _ t).bind fun key u _ _ => ?_
    exact (ensures_onStore (Mapping.ensures_get? mapping key)).bind fun found w _ _ =>
      (leaves_ofValue _).steps w
  | set =>
    refine guarded _ fun t _ => (ensures_toValue _ t).bind fun key u _ hasKey => ?_
    refine (ensures_toValue _ u).bind fun value w next hasValue => ?_
    exact read w (Mapping.ensures_setKey mapping (next.has hasKey) hasValue) fun _ => .undefined
  | has =>
    refine guarded _ fun t _ => (ensures_toValue _ t).bind fun key u _ _ => ?_
    exact read u ((Mapping.ensures_contains mapping key)) fun found => .bool found
  | size => exact guarded _ fun t _ => read t (Mapping.ensures_size mapping) fun n => numberOfInt n
  | keys =>
    refine guarded _ fun t _ => (ensures_onStore ((Mapping.ensures_keys mapping).bind
      fun _ _ _ all => ValueList.ensures_new all)).bind
        fun keys u _ _ => (leaves_ofValue keys).steps u
  | toDict =>
    exact guarded _ fun t _ => (ensures_onStore (Mapping.ensures_cloneDict mapping)).bind
      fun copy u _ _ => (leaves_ofValue copy).steps u
  | toJson =>
    exact guarded _ fun t _ => read t (Mapping.ensures_toJson mapping) fun text => .string text
  | fromJson =>
    refine guarded _ fun t _ => (ensures_binding ((leaves_stringOf _).steps t)).bind
      fun text u _ _ => ?_
    exact read u (Mapping.ensures_loadJson mapping text) fun _ => .undefined
  | freeze => exact guarded _ fun t _ => read t (Op.ensures_freeze _) fun _ => .undefined
  | perform =>
    refine guarded _ fun t first => (ensures_binding ((leaves_functionOf _).steps t)).bind
      fun function u next _ => ?_
    refine (ensures_onStore (Mapping.ensures_read mapping)).bind fun state w last _ => ?_
    exact ensures_performOn (conducts.later ((first.trans next).trans last)) state.dict function

end Script
end Interchange
