import Interchange.Script.Evaluation

/-!
# What leaves the store alone

Looking up properties, and making a script value of a value, works on the script's own heap: whatever
it comes to, every cell of the store stays as it is (`Run.Leaves`, `leaves_ofValue`).
-/

namespace Interchange.Script

open Store

namespace Run

variable {α β : Type} {run : Run α} {next : α → Run β} {s t : Session}

/-- Whatever a computation comes to, it leaves the store as it was. -/
def Leaves (run : Run α) : Prop := ∀ s, (run.runIn s).2.store = s.store

theorem leaves_pure (a : α) : (pure a : Run α).Leaves := fun _ => rfl

theorem leaves_throw (stop : Stop) : (throw stop : Run α).Leaves := fun _ => rfl

theorem leaves_get : (get : Run Session).Leaves := fun _ => rfl

theorem leaves_alloc (object : Object) : (alloc object).Leaves := fun _ => rfl

theorem leaves_read (place : Place) : (read place).Leaves := fun _ => rfl

theorem leaves_readText (s : WideString) : (readText s).Leaves := by
  cases s with
  | text => exact leaves_pure _
  | broken => exact leaves_throw _

theorem leaves_raise (message : WideString) : (raise message : Run α).Leaves := fun _ => rfl

theorem Leaves.bind (h : run.Leaves) (h' : ∀ a, (next a).Leaves) : (run >>= next).Leaves := by
  intro s
  have first := h s
  rw [runIn_bind]
  generalize run.runIn s = result at first
  rcases result with ⟨stop | a, t⟩
  · exact first
  · exact (h' a t).trans first

theorem Leaves.tryCatch {handle : Stop → Run α} (h : run.Leaves)
    (h' : ∀ stop, (handle stop).Leaves) : (tryCatch run handle).Leaves := by
  intro s
  have first := h s
  rw [runIn_tryCatch]
  generalize run.runIn s = result at first
  rcases result with ⟨stop | a, t⟩
  · exact (h' stop t).trans first
  · exact first

theorem Leaves.mapM {f : α → Run β} {items : List α} (each : ∀ a ∈ items, (f a).Leaves) :
    (items.mapM f).Leaves := by
  induction items with
  | nil => exact leaves_pure _
  | cons a rest ih =>
    obtain ⟨first, others⟩ := List.forall_mem_cons.1 each
    rw [List.mapM_cons]
    exact first.bind fun _ => (ih others).bind fun _ => leaves_pure _

theorem Leaves.foldlM {f : β → α → Run β} {items : List α}
    (each : ∀ a ∈ items, ∀ b, (f b a).Leaves) (b : β) : (items.foldlM f b).Leaves := by
  induction items generalizing b with
  | nil => exact leaves_pure b
  | cons a rest ih =>
    obtain ⟨first, others⟩ := List.forall_mem_cons.1 each
    rw [List.foldlM_cons]
    exact (first b).bind (ih others)

end Run

open Run

/-! ## Kinds and properties -/

theorem leaves_kindOf (d : Datum) : (kindOf d).Leaves := by
  cases d with
  | object place => exact (leaves_read place).bind fun _ => leaves_pure _
  | _ => exact leaves_pure _

theorem leaves_engineKind (d : Datum) : (engineKind d).Leaves := by
  cases d with
  | object place =>
    refine (leaves_read place).bind fun object => ?_
    split <;> exact leaves_pure _
  | number x => exact leaves_pure _
  | bool | bigint => exact leaves_pure _
  | undefined | null | string | symbol | builtin => exact leaves_kindOf _

theorem leaves_isFunction (d : Datum) : (isFunction d).Leaves := by
  cases d with
  | object place =>
    refine (leaves_read place).bind fun object => ?_
    split <;> exact leaves_pure _
  | builtin b => cases b <;> exact leaves_pure _
  | _ => exact leaves_pure _

theorem leaves_functionOf (d : Datum) : (functionOf d).Leaves := by
  refine (leaves_isFunction d).bind fun isFunction => ?_
  cases isFunction with
  | true => exact leaves_pure d
  | false => exact (leaves_engineKind d).bind fun _ => leaves_throw _

theorem leaves_stringOf (d : Datum) : (stringOf d).Leaves := by
  unfold stringOf
  split
  · exact leaves_readText _
  · exact (leaves_engineKind d).bind fun _ => leaves_throw _

theorem leaves_tellName (name : WideString) : (tellName name).Leaves := leaves_readText _

theorem leaves_ownProperty? (d : Datum) (name : WideString) : (ownProperty? d name).Leaves := by
  unfold ownProperty?
  split
  · exact (leaves_read _).bind fun _ => leaves_pure _
  · exact leaves_get.bind fun _ => leaves_pure _
  · exact leaves_pure _
  · exact leaves_pure _

theorem leaves_prototypeOf (d : Datum) : (prototypeOf d).Leaves := by
  unfold prototypeOf
  split
  · exact (leaves_read _).bind fun _ => leaves_pure _
  · exact leaves_get.bind fun _ => leaves_pure _
  · exact leaves_pure _
  · exact leaves_pure _

theorem leaves_findPropertyWithin (depth : Nat) (d : Datum) (name : WideString) :
    (findPropertyWithin depth d name).Leaves := by
  induction depth generalizing d with
  | zero => exact leaves_pure _
  | succ depth ih =>
    refine (leaves_ownProperty? d name).bind fun found => ?_
    split
    · exact leaves_pure _
    · refine (leaves_prototypeOf d).bind fun prototype => ?_
      split
      · exact leaves_pure _
      · exact ih _

theorem leaves_findProperty? (d : Datum) (name : WideString) : (findProperty? d name).Leaves :=
  leaves_get.bind fun _ => leaves_findPropertyWithin _ d name

theorem leaves_propertyRead (found : Property) (d : Datum) : (found.read d).Leaves := by
  cases found with
  | data | readOnly | answered => exact leaves_pure _
  | guarded => exact leaves_raise _
  | prototype => exact leaves_prototypeOf d

theorem leaves_property (d : Datum) (name : WideString) : (property d name).Leaves := by
  unfold property
  split
  · exact leaves_raise _
  · exact leaves_raise _
  · refine (leaves_findProperty? d name).bind fun found => ?_
    split
    · exact leaves_propertyRead _ d
    · exact leaves_pure _

theorem leaves_element (array : Object) (index : Nat) (item : Option Datum) :
    (element array index item).Leaves := by
  cases item with
  | some d => exact leaves_pure d
  | none =>
    refine (leaves_findProperty? _ _).bind fun found => ?_
    split
    · exact leaves_propertyRead _ _
    · exact leaves_pure _

theorem leaves_put (object : Object) (name : WideString) (d : Datum) : (object.put name d).Leaves := by
  unfold Object.put
  cases object.own? name
  case' some found => refine (leaves_pure (some found)).bind fun found => ?_
  case' none => refine (leaves_findProperty? _ _).bind fun found => ?_
  all_goals
    dsimp only
    split
    · exact leaves_pure _
    · exact leaves_pure _
    · exact leaves_raise _
    · exact leaves_raise _
    · exact leaves_raise _
    · exact leaves_pure _

theorem leaves_embedded {α : Type} {run : Run α} (h : run.Leaves) : (embedded run).Leaves := by
  refine h.tryCatch fun stop => ?_
  split <;> exact leaves_throw _

/-! ## Script values of values -/

theorem leaves_text (v : Value) : (Run.onStore (Op.text v)).Leaves := by
  intro s
  rw [runIn_onStore, Op.text, Op.runOn_bind, Op.runOn_get]
  dsimp only
  cases s.store.text? v <;> rfl

theorem leaves_ofMapping (mapping : Ref) : (ofMapping mapping).Leaves :=
  (Leaves.mapM fun _ _ => (leaves_alloc _).bind fun _ => leaves_pure _).bind fun _ =>
    leaves_alloc _

theorem leaves_recordOf {part : Value → Run Datum} {entries : List (Run String × Value)}
    (names : ∀ entry ∈ entries, entry.1.Leaves) (each : ∀ v, (part v).Leaves) :
    (recordOf part entries).Leaves := by
  refine (Leaves.foldlM (fun entry isEntry object => ?_) _).bind fun _ => leaves_alloc _
  refine (names entry isEntry).bind fun name => (each entry.2).bind fun d => ?_
  exact leaves_embedded (leaves_put object name d)

theorem leaves_recordOfNamed {part : Value → Run Datum} (entries : List (String × Value))
    (each : ∀ v, (part v).Leaves) : (recordOfNamed part entries).Leaves := by
  refine leaves_recordOf (fun entry isEntry => ?_) each
  obtain ⟨_, _, rfl⟩ := List.mem_map.1 isEntry
  exact leaves_pure _

theorem leaves_ofCell {part : Value → Run Datum} (each : ∀ v, (part v).Leaves) (typeName : String)
    (ref : Ref) (cell : Cell) : (ofCell part typeName ref cell).Leaves := by
  have items (items : List Value) : (do Run.alloc (.ofItems (← items.mapM part))).Leaves :=
    (Leaves.mapM fun v _ => each v).bind fun _ => leaves_alloc _
  cases cell with
  | list values _ => exact items values
  | tuple values => exact items values
  | set values _ => exact items values
  | dict entries _ =>
    refine leaves_recordOf (fun entry isEntry => ?_) each
    obtain ⟨_, _, rfl⟩ := List.mem_map.1 isEntry
    exact leaves_text _
  | record _ fields => exact leaves_recordOfNamed fields each
  | module _ members => exact leaves_recordOfNamed members each
  | function _ => exact leaves_alloc _
  | mapping _ _ _ => exact leaves_ofMapping ref
  | extension _ => exact leaves_throw _
  | proxy _ => exact leaves_throw _

theorem leaves_ofValueWithin (levels : Nat) (v : Value) : (ofValueWithin levels v).Leaves := by
  induction levels generalizing v with
  | zero => exact leaves_get.bind fun _ => leaves_throw _
  | succ levels ih =>
    cases v with
    | object ref => exact leaves_get.bind fun session => leaves_ofCell ih _ ref _
    | bytes b => exact leaves_alloc _
    | nothing | bool | int | float | string | time => exact leaves_pure _

theorem leaves_ofValue (v : Value) : (ofValue v).Leaves := leaves_ofValueWithin _ v

end Interchange.Script
