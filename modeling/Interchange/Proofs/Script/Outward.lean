import Interchange.Proofs.Script.Levels
import Interchange.Proofs.Script.Members

/-!
# Levels on the way out

Values of scalars, sequences and things with named parts become script values unless they are nested
too deep (`limits_ofValueWithin`). Nothing else refuses them: a record takes a part under any name,
that of the prototype among them, since nothing that is made on the way out has a property that cannot
be written (`Writable`).
-/

namespace Interchange.Script

open Store Run

variable {s t : Session} {heap : Array Object} {store : Store} {ref : Ref} {v : Value} {d : Datum}
  {name : String} {levels : Nat}

/-! ## Prototypes -/

/-- An array or a record. -/
def Nature.IsPlain : Nature → Prop
  | .array _ => True
  | .record => True
  | _ => False

/-- Something without properties, or an object on whose chain of prototypes are arrays and records
alone. -/
inductive Writable (heap : Array Object) : Datum → Prop
  | primitive {d : Datum} (primitive : d.isObject = false) : Writable heap d
  | recordPrototype : Writable heap (.builtin .recordPrototype)
  | arrayPrototype : Writable heap (.builtin .arrayPrototype)
  | object {place : Place} {object : Object} (there : heap[place.index]? = some object)
      (plain : object.nature.IsPlain) (prototype : Writable heap object.prototype) :
      Writable heap (.object place)

theorem Writable.extends {later : Array Object} (writable : Writable heap d)
    (extended : Extends heap later) : Writable later d := by
  induction writable with
  | primitive primitive => exact .primitive primitive
  | recordPrototype => exact .recordPrototype
  | arrayPrototype => exact .arrayPrototype
  | object there plain _ ih => exact .object (extended _ _ there) plain ih

/-- What is found under a name can be written over, or stands for the prototype. -/
def Yields (found : Option Property) : Prop :=
  found = none ∨ (∃ d, found = some (.data d)) ∨ found = some .prototype

theorem yields_functionNamed? (functions : List (String × BuiltinFunction)) (name : WideString) :
    Yields (functionNamed? functions name) := by
  cases name with
  | broken => exact .inl rfl
  | text name =>
    rw [functionNamed?]
    cases functions.lookup name with
    | none => exact .inl rfl
    | some f => exact .inr (.inl ⟨_, rfl⟩)

theorem yields_own? {object : Object} (plain : object.nature.IsPlain) (name : WideString) :
    Yields (object.own? name) := by
  obtain ⟨nature, prototype, properties⟩ := object
  rw [Object.own?]
  dsimp only
  cases properties.lookup name with
  | some d => exact .inr (.inl ⟨d, rfl⟩)
  | none =>
    cases nature with
    | record => exact .inl rfl
    | array items =>
      dsimp only
      split
      · exact .inr (.inl ⟨_, rfl⟩)
      · cases ((arrayIndex? name).bind (items[·]?)).join with
        | none => exact .inl rfl
        | some d => exact .inr (.inl ⟨d, rfl⟩)
    | function | error | globals => exact plain.elim

/-- The properties of its own can be written over, and it is the same with its prototype. -/
theorem Writable.looked (writable : Writable s.heap d) (name : WideString) :
    ∃ own prototype, (ownProperty? d name).runIn s = (.ok own, s) ∧ Yields own ∧
      (prototypeOf d).runIn s = (.ok prototype, s) ∧ Writable s.heap prototype := by
  cases writable with
  | primitive primitive =>
    cases d with
    | object | builtin => cases primitive
    | _ => exact ⟨none, .null, rfl, .inl rfl, rfl, .primitive rfl⟩
  | recordPrototype =>
    refine ⟨_, .null, rfl, ?_, rfl, .primitive rfl⟩
    rw [Builtin.own?]
    split
    · exact .inr (.inr rfl)
    · exact yields_functionNamed? _ _
  | arrayPrototype =>
    refine ⟨_, .builtin .recordPrototype, rfl, ?_, rfl, .recordPrototype⟩
    rw [Builtin.own?]
    split
    · exact .inr (.inl ⟨_, rfl⟩)
    · exact yields_functionNamed? _ _
  | @object place object there plain prototype =>
    have found : s.heap.getD place.index (.ofProperties []) = object := by
      rw [Array.getD_eq_getD_getElem?, there, Option.getD_some]
    have read : (Run.read place).runIn s = (.ok object, s) :=
      congrArg (fun object => (Except.ok object, s)) found
    refine ⟨object.own? name, object.prototype, ?_, yields_own? plain name, ?_, prototype⟩
    · rw [ownProperty?, runIn_bind, read]
      rfl
    · rw [prototypeOf, runIn_bind, read]
      rfl

/-- The search for a property goes up the prototypes. -/
theorem runIn_findPropertyWithin (writable : Writable s.heap d) (depth : Nat) (name : WideString) :
    ∃ found, (findPropertyWithin depth d name).runIn s = (.ok found, s) ∧ Yields found := by
  induction depth generalizing d with
  | zero => exact ⟨none, rfl, .inl rfl⟩
  | succ depth ih =>
    obtain ⟨own, prototype, isOwn, yields, isPrototype, writable⟩ := writable.looked name
    rw [findPropertyWithin, runIn_bind, isOwn]
    cases own with
    | some found => exact ⟨_, rfl, yields⟩
    | none =>
      dsimp only
      rw [runIn_bind, isPrototype]
      dsimp only
      split
      · exact ⟨none, rfl, .inl rfl⟩
      · exact ih writable

/-- A record in the making. -/
structure IsRecord (object : Object) (s : Session) : Prop where
  nature : object.nature = .record
  prototype : Writable s.heap object.prototype

theorem IsRecord.grows {object : Object} (isRecord : IsRecord object s) (grows : Grows s t) :
    IsRecord object t := ⟨isRecord.nature, isRecord.prototype.extends grows.heap⟩

theorem IsRecord.isPlain {object : Object} (isRecord : IsRecord object s) :
    object.nature.IsPlain := by
  rw [isRecord.nature]
  trivial

theorem IsRecord.define {object : Object} (isRecord : IsRecord object s) (name : WideString)
    (d : Datum) :
    IsRecord (object.define name d) s := by
  obtain ⟨nature, prototype, properties⟩ := object
  obtain ⟨rfl, writable⟩ := isRecord
  exact ⟨rfl, writable⟩

theorem IsRecord.withPrototype {object : Object} (isRecord : IsRecord object s)
    (writable : Writable s.heap d) : IsRecord (object.withPrototype d) s := by
  rw [Object.withPrototype]
  split
  · exact ⟨isRecord.nature, writable⟩
  · exact isRecord

/-- A record takes a part under any name. -/
theorem runIn_put_record {object : Object} (isRecord : IsRecord object s)
    (writable : Writable s.heap d) (name : WideString) :
    ∃ next, (embedded (object.put name d)).runIn s = (.ok next, s) ∧ IsRecord next s := by
  have put : ∃ next, (object.put name d).runIn s = (.ok next, s) ∧ IsRecord next s := by
    have yields := yields_own? isRecord.isPlain name
    unfold Object.put
    cases own : object.own? name with
    | some found =>
      rw [own] at yields
      obtain ⟨⟨⟩⟩ | ⟨old, ⟨⟩⟩ | ⟨⟨⟩⟩ := yields
      · exact ⟨_, rfl, isRecord.define name d⟩
      · exact ⟨_, rfl, isRecord.withPrototype writable⟩
    | none =>
      obtain ⟨found, ran, yields⟩ :=
        runIn_findPropertyWithin isRecord.prototype (s.heap.size + 4) name
      have ran : (findProperty? object.prototype name).runIn s = (.ok found, s) := by
        rw [findProperty?, runIn_bind, runIn_get]
        exact ran
      dsimp only
      rw [runIn_bind, ran]
      obtain rfl | ⟨old, rfl⟩ | rfl := yields
      · exact ⟨_, rfl, isRecord.define name d⟩
      · exact ⟨_, rfl, isRecord.define name d⟩
      · exact ⟨_, rfl, isRecord.withPrototype writable⟩
  obtain ⟨next, ran, isRecord⟩ := put
  exact ⟨next, by rw [embedded, runIn_tryCatch, ran], isRecord⟩

/-! ## Parts -/

/-- The parts of a value that a script sees. -/
def PartOf (store : Store) (v w : Value) : Prop := ∃ ref, v = .object ref ∧ Displays store ref w

/-- A scalar, a sequence, a dict under texts, a record or a module. -/
def Sendable (store : Store) : Value → Prop
  | .object ref => match store.cell ref with
    | .list _ _ | .tuple _ | .set _ _ | .record _ _ | .module _ _ => True
    | .dict entries _ => ∀ entry ∈ entries, ∃ name, entry.1 = .string name
    | _ => False
  | _ => True

/-- A script value that can be a prototype, in a session that has grown. -/
def Comes (s : Session) (d : Datum) (t : Session) : Prop := Grows s t ∧ Writable t.heap d

/-- A new array or record comes. -/
theorem comes_alloc (object : Object) (plain : object.nature.IsPlain)
    (prototype : Writable s.heap object.prototype) :
    ∃ d t, (Run.alloc object).runIn s = (.ok d, t) ∧ Comes s d t := by
  have made : (Run.alloc object).runIn s =
    (.ok (.object ⟨s.heap.size⟩), { s with heap := s.heap.push object }) := rfl
  obtain ⟨grows, place, ⟨⟩, there⟩ := grows_alloc made
  exact ⟨_, _, made, grows, .object there plain (prototype.extends grows.heap)⟩

/-- The depth is all that can be wrong on the way out. -/
def outStops (_ : Unit) : Stop → Prop := Cyclic outName

section Parts

variable {part : Value → Run Datum} (good : Value → Unit → Prop)

/-- A sequence is refused with the first of its elements that is. -/
theorem limits_items {items : List Value}
    (each : ∀ item ∈ items, ∀ t, Grows s t → Limits outStops (part item) t (good item) (Comes t)) :
    Limits outStops (do Run.alloc (.ofItems (← items.mapM part))) s
      (fun k => ∀ item ∈ items, good item k) (Comes s) :=
  (limits_mapM (P := fun d t => Writable t.heap d) Grows.refl (fun _ _ _ => Grows.trans)
    (fun _ _ _ grows writable => writable.extends grows.heap) each).bind_ok fun _ _ found =>
      have ⟨d, u, made, comes⟩ := comes_alloc (.ofItems _) trivial .arrayPrototype
      ⟨d, u, made, found.1.trans comes.1, comes.2⟩

/-- So is something with named parts. -/
theorem limits_record {entries : List (Run String × Value)}
    (names : ∀ entry ∈ entries, ∀ t, Grows s t → ∃ name, entry.1.runIn t = (.ok name, t))
    (each : ∀ entry ∈ entries, ∀ t, Grows s t →
      Limits outStops (part entry.2) t (good entry.2) (Comes t)) :
    Limits outStops (recordOf part entries) s (fun k => ∀ entry ∈ entries, good entry.2 k)
      (Comes s) := by
  have filled : Limits outStops (entries.foldlM (fun object entry => do
      let name ← entry.1
      let d ← part entry.2
      embedded (object.put name d)) (Object.ofProperties [])) s
        (fun k => ∀ entry ∈ entries, good entry.2 k)
        fun object t => Grows s t ∧ IsRecord object t := by
    refine limits_foldlM ?_ ⟨.refl s, rfl, .recordPrototype⟩
    rintro entry isEntry object t ⟨grows, isRecord⟩
    obtain ⟨name, named⟩ := names entry isEntry t grows
    refine .after_ok named ((each entry isEntry t grows).bind_ok fun d u comes => ?_)
    obtain ⟨next, ran, isRecord⟩ := runIn_put_record (isRecord.grows comes.1) comes.2 name
    exact ⟨next, u, ran, grows.trans comes.1, isRecord⟩
  refine filled.bind_ok fun object t ⟨grows, isRecord⟩ => ?_
  obtain ⟨d, u, made, comes⟩ := comes_alloc object isRecord.isPlain isRecord.prototype
  exact ⟨d, u, made, grows.trans comes.1, comes.2⟩

end Parts

/-! ## Levels -/

theorem partOf_iff_of_sequence {items : List Value} (anatomy : store.anatomy ref = .sequence items)
    {w : Value} : PartOf store (.object ref) w ↔ w ∈ items := by
  constructor
  · rintro ⟨_, ⟨⟩, displays⟩
    cases displays with
    | item anatomy' isItem =>
      rw [anatomy] at anatomy'
      cases anatomy'
      exact isItem
    | member cell =>
      rw [members?_of_sequence anatomy] at cell
      cases cell
  · exact fun isItem => ⟨ref, rfl, .item anatomy isItem⟩

theorem partOf_iff_of_members {members : List (Option WideString × Value)}
    (cell : members? store (store.cell ref) = some members) {w : Value} :
    PartOf store (.object ref) w ↔ w ∈ members.map Prod.snd := by
  constructor
  · rintro ⟨_, ⟨⟩, displays⟩
    cases displays with
    | item anatomy =>
      rw [members?_of_sequence anatomy] at cell
      cases cell
    | member cell' isMember =>
      rw [cell] at cell'
      cases cell'
      exact List.mem_map_of_mem isMember
  · rintro isPart
    obtain ⟨member, isMember, rfl⟩ := List.mem_map.1 isPart
    exact ⟨ref, rfl, .member cell isMember⟩

theorem shallow_of_scalar (scalar : v.identity? = none) :
    Shallow (PartOf store) (levels + 1) v ↔ True := by
  refine iff_of_true (shallow_succ_iff.2 ?_) trivial
  rintro w ⟨ref, rfl, -⟩
  cases scalar

section Cells

variable (each : ∀ w, PartOf store (.object ref) w → ∀ t, Grows s t →
  Limits outStops (ofValueWithin levels w) t (fun _ => Shallow (PartOf store) levels w) (Comes t))
include each

theorem limits_ofSequence {items : List Value} (anatomy : store.anatomy ref = .sequence items) :
    Limits outStops (do Run.alloc (.ofItems (← items.mapM (ofValueWithin levels)))) s
      (fun _ => Shallow (PartOf store) (levels + 1) (.object ref)) (Comes s) := by
  have isPart {w : Value} := partOf_iff_of_sequence anatomy (w := w)
  refine (limits_items (fun w _ => Shallow (PartOf store) levels w)
    fun item isItem => each item (isPart.2 isItem)).congr ?_
  intro _
  rw [shallow_succ_iff]
  exact forall_congr' fun _ => imp_congr_left isPart

theorem limits_ofMembers {entries : List (Run String × Value)}
    {members : List (Option WideString × Value)}
    (cell : members? store (store.cell ref) = some members)
    (values : entries.map Prod.snd = members.map Prod.snd)
    (names : ∀ entry ∈ entries, ∀ t, Grows s t → ∃ name, entry.1.runIn t = (.ok name, t)) :
    Limits outStops (recordOf (ofValueWithin levels) entries) s
      (fun _ => Shallow (PartOf store) (levels + 1) (.object ref)) (Comes s) := by
  have isPart {w : Value} : PartOf store (.object ref) w ↔ w ∈ entries.map Prod.snd := by
    rw [values]
    exact partOf_iff_of_members cell
  refine (limits_record (fun w _ => Shallow (PartOf store) levels w) names fun entry isEntry =>
    each entry.2 (isPart.2 (List.mem_map_of_mem isEntry))).congr ?_
  intro _
  rw [shallow_succ_iff]
  exact (forall_congr' fun _ => imp_congr_left isPart).trans List.forall_mem_map

theorem limits_ofFields {fields : List (String × Value)}
    (cell : members? store (store.cell ref) =
      some (fields.map fun field => (some (.text field.1), field.2))) :
    Limits outStops (recordOfNamed (ofValueWithin levels) fields) s
      (fun _ => Shallow (PartOf store) (levels + 1) (.object ref)) (Comes s) := by
  refine limits_ofMembers each cell (by simp) fun entry isEntry t _ => ?_
  obtain ⟨field, -, rfl⟩ := List.mem_map.1 isEntry
  exact ⟨field.1, rfl⟩

/-- A cell is refused with the first of its parts that is. -/
theorem limits_ofCell (typeName : String) (sendable : Sendable store (.object ref)) :
    Limits outStops (ofCell (ofValueWithin levels) typeName ref (store.cell ref)) s
      (fun _ => Shallow (PartOf store) (levels + 1) (.object ref)) (Comes s) := by
  rw [Sendable] at sendable
  cases cell : store.cell ref with
  | list | tuple | set => exact limits_ofSequence each (by rw [anatomy, cell])
  | record | module => exact limits_ofFields each (by rw [cell]; rfl)
  | dict entries frozen =>
    rw [cell] at sendable
    refine limits_ofMembers each (by rw [cell]; rfl) (by simp) fun entry isEntry t _ => ?_
    obtain ⟨pair, isPair, rfl⟩ := List.mem_map.1 isEntry
    obtain ⟨name, isText⟩ := sendable pair isPair
    refine ⟨name, ?_⟩
    rw [isText, runIn_onStore]
    rfl
  | function | mapping | extension | proxy =>
    rw [cell] at sendable
    exact sendable.elim

end Cells

/-- What leads to nothing but what can be sent becomes a script value unless it is nested too deep. -/
theorem limits_ofValueWithin (levels : Nat) (same : s.store = store)
    (sendable : ∀ w, Inside (Displays store) v w → Sendable store w) :
    Limits outStops (ofValueWithin levels v) s (fun _ => Shallow (PartOf store) levels v)
      (Comes s) := by
  induction levels generalizing v s with
  | zero =>
    have isCyclic (kind : String) : outStops () (.fault (.cyclic outName kind)) := ⟨kind, rfl⟩
    exact .refuses rfl (isCyclic _) not_shallow_zero
  | succ levels ih =>
    cases v with
    | object ref =>
      have unfolded : (ofValueWithin (levels + 1) (.object ref)).runIn s =
          (ofCell (ofValueWithin levels) (store.typeName (.object ref)) ref
            (store.cell ref)).runIn s := by
        rw [← same]
        rfl
      refine .of_runIn (limits_ofCell (fun w isPart t grows => ?_) _ (sendable _ .refl)) unfolded
      exact ih (grows.store.trans same) fun u inside => sendable u (.head isPart inside)
    | bytes b =>
      obtain ⟨d, t, made, comes⟩ := comes_alloc
        (.ofItems (b.map fun byte => numberOfInt byte.toNat)) trivial .arrayPrototype
      exact (limits_of_ok made comes).congr fun _ => shallow_of_scalar rfl
    | nothing | bool | int | float | string | time =>
      exact (limits_pure ⟨.refl s, .primitive rfl⟩).congr fun _ => shallow_of_scalar rfl

end Interchange.Script
