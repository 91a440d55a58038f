import Interchange.Proofs.Script.Copying
import Interchange.Proofs.Script.Outward
import Interchange.Script.Standard

/-!
# Levels on the way in

Script values of primitives, arrays and records become values unless they are nested too deep or have
a string that stands for no text (`limits_toValueWithin`). With what is known of the way out, either way
accepts the same nesting (`nesting_outcome`).

An element that an array does not have is read from its prototypes, which takes nothing but the
script's own side of the session (`looks_element`), so that what an array contains does not change
while values are made of its elements.
-/

namespace Interchange.Script

open Store Run

variable {α β : Type} {s t : Session} {d e : Datum} {name : WideString} {levels : Nat}

/-! ## Looking -/

namespace Run

variable {run : Run α} {next : α → Run β} {P : α → Prop} {Q : β → Prop}

/-- A computation that changes nothing and always has a result, which depends on the script's own side
alone. -/
def Looks (run : Run α) (P : α → Prop) : Prop :=
  ∃ f : Array Object → Object → α, (∀ heap globals, P (f heap globals)) ∧
    ∀ s : Session, run.runIn s = (.ok (f s.heap s.globals), s)

theorem looks_pure {a : α} (holds : P a) : (pure a : Run α).Looks P :=
  ⟨fun _ _ => a, fun _ _ => holds, fun _ => rfl⟩

theorem Looks.bind (h : run.Looks P) (h' : ∀ a, P a → (next a).Looks Q) :
    (run >>= next).Looks Q := by
  obtain ⟨f, holds, ran⟩ := h
  choose g holds' ran' using h'
  refine ⟨fun heap globals => g (f heap globals) (holds heap globals) heap globals,
    fun heap globals => holds' _ _ heap globals, fun s => ?_⟩
  rw [runIn_bind, ran]
  exact ran' _ _ s

end Run

/-! ## Elements -/

theorem functionNamed?_ne_guarded (functions : List (String × BuiltinFunction)) (name : WideString) :
    functionNamed? functions name ≠ some .guarded := by
  cases name with
  | broken => simp [functionNamed?]
  | text name =>
    rw [functionNamed?]
    cases functions.lookup name <;> simp

theorem initialGlobal?_ne_guarded (name : WideString) : initialGlobal? name ≠ some .guarded := by
  unfold initialGlobal?
  split
  · simp
  · simp
  · simp
  · simp
  · split
    · simp
    · exact functionNamed?_ne_guarded _ _
  · simp

theorem Object.own?_ne_guarded (object : Object) (name : WideString) :
    object.own? name ≠ some .guarded := by
  obtain ⟨nature, prototype, properties⟩ := object
  rw [Object.own?]
  dsimp only
  cases properties.lookup name with
  | some d => simp
  | none =>
    cases nature with
    | record => simp
    | globals => exact initialGlobal?_ne_guarded name
    | array items =>
      dsimp only
      split
      · simp
      · cases ((arrayIndex? name).bind (items[·]?)).join <;> simp
    | function f =>
      dsimp only
      unfold Function.own?
      split <;> simp
    | error message =>
      dsimp only
      split
      · cases message <;> simp
      · simp

/-- No name but two is guarded. -/
theorem Builtin.own?_ne_guarded (b : Builtin) (caller : name ≠ "caller")
    (arguments : name ≠ "arguments") : b.own? name ≠ some .guarded := by
  unfold Builtin.own?
  cases b with
  | globals => exact initialGlobal?_ne_guarded name
  | library => simp
  | recordPrototype | arrayPrototype =>
    dsimp only
    split
    · simp
    · exact functionNamed?_ne_guarded _ _
  | functionPrototype =>
    dsimp only
    split
    case h_5 => exact absurd rfl caller
    case h_6 => exact absurd rfl arguments
    case h_7 => exact functionNamed?_ne_guarded _ _
    all_goals simp
  | errorPrototype =>
    dsimp only
    split
    · simp
    · simp
    · exact functionNamed?_ne_guarded _ _
  | function f =>
    dsimp only
    split <;> simp

theorem looks_prototypeOf (d : Datum) : (prototypeOf d).Looks fun _ => True := by
  unfold prototypeOf
  split
  · next place =>
    exact ⟨fun heap _ => (heap.getD place.index (.ofProperties [])).prototype,
      fun _ _ => trivial, fun _ => rfl⟩
  · exact ⟨fun _ globals => globals.prototype, fun _ _ => trivial, fun _ => rfl⟩
  · exact looks_pure trivial
  · exact looks_pure trivial

theorem looks_ownProperty? (d : Datum) (caller : name ≠ "caller") (arguments : name ≠ "arguments") :
    (ownProperty? d name).Looks (· ≠ some .guarded) := by
  unfold ownProperty?
  split
  · next place =>
    exact ⟨fun heap _ => (heap.getD place.index (.ofProperties [])).own? name,
      fun _ _ => Object.own?_ne_guarded _ _, fun _ => rfl⟩
  · exact ⟨fun _ globals => globals.own? name, fun _ _ => Object.own?_ne_guarded _ _,
      fun _ => rfl⟩
  · exact looks_pure (Builtin.own?_ne_guarded _ caller arguments)
  · exact looks_pure (by simp)

theorem looks_findProperty? (d : Datum) (caller : name ≠ "caller")
    (arguments : name ≠ "arguments") : (findProperty? d name).Looks (· ≠ some .guarded) := by
  have within (depth : Nat) :
      (findPropertyWithin depth d name).Looks (· ≠ some .guarded) := by
    induction depth generalizing d with
    | zero => exact looks_pure (by simp)
    | succ depth ih =>
      rw [findPropertyWithin]
      refine (looks_ownProperty? d caller arguments).bind fun found plain => ?_
      split
      · exact looks_pure plain
      · refine (looks_prototypeOf d).bind fun prototype _ => ?_
        split
        · exact looks_pure (by simp)
        · exact ih _
  choose f holds ran using within
  refine ⟨fun heap globals => f (heap.size + 4) heap globals, fun heap globals => holds _ _ _,
    fun s => ?_⟩
  rw [findProperty?, runIn_bind, runIn_get]
  exact ran _ s

theorem looks_propertyRead {found : Property} (plain : found ≠ .guarded) (d : Datum) :
    (found.read d).Looks fun _ => True := by
  cases found with
  | data | readOnly | answered => exact looks_pure trivial
  | guarded => exact absurd rfl plain
  | prototype => exact looks_prototypeOf d

theorem isDigit_of_mem_toString {n : Nat} {c : Char} (isChar : c ∈ (toString n).toList) :
    c.isDigit = true := by
  have digits : (toString n).toList = Nat.toDigits 10 n := by
    simp [toString, Nat.repr]
  rw [digits] at isChar
  exact Nat.isDigit_of_mem_toDigits (by decide) (by decide) isChar

/-- An element is read, whether an array has it or not. -/
theorem looks_element (array : Object) (index : Nat) (item : Option Datum) :
    (element array index item).Looks fun _ => True := by
  have other {word : String} (c : Char) (isChar : c ∈ word.toList) (letter : c.isDigit = false) :
      WideString.text (toString index) ≠ .text word := by
    intro same
    obtain rfl := WideString.text.inj same
    rw [isDigit_of_mem_toString isChar] at letter
    cases letter
  cases item with
  | some d => exact looks_pure trivial
  | none =>
    refine (looks_findProperty? _ (other 'c' (by simp) rfl) (other 'a' (by simp) rfl)).bind
      fun found plain => ?_
    split
    · next found => exact looks_propertyRead (fun same => plain (congrArg some same)) _
    · exact looks_pure trivial

/-! ## Parts -/

/-- The parts of a script value: what is read as the elements of an array, and the values of the
properties of a record. -/
inductive Contains (s : Session) : Datum → Datum → Prop
  | element {place : Place} {items : List (Option Datum)} {index : Nat} {item : Option Datum}
      {d : Datum} (isArray : (s.objectAt place).nature = .array items)
      (isItem : items[index]? = some item)
      (read : (element (s.objectAt place) index item).runIn s = (.ok d, s)) :
      Contains s (.object place) d
  | property {place : Place} {property : WideString × Datum}
      (isRecord : (s.objectAt place).nature = .record)
      (isProperty : property ∈ (s.objectAt place).properties) :
      Contains s (.object place) property.2

/-- A primitive that is no symbol, an array or a record; or one of the objects that every session
begins with, unless it is a function or holds the globals. -/
def Receivable (s : Session) : Datum → Prop
  | .symbol => False
  | .object place => (s.objectAt place).nature.IsPlain
  | .builtin b => b ≠ .globals ∧ b.kind ≠ "function"
  | _ => True

/-- The script's own side of a session is that of another. -/
structure Alike (s t : Session) : Prop where
  heap : t.heap = s.heap
  globals : t.globals = s.globals

theorem Alike.refl (s : Session) : Alike s s := ⟨rfl, rfl⟩

theorem Alike.trans {u : Session} (first : Alike s t) (next : Alike t u) : Alike s u :=
  ⟨next.heap.trans first.heap, next.globals.trans first.globals⟩

theorem alike_store (s : Session) (store : Store) : Alike s { s with store } := ⟨rfl, rfl⟩

/-- What an array has at an index is the same on either. -/
theorem exists_element (s : Session) (array : Object) (index : Nat) (item : Option Datum) :
    ∃ d, ∀ t, Alike s t → (element array index item).runIn t = (.ok d, t) := by
  obtain ⟨f, -, ran⟩ := looks_element array index item
  exact ⟨f s.heap s.globals, fun t alike => by rw [ran, alike.heap, alike.globals]⟩

theorem runIn_element_iff {array : Object} {index : Nat} {item : Option Datum} (alike : Alike s t) :
    (element array index item).runIn t = (.ok d, t) ↔
      (element array index item).runIn s = (.ok d, s) := by
  obtain ⟨e, reads⟩ := exists_element s array index item
  rw [reads t alike, reads s (.refl s)]
  simp

theorem contains_iff_of_array {place : Place} {items : List (Option Datum)}
    (isArray : (s.objectAt place).nature = .array items) :
    Contains s (.object place) d ↔ ∃ (index : Nat) (item : Option Datum),
      items[index]? = some item ∧
        (element (s.objectAt place) index item).runIn s = (.ok d, s) := by
  constructor
  · rintro (⟨isArray', isItem, read⟩ | ⟨isRecord, -⟩)
    · rw [isArray] at isArray'
      cases isArray'
      exact ⟨_, _, isItem, read⟩
    · rw [isArray] at isRecord
      cases isRecord
  · rintro ⟨index, item, isItem, read⟩
    exact .element isArray isItem read

theorem contains_iff_of_record {place : Place} (isRecord : (s.objectAt place).nature = .record) :
    Contains s (.object place) d ↔ d ∈ (s.objectAt place).properties.map Prod.snd := by
  rw [List.mem_map]
  constructor
  · rintro (⟨isArray, -, -⟩ | ⟨-, isProperty⟩)
    · rw [isRecord] at isArray
      cases isArray
    · exact ⟨_, isProperty, rfl⟩
  · rintro ⟨property, isProperty, rfl⟩
    exact .property isRecord isProperty

/-! ## Obstacles -/

/-- What may be wrong on the way in. -/
inductive Obstacle where
  | tooDeep
  /-- A string or a name that stands for no text. -/
  | illFormed

/-- How an obstacle stops a conversion. -/
def intoStops : Obstacle → Stop → Prop
  | .tooDeep, stop => Cyclic intoName stop
  | .illFormed, stop => ∃ index, stop = .engine (.illFormed index)

/-- A name that is told. -/
def Told (name : WideString) : Prop := ∃ told, name.beforeNul = .text told

/-- No string that stands for no text, and no record with a name that is not told. -/
def WellFormed (s : Session) : Datum → Prop
  | .string text => ∃ t, text = .text t
  | .object place => (s.objectAt place).nature = .record →
      ∀ property ∈ (s.objectAt place).properties, Told property.1
  | _ => True

/-- An obstacle is not in the way of a script value that may take so many levels. -/
def Clear (s : Session) (levels : Nat) (d : Datum) : Obstacle → Prop
  | .tooDeep => Shallow (Contains s) levels d
  | .illFormed => ∀ e, Relation.ReflTransGen (Contains s) d e → WellFormed s e

/-- Nothing is in the way of a whole exactly when nothing is in that of its parts. -/
theorem clear_succ_iff {k : Obstacle} :
    Clear s (levels + 1) d k ↔
      (k = .illFormed → WellFormed s d) ∧ ∀ e, Contains s d e → Clear s levels e k := by
  cases k with
  | tooDeep => exact shallow_succ_iff.trans (and_iff_right (by rintro ⟨⟩)).symm
  | illFormed =>
    constructor
    · exact fun all => ⟨fun _ => all d .refl, fun e isPart c inside => all c (.head isPart inside)⟩
    · rintro ⟨here, parts⟩ c inside
      obtain rfl | ⟨e, isPart, rest⟩ := inside.cases_head
      · exact here rfl
      · exact parts e isPart c rest

theorem limits_tellName (name : WideString) (base : Session) :
    Limits intoStops (tellName name) base (fun k => k = .illFormed → Told name)
      fun _ t => base = t := by
  rw [tellName, Told]
  cases name.beforeNul with
  | text told => exact .passes rfl rfl fun _ _ => ⟨told, rfl⟩
  | broken units =>
    refine .refuses (k := .illFormed) rfl ⟨_, rfl⟩ fun told => ?_
    obtain ⟨told, ⟨⟩⟩ := told rfl

section Parts

variable {part : Datum → Run Value} {base : Session} {good : Datum → Obstacle → Prop}

/-- A list is refused with the first of its elements that is. -/
theorem limits_listOf {array : Object} {items : List (Option Datum)}
    (each : ∀ (index : Nat) item d, items[index]? = some item →
      (element array index item).runIn base = (.ok d, base) → ∀ t, Alike base t →
        Limits intoStops (part d) t (good d) fun _ => Alike t) :
    Limits intoStops (listOf part array items) base
      (fun k => ∀ (index : Nat) item d, items[index]? = some item →
        (element array index item).runIn base = (.ok d, base) → good d k)
      fun _ => Alike base := by
  have values : Limits intoStops ((items.mapIdx (·, ·)).mapM (elementValue part array)) base
      (fun k => ∀ entry ∈ items.mapIdx (·, ·), ∀ d,
        (element array entry.1 entry.2).runIn base = (.ok d, base) → good d k)
      fun values t => Alike base t ∧ ∀ v ∈ values, True := by
    refine limits_mapM Alike.refl (fun _ _ _ => Alike.trans) (fun _ _ _ _ => id) ?_
    intro entry isEntry t alike
    obtain ⟨index, inside, rfl⟩ := List.mem_mapIdx.1 isEntry
    obtain ⟨d, reads⟩ := exists_element base array index items[index]
    have here := reads base (.refl base)
    have isItem := List.getElem?_eq_getElem inside
    refine (Limits.after_ok (reads t alike) ((each index _ d isItem here t alike).imp
      fun _ u alike => ⟨alike, trivial⟩)).congr fun k => ⟨fun all => all d here, fun holds e read => ?_⟩
    rw [here] at read
    cases read
    exact holds
  have listed : Limits intoStops (listOf part array items) base _ fun _ => Alike base :=
    values.bind_ok fun values t found => ⟨_, _, runIn_onStore_of_ok
      (Op.runOn_new (.list values false)), found.1.trans (alike_store t _)⟩
  refine listed.congr fun k => ⟨fun all entry isEntry d => ?_, fun all index item d isItem => ?_⟩
  · obtain ⟨index, inside, rfl⟩ := List.mem_mapIdx.1 isEntry
    exact all index _ d (List.getElem?_eq_getElem inside)
  · obtain ⟨inside, rfl⟩ := List.getElem?_eq_some_iff.1 isItem
    exact all (index, items[index]) (List.mem_mapIdx.2 ⟨index, inside, rfl⟩) d

/-- So is a dict with the first of its properties, for its name or for the rest of it. -/
theorem limits_dictOf {properties : List (WideString × Datum)}
    (each : ∀ property ∈ properties, ∀ t, Alike base t →
      Limits intoStops (part property.2) t (good property.2) fun _ u =>
        Alike t u ∧ t.store.Enlarges u.store) :
    Limits intoStops (dictOf part properties) base
      (fun k => ∀ property ∈ properties, (k = .illFormed → Told property.1) ∧ good property.2 k)
      fun _ => Alike base := by
  refine .after_ok (runIn_onStore_of_ok (Op.runOn_alloc (.dict [] false))) ?_
  have cell := cell_alloc_self base.store (.dict [] false)
  have alike := alike_store base (base.store.alloc (.dict [] false)).2
  generalize (base.store.alloc (.dict [] false)).1 = dict at cell ⊢
  have filled : Limits intoStops (properties.forM (enterProperty part dict))
      { base with store := (base.store.alloc (.dict [] false)).2 }
      (fun k => ∀ property ∈ properties, (k = .illFormed → Told property.1) ∧ good property.2 k)
      fun _ t => Alike base t ∧ ∃ kept, t.store.cell dict = .dict kept false := by
    refine limits_forM ?_ ⟨alike, [], cell⟩
    rintro property isProperty t ⟨alike, kept, cell⟩
    refine (limits_tellName property.1 t).bind ?_
    rintro name _ rfl
    refine (each property isProperty t alike).bind_ok fun v u ⟨alike', enlarges⟩ => ?_
    -- What is made of the property leaves the dict as it was.
    have inside : dict.index < t.store.size := lt_size_of_isContainer (by rw [cell]; rfl)
    have cell' : u.store.cell dict = .dict kept false := (enlarges.kept dict inside).trans cell
    refine ⟨_, _, runIn_onStore_of_ok (HostValue.runOn_insert_scalar cell' rfl), ?_, _,
      cell_write_self _ _ (Nat.lt_of_lt_of_le inside enlarges.size_le)⟩
    exact (alike.trans alike').trans (alike_store u _)
  exact filled.bind_ok fun _ t found => ⟨_, t, rfl, found.1⟩

end Parts

/-! ## Levels -/

theorem Run.Limits.and_enlarges {good : Obstacle → Prop}
    (limits : Limits intoStops (toValueWithin levels d) t good fun _ => Alike t) :
    Limits intoStops (toValueWithin levels d) t good
      fun _ u => Alike t u ∧ t.store.Enlarges u.store :=
  limits.and fun v u ran => by
    have enlarges := (adds_toValueWithin levels d).enlarges t
    rwa [ran] at enlarges

/-- A leaf has no parts, so that all depends on itself. -/
theorem clear_of_leaf {k : Obstacle} (leaf : ∀ place, d ≠ .object place) :
    Clear s (levels + 1) d k ↔ (k = .illFormed → WellFormed s d) := by
  refine clear_succ_iff.trans (and_iff_left fun e isPart => ?_)
  cases isPart with
  | element | property => exact absurd rfl (leaf _)

theorem limits_leaf {run : Run Value} (leaf : ∀ place, d ≠ .object place)
    (wellFormed : WellFormed s d) (made : ∃ v u, run.runIn t = (.ok v, u) ∧ Alike t u) :
    Limits intoStops run t (Clear s (levels + 1) d) fun _ => Alike t := by
  obtain ⟨_, _, ran, alike⟩ := made
  exact (limits_of_ok ran alike).congr fun _ =>
    iff_of_true ((clear_of_leaf leaf).2 fun _ => wellFormed) trivial

/-- A string is read if it stands for a text. -/
theorem limits_string (text : WideString) (t : Session) :
    Limits intoStops (do return .string (← Run.readText text) : Run Value) t
      (Clear s (levels + 1) (.string text)) fun _ => Alike t := by
  cases text with
  | text text => exact limits_leaf (by simp) ⟨text, rfl⟩ ⟨_, _, rfl, .refl t⟩
  | broken units =>
    refine .refuses (k := .illFormed) rfl ⟨_, rfl⟩ fun clear => ?_
    obtain ⟨text, ⟨⟩⟩ := (clear_of_leaf (by simp)).1 clear rfl

/-- An object is refused with the first of its parts that is. -/
theorem limits_ofObject {place : Place} (alike : Alike s t)
    (receivable : Receivable s (.object place))
    (each : ∀ e, Contains s (.object place) e → ∀ u, Alike t u →
      Limits intoStops (toValueWithin levels e) u (Clear s levels e) fun _ => Alike u) :
    Limits intoStops (ofObject (toValueWithin levels) (s.objectAt place)) t
      (Clear s (levels + 1) (.object place)) fun _ => Alike t := by
  cases nature : (s.objectAt place).nature with
  | array items =>
    have wellFormed : WellFormed s (.object place) := fun isRecord => by
      rw [nature] at isRecord
      cases isRecord
    rw [ofObject_array nature]
    refine (limits_listOf fun index item e isItem read => each e
      (.element nature isItem ((runIn_element_iff alike).1 read))).congr fun k => ?_
    rw [clear_succ_iff, and_iff_right fun _ => wellFormed]
    simp only [contains_iff_of_array nature, runIn_element_iff alike]
    exact ⟨fun all index item e isItem reads => all e ⟨index, item, isItem, reads⟩,
      fun all e ⟨index, item, isItem, reads⟩ => all index item e isItem reads⟩
  | record =>
    rw [ofObject_record nature]
    refine (limits_dictOf fun property isProperty u alike' =>
      (each _ (.property nature isProperty) u alike').and_enlarges).congr fun k => ?_
    rw [clear_succ_iff]
    simp only [contains_iff_of_record nature, List.forall_mem_map, WellFormed, nature,
      forall_const]
    exact ⟨fun ⟨names, parts⟩ property isProperty =>
        ⟨fun isNamed => names isNamed property isProperty, parts property isProperty⟩,
      fun all => ⟨fun isNamed property isProperty => (all property isProperty).1 isNamed,
        fun property isProperty => (all property isProperty).2⟩⟩
  | function | error | globals =>
    rw [Receivable, nature] at receivable
    exact receivable.elim

/-- What contains nothing but what can be received becomes a value unless there is an obstacle. -/
theorem limits_toValueWithin (levels : Nat) (alike : Alike s t)
    (receivable : ∀ e, Relation.ReflTransGen (Contains s) d e → Receivable s e) :
    Limits intoStops (toValueWithin levels d) t (Clear s levels d) fun _ => Alike t := by
  induction levels generalizing d t with
  | zero =>
    have tooDeep : ¬ Clear s 0 d .tooDeep := not_shallow_zero
    cases d <;> exact .refuses (k := .tooDeep) rfl ⟨_, rfl⟩ tooDeep
  | succ levels ih =>
    have here := receivable d .refl
    cases d with
    | object place =>
      have same : t.objectAt place = s.objectAt place := by
        rw [Session.objectAt, alike.heap, Session.objectAt]
      have unfolded : (toValueWithin (levels + 1) (.object place)).runIn t =
          (ofObject (toValueWithin levels) (s.objectAt place)).runIn t := by
        rw [← same]
        rfl
      refine .of_runIn (limits_ofObject alike here fun e isPart u alike' => ?_) unfolded
      exact ih (alike.trans alike') fun c inside => receivable c (.head isPart inside)
    | builtin b =>
      obtain ⟨notGlobals, noFunction⟩ := here
      cases b with
      | globals => exact absurd rfl notGlobals
      | functionPrototype | function => exact absurd rfl noFunction
      | arrayPrototype => exact limits_leaf (by simp) trivial ⟨_, _, rfl, alike_store t _⟩
      | recordPrototype | errorPrototype | library =>
        exact limits_leaf (by simp) trivial ⟨_, _, rfl, alike_store t _⟩
    | symbol => exact here.elim
    | string text => exact limits_string text t
    | number x =>
      rw [toValueWithin]
      split
      · exact limits_leaf (by simp) trivial ⟨_, _, rfl, .refl t⟩
      · exact limits_leaf (by simp) trivial ⟨_, _, rfl, .refl t⟩
    | _ => exact limits_leaf (by simp) trivial ⟨_, _, rfl, .refl t⟩

/-! ## Outcomes -/

/-- How the way in ends: where all strings and names are well-formed, it is limited as the way out.
Where one is not it never succeeds, and that string or name is why unless something is too deep. -/
structure Received (s : Session) (d : Datum) (result : Except Stop Value × Session) : Prop where
  bounded : (∀ e, Relation.ReflTransGen (Contains s) d e → WellFormed s e) →
    Bounded intoName (Contains s) d result
  refused : ∀ e, Relation.ReflTransGen (Contains s) d e → ¬ WellFormed s e →
    ∃ stop t, result = (.error stop, t) ∧ ∃ k, intoStops k stop
  illFormed : ∀ e, Relation.ReflTransGen (Contains s) d e → ¬ WellFormed s e →
    (∀ n b, PathOf (Contains s) n d b → n ≤ maxDepth) →
      ∃ index t, result = (.error (.engine (.illFormed index)), t)

theorem received_toValue
    (receivable : ∀ e, Relation.ReflTransGen (Contains s) d e → Receivable s e) :
    Received s d ((toValue d).runIn s) := by
  have limits := limits_toValueWithin (maxDepth + 1) (.refl s) receivable
  refine ⟨fun wellFormed => ?_, fun e inside broken => ?_, fun e inside broken short => ?_⟩
  · refine limits.bounded .tooDeep .rfl (fun k other => ?_) fun _ => id
    cases k with
    | tooDeep => exact absurd rfl other
    | illFormed => exact wellFormed
  · cases limits with
    | passes _ _ meets => exact absurd (meets .illFormed e inside) broken
    | refuses ran isStop => exact ⟨_, _, ran, _, isStop⟩
  · cases limits with
    | passes _ _ meets => exact absurd (meets .illFormed e inside) broken
    | @refuses _ _ ran obstacle isStop fails =>
      cases obstacle with
      | tooDeep => exact absurd (fun n b path => Nat.lt_succ_of_le (short n b path)) fails
      | illFormed =>
        obtain ⟨index, rfl⟩ := isStop
        exact ⟨index, _, ran⟩

/-- Either way of the exchange succeeds exactly when no path of parts is longer than it may go, and so
refuses everything that leads to a cycle. The way in refuses strings that stand for no text as well. -/
theorem nesting_outcome (s : Session) :
    (∀ v, (∀ w, Relation.ReflTransGen (PartOf s.store) v w → Sendable s.store w) →
      Bounded outName (PartOf s.store) v ((ofValue v).runIn s)) ∧
    (∀ d, (∀ e, Relation.ReflTransGen (Contains s) d e → Receivable s e) →
      Received s d ((toValue d).runIn s)) :=
  ⟨fun _ sendable => (limits_ofValueWithin (maxDepth + 1) rfl sendable).bounded () .rfl
      (fun _ other => absurd rfl other) fun _ => id,
    fun _ => received_toValue⟩

/-- The session that begins with `Object("😀")`: a record of two strings, each with one half of a
pair. -/
def halved : Session where
  heap := #[.ofProperties [("0", .string (.ofUnits [0xD83D])), ("1", .string (.ofUnits [0xDE00]))]]

theorem contains_halved (contains : Contains halved d e) :
    d = .object ⟨0⟩ ∧ ∃ unit, e = .string (.ofUnits [unit]) := by
  cases contains with
  | @element place _ _ _ _ isArray =>
    obtain ⟨_ | _⟩ := place <;> cases isArray
  | @property place property _ isProperty =>
    obtain ⟨_ | _⟩ := place
    · obtain rfl | rfl := List.mem_pair.1 isProperty
      · exact ⟨rfl, _, rfl⟩
      · exact ⟨rfl, _, rfl⟩
    · cases isProperty

theorem receivable_halved (inside : Relation.ReflTransGen (Contains halved) (.object ⟨0⟩) d) :
    Receivable halved d := by
  cases inside with
  | refl => trivial
  | tail _ contains =>
    obtain ⟨-, unit, rfl⟩ := contains_halved contains
    trivial

theorem path_halved {n : Nat} (path : PathOf (Contains halved) n d e) : n ≤ 1 := by
  cases path with
  | here => exact Nat.zero_le 1
  | step first rest =>
    cases rest with
    | here => exact Nat.le_refl 1
    | step next _ =>
      obtain ⟨-, unit, rfl⟩ := contains_halved first
      cases (contains_halved next).1

/-- Half of a pair is a string, and refused by itself and in a record though nothing is too deep. -/
theorem nesting_fails_on_halves :
    (objectOf (.string "😀")).runIn {} = (.ok (.object ⟨0⟩), halved) ∧
    (∀ d, Relation.ReflTransGen (Contains halved) (.object ⟨0⟩) d → Receivable halved d) ∧
    ∀ d ∈ [.object ⟨0⟩, .string (.ofUnits [0xD83D])],
      ¬ Bounded intoName (Contains halved) d ((toValue d).runIn halved) := by
  refine ⟨rfl, fun _ => receivable_halved, fun d isOne bounded => ?_⟩
  obtain ⟨v, t, ran⟩ :=
    bounded.passes fun n b path => Nat.le_trans (path_halved path) (by decide)
  obtain rfl | rfl := List.mem_pair.1 isOne <;> cases ran

/-- A session with a list of lists, a list that holds itself and a record that does. -/
def recurring : Session where
  store := empty.after
    [.newList [.int 1], .newList [.object ⟨0⟩, .object ⟨0⟩], .newList [.object ⟨1⟩],
      .push ⟨2⟩ (.object ⟨2⟩)]
  heap := #[.ofItems [.null], .ofProperties [("items", .object ⟨0⟩), ("self", .object ⟨1⟩)]]

theorem sendable_recurring (v : Value) : Sendable recurring.store v := by
  rcases v with _ | _ | _ | _ | _ | _ | _ | ⟨_ | _ | _ | _⟩ <;> trivial

theorem mem_of_contains_recurring (contains : Contains recurring d e) :
    e ∈ [.null, .object ⟨0⟩, .object ⟨1⟩] := by
  cases contains with
  | @element place _ index item _ isArray isItem reads =>
    obtain ⟨_ | _ | _⟩ := place
    · cases isArray
      obtain _ | _ := index
      · cases isItem
        cases reads
        decide
      · cases isItem
    · cases isArray
    · cases isArray
  | @property place property isRecord isProperty =>
    obtain ⟨_ | _ | _⟩ := place
    · cases isRecord
    · obtain rfl | rfl := List.mem_pair.1 isProperty <;> decide
    · cases isProperty

/-- The record and all that it leads to can be received, and is well-formed. -/
theorem receivable_recurring (inside : Relation.ReflTransGen (Contains recurring) (.object ⟨1⟩) d) :
    Receivable recurring d ∧ WellFormed recurring d := by
  have known : d ∈ [.null, .object ⟨0⟩, .object ⟨1⟩] := by
    cases inside with
    | refl => decide
    | tail _ contains => exact mem_of_contains_recurring contains
  simp only [List.mem_cons, List.not_mem_nil, or_false] at known
  obtain rfl | rfl | rfl := known
  · exact ⟨trivial, trivial⟩
  · exact ⟨trivial, fun isRecord => by cases isRecord⟩
  · refine ⟨trivial, fun _ property isProperty => ?_⟩
    obtain rfl | rfl := List.mem_pair.1 isProperty <;> exact ⟨_, rfl⟩

theorem shallow_recurring : Shallow (PartOf recurring.store) 3 (.object ⟨1⟩) := by
  have outer : recurring.store.anatomy ⟨1⟩ = .sequence [.object ⟨0⟩, .object ⟨0⟩] := rfl
  have inner : recurring.store.anatomy ⟨0⟩ = .sequence [.int 1] := rfl
  refine shallow_succ_iff.2 fun v isPart => ?_
  obtain rfl : v = .object ⟨0⟩ := by simpa using (partOf_iff_of_sequence outer).1 isPart
  refine shallow_succ_iff.2 fun v isPart => ?_
  obtain rfl : v = .int 1 := by simpa using (partOf_iff_of_sequence inner).1 isPart
  exact (shallow_of_scalar rfl).2 trivial

/-- What holds itself is refused either way, a list of lists is not, and one half of a pair is. -/
theorem nesting_outcome_recurring :
    (∃ d t, (ofValue (.object ⟨1⟩)).runIn recurring = (.ok d, t)) ∧
    (∃ kind t, (ofValue (.object ⟨2⟩)).runIn recurring =
      (.error (.fault (.cyclic outName kind)), t)) ∧
    (∃ kind t, (toValue (.object ⟨1⟩)).runIn recurring =
      (.error (.fault (.cyclic intoName kind)), t)) ∧
    ∃ index t, (toValue (.object ⟨0⟩)).runIn halved =
      (.error (.engine (.illFormed index)), t) := by
  obtain ⟨outward, inward⟩ := nesting_outcome recurring
  have listed : PartOf recurring.store (.object ⟨2⟩) (.object ⟨2⟩) :=
    (partOf_iff_of_sequence rfl).2 (by decide)
  have held : Contains recurring (.object ⟨1⟩) (.object ⟨1⟩) :=
    (contains_iff_of_record rfl).2 (by decide)
  have half : Contains halved (.object ⟨0⟩) (.string (.ofUnits [0xD83D])) :=
    (contains_iff_of_record rfl).2 (by decide)
  have received := (nesting_outcome halved).2 _ fun _ => receivable_halved
  refine ⟨(outward _ fun w _ => sendable_recurring w).passes fun n v path => ?_,
    (outward _ fun w _ => sendable_recurring w).cyclic 0 0 _ .here (.step listed .here),
    ((inward _ fun _ inside => (receivable_recurring inside).1).bounded
      fun _ inside => (receivable_recurring inside).2).cyclic 0 0 _ .here (.step held .here),
    received.illFormed _ (.single half) (by rintro ⟨text, ⟨⟩⟩) fun n b path => ?_⟩
  · exact Nat.le_trans (Nat.le_of_lt (shallow_recurring n v path)) (by decide)
  · exact Nat.le_trans (path_halved path) (by decide)

end Interchange.Script
