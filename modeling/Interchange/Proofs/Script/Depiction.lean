import Interchange.Proofs.Script.Conduct
import Interchange.Proofs.Script.Property
import Interchange.Proofs.Store.Graph

/-!
# What a script sees of a value

`Depicts` says which objects of a script heap stand for a value: an array for a list, tuple or set,
and a record for all that has named parts, in which the entries of a dict go by the texts of their
keys. What a value becomes depicts it (`depicts_ofValue`), and goes on to do so while the heap only
takes more objects (`Depicts.extends`).
-/

namespace Interchange.Script

open Store Run

variable {α β : Type} {s t u : Session} {v : Value} {d : Datum}

/-! ## Reading -/

/-- A result leaves the session as it was. -/
def Run.Reads (run : Run α) : Prop := ∀ s a t, run.runIn s = (.ok a, t) → t = s

namespace Run

variable {run : Run α} {next : α → Run β}

theorem reads_pure (a : α) : (pure a : Run α).Reads := fun _ _ _ h => by cases h; rfl

theorem reads_get : (get : Run Session).Reads := fun _ _ _ h => by cases h; rfl

theorem reads_read (place : Place) : (read place).Reads := fun _ _ _ h => by cases h; rfl

theorem reads_raise (message : WideString) : (raise message : Run α).Reads := fun _ _ _ h => by cases h

theorem Reads.bind (h : run.Reads) (h' : ∀ a, (next a).Reads) : (run >>= next).Reads := by
  intro s b t ran
  obtain ⟨a, u, first, rest⟩ := steps_of_bind ran
  rw [h' a u b t rest, h s a u first]

end Run

theorem reads_ownProperty? (d : Datum) (name : WideString) : (ownProperty? d name).Reads := by
  unfold ownProperty?
  split
  · exact (reads_read _).bind fun _ => reads_pure _
  · exact reads_get.bind fun _ => reads_pure _
  · exact reads_pure _
  · exact reads_pure _

theorem reads_prototypeOf (d : Datum) : (prototypeOf d).Reads := by
  unfold prototypeOf
  split
  · exact (reads_read _).bind fun _ => reads_pure _
  · exact reads_get.bind fun _ => reads_pure _
  · exact reads_pure _
  · exact reads_pure _

theorem reads_findPropertyWithin (depth : Nat) (d : Datum) (name : WideString) :
    (findPropertyWithin depth d name).Reads := by
  induction depth generalizing d with
  | zero => exact reads_pure _
  | succ depth ih =>
    refine (reads_ownProperty? d name).bind fun found => ?_
    split
    · exact reads_pure _
    · refine (reads_prototypeOf d).bind fun prototype => ?_
      split
      · exact reads_pure _
      · exact ih _

theorem reads_put (object : Object) (name : WideString) (d : Datum) : (object.put name d).Reads := by
  unfold Object.put
  cases object.own? name
  case' some found => refine (reads_pure (some found)).bind fun found => ?_
  case' none => refine (reads_get.bind fun _ => reads_findPropertyWithin _ _ _).bind fun found => ?_
  all_goals
    dsimp only
    split
    · exact reads_pure _
    · exact reads_pure _
    · exact reads_raise _
    · exact reads_raise _
    · exact reads_raise _
    · exact reads_pure _

theorem reads_embedded {run : Run α} (h : run.Reads) : (embedded run).Reads := by
  intro s a t ran
  rw [embedded, runIn_tryCatch] at ran
  rcases result : run.runIn s with ⟨stop | b, u⟩
  · rw [result] at ran
    cases stop <;> cases ran
  · rw [result] at ran
    cases ran
    exact h s a t result

/-- The text of a value is read off the store. -/
theorem text_of_onStore {text : String}
    (h : (Run.onStore (Op.text v)).runIn s = (.ok text, t)) : s.store.text? v = some text ∧ t = s := by
  rw [runIn_onStore] at h
  cases found : s.store.text? v with
  | some other =>
    have ran : (Op.text v).runOn s.store = (.ok other, s.store) := by
      rw [Op.text, Op.runOn_bind, Op.runOn_get]
      simp only [found]
      rfl
    rw [ran] at h
    cases h
    exact ⟨rfl, rfl⟩
  | none =>
    have ran : (Op.text v).runOn s.store = (.error .endless, s.store) := by
      rw [Op.text, Op.runOn_bind, Op.runOn_get]
      simp only [found]
      rfl
    rw [ran] at h
    cases h

/-! ## Depictions -/

/-- A later heap has every object of an earlier one where it was. -/
def Extends (heap later : Array Object) : Prop :=
  ∀ (n : Nat) (object : Object), heap[n]? = some object → later[n]? = some object

theorem Extends.refl (heap : Array Object) : Extends heap heap := fun _ _ there => there

theorem Extends.trans {heap later last : Array Object} (first : Extends heap later)
    (next : Extends later last) : Extends heap last :=
  fun n object there => next n object (first n object there)

theorem extends_push (heap : Array Object) (object : Object) : Extends heap (heap.push object) := by
  intro n other there
  have inside : n < heap.size := (Array.getElem?_eq_some_iff.1 there).1
  rwa [Array.getElem?_push, if_neg (Nat.ne_of_lt inside)]

/-- The name that a script has for the entry of a key: the text of the key, if this has an end. -/
def label? (s : Store) (key : Value) : Option WideString := (s.text? key).map .text

theorem label?_of_text? {s : Store} {key : Value} {name : String} (found : s.text? key = some name) :
    label? s key = some (.text name) := by
  rw [label?, found, Option.map_some]

theorem label?_eq_some_iff {s : Store} {key : Value} {name : String} :
    label? s key = some (.text name) ↔ s.text? key = some name := by
  rw [label?, Option.map_eq_some_iff]
  simp

/-- The named parts of a cell with the names that a script has for them. -/
def members? (s : Store) : Cell → Option (List (Option WideString × Value))
  | .dict entries _ => some (entries.map fun entry => (label? s entry.1, entry.2))
  | .record _ fields => some (fields.map fun field => (some (.text field.1), field.2))
  | .module _ fields => some (fields.map fun field => (some (.text field.1), field.2))
  | _ => none

/-- The script value stands for the value, with the objects of the heap. -/
inductive Depicts (s : Store) (heap : Array Object) : Value → Datum → Prop
  | nothing : Depicts s heap .nothing .null
  | bool (b : Bool) : Depicts s heap (.bool b) (.bool b)
  | int (i : Int) : Depicts s heap (.int i) (numberOfInt i)
  | float (x : Binary64) : Depicts s heap (.float x) (.number x)
  | string (text : String) : Depicts s heap (.string text) (.string text)
  | time (t : Instant) : Depicts s heap (.time t) (.string t.text)
  | bytes {b : List UInt8} {place : Place}
      (there : heap[place.index]? = some (.ofItems (b.map fun byte => numberOfInt byte.toNat))) :
      Depicts s heap (.bytes b) (.object place)
  | sequence {ref : Ref} {items : List Value} {ds : List Datum} {place : Place}
      (anatomy : s.anatomy ref = .sequence items) (length : items.length = ds.length)
      (each : ∀ pair ∈ items.zip ds, Depicts s heap pair.1 pair.2)
      (there : heap[place.index]? = some (.ofItems ds)) :
      Depicts s heap (.object ref) (.object place)
  /-- Unless one of them goes by the name of the prototype, the parts are the properties of a
  record that were written one after the other. -/
  | record {ref : Ref} {members : List (Option WideString × Value)}
      {properties : List (WideString × Datum)} {place : Place}
      (cell : members? s (s.cell ref) = some members) (length : members.length = properties.length)
      (names : ∀ pair ∈ members.zip properties, pair.1.1 = some pair.2.1)
      (values : ∀ pair ∈ members.zip properties, Depicts s heap pair.1.2 pair.2.2)
      (there : .text prototypeName ∉ properties.map Prod.fst →
        heap[place.index]? = some (.ofProperties (written properties))) :
      Depicts s heap (.object ref) (.object place)
  | function {ref : Ref} {function : Interchange.Function} {place : Place}
      (cell : s.cell ref = .function function)
      (there : heap[place.index]? = some (.ofFunction (.host ref))) :
      Depicts s heap (.object ref) (.object place)
  /-- A mapping is seen by its methods. -/
  | mapping {ref dict : Ref} {name : String} {frozen : Bool} {place : Place}
      (cell : s.cell ref = .mapping name dict frozen) : Depicts s heap (.object ref) (.object place)

/-- A script value goes on to stand for a value while the heap takes more objects. -/
theorem Depicts.extends {s : Store} {heap later : Array Object} (depicts : Depicts s heap v d)
    (extended : Extends heap later) : Depicts s later v d := by
  induction depicts with
  | nothing => exact .nothing
  | bool b => exact .bool b
  | int i => exact .int i
  | float x => exact .float x
  | string text => exact .string text
  | time t => exact .time t
  | bytes there => exact .bytes (extended _ _ there)
  | sequence anatomy length _ there ih => exact .sequence anatomy length ih (extended _ _ there)
  | record cell length names _ there ih =>
    exact .record cell length names ih fun plain => extended _ _ (there plain)
  | function cell there => exact .function cell (extended _ _ there)
  | mapping cell => exact .mapping cell

/-- What stands for a list has the elements that stand for its own. -/
theorem Depicts.of_list {store : Store} {heap : Array Object} {ref : Ref} {items : List Value}
    {frozen : Bool} (cell : store.cell ref = .list items frozen)
    (depicts : Depicts store heap (.object ref) d) : ∃ place ds, d = .object place ∧
      List.Forall₂ (Depicts store heap) items ds ∧ heap[place.index]? = some (.ofItems ds) := by
  cases depicts with
  | record cell' =>
    rw [cell] at cell'
    cases cell'
  | function cell' | mapping cell' =>
    rw [cell] at cell'
    cases cell'
  | sequence anatomy length each there =>
    rw [Store.anatomy, cell] at anatomy
    cases anatomy
    exact ⟨_, _, rfl, List.forall₂_iff_zip.2 ⟨length, fun isPair => each _ isPair⟩, there⟩

/-- What stands for a dict has a property for each name of a key, written one after the other. -/
theorem Depicts.of_dict {store : Store} {heap : Array Object} {ref : Ref}
    {entries : List (Value × Value)} {frozen : Bool} (cell : store.cell ref = .dict entries frozen)
    (depicts : Depicts store heap (.object ref) d) : ∃ place properties, d = .object place ∧
      List.Forall₂ (fun entry (property : WideString × Datum) =>
        label? store entry.1 = some property.1 ∧ Depicts store heap entry.2 property.2) entries
        properties ∧
      (.text prototypeName ∉ properties.map Prod.fst →
        heap[place.index]? = some (.ofProperties (written properties))) := by
  cases depicts with
  | sequence anatomy =>
    rw [Store.anatomy, cell] at anatomy
    cases anatomy
  | function cell' | mapping cell' =>
    rw [cell] at cell'
    cases cell'
  | @record _ _ properties place cell' length names values there =>
    rw [cell, members?, Option.some.injEq] at cell'
    subst cell'
    have each : List.Forall₂
        (fun (member : Option WideString × Value) (property : WideString × Datum) =>
        member.1 = some property.1 ∧ Depicts store heap member.2 property.2)
        (entries.map fun entry => (label? store entry.1, entry.2)) properties :=
      List.forall₂_iff_zip.2 ⟨length, fun isPair => ⟨names _ isPair, values _ isPair⟩⟩
    exact ⟨place, properties, rfl, List.forall₂_map_left_iff.1 each, there⟩

/-- The heap of a session takes more objects, and the store stays. -/
structure Grows (s t : Session) : Prop where
  store : t.store = s.store
  heap : Extends s.heap t.heap

theorem Grows.refl (s : Session) : Grows s s := ⟨rfl, .refl _⟩

theorem Grows.trans (first : Grows s t) (next : Grows t u) : Grows s u :=
  ⟨next.store.trans first.store, first.heap.trans next.heap⟩

theorem Depicts.grows (depicts : Depicts s.store s.heap v d) (grows : Grows s t) :
    Depicts t.store t.heap v d := by
  rw [grows.store]
  exact depicts.extends grows.heap

/-- A new object is at the place that is answered. -/
theorem grows_alloc {object : Object} (h : (Run.alloc object).runIn s = (.ok d, t)) :
    Grows s t ∧ ∃ place, d = .object place ∧ t.heap[place.index]? = some object := by
  cases h
  exact ⟨⟨rfl, extends_push _ _⟩, _, rfl, Array.getElem?_push_size⟩

/-- What values become stands for them. -/
def Shows (part : Value → Run Datum) : Prop :=
  ∀ v s d t, (part v).runIn s = (.ok d, t) → Grows s t ∧ Depicts t.store t.heap v d

section Parts

variable {part : Value → Run Datum} (shows : Shows part)
include shows

theorem depicts_items {items : List Value} {ds : List Datum}
    (h : (items.mapM part).runIn s = (.ok ds, t)) :
    Grows s t ∧ List.Forall₂ (Depicts t.store t.heap) items ds := by
  induction items generalizing s ds with
  | nil =>
    cases h
    exact ⟨.refl _, .nil⟩
  | cons v rest ih =>
    rw [List.mapM_cons] at h
    obtain ⟨d, u, first, h⟩ := steps_of_bind h
    obtain ⟨others, w, next, h⟩ := steps_of_bind h
    cases h
    obtain ⟨grows, depicts⟩ := shows v s d u first
    obtain ⟨grows', each⟩ := ih next
    exact ⟨grows.trans grows', .cons (depicts.grows grows') each⟩

/-- Members are written to a record one after the other. -/
theorem depicts_members {entries : List (Run String × Value)}
    {members : List (Option WideString × Value)} (values : entries.map Prod.snd = members.map Prod.snd)
    (names : ∀ pair ∈ entries.zip members, ∀ u name w, u.store = s.store →
      pair.1.1.runIn u = (.ok name, w) → pair.2.1 = some (.text name) ∧ w = u)
    {object last : Object}
    (h : (entries.foldlM (fun (object : Object) (entry : Run String × Value) => do
      let name ← entry.1
      let d ← part entry.2
      embedded (object.put name d)) object).runIn s = (.ok last, t)) :
    Grows s t ∧ ∃ properties : List (WideString × Datum),
      List.Forall₂ (fun member property => member.1 = some property.1 ∧
        Depicts t.store t.heap member.2 property.2) members properties ∧
      ∀ before, object = .ofProperties before → .text prototypeName ∉ properties.map Prod.fst →
        last = .ofProperties (properties.foldl
          (fun properties entry => setProperty entry.1 entry.2 properties) before) := by
  induction entries generalizing s object members with
  | nil =>
    obtain rfl : members = [] := List.map_eq_nil_iff.1 values.symm
    cases h
    exact ⟨.refl _, [], .nil, fun _ same _ => same⟩
  | cons entry rest ih =>
    obtain _ | ⟨member, members⟩ := members
    · cases values
    obtain ⟨same, values⟩ := List.cons.inj values
    obtain ⟨named, names⟩ := List.forall_mem_cons.1 names
    rw [List.foldlM_cons] at h
    obtain ⟨next, u, first, later⟩ := steps_of_bind h
    obtain ⟨name, w, found, further⟩ := steps_of_bind first
    obtain ⟨isName, rfl⟩ := named s name w rfl found
    obtain ⟨d, x, converted, put⟩ := steps_of_bind further
    cases reads_embedded (reads_put object name d) _ _ _ put
    obtain ⟨grows, depicts⟩ := shows entry.2 _ d u converted
    obtain ⟨grows', properties, each, last⟩ := ih values
      (fun pair isPair w name w' same => names pair isPair w name w' (same.trans grows.store)) later
    refine ⟨grows.trans grows', (.text name, d) :: properties,
      .cons ⟨isName, same ▸ depicts.grows grows'⟩ each, fun before isRecord plain => ?_⟩
    obtain ⟨plain, others⟩ := not_or.1 (mt List.mem_cons.2 plain)
    subst isRecord
    rw [embedded, runIn_tryCatch, runIn_put (Ne.symm plain)] at put
    cases put
    exact last _ rfl others

/-- What the embedding side makes of a cell with named parts. -/
theorem depicts_record {entries : List (Run String × Value)} {ref : Ref}
    {members : List (Option WideString × Value)}
    (cell : members? s.store (s.store.cell ref) = some members)
    (values : entries.map Prod.snd = members.map Prod.snd)
    (names : ∀ pair ∈ entries.zip members, ∀ u name w, u.store = s.store →
      pair.1.1.runIn u = (.ok name, w) → pair.2.1 = some (.text name) ∧ w = u)
    (h : (recordOf part entries).runIn s = (.ok d, t)) :
    Grows s t ∧ Depicts t.store t.heap (.object ref) d := by
  obtain ⟨object, u, filled, h⟩ := steps_of_bind h
  obtain ⟨grows, properties, each, last⟩ := depicts_members shows values names filled
  obtain ⟨grows', place, rfl, there⟩ := grows_alloc h
  have all := grows.trans grows'
  obtain ⟨length, each⟩ := List.forall₂_iff_zip.1 each
  refine ⟨all, .record (by rwa [all.store]) length (fun _ isPair => (each isPair).1)
    (fun _ isPair => (each isPair).2.grows grows') fun plain => ?_⟩
  rw [there, last [] rfl plain, written]

end Parts

/-- A mapping is seen as a new object. -/
theorem grows_ofMapping {mapping : Ref} (h : (ofMapping mapping).runIn s = (.ok d, t)) :
    Grows s t ∧ ∃ place, d = .object place := by
  have methods {methods : List MappingMethod} {s t : Session} {found : List (WideString × Datum)}
      (h : (methods.mapM (methodEntry mapping)).runIn s = (.ok found, t)) : Grows s t := by
    induction methods generalizing s found with
    | nil =>
      cases h
      exact .refl _
    | cons method rest ih =>
      rw [List.mapM_cons] at h
      obtain ⟨entry, u, first, h⟩ := steps_of_bind h
      obtain ⟨others, w, next, h⟩ := steps_of_bind h
      obtain ⟨d, x, made, first⟩ := steps_of_bind first
      cases h
      cases first
      exact (grows_alloc made).1.trans (ih next)
  obtain ⟨found, u, filled, h⟩ := steps_of_bind h
  obtain ⟨grows, place, same, -⟩ := grows_alloc h
  exact ⟨(methods filled).trans grows, place, same⟩

theorem depicts_ofCell {part : Value → Run Datum} (shows : Shows part) {typeName : String}
    {ref : Ref} (h : (ofCell part typeName ref (s.store.cell ref)).runIn s = (.ok d, t)) :
    Grows s t ∧ Depicts t.store t.heap (.object ref) d := by
  have sequence {items : List Value} (anatomy : s.store.anatomy ref = .sequence items)
      (h : (do Run.alloc (.ofItems (← items.mapM part))).runIn s = (.ok d, t)) :
      Grows s t ∧ Depicts t.store t.heap (.object ref) d := by
    obtain ⟨ds, u, made, h⟩ := steps_of_bind h
    obtain ⟨grows, each⟩ := depicts_items shows made
    obtain ⟨grows', place, rfl, there⟩ := grows_alloc h
    have all := grows.trans grows'
    obtain ⟨length, each⟩ := List.forall₂_iff_zip.1 each
    exact ⟨all, .sequence (by rwa [all.store]) length (fun _ isPair => (each isPair).grows grows')
      there⟩
  have named {fields : List (String × Value)} (cell : members? s.store (s.store.cell ref) =
        some (fields.map fun field => (some (.text field.1), field.2)))
      (h : (recordOfNamed part fields).runIn s = (.ok d, t)) :
      Grows s t ∧ Depicts t.store t.heap (.object ref) d := by
    refine depicts_record shows cell (by simp) (fun pair isPair u name w _ ran => ?_) h
    rw [List.zip_map'] at isPair
    obtain ⟨field, -, rfl⟩ := List.mem_map.1 isPair
    cases ran
    exact ⟨rfl, rfl⟩
  cases cell : s.store.cell ref with
  | list | tuple | set =>
    rw [cell] at h
    exact sequence (by rw [anatomy, cell]) h
  | dict entries frozen =>
    rw [cell] at h
    refine depicts_record shows (by rw [cell]; rfl) (by simp) (fun pair isPair u name w same ran => ?_)
      h
    rw [List.zip_map'] at isPair
    obtain ⟨entry, -, rfl⟩ := List.mem_map.1 isPair
    obtain ⟨isText, rfl⟩ := text_of_onStore ran
    exact ⟨label?_of_text? (same ▸ isText), rfl⟩
  | record | module =>
    rw [cell] at h
    exact named (by rw [cell]; rfl) h
  | function f =>
    rw [cell] at h
    obtain ⟨grows, place, rfl, there⟩ := grows_alloc h
    exact ⟨grows, .function (by rw [grows.store, cell]) there⟩
  | mapping name dict frozen =>
    rw [cell] at h
    obtain ⟨grows, place, rfl⟩ := grows_ofMapping h
    exact ⟨grows, .mapping (by rw [grows.store, cell])⟩
  | extension | proxy =>
    rw [cell] at h
    cases h

theorem shows_ofValueWithin (levels : Nat) : Shows (ofValueWithin levels) := by
  intro v s d t h
  induction levels generalizing v s d t with
  | zero => cases h
  | succ levels ih =>
    cases v with
    | object ref => exact depicts_ofCell ih h
    | bytes b =>
      obtain ⟨grows, place, rfl, there⟩ := grows_alloc h
      exact ⟨grows, .bytes there⟩
    | nothing | bool | int | float | string | time =>
      cases h
      exact ⟨.refl _, by constructor⟩

/-- What a value becomes stands for it, and the store stays as it was. -/
theorem depicts_ofValue (h : (ofValue v).runIn s = (.ok d, t)) :
    Grows s t ∧ Depicts t.store t.heap v d := shows_ofValueWithin _ v s d t h

end Interchange.Script
