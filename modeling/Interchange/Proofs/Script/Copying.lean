import Interchange.Proofs.Crossing.Listing
import Interchange.Proofs.Script.Entering
import Interchange.Proofs.Script.Leaving
import Interchange.Proofs.Store.Twin

/-!
# What is made of script values stands apart

Making a value of a script value only adds cells to the store: whatever it comes to, every cell that
was there stays as it was (`Run.Adds`, `adds_toValue`), and so it is with the texts for what a script
throws. What is made is data, of new cells alone; where it is a dict, it has an entry for each
property of the object, under the name that the embedding side is told, as if these were entered one
after the other (`made_toValueWithin`).
-/

namespace Interchange

namespace Store

/-- A store has more cells than another, and those of the other as they were. -/
structure Enlarges (s t : Store) : Prop where
  size_le : s.size ≤ t.size
  kept : s.Keeps t

theorem Enlarges.refl (s : Store) : Enlarges s s := ⟨Nat.le_refl _, fun _ _ => rfl⟩

theorem Enlarges.trans {s m t : Store} (first : Enlarges s m) (next : Enlarges m t) :
    Enlarges s t where
  size_le := Nat.le_trans first.size_le next.size_le
  kept := fun ref inside =>
    (next.kept ref (Nat.lt_of_lt_of_le inside first.size_le)).trans (first.kept ref inside)

end Store

namespace Script

open HostValue Store Run

variable {α β : Type} {s : Session} {d : Datum}

namespace Run

variable {run : Run α} {next : α → Run β} {P Q : Store → α → Prop} {R : Store → β → Prop}

/-- Whatever a computation comes to, the cells that were there stay as they were, and what is added
for a result has a property wherever the added cells are. -/
def Adds (run : Run α) (Q : Store → α → Prop) : Prop :=
  ∀ s : Session, Built (fun _ => False) s.store (run.runIn s).2.store fun u =>
    ∀ a, (run.runIn s).1 = .ok a → Q u a

theorem adds_pure {a : α} (holds : ∀ u, Q u a) : (pure a : Run α).Adds Q :=
  fun _ => .refl fun u _ same => by cases same; exact holds u

theorem adds_throw (stop : Stop) : (throw stop : Run α).Adds Q :=
  fun _ => .refl fun _ _ same => by cases same

theorem Leaves.adds (h : run.Leaves) : run.Adds fun _ _ => True := by
  intro s
  rw [h s]
  exact .refl fun _ _ _ => trivial

theorem Adds.imp (h : run.Adds P) (weaker : ∀ u a, P u a → Q u a) : run.Adds Q :=
  fun s => (h s).imp fun u all a same => weaker u a (all a same)

theorem Adds.enlarges (adds : run.Adds Q) (s : Session) :
    s.store.Enlarges (run.runIn s).2.store where
  size_le := (adds s).size_le
  kept := fun ref inside => (adds s).kept ref inside not_false

theorem Adds.bind (h : run.Adds P) (h' : ∀ a, (next a).Adds fun u b => P u a → R u b) :
    (run >>= next).Adds R := by
  intro s
  have first := h s
  rw [runIn_bind]
  generalize run.runIn s = result at first
  rcases result with ⟨stop | a, t⟩
  · exact first.imp fun u _ b same => by cases same
  · exact (first.trans (h' a t) fun _ => False.elim).imp fun u both b same =>
      both.2 b same (both.1 a rfl)

theorem Adds.tryCatch {handle : Stop → Run α} (h : run.Adds Q)
    (h' : ∀ stop, (handle stop).Adds Q) : (tryCatch run handle).Adds Q := by
  intro s
  have first := h s
  rw [runIn_tryCatch]
  generalize run.runIn s = result at first
  rcases result with ⟨stop | a, t⟩
  · exact (first.trans (h' stop t) fun _ => False.elim).imp fun u both => both.2
  · exact first

theorem Adds.mapM {f : β → Run α} {items : List β} (each : ∀ b, (f b).Adds Q) :
    (items.mapM f).Adds fun u results => ∀ a ∈ results, Q u a := by
  induction items with
  | nil => exact adds_pure fun _ => List.forall_mem_nil _
  | cons b rest ih =>
    rw [List.mapM_cons]
    refine (each b).bind fun a => ih.bind fun others => adds_pure fun u all holds => ?_
    exact List.forall_mem_cons.2 ⟨holds, all⟩

theorem adds_new (c : Cell) :
    (onStore (Op.new c)).Adds fun u v => ∃ r, v = .object r ∧ u.cell r = c := by
  intro s
  rw [runIn_onStore, Op.runOn_new]
  refine ((Built.refl fun _ => trivial).alloc c).imp fun u both v same => ?_
  cases same
  exact ⟨_, rfl, both.2⟩

end Run

/-! ## Entries under names -/

section Names

variable {told : List (String × Value)}

theorem collapse_textEntries (told : List (String × Value)) :
    collapse scalarEqual (textEntries told) = textEntries (collapse (· == ·) told) := by
  have each : List.Forall₂ (fun (entry : Value × Value) (field : String × Value) =>
      entry.1 = .string field.1 ∧ entry.2 = field.2) (textEntries told) told :=
    List.forall₂_map_left_iff.2 (List.forall₂_same.2 fun _ _ => ⟨rfl, rfl⟩)
  have agree : ∀ (key other : Value) (name name' : String), key = .string name →
      other = .string name' → scalarEqual key other = (name == name') := by
    rintro _ _ _ _ rfl rfl
    rfl
  refine List.forall₂_eq_eq_eq ▸ List.forall₂_map_right_iff.2 ((forall₂_collapse agree each).imp ?_)
  exact fun _ _ both => Prod.ext both.1 both.2

theorem nodup_collapse (told : List (String × Value)) :
    ((collapse (· == ·) told).map Prod.fst).Nodup :=
  List.pairwise_map.2 ((pairwise_collapse _ told).imp fun differ =>
    Ne.symm (bne_iff_ne.1 (Bool.not_eq_true' _ ▸ differ)))

end Names

/-! ## Values of script values -/

/-- What is made of something with these properties: data, and if it is a dict, then one with an
entry for each of the properties, in their order, under the name that is told. -/
structure Made (u : Store) (properties : List (WideString × Datum)) (v : Value) : Prop where
  data : u.Data v
  entries : ∀ ref entries frozen, v = .object ref → u.cell ref = .dict entries frozen →
    frozen = false ∧ ∃ told : List (String × Value),
      told.map (fun field => .text field.1) = properties.map (fun property => property.1.beforeNul) ∧
      entries = textEntries (collapse (· == ·) told)

theorem made_scalar {u : Store} {v : Value} (scalar : v.identity? = none)
    (properties : List (WideString × Datum)) : Made u properties v where
  data := .scalar scalar
  entries := fun ref _ _ same => by cases same; cases scalar

theorem made_list {u : Store} {r : Ref} {values : List Value} (cell : u.cell r = .list values false)
    (each : ∀ v ∈ values, u.Data v) (properties : List (WideString × Datum)) :
    Made u properties (.object r) where
  data := .sequence (by rw [anatomy, cell]) each
  entries := fun ref _ _ same isDict => by
    cases same
    rw [cell] at isDict
    cases isDict

theorem made_dict {u : Store} {r : Ref} {properties : List (WideString × Datum)}
    {told : List (String × Value)}
    (cell : u.cell r = .dict (textEntries (collapse (· == ·) told)) false)
    (each : List.Forall₂ (fun property field =>
      property.1.beforeNul = .text field.1 ∧ u.Data field.2) properties told) :
    Made u properties (.object r) where
  data := by
    refine .dict cell (fun entry isEntry => ?_) fun entry isEntry => ?_
    all_goals obtain ⟨field, isField, rfl⟩ := List.mem_map.1 isEntry
    · exact .scalar rfl
    · obtain ⟨other, isOther, same⟩ := List.mem_map.1 (value_mem_of_mem_collapse isField)
      obtain ⟨_, -, -, data⟩ := exists_left each isOther
      exact same ▸ data
  entries := fun ref _ _ same isDict => by
    cases same
    rw [cell] at isDict
    cases isDict
    exact ⟨rfl, told, (map_eq_of_forall₂ each fun _ _ both => both.1).symm, rfl⟩

section Parts

variable {part : Datum → Run Value} (each : ∀ d, (part d).Adds fun u v => u.Data v)
include each

/-- Filling a dict with what is made of properties leaves every other cell as it was. -/
theorem fills (dict : Ref) (properties : List (WideString × Datum)) (s : Session)
    (inside : dict.index < s.store.size) {kept : List (Value × Value)}
    (cell : s.store.cell dict = .dict kept false) :
    ∃ told result t, (properties.forM (enterProperty part dict)).runIn s = (result, t) ∧
      t.store.cell dict = .dict (enterAll scalarEqual kept (textEntries told)) false ∧
      Built (· = dict) s.store t.store fun u => ∀ a, result = .ok a →
        List.Forall₂ (fun property field =>
          property.1.beforeNul = .text field.1 ∧ u.Data field.2) properties told := by
  induction properties generalizing s kept with
  | nil => exact ⟨[], .ok (), s, rfl, cell, .refl fun _ _ _ => .nil⟩
  | cons property rest ih =>
    have named := runIn_tellName (s := s) property.1
    obtain ⟨name, told, named⟩ | ⟨index, stopped⟩ := named
    case inr =>
      exact ⟨[], _, s, runIn_bind_of_error (runIn_bind_of_error stopped), cell,
        .refl fun _ _ same => by cases same⟩
    have built := each property.2 s
    rcases ran : (part property.2).runIn s with ⟨stop | v, m⟩
    all_goals
      rw [ran] at built
      have here : m.store.cell dict = .dict kept false := by
        rw [built.kept dict inside not_false, cell]
    · refine ⟨[], .error stop, m, ?_, here, built.size_le, fun ref old _ =>
        built.kept ref old not_false, fun _ _ _ same => by cases same⟩
      exact runIn_bind_of_error ((runIn_bind_of_ok named).trans (runIn_bind_of_error ran))
    · have first := runIn_enterProperty told ran here
      have within : dict.index < m.store.size := Nat.lt_of_lt_of_le inside built.size_le
      generalize put : enter scalarEqual (.string name) v kept = next at first
      obtain ⟨others, result, t, filled, last, built'⟩ := ih
        { m with store := m.store.write dict (.dict next false) } (by rwa [size_write])
        (cell_write_self m.store _ within)
      rw [← put] at last
      have entered := built.write inside (.dict next false)
      refine ⟨(name, v) :: others, result, t,
        (runIn_bind_of_ok first).trans filled, last, ?_⟩
      exact (entered.trans built' fun _ isDict => isDict ▸ inside).imp fun u both a same =>
        .cons ⟨told, both.1 v rfl⟩ (both.2 a same)

theorem adds_dictOf (properties : List (WideString × Datum)) :
    (dictOf part properties).Adds fun u v => Made u properties v := by
  intro s
  obtain ⟨told, result, t, filled, cell, built⟩ := fills each (s.store.alloc (.dict [] false)).1
    properties { s with store := (s.store.alloc (.dict [] false)).2 }
    (by rw [size_alloc]; exact Nat.lt_succ_self _) (cell_alloc_self s.store (.dict [] false))
  rw [enterAll_nil, collapse_textEntries] at cell
  have filled' := built.fill cell
  rw [runIn_dictOf filled]
  cases result with
  | error stop => exact filled'.imp fun u _ v same => by cases same
  | ok a =>
    refine filled'.imp fun u both v same => ?_
    cases same
    exact made_dict both.2 (both.1 a rfl)

theorem adds_listOf (array : Object) (items : List (Option Datum))
    (properties : List (WideString × Datum)) :
    (listOf part array items).Adds fun u v => Made u properties v := by
  have values (entry : Nat × Option Datum) :
      (elementValue part array entry).Adds fun u v => u.Data v :=
    (leaves_element array entry.1 entry.2).adds.bind fun d => (each d).imp fun _ _ data _ => data
  refine (Adds.mapM values).bind fun values => (adds_new (.list values false)).imp ?_
  rintro u _ ⟨r, rfl, cell⟩ all
  exact made_list cell all properties

theorem adds_ofObject (object : Object) :
    (ofObject part object).Adds fun u v => Made u object.properties v := by
  cases nature : object.nature with
  | array items => exact ofObject_array nature ▸ adds_listOf each object items _
  | record => exact ofObject_record nature ▸ adds_dictOf each _
  | globals => exact ofObject_globals nature ▸ adds_dictOf each _
  | function | error =>
    simp only [ofObject, nature]
    exact adds_throw _

end Parts

/-- The object at a place. -/
def Session.objectAt (s : Session) (place : Place) : Object :=
  s.heap.getD place.index (.ofProperties [])

/-- The properties of a script value that a dict is made of. -/
def ownProperties (s : Session) : Datum → List (WideString × Datum)
  | .object place => (s.objectAt place).properties
  | .builtin .globals => s.globals.properties
  | _ => []

/-- Whatever is made of a script value stands in new cells, and it is data. -/
theorem made_toValueWithin (levels : Nat) (d : Datum) (s : Session) :
    Built (fun _ => False) s.store ((toValueWithin levels d).runIn s).2.store fun u =>
      ∀ v, ((toValueWithin levels d).runIn s).1 = .ok v → Made u (ownProperties s d) v := by
  induction levels generalizing d s with
  | zero =>
    have refused : (toValueWithin 0 d).Adds fun u v => Made u (ownProperties s d) v :=
      (leaves_kindOf d).adds.bind fun _ => adds_throw _
    exact refused s
  | succ levels ih =>
    have each (d : Datum) : (toValueWithin levels d).Adds fun u v => u.Data v :=
      fun s => (ih d s).imp fun u all v same => (all v same).data
    have scalar (v : Value) (same : v.identity? = none) :
        (pure v : Run Value).Adds fun u v => Made u (ownProperties s d) v :=
      adds_pure fun _ => made_scalar same _
    have read (text : WideString) : (do return .string (← Run.readText text) : Run Value).Adds
        fun u v => Made u (ownProperties s d) v :=
      (leaves_readText text).adds.bind fun _ => adds_pure fun _ _ => made_scalar rfl _
    cases d with
    | undefined => exact scalar .nothing rfl s
    | null => exact scalar .nothing rfl s
    | bool b => exact scalar (.bool b) rfl s
    | string text => exact read text s
    | bigint i => exact scalar (.int i) rfl s
    | number x =>
      rw [toValueWithin]
      split
      · exact scalar _ rfl s
      · exact scalar _ rfl s
    | symbol =>
      have refused : (toValueWithin (levels + 1) .symbol).Adds fun u v => Made u [] v :=
        (leaves_kindOf _).adds.bind fun _ => adds_throw _
      exact refused s
    | object place => exact adds_ofObject each _ s
    | builtin b =>
      have plain : (if b.kind = "function" then throw (.fault (.unsupported intoName b.kind))
          else do return .object (← Run.onStore Dict.alloc) : Run Value).Adds
            fun u v => Made u [] v := by
        split
        · exact adds_throw _
        · refine (adds_new (.dict [] false)).imp ?_
          rintro u _ ⟨r, rfl, cell⟩
          exact made_dict (by rw [cell, collapse_eq_nil.2 rfl]; rfl) .nil
      cases b with
      | globals => exact adds_ofObject each s.globals s
      | arrayPrototype =>
        refine ((adds_new (.list [] false)).imp ?_) s
        rintro u _ ⟨r, rfl, cell⟩
        exact made_list cell (List.forall_mem_nil _) _
      | recordPrototype | functionPrototype | errorPrototype | library | function => exact plain s

theorem adds_toValueWithin (levels : Nat) (d : Datum) :
    (toValueWithin levels d).Adds fun _ _ => True :=
  fun s => (made_toValueWithin levels d s).imp fun _ _ _ _ => trivial

theorem adds_toValue (d : Datum) : (toValue d).Adds fun _ _ => True := adds_toValueWithin _ d

/-! ## Texts for what stops a run -/

theorem adds_thrownText (d : Datum) : (thrownText d).Adds fun _ _ => True := by
  have plain : (do
      let kind ← kindOf d
      tryCatch (do Run.onStore (Op.text (← toValue d))) fun _ => return kind : Run String).Adds
        fun _ _ => True :=
    (leaves_kindOf d).adds.bind fun kind => Adds.imp (P := fun _ _ => True)
      (((adds_toValue d).bind fun v => (leaves_text v).adds.imp fun _ _ _ _ => trivial).tryCatch
        fun _ => adds_pure fun _ => trivial) fun _ _ _ _ => trivial
  cases d with
  | object place =>
    refine (leaves_read place).adds.bind fun object => ?_
    split
    · exact adds_pure fun _ _ => trivial
    · exact ((leaves_readText _).adds.tryCatch fun _ => adds_pure fun _ => trivial).imp
        fun _ _ _ _ => trivial
    · exact plain.imp fun _ _ _ _ => trivial
  | _ => exact plain

theorem adds_stopText (stop : Stop) : (stopText stop).Adds fun _ _ => True := by
  cases stop with
  | fault | engine | uncaught => exact adds_pure fun _ => trivial
  | thrown d => exact (adds_thrownText d).bind fun _ => adds_pure fun _ _ => trivial

end Script
end Interchange
