import Interchange.Proofs.History
import Interchange.Proofs.Store.Steady

/-!
# Frozen for good

Two flags guard a shared mapping, its own and that of its dict. Freezing the mapping sets both
(`sealed_freeze`), no step takes one back, and with both set every way to write is refused, be it
through the mapping or on the dict itself (`Mapping.Refuses`). What is read stays what it was
(`Mapping.Answers`). `Reachable.frozen_for_good` puts this together for everything that can happen
to a store in use.
-/

namespace Interchange

open Store

/-- A frozen mapping over a frozen dict. -/
structure Mapping.Sealed (s : Store) (ref : Ref) (name : String) (dict : Ref)
    (entries : List (Value × Value)) : Prop where
  mapping : s.cell ref = .mapping name dict true
  under : s.cell dict = .dict entries true

/-- Every way to write through a mapping is refused, and leaves the store as it is. -/
structure Mapping.Refuses (s : Store) (ref : Ref) (name : String) : Prop where
  setKey : ∀ key value, (setKey ref key value).runOn s = (.error (.frozen "set_key" name), s)
  deleteKey : ∀ key, (deleteKey ref key).runOn s = (.error (.frozen "delete_key" name), s)
  loadJson : ∀ text, (loadJson ref text).runOn s = (.error (.frozen "load_json" name), s)
  clear : ∀ call, (run call ref .clear []).runOn s = (.error (.frozen "clear" name), s)
  pop : ∀ call args, 1 ≤ args.length → args.length ≤ 2 →
    (run call ref .pop args).runOn s = (.error (.frozen "delete_key" name), s)
  update : ∀ call other entries flag, s.cell other = .dict entries flag →
    (run call ref .update [.object other]).runOn s = (.error (.frozen "update" name), s)

/-- What a mapping answers is of these entries, in this order. A look-up under a steady key has an
answer; under another key its comparisons may have no end. -/
structure Mapping.Answers (s : Store) (ref : Ref) (held : List (Value × Value)) : Prop where
  entries : (entries ref).runOn s = (.ok held, s)
  keys : (keys ref).runOn s = (.ok (held.map Prod.fst), s)
  size : (size ref).runOn s = (.ok held.length, s)
  cloneDict : (cloneDict ref).runOn s =
    (.ok (.object (s.alloc (.dict held false)).1), (s.alloc (.dict held false)).2)
  get? : ∀ key, s.checkHashable key = .ok () → (get? ref key).runOn s =
    if s.lookUpEnds key (held.map Prod.fst) then (.ok (s.lookup? key held), s)
    else (.error .endless, s)
  contains : ∀ key, s.checkHashable key = .ok () → (contains ref key).runOn s =
    if s.lookUpEnds key (held.map Prod.fst) then (.ok (s.lookup? key held).isSome, s)
    else (.error .endless, s)
  ends : ∀ key, s.Has key → s.Steady key → s.lookUpEnds key (held.map Prod.fst) = true

namespace Mapping

variable {s t : Store} {ref dict : Ref} {name : String} {entries : List (Value × Value)}

theorem runOn_read {frozen : Bool} (cell : s.cell ref = .mapping name dict frozen) :
    (read ref).runOn s = (.ok ⟨name, dict, frozen⟩, s) := by
  rw [read, Op.runOn_bind, Op.runOn_cell, cell]
  rfl

theorem Sealed.evolves (h : Sealed s ref name dict entries) (evolves : s.Evolves t) :
    Sealed t ref name dict entries where
  mapping := by rw [evolves.cell_of_isFrozen (by rw [h.mapping]; rfl), h.mapping]
  under := by rw [evolves.cell_of_isFrozen (by rw [h.under]; rfl), h.under]

/-- Whatever checks the flag before it goes on is refused. -/
theorem Sealed.refuses {α : Type} (h : Sealed s ref name dict entries) (op : String)
    (next : Mapping → Op α) :
    (do let mapping ← read ref; mapping.checkMutable op; next mapping : Op α).runOn s =
      (.error (.frozen op name), s) := by
  rw [Op.runOn_bind, runOn_read h.mapping]
  rfl

/-- A method whose arguments are accepted in number goes on to its body. -/
theorem runOn_run_of_count {call : Ref → List Value → Op Value} (method : Method)
    (args : List Value) {body : Op Value}
    (count : Arguments.checkCount method.name args.length (arity method).1 (arity method).2 = .ok ())
    (isBody : run call ref method args = do
      Op.ofExcept (Arguments.checkCount method.name args.length (arity method).1 (arity method).2)
      body) : (run call ref method args).runOn s = body.runOn s := by
  rw [isBody, count]
  rfl

/-- An update by a dict writes its entries. -/
theorem runOn_run_update {call : Ref → List Value → Op Value} {other : Ref} {flag : Bool}
    (cell : s.cell other = .dict entries flag) : (run call ref .update [.object other]).runOn s =
      (update ref other >>= fun _ => pure Value.nothing).runOn s := by
  have isDict : s.unpack .dict (.object other) = .ok other := if_pos (by rw [cell])
  have taken : Arguments.optional s Method.update.name .dict [.object other] 0 =
      .ok (some other) := by
    have held : Arguments.unpackAt s Method.update.name .dict (.object other) 0 = .ok other := by
      rw [Arguments.unpackAt, isDict]
    rw [Arguments.optional, List.getElem?_cons_zero]
    simp only [held]
  rw [runOn_run_of_count .update [.object other] rfl rfl, Op.runOn_bind, Op.runOn_get]
  simp only [taken]
  rfl

theorem Sealed.refusesAll (h : Sealed s ref name dict entries) : Refuses s ref name where
  setKey := fun key value => h.refuses "set_key" _
  deleteKey := fun key => h.refuses "delete_key" _
  loadJson := fun text => h.refuses "load_json" _
  clear := fun call => by
    have cleared : (clear ref).runOn s = (.error (.frozen "clear" name), s) := h.refuses "clear" _
    rw [runOn_run_of_count .clear [] rfl rfl, Op.runOn_bind, cleared]
  pop := fun call args least most => by
    have deleted : (deleteKey ref (args.headD .nothing)).runOn s =
        (.error (.frozen "delete_key" name), s) := h.refuses "delete_key" _
    have count : Arguments.checkCount Method.pop.name args.length 1 2 = .ok () :=
      if_neg (by omega)
    have body : (run call ref .pop args).runOn s =
        (Mapping.pop ref (args.headD .nothing) args[1]?).runOn s :=
      runOn_run_of_count .pop args count rfl
    rw [body, Mapping.pop, Op.runOn_bind, deleted]
  update := fun call other entries flag cell => by
    have updated : (update ref other).runOn s = (.error (.frozen "update" name), s) :=
      h.refuses "update" _
    rw [runOn_run_update cell, Op.runOn_bind, updated]

theorem Sealed.answers (h : Sealed s ref name dict entries) (sound : s.Sound) :
    Answers s ref entries := by
  have dictEntries : s.dictEntries dict = entries := by
    rw [Store.dictEntries, h.under]
  have found : (Mapping.entries ref).runOn s = (.ok entries, s) := by
    rw [Mapping.entries, Op.runOn_bind, runOn_read h.mapping]
    simp only [Dict.runOn_entries, dictEntries]
  have got (key : Value) (hashable : s.checkHashable key = .ok ()) :
      (Mapping.get? ref key).runOn s =
        if s.lookUpEnds key (entries.map Prod.fst) then (.ok (s.lookup? key entries), s)
        else (.error .endless, s) := by
    rw [Mapping.get?, Op.runOn_bind, runOn_read h.mapping]
    simp only [Dict.runOn_get?, hashable, dictEntries]
  refine ⟨found, ?_, ?_, ?_, got, fun key hashable => ?_, fun key has steady =>
    lookUpEnds_of_steady sound.aged has steady (sound.keys h.under).has⟩
  · rw [Mapping.keys, Op.runOn_bind, found]
    rfl
  · rw [Mapping.size, Op.runOn_bind, found]
    rfl
  · rw [Mapping.cloneDict, Op.runOn_bind, runOn_read h.mapping]
    simp only [Op.runOn_bind, Dict.runOn_clone, dictEntries]
    rfl
  · rw [Mapping.contains, Op.runOn_bind, got key hashable]
    cases s.lookUpEnds key (entries.map Prod.fst) <;> rfl

/-! ## Look-ups -/

/-- A look-up finds the same at any later time under a key that lasts, or that is not hashable. -/
theorem Sealed.get?_eq (h : Sealed s ref name dict entries) (sound : s.Sound)
    (evolves : s.Evolves t) {key : Value} (has : s.Has key)
    (lasts : s.checkHashable key = .ok () → s.Lasts key) :
    ((get? ref key).runOn t).1 = ((get? ref key).runOn s).1 := by
  have looked {u : Store} (h : Sealed u ref name dict entries) :
      ((get? ref key).runOn u).1 = (u.checkHashable key).bind fun _ =>
        if u.lookUpEnds key (entries.map Prod.fst) then .ok (u.lookup? key entries)
        else .error .endless := by
    have dictEntries : u.dictEntries dict = entries := by
      rw [Store.dictEntries, h.under]
    rw [get?, Op.runOn_bind, runOn_read h.mapping]
    simp only [Dict.runOn_get?, dictEntries]
    cases u.checkHashable key with
    | error fault => rfl
    | ok _ => cases u.lookUpEnds key (entries.map Prod.fst) <;> rfl
  rw [looked h, looked (h.evolves evolves), checkHashable_eq sound.aged evolves has]
  cases hashable : s.checkHashable key with
  | error fault => rfl
  | ok _ =>
    have keys := sound.keys h.under
    have steady := (lasts hashable).steady
    have ends : s.lookUpEnds key (entries.map Prod.fst) = true :=
      lookUpEnds_of_steady sound.aged has steady keys.has
    have later : t.lookUpEnds key (entries.map Prod.fst) = true :=
      lookUpEnds_of_steady (evolves.aged sound.aged) (evolves.has has)
        ((steady_iff evolves sound.aged has).2 steady)
        fun other isKey => evolves.has (keys.has other isKey)
    change (if t.lookUpEnds key _ then _ else _) = if s.lookUpEnds key _ then _ else _
    rw [if_pos ends, if_pos later, lookup?_eq evolves sound.aged has steady
      fun entry isEntry => (keys entry isEntry).1]

theorem runOn_contains (key : Value) : ((contains ref key).runOn s).1 =
    ((get? ref key).runOn s).1.map Option.isSome := by
  rw [contains, Op.runOn_bind]
  rcases (get? ref key).runOn s with ⟨_ | _, _⟩ <;> rfl

end Mapping

namespace Store

variable {s t : Store} {ref dict : Ref} {name : String}

/-! ## Both flags -/

/-- A frozen mapping is over a frozen dict. -/
theorem Sound.sealed (sound : s.Sound) (cell : s.cell ref = .mapping name dict true) :
    Mapping.Sealed s ref name dict (s.dictEntries dict) := by
  obtain ⟨entries, flag, under, behind⟩ := sound.wrapped ref name dict true cell
  rw [behind rfl] at under
  exact ⟨cell, by rw [dictEntries, under]⟩

/-- Freezing a mapping sets its flag and that of its dict. -/
theorem sealed_freeze (sound : s.Sound) {flag : Bool} (cell : s.cell ref = .mapping name dict flag) :
    Mapping.Sealed (s.freeze (.object ref)) ref name dict (s.dictEntries dict) := by
  have container : (s.cell ref).isContainer = true := by rw [cell]; rfl
  have flagged := freeze_flagged s (.object ref)
  have frozenSound : (s.freeze (.object ref)).Sound := (Step.freeze (.object ref)).sound sound
  have tight := (freeze_settled sound.toWalkable sound.settled (.object ref)).2
  have frozen := tight.isFrozen ((flagged.isContainer_eq ref).trans container)
  have mapping : (s.freeze (.object ref)).cell ref = .mapping name dict true := by
    rcases flagged.cell ref with same | marked
    · rw [same, cell] at frozen
      rw [same, cell, show flag = true from frozen]
    · rw [marked, cell]
      rfl
  have entries : (s.freeze (.object ref)).dictEntries dict = s.dictEntries dict := by
    rcases flagged.cell dict with same | marked
    · rw [dictEntries, dictEntries, same]
    · rw [dictEntries, dictEntries, marked]
      cases s.cell dict <;> rfl
  rw [← entries]
  exact frozenSound.sealed mapping

/-- The contents of what is frozen stay as they are, those of a mapping among them. -/
theorem Evolves.anatomy_of_isFrozen (h : s.Evolves t) (sound : s.Sound)
    (frozen : (s.cell ref).isFrozen = true) : t.anatomy ref = s.anatomy ref := by
  have same := h.cell_of_isFrozen frozen
  unfold anatomy
  rw [same]
  cases cell : s.cell ref with
  | mapping name dict flag =>
    rw [cell] at frozen
    have isTrue : flag = true := frozen
    have under := (sound.sealed (isTrue ▸ cell)).under
    have sameDict : t.cell dict = s.cell dict := h.cell_of_isFrozen (by rw [under]; rfl)
    simp only [dictEntries, sameDict]
  | _ => rfl

/-- In whatever happens to a store in use, what is frozen stays frozen and its elements or entries
stay the same and in the same order. A shared mapping that was frozen refuses every write, whoever
works on its dict does not change an entry, and what it answers stays the same. A look-up could
only change under a key that holds a record whose tag is not hashable
(`lasts_of_checkHashable`). -/
theorem Reachable.frozen_for_good (reachable : s.Reachable) :
    (∀ t, History s t → ∀ ref, (s.cell ref).isFrozen = true →
      t.cell ref = s.cell ref ∧ t.anatomy ref = s.anatomy ref) ∧
    ∀ ref name dict flag, s.cell ref = .mapping name dict flag →
      ∀ t, History (s.freeze (.object ref)) t →
        Mapping.Sealed t ref name dict (s.dictEntries dict) ∧
        Mapping.Refuses t ref name ∧
        Mapping.Answers t ref (s.dictEntries dict) ∧
        (∀ (α : Type) (routine : Ref → Op α),
          (∀ dict, t.Has (.object dict) → History t ((routine dict).runOn t).2) →
          Mapping.Sealed ((Mapping.withDict routine ref).runOn t).2 ref name dict
            (s.dictEntries dict)) ∧
        ∀ later, History t later → ∀ key, t.Has key →
          (t.checkHashable key = .ok () → t.Lasts key) →
          ((Mapping.get? ref key).runOn later).1 = ((Mapping.get? ref key).runOn t).1 ∧
          ((Mapping.contains ref key).runOn later).1 = ((Mapping.contains ref key).runOn t).1 := by
  have sound := reachable.sound
  refine ⟨fun t history ref frozen => ?_, fun ref name dict flag cell t history => ?_⟩
  · have evolves := reachable.evolves history
    exact ⟨evolves.cell_of_isFrozen frozen, evolves.anatomy_of_isFrozen sound frozen⟩
  · have freezes : History s (s.freeze (.object ref)) :=
      .act (.freeze (.object ref)) ⟨fun _ none => (by cases none), fun _ same => by cases same⟩
    have frozen := reachable.later freezes
    have usable := frozen.later history
    have isSealed := (sealed_freeze sound cell).evolves (frozen.evolves history)
    refine ⟨isSealed, isSealed.refusesAll, isSealed.answers usable.sound, fun α routine within => ?_,
      fun later next key has lasts => ?_⟩
    · exact isSealed.evolves (usable.evolves (.withDict routine ref within))
    · have got := isSealed.get?_eq usable.sound (usable.evolves next) has lasts
      exact ⟨got, by rw [Mapping.runOn_contains, Mapping.runOn_contains, got]⟩

/-- A store with one mapping, which has one entry. -/
def stocked : Store :=
  ((Action.setKey ⟨1⟩ (.int 1) (.int 2)).run.runOn
    ((Action.newMapping "shared").run.runOn empty).2).2

theorem reachable_stocked : stocked.Reachable := by
  refine ⟨empty, rfl, .trans (m := ((Action.newMapping "shared").run.runOn empty).2) ?_ ?_⟩
  · exact .act _ ⟨fun _ none => (by cases none), fun _ same => by cases same⟩
  · refine .act _ ⟨fun v isOperand => ?_, fun _ same => by cases same⟩
    rcases List.mem_cons.1 isOperand with rfl | isValue
    · exact has_of_scalar rfl
    · rw [List.mem_singleton.1 isValue]
      exact has_of_scalar rfl

/-- The mapping keeps its entry, whatever is tried. -/
theorem frozen_for_good_stocked :
    stocked.Reachable ∧ stocked.cell ⟨1⟩ = .mapping "shared" ⟨0⟩ false ∧
    ∀ t, History (stocked.freeze (.object ⟨1⟩)) t →
      t.cell ⟨0⟩ = .dict [(.int 1, .int 2)] true ∧
      (Mapping.setKey ⟨1⟩ (.int 3) .nothing).runOn t = (.error (.frozen "set_key" "shared"), t) ∧
      (Mapping.keys ⟨1⟩).runOn t = (.ok [.int 1], t) ∧
      ∀ later, History t later →
        ((Mapping.get? ⟨1⟩ (.int 1)).runOn later).1 = ((Mapping.get? ⟨1⟩ (.int 1)).runOn t).1 := by
  refine ⟨reachable_stocked, rfl, fun t history => ?_⟩
  obtain ⟨isSealed, refuses, answers, -, lookUps⟩ :=
    reachable_stocked.frozen_for_good.2 ⟨1⟩ "shared" ⟨0⟩ false rfl t history
  refine ⟨isSealed.under, refuses.setKey _ _, answers.keys, fun later next => ?_⟩
  exact (lookUps later next (.int 1) (has_of_scalar rfl) fun _ => .scalar rfl).1

end Store
end Interchange
