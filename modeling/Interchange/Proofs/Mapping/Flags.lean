import Interchange.Proofs.Mapping.Nesting
import Interchange.Proofs.Script.Course
import Interchange.Proofs.Store.FreezeReach

/-!
# The two flags of a shared mapping

A mapping has a flag, and so has its dict. The mapping's is never set without the dict's. The other
way round the two stay in step (`Mapping.InStep`) for as long as whoever freezes a value that leads
to the dict freezes one that leads to the mapping (`Mapping.Together`): a freeze parts them exactly
when its value leads to the dict alone (`InStep.freeze_iff`), and nothing else does
(`InStep.or_parted`). A function that works on the dict itself can do so; a script cannot by
the methods of the mapping (`InStep.runMethod`). While the flags are in step, a mapping that is not
frozen takes every entry whose key is hashable and steady and whose value may be stored; once they
have parted it refuses every entry (`Reachable.flags_in_step`).
-/

namespace Interchange

open Store

namespace Mapping

variable {s t : Store} {ref dict r : Ref} {name : String} {flag : Bool} {v key value : Value}
  {entries : List (Value × Value)}

/-- A mapping whose flag is set exactly when that of its dict is. -/
def InStep (s : Store) (ref dict : Ref) : Prop :=
  ∃ name entries flag, s.cell ref = .mapping name dict flag ∧ s.cell dict = .dict entries flag

/-- A freeze of a value sets neither flag or both, if the flag of the dict is not set. -/
def Together (ref dict : Ref) (s : Store) (v : Value) : Prop :=
  (s.cell dict).isFrozen = false → s.ReachesBy Cell.freezeParts v (.object dict) →
    s.ReachesBy Cell.freezeParts v (.object ref)

/-! ## In step -/

/-- The flag of a mapping is never set without that of its dict. -/
theorem under_of_frozen (sound : s.Sound) (cell : s.cell ref = .mapping name dict true) :
    (s.cell dict).isFrozen = true := by
  rw [(sound.sealed cell).under]
  rfl

theorem InStep.agree (h : InStep s ref dict) :
    (s.cell ref).isFrozen = (s.cell dict).isFrozen := by
  obtain ⟨name, entries, flag, mapping, under⟩ := h
  rw [mapping, under]
  rfl

/-- A mapping and its dict stay what they are, so they are in step at a later time when their flags
agree. -/
theorem InStep.later (h : InStep s ref dict) (evolves : s.Evolves t)
    (agree : (t.cell ref).isFrozen = (t.cell dict).isFrozen) : InStep t ref dict := by
  obtain ⟨name, entries, flag, mapping, under⟩ := h
  have isMapping : ∃ flag, t.cell ref = .mapping name dict flag := by
    have inside : ref.index < s.size := lt_size_of_isContainer (by rw [mapping]; rfl)
    have continues := evolves.continues inside
    rw [mapping] at continues
    cases flag with
    | true => exact ⟨true, continues⟩
    | false => exact continues
  have isDict : ∃ entries flag, t.cell dict = .dict entries flag := by
    have inside : dict.index < s.size := lt_size_of_isContainer (by rw [under]; rfl)
    have continues := evolves.continues inside
    rw [under] at continues
    cases flag with
    | true => exact ⟨entries, true, continues⟩
    | false => exact continues
  obtain ⟨flag', mapping'⟩ := isMapping
  obtain ⟨entries', under', isUnder⟩ := isDict
  rw [mapping', isUnder] at agree
  have same : flag' = under' := agree
  exact ⟨name, entries', flag', mapping', same ▸ isUnder⟩

/-- What leaves all flags as they are keeps a mapping and its dict in step. -/
theorem InStep.calm (h : InStep s ref dict) (evolves : s.Evolves t) (same : s.SameFlags t) :
    InStep t ref dict := by
  have agree := h.agree
  obtain ⟨name, entries, flag, mapping, under⟩ := h
  refine InStep.later ⟨name, entries, flag, mapping, under⟩ evolves ?_
  rw [same.flag ref (lt_size_of_isContainer (by rw [mapping]; rfl)),
    same.flag dict (lt_size_of_isContainer (by rw [under]; rfl)), agree]

/-- A freeze parts the flags exactly when they are not set and it reaches the dict alone. -/
theorem InStep.freeze_iff (h : InStep s ref dict) (sound : s.Sound) (v : Value) :
    InStep (s.freeze v) ref dict ↔ Together ref dict s v := by
  have later := h.later (Step.freeze v).evolves
  obtain ⟨name, entries, flag, mapping, under⟩ := h
  have atMapping : ((s.freeze v).cell ref).isFrozen = true ↔
      flag = true ∨ s.ReachesBy Cell.freezeParts v (.object ref) := by
    rw [freeze_isFrozen_iff sound, mapping]
    exact or_congr_right (and_iff_right rfl)
  have atDict : ((s.freeze v).cell dict).isFrozen = true ↔
      flag = true ∨ s.ReachesBy Cell.freezeParts v (.object dict) := by
    rw [freeze_isFrozen_iff sound, under]
    exact or_congr_right (and_iff_right rfl)
  have down (reaches : s.ReachesBy Cell.freezeParts v (.object ref)) :
      s.ReachesBy Cell.freezeParts v (.object dict) :=
    reaches.tail ⟨ref, rfl, by rw [mapping]; exact List.mem_singleton_self _⟩
  rw [Together, under]
  cases flag with
  | true =>
    refine iff_of_true (later ?_) nofun
    rw [atMapping.2 (.inl rfl), atDict.2 (.inl rfl)]
  | false =>
    simp only [Bool.false_eq_true, false_or] at atMapping atDict
    constructor
    · intro still _ reaches
      rw [← atMapping, still.agree, atDict]
      exact reaches
    · intro together
      exact later (Bool.eq_iff_iff.2 ⟨fun frozen => atDict.2 (down (atMapping.1 frozen)),
        fun frozen => atMapping.2 (together rfl (atDict.1 frozen))⟩)

/-- In a course the flags of a mapping and of its dict stay in step, or a freeze on the way parted
them. -/
theorem InStep.or_parted {may : Store → Value → Prop} (h : InStep s ref dict) (sound : s.Sound)
    (course : Course may s t) : InStep t ref dict ∨ ∃ m v, s.Evolves m ∧ InStep m ref dict ∧
      may m v ∧ ¬ Together ref dict m v ∧ (m.freeze v).Evolves t := by
  induction course with
  | calm evolves same => exact .inl (h.calm evolves same)
  | @freeze s v allowed =>
    by_cases together : Together ref dict s v
    · exact .inl ((h.freeze_iff sound v).2 together)
    · exact .inr ⟨s, v, .refl s, h, allowed, together, .refl _⟩
  | trans first next ih ih' =>
    rcases ih h sound with still | ⟨m, v, before, inStep, allowed, parts, after⟩
    · refine (ih' still (first.evolves.sound sound)).imp id ?_
      rintro ⟨m, v, before, rest⟩
      exact ⟨m, v, first.evolves.trans before, rest⟩
    · exact .inr ⟨m, v, before, inStep, allowed, parts, after.trans next.evolves⟩

/-- Where no freeze may set one flag alone, they stay in step. -/
theorem InStep.stays (h : InStep s ref dict) (sound : s.Sound)
    (course : Course (Together ref dict) s t) : InStep t ref dict := by
  rcases h.or_parted sound course with still | ⟨m, v, -, -, together, parts, -⟩
  · exact still
  · exact absurd together parts

/-- What goes such a course in a session keeps a mapping and its dict in step. -/
theorem InStep.runIn {α : Type} {run : Script.Run α} {s : Script.Session}
    (h : InStep s.store ref dict) (sound : s.store.Sound)
    (goes : run.Goes (Together ref dict) s) : InStep (run.runIn s).2.store ref dict :=
  h.stays sound (goes sound.closed)

/-- The methods that scripts have keep a mapping in step if the function does that is called. -/
theorem InStep.runMethod {s : Script.Session} {call : Script.Caller} (h : InStep s.store ref dict)
    (sound : s.store.Sound) (method : Script.MappingMethod) (args : List Script.Datum)
    (within : method = .perform → ∀ function d args t, t.store = s.store →
      (call function d args).Goes (Together ref dict) t) :
    InStep ((Script.runMethod call ref method args).runIn s).2.store ref dict :=
  h.runIn sound (Script.goes_runMethod ref method args (fun _ _ _ => .refl) within)

/-! ## Histories -/

/-- What an action does, with its answer left aside. -/
theorem history_of_aside {α : Type} {op : Op α} {result : Except Fault α}
    (act : History s ((do let _ ← op : Op Unit).runOn s).2) (ran : op.runOn s = (result, t)) :
    History s t := by
  rw [Op.runOn_bind, ran] at act
  cases result <;> exact act

theorem history_create {create : Op Value}
    (isCreate : create = new name ∨ ∃ dict, create = ofDict name dict)
    (made : create.runOn s = (.ok v, t)) : History s t := by
  rcases isCreate with rfl | ⟨r, rfl⟩
  · exact history_of_aside (.act (.newMapping name) ⟨nofun, nofun⟩) made
  · exact history_of_aside (.act (.mappingOf name r) ⟨nofun, nofun⟩) made

/-! ## Entering -/

/-- A value that may be stored is entered into the dict by a mapping that is not frozen. -/
theorem runOn_setKey (cell : s.cell ref = .mapping name dict false)
    (storable : s.checkStorable "set_key" value = .ok ()) :
    (setKey ref key value).runOn s = (Dict.insert dict key value).runOn s := by
  have mutable : (checkMutable ⟨name, dict, false⟩ "set_key").runOn s = (.ok (), s) := rfl
  have stored : (checkStorable "set_key" value).runOn s = (.ok (), s) := by
    rw [checkStorable, Op.runOn_bind_of_ok Op.runOn_get, storable]
    rfl
  rw [setKey, Op.runOn_bind_of_ok (runOn_read cell), Op.runOn_bind_of_ok mutable,
    Op.runOn_bind_of_ok stored]

/-- A mapping begins in step with its dict. -/
theorem inStep_onDict (under : s.cell dict = .dict entries false)
    (made : (onDict name dict).runOn s = (.ok v, t)) :
    ∃ ref, v = .object ref ∧ t.cell ref = .mapping name dict false ∧ InStep t ref dict := by
  obtain ⟨rfl, rfl⟩ := Op.new_ok made
  have mapping := cell_alloc_self s (.mapping name dict false)
  refine ⟨_, rfl, mapping, name, entries, false, mapping, ?_⟩
  rw [cell_alloc_other s _ (lt_size_of_isContainer (by rw [under]; rfl)), under]

theorem inStep_new (made : (new name).runOn s = (.ok v, t)) :
    ∃ ref dict, v = .object ref ∧ t.cell ref = .mapping name dict false ∧ InStep t ref dict := by
  obtain ⟨dict, m, allocated, made⟩ := Op.steps_of_bind made
  obtain ⟨rfl, rfl⟩ := Op.alloc_ok allocated
  obtain ⟨ref, made⟩ := inStep_onDict (cell_alloc_self s _) made
  exact ⟨ref, _, made⟩

theorem inStep_ofDict (made : (ofDict name r).runOn s = (.ok v, t)) :
    ∃ ref dict, v = .object ref ∧ t.cell ref = .mapping name dict false ∧ InStep t ref dict := by
  obtain ⟨dict, m, cloned, made⟩ := Op.steps_of_bind made
  rw [Dict.runOn_clone] at cloned
  cases cloned
  obtain ⟨ref, made⟩ := inStep_onDict (cell_alloc_self s _) made
  exact ⟨ref, _, made⟩

end Mapping

namespace Store

open Mapping

variable {s : Store}

/-- The flag of a mapping is never set without that of its dict. From its creation on, by name or
from a dict, a mapping is in step with its dict in every course of freezes that set both flags, and
in every history unless a freeze on the way did not; a freeze parts the flags exactly when its value
leads to the dict alone. A mapping that is not frozen and is in step takes every entry with a
hashable key, compared without a look into a list, a set or a dict, and a value that may be stored;
one that has fallen out of step refuses it and changes nothing. -/
theorem Reachable.flags_in_step (reachable : s.Reachable) :
    (∀ ref name dict, s.cell ref = .mapping name dict true → (s.cell dict).isFrozen = true) ∧
    (∀ name create v t, (create = Mapping.new name ∨ ∃ dict, create = Mapping.ofDict name dict) →
      create.runOn s = (.ok v, t) →
        ∃ ref dict, v = .object ref ∧ t.cell ref = .mapping name dict false ∧
          (∀ u, Course (Together ref dict) t u → InStep u ref dict) ∧
          ∀ u, History t u → InStep u ref dict ∨ ∃ m v, t.Evolves m ∧ InStep m ref dict ∧
            ¬ Together ref dict m v ∧ (m.freeze v).Evolves u) ∧
    ∀ ref name dict flag, s.cell ref = .mapping name dict flag →
      (InStep s ref dict → ∀ v, InStep (s.freeze v) ref dict ↔ Together ref dict s v) ∧
      (flag = false → ∀ key value, s.checkHashable key = .ok () →
        s.checkStorable "set_key" value = .ok () →
        (InStep s ref dict → s.Has key → s.Steady key → (setKey ref key value).runOn s =
          (.ok (), s.write dict (.dict (s.putEntry key value (s.dictEntries dict)) false))) ∧
        (¬ InStep s ref dict →
          (setKey ref key value).runOn s = (.error (.frozen "insert" "dict"), s))) := by
  have sound := reachable.sound
  refine ⟨fun ref name dict cell => ?_, ?_, fun ref name dict flag cell => ⟨?_, ?_⟩⟩
  · exact under_of_frozen sound cell
  · intro name create v t isCreate made
    have inStep : ∃ ref dict, v = .object ref ∧ t.cell ref = .mapping name dict false ∧
        InStep t ref dict := by
      rcases isCreate with rfl | ⟨r, rfl⟩
      · exact inStep_new made
      · exact inStep_ofDict made
    obtain ⟨ref, dict, isRef, cell, inStep⟩ := inStep
    have later := (reachable.later (history_create isCreate made)).sound
    refine ⟨ref, dict, isRef, cell, fun u course => inStep.stays later course,
      fun u history => ?_⟩
    refine (inStep.or_parted later (history.evolves later.closed).course).imp id ?_
    rintro ⟨m, v, before, still, -, parts⟩
    exact ⟨m, v, before, still, parts⟩
  · intro inStep v
    exact inStep.freeze_iff sound v
  · rintro rfl key value hashable storable
    rw [runOn_setKey cell storable]
    obtain ⟨entries, flag, under, -⟩ := sound.wrapped ref name dict false cell
    constructor
    · rintro ⟨name', entries', flag', cell', under'⟩ has steady
      rw [cell] at cell'
      cases cell'
      have ends : s.lookUpEnds key (entries'.map Prod.fst) = true :=
        lookUpEnds_of_steady sound.aged has steady (sound.keys under').has
      rw [Dict.runOn_insert_of_ends dict key value under' hashable ends, dictEntries, under']
    · intro parted
      rw [Dict.runOn_insert, hashable]
      cases flag with
      | true => rw [under]
      | false => exact absurd ⟨name, entries, false, cell, under⟩ parted

/-- A mapping, and a function that freezes the dict that it is given. -/
def lent : Store := empty.after
  [.newMapping "shared", .newFunction { name := "f", routine := .edits [.freeze] }]

theorem reachable_lent : lent.Reachable :=
  reachable_empty.after ⟨⟨nofun, nofun⟩, ⟨nofun, nofun⟩, trivial⟩

/-- A method that is given a function of the store is part of a history. -/
theorem Reachable.history_method (reachable : s.Reachable) (mapping : Ref) (method : Method)
    {args : List Value} (has : ∀ v ∈ args, s.Has v) :
    History s ((Mapping.run Op.callRef mapping method args).runOn s).2 := by
  refine .method Op.callRef mapping method args has (fun function args u _ hasArgs => ?_)
    fun function args u v evolves hasArgs => ?_
  · exact history_of_aside (.act (.call function args) ⟨hasArgs, nofun⟩) rfl
  · have closed := evolves.closed reachable.sound.closed
    exact (Op.conducts_callRef s function args u evolves hasArgs closed).2 v

/-- The dict is frozen by the function, and the mapping is not. -/
theorem history_lent : ∃ t, History lent t ∧ ¬ InStep t ⟨1⟩ ⟨0⟩ := by
  have has : ∀ v ∈ [Value.object ⟨2⟩], lent.Has v := by decide
  refine ⟨_, reachable_lent.history_method ⟨1⟩ .perform has, ?_⟩
  rintro ⟨_, _, _, mapping, under⟩
  cases mapping
  cases under

/-- A mapping, and a function that makes an entry in the dict that it is given. -/
def entering : Store := empty.after
  [.newMapping "shared", .newFunction { name := "f", routine := .edits [.insert (.int 1) (.int 2)] }]

theorem reachable_entering : entering.Reachable :=
  reachable_empty.after ⟨⟨nofun, nofun⟩, ⟨by decide, nofun⟩, trivial⟩

/-- The function is run on the dict. -/
def entered : Store := ((Mapping.run Op.callRef ⟨1⟩ .perform [.object ⟨2⟩]).runOn entering).2

/-- A script freezes the mapping then. -/
def completed : Script.Session :=
  ((Script.runMethod Script.call ⟨1⟩ .freeze []).runIn { store := entered }).2

theorem course_entered {may : Store → Value → Prop} : Course may entering entered := by
  have closed := reachable_entering.sound.closed
  refine course_run _ ⟨1⟩ .perform (by decide) closed fun _ function under inside => ?_
  have has : ∀ v ∈ [Value.object under], entering.Has v := List.forall_mem_singleton.2 inside
  refine Op.course_callWith function has closed (fun body steps dict cell routine here isFreeze => ?_)
    fun body mapping method cell routine => ?_
  all_goals
    obtain ⟨_ | _ | _ | _⟩ := function <;> cases cell
    cases routine
  cases List.mem_singleton.1 isFreeze

theorem course_completed : Course (Together ⟨1⟩ ⟨0⟩) entering completed.store := by
  have first : Course (Together ⟨1⟩ ⟨0⟩) entering entered := course_entered
  have next : (Script.runMethod Script.call ⟨1⟩ .freeze []).Goes (Together ⟨1⟩ ⟨0⟩)
      { store := entered } := Script.goes_runMethod ⟨1⟩ .freeze [] (fun _ _ _ => .refl) nofun
  exact first.trans (next (first.evolves.closed reachable_entering.sound.closed))

/-- A new mapping is in step when a function has worked on its dict and a script has frozen it, and
it is not when the function has frozen the dict. In between it takes an entry, and a freeze of the
mapping keeps it in step. -/
theorem flags_in_step_lent :
    (setKey ⟨1⟩ (.int 1) (.int 2)).runOn lent =
      (.ok (), lent.write ⟨0⟩ (.dict [(.int 1, .int 2)] false)) ∧
    InStep (lent.freeze (.object ⟨1⟩)) ⟨1⟩ ⟨0⟩ ∧
    InStep completed.store ⟨1⟩ ⟨0⟩ ∧
    ∃ m v, InStep m ⟨1⟩ ⟨0⟩ ∧ ¬ Together ⟨1⟩ ⟨0⟩ m v := by
  have inStep : InStep lent ⟨1⟩ ⟨0⟩ := ⟨"shared", [], false, rfl, rfl⟩
  obtain ⟨-, -, ofCell⟩ := reachable_lent.flags_in_step
  obtain ⟨freezes, accepts⟩ := ofCell ⟨1⟩ "shared" ⟨0⟩ false rfl
  obtain ⟨-, created, -⟩ := reachable_empty.flags_in_step
  obtain ⟨ref, dict, isRef, cell, courses, histories⟩ := created "shared" _ _ _ (.inl rfl) rfl
  cases isRef
  cases cell
  refine ⟨(accepts rfl (.int 1) (.int 2) rfl rfl).1 inStep (has_of_scalar rfl) (.scalar rfl),
    (freezes inStep (.object ⟨1⟩)).2 fun _ _ => .refl, courses _ ?_, ?_⟩
  · have made := reachable_empty.later (.act (.newMapping "shared") ⟨nofun, nofun⟩)
    have first : Course (Together ⟨1⟩ ⟨0⟩) _ entering :=
      Action.course (.newFunction _) ⟨by decide, nofun⟩ made.sound.closed nofun nofun
    exact first.trans course_completed
  · obtain ⟨t, history, parted⟩ := history_lent
    have lends : History _ lent := .act (.newFunction _) ⟨nofun, nofun⟩
    rcases histories t (lends.trans history) with still | ⟨m, v, -, still, parts, -⟩
    · exact absurd still parted
    · exact ⟨m, v, still, parts⟩

/-- A function that is given the dict can freeze it. The mapping then tells that it is not frozen,
its dict is, and no entry is taken. -/
theorem flags_part_lent : ∃ t, lent.Reachable ∧ History lent t ∧
    (Mapping.run Op.callRef ⟨1⟩ .perform [.object ⟨2⟩]).runOn lent = (.ok (.object ⟨3⟩), t) ∧
    t.cell ⟨1⟩ = .mapping "shared" ⟨0⟩ false ∧ t.cell ⟨0⟩ = .dict [] true ∧
    t.checkHashable (.int 1) = .ok () ∧ t.checkStorable "set_key" (.int 2) = .ok () ∧
    (setKey ⟨1⟩ (.int 1) (.int 2)).runOn t = (.error (.frozen "insert" "dict"), t) := by
  have has : ∀ v ∈ [Value.object ⟨2⟩], lent.Has v := by decide
  exact ⟨_, reachable_lent, reachable_lent.history_method ⟨1⟩ .perform has, rfl, rfl, rfl, rfl, rfl,
    rfl⟩

end Store
end Interchange
