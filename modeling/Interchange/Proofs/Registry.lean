import Interchange.Proofs.Store.FreezeReach
import Interchange.Registry
import Mathlib.Data.List.TakeWhile

/-!
# Registries in use

What a registry answers is told by the log of the calls that were made on it
(`Registry.Use.told_by_log`), whatever the builders do and whatever happens between the calls. Until
a load of a name succeeds, each load runs the builder that was registered first, once, and is told
how often it was run before; from then on the name stands for one module, whose containers are
frozen for good.
-/

namespace Interchange

open Store (History)

/-- A module of which every member that can be frozen is frozen. -/
def Store.Shelved (s : Store) (module : Ref) : Prop :=
  ∃ name members, s.cell module = .module name members ∧
    ∀ member ∈ members, ∀ ref, member.2 = .object ref → (s.cell ref).isContainer = true →
      (s.cell ref).isFrozen = true

namespace Store

variable {s t : Store} {module : Ref}

/-- A module stays as it is, and what is frozen stays frozen. -/
theorem Shelved.later (h : s.Shelved module) (reachable : s.Reachable) (history : History s t) :
    t.Shelved module := by
  obtain ⟨name, members, cell, frozen⟩ := h
  have evolves := reachable.evolves history
  have inside : module.index < s.size := by
    refine Nat.lt_of_not_le fun outside => ?_
    rw [cell_of_size_le outside] at cell
    cases cell
  refine ⟨name, members, ?_, fun member isMember ref isObject container => ?_⟩
  · rw [evolves.cell_of_not_container inside (by rw [cell]; rfl), cell]
  · have has : s.Has (.object ref) := by
      refine isObject ▸ reachable.sound.closed module member.2 ?_
      rw [cell]
      exact List.mem_map_of_mem isMember
    rw [(evolves.continues (has_object.1 has)).isContainer_eq] at container
    have before := frozen member isMember ref isObject container
    rw [evolves.cell_of_isFrozen before]
    exact before

/-- Freezing a module freezes its members. -/
theorem shelved_freeze (sound : s.Sound) {name : String} {members : List (String × Value)}
    (cell : s.cell module = .module name members) : (s.freeze (.object module)).Shelved module := by
  have flagged := freeze_flagged s (.object module)
  refine ⟨name, members, ?_, fun member isMember ref isObject container => ?_⟩
  · rw [flagged.cell_of_not_container (by rw [cell]; rfl), cell]
  · rw [flagged.isContainer_eq] at container
    refine (freeze_isFrozen_iff sound (.object module) ref).2 (.inr ⟨container, ?_⟩)
    refine .single ⟨module, rfl, ?_⟩
    rw [cell, ← isObject]
    exact List.mem_map_of_mem isMember

end Store

namespace Registry

/-! ## Look-ups after a change -/

section Changes

variable {registry next : Registry} {name other : String} {build : Nat → Op Ref} {entry : Entry}
  {change : Entry → Entry}

theorem find?_eq_none_iff : registry.find? name = none ↔ name ∉ registry.names := by
  simp [find?, names]

theorem name_of_find? (found : registry.find? name = some entry) : entry.name = name := by
  simpa using List.find?_some found

/-- Where names are distinct, an entry is what its name is looked up to. -/
theorem find?_of_mem (distinct : registry.names.Nodup) (isEntry : entry ∈ registry.entries) :
    registry.find? entry.name = some entry := by
  cases found : registry.find? entry.name with
  | none => exact absurd (List.mem_map_of_mem isEntry) (find?_eq_none_iff.1 found)
  | some other =>
    have isOther : other ∈ registry.entries := List.mem_of_find?_eq_some found
    exact congrArg some (List.inj_on_of_nodup_map distinct isOther isEntry (name_of_find? found))

theorem find?_update (keeps : ∀ entry, (change entry).name = entry.name) :
    (registry.update name change).find? other =
      if other = name then (registry.find? other).map change else registry.find? other := by
  have same : ((fun entry : Entry => entry.name == other) ∘
      fun entry => if entry.name == name then change entry else entry) =
      fun entry => entry.name == other := by
    funext entry
    by_cases isName : entry.name = name <;> simp [isName, keeps]
  rw [find?, update, List.find?_map, same, ← find?]
  cases found : registry.find? other with
  | none => simp
  | some entry => by_cases isName : other = name <;> simp [isName, name_of_find? found]

theorem names_update (keeps : ∀ entry, (change entry).name = entry.name) :
    (registry.update name change).names = registry.names := by
  rw [names, names, update, List.map_map]
  refine List.map_congr_left fun entry _ => ?_
  by_cases isName : entry.name = name <;> simp [isName, keeps]

/-- A taken name is refused. -/
theorem register_taken (taken : name ∈ registry.names) :
    registry.register name build = .error (.duplicateModule name) := by
  rw [register, if_pos]
  rw [← Option.ne_none_iff_isSome, Ne, find?_eq_none_iff, not_not]
  exact taken

/-- A name that is not taken comes last. -/
theorem register_fresh (fresh : name ∉ registry.names) :
    registry.register name build = .ok ⟨registry.entries ++ [{ name := name, build := build }]⟩ := by
  rw [register, find?_eq_none_iff.2 fresh]
  rfl

theorem find?_append (fresh : name ∉ registry.names) :
    (⟨registry.entries ++ [{ name := name, build := build }]⟩ : Registry).find? other =
      if other = name then some { name := name, build := build } else registry.find? other := by
  rw [find?, List.find?_append, ← find?]
  by_cases isName : other = name
  · subst isName
    simp [find?_eq_none_iff.2 fresh]
  · simp [isName, Ne.symm isName]

end Changes

/-! ## Logs -/

/-- A call on a registry, and what a load answered. -/
inductive Event where
  | register (name : String) (build : Nat → Op Ref)
  | load (name : String) (answer : Except Fault Ref)

namespace Event

/-- The name that a registration gives. -/
def registered? : Event → Option String
  | register name _ => some name
  | load _ _ => none

/-- The builder that a registration gives to a name. -/
def builderOf? (name : String) : Event → Option (Nat → Op Ref)
  | register other build => if name = other then some build else none
  | load _ _ => none

/-- The module that a load of a name answered. -/
def moduleOf? (name : String) : Event → Option Ref
  | load other (.ok module) => if name = other then some module else none
  | _ => none

/-- A load of a name. -/
def loads (name : String) : Event → Bool
  | register _ _ => false
  | load other _ => name == other

end Event

/-- The names that were registered, in the order in which each was registered first. -/
def registered (log : List Event) : List String := (log.filterMap Event.registered?).eraseDups

/-- The builder with which a name was registered first. -/
def builder? (log : List Event) (name : String) : Option (Nat → Op Ref) :=
  log.findSome? (Event.builderOf? name)

/-- What the first load of a name that succeeded has answered. -/
def module? (log : List Event) (name : String) : Option Ref :=
  log.findSome? (Event.moduleOf? name)

/-- How often a name was loaded since it was registered. -/
def tries (log : List Event) (name : String) : Nat :=
  (log.dropWhile fun event => (event.builderOf? name).isNone).countP (Event.loads name)

section Logs

variable {log : List Event} {event : Event} {name other : String} {build : Nat → Op Ref}
  {answer : Except Fault Ref} {module : Ref} {fault : Fault}

theorem eraseDups_concat (names : List String) : (names ++ [name]).eraseDups =
    if name ∈ names then names.eraseDups else names.eraseDups ++ [name] := by
  rw [List.eraseDups_append]
  by_cases known : name ∈ names <;> simp [List.removeAll, known, List.eraseDups_cons]

theorem nodup_eraseDups (names : List String) : names.eraseDups.Nodup := by
  induction names using List.reverseRecOn with
  | nil => exact List.nodup_nil
  | append_singleton names name ih =>
    rw [eraseDups_concat]
    split
    · exact ih
    · next fresh =>
      refine List.Nodup.append ih (List.nodup_singleton name) ?_
      rw [List.disjoint_singleton, List.mem_eraseDups]
      exact fresh

/-- A registration tells a name unless it is known. -/
theorem registered_register : registered (log ++ [.register name build]) =
    if name ∈ registered log then registered log else registered log ++ [name] := by
  have last : ([Event.register name build].filterMap Event.registered?) = [name] := rfl
  rw [registered, List.filterMap_append, last, eraseDups_concat, registered]
  simp only [List.mem_eraseDups]

theorem nodup_registered : (registered log).Nodup := nodup_eraseDups _

theorem registered_load : registered (log ++ [.load name answer]) = registered log := by
  rw [registered, List.filterMap_append]
  exact congrArg _ (List.append_nil _)

theorem builder?_concat :
    builder? (log ++ [event]) name = (builder? log name).or (event.builderOf? name) := by
  rw [builder?, List.findSome?_append, List.findSome?_singleton, ← builder?]

theorem module?_concat :
    module? (log ++ [event]) name = (module? log name).or (event.moduleOf? name) := by
  rw [module?, List.findSome?_append, List.findSome?_singleton, ← module?]

theorem builder?_register : builder? (log ++ [.register name build]) other =
    (builder? log other).or (if other = name then some build else none) := builder?_concat

theorem builder?_load : builder? (log ++ [.load name answer]) other = builder? log other :=
  builder?_concat.trans Option.or_none

theorem module?_register : module? (log ++ [.register name build]) other = module? log other :=
  module?_concat.trans Option.or_none

theorem module?_failed : module? (log ++ [.load name (.error fault)]) other = module? log other :=
  module?_concat.trans Option.or_none

theorem module?_load : module? (log ++ [.load name (.ok module)]) other =
    (module? log other).or (if other = name then some module else none) := module?_concat

theorem dropWhile_eq_nil_iff :
    (log.dropWhile fun event => (event.builderOf? name).isNone) = [] ↔
      builder? log name = none := by
  rw [builder?, List.findSome?_eq_none_iff, List.dropWhile_eq_nil_iff]
  simp only [Option.isNone_iff_eq_none]

theorem tries_of_unknown (unknown : builder? log name = none) : tries log name = 0 := by
  rw [tries, dropWhile_eq_nil_iff.2 unknown]
  rfl

/-- Loads count from the registration on. -/
theorem tries_concat : tries (log ++ [event]) name = tries log name +
    if (builder? log name).isSome && event.loads name then 1 else 0 := by
  cases known : builder? log name with
  | none =>
    rw [tries_of_unknown known, tries, List.dropWhile_append, dropWhile_eq_nil_iff.2 known]
    cases event with
    | register other build =>
      by_cases isName : name = other <;> simp [Event.builderOf?, Event.loads, isName]
    | load other answer => simp [Event.builderOf?]
  | some build =>
    have registered : (log.dropWhile fun event => (event.builderOf? name).isNone) ≠ [] := by
      rw [Ne, dropWhile_eq_nil_iff, known]
      exact Option.some_ne_none build
    rw [tries, List.dropWhile_append, if_neg (by simpa using registered), List.countP_append, tries,
      List.countP_singleton]
    rfl

end Logs

/-! ## Using a registry -/

/-- A builder answers with a module, if it answers, and otherwise does what anyone may do with a
store. -/
def Conducts (build : Nat → Op Ref) (s : Store) : Prop :=
  ∀ n t, History s t → History t ((build n).runOn t).2 ∧
    ∀ module u, (build n).runOn t = (.ok module, u) →
      ∃ name members, u.cell module = .module name members

/-- How a registry is used: names are registered and loaded, and anything may be done in between
with the store. A registration that is refused leaves the registry as it is. -/
inductive Use : List Event → Registry → Store → Prop
  | start {s : Store} (reachable : s.Reachable) : Use [] empty s
  | register {log : List Event} {registry : Registry} {t : Store} (use : Use log registry t)
      (name : String) (build : Nat → Op Ref) (conducts : Conducts build t) :
      Use (log ++ [.register name build])
        ((registry.register name build).toOption.getD registry) t
  | load {log : List Event} {registry : Registry} {t : Store} (use : Use log registry t)
      (name : String) :
      Use (log ++ [.load name (registry.load name t).1.1]) (registry.load name t).1.2
        (registry.load name t).2
  | aside {log : List Event} {registry : Registry} {t u : Store} (use : Use log registry t)
      (history : History t u) : Use log registry u

/-- What a registry knows, but for the counts that are kept for the builders. -/
def contents (registry : Registry) : List (String × (Nat → Op Ref) × Option Ref) :=
  registry.entries.map fun entry => (entry.name, entry.build, entry.loaded)

section Use

variable {log : List Event} {registry : Registry} {s t u : Store} {name other : String}
  {build : Nat → Op Ref} {entry : Entry} {module : Ref} {fault : Fault}

/-- The registry after its builder for a name was run once more. -/
def again (registry : Registry) (name : String) : Registry :=
  registry.update name fun entry => { entry with attempts := entry.attempts + 1 }

/-- The registry in which a name stands for a module. -/
def keep (registry : Registry) (name : String) (module : Ref) : Registry :=
  registry.update name fun entry => { entry with loaded := some module }

theorem contents_again : (registry.again name).contents = registry.contents := by
  rw [contents, contents, again, update, List.map_map]
  refine List.map_congr_left fun entry _ => ?_
  by_cases isName : entry.name = name <;> simp [isName]

theorem load_unknown (unknown : registry.find? name = none) :
    registry.load name t = ((.error (.moduleNotFound name), registry), t) := by
  rw [load, unknown]

theorem load_loaded (known : registry.find? name = some entry)
    (loaded : entry.loaded = some module) :
    registry.load name t = ((.ok module, registry), t) := by
  rw [load, known]
  simp only [loaded]

/-- The load of a name without a module runs the builder once. -/
theorem load_failed (known : registry.find? name = some entry) (pending : entry.loaded = none)
    (run : (entry.build entry.attempts).runOn t = (.error fault, u)) :
    registry.load name t = ((.error fault, registry.again name), u) := by
  rw [load, known]
  simp only [pending, run]
  rfl

theorem load_succeeded (known : registry.find? name = some entry) (pending : entry.loaded = none)
    (run : (entry.build entry.attempts).runOn t = (.ok module, u)) :
    registry.load name t =
      ((.ok module, (registry.again name).keep name module), u.freeze (.object module)) := by
  rw [load, known]
  simp only [pending, run]
  rfl

theorem contents_keep : ((registry.again name).keep name module).contents =
    registry.contents.map fun known =>
      if known.1 = name then (known.1, known.2.1, some module) else known := by
  rw [contents, contents, keep, again, update, update, List.map_map, List.map_map, List.map_map]
  refine List.map_congr_left fun entry _ => ?_
  by_cases isName : entry.name = name <;> simp [isName]

theorem find?_again : (registry.again name).find? other =
    if other = name then
      (registry.find? other).map fun entry => { entry with attempts := entry.attempts + 1 }
    else registry.find? other := find?_update fun _ => rfl

theorem find?_keep : (registry.keep name module).find? other =
    if other = name then
      (registry.find? other).map fun entry => { entry with loaded := some module }
    else registry.find? other := find?_update fun _ => rfl

theorem names_again : (registry.again name).names = registry.names := names_update fun _ => rfl

theorem names_keep : (registry.keep name module).names = registry.names := names_update fun _ => rfl

/-- What is known under a name is what a log tells of it. -/
def Tells (log : List Event) (name : String) : Option Entry → Prop
  | none => builder? log name = none ∧ module? log name = none
  | some entry => builder? log name = some entry.build ∧ module? log name = entry.loaded ∧
      (entry.loaded = none → entry.attempts = tries log name)

/-- A registry in use is as the log of its calls tells. -/
structure Told (log : List Event) (registry : Registry) (t : Store) : Prop where
  reachable : t.Reachable
  names : registry.names = registered log
  tells : ∀ name, Tells log name (registry.find? name)
  alike : ∀ name module, .load name (.ok module) ∈ log → module? log name = some module
  shelved : ∀ name module, module? log name = some module → t.Shelved module
  conducts : ∀ name build, builder? log name = some build → Conducts build t

theorem Conducts.later (h : Conducts build s) (history : History s t) : Conducts build t :=
  fun n u further => h n u (history.trans further)

theorem Told.aside (told : Told log registry t) (history : History t u) : Told log registry u where
  reachable := told.reachable.later history
  names := told.names
  tells := told.tells
  alike := told.alike
  shelved := fun name module isModule =>
    (told.shelved name module isModule).later told.reachable history
  conducts := fun name build isBuilder => (told.conducts name build isBuilder).later history

/-- What a log tells of a name stays the same in a call that changes neither its builder nor its
module, and loads it only when that is settled. -/
theorem Tells.concat {event : Event} {found : Option Entry} (tells : Tells log name found)
    (builder : builder? (log ++ [event]) name = builder? log name)
    (module : module? (log ++ [event]) name = module? log name)
    (settled : ∀ entry, found = some entry → entry.loaded = none → event.loads name = false) :
    Tells (log ++ [event]) name found := by
  cases found with
  | none => exact ⟨builder.trans tells.1, module.trans tells.2⟩
  | some entry =>
    obtain ⟨isBuilder, isModule, attempts⟩ := tells
    refine ⟨builder.trans isBuilder, module.trans isModule, fun pending => ?_⟩
    rw [tries_concat, settled entry rfl pending, Bool.and_false, attempts pending]
    rfl

/-- A registry goes on as its log tells if it does so in the names, in each look-up, and in what the
last call has brought. -/
theorem Told.extend {next : Registry} {event : Event} (told : Told log registry t)
    (history : History t u) (names : next.names = registered (log ++ [event]))
    (tells : ∀ name, Tells (log ++ [event]) name (next.find? name))
    (alike : ∀ name module, event = .load name (.ok module) →
      module? (log ++ [event]) name = some module)
    (shelved : ∀ name module, event.moduleOf? name = some module → u.Shelved module)
    (conducts : ∀ name build, event.builderOf? name = some build → Conducts build u) :
    Told (log ++ [event]) next u := by
  have before := told.aside history
  refine ⟨before.reachable, names, tells, fun name module isLoad => ?_,
    fun name module isModule => ?_, fun name build isBuilder => ?_⟩
  · rcases List.mem_append.1 isLoad with old | new
    · rw [module?_concat, told.alike name module old]
      rfl
    · exact alike name module (List.mem_singleton.1 new).symm
  · rw [module?_concat, Option.or_eq_some_iff] at isModule
    rcases isModule with old | ⟨-, new⟩
    · exact before.shelved name module old
    · exact shelved name module new
  · rw [builder?_concat, Option.or_eq_some_iff] at isBuilder
    rcases isBuilder with old | ⟨-, new⟩
    · exact before.conducts name build old
    · exact conducts name build new

/-- A registration keeps what is known, and makes its name known if it is not taken. -/
theorem Told.register (told : Told log registry t) (name : String) (conducts : Conducts build t) :
    Told (log ++ [.register name build]) ((registry.register name build).toOption.getD registry)
      t := by
  have conducts (other : String) (build' : Nat → Op Ref)
      (isBuilder : (Event.register name build).builderOf? other = some build') :
      Conducts build' t := by
    rw [Event.builderOf?, Option.ite_none_right_eq_some] at isBuilder
    exact Option.some.inj isBuilder.2 ▸ conducts
  have same {other : String} (known : other = name → (builder? log other).isSome) :
      Tells (log ++ [.register name build]) other (registry.find? other) := by
    refine (told.tells other).concat ?_ module?_register fun _ _ _ => rfl
    rw [builder?_register]
    split
    · next isName => exact Option.or_of_isSome (known isName)
    · exact Option.or_none
  by_cases taken : name ∈ registry.names
  · rw [register_taken taken]
    refine told.extend (.refl t) ?_ (fun other => same ?_) nofun nofun conducts
    · rw [registered_register, if_pos (told.names ▸ taken), ← told.names]
      rfl
    · rintro rfl
      have known := told.tells other
      cases found : registry.find? other with
      | none => exact absurd taken (find?_eq_none_iff.1 found)
      | some entry =>
        rw [found] at known
        exact Option.isSome_of_eq_some known.1
  · rw [register_fresh taken]
    refine told.extend (.refl t) ?_ (fun other => ?_) nofun nofun conducts
    · rw [registered_register, if_neg (told.names ▸ taken), ← told.names]
      exact List.map_append
    · change Tells _ _ (find? ⟨_⟩ other)
      rw [find?_append taken]
      split
      · next isName =>
        subst isName
        have unknown := told.tells other
        rw [find?_eq_none_iff.2 taken] at unknown
        refine ⟨?_, module?_register.trans unknown.2, fun _ => ?_⟩
        · rw [builder?_register, unknown.1, if_pos rfl]
          rfl
        · rw [tries_concat, tries_of_unknown unknown.1, unknown.1]
          rfl
      · next isOther => exact same fun isName => absurd isName isOther

/-- A load tells nothing of other names. -/
theorem Told.tells_others (told : Told log registry t) {answer : Except Fault Ref}
    (isOther : other ≠ name) : Tells (log ++ [.load name answer]) other (registry.find? other) := by
  refine (told.tells other).concat builder?_load ?_ fun _ _ _ => beq_eq_false_iff_ne.2 isOther
  cases answer with
  | error fault => exact module?_failed
  | ok module => rw [module?_load, if_neg isOther, Option.or_none]

/-- A load that runs no builder tells what is known. -/
theorem Told.recall (told : Told log registry t) {answer : Except Fault Ref}
    (noRun : ∀ entry, registry.find? name = some entry → entry.loaded ≠ none)
    (known : ∀ module, answer = .ok module → module? log name = some module) :
    Told (log ++ [.load name answer]) registry t := by
  have same : module? (log ++ [.load name answer]) name = module? log name := by
    cases answer with
    | error fault => exact module?_failed
    | ok module =>
      rw [module?_load, known module rfl]
      rfl
  refine told.extend (.refl t) (told.names.trans registered_load.symm) (fun other => ?_) ?_ ?_ nofun
  · by_cases isName : other = name
    · subst isName
      exact (told.tells other).concat builder?_load same fun entry found pending =>
        absurd pending (noRun entry found)
    · exact told.tells_others isName
  · intro other module isLoad
    cases isLoad
    exact same.trans (known module rfl)
  · intro other module isModule
    cases answer with
    | error fault => cases isModule
    | ok module =>
      rw [Event.moduleOf?, Option.ite_none_right_eq_some] at isModule
      cases isModule.2
      exact told.shelved name module (known module rfl)

/-- A load that runs a builder tells how that went. -/
theorem Told.attempt (told : Told log registry t) (found : registry.find? name = some entry)
    (pending : entry.loaded = none) :
    Told (log ++ [.load name (registry.load name t).1.1]) (registry.load name t).1.2
      (registry.load name t).2 := by
  have known := told.tells name
  rw [found] at known
  obtain ⟨isBuilder, isModule, attempts⟩ := known
  obtain ⟨history, answers⟩ := told.conducts name entry.build isBuilder entry.attempts t (.refl t)
  rcases run : (entry.build entry.attempts).runOn t with ⟨fault | module, u⟩
  · rw [run] at history
    rw [load_failed found pending run]
    refine told.extend history ?_ (fun other => ?_) nofun nofun nofun
    · rw [names_again, registered_load, told.names]
    · rw [find?_again]
      split
      · next isName =>
        subst isName
        rw [found]
        refine ⟨builder?_load.trans isBuilder, module?_failed.trans isModule, fun pending => ?_⟩
        rw [tries_concat, isBuilder, ← attempts pending]
        simp [Event.loads]
      · next isOther => exact told.tells_others isOther
  · obtain ⟨title, members, cell⟩ := answers module u run
    rw [run] at history
    rw [load_succeeded found pending run]
    have freezes : History u (u.freeze (.object module)) :=
      .act (.freeze (.object module)) ⟨nofun, nofun⟩
    have sound := (told.reachable.later history).sound
    have isModule : module? (log ++ [.load name (.ok module)]) name = some module := by
      rw [module?_load, isModule, pending, if_pos rfl]
      rfl
    refine told.extend (history.trans freezes) ?_ (fun other => ?_) ?_ ?_ nofun
    · rw [names_keep, names_again, registered_load, told.names]
    · rw [find?_keep, find?_again]
      split
      · next isName =>
        subst isName
        rw [found]
        exact ⟨builder?_load.trans isBuilder, isModule, nofun⟩
      · next isOther => exact told.tells_others isOther
    · intro other module' isLoad
      cases isLoad
      exact isModule
    · intro other module' isLoad
      rw [Event.moduleOf?, Option.ite_none_right_eq_some] at isLoad
      cases isLoad.2
      exact Store.shelved_freeze sound cell

/-- The registry after a load is as the longer log tells. -/
theorem Told.load (told : Told log registry t) (name : String) :
    Told (log ++ [.load name (registry.load name t).1.1]) (registry.load name t).1.2
      (registry.load name t).2 := by
  have known := told.tells name
  cases found : registry.find? name with
  | none =>
    rw [load_unknown found]
    refine told.recall (fun entry isEntry => ?_) nofun
    rw [found] at isEntry
    cases isEntry
  | some entry =>
    cases loaded : entry.loaded with
    | none => exact told.attempt found loaded
    | some module =>
      rw [found] at known
      rw [load_loaded found loaded]
      refine told.recall (fun entry' isEntry => ?_) fun module' isAnswer => ?_
      · rw [found] at isEntry
        cases isEntry
        rw [loaded]
        exact Option.some_ne_none module
      · cases isAnswer
        exact known.2.1.trans loaded

/-- A registry in use is as the log of its calls tells. -/
theorem Use.told (use : Use log registry t) : Told log registry t := by
  induction use with
  | start reachable =>
    exact ⟨reachable, rfl, fun _ => ⟨rfl, rfl⟩, nofun, nofun, nofun⟩
  | register use name build conducts ih => exact ih.register name conducts
  | load use name ih => exact ih.load name
  | aside use history ih => exact ih.aside history

/-- What a registry in use answers is told by the log of its calls. It has the names that were
registered, each once and in the order of its first registration, each with the builder that came
first and the module that was answered first. A name that is taken is refused, and so is a name that
is not registered. A name that stands for a module is answered with it, and nothing is run. For any
other name its builder is run once, and was run for each load before. If it fails, what the registry
knows stays the same; if it succeeds, the name stands for the module, whose lists, sets, dicts and
mappings are frozen and stay so. -/
theorem Use.told_by_log (use : Use log registry t) :
    (registry.names = registered log ∧ registry.names.Nodup) ∧
    (∀ known ∈ registry.contents,
      builder? log known.1 = some known.2.1 ∧ module? log known.1 = known.2.2) ∧
    (∀ name module, .load name (.ok module) ∈ log → module? log name = some module) ∧
    (∀ name module, module? log name = some module → ∀ u, History t u → u.Shelved module) ∧
    (∀ name build,
      (name ∈ registered log → registry.register name build = .error (.duplicateModule name)) ∧
      (name ∉ registered log → ∃ next, registry.register name build = .ok next ∧
        next.contents = registry.contents ++ [(name, build, none)])) ∧
    ∀ name,
      (name ∉ registered log →
        registry.load name t = ((.error (.moduleNotFound name), registry), t)) ∧
      (∀ module, module? log name = some module →
        registry.load name t = ((.ok module, registry), t)) ∧
      (name ∈ registered log → module? log name = none →
        ∃ build next, builder? log name = some build ∧
          match (build (tries log name)).runOn t with
          | (.error fault, u) =>
            registry.load name t = ((.error fault, next), u) ∧ next.contents = registry.contents
          | (.ok module, u) =>
            registry.load name t = ((.ok module, next), u.freeze (.object module)) ∧
            next.contents = registry.contents.map fun known =>
              if known.1 = name then (known.1, known.2.1, some module) else known) := by
  have told := use.told
  have distinct : registry.names.Nodup := told.names ▸ nodup_registered
  have tells (name : String) := told.tells name
  refine ⟨⟨told.names, distinct⟩, ?_, told.alike, ?_, fun name build => ⟨?_, ?_⟩,
    fun name => ⟨?_, ?_, ?_⟩⟩
  · intro known isKnown
    obtain ⟨entry, isEntry, rfl⟩ := List.mem_map.1 isKnown
    have tells := tells entry.name
    rw [find?_of_mem distinct isEntry] at tells
    exact ⟨tells.1, tells.2.1⟩
  · intro name module isModule u history
    exact (told.aside history).shelved name module isModule
  · intro taken
    exact register_taken (told.names ▸ taken)
  · intro fresh
    exact ⟨_, register_fresh (told.names ▸ fresh), List.map_append⟩
  · intro unknown
    exact load_unknown (find?_eq_none_iff.2 (told.names ▸ unknown))
  · intro module isModule
    have tells := tells name
    cases found : registry.find? name with
    | none =>
      rw [found, Tells, isModule] at tells
      cases tells.2
    | some entry =>
      rw [found] at tells
      exact load_loaded found (tells.2.1.symm.trans isModule)
  · intro isRegistered unloaded
    have tells := tells name
    cases found : registry.find? name with
    | none => exact absurd (told.names ▸ isRegistered) (find?_eq_none_iff.1 found)
    | some entry =>
      rw [found] at tells
      obtain ⟨isBuilder, isModule, attempts⟩ := tells
      have pending : entry.loaded = none := isModule.symm.trans unloaded
      rcases run : (entry.build entry.attempts).runOn t with ⟨fault | module, u⟩
      · refine ⟨entry.build, registry.again name, isBuilder, ?_⟩
        rw [← attempts pending, run]
        exact ⟨load_failed found pending run, contents_again⟩
      · refine ⟨entry.build, (registry.again name).keep name module, isBuilder, ?_⟩
        rw [← attempts pending, run]
        exact ⟨load_succeeded found pending run, contents_keep⟩

/-- A builder that fails at first, and then makes a module with a list. -/
def reluctant : Nat → Op Ref
  | 0 => throw (.custom "not yet")
  | _ + 1 => do
    let items ← ValueList.new [.int 1]
    Op.newModule "reluctant" [("items", items)]

theorem conducts_reluctant : Conducts reluctant s := by
  intro n t _
  cases n with
  | zero => exact ⟨.refl t, nofun⟩
  | succ n =>
    let listed := (t.alloc (.list [.int 1] false)).2
    have lists : History t listed := .act (.newList [.int 1]) ⟨fun v isItem => by
      rw [List.mem_singleton.1 isItem]
      exact Store.has_of_scalar rfl, nofun⟩
    have members : History listed ((reluctant (n + 1)).runOn t).2 :=
      .act (.newModule "reluctant" [("items", .object (t.alloc (.list [.int 1] false)).1)])
        ⟨fun v isMember => by
          rw [List.mem_singleton.1 isMember]
          exact Store.has_object.2 (by simp [listed, Store.alloc, Store.size]), nofun⟩
    refine ⟨lists.trans members, fun module u run => ?_⟩
    cases run
    exact ⟨"reluctant", _, Store.cell_alloc_self _ _⟩

/-- The second load makes the module, the third answers it, and its list is frozen. -/
theorem told_by_log_reluctant : ∃ registry t,
    Use [.register "m" reluctant, .load "m" (.error (.custom "not yet")), .load "m" (.ok ⟨1⟩)]
      registry t ∧
    registry.names = ["m"] ∧ registry.load "m" t = ((.ok ⟨1⟩, registry), t) ∧
    registry.register "m" reluctant = .error (.duplicateModule "m") ∧
    ∀ u, History t u → u.Shelved ⟨1⟩ := by
  have use : Use [.register "m" reluctant, .load "m" (.error (.custom "not yet")),
      .load "m" (.ok ⟨1⟩)] _ _ :=
    (((Use.start Store.reachable_empty).register "m" reluctant conducts_reluctant).load "m").load "m"
  obtain ⟨⟨names, -⟩, -, -, shelved, registers, loads⟩ := use.told_by_log
  refine ⟨_, _, use, names, (loads "m").2.1 ⟨1⟩ rfl, (registers "m" reluctant).1 (by decide), ?_⟩
  exact shelved "m" ⟨1⟩ rfl

end Use
end Registry
end Interchange
