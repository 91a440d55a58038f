import Interchange.Proofs.Mapping.Frozen
import Interchange.Proofs.Store.Search

/-!
# What shared mappings hold

Each way to write to a shared mapping comes down to a run of entries into its dict, the value of
each searched right before (`Mapping.Puts`). The search says nothing of keys. So a call stores
nothing that leads to a shared mapping when no key that it is given does (`Puts.clear_values`,
`Puts.clear_keys`). A key may: the check of keys passes over the tags of records and the members of
modules, and over nothing else (`clear_iff_unhashed`). A script gives only keys that lead nowhere.
`Reachable.stores_clear` puts this together for every way to write.

Between two searches only the dict of the mapping has changed. What a value leads to is what it
leads to aside of that dict and, if it leads to the dict, what the entries do (`clear_iff`).
-/

namespace Interchange

open Store

namespace Cell

/-- The parts of a hashable cell that the check of keys passes over. -/
def unhashed : Cell → List Value
  | record tag _ => [tag]
  | module _ members => members.map Prod.snd
  | _ => []

variable {c : Cell} {v : Value}

theorem parts_of_hashed (h : v ∈ c.hashed) : v ∈ c.parts := by
  cases c with
  | tuple => exact h
  | record => exact List.mem_cons_of_mem _ h
  | _ => cases h

theorem parts_of_unhashed (h : v ∈ c.unhashed) : v ∈ c.parts := by
  cases c with
  | record => exact List.mem_cons.2 (.inl (List.mem_singleton.1 h))
  | module => exact h
  | _ => cases h

theorem hashed_or_unhashed (plain : c.isContainer = false) (h : v ∈ c.parts) :
    v ∈ c.hashed ∨ v ∈ c.unhashed := by
  cases c with
  | tuple => exact .inl h
  | record =>
    rcases List.mem_cons.1 h with rfl | isField
    · exact .inr List.mem_cons_self
    · exact .inl isField
  | module => exact .inr h
  | list | set | dict | mapping => cases plain
  | function | extension | proxy => cases h

theorem isMapping_of_not_container (plain : c.isContainer = false) : c.isMapping = false := by
  cases c <;> first | rfl | cases plain

end Cell

namespace Store

variable {s t : Store} {v w : Value} {d r ref : Ref}

/-! ## Keys -/

theorem clear_of_scalar (scalar : v.identity? = none) : s.Clear v := by
  intro r reaches
  rcases reaches.cases_head with rfl | ⟨w, ⟨ref, rfl, -⟩, -⟩
  · cases scalar
  · cases scalar

theorem Clear.part (h : s.Clear v) (reaches : s.ReachesBy Cell.parts v w) : s.Clear w :=
  fun r later => h r (reaches.trans later)

theorem clear_object (plain : (s.cell ref).isMapping = false)
    (parts : ∀ v ∈ (s.cell ref).parts, s.Clear v) : s.Clear (.object ref) := by
  intro r reaches
  rcases reaches.cases_head with same | ⟨w, ⟨_, same, part⟩, later⟩
  · cases same
    exact plain
  · cases same
    exact parts w part r later

/-- A hashable value leads to no shared mapping, unless the check of keys passed over a way
to it. -/
theorem clear_iff_unhashed (aged : s.Aged) (has : s.Has v) (hashable : s.checkHashable v = .ok ()) :
    s.Clear v ↔ ∀ r, s.ReachesBy Cell.hashed v (.object r) →
      ∀ w ∈ (s.cell r).unhashed, s.Clear w := by
  constructor
  · intro clear r reaches w part
    have reaches : s.ReachesBy Cell.parts v (.object r) := by
      refine Relation.ReflTransGen.mono ?_ _ _ reaches
      rintro _ _ ⟨ref, same, part⟩
      exact ⟨ref, same, Cell.parts_of_hashed part⟩
    exact clear.part (reaches.tail ⟨r, rfl, Cell.parts_of_unhashed part⟩)
  · intro passed
    induction v using Value.age_induction with
    | scalar v scalar => exact clear_of_scalar scalar
    | object ref ih =>
      have inside := has_object.1 has
      obtain ⟨plain, hashable⟩ := hashable_hashed aged inside hashable
      refine clear_object (Cell.isMapping_of_not_container plain) fun v part => ?_
      have older := aged ref plain v (Cell.held_of_parts part)
      rcases Cell.hashed_or_unhashed plain part with isHashed | isUnhashed
      · exact ih v older (older.mono (Nat.le_of_lt inside))
          (hashable v isHashed)
          fun r reaches => passed r (.head ⟨ref, rfl, isHashed⟩ reaches)
      · exact passed ref .refl v isUnhashed

/-! ## Aside of a cell -/

/-- A value leads to another, on a way that ends where it comes to a given cell. -/
def ReachesAside (s : Store) (d : Ref) : Value → Value → Prop :=
  Relation.ReflTransGen fun v w => ∃ ref, v = .object ref ∧ ref ≠ d ∧ w ∈ (s.cell ref).parts

/-- A value that leads to no shared mapping on a way that ends where it comes to a given cell. -/
def ClearAside (s : Store) (d : Ref) (v : Value) : Prop :=
  ∀ r, s.ReachesAside d v (.object r) → (s.cell r).isMapping = false

theorem ReachesAside.reaches (h : s.ReachesAside d v w) : s.ReachesBy Cell.parts v w := by
  induction h with
  | refl => exact .refl
  | tail _ leads ih =>
    obtain ⟨ref, same, -, part⟩ := leads
    exact ih.tail ⟨ref, same, part⟩

/-- A way ends at the cell, or it comes to the cell and goes on from one of its parts. -/
theorem reachesAside_or (h : s.ReachesBy Cell.parts v w) : s.ReachesAside d v w ∨
    s.ReachesAside d v (.object d) ∧ ∃ u ∈ (s.cell d).parts, s.ReachesAside d u w := by
  induction h with
  | refl => exact .inl .refl
  | @tail x w _ leads ih =>
    obtain ⟨ref, rfl, part⟩ := leads
    by_cases same : ref = d
    · subst same
      rcases ih with here | ⟨before, -⟩
      · exact .inr ⟨here, w, part, .refl⟩
      · exact .inr ⟨before, w, part, .refl⟩
    · rcases ih with here | ⟨before, u, isPart, there⟩
      · exact .inl (here.tail ⟨ref, rfl, same, part⟩)
      · exact .inr ⟨before, u, isPart, there.tail ⟨ref, rfl, same, part⟩⟩

/-- A value is clear when it is so aside of a cell, and with it the parts of the cell if it leads
there. -/
theorem clear_iff (d : Ref) : s.Clear v ↔ s.ClearAside d v ∧
    (s.ReachesAside d v (.object d) → ∀ w ∈ (s.cell d).parts, s.ClearAside d w) := by
  constructor
  · intro clear
    refine ⟨fun r reaches => clear r reaches.reaches, fun before w part r reaches => clear r ?_⟩
    exact before.reaches.trans (.head ⟨d, rfl, part⟩ reaches.reaches)
  · rintro ⟨aside, parts⟩ r reaches
    rcases reachesAside_or reaches with here | ⟨before, w, part, there⟩
    · exact aside r here
    · exact parts before w part r there

section Frame

variable (same : ∀ ref, ref ≠ d → t.cell ref = s.cell ref)
include same

/-- Aside of a cell, values lead to what they do without it. -/
theorem reachesAside_congr : t.ReachesAside d v w ↔ s.ReachesAside d v w := by
  have leads : (fun v w => ∃ ref, v = Value.object ref ∧ ref ≠ d ∧ w ∈ (t.cell ref).parts) =
      fun v w => ∃ ref, v = Value.object ref ∧ ref ≠ d ∧ w ∈ (s.cell ref).parts := by
    funext v w
    refine propext (exists_congr fun ref => and_congr_right fun _ => ?_)
    exact and_congr_right fun other => by rw [same ref other]
  rw [ReachesAside, ReachesAside, leads]

theorem clearAside_congr (mapping : (t.cell d).isMapping = (s.cell d).isMapping) :
    t.ClearAside d v ↔ s.ClearAside d v := by
  refine forall_congr' fun r => ?_
  have kind : (t.cell r).isMapping = (s.cell r).isMapping := by
    by_cases other : r = d
    · rw [other, mapping]
    · rw [same r other]
  rw [reachesAside_congr same, kind]

end Frame

end Store

namespace Mapping

variable {s t : Store} {d ref : Ref} {key value : Value} {entries : List (Value × Value)}

/-- Entries are put into a dict one after the other, each value when no shared mapping was found
in it. -/
inductive Puts (d : Ref) : Store → List (Value × Value) → Store → Prop
  | nil {s : Store} : Puts d s [] s
  | cons {s t : Store} {key value : Value} {rest old : List (Value × Value)}
      (cell : s.cell d = .dict old false) (none : s.findMapping? value = none)
      (hashable : s.checkHashable key = .ok ())
      (next : Puts d (s.write d (.dict (s.putEntry key value old) false)) rest t) :
      Puts d s ((key, value) :: rest) t

namespace Puts

/-- Nothing but the dict is changed. -/
theorem cell_eq (h : Puts d s entries t) {other : Ref} (ne : other ≠ d) :
    t.cell other = s.cell other := by
  induction h with
  | nil => rfl
  | cons _ _ _ _ ih => rw [ih, cell_write_other _ _ ne.symm]

theorem isMapping_eq (h : Puts d s entries t) :
    (t.cell d).isMapping = (s.cell d).isMapping := by
  induction h with
  | nil => rfl
  | cons cell _ _ _ ih =>
    rw [ih, cell, cell_write_self _ _ (lt_size_of_isContainer (by rw [cell]; rfl))]
    rfl

theorem clearAside_iff (h : Puts d s entries t) {v : Value} :
    t.ClearAside d v ↔ s.ClearAside d v :=
  clearAside_congr (fun _ ne => h.cell_eq ne) h.isMapping_eq

/-- What the dict holds afterwards, it held before or was given. -/
theorem parts (h : Puts d s entries t) {v : Value} (part : v ∈ (t.cell d).parts) :
    v ∈ (s.cell d).parts ∨ v ∈ entryParts entries := by
  induction h with
  | nil => exact .inl part
  | @cons s t key value rest old cell _ _ _ ih =>
    rw [entryParts_cons]
    rcases ih part with before | later
    · rw [cell_write_self _ _ (lt_size_of_isContainer (by rw [cell]; rfl))] at before
      rw [cell]
      rcases mem_entryParts_putEntry before with held | rfl | rfl
      · exact .inl held
      · exact .inr List.mem_cons_self
      · exact .inr (List.mem_cons_of_mem _ List.mem_cons_self)
    · exact .inr (List.mem_cons_of_mem _ (List.mem_cons_of_mem _ later))

/-- Aside of the dict, the values that are stored are clear, and where one leads to the dict, so is
all that the dict holds afterwards, but for the keys. -/
theorem values_clearAside (h : Puts d s entries t) (closed : s.Closed)
    (has : ∀ v ∈ entryParts entries, s.Has v) : ∀ entry ∈ entries, s.ClearAside d entry.2 ∧
      (s.ReachesAside d entry.2 (.object d) → ∀ w ∈ (t.cell d).parts,
        s.ClearAside d w ∨ ∃ entry ∈ entries, w = entry.1) := by
  induction h with
  | nil => exact nofun
  | @cons s t key value rest old cell none hashable next ih =>
    rw [entryParts_cons] at has
    obtain ⟨hasKey, has⟩ := List.forall_mem_cons.1 has
    obtain ⟨hasValue, has⟩ := List.forall_mem_cons.1 has
    have step := Step.put cell hashable hasKey hasValue
    have first : Puts d s [(key, value)] _ := .cons cell none hashable .nil
    have whole : Puts d s ((key, value) :: rest) t := .cons cell none hashable next
    have later := ih (step.closed closed) fun v isPart => (has v isPart).mono step.size_le
    obtain ⟨aside, parts⟩ := (clear_iff d).1 (clear_of_findMapping? closed hasValue none)
    refine List.forall_mem_cons.2 ⟨⟨aside, fun reaches w part => ?_⟩, fun entry isRest => ?_⟩
    · rcases whole.parts part with before | given
      · exact .inl (parts reaches w before)
      · rcases List.mem_cons.1 given with rfl | given
        · exact .inr ⟨_, List.mem_cons_self, rfl⟩
        rcases List.mem_cons.1 given with rfl | given
        · exact .inl aside
        obtain ⟨entry, isRest, rfl | rfl⟩ := mem_entryParts.1 given
        · exact .inr ⟨entry, List.mem_cons_of_mem _ isRest, rfl⟩
        · exact .inl (first.clearAside_iff.1 (later entry isRest).1)
    · obtain ⟨aside, parts⟩ := later entry isRest
      refine ⟨first.clearAside_iff.1 aside, fun reaches w part => ?_⟩
      have reaches := (reachesAside_congr fun _ ne => first.cell_eq ne).2 reaches
      refine (parts reaches w part).imp first.clearAside_iff.1 ?_
      rintro ⟨entry, isRest, same⟩
      exact ⟨entry, List.mem_cons_of_mem _ isRest, same⟩

/-- When the keys lead to no shared mapping afterwards, neither do the values. -/
theorem clear_values (h : Puts d s entries t) (closed : s.Closed)
    (has : ∀ v ∈ entryParts entries, s.Has v) (keys : ∀ entry ∈ entries, t.Clear entry.1) :
    ∀ entry ∈ entries, t.Clear entry.2 := by
  intro entry isEntry
  obtain ⟨aside, parts⟩ := h.values_clearAside closed has entry isEntry
  refine (clear_iff d).2 ⟨h.clearAside_iff.2 aside, fun reaches w part => ?_⟩
  have reaches := (reachesAside_congr fun _ ne => h.cell_eq ne).1 reaches
  rcases parts reaches w part with clear | ⟨entry, isEntry, rfl⟩
  · exact h.clearAside_iff.2 clear
  · exact ((clear_iff d).1 (keys entry isEntry)).1

/-- When the keys lead to no shared mapping before, they do not afterwards. -/
theorem clear_keys (h : Puts d s entries t) (closed : s.Closed)
    (has : ∀ v ∈ entryParts entries, s.Has v) (keys : ∀ entry ∈ entries, s.Clear entry.1) :
    ∀ entry ∈ entries, t.Clear entry.1 := by
  intro entry isEntry
  obtain ⟨aside, parts⟩ := (clear_iff d).1 (keys entry isEntry)
  refine (clear_iff d).2 ⟨h.clearAside_iff.2 aside, fun reaches w part => h.clearAside_iff.2 ?_⟩
  have reaches := (reachesAside_congr fun _ ne => h.cell_eq ne).1 reaches
  rcases h.parts part with before | given
  · exact parts reaches w before
  · obtain ⟨entry, isEntry, rfl | rfl⟩ := mem_entryParts.1 given
    · exact ((clear_iff d).1 (keys entry isEntry)).1
    · exact (h.values_clearAside closed has entry isEntry).1

theorem hashable (h : Puts d s entries t) (sound : s.Sound)
    (has : ∀ v ∈ entryParts entries, s.Has v) :
    ∀ entry ∈ entries, s.checkHashable entry.1 = .ok () := by
  induction h with
  | nil => exact nofun
  | cons cell _ hashable _ ih =>
    rw [entryParts_cons] at has
    obtain ⟨hasKey, has⟩ := List.forall_mem_cons.1 has
    obtain ⟨hasValue, has⟩ := List.forall_mem_cons.1 has
    have step := Step.put cell hashable hasKey hasValue
    have later := ih (step.sound sound) fun v isPart => (has v isPart).mono step.size_le
    refine List.forall_mem_cons.2 ⟨hashable, fun entry isRest => ?_⟩
    have hasEntry : _ := has entry.1 (mem_entryParts.2 ⟨entry, isRest, .inl rfl⟩)
    rw [← checkHashable_eq sound.aged step.evolves hasEntry]
    exact later entry isRest

end Puts

/-- What entries lead to when they have been stored. -/
structure Guarded (s t : Store) (entries : List (Value × Value)) : Prop where
  /-- Keys lead to no shared mapping when none was behind a part that the check of keys passes
  over. -/
  keys : (∀ entry ∈ entries, ∀ r, s.ReachesBy Cell.hashed entry.1 (.object r) →
    ∀ v ∈ (s.cell r).unhashed, s.Clear v) → ∀ entry ∈ entries, t.Clear entry.1
  /-- Values lead to none when the keys do not. -/
  values : (∀ entry ∈ entries, t.Clear entry.1) → ∀ entry ∈ entries, t.Clear entry.2

theorem Puts.guarded (h : Puts d s entries t) (sound : s.Sound)
    (has : ∀ v ∈ entryParts entries, s.Has v) : Guarded s t entries where
  keys := fun passed => h.clear_keys sound.closed has fun entry isEntry =>
    (clear_iff_unhashed sound.aged (has _ (mem_entryParts.2 ⟨entry, isEntry, .inl rfl⟩))
      (h.hashable sound has entry isEntry)).2 (passed entry isEntry)
  values := h.clear_values sound.closed has

/-! ## Ways to write -/

theorem read_ok {mapping : Mapping} (h : (read ref).runOn s = (.ok mapping, t)) :
    s.cell ref = .mapping mapping.name mapping.dict mapping.frozen ∧ t = s := by
  rw [read, Op.runOn_bind, Op.runOn_cell] at h
  cases cell : s.cell ref with
  | mapping name dict frozen =>
    rw [cell] at h
    cases h
    exact ⟨rfl, rfl⟩
  | _ =>
    rw [cell] at h
    cases h

theorem checkMutable_ok {mapping : Mapping} {op : String}
    (h : (mapping.checkMutable op).runOn s = (.ok (), t)) : t = s := by
  rw [checkMutable] at h
  split at h
  · cases h
  · cases h
    rfl

theorem checkStorable_ok {op : String} (h : (checkStorable op value).runOn s = (.ok (), t)) :
    s.findMapping? value = none ∧ t = s := by
  rw [checkStorable, Op.runOn_bind, Op.runOn_get] at h
  simp only [Store.checkStorable] at h
  cases found : s.findMapping? value with
  | some name =>
    rw [found] at h
    cases h
  | none =>
    rw [found] at h
    cases h
    exact ⟨rfl, rfl⟩

theorem insert_ok (h : (Dict.insert d key value).runOn s = (.ok (), t)) :
    ∃ old, s.cell d = .dict old false ∧ s.checkHashable key = .ok () ∧
      t = s.write d (.dict (s.putEntry key value old) false) := by
  rw [Dict.runOn_insert] at h
  split at h
  · next old hashable cell =>
    split at h
    · cases h
      exact ⟨old, cell, hashable, rfl⟩
    · cases h
  · cases h
  · cases h

/-- A value that passes the search and is then written under a key is put. -/
theorem puts_of_insert {op : String} (h : (do
      checkStorable op value
      Dict.insert d key value : Op Unit).runOn s = (.ok (), t)) : Puts d s [(key, value)] t := by
  obtain ⟨_, m, checked, inserted⟩ := Op.steps_of_bind h
  obtain ⟨none, rfl⟩ := checkStorable_ok checked
  obtain ⟨old, cell, hashable, rfl⟩ := insert_ok inserted
  exact .cons cell none hashable .nil

theorem Puts.append {first rest : List (Value × Value)} {m : Store} (h : Puts d s first m)
    (h' : Puts d m rest t) : Puts d s (first ++ rest) t := by
  induction h with
  | nil => exact h'
  | cons cell none hashable _ ih => exact .cons cell none hashable (ih h')

theorem puts_of_merge {op : String} (h : (merge d op entries).runOn s = (.ok (), t)) :
    Puts d s entries t := by
  induction entries generalizing s with
  | nil =>
    cases h
    exact .nil
  | cons entry rest ih =>
    obtain ⟨_, m, first, later⟩ := Op.steps_of_bind h
    exact (puts_of_insert first).append (ih later)

theorem puts_of_setKey (h : (setKey ref key value).runOn s = (.ok (), t)) :
    ∃ d, Puts d s [(key, value)] t := by
  obtain ⟨mapping, m, isRead, checked⟩ := Op.steps_of_bind h
  obtain ⟨-, rfl⟩ := read_ok isRead
  obtain ⟨_, m', mutable, inserted⟩ := Op.steps_of_bind checked
  obtain rfl := checkMutable_ok mutable
  exact ⟨mapping.dict, puts_of_insert inserted⟩

/-- A default that is written where there was no value is put. -/
theorem puts_of_setDefault {v : Value} (h : (setDefault ref key value).runOn s = (.ok v, t))
    (absent : ((get? ref key).runOn s).1 = .ok none) : ∃ d, Puts d s [(key, value)] t := by
  obtain ⟨mapping, m, isRead, found⟩ := Op.steps_of_bind h
  obtain ⟨cell, rfl⟩ := read_ok isRead
  have lookedUp : (get? ref key).runOn m = (Dict.get? mapping.dict key).runOn m := by
    rw [get?, Op.runOn_bind, isRead]
  obtain ⟨existing, m', got, written⟩ := Op.steps_of_bind found
  rw [lookedUp, got] at absent
  cases absent
  obtain rfl : m' = m := by
    have unchanged := Dict.runOn_get?_snd (s := m) mapping.dict key
    rwa [got] at unchanged
  obtain ⟨_, m'', mutable, stored⟩ := Op.steps_of_bind written
  obtain rfl := checkMutable_ok mutable
  obtain ⟨_, m₁, checked, rest⟩ := Op.steps_of_bind stored
  obtain ⟨_, m₂, inserted, answered⟩ := Op.steps_of_bind rest
  cases answered
  have both : (do
      checkStorable "setdefault" value
      Dict.insert mapping.dict key value : Op Unit).runOn m'' = (.ok (), t) := by
    rw [Op.runOn_bind, checked]
    exact inserted
  exact ⟨mapping.dict, puts_of_insert both⟩

theorem puts_of_update {other : Ref} (h : (update ref other).runOn s = (.ok (), t)) :
    ∃ d, Puts d s (s.dictEntries other) t := by
  obtain ⟨mapping, m, isRead, checked⟩ := Op.steps_of_bind h
  obtain ⟨-, rfl⟩ := read_ok isRead
  obtain ⟨_, m', mutable, merged⟩ := Op.steps_of_bind checked
  obtain rfl := checkMutable_ok mutable
  exact ⟨mapping.dict, puts_of_merge merged⟩

/-- A method that has succeeded was given a number of arguments that it takes. -/
theorem body_of_run {call : Ref → List Value → Op Value} {method : Method} {args : List Value}
    {body : Op Value} {v : Value}
    (isBody : run call ref method args = do
      Op.ofExcept (Arguments.checkCount method.name args.length (arity method).1 (arity method).2)
      body)
    (h : (run call ref method args).runOn s = (.ok v, t)) : body.runOn s = (.ok v, t) := by
  rw [isBody] at h
  cases count : Arguments.checkCount method.name args.length (arity method).1 (arity method).2 with
  | ok => rwa [count] at h
  | error fault =>
    rw [count] at h
    cases h

theorem puts_of_runSetDefault {call : Ref → List Value → Op Value} {args : List Value} {v : Value}
    (h : (run call ref .setDefault args).runOn s = (.ok v, t))
    (absent : ((get? ref (args.headD .nothing)).runOn s).1 = .ok none) :
    ∃ d, Puts d s [(args.headD .nothing, args.getD 1 .nothing)] t :=
  puts_of_setDefault (body_of_run rfl h) absent

theorem puts_of_runUpdate {call : Ref → List Value → Op Value} {other : Ref} {flag : Bool}
    {v : Value} (cell : s.cell other = .dict entries flag)
    (h : (run call ref .update [.object other]).runOn s = (.ok v, t)) :
    ∃ d, Puts d s entries t := by
  rw [runOn_run_update cell] at h
  obtain ⟨_, m, updated, answered⟩ := Op.steps_of_bind h
  cases answered
  have puts := puts_of_update updated
  rwa [dictEntries, cell] at puts

end Mapping

/-! ## Scripts -/

namespace Script

variable {s t : Session} {mapping : Ref} {call : Caller} {args : List Datum} {d : Datum}

/-- A raised error is no result. -/
theorem raise_ne_ok {α : Type} {message : WideString} {a : α} :
    (Run.raise message : Run α).runIn s ≠ (.ok a, t) := by
  intro h
  obtain ⟨_, _, -, thrown⟩ := Run.steps_of_bind h
  cases thrown

theorem raiseFault_ne_ok {α : Type} {fault : Fault} {a : α} :
    (raiseFault fault : Run α).runIn s ≠ (.ok a, t) := by
  rw [raiseFault]
  split
  · exact nofun
  · exact raise_ne_ok

/-- What is thrown to a script is no result. -/
theorem run_of_shielded {α : Type} {run : Run α} {a : α}
    (h : (shielded run).runIn s = (.ok a, t)) : run.runIn s = (.ok a, t) := by
  rw [shielded, Run.runIn_tryCatch] at h
  rcases ran : run.runIn s with ⟨stop | b, u⟩
  · rw [ran] at h
    cases stop with
    | thrown => cases h
    | fault fault => exact absurd h raiseFault_ne_ok
    | engine | uncaught =>
      obtain ⟨_, _, -, raised⟩ := Run.steps_of_bind h
      exact absurd raised raise_ne_ok
  · rw [ran] at h
    exact h

theorem binding_throw_ne_ok {α : Type} {fault : EngineFault} {a : α} :
    (binding (throw (.engine fault)) : Run α).runIn s ≠ (.ok a, t) := by
  rw [binding, Run.runIn_tryCatch]
  exact raise_ne_ok

/-- A script that has written to a mapping has written what its arguments were made into. -/
theorem setKey_of_set (h : (runMethod call mapping .set args).runIn s = (.ok d, t)) :
    ∃ key value u w, (toValue (args.headD .undefined)).runIn s = (.ok key, u) ∧
      (toValue (args.getD 1 .undefined)).runIn u = (.ok value, w) ∧
      (Mapping.setKey mapping key value).runOn w.store = (.ok (), t.store) := by
  have ran := run_of_shielded h
  dsimp only at ran
  split at ran
  · obtain ⟨_, _, bound, -⟩ := Run.steps_of_bind ran
    exact absurd bound binding_throw_ne_ok
  · obtain ⟨key, u, hasKey, rest⟩ := Run.steps_of_bind ran
    obtain ⟨value, w, hasValue, rest⟩ := Run.steps_of_bind rest
    obtain ⟨_, x, written, answered⟩ := Run.steps_of_bind rest
    cases answered
    exact ⟨key, value, u, w, hasKey, hasValue, Run.runOn_of_onStore written⟩

end Script

namespace Store

variable {s : Store}

theorem has_entry {key value : Value} (hasKey : s.Has key) (hasValue : s.Has value) :
    ∀ v ∈ entryParts [(key, value)], s.Has v := by
  intro v part
  obtain ⟨entry, isEntry, same⟩ := mem_entryParts.1 part
  obtain rfl := List.mem_singleton.1 isEntry
  rcases same with rfl | rfl
  · exact hasKey
  · exact hasValue

/-- What is made of a script value is no key, unless it is a scalar. -/
theorem Copied.scalar {v : Value} (h : s.Copied v) (hashable : s.checkHashable v = .ok ()) :
    v.identity? = none := by
  cases v with
  | object ref =>
    rw [checkHashable, checkHashableWithin_container (h ref rfl)] at hashable
    cases hashable
  | _ => rfl

/-- Whatever a call stores in a shared mapping leads to no shared mapping, but by a key that led to
one through the tag of a record or a member of a module: so it is for a key that is set, a default
where there was no value, and the entries of a dict. What a script sets never leads to one. -/
theorem Reachable.stores_clear (h : s.Reachable) :
    (∀ ref key value t, s.Has key → s.Has value →
      (Mapping.setKey ref key value).runOn s = (.ok (), t) →
      Mapping.Guarded s t [(key, value)]) ∧
    (∀ call ref args v t, (∀ a ∈ args, s.Has a) →
      ((Mapping.get? ref (args.headD .nothing)).runOn s).1 = .ok none →
      (Mapping.run call ref .setDefault args).runOn s = (.ok v, t) →
      Mapping.Guarded s t [(args.headD .nothing, args.getD 1 .nothing)]) ∧
    (∀ call ref other entries flag v t, s.cell other = .dict entries flag →
      (Mapping.run call ref .update [.object other]).runOn s = (.ok v, t) →
      Mapping.Guarded s t entries) ∧
    ∀ call ref args d (u t : Script.Session), u.store = s →
      (Script.runMethod call ref .set args).runIn u = (.ok d, t) →
      ∃ key value m₁ m₂, (Script.toValue (args.headD .undefined)).runIn u = (.ok key, m₁) ∧
        (Script.toValue (args.getD 1 .undefined)).runIn m₁ = (.ok value, m₂) ∧
        (Mapping.setKey ref key value).runOn m₂.store = (.ok (), t.store) ∧
        t.store.Clear key ∧ t.store.Clear value := by
  have sound := h.sound
  refine ⟨?_, ?_, ?_, ?_⟩
  · intro ref key value t hasKey hasValue written
    obtain ⟨d, puts⟩ := Mapping.puts_of_setKey written
    exact puts.guarded sound (has_entry hasKey hasValue)
  · intro call ref args v t has absent written
    obtain ⟨d, puts⟩ := Mapping.puts_of_runSetDefault written absent
    have hasNothing : s.Has .nothing := has_of_scalar rfl
    exact puts.guarded sound
      (has_entry (Mapping.has_headD has hasNothing) (Mapping.has_getD has 1 hasNothing))
  · intro call ref other entries flag v t cell written
    obtain ⟨d, puts⟩ := Mapping.puts_of_runUpdate cell written
    refine puts.guarded sound fun v part => sound.closed other v ?_
    rwa [cell]
  · rintro call ref args d u t rfl written
    obtain ⟨key, value, m₁, m₂, isKey, isValue, set⟩ := Script.setKey_of_set written
    refine ⟨key, value, m₁, m₂, isKey, isValue, set, ?_⟩
    obtain ⟨first, isCopy⟩ := Script.copies_toValue (args.headD .undefined) u sound.closed
    rw [isKey] at first isCopy
    have sound₁ := first.evolves.sound sound
    obtain ⟨next, isCopy'⟩ := Script.copies_toValue (args.getD 1 .undefined) m₁ sound₁.closed
    rw [isValue] at next isCopy'
    have sound₂ := next.evolves.sound sound₁
    have copied : m₂.store.Copied key := (isCopy key rfl).evolves next.evolves
    have hasValue := (isCopy' value rfl).has
    obtain ⟨d, puts⟩ := Mapping.puts_of_setKey set
    have has := has_entry copied.has hasValue
    -- A key that is hashable is no container, so it is a scalar.
    have scalar := copied.scalar (puts.hashable sound₂ has _ List.mem_cons_self)
    have clear : ∀ entry ∈ [(key, value)], t.store.Clear entry.1 :=
      List.forall_mem_singleton.2 (clear_of_scalar scalar)
    exact ⟨clear _ List.mem_cons_self,
      (puts.guarded sound₂ has).values clear _ List.mem_cons_self⟩

/-- A mapping, and a dict that has a list under a record. -/
def lettered : Store :=
  empty.after [.newMapping "shared", .newList [.int 1],
    .newRecord (.string "letter") [("text", .string "a")], .newDict [(.object ⟨3⟩, .object ⟨2⟩)]]

theorem reachable_lettered : lettered.Reachable :=
  reachable_empty.after
    ⟨⟨by decide, nofun⟩, ⟨by decide, nofun⟩, ⟨by decide, nofun⟩, ⟨by decide, nofun⟩, trivial⟩

/-- The entry that is taken over leads to no mapping. -/
theorem stores_clear_lettered : lettered.Reachable ∧
    lettered.cell ⟨4⟩ = .dict [(.object ⟨3⟩, .object ⟨2⟩)] false ∧
    ∃ t, (Mapping.run (fun _ _ => pure .nothing) ⟨1⟩ .update [.object ⟨4⟩]).runOn lettered =
        (.ok .nothing, t) ∧
      t.cell ⟨0⟩ = .dict [(.object ⟨3⟩, .object ⟨2⟩)] false ∧
      t.Clear (.object ⟨3⟩) ∧ t.Clear (.object ⟨2⟩) := by
  refine ⟨reachable_lettered, rfl, _, rfl, rfl, ?_⟩
  have guarded := reachable_lettered.stores_clear.2.2.1 (fun _ _ => pure .nothing) ⟨1⟩ ⟨4⟩ _ _ _ _
    rfl rfl
  have clear := guarded.keys (List.forall_mem_singleton.2 fun r reaches v part => ?_)
  · exact ⟨clear _ List.mem_cons_self, guarded.values clear _ List.mem_cons_self⟩
  -- The check of keys goes from the record to its field, and passes over its tag.
  · rcases reaches.cases_head with same | ⟨w, ⟨_, same, isField⟩, later⟩
    · cases same
      rw [List.mem_singleton.1 part]
      exact clear_of_scalar rfl
    · cases same
      cases List.mem_singleton.1 isField
      rcases later.cases_head with same | ⟨_, ⟨_, same, _⟩, _⟩
      · cases same
      · cases same

/-- A mapping, and a module that another mapping is a member of. -/
def stacked : Store :=
  empty.after [.newMapping "outer", .newMapping "inner", .newModule "m" [("s", .object ⟨3⟩)]]

/-- A mapping is nested by a key, since a module is a key whatever its members are. -/
theorem key_nests : stacked.Reachable ∧
    ∃ t, (Mapping.setKey ⟨1⟩ (.object ⟨4⟩) (.int 1)).runOn stacked = (.ok (), t) ∧
      t.cell ⟨0⟩ = .dict [(.object ⟨4⟩, .int 1)] false ∧
      t.ReachesBy Cell.parts (.object ⟨4⟩) (.object ⟨3⟩) ∧ (t.cell ⟨3⟩).isMapping = true := by
  refine ⟨?_, _, rfl, rfl, ?_, rfl⟩
  · exact reachable_empty.after
      ⟨⟨by decide, nofun⟩, ⟨by decide, nofun⟩, ⟨by decide, nofun⟩, trivial⟩
  · exact .single ⟨⟨4⟩, rfl, List.mem_cons_self⟩

end Store
end Interchange
