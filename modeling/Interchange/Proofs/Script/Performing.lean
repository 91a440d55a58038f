import Interchange.Proofs.Mapping.Overlay
import Interchange.Proofs.Script.Copying
import Interchange.Proofs.Script.Evaluation

/-!
# Performing a function on a mapping

A script may have a function work on a copy of the entries of a mapping: what the function returns is
laid over the entries, if it is made into a dict. Whatever can fail fails before the first entry is
written, so a failure leaves every entry as it was (`perform_outcome`), as long as the function does
not change the dict on its own account.
-/

namespace Interchange

namespace Script

open Store Run

variable {call : Caller} {function : Datum} {ref dict : Ref} {name : String} {flag : Bool}
  {u s t : Session}

/-! ## Failures -/

section Stopping

variable {α : Type} {run : Run α} {stop : Stop}

/-- A text is found for what has stopped a run, and the run stops with it. -/
theorem runIn_bind_throw {text : Run String} (adds : text.Adds fun _ _ => True)
    (stop : String → Stop) (s : Session) : ∃ stop' t',
      (do throw (stop (← text)) : Run α).runIn s = (.error stop', t') ∧
        s.store.Enlarges t'.store := by
  have enlarges := adds.enlarges s
  rw [runIn_bind]
  generalize text.runIn s = result at enlarges
  rcases result with ⟨stop' | words, t'⟩
  · exact ⟨stop', t', rfl, enlarges⟩
  · exact ⟨_, t', rfl, enlarges⟩

/-- What a function of the embedding side stops with when a script calls it: a thrown value, or a
fault that ends the program. -/
inductive Surfaces : Stop → Prop
  | thrown (e : Datum) : Surfaces (.thrown e)
  | final {fault : Fault} (isFinal : fault.isFinal = true) : Surfaces (.fault fault)

/-- A function of the embedding side that stops surfaces, and no cell changes on the way. -/
theorem runIn_shielded_of_error (stopped : run.runIn s = (.error stop, t)) :
    ∃ stop' t', (shielded run).runIn s = (.error stop', t') ∧ Surfaces stop' ∧
      t.store.Enlarges t'.store := by
  rw [shielded, runIn_tryCatch, stopped]
  cases stop with
  | thrown e => exact ⟨_, t, rfl, .thrown e, .refl _⟩
  | engine | uncaught => exact ⟨_, _, rfl, .thrown _, .refl _⟩
  | fault fault =>
    by_cases isFinal : fault.isFinal = true
    · have passed : (raiseFault fault : Run α).runIn t = (.error (.fault fault), t) := by
        rw [raiseFault, if_pos isFinal]
        rfl
      exact ⟨_, t, passed, .final isFinal, .refl _⟩
    · have raised : (raiseFault fault : Run α).runIn t = (Run.raise fault.message).runIn t := by
        rw [raiseFault, if_neg isFinal]
      exact ⟨_, _, raised.trans rfl, .thrown _, .refl _⟩

/-- A call that stops goes on to stop when it is made on behalf of something else. -/
theorem runIn_faultOfThrown_of_error (stopped : run.runIn s = (.error stop, t)) :
    ∃ stop' t', (faultOfThrown run).runIn s = (.error stop', t') ∧ t.store.Enlarges t'.store := by
  have caught : ∃ stop' m, (catching run).runIn s = (.error stop', m) ∧
      t.store.Enlarges m.store := by
    rw [catching, runIn_tryCatch, stopped]
    cases stop with
    | thrown d => exact runIn_bind_throw (adds_thrownText d) .uncaught t
    | fault | engine | uncaught => exact ⟨_, t, rfl, .refl _⟩
  obtain ⟨stop', m, caught, enlarges⟩ := caught
  rw [faultOfThrown, runIn_tryCatch, caught]
  have told (stop : Stop) : ∃ stop' t',
      (do throw (.fault (.custom (← stopText stop))) : Run α).runIn m = (.error stop', t') ∧
        m.store.Enlarges t'.store :=
    runIn_bind_throw (adds_stopText stop) (fun text => .fault (.custom text)) m
  cases stop' with
  | fault fault => exact ⟨_, m, rfl, enlarges⟩
  | thrown | engine | uncaught =>
    obtain ⟨stop', t', ran, later⟩ := told _
    exact ⟨stop', t', ran, enlarges.trans later⟩

theorem runIn_faultOfThrown_of_ok {a : α} (ran : run.runIn s = (.ok a, t)) :
    (faultOfThrown run).runIn s = (.ok a, t) := by
  rw [faultOfThrown, runIn_tryCatch, catching, runIn_tryCatch, ran]

end Stopping

/-! ## Outcomes -/

/-- The function is called with a script value of the dict, and this is what comes of it. -/
def Answers (call : Caller) (function : Datum) (dict : Ref) (u : Session)
    (result : Except Stop Datum × Session) : Prop :=
  ∃ seen m, (ofValue (.object dict)).runIn u = (.ok seen, m) ∧
    (call function .undefined [seen]).runIn m = result

/-- What is returned is made into a dict, with an entry for each of its properties, in their order,
under the name that is told; of entries of one name, the last counts. -/
structure Converts (n m : Session) (returned : Datum) (v : Value)
    (told : List (String × Value)) : Prop where
  names : told.map (fun entry => .text entry.1) =
    (ownProperties n returned).map fun property => property.1.beforeNul
  isDict : m.store.cellOf? v = some (.dict (textEntries (collapse (· == ·) told)) false)

/-- How performing a function on a dict ends, and the session that it leaves. -/
inductive Performs (call : Caller) (function : Datum) (dict : Ref) (u : Session) :
    Except Stop Datum × Session → Prop
  /-- The dict has no script value. -/
  | unseen {m t : Session} {stop stop' : Stop}
      (failed : (ofValue (.object dict)).runIn u = (.error stop, m)) (surfaces : Surfaces stop')
      (same : t.store.cell dict = u.store.cell dict) :
      Performs call function dict u (.error stop', t)
  /-- The function stops. -/
  | stopped {n t : Session} {stop stop' : Stop}
      (answers : Answers call function dict u (.error stop, n)) (surfaces : Surfaces stop')
      (same : t.store.cell dict = u.store.cell dict) :
      Performs call function dict u (.error stop', t)
  /-- What the function returns is made into no value. -/
  | unread {n m t : Session} {stop stop' : Stop} {returned : Datum}
      (answers : Answers call function dict u (.ok returned, n))
      (failed : (toValue returned).runIn n = (.error stop, m)) (surfaces : Surfaces stop')
      (same : t.store.cell dict = u.store.cell dict) :
      Performs call function dict u (.error stop', t)
  /-- The dict is frozen, and there is an entry to be written. -/
  | shut {n m t : Session} {stop : Stop} {returned : Datum} {v : Value} {told : List (String × Value)}
      (answers : Answers call function dict u (.ok returned, n))
      (read : (toValue returned).runIn n = (.ok v, m)) (converts : Converts n m returned v told)
      (some : told ≠ []) (closed : (u.store.cell dict).isFrozen = true) (surfaces : Surfaces stop)
      (same : t.store.cell dict = u.store.cell dict) :
      Performs call function dict u (.error stop, t)
  /-- There is nothing to be written. -/
  | idle {n m : Session} {returned : Datum} {v : Value}
      (answers : Answers call function dict u (.ok returned, n))
      (read : (toValue returned).runIn n = (.ok v, m))
      (none : ∀ entries frozen, m.store.cellOf? v = some (.dict entries frozen) → entries = [])
      (same : m.store.cell dict = u.store.cell dict) :
      Performs call function dict u (.ok returned, m)
  /-- The entries that are made of the properties of what is returned are laid over those of the
  dict. -/
  | laid {n m : Session} {returned : Datum} {v : Value} {told : List (String × Value)}
      (answers : Answers call function dict u (.ok returned, n))
      (read : (toValue returned).runIn n = (.ok v, m)) (converts : Converts n m returned v told)
      (some : told ≠ []) (loose : (u.store.cell dict).isFrozen = false) :
      Performs call function dict u (.ok returned, { m with
        store := m.store.write dict
          (.dict (overlay (u.store.dictEntries dict) (collapse (· == ·) told)) false) })

section Merging

variable {fields : List (String × Value)} {r : Ref}

/-- Something is data whatever a dict holds, so it is not the dict, and what it holds is data
whatever the dict holds. -/
theorem data_fields {m : Store} (inside : dict.index < m.size)
    (data : ∀ c, (m.write dict c).Data (.object r))
    (cell : m.cell r = .dict (textEntries fields) flag)
    (c : Cell) : ∀ field ∈ fields, (m.write dict c).Data field.2 := by
  have differ : dict ≠ r := by
    rintro rfl
    have clear := (data (.mapping "" dict false)).clear dict .refl
    rw [cell_write_self m _ inside] at clear
    cases clear
  intro field isField
  have cell' : (m.write dict c).cell r = .dict (textEntries fields) flag := by
    rw [cell_write_other m c differ, cell]
  cases data c with
  | scalar scalar => cases scalar
  | sequence anatomy => simp [Store.anatomy, cell'] at anatomy
  | dict isDict _ values =>
    rw [cell'] at isDict
    cases isDict
    exact values _ (field_mem_textEntries.2 isField)

end Merging

/-! ## Performing -/

theorem runIn_performOn {n : Session} {returned : Datum}
    (answers : Answers call function dict u (.ok returned, n)) :
    (performOn call dict function).runIn u = (do
      let v ← toValue returned
      match (← get).store.cellOf? v with
      | some (.dict entries _) => Run.onStore (Mapping.merge dict "perform" entries)
      | _ => pure ()
      return returned : Run Datum).runIn n := by
  obtain ⟨seen, m, snapshot, called⟩ := answers
  exact (runIn_bind_of_ok snapshot).trans (runIn_bind_of_ok (runIn_faultOfThrown_of_ok called))

section Returning

variable {n m : Session} {returned : Datum} {v : Value} {old : List (Value × Value)} {frozen : Bool}

/-- Where no dict is made of what the function returns, or one without entries, nothing is done. -/
theorem runIn_performOn_idle (answers : Answers call function dict u (.ok returned, n))
    (read : (toValue returned).runIn n = (.ok v, m))
    (none : ∀ entries loose, m.store.cellOf? v = some (.dict entries loose) → entries = []) :
    (performOn call dict function).runIn u = (.ok returned, m) := by
  rw [runIn_performOn answers, runIn_bind, read]
  dsimp only
  rw [runIn_bind, runIn_get]
  dsimp only
  split
  · next isDict =>
    rw [none _ _ isDict]
    rfl
  · rfl

/-- A dict that is made of what the function returns is laid over the entries, unless these are
frozen and there is something to be written. -/
theorem runIn_performOn_dict {r : Ref} {fields : List (String × Value)}
    (answers : Answers call function dict u (.ok returned, n))
    (read : (toValue returned).runIn n = (.ok (.object r), m)) (sound : m.store.Sound)
    (under : m.store.cell dict = .dict old frozen) (texts : TextsDistinct old)
    (made : m.store.cell r = .dict (textEntries fields) flag)
    (distinct : (fields.map Prod.fst).Nodup)
    (data : ∀ c, (m.store.write dict c).Data (.object r)) :
    (performOn call dict function).runIn u =
      if frozen = true ∧ fields ≠ [] then (.error (.fault (.frozen "insert" "dict")), m)
      else (.ok returned, { m with
        store := m.store.write dict (.dict (overlay old fields) frozen) }) := by
  have inside : dict.index < m.store.size := lt_size_of_isContainer (by rw [under]; rfl)
  have has : ∀ field ∈ fields, m.store.Has field.2 := fun field isField => by
    refine sound.closed r _ ?_
    rw [made]
    exact mem_entryParts.2 ⟨_, field_mem_textEntries.2 isField, .inr rfl⟩
  have merged := Mapping.runOn_merge_data "perform" sound under texts distinct has
    (data_fields inside data made)
  rw [runIn_performOn answers, runIn_bind, read]
  dsimp only
  rw [runIn_bind, runIn_get]
  dsimp only
  rw [cellOf?, made]
  dsimp only
  rw [runIn_bind, runIn_onStore, merged]
  by_cases both : frozen = true ∧ fields ≠ []
  · rw [if_pos both, if_pos both]
  · rw [if_neg both, if_neg both]
    rfl

/-- What fails before the first write leaves the dict as it was. -/
theorem throws_of_error {stop : Stop} (isDict : (u.store.cell dict).isContainer = true)
    (stopped : (performOn call dict function).runIn u = (.error stop, m))
    (same : m.store.cell dict = u.store.cell dict) :
    ∃ stop' t, (shielded (performOn call dict function)).runIn u = (.error stop', t) ∧
      Surfaces stop' ∧ t.store.cell dict = u.store.cell dict := by
  obtain ⟨stop', t, ran, surfaces, enlarges⟩ := runIn_shielded_of_error stopped
  exact ⟨stop', t, ran, surfaces,
    (enlarges.kept dict (lt_size_of_isContainer (same ▸ isDict))).trans same⟩

theorem runIn_shielded_of_ok {α : Type} {run : Run α} {a : α} (ran : run.runIn u = (.ok a, t)) :
    (shielded run).runIn u = (.ok a, t) := by
  rw [shielded, runIn_tryCatch, ran]

/-- What is done with a dict that has entries. -/
theorem performs_dict {r : Ref} {told : List (String × Value)} (sound : m.store.Sound)
    (under : u.store.cell dict = .dict old frozen) (texts : TextsDistinct old)
    (answers : Answers call function dict u (.ok returned, n))
    (read : (toValue returned).runIn n = (.ok (.object r), m))
    (same : m.store.cell dict = u.store.cell dict)
    (converts : Converts n m returned (.object r) told) (some : told ≠ [])
    (data : ∀ c, (m.store.write dict c).Data (.object r)) :
    Performs call function dict u ((shielded (performOn call dict function)).runIn u) := by
  have written : collapse (· == ·) told ≠ [] := mt collapse_eq_nil.1 some
  have ran := runIn_performOn_dict answers read sound (same.trans under) texts
    (Option.some.inj converts.isDict) (nodup_collapse told) data
  cases frozen with
  | true =>
    rw [if_pos ⟨rfl, written⟩] at ran
    obtain ⟨stop, t, surfaced, surfaces, same⟩ := throws_of_error (by rw [under]; rfl) ran same
    rw [surfaced]
    exact .shut answers read converts some (by rw [under]; rfl) surfaces same
  | false =>
    rw [if_neg fun both => Bool.false_ne_true both.1] at ran
    rw [runIn_shielded_of_ok ran, ← dictEntries_of_cell under]
    exact .laid answers read converts some (by rw [under]; rfl)

/-- What is done with what the function returns. -/
theorem performs_returned (sound : n.store.Sound) (under : u.store.cell dict = .dict old frozen)
    (texts : TextsDistinct old) (answers : Answers call function dict u (.ok returned, n))
    (same : n.store.cell dict = u.store.cell dict) :
    Performs call function dict u ((shielded (performOn call dict function)).runIn u) := by
  have isContainer : (u.store.cell dict).isContainer = true := by rw [under]; rfl
  have inside := lt_size_of_isContainer (same ▸ isContainer)
  have proceeds := (steps_toValue returned n sound.closed).1
  have built : Built (fun _ => False) n.store ((toValue returned).runIn n).2.store fun w =>
      ∀ v, ((toValue returned).runIn n).1 = .ok v → Made w (ownProperties n returned) v :=
    made_toValueWithin (maxDepth + 1) returned n
  rcases read : (toValue returned).runIn n with ⟨stop | v, m⟩
  all_goals
    rw [read] at proceeds built
    have same' : m.store.cell dict = u.store.cell dict :=
      (built.kept dict inside not_false).trans same
  · have stopped : (performOn call dict function).runIn u = (.error stop, m) := by
      rw [runIn_performOn answers, runIn_bind, read]
    obtain ⟨stop', t, surfaced, surfaces, same⟩ := throws_of_error isContainer stopped same'
    rw [surfaced]
    exact .unread answers read surfaces same
  · by_cases none : ∀ entries loose, m.store.cellOf? v = some (.dict entries loose) → entries = []
    · rw [runIn_shielded_of_ok (runIn_performOn_idle answers read none)]
      exact .idle answers read none same'
    · simp only [not_forall] at none
      obtain ⟨entries, loose, isDict, some⟩ := none
      cases v with
      | object r =>
        -- What is made stands in new cells, so it is the same whatever the dict comes to hold.
        have beside (c : Cell) :
            Made (m.store.write dict c) (ownProperties n returned) (.object r) :=
          built.added _ (fun ref low _ => (cell_write_other m.store c
            (ne_of_apply_ne Ref.index (by omega))).symm) _ rfl
        have made := built.added m.store (fun _ _ _ => rfl) _ rfl
        obtain ⟨rfl, told, names, rfl⟩ := made.entries r _ _ rfl (Option.some.inj isDict)
        refine performs_dict (proceeds.evolves.sound sound) under texts answers read same'
          ⟨names, isDict⟩ ?_ fun c => (beside c).data
        rintro rfl
        exact some (by rw [collapse_eq_nil.2 rfl]; rfl)
      | _ => cases isDict

end Returning

/-- The method comes down to performing its function on the dict. -/
theorem runIn_perform (cell : u.store.cell ref = .mapping name dict flag)
    (callable : (isFunction function).runIn u = (.ok true, u)) :
    (runMethod call ref .perform [function]).runIn u =
      (shielded (performOn call dict function)).runIn u := by
  have read : (Run.onStore (Mapping.read ref)).runIn u = (.ok ⟨name, dict, flag⟩, u) := by
    rw [runIn_onStore, Mapping.runOn_read cell]
  have passed : (functionOf function).runIn u = (.ok function, u) := by
    rw [functionOf, runIn_bind, callable]
    rfl
  have unfolded : runMethod call ref .perform [function] = shielded (do
      let function ← binding (functionOf function)
      let state ← Run.onStore (Mapping.read ref)
      performOn call state.dict function) := rfl
  rw [unfolded, shielded, runIn_tryCatch, runIn_bind, binding, runIn_tryCatch, passed]
  dsimp only
  rw [runIn_bind, read, shielded, runIn_tryCatch]

/-- Performing a function on the dict of a mapping is a transaction, as long as the function does not
change the dict itself. It fails when the dict has no script value, when the function stops, when what
it returns has no value, and when the dict is frozen and there is an entry to be written; then every
entry is as it was. Else the entries that are made of what the function returns, if these are any, are
laid over those of the dict: keys that are there keep their places, and new ones come behind, in the
order of the properties. -/
theorem perform_outcome (reachable : u.store.Reachable)
    (cell : u.store.cell ref = .mapping name dict flag)
    (callable : (isFunction function).runIn u = (.ok true, u)) (conducts : Conducts call u)
    (apart : ∀ seen m, (ofValue (.object dict)).runIn u = (.ok seen, m) →
      ((call function .undefined [seen]).runIn m).2.store.cell dict = m.store.cell dict) :
    Performs call function dict u ((runMethod call ref .perform [function]).runIn u) := by
  have sound := reachable.sound
  obtain ⟨old, frozen, under, -⟩ := sound.wrapped ref name dict flag cell
  have isContainer : (u.store.cell dict).isContainer = true := by rw [under]; rfl
  rw [runIn_perform cell callable]
  have left := leaves_ofValue (.object dict) u
  rcases snapshot : (ofValue (.object dict)).runIn u with ⟨stop | seen, m⟩
  all_goals
    rw [snapshot] at left
    dsimp only at left
  · have stopped : (performOn call dict function).runIn u = (.error stop, m) := by
      rw [performOn, runIn_bind, snapshot]
    obtain ⟨stop', t, surfaced, surfaces, same⟩ :=
      throws_of_error isContainer stopped (by rw [left])
    rw [surfaced]
    exact .unseen snapshot surfaces same
  · have kept := apart seen m snapshot
    have proceeds := (conducts function .undefined [seen] m (left ▸ .refl _)
      (left ▸ sound.closed)).1
    rw [left] at kept proceeds
    rcases called : (call function .undefined [seen]).runIn m with ⟨stop | returned, n⟩
    all_goals
      rw [called] at kept proceeds
    · obtain ⟨stop', t', stopped, enlarges⟩ := runIn_faultOfThrown_of_error called
      have stopped : (performOn call dict function).runIn u = (.error stop', t') := by
        rw [performOn, runIn_bind, snapshot]
        dsimp only
        rw [runIn_bind, stopped]
      obtain ⟨stop', t, surfaced, surfaces, same⟩ := throws_of_error isContainer stopped
        ((enlarges.kept dict (lt_size_of_isContainer (kept ▸ isContainer))).trans kept)
      rw [surfaced]
      exact .stopped ⟨seen, m, snapshot, called⟩ surfaces same
    · exact performs_returned (proceeds.evolves.sound sound) under
        (reachable.wellKeyed.textsDistinct under) ⟨seen, m, snapshot, called⟩ kept

/-- A session with a mapping over a dict, and with a function that returns a record. -/
def offering : Session where
  store := empty.after
    [.newDict [(.string "b", .int 1), (.string "a", .int 2)], .mappingOf "shared_dict" ⟨0⟩]
  heap := #[.ofFunction (.body (.returns (.record [("c", .null), ("b", .string "x")])))]

/-- What the function returns is laid over the entries. -/
theorem perform_outcome_offering : offering.store.Reachable ∧
    offering.store.cell ⟨2⟩ = .mapping "shared_dict" ⟨1⟩ false ∧
    (isFunction (.object ⟨0⟩)).runIn offering = (.ok true, offering) ∧
    Performs Script.call (.object ⟨0⟩) ⟨1⟩ offering
      ((runMethod Script.call ⟨2⟩ .perform [.object ⟨0⟩]).runIn offering) := by
  have reachable : offering.store.Reachable :=
    reachable_empty.after ⟨⟨by decide, nofun⟩, ⟨by decide, nofun⟩, trivial⟩
  have cell : offering.store.cell ⟨2⟩ = .mapping "shared_dict" ⟨1⟩ false := rfl
  refine ⟨reachable, cell, rfl, perform_outcome reachable cell rfl (callSteps_call.conducts _) ?_⟩
  intro seen m snapshot
  cases snapshot
  rfl

end Script
end Interchange
