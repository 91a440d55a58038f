import Interchange.Proofs.Container.DictReplay
import Interchange.Proofs.Store.Equivalence

/-!
# Dicts in use

What a dict answers is told by the calls that were made on it (`Store.DictUse`), and by nothing else
(`DictUse.told_by_history`). Calls that are refused leave the dict as it is. The keys that are
entered are steady, so their equality is lawful, and it is the same at any time.
-/

namespace Interchange.Store

/-! ## Making calls -/

section Calls

variable {s : Store} {dict : Ref} {entries : List (Value × Value)} {frozen : Bool}
  {call : DictCall}

theorem dictEntries_of_cell (cell : s.cell dict = .dict entries frozen) :
    s.dictEntries dict = entries := by
  rw [dictEntries, cell]

/-- A call whose look-up ends is refused, and changes nothing, or it answers by the entries and makes
its change. -/
theorem runOn_call (cell : s.cell dict = .dict entries frozen)
    (ends : ∀ key, call.key? = some key → s.checkHashable key = .ok () →
      s.lookUpEnds key (entries.map Prod.fst) = true) :
    (call.run dict).runOn s = match call.refusal? s dict with
      | some fault => (.error fault, s)
      | none => (.ok (s.reply entries call),
          match call.change? with
          | some change => s.write dict (.dict (s.apply entries change) false)
          | none => s) := by
  have entries_eq := dictEntries_of_cell cell
  rw [DictCall.refusal?]
  cases call with
  | insert key value =>
    rw [DictCall.run, Op.runOn_bind, Dict.runOn_insert, cell, DictCall.key?, Option.elim]
    cases hashable : s.checkHashable key with
    | error fault => rfl
    | ok _ =>
      cases frozen with
      | true => rfl
      | false =>
        dsimp only
        rw [if_pos (ends key rfl hashable)]
        rfl
  | remove key =>
    rw [DictCall.run, Op.runOn_bind, Dict.runOn_remove, cell, DictCall.key?, Option.elim]
    cases hashable : s.checkHashable key with
    | error fault => rfl
    | ok _ =>
      cases frozen with
      | true => rfl
      | false =>
        dsimp only
        rw [if_pos (ends key rfl hashable)]
        rfl
  | clear =>
    rw [DictCall.run, Op.runOn_bind, Dict.runOn_clear, cell]
    cases frozen <;> rfl
  | get key =>
    rw [DictCall.run, Op.runOn_bind, Dict.runOn_get?, DictCall.key?, Option.elim, entries_eq]
    cases hashable : s.checkHashable key with
    | error fault => rfl
    | ok _ =>
      dsimp only
      rw [if_pos (ends key rfl hashable)]
      rfl
  | contains key =>
    rw [DictCall.run, Dict.contains, Op.runOn_bind, Op.runOn_bind, Dict.runOn_get?, DictCall.key?,
      Option.elim, entries_eq]
    cases hashable : s.checkHashable key with
    | error fault => rfl
    | ok _ =>
      dsimp only
      rw [if_pos (ends key rfl hashable)]
      rfl
  | keys | values | items | size =>
    rw [reply, ← entries_eq]
    rfl

end Calls

/-! ## At another time -/

section Later

variable {s t : Store} {key value : Value} {entries : List (Value × Value)} {change : DictChange}
  {history : List DictChange}

theorem putEntry_congr
    (same : ∀ other ∈ entries.map Prod.fst, t.equals key other = s.equals key other) :
    t.putEntry key value entries = s.putEntry key value entries := by
  induction entries with
  | nil => rfl
  | cons entry rest ih =>
    obtain ⟨other, old⟩ := entry
    obtain ⟨first, same⟩ := List.forall_mem_cons.1 same
    rw [putEntry, putEntry, first, ih same]

theorem eraseEntry_congr
    (same : ∀ other ∈ entries.map Prod.fst, t.equals key other = s.equals key other) :
    t.eraseEntry key entries = s.eraseEntry key entries := by
  induction entries with
  | nil => rfl
  | cons entry rest ih =>
    obtain ⟨other, old⟩ := entry
    obtain ⟨first, same⟩ := List.forall_mem_cons.1 same
    rw [eraseEntry, eraseEntry, List.eraseP_cons, List.eraseP_cons, first]
    exact congrArg _ (congrArg _ (ih same))

theorem apply_congr (same : ∀ key ∈ change.keys, ∀ other ∈ entries.map Prod.fst,
    t.equals key other = s.equals key other) : t.apply entries change = s.apply entries change := by
  cases change with
  | put key value => exact putEntry_congr (same key List.mem_cons_self)
  | drop key => exact eraseEntry_congr (same key List.mem_cons_self)
  | wipe => rfl

/-- The keys of some changes are there, and they are steady. -/
def SteadyKeys (s : Store) (history : List DictChange) : Prop :=
  ∀ change ∈ history, ∀ key ∈ change.keys, s.Has key ∧ s.Steady key

theorem SteadyKeys.later (steady : s.SteadyKeys history) (evolves : s.Evolves t) (aged : s.Aged) :
    t.SteadyKeys history := by
  intro change isChange key isKey
  obtain ⟨has, steady⟩ := steady change isChange key isKey
  exact ⟨evolves.has has, (steady_iff evolves aged has).2 steady⟩

/-- Changes leave the same entries at any later time. -/
theorem SteadyKeys.replay_eq (steady : s.SteadyKeys history) (evolves : s.Evolves t) (aged : s.Aged)
    (named : s.Named) : t.replay history = s.replay history := by
  have lawful := lawful_steady aged named
  induction history using List.reverseRecOn with
  | nil => rfl
  | append_singleton history change ih =>
    obtain ⟨before, last⟩ := List.forall_mem_append.1 steady
    have tidy := lawful.tidy_replay before
    rw [replay_concat, replay_concat, ih before]
    refine apply_congr fun key isKey other isOther => ?_
    obtain ⟨has, steady⟩ := last change List.mem_cons_self key isKey
    exact equals_eq evolves aged has (tidy.keys other isOther).1 (.inl steady)

/-- Entries whose keys are apart are what their insertions leave. -/
theorem replay_puts (apart : (entries.map Prod.fst).Pairwise s.Apart) :
    s.replay (entries.map fun entry => .put entry.1 entry.2) = entries := by
  induction entries using List.reverseRecOn with
  | nil => rfl
  | append_singleton entries entry ih =>
    rw [List.map_append, List.pairwise_append] at apart
    obtain ⟨apart, -, fresh⟩ := apart
    rw [List.map_append, List.map_singleton, replay_concat, ih apart, apply]
    refine putEntry_of_fresh entry.2 fun other isOther => ?_
    exact (fresh other isOther entry.1 List.mem_cons_self).2

end Later

/-! ## Using a dict -/

/-- How a dict is used: calls are made on it, one after the other, and anything else may be done in
between that leaves its entries alone, such as freezing it. -/
inductive DictUse (dict : Ref) (start : Store) :
    List (DictCall × Except Fault DictAnswer) → Store → Prop
  | start : DictUse dict start [] start
  | call {log : List (DictCall × Except Fault DictAnswer)} {t : Store}
      (use : DictUse dict start log t) (call : DictCall) (fits : call.Fits t) :
      DictUse dict start (log ++ [(call, ((call.run dict).runOn t).1)]) ((call.run dict).runOn t).2
  | aside {log : List (DictCall × Except Fault DictAnswer)} {t u : Store}
      (use : DictUse dict start log t) (history : History t u)
      (same : u.dictEntries dict = t.dictEntries dict) : DictUse dict start log u

section Use

variable {start t u : Store} {dict : Ref} {initial : List (Value × Value)} {frozen : Bool}
  {history : List DictChange} {log : List (DictCall × Except Fault DictAnswer)} {call : DictCall}

/-- A dict in use has the entries that its history leaves. -/
structure Kept (t : Store) (dict : Ref) (history : List DictChange) : Prop where
  reachable : t.Reachable
  cell : ∃ frozen, t.cell dict = .dict (t.replay history) frozen
  steady : t.SteadyKeys history

/-- Whatever leaves the entries as they are leaves a dict as its history says. -/
theorem Kept.aside (kept : t.Kept dict history) (between : History t u)
    (same : u.dictEntries dict = t.dictEntries dict) : u.Kept dict history := by
  have evolves := kept.reachable.evolves between
  have aged := kept.reachable.sound.aged
  obtain ⟨frozen, cell⟩ := kept.cell
  have inside : dict.index < t.size := lt_size_of_isContainer (by rw [cell]; rfl)
  refine ⟨kept.reachable.later between, ?_, kept.steady.later evolves aged⟩
  rw [kept.steady.replay_eq evolves aged kept.reachable.named]
  rw [dictEntries_of_cell cell] at same
  rcases Cell.continues_iff.1 (evolves.continues inside) with still | ⟨-, alike⟩
  · exact ⟨frozen, still.trans cell⟩
  · rw [cell] at alike
    generalize there : u.cell dict = c at alike
    cases alike with
    | @dict _ entries _ flag =>
      rw [dictEntries_of_cell there] at same
      exact ⟨flag, by rw [same]⟩

/-- Another answer does not make another store. -/
theorem runOn_answer_snd {α β : Type} (op : Op α) (answer : α → β) :
    ((op >>= fun a => pure (answer a)).runOn t).2 = (op.runOn t).2 := by
  rw [Op.runOn_bind]
  rcases op.runOn t with ⟨_ | _, _⟩ <;> rfl

/-- What a call does is part of the history of a store. -/
theorem history_call (fits : call.Fits t) : History t ((call.run dict).runOn t).2 := by
  cases call with
  | insert key value =>
    have act := History.act (.insert dict key value) ⟨fits.has, nofun⟩
    rw [DictCall.run, runOn_answer_snd]
    exact act
  | remove key =>
    have act := History.act (s := t) (.remove dict key) ⟨nofun, nofun⟩
    rw [Action.run, runOn_answer_snd] at act
    rw [DictCall.run, runOn_answer_snd]
    exact act
  | clear =>
    have act := History.act (s := t) (.clear dict) ⟨nofun, nofun⟩
    rw [DictCall.run, runOn_answer_snd]
    exact act
  | get key => 
    rw [DictCall.run, runOn_answer_snd, Dict.runOn_get?_snd]
    exact .refl t
  | contains key =>
    rw [DictCall.run, runOn_answer_snd, Dict.contains, runOn_answer_snd, Dict.runOn_get?_snd]
    exact .refl t
  | keys | values | items | size => exact .refl t

/-- A call is refused for a key that is not hashable, or for a dict that is frozen. -/
theorem fault_of_refusal {fault : Fault} (refused : call.refusal? t dict = some fault) :
    (∃ typeName, fault = .unhashable typeName) ∨ ∃ name, fault = .frozen name "dict" := by
  rw [DictCall.refusal?] at refused
  split at refused
  · next other unhashable =>
    cases refused
    cases isKey : call.key? with
    | none =>
      rw [isKey] at unhashable
      cases unhashable
    | some key =>
      rw [isKey] at unhashable
      exact .inl (unhashable_of_checkHashableWithin unhashable)
  · split at refused
    · next name _ =>
      split at refused
      · cases refused
        exact .inr ⟨name, rfl⟩
      · cases refused
    · cases refused

theorem changes_concat (result : Except Fault DictAnswer) :
    changes initial (log ++ [(call, result)]) = changes initial log ++ call.made result := by
  rw [changes, changes, List.flatMap_append, List.flatMap_singleton, List.append_assoc]

/-- A call that is not refused has a key that is steady. -/
theorem steady_of_accepted (fits : call.Fits t) (accepted : call.refusal? t dict = none)
    {key : Value} (isKey : call.key? = some key) : t.Has key ∧ t.Steady key := by
  constructor
  · refine fits.has key ?_
    cases call <;> cases isKey <;> exact List.mem_cons_self
  · refine fits.steady key isKey ?_
    rw [DictCall.refusal?, isKey, Option.elim] at accepted
    cases hashable : t.checkHashable key with
    | error fault =>
      rw [hashable] at accepted
      cases accepted
    | ok _ => rfl

/-- The keys of a change are those of its call. -/
theorem key?_of_change {change : DictChange} {key : Value} (isChange : call.change? = some change)
    (isKey : key ∈ change.keys) : call.key? = some key := by
  cases call with
  | insert other value | remove other =>
    cases isChange
    rw [List.mem_singleton.1 isKey]
    rfl
  | clear =>
    cases isChange
    cases isKey
  | _ => cases isChange

/-- The look-up of a call ends in a dict in use. -/
theorem Kept.ends (kept : t.Kept dict history) (fits : call.Fits t) {key : Value}
    (isKey : call.key? = some key) (hashable : t.checkHashable key = .ok ()) :
    t.lookUpEnds key ((t.replay history).map Prod.fst) = true := by
  have aged := kept.reachable.sound.aged
  have tidy := (lawful_steady aged kept.reachable.named).tidy_replay kept.steady
  have has : t.Has key := fits.has key (by
    cases call <;> cases isKey <;> exact List.mem_cons_self)
  exact lookUpEnds_of_steady aged has (fits.steady key isKey hashable)
    fun other isOther => (tidy.keys other isOther).1

/-- After a call, a dict is as its longer history says. -/
theorem Kept.run (kept : t.Kept dict history) (fits : call.Fits t) :
    ((call.run dict).runOn t).2.Kept dict (history ++ call.made ((call.run dict).runOn t).1) := by
  obtain ⟨frozen, cell⟩ := kept.cell
  have between : History t ((call.run dict).runOn t).2 := history_call fits
  have run : (call.run dict).runOn t = _ := runOn_call cell fun _ => kept.ends fits
  cases refusal : call.refusal? t dict with
  | some fault =>
    rw [refusal] at run
    rw [run, DictCall.made, List.append_nil]
    exact kept
  | none =>
    rw [refusal] at run
    cases isChange : call.change? with
    | none =>
      rw [isChange] at run
      rw [run, DictCall.made, isChange, Option.toList_none, List.append_nil]
      exact kept
    | some change =>
      rw [isChange] at run
      rw [run] at between ⊢
      rw [DictCall.made, isChange, Option.toList_some]
      have evolves := kept.reachable.evolves between
      have aged := kept.reachable.sound.aged
      have steady : t.SteadyKeys (history ++ [change]) :=
        List.forall_mem_append.2 ⟨kept.steady, List.forall_mem_singleton.2 fun key isKey =>
          steady_of_accepted fits refusal (key?_of_change isChange isKey)⟩
      refine ⟨kept.reachable.later between, ⟨false, ?_⟩, steady.later evolves aged⟩
      have inside : dict.index < t.size := lt_size_of_isContainer (by rw [cell]; rfl)
      rw [steady.replay_eq evolves aged kept.reachable.named, replay_concat]
      exact cell_write_self t _ inside

/-- A dict in use is as the history of its calls says. -/
theorem DictUse.kept (use : start.DictUse dict log t) (reachable : start.Reachable)
    (cell : start.cell dict = .dict initial frozen)
    (steady : ∀ key ∈ initial.map Prod.fst, start.Steady key) :
    t.Kept dict (changes initial log) := by
  induction use with
  | start =>
    have keys_eq : (start.cell dict).keys = initial.map Prod.fst := by rw [cell]; rfl
    have has : ∀ key ∈ initial.map Prod.fst, start.Has key := fun key isKey =>
      reachable.sound.closed dict key (Cell.held_of_keys (keys_eq ▸ isKey))
    have apart : (initial.map Prod.fst).Pairwise start.Apart := by
      have apart := reachable.wellKeyed.apart dict
      rw [keys_eq] at apart
      exact apart.imp_of_mem fun isKey _ apart => apart (.inl (steady _ isKey))
    rw [changes, List.flatMap_nil, List.append_nil]
    refine ⟨reachable, ⟨frozen, by rw [replay_puts apart, cell]⟩, fun change isChange key isKey => ?_⟩
    obtain ⟨entry, isEntry, rfl⟩ := List.mem_map.1 isChange
    rw [List.mem_singleton.1 isKey]
    have isKey := List.mem_map_of_mem (f := Prod.fst) isEntry
    exact ⟨has _ isKey, steady _ isKey⟩
  | call use call fits ih =>
    rw [changes_concat]
    exact ih.run fits
  | aside use between same ih => exact ih.aside between same

/-- What a dict answers is told by the history of the calls on it. Its keys are those that were
introduced and not ended since, in their order, and no two of them are equal; a key equals one of
them exactly when it has a value. A call is refused, for a key that is not hashable or because the
dict is frozen, and then it changes nothing; or it answers what the history tells. -/
theorem DictUse.told_by_history (use : start.DictUse dict log t) (reachable : start.Reachable)
    (cell : start.cell dict = .dict initial frozen)
    (steady : ∀ key ∈ initial.map Prod.fst, start.Steady key) :
    let history := changes initial log
    (t.dictEntries dict).map Prod.fst = t.introduced [] history ∧
    (∀ entry ∈ t.dictEntries dict, t.latest entry.1 history.reverse = some entry.2) ∧
    (t.introduced [] history).Pairwise t.Apart ∧
    (∀ key, t.Has key → t.Steady key → ((t.latest key history.reverse).isSome = true ↔
      ∃ k ∈ t.introduced [] history, t.equals key k = true)) ∧
    ∀ call : DictCall, call.Fits t →
      (∀ fault, call.refusal? t dict = some fault →
        ((∃ typeName, fault = .unhashable typeName) ∨ ∃ name, fault = .frozen name "dict") ∧
        (call.run dict).runOn t = (.error fault, t)) ∧
      (call.refusal? t dict = none →
        ((call.run dict).runOn t).1 = .ok (t.answer history call)) := by
  intro history
  have kept : t.Kept dict history := use.kept reachable cell steady
  obtain ⟨flag, entries⟩ := kept.cell
  have lawful := lawful_steady kept.reachable.sound.aged kept.reachable.named
  have refl (v : Value) (_ : t.Has v ∧ t.Steady v) : t.equals v v = true := equals_self t v
  have tidy := lawful.tidy_replay kept.steady
  have introduced := lawful.map_fst_replay kept.steady
  rw [dictEntries_of_cell entries, ← introduced]
  refine ⟨rfl, fun entry => lawful.latest_of_mem kept.steady refl, tidy.apart, ?_, ?_⟩
  · intro key has steady
    rw [← lawful.lookup?_replay kept.steady ⟨has, steady⟩, lookup?_isSome_iff]
    simp
  · intro call fits
    rw [runOn_call entries fun _ => kept.ends fits]
    constructor
    · intro fault refused
      rw [refused]
      exact ⟨fault_of_refusal refused, rfl⟩
    · intro accepted
      rw [accepted, lawful.reply_replay refl kept.steady call fun key =>
        steady_of_accepted fits accepted]

/-- A list, and a dict with the keys one and two. -/
def tallied : Store := empty.after
  [.newList [], .newDict [(.int 1, .string "a"), (.int 2, .string "b")]]

theorem fits_of_scalars (scalars : ∀ v ∈ call.operands, v.identity? = none) : call.Fits t where
  has := fun v isOperand => has_of_scalar (scalars v isOperand)
  steady := fun key isKey _ => by
    refine .scalar (scalars key ?_)
    cases call <;> cases isKey <;> exact List.mem_cons_self

/-- A key keeps its place when an equal one is written to, and comes last when it was removed. A list
is refused. -/
theorem told_by_history_tallied : ∃ log t, tallied.DictUse ⟨1⟩ log t ∧
    ((DictCall.keys.run ⟨1⟩).runOn t).1 = .ok (.list [.int 2, .float (Binary64.ofInt 1)]) ∧
    (((DictCall.get (.int 2)).run ⟨1⟩).runOn t).1 = .ok (.found (some (.string "c"))) ∧
    ((DictCall.get (.object ⟨0⟩)).run ⟨1⟩).runOn t = (.error (.unhashable "list"), t) := by
  have use : tallied.DictUse ⟨1⟩ _ _ :=
    ((DictUse.start.call (.insert (.float (Binary64.ofInt 2)) (.string "c"))
      (fits_of_scalars (by decide))).call (.remove (.int 1))
      (fits_of_scalars (by decide))).call
      (.insert (.float (Binary64.ofInt 1)) (.string "d")) (fits_of_scalars (by decide))
  obtain ⟨-, -, -, -, calls⟩ := use.told_by_history
    (reachable_empty.after ⟨⟨by decide, nofun⟩, ⟨by decide, nofun⟩, trivial⟩)
    (show tallied.cell ⟨1⟩ = .dict _ false from rfl)
    (fun key isKey => .scalar (by revert key; decide))
  refine ⟨_, _, use, ?_, ?_, ?_⟩
  · rw [(calls .keys ⟨nofun, nofun⟩).2 rfl]
    decide +kernel
  · rw [(calls (.get (.int 2)) (fits_of_scalars (by decide))).2 (by decide +kernel)]
    decide +kernel
  · refine ((calls (.get (.object ⟨0⟩)) ⟨by decide +kernel, ?_⟩).1 _ (by decide +kernel)).2
    intro key isKey hashable
    cases isKey
    exact absurd hashable (by decide +kernel)

end Use
end Interchange.Store
