import Interchange.Proofs.Store.WellKeyed

/-!
# The history of a dict

The value under a key is the one of the latest insertion under an equal key that no removal and no
clearing followed (`Store.latest`). The keys are those of the insertions that brought a class of equal
keys in, which was not there before and has not gone since, in the order of these insertions
(`Store.introduced`).

Entries are what is left when the changes of a dict are replayed (`Store.replay`). Both readings of
the history are compared with that, one change at its end after the other. What is asked of keys is
that their equality is lawful.
-/

namespace Interchange

/-- A call on a dict. -/
inductive DictCall where
  | insert (key value : Value)
  | remove (key : Value)
  | clear
  | get (key : Value)
  | contains (key : Value)
  | keys
  | values
  | items
  | size

/-- What a call on a dict answers. -/
inductive DictAnswer where
  | done
  | found (value : Option Value)
  | truth (value : Bool)
  | list (values : List Value)
  | entries (entries : List (Value × Value))
  | count (number : Nat)
deriving DecidableEq

/-- What a call does to a dict when it is not refused. -/
inductive DictChange where
  | put (key value : Value)
  | drop (key : Value)
  | wipe

namespace DictChange

/-- The keys of a change. -/
def keys : DictChange → List Value
  | put key _ => [key]
  | drop key => [key]
  | wipe => []

end DictChange

namespace DictCall

/-- Makes the call. -/
def run (dict : Ref) : DictCall → Op DictAnswer
  | insert key value => do
    Dict.insert dict key value
    return .done
  | remove key => return .found (← Dict.remove dict key)
  | clear => do
    Dict.clear dict
    return .done
  | get key => return .found (← Dict.get? dict key)
  | contains key => return .truth (← Dict.contains dict key)
  | keys => return .list (← Dict.keys dict)
  | values => return .list (← Dict.values dict)
  | items => return .entries (← Dict.entries dict)
  | size => return .count (← Dict.size dict)

/-- The values that a call brings along. -/
def operands : DictCall → List Value
  | insert key value => [key, value]
  | remove key => [key]
  | get key => [key]
  | contains key => [key]
  | _ => []

/-- The key that a call is about. -/
def key? : DictCall → Option Value
  | insert key _ => some key
  | remove key => some key
  | get key => some key
  | contains key => some key
  | _ => none

/-- The name of a call that needs a dict which is not frozen, in faults. -/
def writes? : DictCall → Option String
  | insert _ _ => some "insert"
  | remove _ => some "delete"
  | clear => some "clear"
  | _ => none

/-- The change that a call makes, unless it is refused. -/
def change? : DictCall → Option DictChange
  | insert key value => some (.put key value)
  | remove key => some (.drop key)
  | clear => some .wipe
  | _ => none

/-- The changes that a call makes: none when it is refused. -/
def made (call : DictCall) : Except Fault DictAnswer → List DictChange
  | .ok _ => call.change?.toList
  | .error _ => []

/-- Why a call is refused: for a key that is not hashable, or else because the dict is frozen. -/
def refusal? (call : DictCall) (s : Store) (dict : Ref) : Option Fault :=
  match call.key?.elim (.ok ()) s.checkHashable with
  | .error fault => some fault
  | .ok _ =>
    match call.writes? with
    | some name => if (s.cell dict).isFrozen then some (.frozen name "dict") else none
    | none => none

/-- The store has what a call brings along, and its key, if it is hashable, leads to no list, set or
dict where it is compared. -/
structure Fits (call : DictCall) (s : Store) : Prop where
  has : ∀ v ∈ call.operands, s.Has v
  steady : ∀ key, call.key? = some key → s.checkHashable key = .ok () → s.Steady key

end DictCall

namespace Store

/-! ## Histories of a dict -/

/-- The value of the latest insertion under an equal key that no removal and no clearing followed. The
changes come with the latest first. -/
def latest (s : Store) (key : Value) : List DictChange → Option Value
  | [] => none
  | .put other value :: older => if s.equals key other then some value else latest s key older
  | .drop other :: older => if s.equals key other then none else latest s key older
  | .wipe :: _ => none

/-- Has a change ended the class of a key? -/
def ends (s : Store) (key : Value) : DictChange → Bool
  | .put _ _ => false
  | .drop other => s.equals key other
  | .wipe => true

/-- The keys of the insertions that brought a class of equal keys in, which was not there before and
was not ended later. What was before comes with the latest first, what follows in its order. -/
def introduced (s : Store) (before : List DictChange) : List DictChange → List Value
  | [] => []
  | .put key value :: later =>
    if (s.latest key before).isNone && !later.any (s.ends key) then
      key :: introduced s (.put key value :: before) later
    else introduced s (.put key value :: before) later
  | change :: later => introduced s (change :: before) later

/-- The changes that brought some entries in, and those of the calls that were not refused. -/
def changes (initial : List (Value × Value)) (log : List (DictCall × Except Fault DictAnswer)) :
    List DictChange :=
  initial.map (fun entry => .put entry.1 entry.2) ++ log.flatMap fun entry => entry.1.made entry.2

/-- What a call answers after a history. -/
def answer (s : Store) (history : List DictChange) : DictCall → DictAnswer
  | .insert _ _ => .done
  | .remove key => .found (s.latest key history.reverse)
  | .clear => .done
  | .get key => .found (s.latest key history.reverse)
  | .contains key => .truth (s.latest key history.reverse).isSome
  | .keys => .list (s.introduced [] history)
  | .values => .list ((s.introduced [] history).filterMap (s.latest · history.reverse))
  | .items => .entries ((s.introduced [] history).filterMap fun key =>
      (s.latest key history.reverse).map (key, ·))
  | .size => .count (s.introduced [] history).length

/-- The entries that are left by a change. -/
def apply (s : Store) (entries : List (Value × Value)) : DictChange → List (Value × Value)
  | .put key value => s.putEntry key value entries
  | .drop key => s.eraseEntry key entries
  | .wipe => []

/-- The entries that are left by changes, one after the other. -/
def replay (s : Store) (history : List DictChange) : List (Value × Value) :=
  history.foldl s.apply []

/-- What a call answers when it is not refused. -/
def reply (s : Store) (entries : List (Value × Value)) : DictCall → DictAnswer
  | .insert _ _ => .done
  | .remove key => .found (s.lookup? key entries)
  | .clear => .done
  | .get key => .found (s.lookup? key entries)
  | .contains key => .truth (s.lookup? key entries).isSome
  | .keys => .list (entries.map Prod.fst)
  | .values => .list (entries.map Prod.snd)
  | .items => .entries entries
  | .size => .count entries.length

section Entries

variable {s : Store} {keys : Value → Prop} {key k value : Value} {entries : List (Value × Value)}
  {change : DictChange} {history before : List DictChange}

/-- The keys after a write: a new one comes at the end. -/
theorem map_fst_putEntry (s : Store) (key value : Value) (entries : List (Value × Value)) :
    (s.putEntry key value entries).map Prod.fst = entries.map Prod.fst ++
      if (s.lookup? key entries).isNone then [key] else [] := by
  induction entries with
  | nil => rfl
  | cons entry rest ih =>
    obtain ⟨other, old⟩ := entry
    rw [putEntry, lookup?_cons]
    cases s.equals key other with
    | true => simp
    | false => simpa using ih

/-- The keys of entries are lawful, and no two of them are equal. -/
structure Tidy (s : Store) (keys : Value → Prop) (entries : List (Value × Value)) : Prop where
  keys : ∀ key ∈ entries.map Prod.fst, keys key
  apart : (entries.map Prod.fst).Pairwise s.Apart

theorem tidy_nil : s.Tidy keys [] := ⟨nofun, .nil⟩

theorem Tidy.rest {entry : Value × Value} (tidy : s.Tidy keys (entry :: entries)) :
    s.Tidy keys entries :=
  ⟨fun key isKey => tidy.keys key (List.mem_cons_of_mem _ isKey), tidy.apart.of_cons⟩

section Lawful

variable (lawful : s.Lawful keys)
include lawful

/-- A key equals the same keys whichever comes first. -/
theorem Lawful.comm (hk : keys k) (hkey : keys key) : s.equals k key = s.equals key k :=
  Bool.eq_iff_iff.2 ⟨lawful.symm hk hkey, lawful.symm hkey hk⟩

/-- A key has the value that was written last under an equal one. -/
theorem Lawful.lookup?_putEntry (hk : keys k) (hkey : keys key)
    (hs : ∀ key ∈ entries.map Prod.fst, keys key) :
    s.lookup? k (s.putEntry key value entries) =
      if s.equals k key then some value else s.lookup? k entries := by
  induction entries with
  | nil => exact lookup?_cons s k key value []
  | cons entry rest ih =>
    obtain ⟨other, old⟩ := entry
    obtain ⟨hother, hs⟩ := List.forall_mem_cons.1 hs
    rw [putEntry, lookup?_cons]
    cases equal : s.equals key other with
    | true =>
      -- The place of an equal key is written to, and what equals one of the two equals the other.
      rw [if_pos rfl, lookup?_cons, lawful.comm hk hkey, lawful.equals_eq hkey hother hk equal,
        lawful.comm hother hk]
      cases s.equals k other <;> rfl
    | false =>
      rw [if_neg Bool.false_ne_true, lookup?_cons, ih hs]
      cases first : s.equals k other with
      | false => rfl
      | true =>
        have unequal : s.equals k key = false := by
          rw [lawful.equals_eq hk hother hkey first, lawful.comm hother hkey, equal]
        rw [unequal]
        rfl

/-- The first entry under an equal key is the only one. -/
theorem Lawful.unequal_rest {other old : Value} (hkey : keys key)
    (tidy : s.Tidy keys ((other, old) :: entries)) (equal : s.equals key other = true) :
    ∀ k ∈ entries.map Prod.fst, s.equals key k = false := by
  intro k isKey
  have hother : keys other := tidy.keys other List.mem_cons_self
  have hk : keys k := tidy.keys k (List.mem_cons_of_mem _ isKey)
  rw [lawful.equals_eq hkey hother hk equal]
  exact (List.rel_of_pairwise_cons tidy.apart isKey).1

theorem Lawful.lookup?_eraseEntry (hk : keys k) (hkey : keys key) (tidy : s.Tidy keys entries) :
    s.lookup? k (s.eraseEntry key entries) =
      if s.equals k key then none else s.lookup? k entries := by
  induction entries with
  | nil => cases s.equals k key <;> rfl
  | cons entry rest ih =>
    obtain ⟨other, old⟩ := entry
    have hother : keys other := tidy.keys other List.mem_cons_self
    rw [eraseEntry, List.eraseP_cons, lookup?_cons]
    cases equal : s.equals key other with
    | true =>
      rw [lawful.comm hk hkey, lawful.equals_eq hkey hother hk equal, lawful.comm hother hk]
      cases first : s.equals k other with
      | false => rfl
      | true =>
        refine Option.not_isSome_iff_eq_none.1 fun found => ?_
        obtain ⟨entry, isEntry, same⟩ := lookup?_isSome_iff.1 found
        have unequal := lawful.unequal_rest hk tidy first entry.1 (List.mem_map_of_mem isEntry)
        rw [same] at unequal
        cases unequal
    | false =>
      change s.lookup? k ((other, old) :: s.eraseEntry key rest) = _
      rw [lookup?_cons, ih tidy.rest]
      cases first : s.equals k other with
      | false => rfl
      | true =>
        have unequal : s.equals k key = false := by
          rw [lawful.equals_eq hk hother hkey first, lawful.comm hother hkey, equal]
        rw [unequal]
        rfl

/-- The keys after a removal: those that do not equal the one removed, in their order. -/
theorem Lawful.map_fst_eraseEntry (hkey : keys key) (tidy : s.Tidy keys entries) :
    (s.eraseEntry key entries).map Prod.fst =
      (entries.map Prod.fst).filter fun k => !s.equals k key := by
  induction entries with
  | nil => rfl
  | cons entry rest ih =>
    obtain ⟨other, old⟩ := entry
    have hother : keys other := tidy.keys other List.mem_cons_self
    rw [eraseEntry, List.eraseP_cons, List.map_cons, List.filter_cons, lawful.comm hother hkey]
    cases equal : s.equals key other with
    | true =>
      refine (List.filter_eq_self.2 fun k isKey => ?_).symm
      rw [lawful.comm (tidy.keys k (List.mem_cons_of_mem _ isKey)) hkey,
        lawful.unequal_rest hkey tidy equal k isKey]
      rfl
    | false => exact congrArg (other :: ·) (ih tidy.rest)

/-! ## One change more -/

theorem Lawful.tidy_apply (tidy : s.Tidy keys entries) (hs : ∀ key ∈ change.keys, keys key) :
    s.Tidy keys (s.apply entries change) := by
  cases change with
  | put key value =>
    have hkey : keys key := hs key List.mem_cons_self
    rcases s.keys_putEntry key value entries with same | ⟨more, unequal⟩
    · exact ⟨by rw [apply, same]; exact tidy.keys, by rw [apply, same]; exact tidy.apart⟩
    · constructor
      · rw [apply, more]
        exact List.forall_mem_append.2 ⟨tidy.keys, List.forall_mem_singleton.2 hkey⟩
      · rw [apply, more]
        refine List.pairwise_append.2 ⟨tidy.apart, List.pairwise_singleton _ _, ?_⟩
        intro k isKey other isNew
        rw [List.mem_singleton.1 isNew]
        have found := unequal k isKey
        exact ⟨by rw [lawful.comm (tidy.keys k isKey) hkey, found], found⟩
  | drop key =>
    have sublist : ((s.eraseEntry key entries).map Prod.fst).Sublist (entries.map Prod.fst) :=
      List.eraseP_sublist.map Prod.fst
    exact ⟨fun k isKey => tidy.keys k (sublist.subset isKey), tidy.apart.sublist sublist⟩
  | wipe => exact tidy_nil

/-- A change does to a look-up what it does as the latest of a history. -/
theorem Lawful.lookup?_apply (tidy : s.Tidy keys entries) (hs : ∀ key ∈ change.keys, keys key)
    (hk : keys k) (same : s.lookup? k entries = s.latest k before) :
    s.lookup? k (s.apply entries change) = s.latest k (change :: before) := by
  cases change with
  | put key value =>
    rw [apply, lawful.lookup?_putEntry hk (hs key List.mem_cons_self) tidy.keys, same, latest]
  | drop key => rw [apply, lawful.lookup?_eraseEntry hk (hs key List.mem_cons_self) tidy, same, latest]
  | wipe => rfl

end Lawful

/-- A change at the end takes away what it ends, and brings in what it introduces. -/
theorem introduced_concat (s : Store) (before history : List DictChange) (change : DictChange) :
    s.introduced before (history ++ [change]) =
      (s.introduced before history).filter (fun key => !s.ends key change) ++
        s.introduced (history.reverse ++ before) [change] := by
  induction history generalizing before with
  | nil => rfl
  | cons first rest ih =>
    rw [List.reverse_cons, List.append_assoc, List.cons_append]
    cases first with
    | put key value =>
      rw [introduced, introduced, ih, List.any_append, List.any_cons, List.any_nil, Bool.or_false]
      cases (s.latest key before).isNone
      · rfl
      · cases rest.any (s.ends key)
        · cases ends : s.ends key change <;> simp [ends]
        · rfl
    | drop key => exact ih _
    | wipe => exact ih _

/-- A change does to the keys what it does at the end of a history. -/
theorem Lawful.map_fst_apply (lawful : s.Lawful keys) (tidy : s.Tidy keys entries)
    (hs : ∀ key ∈ change.keys, keys key)
    (same : ∀ k, keys k → s.lookup? k entries = s.latest k before) :
    (s.apply entries change).map Prod.fst =
      (entries.map Prod.fst).filter (fun key => !s.ends key change) ++
        s.introduced before [change] := by
  cases change with
  | put key value =>
    rw [apply, map_fst_putEntry, same key (hs key List.mem_cons_self)]
    simp [ends, introduced]
  | drop key =>
    rw [apply, lawful.map_fst_eraseEntry (hs key List.mem_cons_self) tidy]
    simp [ends, introduced]
  | wipe => simp [apply, ends, introduced]

/-! ## Whole histories -/

theorem replay_concat (s : Store) (history : List DictChange) (change : DictChange) :
    s.replay (history ++ [change]) = s.apply (s.replay history) change :=
  List.foldl_concat ..

section Replay

variable (lawful : s.Lawful keys) (hs : ∀ change ∈ history, ∀ key ∈ change.keys, keys key)
include lawful hs

theorem Lawful.tidy_replay : s.Tidy keys (s.replay history) := by
  induction history using List.reverseRecOn with
  | nil => exact tidy_nil
  | append_singleton history change ih =>
    obtain ⟨hs, hchange⟩ := List.forall_mem_append.1 hs
    rw [replay_concat]
    exact lawful.tidy_apply (ih hs) (hchange change List.mem_cons_self)

/-- What a key is looked up to is the value of the latest insertion. -/
theorem Lawful.lookup?_replay (hk : keys k) :
    s.lookup? k (s.replay history) = s.latest k history.reverse := by
  induction history using List.reverseRecOn with
  | nil => rfl
  | append_singleton history change ih =>
    obtain ⟨hs, hchange⟩ := List.forall_mem_append.1 hs
    rw [replay_concat, List.reverse_append]
    exact lawful.lookup?_apply (lawful.tidy_replay hs) (hchange change List.mem_cons_self) hk
      (ih hs)

/-- The keys are those that were introduced. -/
theorem Lawful.map_fst_replay : (s.replay history).map Prod.fst = s.introduced [] history := by
  induction history using List.reverseRecOn with
  | nil => rfl
  | append_singleton history change ih =>
    obtain ⟨hs, hchange⟩ := List.forall_mem_append.1 hs
    rw [replay_concat, introduced_concat, ← ih hs, List.append_nil]
    exact lawful.map_fst_apply (lawful.tidy_replay hs) (hchange change List.mem_cons_self)
      fun k hk => lawful.lookup?_replay hs hk

/-- An entry has the value of the latest insertion under its key. -/
theorem Lawful.latest_of_mem {entry : Value × Value} (refl : ∀ v, keys v → s.equals v v = true)
    (isEntry : entry ∈ s.replay history) :
    s.latest entry.1 history.reverse = some entry.2 := by
  have tidy := lawful.tidy_replay hs
  have hkey := tidy.keys entry.1 (List.mem_map_of_mem isEntry)
  rw [← lawful.lookup?_replay hs hkey]
  exact lawful.lookup?_of_mem tidy.keys tidy.apart isEntry hkey (refl _ hkey)

end Replay

/-- What a dict answers by its entries is what its history tells. -/
theorem Lawful.reply_replay (lawful : s.Lawful keys) (refl : ∀ v, keys v → s.equals v v = true)
    (hs : ∀ change ∈ history, ∀ key ∈ change.keys, keys key) (call : DictCall)
    (hkey : ∀ key, call.key? = some key → keys key) :
    s.reply (s.replay history) call = s.answer history call := by
  have looked {key : Value} (isKey : call.key? = some key) :
      s.lookup? key (s.replay history) = s.latest key history.reverse :=
    lawful.lookup?_replay hs (hkey key isKey)
  have introduced := lawful.map_fst_replay hs
  have latest {entry : Value × Value} (isEntry : entry ∈ s.replay history) :
      s.latest entry.1 history.reverse = some entry.2 := lawful.latest_of_mem hs refl isEntry
  cases call with
  | insert | clear => rfl
  | remove key | get key | contains key => rw [reply, answer, looked rfl]
  | keys => rw [reply, answer, introduced]
  | values =>
    rw [reply, answer, ← introduced, List.filterMap_map]
    exact congrArg _ (List.filterMap_eq_map_iff_forall_eq_some.2 fun _ => latest).symm
  | items =>
    rw [reply, answer, ← introduced, List.filterMap_map]
    refine congrArg _ (.symm ?_)
    conv_rhs => rw [← List.map_id (s.replay history)]
    refine List.filterMap_eq_map_iff_forall_eq_some.2 fun entry isEntry => ?_
    rw [Function.comp_apply, latest isEntry]
    rfl
  | size => rw [reply, answer, ← introduced, List.length_map]

end Entries

end Store
end Interchange
