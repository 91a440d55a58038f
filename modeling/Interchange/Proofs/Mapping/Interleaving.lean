import Interchange.Call
import Interchange.Proofs.Container.Reordering
import Interchange.Proofs.Mapping.Flags

/-!
# Calls in any order

Calls are made on one shared mapping, each of them whole: entries are written under keys of which no
two are equal, and functions are run that count under a further key (`Mapping.Batch`). What a dict
holds after some of them is told by which they were (`Mapping.left`): a key has the value that was
written under it, the counter has grown by as many as have counted, and nothing else has changed. So
no entry is lost and no count, and any two orders leave the same entries, in an order of their own.

A value that leads to the dict of the mapping can only be stored while the dict leads to no shared
mapping, and the keys of the other calls are not searched for one. Where none of them leads to one,
every call succeeds in every order (`Reachable.orders_agree`).
-/

namespace Interchange

open Store

namespace Mapping

/-- A call on a mapping: an entry is written, or a function is run that counts. -/
inductive Turn where
  | set (key value : Value)
  | count (function : Ref)

/-- What is counted under a key. Nothing counts as zero. -/
def tally (s : Store) (c : Value) (entries : List (Value × Value)) : Int :=
  match s.lookup? c entries with
  | some (.int n) => n
  | _ => 0

namespace Turn

/-- Makes the call; what a function answers is left aside. -/
def run (call : Ref → List Value → Op Value) (mapping : Ref) : Turn → Op Unit
  | set key value => setKey mapping key value
  | count function => do let _ ← perform call mapping function

/-- The calls that write some entries and run some functions. -/
def all (sets : List (Value × Value)) (functions : List Ref) : List Turn :=
  sets.map (fun entry => set entry.1 entry.2) ++ functions.map count

def isCount : Turn → Bool
  | set _ _ => false
  | count _ => true

/-- The key that is written under; `c` is the one that functions count under. -/
def key (c : Value) : Turn → Value
  | set key _ => key
  | count _ => c

/-- The value that is written over some entries. -/
def value (s : Store) (c : Value) (entries : List (Value × Value)) : Turn → Value
  | set _ value => value
  | count _ => .int (tally s c entries + 1)

/-- The entries that are left by a call. -/
def apply (s : Store) (c : Value) (entries : List (Value × Value)) (turn : Turn) :
    List (Value × Value) :=
  s.putEntry (turn.key c) (turn.value s c entries) entries

/-- Two calls write under keys that are not equal, or both count. -/
def Beside (s : Store) (c : Value) (a b : Turn) : Prop :=
  a.isCount = true ∧ b.isCount = true ∨ s.Apart (a.key c) (b.key c)

theorem Beside.symm {s : Store} {c : Value} {a b : Turn} (h : Beside s c a b) : Beside s c b a :=
  h.imp And.symm And.symm

theorem key_of_isCount {c : Value} {turn : Turn} (isCount : turn.isCount = true) :
    turn.key c = c := by
  cases turn with
  | set => cases isCount
  | count => rfl

theorem mem_all {sets : List (Value × Value)} {functions : List Ref} {turn : Turn} :
    turn ∈ all sets functions ↔ (∃ entry ∈ sets, turn = .set entry.1 entry.2) ∨
      ∃ function ∈ functions, turn = .count function := by
  simp only [all, List.mem_append, List.mem_map, eq_comm]

theorem key_all {sets : List (Value × Value)} {functions : List Ref} {c : Value} {turn : Turn}
    (isTurn : turn ∈ all sets functions) : turn.key c ∈ c :: sets.map Prod.fst := by
  rcases mem_all.1 isTurn with ⟨entry, isEntry, rfl⟩ | ⟨function, -, rfl⟩
  · exact List.mem_cons_of_mem _ (List.mem_map_of_mem isEntry)
  · exact List.mem_cons_self

theorem countP_all (sets : List (Value × Value)) (functions : List Ref) :
    (all sets functions).countP isCount = functions.length := by
  have none : (sets.map fun entry => set entry.1 entry.2).countP isCount = 0 :=
    List.countP_eq_zero.2 fun turn isSet => by
      obtain ⟨entry, -, rfl⟩ := List.mem_map.1 isSet
      exact Bool.false_ne_true
  have each : (functions.map count).countP isCount = (functions.map count).length :=
    List.countP_eq_length.2 fun turn isRun => by
      obtain ⟨function, -, rfl⟩ := List.mem_map.1 isRun
      rfl
  rw [all, List.countP_append, none, each, Nat.zero_add, List.length_map]

end Turn

/-- The entries that are left by calls, one after the other. -/
def left (s : Store) (c : Value) (old : List (Value × Value)) (turns : List Turn) :
    List (Value × Value) :=
  turns.foldl (Turn.apply s c) old

/-- Entries count a number under a key, or they have no such key and the number is zero. -/
def Counted (s : Store) (c : Value) (entries : List (Value × Value)) (n : Int) : Prop :=
  s.lookup? c entries = some (.int n) ∨ s.lookup? c entries = none ∧ n = 0

/-! ## What calls leave -/

section Entries

variable {s : Store} {keys : Value → Prop} {c v x : Value} {n : Int}
  {old entries : List (Value × Value)} {turns turns' : List Turn} {turn : Turn}

theorem left_concat (s : Store) (c : Value) (old : List (Value × Value)) (turns : List Turn)
    (turn : Turn) : left s c old (turns ++ [turn]) = turn.apply s c (left s c old turns) :=
  List.foldl_concat ..

theorem Counted.tally_eq (h : Counted s c entries n) : tally s c entries = n := by
  rcases h with found | ⟨none, rfl⟩
  · rw [tally, found]
  · rw [tally, none]

/-- What the entries hold afterwards, they held before or were given, or it is a count. -/
theorem mem_parts_left (part : v ∈ entryParts (left s c old turns)) :
    v ∈ entryParts old ∨ (∃ turn ∈ turns, v = turn.key c) ∨ (∃ key, .set key v ∈ turns) ∨
      v.identity? = none := by
  induction turns using List.reverseRecOn with
  | nil => exact .inl part
  | append_singleton turns last ih =>
    have here {a : Turn} (isTurn : a ∈ turns) : a ∈ turns ++ [last] :=
      List.mem_append_left _ isTurn
    have isLast : last ∈ turns ++ [last] := List.mem_append_right _ List.mem_cons_self
    rw [left_concat] at part
    rcases mem_entryParts_putEntry part with before | rfl | rfl
    · rcases ih before with held | ⟨turn, isTurn, rfl⟩ | ⟨key, isSet⟩ | scalar
      · exact .inl held
      · exact .inr (.inl ⟨turn, here isTurn, rfl⟩)
      · exact .inr (.inr (.inl ⟨key, here isSet⟩))
      · exact .inr (.inr (.inr scalar))
    · exact .inr (.inl ⟨last, isLast, rfl⟩)
    · cases last with
      | set key value => exact .inr (.inr (.inl ⟨key, isLast⟩))
      | count => exact .inr (.inr (.inr rfl))

section Lawful

variable (lawful : s.Lawful keys) (tidy : s.Tidy keys old) (hs : ∀ turn ∈ turns, keys (turn.key c))
include lawful tidy hs

theorem tidy_left : s.Tidy keys (left s c old turns) := by
  induction turns using List.reverseRecOn with
  | nil => exact tidy
  | append_singleton turns last ih =>
    obtain ⟨before, isKey⟩ := List.forall_mem_append.1 hs
    rw [left_concat]
    have isKey : ∀ key ∈ (DictChange.put (last.key c) (last.value s c (left s c old turns))).keys,
        keys key := List.forall_mem_singleton.2 (isKey last List.mem_cons_self)
    exact lawful.tidy_apply (ih before) isKey

/-- A key that equals none that is written under is looked up to what it was. -/
theorem lookup?_left_of_unequal (hx : keys x)
    (unequal : ∀ turn ∈ turns, s.equals x (turn.key c) = false) :
    s.lookup? x (left s c old turns) = s.lookup? x old := by
  induction turns using List.reverseRecOn with
  | nil => rfl
  | append_singleton turns last ih =>
    obtain ⟨before, isKey⟩ := List.forall_mem_append.1 hs
    obtain ⟨unequal, unequalLast⟩ := List.forall_mem_append.1 unequal
    rw [left_concat, Turn.apply, lawful.lookup?_putEntry hx (isKey last List.mem_cons_self)
      (tidy_left lawful tidy before).keys, unequalLast last List.mem_cons_self]
    exact ih before unequal

/-- A key that is written under has a value. -/
theorem lookup?_left_isSome (isTurn : turn ∈ turns) :
    (s.lookup? (turn.key c) (left s c old turns)).isSome = true := by
  induction turns using List.reverseRecOn with
  | nil => cases isTurn
  | append_singleton turns last ih =>
    obtain ⟨before, isKey⟩ := List.forall_mem_append.1 hs
    rw [left_concat, Turn.apply, lawful.lookup?_putEntry (hs turn isTurn)
      (isKey last List.mem_cons_self) (tidy_left lawful tidy before).keys]
    rcases List.mem_append.1 isTurn with earlier | isLast
    · split
      · rfl
      · exact ih before earlier
    · rw [List.mem_singleton.1 isLast, equals_self]
      rfl

/-- A key that is written under once has the value that was written. -/
theorem lookup?_left_set {key value : Value} (beside : turns.Pairwise (Turn.Beside s c))
    (isTurn : .set key value ∈ turns) : s.lookup? key (left s c old turns) = some value := by
  induction turns using List.reverseRecOn with
  | nil => cases isTurn
  | append_singleton turns last ih =>
    obtain ⟨before, isKey⟩ := List.forall_mem_append.1 hs
    obtain ⟨beside, -, besideLast⟩ := List.pairwise_append.1 beside
    have hkey : keys key := hs _ isTurn
    rw [left_concat, Turn.apply, lawful.lookup?_putEntry hkey (isKey last List.mem_cons_self)
      (tidy_left lawful tidy before).keys]
    rcases List.mem_append.1 isTurn with earlier | isLast
    · rcases besideLast _ earlier last List.mem_cons_self with ⟨isCount, -⟩ | apart
      · cases isCount
      · have unequal : s.equals key (last.key c) = false := apart.1
        rw [unequal]
        exact ih before beside earlier
    · rw [← List.mem_singleton.1 isLast, Turn.key, equals_self]
      rfl

/-- The counter has grown by the number of those who counted. -/
theorem counted_left (hc : keys c)
    (apart : ∀ turn ∈ turns, turn.isCount = false → s.equals c (turn.key c) = false)
    (counted : Counted s c old n) :
    Counted s c (left s c old turns) (n + turns.countP Turn.isCount) := by
  induction turns using List.reverseRecOn with
  | nil => simpa [left] using counted
  | append_singleton turns last ih =>
    obtain ⟨before, isKey⟩ := List.forall_mem_append.1 hs
    obtain ⟨apart, apartLast⟩ := List.forall_mem_append.1 apart
    have counted := ih before apart
    rw [left_concat, Turn.apply, Counted, lawful.lookup?_putEntry hc (isKey last List.mem_cons_self)
      (tidy_left lawful tidy before).keys, List.countP_append]
    cases last with
    | set key value =>
      have unequal : s.equals c (Turn.key c (.set key value)) = false :=
        apartLast _ List.mem_cons_self rfl
      rw [unequal, if_neg Bool.false_ne_true]
      exact counted
    | count function =>
      rw [Turn.key, equals_self, if_pos rfl, Turn.value, counted.tally_eq]
      refine .inl (congrArg (fun i => some (Value.int i)) ?_)
      have one : [Turn.count function].countP Turn.isCount = 1 := rfl
      rw [one]
      omega

/-- The keys are those that were there, and with them those that are written under and equal none
that was there. -/
theorem mem_keys_left (beside : turns.Pairwise (Turn.Beside s c)) :
    x ∈ (left s c old turns).map Prod.fst ↔ x ∈ old.map Prod.fst ∨
      ∃ turn ∈ turns, turn.key c = x ∧ s.lookup? x old = none := by
  induction turns using List.reverseRecOn with
  | nil => simp [left]
  | append_singleton turns last ih =>
    obtain ⟨before, isKey⟩ := List.forall_mem_append.1 hs
    obtain ⟨beside, -, besideLast⟩ := List.pairwise_append.1 beside
    have ih := ih before beside
    rw [left_concat, Turn.apply, map_fst_putEntry, List.mem_append, ih]
    simp only [List.mem_append, List.mem_singleton, or_and_right, exists_or, exists_eq_left]
    by_cases met : ∃ turn ∈ turns, turn.key c = last.key c
    · -- The key has been entered before, as only counters are.
      obtain ⟨turn, isTurn, same⟩ := met
      have found := lookup?_left_isSome lawful tidy before isTurn
      rw [same] at found
      rw [Option.isNone_eq_false_iff.2 found, if_neg Bool.false_ne_true,
        or_iff_left List.not_mem_nil]
      refine or_congr_right (or_iff_left_of_imp ?_).symm
      rintro ⟨rfl, none⟩
      exact ⟨turn, isTurn, same, none⟩
    · have unequal : ∀ turn ∈ turns, s.equals (last.key c) (turn.key c) = false := by
        intro turn isTurn
        rcases besideLast turn isTurn last List.mem_cons_self with ⟨isCount, isCount'⟩ | apart
        · refine absurd ⟨turn, isTurn, ?_⟩ met
          rw [Turn.key_of_isCount isCount, Turn.key_of_isCount isCount']
        · exact apart.2
      rw [lookup?_left_of_unequal lawful tidy before (isKey last List.mem_cons_self) unequal, or_assoc]
      refine or_congr_right (or_congr_right ?_)
      constructor
      · intro isNew
        split at isNew
        · next none =>
          obtain rfl := List.mem_singleton.1 isNew
          exact ⟨rfl, Option.isNone_iff_eq_none.1 none⟩
        · cases isNew
      · rintro ⟨rfl, none⟩
        rw [none]
        exact List.mem_cons_self

/-- The same calls in another order leave the same entries, in some order. -/
theorem perm_left (hc : keys c) (beside : turns.Pairwise (Turn.Beside s c))
    (apart : ∀ turn ∈ turns, turn.isCount = false → s.equals c (turn.key c) = false)
    (counted : turns.countP Turn.isCount ≠ 0 → Counted s c old n) (perm : turns.Perm turns') :
    (left s c old turns).Perm (left s c old turns') := by
  have hs' : ∀ turn ∈ turns', keys (turn.key c) := fun turn isTurn =>
    hs turn (perm.mem_iff.2 isTurn)
  have beside' : turns'.Pairwise (Turn.Beside s c) :=
    (perm.pairwise_iff Turn.Beside.symm).1 beside
  refine lawful.perm_of_lookup? (tidy_left lawful tidy hs) (tidy_left lawful tidy hs')
    (fun x => ?_) fun x isKey => ?_
  · rw [mem_keys_left lawful tidy hs beside, mem_keys_left lawful tidy hs' beside']
    simp only [perm.mem_iff]
  have hx : keys x := (tidy_left lawful tidy hs).keys x isKey
  have isKeyOf {k : Value} (hk : keys k) (equal : s.equals x k = true) {l : List Turn}
      (hl : ∀ turn ∈ l, keys (turn.key c)) :
      s.lookup? x (left s c old l) = s.lookup? k (left s c old l) :=
    lawful.lookup?_eq hx hk (tidy_left lawful tidy hl).keys equal
  by_cases met : ∃ turn ∈ turns, s.equals x (turn.key c) = true
  · obtain ⟨turn, isTurn, equal⟩ := met
    rw [isKeyOf (hs turn isTurn) equal hs, isKeyOf (hs turn isTurn) equal hs']
    cases turn with
    | set key value =>
      rw [Turn.key, lookup?_left_set lawful tidy hs beside isTurn,
        lookup?_left_set lawful tidy hs' beside' (perm.mem_iff.1 isTurn)]
    | count function =>
      have some : turns.countP Turn.isCount ≠ 0 := fun none =>
        List.countP_eq_zero.1 none _ isTurn rfl
      have counts {l : List Turn} (hl : ∀ turn ∈ l, keys (turn.key c)) (same : turns.Perm l) :
          s.lookup? c (left s c old l) = .some (.int (n + turns.countP Turn.isCount)) := by
        have total := counted_left lawful tidy hl hc
          (fun turn isTurn => apart turn (same.mem_iff.2 isTurn)) (counted some)
        rw [← same.countP_eq] at total
        refine total.resolve_right fun missing => ?_
        have found := lookup?_left_isSome lawful tidy hl (same.mem_iff.1 isTurn)
        rw [Turn.key, missing.1] at found
        cases found
      rw [Turn.key, counts hs (.refl _), counts hs' perm]
  · have unequal : ∀ turn ∈ turns, s.equals x (turn.key c) = false := fun turn isTurn =>
      Bool.eq_false_iff.2 fun equal => met ⟨turn, isTurn, equal⟩
    rw [lookup?_left_of_unequal lawful tidy hs hx unequal, lookup?_left_of_unequal lawful tidy hs' hx
      fun turn isTurn => unequal turn (perm.mem_iff.2 isTurn)]

end Lawful
end Entries

end Mapping

/-! ## What values lead to later -/

namespace Store

variable {s t : Store} {d : Ref} {v w : Value}

section Frame

variable (closed : s.Closed) (same : ∀ r : Ref, r.index < s.size → r ≠ d → t.cell r = s.cell r)
include closed same

/-- Aside of a cell, a value leads to nothing new when the other cells are what they were. -/
theorem ReachesAside.of_frame (h : t.ReachesAside d v w) (has : s.Has v) :
    s.ReachesAside d v w ∧ s.Has w := by
  induction h with
  | refl => exact ⟨.refl, has⟩
  | tail _ leads ih =>
    obtain ⟨before, has⟩ := ih
    obtain ⟨ref, rfl, other, part⟩ := leads
    rw [same ref (has_object.1 has) other] at part
    exact ⟨before.tail ⟨ref, rfl, other, part⟩, closed ref _ (Cell.held_of_parts part)⟩

/-- A value stays clear when, if it leads to the cell, what the cell has come to hold is clear. -/
theorem Clear.of_frame (clear : s.Clear v) (has : s.Has v) (plain : (t.cell d).isMapping = false)
    (parts : s.ReachesBy Cell.parts v (.object d) → ∀ w ∈ (t.cell d).parts, s.Has w ∧ s.Clear w) :
    t.Clear v := by
  have aside {w : Value} (has : s.Has w) (clear : s.Clear w) : t.ClearAside d w := by
    intro r reaches
    obtain ⟨before, has⟩ := reaches.of_frame closed same has
    by_cases other : r = d
    · rw [other, plain]
    · rw [same r (has_object.1 has) other]
      exact clear r before.reaches
  refine (clear_iff d).2 ⟨aside has clear, fun reaches w part => ?_⟩
  obtain ⟨hasPart, clearPart⟩ := parts (reaches.of_frame closed same has).1.reaches w part
  exact aside hasPart clearPart

end Frame

theorem checkStorable_eq_ok_iff (closed : s.Closed) (has : s.Has v) (op : String) :
    s.checkStorable op v = .ok () ↔ s.Clear v := by
  rw [← findMapping?_eq_none_iff closed has, Store.checkStorable]
  cases s.findMapping? v with
  | none => exact iff_of_true rfl rfl
  | some name => exact iff_of_false (fun same => by cases same) (Option.some_ne_none name)

end Store

namespace Mapping

/-! ## Calls on a mapping -/

/-- A function adds one to the integer under a key of a dict, at any later time. What it answers and
what it adds to the store is its own, and it leaves all other cells as they are. -/
def Counts (call : Ref → List Value → Op Value) (s : Store) (dict : Ref) (c : Value)
    (function : Ref) : Prop :=
  ∀ t entries n, History s t → t.cell dict = .dict entries false → Counted t c entries n →
    Binary64.fitsInt64 n = true → Binary64.fitsInt64 (n + 1) = true →
    ∃ v u, (call function [.object dict]).runOn t = (.ok v, u) ∧ History t u ∧
      u.cell dict = .dict (t.putEntry c (.int (n + 1)) entries) false ∧
      ∀ r : Ref, r.index < t.size → r ≠ dict → u.cell r = t.cell r

/-- Calls on a mapping of which neither flag is set: entries with hashable keys, no two of them
equal, and values that may be stored; and functions that count under a further key. Comparing the
keys looks into no list, set or dict. -/
structure Batch (call : Ref → List Value → Op Value) (s : Store) (mapping dict : Ref)
    (old sets : List (Value × Value)) (c : Value) (n : Int) (functions : List Ref) : Prop where
  atop : ∃ name, s.cell mapping = .mapping name dict false
  under : s.cell dict = .dict old false
  steady : ∀ key ∈ old.map Prod.fst, s.Steady key
  keys : ∀ key ∈ c :: sets.map Prod.fst, s.Has key ∧ s.checkHashable key = .ok () ∧ s.Steady key
  unequal : (c :: sets.map Prod.fst).Pairwise fun k k' => s.equals k k' = false
  values : ∀ entry ∈ sets, s.Has entry.2 ∧ s.checkStorable "set_key" entry.2 = .ok ()
  counts : ∀ function ∈ functions, Counts call s dict c function
  total : functions ≠ [] → Counted s c old n ∧ Binary64.fitsInt64 n = true ∧
    Binary64.fitsInt64 (n + functions.length) = true

/-- Where a value leads to the dict, no key of another call leads to a shared mapping. -/
def Untangled (s : Store) (dict : Ref) (sets : List (Value × Value)) (c : Value)
    (functions : List Ref) : Prop :=
  ∀ entry ∈ sets, s.ReachesBy Cell.parts entry.2 (.object dict) →
    (∀ other ∈ sets, other ≠ entry → s.Clear other.1) ∧ (functions ≠ [] → s.Clear c)

/-- What has become of the store when all calls were made: each key that was written has its value,
the counter has grown by the number of the functions, and all other entries and all other cells are
what they were. -/
structure Outcome (s t : Store) (mapping dict : Ref) (old sets : List (Value × Value)) (c : Value)
    (n : Int) (functions : List Ref) : Prop where
  history : History s t
  under : t.cell dict = .dict (t.dictEntries dict) false
  set : ∀ entry ∈ sets, (get? mapping entry.1).runOn t = (.ok (some entry.2), t)
  count : functions ≠ [] →
    (get? mapping c).runOn t = (.ok (some (.int (n + functions.length))), t)
  others : ∀ key, s.Has key → s.Steady key → (∀ entry ∈ sets, s.equals key entry.1 = false) →
    (functions = [] ∨ s.equals key c = false) →
    ((get? mapping key).runOn t).1 = ((get? mapping key).runOn s).1
  keys : ∀ key ∈ (t.dictEntries dict).map Prod.fst,
    key ∈ old.map Prod.fst ∨ key ∈ sets.map Prod.fst ∨ functions ≠ [] ∧ key = c
  aside : ∀ r : Ref, r.index < s.size → r ≠ dict → t.cell r = s.cell r

/-- The store after some of the calls. -/
structure After (s : Store) (dict : Ref) (old : List (Value × Value)) (c : Value)
    (made : List Turn) (t : Store) : Prop where
  history : History s t
  under : t.cell dict = .dict (left s c old made) false
  aside : ∀ r : Ref, r.index < s.size → r ≠ dict → t.cell r = s.cell r

variable {call : Ref → List Value → Op Value} {s t u : Store} {mapping dict : Ref}
  {old sets : List (Value × Value)} {c key value v : Value} {n : Int} {functions : List Ref}
  {turn : Turn} {turns turns' made rest : List Turn}

namespace Batch

variable (batch : Batch call s mapping dict old sets c n functions)
include batch

/-- No two calls write under equal keys, unless both count. -/
theorem beside (reachable : s.Reachable) :
    (Turn.all sets functions).Pairwise (Turn.Beside s c) := by
  have apart : (c :: sets.map Prod.fst).Pairwise s.Apart :=
    batch.unequal.imp_of_mem fun {k k'} isKey isKey' unequal => by
      obtain ⟨has, -, steady⟩ := batch.keys k isKey
      obtain ⟨has', -, -⟩ := batch.keys k' isKey'
      have same := equals_comm reachable.sound.aged reachable.named has has' (.inl steady)
      exact ⟨unequal, same ▸ unequal⟩
  obtain ⟨first, others⟩ := List.pairwise_cons.1 apart
  refine List.pairwise_append.2 ⟨?_, ?_, fun a isSet b isCount => ?_⟩
  · exact List.pairwise_map.2 ((List.pairwise_map.1 others).imp .inr)
  · exact List.pairwise_map.2 (List.pairwise_of_forall fun _ _ => .inl ⟨rfl, rfl⟩)
  · obtain ⟨entry, isEntry, rfl⟩ := List.mem_map.1 isSet
    obtain ⟨function, -, rfl⟩ := List.mem_map.1 isCount
    have apart := first entry.1 (List.mem_map_of_mem isEntry)
    exact .inr ⟨apart.2, apart.1⟩

theorem tidy (reachable : s.Reachable) : s.Tidy (fun v => s.Has v ∧ s.Steady v) old :=
  reachable.wellKeyed.tidy reachable.sound.closed batch.under batch.steady

theorem keys_all (among : ∀ turn ∈ turns, turn ∈ Turn.all sets functions) :
    ∀ turn ∈ turns, s.Has (turn.key c) ∧ s.Steady (turn.key c) := fun turn isTurn =>
  have ⟨has, _, steady⟩ := batch.keys _ (Turn.key_all (among turn isTurn))
  ⟨has, steady⟩

theorem unequal_count (isTurn : turn ∈ Turn.all sets functions) (isSet : turn.isCount = false) :
    s.equals c (turn.key c) = false := by
  rcases Turn.mem_all.1 isTurn with ⟨entry, isEntry, rfl⟩ | ⟨function, -, rfl⟩
  · exact (List.pairwise_cons.1 batch.unequal).1 entry.1 (List.mem_map_of_mem isEntry)
  · cases isSet

/-- The entries after some calls have lawful keys. -/
theorem tidy_made (reachable : s.Reachable)
    (among : ∀ turn ∈ made, turn ∈ Turn.all sets functions) :
    s.Tidy (fun v => s.Has v ∧ s.Steady v) (left s c old made) :=
  tidy_left (lawful_steady reachable.sound.aged reachable.named) (batch.tidy reachable)
    (batch.keys_all among)

/-- The mapping is still over its dict. -/
theorem mapping_made (after : After s dict old c made t) :
    ∃ name, t.cell mapping = .mapping name dict false := by
  obtain ⟨name, atop⟩ := batch.atop
  have inside : mapping.index < s.size := lt_size_of_isContainer (by rw [atop]; rfl)
  have other : mapping ≠ dict := fun same => by
    have under := batch.under
    rw [← same, atop] at under
    cases under
  exact ⟨name, by rw [after.aside mapping inside other, atop]⟩

section Step

variable (reachable : s.Reachable) (after : After s dict old c made t)
  (among : ∀ turn ∈ made, turn ∈ Turn.all sets functions)
include reachable after among

/-- A later store enters a key as the first one would. -/
theorem putEntry_made (isKey : key ∈ c :: sets.map Prod.fst) (value : Value) :
    t.putEntry key value (left s c old made) = s.putEntry key value (left s c old made) := by
  have evolves := reachable.evolves after.history
  obtain ⟨has, -, steady⟩ := batch.keys key isKey
  refine putEntry_congr fun other isOther => ?_
  have hasOther := ((batch.tidy_made reachable among).keys other isOther).1
  exact equals_eq evolves reachable.sound.aged has hasOther (.inl steady)

/-- In a later store, a look-up of a steady key in the entries ends. -/
theorem ends_made (has : s.Has key) (steady : s.Steady key) :
    t.lookUpEnds key ((left s c old made).map Prod.fst) = true := by
  have evolves := reachable.evolves after.history
  have aged := reachable.sound.aged
  refine lookUpEnds_of_steady (evolves.aged aged) (evolves.has has)
    ((steady_iff evolves aged has).2 steady) fun other isKey => ?_
  exact evolves.has ((batch.tidy_made reachable among).keys other isKey).1

/-- What the dict holds after some calls leads to no shared mapping, if it did not before and the
keys of the calls do not. -/
theorem clear_made (before : ∀ w ∈ entryParts old, s.Clear w)
    (keys : ∀ turn ∈ made, s.Clear (turn.key c)) :
    ∀ w ∈ (t.cell dict).parts, s.Has w ∧ s.Clear w := by
  intro w part
  rw [after.under] at part
  rcases mem_parts_left part with held | ⟨turn, isTurn, rfl⟩ | ⟨key, isSet⟩ | scalar
  · have isHeld : w ∈ (s.cell dict).held := by
      rw [batch.under]
      exact held
    exact ⟨reachable.sound.closed dict w isHeld, before w held⟩
  · exact ⟨(batch.keys_all among turn isTurn).1, keys turn isTurn⟩
  · rcases Turn.mem_all.1 (among _ isSet) with ⟨entry, isEntry, same⟩ | ⟨_, _, same⟩
    · cases same
      obtain ⟨has, storable⟩ := batch.values entry isEntry
      exact ⟨has, (checkStorable_eq_ok_iff reachable.sound.closed has _).1 storable⟩
    · cases same
  · exact ⟨has_of_scalar scalar, clear_of_scalar scalar⟩

/-- A value may still be stored after other calls. -/
theorem storable_made (untangled : Untangled s dict sets c functions) {entry : Value × Value}
    (isEntry : entry ∈ sets) (others : ∀ turn ∈ made, turn ≠ .set entry.1 entry.2) :
    t.checkStorable "set_key" entry.2 = .ok () := by
  have closed := reachable.sound.closed
  have evolves := reachable.evolves after.history
  obtain ⟨has, storable⟩ := batch.values entry isEntry
  have clear : s.Clear entry.2 := (checkStorable_eq_ok_iff closed has _).1 storable
  rw [checkStorable_eq_ok_iff (evolves.closed closed) (evolves.has has)]
  refine clear.of_frame closed after.aside has (by rw [after.under]; rfl) fun reaches => ?_
  obtain ⟨clearKeys, clearCounter⟩ := untangled entry isEntry reaches
  refine batch.clear_made reachable after among (fun w held => ?_) fun turn isTurn => ?_
  · refine clear.part (reaches.tail ⟨dict, rfl, ?_⟩)
    rw [batch.under]
    exact held
  · rcases Turn.mem_all.1 (among turn isTurn) with ⟨other, isOther, rfl⟩ | ⟨function, isFunction, rfl⟩
    · refine clearKeys other isOther fun same => others _ isTurn ?_
      rw [same]
    · exact clearCounter (List.ne_nil_of_mem isFunction)

/-- An entry is written after other calls. -/
theorem after_set (untangled : Untangled s dict sets c functions) {entry : Value × Value}
    (isEntry : entry ∈ sets) (others : ∀ turn ∈ made, turn ≠ .set entry.1 entry.2) :
    ∃ u, (setKey mapping entry.1 entry.2).runOn t = (.ok (), u) ∧
      After s dict old c (made ++ [.set entry.1 entry.2]) u := by
  have isKey : entry.1 ∈ c :: sets.map Prod.fst :=
    List.mem_cons_of_mem _ (List.mem_map_of_mem isEntry)
  have aged := reachable.sound.aged
  have evolves := reachable.evolves after.history
  have under := after.under
  have inside : dict.index < t.size := lt_size_of_isContainer (by rw [under]; rfl)
  obtain ⟨has, hashable, steady⟩ := batch.keys entry.1 isKey
  have hasValue := (batch.values entry isEntry).1
  have hashable : t.checkHashable entry.1 = .ok () := by
    rw [checkHashable_eq aged evolves has, hashable]
  obtain ⟨name, atop⟩ := batch.mapping_made after
  have storable := batch.storable_made reachable after among untangled isEntry others
  have put := batch.putEntry_made reachable after among isKey entry.2
  have run : (setKey mapping entry.1 entry.2).runOn t = (.ok (),
      t.write dict (.dict (s.putEntry entry.1 entry.2 (left s c old made)) false)) := by
    rw [runOn_setKey atop storable, Dict.runOn_insert_of_ends dict _ _ under hashable
      (batch.ends_made reachable after among has steady), ← put]
  have act : History t ((setKey mapping entry.1 entry.2).runOn t).2 := by
    refine .act (.setKey mapping entry.1 entry.2) ⟨fun v isOperand => ?_, nofun⟩
    rcases List.mem_cons.1 isOperand with rfl | isValue
    · exact evolves.has has
    · rw [List.mem_singleton.1 isValue]
      exact evolves.has hasValue
  rw [run] at act
  refine ⟨_, run, after.history.trans act, ?_, fun r old other => ?_⟩
  · rw [cell_write_self t _ inside, left_concat]
    rfl
  · rw [cell_write_other t _ other.symm, after.aside r old other]

/-- A function counts after other calls, if there is room for one more. -/
theorem after_count {function : Ref} (isFunction : function ∈ functions)
    (room : made.countP Turn.isCount < functions.length) :
    ∃ u, (Turn.run call mapping (.count function)).runOn t = (.ok (), u) ∧
      After s dict old c (made ++ [.count function]) u := by
  have aged := reachable.sound.aged
  have evolves := reachable.evolves after.history
  obtain ⟨has, -, steady⟩ := batch.keys c List.mem_cons_self
  obtain ⟨counted, fits, fitsAll⟩ := batch.total (List.ne_nil_of_mem isFunction)
  have lawful := lawful_steady aged reachable.named
  have total := counted_left lawful (batch.tidy reachable) (batch.keys_all among) ⟨has, steady⟩
    (fun turn isMade => batch.unequal_count (among turn isMade)) counted
  generalize isSum : n + made.countP Turn.isCount = sum at total
  have later : Counted t c (left s c old made) sum := by
    have keys : ∀ entry ∈ left s c old made, s.Has entry.1 := fun entry isEntry =>
      ((batch.tidy_made reachable among).keys entry.1 (List.mem_map_of_mem isEntry)).1
    rwa [Counted, lookup?_eq evolves aged has steady keys]
  have room : Binary64.fitsInt64 sum = true ∧ Binary64.fitsInt64 (sum + 1) = true := by
    simp only [Binary64.fitsInt64, Bool.and_eq_true, decide_eq_true_eq] at fits fitsAll ⊢
    omega
  obtain ⟨v, u, ran, history, under, aside⟩ := batch.counts function isFunction t _ sum
    after.history after.under later room.1 room.2
  obtain ⟨name, atop⟩ := batch.mapping_made after
  refine ⟨u, ?_, after.history.trans history, ?_, fun r old other => ?_⟩
  · have performed : (perform call mapping function).runOn t = (.ok v, u) := by
      rw [perform, withDict, Op.runOn_bind_of_ok (runOn_read atop)]
      exact ran
    rw [Turn.run, Op.runOn_bind_of_ok performed]
    rfl
  · rw [under, left_concat, Turn.apply, Turn.key, Turn.value, total.tally_eq,
      batch.putEntry_made reachable after among List.mem_cons_self]
  · rw [aside r (Nat.lt_of_lt_of_le old evolves.size_le) other, after.aside r old other]

end Step

section Run

variable (reachable : s.Reachable) (untangled : Untangled s dict sets c functions)
include reachable untangled

/-- One call more. -/
theorem after_turn (after : After s dict old c made t)
    (perm : (made ++ turn :: rest).Perm (Turn.all sets functions)) :
    ∃ u, (turn.run call mapping).runOn t = (.ok (), u) ∧ After s dict old c (made ++ [turn]) u := by
  have among : ∀ turn ∈ made, turn ∈ Turn.all sets functions := fun turn isTurn =>
    perm.mem_iff.1 (List.mem_append_left _ isTurn)
  have isTurn : turn ∈ Turn.all sets functions :=
    perm.mem_iff.1 (List.mem_append_right _ List.mem_cons_self)
  rcases Turn.mem_all.1 isTurn with ⟨entry, isEntry, rfl⟩ | ⟨function, isFunction, rfl⟩
  · refine batch.after_set reachable after among untangled isEntry ?_
    rintro _ isMade rfl
    have beside := (perm.pairwise_iff Turn.Beside.symm).2 (batch.beside reachable)
    rcases (List.pairwise_append.1 beside).2.2 _ isMade _ List.mem_cons_self with ⟨isCount, -⟩ | apart
    · cases isCount
    · have unequal : s.equals entry.1 entry.1 = false := apart.1
      rw [equals_self] at unequal
      cases unequal
  · refine batch.after_count reachable after among isFunction ?_
    have all := perm.countP_eq Turn.isCount
    rw [Turn.countP_all, List.countP_append, List.countP_cons_of_pos rfl] at all
    omega

/-- All calls that are left. -/
theorem after_turns (after : After s dict old c made t)
    (perm : (made ++ rest).Perm (Turn.all sets functions)) :
    ∃ u, (rest.forM (Turn.run call mapping)).runOn t = (.ok (), u) ∧
      After s dict old c (made ++ rest) u := by
  induction rest generalizing made t with
  | nil => exact ⟨t, rfl, by rwa [List.append_nil]⟩
  | cons turn rest ih =>
    obtain ⟨m, ran, next⟩ := batch.after_turn reachable untangled after perm
    rw [List.append_cons] at perm ⊢
    obtain ⟨u, ranRest, last⟩ := ih next perm
    refine ⟨u, ?_, last⟩
    change (turn.run call mapping >>= fun _ => rest.forM (Turn.run call mapping)).runOn t = _
    rw [Op.runOn_bind_of_ok ran, ranRest]

/-- Every order of the calls goes through. -/
theorem after_all (perm : turns.Perm (Turn.all sets functions)) :
    ∃ t, (turns.forM (Turn.run call mapping)).runOn s = (.ok (), t) ∧
      After s dict old c turns t := by
  have start : After s dict old c [] s := ⟨.refl s, batch.under, fun _ _ _ => rfl⟩
  exact batch.after_turns reachable untangled start perm

end Run

/-! ## When all calls were made -/

omit batch in
theorem runOn_get?_of_cell {name : String} {flag frozen : Bool} {entries : List (Value × Value)}
    (atop : t.cell mapping = .mapping name dict flag) (under : t.cell dict = .dict entries frozen)
    (ends : t.lookUpEnds key (entries.map Prod.fst) = true) : (get? mapping key).runOn t =
      ((t.checkHashable key).map fun _ => t.lookup? key entries, t) := by
  rw [get?, Op.runOn_bind_of_ok (runOn_read atop), Dict.runOn_get?, dictEntries_of_cell under,
    if_pos ends]
  cases t.checkHashable key <;> rfl

section Result

variable (reachable : s.Reachable) (perm : turns.Perm (Turn.all sets functions))
include reachable perm

/-- The entries after all calls tell what has become of each key. -/
theorem outcome (after : After s dict old c turns t) :
    Outcome s t mapping dict old sets c n functions := by
  have aged := reachable.sound.aged
  have lawful := lawful_steady aged reachable.named
  have among : ∀ turn ∈ turns, turn ∈ Turn.all sets functions := fun turn => perm.mem_iff.1
  have beside := (perm.pairwise_iff Turn.Beside.symm).2 (batch.beside reachable)
  have hs := batch.keys_all among
  have tidy := batch.tidy reachable
  have tidyLeft := batch.tidy_made reachable among
  have evolves := reachable.evolves after.history
  have entries_eq := dictEntries_of_cell after.under
  obtain ⟨name, atop⟩ := batch.atop
  obtain ⟨name', atop'⟩ := batch.mapping_made after
  -- A key is looked up in the store as it was at first.
  have got {key : Value} (has : s.Has key) (steady : s.Steady key) :
      (get? mapping key).runOn t =
        ((s.checkHashable key).map fun _ => s.lookup? key (left s c old turns), t) := by
    rw [runOn_get?_of_cell atop' after.under (batch.ends_made reachable after among has steady),
      checkHashable_eq aged evolves has,
      lookup?_eq evolves aged has steady fun entry isEntry =>
        (tidyLeft.keys entry.1 (List.mem_map_of_mem isEntry)).1]
  refine ⟨after.history, by rw [entries_eq, after.under], fun entry isEntry => ?_, fun some => ?_,
    fun key has steady unequal apart => ?_, fun key isKey => ?_, after.aside⟩
  · have isTurn : .set entry.1 entry.2 ∈ turns :=
      perm.mem_iff.2 (Turn.mem_all.2 (.inl ⟨entry, isEntry, rfl⟩))
    obtain ⟨has, hashable, steady⟩ :=
      batch.keys entry.1 (List.mem_cons_of_mem _ (List.mem_map_of_mem isEntry))
    rw [got has steady, hashable, lookup?_left_set lawful tidy hs beside isTurn]
    rfl
  · obtain ⟨function, isFunction⟩ := List.exists_mem_of_ne_nil functions some
    have isTurn : .count function ∈ turns :=
      perm.mem_iff.2 (Turn.mem_all.2 (.inr ⟨function, isFunction, rfl⟩))
    obtain ⟨has, hashable, steady⟩ := batch.keys c List.mem_cons_self
    have total := counted_left lawful tidy hs ⟨has, steady⟩
      (fun turn isTurn => batch.unequal_count (among turn isTurn)) (batch.total some).1
    rw [perm.countP_eq, Turn.countP_all] at total
    have found := lookup?_left_isSome lawful tidy hs isTurn
    rw [Turn.key] at found
    have total := total.resolve_right fun missing => by
      rw [missing.1] at found
      cases found
    rw [got has steady, hashable, total]
    rfl
  · have unequal : ∀ turn ∈ turns, s.equals key (turn.key c) = false := by
      intro turn isTurn
      rcases Turn.mem_all.1 (among turn isTurn) with
        ⟨entry, isEntry, rfl⟩ | ⟨function, isFunction, rfl⟩
      · exact unequal entry isEntry
      · exact apart.resolve_left (List.ne_nil_of_mem isFunction)
    have ends : s.lookUpEnds key (old.map Prod.fst) = true :=
      lookUpEnds_of_steady aged has steady fun other isKey => (tidy.keys other isKey).1
    rw [got has steady, runOn_get?_of_cell atop batch.under ends,
      lookup?_left_of_unequal lawful tidy hs ⟨has, steady⟩ unequal]
  · rw [entries_eq, mem_keys_left lawful tidy hs beside] at isKey
    refine isKey.imp_right ?_
    rintro ⟨turn, isTurn, rfl, -⟩
    rcases Turn.mem_all.1 (among turn isTurn) with
      ⟨entry, isEntry, rfl⟩ | ⟨function, isFunction, rfl⟩
    · exact .inl (List.mem_map_of_mem isEntry)
    · exact .inr ⟨List.ne_nil_of_mem isFunction, rfl⟩

/-- In any two orders, the entries are the same, and dicts that hold them are equal. -/
theorem agree (perm' : turns'.Perm (Turn.all sets functions)) {t' : Store}
    (after : After s dict old c turns t) (after' : After s dict old c turns' t') :
    (t.dictEntries dict).Perm (t'.dictEntries dict) ∧
    ∀ u copy flag flag', History t u → u.cell dict = .dict (t.dictEntries dict) flag →
      u.cell copy = .dict (t'.dictEntries dict) flag' →
      u.equals (.object dict) (.object copy) = true := by
  have aged := reachable.sound.aged
  have among : ∀ turn ∈ turns, turn ∈ Turn.all sets functions := fun turn => perm.mem_iff.1
  have beside := (perm.pairwise_iff Turn.Beside.symm).2 (batch.beside reachable)
  obtain ⟨has, -, steady⟩ := batch.keys c List.mem_cons_self
  have counted (some : turns.countP Turn.isCount ≠ 0) : Counted s c old n := by
    rw [perm.countP_eq, Turn.countP_all] at some
    exact (batch.total fun none => some (congrArg List.length none)).1
  have same : (left s c old turns).Perm (left s c old turns') :=
    perm_left (lawful_steady aged reachable.named) (batch.tidy reachable) (batch.keys_all among)
      ⟨has, steady⟩ beside (fun turn isTurn => batch.unequal_count (among turn isTurn)) counted
      (perm.trans perm'.symm)
  rw [dictEntries_of_cell after.under, dictEntries_of_cell after'.under]
  refine ⟨same, fun u copy flag flag' history cell cell' => ?_⟩
  have later := reachable.later (after.history.trans history)
  have tidy := (batch.tidy_made reachable among).later
    (reachable.evolves (after.history.trans history)) aged
  exact equals_of_perm later.sound.aged later.named tidy same cell cell'

end Result
end Batch
end Mapping

namespace Store

open Mapping

variable {s : Store}

/-- Calls of a batch can be made on a mapping in any order, if no key of another call leads to a
shared mapping where a value leads to the dict. All of them succeed, each key has the value that was
written under it, the counter has grown by the number of the functions that count, and all other
entries are what they were. Any two orders end in the same entries, and in dicts that are equal. -/
theorem Reachable.orders_agree (reachable : s.Reachable) {call : Ref → List Value → Op Value}
    {mapping dict : Ref} {old sets : List (Value × Value)} {c : Value} {n : Int}
    {functions : List Ref} (batch : Batch call s mapping dict old sets c n functions)
    (untangled : Untangled s dict sets c functions) :
    (∀ turns : List Turn, turns.Perm (Turn.all sets functions) →
      ∃ t, (turns.forM (Turn.run call mapping)).runOn s = (.ok (), t) ∧
        Outcome s t mapping dict old sets c n functions) ∧
    ∀ turns turns' : List Turn, turns.Perm (Turn.all sets functions) →
      turns'.Perm (Turn.all sets functions) → ∀ t t',
      (turns.forM (Turn.run call mapping)).runOn s = (.ok (), t) →
      (turns'.forM (Turn.run call mapping)).runOn s = (.ok (), t') →
      (t.dictEntries dict).Perm (t'.dictEntries dict) ∧
      ∀ u copy flag flag', History t u → u.cell dict = .dict (t.dictEntries dict) flag →
        u.cell copy = .dict (t'.dictEntries dict) flag' →
        u.equals (.object dict) (.object copy) = true := by
  refine ⟨fun turns perm => ?_, fun turns turns' perm perm' t t' ran ran' => ?_⟩
  · obtain ⟨t, ran, after⟩ := batch.after_all reachable untangled perm
    exact ⟨t, ran, batch.outcome reachable perm after⟩
  · obtain ⟨_, first, after⟩ := batch.after_all reachable untangled perm
    obtain ⟨_, second, after'⟩ := batch.after_all reachable untangled perm'
    cases ran.symm.trans first
    cases ran'.symm.trans second
    exact batch.agree reachable perm perm' after after'

/-! ## Functions that count -/

section Counting

variable {t : Store} {dict function : Ref} {c : Value} {n : Int} {entries : List (Value × Value)}

/-- The edit that counts writes the next number. -/
theorem runOn_increase (cell : t.cell dict = .dict entries false)
    (hashable : t.checkHashable c = .ok ()) (ends : t.lookUpEnds c (entries.map Prod.fst) = true)
    (counted : Counted t c entries n) (fits : Binary64.fitsInt64 n = true) :
    (Edit.increase dict c).runOn t =
      (.ok (), t.write dict (.dict (t.putEntry c (.int (n + 1)) entries) false)) := by
  have found : (Dict.get? dict c).runOn t = (.ok (t.lookup? c entries), t) := by
    rw [← dictEntries_of_cell cell] at ends ⊢
    exact Dict.runOn_get?_of_ends dict c hashable ends
  have current : (t.lookup? c entries).getD (.int 0) = .int n := by
    rcases counted with same | ⟨none, rfl⟩
    · rw [same]
      rfl
    · rw [none]
      rfl
  have taken : Arguments.required t "incr" .int64 [.int n] 0 = .ok n := by
    have isInt : t.unpack .int64 (.int n) = .ok n := if_pos fits
    rw [Arguments.required, List.getElem?_cons_zero]
    dsimp only
    rw [Arguments.unpackAt, isInt]
  rw [Edit.increase, Op.runOn_bind_of_ok found, current, Op.runOn_bind_of_ok Op.runOn_get, taken]
  exact Dict.runOn_insert_of_ends dict c (.int (n + 1)) cell hashable ends

/-- A function that makes this edit counts. -/
theorem Reachable.counts (reachable : s.Reachable) {name : String}
    (cell : s.cell function = .function { name, routine := .edits [.increment c] })
    (inside : function.index < s.size) (has : s.Has c) (hashable : s.checkHashable c = .ok ())
    (steady : s.Steady c) : Counts Op.callRef s dict c function := by
  intro t entries n history under counted fits _
  have evolves := reachable.evolves history
  have cell : t.cell function = .function { name, routine := .edits [.increment c] } := by
    rw [evolves.cell_of_not_container inside (by rw [cell]; rfl), cell]
  have inside : dict.index < t.size := lt_size_of_isContainer (by rw [under]; rfl)
  have sound := (reachable.later history).sound
  have ends : t.lookUpEnds c (entries.map Prod.fst) = true :=
    lookUpEnds_of_steady sound.aged (evolves.has has)
      ((steady_iff evolves reachable.sound.aged has).2 steady) (sound.keys under).has
  have increased := runOn_increase under
    (by rw [checkHashable_eq reachable.sound.aged evolves has, hashable]) ends counted fits
  generalize isWritten : t.write dict (.dict (t.putEntry c (.int (n + 1)) entries) false) = m
    at increased
  have taken : Arguments.required t "steps" .dict [.object dict] 0 = .ok dict := by
    have isDict : t.unpack .dict (.object dict) = .ok dict := if_pos (by rw [under])
    rw [Arguments.required, List.getElem?_cons_zero]
    dsimp only
    rw [Arguments.unpackAt, isDict]
  have edited : ([Edit.increment c].mapM (Edit.run dict)).runOn t = (.ok [.nothing], m) := by
    have first : (Edit.run dict (.increment c)).runOn t = (.ok .nothing, m) := by
      rw [Edit.run, Op.runOn_bind_of_ok increased]
      rfl
    rw [List.mapM_cons, Op.runOn_bind_of_ok first]
    rfl
  have ran : (Op.callRef function [.object dict]).runOn t =
      (.ok (.object (m.alloc (.list [.nothing] false)).1), (m.alloc (.list [.nothing] false)).2) := by
    rw [Op.callRef, Op.callWith, Op.runOn_bind_of_ok (Op.runOn_cell function), cell]
    dsimp only
    rw [Function.runWith]
    dsimp only
    rw [Op.runOn_bind_of_ok Op.runOn_get, taken]
    change (([Edit.increment c].mapM (Edit.run dict)) >>= ValueList.new).runOn t = _
    rw [Op.runOn_bind_of_ok edited]
    rfl
  have act : History t _ := .act (.call function [.object dict])
    ⟨List.forall_mem_singleton.2 (has_object.2 inside), fun _ same => by cases same⟩
  rw [Action.run, Op.runOn_bind_of_ok ran] at act
  have size : m.size = t.size := by rw [← isWritten, size_write]
  refine ⟨_, _, ran, act, ?_, fun r old other => ?_⟩
  · rw [cell_alloc_other m _ (size ▸ inside), ← isWritten, cell_write_self t _ inside]
  · rw [cell_alloc_other m _ (size ▸ old), ← isWritten, cell_write_other t _ other.symm]

end Counting

/-- A mapping, a function that counts, and a module that has the mapping as a member. -/
def counting : Store := empty.after
  [.newMapping "shared_dict",
    .newFunction { name := "f", routine := .edits [.increment (.string "c")] },
    .newModule "m" [("s", .object ⟨1⟩)]]

theorem reachable_counting : counting.Reachable :=
  reachable_empty.after ⟨⟨nofun, nofun⟩, ⟨by decide, nofun⟩, ⟨by decide, nofun⟩, trivial⟩

/-- Two entries are written, one of which holds the dict itself, and two functions count. -/
theorem batch_counting : Batch Op.callRef counting ⟨1⟩ ⟨0⟩ []
    [(.int 1, .object ⟨0⟩), (.string "k", .bool true)] (.string "c") 0 [⟨2⟩, ⟨2⟩] where
  atop := ⟨"shared_dict", rfl⟩
  under := rfl
  steady := nofun
  keys := by
    have scalars : ∀ key ∈ [Value.string "c", .int 1, .string "k"], key.identity? = none := by decide
    have hashable : ∀ key ∈ [Value.string "c", .int 1, .string "k"],
        counting.checkHashable key = .ok () := by
      simp only [List.forall_mem_cons]
      exact ⟨rfl, rfl, rfl, nofun⟩
    exact fun key isKey =>
      ⟨has_of_scalar (scalars key isKey), hashable key isKey, .scalar (scalars key isKey)⟩
  unequal := by decide +kernel
  values := by
    simp only [List.forall_mem_cons]
    exact ⟨⟨by decide, rfl⟩, ⟨by decide, rfl⟩, nofun⟩
  counts := fun function isFunction => by
    have isSame : function = ⟨2⟩ := by simpa using isFunction
    rw [isSame]
    exact reachable_counting.counts rfl (by decide) (has_of_scalar rfl) rfl (.scalar rfl)
  total := fun _ => ⟨.inr ⟨rfl, rfl⟩, rfl, rfl⟩

/-- Whether the functions run last or first, both are counted and both entries are there. -/
theorem orders_agree_counting :
    let calls := Turn.all [(.int 1, .object ⟨0⟩), (.string "k", .bool true)] [⟨2⟩, ⟨2⟩]
    ∃ t t', (calls.forM (Turn.run Op.callRef ⟨1⟩)).runOn counting = (.ok (), t) ∧
      (calls.reverse.forM (Turn.run Op.callRef ⟨1⟩)).runOn counting = (.ok (), t') ∧
      (get? ⟨1⟩ (.string "c")).runOn t = (.ok (some (.int 2)), t) ∧
      (get? ⟨1⟩ (.int 1)).runOn t' = (.ok (some (.object ⟨0⟩)), t') ∧
      (t.dictEntries ⟨0⟩).Perm (t'.dictEntries ⟨0⟩) := by
  intro calls
  have untangled : Untangled counting ⟨0⟩ [(.int 1, .object ⟨0⟩), (.string "k", .bool true)]
      (.string "c") [⟨2⟩, ⟨2⟩] := by
    refine fun _ _ _ => ⟨fun other isOther _ => ?_, fun _ => clear_of_scalar rfl⟩
    have scalars : ∀ entry ∈ [(Value.int 1, Value.object ⟨0⟩), (.string "k", .bool true)],
        entry.1.identity? = none := by decide
    exact clear_of_scalar (scalars other isOther)
  obtain ⟨succeed, agree⟩ := reachable_counting.orders_agree batch_counting untangled
  have reversed : calls.reverse.Perm calls := List.reverse_perm calls
  obtain ⟨t, ran, outcome⟩ := succeed calls (.refl _)
  obtain ⟨t', ran', outcome'⟩ := succeed calls.reverse reversed
  have counted := outcome.count nofun
  have written := outcome'.set (.int 1, .object ⟨0⟩) List.mem_cons_self
  have same := (agree calls calls.reverse (.refl _) reversed t t' ran ran').1
  exact ⟨t, t', ran, ran', counted, written, same⟩

/-- A key that leads to the mapping, written before the dict itself is, keeps the dict out. -/
theorem order_matters_counting : counting.Reachable ∧
    Batch Op.callRef counting ⟨1⟩ ⟨0⟩ []
      [(.object ⟨3⟩, .int 1), (.string "x", .object ⟨0⟩)] (.string "c") 0 [] ∧
    (∃ t, (List.forM [.set (.string "x") (.object ⟨0⟩), .set (.object ⟨3⟩) (.int 1)]
      (Turn.run Op.callRef ⟨1⟩)).runOn counting = (.ok (), t)) ∧
    ∃ t, (List.forM [.set (.object ⟨3⟩) (.int 1), .set (.string "x") (.object ⟨0⟩)]
      (Turn.run Op.callRef ⟨1⟩)).runOn counting =
        (.error (.unsupported "set_key" "shared_dict"), t) := by
  refine ⟨reachable_counting, ?_, ⟨_, rfl⟩, ⟨_, rfl⟩⟩
  have steady : counting.Steady (.object ⟨3⟩) := .plain rfl nofun
  refine ⟨⟨"shared_dict", rfl⟩, rfl, nofun, ?_, by decide +kernel, ?_, nofun, nofun⟩
  · simp only [List.map_cons, List.map_nil, List.forall_mem_cons]
    exact ⟨⟨has_of_scalar rfl, rfl, .scalar rfl⟩, ⟨by decide, rfl, steady⟩,
      ⟨has_of_scalar rfl, rfl, .scalar rfl⟩, nofun⟩
  · simp only [List.forall_mem_cons]
    exact ⟨⟨has_of_scalar rfl, rfl⟩, ⟨by decide, rfl⟩, nofun⟩

end Store
end Interchange
