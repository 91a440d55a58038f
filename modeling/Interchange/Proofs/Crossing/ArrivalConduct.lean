import Interchange.Crossing.Text
import Interchange.Proofs.Crossing.NormalForm
import Interchange.Proofs.Store.Conduct

/-!
# The conduct of arrivals

A host value arrives by steps of the store, and what it becomes is something that the store has, as
long as its handles present values that the store has (`HostValue.Rooted`). What is read from a JSON
text has no handles (`rooted_ofJson`).
-/

namespace Interchange

open Store

/-- A host value whose handles present themselves as values that the store has. -/
inductive HostValue.Rooted (store : Store) : HostValue → Prop
  | scalar {h : HostValue} {v : Value} (same : h.scalar? = some v) : Rooted store h
  | list {items : List HostValue} (each : ∀ item ∈ items, Rooted store item) :
      Rooted store (.list items)
  | map {entries : List (String × HostValue)} (each : ∀ entry ∈ entries, Rooted store entry.2) :
      Rooted store (.map entries)
  | pairs {entries : List (HostValue × HostValue)} (keys : ∀ entry ∈ entries, Rooted store entry.1)
      (values : ∀ entry ∈ entries, Rooted store entry.2) : Rooted store (.pairs entries)
  | native {handle : Native} (has : ∀ v, handle.presentation = some (.ok v) → store.Has v) :
      Rooted store (.native handle)

variable {s t : Store}

namespace HostValue

/-- The host value arrives as something that the store has, now and later. -/
def Arrives (s : Store) (h : HostValue) : Prop :=
  ∀ t, s.Evolves t → h.arrive.Ensures t fun v u => u.Has v

theorem Arrives.later {h : HostValue} (arrives : h.Arrives s) (later : s.Evolves t) :
    h.Arrives t := fun u after => arrives u (later.trans after)

theorem arrives_of_scalar {h : HostValue} {v : Value} (same : h.scalar? = some v) :
    h.Arrives s := by
  intro t _
  have scalar : v.identity? = none := by
    cases h <;> cases same <;> rfl
  have returns : h.arrive = pure v := by
    cases h <;> cases same <;> rfl
  rw [returns]
  exact Op.ensures_pure fun _ => has_of_scalar scalar

theorem ensures_arriveItems {items : List HostValue} (each : ∀ item ∈ items, item.Arrives s) :
    (arriveItems items).Ensures s fun values t => ∀ v ∈ values, t.Has v := by
  induction items generalizing s with
  | nil => exact Op.ensures_pure fun _ v isValue => by cases isValue
  | cons item rest ih =>
    refine (each item List.mem_cons_self s (.refl s)).bind fun v t evolved has => ?_
    refine (ih fun other isRest => (each other (List.mem_cons_of_mem _ isRest)).later evolved).bind
      fun values u later all => Op.ensures_pure fun _ w isValue => ?_
    rcases List.mem_cons.1 isValue with rfl | isOther
    · exact later.has has
    · exact all w isOther

theorem ensures_arriveEntries (dict : Ref) {entries : List (String × HostValue)}
    (each : ∀ entry ∈ entries, entry.2.Arrives s) :
    (arriveEntries dict entries).Ensures s fun _ _ => True := by
  induction entries generalizing s with
  | nil => exact Op.ensures_pure fun _ => trivial
  | cons entry rest ih =>
    refine (each entry List.mem_cons_self s (.refl s)).bind fun v t evolved has => ?_
    refine (Dict.ensures_insert dict (has_of_scalar rfl) has).bind fun _ u later _ => ?_
    exact ih fun other isRest =>
      (each other (List.mem_cons_of_mem _ isRest)).later (evolved.trans later)

theorem ensures_arrivePairs (dict : Ref) {entries : List (HostValue × HostValue)}
    (keys : ∀ entry ∈ entries, entry.1.Arrives s) (values : ∀ entry ∈ entries, entry.2.Arrives s) :
    (arrivePairs dict entries).Ensures s fun _ _ => True := by
  induction entries generalizing s with
  | nil => exact Op.ensures_pure fun _ => trivial
  | cons entry rest ih =>
    refine (keys entry List.mem_cons_self s (.refl s)).bind fun k t first hasKey => ?_
    refine (values entry List.mem_cons_self t first).bind fun v u next hasValue => ?_
    refine (Dict.ensures_insert dict (next.has hasKey) hasValue).bind fun _ w later _ => ?_
    have evolved := (first.trans next).trans later
    exact ih (fun other isRest => (keys other (List.mem_cons_of_mem _ isRest)).later evolved)
      fun other isRest => (values other (List.mem_cons_of_mem _ isRest)).later evolved

theorem Rooted.arrives {h : HostValue} (rooted : h.Rooted s) : h.Arrives s := by
  induction rooted with
  | scalar same => exact arrives_of_scalar same
  | list _ ih =>
    intro t evolved
    exact (ensures_arriveItems fun item isItem => (ih item isItem).later evolved).bind
      fun _ _ _ has => ValueList.ensures_new has
  | map _ ih =>
    intro t evolved
    refine Dict.ensures_alloc.bind fun dict u first isLast => ?_
    refine (ensures_arriveEntries dict fun entry isEntry =>
      (ih entry isEntry).later (evolved.trans first)).bind fun _ w next _ => ?_
    exact Op.ensures_pure fun _ => next.has (has_object.2 isLast.lt_size)
  | pairs _ _ ihKeys ihValues =>
    intro t evolved
    refine Dict.ensures_alloc.bind fun dict u first isLast => ?_
    have later := evolved.trans first
    refine (ensures_arrivePairs dict (fun entry isEntry => (ihKeys entry isEntry).later later)
      fun entry isEntry => (ihValues entry isEntry).later later).bind fun _ w next _ => ?_
    exact Op.ensures_pure fun _ => next.has (has_object.2 isLast.lt_size)
  | @native handle has =>
    intro t evolved
    unfold arrive Op.arriveNative
    cases nil : handle.isNil with
    | true => exact Op.ensures_throw _
    | false =>
      cases presentation : handle.presentation with
      | some result =>
        cases result with
        | ok v => exact Op.ensures_pure fun _ => evolved.has (has v presentation)
        | error message => exact Op.ensures_throw _
      | none =>
        cases proxied : handle.proxied with
        | true => exact Op.ensures_new trivial fun v held => by cases held
        | false => exact Op.ensures_throw _

theorem mem_insert {α : Type} {name : String} {value : α} {map : List (String × α)}
    {entry : String × α} (h : entry ∈ TextMap.insert name value map) :
    entry = (name, value) ∨ entry ∈ map := by
  induction map with
  | nil => exact .inl (List.mem_singleton.1 h)
  | cons other rest ih =>
    rw [TextMap.insert] at h
    split at h
    · exact (List.mem_cons.1 h).imp id (List.mem_cons_of_mem _)
    · split at h
      · exact List.mem_cons.1 h
      · rcases List.mem_cons.1 h with rfl | isRest
        · exact .inr List.mem_cons_self
        · exact (ih isRest).imp id (List.mem_cons_of_mem _)

theorem mem_ofList {α : Type} {entries : List (String × α)} {entry : String × α}
    (h : entry ∈ TextMap.ofList entries) : entry ∈ entries := by
  suffices ∀ map : List (String × α),
      entry ∈ entries.foldl (fun map e => TextMap.insert e.1 e.2 map) map →
        entry ∈ map ∨ entry ∈ entries from (this [] h).resolve_left List.not_mem_nil
  clear h
  induction entries with
  | nil => exact fun map h => .inl h
  | cons first rest ih =>
    intro map h
    rcases ih _ h with here | isRest
    · rcases mem_insert here with rfl | old
      · exact .inr List.mem_cons_self
      · exact .inl old
    · exact .inr (List.mem_cons_of_mem _ isRest)

theorem rooted_ofInt (i : Int) : (ofInt i).Rooted s := .scalar (scalar?_ofInt i)

mutual

/-- What is read from a JSON tree has no handles. -/
theorem rooted_ofJson (s : Store) : (tree : Json) → (ofJson tree).Rooted s
  | .null => .scalar rfl
  | .bool _ => .scalar rfl
  | .number n => by
    rw [ofJson]
    split
    · exact rooted_ofInt _
    · exact .scalar rfl
  | .string _ => .scalar rfl
  | .array items => .list (rooted_ofJsonItems s items)
  | .object members => .map fun entry isEntry =>
    rooted_ofJsonMembers s members entry (mem_ofList isEntry)

theorem rooted_ofJsonItems (s : Store) :
    (items : List Json) → ∀ item ∈ ofJsonItems items, item.Rooted s
  | [], _, isItem => by cases isItem
  | first :: rest, item, isItem => by
    rcases List.mem_cons.1 isItem with rfl | isRest
    · exact rooted_ofJson s first
    · exact rooted_ofJsonItems s rest item isRest

theorem rooted_ofJsonMembers (s : Store) :
    (members : List (String × Json)) → ∀ entry ∈ ofJsonMembers members, entry.2.Rooted s
  | [], _, isEntry => by cases isEntry
  | (_, first) :: rest, entry, isEntry => by
    rcases List.mem_cons.1 isEntry with rfl | isRest
    · exact rooted_ofJson s first
    · exact rooted_ofJsonMembers s rest entry isRest

end

end HostValue

/-- A value that is taken for a reference is that reference. -/
theorem eq_object_of_unpackCell {shape : Shape} {test : Cell → Bool} {v : Value} {ref : Ref}
    (h : s.unpackCell shape test v = .ok ref) : v = .object ref := by
  cases v with
  | object other =>
    by_cases passes : test (s.cell other) = true
    · rw [unpackCell, if_pos passes] at h
      exact congrArg Value.object (Except.ok.inj h)
    · rw [unpackCell, if_neg passes] at h
      cases h
  | nothing | bool | int | float | string | bytes | time => cases h

namespace Op

theorem ensures_ofExcept {α : Type} (result : Except Fault α) :
    (ofExcept result).Ensures s fun a t => t = s ∧ result = .ok a := by
  cases result with
  | ok a => exact ensures_pure fun _ => ⟨rfl, rfl⟩
  | error fault => exact ensures_throw fault

theorem ensures_fromJsonText (text : String) : (fromJsonText text).Ensures s fun v t => t.Has v := by
  unfold fromJsonText
  split
  · exact (HostValue.rooted_ofJson s _).arrives s (.refl s)
  · exact ensures_throw _

theorem ensures_dictFromJsonText (text : String) :
    (dictFromJsonText text).Ensures s fun dict t => t.Has (.object dict) := by
  refine (ensures_fromJsonText text).bind fun v t _ has => ?_
  refine ensures_get.bind fun u t' _ ⟨same, same'⟩ => ?_
  subst same same'
  split
  · next dict found =>
    refine ensures_pure fun _ => ?_
    rwa [eq_object_of_unpackCell found] at has
  · exact ensures_throw _

end Op

end Interchange
