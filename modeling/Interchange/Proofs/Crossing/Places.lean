import Interchange.Proofs.Json.Source
import Interchange.Proofs.Mapping.Loading

/-!
# Places in a tree and in what it is read as

A place is where a way leads that goes into lists by an index and into objects by a name
(`Json.follow`). A tree that stands in a text, its host form and the value that it is read as have the
same places; the host form of a part is at its place (`IsSource.follow_ofJson`), and what the value has
there mirrors it (`Mirrors.follows`).
-/

namespace Interchange

/-- A step into a container. -/
inductive Json.Inward where
  | item (index : Nat)
  | member (name : String)

open Json (Inward Source)

/-- What a way leads to, step by step. -/
def Json.follow {α : Type} (child? : α → Inward → Option α) : List Inward → α → Option α
  | [], a => some a
  | step :: rest, a => (child? a step).bind (follow child? rest)

def Json.child? : Json → Inward → Option Json
  | .array items, .item index => items[index]?
  | .object members, .member name => members.lookup name
  | _, _ => none

def HostValue.child? : HostValue → Inward → Option HostValue
  | .list items, .item index => items[index]?
  | .map entries, .member name => entries.lookup name
  | _, _ => none

/-- An element of a list, or the value that a dict has under a text. -/
def Store.child? (s : Store) : Value → Inward → Option Value
  | .object ref, step =>
    match s.cell ref, step with
    | .list items _, .item index => items[index]?
    | .dict entries _, .member name => s.lookup? (.string name) entries
    | _, _ => none
  | _, _ => none

/-- What is related has the same steps, and these lead to what is related again. -/
theorem Json.follow_rel {α β : Type} {R : α → β → Prop} {child? : α → Inward → Option α}
    {child?' : β → Inward → Option β}
    (related : ∀ {a b}, R a b → ∀ step, Option.Rel R (child? a step) (child?' b step))
    (way : List Inward) {a : α} {b : β} (here : R a b) :
    Option.Rel R (follow child? way a) (follow child?' way b) := by
  induction way generalizing a b with
  | nil => exact .some here
  | cons step rest ih =>
    have next := related here step
    rw [follow, follow]
    generalize child? a step = a' at next
    generalize child?' b step = b' at next
    cases next with
    | none => exact .none
    | some there => exact ih there

namespace Json

variable {depth : Nat} {tree : Json} {text rest : List Char} {α : Type}
  {Element : α → List Char → List Char → Prop} {as : List α} {close : Char} {first : Bool}

theorem Listed.element (listed : Listed close Element first as text rest) :
    ∀ a ∈ as, ∃ text rest, Element a text rest := by
  induction listed with
  | close => nofun
  | first element _ ih => exact List.forall_mem_cons.2 ⟨⟨_, _, element⟩, ih⟩
  | next _ element _ ih => exact List.forall_mem_cons.2 ⟨⟨_, _, element⟩, ih⟩

/-- The tree stands in some text. -/
def IsSource (tree : Json) : Prop := ∃ depth text rest, Source depth tree text rest

theorem StandsIn.isSource {text : String} (stands : tree.StandsIn text) : tree.IsSource := by
  obtain ⟨rest, source, -⟩ := stands
  exact ⟨_, _, _, source⟩

/-- What is inside a tree that stands in a text stands in it, too. -/
theorem IsSource.child? (isSource : tree.IsSource) {step : Inward} {part : Json}
    (found : tree.child? step = some part) : part.IsSource := by
  obtain ⟨depth, text, rest, source⟩ := isSource
  have leaf {text rest : List Char} (leaf : LeafSource tree text rest) : part.IsSource := by
    cases leaf <;> cases found
  cases depth with
  | zero => exact leaf source
  | succ depth =>
    cases source with
    | leaf isLeaf => exact leaf isLeaf
    | number => cases found
    | array _ inside =>
      cases step with
      | item index =>
        obtain ⟨text, rest, source⟩ := inside.element part (List.mem_of_getElem? found)
        exact ⟨depth, text, rest, source⟩
      | member => cases found
    | object _ inside =>
      cases step with
      | item => cases found
      | member name =>
        have isMember := HostValue.mem_ofList (Store.mem_of_lookup found)
        obtain ⟨_, _, member⟩ := inside.element _ isMember
        cases member with
        | mk _ _ value => exact ⟨depth, _, _, value⟩

/-- In a text, numbers are as they are written. -/
theorem IsSource.written {n : Number} (isSource : (Json.number n).IsSource) :
    ∃ numeral, n = .written numeral := by
  obtain ⟨depth, text, rest, source⟩ := isSource
  cases depth with
  | zero =>
    cases source with
    | number => exact ⟨_, rfl⟩
  | succ depth =>
    cases source with
    | leaf leaf =>
      cases leaf with
      | number => exact ⟨_, rfl⟩
    | number => exact ⟨_, rfl⟩

/-- The names of an object are in order. -/
theorem IsSource.ascending {members : List (String × Json)}
    (isSource : (Json.object members).IsSource) : (members.map Prod.fst).Pairwise (· < ·) := by
  obtain ⟨depth, text, rest, source⟩ := isSource
  cases depth with
  | zero => cases source
  | succ depth =>
    cases source with
    | leaf leaf => cases leaf
    | object => exact TextMap.ascending_ofList _

end Json

/-! ## Places of a tree, of its host form and of a value -/

theorem Json.IsSource.child?_ofJson {tree : Json} (isSource : tree.IsSource) (step : Inward) :
    (HostValue.ofJson tree).child? step = (tree.child? step).map HostValue.ofJson := by
  cases tree with
  | array items =>
    rw [HostValue.ofJson, HostValue.ofJsonItems_eq_map]
    cases step with
    | item index => exact List.getElem?_map ..
    | member => rfl
  | object members =>
    rw [HostValue.ofJson_object_of_ascending isSource.ascending, HostValue.ofJsonMembers_eq_map]
    cases step with
    | item => rfl
    | member name => exact Store.lookup_map_snd HostValue.ofJson members name
  | number n =>
    rw [HostValue.ofJson]
    split
    · rw [HostValue.ofInt]
      split <;> rfl
    · rfl
  | null | bool | string => rfl

theorem Json.IsSource.follow_ofJson {tree : Json} (isSource : tree.IsSource) (way : List Inward) :
    follow HostValue.child? way (.ofJson tree) = (follow Json.child? way tree).map .ofJson := by
  induction way generalizing tree with
  | nil => rfl
  | cons step rest ih =>
    rw [follow, follow, isSource.child?_ofJson]
    cases found : tree.child? step with
    | none => rfl
    | some part => exact ih (isSource.child? found)

namespace Store

variable {s : Store} {h : HostValue} {v : Value}

theorem rel_getElem? {α β : Type} {R : α → β → Prop} {as : List α} {bs : List β}
    (each : List.Forall₂ R as bs) (index : Nat) : Option.Rel R as[index]? bs[index]? := by
  induction each generalizing index with
  | nil => exact .none
  | cons first _ ih =>
    cases index with
    | zero => exact .some first
    | succ index => exact ih index

/-- Where names are distinct, the order of the entries makes no difference. -/
theorem lookup_perm {α : Type} {entries others : List (String × α)} (perm : entries.Perm others)
    (distinct : (others.map Prod.fst).Nodup) (name : String) :
    entries.lookup name = others.lookup name := by
  have distinct' := (perm.map Prod.fst).nodup_iff.2 distinct
  cases found : entries.lookup name with
  | some v => exact (lookup_of_mem distinct (perm.mem_iff.1 (mem_of_lookup found))).symm
  | none =>
    cases found' : others.lookup name with
    | none => rfl
    | some v =>
      rw [lookup_of_mem distinct' (perm.mem_iff.2 (mem_of_lookup found'))] at found
      cases found

/-- What a value has inside mirrors what its image has inside. -/
theorem Mirrors.child? (mirrors : s.Mirrors h v) (step : Inward) :
    Option.Rel s.Mirrors (h.child? step) (s.child? v step) := by
  cases h with
  | map named =>
    obtain ⟨ref, fields, _, inOrder, rfl, cell, each, perm, ascending⟩ := mirrors.of_map
    cases step with
    | item index =>
      have none : s.child? (.object ref) (.item index) = .none := by simp [Store.child?, cell]
      rw [none]
      exact .none
    | member name =>
      have related := rel_lookup each name
      rw [lookup_perm perm (TextMap.distinct_of_ascending ascending)] at related
      have found : s.child? (.object ref) (.member name) = fields.lookup name := by
        simp [Store.child?, cell, lookup?_textEntries]
      rwa [found]
  | list trees =>
    cases mirrors with
    | int narrow => exact (not_ofInt narrow rfl).elim
    | @list ref items _ _ cell length each =>
      cases step with
      | item index =>
        have found : s.child? (.object ref) (.item index) = items[index]? := by
          simp [Store.child?, cell]
        rw [found]
        exact rel_getElem? (List.forall₂_iff_zip.2 ⟨length, fun isPair => each _ isPair⟩) index
      | member name =>
        have none : s.child? (.object ref) (.member name) = .none := by simp [Store.child?, cell]
        rw [none]
        exact .none
  | null | bool | int | wide | float | string | bytes | time | pairs | native =>
    cases mirrors <;> exact .none

/-- A value has at a place what mirrors the tree there, and nothing where the tree has nothing. -/
theorem Mirrors.follows {tree : Json} (mirrors : s.Mirrors (.ofJson tree) v)
    (isSource : tree.IsSource) (way : List Inward) :
    Option.Rel (fun part w => part.IsSource ∧ s.Mirrors (.ofJson part) w)
      (Json.follow Json.child? way tree) (Json.follow s.child? way v) := by
  refine Json.follow_rel (fun {part w} ⟨isSource, mirrors⟩ step => ?_) way ⟨isSource, mirrors⟩
  have inside := mirrors.child? step
  rw [isSource.child?_ofJson] at inside
  generalize s.child? w step = w' at inside ⊢
  cases found : part.child? step with
  | none =>
    rw [found] at inside
    cases inside with
    | none => exact .none
  | some part' =>
    rw [found] at inside
    cases inside with
    | some mirrors => exact .some ⟨isSource.child? found, mirrors⟩

end Store

end Interchange
