import Interchange.Proofs.History
import Interchange.Proofs.Store.Walk
import Interchange.Store.Display

/-!
# Displays that end

The display of a value carries the containers that it is inside of, and elides one that it meets
again; but it displays the tag of a record on a walk of its own. So it has no end exactly when it
comes to a record whose tag leads back to that record (`display?_outcome`): each time, the record is
entered again, since the walk through its tag is inside of nothing.

A display that goes through a record in its tag ends with less depth (`exists_less_of_route`). The
route by which it comes there is a shortest one, since a longer one may be elided.
-/

namespace Interchange.Store

section Cells

variable {α β γ : Type} {s : Store} {c : Cell} {part tag part' tag' : Value → Option (List Char)}
  {entries : List (Value × Value)}

/-- What is displayed inside of a cell: elements, keys and values, the fields of a record, and what an
extension holds. A mapping shows its dict. -/
def shown (s : Store) : Cell → List Value
  | .list items _ => items
  | .tuple items => items
  | .set items _ => items
  | .dict entries _ => entryParts entries
  | .record _ fields => fields.map Prod.snd
  | .mapping _ dict _ => entryParts (s.dictEntries dict)
  | .extension e => e.contents.toList
  | _ => []

/-- The tag of a record is displayed on a walk of its own. -/
def shownAfresh : Cell → List Value
  | .record tag _ => [tag]
  | _ => []

theorem mapM_eq_none_iff {f : α → Option β} {items : List α} :
    items.mapM f = none ↔ ∃ a ∈ items, f a = none := by
  induction items with
  | nil => exact ⟨nofun, fun ⟨a, isItem, _⟩ => absurd isItem List.not_mem_nil⟩
  | cons a rest ih =>
    rw [List.mapM_cons, List.exists_mem_cons_iff, ← ih]
    cases f a <;> cases rest.mapM f <;> simp

theorem mapM_congr {f g : α → Option β} {items : List α} (same : ∀ a ∈ items, f a = g a) :
    items.mapM f = items.mapM g := by
  induction items with
  | nil => rfl
  | cons a rest ih =>
    obtain ⟨same, others⟩ := List.forall_mem_cons.1 same
    rw [List.mapM_cons, List.mapM_cons, same, ih others]

theorem bind_some_eq_none_iff {o : Option α} {f : α → β} :
    (o >>= fun a => some (f a)) = none ↔ o = none := by
  cases o <;> simp

theorem bind_both_eq_none_iff {o : Option α} {p : Option β} {f : α → β → γ} :
    (o >>= fun a => p >>= fun b => some (f a b)) = none ↔ o = none ∨ p = none := by
  cases o <;> cases p <;> simp

theorem displayDict_eq_none_iff :
    displayCell.dict part entries = none ↔ ∃ v ∈ entryParts entries, part v = none := by
  refine bind_some_eq_none_iff.trans (mapM_eq_none_iff.trans ⟨?_, ?_⟩)
  · rintro ⟨⟨key, value⟩, isEntry, none⟩
    rcases bind_both_eq_none_iff.1 none with none | none
    · exact ⟨key, mem_entryParts.2 ⟨_, isEntry, .inl rfl⟩, none⟩
    · exact ⟨value, mem_entryParts.2 ⟨_, isEntry, .inr rfl⟩, none⟩
  · rintro ⟨v, isPart, none⟩
    obtain ⟨⟨key, value⟩, isEntry, same⟩ := mem_entryParts.1 isPart
    refine ⟨_, isEntry, bind_both_eq_none_iff.2 ?_⟩
    rcases same with rfl | rfl
    · exact .inl none
    · exact .inr none

theorem displayFields_eq_none_iff {fields : List (String × Value)} :
    fields.mapM (fun field => do return field.1.toList ++ [' ', '=', ' '] ++ (← part field.2)) =
      none ↔ ∃ v ∈ fields.map Prod.snd, part v = none := by
  refine mapM_eq_none_iff.trans ⟨?_, ?_⟩
  · rintro ⟨field, isField, none⟩
    exact ⟨field.2, List.mem_map_of_mem isField, bind_some_eq_none_iff.1 none⟩
  · rintro ⟨v, isPart, none⟩
    obtain ⟨field, isField, rfl⟩ := List.mem_map.1 isPart
    exact ⟨field, isField, bind_some_eq_none_iff.2 none⟩

/-- A cell has no display when something in it has none. -/
theorem displayCell_eq_none_iff (strings : ∀ text, tag (.string text) ≠ none) :
    displayCell part tag s.dictEntries c = none ↔
      (∃ v ∈ s.shown c, part v = none) ∨ ∃ v ∈ shownAfresh c, tag v = none := by
  have alone {values : List Value} : (∃ v ∈ values, part v = none) ∨
      (∃ v ∈ ([] : List Value), tag v = none) ↔ ∃ v ∈ values, part v = none :=
    or_iff_left fun ⟨_, isPart, _⟩ => List.not_mem_nil isPart
  cases c with
  | list | tuple | set => exact (bind_some_eq_none_iff.trans mapM_eq_none_iff).trans alone.symm
  | dict => exact displayDict_eq_none_iff.trans alone.symm
  | mapping => exact (bind_some_eq_none_iff.trans displayDict_eq_none_iff).trans alone.symm
  | record constructor fields =>
    have tag_iff : (∃ v ∈ [constructor], tag v = none) ↔ tag constructor = none := by simp
    rw [shown, shownAfresh, tag_iff, ← displayFields_eq_none_iff, or_comm]
    cases constructor with
    | string text => exact bind_some_eq_none_iff.trans (or_iff_right (strings text)).symm
    | _ => exact bind_both_eq_none_iff
  | extension e =>
    refine Iff.trans ?_ alone.symm
    rw [displayCell, shown]
    cases e.contents with
    | none => exact ⟨nofun, fun ⟨_, isPart, _⟩ => absurd isPart List.not_mem_nil⟩
    | some contents =>
      refine bind_some_eq_none_iff.trans ?_
      rw [Option.toList_some, List.exists_mem_cons_iff, or_iff_left]
      exact fun ⟨_, isPart, _⟩ => List.not_mem_nil isPart
  | module | function | proxy =>
    refine ⟨nofun, fun none => ?_⟩
    rcases none with ⟨_, isPart, _⟩ | ⟨_, isPart, _⟩ <;> cases isPart

theorem displayDict_congr (same : ∀ v ∈ entryParts entries, part v = part' v) :
    displayCell.dict part entries = displayCell.dict part' entries := by
  rw [displayCell.dict, displayCell.dict, mapM_congr fun entry isEntry => ?_]
  rw [same entry.1 (mem_entryParts.2 ⟨entry, isEntry, .inl rfl⟩),
    same entry.2 (mem_entryParts.2 ⟨entry, isEntry, .inr rfl⟩)]

/-- The display of a cell depends only on that of what is in it. -/
theorem displayCell_congr (same : ∀ v ∈ s.shown c, part v = part' v)
    (sameTag : ∀ v ∈ shownAfresh c, tag v = tag' v) :
    displayCell part tag s.dictEntries c = displayCell part' tag' s.dictEntries c := by
  cases c with
  | list items | set items | tuple items =>
    have same : ∀ v ∈ items, part v = part' v := same
    rw [displayCell, displayCell, mapM_congr same]
  | dict => exact displayDict_congr same
  | mapping => rw [displayCell, displayCell, displayDict_congr same]
  | record constructor fields =>
    have sameFields : fields.mapM (fun field => do
        return field.1.toList ++ [' ', '=', ' '] ++ (← part field.2)) =
        fields.mapM fun field => do
          return field.1.toList ++ [' ', '=', ' '] ++ (← part' field.2) :=
      mapM_congr fun field isField => by rw [same _ (List.mem_map_of_mem isField)]
    cases constructor with
    | string text => rw [displayCell, displayCell, sameFields]
    | _ =>
      rw [displayCell, displayCell, sameFields, sameTag _ List.mem_cons_self]
      all_goals exact nofun
  | extension e =>
    rw [displayCell, displayCell]
    cases found : e.contents with
    | none => rfl
    | some contents =>
      have same := same contents (Option.mem_toList.2 found)
      simp only [same]
  | module | function | proxy => rfl

end Cells

variable {s : Store} {v w : Value} {ref : Ref} {depth n m : Nat} {path : List Ref}

/-- The display of a value: it goes into objects, and starts afresh for tags. -/
def displayWalk (s : Store) : Walk Value Ref where
  node? := Value.identity?
  inward ref v := v ∈ s.shown (s.cell ref)
  afresh ref v := v ∈ shownAfresh (s.cell ref)

theorem displayWalk_afresh_iff {tag : Value} :
    s.displayWalk.afresh ref tag ↔ ∃ fields, s.cell ref = .record tag fields := by
  change tag ∈ shownAfresh (s.cell ref) ↔ _
  cases s.cell ref with
  | record constructor fields => simp [shownAfresh, eq_comm]
  | _ => simp [shownAfresh]

theorem displayWithin_scalar (scalar : v.identity? = none) :
    s.displayWithin depth path v = some (displayScalar v) := by
  cases v with
  | object ref => cases scalar
  | _ =>
    unfold displayWithin
    rfl

theorem displayWithin_met (met : ref ∈ path) :
    s.displayWithin depth path (.object ref) = some (elided (s.cell ref)).toList := by
  cases depth <;> rw [displayWithin, if_pos (List.contains_iff_mem.2 met)]

theorem displayWithin_zero (fresh : ref ∉ path) : s.displayWithin 0 path (.object ref) = none := by
  rw [displayWithin, if_neg fun met => fresh (List.contains_iff_mem.1 met)]

theorem displayWithin_succ (fresh : ref ∉ path) : s.displayWithin (depth + 1) path (.object ref) =
    displayCell (s.displayWithin depth (ref :: path)) (s.displayWithin depth []) s.dictEntries
      (s.cell ref) := by
  rw [displayWithin, if_neg fun met => fresh (List.contains_iff_mem.1 met)]

/-- The display of an object has no end where something in it has none. -/
theorem displayWithin_succ_eq_none_iff (fresh : ref ∉ path) :
    s.displayWithin (depth + 1) path (.object ref) = none ↔
      (∃ v, s.displayWalk.inward ref v ∧ s.displayWithin depth (ref :: path) v = none) ∨
      ∃ v, s.displayWalk.afresh ref v ∧ s.displayWithin depth [] v = none := by
  rw [displayWithin_succ fresh]
  refine displayCell_eq_none_iff fun text => ?_
  rw [displayWithin_scalar rfl]
  exact Option.some_ne_none _

/-- A display that ends is the same with more depth. -/
theorem displayWithin_mono (more : Nat) (ends : s.displayWithin depth path v ≠ none) :
    s.displayWithin (depth + more) path v = s.displayWithin depth path v := by
  induction depth generalizing path v with
  | zero =>
    cases v with
    | object ref =>
      by_cases met : ref ∈ path
      · rw [displayWithin_met met, displayWithin_met met]
      · exact absurd (displayWithin_zero met) ends
    | _ => rw [displayWithin_scalar rfl, displayWithin_scalar rfl]
  | succ depth ih =>
    rw [Nat.succ_add]
    cases v with
    | object ref =>
      by_cases met : ref ∈ path
      · rw [displayWithin_met met, displayWithin_met met]
      · rw [Ne, displayWithin_succ_eq_none_iff met, not_or, not_exists, not_exists] at ends
        rw [displayWithin_succ met, displayWithin_succ met]
        exact displayCell_congr (fun v isPart => ih fun none => ends.1 v ⟨isPart, none⟩)
          fun v isTag => ih fun none => ends.2 v ⟨isTag, none⟩
    | _ => rw [displayWithin_scalar rfl, displayWithin_scalar rfl]

/-! ## Displays that lead straight away from tags -/

theorem displayWalk_few (refs : List Ref) (once : refs.Nodup)
    (opens : ∀ ref ∈ refs, s.displayWalk.Opens ref) : refs.length ≤ s.size := by
  refine length_le_size once fun ref isRef => ?_
  by_contra outside
  have nothing := cell_of_size_le (Nat.not_lt.1 outside)
  obtain ⟨v, isPart | isTag⟩ := opens ref isRef
  · have isPart : v ∈ s.shown (s.cell ref) := isPart
    rw [nothing] at isPart
    cases isPart
  · have isTag : v ∈ shownAfresh (s.cell ref) := isTag
    rw [nothing] at isTag
    cases isTag

theorem displayWalk_runs : s.displayWalk.Runs
    (fun depth path v => s.displayWithin depth path v ≠ none) s.size where
  leaf := fun scalar => by
    rw [displayWithin_scalar scalar]
    exact Option.some_ne_none _
  node := fun {depth path v ref} isNode inward afresh => by
    obtain rfl := Value.identity?_eq_some.1 isNode
    by_cases met : ref ∈ path
    · rw [displayWithin_met met]
      exact Option.some_ne_none _
    · rw [Ne, displayWithin_succ_eq_none_iff met]
      rintro (⟨v, isPart, none⟩ | ⟨v, isTag, none⟩)
      · exact inward met v isPart none
      · exact afresh v isTag none
  few := displayWalk_few

/-! ## Displays that come back through a tag -/

/-- There is a route of at most so many steps from the value to the cell, through no tag. -/
inductive Route (s : Store) (target : Ref) : Nat → Value → Prop
  | here {n : Nat} : Route s target n (.object target)
  | step {n : Nat} {ref : Ref} {v : Value} (inward : s.displayWalk.inward ref v)
      (rest : Route s target n v) : Route s target (n + 1) (.object ref)

theorem Route.mono {target : Ref} (route : s.Route target n v) (le : n ≤ m) :
    s.Route target m v := by
  induction route generalizing m with
  | here => exact .here
  | step inward _ ih =>
    obtain ⟨m, rfl⟩ := Nat.exists_eq_succ_of_ne_zero (Nat.ne_of_gt (Nat.lt_of_lt_of_le
      (Nat.succ_pos _) le))
    exact .step inward (ih (Nat.le_of_succ_le_succ le))

/-- A display that ends, and is inside of nothing that is as close to a record as its value, displays
the tag of the record with less depth. -/
theorem exists_less_of_route {target : Ref} (route : s.Route target n v)
    (far : ∀ ref ∈ path, ¬ s.Route target n (.object ref)) (isTag : s.displayWalk.afresh target w)
    (ends : s.displayWithin depth path v ≠ none) :
    ∃ less < depth, s.displayWithin less [] w ≠ none := by
  induction n generalizing depth path v with
  | zero =>
    cases route with
    | here =>
      have fresh : target ∉ path := fun isPath => far target isPath .here
      cases depth with
      | zero => exact absurd (displayWithin_zero fresh) ends
      | succ depth =>
        rw [Ne, displayWithin_succ_eq_none_iff fresh, not_or, not_exists, not_exists] at ends
        exact ⟨depth, Nat.lt_succ_self depth, fun none => ends.2 w ⟨isTag, none⟩⟩
  | succ n ih =>
    by_cases near : s.Route target n v
    · exact ih near (fun ref isPath route => far ref isPath (route.mono (Nat.le_succ n))) ends
    · cases route with
      | here => exact absurd .here near
      | @step _ ref u inward rest =>
        have fresh : ref ∉ path := fun isPath => far ref isPath (.step inward rest)
        cases depth with
        | zero => exact absurd (displayWithin_zero fresh) ends
        | succ depth =>
          rw [Ne, displayWithin_succ_eq_none_iff fresh, not_or, not_exists, not_exists] at ends
          have farther : ∀ other ∈ ref :: path, ¬ s.Route target n (.object other) :=
            List.forall_mem_cons.2 ⟨near, fun other isPath route =>
              far other isPath (route.mono (Nat.le_succ n))⟩
          obtain ⟨less, lt, ends⟩ := ih rest farther fun none => ends.1 u ⟨inward, none⟩
          exact ⟨less, Nat.lt_succ_of_lt lt, ends⟩

/-- On the way to a record whose tag leads back to it, a record is the first that is left through its
tag: that record itself at the latest. -/
theorem exists_route_of_comesTo {target : Ref} (isTag : s.displayWalk.afresh target w)
    (back : s.displayWalk.ComesTo w target) (comes : s.displayWalk.ComesTo v target) :
    ∃ n ref u, s.Route ref n v ∧ s.displayWalk.afresh ref u ∧ s.displayWalk.ComesTo u target := by
  obtain ⟨u, reaches, isNode⟩ := comes
  induction reaches using Relation.ReflTransGen.head_induction_on with
  | refl =>
    obtain rfl := Value.identity?_eq_some.1 isNode
    exact ⟨0, target, w, .here, isTag, back⟩
  | @head v next leads reaches ih =>
    obtain ⟨ref, isObject, isPart | isAfresh⟩ := leads
    · obtain rfl := Value.identity?_eq_some.1 isObject
      obtain ⟨n, other, u, route, isTag, comes⟩ := ih
      exact ⟨n + 1, other, u, .step isPart route, isTag, comes⟩
    · obtain rfl := Value.identity?_eq_some.1 isObject
      exact ⟨0, ref, next, .here, isAfresh, _, reaches, isNode⟩

/-- A display does not end that comes to a record that its tag leads back to. -/
theorem displayWithin_eq_none {target : Ref} (isTag : s.displayWalk.afresh target w)
    (back : s.displayWalk.ComesTo w target) (comes : s.displayWalk.ComesTo v target) :
    s.displayWithin depth [] v = none := by
  induction depth using Nat.strong_induction_on generalizing v with
  | _ depth ih =>
    by_contra ends
    obtain ⟨n, ref, u, route, isAfresh, comes⟩ := exists_route_of_comesTo isTag back comes
    obtain ⟨less, lt, ends⟩ := exists_less_of_route route
      (fun _ isPath => absurd isPath List.not_mem_nil) isAfresh ends
    exact ends (ih less lt comes)

/-- A display ends at the bound when it ends at all. -/
theorem display?_eq_none_iff : s.display? v = none ↔ ¬ s.displayWalk.Straight v := by
  rw [display?, Option.map_eq_none_iff]
  constructor
  · exact fun none straight => straight.ends displayWalk_runs none
  · intro crooked
    obtain ⟨ref, tag, comes, isTag, back⟩ := Walk.not_straight_iff.1 crooked
    exact displayWithin_eq_none isTag back comes

theorem displayWithin_bound {text : List Char} (found : s.displayWithin depth [] v = some text) :
    s.displayWithin s.displayBound [] v = some text := by
  have ends : s.displayWithin s.displayBound [] v ≠ none := fun none => by
    have crooked := display?_eq_none_iff.1 (Option.map_eq_none_iff.2 none)
    obtain ⟨ref, tag, comes, isTag, back⟩ := Walk.not_straight_iff.1 crooked
    rw [displayWithin_eq_none isTag back comes] at found
    cases found
  have more : s.displayWithin (depth + s.displayBound) [] v = some text := by
    rw [displayWithin_mono _ (by simp [found]), found]
  rw [← displayWithin_mono depth ends, Nat.add_comm, more]

/-- A value has the display that a walk of any depth finds for it. It has none exactly when it leads
to a record that its own tag leads back to; and only then it has no text. -/
theorem display?_outcome (s : Store) (v : Value) :
    (∀ text : String, s.display? v = some text ↔
      ∃ depth, s.displayWithin depth [] v = some text.toList) ∧
    (s.display? v = none ↔ ∃ ref tag fields, s.displayWalk.ComesTo v ref ∧
      s.cell ref = .record tag fields ∧ s.displayWalk.ComesTo tag ref) ∧
    (s.text? v = none ↔ s.display? v = none) := by
  refine ⟨fun text => ⟨fun found => ?_, fun ⟨depth, found⟩ => ?_⟩, ?_, ?_⟩
  · obtain ⟨chars, found', rfl⟩ := Option.map_eq_some_iff.1 found
    exact ⟨s.displayBound, by rw [String.toList_ofList, found']⟩
  · rw [display?, displayWithin_bound found, Option.map_some, String.ofList_toList]
  · rw [display?_eq_none_iff, Walk.not_straight_iff]
    simp only [displayWalk_afresh_iff]
    exact ⟨fun ⟨ref, tag, comes, ⟨fields, cell⟩, back⟩ => ⟨ref, tag, fields, comes, cell, back⟩,
      fun ⟨ref, tag, fields, comes, cell, back⟩ => ⟨ref, tag, comes, ⟨fields, cell⟩, back⟩⟩
  · cases v with
    | string text =>
      rw [text?, display?, displayWithin_scalar rfl]
      exact ⟨nofun, nofun⟩
    | _ => rfl

/-- A record that is tagged by a list which holds it. -/
def titled : Store := empty.after
  [.newList [], .newRecord (.object ⟨0⟩) [], .push ⟨0⟩ (.object ⟨1⟩)]

theorem reachable_titled : titled.Reachable :=
  reachable_empty.after ⟨⟨nofun, nofun⟩, ⟨by decide, nofun⟩, ⟨by decide, nofun⟩, trivial⟩

/-- The list has no display in any depth. -/
theorem endless_titled : titled.Reachable ∧ titled.Has (.object ⟨0⟩) ∧
    titled.display? (.object ⟨0⟩) = none ∧
    ∀ depth, titled.displayWithin depth [] (.object ⟨0⟩) = none := by
  have inTag : titled.displayWalk.Leads (.object ⟨0⟩) (.object ⟨1⟩) :=
    ⟨⟨0⟩, rfl, .inl List.mem_cons_self⟩
  have comes : titled.displayWalk.ComesTo (.object ⟨0⟩) ⟨1⟩ := .head inTag (.here rfl)
  have isTag : titled.displayWalk.afresh ⟨1⟩ (.object ⟨0⟩) := List.mem_cons_self
  have none (depth : Nat) : titled.displayWithin depth [] (.object ⟨0⟩) = none :=
    displayWithin_eq_none isTag comes comes
  exact ⟨reachable_titled, by decide, Option.map_eq_none_iff.2 (none _), none⟩

end Interchange.Store
