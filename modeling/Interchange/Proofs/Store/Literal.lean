import Interchange.Proofs.Script.Members
import Interchange.Proofs.Store.Display
import Interchange.Proofs.Store.Readability

/-!
# Displays of data

`Store.Literal` is data without times, built up part by part, so that it leads to no cycle
(`Literal.not_onCycle`) and has a display (`Literal.display?_ne_none`). That display is a text of
the grammar of `Store.Shown` (`Literal.shown`): no container is displayed inside of itself, so none
is cut short on the way.
-/

namespace Interchange

namespace Store

/-- Data without times: nothing, truth values, numbers, texts and bytes, and lists, tuples, sets and
dicts of data, which lead to no cycle. -/
inductive Literal (s : Store) : Value → Prop
  | scalar {v : Value} (scalar : v.identity? = none) (timeless : ∀ t, v ≠ .time t) : Literal s v
  /-- Lists, tuples and sets. -/
  | sequence {ref : Ref} {items : List Value} (anatomy : s.anatomy ref = .sequence items)
      (each : ∀ item ∈ items, Literal s item) : Literal s (.object ref)
  | dict {ref : Ref} {entries : List (Value × Value)} {frozen : Bool}
      (cell : s.cell ref = .dict entries frozen) (keys : ∀ entry ∈ entries, Literal s entry.1)
      (values : ∀ entry ∈ entries, Literal s entry.2) : Literal s (.object ref)

variable {s : Store} {v w : Value} {ref : Ref} {path : List Ref} {depth : Nat} {text : List Char}

/-! ## What data leads to -/

namespace Literal

/-- What is inside of data is the same for every walk. -/
theorem parts_eq (literal : s.Literal (.object ref)) :
    (s.anatomy ref).parts = (s.cell ref).parts ∧ s.shown (s.cell ref) = (s.cell ref).parts ∧
      shownAfresh (s.cell ref) = [] := by
  cases literal with
  | scalar scalar => cases scalar
  | sequence anatomy =>
    rcases cell_of_sequence anatomy with ⟨_, cell⟩ | cell | ⟨_, cell⟩ <;>
      rw [Store.anatomy, cell] <;> exact ⟨rfl, rfl, rfl⟩
  | dict cell =>
    rw [Store.anatomy, cell]
    exact ⟨rfl, rfl, rfl⟩

theorem part (literal : s.Literal (.object ref)) (isPart : v ∈ (s.cell ref).parts) :
    s.Literal v := by
  cases literal with
  | scalar scalar => cases scalar
  | sequence anatomy each =>
    rw [(parts_of_sequence anatomy).1] at isPart
    exact each v isPart
  | dict cell keys values =>
    rw [cell] at isPart
    obtain ⟨entry, isEntry, rfl | rfl⟩ := mem_entryParts.1 isPart
    · exact keys entry isEntry
    · exact values entry isEntry

theorem not_record (literal : s.Literal (.object ref)) (tag : Value)
    (fields : List (String × Value)) : s.cell ref ≠ .record tag fields := by
  intro cell
  have afresh := literal.parts_eq.2.2
  rw [cell] at afresh
  cases afresh

/-- Data leads to no cycle. -/
theorem not_onCycle (literal : s.Literal v) : ∀ ref, s.Reaches v ref → ¬ s.OnCycle ref := by
  induction literal with
  | scalar scalar =>
    rintro ref ⟨start, rfl, -⟩
    cases scalar
  | sequence anatomy _ ih =>
    refine fun ref => not_onCycle_of_parts fun part isPart => ?_
    rw [anatomy] at isPart
    exact ih part isPart
  | dict cell _ _ ihKeys ihValues =>
    refine fun ref => not_onCycle_of_parts fun part isPart => ?_
    rw [Store.anatomy, cell] at isPart
    obtain ⟨entry, isEntry, rfl | rfl⟩ := mem_entryParts.1 isPart
    · exact ihKeys entry isEntry
    · exact ihValues entry isEntry

/-- No part of data leads back to it. -/
theorem not_reaches (literal : s.Literal (.object ref)) (isPart : v ∈ (s.anatomy ref).parts) :
    ¬ s.Reaches v ref := by
  rintro ⟨start, rfl, back⟩
  exact literal.not_onCycle ref reaches_self (Relation.TransGen.head' isPart back)

theorem tame (has : s.Has v) (literal : s.Literal v) : s.Tame v where
  has := has
  tagged := by
    intro ref tag fields reaches cell
    have reached {u : Value} (reaches : s.ReachesBy Cell.parts v u) : s.Literal u := by
      induction reaches with
      | refl => exact literal
      | tail _ leads ih =>
        obtain ⟨other, rfl, isPart⟩ := leads
        exact ih.part isPart
    exact absurd cell ((reached reaches).not_record tag fields)

/-! ## Displays -/

/-- The display of data comes to data alone. -/
theorem shown_inside (literal : s.Literal v)
    (reaches : Relation.ReflTransGen s.displayWalk.Leads v w) : s.Literal w := by
  induction reaches with
  | refl => exact literal
  | tail _ leads ih =>
    obtain ⟨other, isObject, inside⟩ := leads
    obtain rfl := Value.identity?_eq_some.1 isObject
    obtain ⟨-, shown, afresh⟩ := ih.parts_eq
    rcases inside with isPart | isTag
    · exact ih.part (shown ▸ isPart)
    · have isTag : _ ∈ shownAfresh (s.cell other) := isTag
      rw [afresh] at isTag
      cases isTag

/-- Data has a display. -/
theorem display?_ne_none (literal : s.Literal v) : s.display? v ≠ none := by
  rw [Ne, (display?_outcome s v).2.1]
  rintro ⟨ref, tag, fields, ⟨u, reaches, isNode⟩, cell, -⟩
  obtain rfl := Value.identity?_eq_some.1 isNode
  exact (literal.shown_inside reaches).not_record tag fields cell

end Literal

section Cells

variable {α β : Type} {part tag : Value → Option (List Char)}
  {entriesOf : Ref → List (Value × Value)}

theorem forall₂_of_mapM {f : α → Option β} {items : List α} {results : List β}
    (made : items.mapM f = some results) :
    List.Forall₂ (fun a b => f a = some b) items results := by
  induction items generalizing results with
  | nil =>
    cases made
    exact .nil
  | cons a items ih =>
    rw [List.mapM_cons] at made
    obtain ⟨b, first, made⟩ := Option.bind_eq_some_iff.1 made
    obtain ⟨others, rest, made⟩ := Option.bind_eq_some_iff.1 made
    cases made
    exact .cons first (ih rest)

/-- A sequence is displayed as its elements between its brackets. -/
theorem displayCell_sequence {items : List Value} (anatomy : s.anatomy ref = .sequence items)
    (displayed : displayCell part tag entriesOf (s.cell ref) = some text) :
    ∃ texts, items.mapM part = some texts ∧
      text = openingOf (s.cell ref) ++ (commas texts ++ closingOf (s.cell ref)) := by
  rcases cell_of_sequence anatomy with ⟨_, cell⟩ | cell | ⟨_, cell⟩ <;>
    rw [cell] at displayed ⊢ <;>
    obtain ⟨texts, each, made⟩ := Option.bind_eq_some_iff.1 displayed <;> cases made
  · exact ⟨texts, each, by simp [openingOf, closingOf]⟩
  · exact ⟨texts, each, by simp [openingOf, closingOf]⟩
  · exact ⟨texts, each, by simp [openingOf, closingOf]⟩

/-- An entry is displayed as its key and its value. -/
theorem exists_entryTexts {entries : List (Value × Value)} {rows : List (List Char)}
    (each : List.Forall₂ (fun entry row => (do
      return (← part entry.1) ++ [':', ' '] ++ (← part entry.2)) = some row) entries rows) :
    ∃ texts : List (List Char × List Char),
      List.Forall₂ (fun entry texts => part entry.1 = some texts.1 ∧ part entry.2 = some texts.2)
        entries texts ∧ rows = texts.map entryText := by
  induction each with
  | nil => exact ⟨[], .nil, rfl⟩
  | cons first _ ih =>
    obtain ⟨texts, each, rfl⟩ := ih
    obtain ⟨key, isKey, first⟩ := Option.bind_eq_some_iff.1 first
    obtain ⟨value, isValue, first⟩ := Option.bind_eq_some_iff.1 first
    cases first
    exact ⟨(key, value) :: texts, .cons ⟨isKey, isValue⟩ each, by simp [entryText]⟩

/-- A dict is displayed as its entries between braces. -/
theorem displayDict_some {entries : List (Value × Value)}
    (displayed : displayCell.dict part entries = some text) :
    ∃ texts : List (List Char × List Char),
      List.Forall₂ (fun entry texts => part entry.1 = some texts.1 ∧ part entry.2 = some texts.2)
        entries texts ∧ text = '\x7b' :: (commas (texts.map entryText) ++ ['\x7d']) := by
  obtain ⟨rows, made, same⟩ := Option.bind_eq_some_iff.1 displayed
  obtain ⟨texts, each, rfl⟩ := exists_entryTexts (forall₂_of_mapM made)
  cases same
  exact ⟨texts, each, rfl⟩

end Cells

/-- What is displayed of data inside of other containers is its text in the grammar. -/
theorem Literal.shown (literal : s.Literal v) (outside : ∀ ref ∈ path, ¬ s.Reaches v ref)
    (displayed : s.displayWithin depth path v = some text) : s.Shown v text := by
  -- Parts of a container are inside of it, too, and do not lead back to it.
  have inside {ref : Ref} {path : List Ref} (literal : s.Literal (.object ref))
      (outside : ∀ other ∈ path, ¬ s.Reaches (.object ref) other) {part : Value}
      (isPart : part ∈ (s.anatomy ref).parts) :
      ∀ other ∈ ref :: path, ¬ s.Reaches part other :=
    List.forall_mem_cons.2 ⟨literal.not_reaches isPart, fun other isPath reaches =>
      outside other isPath (reaches.of_part isPart)⟩
  have entered {ref : Ref} {path : List Ref} {depth : Nat} {text : List Char}
      (outside : ∀ other ∈ path, ¬ s.Reaches (.object ref) other)
      (displayed : s.displayWithin depth path (.object ref) = some text) :
      ∃ less, displayCell (s.displayWithin less (ref :: path)) (s.displayWithin less [])
        s.dictEntries (s.cell ref) = some text := by
    have fresh : ref ∉ path := fun isPath => outside ref isPath reaches_self
    cases depth with
    | zero =>
      rw [displayWithin_zero fresh] at displayed
      cases displayed
    | succ less =>
      rw [displayWithin_succ fresh] at displayed
      exact ⟨less, displayed⟩
  induction literal generalizing depth path text with
  | scalar scalar timeless =>
    rw [displayWithin_scalar scalar] at displayed
    cases displayed
    exact .scalar scalar timeless
  | @sequence ref items anatomy each ih =>
    obtain ⟨less, displayed⟩ := entered outside displayed
    obtain ⟨texts, made, rfl⟩ := displayCell_sequence anatomy displayed
    obtain ⟨length, texts⟩ := List.forall₂_iff_zip.1 (forall₂_of_mapM made)
    refine .sequence anatomy length fun pair isPair => ?_
    have isItem := (List.of_mem_zip isPair).1
    refine ih pair.1 isItem (inside (.sequence anatomy each) outside ?_) (texts isPair)
    rw [anatomy]
    exact isItem
  | @dict ref entries frozen cell keys values ihKeys ihValues =>
    obtain ⟨less, displayed⟩ := entered outside displayed
    rw [cell] at displayed
    obtain ⟨texts, each, rfl⟩ := displayDict_some displayed
    obtain ⟨length, texts⟩ := List.forall₂_iff_zip.1 each
    have isPart {part : Value} {entry : Value × Value} (isEntry : entry ∈ entries)
        (either : part = entry.1 ∨ part = entry.2) : part ∈ (s.anatomy ref).parts := by
      rw [Store.anatomy, cell]
      exact mem_entryParts.2 ⟨entry, isEntry, either⟩
    have literal : s.Literal (.object ref) := .dict cell keys values
    refine .dict cell length (fun pair isPair => ?_) fun pair isPair => ?_
    · have isEntry := (List.of_mem_zip isPair).1
      exact ihKeys pair.1 isEntry (inside literal outside (isPart isEntry (.inl rfl)))
        (texts isPair).1
    · have isEntry := (List.of_mem_zip isPair).1
      exact ihValues pair.1 isEntry (inside literal outside (isPart isEntry (.inr rfl)))
        (texts isPair).2

end Store
end Interchange
