import Interchange.Proofs.Crossing.Listing
import Interchange.Proofs.Store.ScalarText

/-!
# Displays tell what is displayed

`Store.Shown` is the grammar of displays of data: a scalar has a word, a text or bytes, and a
container has what is displayed of its parts between brackets of its own. Two values of the same
text are replicas of each other: the same scalar, or containers of one kind with replicas as parts,
in the same order (`Shown.inj`). For that, a text need not end where the display does; it is enough
that something follows that may follow a part. No part begins with what closes a container, and what
closes one is never taken for a separator, not even the comma behind the only element of a tuple.
-/

namespace Interchange.Store

variable {s : Store} {v w : Value} {rest rest' text text' : List Char}

/-! ## Parts in a row -/

section Rows

variable {α : Type} {Shows : α → List Char → Prop} {Same : α → α → Prop} {as bs : List α}
  {texts texts' : List (List Char)} {close close' : List Char}

/-- A part that is shown by a text in front of others is told apart from any other part. -/
structure Told (Shows : α → List Char → Prop) (Same : α → α → Prop) (a : α) (text : List Char) :
    Prop where
  shows : Shows a text
  tells : ∀ {b text' rest rest'}, Shows b text' → Follows rest → Follows rest' →
    text ++ rest = text' ++ rest' → Same a b ∧ rest = rest'

/-- What closes a row: it may follow a part, and it does not begin as a separator does. -/
structure Closes (close : List Char) : Prop where
  follows : ∀ rest, Follows (close ++ rest)
  ends : ∀ rest more, close ++ rest ≠ ',' :: ' ' :: more

/-- Texts with a separator before each. -/
def continued (texts : List (List Char)) : List Char :=
  texts.flatMap fun text => ',' :: ' ' :: text

theorem commas_cons (text : List Char) (texts : List (List Char)) :
    commas (text :: texts) = text ++ continued texts := by
  induction texts generalizing text with
  | nil => exact (List.append_nil text).symm
  | cons next texts ih =>
    have step : commas (text :: next :: texts) = text ++ [',', ' '] ++ commas (next :: texts) := rfl
    rw [step, ih, continued, continued, List.flatMap_cons, List.append_assoc]
    rfl

theorem follows_continued (closes : Closes close) (texts : List (List Char)) (rest : List Char) :
    Follows (continued texts ++ (close ++ rest)) := by
  cases texts with
  | nil => exact closes.follows rest
  | cons text texts =>
    rintro c ⟨⟩
    rfl

/-- A row that goes on is told apart part by part. -/
theorem continued_inj (closes : Closes close) (closes' : Closes close')
    (told : List.Forall₂ (Told Shows Same) as texts) (shown' : List.Forall₂ Shows bs texts')
    (same : continued texts ++ (close ++ rest) = continued texts' ++ (close' ++ rest')) :
    List.Forall₂ Same as bs ∧ close ++ rest = close' ++ rest' := by
  induction told generalizing bs texts' with
  | nil =>
    cases shown' with
    | nil => exact ⟨.nil, same⟩
    | cons => exact absurd same (closes.ends rest _)
  | @cons a text as texts first _ ih =>
    cases shown' with
    | nil => exact absurd same.symm (closes'.ends rest' _)
    | @cons b text' bs texts' first' others' =>
      have same : text ++ (continued texts ++ (close ++ rest)) =
          text' ++ (continued texts' ++ (close' ++ rest')) := by
        simpa [continued] using same
      obtain ⟨replica, same⟩ := first.tells first' (follows_continued closes texts rest)
        (follows_continued closes' texts' rest') same
      obtain ⟨replicas, closed⟩ := ih others' same
      exact ⟨.cons replica replicas, closed⟩

/-- A row is told apart part by part, if no part begins as something that closes a row does. -/
theorem commas_inj (opens : ∀ a text, Shows a text → ∃ c more, text = c :: more ∧ isStop c = false)
    (closes : Closes close) (closes' : Closes close')
    (told : List.Forall₂ (Told Shows Same) as texts) (shown' : List.Forall₂ Shows bs texts')
    (same : commas texts ++ (close ++ rest) = commas texts' ++ (close' ++ rest')) :
    List.Forall₂ Same as bs ∧ close ++ rest = close' ++ rest' := by
  have unopened {a : α} {text more rest close : List Char} (shown : Shows a text)
      (closes : Closes close) : text ++ more ≠ close ++ rest := by
    intro same
    obtain ⟨c, tail, rfl, inside⟩ := opens a text shown
    have stop := closes.follows rest c (by rw [← same]; rfl)
    rw [inside] at stop
    cases stop
  cases told with
  | nil =>
    cases shown' with
    | nil => exact ⟨.nil, same⟩
    | cons first' others' =>
      have same : close ++ rest = commas (_ :: _) ++ (close' ++ rest') := same
      rw [commas_cons, List.append_assoc] at same
      exact absurd same.symm (unopened first' closes)
  | @cons a text as texts first others =>
    rw [commas_cons, List.append_assoc] at same
    cases shown' with
    | nil =>
      have same : text ++ (continued texts ++ (close ++ rest)) = close' ++ rest' := same
      exact absurd same (unopened first.shows closes')
    | @cons b text' bs texts' first' others' =>
      rw [commas_cons, List.append_assoc] at same
      obtain ⟨replica, same⟩ := first.tells first' (follows_continued closes texts rest)
        (follows_continued closes' texts' rest') same
      obtain ⟨replicas, closed⟩ := continued_inj closes closes' others others' same
      exact ⟨.cons replica replicas, closed⟩

end Rows

/-! ## Displays of data -/

/-- What is displayed before the elements of a sequence. -/
def openingOf : Cell → List Char
  | .list _ _ => ['[']
  | .tuple _ => ['(']
  | .set _ _ => "set([".toList
  | _ => []

/-- What is displayed behind the elements of a sequence. A tuple of one element has a comma there.
-/
def closingOf : Cell → List Char
  | .list _ _ => [']']
  | .tuple items => if items.length = 1 then [',', ')'] else [')']
  | .set _ _ => [']', ')']
  | _ => []

/-- What is displayed of an entry of a dict. -/
def entryText (texts : List Char × List Char) : List Char := texts.1 ++ ':' :: ' ' :: texts.2

/-- The text is displayed of the value, which is data and leads to no cycle. -/
inductive Shown (s : Store) : Value → List Char → Prop
  | scalar {v : Value} (scalar : v.identity? = none) (timeless : ∀ t, v ≠ .time t) :
      Shown s v (displayScalar v)
  | sequence {ref : Ref} {items : List Value} {texts : List (List Char)}
      (anatomy : s.anatomy ref = .sequence items) (length : items.length = texts.length)
      (each : ∀ pair ∈ items.zip texts, Shown s pair.1 pair.2) :
      Shown s (.object ref) (openingOf (s.cell ref) ++ (commas texts ++ closingOf (s.cell ref)))
  | dict {ref : Ref} {entries : List (Value × Value)} {frozen : Bool}
      {texts : List (List Char × List Char)} (cell : s.cell ref = .dict entries frozen)
      (length : entries.length = texts.length)
      (keys : ∀ pair ∈ entries.zip texts, Shown s pair.1.1 pair.2.1)
      (values : ∀ pair ∈ entries.zip texts, Shown s pair.1.2 pair.2.2) :
      Shown s (.object ref) ('\x7b' :: (commas (texts.map entryText) ++ ['\x7d']))

/-- The same scalar, or two containers of the same kind whose parts are replicas, in order. Whether
they are frozen does not matter. -/
inductive Replica (s : Store) : Value → Value → Prop
  | scalar {v : Value} (scalar : v.identity? = none) : Replica s v v
  | sequence {r q : Ref} {items others : List Value} (anatomy : s.anatomy r = .sequence items)
      (anatomy' : s.anatomy q = .sequence others)
      (kind : s.typeName (.object r) = s.typeName (.object q))
      (length : items.length = others.length)
      (each : ∀ pair ∈ items.zip others, Replica s pair.1 pair.2) :
      Replica s (.object r) (.object q)
  | dict {r q : Ref} {entries others : List (Value × Value)} {frozen flag : Bool}
      (cell : s.cell r = .dict entries frozen) (cell' : s.cell q = .dict others flag)
      (length : entries.length = others.length)
      (keys : ∀ pair ∈ entries.zip others, Replica s pair.1.1 pair.2.1)
      (values : ∀ pair ∈ entries.zip others, Replica s pair.1.2 pair.2.2) :
      Replica s (.object r) (.object q)

/-- A sequence is a list, a tuple or a set. -/
theorem cell_of_sequence {ref : Ref} {items : List Value}
    (anatomy : s.anatomy ref = .sequence items) : (∃ frozen, s.cell ref = .list items frozen) ∨
      s.cell ref = .tuple items ∨ ∃ frozen, s.cell ref = .set items frozen := by
  rw [Store.anatomy] at anatomy
  cases cell : s.cell ref <;> rw [cell] at anatomy <;> cases anatomy
  · exact .inl ⟨_, rfl⟩
  · exact .inr (.inl rfl)
  · exact .inr (.inr ⟨_, rfl⟩)

/-- Sequences of the same type are both lists, both tuples or both sets. -/
theorem cells_of_kind {r q : Ref} {items others : List Value}
    (anatomy : s.anatomy r = .sequence items) (anatomy' : s.anatomy q = .sequence others)
    (kind : s.typeName (.object r) = s.typeName (.object q)) :
    (∃ frozen flag, s.cell r = .list items frozen ∧ s.cell q = .list others flag) ∨
      (s.cell r = .tuple items ∧ s.cell q = .tuple others) ∨
      ∃ frozen flag, s.cell r = .set items frozen ∧ s.cell q = .set others flag := by
  rw [typeName, typeName] at kind
  rcases cell_of_sequence anatomy with ⟨frozen, cell⟩ | cell | ⟨frozen, cell⟩ <;>
    rcases cell_of_sequence anatomy' with ⟨flag, cell'⟩ | cell' | ⟨flag, cell'⟩ <;>
    rw [cell, cell'] at kind
  · exact .inl ⟨frozen, flag, cell, cell'⟩
  · exact absurd kind (by simp [cellTypeName])
  · exact absurd kind (by simp [cellTypeName])
  · exact absurd kind (by simp [cellTypeName])
  · exact .inr (.inl ⟨cell, cell'⟩)
  · exact absurd kind (by simp [cellTypeName])
  · exact absurd kind (by simp [cellTypeName])
  · exact absurd kind (by simp [cellTypeName])
  · exact .inr (.inr ⟨frozen, flag, cell, cell'⟩)

theorem closes_closingOf {ref : Ref} {items : List Value}
    (anatomy : s.anatomy ref = .sequence items) : Closes (closingOf (s.cell ref)) := by
  rcases cell_of_sequence anatomy with ⟨_, cell⟩ | cell | ⟨_, cell⟩ <;> rw [cell, closingOf]
  · exact ⟨by rintro _ _ ⟨⟩; rfl, by rintro _ _ ⟨⟩⟩
  · split <;> exact ⟨by rintro _ _ ⟨⟩; rfl, by rintro _ _ ⟨⟩⟩
  · exact ⟨by rintro _ _ ⟨⟩; rfl, by rintro _ _ ⟨⟩⟩

theorem closes_brace : Closes ['\x7d'] := ⟨by rintro _ _ ⟨⟩; rfl, by rintro _ _ ⟨⟩⟩

/-- The first characters of displays of data. -/
def beginsData (c : Char) : Bool :=
  beginsScalar c || c == '[' || c == '(' || c == 's' || c == '\x7b'

/-- What data begins with may not follow a part. -/
theorem not_stop_of_beginsData {c : Char} (begins : beginsData c = true) : isStop c = false := by
  refine Bool.eq_false_iff.2 fun stop => ?_
  rcases eq_of_isStop stop with rfl | rfl | rfl | rfl | rfl <;> cases begins

theorem exists_first_of_sequence {ref : Ref} {items : List Value}
    (anatomy : s.anatomy ref = .sequence items) : ∃ c more, openingOf (s.cell ref) = c :: more ∧
      beginsData c = true ∧ beginsScalar c = false ∧ c ≠ '\x7b' := by
  rcases cell_of_sequence anatomy with ⟨_, cell⟩ | cell | ⟨_, cell⟩ <;> rw [cell] <;>
    exact ⟨_, _, rfl, by decide, by decide, by decide⟩

/-- The first character tells scalars from containers. -/
theorem Shown.exists_first (shown : s.Shown v text) :
    ∃ c more, text = c :: more ∧ beginsData c = true ∧ beginsScalar c = v.identity?.isNone := by
  cases shown with
  | scalar scalar timeless =>
    obtain ⟨c, more, first, begins⟩ := exists_first_of_scalar scalar timeless
    exact ⟨c, more, first, by rw [beginsData, begins]; rfl, by rw [begins, scalar]; rfl⟩
  | sequence anatomy =>
    obtain ⟨c, more, first, begins, other, -⟩ := exists_first_of_sequence anatomy
    rw [first]
    exact ⟨c, _, rfl, begins, other⟩
  | dict => exact ⟨_, _, rfl, rfl, rfl⟩

theorem Shown.opens (v : Value) (text : List Char) (shown : s.Shown v text) :
    ∃ c more, text = c :: more ∧ isStop c = false := by
  obtain ⟨c, more, first, begins, -⟩ := shown.exists_first
  exact ⟨c, more, first, not_stop_of_beginsData begins⟩

/-- Displays of a scalar and of a container begin differently. -/
theorem Shown.both_scalars (shown : s.Shown v text) (shown' : s.Shown w text')
    (same : text ++ rest = text' ++ rest') : v.identity?.isNone = w.identity?.isNone := by
  obtain ⟨c, more, rfl, -, begins⟩ := shown.exists_first
  obtain ⟨c', more', rfl, -, begins'⟩ := shown'.exists_first
  rw [← begins, ← begins', (List.cons.inj same).1]

/-! ## Unique readability -/

/-- Sequences that begin alike are of the same kind. -/
theorem kind_of_opening {r q : Ref} {items others : List Value}
    (anatomy : s.anatomy r = .sequence items) (anatomy' : s.anatomy q = .sequence others)
    (same : openingOf (s.cell r) ++ rest = openingOf (s.cell q) ++ rest') :
    s.typeName (.object r) = s.typeName (.object q) ∧ rest = rest' ∧
      (items.length = others.length → closingOf (s.cell r) = closingOf (s.cell q)) := by
  rw [typeName, typeName]
  rcases cell_of_sequence anatomy with ⟨_, cell⟩ | cell | ⟨_, cell⟩ <;>
    rcases cell_of_sequence anatomy' with ⟨_, cell'⟩ | cell' | ⟨_, cell'⟩ <;>
    rw [cell, cell'] at same ⊢ <;> cases same
  · exact ⟨rfl, rfl, fun _ => rfl⟩
  · exact ⟨rfl, rfl, fun length => by rw [closingOf, closingOf, length]⟩
  · exact ⟨rfl, rfl, fun _ => rfl⟩

/-- The texts are displayed of the key and of the value of the entry. -/
def EntryTexts (s : Store) (entry : Value × Value) (texts : List Char × List Char) : Prop :=
  s.Shown entry.1 texts.1 ∧ s.Shown entry.2 texts.2

/-- The text is displayed of the entry. -/
def EntryShown (s : Store) (entry : Value × Value) (text : List Char) : Prop :=
  ∃ texts, s.EntryTexts entry texts ∧ text = entryText texts

/-- The keys and the values of two entries are replicas. -/
def EntryReplica (s : Store) (entry other : Value × Value) : Prop :=
  s.Replica entry.1 other.1 ∧ s.Replica entry.2 other.2

theorem EntryShown.opens (entry : Value × Value) (text : List Char)
    (shown : s.EntryShown entry text) : ∃ c more, text = c :: more ∧ isStop c = false := by
  obtain ⟨texts, ⟨shown, -⟩, rfl⟩ := shown
  obtain ⟨c, more, first, inside⟩ := shown.opens
  exact ⟨c, more ++ ':' :: ' ' :: texts.2, by rw [entryText, first]; rfl, inside⟩

/-- An entry is told apart when its key and its value are. -/
theorem told_entry {entry : Value × Value} {texts : List Char × List Char}
    (key : Told s.Shown s.Replica entry.1 texts.1)
    (value : Told s.Shown s.Replica entry.2 texts.2) :
    Told s.EntryShown s.EntryReplica entry (entryText texts) where
  shows := ⟨texts, ⟨key.shows, value.shows⟩, rfl⟩
  tells := by
    rintro other _ rest rest' ⟨texts', ⟨shownKey, shown⟩, rfl⟩ follows follows' same
    have colon (rest : List Char) : Follows (':' :: rest) := by
      rintro c ⟨⟩
      rfl
    rw [entryText, entryText, List.append_assoc, List.append_assoc] at same
    obtain ⟨keys, same⟩ := key.tells shownKey (colon _) (colon _) same
    obtain ⟨values, same⟩ := value.tells shown follows follows'
      (List.cons.inj (List.cons.inj same).2).2
    exact ⟨⟨keys, values⟩, same⟩

theorem forall₂_of_zip {α β : Type} {R : α → β → Prop} {as : List α} {bs : List β}
    (length : as.length = bs.length) (each : ∀ pair ∈ as.zip bs, R pair.1 pair.2) :
    List.Forall₂ R as bs :=
  List.forall₂_iff_zip.2 ⟨length, fun isPair => each _ isPair⟩

/-- Sequences whose elements are told apart are told apart. -/
theorem replica_of_sequences {r q : Ref} {items others : List Value}
    {texts texts' : List (List Char)}
    (anatomy : s.anatomy r = .sequence items) (anatomy' : s.anatomy q = .sequence others)
    (told : List.Forall₂ (Told s.Shown s.Replica) items texts)
    (shown' : List.Forall₂ s.Shown others texts')
    (same : openingOf (s.cell r) ++ (commas texts ++ closingOf (s.cell r)) ++ rest =
      openingOf (s.cell q) ++ (commas texts' ++ closingOf (s.cell q)) ++ rest') :
    s.Replica (.object r) (.object q) ∧ rest = rest' := by
  simp only [List.append_assoc] at same
  obtain ⟨kind, same, closing⟩ := kind_of_opening anatomy anatomy' same
  obtain ⟨replicas, same⟩ := commas_inj Shown.opens (closes_closingOf anatomy)
    (closes_closingOf anatomy') told shown' same
  obtain ⟨length, each⟩ := List.forall₂_iff_zip.1 replicas
  rw [closing length] at same
  exact ⟨.sequence anatomy anatomy' kind length fun _ isPair => each isPair,
    List.append_cancel_left same⟩

/-- Dicts whose entries are told apart are told apart. -/
theorem replica_of_dicts {r q : Ref} {entries others : List (Value × Value)} {frozen flag : Bool}
    {texts texts' : List (List Char × List Char)} (cell : s.cell r = .dict entries frozen)
    (cell' : s.cell q = .dict others flag)
    (told : List.Forall₂ (Told s.EntryShown s.EntryReplica) entries (texts.map entryText))
    (shown' : List.Forall₂ s.EntryShown others (texts'.map entryText))
    (same : '\x7b' :: (commas (texts.map entryText) ++ ['\x7d']) ++ rest =
      '\x7b' :: (commas (texts'.map entryText) ++ ['\x7d']) ++ rest') :
    s.Replica (.object r) (.object q) ∧ rest = rest' := by
  rw [List.cons_append, List.cons_append, List.append_assoc, List.append_assoc] at same
  obtain ⟨replicas, same⟩ :=
    commas_inj EntryShown.opens closes_brace closes_brace told shown' (List.cons.inj same).2
  obtain ⟨length, each⟩ := List.forall₂_iff_zip.1 replicas
  exact ⟨.dict cell cell' length (fun _ isPair => (each isPair).1) fun _ isPair => (each isPair).2,
    (List.cons.inj same).2⟩

/-- **What is displayed of data tells what it is of**, up to replicas, and where it ends. -/
theorem Shown.inj (shown : s.Shown v text) (shown' : s.Shown w text') (follows : Follows rest)
    (follows' : Follows rest') (same : text ++ rest = text' ++ rest') :
    s.Replica v w ∧ rest = rest' := by
  induction shown generalizing w text' rest rest' with
  | scalar scalar timeless =>
    have kinds := (Shown.scalar scalar timeless).both_scalars shown' same
    cases shown' with
    | scalar scalar' timeless' =>
      obtain ⟨rfl, rests⟩ := displayScalar_append_inj scalar timeless scalar' timeless' follows
        follows' same
      exact ⟨.scalar scalar, rests⟩
    | sequence | dict =>
      rw [scalar] at kinds
      cases kinds
  | @sequence r items texts anatomy length each ih =>
    have kinds := (Shown.sequence anatomy length each).both_scalars shown' same
    cases shown' with
    | scalar scalar' =>
      rw [scalar'] at kinds
      cases kinds
    | sequence anatomy' length' each' =>
      exact replica_of_sequences anatomy anatomy'
        (forall₂_of_zip length fun pair isPair => ⟨each pair isPair, ih pair isPair⟩)
        (forall₂_of_zip length' each') same
    | dict =>
      obtain ⟨c, more, first, -, -, other⟩ := exists_first_of_sequence anatomy
      rw [first] at same
      exact absurd (List.cons.inj same).1 other
  | @dict r entries frozen texts cell length keys values ihKeys ihValues =>
    have kinds := (Shown.dict cell length keys values).both_scalars shown' same
    cases shown' with
    | scalar scalar' =>
      rw [scalar'] at kinds
      cases kinds
    | sequence anatomy' =>
      obtain ⟨c, more, first, -, -, other⟩ := exists_first_of_sequence anatomy'
      rw [first] at same
      exact absurd (List.cons.inj same).1.symm other
    | dict cell' length' keys' values' =>
      have told : List.Forall₂ (fun entry texts =>
          Told s.EntryShown s.EntryReplica entry (entryText texts)) entries texts :=
        forall₂_of_zip length fun pair isPair => told_entry
          ⟨keys pair isPair, ihKeys pair isPair⟩ ⟨values pair isPair, ihValues pair isPair⟩
      refine replica_of_dicts cell cell' (List.forall₂_map_right_iff.2 told)
        (List.forall₂_map_right_iff.2 (forall₂_of_zip length' fun pair isPair => ?_)) same
      exact ⟨pair.2, ⟨keys' pair isPair, values' pair isPair⟩, rfl⟩

/-! ## Texts of replicas -/

/-- What stands in step with pairs of which one text is known is known. -/
theorem eq_of_zips {α β : Type} {Shows : α → β → Prop} {as bs : List α} {xs ys : List β}
    (length : as.length = bs.length) (left : as.length = xs.length) (right : bs.length = ys.length)
    (same : ∀ pair ∈ as.zip bs, ∀ x y, Shows pair.1 x → Shows pair.2 y → x = y)
    (shown : ∀ pair ∈ as.zip xs, Shows pair.1 pair.2)
    (shown' : ∀ pair ∈ bs.zip ys, Shows pair.1 pair.2) : xs = ys := by
  refine List.ext_getElem (left.symm.trans (length.trans right)) fun i inX inY => ?_
  have inA : i < as.length := left ▸ inX
  have inB : i < bs.length := right ▸ inY
  exact same _ (getElem_mem_zip inA inB) _ _ (shown _ (getElem_mem_zip inA inX))
    (shown' _ (getElem_mem_zip inB inY))

/-- The text of a sequence. -/
theorem Shown.of_sequence {ref : Ref} {items : List Value}
    (anatomy : s.anatomy ref = .sequence items) (shown : s.Shown (.object ref) text) :
    ∃ texts, items.length = texts.length ∧ (∀ pair ∈ items.zip texts, s.Shown pair.1 pair.2) ∧
      text = openingOf (s.cell ref) ++ (commas texts ++ closingOf (s.cell ref)) := by
  cases shown with
  | scalar scalar => cases scalar
  | sequence anatomy' length each =>
    rw [anatomy] at anatomy'
    cases anatomy'
    exact ⟨_, length, each, rfl⟩
  | dict cell => exact absurd cell ((parts_of_sequence anatomy).2 _ _)

/-- The text of a dict. -/
theorem Shown.of_dict {ref : Ref} {entries : List (Value × Value)} {frozen : Bool}
    (cell : s.cell ref = .dict entries frozen) (shown : s.Shown (.object ref) text) :
    ∃ texts : List (List Char × List Char), entries.length = texts.length ∧
      (∀ pair ∈ entries.zip texts, s.EntryTexts pair.1 pair.2) ∧
      text = '\x7b' :: (commas (texts.map entryText) ++ ['\x7d']) := by
  cases shown with
  | scalar scalar => cases scalar
  | sequence anatomy => exact absurd cell ((parts_of_sequence anatomy).2 _ _)
  | dict cell' length keys values =>
    rw [cell] at cell'
    cases cell'
    exact ⟨_, length, fun pair isPair => ⟨keys pair isPair, values pair isPair⟩, rfl⟩

/-- Replicas have the same text. -/
theorem Replica.text_eq (replica : s.Replica v w) (shown : s.Shown v text)
    (shown' : s.Shown w text') : text = text' := by
  induction replica generalizing text text' with
  | scalar scalar =>
    cases shown with
    | scalar =>
      cases shown' with
      | scalar => rfl
      | sequence | dict => cases scalar
    | sequence | dict => cases scalar
  | sequence anatomy anatomy' kind length _ ih =>
    obtain ⟨texts, left, each, rfl⟩ := shown.of_sequence anatomy
    obtain ⟨texts', right, each', rfl⟩ := shown'.of_sequence anatomy'
    obtain rfl := eq_of_zips length left right (fun pair isPair _ _ => ih pair isPair) each each'
    rcases cells_of_kind anatomy anatomy' kind with ⟨_, _, cell, cell'⟩ | ⟨cell, cell'⟩ |
      ⟨_, _, cell, cell'⟩ <;> rw [cell, cell']
    · rfl
    · rw [closingOf, closingOf, length]
      rfl
    · rfl
  | dict cell cell' length _ _ ihKeys ihValues =>
    obtain ⟨texts, left, each, rfl⟩ := shown.of_dict cell
    obtain ⟨texts', right, each', rfl⟩ := shown'.of_dict cell'
    obtain rfl := eq_of_zips length left right (fun pair isPair _ _ both both' =>
      Prod.ext (ihKeys pair isPair both.1 both'.1) (ihValues pair isPair both.2 both'.2)) each each'
    rfl

end Interchange.Store
