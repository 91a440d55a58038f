import Interchange.Proofs.Store.Literal

/-!
# Displays are unambiguous

Data with the same display is the same but for its identity: the two are replicas of each other, and
so they are equal (`Replica.equals`). Keys of one dict are unequal, so two of them that are data and
no texts never have the same text, and a dict of such keys becomes an object of a script with a
property for each entry (`Reachable.display_unambiguous`).
-/

namespace Interchange

open Script

namespace Store

variable {s : Store} {v w : Value} {r q ref : Ref}

/-! ## Replicas are equal -/

/-- Cells that fit each other are equal when all values that are opposite in them are. -/
theorem Lawkeeping.equals_of_opposite (keeps : s.Lawkeeping) (tame : s.Tame (.object r))
    (tame' : s.Tame (.object q)) (fits : s.Fits (s.cell r) (s.cell q))
    (each : ∀ v w, s.Opposite v w (s.cell r) (s.cell q) → s.equals v w = true) :
    s.equals (.object r) (.object q) = true := by
  refine (equals_iff (keeps.equal?_ends tame tame')).2 fun n differs => ?_
  cases differs with
  | scalars either => rcases either with scalar | scalar <;> cases scalar
  | cells _ unfit => exact unfit fits
  | @parts m _ _ v w _ opposite differs =>
    have ends := keeps.equal?_ends (tame.part keeps.closed opposite.parts.1)
      (tame'.part keeps.closed opposite.parts.2)
    exact (equals_iff ends).1 (each v w opposite) m differs

/-- Sequences of one kind fit each other when their elements are equal one by one. -/
theorem equals_sequences {items others : List Value} (keeps : s.Lawkeeping)
    (tame : s.Tame (.object r)) (tame' : s.Tame (.object q))
    (anatomy : s.anatomy r = .sequence items) (anatomy' : s.anatomy q = .sequence others)
    (kind : s.typeName (.object r) = s.typeName (.object q)) (length : items.length = others.length)
    (each : ∀ pair ∈ items.zip others, s.equals pair.1 pair.2 = true) :
    s.equals (.object r) (.object q) = true := by
  refine keeps.equals_of_opposite tame tame' ?_ fun v w opposite => ?_
  · rcases cells_of_kind anatomy anatomy' kind with ⟨_, _, cell, cell'⟩ | ⟨cell, cell'⟩ |
      ⟨_, _, cell, cell'⟩ <;> rw [cell, cell']
    · exact .list length
    · exact .tuple length
    · refine .set length fun v isItem => isAmong_iff.2 ?_
      obtain ⟨w, isPair⟩ := exists_pair_of_mem length isItem
      exact ⟨w, (List.of_mem_zip isPair).2, each _ isPair⟩
  · rcases cells_of_kind anatomy anatomy' kind with ⟨_, _, cell, cell'⟩ | ⟨cell, cell'⟩ |
      ⟨_, _, cell, cell'⟩ <;> rw [cell, cell'] at opposite
    · cases opposite with
      | item isPair => exact each _ isPair
    · cases opposite with
      | member isPair => exact each _ isPair
    · cases opposite

/-- Dicts are equal when their keys and their values are, one by one. -/
theorem equals_dicts {entries others : List (Value × Value)} {frozen flag : Bool}
    (keeps : s.Lawkeeping) (tame : s.Tame (.object r)) (tame' : s.Tame (.object q))
    (cell : s.cell r = .dict entries frozen) (cell' : s.cell q = .dict others flag)
    (length : entries.length = others.length)
    (keys : ∀ pair ∈ entries.zip others, s.equals pair.1.1 pair.2.1 = true)
    (values : ∀ pair ∈ entries.zip others, s.equals pair.1.2 pair.2.2 = true) :
    s.equals (.object r) (.object q) = true := by
  refine keeps.equals_of_opposite tame tame' ?_ fun v w opposite => ?_
  · rw [cell, cell']
    refine .dict length fun entry isEntry => lookup?_isSome_iff.2 ?_
    obtain ⟨other, isPair⟩ := exists_pair_of_mem length isEntry
    exact ⟨other, (List.of_mem_zip isPair).2, keys _ isPair⟩
  · rw [cell, cell'] at opposite
    cases opposite with
    | @value key _ _ _ _ isEntry found =>
      obtain ⟨⟨key', w'⟩, isPair⟩ := exists_pair_of_mem length isEntry
      have keys_eq : (s.cell q).keys = others.map Prod.fst := by rw [cell']; rfl
      have isKey : key ∈ (s.cell r).keys := by
        rw [cell]
        exact List.mem_map_of_mem (f := Prod.fst) isEntry
      -- Keys are apart, so the key finds the one that stands in step with it.
      have looked : s.lookup? key others = some w' :=
        (lawful_steady keeps.aged keeps.named).lookup?_of_mem
          (fun other isOther => keeps.steady_key tame' (keys_eq ▸ isOther))
          (keys_eq ▸ keeps.apart_keys tame') (List.of_mem_zip isPair).2
          (keeps.steady_key tame isKey) (keys _ isPair)
      obtain rfl := Option.some.inj (found.symm.trans looked)
      exact values _ isPair

/-- Replicas among data are equal. -/
theorem Replica.equals (keeps : s.Lawkeeping) (replica : s.Replica v w) (tame : s.Tame v)
    (tame' : s.Tame w) : s.equals v w = true := by
  induction replica with
  | scalar => exact s.equals_self _
  | @sequence r q items others anatomy anatomy' kind length _ ih =>
    refine equals_sequences keeps tame tame' anatomy anatomy' kind length fun pair isPair => ?_
    obtain ⟨isItem, isOther⟩ := List.of_mem_zip isPair
    exact ih pair isPair (tame.part keeps.closed ((parts_of_sequence anatomy).1 ▸ isItem))
      (tame'.part keeps.closed ((parts_of_sequence anatomy').1 ▸ isOther))
  | @dict r q entries others _ _ cell cell' length _ _ ihKeys ihValues =>
    have part {ref : Ref} {entries : List (Value × Value)} {frozen : Bool} {part : Value}
        {entry : Value × Value} (tame : s.Tame (.object ref))
        (cell : s.cell ref = .dict entries frozen) (isEntry : entry ∈ entries)
        (either : part = entry.1 ∨ part = entry.2) : s.Tame part := by
      refine tame.part keeps.closed ?_
      rw [cell]
      exact mem_entryParts.2 ⟨entry, isEntry, either⟩
    refine equals_dicts keeps tame tame' cell cell' length (fun pair isPair => ?_)
      fun pair isPair => ?_
    · obtain ⟨isEntry, isOther⟩ := List.of_mem_zip isPair
      exact ihKeys pair isPair (part tame cell isEntry (.inl rfl))
        (part tame' cell' isOther (.inl rfl))
    · obtain ⟨isEntry, isOther⟩ := List.of_mem_zip isPair
      exact ihValues pair isPair (part tame cell isEntry (.inr rfl))
        (part tame' cell' isOther (.inr rfl))

/-! ## Displays -/

/-- Nothing follows a whole display. -/
theorem follows_nil : Follows [] := nofun

/-- Data has a display in the grammar. -/
theorem Literal.exists_display (literal : s.Literal v) :
    ∃ text : String, s.display? v = some text ∧ s.Shown v text.toList := by
  obtain ⟨text, displayed⟩ := Option.ne_none_iff_exists'.1 literal.display?_ne_none
  obtain ⟨depth, within⟩ := ((display?_outcome s v).1 text).1 displayed
  exact ⟨text, displayed, literal.shown (List.forall_mem_nil _) within⟩

/-- Data has the same display exactly when it is replicas. -/
theorem Literal.display?_eq_iff (literal : s.Literal v) (literal' : s.Literal w) :
    s.display? v = s.display? w ↔ s.Replica v w := by
  obtain ⟨text, displayed, shown⟩ := literal.exists_display
  obtain ⟨text', displayed', shown'⟩ := literal'.exists_display
  rw [displayed, displayed', Option.some.injEq]
  constructor
  · rintro rfl
    exact (shown.inj shown' follows_nil follows_nil rfl).1
  · exact fun replica => String.toList_inj.1 (replica.text_eq shown shown')

/-! ## Keys -/

theorem text?_eq_display? (other : v.text? = none) : s.text? v = s.display? v := by
  cases v with
  | string => cases other
  | _ => rfl

/-- Keys of one dict that are data and no texts have different texts. -/
theorem Reachable.text?_ne (reachable : s.Reachable) {entries : List (Value × Value)}
    {frozen : Bool} (cell : s.cell ref = .dict entries frozen) :
    (entries.map Prod.fst).Pairwise fun key other =>
      s.Literal key → s.Literal other → key.text? = none → other.text? = none →
      s.text? key ≠ s.text? other := by
  have keeps := reachable.lawkeeping
  have keys : (s.cell ref).keys = entries.map Prod.fst := by rw [cell]; rfl
  rw [← keys]
  refine (keeps.apart ref).imp_of_mem fun {key other} isKey isKey' apart literal literal' none
    none' same => ?_
  have tame := literal.tame (keeps.closed ref key (Cell.held_of_keys isKey))
  have tame' := literal'.tame (keeps.closed ref other (Cell.held_of_keys isKey'))
  have steady := tame.steady keeps.aged keeps.closed (keeps.hashable ref key isKey)
  rw [text?_eq_display? none, text?_eq_display? none', literal.display?_eq_iff literal'] at same
  have equal := same.equals keeps tame tame'
  rw [(apart (.inl steady)).1] at equal
  cases equal

/-- The text of such a key is not the name that a script takes for the prototype. -/
theorem Literal.text?_ne_prototypeName (literal : s.Literal v) (other : v.text? = none) :
    s.text? v ≠ some prototypeName := by
  obtain ⟨text, displayed, shown⟩ := literal.exists_display
  rw [text?_eq_display? other, displayed]
  rintro ⟨⟩
  obtain ⟨c, more, first, begins, -⟩ := shown.exists_first
  cases first
  cases begins

/-- **Displays of data are unambiguous.** Two values that are data have a display each, and it is
the same exactly when they are replicas, which are equal. So no two keys of a dict that are data and
no texts have the same text, and where a dict of such keys becomes an object of a script, each entry
has a property of its own. -/
theorem Reachable.display_unambiguous (reachable : s.Reachable) :
    (∀ v w, s.Has v → s.Has w → s.Literal v → s.Literal w →
      ∃ text text', s.display? v = some text ∧ s.display? w = some text' ∧
        (text = text' ↔ s.Replica v w) ∧ (text = text' → s.equals v w = true)) ∧
    ∀ ref entries frozen, s.cell ref = .dict entries frozen →
      ((entries.map Prod.fst).Pairwise fun key other =>
        s.Literal key → s.Literal other → key.text? = none → other.text? = none →
        s.text? key ≠ s.text? other) ∧
      ∀ session d later, session.store = s →
        (ofValue (.object ref)).runIn session = (.ok d, later) →
        (∀ entry ∈ entries, s.Literal entry.1 ∧ entry.1.text? = none) →
        ∃ place properties, d = .object place ∧
          later.heap[place.index]? = some (.ofProperties properties) ∧
          DictShown s later.heap entries properties ∧ properties.length = entries.length := by
  refine ⟨fun v w has has' literal literal' => ?_, fun ref entries frozen cell =>
    ⟨reachable.text?_ne cell, fun session d later same shown keys => ?_⟩⟩
  · obtain ⟨text, displayed, -⟩ := literal.exists_display
    obtain ⟨text', displayed', -⟩ := literal'.exists_display
    have iff := literal.display?_eq_iff literal'
    rw [displayed, displayed', Option.some.injEq] at iff
    exact ⟨text, text', displayed, displayed', iff, fun same => (iff.1 same).equals
      reachable.lawkeeping (literal.tame has) (literal'.tame has')⟩
  · obtain ⟨-, depicts, told⟩ := reachable.entries_told.2 _ _ _ _ same shown
    obtain ⟨place, properties, rfl, there, dictShown⟩ :=
      told.dicts ref entries frozen d cell depicts fun entry isEntry =>
        (keys entry isEntry).1.text?_ne_prototypeName (keys entry isEntry).2
    refine ⟨place, properties, rfl, there, dictShown, dictShown.whole.2 ?_⟩
    have apart := List.pairwise_map.1 (reachable.text?_ne cell)
    refine List.pairwise_map.2 (apart.imp_of_mem fun isEntry isEntry' apart => ?_)
    exact apart (keys _ isEntry).1 (keys _ isEntry').1 (keys _ isEntry).2 (keys _ isEntry').2

/-- Two tuples of the same text, and a dict in which a number, nothing and such a tuple are keys. -/
def threefold : Store := empty.after
  [.newTuple [.int 1, .string "a"], .newTuple [.int 1, .string "a"],
    .newDict [(.int 1, .object ⟨1⟩), (.nothing, .string "b"), (.object ⟨0⟩, .bool true)]]

theorem reachable_threefold : threefold.Reachable :=
  reachable_empty.after ⟨⟨by decide, nofun⟩, ⟨by decide, nofun⟩, ⟨by decide, nofun⟩, trivial⟩

theorem cell_threefold : threefold.cell ⟨2⟩ =
  .dict [(.int 1, .object ⟨1⟩), (.nothing, .string "b"), (.object ⟨0⟩, .bool true)] false := rfl

theorem literal_tuple (ref : Ref)
    (anatomy : threefold.anatomy ref = .sequence [.int 1, .string "a"]) :
    threefold.Literal (.object ref) :=
  .sequence anatomy (List.forall_mem_cons.2
    ⟨.scalar rfl nofun, List.forall_mem_singleton.2 (.scalar rfl nofun)⟩)

/-- The tuples are equal, and the dict becomes an object with three properties. -/
theorem display_unambiguous_threefold : threefold.Reachable ∧
    threefold.display? (.object ⟨0⟩) = threefold.display? (.object ⟨1⟩) ∧
    threefold.equals (.object ⟨0⟩) (.object ⟨1⟩) = true ∧
    ∃ (place : Script.Place) (later : Session) (properties : List (WideString × Datum)),
      (ofValue (.object ⟨2⟩)).runIn { store := threefold } = (.ok (.object place), later) ∧
      later.heap[place.index]? = some (.ofProperties properties) ∧ properties.length = 3 := by
  obtain ⟨displays, dicts⟩ := reachable_threefold.display_unambiguous
  have same : threefold.display? (.object ⟨0⟩) = threefold.display? (.object ⟨1⟩) := by
    decide +kernel
  refine ⟨reachable_threefold, same, ?_, ?_⟩
  · obtain ⟨text, text', displayed, displayed', -, equal⟩ := displays (.object ⟨0⟩) (.object ⟨1⟩)
      (by decide) (by decide) (literal_tuple ⟨0⟩ rfl) (literal_tuple ⟨1⟩ rfl)
    rw [displayed, displayed', Option.some.injEq] at same
    exact equal same
  · obtain ⟨place, later, ran⟩ : ∃ place later,
        (ofValue (.object ⟨2⟩)).runIn { store := threefold } = (.ok (.object place), later) :=
      ⟨_, _, rfl⟩
    obtain ⟨_, properties, ⟨⟩, there, -, length⟩ :=
      (dicts ⟨2⟩ _ _ cell_threefold).2 _ _ _ rfl ran (List.forall_mem_cons.2
        ⟨⟨.scalar rfl nofun, rfl⟩, List.forall_mem_cons.2 ⟨⟨.scalar rfl nofun, rfl⟩,
          List.forall_mem_singleton.2 ⟨literal_tuple ⟨0⟩ rfl, rfl⟩⟩⟩)
    exact ⟨place, later, properties, ran, there, length⟩

end Store
end Interchange
