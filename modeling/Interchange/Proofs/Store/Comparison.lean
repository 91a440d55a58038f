import Interchange.Container.ValueSet

/-!
# The comparison of cells

What the answer of a comparison of two cells means, when there is one (`cellsEqual_verdict`): whether
the cells fit each other in kind, size, names and keys (`Store.Fits`), and whether all values that
are opposite in them are the same (`Store.Opposite`). The comparison answers when its tests do
(`cellsEqual_ends`), and answers of its tests stay answers when the tests answer more
(`cellsEqual_mono`).
-/

namespace Interchange

/-- The values of a cell by which others are looked up: the keys of a dict, the elements of a set. -/
def Cell.keys : Cell → List Value
  | set items _ => items
  | dict entries _ => entries.map Prod.fst
  | _ => []

namespace Store

variable {s : Store} {v w : Value} {c d : Cell}

/-- Two cells have the same kind and size, and each name, key or element of the first is found in
the second. -/
inductive Fits (s : Store) : Cell → Cell → Prop
  | list {items others : List Value} {frozen flag : Bool}
      (length : items.length = others.length) : Fits s (.list items frozen) (.list others flag)
  | tuple {items others : List Value} (length : items.length = others.length) :
      Fits s (.tuple items) (.tuple others)
  | set {items others : List Value} {frozen flag : Bool} (length : items.length = others.length)
      (found : ∀ v ∈ items, s.isAmong v others = true) :
      Fits s (.set items frozen) (.set others flag)
  | dict {entries others : List (Value × Value)} {frozen flag : Bool}
      (length : entries.length = others.length)
      (found : ∀ entry ∈ entries, (s.lookup? entry.1 others).isSome = true) :
      Fits s (.dict entries frozen) (.dict others flag)
  | record {tag otherTag : Value} {fields others : List (String × Value)}
      (length : fields.length = others.length)
      (found : ∀ field ∈ fields, (others.lookup field.1).isSome = true) :
      Fits s (.record tag fields) (.record otherTag others)

/-- A value of the first cell is compared with one of the second. -/
inductive Opposite (s : Store) (v w : Value) : Cell → Cell → Prop
  | item {items others : List Value} {frozen flag : Bool} (isPair : (v, w) ∈ items.zip others) :
      Opposite s v w (.list items frozen) (.list others flag)
  | member {items others : List Value} (isPair : (v, w) ∈ items.zip others) :
      Opposite s v w (.tuple items) (.tuple others)
  | value {key : Value} {entries others : List (Value × Value)} {frozen flag : Bool}
      (isEntry : (key, v) ∈ entries) (found : s.lookup? key others = some w) :
      Opposite s v w (.dict entries frozen) (.dict others flag)
  | tag {fields others : List (String × Value)} :
      Opposite s v w (.record v fields) (.record w others)
  | field {name : String} {tag otherTag : Value} {fields others : List (String × Value)}
      (isField : (name, v) ∈ fields) (found : others.lookup name = some w) :
      Opposite s v w (.record tag fields) (.record otherTag others)

/-! ## What an answer says -/

/-- What the answer of a test means, if there is one. -/
structure Verdict (answer : Option Bool) (good bad : Prop) : Prop where
  of_true : answer = some true → good
  of_false : answer = some false → bad

section Tests

variable {a b a' b' : Option Bool} {good bad good' bad' : Prop}
  {same same' afresh afresh' : Value → Value → Option Bool}

theorem Verdict.imp (h : Verdict a good bad) (h₁ : good → good') (h₂ : bad → bad') :
    Verdict a good' bad' := ⟨fun eq => h₁ (h.of_true eq), fun eq => h₂ (h.of_false eq)⟩

theorem Verdict.yes (h : good) : Verdict (some true) good bad := ⟨fun _ => h, nofun⟩

theorem Verdict.no (h : bad) : Verdict (some false) good bad := ⟨nofun, fun _ => h⟩

/-- One test after the other. -/
theorem Verdict.both (h : Verdict a good bad) (h' : Verdict b good' bad') :
    Verdict (do if ← a then b else return false) (good ∧ good') (bad ∨ bad') := by
  cases a with
  | none => exact ⟨nofun, nofun⟩
  | some answer =>
    cases answer with
    | true => exact h'.imp (fun rest => ⟨h.of_true rfl, rest⟩) .inr
    | false => exact .no (.inl (h.of_false rfl))

/-- Every answer of one test is the answer of another, too. -/
def Extends (f g : Value → Value → Option Bool) : Prop :=
  ∀ v w answer, f v w = some answer → g v w = some answer

theorem bind_ne_none {α β : Type} {a : Option α} {f : α → Option β} (h : a ≠ none)
    (h' : ∀ x, a = some x → f x ≠ none) : (a >>= f) ≠ none := by
  cases a with
  | none => exact absurd rfl h
  | some x => exact h' x rfl

theorem bind_mono {α β : Type} {a a' : Option α} {f f' : α → Option β}
    (h : ∀ x, a = some x → a' = some x) (h' : ∀ x y, f x = some y → f' x = some y) :
    ∀ y, (a >>= f) = some y → (a' >>= f') = some y := by
  intro y answers
  cases a with
  | none => cases answers
  | some x =>
    rw [h x rfl]
    exact h' x y answers

theorem both_ne_none (h : a ≠ none) (h' : b ≠ none) :
    (do if ← a then b else return false : Option Bool) ≠ none :=
  bind_ne_none h fun answer _ => by
    cases answer with
    | true => exact h'
    | false => exact nofun

theorem both_mono (h : ∀ x, a = some x → a' = some x) (h' : ∀ x, b = some x → b' = some x) :
    ∀ x, (do if ← a then b else return false : Option Bool) = some x →
      (do if ← a' then b' else return false : Option Bool) = some x :=
  bind_mono h fun answer x => by
    cases answer with
    | true => exact h' x
    | false => exact id

theorem samePairs_verdict {pairs : List (Value × Value)} : Verdict (samePairs same pairs)
    (∀ pair ∈ pairs, same pair.1 pair.2 = some true)
    (∃ pair ∈ pairs, same pair.1 pair.2 = some false) := by
  induction pairs with
  | nil => exact .yes nofun
  | cons pair rest ih =>
    obtain ⟨v, w⟩ := pair
    have first : Verdict (same v w) (same v w = some true) (same v w = some false) := ⟨id, id⟩
    refine (first.both ih).imp (fun all => List.forall_mem_cons.2 all) ?_
    rintro (here | ⟨pair, isRest, there⟩)
    · exact ⟨(v, w), List.mem_cons_self, here⟩
    · exact ⟨pair, List.mem_cons_of_mem _ isRest, there⟩

theorem samePairs_ends {pairs : List (Value × Value)}
    (ends : ∀ pair ∈ pairs, same pair.1 pair.2 ≠ none) : samePairs same pairs ≠ none := by
  induction pairs with
  | nil => exact nofun
  | cons pair rest ih =>
    obtain ⟨here, there⟩ := List.forall_mem_cons.1 ends
    exact both_ne_none here (ih there)

theorem samePairs_mono (extend : Extends same same') {pairs : List (Value × Value)} :
    ∀ x, samePairs same pairs = some x → samePairs same' pairs = some x := by
  induction pairs with
  | nil => exact fun _ answers => answers
  | cons pair rest ih => exact both_mono (extend pair.1 pair.2) ih

theorem sameItems_verdict {as bs : List Value} : Verdict (sameItems same as bs)
    (as.length = bs.length ∧ ∀ pair ∈ as.zip bs, same pair.1 pair.2 = some true)
    (as.length ≠ bs.length ∨ ∃ pair ∈ as.zip bs, same pair.1 pair.2 = some false) := by
  rw [sameItems]
  split
  · next length => exact samePairs_verdict.imp (fun all => ⟨length, all⟩) .inr
  · next length => exact .no (.inl length)

theorem sameItems_ends {as bs : List Value}
    (ends : ∀ pair ∈ as.zip bs, same pair.1 pair.2 ≠ none) : sameItems same as bs ≠ none := by
  rw [sameItems]
  split
  · exact samePairs_ends ends
  · exact nofun

theorem sameItems_mono (extend : Extends same same') {as bs : List Value} :
    ∀ x, sameItems same as bs = some x → sameItems same' as bs = some x := by
  rw [sameItems, sameItems]
  split
  · exact samePairs_mono extend
  · exact fun _ answers => answers

theorem fieldsWithin_verdict {others fields : List (String × Value)} :
    Verdict (fieldsWithin same others fields)
      (∀ field ∈ fields, ∃ w, others.lookup field.1 = some w ∧ same field.2 w = some true)
      (∃ field ∈ fields, others.lookup field.1 = none ∨
        ∃ w, others.lookup field.1 = some w ∧ same field.2 w = some false) := by
  induction fields with
  | nil => exact .yes nofun
  | cons field rest ih =>
    obtain ⟨name, v⟩ := field
    rw [fieldsWithin]
    cases found : others.lookup name with
    | none => exact .no ⟨(name, v), List.mem_cons_self, .inl found⟩
    | some w =>
      have first : Verdict (same v w) (same v w = some true) (same v w = some false) := ⟨id, id⟩
      refine (first.both ih).imp ?_ ?_
      · rintro ⟨here, rest⟩
        exact List.forall_mem_cons.2 ⟨⟨w, found, here⟩, rest⟩
      · rintro (here | ⟨field, isRest, there⟩)
        · exact ⟨(name, v), List.mem_cons_self, .inr ⟨w, found, here⟩⟩
        · exact ⟨field, List.mem_cons_of_mem _ isRest, there⟩

theorem fieldsWithin_ends {others fields : List (String × Value)}
    (ends : ∀ field ∈ fields, ∀ w, others.lookup field.1 = some w → same field.2 w ≠ none) :
    fieldsWithin same others fields ≠ none := by
  induction fields with
  | nil => exact nofun
  | cons field rest ih =>
    obtain ⟨name, v⟩ := field
    obtain ⟨here, there⟩ := List.forall_mem_cons.1 ends
    rw [fieldsWithin]
    cases found : others.lookup name with
    | none => exact nofun
    | some w => exact both_ne_none (here w found) (ih there)

theorem fieldsWithin_mono (extend : Extends same same') {others fields : List (String × Value)} :
    ∀ x, fieldsWithin same others fields = some x → fieldsWithin same' others fields = some x := by
  induction fields with
  | nil => exact fun _ answers => answers
  | cons field rest ih =>
    obtain ⟨name, v⟩ := field
    rw [fieldsWithin, fieldsWithin]
    cases others.lookup name with
    | none => exact fun _ answers => answers
    | some w => exact both_mono (extend v w) ih

/-! ## Look-ups -/

/-- The answers of a look-up are those of the equality of a store. -/
def Looks (s : Store) (afresh : Value → Value → Option Bool) : Prop :=
  ∀ v w answer, afresh v w = some answer → s.equals v w = answer

theorem findEntry_eq (looks : s.Looks afresh) {entries : List (Value × Value)}
    {found : Option (Value × Value)} (answers : findEntry (afresh v) entries = some found) :
    s.findKey? v entries = found := by
  induction entries with
  | nil => exact Option.some.inj answers
  | cons entry rest ih =>
    obtain ⟨key, w⟩ := entry
    rw [findEntry] at answers
    rw [findKey?, List.find?_cons]
    cases test : afresh v key with
    | none =>
      rw [test] at answers
      cases answers
    | some answer =>
      rw [test] at answers
      rw [show s.equals v (key, w).1 = answer from looks v key answer test]
      cases answer with
      | true => exact Option.some.inj answers
      | false => exact ih answers

theorem findEntry_ends {entries : List (Value × Value)}
    (ends : ∀ entry ∈ entries, afresh v entry.1 ≠ none) : findEntry (afresh v) entries ≠ none := by
  induction entries with
  | nil => exact nofun
  | cons entry rest ih =>
    obtain ⟨key, w⟩ := entry
    obtain ⟨here, there⟩ := List.forall_mem_cons.1 ends
    refine bind_ne_none here fun answer _ => ?_
    cases answer with
    | true => exact nofun
    | false => exact ih there

theorem findEntry_mono (extend : Extends afresh afresh') {entries : List (Value × Value)} :
    ∀ x, findEntry (afresh v) entries = some x → findEntry (afresh' v) entries = some x := by
  induction entries with
  | nil => exact fun _ answers => answers
  | cons entry rest ih =>
    obtain ⟨key, w⟩ := entry
    refine bind_mono (extend v key) fun answer => ?_
    cases answer with
    | true => exact fun _ answers => answers
    | false => exact ih

theorem anyItem_eq (looks : s.Looks afresh) {items : List Value} {answer : Bool}
    (answers : anyItem (afresh v) items = some answer) : s.isAmong v items = answer := by
  induction items with
  | nil => exact Option.some.inj answers
  | cons item rest ih =>
    rw [anyItem] at answers
    rw [isAmong, List.any_cons]
    cases test : afresh v item with
    | none =>
      rw [test] at answers
      cases answers
    | some found =>
      rw [test] at answers
      rw [looks v item found test]
      cases found with
      | true => exact Option.some.inj answers
      | false => exact ih answers

theorem anyItem_ends {items : List Value} (ends : ∀ item ∈ items, afresh v item ≠ none) :
    anyItem (afresh v) items ≠ none := by
  induction items with
  | nil => exact nofun
  | cons item rest ih =>
    obtain ⟨here, there⟩ := List.forall_mem_cons.1 ends
    refine bind_ne_none here fun answer _ => ?_
    cases answer with
    | true => exact nofun
    | false => exact ih there

/-- A look-up ends that is done comparing with every key. -/
theorem lookUpEnds_of_ends {keys : List Value} (ends : ∀ key ∈ keys, s.equal? v key ≠ none) :
    s.lookUpEnds v keys = true :=
  Option.isSome_iff_ne_none.2 (anyItem_ends ends)

theorem anyItem_mono (extend : Extends afresh afresh') {items : List Value} :
    ∀ x, anyItem (afresh v) items = some x → anyItem (afresh' v) items = some x := by
  induction items with
  | nil => exact fun _ answers => answers
  | cons item rest ih =>
    refine bind_mono (extend v item) fun answer => ?_
    cases answer with
    | true => exact fun _ answers => answers
    | false => exact ih

theorem entriesWithin_verdict (looks : s.Looks afresh) {others entries : List (Value × Value)} :
    Verdict (entriesWithin afresh same others entries)
      (∀ entry ∈ entries, ∃ w, s.lookup? entry.1 others = some w ∧ same entry.2 w = some true)
      (∃ entry ∈ entries, s.lookup? entry.1 others = none ∨
        ∃ w, s.lookup? entry.1 others = some w ∧ same entry.2 w = some false) := by
  induction entries with
  | nil => exact .yes nofun
  | cons entry rest ih =>
    obtain ⟨key, v⟩ := entry
    rw [entriesWithin]
    cases test : findEntry (afresh key) others with
    | none => exact ⟨nofun, nofun⟩
    | some found =>
      have lookup : s.lookup? key others = found.map Prod.snd :=
        congrArg (Option.map Prod.snd) (findEntry_eq looks test)
      cases found with
      | none => exact .no ⟨(key, v), List.mem_cons_self, .inl lookup⟩
      | some entry =>
        obtain ⟨other, w⟩ := entry
        have first : Verdict (same v w) (same v w = some true) (same v w = some false) := ⟨id, id⟩
        refine (first.both ih).imp ?_ ?_
        · rintro ⟨here, rest⟩
          exact List.forall_mem_cons.2 ⟨⟨w, lookup, here⟩, rest⟩
        · rintro (here | ⟨entry, isRest, there⟩)
          · exact ⟨(key, v), List.mem_cons_self, .inr ⟨w, lookup, here⟩⟩
          · exact ⟨entry, List.mem_cons_of_mem _ isRest, there⟩

theorem entriesWithin_ends (looks : s.Looks afresh) {others entries : List (Value × Value)}
    (found : ∀ entry ∈ entries, ∀ other ∈ others, afresh entry.1 other.1 ≠ none)
    (ends : ∀ entry ∈ entries, ∀ w, s.lookup? entry.1 others = some w → same entry.2 w ≠ none) :
    entriesWithin afresh same others entries ≠ none := by
  induction entries with
  | nil => exact nofun
  | cons entry rest ih =>
    obtain ⟨key, v⟩ := entry
    obtain ⟨here, there⟩ := List.forall_mem_cons.1 ends
    obtain ⟨foundHere, foundThere⟩ := List.forall_mem_cons.1 found
    refine bind_ne_none (findEntry_ends foundHere) fun found test => ?_
    cases found with
    | none => exact nofun
    | some entry =>
      refine both_ne_none (here _ ?_) (ih foundThere there)
      exact congrArg (Option.map Prod.snd) (findEntry_eq looks test)

theorem entriesWithin_mono (extend : Extends same same') (extend' : Extends afresh afresh')
    {others entries : List (Value × Value)} :
    ∀ x, entriesWithin afresh same others entries = some x →
      entriesWithin afresh' same' others entries = some x := by
  induction entries with
  | nil => exact fun _ answers => answers
  | cons entry rest ih =>
    obtain ⟨key, v⟩ := entry
    refine bind_mono (findEntry_mono extend') fun found => ?_
    cases found with
    | none => exact fun _ answers => answers
    | some entry => exact both_mono (extend v entry.2) ih

theorem itemsWithin_verdict (looks : s.Looks afresh) {others items : List Value} :
    Verdict (itemsWithin afresh others items) (∀ v ∈ items, s.isAmong v others = true)
      (∃ v ∈ items, s.isAmong v others = false) := by
  induction items with
  | nil => exact .yes nofun
  | cons item rest ih =>
    have first : Verdict (anyItem (afresh item) others) (s.isAmong item others = true)
        (s.isAmong item others = false) := ⟨anyItem_eq looks, anyItem_eq looks⟩
    refine (first.both ih).imp (fun all => List.forall_mem_cons.2 all) ?_
    rintro (here | ⟨v, isRest, there⟩)
    · exact ⟨item, List.mem_cons_self, here⟩
    · exact ⟨v, List.mem_cons_of_mem _ isRest, there⟩

theorem itemsWithin_ends {others items : List Value}
    (found : ∀ item ∈ items, ∀ other ∈ others, afresh item other ≠ none) :
    itemsWithin afresh others items ≠ none := by
  induction items with
  | nil => exact nofun
  | cons item rest ih =>
    obtain ⟨here, there⟩ := List.forall_mem_cons.1 found
    exact both_ne_none (anyItem_ends here) (ih there)

theorem itemsWithin_mono (extend : Extends afresh afresh') {others items : List Value} :
    ∀ x, itemsWithin afresh others items = some x → itemsWithin afresh' others items = some x := by
  induction items with
  | nil => exact fun _ answers => answers
  | cons item rest ih => exact both_mono (anyItem_mono extend) ih

/-! ## Cells -/

theorem dict_verdict (looks : s.Looks afresh) {entries others : List (Value × Value)}
    {frozen flag : Bool} (length : entries.length = others.length) :
    Verdict (entriesWithin afresh same others entries)
      (s.Fits (.dict entries frozen) (.dict others flag) ∧
        ∀ v w, s.Opposite v w (.dict entries frozen) (.dict others flag) → same v w = some true)
      (¬ s.Fits (.dict entries frozen) (.dict others flag) ∨
        ∃ v w, s.Opposite v w (.dict entries frozen) (.dict others flag) ∧
          same v w = some false) := by
  refine (entriesWithin_verdict looks).imp ?_ ?_
  · intro all
    refine ⟨.dict length fun entry isEntry => ?_, fun v w (.value isEntry found) => ?_⟩
    · obtain ⟨w, found, -⟩ := all entry isEntry
      exact Option.isSome_of_mem found
    · obtain ⟨_, found', same⟩ := all _ isEntry
      cases found.symm.trans found'
      exact same
  · rintro ⟨entry, isEntry, missing | ⟨w, found, differ⟩⟩
    · refine .inl fun (.dict _ found) => ?_
      have isSome := found entry isEntry
      rw [missing] at isSome
      cases isSome
    · exact .inr ⟨entry.2, w, .value isEntry found, differ⟩

theorem record_verdict {tag otherTag : Value} {fields others : List (String × Value)}
    (length : fields.length = others.length) :
    Verdict (fieldsWithin same others fields)
      (s.Fits (.record tag fields) (.record otherTag others) ∧
        ∀ v w name, (name, v) ∈ fields → others.lookup name = some w → same v w = some true)
      (¬ s.Fits (.record tag fields) (.record otherTag others) ∨
        ∃ v w name, (name, v) ∈ fields ∧ others.lookup name = some w ∧ same v w = some false) := by
  refine fieldsWithin_verdict.imp ?_ ?_
  · intro all
    refine ⟨.record length fun field isField => ?_, fun v w name isField found => ?_⟩
    · obtain ⟨w, found, -⟩ := all field isField
      exact Option.isSome_of_mem found
    · obtain ⟨_, found', same⟩ := all (name, v) isField
      cases found.symm.trans found'
      exact same
  · rintro ⟨field, isField, missing | ⟨w, found, differ⟩⟩
    · refine .inl fun (.record _ found) => ?_
      have isSome := found field isField
      rw [missing] at isSome
      cases isSome
    · exact .inr ⟨field.2, w, field.1, isField, found, differ⟩

/-- The comparison of two cells that are not met on the way says whether they fit and whether all
that is opposite in them is the same. -/
theorem cellsEqual_verdict (looks : s.Looks afresh) : Verdict (cellsEqual same afresh false c d)
    (s.Fits c d ∧ ∀ v w, s.Opposite v w c d → same v w = some true)
    (¬ s.Fits c d ∨ ∃ v w, s.Opposite v w c d ∧ same v w = some false) := by
  cases c with
  | list items =>
    cases d with
    | list others =>
      refine sameItems_verdict.imp ?_ ?_
      · rintro ⟨length, all⟩
        exact ⟨.list length, fun v w (.item isPair) => all (v, w) isPair⟩
      · rintro (length | ⟨pair, isPair, differ⟩)
        · exact .inl fun (.list same) => length same
        · exact .inr ⟨pair.1, pair.2, .item isPair, differ⟩
    | _ => exact .no (.inl nofun)
  | tuple items =>
    cases d with
    | tuple others =>
      refine sameItems_verdict.imp ?_ ?_
      · rintro ⟨length, all⟩
        exact ⟨.tuple length, fun v w (.member isPair) => all (v, w) isPair⟩
      · rintro (length | ⟨pair, isPair, differ⟩)
        · exact .inl fun (.tuple same) => length same
        · exact .inr ⟨pair.1, pair.2, .member isPair, differ⟩
    | _ => exact .no (.inl nofun)
  | set items =>
    cases d with
    | set others =>
      simp only [cellsEqual]
      split
      · next length =>
        refine (itemsWithin_verdict looks).imp (fun all => ⟨.set length all, nofun⟩) ?_
        rintro ⟨v, isItem, missing⟩
        refine .inl fun (.set _ found) => ?_
        rw [found v isItem] at missing
        cases missing
      · next length => exact .no (.inl fun (.set same _) => length same)
    | _ => exact .no (.inl nofun)
  | dict entries =>
    cases d with
    | dict others =>
      simp only [cellsEqual, Bool.false_eq_true, if_false]
      split
      · next length => exact dict_verdict looks length
      · next length => exact .no (.inl fun (.dict same _) => length same)
    | _ => exact .no (.inl nofun)
  | record tag fields =>
    cases d with
    | record otherTag others =>
      have first : Verdict (same tag otherTag) (same tag otherTag = some true)
        (same tag otherTag = some false) := ⟨id, id⟩
      have rest : Verdict
          (if fields.length = others.length then fieldsWithin same others fields else return false)
          (s.Fits (.record tag fields) (.record otherTag others) ∧
            ∀ v w name, (name, v) ∈ fields → others.lookup name = some w → same v w = some true)
          (¬ s.Fits (.record tag fields) (.record otherTag others) ∨
            ∃ v w name, (name, v) ∈ fields ∧ others.lookup name = some w ∧
              same v w = some false) := by
        split
        · next length => exact record_verdict length
        · next length => exact .no (.inl fun (.record same _) => length same)
      refine (first.both rest).imp ?_ ?_
      · rintro ⟨tags, fits, all⟩
        refine ⟨fits, fun v w opposite => ?_⟩
        cases opposite with
        | tag => exact tags
        | field isField found => exact all v w _ isField found
      · rintro (tags | unfit | ⟨v, w, name, isField, found, differ⟩)
        · exact .inr ⟨tag, otherTag, .tag, tags⟩
        · exact .inl unfit
        · exact .inr ⟨v, w, .field isField found, differ⟩
    | _ => exact .no (.inl nofun)
  | module | function | mapping | extension | proxy => cases d <;> exact .no (.inl nofun)

/-- A pair of cells that is met again is unequal only where it is so at once. -/
theorem cellsEqual_of_met {met : Bool} (unequal : cellsEqual same afresh met c d = some false) :
    cellsEqual same afresh false c d = some false := by
  cases met with
  | false => exact unequal
  | true =>
    cases c <;> cases d <;> first | exact unequal | cases unequal

/-- Parts of a pair that is met again are not compared. -/
theorem cellsEqual_met (same' : Value → Value → Option Bool) :
    cellsEqual same afresh true c d = cellsEqual same' afresh true c d := by
  cases c <;> cases d <;> rfl

theorem cellsEqual_ends (looks : s.Looks afresh) {met : Bool}
    (found : ∀ v ∈ c.keys, ∀ w ∈ d.keys, afresh v w ≠ none)
    (ends : ∀ v w, s.Opposite v w c d → same v w ≠ none) :
    cellsEqual same afresh met c d ≠ none := by
  -- A comparison that goes on is one that has not met the pair.
  have unless_met {rest : Option Bool} (h : rest ≠ none) :
      (if met then some true else rest) ≠ none := by
    cases met with
    | true => exact nofun
    | false => exact h
  cases c with
  | list items =>
    cases d with
    | list others => exact unless_met (sameItems_ends fun pair isPair => ends _ _ (.item isPair))
    | _ => exact nofun
  | tuple items =>
    cases d with
    | tuple others => exact unless_met (sameItems_ends fun pair isPair => ends _ _ (.member isPair))
    | _ => exact nofun
  | set items =>
    cases d with
    | set others =>
      rw [cellsEqual]
      split
      · exact itemsWithin_ends found
      · exact nofun
    | _ => exact nofun
  | dict entries =>
    cases d with
    | dict others =>
      refine unless_met ?_
      split
      · refine entriesWithin_ends looks (fun entry isEntry other isOther => ?_)
          fun entry isEntry w isFound => ends entry.2 w (.value isEntry isFound)
        exact found _ (List.mem_map_of_mem isEntry) _ (List.mem_map_of_mem isOther)
      · exact nofun
    | _ => exact nofun
  | record tag fields =>
    cases d with
    | record otherTag others =>
      refine unless_met (both_ne_none (ends tag otherTag .tag) ?_)
      split
      · exact fieldsWithin_ends fun field isField w isFound =>
          ends field.2 w (.field isField isFound)
      · exact nofun
    | _ => exact nofun
  | module | function | mapping | extension | proxy => cases d <;> exact nofun

theorem cellsEqual_mono (extend : Extends same same') (extend' : Extends afresh afresh')
    {met : Bool} : ∀ x, cellsEqual same afresh met c d = some x →
      cellsEqual same' afresh' met c d = some x := by
  have unless_met {rest rest' : Option Bool} (h : ∀ x, rest = some x → rest' = some x) :
      ∀ x, (if met then some true else rest) = some x →
        (if met then some true else rest') = some x := by
    cases met with
    | true => exact fun _ answers => answers
    | false => exact h
  have if_fits {a b : Nat} {rest rest' : Option Bool} (h : ∀ x, rest = some x → rest' = some x) :
      ∀ x, (if a = b then rest else some false) = some x →
        (if a = b then rest' else some false) = some x := by
    split
    · exact h
    · exact fun _ answers => answers
  cases c with
  | list items =>
    cases d with
    | list others => exact unless_met (sameItems_mono extend)
    | _ => exact fun _ answers => answers
  | tuple items =>
    cases d with
    | tuple others => exact unless_met (sameItems_mono extend)
    | _ => exact fun _ answers => answers
  | set items =>
    cases d with
    | set others => exact if_fits (itemsWithin_mono extend')
    | _ => exact fun _ answers => answers
  | dict entries =>
    cases d with
    | dict others => exact unless_met (if_fits (entriesWithin_mono extend extend'))
    | _ => exact fun _ answers => answers
  | record tag fields =>
    cases d with
    | record otherTag others =>
      exact unless_met (both_mono (extend tag otherTag) (if_fits (fieldsWithin_mono extend)))
    | _ => exact fun _ answers => answers
  | module | function | mapping | extension | proxy =>
    cases d <;> exact fun _ answers => answers

end Tests

end Store
end Interchange
