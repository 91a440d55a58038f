import Mathlib.Data.List.Find
import Mathlib.Data.List.Zip
import Interchange.Proofs.Store.Difference
import Interchange.Proofs.Store.Step

/-!
# Lawful keys

A look-up asks for one cell in another, and not the other way round. Where equality of the keys is
symmetric and transitive (`Store.Lawful`) and the keys of each cell are apart, that does not matter:
what fits one way fits the other way (`Fits.symm`), since each of equally many keys finds a partner
of its own. Then differing is symmetric (`Differs.symm`), and of two values that differ any third one
differs from one of them (`Differs.split`).
-/

namespace Interchange.Store

variable {s : Store} {u v w : Value} {c d e : Cell} {n : Nat}

/-! ## Look-ups both ways -/

/-- When the elements of a list have partners in another of the same length, and no two of them
have the same, then all elements of the other list are partners. -/
theorem exists_partner {α β : Type} {partner : α → β → Prop} {as : List α} {bs : List β}
    (alone : as.Pairwise fun a a' => ∀ b ∈ bs, partner a b → ¬ partner a' b)
    (found : ∀ a ∈ as, ∃ b ∈ bs, partner a b) (length : as.length = bs.length) :
    ∀ b ∈ bs, ∃ a ∈ as, partner a b := by
  induction as generalizing bs with
  | nil =>
    intro b isOther
    rw [List.length_eq_zero_iff.1 length.symm] at isOther
    cases isOther
  | cons a as ih =>
    obtain ⟨first, others⟩ := List.pairwise_cons.1 alone
    obtain ⟨b, isOther, match₁⟩ := found a List.mem_cons_self
    obtain ⟨before, after, rfl⟩ := List.append_of_mem isOther
    -- What is left of the second list has the same length as what is left of the first.
    have left {c : β} : c ∈ before ++ b :: after ↔ c = b ∨ c ∈ before ++ after := by
      simp only [List.mem_append, List.mem_cons]
      exact or_left_comm
    have rest : ∀ c ∈ before ++ after, ∃ a ∈ as, partner a c := ih
      (others.imp fun alone c isLeft => alone c (left.2 (.inr isLeft)))
      (fun a' isRest => by
        obtain ⟨c, isOther, match₂⟩ := found a' (List.mem_cons_of_mem _ isRest)
        rcases left.1 isOther with rfl | isLeft
        · exact absurd match₂ (first a' isRest c isOther match₁)
        · exact ⟨c, isLeft, match₂⟩)
      (by simp only [List.length_append, List.length_cons] at length ⊢; omega)
    intro c isOther
    rcases left.1 isOther with rfl | isLeft
    · exact ⟨a, List.mem_cons_self, match₁⟩
    · obtain ⟨a', isRest, match₂⟩ := rest c isLeft
      exact ⟨a', List.mem_cons_of_mem _ isRest, match₂⟩

theorem mem_of_lookup {κ α : Type} [DecidableEq κ] {name : κ} {fields : List (κ × α)} {v : α}
    (found : fields.lookup name = some v) : (name, v) ∈ fields := by
  obtain ⟨before, after, rfl, -⟩ := List.lookup_eq_some_iff.1 found
  simp

/-- Where names are distinct, a field is what its name is looked up to. -/
theorem lookup_of_mem {κ α : Type} [DecidableEq κ] {name : κ} {fields : List (κ × α)} {v : α}
    (names : (fields.map Prod.fst).Nodup) (isField : (name, v) ∈ fields) :
    fields.lookup name = some v := by
  induction fields with
  | nil => cases isField
  | cons field rest ih =>
    obtain ⟨other, w⟩ := field
    obtain ⟨fresh, names⟩ := List.nodup_cons.1 names
    rcases List.mem_cons.1 isField with same | isRest
    · cases same
      exact List.lookup_cons_self
    · have differ : (name == other) = false := by
        refine beq_false_of_ne fun same => fresh ?_
        subst same
        exact List.mem_map.2 ⟨(name, v), isRest, rfl⟩
      rw [List.lookup_cons, differ]
      exact ih names isRest

theorem lookup_isSome_iff {name : String} {fields : List (String × Value)} :
    (fields.lookup name).isSome = true ↔ ∃ field ∈ fields, name = field.1 := by
  rw [List.lookup_isSome_iff]
  simp

theorem lookup?_cons (s : Store) (key other value : Value) (rest : List (Value × Value)) :
    s.lookup? key ((other, value) :: rest) =
      if s.equals key other then some value else s.lookup? key rest := by
  rw [lookup?, findKey?, List.find?_cons]
  cases s.equals key other <;> rfl

theorem lookup?_isSome_iff {entries : List (Value × Value)} :
    (s.lookup? v entries).isSome = true ↔ ∃ entry ∈ entries, s.equals v entry.1 = true := by
  simp [lookup?, findKey?]

theorem isAmong_iff {items : List Value} :
    s.isAmong v items = true ↔ ∃ item ∈ items, s.equals v item = true := by
  simp [isAmong]

theorem exists_of_lookup? {entries : List (Value × Value)} (found : s.lookup? v entries = some w) :
    ∃ key, (key, w) ∈ entries ∧ s.equals v key = true := by
  obtain ⟨entry, isFirst, rfl⟩ := Option.map_eq_some_iff.1 found
  exact ⟨entry.1, List.mem_of_find?_eq_some isFirst, (List.find?_eq_some_iff_append.1 isFirst).1⟩

/-- A key that equals none is entered at the end. -/
theorem putEntry_of_fresh {entries : List (Value × Value)} (value : Value)
    (fresh : ∀ key ∈ entries.map Prod.fst, s.equals v key = false) :
    s.putEntry v value entries = entries ++ [(v, value)] := by
  induction entries with
  | nil => rfl
  | cons entry rest ih =>
    obtain ⟨unequal, fresh⟩ := List.forall_mem_cons.1 fresh
    rw [putEntry, unequal]
    exact congrArg (entry :: ·) (ih fresh)

/-- On some values, equality is symmetric and transitive. -/
structure Lawful (s : Store) (keys : Value → Prop) : Prop where
  symm {v w : Value} : keys v → keys w → s.equals v w = true → s.equals w v = true
  trans {u v w : Value} : keys u → keys v → keys w →
    s.equals u v = true → s.equals v w = true → s.equals u w = true

/-- Neither of two values equals the other. -/
def Apart (s : Store) (v w : Value) : Prop := s.equals v w = false ∧ s.equals w v = false

section Keys

variable {keys : Value → Prop} (lawful : s.Lawful keys)
include lawful

/-- Equal keys equal the same keys. -/
theorem Lawful.equals_eq {v' : Value} (hv : keys v) (hv' : keys v') (hw : keys w)
    (equal : s.equals v v' = true) : s.equals v w = s.equals v' w :=
  Bool.eq_iff_iff.2 ⟨lawful.trans hv' hv hw (lawful.symm hv hv' equal),
    lawful.trans hv hv' hw equal⟩

/-- Equal keys have the same value. -/
theorem Lawful.lookup?_eq {v' : Value} {entries : List (Value × Value)} (hv : keys v)
    (hv' : keys v') (hs : ∀ key ∈ entries.map Prod.fst, keys key)
    (equal : s.equals v v' = true) : s.lookup? v entries = s.lookup? v' entries := by
  have found : s.findKey? v entries = s.findKey? v' entries :=
    List.find?_congr fun entry isEntry =>
      lawful.equals_eq hv hv' (hs _ (List.mem_map_of_mem isEntry)) equal
  rw [lookup?, lookup?, found]

/-- Where keys are apart, a value is what a key is looked up to that equals its own. -/
theorem Lawful.lookup?_of_mem {key : Value} {entries : List (Value × Value)}
    (hs : ∀ key ∈ entries.map Prod.fst, keys key) (apart : (entries.map Prod.fst).Pairwise s.Apart)
    (isEntry : (key, w) ∈ entries) (hv : keys v) (equal : s.equals v key = true) :
    s.lookup? v entries = some w := by
  induction entries with
  | nil => cases isEntry
  | cons entry rest ih =>
    obtain ⟨other, w'⟩ := entry
    obtain ⟨first, apart⟩ := List.pairwise_cons.1 apart
    obtain ⟨hsFirst, hsRest⟩ := List.forall_mem_cons.1 hs
    rw [lookup?, findKey?, List.find?_cons]
    rcases List.mem_cons.1 isEntry with same | isRest
    · cases same
      rw [equal]
      rfl
    · have isKey : key ∈ rest.map Prod.fst := List.mem_map_of_mem isRest
      have unequal : s.equals v other = false := by
        rw [lawful.equals_eq hv (hsRest key isKey) hsFirst equal]
        exact (first key isKey).2
      rw [show s.equals v (other, w').1 = false from unequal]
      exact ih hsRest apart isRest

/-- No value equals two keys that are apart. -/
theorem Lawful.alone {as bs : List Value} (has : ∀ v ∈ as, keys v) (hbs : ∀ v ∈ bs, keys v)
    (apart : as.Pairwise s.Apart) :
    as.Pairwise fun a a' => ∀ b ∈ bs, s.equals a b = true → ¬ s.equals a' b = true := by
  refine apart.imp_of_mem fun {a a'} isItem isItem' apart b isOther equal equal' => ?_
  have same := lawful.trans (has a isItem) (hbs b isOther) (has a' isItem') equal
    (lawful.symm (has a' isItem') (hbs b isOther) equal')
  rw [apart.1] at same
  cases same

/-- What fits a cell with distinct names and keys fits the other way, too. -/
theorem Fits.symm (fits : s.Fits c d) (names : c.names.Nodup) (apart : c.keys.Pairwise s.Apart)
    (hc : ∀ v ∈ c.keys, keys v) (hd : ∀ v ∈ d.keys, keys v) : s.Fits d c := by
  cases fits with
  | list length => exact .list length.symm
  | tuple length => exact .tuple length.symm
  | set length found =>
    refine .set length.symm fun w isOther => isAmong_iff.2 ?_
    obtain ⟨v, isItem, equal⟩ := exists_partner (lawful.alone hc hd apart)
      (fun v isItem => isAmong_iff.1 (found v isItem)) length w isOther
    exact ⟨v, isItem, lawful.symm (hc v isItem) (hd w isOther) equal⟩
  | @dict entries others _ _ length found =>
    refine .dict length.symm fun entry isOther => lookup?_isSome_iff.2 ?_
    have isKey' := List.mem_map_of_mem (f := Prod.fst) isOther
    obtain ⟨key, isKey, equal⟩ := exists_partner (lawful.alone hc hd apart)
      (fun key isKey => by
        obtain ⟨entry, isEntry, rfl⟩ := List.mem_map.1 isKey
        obtain ⟨other, isOther, equal⟩ := lookup?_isSome_iff.1 (found entry isEntry)
        exact ⟨other.1, List.mem_map_of_mem isOther, equal⟩)
      (by simpa [Cell.keys] using length) entry.1 isKey'
    obtain ⟨other, isEntry, rfl⟩ := List.mem_map.1 isKey
    exact ⟨other, isEntry, lawful.symm (hc _ isKey) (hd _ isKey') equal⟩
  | @record tag otherTag fields others length found =>
    refine .record length.symm fun field isOther => lookup_isSome_iff.2 ?_
    have alone : fields.Pairwise fun a a' => ∀ b ∈ others, a.1 = b.1 → ¬ a'.1 = b.1 :=
      (List.pairwise_map.1 names).imp fun differ b _ same same' => differ (same.trans same'.symm)
    obtain ⟨field', isField, same⟩ := exists_partner alone
      (fun field isField => lookup_isSome_iff.1 (found field isField)) length field isOther
    exact ⟨field', isField, same.symm⟩

/-- What is opposite is so the other way, too. -/
theorem Opposite.symm (opposite : s.Opposite v w c d) (names : c.names.Nodup)
    (apart : c.keys.Pairwise s.Apart) (hc : ∀ v ∈ c.keys, keys v) (hd : ∀ v ∈ d.keys, keys v) :
    s.Opposite w v d c := by
  have swap {items others : List Value} (isPair : (v, w) ∈ items.zip others) :
      (w, v) ∈ others.zip items := by
    rw [← List.zip_swap]
    exact List.mem_map.2 ⟨(v, w), isPair, rfl⟩
  cases opposite with
  | item isPair => exact .item (swap isPair)
  | member isPair => exact .member (swap isPair)
  | value isEntry found =>
    obtain ⟨key', isOther, equal⟩ := exists_of_lookup? found
    have isKey := hc _ (List.mem_map_of_mem isEntry)
    have isKey' := hd key' (List.mem_map_of_mem isOther)
    exact .value isOther
      (lawful.lookup?_of_mem hc apart isEntry isKey' (lawful.symm isKey isKey' equal))
  | tag => exact .tag
  | field isField found => exact .field (mem_of_lookup found) (lookup_of_mem names isField)

omit lawful in
/-- Between opposite elements of two lists stands one of a third. -/
theorem exists_between {α β γ : Type} {as : List α} {bs : List β} {cs : List γ} {v : α} {w : γ}
    (length : as.length = bs.length) (isPair : (v, w) ∈ as.zip cs) :
    ∃ u, (v, u) ∈ as.zip bs ∧ (u, w) ∈ bs.zip cs := by
  induction as generalizing bs cs with
  | nil => cases isPair
  | cons a as ih =>
    cases bs with
    | nil => cases length
    | cons b bs =>
      cases cs with
      | nil => cases isPair
      | cons c cs =>
        rcases List.mem_cons.1 isPair with same | isRest
        · cases same
          exact ⟨b, List.mem_cons_self, List.mem_cons_self⟩
        · obtain ⟨u, first, second⟩ := ih (Nat.succ.inj length) isRest
          exact ⟨u, List.mem_cons_of_mem _ first, List.mem_cons_of_mem _ second⟩

/-- What fits a cell that fits a third one fits the third. -/
theorem Fits.trans (fits : s.Fits c e) (fits' : s.Fits e d) (hc : ∀ v ∈ c.keys, keys v)
    (he : ∀ v ∈ e.keys, keys v) (hd : ∀ v ∈ d.keys, keys v) : s.Fits c d := by
  cases fits with
  | list length =>
    cases fits' with
    | list length' => exact .list (length.trans length')
  | tuple length =>
    cases fits' with
    | tuple length' => exact .tuple (length.trans length')
  | set length found =>
    cases fits' with
    | set length' found' =>
      refine .set (length.trans length') fun v isItem => isAmong_iff.2 ?_
      obtain ⟨u, isOther, equal⟩ := isAmong_iff.1 (found v isItem)
      obtain ⟨w, isThird, equal'⟩ := isAmong_iff.1 (found' u isOther)
      exact ⟨w, isThird, lawful.trans (hc v isItem) (he u isOther) (hd w isThird) equal equal'⟩
  | dict length found =>
    cases fits' with
    | dict length' found' =>
      refine .dict (length.trans length') fun entry isEntry => lookup?_isSome_iff.2 ?_
      obtain ⟨other, isOther, equal⟩ := lookup?_isSome_iff.1 (found entry isEntry)
      obtain ⟨third, isThird, equal'⟩ := lookup?_isSome_iff.1 (found' other isOther)
      exact ⟨third, isThird, lawful.trans (hc _ (List.mem_map_of_mem isEntry))
        (he _ (List.mem_map_of_mem isOther)) (hd _ (List.mem_map_of_mem isThird)) equal equal'⟩
  | record length found =>
    cases fits' with
    | record length' found' =>
      refine .record (length.trans length') fun field isField => ?_
      obtain ⟨other, isOther, same⟩ := lookup_isSome_iff.1 (found field isField)
      rw [same]
      exact found' other isOther

/-- Between opposite values of two cells stands one of a cell between them. -/
theorem Opposite.between (opposite : s.Opposite v w c d) (fits : s.Fits c e) (fits' : s.Fits e d)
    (hc : ∀ v ∈ c.keys, keys v) (he : ∀ v ∈ e.keys, keys v) (hd : ∀ v ∈ d.keys, keys v) :
    ∃ u, s.Opposite v u c e ∧ s.Opposite u w e d := by
  cases opposite with
  | item isPair =>
    cases fits with
    | list length =>
      obtain ⟨u, first, second⟩ := exists_between length isPair
      exact ⟨u, .item first, .item second⟩
  | member isPair =>
    cases fits with
    | tuple length =>
      obtain ⟨u, first, second⟩ := exists_between length isPair
      exact ⟨u, .member first, .member second⟩
  | value isEntry isValue =>
    cases fits with
    | dict _ found =>
      obtain ⟨u, isOther⟩ := Option.isSome_iff_exists.1 (found _ isEntry)
      obtain ⟨key, isKey, equal⟩ := exists_of_lookup? isOther
      refine ⟨u, .value isEntry isOther, .value isKey ?_⟩
      rw [← isValue]
      exact (lawful.lookup?_eq (hc _ (List.mem_map_of_mem isEntry))
        (he _ (List.mem_map_of_mem isKey)) hd equal).symm
  | tag =>
    cases fits with
    | record => exact ⟨_, .tag, .tag⟩
  | field isField isOther =>
    cases fits with
    | record _ found =>
      obtain ⟨u, between⟩ := Option.isSome_iff_exists.1 (found _ isField)
      exact ⟨u, .field isField between, .field (mem_of_lookup between) isOther⟩

/-- Of two values that differ, any other differs from one, where all keys on the way are lawful. -/
theorem Differs.split (tame : Value → Prop)
    (hkeys : ∀ r, tame (.object r) → ∀ v ∈ (s.cell r).keys, keys v)
    (parts : ∀ r q v w, tame (.object r) → tame (.object q) →
      s.Opposite v w (s.cell r) (s.cell q) → tame v ∧ tame w)
    (differs : s.Differs n v w) (hv : tame v) (hu : tame u) (hw : tame w) :
    s.Differs n v u ∨ s.Differs n u w := by
  induction differs generalizing u with
  | @scalars _ v w scalar unequal =>
    cases first : scalarEqual v u with
    | true =>
      obtain ⟨isScalar, same⟩ := scalarEqual_iff.1 first
      have isScalar' : u.identity? = none := by
        rw [scalarEqual_comm] at first
        exact (scalarEqual_iff.1 first).1
      refine .inr (.scalars (.inl isScalar') (Bool.eq_false_iff.2 fun second => ?_))
      rw [scalarEqual_iff.2 ⟨isScalar, same.trans (scalarEqual_iff.1 second).2⟩] at unequal
      cases unequal
    | false =>
      rcases scalar with isScalar | isScalar
      · exact .inl (.scalars (.inl isScalar) first)
      · by_cases isScalar' : u.identity? = none
        · exact .inl (.scalars (.inr isScalar') first)
        · refine .inr (.scalars (.inr isScalar) (Bool.eq_false_iff.2 fun second => ?_))
          exact isScalar' (scalarEqual_iff.1 second).1
  | @cells _ r q other unfit =>
    by_cases isScalar : u.identity? = none
    · exact .inl (.scalars (.inr isScalar) (scalarEqual_object _ u))
    · obtain ⟨p, found⟩ := Option.ne_none_iff_exists'.1 isScalar
      obtain rfl := Value.identity?_eq_some.1 found
      by_cases first : r = p
      · subst first
        exact .inr (.cells other unfit)
      · by_cases second : p = q
        · subst second
          exact .inl (.cells other unfit)
        · by_cases fits : s.Fits (s.cell r) (s.cell p)
          · refine .inr (.cells second fun fits' => unfit ?_)
            exact fits.trans lawful fits' (hkeys r hv) (hkeys p hu) (hkeys q hw)
          · exact .inl (.cells first fits)
  | @parts n r q v w other opposite differs ih =>
    by_cases isScalar : u.identity? = none
    · exact .inl (.scalars (.inr isScalar) (scalarEqual_object _ u))
    · obtain ⟨p, found⟩ := Option.ne_none_iff_exists'.1 isScalar
      obtain rfl := Value.identity?_eq_some.1 found
      by_cases first : r = p
      · subst first
        exact .inr (.parts other opposite differs)
      · by_cases second : p = q
        · subst second
          exact .inl (.parts other opposite differs)
        · by_cases fits : s.Fits (s.cell r) (s.cell p)
          · by_cases fits' : s.Fits (s.cell p) (s.cell q)
            · obtain ⟨u, before, after⟩ := opposite.between lawful fits fits'
                (hkeys r hv) (hkeys p hu) (hkeys q hw)
              have tame := parts r q v w hv hw opposite
              rcases ih tame.1 (parts p q u w hu hw after).1 tame.2 with differ | differ
              · exact .inl (.parts first before differ)
              · exact .inr (.parts second after differ)
            · exact .inr (.cells second fits')
          · exact .inl (.cells first fits)

end Keys

/-- Differing is symmetric among pairs whose cells fit and stand opposite both ways. -/
theorem Differs.symm (related : Value → Value → Prop)
    (fits : ∀ r q, related (.object r) (.object q) → s.Fits (s.cell q) (s.cell r) →
      s.Fits (s.cell r) (s.cell q))
    (opposite : ∀ r q v w, related (.object r) (.object q) → s.Opposite v w (s.cell r) (s.cell q) →
      s.Opposite w v (s.cell q) (s.cell r) ∧ related v w)
    (differs : s.Differs n v w) (h : related v w) : s.Differs n w v := by
  induction differs with
  | scalars scalar unequal =>
    rw [scalarEqual_comm] at unequal
    exact .scalars scalar.symm unequal
  | cells other unfit => exact .cells other.symm fun back => unfit (fits _ _ h back)
  | parts other isOpposite _ ih =>
    obtain ⟨back, h⟩ := opposite _ _ _ _ h isOpposite
    exact .parts other.symm back (ih h)

end Interchange.Store
