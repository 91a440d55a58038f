import Interchange.Proofs.Crossing.NormalForm
import Interchange.Proofs.Json.Lexemes
import Interchange.Proofs.Json.Objects

/-!
# Trees as they stand in a text

A tree that was read no longer says how its numbers were written. The source of a tree has each number
digit for digit, as the numeral that stands in the text (`Json.Source`). Every text that is read has a
source, and the tree is what the source means (`source_of_parse`).
-/

namespace Interchange.Json

/-! ## Numerals in a text -/

/-- The text of an exponent: a mark of either size, and a sign that may be left out for a plus. -/
inductive ExponentText : Option (Bool × List Char) → List Char → Prop
  | none : ExponentText none []
  | minus {mark : Char} {digits : List Char} (isMark : isExponentMark mark = true) :
      ExponentText (some (true, digits)) (mark :: '-' :: digits)
  | plus {mark : Char} {digits : List Char} (isMark : isExponentMark mark = true) :
      ExponentText (some (false, digits)) (mark :: '+' :: digits)
  | plain {mark : Char} {digits : List Char} (isMark : isExponentMark mark = true) :
      ExponentText (some (false, digits)) (mark :: digits)

/-- The text spells the numeral, after its sign. -/
structure Numeral.SpelledMagnitude (n : Numeral) (text : List Char) : Prop extends n.Proper where
  chars : ∃ exponent, ExponentText n.exponent exponent ∧
    text = n.whole ++ (fractionChars n.fraction ++ exponent)

/-- The text spells the numeral. -/
def Numeral.Spelled (n : Numeral) (text : List Char) : Prop :=
  ∃ magnitude, n.SpelledMagnitude magnitude ∧
    text = (if n.negative then ['-'] else []) ++ magnitude

variable {text digits rest : List Char} {n : Numeral} {negative : Bool}

theorem takeDigits_eq (text : List Char) :
    text = (takeDigits text).1 ++ (takeDigits text).2 ∧
      ∀ c ∈ (takeDigits text).1, c.isDigit = true :=
  ⟨List.takeWhile_append_dropWhile.symm, fun _ isDigit => List.mem_takeWhile_imp isDigit⟩

theorem all_cons_takeDigits {c : Char} (isDigit : c.isDigit = true) (text : List Char) :
    ∀ d ∈ c :: (takeDigits text).1, d.isDigit = true :=
  List.forall_mem_cons.2 ⟨isDigit, (takeDigits_eq text).2⟩

theorem wholeDigits_ok (read : wholeDigits text = .ok (digits, rest)) :
    text = digits ++ rest ∧ IsWhole digits := by
  unfold wholeDigits at read
  split at read
  · cases read
  · split at read
    · split at read
      · cases read
      · cases read
        exact ⟨rfl, isWhole_zero⟩
    · cases read
      exact ⟨rfl, isWhole_zero⟩
  · next c behind nonzero =>
    split at read
    · next isDigit =>
      cases read
      refine ⟨congrArg (c :: ·) (takeDigits_eq behind).1, all_cons_takeDigits isDigit behind, ?_⟩
      refine .inr ⟨c, _, rfl, ?_⟩
      rintro rfl
      exact nonzero rfl
    · cases read

theorem fractionDigits_ok (read : fractionDigits text = .ok (digits, rest)) :
    text = digits ++ rest ∧ IsTail digits := by
  obtain ⟨parts, all⟩ := takeDigits_eq text
  unfold fractionDigits at read
  split at read
  · cases read
  · cases read
  · next taken behind some took =>
    rw [took] at parts all
    cases read
    exact ⟨parts, all, fun none => some none⟩

theorem optionalFraction_ok {fraction : Option (List Char)}
    (read : optionalFraction text = .ok (fraction, rest)) :
    text = fractionChars fraction ++ rest ∧ ∀ digits ∈ fraction, IsTail digits := by
  unfold optionalFraction at read
  split at read
  · obtain ⟨⟨digits, behind⟩, inner, made⟩ := exists_of_bind_eq_ok read
    cases made
    obtain ⟨parts, tail⟩ := fractionDigits_ok inner
    refine ⟨congrArg ('.' :: ·) parts, ?_⟩
    rintro _ ⟨⟩
    exact tail
  · cases read
    exact ⟨rfl, nofun⟩

theorem exponentPart_ok {mark : Char} (isMark : isExponentMark mark = true)
    (read : exponentPart text = .ok ((negative, digits), rest)) :
    ∃ exponent, ExponentText (some (negative, digits)) exponent ∧ IsTail digits ∧
      mark :: text = exponent ++ rest := by
  unfold exponentPart at read
  split at read
  next sign behind signed =>
  split at read
  · cases read
  · next c more =>
    split at read
    · next isDigit =>
      cases read
      have tail : IsTail (c :: (takeDigits more).1) :=
        ⟨all_cons_takeDigits isDigit more, List.cons_ne_nil _ _⟩
      have parts : c :: more = c :: (takeDigits more).1 ++ (takeDigits more).2 :=
        congrArg (c :: ·) (takeDigits_eq more).1
      -- The sign, if there is one, stands before the digits.
      split at signed
      · cases signed
        exact ⟨_, .plus isMark, tail, by rw [parts]; rfl⟩
      · cases signed
        exact ⟨_, .minus isMark, tail, by rw [parts]; rfl⟩
      · cases signed
        exact ⟨_, .plain isMark, tail, by rw [parts]; rfl⟩
    · cases read

theorem optionalExponent_ok {exponent : Option (Bool × List Char)}
    (read : optionalExponent text = .ok (exponent, rest)) :
    ∃ chars, ExponentText exponent chars ∧ (∀ part ∈ exponent, IsTail part.2) ∧
      text = chars ++ rest := by
  unfold optionalExponent at read
  split at read
  · cases read
    exact ⟨[], .none, nofun, rfl⟩
  · next mark behind =>
    split at read
    · next isMark =>
      obtain ⟨⟨⟨negative, digits⟩, more⟩, inner, made⟩ := exists_of_bind_eq_ok read
      cases made
      obtain ⟨chars, spelled, tail, parts⟩ := exponentPart_ok isMark inner
      refine ⟨chars, spelled, ?_, parts⟩
      rintro _ ⟨⟩
      exact tail
    · cases read
      exact ⟨[], .none, nofun, rfl⟩

theorem numeral_ok (read : numeral negative text = .ok (n, rest)) :
    n.negative = negative ∧ ∃ magnitude, n.SpelledMagnitude magnitude ∧ text = magnitude ++ rest := by
  obtain ⟨⟨whole, more⟩, readWhole, read⟩ := exists_of_bind_eq_ok read
  obtain ⟨⟨fraction, more'⟩, readFraction, read⟩ := exists_of_bind_eq_ok read
  obtain ⟨⟨exponent, more''⟩, readExponent, made⟩ := exists_of_bind_eq_ok read
  cases made
  obtain ⟨rfl, isWhole⟩ := wholeDigits_ok readWhole
  obtain ⟨rfl, tails⟩ := optionalFraction_ok readFraction
  obtain ⟨chars, spelled, tail, rfl⟩ := optionalExponent_ok readExponent
  exact ⟨rfl, _, ⟨⟨isWhole, tails, tail⟩, chars, spelled, rfl⟩, by simp⟩

theorem numeral_negative_ok (read : numeral true text = .ok (n, rest)) :
    ∃ digits, n.Spelled digits ∧ '-' :: text = digits ++ rest := by
  obtain ⟨negative, magnitude, spelled, rfl⟩ := numeral_ok read
  exact ⟨_, ⟨magnitude, spelled, rfl⟩, by rw [negative]; rfl⟩

theorem numeral_positive_ok (read : numeral false text = .ok (n, rest)) :
    ∃ digits, n.Spelled digits ∧ text = digits ++ rest := by
  obtain ⟨negative, magnitude, spelled, rfl⟩ := numeral_ok read
  exact ⟨_, ⟨magnitude, spelled, rfl⟩, by rw [negative]; rfl⟩

theorem eq_ok_of_mapError {ε δ α : Type} {f : ε → δ} {a : α} {result : Except ε α}
    (mapped : result.mapError f = .ok a) : result = .ok a := by
  cases result with
  | error => cases mapped
  | ok b =>
    cases mapped
    rfl

theorem Numeral.parse_ok {text : String} (read : Numeral.parse text = .ok n) :
    n.Spelled text.toList := by
  unfold Numeral.parse at read
  dsimp only at read
  have read := eq_ok_of_mapError read
  split at read
  · next m whole =>
    cases read
    split at whole
    · cases whole
    · next chars =>
      obtain ⟨digits, spelled, parts⟩ := numeral_negative_ok whole
      rwa [chars, parts, List.append_nil]
    · next chars =>
      split at whole
      · obtain ⟨digits, spelled, parts⟩ := numeral_positive_ok whole
        rwa [chars, parts, List.append_nil]
      · cases whole
  · cases read
  · split at read <;> cases read

/-! ## Sources -/

section Grammar

variable {α : Type} (close : Char) (Element : α → List Char → List Char → Prop)

/-- Elements of a container up to the closing character; whether none has been read yet. -/
inductive Listed : Bool → List α → List Char → List Char → Prop
  | close {first : Bool} {text rest : List Char} (closed : skipBlanks text = close :: rest) :
      Listed first [] text rest
  | first {a : α} {as : List α} {text behind rest : List Char}
      (element : Element a (skipBlanks text) behind) (more : Listed false as behind rest) :
      Listed true (a :: as) text rest
  | next {a : α} {as : List α} {text after behind rest : List Char}
      (comma : skipBlanks text = ',' :: after) (element : Element a (skipBlanks after) behind)
      (more : Listed false as behind rest) : Listed false (a :: as) text rest

end Grammar

/-- What a value that is no container has in a text, up to the rest. -/
inductive LeafSource : Json → List Char → List Char → Prop
  | null {text rest : List Char} (here : skipBlanks text = 'n' :: 'u' :: 'l' :: 'l' :: rest) :
      LeafSource .null text rest
  | true {text rest : List Char} (here : skipBlanks text = 't' :: 'r' :: 'u' :: 'e' :: rest) :
      LeafSource (.bool .true) text rest
  | false {text rest : List Char}
      (here : skipBlanks text = 'f' :: 'a' :: 'l' :: 's' :: 'e' :: rest) :
      LeafSource (.bool .false) text rest
  | number {n : Numeral} {text digits rest : List Char} (spelled : n.Spelled digits)
      (here : skipBlanks text = digits ++ rest) : LeafSource (.number (.written n)) text rest
  | string {s : String} {text behind rest : List Char} (here : skipBlanks text = '"' :: behind)
      (body : stringBody behind = .ok (s, rest)) : LeafSource (.string s) text rest

/-- A member of an object, given what its value has in a text. -/
inductive MemberSource {α : Type} (Inner : α → List Char → List Char → Prop) :
    String × α → List Char → List Char → Prop
  | mk {name : String} {a : α} {text after behind rest : List Char}
      (named : stringBody text = .ok (name, after)) (colon : skipBlanks after = ':' :: behind)
      (value : Inner a behind rest) : MemberSource Inner (name, a) ('"' :: text) rest

/-- What a value has in a text, given that for the elements of containers. -/
inductive NodeSource (Inner : Json → List Char → List Char → Prop) :
    Json → List Char → List Char → Prop
  | leaf {tree : Json} {text rest : List Char} (leaf : LeafSource tree text rest) :
      NodeSource Inner tree text rest
  | array {items : List Json} {text behind rest : List Char} (here : skipBlanks text = '[' :: behind)
      (inside : Listed ']' Inner true items behind rest) : NodeSource Inner (.array items) text rest
  | object {members : List (String × Json)} {text behind rest : List Char}
      (here : skipBlanks text = '\x7b' :: behind)
      (inside : Listed '\x7d' (MemberSource Inner) true members behind rest)
      (plain : ∀ first ∈ members.head?, first.1 ≠ numberName) :
      NodeSource Inner (.object (TextMap.ofList members)) text rest
  /-- The object stands for the number that its member spells. -/
  | number {n : Numeral} {s : String} {text behind after rest : List Char}
      (here : skipBlanks text = '\x7b' :: behind)
      (member : MemberSource LeafSource (numberName, .string s) (skipBlanks behind) after)
      (spelled : n.Spelled s.toList) (closed : skipBlanks after = '\x7d' :: rest) :
      NodeSource Inner (.number (.written n)) text rest

/-- The tree stands in the text, up to the rest, with containers nested at most `depth` deep and each
number as the numeral that is written. -/
def Source : (depth : Nat) → Json → List Char → List Char → Prop
  | 0 => LeafSource
  | depth + 1 => NodeSource (Source depth)

mutual

/-- The tree with each number as it is meant. -/
def meant : Json → Json
  | .number n => .number n.meant
  | .array items => .array (meantItems items)
  | .object members => .object (meantMembers members)
  | .null => .null
  | .bool b => .bool b
  | .string s => .string s

def meantItems : List Json → List Json
  | [] => []
  | item :: rest => meant item :: meantItems rest

def meantMembers : List (String × Json) → List (String × Json)
  | [] => []
  | (name, value) :: rest => (name, meant value) :: meantMembers rest

end

theorem meantItems_eq_map (items : List Json) : meantItems items = items.map meant := by
  induction items with
  | nil => rfl
  | cons item rest ih => rw [meantItems, ih, List.map_cons]

theorem meantMembers_eq_map (members : List (String × Json)) :
    meantMembers members = members.map fun member => (member.1, member.2.meant) := by
  induction members with
  | nil => rfl
  | cons member rest ih => rw [meantMembers, ih, List.map_cons]

/-! ## What is read has a source -/

theorem word_ok {expected rest' : List Char} (read : word expected rest = .ok rest') :
    rest = expected ++ rest' := by
  induction expected generalizing rest with
  | nil =>
    cases read
    rfl
  | cons c more ih =>
    cases rest with
    | nil => cases read
    | cons d behind =>
      rw [word] at read
      split at read
      · next same => rw [same, ih read, List.cons_append]
      · cases read

section Containers

variable {α β : Type} {item : Reader α} {Element : β → List Char → List Char → Prop} {f : β → α}

theorem listItems_ok (sound : ∀ {text a rest}, item text = .ok (a, rest) →
      ∃ b, Element b text rest ∧ a = f b) {fuel : Nat} {first : Bool} {as : List α}
    (read : listItems item fuel first text = .ok (as, rest)) :
    ∃ bs, Listed ']' Element first bs text rest ∧ as = bs.map f := by
  induction fuel generalizing first text as with
  | zero => cases read
  | succ fuel ih =>
    rw [listItems] at read
    split at read
    · cases read
    · next closed =>
      cases read
      exact ⟨[], .close closed, rfl⟩
    · next c behind here =>
      split at read
      · next isFirst =>
        obtain ⟨⟨a, after⟩, readItem, read⟩ := exists_of_bind_eq_ok read
        obtain ⟨⟨as, rest⟩, readMore, made⟩ := exists_of_bind_eq_ok read
        cases made
        obtain ⟨b, element, rfl⟩ := sound readItem
        obtain ⟨bs, listed, rfl⟩ := ih readMore
        rw [isFirst]
        exact ⟨b :: bs, .first (here.symm ▸ element) listed, rfl⟩
      · next notFirst =>
        split at read
        · next isComma =>
          split at read
          · cases read
          · cases read
          · obtain ⟨⟨a, after⟩, readItem, read⟩ := exists_of_bind_eq_ok read
            obtain ⟨⟨as, rest⟩, readMore, made⟩ := exists_of_bind_eq_ok read
            cases made
            obtain ⟨b, element, rfl⟩ := sound readItem
            obtain ⟨bs, listed, rfl⟩ := ih readMore
            rw [Bool.eq_false_iff.2 notFirst]
            exact ⟨b :: bs, .next (isComma ▸ here) element listed, rfl⟩
        · cases read

theorem colon_ok {after : List Char} (read : colon text = .ok after) :
    skipBlanks text = ':' :: after := by
  unfold colon at read
  split at read
  · cases read
  · next here =>
    cases read
    exact here
  · cases read

theorem member_ok (sound : ∀ {text a rest}, item text = .ok (a, rest) →
      ∃ b, Element b text rest ∧ a = f b) {entry : String × α}
    (read : member item text = .ok (entry, rest)) :
    ∃ b, MemberSource Element (entry.1, b) ('"' :: text) rest ∧ entry.2 = f b := by
  obtain ⟨⟨name, after⟩, named, read⟩ := exists_of_bind_eq_ok read
  obtain ⟨behind, readColon, read⟩ := exists_of_bind_eq_ok read
  obtain ⟨⟨a, rest⟩, readItem, made⟩ := exists_of_bind_eq_ok read
  cases made
  obtain ⟨b, element, rfl⟩ := sound readItem
  exact ⟨b, .mk named (colon_ok readColon) element, rfl⟩

theorem objectMembers_ok (sound : ∀ {text a rest}, item text = .ok (a, rest) →
      ∃ b, Element b text rest ∧ a = f b) {fuel : Nat} {first : Bool} {entries : List (String × α)}
    (read : objectMembers item fuel first text = .ok (entries, rest)) :
    ∃ bs, Listed '\x7d' (MemberSource Element) first bs text rest ∧
      entries = bs.map fun entry => (entry.1, f entry.2) := by
  induction fuel generalizing first text entries with
  | zero => cases read
  | succ fuel ih =>
    -- A member stands behind its quote, and the others behind it.
    have step {behind after : List Char} {entry : String × α} {entries : List (String × α)}
        (readMember : member item behind = .ok (entry, after))
        (readMore : objectMembers item fuel false after = .ok (entries, rest)) :
        ∃ b bs, MemberSource Element b ('"' :: behind) after ∧
          Listed '\x7d' (MemberSource Element) false bs after rest ∧
          entry :: entries = (b :: bs).map fun entry => (entry.1, f entry.2) := by
      obtain ⟨b, element, same⟩ := member_ok sound readMember
      obtain ⟨bs, listed, rfl⟩ := ih readMore
      exact ⟨(entry.1, b), bs, element, listed, by rw [List.map_cons, ← same]⟩
    rw [objectMembers] at read
    split at read
    · cases read
    · next closed =>
      cases read
      exact ⟨[], .close closed, rfl⟩
    · next c behind here =>
      split at read
      · next isFirst =>
        split at read
        · next quote =>
          obtain ⟨_, readMember, read⟩ := exists_of_bind_eq_ok read
          obtain ⟨_, readMore, made⟩ := exists_of_bind_eq_ok read
          cases made
          obtain ⟨b, bs, element, listed, same⟩ := step readMember readMore
          rw [isFirst]
          exact ⟨b :: bs, .first (here.symm ▸ quote ▸ element) listed, same⟩
        · cases read
      · next notFirst =>
        split at read
        · next isComma =>
          split at read
          · cases read
          · next quote =>
            obtain ⟨_, readMember, read⟩ := exists_of_bind_eq_ok read
            obtain ⟨_, readMore, made⟩ := exists_of_bind_eq_ok read
            cases made
            obtain ⟨b, bs, element, listed, same⟩ := step readMember readMore
            rw [Bool.eq_false_iff.2 notFirst]
            exact ⟨b :: bs, .next (isComma ▸ here) (quote.symm ▸ element) listed, same⟩
          · cases read
          · cases read
        · cases read

end Containers

/-- An object that does not stand for a number does not begin with the name of one. -/
theorem plain_of_numberMember? {Inner : Json → List Char → List Char → Prop}
    {members : List (String × Json)} (none : numberMember? text = .none)
    (inside : Listed '\x7d' (MemberSource Inner) true members text rest) :
    ∀ first ∈ members.head?, first.1 ≠ numberName := by
  cases inside with
  | close => nofun
  | @first a as _ behind _ element more =>
    rintro _ ⟨⟩ same
    generalize here : skipBlanks text = behind at element
    cases element with
    | mk named =>
      rw [numberMember?, here] at none
      simp only [named, if_pos same] at none
      cases none

theorem numberMember?_ok {after : List Char} (found : numberMember? text = some after) :
    ∃ behind, skipBlanks text = '"' :: behind ∧ stringBody behind = .ok (numberName, after) := by
  unfold numberMember? at found
  split at found
  · next behind here =>
    split at found
    · next name more named =>
      split at found
      · next same =>
        cases found
        exact ⟨behind, here, same ▸ named⟩
      · cases found
    · cases found
  · cases found

theorem mismatch_ne_ok {α : Type} (wanted : String) (text : List Char) (found : α × List Char) :
    mismatch wanted text ≠ .ok found := by
  intro read
  unfold mismatch at read
  split at read
  case h_1 | h_7 | h_8 => cases read
  case h_9 =>
    split at read
    · obtain ⟨_, -, refused⟩ := exists_of_bind_eq_ok read
      cases refused
    · cases read
  all_goals
    obtain ⟨_, -, refused⟩ := exists_of_bind_eq_ok read
    cases refused

theorem receiveText_ok {wanted s : String} (read : receiveText wanted text = .ok (s, rest)) :
    LeafSource (.string s) text rest := by
  unfold receiveText at read
  split at read
  · next here => exact .string here read
  · exact absurd read (mismatch_ne_ok _ _ _)

theorem numberMember_ok {behind : List Char} (read : numberMember behind = .ok (n, rest)) :
    ∃ s after value, skipBlanks behind = ':' :: value ∧ LeafSource (.string s) value after ∧
      n.Spelled s.toList ∧ skipBlanks after = '\x7d' :: rest := by
  obtain ⟨value, readColon, read⟩ := exists_of_bind_eq_ok read
  obtain ⟨⟨s, after⟩, readText, read⟩ := exists_of_bind_eq_ok read
  dsimp only at read
  split at read
  · cases read
  · next parsed =>
    split at read
    · cases read
    · next closed =>
      cases read
      exact ⟨s, after, value, colon_ok readColon, receiveText_ok readText, Numeral.parse_ok parsed,
        closed⟩
    · cases read
    · cases read

/-- What a value was read from: a leaf, a list, an object, or an object that stands for a number. -/
theorem node_cases {item : Option (Reader Json)} {tree : Json}
    (read : node item text = .ok (tree, rest)) :
    (∃ source, LeafSource source text rest ∧ tree = source.meant) ∨
    ∃ reader ∈ item, ∃ behind,
      (skipBlanks text = '[' :: behind ∧ ∃ items,
        listItems reader (behind.length + 1) true behind = .ok (items, rest) ∧
        tree = .array items) ∨
      (skipBlanks text = '\x7b' :: behind ∧ numberMember? behind = none ∧ ∃ members,
        objectMembers reader (behind.length + 1) true behind = .ok (members, rest) ∧
        tree = .object (TextMap.ofList members)) ∨
      skipBlanks text = '\x7b' :: behind ∧ ∃ after n, numberMember? behind = some after ∧
        numberMember after = .ok (n, rest) ∧ tree = .number n.number := by
  unfold node at read
  split at read
  · cases read
  · next here =>
    obtain ⟨_, readWord, made⟩ := exists_of_bind_eq_ok read
    cases made
    exact .inl ⟨.null, .null (here.trans (congrArg _ (word_ok readWord))), rfl⟩
  · next here =>
    obtain ⟨_, readWord, made⟩ := exists_of_bind_eq_ok read
    cases made
    exact .inl ⟨.bool true, .true (here.trans (congrArg _ (word_ok readWord))), rfl⟩
  · next here =>
    obtain ⟨_, readWord, made⟩ := exists_of_bind_eq_ok read
    cases made
    exact .inl ⟨.bool false, .false (here.trans (congrArg _ (word_ok readWord))), rfl⟩
  · next here =>
    obtain ⟨⟨n, _⟩, readNumeral, made⟩ := exists_of_bind_eq_ok read
    cases made
    obtain ⟨digits, spelled, parts⟩ := numeral_negative_ok readNumeral
    exact .inl ⟨.number (.written n), .number spelled (here.trans parts), rfl⟩
  · next here =>
    obtain ⟨⟨s, _⟩, body, made⟩ := exists_of_bind_eq_ok read
    cases made
    exact .inl ⟨.string s, .string here body, rfl⟩
  · next behind here =>
    split at read
    · cases read
    · next reader =>
      obtain ⟨⟨items, _⟩, readItems, made⟩ := exists_of_bind_eq_ok read
      cases made
      exact .inr ⟨reader, rfl, behind, .inl ⟨here, items, readItems, rfl⟩⟩
  · next behind here =>
    split at read
    · cases read
    · next reader =>
      split at read
      · next after found =>
        obtain ⟨⟨n, _⟩, readNumber, made⟩ := exists_of_bind_eq_ok read
        cases made
        exact .inr ⟨reader, rfl, behind, .inr (.inr ⟨here, after, n, found, readNumber, rfl⟩)⟩
      · next none =>
        obtain ⟨⟨members, _⟩, readMembers, made⟩ := exists_of_bind_eq_ok read
        cases made
        exact .inr ⟨reader, rfl, behind, .inr (.inl ⟨here, none, members, readMembers, rfl⟩)⟩
  · next here =>
    split at read
    · obtain ⟨⟨n, _⟩, readNumeral, made⟩ := exists_of_bind_eq_ok read
      cases made
      obtain ⟨digits, spelled, parts⟩ := numeral_positive_ok readNumeral
      exact .inl ⟨.number (.written n), .number spelled (here.trans parts), rfl⟩
    · cases read

/-- A tree that is read from a text is what its source means. -/
theorem source_of_value {depth : Nat} {tree : Json} (read : value depth text = .ok (tree, rest)) :
    ∃ source, Source depth source text rest ∧ tree = source.meant := by
  induction depth generalizing text tree rest with
  | zero =>
    rcases node_cases read with leaf | ⟨reader, none, -⟩
    · exact leaf
    · cases none
  | succ depth ih =>
    rcases node_cases read with ⟨source, leaf, meant⟩ | ⟨reader, isItem, behind, inside⟩
    · exact ⟨source, .leaf leaf, meant⟩
    · cases isItem
      rcases inside with ⟨here, items, readItems, rfl⟩ | ⟨here, plain, members, readMembers, rfl⟩ |
        ⟨here, after, n, found, readNumber, rfl⟩
      · obtain ⟨sources, listed, rfl⟩ := listItems_ok ih readItems
        exact ⟨.array sources, .array here listed, by rw [meant, meantItems_eq_map]⟩
      · obtain ⟨sources, listed, rfl⟩ := objectMembers_ok ih readMembers
        refine ⟨_, .object here listed (plain_of_numberMember? plain listed), ?_⟩
        rw [meant, meantMembers_eq_map, TextMap.ofList_map]
      · obtain ⟨behind', quote, named⟩ := numberMember?_ok found
        obtain ⟨s, after', value, colon, leaf, spelled, closed⟩ := numberMember_ok readNumber
        exact ⟨.number (.written n), .number here (quote.symm ▸ .mk named colon leaf) spelled closed,
          rfl⟩

/-- The tree stands in the text, with nothing but blanks behind it. -/
def StandsIn (tree : Json) (text : String) : Prop :=
  ∃ rest, Source maxDepth tree text.toList rest ∧ skipBlanks rest = []

/-- What a text is read as is what stands in it. -/
theorem source_of_parse {text : String} {tree : Json} (read : parse text = .ok tree) :
    ∃ source : Json, source.StandsIn text ∧ tree = source.meant := by
  obtain ⟨rest, read, ended⟩ := whole_eq_ok_iff.1 read
  obtain ⟨source, stands, meant⟩ := source_of_value read
  exact ⟨source, ⟨rest, stands, ended⟩, meant⟩

end Interchange.Json
