import Interchange.Proofs.Json.Lexemes

/-!
# Texts that spell trees

`Json.Spells depth tree text` is the grammar of the texts that are written: the text spells the tree,
and its containers are nested at most `depth` deep. Any blanks may stand between the elements. The
parser reads every such text as the tree that it spells (`parse_of_spells`).
-/

namespace Interchange.Json

/-! ## The grammar -/

section Grammar

variable {α : Type} (close : Char) (Element : α → List Char → Prop)

/-- The text behind an element of a container, up to the closing character. -/
inductive Further : List α → List Char → Prop
  | close {blanks : List Char} (blank : Blank blanks) : Further [] (blanks ++ [close])
  | more {before after text rest : List Char} {a : α} {as : List α} (blank : Blank before)
      (blank' : Blank after) (element : Element a text) (further : Further as rest) :
      Further (a :: as) (before ++ ',' :: (after ++ (text ++ rest)))

/-- The text behind the opening character of a container. -/
inductive Inside : List α → List Char → Prop
  | empty {blanks : List Char} (blank : Blank blanks) : Inside [] (blanks ++ [close])
  | some {blanks text rest : List Char} {a : α} {as : List α} (blank : Blank blanks)
      (element : Element a text) (further : Further close Element as rest) :
      Inside (a :: as) (blanks ++ (text ++ rest))

end Grammar

/-- The text of a member of an object. -/
inductive Member (Inner : Json → List Char → Prop) : String × Json → List Char → Prop
  | mk (name : String) {tree : Json} {before after text : List Char} (blank : Blank before)
      (blank' : Blank after) (value : Inner tree text) :
      Member Inner (name, tree) (stringChars name ++ (before ++ ':' :: (after ++ text)))

/-- The text of a value that is no container. -/
inductive Leaf : Json → List Char → Prop
  | null : Leaf .null ['n', 'u', 'l', 'l']
  | true : Leaf (.bool .true) ['t', 'r', 'u', 'e']
  | false : Leaf (.bool .false) ['f', 'a', 'l', 's', 'e']
  | number {n : Numeral} (proper : n.Proper) : Leaf (.number n.number) n.chars
  | string (s : String) : Leaf (.string s) (stringChars s)

/-- The text of a value, given the texts of the elements of containers. -/
inductive Node (Inner : Json → List Char → Prop) : Json → List Char → Prop
  | leaf {tree : Json} {text : List Char} (leaf : Leaf tree text) : Node Inner tree text
  | array {items : List Json} {text : List Char} (inside : Inside ']' Inner items text) :
      Node Inner (.array items) ('[' :: text)
  /-- The object stands for no number. -/
  | object {members : List (String × Json)} {text : List Char}
      (inside : Inside '\x7d' (Member Inner) members text)
      (plain : ∀ first ∈ members.head?, first.1 ≠ numberName) :
      Node Inner (.object (TextMap.ofList members)) ('\x7b' :: text)

/-- The text spells the tree, with containers nested at most `depth` deep. -/
def Spells : (depth : Nat) → Json → List Char → Prop
  | 0 => Leaf
  | depth + 1 => Node (Spells depth)

theorem Leaf.spells {tree : Json} {text : List Char} (leaf : Leaf tree text) :
    (depth : Nat) → Spells depth tree text
  | 0 => leaf
  | _ + 1 => .leaf leaf

/-! ## Where texts begin and end -/

/-- A text begins with a character that is neither blank nor a closing bracket. -/
def Begins (text : List Char) : Prop := ∃ c rest, text = c :: rest ∧ isBlank c = false ∧ c ≠ ']'

theorem not_isBlank_of_isDigit {c : Char} (isDigit : c.isDigit = true) : isBlank c = false := by
  refine Bool.eq_false_iff.2 fun blank => ?_
  simp only [isBlank, Bool.or_eq_true, decide_eq_true_eq] at blank
  rcases blank with ((rfl | rfl) | rfl) | rfl <;> exact absurd isDigit (by decide)

/-- Digits before a point begin with one. -/
theorem IsWhole.exists_cons {digits : List Char} (whole : IsWhole digits) :
    ∃ c rest, digits = c :: rest ∧ c.isDigit = true := by
  rcases whole.first with rfl | ⟨c, rest, rfl, -⟩
  · exact ⟨'0', [], rfl, rfl⟩
  · exact ⟨c, rest, rfl, whole.all c List.mem_cons_self⟩

theorem Leaf.begins {tree : Json} {text : List Char} (leaf : Leaf tree text) : Begins text := by
  cases leaf with
  | null | true | false | string => exact ⟨_, _, rfl, by decide, by decide⟩
  | @number n proper =>
    rw [Numeral.chars_eq, Numeral.magnitude]
    cases n.negative with
    | true => exact ⟨'-', _, rfl, by decide, by decide⟩
    | false =>
      obtain ⟨c, more, digits, isDigit⟩ := proper.whole.exists_cons
      rw [digits]
      refine ⟨c, _, rfl, not_isBlank_of_isDigit isDigit, ?_⟩
      rintro rfl
      cases isDigit

theorem Spells.begins {depth : Nat} {tree : Json} {text : List Char}
    (spells : Spells depth tree text) : Begins text := by
  cases depth with
  | zero => exact Leaf.begins spells
  | succ depth =>
    cases spells with
    | leaf leaf => exact leaf.begins
    | array | object => exact ⟨_, _, rfl, by decide, by decide⟩

theorem ends_nil : Ends [] := nofun

theorem ends_blanks {blanks rest : List Char} (blank : Blank blanks) (ends : Ends rest) :
    Ends (blanks ++ rest) := by
  cases blanks with
  | nil => exact ends
  | cons c more =>
    rintro c ⟨⟩
    exact .inl (blank _ List.mem_cons_self)

/-- What stands behind an element ends it. -/
theorem Further.ends {α : Type} {close : Char} {Element : α → List Char → Prop} {as : List α}
    {text : List Char} (further : Further close Element as text) (bracket : Ends [close])
    (rest : List Char) : Ends (text ++ rest) := by
  cases further with
  | close blank =>
    rw [List.append_assoc]
    refine ends_blanks blank ?_
    rintro c ⟨⟩
    exact bracket _ rfl
  | more blank =>
    rw [List.append_assoc]
    refine ends_blanks blank ?_
    rintro c ⟨⟩
    exact .inr (.inl rfl)

theorem Further.length_lt {α : Type} {close : Char} {Element : α → List Char → Prop} {as : List α}
    {text : List Char} (further : Further close Element as text) : as.length < text.length := by
  induction further with
  | close => simp
  | more _ _ _ _ ih =>
    simp only [List.length_append, List.length_cons]
    omega

/-- Every element takes a character at least. -/
theorem Inside.length_le {α : Type} {close : Char} {Element : α → List Char → Prop} {as : List α}
    {text : List Char} (inside : Inside close Element as text) : as.length ≤ text.length := by
  cases inside with
  | empty => exact Nat.zero_le _
  | some _ _ further =>
    have := further.length_lt
    simp only [List.length_append, List.length_cons]
    omega

theorem stringChars_append (s : String) (rest : List Char) :
    stringChars s ++ rest = '"' :: (s.toList.flatMap stringChar ++ '"' :: rest) := by
  simp [stringChars]

/-! ## Readers -/

/-- A reader reads the texts of a grammar, with any blanks before them, whatever ends them. -/
def Reads {α : Type} (reader : Reader α) (Element : α → List Char → Prop) : Prop :=
  ∀ ⦃a text⦄, Element a text → ∀ ⦃blanks⦄, Blank blanks → ∀ ⦃rest⦄, Ends rest →
    reader (blanks ++ (text ++ rest)) = .ok (a, rest)

theorem blank_nil : Blank [] := nofun

theorem ends_bracket : Ends [']'] := by
  rintro c ⟨⟩
  exact .inr (.inr (.inl rfl))

theorem ends_brace : Ends ['\x7d'] := by
  rintro c ⟨⟩
  exact .inr (.inr (.inr rfl))

section Containers

variable {α : Type} {item : Reader α} {Element : α → List Char → Prop} {fuel : Nat} {first : Bool}
  {c : Char} {text more rest rest' : List Char} {a : α} {as : List α}

theorem listItems_close (next : skipBlanks text = ']' :: rest) :
    listItems item (fuel + 1) first text = .ok ([], rest) := by
  rw [listItems, next]
  rfl

theorem listItems_first (next : skipBlanks text = c :: more) (inside : c ≠ ']')
    (here : item (c :: more) = .ok (a, rest))
    (there : listItems item fuel false rest = .ok (as, rest')) :
    listItems item (fuel + 1) true text = .ok (a :: as, rest') := by
  rw [listItems, next]
  split
  · contradiction
  · next same => cases same; contradiction
  · next same =>
    cases same
    rw [if_pos rfl, here]
    change (listItems item fuel false rest >>= _) = _
    rw [there]
    rfl

theorem listItems_more (next : skipBlanks text = ',' :: more) (next' : skipBlanks more = c :: rest)
    (inside : c ≠ ']') {rest'' : List Char} (here : item (c :: rest) = .ok (a, rest'))
    (there : listItems item fuel false rest' = .ok (as, rest'')) :
    listItems item (fuel + 1) false text = .ok (a :: as, rest'') := by
  rw [listItems, next]
  split
  · contradiction
  · next same => cases same
  · next same =>
    cases same
    rw [if_neg Bool.false_ne_true, if_pos rfl, next']
    split
    · contradiction
    · next same => cases same; contradiction
    · rw [here]
      change (listItems item fuel false rest' >>= _) = _
      rw [there]
      rfl

theorem listItems_further (reads : Reads item Element)
    (begins : ∀ ⦃a text⦄, Element a text → Begins text)
    (further : Further ']' Element as text) (rest : List Char)
    (enough : as.length < fuel) :
    listItems item fuel false (text ++ rest) = .ok (as, rest) := by
  induction further generalizing fuel with
  | close blank =>
    obtain ⟨fuel, rfl⟩ := Nat.exists_eq_succ_of_ne_zero (Nat.ne_zero_of_lt enough)
    refine listItems_close ?_
    rw [List.append_assoc]
    exact skipBlanks_append_cons blank (by decide) _
  | @more before after text others a as blank blank' element further ih =>
    obtain ⟨fuel, rfl⟩ := Nat.exists_eq_succ_of_ne_zero (Nat.ne_zero_of_lt enough)
    obtain ⟨c, more, same, visible, inside⟩ := begins element
    have here := reads element blank_nil (further.ends ends_bracket rest)
    subst same
    have comma : skipBlanks (before ++ ',' :: (after ++ (c :: more ++ others)) ++ rest) =
        ',' :: (after ++ (c :: more ++ (others ++ rest))) := by
      simp only [List.append_assoc, List.cons_append]
      exact skipBlanks_append_cons blank (by decide) _
    exact listItems_more comma (skipBlanks_append_cons blank' visible _) inside here
      (ih (Nat.lt_of_succ_lt_succ enough))

/-- The elements of a list are read from behind its opening bracket. -/
theorem listItems_inside (reads : Reads item Element)
    (begins : ∀ ⦃a text⦄, Element a text → Begins text) (inside : Inside ']' Element as text)
    (rest : List Char) (enough : as.length < fuel) :
    listItems item fuel true (text ++ rest) = .ok (as, rest) := by
  obtain ⟨fuel, rfl⟩ := Nat.exists_eq_succ_of_ne_zero (Nat.ne_zero_of_lt enough)
  cases inside with
  | empty blank =>
    refine listItems_close ?_
    rw [List.append_assoc]
    exact skipBlanks_append_cons blank (by decide) _
  | @some blanks text others a as blank element further =>
    obtain ⟨c, more, same, visible, inside⟩ := begins element
    have here := reads element blank_nil (further.ends ends_bracket rest)
    subst same
    refine listItems_first ?_ inside here
      (listItems_further reads begins further rest (Nat.lt_of_succ_lt_succ enough))
    rw [List.append_assoc, List.append_assoc]
    exact skipBlanks_append_cons blank visible _

end Containers

section Objects

variable {α : Type} {item : Reader Json} {Inner : Json → List Char → Prop} {fuel : Nat}
  {first : Bool} {text more rest rest' : List Char} {entry : String × Json}
  {entries : List (String × Json)}

/-- A member begins with a quote, and is read from behind it. -/
theorem Member.exists_body (reads : Reads item Inner) (spelled : Member Inner entry text) :
    ∃ body, text = '"' :: body ∧
      ∀ rest, Ends rest → member item (body ++ rest) = .ok (entry, rest) := by
  obtain @⟨name, tree, before, after, value, blank, blank', spelled⟩ := spelled
  refine ⟨name.toList.flatMap stringChar ++ '"' :: (before ++ ':' :: (after ++ value)), by
    simp [stringChars], fun rest ends => ?_⟩
  have behind :
      colon (before ++ ':' :: (after ++ value) ++ rest) = .ok (after ++ (value ++ rest)) := by
    simp only [List.append_assoc, List.cons_append]
    rw [colon, skipBlanks_append_cons blank (by decide)]
    rfl
  rw [member, List.append_assoc, List.cons_append, stringBody_chars]
  change (colon _ >>= _) = _
  rw [behind]
  change (item _ >>= _) = _
  rw [reads spelled blank' ends]
  rfl

theorem objectMembers_close (next : skipBlanks text = '\x7d' :: rest) :
    objectMembers item (fuel + 1) first text = .ok ([], rest) := by
  rw [objectMembers, next]
  rfl

theorem objectMembers_first (next : skipBlanks text = '"' :: more)
    (here : member item more = .ok (entry, rest))
    (there : objectMembers item fuel false rest = .ok (entries, rest')) :
    objectMembers item (fuel + 1) true text = .ok (entry :: entries, rest') := by
  rw [objectMembers, next]
  change (member item more >>= _) = _
  rw [here]
  change (objectMembers item fuel false rest >>= _) = _
  rw [there]
  rfl

theorem objectMembers_more (next : skipBlanks text = ',' :: more)
    (next' : skipBlanks more = '"' :: rest) {rest'' : List Char}
    (here : member item rest = .ok (entry, rest'))
    (there : objectMembers item fuel false rest' = .ok (entries, rest'')) :
    objectMembers item (fuel + 1) false text = .ok (entry :: entries, rest'') := by
  rw [objectMembers, next]
  split
  · contradiction
  · next same => cases same
  · next same =>
    cases same
    rw [if_neg Bool.false_ne_true, if_pos rfl, next']
    change (member item rest >>= _) = _
    rw [here]
    change (objectMembers item fuel false rest' >>= _) = _
    rw [there]
    rfl

theorem objectMembers_further (reads : Reads item Inner)
    (further : Further '\x7d' (Member Inner) entries text) (rest : List Char)
    (enough : entries.length < fuel) :
    objectMembers item fuel false (text ++ rest) = .ok (entries, rest) := by
  induction further generalizing fuel with
  | close blank =>
    obtain ⟨fuel, rfl⟩ := Nat.exists_eq_succ_of_ne_zero (Nat.ne_zero_of_lt enough)
    refine objectMembers_close ?_
    rw [List.append_assoc]
    exact skipBlanks_append_cons blank (by decide) _
  | @more before after text others entry entries blank blank' spelled further ih =>
    obtain ⟨fuel, rfl⟩ := Nat.exists_eq_succ_of_ne_zero (Nat.ne_zero_of_lt enough)
    obtain ⟨body, rfl, read⟩ := spelled.exists_body reads
    have comma : skipBlanks (before ++ ',' :: (after ++ ('"' :: body ++ others)) ++ rest) =
        ',' :: (after ++ '"' :: (body ++ (others ++ rest))) := by
      simp only [List.append_assoc, List.cons_append]
      exact skipBlanks_append_cons blank (by decide) _
    exact objectMembers_more comma (skipBlanks_append_cons blank' (by decide) _)
      (read _ (further.ends ends_brace rest)) (ih (Nat.lt_of_succ_lt_succ enough))

/-- The members of an object are read from behind its opening brace. -/
theorem objectMembers_inside (reads : Reads item Inner)
    (inside : Inside '\x7d' (Member Inner) entries text) (rest : List Char)
    (enough : entries.length < fuel) :
    objectMembers item fuel true (text ++ rest) = .ok (entries, rest) := by
  obtain ⟨fuel, rfl⟩ := Nat.exists_eq_succ_of_ne_zero (Nat.ne_zero_of_lt enough)
  cases inside with
  | empty blank =>
    refine objectMembers_close ?_
    rw [List.append_assoc]
    exact skipBlanks_append_cons blank (by decide) _
  | @some blanks text others entry entries blank spelled further =>
    obtain ⟨body, rfl, read⟩ := spelled.exists_body reads
    have quote : skipBlanks (blanks ++ ('"' :: body ++ others) ++ rest) =
        '"' :: (body ++ (others ++ rest)) := by
      simp only [List.append_assoc, List.cons_append]
      exact skipBlanks_append_cons blank (by decide) _
    exact objectMembers_first quote (read _ (further.ends ends_brace rest))
      (objectMembers_further reads further rest (Nat.lt_of_succ_lt_succ enough))

/-- An object whose first name is another stands for no number. -/
theorem numberMember?_inside (inside : Inside '\x7d' (Member Inner) entries text)
    (plain : ∀ first ∈ entries.head?, first.1 ≠ numberName) (rest : List Char) :
    numberMember? (text ++ rest) = none := by
  cases inside with
  | empty blank =>
    rw [numberMember?, List.append_assoc, List.singleton_append,
      skipBlanks_append_cons blank (by decide)]
    rfl
  | @some blanks text others entry entries blank spelled further =>
    obtain @⟨name, tree, before, after, value, -, -, -⟩ := spelled
    have quote : skipBlanks (blanks ++ (stringChars name ++
        (before ++ ':' :: (after ++ value)) ++ others) ++ rest) =
          '"' :: (name.toList.flatMap stringChar ++
            '"' :: (before ++ ':' :: (after ++ (value ++ (others ++ rest))))) := by
      simp only [List.append_assoc, List.cons_append, stringChars_append]
      exact skipBlanks_append_cons blank (by decide) _
    rw [numberMember?, quote]
    simp only [stringBody_chars]
    exact if_neg (plain _ rfl)

end Objects

/-! ## Values -/

section Values

variable {item : Option (Reader Json)} {c : Char} {text rest : List Char} {tree : Json}

/-- What begins with a digit is read as a number. -/
theorem node_digit (isDigit : c.isDigit = true) (next : skipBlanks text = c :: rest) :
    node item text = (do
      let (n, rest) ← numeral false (c :: rest)
      return (.number n.number, rest)) := by
  rw [node, next]
  split
  case h_9 same =>
    cases same
    exact if_pos isDigit
  all_goals
    next same => cases same; try cases isDigit

theorem Leaf.node_reads (leaf : Leaf tree text) {blanks : List Char} (blank : Blank blanks)
    (ends : Ends rest) : node item (blanks ++ (text ++ rest)) = .ok (tree, rest) := by
  cases leaf with
  | null | true | false =>
    rw [node, List.cons_append, skipBlanks_append_cons blank (by decide)]
    rfl
  | string s =>
    rw [node, stringChars_append, skipBlanks_append_cons blank (by decide)]
    change (stringBody _ >>= _) = _
    rw [stringBody_chars]
    rfl
  | @number n proper =>
    have read := numeral_magnitude proper ends.stops
    rw [Numeral.chars_eq]
    cases negative : n.negative with
    | true =>
      rw [negative] at read
      rw [if_pos rfl, List.singleton_append, node, List.cons_append,
        skipBlanks_append_cons blank (by decide)]
      change (numeral _ _ >>= _) = _
      rw [read]
      rfl
    | false =>
      rw [negative] at read
      obtain ⟨c, more, digits, isDigit⟩ := proper.whole.exists_cons
      rw [if_neg Bool.false_ne_true, List.nil_append]
      rw [Numeral.magnitude, digits, List.cons_append, List.cons_append] at read ⊢
      have next := skipBlanks_append_cons blank (not_isBlank_of_isDigit isDigit)
      rw [node_digit isDigit (next _), read]
      rfl

end Values

/-- A value of some depth is read from every text that spells it. -/
theorem value_reads (depth : Nat) : Reads (value depth) (Spells depth) := by
  -- On the depth that is left: the elements of a container are read one level down.
  induction depth with
  | zero => exact fun _ _ leaf _ blank _ ends => Leaf.node_reads leaf blank ends
  | succ depth ih =>
    intro tree text spells blanks blank rest ends
    cases spells with
    | leaf leaf => exact leaf.node_reads blank ends
    | @array items text inside =>
      rw [value, node, List.cons_append, skipBlanks_append_cons blank (by decide)]
      change (listItems _ _ _ _ >>= _) = _
      rw [listItems_inside ih (fun _ _ => Spells.begins) inside]
      · rfl
      · have := inside.length_le
        rw [List.length_append]
        omega
    | @object members text inside plain =>
      rw [value, node, List.cons_append, skipBlanks_append_cons blank (by decide)]
      simp only [numberMember?_inside inside plain]
      rw [objectMembers_inside ih inside]
      · rfl
      · have := inside.length_le
        rw [List.length_append]
        omega

/-- Every text that spells a tree is read as the tree. -/
theorem parse_of_spells {tree : Json} {text : List Char} (spells : Spells maxDepth tree text) :
    parse (String.ofList text) = .ok tree := by
  have read := value_reads maxDepth spells blank_nil ends_nil
  rw [List.nil_append, List.append_nil] at read
  rw [parse, String.toList_ofList, whole, read]
  rfl

end Interchange.Json
