import Mathlib.Data.List.Forall2
import Interchange.Crossing.Departure
import Interchange.Proofs.Store.Graph

/-!
# What a departure makes of a graph

`Store.Unfolds` says, without a walk and its path, which tree a value stands for: the tree of a cell
is made of the trees of its parts, wherever they stand and however often. A departure answers that
tree, unless the value leads to a cell on a cycle; then it names a cell on a cycle, and there is no
third outcome (`depart_outcome`). So the containers that a walk is inside of tell cycles from
sharing: a part that is on the path closes a cycle (`Path.closes`), and the path is a list of
distinct cells, so the depth of the walk never runs out (`Path.length_le`).
-/

namespace Interchange.Store

/-- A cell that a departure takes apart by its anatomy: no function and no extension, and no record
with a tag that takes the record over. -/
def Open (store : Store) (ref : Ref) : Prop :=
  match store.cell ref with
  | .function _ => False
  | .extension _ => False
  | .record tag _ => store.tagDeparture? tag = none
  | _ => True

/-- The host form of a value, part by part. -/
inductive Unfolds (store : Store) : Value → HostValue → Prop
  | nothing : Unfolds store .nothing .null
  | bool (b : Bool) : Unfolds store (.bool b) (.bool b)
  | int (i : Int) : Unfolds store (.int i) (.ofInt i)
  | float (x : Binary64) : Unfolds store (.float x) (.float x)
  | string (s : String) : Unfolds store (.string s) (.string s)
  | bytes (b : List UInt8) : Unfolds store (.bytes b) (.bytes b)
  | time (t : Instant) : Unfolds store (.time t) (.time t)
  /-- Elements are a list of their trees, in order. -/
  | sequence {ref : Ref} {items : List Value} {trees : List HostValue}
      (anatomy : store.anatomy ref = .sequence items) (length : items.length = trees.length)
      (each : ∀ pair ∈ items.zip trees, Unfolds store pair.1 pair.2) :
      Unfolds store (.object ref) (.list trees)
  /-- Entries whose keys all become texts are a map by name. -/
  | byName {ref : Ref} {entries : List (Value × Value)} {named : List (String × HostValue)}
      (anatomy : store.anatomy ref = .keyed entries) (length : entries.length = named.length)
      (keys : ∀ pair ∈ entries.zip named, Unfolds store pair.1.1 (.string pair.2.1))
      (values : ∀ pair ∈ entries.zip named, Unfolds store pair.1.2 pair.2.2) :
      Unfolds store (.object ref) (.ofEntries named)
  /-- Other entries stay pairs, in order. -/
  | byKey {ref : Ref} {entries : List (Value × Value)} {pairs : List (HostValue × HostValue)}
      (anatomy : store.anatomy ref = .keyed entries) (length : entries.length = pairs.length)
      (keys : ∀ pair ∈ entries.zip pairs, Unfolds store pair.1.1 pair.2.1)
      (values : ∀ pair ∈ entries.zip pairs, Unfolds store pair.1.2 pair.2.2)
      (mixed : ∃ pair ∈ pairs, pair.1.text? = none) :
      Unfolds store (.object ref) (.pairs pairs)
  /-- Named parts are a map by name. -/
  | named {ref : Ref} {fields : List (String × Value)} {named : List (String × HostValue)}
      (isOpen : store.Open ref) (anatomy : store.anatomy ref = .named fields)
      (names : fields.map Prod.fst = named.map Prod.fst)
      (values : ∀ pair ∈ fields.zip named, Unfolds store pair.1.2 pair.2.2) :
      Unfolds store (.object ref) (.ofEntries named)
  /-- A proxy gives its handle back. -/
  | handle {ref : Ref} {native : Native} (anatomy : store.anatomy ref = .handle native) :
      Unfolds store (.object ref) (.native native)

/-- What a walk that began at `origin` may answer about a value. -/
def Answers (store : Store) (origin v : Value) (result : Except Fault HostValue) : Prop :=
  (∃ tree, result = .ok tree ∧ store.Unfolds v tree) ∨
    ∃ ref, store.Reaches origin ref ∧ store.OnCycle ref ∧
      result = .error (.cyclic departureName (store.typeName (.object ref)))

variable {store : Store} {v origin : Value} {ref : Ref}

/-! ## Unfoldings and cycles -/

theorem getElem_mem_zip {α β : Type} {as : List α} {bs : List β} {i : Nat}
    (inA : i < as.length) (inB : i < bs.length) : (as[i], bs[i]) ∈ as.zip bs := by
  rw [← List.getElem_zip (h := by simp; omega)]
  exact List.getElem_mem _

theorem exists_pair_of_mem {α β : Type} {as : List α} {bs : List β}
    (length : as.length = bs.length) {a : α} (h : a ∈ as) : ∃ b, (a, b) ∈ as.zip bs := by
  obtain ⟨i, inRange, rfl⟩ := List.getElem_of_mem h
  have inB : i < bs.length := length ▸ inRange
  exact ⟨bs[i], getElem_mem_zip inRange inB⟩

theorem exists_forall₂ {α β : Type} {related : α → β → Prop} {as : List α}
    (each : ∀ a ∈ as, ∃ b, related a b) : ∃ bs, List.Forall₂ related as bs := by
  induction as with
  | nil => exact ⟨[], .nil⟩
  | cons a as ih =>
    obtain ⟨⟨b, first⟩, others⟩ := List.forall_mem_cons.1 each
    obtain ⟨bs, rest⟩ := ih others
    exact ⟨b :: bs, .cons first rest⟩

theorem length_of_names {fields : List (String × Value)} {named : List (String × HostValue)}
    (names : fields.map Prod.fst = named.map Prod.fst) : fields.length = named.length := by
  simpa using congrArg List.length names

theorem open_of_anatomy (notNamed : ∀ fields, store.anatomy ref ≠ .named fields)
    (notClosed : store.anatomy ref ≠ .closed) : store.Open ref := by
  unfold Open
  cases cell : store.cell ref <;> simp_all [anatomy]

/-- What passes from the parts of an open cell to all that the cell reaches, holds of all that a
value reaches which unfolds. -/
theorem Unfolds.forall_reached {P : Ref → Prop} {tree : HostValue} (h : store.Unfolds v tree)
    (step : ∀ ref, store.Open ref →
      (∀ part ∈ (store.anatomy ref).parts, ∀ other, store.Reaches part other → P other) →
      ∀ other, store.Reaches (.object ref) other → P other) :
    ∀ ref, store.Reaches v ref → P ref := by
  induction h with
  | nothing | bool | int | float | string | bytes | time =>
    rintro ref ⟨_, same, -⟩
    cases same
  | sequence anatomy length _ ih =>
    refine step _ (open_of_anatomy (by simp [anatomy]) (by simp [anatomy])) fun part isPart => ?_
    rw [anatomy] at isPart
    obtain ⟨tree, paired⟩ := exists_pair_of_mem length isPart
    exact ih _ paired
  | byName anatomy length _ _ ihKeys ihValues =>
    refine step _ (open_of_anatomy (by simp [anatomy]) (by simp [anatomy])) fun part isPart => ?_
    rw [anatomy] at isPart
    obtain ⟨entry, isEntry, same⟩ := mem_entryParts.1 isPart
    obtain ⟨tree, paired⟩ := exists_pair_of_mem length isEntry
    rcases same with rfl | rfl
    · exact ihKeys _ paired
    · exact ihValues _ paired
  | byKey anatomy length _ _ _ ihKeys ihValues =>
    refine step _ (open_of_anatomy (by simp [anatomy]) (by simp [anatomy])) fun part isPart => ?_
    rw [anatomy] at isPart
    obtain ⟨entry, isEntry, same⟩ := mem_entryParts.1 isPart
    obtain ⟨tree, paired⟩ := exists_pair_of_mem length isEntry
    rcases same with rfl | rfl
    · exact ihKeys _ paired
    · exact ihValues _ paired
  | named isOpen anatomy names _ ih =>
    refine step _ isOpen fun part isPart => ?_
    rw [anatomy] at isPart
    obtain ⟨field, isField, rfl⟩ := List.mem_map.1 isPart
    obtain ⟨tree, paired⟩ := exists_pair_of_mem (length_of_names names) isField
    exact ih _ paired
  | handle anatomy =>
    refine step _ (open_of_anatomy (by simp [anatomy]) (by simp [anatomy])) fun part isPart => ?_
    rw [anatomy] at isPart
    cases isPart

/-- A value that unfolds leads to no cycle. -/
theorem Unfolds.not_onCycle {tree : HostValue} (h : store.Unfolds v tree) :
    ∀ ref, store.Reaches v ref → ¬ store.OnCycle ref :=
  h.forall_reached fun _ _ parts _ => not_onCycle_of_parts parts

theorem Unfolds.isOpen {tree : HostValue} (h : store.Unfolds v tree) :
    ∀ ref, store.Reaches v ref → store.Open ref := by
  refine h.forall_reached fun ref isOpen parts other reached => ?_
  rcases reached.cases_part with rfl | ⟨part, isPart, fromPart⟩
  · exact isOpen
  · exact parts part isPart other fromPart

/-- Lists in step with one list have the same image when they have it at each of its elements. -/
theorem map_eq_map_of_zip {α β γ δ : Type} {as : List α} {bs : List β} {cs : List γ} {f : β → δ}
    {g : γ → δ} (hb : as.length = bs.length) (hc : as.length = cs.length)
    (same : ∀ a b c, (a, b) ∈ as.zip bs → (a, c) ∈ as.zip cs → f b = g c) :
    bs.map f = cs.map g := by
  refine List.ext_getElem (by simp only [List.length_map]; omega) fun i inB inC => ?_
  simp only [List.length_map] at inB inC
  have inA : i < as.length := hb ▸ inB
  simpa using same as[i] bs[i] cs[i] (getElem_mem_zip inA inB) (getElem_mem_zip inA inC)

theorem eq_of_zip {α β : Type} {as : List α} {bs cs : List β} (hb : as.length = bs.length)
    (hc : as.length = cs.length)
    (same : ∀ a b c, (a, b) ∈ as.zip bs → (a, c) ∈ as.zip cs → b = c) : bs = cs := by
  have images := map_eq_map_of_zip (f := id) (g := id) hb hc same
  rwa [List.map_id, List.map_id] at images

/-- Keys that are all texts are not mixed. -/
theorem not_mixed_of_keys {pairs : List (HostValue × HostValue)}
    {named : List (String × HostValue)}
    (h : pairs.map Prod.fst = named.map fun entry => .string entry.1) :
    ¬ ∃ pair ∈ pairs, pair.1.text? = none := by
  rintro ⟨pair, isPair, noText⟩
  have isKey := h ▸ List.mem_map_of_mem (f := Prod.fst) isPair
  obtain ⟨entry, -, same⟩ := List.mem_map.1 isKey
  rw [← same] at noText
  cases noText

/-- A value unfolds to one tree. -/
theorem Unfolds.unique {tree other : HostValue} (h : store.Unfolds v tree)
    (h' : store.Unfolds v other) : tree = other := by
  induction h generalizing other with
  | nothing | bool | int | float | string | bytes | time => cases h'; rfl
  | sequence anatomy length _ ih =>
    cases h' with
    | sequence anatomy' length' each' =>
      rw [anatomy] at anatomy'
      cases anatomy'
      exact congrArg _ (eq_of_zip length length' fun a b c hb hc => ih (a, b) hb (each' (a, c) hc))
    | byName anatomy' | byKey anatomy' | named _ anatomy' | handle anatomy' =>
      rw [anatomy] at anatomy'
      cases anatomy'
  | byName anatomy length _ _ ihKeys ihValues =>
    cases h' with
    | byName anatomy' length' keys' values' =>
      rw [anatomy] at anatomy'
      cases anatomy'
      refine congrArg _ (eq_of_zip length length' fun a b c hb hc => Prod.ext ?_ ?_)
      · exact HostValue.string.inj (ihKeys (a, b) hb (keys' (a, c) hc))
      · exact ihValues (a, b) hb (values' (a, c) hc)
    | byKey anatomy' length' keys' _ mixed' =>
      rw [anatomy] at anatomy'
      cases anatomy'
      exact absurd mixed' (not_mixed_of_keys (map_eq_map_of_zip length' length
        fun a b c hb hc => (ihKeys (a, c) hc (keys' (a, b) hb)).symm))
    | sequence anatomy' | named _ anatomy' | handle anatomy' =>
      rw [anatomy] at anatomy'
      cases anatomy'
  | byKey anatomy length _ _ mixed ihKeys ihValues =>
    cases h' with
    | byKey anatomy' length' keys' values' =>
      rw [anatomy] at anatomy'
      cases anatomy'
      refine congrArg _ (eq_of_zip length length' fun a b c hb hc => Prod.ext ?_ ?_)
      · exact ihKeys (a, b) hb (keys' (a, c) hc)
      · exact ihValues (a, b) hb (values' (a, c) hc)
    | byName anatomy' length' keys' =>
      rw [anatomy] at anatomy'
      cases anatomy'
      exact absurd mixed (not_mixed_of_keys (map_eq_map_of_zip length length'
        fun a b c hb hc => ihKeys (a, b) hb (keys' (a, c) hc)))
    | sequence anatomy' | named _ anatomy' | handle anatomy' =>
      rw [anatomy] at anatomy'
      cases anatomy'
  | named _ anatomy names _ ih =>
    cases h' with
    | named _ anatomy' names' values' =>
      rw [anatomy] at anatomy'
      cases anatomy'
      have values := map_eq_map_of_zip (f := Prod.snd) (g := Prod.snd) (length_of_names names)
        (length_of_names names') fun a b c hb hc => ih (a, b) hb (values' (a, c) hc)
      rw [List.zip_of_prod (names.symm.trans names') values]
      rw [← List.zip_of_prod rfl rfl]
    | sequence anatomy' | byName anatomy' | byKey anatomy' | handle anatomy' =>
      rw [anatomy] at anatomy'
      cases anatomy'
  | handle anatomy =>
    cases h' with
    | handle anatomy' =>
      rw [anatomy] at anatomy'
      cases anatomy'
      rfl
    | sequence anatomy' | byName anatomy' | byKey anatomy' | named _ anatomy' =>
      rw [anatomy] at anatomy'
      cases anatomy'

/-- Entries are a map by name exactly when all their keys are texts. -/
theorem ofPairs_cases (pairs : List (HostValue × HostValue)) :
    (∃ named : List (String × HostValue), pairs = named.map (fun e => (.string e.1, e.2)) ∧
      HostValue.ofPairs pairs = .ofEntries named) ∨
    ((∃ pair ∈ pairs, pair.1.text? = none) ∧ HostValue.ofPairs pairs = .pairs pairs) := by
  suffices h : (∃ named : List (String × HostValue),
      pairs = named.map (fun e => (.string e.1, e.2)) ∧
        HostValue.textEntries? pairs = some named) ∨
      ((∃ pair ∈ pairs, pair.1.text? = none) ∧ HostValue.textEntries? pairs = none) by
    rcases h with ⟨named, same, found⟩ | ⟨mixed, none⟩
    · exact .inl ⟨named, same, by rw [HostValue.ofPairs, found]⟩
    · exact .inr ⟨mixed, by rw [HostValue.ofPairs, none]⟩
  induction pairs with
  | nil => exact .inl ⟨[], rfl, rfl⟩
  | cons pair rest ih =>
    obtain ⟨key, value⟩ := pair
    cases text : key.text? with
    | none =>
      refine .inr ⟨⟨_, List.mem_cons_self, text⟩, ?_⟩
      cases key <;> first | rfl | cases text
    | some name =>
      have isString : key = .string name := by
        cases key <;> simp_all [HostValue.text?]
      subst isString
      rcases ih with ⟨named, same, found⟩ | ⟨⟨other, isRest, mixed⟩, none⟩
      · exact .inl ⟨(name, value) :: named, by rw [same]; rfl, by
          rw [HostValue.textEntries?, found]; rfl⟩
      · exact .inr ⟨⟨other, List.mem_cons_of_mem _ isRest, mixed⟩, by
          rw [HostValue.textEntries?, none]; rfl⟩

/-- Entries unfold to the map of their trees: by name when all keys become texts, and else as pairs,
in order. -/
theorem Unfolds.ofPairs {entries : List (Value × Value)} {pairs : List (HostValue × HostValue)}
    (anatomy : store.anatomy ref = .keyed entries)
    (each : List.Forall₂ (fun entry pair => store.Unfolds entry.1 pair.1 ∧
      store.Unfolds entry.2 pair.2) entries pairs) :
    store.Unfolds (.object ref) (.ofPairs pairs) := by
  rcases ofPairs_cases pairs with ⟨named, rfl, byName⟩ | ⟨mixed, byKey⟩
  · rw [byName]
    obtain ⟨length, trees⟩ := List.forall₂_iff_zip.1 (List.forall₂_map_right_iff.1 each)
    exact .byName anatomy length (fun _ paired => (trees paired).1)
      fun _ paired => (trees paired).2
  · rw [byKey]
    obtain ⟨length, trees⟩ := List.forall₂_iff_zip.1 each
    exact .byKey anatomy length (fun _ paired => (trees paired).1)
      (fun _ paired => (trees paired).2) mixed

/-! ## One cell -/

theorem mapM_cases {α β : Type} (f : α → Except Fault β) (items : List α) :
    (∃ results, items.mapM f = .ok results ∧ List.Forall₂ (fun a b => f a = .ok b) items results) ∨
      ∃ a ∈ items, ∃ fault, f a = .error fault ∧ items.mapM f = .error fault := by
  induction items with
  | nil => exact .inl ⟨[], rfl, .nil⟩
  | cons a rest ih =>
    rw [List.mapM_cons]
    cases answer : f a with
    | error fault => exact .inr ⟨a, List.mem_cons_self, fault, answer, rfl⟩
    | ok b =>
      rcases ih with ⟨results, same, each⟩ | ⟨b', isRest, fault, failed, same⟩
      · exact .inl ⟨b :: results, by rw [same]; rfl, .cons answer each⟩
      · exact .inr ⟨b', List.mem_cons_of_mem _ isRest, fault, failed, by rw [same]; rfl⟩

/-- What a walk may answer about a part, it may answer on behalf of the cell. -/
theorem Answers.of_part {p : Value} {result : Except Fault HostValue}
    (h : store.Answers p p result) (part : p ∈ (store.anatomy ref).parts) :
    store.Answers (.object ref) p result := by
  rcases h with found | ⟨other, reached, cycle, same⟩
  · exact .inl found
  · exact .inr ⟨other, .of_part part reached, cycle, same⟩

section Cell

variable {part : Value → Except Fault HostValue}

/-- An error of a part is the answer for the whole. -/
theorem Answers.of_error {p : Value} {fault : Fault} (h : store.Answers origin p (part p))
    (failed : part p = .error fault) : store.Answers origin v (.error fault) := by
  rcases h with ⟨tree, found, -⟩ | ⟨other, reached, cycle, same⟩
  · rw [failed] at found
    cases found
  · rw [failed] at same
    exact .inr ⟨other, reached, cycle, same⟩

/-- A tree of a part is its unfolding. -/
theorem Answers.unfolds {p : Value} {tree : HostValue} (h : store.Answers origin p (part p))
    (found : part p = .ok tree) : store.Unfolds p tree := by
  rcases h with ⟨other, same, unfolds⟩ | ⟨_, _, _, failed⟩
  · rw [found] at same
    cases same
    exact unfolds
  · rw [found] at failed
    cases failed

theorem answers_sequence {items : List Value} (anatomy : store.anatomy ref = .sequence items)
    (h : ∀ p ∈ items, store.Answers (.object ref) p (part p)) :
    store.Answers (.object ref) (.object ref) (do return .list (← items.mapM part)) := by
  rcases mapM_cases part items with ⟨trees, same, each⟩ | ⟨p, isItem, fault, failed, same⟩
  · rw [same]
    refine .inl ⟨_, rfl, .sequence anatomy each.length_eq fun pair paired => ?_⟩
    have found := (List.forall₂_iff_zip.1 each).2 paired
    exact (h _ (List.of_mem_zip paired).1).unfolds found
  · rw [same]
    exact (h p isItem).of_error failed

/-- The trees of the key and the value of an entry. -/
def entryTrees (part : Value → Except Fault HostValue) (entry : Value × Value) :
    Except Fault (HostValue × HostValue) := do
  return (← part entry.1, ← part entry.2)

theorem entryTrees_ok {entry : Value × Value} {pair : HostValue × HostValue}
    (h : entryTrees part entry = .ok pair) :
    part entry.1 = .ok pair.1 ∧ part entry.2 = .ok pair.2 := by
  unfold entryTrees at h
  cases key : part entry.1 with
  | error _ => rw [key] at h; cases h
  | ok k =>
    cases value : part entry.2 with
    | error _ => rw [key, value] at h; cases h
    | ok x => rw [key, value] at h; cases h; exact ⟨rfl, rfl⟩

theorem entryTrees_error {entry : Value × Value} {fault : Fault}
    (h : entryTrees part entry = .error fault) :
    ∃ p, (p = entry.1 ∨ p = entry.2) ∧ part p = .error fault := by
  unfold entryTrees at h
  cases key : part entry.1 with
  | error _ => rw [key] at h; cases h; exact ⟨_, .inl rfl, key⟩
  | ok k =>
    cases value : part entry.2 with
    | error _ => rw [key, value] at h; cases h; exact ⟨_, .inr rfl, value⟩
    | ok x => rw [key, value] at h; cases h

theorem answers_keyed {entries : List (Value × Value)}
    (anatomy : store.anatomy ref = .keyed entries)
    (h : ∀ p ∈ entryParts entries, store.Answers (.object ref) p (part p)) :
    store.Answers (.object ref) (.object ref) (departCell.dict part entries) := by
  have ofKey {entry : Value × Value} (isEntry : entry ∈ entries) :=
    h _ (mem_entryParts.2 ⟨entry, isEntry, .inl rfl⟩)
  have ofValue {entry : Value × Value} (isEntry : entry ∈ entries) :=
    h _ (mem_entryParts.2 ⟨entry, isEntry, .inr rfl⟩)
  change store.Answers _ _ (do return .ofPairs (← entries.mapM (entryTrees part)))
  rcases mapM_cases (entryTrees part) entries with
    ⟨pairs, same, each⟩ | ⟨entry, isEntry, fault, failed, same⟩
  · rw [same]
    obtain ⟨length, trees⟩ := List.forall₂_iff_zip.1 each
    refine .inl ⟨_, rfl, .ofPairs anatomy (List.forall₂_iff_zip.2 ⟨length, fun paired => ?_⟩)⟩
    obtain ⟨key, value⟩ := entryTrees_ok (trees paired)
    have isEntry := (List.of_mem_zip paired).1
    exact ⟨(ofKey isEntry).unfolds key, (ofValue isEntry).unfolds value⟩
  · rw [same]
    obtain ⟨p, isPart, partFailed⟩ := entryTrees_error failed
    exact (h p (mem_entryParts.2 ⟨entry, isEntry, isPart⟩)).of_error partFailed

/-- The tree of a named part, under its name. -/
def namedTree (part : Value → Except Fault HostValue) (field : String × Value) :
    Except Fault (String × HostValue) := do
  return (field.1, ← part field.2)

theorem namedTree_ok {field : String × Value} {named : String × HostValue}
    (h : namedTree part field = .ok named) : field.1 = named.1 ∧ part field.2 = .ok named.2 := by
  unfold namedTree at h
  cases value : part field.2 with
  | error _ => rw [value] at h; cases h
  | ok x => rw [value] at h; cases h; exact ⟨rfl, rfl⟩

theorem namedTree_error {field : String × Value} {fault : Fault}
    (h : namedTree part field = .error fault) : part field.2 = .error fault := by
  unfold namedTree at h
  cases value : part field.2 with
  | error _ => rw [value] at h; cases h; rfl
  | ok x => rw [value] at h; cases h

theorem answers_named {fields : List (String × Value)} (isOpen : store.Open ref)
    (anatomy : store.anatomy ref = .named fields)
    (h : ∀ p ∈ fields.map Prod.snd, store.Answers (.object ref) p (part p)) :
    store.Answers (.object ref) (.object ref) (departCell.named part fields) := by
  change store.Answers _ _ (do return .ofEntries (← fields.mapM (namedTree part)))
  rcases mapM_cases (namedTree part) fields with
    ⟨named, same, each⟩ | ⟨field, isField, fault, failed, same⟩
  · rw [same]
    obtain ⟨length, trees⟩ := List.forall₂_iff_zip.1 each
    refine .inl ⟨_, rfl, .named isOpen anatomy ?_ fun pair paired => ?_⟩
    · refine List.ext_getElem (by simpa using length) fun i inFields inNamed => ?_
      rw [List.length_map] at inFields inNamed
      simpa using (namedTree_ok (trees (getElem_mem_zip inFields inNamed))).1
    · exact (h _ (List.mem_map_of_mem (List.of_mem_zip paired).1)).unfolds
        (namedTree_ok (trees paired)).2
  · rw [same]
    exact (h _ (List.mem_map_of_mem isField)).of_error (namedTree_error failed)

/-- A cell is answered for when its parts are. -/
theorem departCell_answers (isOpen : store.Open ref) {typeName : String}
    (h : ∀ p ∈ (store.anatomy ref).parts, store.Answers (.object ref) p (part p)) :
    store.Answers (.object ref) (.object ref)
      (store.departCell typeName part (store.cell ref)) := by
  have isOpen' := isOpen
  unfold Open at isOpen'
  cases cell : store.cell ref with
  | list items _ | tuple items | set items _ =>
    have anatomy : store.anatomy ref = .sequence items := by simp only [anatomy, cell]
    rw [anatomy] at h
    exact answers_sequence anatomy h
  | dict entries _ =>
    have anatomy : store.anatomy ref = .keyed entries := by simp only [anatomy, cell]
    rw [anatomy] at h
    exact answers_keyed anatomy h
  | mapping _ dict _ =>
    have anatomy : store.anatomy ref = .keyed (store.dictEntries dict) := by
      simp only [anatomy, cell]
    rw [anatomy] at h
    exact answers_keyed anatomy h
  | record tag fields =>
    have anatomy : store.anatomy ref = .named fields := by simp only [anatomy, cell]
    rw [anatomy] at h
    simp only [cell] at isOpen'
    simp only [departCell, isOpen']
    exact answers_named isOpen anatomy h
  | module _ members =>
    have anatomy : store.anatomy ref = .named members := by simp only [anatomy, cell]
    rw [anatomy] at h
    exact answers_named isOpen anatomy h
  | proxy native =>
    have anatomy : store.anatomy ref = .handle native := by simp only [anatomy, cell]
    exact .inl ⟨_, rfl, .handle anatomy⟩
  | function _ | extension _ =>
    rw [cell] at isOpen'
    exact isOpen'.elim

end Cell

/-! ## The walk -/

/-- The path of a walk that stands at a cell: distinct cells of the store, not the cell itself, and
each leads to it. -/
structure Path (store : Store) (path : List Ref) (ref : Ref) : Prop where
  nodup : path.Nodup
  fresh : ref ∉ path
  inside : ∀ r ∈ path, r.index < store.size
  leads : ∀ r ∈ path, Relation.TransGen store.Leads r ref

theorem Path.length_le {path : List Ref} (h : store.Path path ref) : path.length ≤ store.size :=
  length_le_size h.nodup h.inside

/-- The path of the walk when it goes on to a part that is not on it. -/
theorem Path.push {path : List Ref} (h : store.Path path ref) {next : Ref}
    (leads : store.Leads ref next) (fresh : next ∉ ref :: path) :
    store.Path (ref :: path) next where
  nodup := List.nodup_cons.2 ⟨h.fresh, h.nodup⟩
  fresh := fresh
  inside := by
    rintro r (_ | ⟨_, onPath⟩)
    · exact leads.lt_size
    · exact h.inside r onPath
  leads := by
    rintro r (_ | ⟨_, onPath⟩)
    · exact .single leads
    · exact (h.leads r onPath).tail leads

/-- A part that is on the path closes a cycle through the cell. -/
theorem Path.closes {path : List Ref} (h : store.Path path ref) {next : Ref}
    (leads : store.Leads ref next) (met : next ∈ ref :: path) :
    store.OnCycle ref := by
  rcases List.mem_cons.1 met with rfl | onPath
  · exact .single leads
  · exact .head leads (h.leads next onPath)

/-- A value that is no cell has its tree at any depth. -/
theorem departWithin_scalar (store : Store) (h : ∀ ref, v ≠ .object ref) :
    ∃ tree, store.Unfolds v tree ∧ ∀ depth path, store.departWithin depth path v = .ok tree := by
  cases v with
  | object ref => exact absurd rfl (h ref)
  | nothing => exact ⟨_, .nothing, fun depth _ => by cases depth <;> rfl⟩
  | bool b => exact ⟨_, .bool b, fun depth _ => by cases depth <;> rfl⟩
  | int i => exact ⟨_, .int i, fun depth _ => by cases depth <;> rfl⟩
  | float x => exact ⟨_, .float x, fun depth _ => by cases depth <;> rfl⟩
  | string s => exact ⟨_, .string s, fun depth _ => by cases depth <;> rfl⟩
  | bytes b => exact ⟨_, .bytes b, fun depth _ => by cases depth <;> rfl⟩
  | time t => exact ⟨_, .time t, fun depth _ => by cases depth <;> rfl⟩

/-- A walk answers when its depth and its path together exceed the store. -/
theorem departWithin_answers (depth : Nat) : ∀ (path : List Ref) (ref : Ref),
    (∀ other, store.Reaches (.object ref) other → store.Open other) → store.Path path ref →
    store.size < depth + path.length →
    store.Answers (.object ref) (.object ref) (store.departWithin depth path (.object ref)) := by
  induction depth with
  | zero =>
    intro path ref _ isPath enough
    have := isPath.length_le
    omega
  | succ depth ih =>
    intro path ref isOpen isPath enough
    refine departCell_answers (isOpen ref reaches_self) fun p isPart => ?_
    by_cases scalar : ∀ next, p ≠ .object next
    · obtain ⟨tree, unfolds, found⟩ := departWithin_scalar store scalar
      refine .inl ⟨tree, ?_, unfolds⟩
      have noIdentity : p.identity? = none := by
        cases p <;> first | rfl | exact absurd rfl (scalar _)
      rw [noIdentity]
      exact found _ _
    · obtain ⟨next, rfl⟩ : ∃ next, p = .object next := by
        simpa using scalar
      by_cases met : next ∈ ref :: path
      · -- The guard finds the part on the path, and so a cycle through the cell.
        refine .inr ⟨ref, reaches_self, isPath.closes isPart met, ?_⟩
        have guard : (Value.object next).identity?.any (ref :: path).contains = true := by
          simpa [Value.identity?] using met
        rw [if_pos guard]
      · have guard : ¬ (Value.object next).identity?.any (ref :: path).contains = true := by
          simpa [Value.identity?] using met
        rw [if_neg guard]
        refine (ih (ref :: path) next (fun other reached => isOpen other (reached.of_part isPart))
          (isPath.push isPart met) ?_).of_part isPart
        simp only [List.length_cons]
        omega

theorem depart_answers (isOpen : ∀ ref, store.Reaches v ref → store.Open ref) :
    store.Answers v v (store.depart v) := by
  by_cases scalar : ∀ ref, v ≠ .object ref
  · obtain ⟨tree, unfolds, found⟩ := departWithin_scalar store scalar
    exact .inl ⟨tree, found _ _, unfolds⟩
  · obtain ⟨ref, rfl⟩ : ∃ ref, v = .object ref := by simpa using scalar
    refine departWithin_answers _ [] ref isOpen ⟨List.nodup_nil, ?_, ?_, ?_⟩ (Nat.lt_succ_self _)
    · exact List.not_mem_nil
    · exact fun _ h => absurd h List.not_mem_nil
    · exact fun _ h => absurd h List.not_mem_nil

/-- A value that unfolds departs as its tree. -/
theorem Unfolds.depart {tree : HostValue} (h : store.Unfolds v tree) :
    store.depart v = .ok tree := by
  rcases depart_answers h.isOpen with ⟨other, found, unfolds⟩ | ⟨ref, reached, cycle, -⟩
  · rw [found, h.unique unfolds]
  · exact absurd cycle (h.not_onCycle ref reached)

/-- **A departure ends with the tree that the value unfolds to, unless the value leads to a cycle.**
It has a tree exactly when no cell that is reached leads back to itself, and it refuses all else as
cyclic, naming a cell on a cycle. Its depth never runs out. -/
theorem depart_outcome (isOpen : ∀ ref, store.Reaches v ref → store.Open ref) :
    ((∃ tree, store.depart v = .ok tree) ↔ ∀ ref, store.Reaches v ref → ¬ store.OnCycle ref) ∧
    (∀ tree, store.depart v = .ok tree ↔ store.Unfolds v tree) ∧
    ((∃ ref, store.Reaches v ref ∧ store.OnCycle ref) → ∃ ref, store.Reaches v ref ∧
      store.OnCycle ref ∧
      store.depart v = .error (.cyclic departureName (store.typeName (.object ref)))) ∧
    store.depart v ≠ .error .endless := by
  rcases depart_answers isOpen with ⟨tree, found, unfolds⟩ | ⟨ref, reached, cycle, failed⟩
  · refine ⟨⟨fun _ => unfolds.not_onCycle, fun _ => ⟨tree, found⟩⟩,
      fun other => ⟨fun same => ?_, Unfolds.depart⟩, ?_, ?_⟩
    · rw [found] at same
      cases same
      exact unfolds
    · rintro ⟨ref, reached, cycle⟩
      exact absurd cycle (unfolds.not_onCycle ref reached)
    · rw [found]
      exact fun h => by cases h
  · refine ⟨⟨?_, fun none => absurd cycle (none ref reached)⟩, fun other => ⟨?_, fun also => ?_⟩,
      fun _ => ⟨ref, reached, cycle, failed⟩, ?_⟩
    · rintro ⟨tree, found⟩
      rw [failed] at found
      cases found
    · intro found
      rw [failed] at found
      cases found
    · exact absurd cycle (also.not_onCycle ref reached)
    · rw [failed]
      exact fun h => by cases h

/-- A list of a dict by name, a dict by key, a record and a mapping, all of which hold one list. -/
def twice : Store where
  cells := #[.list [.int 1] false, .dict [(.string "a", .object ⟨0⟩)] false,
    .dict [(.int 1, .object ⟨0⟩), (.string "b", .object ⟨1⟩)] false,
    .record (.string "job") [("first", .object ⟨0⟩), ("then", .nothing)],
    .mapping "shared" ⟨1⟩ false,
    .list [.object ⟨1⟩, .object ⟨2⟩, .object ⟨3⟩, .object ⟨4⟩] false]

theorem open_twice (ref : Ref) : twice.Open ref := by
  obtain ⟨index⟩ := ref
  match index with
  | 0 | 1 | 2 | 3 | 4 | 5 => trivial
  | index + 6 => trivial

/-- The list is told wherever it is held, and the dict by name once more for the mapping. -/
theorem unfolds_twice :
    (∀ ref, twice.Reaches (.object ⟨5⟩) ref → twice.Open ref) ∧
    twice.Unfolds (.object ⟨5⟩) (.list [.ofEntries [("a", .list [.int 1])],
      .pairs [(.int 1, .list [.int 1]), (.string "b", .ofEntries [("a", .list [.int 1])])],
      .ofEntries [("first", .list [.int 1]), ("then", .null)],
      .ofEntries [("a", .list [.int 1])]]) :=
  ⟨fun ref _ => open_twice ref, ((depart_outcome fun ref _ => open_twice ref).2.1 _).1 rfl⟩

end Interchange.Store
