import Mathlib.Data.List.Lex
import Interchange.Proofs.History
import Interchange.Proofs.Store.Search

/-!
# The first shared mapping

What may not be stored is refused with the name of the first shared mapping that it leads to
(`Reachable.checkStorable_outcome`). The order is that of ways (`Store.Way`): a way goes from part to
part and enters no cell twice, and of two ways the one is before the other that goes on to an earlier
part where they branch off. The search follows this order although it passes over whatever it has
visited, on any way: what it has come back from leads to a shared mapping only through a cell that it
is inside of (`Store.Shut.misses`), and no way goes there twice.
-/

namespace Interchange.Store

variable {s : Store} {v w : Value} {ref target other : Ref} {name : String} {depth : Nat}
  {inside visited later : List Ref} {places others : List Nat}

/-- A way from a value to a cell, by the places of the parts that it goes on to. It enters no cell
twice, and none of those that it is inside of when it begins. -/
inductive Way (s : Store) : List Ref → Value → List Nat → Ref → Prop
  | here {inside : List Ref} {ref : Ref} (fresh : ref ∉ inside) : Way s inside (.object ref) [] ref
  | part {inside : List Ref} {ref target : Ref} {place : Nat} {v : Value} {places : List Nat}
      (fresh : ref ∉ inside) (isPart : (s.cell ref).parts[place]? = some v)
      (rest : Way s (ref :: inside) v places target) :
      Way s inside (.object ref) (place :: places) target

/-- No way leads from the value to a shared mapping. -/
def Misses (s : Store) (inside : List Ref) (v : Value) : Prop :=
  ∀ places target, s.Way inside v places target → (s.cell target).isMapping = false

/-- The first way from the value to a shared mapping leads to one of this name. -/
def LeadsFirst (s : Store) (inside : List Ref) (v : Value) (name : String) : Prop :=
  ∃ places target dict frozen, s.Way inside v places target ∧
    s.cell target = .mapping name dict frozen ∧ ∀ others other, s.Way inside v others other →
      (s.cell other).isMapping = true → places ≤ others

/-- A way is told by its places. -/
theorem Way.target_eq (way : s.Way inside v places target) (way' : s.Way inside v places other) :
    target = other := by
  induction way with
  | here =>
    cases way'
    rfl
  | part _ isPart _ ih =>
    cases way' with
    | part _ isPart' rest =>
      cases isPart.symm.trans isPart'
      exact ih rest

theorem Way.reaches (way : s.Way inside v places target) :
    s.ReachesBy Cell.parts v (.object target) := by
  induction way with
  | here => exact .refl
  | part _ isPart _ ih => exact .head ⟨_, rfl, List.mem_of_getElem? isPart⟩ ih

theorem isMapping_of_cell {dict : Ref} {frozen : Bool}
    (cell : s.cell ref = .mapping name dict frozen) : (s.cell ref).isMapping = true := by
  rw [cell]
  rfl

/-- There is only one first way. -/
theorem LeadsFirst.name_eq {name' : String} (first : s.LeadsFirst inside v name)
    (first' : s.LeadsFirst inside v name') : name = name' := by
  obtain ⟨places, target, dict, frozen, way, cell, least⟩ := first
  obtain ⟨places', target', dict', frozen', way', cell', least'⟩ := first'
  obtain rfl : places = places' := le_antisymm
    (least places' target' way' (isMapping_of_cell cell'))
    (least' places target way (isMapping_of_cell cell))
  obtain rfl := way.target_eq way'
  cases cell.symm.trans cell'
  rfl

/-! ## What the search has come back from -/

/-- The search has come back from all visited cells but those that it is inside of: they are no shared
mappings, and all their parts are visited. -/
def Shut (s : Store) (inside visited : List Ref) : Prop :=
  ∀ ref ∈ visited, ref ∉ inside →
    (s.cell ref).isMapping = false ∧ ∀ v ∈ (s.cell ref).parts, Seen visited v

theorem Shut.deeper (shut : s.Shut inside visited) : s.Shut (ref :: inside) (ref :: visited) := by
  intro r isVisited out
  obtain ⟨other, out⟩ := not_or.1 (List.mem_cons.not.1 out)
  obtain ⟨plain, seen⟩ := shut r ((List.mem_cons.1 isVisited).resolve_left other) out
  exact ⟨plain, fun v part => (seen v part).mono fun _ => List.mem_cons_of_mem _⟩

theorem Shut.explored (shut : s.Shut inside visited) (explored : s.Explored visited later) :
    s.Shut inside later := by
  intro r isLater out
  by_cases isVisited : r ∈ visited
  · obtain ⟨plain, seen⟩ := shut r isVisited out
    exact ⟨plain, fun v part => (seen v part).mono explored.kept⟩
  · exact explored.clear r isLater isVisited

/-- A way that begins in what the search has come back from stays there, unless it goes through a
cell that the search is inside of. -/
theorem Shut.misses (shut : s.Shut inside visited) (seen : Seen visited v) : s.Misses inside v := by
  intro places target way
  induction way generalizing visited with
  | here fresh => exact (shut _ (seen _ rfl) fresh).1
  | part fresh isPart _ ih =>
    obtain ⟨-, parts⟩ := shut _ (seen _ rfl) fresh
    refine ih (fun r isVisited out => shut r isVisited fun isInside => ?_)
      (parts _ (List.mem_of_getElem? isPart))
    exact out (List.mem_cons_of_mem _ isInside)

/-- Where a search is in a store: it has visited enough cells for its depth, and come back from all of
them but those that it is inside of. -/
structure Stands (s : Store) (depth : Nat) (inside visited : List Ref) : Prop where
  before : s.Visited visited
  room : s.size < depth + visited.length
  shut : s.Shut inside visited

theorem Stands.positive (stands : s.Stands depth inside visited) : 0 < depth := by
  have := length_le_size stands.before.once stands.before.inside
  have := stands.room
  omega

/-- The search goes into a cell where it was not before. -/
theorem Stands.enter (stands : s.Stands (depth + 1) inside visited) (has : s.Has (.object ref))
    (fresh : ref ∉ visited) : s.Stands depth (ref :: inside) (ref :: visited) where
  before := ⟨List.nodup_cons.2 ⟨fresh, stands.before.once⟩,
    List.forall_mem_cons.2 ⟨has_object.1 has, stands.before.inside⟩⟩
  room := by
    have := stands.room
    rw [List.length_cons]
    omega
  shut := stands.shut.deeper

/-- A search that finds nothing in a value goes on, and there is nothing in the value. -/
theorem Stands.passes (stands : s.Stands depth inside visited) (closed : s.Closed) (has : s.Has v)
    (none : s.findMappingWithin depth visited v = (none, later)) :
    s.Stands depth inside later ∧ s.Misses inside v := by
  obtain ⟨explored, seen⟩ := explored_findMappingWithin closed has stands.before stands.room none
  have shut := stands.shut.explored explored
  have := stands.room
  have := explored.longer
  exact ⟨⟨explored.done, by omega, shut⟩, shut.misses seen⟩

/-! ## What the search finds -/

/-- A search of values that finds a name finds it in one of them, and nothing in those before. -/
theorem first_of_searchEach {search : List Ref → Value → Option String × List Ref}
    {values : List Value} (Inv : List Ref → Prop) (Misses : Value → Prop) (start : Inv visited)
    (each : ∀ v ∈ values, ∀ visited later, Inv visited → search visited v = (none, later) →
      Inv later ∧ Misses v)
    (found : searchEach search visited values = (some name, later)) :
    ∃ (place : Nat) (v : Value), values[place]? = some v ∧
      (∃ visited later, Inv visited ∧ search visited v = (some name, later)) ∧
      ∀ earlier w, earlier < place → values[earlier]? = some w → Misses w := by
  induction values generalizing visited with
  | nil => cases found
  | cons v rest ih =>
    rw [searchEach] at found
    rcases first : search visited v with ⟨_ | other, next⟩
    · rw [first] at found
      obtain ⟨going, misses⟩ := each v List.mem_cons_self visited next start first
      obtain ⟨place, w, isPart, there, before⟩ :=
        ih going (fun w isRest => each w (List.mem_cons_of_mem _ isRest)) found
      refine ⟨place + 1, w, isPart, there, fun earlier u lt isEarlier => ?_⟩
      cases earlier with
      | zero =>
        cases isEarlier
        exact misses
      | succ earlier => exact before earlier u (Nat.lt_of_succ_lt_succ lt) isEarlier
    · rw [first] at found
      cases found
      exact ⟨0, v, rfl, ⟨visited, later, start, first⟩, fun _ _ lt => absurd lt (Nat.not_lt_zero _)⟩

/-- The first way goes on to the first part from which there is one. -/
theorem LeadsFirst.of_part {place : Nat} (plain : (s.cell ref).isMapping = false)
    (fresh : ref ∉ inside) (isPart : (s.cell ref).parts[place]? = some v)
    (first : s.LeadsFirst (ref :: inside) v name)
    (before : ∀ earlier w, earlier < place → (s.cell ref).parts[earlier]? = some w →
      s.Misses (ref :: inside) w) : s.LeadsFirst inside (.object ref) name := by
  obtain ⟨places, target, dict, frozen, way, cell, least⟩ := first
  refine ⟨place :: places, target, dict, frozen, .part fresh isPart way, cell, ?_⟩
  intro others other way' mapping
  cases way' with
  | here =>
    rw [plain] at mapping
    cases mapping
  | @part _ _ _ place' v' places' _ isPart' rest =>
    rcases Nat.lt_trichotomy place' place with lt | rfl | gt
    · have misses := before place' v' lt isPart' _ _ rest
      rw [misses] at mapping
      cases mapping
    · cases isPart.symm.trans isPart'
      exact List.cons_le_cons _ (least places' other rest mapping)
    · exact le_of_lt (.rel gt)

/-- What the search finds first is on the first way. -/
theorem Stands.finds (stands : s.Stands depth inside visited) (closed : s.Closed) (has : s.Has v)
    (within : inside ⊆ visited) (apart : ∀ ref ∈ inside, (s.cell ref).isMapping = false)
    (found : s.findMappingWithin depth visited v = (some name, later)) :
    s.LeadsFirst inside v name := by
  induction depth generalizing inside visited later v with
  | zero => exact absurd stands.positive (Nat.lt_irrefl 0)
  | succ depth ih =>
    cases s.level visited v with
    | passes _ none => cases (none depth).symm.trans found
    | @stops ref name' dict frozen cell stop =>
      cases (stop depth).symm.trans found
      refine ⟨[], ref, dict, frozen, .here fun isInside => ?_, cell, fun _ _ _ _ => ?_⟩
      · have plain := apart ref isInside
        rw [isMapping_of_cell cell] at plain
        cases plain
      · exact not_lt.1 (List.not_lt_nil _)
    | @enters ref plain fresh enters =>
      rw [enters] at found
      have has' (w : Value) (part : w ∈ (s.cell ref).parts) : s.Has w :=
        closed ref w (Cell.held_of_parts part)
      -- On the way through the parts, the search stands as it does when it comes into the cell.
      obtain ⟨place, w, isPart, ⟨visited', later', ⟨stands', sub⟩, there⟩, before⟩ :=
        first_of_searchEach
          (fun visited' => s.Stands depth (ref :: inside) visited' ∧ ref :: inside ⊆ visited')
          (s.Misses (ref :: inside))
          ⟨stands.enter has fresh, List.cons_subset_cons ref within⟩
          (fun w part visited' later' ⟨stands', sub⟩ none => by
            obtain ⟨explored, -⟩ := explored_findMappingWithin closed (has' w part)
              stands'.before stands'.room none
            obtain ⟨going, misses⟩ := stands'.passes closed (has' w part) none
            exact ⟨⟨going, List.Subset.trans sub explored.kept⟩, misses⟩)
          found
      exact .of_part plain (fun isInside => fresh (within isInside)) isPart
        (ih stands' (has' w (List.mem_of_getElem? isPart)) sub
          (List.forall_mem_cons.2 ⟨plain, apart⟩) there) before

/-! ## The search ends -/

theorem searchEach_congr {search search' : List Ref → Value → Option String × List Ref}
    {values : List Value} (Inv : List Ref → Prop) (start : Inv visited)
    (each : ∀ v ∈ values, ∀ visited, Inv visited → search visited v = search' visited v ∧
      ∀ later, search visited v = (none, later) → Inv later) :
    searchEach search visited values = searchEach search' visited values := by
  induction values generalizing visited with
  | nil => rfl
  | cons v rest ih =>
    obtain ⟨same, going⟩ := each v List.mem_cons_self visited start
    rw [searchEach, searchEach, ← same]
    rcases first : search visited v with ⟨_ | other, next⟩
    · exact ih (going next first) fun w isRest => each w (List.mem_cons_of_mem _ isRest)
    · rfl

/-- A search whose depth has room for the cells where it was not does not come to its end. -/
theorem Stands.depth_eq (stands : s.Stands depth inside visited) (closed : s.Closed) (has : s.Has v)
    (more : Nat) : s.findMappingWithin (depth + more) visited v =
      s.findMappingWithin depth visited v := by
  induction depth generalizing inside visited v with
  | zero => exact absurd stands.positive (Nat.lt_irrefl 0)
  | succ depth ih =>
    rw [Nat.succ_add]
    cases s.level visited v with
    | passes _ none => rw [none, none]
    | stops _ stop => rw [stop, stop]
    | @enters ref _ fresh enters =>
      rw [enters, enters]
      refine searchEach_congr (s.Stands depth (ref :: inside))
        (stands.enter has fresh) fun w part visited' stands' => ?_
      have has' : s.Has w := closed ref w (Cell.held_of_parts part)
      have same := ih stands' has'
      refine ⟨same, fun later none => ?_⟩
      rw [same] at none
      exact (stands'.passes closed has' none).1

/-- A search stands at its beginning where it has been nowhere. -/
theorem stands_nil (deep : s.size < depth) : s.Stands depth [] [] :=
  ⟨⟨.nil, nofun⟩, by simpa using deep, nofun⟩

/-- A search that has been nowhere finds the name on the first way. -/
theorem findMapping?_eq_some_iff (closed : s.Closed) (has : s.Has v) :
    s.findMapping? v = some name ↔ s.LeadsFirst [] v name := by
  have finds {name : String} (found : s.findMapping? v = some name) : s.LeadsFirst [] v name :=
    (stands_nil (Nat.lt_succ_self s.size)).finds closed has (List.Subset.refl _) nofun
      (Prod.ext found rfl)
  refine ⟨finds, fun first => ?_⟩
  cases found : s.findMapping? v with
  | some other => rw [first.name_eq (finds found)]
  | none =>
    obtain ⟨places, target, dict, frozen, way, cell, -⟩ := first
    have plain := (findMapping?_eq_none_iff closed has).1 found target way.reaches
    rw [isMapping_of_cell cell] at plain
    cases plain

/-- What may not be stored is what leads to a shared mapping, and it is refused with the name of the
first one. The search for it ends by itself: a greater depth finds the same. -/
theorem Reachable.checkStorable_outcome (reachable : s.Reachable) (has : s.Has v) (op : String) :
    ((∃ fault, s.checkStorable op v = .error fault) ↔
      ∃ ref, s.ReachesBy Cell.parts v (.object ref) ∧ (s.cell ref).isMapping = true) ∧
    (∀ fault, s.checkStorable op v = .error fault ↔
      ∃ name, s.LeadsFirst [] v name ∧ fault = .unsupported op name) ∧
    ∀ depth, s.size < depth →
      s.findMappingWithin depth [] v = s.findMappingWithin (s.size + 1) [] v := by
  have closed := reachable.sound.closed
  refine ⟨?_, fun fault => ?_, fun depth deep => ?_⟩
  · have refused : (∃ fault, s.checkStorable op v = .error fault) ↔ s.findMapping? v ≠ none := by
      unfold checkStorable
      cases s.findMapping? v <;> simp
    rw [refused, Ne, findMapping?_eq_none_iff closed has]
    simp [Clear]
  · simp only [← findMapping?_eq_some_iff closed has, checkStorable]
    cases s.findMapping? v <;> simp [eq_comm]
  · obtain ⟨more, rfl⟩ := Nat.exists_eq_add_of_le deep
    exact (stands_nil (Nat.lt_succ_self s.size)).depth_eq closed has more

/-- Two lists that hold each other, the one with one mapping and the other with another. -/
def winding : Store := empty.after
  [.newMapping "near", .newMapping "far", .newList [], .newList [.object ⟨4⟩, .object ⟨3⟩],
    .push ⟨4⟩ (.object ⟨5⟩), .push ⟨4⟩ (.object ⟨1⟩)]

theorem reachable_winding : winding.Reachable :=
  reachable_empty.after ⟨⟨nofun, nofun⟩, ⟨nofun, nofun⟩, ⟨nofun, nofun⟩, ⟨by decide, nofun⟩,
    ⟨by decide, nofun⟩, ⟨by decide, nofun⟩, trivial⟩

/-- The mapping that is refused is the one on the first way, which is not the shortest. -/
theorem checkStorable_outcome_winding :
    winding.checkStorable "set_key" (.object ⟨4⟩) = .error (.unsupported "set_key" "far") ∧
    winding.LeadsFirst [] (.object ⟨4⟩) "far" ∧
    winding.ReachesBy Cell.parts (.object ⟨4⟩) (.object ⟨1⟩) ∧
    (winding.cell ⟨1⟩).isMapping = true ∧
    winding.findMappingWithin 100 [] (.object ⟨4⟩) = (some "far", [⟨5⟩, ⟨4⟩]) := by
  obtain ⟨-, fault, deeper⟩ :=
    reachable_winding.checkStorable_outcome (v := .object ⟨4⟩) (by decide) "set_key"
  have refused :
      winding.checkStorable "set_key" (.object ⟨4⟩) = .error (.unsupported "set_key" "far") := rfl
  refine ⟨refused, ?_, .single ⟨⟨4⟩, rfl, by decide⟩, rfl, (deeper 100 (by decide)).trans rfl⟩
  obtain ⟨name, first, same⟩ := (fault _).1 refused
  cases same
  exact first

end Interchange.Store
