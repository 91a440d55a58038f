import Interchange.Proofs.Store.FreezeReach
import Interchange.Store.Nesting

/-!
# The search for shared mappings

The search finds a shared mapping exactly in what leads to one (`findMapping?_eq_none_iff`). It looks
into each cell once: what it passes over was visited before, and when it has found nothing, all parts
of what it has visited are visited, too (`Explored`). Its depth is enough, since each level visits
another cell of the store.
-/

namespace Interchange

/-- Is it a shared mapping? -/
def Cell.isMapping : Cell → Bool
  | mapping _ _ _ => true
  | _ => false

namespace Store

variable {s : Store} {v w : Value} {ref : Ref} {name : String} {visited later last : List Ref}
  {depth : Nat}

/-- A value that leads to no shared mapping by elements, keys and values, tags, fields and
members. -/
def Clear (s : Store) (v : Value) : Prop :=
  ∀ r, s.ReachesBy Cell.parts v (.object r) → (s.cell r).isMapping = false

/-- A value is among the visited cells, if it is an object. -/
def Seen (visited : List Ref) (v : Value) : Prop := ∀ ref, v = .object ref → ref ∈ visited

theorem Seen.mono (h : Seen visited v) (kept : visited ⊆ later) : Seen later v :=
  fun ref same => kept (h ref same)

/-- The cells that a search has visited: cells of the store, each once. -/
structure Visited (s : Store) (visited : List Ref) : Prop where
  once : visited.Nodup
  inside : ∀ ref ∈ visited, ref.index < s.size

/-- A search has gone on from visited cells to more of them: what is new is no shared mapping, and
all its parts are visited. -/
structure Explored (s : Store) (visited later : List Ref) : Prop where
  done : s.Visited later
  kept : visited ⊆ later
  longer : visited.length ≤ later.length
  clear : ∀ ref ∈ later, ref ∉ visited →
    (s.cell ref).isMapping = false ∧ ∀ v ∈ (s.cell ref).parts, Seen later v

theorem Explored.refl (h : s.Visited visited) : s.Explored visited visited :=
  ⟨h, fun _ isVisited => isVisited, Nat.le_refl _, fun _ isVisited new => absurd isVisited new⟩

theorem Explored.trans (h : s.Explored visited later) (h' : s.Explored later last) :
    s.Explored visited last where
  done := h'.done
  kept := fun _ isVisited => h'.kept (h.kept isVisited)
  longer := Nat.le_trans h.longer h'.longer
  clear := fun ref isLast new => by
    by_cases isLater : ref ∈ later
    · obtain ⟨plain, seen⟩ := h.clear ref isLater new
      exact ⟨plain, fun v part => (seen v part).mono h'.kept⟩
    · exact h'.clear ref isLast isLater

/-- The parts of a cell being explored, the cell is. -/
theorem Explored.of_cons (h : s.Explored (ref :: visited) later)
    (plain : (s.cell ref).isMapping = false) (seen : ∀ v ∈ (s.cell ref).parts, Seen later v) :
    s.Explored visited later where
  done := h.done
  kept := fun _ isVisited => h.kept (List.mem_cons_of_mem _ isVisited)
  longer := Nat.le_of_succ_le h.longer
  clear := fun r isLater new => by
    by_cases same : r = ref
    · subst same
      exact ⟨plain, seen⟩
    · exact h.clear r isLater fun isVisited => (List.mem_cons.1 isVisited).elim same new

/-! ## What a search says that finds nothing -/

/-- A search finds nothing in values when it finds nothing in each of them, one after the other. -/
theorem explored_searchEach {search : List Ref → Value → Option String × List Ref}
    {values : List Value} {room : Nat}
    (each : ∀ v ∈ values, ∀ visited later, s.Visited visited → room ≤ visited.length →
      search visited v = (none, later) → s.Explored visited later ∧ Seen later v)
    (before : s.Visited visited) (enough : room ≤ visited.length)
    (none : searchEach search visited values = (none, later)) :
    s.Explored visited later ∧ ∀ v ∈ values, Seen later v := by
  induction values generalizing visited with
  | nil =>
    cases none
    exact ⟨.refl before, nofun⟩
  | cons v rest ih =>
    rw [searchEach] at none
    rcases first : search visited v with ⟨_ | name, next⟩
    · rw [first] at none
      obtain ⟨explored, seen⟩ := each v List.mem_cons_self visited next before enough first
      obtain ⟨explored', seen'⟩ := ih (fun w isRest => each w (List.mem_cons_of_mem _ isRest))
        explored.done (Nat.le_trans enough explored.longer) none
      exact ⟨explored.trans explored', List.forall_mem_cons.2 ⟨seen.mono explored'.kept, seen'⟩⟩
    · rw [first] at none
      cases none

/-- What one level of a search does with a value, whatever the depth below it: it passes over what is no
object and what it has visited, stops at a shared mapping, and goes into any other cell. -/
inductive Level (s : Store) (visited : List Ref) : Value → Prop
  | passes {v : Value} (seen : Seen visited v)
      (found : ∀ depth, s.findMappingWithin (depth + 1) visited v = (none, visited)) :
      Level s visited v
  | stops {ref : Ref} {name : String} {dict : Ref} {frozen : Bool}
      (cell : s.cell ref = .mapping name dict frozen)
      (found : ∀ depth, s.findMappingWithin (depth + 1) visited (.object ref) =
        (some name, visited)) : Level s visited (.object ref)
  | enters {ref : Ref} (plain : (s.cell ref).isMapping = false) (fresh : ref ∉ visited)
      (found : ∀ depth, s.findMappingWithin (depth + 1) visited (.object ref) =
        searchEach (s.findMappingWithin depth) (ref :: visited) (s.cell ref).parts) :
      Level s visited (.object ref)

/-- A search goes into a cell that is no shared mapping where it was not before. -/
theorem findMappingWithin_plain (plain : (s.cell ref).isMapping = false) :
    s.findMappingWithin (depth + 1) visited (.object ref) =
      if visited.contains ref then (none, visited)
      else searchEach (s.findMappingWithin depth) (ref :: visited) (s.cell ref).parts := by
  rw [findMappingWithin]
  cases cell : s.cell ref with
  | mapping =>
    rw [cell] at plain
    cases plain
  | _ => rfl

theorem exists_mapping_of_isMapping (mapping : (s.cell ref).isMapping = true) :
    ∃ name dict frozen, s.cell ref = .mapping name dict frozen := by
  cases cell : s.cell ref with
  | mapping name dict frozen => exact ⟨name, dict, frozen, rfl⟩
  | _ =>
    rw [cell] at mapping
    cases mapping

theorem level (s : Store) (visited : List Ref) (v : Value) : s.Level visited v := by
  cases v with
  | object ref =>
    cases mapping : (s.cell ref).isMapping with
    | true =>
      obtain ⟨name, dict, frozen, cell⟩ := exists_mapping_of_isMapping mapping
      exact .stops cell fun depth => by rw [findMappingWithin, cell]
    | false =>
      by_cases met : ref ∈ visited
      · refine .passes (fun r same => ?_) fun depth => ?_
        · cases same
          exact met
        · rw [findMappingWithin_plain mapping, if_pos (List.contains_iff_mem.2 met)]
      · refine .enters mapping met fun depth => ?_
        rw [findMappingWithin_plain mapping, if_neg fun isMet => met (List.contains_iff_mem.1 isMet)]
  | _ => exact .passes nofun fun _ => rfl

/-- A search that finds nothing has explored all that it went through. -/
theorem explored_findMappingWithin (closed : s.Closed) (has : s.Has v) (before : s.Visited visited)
    (room : s.size < depth + visited.length)
    (none : s.findMappingWithin depth visited v = (none, later)) :
    s.Explored visited later ∧ Seen later v := by
  induction depth generalizing visited later v with
  | zero =>
    have := length_le_size before.once before.inside
    omega
  | succ depth ih =>
    cases s.level visited v with
    | passes seen found =>
      cases (found depth).symm.trans none
      exact ⟨.refl before, seen⟩
    | stops _ found => cases (found depth).symm.trans none
    | @enters ref plain fresh found =>
      rw [found] at none
      have here : s.Visited (ref :: visited) :=
        ⟨List.nodup_cons.2 ⟨fresh, before.once⟩,
          List.forall_mem_cons.2 ⟨has_object.1 has, before.inside⟩⟩
      -- The cell itself is visited from here on, so a level less has as much room.
      obtain ⟨explored, seen⟩ := explored_searchEach
        (fun w part visited later before enough none =>
          ih (closed ref w (Cell.held_of_parts part)) before
            (by rw [List.length_cons] at enough; omega) none)
        here (Nat.le_refl _) none
      refine ⟨explored.of_cons plain seen, fun r same => ?_⟩
      cases same
      exact explored.kept List.mem_cons_self

/-- A search that finds nothing at all has explored all that the value leads to. -/
theorem clear_of_findMapping? (closed : s.Closed) (has : s.Has v) (none : s.findMapping? v = none) :
    s.Clear v := by
  have before : s.Visited [] := ⟨.nil, nofun⟩
  obtain ⟨explored, seen⟩ := explored_findMappingWithin closed has before
    (Nat.lt_succ_self s.size) (Prod.ext none rfl)
  intro r reaches
  have seen {w : Value} (reaches : s.ReachesBy Cell.parts v w) :
      Seen (s.findMappingWithin (s.size + 1) [] v).2 w := by
    induction reaches with
    | refl => exact seen
    | tail _ leads ih =>
      obtain ⟨ref, rfl, part⟩ := leads
      exact (explored.clear ref (ih ref rfl) List.not_mem_nil).2 _ part
  exact (explored.clear r (seen reaches r rfl) List.not_mem_nil).1

/-! ## What a search says that finds a mapping -/

/-- A search of values finds what the search of one of them finds. -/
theorem exists_of_searchEach {search : List Ref → Value → Option String × List Ref}
    {values : List Value} (found : searchEach search visited values = (some name, later)) :
    ∃ v ∈ values, ∃ visited later, search visited v = (some name, later) := by
  induction values generalizing visited with
  | nil => cases found
  | cons v rest ih =>
    rw [searchEach] at found
    rcases first : search visited v with ⟨_ | other, next⟩
    · rw [first] at found
      obtain ⟨w, isRest, there⟩ := ih found
      exact ⟨w, List.mem_cons_of_mem _ isRest, there⟩
    · rw [first] at found
      cases found
      exact ⟨v, List.mem_cons_self, visited, later, first⟩

/-- What a search finds is the name of a shared mapping that the value leads to. -/
theorem reaches_of_findMappingWithin
    (found : s.findMappingWithin depth visited v = (some name, later)) :
    ∃ r dict frozen, s.ReachesBy Cell.parts v (.object r) ∧
      s.cell r = .mapping name dict frozen := by
  induction depth generalizing visited later v with
  | zero => cases v <;> cases found
  | succ depth ih =>
    cases s.level visited v with
    | passes _ none => cases (none depth).symm.trans found
    | @stops ref _ dict frozen cell stop =>
      cases (stop depth).symm.trans found
      exact ⟨ref, dict, frozen, .refl, cell⟩
    | @enters ref _ _ enters =>
      rw [enters] at found
      obtain ⟨w, part, visited, later, there⟩ := exists_of_searchEach found
      obtain ⟨r, dict, frozen, reaches, cell⟩ := ih there
      exact ⟨r, dict, frozen, .head ⟨ref, rfl, part⟩ reaches, cell⟩

/-- The search finds nothing exactly in what leads to no shared mapping. -/
theorem findMapping?_eq_none_iff (closed : s.Closed) (has : s.Has v) :
    s.findMapping? v = none ↔ s.Clear v := by
  refine ⟨clear_of_findMapping? closed has, fun clear => ?_⟩
  rcases found : s.findMappingWithin (s.size + 1) [] v with ⟨_ | name, later⟩
  · rw [findMapping?, found]
  · obtain ⟨r, dict, frozen, reaches, cell⟩ := reaches_of_findMappingWithin found
    have plain := clear r reaches
    rw [cell] at plain
    cases plain

end Store
end Interchange
