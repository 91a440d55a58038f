import Interchange.Container.Fields
import Interchange.Container.ValueList
import Interchange.Proofs.Store.Graph
import Interchange.Proofs.Store.Step

/-!
# The conduct of operations

An operation that is run on a closed store takes it through steps, whether it succeeds or fails, and
when it succeeds its result is one that the store has (`Op.Ensures`). So what holds of every step
holds of every operation. The rules follow the way operations are put together; each operation on a
container has one lemma, and whoever calls it needs no more than that.
-/

namespace Interchange

namespace Op

open Store

variable {α β : Type} {op : Op α} {next : α → Op β} {s t : Store} {post : α → Store → Prop}
  {mid : α → Store → Prop} {after : β → Store → Prop}

/-- Run on a closed store, an operation takes it through steps; a result comes with a property. -/
def Ensures (op : Op α) (s : Store) (post : α → Store → Prop) : Prop :=
  s.Closed → s.Proceeds (op.runOn s).2 ∧ ∀ a, (op.runOn s).1 = .ok a → post a (op.runOn s).2

/-! ## Rules -/

/-- That the store is closed may be used. -/
theorem Ensures.of_closed (h : s.Closed → op.Ensures s post) : op.Ensures s post :=
  fun closed => h closed closed

theorem Ensures.of_run {result : Except Fault α} (run : op.runOn s = (result, t))
    (h : s.Closed → s.Proceeds t ∧ ∀ a, result = .ok a → post a t) : op.Ensures s post := by
  intro closed
  rw [run]
  exact h closed

theorem ensures_pure {a : α} (h : s.Closed → post a s) : (pure a : Op α).Ensures s post :=
  .of_run (runOn_pure a) fun closed => ⟨.refl s, fun b same => by cases same; exact h closed⟩

theorem ensures_throw (fault : Fault) : (throw fault : Op α).Ensures s post :=
  .of_run (runOn_throw fault) fun _ => ⟨.refl s, fun _ same => by cases same⟩

theorem Ensures.bind (h : op.Ensures s mid)
    (h' : ∀ a t, s.Evolves t → mid a t → (next a).Ensures t after) :
    (op >>= next).Ensures s after := by
  intro closed
  obtain ⟨first, result⟩ := h closed
  rw [runOn_bind]
  rcases run : op.runOn s with ⟨fault | a, t⟩
  · rw [run] at first
    exact ⟨first, fun _ same => by cases same⟩
  · rw [run] at first result
    obtain ⟨rest, final⟩ := h' a t first.evolves (result a rfl) (first.evolves.closed closed)
    exact ⟨first.trans rest, final⟩

theorem Ensures.imp {weak : α → Store → Prop} (h : op.Ensures s post)
    (weaker : ∀ a t, s.Evolves t → post a t → weak a t) : op.Ensures s weak := by
  intro closed
  obtain ⟨proceeds, result⟩ := h closed
  exact ⟨proceeds, fun a same => weaker a _ proceeds.evolves (result a same)⟩

/-- An operation that leaves the store as it is. -/
theorem ensures_of_same {result : Except Fault α} (run : op.runOn s = (result, s))
    (h : s.Closed → ∀ a, result = .ok a → post a s) : op.Ensures s post :=
  .of_run run fun closed => ⟨.refl s, h closed⟩

theorem ensures_get : (get : Op Store).Ensures s fun u t => u = s ∧ t = s :=
  ensures_of_same runOn_get fun _ _ same => by cases same; exact ⟨rfl, rfl⟩

theorem ensures_cell (ref : Ref) : (cell ref).Ensures s fun c t => c = s.cell ref ∧ t = s :=
  ensures_of_same (runOn_cell ref) fun _ _ same => by cases same; exact ⟨rfl, rfl⟩

theorem ensures_alloc {c : Cell} (fresh : s.Fresh c) (has : ∀ v ∈ c.held, s.Has v)
    (names : c.names.Nodup := by exact List.nodup_nil) :
    (alloc c).Ensures s fun ref t => t.cell ref = c ∧ ref.index + 1 = t.size :=
  .of_run (runOn_alloc c) fun _ => ⟨.alloc fresh has names, fun ref same => by
    cases same
    exact ⟨cell_alloc_self s c, (size_alloc s c).symm⟩⟩

theorem ensures_new {c : Cell} (fresh : s.Fresh c) (has : ∀ v ∈ c.held, s.Has v)
    (names : c.names.Nodup := by exact List.nodup_nil) : (new c).Ensures s fun v t => t.Has v :=
  .of_run (runOn_new c) fun _ => ⟨.alloc fresh has names, fun v same => by
    cases same
    rw [has_object, size_alloc]
    exact Nat.lt_succ_self _⟩

/-- Doing something with each of some values, one after the other. -/
theorem ensures_forM {f : α → Op PUnit} {items : List α}
    (each : ∀ a ∈ items, ∀ t, s.Evolves t → (f a).Ensures t fun _ _ => True) :
    (items.forM f).Ensures s fun _ _ => True := by
  induction items generalizing s with
  | nil => exact ensures_pure fun _ => trivial
  | cons a rest ih =>
    change (f a >>= fun _ => rest.forM f).Ensures s _
    refine (each a List.mem_cons_self s (.refl s)).bind fun _ t evolved _ => ih ?_
    exact fun b isRest u later => each b (List.mem_cons_of_mem _ isRest) u (evolved.trans later)

/-- The results of doing something with each of some values. -/
theorem ensures_mapM (after : β → Store → Prop) {f : α → Op β} {items : List α}
    (each : ∀ a ∈ items, ∀ t, s.Evolves t → (f a).Ensures t after)
    (lasts : ∀ b t u, t.Evolves u → after b t → after b u) :
    (items.mapM f).Ensures s fun results t => ∀ b ∈ results, after b t := by
  induction items generalizing s with
  | nil => exact ensures_pure fun _ b isResult => by cases isResult
  | cons a rest ih =>
    rw [List.mapM_cons]
    refine (each a List.mem_cons_self s (.refl s)).bind fun b t evolved found => ?_
    refine (ih fun b isRest u later =>
      each b (List.mem_cons_of_mem _ isRest) u (evolved.trans later)).bind
        fun others u later all => ensures_pure fun _ c isResult => ?_
    rcases List.mem_cons.1 isResult with rfl | isOther
    · exact lasts _ _ _ later found
    · exact all c isOther

theorem ensures_freeze (v : Value) : (Op.freeze v).Ensures s fun _ _ => True :=
  .of_run (show (Op.freeze v).runOn s = (.ok (), s.freeze v) from rfl)
    fun _ => ⟨(Step.freeze v).proceeds (freeze_flagged s v).size_eq, fun _ _ => trivial⟩

/-- The display of a value is only read. -/
theorem ensures_display (v : Value) : (display v).Ensures s fun _ _ => True := by
  refine ensures_get.bind fun u t _ _ => ?_
  split
  · exact ensures_pure fun _ => trivial
  · exact ensures_throw _

end Op

open Store

variable {s : Store}

/-! ## Lists -/

namespace ValueList

theorem ensures_new {items : List Value} (has : ∀ v ∈ items, s.Has v) :
    (new items).Ensures s fun v t => t.Has v := Op.ensures_new rfl has

theorem ensures_items (list : Ref) :
    (items list).Ensures s fun items t => t = s ∧ ∀ v ∈ items, t.Has v :=
  Op.ensures_of_same rfl fun closed found same => by
    cases same
    refine ⟨rfl, fun v isItem => closed list v ?_⟩
    change v ∈ itemsOf (s.cell list) at isItem
    cases cell : s.cell list with
    | list _ _ =>
      rw [cell] at isItem
      exact isItem
    | _ =>
      rw [cell] at isItem
      cases isItem

theorem ensures_push (list : Ref) {item : Value} (has : s.Has item) :
    (push list item).Ensures s fun _ _ => True := by
  intro closed
  rw [runOn_push]
  split
  · next items cell =>
    refine ⟨(Step.list cell fun v isItem => ?_).proceeds (size_write ..), fun _ _ => trivial⟩
    rcases List.mem_append.1 isItem with old | new
    · exact closed list v (by rwa [cell])
    · rw [List.mem_singleton.1 new]
      exact has
  · exact ⟨.refl s, fun _ _ => trivial⟩

theorem ensures_set (list : Ref) (index : Nat) {item : Value} (has : s.Has item) :
    (set list index item).Ensures s fun _ _ => True := by
  intro closed
  rw [runOn_set]
  split
  · next items cell =>
    split
    · refine ⟨(Step.list cell fun v isItem => ?_).proceeds (size_write ..), fun _ _ => trivial⟩
      rcases List.mem_or_eq_of_mem_set isItem with old | rfl
      · exact closed list v (by rwa [cell])
      · exact has
    · exact ⟨.refl s, fun _ _ => trivial⟩
  · exact ⟨.refl s, fun _ _ => trivial⟩

theorem ensures_pop (list : Ref) : (pop list).Ensures s fun found t => ∀ v ∈ found, t.Has v := by
  intro closed
  rw [runOn_pop]
  split
  · next items cell =>
    have has (v : Value) (isItem : v ∈ items) : s.Has v := closed list v (by rwa [cell])
    have step := Step.list cell fun v isItem => has v (List.dropLast_subset items isItem)
    refine ⟨step.proceeds (size_write ..), fun found same v isLast => ?_⟩
    cases same
    exact (has v (List.mem_of_getLast? isLast)).mono step.size_le
  · exact ⟨.refl s, fun _ same => by cases same⟩

theorem ensures_clone (list : Ref) : (clone list).Ensures s fun v t => t.Has v :=
  (ensures_items list).bind fun _ _ _ ⟨_, has⟩ => ensures_new has

end ValueList

/-! ## Dicts -/

namespace Dict

theorem mem_dictEntries {dict : Ref} {v : Value} (closed : s.Closed)
    (h : v ∈ entryParts (s.dictEntries dict)) : s.Has v := by
  refine closed dict v ?_
  unfold dictEntries at h
  cases cell : s.cell dict with
  | dict _ _ =>
    rw [cell] at h
    exact h
  | _ =>
    rw [cell] at h
    cases h

/-- A dict that was added last and is not frozen. -/
def IsLast (dict : Ref) (s : Store) : Prop :=
  dict.index + 1 = s.size ∧ ∃ entries, s.cell dict = .dict entries false

theorem IsLast.lt_size {dict : Ref} (h : IsLast dict s) : dict.index < s.size := by
  have := h.1
  omega

theorem ensures_alloc : alloc.Ensures s IsLast :=
  (Op.ensures_alloc (c := .dict [] false) ⟨rfl, .inl rfl⟩ fun v held => by cases held).imp
    fun _ _ _ h => ⟨h.2, [], h.1⟩

theorem ensures_entries (dict : Ref) :
    (entries dict).Ensures s fun entries t =>
      t = s ∧ entries = s.dictEntries dict ∧ ∀ v ∈ entryParts entries, t.Has v :=
  Op.ensures_of_same (runOn_entries dict) fun closed found same => by
    cases same
    exact ⟨rfl, rfl, fun v isPart => mem_dictEntries closed isPart⟩

theorem ensures_size (dict : Ref) : (size dict).Ensures s fun _ _ => True :=
  (ensures_entries dict).bind fun _ _ _ _ => Op.ensures_pure fun _ => trivial

theorem lookup_has {key : Value} {entries : List (Value × Value)}
    (has : ∀ v ∈ entryParts entries, s.Has v) : ∀ v ∈ s.lookup? key entries, s.Has v := by
  intro v found
  obtain ⟨entry, isFound, rfl⟩ := Option.map_eq_some_iff.1 found
  exact has _ (mem_entryParts.2 ⟨entry, List.mem_of_find?_eq_some isFound, .inr rfl⟩)

theorem ensures_get? (dict : Ref) (key : Value) :
    (get? dict key).Ensures s fun found t => t = s ∧ ∀ v ∈ found, t.Has v := by
  intro closed
  rw [runOn_get?]
  split
  · split
    · refine ⟨.refl s, fun found same => ?_⟩
      cases same
      exact ⟨rfl, lookup_has fun v isPart => mem_dictEntries closed isPart⟩
    · exact ⟨.refl s, fun _ same => by cases same⟩
  · exact ⟨.refl s, fun _ same => by cases same⟩

theorem ensures_insert (dict : Ref) {key value : Value} (hasKey : s.Has key)
    (hasValue : s.Has value) : (insert dict key value).Ensures s fun _ _ => True := by
  intro _
  rw [runOn_insert]
  split
  · next hashable cell =>
    split
    · exact ⟨(Step.put cell hashable hasKey hasValue).proceeds (size_write ..), fun _ _ => trivial⟩
    · exact ⟨.refl s, fun _ _ => trivial⟩
  · exact ⟨.refl s, fun _ _ => trivial⟩
  · exact ⟨.refl s, fun _ _ => trivial⟩

theorem ensures_remove (dict : Ref) (key : Value) :
    (remove dict key).Ensures s fun found t => ∀ v ∈ found, t.Has v := by
  intro closed
  rw [runOn_remove]
  split
  · next entries hashable cell =>
    split
    · have step := Step.erase key cell
      refine ⟨step.proceeds (size_write ..), fun found same v isFound => ?_⟩
      cases same
      have has : ∀ v ∈ entryParts entries, s.Has v := fun v isPart => closed dict v (by rwa [cell])
      exact (lookup_has has v isFound).mono step.size_le
    · exact ⟨.refl s, fun _ same => by cases same⟩
  · exact ⟨.refl s, fun _ same => by cases same⟩
  · exact ⟨.refl s, fun _ same => by cases same⟩

theorem ensures_clear (dict : Ref) : (clear dict).Ensures s fun _ _ => True := by
  intro _
  rw [runOn_clear]
  split
  · next cell => exact ⟨(Step.clear cell).proceeds (size_write ..), fun _ _ => trivial⟩
  · exact ⟨.refl s, fun _ _ => trivial⟩

theorem ensures_insertAll (dict : Ref) {entries : List (Value × Value)}
    (has : ∀ v ∈ entryParts entries, s.Has v) :
    (insertAll dict entries).Ensures s fun _ _ => True := by
  refine Op.ensures_forM fun entry isEntry t evolved => ensures_insert dict ?_ ?_
  · exact evolved.has (has _ (mem_entryParts.2 ⟨entry, isEntry, .inl rfl⟩))
  · exact evolved.has (has _ (mem_entryParts.2 ⟨entry, isEntry, .inr rfl⟩))

theorem ensures_ofEntries {entries : List (Value × Value)}
    (has : ∀ v ∈ entryParts entries, s.Has v) :
    (ofEntries entries).Ensures s fun dict t => dict.index < t.size := by
  refine ensures_alloc.bind fun dict t evolved isLast => ?_
  refine (ensures_insertAll dict fun v isPart => evolved.has (has v isPart)).bind
    fun _ u later _ => Op.ensures_pure fun _ => Nat.lt_of_lt_of_le isLast.lt_size later.size_le

theorem ensures_clone (dict : Ref) : (clone dict).Ensures s IsLast := by
  refine (ensures_entries dict).bind fun entries t _ ⟨same, found, has⟩ => ?_
  subst same
  refine (Op.ensures_alloc (c := .dict entries false) ⟨rfl, ?_⟩ has).imp
    fun _ _ _ h => ⟨h.2, entries, h.1⟩
  subst found
  unfold dictEntries
  cases cell : t.cell dict with
  | dict entries frozen => exact .inr ⟨dict, frozen, cell⟩
  | _ => exact .inl rfl

end Dict

/-! ## Sets -/

namespace ValueSet

theorem ensures_alloc : alloc.Ensures s fun set t => set.index < t.size :=
  (Op.ensures_alloc (c := .set [] false) ⟨rfl, rfl⟩ fun v held => by cases held).imp
    fun _ _ _ h => Nat.lt_of_succ_le (Nat.le_of_eq h.2)

theorem ensures_insert (set : Ref) {v : Value} (has : s.Has v) :
    (insert set v).Ensures s fun _ _ => True := by
  intro _
  rw [runOn_insert]
  split
  · next items hashable cell =>
    split
    · split
      · exact ⟨.refl s, fun _ _ => trivial⟩
      · next missing =>
        refine ⟨(Step.enter cell hashable ?_ has).proceeds (size_write ..), fun _ _ => trivial⟩
        simpa using missing
    · exact ⟨.refl s, fun _ _ => trivial⟩
  · exact ⟨.refl s, fun _ _ => trivial⟩
  · exact ⟨.refl s, fun _ _ => trivial⟩

theorem ensures_ofItems {values : List Value} (has : ∀ v ∈ values, s.Has v) :
    (ofItems values).Ensures s fun set t => set.index < t.size := by
  refine ensures_alloc.bind fun set t evolved inside => ?_
  have entered : (values.forM fun v => do let _ ← insert set v).Ensures t fun _ _ => True := by
    refine Op.ensures_forM fun v isValue u later => ?_
    refine (ensures_insert set (later.has (evolved.has (has v isValue)))).bind fun _ _ _ _ => ?_
    exact Op.ensures_pure fun _ => trivial
  exact entered.bind fun _ u later _ =>
    Op.ensures_pure fun _ => Nat.lt_of_lt_of_le inside later.size_le

end ValueSet

/-! ## Records and modules -/

namespace Fields

theorem mem_values_put {name : String} {value v : Value} {parts : List (String × Value)}
    (h : v ∈ (put name value parts).map Prod.snd) : v = value ∨ v ∈ parts.map Prod.snd := by
  induction parts with
  | nil =>
    left
    simpa [put] using h
  | cons part rest ih =>
    rw [put] at h
    split at h
    · rcases List.mem_cons.1 h with same | isRest
      · exact .inl same
      · exact .inr (List.mem_cons_of_mem _ isRest)
    · rcases List.mem_cons.1 h with same | isRest
      · exact .inr (same ▸ List.mem_cons_self)
      · exact (ih isRest).imp id (List.mem_cons_of_mem _)

theorem mem_values_ofEntries {v : Value} {entries : List (String × Value)}
    (h : v ∈ (ofEntries entries).map Prod.snd) : v ∈ entries.map Prod.snd := by
  suffices ∀ parts : List (String × Value),
      v ∈ (entries.foldl (fun parts entry => put entry.1 entry.2 parts) parts).map Prod.snd →
        v ∈ parts.map Prod.snd ∨ v ∈ entries.map Prod.snd from
    (this [] h).resolve_left List.not_mem_nil
  clear h
  induction entries with
  | nil => exact fun parts h => .inl h
  | cons entry rest ih =>
    intro parts h
    rcases ih _ h with here | isRest
    · rcases mem_values_put here with rfl | old
      · exact .inr List.mem_cons_self
      · exact .inl old
    · exact .inr (List.mem_cons_of_mem _ isRest)

end Fields

namespace Op

theorem ensures_newRecord {tag : Value} {entries : List (String × Value)} (hasTag : s.Has tag)
    (has : ∀ v ∈ entries.map Prod.snd, s.Has v) :
    (newRecord tag entries).Ensures s fun v t => t.Has v := by
  refine ensures_new trivial (fun v held => ?_) (Fields.nodup_names_ofEntries entries)
  rcases List.mem_cons.1 held with rfl | isField
  · exact hasTag
  · exact has v (Fields.mem_values_ofEntries isField)

theorem ensures_newModule (name : String) {entries : List (String × Value)}
    (has : ∀ v ∈ entries.map Prod.snd, s.Has v) :
    (newModule name entries).Ensures s fun ref t => ref.index < t.size :=
  (ensures_alloc (c := .module name (Fields.ofEntries entries)) trivial
    (fun v held => has v (Fields.mem_values_ofEntries held))
    (Fields.nodup_names_ofEntries entries)).imp
    fun _ _ _ h => Nat.lt_of_succ_le (Nat.le_of_eq h.2)

end Op
end Interchange
