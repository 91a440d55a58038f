import Mathlib.Data.List.Perm.Basic
import Interchange.Proofs.Crossing.Restoring
import Interchange.Proofs.Json.Written
import Interchange.Proofs.Store.Twin

/-!
# Host values that mirror values

A list or a dict of a store may have its very structure in a host value: a list for a list, a map
in order of names for a dict whose keys are texts (`Store.Mirrors`). Such a value departs as what
mirrors it (`Mirrors.unfolds`), two values with the same mirror image are twins (`Mirrors.twin`), and
such a host value always arrives, as something that it mirrors (`Jsonable.restored`).
-/

namespace Interchange

namespace Store

/-- The host value has the structure of the value. -/
inductive Mirrors (s : Store) : HostValue → Value → Prop
  | null : Mirrors s .null .nothing
  | bool (b : Bool) : Mirrors s (.bool b) (.bool b)
  | int {h : HostValue} {i : Int} (narrow : h = .ofInt i) : Mirrors s h (.int i)
  | float (x : Binary64) : Mirrors s (.float x) (.float x)
  | string (text : String) : Mirrors s (.string text) (.string text)
  | list {ref : Ref} {items : List Value} {trees : List HostValue} {frozen : Bool}
      (cell : s.cell ref = .list items frozen) (length : trees.length = items.length)
      (each : ∀ pair ∈ trees.zip items, Mirrors s pair.1 pair.2) :
      Mirrors s (.list trees) (.object ref)
  | map {ref : Ref} {entries : List (Value × Value)} {fields : List (String × Value)}
      {named : List (String × HostValue)} {frozen : Bool}
      (cell : s.cell ref = .dict entries frozen) (perm : entries.Perm (textEntries fields))
      (ascending : (named.map Prod.fst).Pairwise (· < ·))
      (names : named.map Prod.fst = fields.map Prod.fst)
      (values : ∀ pair ∈ named.zip fields, Mirrors s pair.1.2 pair.2.2) :
      Mirrors s (.map named) (.object ref)

variable {s t : Store} {h : HostValue} {v w : Value}

/-- An image stays one while the cells are kept. -/
theorem Mirrors.kept (mirrors : s.Mirrors h v)
    (kept : ∀ ref : Ref, ref.index < s.size → t.cell ref = s.cell ref) : t.Mirrors h v := by
  have same {ref : Ref} {c : Cell} (cell : s.cell ref = c) (other : c ≠ .tuple []) :
      t.cell ref = c := by
    rw [kept ref (Nat.lt_of_not_le fun out => ?_), cell]
    exact other (by rw [← cell, cell_of_size_le out])
  induction mirrors with
  | null => exact .null
  | bool b => exact .bool b
  | int narrow => exact .int narrow
  | float x => exact .float x
  | string text => exact .string text
  | list cell length _ ih => exact .list (same cell nofun) length ih
  | map cell perm ascending names _ ih => exact .map (same cell nofun) perm ascending names ih

/-- A value with an image departs as the image. -/
theorem Mirrors.unfolds (mirrors : s.Mirrors h v) : s.Unfolds v h := by
  induction mirrors with
  | null => exact .nothing
  | bool b => exact .bool b
  | @int _ i narrow =>
    rw [narrow]
    exact .int i
  | float x => exact .float x
  | string text => exact .string text
  | list cell length _ ih =>
    exact .sequence (by rw [anatomy, cell]) length.symm fun pair isPair =>
      ih _ (mem_zip_swap isPair)
  | @map ref entries fields named _ cell perm ascending names _ ih =>
    have length : fields.length = named.length := by
      simpa using (congrArg List.length names).symm
    -- In the order of the entries, the image is a list of the same fields.
    have inOrder : List.Forall₂ (fun (entry : Value × Value) (field : String × HostValue) =>
        entry.1 = .string field.1 ∧ s.Unfolds entry.2 field.2) (textEntries fields) named := by
      refine List.forall₂_map_left_iff.2
        (List.forall₂_iff_zip.2 ⟨length, fun {field other} isPair => ?_⟩)
      have paired := mem_zip_swap isPair
      exact ⟨congrArg _ ((List.forall₂_iff_zip.1 (names_eq_iff.1 names)).2 paired).symm,
        ih _ paired⟩
    obtain ⟨others, each, sorted⟩ := List.perm_comp_forall₂ perm inOrder
    obtain ⟨length, each⟩ := List.forall₂_iff_zip.1 each
    have unfolds := Unfolds.byName (by rw [anatomy, cell]) length
      (fun pair isPair => by rw [(each isPair).1]; exact .string _)
      fun pair isPair => (each isPair).2
    rwa [HostValue.ofEntries, TextMap.ofList_of_perm sorted ascending] at unfolds

/-- A scalar mirrors one value. -/
theorem Mirrors.scalar? (mirrors : s.Mirrors h v) (scalar : h.scalar? = some w) : v = w := by
  cases mirrors with
  | int narrow =>
    rw [narrow, HostValue.scalar?_ofInt] at scalar
    exact Option.some.inj scalar
  | null | bool | float | string => exact Option.some.inj scalar
  | list | map => cases scalar

theorem not_ofInt {i : Int} (same : h = .ofInt i) (container : h.scalar? = none) : False := by
  rw [same, HostValue.scalar?_ofInt] at container
  cases container

/-- A map is the image of a dict, whose entries it has in order of names. -/
theorem Mirrors.of_map {named : List (String × HostValue)} (mirrors : s.Mirrors (.map named) v) :
    ∃ ref fields frozen inOrder, v = .object ref ∧ s.cell ref = .dict (textEntries fields) frozen ∧
      List.Forall₂ (fun other field => other.1 = field.1 ∧ s.Mirrors other.2 field.2) inOrder
        fields ∧
      inOrder.Perm named ∧ (named.map Prod.fst).Pairwise (· < ·) := by
  cases mirrors with
  | int narrow => exact (not_ofInt narrow rfl).elim
  | @map ref entries fields _ frozen cell perm ascending names values =>
    have length : named.length = fields.length := by simpa using congrArg List.length names
    have each : List.Forall₂ (fun (entry : Value × Value) (other : String × HostValue) =>
        entry.1 = .string other.1 ∧ s.Mirrors other.2 entry.2) (textEntries fields) named := by
      refine List.forall₂_map_left_iff.2
        (List.forall₂_iff_zip.2 ⟨length.symm, fun {field other} isPair => ?_⟩)
      have paired := mem_zip_swap isPair
      exact ⟨congrArg _ ((List.forall₂_iff_zip.1 (names_eq_iff.1 names)).2 paired).symm,
        values _ paired⟩
    obtain ⟨inOrder, each, sorted⟩ := List.perm_comp_forall₂ perm each
    obtain ⟨fields, rfl, inStep⟩ := exists_fields each.flip
    exact ⟨ref, fields, frozen, inOrder, rfl, cell, inStep, sorted, ascending⟩

/-- What mirrors two values makes them twins. -/
theorem Mirrors.twin (first : s.Mirrors h v) (second : s.Mirrors h w) : s.Twin v w := by
  induction first generalizing w with
  | null | bool | float | string =>
    rw [second.scalar? rfl]
    exact .scalar rfl
  | int narrow =>
    rw [narrow] at second
    rw [second.scalar? (HostValue.scalar?_ofInt _)]
    exact .scalar rfl
  | list cell length _ ih =>
    cases second with
    | int narrow => exact (not_ofInt narrow rfl).elim
    | list cell' length' each' =>
      refine .list cell cell' (length.symm.trans length') fun pair isPair => ?_
      obtain ⟨tree, left, right⟩ := exists_between length.symm isPair
      exact ih _ (mem_zip_swap left) (each' _ right)
  | map cell perm _ names _ ih =>
    cases second with
    | int narrow => exact (not_ofInt narrow rfl).elim
    | map cell' perm' _ names' values' =>
      refine .dict cell cell' perm perm' (names.symm.trans names') fun pair isPair => ?_
      have length := (names_eq_iff.1 names).length_eq.symm
      obtain ⟨entry, left, right⟩ := exists_between length isPair
      exact ih _ (mem_zip_swap left) (values' _ right)

end Store

/-! ## Arrivals -/

open Store

namespace HostValue

/-- The host value arrives in every store, as something that it mirrors. -/
def Restored (h : HostValue) : Prop :=
  ∀ s : Store, ∃ v t, h.arrive.runOn s = (.ok v, t) ∧
    Built (fun _ => False) s t fun u => u.Mirrors h v

theorem restored_scalar {h : HostValue} {v : Value} (scalar : h.scalar? = some v)
    (mirrors : ∀ u : Store, u.Mirrors h v) : h.Restored := restores_scalar scalar mirrors

theorem restored_list {items : List HostValue} (each : ∀ item ∈ items, item.Restored) :
    (list items).Restored := by
  refine (restores_list (P := fun item u v => u.Mirrors item v)
    (List.forall₂_same.2 each)).imp fun u w ⟨r, values, isList, cell, parts⟩ => ?_
  obtain ⟨length, each⟩ := List.forall₂_iff_zip.1 parts
  rw [isList]
  exact .list cell length fun _ isPair => each isPair

theorem restored_map {entries : List (String × HostValue)}
    (ascending : (entries.map Prod.fst).Pairwise (· < ·))
    (each : ∀ entry ∈ entries, entry.2.Restored) : (map entries).Restored := by
  refine (restores_map (P := fun item u v => u.Mirrors item v)
    (List.forall₂_same.2 fun entry isEntry => ⟨rfl, each entry isEntry⟩)
    (TextMap.distinct_of_ascending ascending)).imp fun u w ⟨r, others, isDict, cell, parts⟩ => ?_
  obtain ⟨fields, rfl, inStep⟩ := exists_fields (R := fun item v => u.Mirrors item v) parts
  rw [isDict]
  refine .map cell (.refl _) ascending (names_eq_iff.2 (inStep.imp fun _ _ both => both.1)) ?_
  exact fun pair isPair => ((List.forall₂_iff_zip.1 inStep).2 isPair).2

/-- What JSON has a form for arrives in every store, as something that it mirrors. -/
theorem Jsonable.restored {depth : Nat} {h : HostValue} (jsonable : h.Jsonable depth) :
    h.Restored := by
  induction jsonable with
  | null => exact restored_scalar rfl fun _ => .null
  | bool b => exact restored_scalar rfl fun _ => .bool b
  | int i => exact restored_scalar (scalar?_ofInt i) fun _ => .int rfl
  | float negative rank => exact restored_scalar rfl fun _ => .float _
  | string s => exact restored_scalar rfl fun _ => .string s
  | list _ ih => exact restored_list ih
  | map ascending _ _ ih => exact restored_map ascending ih

end HostValue
end Interchange
