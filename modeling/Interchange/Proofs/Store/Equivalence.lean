import Interchange.Proofs.Store.ComparisonWalk
import Interchange.Proofs.Store.WellKeyed

/-!
# Equality is an equivalence

On the values of a store in use that lead only to records with plain tags (`Store.Tame`), equality
always has an answer, and it is an equivalence relation (`Reachable.equals_equivalence`): across
integers and floats, fields and entries in any order, and containers that lead back to themselves.

The keys on the way are steady, so their equality is lawful, and keys of one dict or set are apart
(`Reachable.wellKeyed`). Then differing is symmetric, and of two values that differ any third one
differs from one. A comparison ends because steady keys lead back to no dict or set.
-/

namespace Interchange

namespace Store

variable {s : Store} {u v w : Value} {r q ref : Ref} {c d : Cell} {n : Nat}

/-- A value is steady when no list, set or dict is reached where it is compared. -/
theorem steady_iff_reaches (aged : s.Aged) : s.Steady v ↔
    ∀ r, s.ReachesBy Cell.compared v (.object r) → (s.cell r).isCollection = false := by
  constructor
  · intro steady r reaches
    have reaches : s.ReachesBy Cell.weighed v (.object r) := Relation.ReflTransGen.mono
      (fun _ _ ⟨ref, same, compared⟩ => ⟨ref, same, Cell.weighed_of_compared compared⟩) _ _ reaches
    exact (steady.reached reaches).isCollection
  · intro plain
    induction v using Value.age_induction with
    | scalar v scalar => exact .scalar scalar
    | object ref ih =>
      refine .plain (plain ref .refl) fun v part => ih v (aged.compared part) fun r reaches => ?_
      exact plain r (.head ⟨ref, rfl, part⟩ reaches)

/-- The records that a value leads to are tagged by what leads to no list, set or dict where it is
compared. -/
def PlainTagged (s : Store) (v : Value) : Prop :=
  ∀ ref tag fields, s.ReachesBy Cell.parts v (.object ref) → s.cell ref = .record tag fields →
    ∀ r, s.ReachesBy Cell.compared tag (.object r) → (s.cell r).isCollection = false

/-- A value of the store that leads only to plain tags. -/
structure Tame (s : Store) (v : Value) : Prop where
  has : s.Has v
  tagged : s.PlainTagged v

theorem Opposite.parts (opposite : s.Opposite v w c d) : v ∈ c.parts ∧ w ∈ d.parts :=
  opposite.weighed.imp Cell.part_of_weighed Cell.part_of_weighed

theorem Tame.part (closed : s.Closed) (h : s.Tame (.object ref)) (part : v ∈ (s.cell ref).parts) :
    s.Tame v where
  has := closed ref v (Cell.held_of_parts part)
  tagged := fun other tag fields reaches =>
    h.tagged other tag fields (.head ⟨ref, rfl, part⟩ reaches)

theorem Tame.reached (closed : s.Closed) (h : s.Tame v) (reaches : s.ReachesBy Cell.weighed v w) :
    s.Tame w := by
  induction reaches with
  | refl => exact h
  | tail _ leads ih =>
    obtain ⟨ref, rfl, weighed⟩ := leads
    exact ih.part closed (Cell.part_of_weighed weighed)

/-- What is hashable and leads only to plain tags is steady. -/
theorem Tame.steady (aged : s.Aged) (closed : s.Closed) (h : s.Tame v)
    (hashable : s.checkHashable v = .ok ()) : s.Steady v := by
  induction v using Value.age_induction with
  | scalar v scalar => exact .scalar scalar
  | object ref ih =>
    obtain ⟨plain, parts⟩ := hashable_parts aged (has_object.1 h.has) hashable
    refine .plain (Cell.isCollection_of_not_container plain) fun v compared => ?_
    have part := Cell.part_of_weighed (Cell.weighed_of_compared compared)
    rcases parts v compared with hashable | ⟨fields, cell⟩
    · exact ih v (aged.compared compared) (h.part closed part) hashable
    · exact (steady_iff_reaches aged).2 (h.tagged ref v fields .refl cell)

/-- What holds of a store at all times and makes equality lawful. -/
structure Lawkeeping (s : Store) : Prop extends WellKeyed s where
  aged : s.Aged
  closed : s.Closed
  named : s.Named

theorem Reachable.lawkeeping (h : s.Reachable) : s.Lawkeeping where
  toWellKeyed := h.wellKeyed
  aged := h.sound.aged
  closed := h.sound.closed
  named := h.named

theorem Proceeds.lawkeeping {t : Store} (h : s.Proceeds t) (reachable : s.Reachable) :
    t.Lawkeeping :=
  have sound := reachable.sound
  have named := h.named reachable.named
  { toWellKeyed := h.evolves.wellKeyed named sound reachable.wellKeyed
    aged := h.evolves.aged sound.aged
    closed := h.evolves.closed sound.closed
    named }

namespace Lawkeeping

variable (keeps : s.Lawkeeping)
include keeps

theorem steady_key (tame : s.Tame (.object ref)) (isKey : v ∈ (s.cell ref).keys) :
    s.Has v ∧ s.Steady v := by
  have part := tame.part keeps.closed (Cell.part_of_weighed (Cell.weighed_of_key isKey))
  exact ⟨part.has, part.steady keeps.aged keeps.closed (keeps.hashable ref v isKey)⟩

theorem apart_keys (tame : s.Tame (.object ref)) : (s.cell ref).keys.Pairwise s.Apart :=
  (keeps.apart ref).imp_of_mem fun isKey _ apart => apart (.inl (keeps.steady_key tame isKey).2)

/-! ## Comparisons end -/

/-- Where a value leads only to plain tags, a dict or a set has steady keys, which lead to none. -/
theorem not_leadsBack (tame : s.Tame v) : ¬ s.LeadsBack v := by
  rintro ⟨holder, key, reaches, isKey, back⟩
  have steady := (keeps.steady_key (tame.reached keeps.closed reaches) isKey).2
  rw [Cell.keys_of_not_collection (steady.reached back).isCollection] at isKey
  cases isKey

theorem equal?_ends (tame : s.Tame v) (_ : s.Tame w) : s.equal? v w ≠ none :=
  fun none => keeps.not_leadsBack tame (leadsBack_of_endless none).1

/-! ## The laws -/

theorem equals_symm (tame : s.Tame v) (tame' : s.Tame w) (equal : s.equals v w = true) :
    s.equals w v = true := by
  rw [equals_iff (keeps.equal?_ends tame tame')] at equal
  rw [equals_iff (keeps.equal?_ends tame' tame)]
  intro n differs
  have lawful := lawful_steady keeps.aged keeps.named
  refine equal n (differs.symm (fun v w => s.Tame v ∧ s.Tame w) ?_ ?_ ⟨tame', tame⟩)
  · intro r q ⟨tame, tame'⟩ fits
    exact fits.symm lawful (keeps.named q) (keeps.apart_keys tame')
      (fun v isKey => keeps.steady_key tame' isKey) fun v isKey => keeps.steady_key tame isKey
  · intro r q v w ⟨tame, tame'⟩ opposite
    obtain ⟨part, part'⟩ := opposite.parts
    exact ⟨opposite.symm lawful (keeps.named r) (keeps.apart_keys tame)
      (fun v isKey => keeps.steady_key tame isKey) fun v isKey => keeps.steady_key tame' isKey,
      tame.part keeps.closed part, tame'.part keeps.closed part'⟩

theorem equals_trans (hu : s.Tame u) (hv : s.Tame v) (hw : s.Tame w)
    (first : s.equals u v = true) (second : s.equals v w = true) : s.equals u w = true := by
  rw [equals_iff (keeps.equal?_ends hu hv)] at first
  rw [equals_iff (keeps.equal?_ends hv hw)] at second
  rw [equals_iff (keeps.equal?_ends hu hw)]
  intro n differs
  have split := differs.split (lawful_steady keeps.aged keeps.named) s.Tame
    (fun r tame v isKey => keeps.steady_key tame isKey)
    (fun r q v w tame tame' opposite => ⟨tame.part keeps.closed opposite.parts.1,
      tame'.part keeps.closed opposite.parts.2⟩) hu hv hw
  exact split.elim (first n) (second n)

end Lawkeeping

/-- A value equals itself. -/
theorem equals_self (s : Store) (v : Value) : s.equals v v = true := by
  have found : s.equal? v v = some true := by
    cases v with
    | object ref => exact equalWithin_self
    | _ =>
      rw [equal?, equalWithin_scalar (.inl rfl)]
      exact congrArg some (scalarEqual_iff.2 ⟨rfl, rfl⟩)
  rw [equals, found]
  rfl

/-- In a store in use, comparisons among values that lead only to plain tags end, and equality is
an equivalence relation on them. -/
theorem Reachable.equals_equivalence (h : s.Reachable) :
    (∀ v w, s.Tame v → s.Tame w → s.equal? v w ≠ none) ∧
    Equivalence fun v w : { v // s.Tame v } => s.equals v w = true := by
  have keeps := h.lawkeeping
  refine ⟨fun v w => keeps.equal?_ends, fun v => s.equals_self v, ?_, ?_⟩
  · exact fun {v w} => keeps.equals_symm v.2 w.2
  · exact fun {u v w} => keeps.equals_trans u.2 v.2 w.2

/-- Where all tags are scalars, they are plain. -/
theorem plainTagged_of_scalars
    (scalars : ∀ ref tag fields, s.cell ref = .record tag fields → tag.identity? = none) (v : Value) :
    s.PlainTagged v := by
  intro ref tag fields _ cell r reaches
  have scalar := scalars ref tag fields cell
  rcases Relation.ReflTransGen.cases_head reaches with rfl | ⟨_, ⟨_, rfl, _⟩, _⟩ <;> cases scalar

/-- Two lists that contain themselves, in dicts with their entries in another order, in records with
their fields in another order. -/
def mirrored : Store := empty.after
  [.newList [], .newList [], .push ⟨0⟩ (.object ⟨0⟩), .push ⟨1⟩ (.object ⟨1⟩),
    .newDict [(.int 1, .object ⟨0⟩), (.string "k", .float .nan)],
    .newDict [(.string "k", .float .nan), (.float (.ofInt 1), .object ⟨1⟩)],
    .newRecord (.string "point") [("x", .object ⟨2⟩), ("y", .bool true)],
    .newRecord (.string "point") [("y", .bool true), ("x", .object ⟨3⟩)]]

theorem reachable_mirrored : mirrored.Reachable :=
  reachable_empty.after ⟨⟨by decide, nofun⟩, ⟨by decide, nofun⟩, ⟨by decide, nofun⟩,
    ⟨by decide, nofun⟩, ⟨by decide, nofun⟩, ⟨by decide, nofun⟩, ⟨by decide, nofun⟩,
    ⟨by decide, nofun⟩, trivial⟩

theorem tame_mirrored {ref : Ref} (inside : ref.index < 6) : mirrored.Tame (.object ref) := by
  refine ⟨has_object.2 inside, plainTagged_of_scalars (fun other tag fields cell => ?_) _⟩
  by_cases small : other.index < 6
  · obtain ⟨index⟩ := other
    have known : index = 0 ∨ index = 1 ∨ index = 2 ∨ index = 3 ∨ index = 4 ∨ index = 5 := by
      change index < 6 at small
      omega
    rcases known with rfl | rfl | rfl | rfl | rfl | rfl
    all_goals cases cell
    all_goals rfl
  · rw [cell_of_size_le (Nat.not_lt.1 small)] at cell
    cases cell

/-- The two records are equal, and so each way. -/
theorem equals_mirrored : mirrored.Reachable ∧
    mirrored.Tame (.object ⟨4⟩) ∧ mirrored.Tame (.object ⟨5⟩) ∧
    mirrored.equals (.object ⟨4⟩) (.object ⟨5⟩) = true ∧
    mirrored.equals (.object ⟨5⟩) (.object ⟨4⟩) = true := by
  have tame : mirrored.Tame (.object ⟨4⟩) := tame_mirrored (by decide)
  have tame' : mirrored.Tame (.object ⟨5⟩) := tame_mirrored (by decide)
  have equal : mirrored.equals (.object ⟨4⟩) (.object ⟨5⟩) = true := by decide +kernel
  obtain ⟨-, equivalence⟩ := reachable_mirrored.equals_equivalence
  exact ⟨reachable_mirrored, tame, tame', equal,
    equivalence.symm (x := ⟨_, tame⟩) (y := ⟨_, tame'⟩) equal⟩

end Store
end Interchange
