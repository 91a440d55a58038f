import Mathlib.Data.List.Nodup
import Mathlib.Logic.Relation

/-!
# Walks that start afresh

A walk goes into nodes, and carries those that it is inside of so that it goes into none of them
again. For some of what it comes to it starts afresh: it begins another walk, which is inside of no
node. Such a walk ends when nothing that it starts afresh with leads back to the node it came from
(`Walk.Straight.ends`). Then the nodes that walks were left at for others differ, as do those that one
walk is inside of, and their number bounds the depth.
-/

namespace Interchange

open Relation (ReflTransGen)

/-- What a walk goes into, and what it comes to from there. -/
structure Walk (α ν : Type) where
  node? : α → Option ν
  /-- What the walk goes on with inside the node. -/
  inward : ν → α → Prop
  /-- What another walk begins with. -/
  afresh : ν → α → Prop

namespace Walk

variable {α ν : Type} {walk : Walk α ν} {a b : α} {n : ν} {depth size : Nat} {path above : List ν}
  {Ends : Nat → List ν → α → Prop}

/-- There is something in the node. -/
def Opens (walk : Walk α ν) (n : ν) : Prop := ∃ b, walk.inward n b ∨ walk.afresh n b

def Leads (walk : Walk α ν) (a b : α) : Prop :=
  ∃ n, walk.node? a = some n ∧ (walk.inward n b ∨ walk.afresh n b)

/-- The walk, or one that it begins, goes into the node. -/
def ComesTo (walk : Walk α ν) (a : α) (n : ν) : Prop :=
  ∃ b, ReflTransGen walk.Leads a b ∧ walk.node? b = some n

theorem ComesTo.here (isNode : walk.node? a = some n) : walk.ComesTo a n := ⟨a, .refl, isNode⟩

theorem ComesTo.head (leads : walk.Leads a b) (comes : walk.ComesTo b n) : walk.ComesTo a n := by
  obtain ⟨c, reaches, isNode⟩ := comes
  exact ⟨c, .head leads reaches, isNode⟩

/-- No walk comes to the node again that it was begun from. -/
def Straight (walk : Walk α ν) (a : α) : Prop :=
  ∀ n b, walk.ComesTo a n → walk.afresh n b → ¬ walk.ComesTo b n

theorem not_straight_iff : ¬ walk.Straight a ↔
    ∃ n b, walk.ComesTo a n ∧ walk.afresh n b ∧ walk.ComesTo b n := by
  simp only [Straight, not_forall, not_not, exists_prop]

theorem Straight.next (straight : walk.Straight a) (leads : walk.Leads a b) : walk.Straight b :=
  fun n c comes => straight n c (comes.head leads)

/-- A function of a depth and of a path ends where the walk does: it goes on with what is inward of a
node unless the node is on the path. Nodes with anything in them are few. -/
structure Runs (walk : Walk α ν) (Ends : Nat → List ν → α → Prop) (size : Nat) : Prop where
  leaf : ∀ {depth path a}, walk.node? a = none → Ends depth path a
  node : ∀ {depth path a n}, walk.node? a = some n →
    (n ∉ path → ∀ b, walk.inward n b → Ends depth (n :: path) b) →
    (∀ b, walk.afresh n b → Ends depth [] b) → Ends (depth + 1) path a
  few : ∀ nodes : List ν, nodes.Nodup → (∀ n ∈ nodes, walk.Opens n) → nodes.length ≤ size

/-- Where a walk is: inside the nodes of a path, and begun from one of the nodes above, which was come
to by a walk that was begun from the next of them. It comes to none of the nodes above, and has a depth
for as many paths as there may be more nodes above. -/
structure Stands (walk : Walk α ν) (size depth : Nat) (path above : List ν) (a : α) : Prop where
  once : path.Nodup
  opens : ∀ n ∈ path, walk.Opens n
  onceAbove : above.Nodup
  opensAbove : ∀ n ∈ above, walk.Opens n
  leaves : ∀ n ∈ above, ¬ walk.ComesTo a n
  room : (size + 2) * (size + 2) ≤ depth + path.length + (size + 2) * above.length

theorem stands_nil : walk.Stands size ((size + 2) * (size + 2)) [] [] a :=
  ⟨.nil, nofun, .nil, nofun, nofun, Nat.le_add_right _ _⟩

theorem Stands.positive (runs : walk.Runs Ends size) (stands : walk.Stands size depth path above a) :
    0 < depth := by
  have short := runs.few path stands.once stands.opens
  have shortAbove := runs.few above stands.onceAbove stands.opensAbove
  have most : (size + 2) * above.length ≤ (size + 2) * size := Nat.mul_le_mul_left _ shortAbove
  have := stands.room
  rw [Nat.mul_add] at this
  omega

theorem Stands.inward (stands : walk.Stands size (depth + 1) path above a)
    (isNode : walk.node? a = some n) (fresh : n ∉ path) (inward : walk.inward n b) :
    walk.Stands size depth (n :: path) above b where
  once := List.nodup_cons.2 ⟨fresh, stands.once⟩
  opens := List.forall_mem_cons.2 ⟨⟨b, .inl inward⟩, stands.opens⟩
  onceAbove := stands.onceAbove
  opensAbove := stands.opensAbove
  leaves := fun m isAbove comes => stands.leaves m isAbove (comes.head ⟨n, isNode, .inl inward⟩)
  room := by
    have := stands.room
    rw [List.length_cons]
    omega

theorem Stands.afresh (runs : walk.Runs Ends size) (straight : walk.Straight a)
    (stands : walk.Stands size (depth + 1) path above a) (isNode : walk.node? a = some n)
    (afresh : walk.afresh n b) : walk.Stands size depth [] (n :: above) b where
  once := .nil
  opens := nofun
  onceAbove := List.nodup_cons.2 ⟨fun isAbove => stands.leaves n isAbove (.here isNode),
    stands.onceAbove⟩
  opensAbove := List.forall_mem_cons.2 ⟨⟨b, .inr afresh⟩, stands.opensAbove⟩
  leaves := List.forall_mem_cons.2 ⟨straight n b (.here isNode) afresh,
    fun m isAbove comes => stands.leaves m isAbove (comes.head ⟨n, isNode, .inr afresh⟩)⟩
  room := by
    have short := runs.few path stands.once stands.opens
    have := stands.room
    rw [List.length_nil, List.length_cons, Nat.mul_succ (size + 2) above.length]
    omega

theorem Stands.ends (runs : walk.Runs Ends size) (straight : walk.Straight a)
    (stands : walk.Stands size depth path above a) : Ends depth path a := by
  induction depth generalizing path above a with
  | zero => exact absurd (stands.positive runs) (Nat.lt_irrefl 0)
  | succ depth ih =>
    cases isNode : walk.node? a with
    | none => exact runs.leaf isNode
    | some n =>
      refine runs.node isNode (fun fresh b inward => ?_) fun b afresh => ?_
      · exact ih (straight.next ⟨n, isNode, .inl inward⟩) (stands.inward isNode fresh inward)
      · exact ih (straight.next ⟨n, isNode, .inr afresh⟩) (stands.afresh runs straight isNode afresh)

/-- A walk ends that leads straight away from wherever it starts afresh. -/
theorem Straight.ends (straight : walk.Straight a) (runs : walk.Runs Ends size) :
    Ends ((size + 2) * (size + 2)) [] a :=
  stands_nil.ends runs straight

end Walk
end Interchange
