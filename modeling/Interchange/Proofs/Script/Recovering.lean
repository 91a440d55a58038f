import Interchange.Proofs.Crossing.Restoring
import Interchange.Proofs.Script.Depiction

/-!
# What is made of script values

A computation that builds a value reads the script's heap and leaves it alone, and what it adds to
the store has a property wherever the added cells are (`Run.Builds`). Arrays become lists of what
their elements become, and records become dicts under the names that the embedding side is told, as
if these were entered one after the other (`builds_list`, `builds_dict`).
-/

namespace Interchange.Script

open HostValue Store Run

variable {α β γ : Type} {heap : Array Object} {size : Nat} {v : Value}

/-- In every session with the heap, and with at least so many cells, the computation has a result,
and what it builds for that has a property. -/
def Run.Builds (run : Run α) (heap : Array Object) (size : Nat) (Q : Store → α → Prop) : Prop :=
  ∀ s : Session, s.heap = heap → size ≤ s.store.size → ∃ a t, run.runIn s = (.ok a, t) ∧
    t.heap = heap ∧ Built (fun _ => False) s.store t.store fun u => Q u a

namespace Run

variable {run : Run α} {Q : Store → α → Prop}

theorem builds_pure {a : α} (holds : ∀ u, Q u a) : (pure a : Run α).Builds heap size Q :=
  fun s same _ => ⟨a, s, rfl, same, .refl holds⟩

theorem Builds.imp {Q' : Store → α → Prop} (h : run.Builds heap size Q)
    (weaker : ∀ u a, Q u a → Q' u a) : run.Builds heap size Q' := fun s same large =>
  have ⟨a, t, ran, same, built⟩ := h s same large
  ⟨a, t, ran, same, built.imp fun u => weaker u a⟩

theorem builds_mapM {f : γ → Run α} {items : List γ} {xs : List β} {P : β → Store → α → Prop}
    (each : List.Forall₂ (fun item x => (f item).Builds heap size (P x)) items xs) :
    (items.mapM f).Builds heap size fun u results =>
      List.Forall₂ (fun x a => P x u a) xs results := by
  induction each with
  | nil => exact builds_pure fun _ => .nil
  | cons first _ ih =>
    intro s same large
    obtain ⟨a, t, ran, same, built⟩ := first s same large
    obtain ⟨others, w, ran', same, built'⟩ := ih t same (Nat.le_trans large built.size_le)
    refine ⟨a :: others, w, ?_, same, (built.trans built' fun _ => False.elim).imp fun u both => ?_⟩
    · rw [List.mapM_cons, runIn_bind_of_ok ran, runIn_bind_of_ok ran']
      rfl
    · exact .cons both.1 both.2

end Run

section Parts

variable {part : Datum → Run Value} {P : β → Store → Value → Prop}

theorem builds_list {ds : List Datum} {xs : List β}
    (each : List.Forall₂ (fun d x => (part d).Builds heap size (P x)) ds xs) :
    (ofObject part (.ofItems ds)).Builds heap size fun u w => ∃ r others, w = .object r ∧
      size ≤ r.index ∧ u.cell r = .list others false ∧
        List.Forall₂ (fun x v => P x u v) xs others := by
  have items : List.Forall₂ (fun (item : Nat × Option Datum) x =>
      (elementValue part (.ofItems ds) item).Builds heap size (P x))
      ((ds.map some).mapIdx (·, ·)) xs := by
    obtain ⟨length, each⟩ := List.forall₂_iff_get.1 each
    refine List.forall₂_iff_get.2 ⟨by simpa using length, fun i inside inside' => ?_⟩
    simp only [List.get_eq_getElem, List.getElem_mapIdx, List.getElem_map]
    exact each i (by simpa using inside) inside'
  intro s same large
  obtain ⟨values, t, ran, same, built⟩ := builds_mapM items s same large
  refine ⟨.object (t.store.alloc (.list values false)).1,
    { t with store := (t.store.alloc (.list values false)).2 }, ?_, same,
    (built.alloc (.list values false)).imp fun u both => ⟨_, values, rfl, ?_, both.2, both.1⟩⟩
  · exact (runIn_bind_of_ok ran).trans (runIn_onStore_of_ok (Op.runOn_new _))
  · exact Nat.le_trans large built.size_le

/-- What a script's properties become is entered one after the other. -/
theorem builds_entries (dict : Ref) {properties : List (WideString × Datum)} {xs : List (String × β)}
    (each : List.Forall₂ (fun property x =>
      property.1 = .text x.1 ∧ (part property.2).Builds heap size (P x.2)) properties xs)
    {s : Session} (same : s.heap = heap) (large : size ≤ s.store.size)
    (inside : dict.index < s.store.size) {kept : List (Value × Value)}
    (cell : s.store.cell dict = .dict kept false) :
    ∃ added t, (properties.forM (enterProperty part dict)).runIn s = (.ok (), t) ∧
      t.heap = heap ∧ t.store.cell dict = .dict (enterAll scalarEqual kept added) false ∧
      Built (· = dict) s.store t.store fun u => List.Forall₂ (fun x entry =>
        entry.1 = .string (Text.beforeNul x.1) ∧ P x.2 u entry.2) xs added := by
  induction each generalizing s kept with
  | nil => exact ⟨[], s, rfl, same, cell, .refl fun _ => .nil⟩
  | @cons property x properties xs first _ ih =>
    obtain ⟨name, first⟩ := first
    obtain ⟨v, m, ran, same, built⟩ := first s same large
    have told : property.1.beforeNul = .text (Text.beforeNul x.1) := by rw [name]; rfl
    have entered := runIn_enterProperty told ran (by rw [built.kept dict inside not_false, cell])
    generalize put : enter scalarEqual (.string (Text.beforeNul x.1)) v kept = next at entered
    obtain ⟨added, t, filled, same, last, built'⟩ := ih
      (s := { m with store := m.store.write dict (.dict next false) }) same
      (by rw [size_write]; exact Nat.le_trans large built.size_le)
      (by rw [size_write]; exact Nat.lt_of_lt_of_le inside built.size_le)
      (cell_write_self m.store _ (Nat.lt_of_lt_of_le inside built.size_le))
    rw [← put] at last
    refine ⟨(.string (Text.beforeNul x.1), v) :: added, t,
      (runIn_bind_of_ok entered).trans filled, same, last, ?_⟩
    have written := built.write inside (.dict next false)
    exact (written.trans built' fun _ isDict => isDict ▸ inside).imp fun u both =>
      .cons ⟨rfl, both.1⟩ both.2

theorem builds_dict {properties : List (WideString × Datum)} {xs : List (String × β)}
    (each : List.Forall₂ (fun property x =>
      property.1 = .text x.1 ∧ (part property.2).Builds heap size (P x.2)) properties xs) :
    (ofObject part (.ofProperties properties)).Builds heap size fun u w => ∃ r added,
      w = .object r ∧ size ≤ r.index ∧ u.cell r = .dict (collapse scalarEqual added) false ∧
      List.Forall₂ (fun x entry => entry.1 = .string (Text.beforeNul x.1) ∧ P x.2 u entry.2) xs
        added := by
  intro s same large
  obtain ⟨added, t, filled, same, cell, built⟩ := builds_entries
    (s := { s with store := (s.store.alloc (.dict [] false)).2 }) (s.store.alloc (.dict [] false)).1
    each same (by rw [size_alloc]; omega) (by rw [size_alloc]; exact Nat.lt_succ_self _)
    (cell_alloc_self s.store (.dict [] false))
  refine ⟨.object (s.store.alloc (.dict [] false)).1, t, runIn_dictOf filled, same,
    (built.fill cell).imp fun u both => ⟨_, added, rfl, large, ?_, both.1⟩⟩
  rw [both.2, enterAll_nil]

end Parts

end Interchange.Script
