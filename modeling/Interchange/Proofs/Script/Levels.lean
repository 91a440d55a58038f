import Interchange.Script.Crossing

/-!
# Levels

A computation that goes from a whole to its parts, with one level less each time, comes to an end
within its levels exactly when no path of parts is as long (`Shallow`). A cycle has paths of every
length, so nothing that leads to one is shallow (`not_shallow_of_cycle`).

`Run.Limits` says that a computation succeeds if some conditions hold, and else stops because of one
that does not. The rules for it follow the computation, so that an induction on the levels is all that
is left for either direction of the exchange.
-/

namespace Interchange.Script

/-! ## Paths -/

section Paths

variable {α : Type} {part : α → α → Prop} {a b c : α} {m n levels : Nat}

/-- A path of so many steps, each from a whole to a part of it. -/
inductive PathOf (part : α → α → Prop) : Nat → α → α → Prop
  | here {a : α} : PathOf part 0 a a
  | step {n : Nat} {a b c : α} (isPart : part a b) (rest : PathOf part n b c) :
      PathOf part (n + 1) a c

theorem PathOf.append (path : PathOf part m a b) (path' : PathOf part n b c) :
    PathOf part (m + n) a c := by
  induction path with
  | here => rwa [Nat.zero_add]
  | step isPart _ ih =>
    rw [Nat.add_right_comm]
    exact .step isPart (ih path')

/-- No path from here has as many steps as there are levels. -/
def Shallow (part : α → α → Prop) (levels : Nat) (a : α) : Prop :=
  ∀ n b, PathOf part n a b → n < levels

theorem not_shallow_zero : ¬ Shallow part 0 a := fun shallow => Nat.not_lt_zero 0 (shallow 0 a .here)

/-- What is shallow has parts that are shallower. -/
theorem shallow_succ_iff :
    Shallow part (levels + 1) a ↔ ∀ b, part a b → Shallow part levels b := by
  constructor
  · intro shallow b isPart n c path
    exact Nat.lt_of_succ_lt_succ (shallow (n + 1) c (.step isPart path))
  · intro each n c path
    cases path with
    | here => exact Nat.succ_pos levels
    | step isPart rest => exact Nat.succ_lt_succ (each _ isPart _ c rest)

/-- A cycle may be gone round as often as one likes. -/
theorem exists_path_of_cycle (cycle : PathOf part (n + 1) b b) (k : Nat) :
    ∃ l, k ≤ l ∧ PathOf part l b b := by
  induction k with
  | zero => exact ⟨0, Nat.le_refl 0, .here⟩
  | succ k ih =>
    obtain ⟨l, le, path⟩ := ih
    exact ⟨n + 1 + l, by omega, cycle.append path⟩

theorem not_shallow_of_cycle (path : PathOf part m a b) (cycle : PathOf part (n + 1) b b) :
    ¬ Shallow part levels a := by
  intro shallow
  obtain ⟨l, le, round⟩ := exists_path_of_cycle cycle levels
  have := shallow (m + l) b (path.append round)
  omega

end Paths

/-! ## Computations -/

namespace Run

variable {α β κ : Type} {stops : κ → Stop → Prop} {run : Run α} {next : α → Run β} {s : Session}
  {good good' : κ → Prop} {post mid : α → Session → Prop} {after : β → Session → Prop}

/-- A computation succeeds, with a property, if all of some conditions hold, and else it stops because
of one that does not. Each condition has its own stops. -/
inductive Limits (stops : κ → Stop → Prop) (run : Run α) (s : Session) (good : κ → Prop)
    (post : α → Session → Prop) : Prop
  | passes {a : α} {t : Session} (ran : run.runIn s = (.ok a, t)) (holds : post a t)
      (meets : ∀ k, good k)
  | refuses {stop : Stop} {t : Session} (ran : run.runIn s = (.error stop, t)) {k : κ}
      (isStop : stops k stop) (fails : ¬ good k)

theorem limits_of_ok {a : α} {t : Session} (ran : run.runIn s = (.ok a, t)) (holds : post a t) :
    Limits stops run s (fun _ => True) post :=
  .passes ran holds fun _ => trivial

theorem limits_pure {a : α} (holds : post a s) :
    Limits stops (pure a : Run α) s (fun _ => True) post :=
  limits_of_ok rfl holds

theorem Limits.of_runIn {other : Run α} {t : Session} (h : Limits stops other t good post)
    (same : run.runIn s = other.runIn t) : Limits stops run s good post := by
  cases h with
  | passes ran holds meets => exact .passes (same.trans ran) holds meets
  | refuses ran isStop fails => exact .refuses (same.trans ran) isStop fails

theorem Limits.congr (h : Limits stops run s good post) (same : ∀ k, good' k ↔ good k) :
    Limits stops run s good' post := by
  cases h with
  | passes ran holds meets => exact .passes ran holds fun k => (same k).2 (meets k)
  | refuses ran isStop fails => exact .refuses ran isStop (mt (same _).1 fails)

theorem Limits.imp {weak : α → Session → Prop} (h : Limits stops run s good post)
    (weaker : ∀ a t, post a t → weak a t) : Limits stops run s good weak := by
  cases h with
  | passes ran holds meets => exact .passes ran (weaker _ _ holds) meets
  | refuses ran isStop fails => exact .refuses ran isStop fails

/-- What is known of every result may be added. -/
theorem Limits.and {extra : α → Session → Prop} (h : Limits stops run s good post)
    (always : ∀ a t, run.runIn s = (.ok a, t) → extra a t) :
    Limits stops run s good fun a t => post a t ∧ extra a t := by
  cases h with
  | passes ran holds meets => exact .passes ran ⟨holds, always _ _ ran⟩ meets
  | refuses ran isStop fails => exact .refuses ran isStop fails

/-- Of two computations in turn, the first that is refused stops both. -/
theorem Limits.bind (h : Limits stops run s good mid)
    (h' : ∀ a t, mid a t → Limits stops (next a) t good' after) :
    Limits stops (run >>= next) s (fun k => good k ∧ good' k) after := by
  cases h with
  | refuses ran isStop fails =>
    exact .refuses (runIn_bind_of_error ran) isStop (mt And.left fails)
  | passes ran holds meets =>
    refine Limits.of_runIn ?_ (runIn_bind_of_ok ran)
    exact (h' _ _ holds).congr fun k => and_iff_right (meets k)

/-- What always succeeds does not change what is refused. -/
theorem Limits.bind_ok (h : Limits stops run s good mid)
    (h' : ∀ a t, mid a t → ∃ b u, (next a).runIn t = (.ok b, u) ∧ after b u) :
    Limits stops (run >>= next) s good after :=
  (h.bind fun a t done =>
    have ⟨_, _, ran, done'⟩ := h' a t done
    limits_of_ok ran done').congr fun k => (iff_of_eq (and_true (good k))).symm

theorem Limits.after_ok {a : α} {t : Session} (ran : run.runIn s = (.ok a, t))
    (h : Limits stops (next a) t good after) : Limits stops (run >>= next) s good after :=
  h.of_runIn (runIn_bind_of_ok ran)

/-- Elements are gone through with something that stays; the first that is refused stops all. -/
theorem limits_foldlM {Stays : β → Session → Prop} {holds : α → κ → Prop} {f : β → α → Run β}
    {items : List α}
    (each : ∀ a ∈ items, ∀ b t, Stays b t → Limits stops (f b a) t (holds a) Stays) {b : β}
    (first : Stays b s) :
    Limits stops (items.foldlM f b) s (fun k => ∀ a ∈ items, holds a k) Stays := by
  induction items generalizing b s with
  | nil => exact (limits_pure first).congr fun _ => iff_of_true (List.forall_mem_nil _) trivial
  | cons a rest ih =>
    obtain ⟨here, others⟩ := List.forall_mem_cons.1 each
    rw [List.foldlM_cons]
    exact ((here b s first).bind fun _ _ => ih others).congr fun _ => List.forall_mem_cons

theorem limits_forM {Stays : Session → Prop} {holds : α → κ → Prop} {f : α → Run PUnit}
    {items : List α}
    (each : ∀ a ∈ items, ∀ t, Stays t → Limits stops (f a) t (holds a) fun _ => Stays)
    (first : Stays s) :
    Limits stops (items.forM f) s (fun k => ∀ a ∈ items, holds a k) fun _ => Stays := by
  induction items generalizing s with
  | nil => exact (limits_pure first).congr fun _ => iff_of_true (List.forall_mem_nil _) trivial
  | cons a rest ih =>
    obtain ⟨here, others⟩ := List.forall_mem_cons.1 each
    exact ((here s first).bind fun _ _ => ih others).congr fun _ => List.forall_mem_cons

/-- Results have a property that lasts while the session goes on. -/
theorem limits_mapM {Later : Session → Session → Prop} {P : β → Session → Prop}
    {holds : α → κ → Prop} {f : α → Run β} {items : List α} (refl : ∀ t, Later t t)
    (trans : ∀ t u w, Later t u → Later u w → Later t w)
    (lasts : ∀ b t u, Later t u → P b t → P b u)
    (each : ∀ a ∈ items, ∀ t, Later s t →
      Limits stops (f a) t (holds a) fun b u => Later t u ∧ P b u) :
    Limits stops (items.mapM f) s (fun k => ∀ a ∈ items, holds a k) fun results t =>
      Later s t ∧ ∀ b ∈ results, P b t := by
  induction items generalizing s with
  | nil =>
    exact (limits_pure ⟨refl s, List.forall_mem_nil _⟩).congr
      fun _ => iff_of_true (List.forall_mem_nil _) trivial
  | cons a rest ih =>
    obtain ⟨here, others⟩ := List.forall_mem_cons.1 each
    rw [List.mapM_cons]
    refine ((here s (refl s)).bind fun b t first => ?_).congr fun _ => List.forall_mem_cons
    refine (ih fun b isRest u later => others b isRest u (trans _ _ _ first.1 later)).bind_ok
      fun results u rest => ⟨_, u, rfl, trans _ _ _ first.1 rest.1, ?_⟩
    exact List.forall_mem_cons.2 ⟨lasts b t u rest.1 first.2, rest.2⟩

end Run

/-! ## Outcomes -/

/-- The refusal of what is nested too deep. -/
def Cyclic (op : String) (stop : Stop) : Prop := ∃ kind, stop = .fault (.cyclic op kind)

/-- How a conversion ends: it succeeds exactly when no path of parts is longer than it may go, and is
refused as cyclic otherwise, as is everything that leads to a cycle. -/
structure Bounded {α β : Type} (op : String) (part : α → α → Prop) (a : α)
    (result : Except Stop β × Session) : Prop where
  passes : (∀ n b, PathOf part n a b → n ≤ maxDepth) → ∃ found t, result = (.ok found, t)
  refuses : ∀ n b, PathOf part n a b → maxDepth < n →
    ∃ kind t, result = (.error (.fault (.cyclic op kind)), t)
  cyclic : ∀ m n b, PathOf part m a b → PathOf part (n + 1) b b →
    ∃ kind t, result = (.error (.fault (.cyclic op kind)), t)

/-- Where the depth is the only condition that may not hold, it decides. -/
theorem Run.Limits.bounded {α β κ : Type} {op : String} {part : α → α → Prop} {a : α}
    {run : Run β} {s : Session} {post : β → Session → Prop} {stops : κ → Stop → Prop}
    {good : κ → Prop} (h : Limits stops run s good post) (deep : κ)
    (limit : good deep ↔ Shallow part (maxDepth + 1) a) (others : ∀ k, k ≠ deep → good k)
    (isCyclic : ∀ stop, stops deep stop → Cyclic op stop) :
    Bounded op part a (run.runIn s) := by
  have refused (tooDeep : ¬ Shallow part (maxDepth + 1) a) :
      ∃ kind t, run.runIn s = (.error (.fault (.cyclic op kind)), t) := by
    cases h with
    | passes _ _ meets => exact absurd (limit.1 (meets deep)) tooDeep
    | @refuses stop t ran k isStop fails =>
      obtain rfl : k = deep := Classical.byContradiction fun other => fails (others k other)
      obtain ⟨kind, rfl⟩ := isCyclic stop isStop
      exact ⟨kind, t, ran⟩
  refine ⟨fun short => ?_, fun n b path long => ?_, fun _ _ _ path cycle => ?_⟩
  · cases h with
    | passes ran => exact ⟨_, _, ran⟩
    | @refuses _ _ _ k _ fails =>
      refine absurd ?_ fails
      by_cases same : k = deep
      · exact same ▸ limit.2 fun n b path => Nat.lt_succ_of_le (short n b path)
      · exact others k same
  · exact refused fun shallow => absurd (shallow n b path) (Nat.not_lt.2 long)
  · exact refused (not_shallow_of_cycle path cycle)

end Interchange.Script
