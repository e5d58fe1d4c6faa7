import Treewalk.Proofs.Run.Spares
import Treewalk.Proofs.Run.Upkeep

/-!
# Instances stay of their class

Whatever runs on a machine, an instance that is there stays there, and stays one of its class. Only
two operations touch instances at all: one makes a new one, the other stores in a field.
-/

namespace Treewalk

open Run

/-- Every instance is still there, and one of the same class. -/
def Machine.KeepsInstances (m m' : Machine) : Prop :=
  ∀ (i : InstanceId) x, m.store.instances[i]? = some x →
    ∃ y, m'.store.instances[i]? = some y ∧ y.ofClass = x.ofClass

theorem Machine.KeepsInstances.of_eq {m m' : Machine}
    (same : m'.store.instances = m.store.instances) : m.KeepsInstances m' :=
  fun i x found => ⟨x, by rw [same]; exact found, rfl⟩

namespace Instances

/-- Nothing is asked of what a program holds. -/
@[reducible]
def keeping : Regime Platform.machine where
  holds _ := True
  le := Machine.KeepsInstances
  le_refl _ := .of_eq rfl
  le_trans h h' i x found := by
    obtain ⟨y, found', same⟩ := h i x found
    obtain ⟨z, found'', same'⟩ := h' i y found'
    exact ⟨z, found'', same'.trans same⟩
  region _ _ := True
  region_mono _ _ := trivial
  holds_setEnv _ _ := trivial
  le_setEnv _ _ := .of_eq rfl

variable {α β : Type} {s : Machine}

/-- Runs from any machine keep its instances. -/
def Kept (p : Run α) : Prop := ∀ m : Machine, m.KeepsInstances (endState (p m))

theorem Kept.upholds {A : Machine → α → Prop} {p : Run α} (h : Kept p) (any : ∀ t a, A t a) :
    keeping.Upholds s A p := by
  intro m _ _
  have ends := h m
  revert ends
  cases p m with
  | ok a m' => exact fun ends => ⟨ends, trivial, any m' a⟩
  | error e m' => exact fun ends => ⟨ends, trivial⟩

namespace Kept

/-- A run that does not touch the instances. -/
theorem of_eq {p : Run α} (h : ∀ m, (endState (p m)).store.instances = m.store.instances) :
    Kept p :=
  fun m => .of_eq (h m)

theorem spared {p : Run α} (h : Spares p) : Kept p := of_eq fun m => (h m).instances

theorem bind {p : Run α} {f : α → Run β} (h : Kept p) (next : ∀ a, Kept (f a)) :
    Kept (p >>= f) := by
  intro m
  have first := h m
  cases ran : p m with
  | ok a m' =>
    rw [ran] at first
    rw [bind_of_ok ran]
    exact keeping.le_trans first (next a m')
  | error e m' =>
    rw [ran] at first
    rw [bind_of_error ran]
    exact first

theorem newFunction (closure : Closure) : Kept (newFunction closure) := of_eq fun _ => rfl

theorem newClass (cls : Class) : Kept (newClass cls) := of_eq fun _ => rfl

theorem newInstance (c : ClassId) : Kept (newInstance c) := by
  intro m i x found
  have old := (Array.getElem?_eq_some_iff.1 found).1
  refine ⟨x, ?_, rfl⟩
  show (m.store.instances.push _)[i]? = some x
  rw [Array.getElem?_push, if_neg (Nat.ne_of_lt old), found]

theorem setField (i : InstanceId) (name : String) (value : Value) :
    Kept (setField i name value) := by
  intro m j x found
  show ∃ y, (m.store.instances.modify i _)[j]? = some y ∧ _
  rw [Array.getElem?_modify, found]
  split
  · exact ⟨_, rfl, rfl⟩
  · exact ⟨x, rfl, rfl⟩

theorem readMethod (method : Closure) (i : InstanceId) :
    Kept (do Run.newFunction (← Run.bindMethod method i)) :=
  (spared ((Spares.newFrame _ _).bind fun _ => .pure _)).bind newFunction

theorem readProperty (i : InstanceId) (name : Token) : Kept (readProperty i name) := by
  refine (spared (.gets _)).bind fun found => ?_
  split
  · exact spared (.pure _)
  · refine (spared (.gets _)).bind fun method => ?_
    cases method with
    | some method => exact readMethod method i
    | none => exact spared (.fault name _)
  · exact spared (.fault name _)

theorem readSuper (id : NodeId) (keyword method : Token) : Kept (readSuper id keyword method) := by
  refine (spared (.gets _)).bind fun distance => ?_
  split
  · exact spared (.fault keyword _)
  · refine (spared (.gets _)).bind fun above => ?_
    split
    · refine (spared (.gets _)).bind fun this => ?_
      split
      · refine (spared (.gets _)).bind fun found => ?_
        cases found with
        | some found => exact readMethod found _
        | none => exact spared (.fault method _)
      · exact spared (.fault keyword _)
    · exact spared (.fault keyword _)

theorem makeClass (name : Token) (above : Option ClassId) (methods : Bindings Closure) :
    Kept (do Run.assignName name (← Run.newClass ⟨name.lexeme, above, methods⟩)) :=
  (newClass _).bind fun made => spared (.assignName name made)

theorem declareClass (name : Token) (superclass : Option Variable) (methods : List FunctionDecl) :
    Kept (declareClass name superclass methods) := by
  refine (spared (.define _ _)).bind fun _ => ?_
  cases superclass with
  | none =>
    simp only [pure_bind]
    exact (spared (.gets _)).bind fun _ => makeClass name _ _
  | some ref =>
    simp only [pure_bind, bind_map_left]
    refine (spared (.readSuperclass ref)).bind fun c => (spared (.gets _)).bind fun outer => ?_
    exact (spared (.newFrame outer _)).bind fun _ => makeClass name _ _

end Kept

theorem upholds_oneDeeper {p : Run Value} (paren : Token)
    (h : keeping.Upholds s keeping.Valid p) :
    keeping.Upholds s keeping.Valid (oneDeeper paren p) := by
  intro m grown _
  unfold Run.oneDeeper
  split
  · exact ⟨.of_eq rfl, trivial⟩
  · have inside := h { m with depth := m.depth + 1 } grown trivial
    revert inside
    cases p { m with depth := m.depth + 1 } with
    | ok value m' => exact fun inside => ⟨inside.1, trivial, fun _ _ => trivial⟩
    | error e m' => exact fun inside => ⟨inside.1, trivial⟩

theorem upholds_spared {A : Machine → α → Prop} {p : Run α} (h : Spares p) (any : ∀ t a, A t a) :
    keeping.Upholds s A p := (Kept.spared h).upholds any

theorem upkeep : Upkeep keeping where
  read id name := upholds_spared (.readVariable id name) fun _ _ _ _ => trivial
  assign id name _ := upholds_spared (.assignVariable id name _) fun _ _ => trivial
  readSuper id keyword method := (Kept.readSuper id keyword method).upholds fun _ _ _ _ => trivial
  readProperty name _ := (Kept.readProperty _ name).upholds fun _ _ _ _ => trivial
  setField name _ _ := (Kept.setField _ name _).upholds fun _ _ => trivial
  callee? _ := upholds_spared (.gets _) fun _ _ _ _ _ _ _ => trivial
  oneDeeper := upholds_oneDeeper
  readClock := upholds_spared .readClock fun _ _ _ _ => trivial
  newInstance _ := (Kept.newInstance _).upholds fun _ _ _ _ => trivial
  bindMethod _ _ := upholds_spared ((Spares.newFrame _ _).bind fun _ => .pure _) fun _ _ => trivial
  enterCall _ _ := upholds_spared (.newFrame _ _) fun _ _ => trivial
  receiver _ := upholds_spared ((Spares.gets _).bind fun _ => .pure _) fun _ _ _ _ => trivial
  enterBlock _ :=
    upholds_spared ((Spares.gets _).bind fun outer => .newFrame outer ∅) fun _ _ => trivial
  declareFunction _ := by
    refine (Kept.bind (.spared (.gets _)) fun _ => ?_).upholds fun _ _ => trivial
    exact (Kept.newFunction _).bind fun f => .spared (.define _ f)
  declareClass name superclass methods :=
    (Kept.declareClass name superclass methods).upholds fun _ _ => trivial
  announce _ := .pure fun _ _ => trivial
  define name _ := upholds_spared (.define name _) fun _ _ => trivial
  print value := upholds_spared (.print value) fun _ _ => trivial
  flush := upholds_spared .flush fun _ _ => trivial

/-- The body of a function keeps the instances. -/
theorem kept_body (n : Nat) (body : List Stmt) {m m' : Machine} {flow : Flow}
    (ran : inOrder (execute n) body m = .ok flow m') : m.KeepsInstances m' := by
  have each : keeping.Upholds m keeping.Flows (Platform.machine.inOrder (Platform.machine.execute n)
      body) :=
    .inOrder body fun stmt _ _ _ => (upkeep.upheld n).execute stmt
  have after := each m (.of_eq rfl) trivial
  rw [Platform.inOrder_machine, (Platform.agrees n).execute, ran] at after
  exact after.1

end Instances

end Treewalk
