import Treewalk.Proofs.Run.Engine
import Treewalk.Proofs.Store.Region

/-!
# What every run keeps

A `Regime` says of the states of a platform what holds of all of them, in which way one may become
another, and which things a program can hold in them. An `Upkeep` is one law for each operation;
`Upkeep.upheld` lifts the laws to runs of any text, whether it was resolved or not, at every number
of steps.
-/

namespace Treewalk

/-- A constant refers to nothing. -/
theorem Constant.value_in {R : Region} (c : Constant) : c.value.In R := by
  intro held member
  cases c <;> cases member

structure Regime (P : Platform) where
  holds : P.State → Prop
  le : P.State → P.State → Prop
  le_refl : ∀ s, le s s
  le_trans : ∀ {s t u}, le s t → le t u → le s u
  /-- What a value may refer to. -/
  region : P.State → Region
  region_mono : ∀ {s t held}, le s t → region s held → region t held
  holds_setEnv : ∀ {s} e, holds s → holds (P.setEnv e s)
  le_setEnv : ∀ e s, le s (P.setEnv e s)

namespace Regime

variable {P : Platform} (R : Regime P)

/-- A value that a program may hold. -/
abbrev Valid (s : P.State) (value : Value) : Prop := value.In (R.region s)

/-- The end of a run from this state is good. -/
def After {α : Type} (s : P.State) (A : P.State → α → Prop) :
    EStateM.Result Stop P.State α → Prop
  | .ok a s' => R.le s s' ∧ R.holds s' ∧ A s' a
  | .error _ s' => R.le s s' ∧ R.holds s'

/-- From every good state that `s₀` can become, the run comes to a good end. -/
def Upholds {α : Type} (s₀ : P.State) (A : P.State → α → Prop) (p : P.Action α) : Prop :=
  ∀ s, R.le s₀ s → R.holds s → R.After s A (p s)

/-- Nothing is asked of what is yielded. -/
abbrev Any {α : Type} (_ : Regime P) : P.State → α → Prop := fun _ _ => True

/-- What a statement returns, if it does, may be held. -/
def Flows (s : P.State) : Flow → Prop
  | .normal => True
  | .returned value => R.Valid s value

variable {R} {α β : Type} {s₀ s s' : P.State} {A : P.State → α → Prop} {B : P.State → β → Prop}

theorem valid_mono {value : Value} (le : R.le s s') (h : R.Valid s value) : R.Valid s' value :=
  fun held refers => R.region_mono le (h held refers)

theorem flows_mono {flow : Flow} (le : R.le s s') (h : R.Flows s flow) : R.Flows s' flow := by
  cases flow with
  | normal => exact h
  | returned value => exact valid_mono le h

theorem After.later {r : EStateM.Result Stop P.State α} (le : R.le s s') (h : R.After s' A r) :
    R.After s A r := by
  cases r with
  | ok a t => exact ⟨R.le_trans le h.1, h.2⟩
  | error e t => exact ⟨R.le_trans le h.1, h.2⟩

namespace Upholds

theorem pure {a : α} (h : ∀ t, R.le s t → A t a) : R.Upholds s A (pure a) :=
  fun t grown holds => ⟨R.le_refl t, holds, h t grown⟩

theorem throw (e : Stop) : R.Upholds s A (throw e) := fun t _ holds => ⟨R.le_refl t, holds⟩

theorem fault (place : Token) (cause : RuntimeError.Cause) : R.Upholds s A (P.fault place cause) :=
  throw _

theorem bind {p : P.Action α} {f : α → P.Action β} (h : R.Upholds s A p)
    (next : ∀ t a, R.le s t → A t a → R.Upholds t B (f a)) : R.Upholds s B (p >>= f) := by
  intro t grown holds
  have after := h t grown holds
  show R.After t B (EStateM.bind p f t)
  unfold EStateM.bind
  revert after
  cases p t with
  | ok a u =>
    rintro ⟨le, holds', this⟩
    exact (next u a (R.le_trans grown le) this u (R.le_refl u) holds').later le
  | error e u => exact id

theorem map {p : P.Action α} {f : α → β} (h : R.Upholds s A p)
    (next : ∀ t a, A t a → B t (f a)) : R.Upholds s B (f <$> p) := by
  intro t grown holds
  have after := h t grown holds
  show R.After t B (EStateM.map f p t)
  unfold EStateM.map
  revert after
  cases p t with
  | ok a u => exact fun after => ⟨after.1, after.2.1, next u a after.2.2⟩
  | error e u => exact id

theorem ofExcept (place : Token) {r : Except RuntimeError.Cause Value}
    (h : ∀ value, r = .ok value → ∀ t, R.Valid t value) :
    R.Upholds s R.Valid (P.ofExcept place r) := by
  cases r with
  | ok value => exact pure fun t _ => h value rfl t
  | error cause => exact fault place cause

theorem within {p : P.Action α} (h : R.Upholds s A p) (e : P.Env)
    (stable : ∀ t u a, R.le t u → A t a → A u a) : R.Upholds s A (P.within e p) := by
  intro t grown holds
  have inside := h (P.setEnv e t) (R.le_trans grown (R.le_setEnv e t)) (R.holds_setEnv e holds)
  unfold Platform.within
  revert inside
  cases p (P.setEnv e t) with
  | ok a u =>
    rintro ⟨le, holds', this⟩
    have back := R.le_setEnv (P.env t) u
    exact ⟨R.le_trans (R.le_setEnv e t) (R.le_trans le back), R.holds_setEnv _ holds',
      stable _ _ a back this⟩
  | error stop u =>
    rintro ⟨le, holds'⟩
    have back := R.le_setEnv (P.env t) u
    exact ⟨R.le_trans (R.le_setEnv e t) (R.le_trans le back), R.holds_setEnv _ holds'⟩

theorem mapM {f : α → P.Action Value} (xs : List α)
    (h : ∀ x ∈ xs, ∀ t, R.le s t → R.Upholds t R.Valid (f x)) :
    R.Upholds s (fun t values => ∀ value ∈ values, R.Valid t value) (xs.mapM f) := by
  induction xs generalizing s with
  | nil => exact pure fun _ _ => List.forall_mem_nil _
  | cons x xs ih =>
    rw [List.mapM_cons]
    refine (h x (.head _) s (R.le_refl s)).bind fun t value grown first => ?_
    have others : ∀ y ∈ xs, ∀ u, R.le t u → R.Upholds u R.Valid (f y) :=
      fun y member u le => h y (.tail _ member) u (R.le_trans grown le)
    refine (ih others).bind fun u values grown' rest => pure fun v grown'' => ?_
    have first := valid_mono (R.le_trans grown' grown'') first
    exact List.forall_mem_cons.2 ⟨first, fun y member => valid_mono grown'' (rest y member)⟩

theorem inOrder {f : α → P.Action Flow} (xs : List α)
    (h : ∀ x ∈ xs, ∀ t, R.le s t → R.Upholds t R.Flows (f x)) :
    R.Upholds s R.Flows (P.inOrder f xs) := by
  induction xs generalizing s with
  | nil => exact pure fun _ _ => trivial
  | cons x xs ih =>
    rw [Platform.inOrder]
    refine (h x (.head _) s (R.le_refl s)).bind fun t flow grown first => ?_
    cases flow with
    | normal => exact ih fun y member u le => h y (.tail _ member) u (R.le_trans grown le)
    | returned value => exact pure fun u le => flows_mono le first

end Upholds

end Regime

/-- Every operation keeps the regime. -/
structure Upkeep {P : Platform} (R : Regime P) : Prop where
  read : ∀ {s} id name, R.Upholds s R.Valid (P.read id name)
  assign : ∀ {s value} id name, R.Valid s value → R.Upholds s R.Any (P.assign id name value)
  readSuper : ∀ {s} id keyword method, R.Upholds s R.Valid (P.readSuper id keyword method)
  readProperty : ∀ {s i} name, R.Valid s (.object i) →
    R.Upholds s R.Valid (P.readProperty i name)
  setField : ∀ {s i value} name, R.Valid s (.object i) → R.Valid s value →
    R.Upholds s R.Any (P.setField i name value)
  callee? : ∀ {s value}, R.Valid s value → R.Upholds s
    (fun t found => ∀ id initializer, found = some (.cls id initializer) → R.Valid t (.cls id))
    (P.callee? value)
  oneDeeper : ∀ {s p} paren, R.Upholds s R.Valid p → R.Upholds s R.Valid (P.oneDeeper paren p)
  readClock : ∀ {s}, R.Upholds s R.Valid P.readClock
  newInstance : ∀ {s id}, R.Valid s (.cls id) →
    R.Upholds s (fun t i => R.Valid t (.object i)) (P.newInstance id)
  bindMethod : ∀ {s i} f, R.Valid s (.object i) → R.Upholds s R.Any (P.bindMethod f i)
  enterCall : ∀ {s arguments} f, (∀ value ∈ arguments, R.Valid s value) →
    R.Upholds s R.Any (P.enterCall f arguments)
  receiver : ∀ {s} f, R.Upholds s R.Valid (P.receiver f)
  enterBlock : ∀ {s} body, R.Upholds s R.Any (P.enterBlock body)
  declareFunction : ∀ {s} decl, R.Upholds s R.Any (P.declareFunction decl)
  declareClass : ∀ {s} name superclass methods,
    R.Upholds s R.Any (P.declareClass name superclass methods)
  announce : ∀ {s} name, R.Upholds s R.Any (P.announce name)
  define : ∀ {s value} name, R.Valid s value → R.Upholds s R.Any (P.define name value)
  print : ∀ {s} value, R.Upholds s R.Any (P.print value)
  flush : ∀ {s}, R.Upholds s R.Any P.flush

/-- Runs of at most `n` steps keep the regime. -/
structure Upheld {P : Platform} (R : Regime P) (n : Nat) : Prop where
  evaluate : ∀ {s} e, R.Upholds s R.Valid (P.evaluate n e)
  callValue : ∀ {s callee} paren {arguments}, R.Valid s callee →
    (∀ value ∈ arguments, R.Valid s value) →
    R.Upholds s R.Valid (P.callValue n callee paren arguments)
  invoke : ∀ {s} f {arguments}, (∀ value ∈ arguments, R.Valid s value) →
    R.Upholds s R.Valid (P.invoke n f arguments)
  declareVariable : ∀ {s} decl, R.Upholds s R.Flows (P.declareVariable n decl)
  execute : ∀ {s} stmt, R.Upholds s R.Flows (P.execute n stmt)
  repeatWhile : ∀ {s} condition body, R.Upholds s R.Flows (P.repeatWhile n condition body)

namespace Upkeep

open Regime

variable {P : Platform} {R : Regime P} {s : P.State} {n : Nat} (U : Upkeep R) (ih : Upheld R n)
include ih

omit ih in
theorem valid_nil (s : P.State) : R.Valid s .nil := Value.in_nil _

theorem evaluate_all (es : List Expr) :
    R.Upholds s (fun t values => ∀ value ∈ values, R.Valid t value) (es.mapM (P.evaluate n)) :=
  .mapM es fun e _ _ _ => ih.evaluate e

include U in
theorem evaluate_succ (e : Expr) : R.Upholds s R.Valid (P.evaluate (n + 1) e) := by
  cases e with
  | sequence items =>
    rw [Platform.evaluate]
    refine (evaluate_all ih items).bind fun t values _ each => .pure fun u le => ?_
    cases last : values.getLast? with
    | none => exact valid_nil u
    | some value => exact valid_mono le (each value (List.mem_of_getLast? last))
  | assign id name value =>
    rw [Platform.evaluate]
    refine (ih.evaluate value).bind fun t a _ this => ?_
    exact (U.assign id name this).bind fun u _ le _ => .pure fun v le' =>
      valid_mono (R.le_trans le le') this
  | binary left operator right =>
    rw [Platform.evaluate]
    refine (ih.evaluate left).bind fun t a _ _ => ?_
    refine (ih.evaluate right).bind fun u b _ _ => ?_
    exact .ofExcept operator fun value yields v => binaryOperator_in yields
  | call callee paren arguments =>
    rw [Platform.evaluate]
    refine (ih.evaluate callee).bind fun t f _ this => ?_
    refine (evaluate_all ih arguments).bind fun u values le each => ?_
    exact ih.callValue paren (valid_mono le this) each
  | get object name =>
    rw [Platform.evaluate]
    refine (ih.evaluate object).bind fun t a _ this => ?_
    cases a with
    | object i => exact U.readProperty name this
    | _ => exact .fault name _
  | grouping inner =>
    rw [Platform.evaluate]
    exact ih.evaluate inner
  | constant value =>
    rw [Platform.evaluate]
    exact .pure fun t _ => value.value_in
  | logical left operator right =>
    rw [Platform.evaluate]
    refine (ih.evaluate left).bind fun t a _ this => ?_
    split
    · exact .pure fun u le => valid_mono le this
    · exact ih.evaluate right
  | set object name value =>
    rw [Platform.evaluate]
    refine (ih.evaluate object).bind fun t a _ this => ?_
    cases a with
    | object i =>
      refine (ih.evaluate value).bind fun u b le stored => ?_
      refine (U.setField name.lexeme (valid_mono le this) stored).bind fun v _ le' _ => ?_
      exact .pure fun w le'' => valid_mono (R.le_trans le' le'') stored
    | _ => exact .fault name _
  | super id keyword method =>
    rw [Platform.evaluate]
    exact U.readSuper id keyword method
  | this id keyword =>
    rw [Platform.evaluate]
    exact U.read id keyword
  | unary operator right =>
    rw [Platform.evaluate]
    refine (ih.evaluate right).bind fun t a _ _ => ?_
    exact .ofExcept operator fun value yields u => unaryOperator_in yields
  | read ref =>
    rw [Platform.evaluate]
    exact U.read ref.id ref.name

include U in
theorem callValue_succ {callee : Value} (paren : Token) {arguments : List Value}
    (this : R.Valid s callee) (each : ∀ value ∈ arguments, R.Valid s value) :
    R.Upholds s R.Valid (P.callValue (n + 1) callee paren arguments) := by
  rw [Platform.callValue]
  refine (U.callee? this).bind fun t found le known => ?_
  have each := fun value member => valid_mono le (each value member)
  cases found with
  | none => exact .fault paren _
  | some callee =>
    dsimp only
    split
    · exact .fault paren _
    · refine U.oneDeeper paren ?_
      cases callee with
      | clock => exact U.readClock
      | function f => exact ih.invoke f each
      | cls id initializer =>
        refine (U.newInstance (known id initializer rfl)).bind fun u i le' made => ?_
        cases initializer with
        | none => exact .pure fun v le'' => valid_mono le'' made
        | some method =>
          refine (U.bindMethod method made).bind fun v bound le'' _ => ?_
          have each := fun value member => valid_mono (R.le_trans le' le'') (each value member)
          refine (ih.invoke bound each).bind fun w _ grown _ => .pure fun x grown' => ?_
          exact valid_mono (R.le_trans le'' (R.le_trans grown grown')) made

include U in
theorem invoke_succ (f : P.Code) {arguments : List Value}
    (each : ∀ value ∈ arguments, R.Valid s value) :
    R.Upholds s R.Valid (P.invoke (n + 1) f arguments) := by
  rw [Platform.invoke]
  refine (U.enterCall f each).bind fun t e le _ => ?_
  have body : R.Upholds t R.Flows (P.inOrder (P.execute n) (P.decl f).body) :=
    .inOrder _ fun stmt _ u _ => ih.execute stmt
  refine (body.within e fun t u flow => flows_mono).bind fun u flow _ this => ?_
  split
  · exact U.receiver f
  · cases flow with
    | normal => exact .pure fun v _ => valid_nil v
    | returned value => exact .pure fun v le => valid_mono le this

include U in
theorem declareVariable_succ (decl : VarDecl) :
    R.Upholds s R.Flows (P.declareVariable (n + 1) decl) := by
  rw [Platform.declareVariable]
  refine (U.announce decl.name.lexeme).bind fun t _ _ _ => ?_
  have behind : ∀ u value, R.Valid u value →
      R.Upholds u R.Flows (do P.define decl.name.lexeme value; pure .normal) :=
    fun u value this => (U.define _ this).bind fun v _ _ _ => .pure fun w _ => trivial
  cases decl.initializer with
  | none => exact (Upholds.pure fun u _ => valid_nil u).bind fun u value _ => behind u value
  | some e => exact (ih.evaluate e).bind fun u value _ => behind u value

include U in
theorem execute_succ (stmt : Stmt) : R.Upholds s R.Flows (P.execute (n + 1) stmt) := by
  cases stmt with
  | block body =>
    rw [Platform.execute]
    refine (U.enterBlock body).bind fun t e _ _ => ?_
    have inside : R.Upholds t R.Flows (P.inOrder (P.execute n) body) :=
      .inOrder body fun stmt _ u _ => ih.execute stmt
    exact inside.within e fun t u flow => flows_mono
  | classDecl name superclass methods =>
    rw [Platform.execute]
    refine (U.declareClass name superclass methods).bind fun t _ _ _ => ?_
    exact .pure fun u _ => trivial
  | expression value =>
    rw [Platform.execute]
    exact (ih.evaluate value).bind fun t _ _ _ => .pure fun u _ => trivial
  | function decl =>
    rw [Platform.execute]
    exact (U.declareFunction decl).bind fun t _ _ _ => .pure fun u _ => trivial
  | branch condition thenBranch elseBranch =>
    cases elseBranch with
    | none =>
      rw [Platform.execute]
      refine (ih.evaluate condition).bind fun t value _ _ => ?_
      split
      · exact ih.execute thenBranch
      · exact .pure fun u _ => trivial
    | some elseBranch =>
      rw [Platform.execute]
      refine (ih.evaluate condition).bind fun t value _ _ => ?_
      split
      · exact ih.execute thenBranch
      · exact ih.execute elseBranch
  | print value =>
    rw [Platform.execute]
    refine (ih.evaluate value).bind fun t a _ _ => ?_
    exact (U.print a).bind fun u _ _ _ => .pure fun v _ => trivial
  | ret keyword value =>
    cases value with
    | none =>
      rw [Platform.execute]
      exact .pure fun u _ => valid_nil u
    | some e =>
      rw [Platform.execute]
      exact (ih.evaluate e).map fun t a this => this
  | var decl =>
    rw [Platform.execute]
    exact ih.declareVariable decl
  | varList decls =>
    rw [Platform.execute]
    exact .inOrder decls fun decl _ t _ => ih.declareVariable decl
  | loop condition body =>
    rw [Platform.execute]
    exact ih.repeatWhile condition body

theorem repeatWhile_succ (condition : Expr) (body : Stmt) :
    R.Upholds s R.Flows (P.repeatWhile (n + 1) condition body) := by
  rw [Platform.repeatWhile]
  refine (ih.evaluate condition).bind fun t value _ _ => ?_
  split
  · refine (ih.execute body).bind fun u flow _ this => ?_
    cases flow with
    | normal => exact ih.repeatWhile condition body
    | returned value => exact .pure fun v le => valid_mono le this
  · exact .pure fun u _ => trivial

omit ih in
include U in
/-- If the operations keep a regime, so do all runs. -/
theorem upheld (n : Nat) : Upheld R n := by
  induction n with
  | zero => constructor <;> intros <;> exact .throw _
  | succ n ih =>
    exact ⟨evaluate_succ U ih, callValue_succ U ih, invoke_succ U ih, declareVariable_succ U ih,
      execute_succ U ih, repeatWhile_succ ih⟩

omit ih in
include U in
theorem executeAll (steps : Nat) (program : List Stmt) :
    R.Upholds s R.Any (P.executeAll steps program) := by
  unfold Platform.executeAll
  induction program generalizing s with
  | nil => exact .pure fun _ _ => trivial
  | cons stmt rest ihRest =>
    have first : R.Upholds s R.Any (discard (P.execute steps stmt)) :=
      ((U.upheld steps).execute stmt).map fun _ _ _ => trivial
    exact first.bind fun t _ _ _ => ihRest

omit ih in
include U in
/-- A batch keeps the regime, also when it is stopped. -/
theorem interpret (steps : Nat) (program : List Stmt) :
    R.Upholds s R.Any (P.interpret steps program) := by
  intro t grown holds
  have ends := U.executeAll steps program t grown holds
  unfold Platform.interpret
  revert ends
  cases P.executeAll steps program t with
  | ok _ u =>
    rintro ⟨le, holds', -⟩
    exact (U.flush u (R.le_refl u) holds').later le
  | error e u =>
    rintro ⟨le, holds'⟩
    have flushed : R.Upholds u R.Any (do P.flush; throw e : P.Action Unit) :=
      U.flush.bind fun _ _ _ _ => .throw e
    cases e with
    | exhausted => exact ⟨le, holds'⟩
    | fault _ | output _ => exact (flushed u (R.le_refl u) holds').later le

end Upkeep

namespace Engine.Session

variable {H : Engine} {R : Regime H.toPlatform}

theorem run_upheld (U : Upkeep R)
    (load : ∀ c state, R.holds state → R.le state (H.load c state) ∧ R.holds (H.load c state))
    (s : H.Session) (holds : R.holds s.state) (steps : Nat) (source : List UInt8) :
    R.le s.state (s.run steps source).2.state ∧ R.holds (s.run steps source).2.state := by
  simp only [Engine.Session.run]
  split
  · exact ⟨R.le_refl _, holds⟩
  · next c nextId _ =>
    obtain ⟨le, loaded⟩ := load c s.state holds
    have ends := U.interpret steps c.program _ (R.le_refl _) loaded
    revert ends
    cases H.interpret steps c.program (H.load c s.state) with
    | ok _ state => exact fun ends => ⟨R.le_trans le ends.1, ends.2.1⟩
    | error stop state => exact fun ends => ⟨R.le_trans le ends.1, ends.2⟩

/-- Sessions keep a regime, batch by batch, whatever the batches are. -/
theorem runAll_upheld (U : Upkeep R)
    (load : ∀ c state, R.holds state → R.le state (H.load c state) ∧ R.holds (H.load c state))
    (s : H.Session) (holds : R.holds s.state) (batches : List (Nat × List UInt8)) :
    R.le s.state (s.runAll batches).2.state ∧ R.holds (s.runAll batches).2.state := by
  induction batches generalizing s with
  | nil => exact ⟨R.le_refl _, holds⟩
  | cons batch rest ih =>
    obtain ⟨le, holds'⟩ := s.run_upheld U load holds batch.1 batch.2
    obtain ⟨le', holds''⟩ := ih _ holds'
    exact ⟨R.le_trans le le', holds''⟩

end Engine.Session

end Treewalk
