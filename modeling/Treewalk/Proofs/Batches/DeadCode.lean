import Treewalk.Proofs.Batches.Rejected
import Treewalk.Proofs.Objects.Constructors
import Treewalk.Proofs.Objects.Kinds
import Treewalk.Proofs.Plain.Live
import Treewalk.Proofs.Run.Returned

/-!
# Code behind a `return` is dead

Two programs that differ only in what stands behind their `return` statements are the same program
without it. On the plain interpreter, where numbers of references play no part either, both do what
that program does. What a call yields is the value of the `return` that its body comes to.
-/

namespace Treewalk

mutual

/-- The second statement is the first one with other statements behind a `return`, wherever one
stands in it. -/
inductive Stmt.Varies : Stmt → Stmt → Prop where
  | same (s : Stmt) : Stmt.Varies s s
  | block {body body' : List Stmt} : Stmt.AllVary body body' →
      Stmt.Varies (.block body) (.block body')
  | classDecl {name : Token} {superclass : Option Variable} {methods methods' : List FunctionDecl} :
      FunctionDecl.AllVary methods methods' →
      Stmt.Varies (.classDecl name superclass methods) (.classDecl name superclass methods')
  | function {decl decl' : FunctionDecl} : FunctionDecl.Varies decl decl' →
      Stmt.Varies (.function decl) (.function decl')
  | branch {condition : Expr} {thenBranch thenBranch' : Stmt} :
      Stmt.Varies thenBranch thenBranch' →
      Stmt.Varies (.branch condition thenBranch none) (.branch condition thenBranch' none)
  | branchElse {condition : Expr} {thenBranch thenBranch' elseBranch elseBranch' : Stmt} :
      Stmt.Varies thenBranch thenBranch' → Stmt.Varies elseBranch elseBranch' →
      Stmt.Varies (.branch condition thenBranch (some elseBranch))
        (.branch condition thenBranch' (some elseBranch'))
  | loop {condition : Expr} {body body' : Stmt} : Stmt.Varies body body' →
      Stmt.Varies (.loop condition body) (.loop condition body')

/-- Behind a `return` any statements stand in place of any others. -/
inductive Stmt.AllVary : List Stmt → List Stmt → Prop where
  | nil : Stmt.AllVary [] []
  | cons {s s' : Stmt} {rest rest' : List Stmt} : Stmt.Varies s s' → Stmt.AllVary rest rest' →
      Stmt.AllVary (s :: rest) (s' :: rest')
  | behind {keyword : Token} {value : Option Expr} (rest rest' : List Stmt) :
      Stmt.AllVary (.ret keyword value :: rest) (.ret keyword value :: rest')

inductive FunctionDecl.Varies : FunctionDecl → FunctionDecl → Prop where
  | mk {name : Token} {params : List Token} {body body' : List Stmt} : Stmt.AllVary body body' →
      FunctionDecl.Varies ⟨name, params, body⟩ ⟨name, params, body'⟩

inductive FunctionDecl.AllVary : List FunctionDecl → List FunctionDecl → Prop where
  | nil : FunctionDecl.AllVary [] []
  | cons {decl decl' : FunctionDecl} {rest rest' : List FunctionDecl} :
      FunctionDecl.Varies decl decl' → FunctionDecl.AllVary rest rest' →
      FunctionDecl.AllVary (decl :: rest) (decl' :: rest')

end

/-- Two programs differ only in what stands behind their `return` statements, and in the numbers of
references. -/
def Compiled.VariesBehindReturns (c c' : Compiled) : Prop :=
  List.Forall₂ Stmt.Varies (Stmt.relabelAll .unnumbered c.program)
    (Stmt.relabelAll .unnumbered c'.program)

theorem Stmt.Varies.isReturn {s s' : Stmt} (h : s.Varies s') : s'.isReturn = s.isReturn := by
  cases h <;> rfl

mutual

/-- Without what stands behind a `return` both are the same. -/
theorem Stmt.Varies.live {s s' : Stmt} : s.Varies s' → s'.live = s.live
  | .same _ => rfl
  | .block h => by rw [Stmt.live, Stmt.live, h.live]
  | .classDecl h => by rw [Stmt.live, Stmt.live, h.live]
  | .function h => by rw [Stmt.live, Stmt.live, h.live]
  | .branch h => by rw [Stmt.live, Stmt.live, h.live]
  | .branchElse h h' => by rw [Stmt.live, Stmt.live, h.live, h'.live]
  | .loop h => by rw [Stmt.live, Stmt.live, h.live]

theorem Stmt.AllVary.live {body body' : List Stmt} :
    Stmt.AllVary body body' → Stmt.liveAll body' = Stmt.liveAll body
  | .nil => rfl
  | .cons h hs => by rw [Stmt.liveAll, Stmt.liveAll, h.live, hs.live, h.isReturn]
  | .behind _ _ => by
    rw [Stmt.liveAll, Stmt.liveAll]
    rfl

theorem FunctionDecl.Varies.live {decl decl' : FunctionDecl} :
    decl.Varies decl' → decl'.live = decl.live
  | .mk h => by rw [FunctionDecl.live, FunctionDecl.live, h.live]

theorem FunctionDecl.AllVary.live {decls decls' : List FunctionDecl} :
    FunctionDecl.AllVary decls decls' → FunctionDecl.liveAll decls' = FunctionDecl.liveAll decls
  | .nil => rfl
  | .cons h hs => by rw [FunctionDecl.liveAll, FunctionDecl.liveAll, h.live, hs.live]

end

/-- Without numbers and dead statements the two programs are one. -/
theorem Compiled.VariesBehindReturns.live {c c' : Compiled} (h : c.VariesBehindReturns c') :
    (Stmt.relabelAll .unnumbered c'.program).map Stmt.live =
      (Stmt.relabelAll .unnumbered c.program).map Stmt.live := by
  unfold VariesBehindReturns at h
  generalize Stmt.relabelAll .unnumbered c.program = body at h ⊢
  generalize Stmt.relabelAll .unnumbered c'.program = body' at h ⊢
  induction h with
  | nil => rfl
  | cons first _ ih => rw [List.map_cons, List.map_cons, first.live, ih]

namespace Session.Shows

variable {s : Session} {p : Plain.State} {source source' : List UInt8} {c c' : Compiled}
  {next next' : NodeId}

theorem runAll (sink : Sink) (clock : Nat → Float) (batches : List (Nat × List UInt8)) :
    ∃ p, ((Session.start sink clock).runAll batches).2.Shows p := by
  have after := (Plain.between_start sink clock).runAll batches
  rw [Session.runAll_onEngine] at after
  obtain ⟨-, -, programs, table, counted, loaded, states⟩ := after
  exact ⟨_, programs, table, rfl, loaded, states⟩

/-- What a run does is what its program does without numbers and dead statements. -/
theorem interpret_live (h : s.Shows p) (compiled : compile source s.nextId = (.ok c, next))
    (steps : Nat) :
    Plain.platform.interpret steps ((Stmt.relabelAll .unnumbered c.program).map Stmt.live)
        (p.relabel .unnumbered).live =
      endingWith (fun p => (p.relabel .unnumbered).live)
        (Plain.platform.interpret steps c.program p) := by
  rw [Plain.interpret_live, Plain.interpret_unnumbered h (accepted_of_compile compiled),
    endingWith_endingWith]
  rfl

/-- Programs that differ only behind their `return` statements end alike, with the same output. -/
theorem run_behind (h : s.Shows p) (compiled : compile source s.nextId = (.ok c, next))
    (compiled' : compile source' s.nextId = (.ok c', next')) (varies : c.VariesBehindReturns c')
    (steps : Nat) :
    (s.run steps source').1 = (s.run steps source).1 ∧
      (s.run steps source').2.machine.sink = (s.run steps source).2.machine.sink := by
  obtain ⟨result, after⟩ := h.run compiled steps
  obtain ⟨result', after'⟩ := h.run compiled' steps
  have ends : endingWith (fun p => (p.relabel .unnumbered).live)
        (Plain.platform.interpret steps c'.program p) =
      endingWith (fun p => (p.relabel .unnumbered).live)
        (Plain.platform.interpret steps c.program p) := by
    rw [← h.interpret_live compiled', ← h.interpret_live compiled, varies.live]
  have results := congrArg resultOf ends
  have states := congrArg endState ends
  rw [resultOf_endingWith, resultOf_endingWith] at results
  rw [endState_endingWith, endState_endingWith] at states
  refine ⟨by rw [result, result', results], ?_⟩
  rw [after.sink, after'.sink]
  show (Plain.State.relabel .unnumbered _).live.sink = (Plain.State.relabel .unnumbered _).live.sink
  rw [states]

end Session.Shows

/-! ### What a call yields -/

open Run

/-- The machine when the body of a function begins, in a frame that binds its parameters. -/
def Machine.entering (m : Machine) (f : Closure) (arguments : List Value) : Machine :=
  { m with
    store := m.store.pushFrame (f.decl.bindArguments arguments) (some f.frame)
    env := m.store.frames.next
    depth := m.depth + 1 }

/-- What a call of a function yields: the value of the `return` that its body comes to, or nil if
the body ends. -/
inductive Closure.Yields (f : Closure) (arguments : List Value) (m : Machine) :
    Value → Machine → Prop where
  | returned {n value m'} : Stmt.AllReturn n f.decl.body (m.entering f arguments) value m' →
      Yields f arguments m value m'
  | ended {n m'} : inOrder (execute n) f.decl.body (m.entering f arguments) = .ok .normal m' →
      Yields f arguments m .nil m'

/-- A function that is no initializer, and that completes, yields what its body comes to. -/
theorem callValue_function_ok {n : Nat} {f : FunctionId} {closure : Closure} {paren : Token}
    {arguments : List Value} {m m' : Machine} {value : Value}
    (known : m.store.functions[f]? = some closure) (kind : closure.isInitializer = false)
    (ran : callValue n (.function f) paren arguments m = .ok value m') :
    ∃ m₁, closure.Yields arguments m value m₁ ∧
      m' = { m₁ with env := m.env, depth := m₁.depth - 1 } := by
  cases n with
  | zero => cases ran
  | succ n =>
    rw [callValue_function known] at ran
    split at ran
    · cases ran
    · obtain ⟨m₂, inside, rfl⟩ := oneDeeper_ok ran
      obtain ⟨steps, flow, m₁, body, rfl, -, yields⟩ := invoke_ok inside
      refine ⟨m₁, ?_, rfl⟩
      rw [yields kind]
      cases flow with
      | normal => exact .ended body
      | returned value => exact .returned (Stmt.allReturn_iff.1 body)

/-- What the calls yield that complete from here: the function's own result, and for an initializer
the instance that it is bound to; a class yields the instance that it has made. -/
structure Account.CallsYield (a : Account) : Prop where
  function : ∀ (f : FunctionId) closure, a.machine.store.functions[f]? = some closure →
    closure.isInitializer = false → ∀ steps paren arguments value m',
    callValue steps (.function f) paren arguments a.machine = .ok value m' →
    ∃ m₁, closure.Yields arguments a.machine value m₁ ∧
      m' = { m₁ with env := a.machine.env, depth := m₁.depth - 1 }
  initializer : ∀ (f : FunctionId) closure, a.machine.store.functions[f]? = some closure →
    closure.isInitializer = true → ∃ self, a.history.origins[f]? = some (.bound self) ∧
    ∀ steps paren arguments value m',
      callValue steps (.function f) paren arguments a.machine = .ok value m' →
      value = .object self.object
  cls : ∀ c, c < a.machine.store.classes.size → ∀ steps paren arguments value m',
    callValue steps (.cls c) paren arguments a.machine = .ok value m' →
    value = .object a.machine.store.instances.size

theorem Account.Situated.callsYield {a : Account} (h : a.Situated) (kinds : a.Kinds) :
    a.CallsYield where
  function f closure known kind steps paren arguments value m' ran :=
    callValue_function_ok known kind ran
  initializer f closure known kind := by
    obtain ⟨self, bound⟩ := kinds.bound f closure known kind
    exact ⟨self, bound, fun steps paren arguments value m' ran =>
      h.initializer_yields known bound kind ran⟩
  cls c known steps paren arguments value m' ran :=
    (callValue_cls_ok known (fun f found => h.distinct found) ran).1

/-- In every session, programs that differ only in what stands behind their `return` statements end
alike, whatever number of steps they are given, and have printed the same by then. And wherever the
session comes to, a call that completes yields the value of the `return` that its body comes to, nil
if it comes to none, and the instance if it is a call of an initializer. -/
theorem dead_behind_return (sink : Sink) (clock : Nat → Float)
    (batches : List (Nat × List UInt8)) (source source' : List UInt8) {c c' : Compiled}
    {next next' : NodeId}
    (compiled : compile source ((Session.start sink clock).runAll batches).2.nextId = (.ok c, next))
    (compiled' : compile source' ((Session.start sink clock).runAll batches).2.nextId =
      (.ok c', next')) (varies : c.VariesBehindReturns c') :
    (∀ steps,
      let session := ((Session.start sink clock).runAll batches).2
      let run := session.run steps source
      let run' := session.run steps source'
      run'.1 = run.1 ∧ run'.2.machine.sink = run.2.machine.sink) ∧
    ∀ more,
      let session := (Session.start sink clock).runAll more
      let told := Chronicle.runAll sink clock more
      (told.1 = session.1 ∧ told.2.state.now.machine = session.2.machine) ∧
      ∀ a ∈ told.2.state.accounts, a.CallsYield := by
  obtain ⟨p, shows⟩ := Session.Shows.runAll sink clock batches
  refine ⟨shows.run_behind compiled compiled' varies, fun more => ?_⟩
  obtain ⟨same, moments, -, now⟩ := Chronicle.runAll_told sink clock more
  refine ⟨same, fun a member => ?_⟩
  exact (Chronicle.situated moments now a member).callsYield
    (Chronicle.runAll_kinds sink clock more a member)

/-- A function that returns from a loop, with statements behind that `return`. -/
def behindSource (dead : String) : List UInt8 :=
  ("fun f()\x7bwhile(true)\x7breturn nil;" ++ dead ++ "\x7d\x7dprint f();").toUTF8.data.toList

/-- Its program, with the number of the reference in the last statement. -/
def behindProgram (dead : List Stmt) (id : NodeId) : List Stmt :=
  let f : Token := ⟨.identifier, "f", none, 1⟩
  [.function ⟨f, [], [.loop (.constant .true)
      (.block (.ret ⟨.kwReturn, "return", none, 1⟩ (some (.constant .nil)) :: dead))]⟩,
    .print (.call (.read ⟨id, f⟩) ⟨.rightParen, ")", none, 1⟩ [])]

theorem variesBehindReturns_behind (dead dead' : List Stmt) (id id' : NodeId) :
    (⟨behindProgram dead id, []⟩ : Compiled).VariesBehindReturns ⟨behindProgram dead' id', []⟩ :=
  .cons (.function (.mk (.cons (.loop (.block (.behind _ _))) .nil))) (.cons (.same _) .nil)

/-- A statement that prints the function is dead, and its reference takes a number. -/
theorem dead_behind_return_from_loop :
    let session := ((Session.start .unlimited fun _ => 0).runAll []).2
    let print := Stmt.print (.read ⟨0, ⟨.identifier, "f", none, 1⟩⟩)
    compile (behindSource "print f;") session.nextId = (.ok ⟨behindProgram [print] 1, []⟩, 2) ∧
    compile (behindSource "") session.nextId = (.ok ⟨behindProgram [] 0, []⟩, 1) ∧ ∀ steps,
      let run := session.run steps (behindSource "print f;")
      let run' := session.run steps (behindSource "")
      run'.1 = run.1 ∧ run'.2.machine.sink = run.2.machine.sink := by
  intro session print
  have compiled : compile (behindSource "print f;") session.nextId =
      (.ok ⟨behindProgram [print] 1, []⟩, 2) := by
    show compile (behindSource "print f;") 0 = _
    cbv
  have compiled' : compile (behindSource "") session.nextId =
      (.ok ⟨behindProgram [] 0, []⟩, 1) := by
    show compile (behindSource "") 0 = _
    cbv
  exact ⟨compiled, compiled', (dead_behind_return .unlimited (fun _ => 0) [] _ _ compiled compiled'
    (variesBehindReturns_behind [print] [] 1 0)).1⟩

end Treewalk
