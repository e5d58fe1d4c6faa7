import Treewalk.Proofs.Run.Carrier
import Treewalk.Proofs.Scope.Returns

/-!
# The `return` that a run comes to

`Stmt.Returns` says of a run of a statement that it executes a `return` somewhere inside, and with
which value: all that was run before it ended normally, and each statement around it passes it on.
A run ends with a `return` exactly if it comes to one.
-/

namespace Treewalk

open Run

/-- The machine inside a block. -/
def Machine.inBlock (m : Machine) : Machine :=
  { m with store := m.store.pushFrame ∅ (some m.env), env := m.store.frames.next }

mutual

/-- The run of a statement from the first machine executes a `return` with the value, at the second
machine. -/
inductive Stmt.Returns : Nat → Stmt → Machine → Value → Machine → Prop where
  | bare {n m keyword} : Returns (n + 1) (.ret keyword none) m .nil m
  | value {n m m' keyword e value} : evaluate n e m = .ok value m' →
      Returns (n + 1) (.ret keyword (some e)) m value m'
  | block {n m m' body value} : Stmt.AllReturn n body m.inBlock value m' →
      Returns (n + 1) (.block body) m value { m' with env := m.env }
  | thenBranch {n m m₁ m' condition thenBranch elseBranch a value} :
      evaluate n condition m = .ok a m₁ → a.truthy = true → Returns n thenBranch m₁ value m' →
      Returns (n + 1) (.branch condition thenBranch elseBranch) m value m'
  | elseBranch {n m m₁ m' condition thenBranch elseBranch a value} :
      evaluate n condition m = .ok a m₁ → a.truthy = false → Returns n elseBranch m₁ value m' →
      Returns (n + 1) (.branch condition thenBranch (some elseBranch)) m value m'
  | loop {n m m' condition body value} : Stmt.LoopReturns n condition body m value m' →
      Returns (n + 1) (.loop condition body) m value m'

/-- Of statements in order one executes a `return`, and those before it end normally. -/
inductive Stmt.AllReturn : Nat → List Stmt → Machine → Value → Machine → Prop where
  | here {n m m' s rest value} : Stmt.Returns n s m value m' → AllReturn n (s :: rest) m value m'
  | later {n m m₁ m' s rest value} : execute n s m = .ok .normal m₁ →
      AllReturn n rest m₁ value m' → AllReturn n (s :: rest) m value m'

/-- In one of its rounds the body of a loop executes a `return`. -/
inductive Stmt.LoopReturns : Nat → Expr → Stmt → Machine → Value → Machine → Prop where
  | now {n m m₁ m' condition body a value} : evaluate n condition m = .ok a m₁ →
      a.truthy = true → Stmt.Returns n body m₁ value m' →
      LoopReturns (n + 1) condition body m value m'
  | again {n m m₁ m₂ m' condition body a value} : evaluate n condition m = .ok a m₁ →
      a.truthy = true → execute n body m₁ = .ok .normal m₂ →
      LoopReturns n condition body m₂ value m' → LoopReturns (n + 1) condition body m value m'

end

/-- The value that a call yields whose body has ended. -/
def Flow.yielded : Flow → Value
  | .normal => .nil
  | .returned value => value

theorem bind_eq_ok {α β : Type} {p : Run α} {f : α → Run β} {m m' : Machine} {b : β}
    (ran : (p >>= f) m = .ok b m') : ∃ a m₁, p m = .ok a m₁ ∧ f a m₁ = .ok b m' := by
  cases first : p m with
  | ok a m₁ => exact ⟨a, m₁, rfl, (bind_of_ok first).symm.trans ran⟩
  | error e m₁ => cases (bind_of_error first).symm.trans ran

theorem inFrame_eq_ok {α : Type} {f : FrameId} {p : Run α} {m m' : Machine} {a : α}
    (ran : inFrame f p m = .ok a m') :
    ∃ m₁, p { m with env := f } = .ok a m₁ ∧ m' = { m₁ with env := m.env } := by
  unfold inFrame at ran
  cases inside : p { m with env := f } with
  | ok a' m₁ =>
    rw [inside] at ran
    cases ran
    exact ⟨m₁, rfl, rfl⟩
  | error e m₁ =>
    rw [inside] at ran
    cases ran

/-- Runs of `n` steps that return have come to a `return`. -/
structure ComesToReturn (n : Nat) : Prop where
  execute : ∀ {s m value m'}, execute n s m = .ok (.returned value) m' → s.Returns n m value m'
  repeatWhile : ∀ {condition body m value m'},
    repeatWhile n condition body m = .ok (.returned value) m' →
    Stmt.LoopReturns n condition body m value m'

namespace ComesToReturn

variable {n : Nat} (ih : ComesToReturn n) {m m' : Machine} {value : Value}
include ih

theorem inOrder {body : List Stmt}
    (ran : Run.inOrder (Treewalk.execute n) body m = .ok (.returned value) m') :
    Stmt.AllReturn n body m value m' := by
  induction body generalizing m with
  | nil => cases ran
  | cons s rest others =>
    obtain ⟨flow, m₁, first, ran⟩ := bind_eq_ok ran
    cases flow with
    | normal => exact .later first (others ran)
    | returned v =>
      cases ran
      exact .here (ih.execute first)

theorem execute_succ {s : Stmt} (ran : Treewalk.execute (n + 1) s m = .ok (.returned value) m') :
    s.Returns (n + 1) m value m' := by
  cases s with
  | block body =>
    obtain ⟨frame, m₁, made, ran⟩ := bind_eq_ok ran
    cases made
    obtain ⟨m₂, inside, rfl⟩ := inFrame_eq_ok ran
    exact .block (ih.inOrder inside)
  | branch condition thenBranch elseBranch =>
    obtain ⟨a, m₁, tested, ran⟩ := bind_eq_ok ran
    split at ran
    · next holds => exact .thenBranch tested holds (ih.execute ran)
    · next fails =>
      cases elseBranch with
      | none => cases ran
      | some elseBranch =>
        exact .elseBranch tested (Bool.eq_false_iff.2 fails) (ih.execute ran)
  | ret keyword e =>
    cases e with
    | none =>
      cases ran
      exact .bare
    | some e =>
      rw [Treewalk.execute] at ran
      simp only [map_eq_pure_bind] at ran
      obtain ⟨a, m₁, evaluated, ran⟩ := bind_eq_ok ran
      cases ran
      exact .value evaluated
  | loop condition body => exact .loop (ih.repeatWhile ran)
  | classDecl | expression | function | print =>
    -- Behind what these do they end normally.
    simp only [Treewalk.execute] at ran
    repeat' obtain ⟨_, _, -, ran⟩ := bind_eq_ok ran
    cases ran
  | var decl => cases declareVariable_normal n decl m _ m' ran
  | varList decls =>
    cases Normal.inOrder (fun decl _ => declareVariable_normal n decl) m _ m' ran

theorem repeatWhile_succ {condition : Expr} {body : Stmt}
    (ran : Treewalk.repeatWhile (n + 1) condition body m = .ok (.returned value) m') :
    Stmt.LoopReturns (n + 1) condition body m value m' := by
  obtain ⟨a, m₁, tested, ran⟩ := bind_eq_ok ran
  split at ran
  · next holds =>
    obtain ⟨flow, m₂, first, ran⟩ := bind_eq_ok ran
    cases flow with
    | normal => exact .again tested holds first (ih.repeatWhile ran)
    | returned v =>
      cases ran
      exact .now tested holds (ih.execute first)
  · cases ran

omit ih in
theorem all (n : Nat) : ComesToReturn n := by
  induction n with
  | zero => exact ⟨nofun, nofun⟩
  | succ n ih => exact ⟨ih.execute_succ, ih.repeatWhile_succ⟩

end ComesToReturn

theorem inFrame_of_ok {α : Type} {f : FrameId} {p : Run α} {m m₁ : Machine} {a : α}
    (ran : p { m with env := f } = .ok a m₁) : inFrame f p m = .ok a { m₁ with env := m.env } := by
  unfold inFrame
  rw [ran]

mutual

/-- A statement that executes a `return` passes it on. -/
theorem Stmt.Returns.ran {n : Nat} {s : Stmt} {m m' : Machine} {value : Value} :
    s.Returns n m value m' → execute n s m = .ok (.returned value) m'
  | .bare => rfl
  | .value evaluated => by
    simp only [execute, map_eq_pure_bind]
    exact bind_of_ok evaluated
  | .block inside => inFrame_of_ok (f := m.store.frames.next) inside.ran
  | .thenBranch tested holds inside => by
    refine (bind_of_ok tested).trans ?_
    rw [if_pos holds]
    exact inside.ran
  | .elseBranch tested fails inside => by
    refine (bind_of_ok tested).trans ?_
    rw [if_neg (Bool.eq_false_iff.1 fails)]
    exact inside.ran
  | .loop rounds => rounds.ran

theorem Stmt.AllReturn.ran {n : Nat} {body : List Stmt} {m m' : Machine} {value : Value} :
    Stmt.AllReturn n body m value m' → inOrder (execute n) body m = .ok (.returned value) m'
  | .here inside => bind_of_ok inside.ran
  | .later first rest => (bind_of_ok first).trans rest.ran

theorem Stmt.LoopReturns.ran {n : Nat} {condition : Expr} {body : Stmt} {m m' : Machine}
    {value : Value} : Stmt.LoopReturns n condition body m value m' →
      repeatWhile n condition body m = .ok (.returned value) m'
  | .now tested holds inside => by
    refine (bind_of_ok tested).trans ?_
    rw [if_pos holds]
    exact bind_of_ok inside.ran
  | .again tested holds first rest => by
    refine (bind_of_ok tested).trans ?_
    rw [if_pos holds]
    exact (bind_of_ok first).trans rest.ran

end

/-- A body of statements returns exactly if it comes to a `return` that is executed. -/
theorem Stmt.allReturn_iff {n : Nat} {body : List Stmt} {m m' : Machine} {value : Value} :
    inOrder (execute n) body m = .ok (.returned value) m' ↔ Stmt.AllReturn n body m value m' :=
  ⟨(ComesToReturn.all n).inOrder, Stmt.AllReturn.ran⟩

end Treewalk
