import Treewalk.Proofs.Grammar.Positions

/-!
# What an assignment is made from

The target of an assignment is read as an operand before the equals sign is seen. No operand is an
assignment, whatever operators, calls and properties it is made of. So an assignment to a variable
comes from an operand that was read as this variable, and it has the number that was drawn for it.
-/

namespace Treewalk

/-- The expression is an assignment to a variable. -/
def Expr.IsAssign : Expr → Prop
  | .assign .. => True
  | _ => False

namespace Parser

variable {α β : Type} {p : Parser α} {f : α → Parser β} {c c' : Cursor} {good : α → Prop}
  {fine : β → Prop}

theorem bind_eq_ok {b : β} (ran : (p >>= f) c = .ok b c') :
    ∃ a d, p c = .ok a d ∧ f a d = .ok b c' := by
  cases first : p c with
  | ok a d => exact ⟨a, d, rfl, (bind_of_ok first).symm.trans ran⟩
  | error e d => cases (bind_of_error first).symm.trans ran

/-- All that the parser returns is good. -/
def Returns (good : α → Prop) (p : Parser α) : Prop := ∀ c a c', p c = .ok a c' → good a

namespace Returns

theorem pure {a : α} (h : good a) : Returns good (pure a) := by
  intro c a' c' ran
  cases ran
  exact h

theorem throw (e : SyntaxError) : Returns good (throw e : Parser α) := by
  intro c a c' ran
  cases ran

theorem bind (h : Returns good p) (next : ∀ a, good a → Returns fine (f a)) :
    Returns fine (p >>= f) := by
  intro c b c' ran
  obtain ⟨a, d, first, second⟩ := bind_eq_ok ran
  exact next a (h c a d first) d b c' second

/-- What is read first does not matter. -/
theorem behind (next : ∀ a, Returns fine (f a)) : Returns fine (p >>= f) := by
  intro c b c' ran
  obtain ⟨a, d, -, second⟩ := bind_eq_ok ran
  exact next a d b c' second

theorem stop (cause : SyntaxError.Cause) : Returns good (stop cause : Parser α) :=
  behind fun t => throw ⟨t, cause⟩

end Returns

/-- The expression is no assignment to a variable. -/
abbrev NoAssign (e : Expr) : Prop := ¬ e.IsAssign

/-- The parsers of operands, if their recursion is at most `n` deep. -/
structure OperandsPlain (n : Nat) : Prop where
  operation : ∀ level, Returns NoAssign (operation n level)
  operations : ∀ level left, NoAssign left → Returns NoAssign (operations n level left)
  unary : Returns NoAssign (unary n)
  call : Returns NoAssign (call n)
  calls : ∀ callee, NoAssign callee → Returns NoAssign (calls n callee)
  primary : Returns NoAssign (primary n)

theorem combine_plain (level : Level) (left : Expr) (operator : Token) (right : Expr) :
    NoAssign (level.combine left operator right) := by
  cases level <;> exact id

section Step

variable {n : Nat} (ih : OperandsPlain n)
include ih

theorem operation_plain (level : Option Level) : Returns NoAssign (operation (n + 1) level) := by
  cases level with
  | none => exact ih.unary
  | some level =>
    rw [operation]
    exact (ih.operation level.tighter).bind fun left plain => ih.operations level left plain

theorem operations_plain (level : Level) (left : Expr) (plain : NoAssign left) :
    Returns NoAssign (operations (n + 1) level left) := by
  rw [operations]
  refine .behind fun o => ?_
  cases o with
  | none => exact .pure plain
  | some operator =>
    exact .behind fun right => ih.operations level _ (combine_plain level left operator right)

theorem unary_plain : Returns NoAssign (unary (n + 1)) := by
  rw [unary]
  refine .behind fun o => ?_
  cases o with
  | none => exact ih.call
  | some operator => exact .behind fun right => .pure id

theorem call_plain : Returns NoAssign (call (n + 1)) := by
  rw [call]
  exact ih.primary.bind fun callee plain => ih.calls callee plain

theorem calls_plain (callee : Expr) (plain : NoAssign callee) :
    Returns NoAssign (calls (n + 1) callee) := by
  rw [calls]
  refine .behind fun o => ?_
  cases o with
  | none => exact .pure plain
  | some mark =>
    dsimp only
    split
    · exact .behind fun name => ih.calls _ id
    · exact .behind fun values => .behind fun paren => ih.calls _ id

omit ih in
theorem primary_plain : Returns NoAssign (primary (n + 1)) := by
  rw [primary]
  refine .behind fun t => ?_
  split
  iterate 3 exact .behind fun _ => .pure id
  iterate 2
    refine .behind fun _ => ?_
    split
    · exact .pure id
    · exact .pure id
    · exact .throw _
  · exact .behind fun _ => .behind fun _ => .behind fun _ => .behind fun _ => .pure id
  · exact .behind fun _ => .behind fun _ => .pure id
  · exact .behind fun _ => .behind fun _ => .pure id
  · exact .behind fun _ => .behind fun _ => .behind fun _ => .pure id
  · exact .stop _

end Step

theorem operandsPlain (n : Nat) : OperandsPlain n := by
  induction n with
  | zero =>
    constructor <;> intros <;> exact .stop .unfinished
  | succ n ih =>
    exact ⟨operation_plain ih, operations_plain ih, unary_plain ih, call_plain ih, calls_plain ih,
      primary_plain⟩

variable {n : Nat} {id : NodeId} {name : Token} {value value' : Expr}

theorem assigned?_eq_assign {target : Expr}
    (h : target.assigned? value = some (.assign id name value')) :
    target = .read ⟨id, name⟩ ∧ value' = value := by
  cases target <;> cases h
  exact ⟨rfl, rfl⟩

/-- An assignment to a variable is read where an operand is read that is this variable, with an
equals sign and a value behind it. It has the number of the variable. -/
theorem assignment_eq_ok_iff :
    assignment (n + 1) c = .ok (.assign id name value) c' ↔
      ∃ equals d d', operation n (some .or) c = .ok (.read ⟨id, name⟩) d ∧
        accept .equal d = .ok (some equals) d' ∧ assignment n d' = .ok value c' := by
  rw [assignment]
  constructor
  · intro ran
    obtain ⟨target, d, read, ran⟩ := bind_eq_ok ran
    obtain ⟨o, d', sign, ran⟩ := bind_eq_ok ran
    have plain := (operandsPlain n).operation _ c target d read
    cases o with
    | none =>
      cases ran
      exact absurd trivial plain
    | some equals =>
      obtain ⟨value', d'', assigned, ran⟩ := bind_eq_ok ran
      cases made : target.assigned? value' with
      | some e =>
        simp only [made] at ran
        cases ran
        obtain ⟨rfl, rfl⟩ := assigned?_eq_assign made
        exact ⟨equals, d, d', read, sign, assigned⟩
      | none =>
        simp only [made] at ran
        obtain ⟨_, _, -, ran⟩ := bind_eq_ok ran
        cases ran
        exact absurd trivial plain
  · rintro ⟨equals, d, d', read, sign, assigned⟩
    rw [bind_of_ok read, bind_of_ok sign]
    exact bind_of_ok assigned

end Parser

end Treewalk
