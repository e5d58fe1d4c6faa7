import Treewalk.Proofs.Grammar.Exact
import Treewalk.Proofs.Grammar.Shape
import Treewalk.Proofs.Scope.Relabel

/-!
# Programs on other lines and under other numbers

The grammar does not look at lines, and numbers it only counts on. So tokens on other lines derive
the same tree on other lines, and where the first reference has another number the tree has other
numbers. And two programs one after the other are a program.
-/

namespace Treewalk

/-- Other lines, and all else as it was. -/
def Relabel.lines (f : Nat → Nat) : Relabel := ⟨fun i => i, f, fun name => name⟩

/-- Other numbers and other lines, and all else as it was. -/
def Relabel.renumbered (number : NodeId → NodeId) (f : Nat → Nat) : Relabel :=
  ⟨number, f, fun name => name⟩

/-- From a number on, what follows on a number still follows on it. -/
def Counts (number : NodeId → NodeId) (first : NodeId) : Prop :=
  ∀ i, first ≤ i → number (i + 1) = number i + 1

theorem Relabel.lines_andThen_undo {f g : Nat → Nat} (undo : ∀ line, g (f line) = line) :
    (Relabel.lines f).andThen (.lines g) = .identity := by
  simp only [Relabel.andThen, Relabel.lines, Relabel.identity, undo]

/-- Tokens on other lines. -/
def onLines (f : Nat → Nat) (ts : List Token) : List Token := ts.map (Token.relabel (.lines f))

variable {f : Nat → Nat} {number : NodeId → NodeId}

namespace Counts

variable {i j : NodeId}

theorem self (i : NodeId) : Counts (fun k => k) i := fun _ _ => rfl

theorem later (counts : Counts number i) (le : i ≤ j) : Counts number j :=
  fun k above => counts k (Nat.le_trans le above)

theorem next (counts : Counts number i) : number (i + 1) = number i + 1 := counts i (Nat.le_refl i)

theorem succ (counts : Counts number i) : Counts number (i + 1) := counts.later (Nat.le_succ i)

end Counts

@[simp] theorem onLines_cons (t : Token) (ts : List Token) :
    onLines f (t :: ts) = t.relabel (.lines f) :: onLines f ts := rfl

@[simp] theorem onLines_append (ts us : List Token) :
    onLines f (ts ++ us) = onLines f ts ++ onLines f us := List.map_append

namespace Grammar

variable {choice : ElseRule} {i j : NodeId} {ts : List Token}

theorem relabel_node {r : Rule} {b : BinaryRule} (is : r.binary? = some b) (left right : Expr)
    (operator : Token) (ρ : Relabel) :
    (b.node left operator right).relabel ρ =
      b.node (left.relabel ρ) (operator.relabel ρ) (right.relabel ρ) := by
  cases r <;> cases is <;> rfl

mutual

theorem Derives.renumbered {r : Rule} {e : Expr} {i j : NodeId} {ts : List Token} :
    Derives r i ts e j → Counts number i →
      Derives r (number i) (onLines f ts) (e.relabel (.renumbered number f)) (number j)
  | .single h, counts => .single (h.renumbered counts)
  | .sequence h isComma hs, counts => by
    rw [onLines_append, onLines_cons]
    exact .sequence (h.renumbered counts) isComma (hs.renumbered (counts.later (h.shaped []).le))
  | .operation h, counts => .operation (h.renumbered counts)
  | .assign isName isEqual h, counts => by
    have value := h.renumbered counts.succ
    rw [counts.next] at value
    exact .assign isName isEqual value
  | .set h isDot isName isEqual h', counts => by
    rw [onLines_append, onLines_cons, onLines_cons, onLines_cons]
    exact .set (h.renumbered counts) isDot isName isEqual
      (h'.renumbered (counts.later (h.shaped []).le))
  | .operand is h, counts => .operand is (h.renumbered counts)
  | .binary is h operator h', counts => by
    rw [onLines_append, onLines_cons, relabel_node is]
    exact .binary is (h.renumbered counts) operator (h'.renumbered (counts.later (h.shaped []).le))
  | .unary operator h, counts => .unary operator (h.renumbered counts)
  | .operatorless h, counts => .operatorless (h.renumbered counts)
  | .atom h, counts => .atom (h.renumbered counts)
  | .call h isOpening hs isClosing, counts => by
    rw [onLines_append, onLines_cons, onLines_append]
    exact .call (h.renumbered counts) isOpening
      (hs.renumbered (counts.later (h.shaped []).le)) isClosing
  | .get h isDot isName, counts => by
    rw [onLines_append]
    exact .get (h.renumbered counts) isDot isName
  | .constant is, _ => .constant is
  | .super isSuper isDot isName, counts => by
    rw [counts.next]
    exact .super isSuper isDot isName
  | .this is, counts => by
    rw [counts.next]
    exact .this is
  | .name is, counts => by
    rw [counts.next]
    exact .name is
  | .grouping isOpening h isClosing, counts => by
    rw [onLines_cons, onLines_append]
    exact .grouping isOpening (h.renumbered counts) isClosing

theorem Assignments.renumbered {es : List Expr} {i j : NodeId} {ts : List Token} :
    Assignments i ts es j → Counts number i →
      Assignments (number i) (onLines f ts) (Expr.relabelAll (.renumbered number f) es) (number j)
  | .one h, counts => .one (h.renumbered counts)
  | .more h isComma hs, counts => by
    rw [onLines_append, onLines_cons]
    exact .more (h.renumbered counts) isComma (hs.renumbered (counts.later (h.shaped []).le))

theorem Arguments.renumbered {es : List Expr} {i j : NodeId} {ts : List Token} :
    Arguments i ts es j → Counts number i →
      Arguments (number i) (onLines f ts) (Expr.relabelAll (.renumbered number f) es) (number j)
  | .none, _ => .none
  | .some hs few, counts =>
    .some (hs.renumbered counts) (by rwa [Expr.relabelAll_eq_map, List.length_map])

end

theorem OptionalExpr.renumbered {e : Option Expr} (h : OptionalExpr i ts e j)
    (counts : Counts number i) :
    OptionalExpr (number i) (onLines f ts) (e.map (Expr.relabel (.renumbered number f)))
      (number j) := by
  cases h with
  | none => exact .none
  | some h => exact .some (h.renumbered counts)

theorem VarItem.renumbered {decl : VarDecl} (h : VarItem i ts decl j) (counts : Counts number i) :
    VarItem (number i) (onLines f ts) (decl.relabel (.renumbered number f)) (number j) := by
  cases h with
  | bare isName => exact .bare isName
  | initialized isName isEqual h => exact .initialized isName isEqual (h.renumbered counts)

theorem VarItems.renumbered {decls : List VarDecl} (h : VarItems i ts decls j)
    (counts : Counts number i) :
    VarItems (number i) (onLines f ts) (decls.map (VarDecl.relabel (.renumbered number f)))
      (number j) := by
  induction h with
  | one h => exact .one (h.renumbered counts)
  | more h isComma _ ih =>
    rw [onLines_append, onLines_cons, List.map_cons]
    exact .more (h.renumbered counts) isComma (ih (counts.later (h.shaped []).le))

theorem relabel_varStatement (decls : List VarDecl) (ρ : Relabel) :
    (varStatement decls).relabel ρ = varStatement (decls.map (VarDecl.relabel ρ)) := by
  match decls with
  | [] | [_] | _ :: _ :: _ => rfl

theorem VarDeclaration.renumbered {s : Stmt} (h : VarDeclaration i ts s j)
    (counts : Counts number i) :
    VarDeclaration (number i) (onLines f ts) (s.relabel (.renumbered number f)) (number j) := by
  cases h with
  | mk isVar hs isSemicolon =>
    rw [onLines_cons, onLines_append, relabel_varStatement]
    exact .mk isVar (hs.renumbered counts) isSemicolon

theorem ExpressionStatement.renumbered {s : Stmt} (h : ExpressionStatement i ts s j)
    (counts : Counts number i) :
    ExpressionStatement (number i) (onLines f ts) (s.relabel (.renumbered number f))
      (number j) := by
  cases h with
  | mk h isSemicolon =>
    rw [onLines_append]
    exact .mk (h.renumbered counts) isSemicolon

theorem ForInitializer.renumbered {s : Option Stmt} (h : ForInitializer i ts s j)
    (counts : Counts number i) :
    ForInitializer (number i) (onLines f ts) (s.map (Stmt.relabel (.renumbered number f)))
      (number j) := by
  cases h with
  | none isSemicolon => exact .none isSemicolon
  | var h => exact .var (h.renumbered counts)
  | expression h => exact .expression (h.renumbered counts)

theorem relabel_withIncrement (increment : Option Expr) (body : Stmt) (ρ : Relabel) :
    (withIncrement increment body).relabel ρ =
      withIncrement (increment.map (Expr.relabel ρ)) (body.relabel ρ) := by
  cases increment <;> rfl

theorem relabel_withInitializer (initializer : Option Stmt) (loop : Stmt) (ρ : Relabel) :
    (withInitializer initializer loop).relabel ρ =
      withInitializer (initializer.map (Stmt.relabel ρ)) (loop.relabel ρ) := by
  cases initializer <;> rfl

theorem relabel_condition (condition : Option Expr) (ρ : Relabel) :
    (condition.getD (.constant .true)).relabel ρ =
      (condition.map (Expr.relabel ρ)).getD (.constant .true) := by
  cases condition <;> rfl

theorem Names.renumbered {names : List Token} (h : Names ts names) :
    Names (onLines f ts) (names.map (Token.rename (.renumbered number f))) := by
  induction h with
  | one isName => exact .one isName
  | more isName isComma _ ih => exact .more isName isComma ih

theorem Parameters.renumbered {params : List Token} :
    Parameters ts params →
      Parameters (onLines f ts) (params.map (Token.rename (.renumbered number f)))
  | .none => .none
  | .some hs few => .some hs.renumbered (by rwa [List.length_map])

theorem Superclass.renumbered {superclass : Option Variable} (h : Superclass i ts superclass j)
    (counts : Counts number i) :
    Superclass (number i) (onLines f ts) (superclass.map (Variable.relabel (.renumbered number f)))
      (number j) := by
  cases h with
  | none => exact .none
  | some isLess isName =>
    rw [counts.next]
    exact .some isLess isName

mutual

theorem Declaration.renumbered {s : Stmt} {i j : NodeId} {ts : List Token} :
    Declaration choice i ts s j → Counts number i →
      Declaration choice (number i) (onLines f ts) (s.relabel (.renumbered number f)) (number j)
  | .classDecl isClass isName above isOpening hs isClosing, counts => by
    simp only [onLines_cons, onLines_append]
    exact .classDecl isClass isName (above.renumbered counts) isOpening
      (hs.renumbered (counts.later (above.shaped []).le)) isClosing
  | .function isFun h, counts => .function isFun (h.renumbered counts)
  | .var h, counts => .var (h.renumbered counts)
  | .statement h, counts => .statement (h.renumbered counts)

theorem Statement.renumbered {s : Stmt} {isOpen : Bool} {i j : NodeId} {ts : List Token} :
    Statement choice i ts s isOpen j → Counts number i →
      Statement choice (number i) (onLines f ts) (s.relabel (.renumbered number f)) isOpen
        (number j)
  | .expression h, counts => .expression (h.renumbered counts)
  | .forLoop isFor isOpening hinitializer hcondition isSemicolon hincrement isClosing hbody,
      counts => by
    have atCondition := counts.later (hinitializer.shaped []).le
    have atIncrement := atCondition.later (hcondition.shaped []).le
    simp only [onLines_cons, onLines_append]
    rw [relabel_withInitializer, Stmt.relabel, relabel_condition, relabel_withIncrement]
    exact .forLoop isFor isOpening (hinitializer.renumbered counts)
      (hcondition.renumbered atCondition) isSemicolon (hincrement.renumbered atIncrement) isClosing
      (hbody.renumbered (atIncrement.later (hincrement.shaped []).le))
  | .branch isIf isOpening hcondition isClosing hthen, counts => by
    simp only [onLines_cons, onLines_append]
    exact .branch isIf isOpening (hcondition.renumbered counts) isClosing
      (hthen.renumbered (counts.later (hcondition.shaped []).le))
  | .branchElse isIf isOpening hcondition isClosing hthen closed isElse helse, counts => by
    have atThen := counts.later (hcondition.shaped []).le
    simp only [onLines_cons, onLines_append]
    exact .branchElse isIf isOpening (hcondition.renumbered counts) isClosing
      (hthen.renumbered atThen) closed isElse
      (helse.renumbered (atThen.later (hthen.shaped.1 []).le))
  | .print isPrint h isSemicolon, counts => by
    simp only [onLines_cons, onLines_append]
    exact .print isPrint (h.renumbered counts) isSemicolon
  | .ret isReturn h isSemicolon, counts => by
    simp only [onLines_cons, onLines_append]
    exact .ret isReturn (h.renumbered counts) isSemicolon
  | .loop isWhile isOpening hcondition isClosing hbody, counts => by
    simp only [onLines_cons, onLines_append]
    exact .loop isWhile isOpening (hcondition.renumbered counts) isClosing
      (hbody.renumbered (counts.later (hcondition.shaped []).le))
  | .block isOpening h, counts => .block isOpening (h.renumbered counts)

theorem Block.renumbered {body : List Stmt} {i j : NodeId} {ts : List Token} :
    Block choice i ts body j → Counts number i →
      Block choice (number i) (onLines f ts) (Stmt.relabelAll (.renumbered number f) body)
        (number j)
  | .mk hs isClosing, counts => by
    rw [onLines_append]
    exact .mk (hs.renumbered counts) isClosing

theorem Declarations.renumbered {body : List Stmt} {i j : NodeId} {ts : List Token} :
    Declarations choice i ts body j → Counts number i →
      Declarations choice (number i) (onLines f ts) (Stmt.relabelAll (.renumbered number f) body)
        (number j)
  | .nil, _ => .nil
  | .cons h hs, counts => by
    rw [onLines_append]
    exact .cons (h.renumbered counts) (hs.renumbered (counts.later (h.shaped.1 []).le))

theorem Routine.renumbered {decl : FunctionDecl} {i j : NodeId} {ts : List Token} :
    Routine choice i ts decl j → Counts number i →
      Routine choice (number i) (onLines f ts) (decl.relabel (.renumbered number f)) (number j)
  | .mk isName isOpening hparams isClosing isBrace hbody, counts => by
    simp only [onLines_cons, onLines_append]
    exact .mk isName isOpening hparams.renumbered isClosing isBrace (hbody.renumbered counts)

theorem Methods.renumbered {decls : List FunctionDecl} {i j : NodeId} {ts : List Token} :
    Methods choice i ts decls j → Counts number i →
      Methods choice (number i) (onLines f ts)
        (FunctionDecl.relabelAll (.renumbered number f) decls) (number j)
  | .nil, _ => .nil
  | .cons h hs, counts => by
    rw [onLines_append]
    exact .cons (h.renumbered counts) (hs.renumbered (counts.later (h.shaped.2.1 []).le))

end

/-- A program on other lines. -/
theorem Declarations.lines {body : List Stmt} (h : Declarations choice i ts body j) :
    Declarations choice i (onLines f ts) (Stmt.relabelAll (.lines f) body) j :=
  h.renumbered (Counts.self i)

/-- Two programs one after the other are a program. -/
theorem Declarations.append {body body' : List Stmt} {i j k : NodeId} {ts us : List Token} :
    Declarations choice i ts body j → Declarations choice j us body' k →
      Declarations choice i (ts ++ us) (body ++ body') k
  | .nil, h' => h'
  | .cons first rest, h' => by
    rw [List.append_assoc]
    exact .cons first (rest.append h')

end Grammar

end Treewalk
