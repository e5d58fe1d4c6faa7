import Treewalk.Proofs.Grammar.Lines
import Treewalk.Proofs.Grammar.Ordered

/-!
# Tokens that know their places

Equal tokens can stand at several places, and then a tree does not tell which of them a node was
made from. It does if each token has its place for its line. The grammar does not look at lines:
tokens derive a tree if and only if they do on other lines, and it is the same tree on other lines.
So from the tree of the tokens that know their places one reads off in which order the references
of a program stand in its source.
-/

namespace Treewalk

variable {f : Nat → Nat}

theorem onLines_eq_cons {t : Token} {ts us : List Token} (h : onLines f us = t :: ts) :
    ∃ u us', us = u :: us' ∧ u.relabel (.lines f) = t ∧ onLines f us' = ts :=
  List.map_eq_cons_iff.1 h

theorem onLines_eq_append {ts us vs : List Token} (h : onLines f us = ts ++ vs) :
    ∃ us' us'', us = us' ++ us'' ∧ onLines f us' = ts ∧ onLines f us'' = vs :=
  List.map_eq_append_iff.1 h

theorem onLines_eq_singleton {t : Token} {us : List Token} (h : onLines f us = [t]) :
    ∃ u, us = [u] ∧ u.relabel (.lines f) = t :=
  List.map_eq_singleton_iff.1 h

theorem onLines_eq_nil {us : List Token} (h : onLines f us = []) : us = [] :=
  List.map_eq_nil_iff.1 h

namespace Grammar

variable {choice : ElseRule} {i j : NodeId} {ts us : List Token}

mutual

theorem Derives.of_onLines {r : Rule} {e : Expr} {i j : NodeId} {ts us : List Token} :
    Derives r i ts e j → onLines f us = ts →
      ∃ e', Derives r i us e' j ∧ e'.relabel (.lines f) = e
  | .single h, whole => by
    obtain ⟨e, derived, rfl⟩ := h.of_onLines whole
    exact ⟨e, .single derived, rfl⟩
  | .sequence h isComma hs, whole => by
    obtain ⟨us, _, rfl, same, split⟩ := onLines_eq_append whole
    obtain ⟨comma, vs, rfl, rfl, same'⟩ := onLines_eq_cons split
    obtain ⟨e, first, rfl⟩ := h.of_onLines same
    obtain ⟨es, rest, rfl⟩ := hs.of_onLines same'
    exact ⟨_, .sequence first isComma rest, rfl⟩
  | .operation h, whole => by
    obtain ⟨e, derived, rfl⟩ := h.of_onLines whole
    exact ⟨e, .operation derived, rfl⟩
  | .assign isName isEqual h, whole => by
    obtain ⟨name, _, rfl, rfl, split⟩ := onLines_eq_cons whole
    obtain ⟨equals, us, rfl, rfl, same⟩ := onLines_eq_cons split
    obtain ⟨value, derived, rfl⟩ := h.of_onLines same
    exact ⟨_, .assign isName isEqual derived, rfl⟩
  | .set h isDot isName isEqual h', whole => by
    obtain ⟨us, _, rfl, same, split⟩ := onLines_eq_append whole
    obtain ⟨dot, _, rfl, rfl, split'⟩ := onLines_eq_cons split
    obtain ⟨name, _, rfl, rfl, split''⟩ := onLines_eq_cons split'
    obtain ⟨equals, vs, rfl, rfl, same'⟩ := onLines_eq_cons split''
    obtain ⟨object, left, rfl⟩ := h.of_onLines same
    obtain ⟨value, right, rfl⟩ := h'.of_onLines same'
    exact ⟨_, .set left isDot isName isEqual right, rfl⟩
  | .operand is h, whole => by
    obtain ⟨e, derived, rfl⟩ := h.of_onLines whole
    exact ⟨e, .operand is derived, rfl⟩
  | .binary is h isOperator h', whole => by
    obtain ⟨us, _, rfl, same, split⟩ := onLines_eq_append whole
    obtain ⟨operator, vs, rfl, rfl, same'⟩ := onLines_eq_cons split
    obtain ⟨e, left, rfl⟩ := h.of_onLines same
    obtain ⟨e', right, rfl⟩ := h'.of_onLines same'
    exact ⟨_, .binary is left isOperator right, relabel_node is e e' operator _⟩
  | .unary isOperator h, whole => by
    obtain ⟨operator, us, rfl, rfl, same⟩ := onLines_eq_cons whole
    obtain ⟨e, derived, rfl⟩ := h.of_onLines same
    exact ⟨_, .unary isOperator derived, rfl⟩
  | .operatorless h, whole => by
    obtain ⟨e, derived, rfl⟩ := h.of_onLines whole
    exact ⟨e, .operatorless derived, rfl⟩
  | .atom h, whole => by
    obtain ⟨e, derived, rfl⟩ := h.of_onLines whole
    exact ⟨e, .atom derived, rfl⟩
  | .call h isOpening hs isClosing, whole => by
    obtain ⟨us, _, rfl, same, split⟩ := onLines_eq_append whole
    obtain ⟨opening, _, rfl, rfl, split'⟩ := onLines_eq_cons split
    obtain ⟨vs, _, rfl, same', last⟩ := onLines_eq_append split'
    obtain ⟨closing, rfl, rfl⟩ := onLines_eq_singleton last
    obtain ⟨e, callee, rfl⟩ := h.of_onLines same
    obtain ⟨es, values, rfl⟩ := hs.of_onLines same'
    exact ⟨_, .call callee isOpening values isClosing, rfl⟩
  | .get h isDot isName, whole => by
    obtain ⟨us, _, rfl, same, split⟩ := onLines_eq_append whole
    obtain ⟨dot, _, rfl, rfl, last⟩ := onLines_eq_cons split
    obtain ⟨name, rfl, rfl⟩ := onLines_eq_singleton last
    obtain ⟨e, object, rfl⟩ := h.of_onLines same
    exact ⟨_, .get object isDot isName, rfl⟩
  | .constant is, whole => by
    obtain ⟨t, rfl, rfl⟩ := onLines_eq_singleton whole
    exact ⟨_, .constant is, rfl⟩
  | .super isSuper isDot isName, whole => by
    obtain ⟨keyword, _, rfl, rfl, split⟩ := onLines_eq_cons whole
    obtain ⟨dot, _, rfl, rfl, last⟩ := onLines_eq_cons split
    obtain ⟨method, rfl, rfl⟩ := onLines_eq_singleton last
    exact ⟨_, .super isSuper isDot isName, rfl⟩
  | .this is, whole => by
    obtain ⟨keyword, rfl, rfl⟩ := onLines_eq_singleton whole
    exact ⟨_, .this is, rfl⟩
  | .name is, whole => by
    obtain ⟨name, rfl, rfl⟩ := onLines_eq_singleton whole
    exact ⟨_, .name is, rfl⟩
  | .grouping isOpening h isClosing, whole => by
    obtain ⟨opening, _, rfl, rfl, split⟩ := onLines_eq_cons whole
    obtain ⟨us, _, rfl, same, last⟩ := onLines_eq_append split
    obtain ⟨closing, rfl, rfl⟩ := onLines_eq_singleton last
    obtain ⟨e, inner, rfl⟩ := h.of_onLines same
    exact ⟨_, .grouping isOpening inner isClosing, rfl⟩

theorem Assignments.of_onLines {es : List Expr} {i j : NodeId} {ts us : List Token} :
    Assignments i ts es j → onLines f us = ts →
      ∃ es', Assignments i us es' j ∧ Expr.relabelAll (.lines f) es' = es
  | .one h, whole => by
    obtain ⟨e, derived, rfl⟩ := h.of_onLines whole
    exact ⟨_, .one derived, rfl⟩
  | .more h isComma hs, whole => by
    obtain ⟨us, _, rfl, same, split⟩ := onLines_eq_append whole
    obtain ⟨comma, vs, rfl, rfl, same'⟩ := onLines_eq_cons split
    obtain ⟨e, first, rfl⟩ := h.of_onLines same
    obtain ⟨es, rest, rfl⟩ := hs.of_onLines same'
    exact ⟨_, .more first isComma rest, rfl⟩

theorem Arguments.of_onLines {es : List Expr} {i j : NodeId} {ts us : List Token} :
    Arguments i ts es j → onLines f us = ts →
      ∃ es', Arguments i us es' j ∧ Expr.relabelAll (.lines f) es' = es
  | .none, whole => by
    obtain rfl := onLines_eq_nil whole
    exact ⟨[], .none, rfl⟩
  | .some hs few, whole => by
    obtain ⟨es, derived, rfl⟩ := hs.of_onLines whole
    rw [Expr.relabelAll_eq_map, List.length_map] at few
    exact ⟨es, .some derived few, rfl⟩

end

theorem OptionalExpr.of_onLines {o : Option Expr} (h : OptionalExpr i ts o j)
    (whole : onLines f us = ts) :
    ∃ o', OptionalExpr i us o' j ∧ o'.map (Expr.relabel (.lines f)) = o := by
  cases h with
  | none =>
    obtain rfl := onLines_eq_nil whole
    exact ⟨_, .none, rfl⟩
  | some h =>
    obtain ⟨e, derived, rfl⟩ := h.of_onLines whole
    exact ⟨_, .some derived, rfl⟩

theorem VarItem.of_onLines {decl : VarDecl} (h : VarItem i ts decl j)
    (whole : onLines f us = ts) :
    ∃ decl', VarItem i us decl' j ∧ decl'.relabel (.lines f) = decl := by
  cases h with
  | bare isName =>
    obtain ⟨name, rfl, rfl⟩ := onLines_eq_singleton whole
    exact ⟨_, .bare isName, rfl⟩
  | initialized isName isEqual h =>
    obtain ⟨name, _, rfl, rfl, split⟩ := onLines_eq_cons whole
    obtain ⟨equals, us, rfl, rfl, same⟩ := onLines_eq_cons split
    obtain ⟨value, derived, rfl⟩ := h.of_onLines same
    exact ⟨_, .initialized isName isEqual derived, rfl⟩

theorem VarItems.of_onLines {decls : List VarDecl} (h : VarItems i ts decls j)
    (whole : onLines f us = ts) :
    ∃ decls', VarItems i us decls' j ∧ decls'.map (VarDecl.relabel (.lines f)) = decls := by
  induction h generalizing us with
  | one h =>
    obtain ⟨decl, item, rfl⟩ := h.of_onLines whole
    exact ⟨[decl], .one item, rfl⟩
  | more h isComma _ ih =>
    obtain ⟨us, _, rfl, same, split⟩ := onLines_eq_append whole
    obtain ⟨comma, vs, rfl, rfl, same'⟩ := onLines_eq_cons split
    obtain ⟨decl, item, rfl⟩ := h.of_onLines same
    obtain ⟨decls, items, rfl⟩ := ih same'
    exact ⟨decl :: decls, .more item isComma items, rfl⟩

theorem VarDeclaration.of_onLines {s : Stmt} (h : VarDeclaration i ts s j)
    (whole : onLines f us = ts) :
    ∃ s', VarDeclaration i us s' j ∧ s'.relabel (.lines f) = s := by
  cases h with
  | mk isVar hs isSemicolon =>
    obtain ⟨keyword, _, rfl, rfl, split⟩ := onLines_eq_cons whole
    obtain ⟨us, _, rfl, same, last⟩ := onLines_eq_append split
    obtain ⟨semicolon, rfl, rfl⟩ := onLines_eq_singleton last
    obtain ⟨decls, items, rfl⟩ := hs.of_onLines same
    exact ⟨_, .mk isVar items isSemicolon, relabel_varStatement decls _⟩

theorem ExpressionStatement.of_onLines {s : Stmt} (h : ExpressionStatement i ts s j)
    (whole : onLines f us = ts) :
    ∃ s', ExpressionStatement i us s' j ∧ s'.relabel (.lines f) = s := by
  cases h with
  | mk h isSemicolon =>
    obtain ⟨us, _, rfl, same, last⟩ := onLines_eq_append whole
    obtain ⟨semicolon, rfl, rfl⟩ := onLines_eq_singleton last
    obtain ⟨e, derived, rfl⟩ := h.of_onLines same
    exact ⟨_, .mk derived isSemicolon, rfl⟩

theorem ForInitializer.of_onLines {o : Option Stmt} (h : ForInitializer i ts o j)
    (whole : onLines f us = ts) :
    ∃ o', ForInitializer i us o' j ∧ o'.map (Stmt.relabel (.lines f)) = o := by
  cases h with
  | none isSemicolon =>
    obtain ⟨semicolon, rfl, rfl⟩ := onLines_eq_singleton whole
    exact ⟨_, .none isSemicolon, rfl⟩
  | var h =>
    obtain ⟨s, derived, rfl⟩ := h.of_onLines whole
    exact ⟨_, .var derived, rfl⟩
  | expression h =>
    obtain ⟨s, derived, rfl⟩ := h.of_onLines whole
    exact ⟨_, .expression derived, rfl⟩

theorem Names.of_onLines {names : List Token} (h : Names ts names) (whole : onLines f us = ts) :
    ∃ names', Names us names' ∧ names'.map (Token.rename (.lines f)) = names := by
  induction h generalizing us with
  | one isName =>
    obtain ⟨name, rfl, rfl⟩ := onLines_eq_singleton whole
    exact ⟨[name], .one isName, rfl⟩
  | more isName isComma _ ih =>
    obtain ⟨name, _, rfl, rfl, split⟩ := onLines_eq_cons whole
    obtain ⟨comma, us, rfl, rfl, same⟩ := onLines_eq_cons split
    obtain ⟨names, others, rfl⟩ := ih same
    exact ⟨name :: names, .more isName isComma others, rfl⟩

theorem Parameters.of_onLines {params : List Token} (h : Parameters ts params)
    (whole : onLines f us = ts) :
    ∃ params', Parameters us params' ∧ params'.map (Token.rename (.lines f)) = params := by
  cases h with
  | none =>
    obtain rfl := onLines_eq_nil whole
    exact ⟨[], .none, rfl⟩
  | some hs few =>
    obtain ⟨names, derived, rfl⟩ := hs.of_onLines whole
    rw [List.length_map] at few
    exact ⟨names, .some derived few, rfl⟩

theorem Superclass.of_onLines {o : Option Variable} (h : Superclass i ts o j)
    (whole : onLines f us = ts) :
    ∃ o', Superclass i us o' j ∧ o'.map (Variable.relabel (.lines f)) = o := by
  cases h with
  | none =>
    obtain rfl := onLines_eq_nil whole
    exact ⟨_, .none, rfl⟩
  | some isLess isName =>
    obtain ⟨less, _, rfl, rfl, last⟩ := onLines_eq_cons whole
    obtain ⟨name, rfl, rfl⟩ := onLines_eq_singleton last
    exact ⟨_, .some isLess isName, rfl⟩

mutual

theorem Declaration.of_onLines {s : Stmt} {i j : NodeId} {ts us : List Token} :
    Declaration choice i ts s j → onLines f us = ts →
      ∃ s', Declaration choice i us s' j ∧ s'.relabel (.lines f) = s
  | .classDecl isClass isName above isOpening hs isClosing, whole => by
    obtain ⟨keyword, _, rfl, rfl, split⟩ := onLines_eq_cons whole
    obtain ⟨name, _, rfl, rfl, split'⟩ := onLines_eq_cons split
    obtain ⟨us, _, rfl, same, split''⟩ := onLines_eq_append split'
    obtain ⟨opening, _, rfl, rfl, inside⟩ := onLines_eq_cons split''
    obtain ⟨vs, _, rfl, same', last⟩ := onLines_eq_append inside
    obtain ⟨closing, rfl, rfl⟩ := onLines_eq_singleton last
    obtain ⟨superclass, derived, rfl⟩ := above.of_onLines same
    obtain ⟨decls, methods, rfl⟩ := hs.of_onLines same'
    exact ⟨_, .classDecl isClass isName derived isOpening methods isClosing, rfl⟩
  | .function isFun h, whole => by
    obtain ⟨keyword, us, rfl, rfl, same⟩ := onLines_eq_cons whole
    obtain ⟨decl, derived, rfl⟩ := h.of_onLines same
    exact ⟨_, .function isFun derived, rfl⟩
  | .var h, whole => by
    obtain ⟨s, derived, rfl⟩ := h.of_onLines whole
    exact ⟨s, .var derived, rfl⟩
  | .statement h, whole => by
    obtain ⟨s, derived, rfl⟩ := h.of_onLines whole
    exact ⟨s, .statement derived, rfl⟩

theorem Statement.of_onLines {s : Stmt} {isOpen : Bool} {i j : NodeId} {ts us : List Token} :
    Statement choice i ts s isOpen j → onLines f us = ts →
      ∃ s', Statement choice i us s' isOpen j ∧ s'.relabel (.lines f) = s
  | .expression h, whole => by
    obtain ⟨s, derived, rfl⟩ := h.of_onLines whole
    exact ⟨s, .expression derived, rfl⟩
  | .forLoop isFor isOpening hinitializer hcondition isSemicolon hincrement isClosing hbody,
      whole => by
    obtain ⟨keyword, _, rfl, rfl, split⟩ := onLines_eq_cons whole
    obtain ⟨opening, _, rfl, rfl, clauses⟩ := onLines_eq_cons split
    obtain ⟨ts, _, rfl, atInitializer, behind⟩ := onLines_eq_append clauses
    obtain ⟨us, _, rfl, atCondition, split'⟩ := onLines_eq_append behind
    obtain ⟨semicolon, _, rfl, rfl, behind'⟩ := onLines_eq_cons split'
    obtain ⟨vs, _, rfl, atIncrement, split''⟩ := onLines_eq_append behind'
    obtain ⟨closing, ws, rfl, rfl, atBody⟩ := onLines_eq_cons split''
    obtain ⟨initializer, first, rfl⟩ := hinitializer.of_onLines atInitializer
    obtain ⟨condition, second, rfl⟩ := hcondition.of_onLines atCondition
    obtain ⟨increment, third, rfl⟩ := hincrement.of_onLines atIncrement
    obtain ⟨body, derived, rfl⟩ := hbody.of_onLines atBody
    refine ⟨_, .forLoop isFor isOpening first second isSemicolon third isClosing derived, ?_⟩
    rw [relabel_withInitializer, Stmt.relabel, relabel_condition, relabel_withIncrement]
  | .branch isIf isOpening hcondition isClosing hthen, whole => by
    obtain ⟨keyword, _, rfl, rfl, split⟩ := onLines_eq_cons whole
    obtain ⟨opening, _, rfl, rfl, split'⟩ := onLines_eq_cons split
    obtain ⟨us, _, rfl, same, split''⟩ := onLines_eq_append split'
    obtain ⟨closing, vs, rfl, rfl, same'⟩ := onLines_eq_cons split''
    obtain ⟨e, condition, rfl⟩ := hcondition.of_onLines same
    obtain ⟨s, thenBranch, rfl⟩ := hthen.of_onLines same'
    exact ⟨_, .branch isIf isOpening condition isClosing thenBranch, rfl⟩
  | .branchElse isIf isOpening hcondition isClosing hthen closed isElse helse, whole => by
    obtain ⟨keyword, _, rfl, rfl, split⟩ := onLines_eq_cons whole
    obtain ⟨opening, _, rfl, rfl, split'⟩ := onLines_eq_cons split
    obtain ⟨us, _, rfl, atCondition, split''⟩ := onLines_eq_append split'
    obtain ⟨closing, _, rfl, rfl, branches⟩ := onLines_eq_cons split''
    obtain ⟨vs, _, rfl, atThen, behind⟩ := onLines_eq_append branches
    obtain ⟨keywordElse, ws, rfl, rfl, atElse⟩ := onLines_eq_cons behind
    obtain ⟨e, condition, rfl⟩ := hcondition.of_onLines atCondition
    obtain ⟨s, thenBranch, rfl⟩ := hthen.of_onLines atThen
    obtain ⟨s', elseBranch, rfl⟩ := helse.of_onLines atElse
    exact ⟨_, .branchElse isIf isOpening condition isClosing thenBranch closed isElse elseBranch,
      rfl⟩
  | .print isPrint h isSemicolon, whole => by
    obtain ⟨keyword, _, rfl, rfl, split⟩ := onLines_eq_cons whole
    obtain ⟨us, _, rfl, same, last⟩ := onLines_eq_append split
    obtain ⟨semicolon, rfl, rfl⟩ := onLines_eq_singleton last
    obtain ⟨e, derived, rfl⟩ := h.of_onLines same
    exact ⟨_, .print isPrint derived isSemicolon, rfl⟩
  | .ret isReturn h isSemicolon, whole => by
    obtain ⟨keyword, _, rfl, rfl, split⟩ := onLines_eq_cons whole
    obtain ⟨us, _, rfl, same, last⟩ := onLines_eq_append split
    obtain ⟨semicolon, rfl, rfl⟩ := onLines_eq_singleton last
    obtain ⟨value, derived, rfl⟩ := h.of_onLines same
    exact ⟨_, .ret isReturn derived isSemicolon, rfl⟩
  | .loop isWhile isOpening hcondition isClosing hbody, whole => by
    obtain ⟨keyword, _, rfl, rfl, split⟩ := onLines_eq_cons whole
    obtain ⟨opening, _, rfl, rfl, split'⟩ := onLines_eq_cons split
    obtain ⟨us, _, rfl, same, split''⟩ := onLines_eq_append split'
    obtain ⟨closing, vs, rfl, rfl, same'⟩ := onLines_eq_cons split''
    obtain ⟨e, condition, rfl⟩ := hcondition.of_onLines same
    obtain ⟨s, body, rfl⟩ := hbody.of_onLines same'
    exact ⟨_, .loop isWhile isOpening condition isClosing body, rfl⟩
  | .block isOpening h, whole => by
    obtain ⟨opening, us, rfl, rfl, same⟩ := onLines_eq_cons whole
    obtain ⟨body, derived, rfl⟩ := h.of_onLines same
    exact ⟨_, .block isOpening derived, rfl⟩

theorem Block.of_onLines {body : List Stmt} {i j : NodeId} {ts us : List Token} :
    Block choice i ts body j → onLines f us = ts →
      ∃ body', Block choice i us body' j ∧ Stmt.relabelAll (.lines f) body' = body
  | .mk hs isClosing, whole => by
    obtain ⟨us, _, rfl, same, last⟩ := onLines_eq_append whole
    obtain ⟨closing, rfl, rfl⟩ := onLines_eq_singleton last
    obtain ⟨body, derived, rfl⟩ := hs.of_onLines same
    exact ⟨body, .mk derived isClosing, rfl⟩

theorem Declarations.of_onLines {body : List Stmt} {i j : NodeId} {ts us : List Token} :
    Declarations choice i ts body j → onLines f us = ts →
      ∃ body', Declarations choice i us body' j ∧ Stmt.relabelAll (.lines f) body' = body
  | .nil, whole => by
    obtain rfl := onLines_eq_nil whole
    exact ⟨[], .nil, rfl⟩
  | .cons h hs, whole => by
    obtain ⟨us, vs, rfl, same, same'⟩ := onLines_eq_append whole
    obtain ⟨s, first, rfl⟩ := h.of_onLines same
    obtain ⟨body, rest, rfl⟩ := hs.of_onLines same'
    exact ⟨s :: body, .cons first rest, rfl⟩

theorem Routine.of_onLines {decl : FunctionDecl} {i j : NodeId} {ts us : List Token} :
    Routine choice i ts decl j → onLines f us = ts →
      ∃ decl', Routine choice i us decl' j ∧ decl'.relabel (.lines f) = decl
  | .mk isName isOpening hparams isClosing isBrace hbody, whole => by
    obtain ⟨name, _, rfl, rfl, split⟩ := onLines_eq_cons whole
    obtain ⟨opening, _, rfl, rfl, split'⟩ := onLines_eq_cons split
    obtain ⟨us, _, rfl, same, split''⟩ := onLines_eq_append split'
    obtain ⟨closing, _, rfl, rfl, behind⟩ := onLines_eq_cons split''
    obtain ⟨brace, vs, rfl, rfl, same'⟩ := onLines_eq_cons behind
    obtain ⟨params, names, rfl⟩ := hparams.of_onLines same
    obtain ⟨body, derived, rfl⟩ := hbody.of_onLines same'
    exact ⟨_, .mk isName isOpening names isClosing isBrace derived, rfl⟩

theorem Methods.of_onLines {decls : List FunctionDecl} {i j : NodeId} {ts us : List Token} :
    Methods choice i ts decls j → onLines f us = ts →
      ∃ decls', Methods choice i us decls' j ∧ FunctionDecl.relabelAll (.lines f) decls' = decls
  | .nil, whole => by
    obtain rfl := onLines_eq_nil whole
    exact ⟨[], .nil, rfl⟩
  | .cons h hs, whole => by
    obtain ⟨us, vs, rfl, same, same'⟩ := onLines_eq_append whole
    obtain ⟨decl, first, rfl⟩ := h.of_onLines same
    obtain ⟨decls, rest, rfl⟩ := hs.of_onLines same'
    exact ⟨decl :: decls, .cons first rest, rfl⟩

end

end Grammar

/-- The tokens, each with its place for its line. -/
def placed (ts : List Token) : List Token := ts.mapIdx fun place t => { t with line := place }

/-- The line of the token at a place. -/
def lineAt (ts : List Token) (place : Nat) : Nat := (ts[place]?.map (·.line)).getD 0

variable {ts : List Token}

theorem onLines_placed (ts : List Token) : onLines (lineAt ts) (placed ts) = ts := by
  apply List.ext_getElem
  · simp [onLines, placed]
  · intro place inside _
    have isPlace : place < ts.length := by simpa [onLines, placed] using inside
    simp [onLines, placed, Token.relabel, Relabel.lines, lineAt, isPlace]

/-- Each token stands at its place. -/
theorem getElem?_placed {t : Token} (member : t ∈ placed ts) :
    (placed ts)[t.line]? = some t := by
  obtain ⟨place, inside, rfl⟩ := List.mem_iff_getElem.1 member
  have same : (placed ts)[place].line = place := by simp [placed]
  rw [same]
  exact List.getElem?_eq_getElem inside

theorem pairwise_placed (ts : List Token) : (placed ts).Pairwise (·.line < ·.line) := by
  have lines : (placed ts).map (·.line) = List.range ts.length := by
    apply List.ext_getElem <;> simp [placed]
  apply List.pairwise_map.1
  rw [lines]
  exact List.pairwise_lt_range

theorem takeWhile_onLines (f : Nat → Nat) (ts : List Token) :
    (onLines f ts).takeWhile (·.kind != .eof) = onLines f (ts.takeWhile (·.kind != .eof)) := by
  rw [onLines, List.takeWhile_map]
  rfl

/-- A program that was read from tokens which know their places: its references have the numbers
from `first` up to `next`, each once, and one with a lower number stands at an earlier place. -/
structure InSourceOrder (ts : List Token) (first : NodeId) (program : List Stmt) (next : NodeId) :
    Prop where
  numbers : (references program).map (·.id) = List.range' first (next - first)
  places : (references program).Pairwise fun a b => a.id < b.id ∧ a.name.line < b.name.line
  names : ∀ ref ∈ references program, ref.name.Refers ∧ ts[ref.name.line]? = some ref.name

variable {first next : NodeId} {program : List Stmt}

/-- What is a program on its lines is one by its places, with the same tree on other lines. -/
theorem parse_placed (parsed : parse ts first = ⟨.ok program, next⟩) :
    ∃ program', parse (placed ts) first = ⟨.ok program', next⟩ ∧
      Stmt.relabelAll (.lines (lineAt ts)) program' = program := by
  have lines : onLines (lineAt ts) ((placed ts).takeWhile (·.kind != .eof)) =
      ts.takeWhile (·.kind != .eof) := by
    rw [← takeWhile_onLines, onLines_placed]
  obtain ⟨program', derived, same⟩ := (program_of_parse parsed).of_onLines lines
  exact ⟨program', parse_of_program derived, same⟩

theorem inSourceOrder_of_parse (parsed : parse (placed ts) first = ⟨.ok program, next⟩) :
    InSourceOrder (placed ts) first program next := by
  obtain ⟨names, stand, refer, rfl, counted⟩ := (program_of_parse parsed).ordered.references_eq
  have stand := stand.trans (List.takeWhile_sublist _)
  have byName : ((references program).map (·.name)).Pairwise fun t u => t.line < u.line := by
    rw [counted, names_numberedFrom]
    exact (pairwise_placed ts).sublist stand
  constructor
  · rw [counted, ids_numberedFrom, Nat.add_sub_cancel_left]
  · have numbers : (references program).Pairwise (·.id < ·.id) := by
      rw [counted]
      exact pairwise_numberedFrom first names
    exact numbers.and (byName.of_map (·.name) fun _ _ earlier => earlier)
  · intro ref member
    have named : ref.name ∈ names := by
      rw [← names_numberedFrom first names, ← counted]
      exact List.mem_map_of_mem member
    exact ⟨refer _ named, getElem?_placed (stand.subset named)⟩

end Treewalk
