import Treewalk.Syntax

/-!
# The grammar of programs

The grammar as a relation: which lists of tokens each rule derives, and the tree that stands for a
derivation. A derivation starts with the number of its first reference and ends with the number of
the next one, so the references of a tree are numbered in the order of their tokens.

    program     → declaration*
    declaration → classDecl | "fun" function | varDecl | statement
    classDecl   → "class" IDENT ( "<" IDENT )? "{" function* "}"
    function    → IDENT "(" parameters? ")" block
    varDecl     → "var" varItem ( "," varItem )* ";"
    varItem     → IDENT ( "=" assignment )?
    statement   → exprStmt | forStmt | ifStmt | printStmt | returnStmt | whileStmt | block
    forStmt     → "for" "(" ( varDecl | exprStmt | ";" ) expression? ";" expression? ")" statement
    expression  → assignment ( "," assignment )*
    assignment  → ( call "." )? IDENT "=" assignment | logicOr
    logicOr … factor, the left-associative operators
    unary       → ( "!" | "-" ) unary | call
    call        → primary ( "(" arguments? ")" | "." IDENT )*

As it is written the grammar lets an `else` belong to any open `if`. `ElseRule.nearest` is the
grammar without that freedom.
-/

namespace Treewalk.Grammar

set_option autoImplicit true

/-- The rules that derive one expression, from the loosest to the tightest. -/
inductive Rule where
  | expression
  | assignment
  | logicOr
  | logicAnd
  | equality
  | comparison
  | term
  | factor
  | unary
  | call
  | primary
deriving DecidableEq

/-- What a rule of binary operators is made of. -/
structure BinaryRule where
  operand : Rule
  operators : List TokenKind
  node : Expr → Token → Expr → Expr

/-- The rules of binary operators. -/
def Rule.binary? : Rule → Option BinaryRule
  | .logicOr => some ⟨.logicAnd, [.kwOr], .logical⟩
  | .logicAnd => some ⟨.equality, [.kwAnd], .logical⟩
  | .equality => some ⟨.comparison, [.bangEqual, .equalEqual], .binary⟩
  | .comparison => some ⟨.term, [.greater, .greaterEqual, .less, .lessEqual], .binary⟩
  | .term => some ⟨.factor, [.minus, .plus], .binary⟩
  | .factor => some ⟨.unary, [.slash, .star], .binary⟩
  | _ => none

/-- The constant that one token stands for; a number or a string stands for its literal. -/
def constant? (t : Token) : Option Constant :=
  match t.kind with
  | .kwTrue => some .true
  | .kwFalse => some .false
  | .kwNil => some .nil
  | .number | .string =>
    t.literal.map fun
      | .number value => .number value
      | .text value => .text value
  | _ => none

/-- The most arguments of a call, and the most parameters of a function. -/
def listLimit : Nat := 255

mutual

/-- `Derives r i ts e j`: rule `r` derives the tokens `ts`, the tree is `e`, and its references are
numbered from `i` up to `j`. The rules of binary operators and of calls are left-recursive, so that
operators of one level group to the left. -/
inductive Derives : Rule → NodeId → List Token → Expr → NodeId → Prop where
  | single {e : Expr} : Derives .assignment i ts e j → Derives .expression i ts e j
  | sequence {e : Expr} {es : List Expr} {comma : Token} :
      Derives .assignment i ts e j → comma.kind = .comma → Assignments j us es k →
      Derives .expression i (ts ++ comma :: us) (.sequence (e :: es)) k
  | operation {e : Expr} : Derives .logicOr i ts e j → Derives .assignment i ts e j
  | assign {value : Expr} {name equals : Token} :
      name.kind = .identifier → equals.kind = .equal → Derives .assignment (i + 1) ts value j →
      Derives .assignment i (name :: equals :: ts) (.assign i name value) j
  | set {object value : Expr} {dot name equals : Token} :
      Derives .call i ts object j → dot.kind = .dot → name.kind = .identifier →
      equals.kind = .equal → Derives .assignment j us value k →
      Derives .assignment i (ts ++ dot :: name :: equals :: us) (.set object name value) k
  | operand {r : Rule} {b : BinaryRule} {e : Expr} :
      r.binary? = some b → Derives b.operand i ts e j → Derives r i ts e j
  | binary {r : Rule} {b : BinaryRule} {left right : Expr} {operator : Token} :
      r.binary? = some b → Derives r i ts left j → operator.kind ∈ b.operators →
      Derives b.operand j us right k →
      Derives r i (ts ++ operator :: us) (b.node left operator right) k
  | unary {e : Expr} {operator : Token} :
      operator.kind = .bang ∨ operator.kind = .minus → Derives .unary i ts e j →
      Derives .unary i (operator :: ts) (.unary operator e) j
  | operatorless {e : Expr} : Derives .call i ts e j → Derives .unary i ts e j
  | atom {e : Expr} : Derives .primary i ts e j → Derives .call i ts e j
  | call {callee : Expr} {values : List Expr} {opening closing : Token} :
      Derives .call i ts callee j → opening.kind = .leftParen → Arguments j us values k →
      closing.kind = .rightParen →
      Derives .call i (ts ++ opening :: (us ++ [closing])) (.call callee closing values) k
  | get {object : Expr} {dot name : Token} :
      Derives .call i ts object j → dot.kind = .dot → name.kind = .identifier →
      Derives .call i (ts ++ [dot, name]) (.get object name) j
  | constant {t : Token} {c : Constant} :
      constant? t = some c → Derives .primary i [t] (.constant c) i
  | super {keyword dot method : Token} :
      keyword.kind = .kwSuper → dot.kind = .dot → method.kind = .identifier →
      Derives .primary i [keyword, dot, method] (.super i keyword method) (i + 1)
  | this {keyword : Token} :
      keyword.kind = .kwThis → Derives .primary i [keyword] (.this i keyword) (i + 1)
  | name {name : Token} :
      name.kind = .identifier → Derives .primary i [name] (.read ⟨i, name⟩) (i + 1)
  | grouping {e : Expr} {opening closing : Token} :
      opening.kind = .leftParen → Derives .expression i ts e j → closing.kind = .rightParen →
      Derives .primary i (opening :: (ts ++ [closing])) (.grouping e) j

/-- One assignment or several, with commas between them. -/
inductive Assignments : NodeId → List Token → List Expr → NodeId → Prop where
  | one {e : Expr} : Derives .assignment i ts e j → Assignments i ts [e] j
  | more {e : Expr} {es : List Expr} {comma : Token} :
      Derives .assignment i ts e j → comma.kind = .comma → Assignments j us es k →
      Assignments i (ts ++ comma :: us) (e :: es) k

/-- What stands between the parentheses of a call. -/
inductive Arguments : NodeId → List Token → List Expr → NodeId → Prop where
  | none : Arguments i [] [] i
  | some {es : List Expr} :
      Assignments i ts es j → es.length ≤ listLimit → Arguments i ts es j

end

/-- An expression or nothing. -/
inductive OptionalExpr : NodeId → List Token → Option Expr → NodeId → Prop where
  | none : OptionalExpr i [] none i
  | some {e : Expr} : Derives .expression i ts e j → OptionalExpr i ts (some e) j

inductive VarItem : NodeId → List Token → VarDecl → NodeId → Prop where
  | bare {name : Token} : name.kind = .identifier → VarItem i [name] ⟨name, none⟩ i
  | initialized {name equals : Token} {value : Expr} :
      name.kind = .identifier → equals.kind = .equal → Derives .assignment i ts value j →
      VarItem i (name :: equals :: ts) ⟨name, some value⟩ j

/-- One item or several, with commas between them. -/
inductive VarItems : NodeId → List Token → List VarDecl → NodeId → Prop where
  | one {decl : VarDecl} : VarItem i ts decl j → VarItems i ts [decl] j
  | more {decl : VarDecl} {decls : List VarDecl} {comma : Token} :
      VarItem i ts decl j → comma.kind = .comma → VarItems j us decls k →
      VarItems i (ts ++ comma :: us) (decl :: decls) k

/-- One item is a `var`, several are a `varList`. -/
def varStatement : List VarDecl → Stmt
  | [decl] => .var decl
  | decls => .varList decls

inductive VarDeclaration : NodeId → List Token → Stmt → NodeId → Prop where
  | mk {keyword semicolon : Token} {decls : List VarDecl} :
      keyword.kind = .kwVar → VarItems i ts decls j → semicolon.kind = .semicolon →
      VarDeclaration i (keyword :: (ts ++ [semicolon])) (varStatement decls) j

inductive ExpressionStatement : NodeId → List Token → Stmt → NodeId → Prop where
  | mk {e : Expr} {semicolon : Token} :
      Derives .expression i ts e j → semicolon.kind = .semicolon →
      ExpressionStatement i (ts ++ [semicolon]) (.expression e) j

/-- The first clause of a `for` loop, with the semicolon behind it. -/
inductive ForInitializer : NodeId → List Token → Option Stmt → NodeId → Prop where
  | none {semicolon : Token} :
      semicolon.kind = .semicolon → ForInitializer i [semicolon] none i
  | var {s : Stmt} : VarDeclaration i ts s j → ForInitializer i ts (some s) j
  | expression {s : Stmt} : ExpressionStatement i ts s j → ForInitializer i ts (some s) j

/-- The body of a `for` loop with the increment behind it. -/
def withIncrement (increment : Option Expr) (body : Stmt) : Stmt :=
  match increment with
  | some e => .block [body, .expression e]
  | none => body

/-- A loop with the initializer of a `for` loop before it. -/
def withInitializer (initializer : Option Stmt) (loop : Stmt) : Stmt :=
  match initializer with
  | some first => .block [first, loop]
  | none => loop

/-- The names of parameters, with commas between them. -/
inductive Names : List Token → List Token → Prop where
  | one {name : Token} : name.kind = .identifier → Names [name] [name]
  | more {name comma : Token} {names : List Token} :
      name.kind = .identifier → comma.kind = .comma → Names ts names →
      Names (name :: comma :: ts) (name :: names)

/-- What stands between the parentheses of a function. -/
inductive Parameters : List Token → List Token → Prop where
  | none : Parameters [] []
  | some {names : List Token} :
      Names ts names → names.length ≤ listLimit → Parameters ts names

inductive Superclass : NodeId → List Token → Option Variable → NodeId → Prop where
  | none : Superclass i [] none i
  | some {less name : Token} :
      less.kind = .less → name.kind = .identifier →
      Superclass i [less, name] (some ⟨i, name⟩) (i + 1)

/-- Which `if` an `else` may belong to. -/
inductive ElseRule where
  | anywhere
  | nearest
deriving DecidableEq

mutual

inductive Declaration (choice : ElseRule) : NodeId → List Token → Stmt → NodeId → Prop where
  | classDecl {keyword name opening closing : Token} {superclass : Option Variable}
      {methods : List FunctionDecl} :
      keyword.kind = .kwClass → name.kind = .identifier → Superclass i ts superclass j →
      opening.kind = .leftBrace → Methods choice j us methods k → closing.kind = .rightBrace →
      Declaration choice i (keyword :: name :: (ts ++ opening :: (us ++ [closing])))
        (.classDecl name superclass methods) k
  | function {keyword : Token} {decl : FunctionDecl} :
      keyword.kind = .kwFun → Routine choice i ts decl j →
      Declaration choice i (keyword :: ts) (.function decl) j
  | var {s : Stmt} : VarDeclaration i ts s j → Declaration choice i ts s j
  | statement {s : Stmt} {isOpen : Bool} :
      Statement choice i ts s isOpen j → Declaration choice i ts s j

/-- `Statement choice i ts s isOpen j`: `isOpen` says that the statement ends in an `if` that has
no `else`. -/
inductive Statement (choice : ElseRule) :
    NodeId → List Token → Stmt → Bool → NodeId → Prop where
  | expression {s : Stmt} : ExpressionStatement i ts s j → Statement choice i ts s false j
  | forLoop {keyword opening semicolon closing : Token} {initializer : Option Stmt}
      {condition increment : Option Expr} {body : Stmt} {isOpen : Bool} {m : NodeId} :
      keyword.kind = .kwFor → opening.kind = .leftParen → ForInitializer i ts initializer j →
      OptionalExpr j us condition k → semicolon.kind = .semicolon →
      OptionalExpr k vs increment l → closing.kind = .rightParen →
      Statement choice l ws body isOpen m →
      Statement choice i
        (keyword :: opening :: (ts ++ (us ++ semicolon :: (vs ++ closing :: ws))))
        (withInitializer initializer
          (.loop (condition.getD (.constant .true)) (withIncrement increment body))) isOpen m
  | branch {keyword opening closing : Token} {condition : Expr} {thenBranch : Stmt}
      {isOpen : Bool} :
      keyword.kind = .kwIf → opening.kind = .leftParen → Derives .expression i ts condition j →
      closing.kind = .rightParen → Statement choice j us thenBranch isOpen k →
      Statement choice i (keyword :: opening :: (ts ++ closing :: us))
        (.branch condition thenBranch none) true k
  | branchElse {keyword opening closing keywordElse : Token} {condition : Expr}
      {thenBranch elseBranch : Stmt} {thenOpen isOpen : Bool} :
      keyword.kind = .kwIf → opening.kind = .leftParen → Derives .expression i ts condition j →
      closing.kind = .rightParen → Statement choice j us thenBranch thenOpen k →
      (choice = .nearest → thenOpen = false) → keywordElse.kind = .kwElse →
      Statement choice k vs elseBranch isOpen l →
      Statement choice i (keyword :: opening :: (ts ++ closing :: (us ++ keywordElse :: vs)))
        (.branch condition thenBranch (some elseBranch)) isOpen l
  | print {keyword semicolon : Token} {e : Expr} :
      keyword.kind = .kwPrint → Derives .expression i ts e j → semicolon.kind = .semicolon →
      Statement choice i (keyword :: (ts ++ [semicolon])) (.print e) false j
  | ret {keyword semicolon : Token} {value : Option Expr} :
      keyword.kind = .kwReturn → OptionalExpr i ts value j → semicolon.kind = .semicolon →
      Statement choice i (keyword :: (ts ++ [semicolon])) (.ret keyword value) false j
  | loop {keyword opening closing : Token} {condition : Expr} {body : Stmt} {isOpen : Bool} :
      keyword.kind = .kwWhile → opening.kind = .leftParen →
      Derives .expression i ts condition j → closing.kind = .rightParen →
      Statement choice j us body isOpen k →
      Statement choice i (keyword :: opening :: (ts ++ closing :: us)) (.loop condition body)
        isOpen k
  | block {opening : Token} {body : List Stmt} :
      opening.kind = .leftBrace → Block choice i ts body j →
      Statement choice i (opening :: ts) (.block body) false j

/-- What follows the opening brace of a block, up to and including the closing one. -/
inductive Block (choice : ElseRule) : NodeId → List Token → List Stmt → NodeId → Prop where
  | mk {body : List Stmt} {closing : Token} :
      Declarations choice i ts body j → closing.kind = .rightBrace →
      Block choice i (ts ++ [closing]) body j

inductive Declarations (choice : ElseRule) : NodeId → List Token → List Stmt → NodeId → Prop where
  | nil : Declarations choice i [] [] i
  | cons {s : Stmt} {body : List Stmt} :
      Declaration choice i ts s j → Declarations choice j us body k →
      Declarations choice i (ts ++ us) (s :: body) k

/-- A function behind `fun`, or a method. -/
inductive Routine (choice : ElseRule) : NodeId → List Token → FunctionDecl → NodeId → Prop where
  | mk {name opening closing brace : Token} {params : List Token} {body : List Stmt} :
      name.kind = .identifier → opening.kind = .leftParen → Parameters ts params →
      closing.kind = .rightParen → brace.kind = .leftBrace → Block choice i us body j →
      Routine choice i (name :: opening :: (ts ++ closing :: brace :: us)) ⟨name, params, body⟩ j

inductive Methods (choice : ElseRule) :
    NodeId → List Token → List FunctionDecl → NodeId → Prop where
  | nil : Methods choice i [] [] i
  | cons {decl : FunctionDecl} {decls : List FunctionDecl} :
      Routine choice i ts decl j → Methods choice j us decls k →
      Methods choice i (ts ++ us) (decl :: decls) k

end

/-- A whole program. -/
abbrev Program (choice : ElseRule) := Declarations choice

end Treewalk.Grammar
