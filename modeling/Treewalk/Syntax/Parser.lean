import Treewalk.Syntax.Cursor

/-!
# The grammar

One parser for every rule of the grammar, from the loosest to the tightest:

    declaration → class | fun | var | statement
    statement   → for | if | print | return | while | block | expression ";"
    expression  → assignment ( "," assignment )*
    assignment  → or "=" assignment | or
    or, and, equality, comparison, term, factor → left-associative operators
    unary       → ( "!" | "-" ) unary | call
    call        → primary ( "(" arguments? ")" | "." name )*

The target of an assignment is read as an operand and turned into a target when the equals sign is
seen. The first argument of the recursive parsers bounds the depth of the recursion; `stepsFor`
is always enough.
-/

namespace Treewalk

/-- The levels of the binary operators, from the loosest to the tightest. -/
inductive Level where
  | or
  | and
  | equality
  | comparison
  | term
  | factor
deriving Repr, DecidableEq

namespace Level

/-- The level of the operands. -/
def tighter : Level → Option Level
  | or => some and
  | and => some equality
  | equality => some comparison
  | comparison => some term
  | term => some factor
  | factor => none

def operators : Level → List TokenKind
  | or => [.kwOr]
  | and => [.kwAnd]
  | equality => [.bangEqual, .equalEqual]
  | comparison => [.greater, .greaterEqual, .less, .lessEqual]
  | term => [.minus, .plus]
  | factor => [.slash, .star]

/-- The node of an operator of this level. -/
def combine (level : Level) (left : Expr) (operator : Token) (right : Expr) : Expr :=
  match level with
  | or | and => .logical left operator right
  | _ => .binary left operator right

end Level

/-- The most parameters that a function may have, and the most arguments of a call. -/
def maxArity : Nat := 255

/-- What the value assigned to an expression makes of it, if it can be assigned to. -/
def Expr.assigned? (target value : Expr) : Option Expr :=
  match target with
  | .read ref => some (.assign ref.id ref.name value)
  | .get object name => some (.set object name value)
  | _ => none

namespace Parser

mutual

def expression : Nat → Parser Expr
  | 0 => stop .unfinished
  | n + 1 => do
    let first ← assignment n
    if ← check .comma then
      items n [first]
    else
      pure first

/-- The items of a list behind those read so far, which stand newest first. -/
def items : Nat → List Expr → Parser Expr
  | 0, _ => stop .unfinished
  | n + 1, done => do
    match ← accept .comma with
    | none => pure (.sequence done.reverse)
    | some _ =>
      let item ← assignment n
      items n (item :: done)

def assignment : Nat → Parser Expr
  | 0 => stop .unfinished
  | n + 1 => do
    let target ← operation n (some .or)
    match ← accept .equal with
    | none => pure target
    | some equals =>
      let value ← assignment n
      match target.assigned? value with
      | some e => pure e
      | none =>
        report equals .invalidTarget
        pure target

/-- Operators of a level and of all tighter ones. -/
def operation : Nat → Option Level → Parser Expr
  | 0, _ => stop .unfinished
  | n + 1, none => unary n
  | n + 1, some level => do
    let left ← operation n level.tighter
    operations n level left

/-- The operators of a level behind their left operand. -/
def operations : Nat → Level → Expr → Parser Expr
  | 0, _, _ => stop .unfinished
  | n + 1, level, left => do
    match ← acceptAny level.operators with
    | none => pure left
    | some operator =>
      let right ← operation n level.tighter
      operations n level (level.combine left operator right)

def unary : Nat → Parser Expr
  | 0 => stop .unfinished
  | n + 1 => do
    match ← acceptAny [.bang, .minus] with
    | none => call n
    | some operator =>
      let right ← unary n
      pure (.unary operator right)

def call : Nat → Parser Expr
  | 0 => stop .unfinished
  | n + 1 => do
    let callee ← primary n
    calls n callee

/-- The calls and properties behind an expression. -/
def calls : Nat → Expr → Parser Expr
  | 0, _ => stop .unfinished
  | n + 1, callee => do
    match ← acceptAny [.leftParen, .dot] with
    | none => pure callee
    | some mark =>
      if mark.kind = .dot then
        let name ← expect .identifier .propertyName
        calls n (.get callee name)
      else
        let values ← arguments n
        let paren ← expect .rightParen .argumentsClose
        calls n (.call callee paren values)

def arguments : Nat → Parser (List Expr)
  | 0 => stop .unfinished
  | n + 1 => do
    if ← check .rightParen then pure []
    else moreArguments n []

/-- The arguments behind those read so far, which stand newest first. -/
def moreArguments : Nat → List Expr → Parser (List Expr)
  | 0, _ => stop .unfinished
  | n + 1, done => do
    if maxArity ≤ done.length then report (← peek) .tooManyArguments
    let value ← assignment n
    match ← accept .comma with
    | none => pure (value :: done).reverse
    | some _ => moreArguments n (value :: done)

def primary : Nat → Parser Expr
  | 0 => stop .unfinished
  | n + 1 => do
    let t ← peek
    match t.kind with
    | .kwFalse =>
      advance
      pure (.constant .false)
    | .kwTrue =>
      advance
      pure (.constant .true)
    | .kwNil =>
      advance
      pure (.constant .nil)
    | .number | .string =>
      advance
      match t.literal with
      | some (.number value) => pure (.constant (.number value))
      | some (.text value) => pure (.constant (.text value))
      | none => throw ⟨t, .malformedLiteral⟩
    | .kwSuper =>
      advance
      let _ ← expect .dot .superDot
      let method ← expect .identifier .superMethodName
      pure (.super (← fresh) t method)
    | .kwThis =>
      advance
      pure (.this (← fresh) t)
    | .identifier =>
      advance
      pure (.read ⟨← fresh, t⟩)
    | .leftParen =>
      advance
      let inner ← expression n
      let _ ← expect .rightParen .groupClose
      pure (.grouping inner)
    | _ => stop .expression

end

/-- The items of a `var` declaration behind those read so far, which stand newest first. -/
def varItems : Nat → List VarDecl → Parser (List VarDecl)
  | 0, _ => stop .unfinished
  | n + 1, done => do
    let name ← expect .identifier .variableName
    let initializer ← match ← accept .equal with
      | none => pure none
      | some _ => some <$> assignment n
    match ← accept .comma with
    | none => pure (⟨name, initializer⟩ :: done).reverse
    | some _ => varItems n (⟨name, initializer⟩ :: done)

/-- The items of a `var` declaration, one or several. -/
def varDeclaration (n : Nat) : Parser Stmt := do
  let decls ← varItems n []
  let _ ← expect .semicolon .variableEnd
  match decls with
  | [decl] => pure (.var decl)
  | decls => pure (.varList decls)

def expressionStatement (n : Nat) : Parser Stmt := do
  let value ← expression n
  let _ ← expect .semicolon .expressionEnd
  pure (.expression value)

def printStatement (n : Nat) : Parser Stmt := do
  let value ← expression n
  let _ ← expect .semicolon .printEnd
  pure (.print value)

def returnStatement (n : Nat) (keyword : Token) : Parser Stmt := do
  let value ← if ← check .semicolon then pure none else some <$> expression n
  let _ ← expect .semicolon .returnEnd
  pure (.ret keyword value)

/-- The parameters of a function behind those read so far, which stand newest first. -/
def parameters : Nat → List Token → Parser (List Token)
  | 0, _ => stop .unfinished
  | n + 1, done => do
    if maxArity ≤ done.length then report (← peek) .tooManyParameters
    let name ← expect .identifier .parameterName
    match ← accept .comma with
    | none => pure (name :: done).reverse
    | some _ => parameters n (name :: done)

/-- What runs once before a loop. -/
def forInitializer (n : Nat) : Parser (Option Stmt) := do
  match ← acceptAny [.semicolon, .kwVar] with
  | some mark => if mark.kind = .kwVar then some <$> varDeclaration n else pure none
  | none => some <$> expressionStatement n

/-- The `while` loop that a `for` loop stands for: the increment runs behind the body, and the
initializer once in a scope around the loop. -/
def forLoop (initializer : Option Stmt) (condition increment : Option Expr) (body : Stmt) : Stmt :=
  let body := match increment with
    | some e => .block [body, .expression e]
    | none => body
  let loop := .loop (condition.getD (.constant .true)) body
  match initializer with
  | some first => .block [first, loop]
  | none => loop

/-- The three clauses of a `for` loop, from its opening parenthesis to its closing one. -/
def forClauses (n : Nat) : Parser (Option Stmt × Option Expr × Option Expr) := do
  let _ ← expect .leftParen .forOpen
  let initializer ← forInitializer n
  let condition ← if ← check .semicolon then pure none else some <$> expression n
  let _ ← expect .semicolon .forConditionEnd
  let increment ← if ← check .rightParen then pure none else some <$> expression n
  let _ ← expect .rightParen .forClose
  pure (initializer, condition, increment)

mutual

/-- A declaration; one that is broken is recorded, skipped and left out. -/
def declaration : Nat → Parser (Option Stmt)
  | 0 => recover (stop .unfinished)
  | n + 1 => recover do
    let t ← peek
    match t.kind with
    | .kwClass =>
      advance
      classDeclaration n
    | .kwFun =>
      advance
      .function <$> routine n .function
    | .kwVar =>
      advance
      varDeclaration n
    | _ => statement n

def classDeclaration : Nat → Parser Stmt
  | 0 => stop .unfinished
  | n + 1 => do
    let name ← expect .identifier .className
    let superclass ← match ← accept .less with
      | none => pure none
      | some _ =>
        let superName ← expect .identifier .superclassName
        pure (some ⟨← fresh, superName⟩)
    let _ ← expect .leftBrace .classBodyOpen
    let decls ← methods n []
    let _ ← expect .rightBrace .classBodyClose
    pure (.classDecl name superclass decls)

/-- The methods of a class behind those read so far, which stand newest first. -/
def methods : Nat → List FunctionDecl → Parser (List FunctionDecl)
  | 0, _ => stop .unfinished
  | n + 1, done => do
    if (← atEnd) || (← check .rightBrace) then pure done.reverse
    else
      let decl ← routine n .method
      methods n (decl :: done)

/-- The name, the parameters and the body of a function or method. -/
def routine : Nat → RoutineKind → Parser FunctionDecl
  | 0, _ => stop .unfinished
  | n + 1, kind => do
    let name ← expect .identifier (.routineName kind)
    let _ ← expect .leftParen (.routineParen kind)
    let params ← if ← check .rightParen then pure [] else parameters n []
    let _ ← expect .rightParen .parametersClose
    let _ ← expect .leftBrace (.routineBodyOpen kind)
    let body ← block n
    pure ⟨name, params, body⟩

/-- The statements of a block behind its opening brace, and the closing one. -/
def block : Nat → Parser (List Stmt)
  | 0 => stop .unfinished
  | n + 1 => do
    let body ← declarations n []
    let _ ← expect .rightBrace .blockClose
    pure body

/-- The declarations up to a closing brace, behind those read so far, which stand newest first. -/
def declarations : Nat → List Stmt → Parser (List Stmt)
  | 0, _ => stop .unfinished
  | n + 1, done => do
    if (← atEnd) || (← check .rightBrace) then pure done.reverse
    else
      match ← declaration n with
      | some stmt => declarations n (stmt :: done)
      | none => declarations n done

def statement : Nat → Parser Stmt
  | 0 => stop .unfinished
  | n + 1 => do
    let t ← peek
    match t.kind with
    | .kwFor =>
      advance
      let (initializer, condition, increment) ← forClauses n
      let body ← statement n
      pure (forLoop initializer condition increment body)
    | .kwIf =>
      advance
      let _ ← expect .leftParen .ifOpen
      let condition ← expression n
      let _ ← expect .rightParen .ifClose
      let thenBranch ← statement n
      match ← accept .kwElse with
      | none => pure (.branch condition thenBranch none)
      | some _ => do
        let elseBranch ← statement n
        pure (.branch condition thenBranch (some elseBranch))
    | .kwPrint =>
      advance
      printStatement n
    | .kwReturn =>
      advance
      returnStatement n t
    | .kwWhile =>
      advance
      let _ ← expect .leftParen .whileOpen
      let condition ← expression n
      let _ ← expect .rightParen .whileClose
      let body ← statement n
      pure (.loop condition body)
    | .leftBrace =>
      advance
      .block <$> block n
    | _ => expressionStatement n

end

/-- All declarations up to the end, behind those read so far, which stand newest first. -/
def program : Nat → List Stmt → Parser (List Stmt)
  | 0, _ => stop .unfinished
  | n + 1, done => do
    if ← atEnd then pure done.reverse
    else
      match ← declaration n with
      | some stmt => program n (stmt :: done)
      | none => program n done

/-- Steps that are enough for this many tokens: between one token that is read and the next the
recursion passes each rule of the grammar at most once. -/
def stepsFor (tokens : Nat) : Nat := 32 * (tokens + 1)

end Parser

/-- What parsing yields: the program, or all its syntax errors in order; and the number of the next
reference. -/
structure Parsed where
  result : Except (List SyntaxError) (List Stmt)
  nextId : NodeId

/-- The tokens up to the first end token, and that token. Where there is none, one is added on the
line of the last token. -/
def Parser.start (tokens : List Token) (firstId : NodeId) : Cursor where
  rest := tokens.takeWhile (·.kind != .eof)
  final :=
    (tokens.find? (·.kind == .eof)).getD (Token.eof ((tokens.getLast?.map (·.line)).getD 1))
  errors := []
  nextId := firstId

/-- Parses a program. Tokens behind the first end token are not read, and the references are
numbered from `firstId` on in the order of their tokens. -/
def parse (tokens : List Token) (firstId : NodeId) : Parsed :=
  let start := Parser.start tokens firstId
  match Parser.program (Parser.stepsFor start.rest.length) [] start with
  | .ok stmts c =>
    if c.errors.isEmpty then ⟨.ok stmts, c.nextId⟩ else ⟨.error c.errors.reverse, c.nextId⟩
  | .error e c => ⟨.error (e :: c.errors).reverse, c.nextId⟩

end Treewalk
