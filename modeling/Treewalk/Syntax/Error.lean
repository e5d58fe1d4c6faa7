import Treewalk.Token

/-!
# Syntax errors

A syntax error is a token and what is wrong there. Errors of names and scopes are reported in the
same form: the line of the token, the place, and a message.
-/

namespace Treewalk

/-- Where an error stands, as a report shows it. -/
def Token.place (t : Token) : String :=
  if t.kind = .eof then " at end" else " at '" ++ t.lexeme ++ "'"

/-- The two things that a name, parameters and a body belong to. -/
inductive RoutineKind where
  | function
  | method
deriving Repr, DecidableEq

def RoutineKind.name : RoutineKind → String
  | .function => "function"
  | .method => "method"

/-- What is wrong at a token. -/
inductive SyntaxError.Cause where
  | className
  | superclassName
  | classBodyOpen
  | classBodyClose
  | routineName (kind : RoutineKind)
  | routineParen (kind : RoutineKind)
  | tooManyParameters
  | parameterName
  | parametersClose
  | routineBodyOpen (kind : RoutineKind)
  | variableName
  | variableEnd
  | forOpen
  | forConditionEnd
  | forClose
  | ifOpen
  | ifClose
  | printEnd
  | returnEnd
  | whileOpen
  | whileClose
  | expressionEnd
  | blockClose
  | invalidTarget
  | propertyName
  | tooManyArguments
  | argumentsClose
  | malformedLiteral
  | superDot
  | superMethodName
  | groupClose
  | expression
  /-- Parsing was given too few steps. -/
  | unfinished
deriving Repr, DecidableEq

/-- The message of a cause. -/
def SyntaxError.Cause.message : SyntaxError.Cause → String
  | className => "Expect class name."
  | superclassName => "Expect superclass name."
  | classBodyOpen => "Expect '\x7b' before class body."
  | classBodyClose => "Expect '\x7d' after class body."
  | routineName kind => "Expect " ++ kind.name ++ " name."
  | routineParen kind => "Expect '(' after " ++ kind.name ++ " name."
  | tooManyParameters => "Can't have more than 255 parameters."
  | parameterName => "Expect parameter name."
  | parametersClose => "Expect ')' after parameters."
  | routineBodyOpen kind => "Expect '\x7b' before " ++ kind.name ++ " body."
  | variableName => "Expect variable name."
  | variableEnd => "Expect ';' after variable declaration."
  | forOpen => "Expect '(' after 'for'."
  | forConditionEnd => "Expect ';' after loop condition."
  | forClose => "Expect ')' after for clauses."
  | ifOpen => "Expect '(' after 'if'."
  | ifClose => "Expect ')' after if condition."
  | printEnd => "Expect ';' after value."
  | returnEnd => "Expect ';' after return value."
  | whileOpen => "Expect '(' after 'while'."
  | whileClose => "Expect ')' after condition."
  | expressionEnd => "Expect ';' after expression."
  | blockClose => "Expect '\x7d' after block."
  | invalidTarget => "Invalid assignment target."
  | propertyName => "Expect property name after '.'."
  | tooManyArguments => "Can't have more than 255 arguments."
  | argumentsClose => "Expect ')' after arguments."
  | malformedLiteral => "Malformed literal."
  | superDot => "Expect '.' after 'super'."
  | superMethodName => "Expect superclass method name."
  | groupClose => "Expect ')' after expression."
  | expression => "Expect expression."
  | unfinished => "Too few steps to finish."

/-- A token at which a program breaks the grammar, and how. -/
structure SyntaxError where
  token : Token
  cause : SyntaxError.Cause
deriving DecidableEq

end Treewalk
