import Treewalk.Syntax

/-!
# The prefix form of a program

A `Form` is a word or a list of forms in parentheses. Every expression and every statement has
one: the operator or the name of the construct comes first, its parts follow.
-/

namespace Treewalk

/-- A word, or forms between parentheses. -/
inductive Form where
  | word (text : String)
  | list (items : List Form)

namespace Form

mutual

/-- The written form; the items of a list are parted by blanks. -/
def text : Form → String
  | .word text => text
  | .list items => "(" ++ String.intercalate " " (texts items) ++ ")"

def texts : List Form → List String
  | [] => []
  | item :: rest => item.text :: texts rest

end

/-- A list that begins with a word. -/
def headed (head : String) (items : List Form) : Form := .list (.word head :: items)

end Form

/-- A string stands for itself, without quotes. -/
def Constant.form : Constant → Form
  | .number value => .word (Number.prefixForm value)
  | .text value => .word value
  | .true => .word "true"
  | .false => .word "false"
  | .nil => .word "nil"

mutual

def Expr.form : Expr → Form
  | .sequence items => .headed "," (Expr.forms items)
  | .assign _ name value => .headed "=" [.word name.lexeme, value.form]
  | .binary left operator right => .headed operator.lexeme [left.form, right.form]
  | .call callee _ arguments => .headed "call" (callee.form :: Expr.forms arguments)
  | .get object name => .headed "." [object.form, .word name.lexeme]
  | .grouping inner => .headed "group" [inner.form]
  | .constant value => value.form
  | .logical left operator right => .headed operator.lexeme [left.form, right.form]
  | .set object name value =>
    .headed "=" [.headed "." [object.form, .word name.lexeme], value.form]
  | .super _ _ method => .headed "super" [.word method.lexeme]
  | .this _ _ => .word "this"
  | .unary operator right => .headed operator.lexeme [right.form]
  | .read ref => .word ref.name.lexeme

def Expr.forms : List Expr → List Form
  | [] => []
  | e :: rest => e.form :: Expr.forms rest

end

def VarDecl.form (decl : VarDecl) : Form :=
  match decl.initializer with
  | some value => .headed "var" [.word decl.name.lexeme, .word "=", value.form]
  | none => .headed "var" [.word decl.name.lexeme]

mutual

def Stmt.form : Stmt → Form
  | .block body => .headed "block" (Stmt.forms body)
  | .classDecl name none methods =>
    .headed "class" (.word name.lexeme :: FunctionDecl.forms methods)
  | .classDecl name (some superclass) methods =>
    .headed "class" (.word name.lexeme :: .word "<" :: .word superclass.name.lexeme ::
      FunctionDecl.forms methods)
  | .expression value => .headed ";" [value.form]
  | .function decl => decl.form
  | .branch condition thenBranch none => .headed "if" [condition.form, thenBranch.form]
  | .branch condition thenBranch (some elseBranch) =>
    .headed "if" [condition.form, thenBranch.form, elseBranch.form]
  | .print value => .headed "print" [value.form]
  | .ret _ none => .headed "return" []
  | .ret _ (some value) => .headed "return" [value.form]
  | .var decl => decl.form
  | .varList decls => .headed "var-list" (decls.map VarDecl.form)
  | .loop condition body => .headed "while" [condition.form, body.form]

def Stmt.forms : List Stmt → List Form
  | [] => []
  | s :: rest => s.form :: Stmt.forms rest

def FunctionDecl.form : FunctionDecl → Form
  | ⟨name, params, body⟩ =>
    .headed "fun" (.word name.lexeme :: .list (params.map fun p => .word p.lexeme) ::
      Stmt.forms body)

def FunctionDecl.forms : List FunctionDecl → List Form
  | [] => []
  | f :: rest => f.form :: FunctionDecl.forms rest

end

/-- The prefix form of an expression, written. -/
def Expr.prefixText (e : Expr) : String := e.form.text

/-- The prefix form of a statement, written. -/
def Stmt.prefixText (s : Stmt) : String := s.form.text

end Treewalk
