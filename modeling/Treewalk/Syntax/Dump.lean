import Treewalk.Syntax
import Treewalk.Text.Json

/-!
# Programs as JSON

`Stmt.json` writes a tree out in full. A node is an object with one field, named for its kind; a
constant without a value is only its name. Tokens and the numbers of references are kept, so the
tree can be read off again.
-/

namespace Treewalk

def Token.Literal.json : Token.Literal → Json
  | .number value => .tagged "Number" (.number value)
  | .text value => .tagged "Str" (.string value)

def Token.json (t : Token) : Json :=
  .object [("token_type", .string t.kind.name), ("lexeme", .string t.lexeme),
    ("literal", .ofOption (t.literal.map Token.Literal.json)), ("line", .natural t.line)]

def Variable.json (v : Variable) : Json :=
  .object [("id", .natural v.id), ("name", v.name.json)]

def Constant.json : Constant → Json
  | .number value => .tagged "Number" (.number value)
  | .text value => .tagged "Str" (.string value)
  | .true => .string "True"
  | .false => .string "False"
  | .nil => .string "Nil"

mutual

def Expr.json : Expr → Json
  | .sequence items => .tagged "CommaSeparated" (.array (Expr.jsons items))
  | .assign id name value =>
    .tagged "Assign" (.object [("id", .natural id), ("name", name.json), ("value", value.json)])
  | .binary left operator right =>
    .tagged "Binary"
      (.object [("left", left.json), ("operator", operator.json), ("right", right.json)])
  | .call callee paren arguments =>
    .tagged "Call"
      (.object [("callee", callee.json), ("paren", paren.json),
        ("arguments", .array (Expr.jsons arguments))])
  | .get object name => .tagged "Get" (.object [("object", object.json), ("name", name.json)])
  | .grouping inner => .tagged "Grouping" inner.json
  | .constant value => .tagged "Literal" value.json
  | .logical left operator right =>
    .tagged "Logical"
      (.object [("left", left.json), ("operator", operator.json), ("right", right.json)])
  | .set object name value =>
    .tagged "Set"
      (.object [("object", object.json), ("name", name.json), ("value", value.json)])
  | .super id keyword method =>
    .tagged "Super"
      (.object [("id", .natural id), ("keyword", keyword.json), ("method", method.json)])
  | .this id keyword => .tagged "This" (.object [("id", .natural id), ("keyword", keyword.json)])
  | .unary operator right =>
    .tagged "Unary" (.object [("operator", operator.json), ("right", right.json)])
  | .read ref => .tagged "Variable" ref.json

def Expr.jsons : List Expr → List Json
  | [] => []
  | e :: rest => e.json :: Expr.jsons rest

end

def VarDecl.json (decl : VarDecl) : Json :=
  .object [("name", decl.name.json), ("initializer", .ofOption (decl.initializer.map Expr.json))]

mutual

def Stmt.json : Stmt → Json
  | .block body => .tagged "Block" (.array (Stmt.jsons body))
  | .classDecl name superclass methods =>
    .tagged "Class"
      (.object [("name", name.json), ("superclass", .ofOption (superclass.map Variable.json)),
        ("methods", .array (FunctionDecl.jsons methods))])
  | .expression value => .tagged "Expression" value.json
  | .function decl => .tagged "Function" decl.json
  | .branch condition thenBranch none =>
    .tagged "If"
      (.object [("condition", condition.json), ("then_branch", thenBranch.json),
        ("else_branch", .null)])
  | .branch condition thenBranch (some elseBranch) =>
    .tagged "If"
      (.object [("condition", condition.json), ("then_branch", thenBranch.json),
        ("else_branch", elseBranch.json)])
  | .print value => .tagged "Print" value.json
  | .ret keyword value =>
    .tagged "Return"
      (.object [("keyword", keyword.json), ("value", .ofOption (value.map Expr.json))])
  | .var decl => .tagged "Var" decl.json
  | .varList decls => .tagged "VarList" (.array (decls.map VarDecl.json))
  | .loop condition body =>
    .tagged "While" (.object [("condition", condition.json), ("body", body.json)])

def Stmt.jsons : List Stmt → List Json
  | [] => []
  | s :: rest => s.json :: Stmt.jsons rest

def FunctionDecl.json : FunctionDecl → Json
  | ⟨name, params, body⟩ =>
    .object [("name", name.json), ("params", .array (params.map Token.json)),
      ("body", .array (Stmt.jsons body))]

def FunctionDecl.jsons : List FunctionDecl → List Json
  | [] => []
  | f :: rest => f.json :: FunctionDecl.jsons rest

end

/-- A program as a JSON value: the list of its statements. -/
def programJson (program : List Stmt) : Json := .array (Stmt.jsons program)

end Treewalk
