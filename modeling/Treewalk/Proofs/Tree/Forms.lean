import Treewalk.Proofs.Tree.Lexemes
import Treewalk.Proofs.Tree.Worded

/-!
# The forms of printed trees

The form of an expression tells of which sort the expression is: by its head, by what stands behind
it, or by its one word. All words of the form of a tree are words, so that its text tells the form.
-/

namespace Treewalk

open Form

/-- A tree of tokens as they are scanned, each in its place, and of plain constants. -/
abbrev Expr.Proper (e : Expr) : Prop := e.MadeOf (Token.Plays Token.Scanned) Constant.Plain

abbrev VarDecl.Proper (decl : VarDecl) : Prop :=
  decl.MadeOf (Token.Plays Token.Scanned) Constant.Plain

abbrev Stmt.Proper (s : Stmt) : Prop := s.MadeOf (Token.Plays Token.Scanned) Constant.Plain

abbrev FunctionDecl.Proper (decl : FunctionDecl) : Prop :=
  decl.MadeOf (Token.Plays Token.Scanned) Constant.Plain

section Nodes

/-- The sorts of expressions. -/
inductive Expr.Node where
  | sequence
  | assign
  | binary
  | call
  | get
  | grouping
  | constant
  | logical
  | set
  | super
  | this
  | unary
  | read

def Expr.node : Expr → Expr.Node
  | .sequence .. => .sequence
  | .assign .. => .assign
  | .binary .. => .binary
  | .call .. => .call
  | .get .. => .get
  | .grouping .. => .grouping
  | .constant .. => .constant
  | .logical .. => .logical
  | .set .. => .set
  | .super .. => .super
  | .this .. => .this
  | .unary .. => .unary
  | .read .. => .read

/-- The sort of an expression that is one word. -/
def wordNode (w : String) : Expr.Node :=
  if w = "this" then .this
  else if opensNumber w = true ∨ w ∈ ["true", "false", "nil"] then .constant
  else .read

/-- The sort of an expression whose list begins with a word. -/
def headNode (head : String) (items : List Form) : Expr.Node :=
  if head = "," then .sequence
  else if head = "=" then
    match items with
    | .word _ :: _ => .assign
    | _ => .set
  else if head = "call" then .call
  else if head = "." then .get
  else if head = "group" then .grouping
  else if head = "super" then .super
  else if head ∈ ["or", "and"] then .logical
  else if items.length = 1 then .unary
  else .binary

def Form.node : Form → Expr.Node
  | .word w => wordNode w
  | .list (.word head :: items) => headNode head items
  | .list _ => .sequence

theorem Expr.binary_lexeme {t : Token} (h : t.Plays Token.Scanned .binary) :
    t.lexeme ∈ ["!=", "==", ">", ">=", "<", "<=", "-", "+", "/", "*"] :=
  h.lexeme_mem (by decide) (by decide)

theorem Expr.logical_lexeme {t : Token} (h : t.Plays Token.Scanned .logical) :
    t.lexeme ∈ ["or", "and"] :=
  h.lexeme_mem (by decide) (by decide)

theorem Expr.unary_lexeme {t : Token} (h : t.Plays Token.Scanned .unary) :
    t.lexeme ∈ ["!", "-"] :=
  h.lexeme_mem (by decide) (by decide)

theorem wordNode_name {w : String} (h : IsName w) : wordNode w = .read := by
  have notWord {v : String} (keyword : TokenKind.keyword? v ≠ none) : w ≠ v := by
    rintro rfl
    exact keyword h.plain
  rw [wordNode, if_neg (notWord (by decide)), if_neg]
  simp only [h.opensNumber, List.mem_cons, List.not_mem_nil, or_false, not_or]
  exact ⟨by decide, notWord (by decide), notWord (by decide), notWord (by decide)⟩

theorem wordNode_constant {w : String}
    (h : opensNumber w = true ∨ w ∈ ["true", "false", "nil"]) : wordNode w = .constant := by
  have other : w ≠ "this" := by
    rintro rfl
    rcases h with opens | member
    · simp [opensNumber] at opens
    · exact absurd member (by decide)
  rw [wordNode, if_neg other, if_pos h]

/-- The form of an expression tells its sort. -/
theorem Expr.node_form {e : Expr} (proper : e.Proper) : e.form.node = e.node := by
  cases e with
  | binary left operator right =>
    have lexeme := Expr.binary_lexeme proper.2.1
    simp only [List.mem_cons, List.not_mem_nil, or_false] at lexeme
    rcases lexeme with is | is | is | is | is | is | is | is | is | is <;>
      simp [Expr.form, Form.headed, Form.node, headNode, Expr.node, is]
  | logical left operator right =>
    have lexeme := Expr.logical_lexeme proper.2.1
    simp only [List.mem_cons, List.not_mem_nil, or_false] at lexeme
    rcases lexeme with is | is <;>
      simp [Expr.form, Form.headed, Form.node, headNode, Expr.node, is]
  | unary operator right =>
    have lexeme := Expr.unary_lexeme proper.1
    simp only [List.mem_cons, List.not_mem_nil, or_false] at lexeme
    rcases lexeme with is | is <;>
      simp [Expr.form, Form.headed, Form.node, headNode, Expr.node, is]
  | constant c =>
    obtain ⟨w, form, -, word⟩ := Constant.form_word proper
    rw [Expr.form, form]
    exact wordNode_constant word
  | read ref => exact wordNode_name proper.isName
  | _ => simp [Expr.form, Form.headed, Form.node, headNode, Expr.node, wordNode]

theorem Expr.node_eq {e e' : Expr} (proper : e.Proper) (proper' : e'.Proper)
    (same : e.form = e'.form) : e.node = e'.node := by
  rw [← node_form proper, ← node_form proper', same]

end Nodes

section Worded

/-- Names and operators are words. -/
theorem Token.Plays.isWord {role : TokenRole} {t : Token} (h : t.Plays Scanned role)
    (worded : role ∈ [.name, .binary, .logical, .unary]) : IsWord t.lexeme := by
  have words {texts : List String} (all : ∀ w ∈ texts, IsWord w) :
      t.lexeme ∈ texts → IsWord t.lexeme := all t.lexeme
  simp only [List.mem_cons, List.not_mem_nil, or_false] at worded
  rcases worded with rfl | rfl | rfl | rfl
  · exact h.isName.isWord
  · exact words (by simp [IsWord]) (Expr.binary_lexeme h)
  · exact words (by simp [IsWord]) (Expr.logical_lexeme h)
  · exact words (by simp [IsWord]) (Expr.unary_lexeme h)

mutual

theorem Expr.form_worded : (e : Expr) → e.Proper → e.form.Worded
  | .sequence items, h => by
    have parts := Expr.forms_worded items h
    simpa [Expr.form, IsWord] using parts
  | .assign _ name value, h => by
    have parts : IsWord name.lexeme ∧ value.form.Worded :=
      ⟨h.1.isWord (by simp), Expr.form_worded value h.2⟩
    simpa [Expr.form, IsWord] using parts
  | .binary left operator right, h => by
    have parts : IsWord operator.lexeme ∧ left.form.Worded ∧ right.form.Worded :=
      ⟨h.2.1.isWord (by simp), Expr.form_worded left h.1, Expr.form_worded right h.2.2⟩
    simpa [Expr.form, IsWord] using parts
  | .call callee _ arguments, h => by
    have parts : callee.form.Worded ∧ ∀ f ∈ Expr.forms arguments, f.Worded :=
      ⟨Expr.form_worded callee h.1, Expr.forms_worded arguments h.2.2⟩
    simpa [Expr.form, IsWord] using parts
  | .get object name, h => by
    have parts : object.form.Worded ∧ IsWord name.lexeme :=
      ⟨Expr.form_worded object h.1, h.2.isWord (by simp)⟩
    simpa [Expr.form, IsWord] using parts
  | .grouping inner, h => by
    have parts := Expr.form_worded inner h
    simpa [Expr.form, IsWord] using parts
  | .constant value, h => by
    obtain ⟨w, form, word, -⟩ := Constant.form_word h
    rw [Expr.form, form]
    exact .word word
  | .logical left operator right, h => by
    have parts : IsWord operator.lexeme ∧ left.form.Worded ∧ right.form.Worded :=
      ⟨h.2.1.isWord (by simp), Expr.form_worded left h.1, Expr.form_worded right h.2.2⟩
    simpa [Expr.form, IsWord] using parts
  | .set object name value, h => by
    have parts : (object.form.Worded ∧ IsWord name.lexeme) ∧ value.form.Worded :=
      ⟨⟨Expr.form_worded object h.1, h.2.1.isWord (by simp)⟩, Expr.form_worded value h.2.2⟩
    simpa [Expr.form, IsWord] using parts
  | .super _ _ method, h => by
    have parts : IsWord method.lexeme := h.2.isWord (by simp)
    simpa [Expr.form, IsWord] using parts
  | .this _ _, _ => by simp [Expr.form, IsWord]
  | .unary operator right, h => by
    have parts : IsWord operator.lexeme ∧ right.form.Worded :=
      ⟨h.1.isWord (by simp), Expr.form_worded right h.2⟩
    simpa [Expr.form, IsWord] using parts
  | .read ref, h => .word (h.isWord (by simp))

theorem Expr.forms_worded : (es : List Expr) →
    Expr.AllMadeOf (Token.Plays Token.Scanned) Constant.Plain es → ∀ f ∈ Expr.forms es, f.Worded
  | [], _ => nofun
  | e :: es, h => List.forall_mem_cons.2 ⟨Expr.form_worded e h.1, Expr.forms_worded es h.2⟩

end

theorem VarDecl.form_worded {decl : VarDecl} (h : decl.Proper) : decl.form.Worded := by
  obtain ⟨name, initializer⟩ := decl
  cases initializer with
  | none =>
    have parts : IsWord name.lexeme := h.1.isWord (by simp)
    simpa [VarDecl.form, IsWord] using parts
  | some value =>
    have parts : IsWord name.lexeme ∧ value.form.Worded :=
      ⟨h.1.isWord (by simp), Expr.form_worded value (h.2 _ rfl)⟩
    simpa [VarDecl.form, IsWord] using parts

mutual

theorem Stmt.form_worded : (s : Stmt) → s.Proper → s.form.Worded
  | .block body, h => by
    have parts := Stmt.forms_worded body h
    simpa [Stmt.form, IsWord] using parts
  | .classDecl name none methods, h => by
    have parts : IsWord name.lexeme ∧ ∀ f ∈ FunctionDecl.forms methods, f.Worded :=
      ⟨h.1.isWord (by simp), FunctionDecl.forms_worded methods h.2.2⟩
    simpa [Stmt.form, IsWord] using parts
  | .classDecl name (some superclass) methods, h => by
    have parts : IsWord name.lexeme ∧ IsWord superclass.name.lexeme ∧
        ∀ f ∈ FunctionDecl.forms methods, f.Worded :=
      ⟨h.1.isWord (by simp), (h.2.1 _ rfl).isWord (by simp),
        FunctionDecl.forms_worded methods h.2.2⟩
    simpa [Stmt.form, IsWord] using parts
  | .expression value, h => by
    have parts := Expr.form_worded value h
    simpa [Stmt.form, IsWord] using parts
  | .function decl, h => FunctionDecl.form_worded decl h
  | .branch condition thenBranch none, h => by
    have parts : condition.form.Worded ∧ thenBranch.form.Worded :=
      ⟨Expr.form_worded condition h.1, Stmt.form_worded thenBranch h.2⟩
    simpa [Stmt.form, IsWord] using parts
  | .branch condition thenBranch (some elseBranch), h => by
    have parts : condition.form.Worded ∧ thenBranch.form.Worded ∧ elseBranch.form.Worded :=
      ⟨Expr.form_worded condition h.1, Stmt.form_worded thenBranch h.2.1,
        Stmt.form_worded elseBranch h.2.2⟩
    simpa [Stmt.form, IsWord] using parts
  | .print value, h => by
    have parts := Expr.form_worded value h
    simpa [Stmt.form, IsWord] using parts
  | .ret _ none, _ => by simp [Stmt.form, IsWord]
  | .ret _ (some value), h => by
    have parts := Expr.form_worded value (h.2 _ rfl)
    simpa [Stmt.form, IsWord] using parts
  | .var decl, h => VarDecl.form_worded h
  | .varList decls, h => by
    have parts : ∀ decl ∈ decls, decl.form.Worded :=
      fun decl member => VarDecl.form_worded (h decl member)
    simpa [Stmt.form, IsWord] using parts
  | .loop condition body, h => by
    have parts : condition.form.Worded ∧ body.form.Worded :=
      ⟨Expr.form_worded condition h.1, Stmt.form_worded body h.2⟩
    simpa [Stmt.form, IsWord] using parts

theorem Stmt.forms_worded : (body : List Stmt) →
    Stmt.AllMadeOf (Token.Plays Token.Scanned) Constant.Plain body →
      ∀ f ∈ Stmt.forms body, f.Worded
  | [], _ => nofun
  | s :: body, h => List.forall_mem_cons.2 ⟨Stmt.form_worded s h.1, Stmt.forms_worded body h.2⟩

theorem FunctionDecl.form_worded : (decl : FunctionDecl) → decl.Proper → decl.form.Worded
  | ⟨name, params, body⟩, h => by
    have parts : IsWord name.lexeme ∧ (∀ p ∈ params, IsWord p.lexeme) ∧
        ∀ f ∈ Stmt.forms body, f.Worded :=
      ⟨h.1.isWord (by simp), fun p member => (h.2.1 p member).isWord (by simp),
        Stmt.forms_worded body h.2.2⟩
    simpa [FunctionDecl.form, IsWord] using parts

theorem FunctionDecl.forms_worded : (decls : List FunctionDecl) →
    FunctionDecl.AllMadeOf (Token.Plays Token.Scanned) Constant.Plain decls →
      ∀ f ∈ FunctionDecl.forms decls, f.Worded
  | [], _ => nofun
  | decl :: decls, h =>
    List.forall_mem_cons.2 ⟨FunctionDecl.form_worded decl h.1, FunctionDecl.forms_worded decls h.2⟩

end

end Worded

end Treewalk
