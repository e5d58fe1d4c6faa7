import Treewalk.Proofs.Grammar.Exact
import Treewalk.Proofs.Scope.Accepted
import Treewalk.Proofs.Tree.Forms

/-!
# What a printed tree tells

The form of a tree whose tokens are scanned and whose constants are plain tells the tree but for the
numbers of its references and the lines of its tokens: by induction over the one tree, with the
other one of the same sort. Sources are parsed into such trees, so what is printed of them is
unambiguous.
-/

namespace Treewalk

open Form

section Told

/-- What one function tells of items, it tells of lists of them. -/
theorem map_eq_of_map_eq {α β γ : Type} {f : α → β} {g : α → γ} {as bs : List α}
    (told : ∀ a ∈ as, ∀ b ∈ bs, f a = f b → g a = g b) (same : as.map f = bs.map f) :
    as.map g = bs.map g := by
  induction as generalizing bs with
  | nil =>
    cases bs with
    | nil => rfl
    | cons b bs => cases same
  | cons a as ih =>
    cases bs with
    | nil => cases same
    | cons b bs =>
      obtain ⟨first, rest⟩ := List.cons.inj same
      rw [List.map_cons, List.map_cons, told a (.head _) b (.head _) first,
        ih (fun c member d member' => told c (.tail _ member) d (.tail _ member')) rest]

theorem variable_eq {v v' : Variable} (h : v.name.Plays Token.Scanned .name)
    (h' : v'.name.Plays Token.Scanned .name) (same : v.name.lexeme = v'.name.lexeme) :
    v.relabel .unplaced = v'.relabel .unplaced := by
  rw [Variable.relabel, Variable.relabel, h.rename_eq h' same]
  rfl

mutual

theorem Expr.form_inj : (e : Expr) → {e' : Expr} → e.Proper → e'.Proper → e.form = e'.form →
    e.relabel .unplaced = e'.relabel .unplaced
  | .sequence items, e', h, h', same => by
    have nodes := Expr.node_eq h h' same
    cases e' with
    | sequence items' =>
      simp only [Expr.form, headed, Form.list.injEq, List.cons.injEq, true_and] at same
      rw [Expr.relabel, Expr.relabel, Expr.forms_inj items h h' same]
    | _ => cases nodes
  | .assign _ name value, e', h, h', same => by
    have nodes := Expr.node_eq h h' same
    cases e' with
    | assign _ name' value' =>
      simp only [Expr.form, headed, Form.list.injEq, List.cons.injEq, Form.word.injEq, true_and,
        and_true] at same
      rw [Expr.relabel, Expr.relabel, h.1.rename_eq h'.1 same.1,
        Expr.form_inj value h.2 h'.2 same.2]
      rfl
    | _ => cases nodes
  | .binary left operator right, e', h, h', same => by
    have nodes := Expr.node_eq h h' same
    cases e' with
    | binary left' operator' right' =>
      simp only [Expr.form, headed, Form.list.injEq, List.cons.injEq, Form.word.injEq,
        and_true] at same
      rw [Expr.relabel, Expr.relabel, Expr.form_inj left h.1 h'.1 same.2.1,
        h.2.1.relabel_eq h'.2.1 same.1, Expr.form_inj right h.2.2 h'.2.2 same.2.2]
    | _ => cases nodes
  | .call callee paren arguments, e', h, h', same => by
    have nodes := Expr.node_eq h h' same
    cases e' with
    | call callee' paren' arguments' =>
      simp only [Expr.form, headed, Form.list.injEq, List.cons.injEq, true_and] at same
      rw [Expr.relabel, Expr.relabel, Expr.form_inj callee h.1 h'.1 same.1,
        h.2.1.relabel_eq_of_one h'.2.1 ⟨_, rfl, by decide⟩,
        Expr.forms_inj arguments h.2.2 h'.2.2 same.2]
    | _ => cases nodes
  | .get object name, e', h, h', same => by
    have nodes := Expr.node_eq h h' same
    cases e' with
    | get object' name' =>
      simp only [Expr.form, headed, Form.list.injEq, List.cons.injEq, Form.word.injEq, true_and,
        and_true] at same
      rw [Expr.relabel, Expr.relabel, Expr.form_inj object h.1 h'.1 same.1,
        h.2.relabel_eq h'.2 same.2]
    | _ => cases nodes
  | .grouping inner, e', h, h', same => by
    have nodes := Expr.node_eq h h' same
    cases e' with
    | grouping inner' =>
      simp only [Expr.form, headed, Form.list.injEq, List.cons.injEq, true_and, and_true] at same
      have proper' : inner'.Proper := h'
      rw [Expr.relabel, Expr.relabel, Expr.form_inj inner h proper' same]
    | _ => cases nodes
  | .constant value, e', h, h', same => by
    have nodes := Expr.node_eq h h' same
    cases e' with
    | constant value' =>
      simp only [Expr.form] at same
      rw [Constant.form_inj h h' same]
    | _ => cases nodes
  | .logical left operator right, e', h, h', same => by
    have nodes := Expr.node_eq h h' same
    cases e' with
    | logical left' operator' right' =>
      simp only [Expr.form, headed, Form.list.injEq, List.cons.injEq, Form.word.injEq,
        and_true] at same
      rw [Expr.relabel, Expr.relabel, Expr.form_inj left h.1 h'.1 same.2.1,
        h.2.1.relabel_eq h'.2.1 same.1, Expr.form_inj right h.2.2 h'.2.2 same.2.2]
    | _ => cases nodes
  | .set object name value, e', h, h', same => by
    have nodes := Expr.node_eq h h' same
    cases e' with
    | set object' name' value' =>
      simp only [Expr.form, headed, Form.list.injEq, List.cons.injEq, Form.word.injEq, true_and,
        and_true] at same
      rw [Expr.relabel, Expr.relabel, Expr.form_inj object h.1 h'.1 same.1.1,
        h.2.1.relabel_eq h'.2.1 same.1.2, Expr.form_inj value h.2.2 h'.2.2 same.2]
    | _ => cases nodes
  | .super _ keyword method, e', h, h', same => by
    have nodes := Expr.node_eq h h' same
    cases e' with
    | super _ keyword' method' =>
      simp only [Expr.form, headed, Form.list.injEq, List.cons.injEq, Form.word.injEq, true_and,
        and_true] at same
      rw [Expr.relabel, Expr.relabel, h.1.relabel_eq_of_one h'.1 ⟨_, rfl, by decide⟩,
        h.2.relabel_eq h'.2 same]
      rfl
    | _ => cases nodes
  | .this _ keyword, e', h, h', same => by
    have nodes := Expr.node_eq h h' same
    cases e' with
    | this _ keyword' =>
      have keywords : keyword.relabel .unplaced = keyword'.relabel .unplaced :=
        Token.Plays.relabel_eq_of_one h h' ⟨_, rfl, by decide⟩
      rw [Expr.relabel, Expr.relabel, keywords]
      rfl
    | _ => cases nodes
  | .unary operator right, e', h, h', same => by
    have nodes := Expr.node_eq h h' same
    cases e' with
    | unary operator' right' =>
      simp only [Expr.form, headed, Form.list.injEq, List.cons.injEq, Form.word.injEq,
        and_true] at same
      rw [Expr.relabel, Expr.relabel, h.1.relabel_eq h'.1 same.1,
        Expr.form_inj right h.2 h'.2 same.2]
    | _ => cases nodes
  | .read ref, e', h, h', same => by
    have nodes := Expr.node_eq h h' same
    cases e' with
    | read ref' =>
      simp only [Expr.form, Form.word.injEq] at same
      rw [Expr.relabel, Expr.relabel, variable_eq h h' same]
    | _ => cases nodes

theorem Expr.forms_inj : (es : List Expr) → {es' : List Expr} →
    Expr.AllMadeOf (Token.Plays Token.Scanned) Constant.Plain es →
    Expr.AllMadeOf (Token.Plays Token.Scanned) Constant.Plain es' →
    Expr.forms es = Expr.forms es' →
    Expr.relabelAll .unplaced es = Expr.relabelAll .unplaced es'
  | [], [], _, _, _ => rfl
  | [], _ :: _, _, _, same => nomatch same
  | _ :: _, [], _, _, same => nomatch same
  | e :: es, e' :: es', h, h', same => by
    obtain ⟨first, rest⟩ := List.cons.inj same
    rw [Expr.relabelAll, Expr.relabelAll, Expr.form_inj e h.1 h'.1 first,
      Expr.forms_inj es h.2 h'.2 rest]

end

theorem VarDecl.form_inj {decl decl' : VarDecl} (h : decl.Proper) (h' : decl'.Proper)
    (same : decl.form = decl'.form) : decl.relabel .unplaced = decl'.relabel .unplaced := by
  obtain ⟨name, initializer⟩ := decl
  obtain ⟨name', initializer'⟩ := decl'
  cases initializer with
  | none =>
    cases initializer' with
    | none =>
      simp only [VarDecl.form, headed, Form.list.injEq, List.cons.injEq, Form.word.injEq, true_and,
        and_true] at same
      rw [VarDecl.relabel, VarDecl.relabel, h.1.rename_eq h'.1 same]
    | some value' => simp [VarDecl.form, headed] at same
  | some value =>
    cases initializer' with
    | none => simp [VarDecl.form, headed] at same
    | some value' =>
      simp only [VarDecl.form, headed, Form.list.injEq, List.cons.injEq, Form.word.injEq, true_and,
        and_true] at same
      have values := Expr.form_inj value (h.2 _ rfl) (h'.2 _ rfl) same.2
      simp only [VarDecl.relabel, h.1.rename_eq h'.1 same.1, Option.map_some, values]

/-- What the form of a statement begins with. -/
def Stmt.head : Stmt → String
  | .block _ => "block"
  | .classDecl .. => "class"
  | .expression _ => ";"
  | .function _ => "fun"
  | .branch .. => "if"
  | .print _ => "print"
  | .ret .. => "return"
  | .var _ => "var"
  | .varList _ => "var-list"
  | .loop .. => "while"

def Form.head : Form → String
  | .list (.word head :: _) => head
  | _ => ""

theorem Stmt.head_form (s : Stmt) : s.form.head = s.head := by
  fun_cases Stmt.form s with
  | case5 decl =>
    cases decl
    rw [FunctionDecl.form]
    rfl
  | case11 decl =>
    rw [VarDecl.form]
    split <;> rfl
  | _ => rfl

theorem Stmt.head_eq {s s' : Stmt} (same : s.form = s'.form) : s.head = s'.head := by
  rw [← head_form, ← head_form, same]

/-- The form of a function is a list and no word. -/
theorem FunctionDecl.form_ne_word (decl : FunctionDecl) (w : String) : decl.form ≠ .word w := by
  cases decl
  simp [FunctionDecl.form, headed]

theorem FunctionDecl.forms_ne_word (decls : List FunctionDecl) (w : String) (rest : List Form) :
    FunctionDecl.forms decls ≠ .word w :: rest := by
  cases decls with
  | nil => nofun
  | cons decl decls => exact fun same => decl.form_ne_word w (List.cons.inj same).1

mutual

theorem Stmt.form_inj : (s : Stmt) → {s' : Stmt} → s.Proper → s'.Proper → s.form = s'.form →
    s.relabel .unplaced = s'.relabel .unplaced
  | .block body, s', h, h', same => by
    have heads := Stmt.head_eq same
    cases s' with
    | block body' =>
      simp only [Stmt.form, headed, Form.list.injEq, List.cons.injEq, true_and] at same
      rw [Stmt.relabel, Stmt.relabel, Stmt.forms_inj body h h' same]
    | _ => simp [Stmt.head] at heads
  | .classDecl name superclass methods, s', h, h', same => by
    have heads := Stmt.head_eq same
    cases s' with
    | classDecl name' superclass' methods' =>
      cases superclass with
      | none =>
        cases superclass' with
        | none =>
          simp only [Stmt.form, headed, Form.list.injEq, List.cons.injEq, Form.word.injEq,
            true_and] at same
          rw [Stmt.relabel, Stmt.relabel, h.1.relabel_eq h'.1 same.1,
            FunctionDecl.forms_inj methods h.2.2 h'.2.2 same.2]
        | some v' =>
          simp only [Stmt.form, headed, Form.list.injEq, List.cons.injEq, true_and] at same
          exact absurd same.2 (FunctionDecl.forms_ne_word _ _ _)
      | some v =>
        cases superclass' with
        | none =>
          simp only [Stmt.form, headed, Form.list.injEq, List.cons.injEq, true_and] at same
          exact absurd same.2.symm (FunctionDecl.forms_ne_word _ _ _)
        | some v' =>
          simp only [Stmt.form, headed, Form.list.injEq, List.cons.injEq, Form.word.injEq,
            true_and] at same
          have above := variable_eq (h.2.1 _ rfl) (h'.2.1 _ rfl) same.2.1
          rw [Stmt.relabel, Stmt.relabel, h.1.relabel_eq h'.1 same.1, Option.map_some,
            Option.map_some, above, FunctionDecl.forms_inj methods h.2.2 h'.2.2 same.2.2]
    | _ => simp [Stmt.head] at heads
  | .expression value, s', h, h', same => by
    have heads := Stmt.head_eq same
    cases s' with
    | expression value' =>
      simp only [Stmt.form, headed, Form.list.injEq, List.cons.injEq, true_and, and_true] at same
      have proper' : value'.Proper := h'
      rw [Stmt.relabel, Stmt.relabel, Expr.form_inj value h proper' same]
    | _ => simp [Stmt.head] at heads
  | .function decl, s', h, h', same => by
    have heads := Stmt.head_eq same
    cases s' with
    | function decl' =>
      simp only [Stmt.form] at same
      rw [Stmt.relabel, Stmt.relabel, FunctionDecl.form_inj decl h h' same]
    | _ => simp [Stmt.head] at heads
  | .branch condition thenBranch none, s', h, h', same => by
    have heads := Stmt.head_eq same
    cases s' with
    | branch condition' thenBranch' elseBranch' =>
      cases elseBranch' with
      | none =>
        simp only [Stmt.form, headed, Form.list.injEq, List.cons.injEq, true_and, and_true] at same
        rw [Stmt.relabel, Stmt.relabel, Expr.form_inj condition h.1 h'.1 same.1,
          Stmt.form_inj thenBranch h.2 h'.2 same.2]
      | some _ => simp [Stmt.form, headed] at same
    | _ => simp [Stmt.head] at heads
  | .branch condition thenBranch (some elseBranch), s', h, h', same => by
    have heads := Stmt.head_eq same
    cases s' with
    | branch condition' thenBranch' elseBranch' =>
      cases elseBranch' with
      | none => simp [Stmt.form, headed] at same
      | some elseBranch' =>
        simp only [Stmt.form, headed, Form.list.injEq, List.cons.injEq, true_and, and_true] at same
        rw [Stmt.relabel, Stmt.relabel, Expr.form_inj condition h.1 h'.1 same.1,
          Stmt.form_inj thenBranch h.2.1 h'.2.1 same.2.1,
          Stmt.form_inj elseBranch h.2.2 h'.2.2 same.2.2]
    | _ => simp [Stmt.head] at heads
  | .print value, s', h, h', same => by
    have heads := Stmt.head_eq same
    cases s' with
    | print value' =>
      simp only [Stmt.form, headed, Form.list.injEq, List.cons.injEq, true_and, and_true] at same
      have proper' : value'.Proper := h'
      rw [Stmt.relabel, Stmt.relabel, Expr.form_inj value h proper' same]
    | _ => simp [Stmt.head] at heads
  | .ret keyword value, s', h, h', same => by
    have heads := Stmt.head_eq same
    cases s' with
    | ret keyword' value' =>
      have keywords := h.1.relabel_eq_of_one h'.1 ⟨_, rfl, by decide⟩
      cases value with
      | none =>
        cases value' with
        | none => rw [Stmt.relabel, Stmt.relabel, keywords]
        | some _ => simp [Stmt.form, headed] at same
      | some value =>
        cases value' with
        | none => simp [Stmt.form, headed] at same
        | some value' =>
          simp only [Stmt.form, headed, Form.list.injEq, List.cons.injEq, true_and,
            and_true] at same
          rw [Stmt.relabel, Stmt.relabel, keywords, Option.map_some, Option.map_some,
            Expr.form_inj value (h.2 _ rfl) (h'.2 _ rfl) same]
    | _ => simp [Stmt.head] at heads
  | .var decl, s', h, h', same => by
    have heads := Stmt.head_eq same
    cases s' with
    | var decl' =>
      simp only [Stmt.form] at same
      have proper' : decl'.Proper := h'
      rw [Stmt.relabel, Stmt.relabel, VarDecl.form_inj h proper' same]
    | _ => simp [Stmt.head] at heads
  | .varList decls, s', h, h', same => by
    have heads := Stmt.head_eq same
    cases s' with
    | varList decls' =>
      simp only [Stmt.form, headed, Form.list.injEq, List.cons.injEq, true_and] at same
      have items : ∀ decl ∈ decls, ∀ decl' ∈ decls', decl.form = decl'.form →
          decl.relabel .unplaced = decl'.relabel .unplaced := fun decl member decl' member' =>
        VarDecl.form_inj (h decl member) (h' decl' member')
      rw [Stmt.relabel, Stmt.relabel, map_eq_of_map_eq items same]
    | _ => simp [Stmt.head] at heads
  | .loop condition body, s', h, h', same => by
    have heads := Stmt.head_eq same
    cases s' with
    | loop condition' body' =>
      simp only [Stmt.form, headed, Form.list.injEq, List.cons.injEq, true_and, and_true] at same
      rw [Stmt.relabel, Stmt.relabel, Expr.form_inj condition h.1 h'.1 same.1,
        Stmt.form_inj body h.2 h'.2 same.2]
    | _ => simp [Stmt.head] at heads

theorem Stmt.forms_inj : (body : List Stmt) → {body' : List Stmt} →
    Stmt.AllMadeOf (Token.Plays Token.Scanned) Constant.Plain body →
    Stmt.AllMadeOf (Token.Plays Token.Scanned) Constant.Plain body' →
    Stmt.forms body = Stmt.forms body' →
    Stmt.relabelAll .unplaced body = Stmt.relabelAll .unplaced body'
  | [], [], _, _, _ => rfl
  | [], _ :: _, _, _, same => nomatch same
  | _ :: _, [], _, _, same => nomatch same
  | s :: body, s' :: body', h, h', same => by
    obtain ⟨first, rest⟩ := List.cons.inj same
    rw [Stmt.relabelAll, Stmt.relabelAll, Stmt.form_inj s h.1 h'.1 first,
      Stmt.forms_inj body h.2 h'.2 rest]

theorem FunctionDecl.form_inj : (decl : FunctionDecl) → {decl' : FunctionDecl} → decl.Proper →
    decl'.Proper → decl.form = decl'.form →
    decl.relabel .unplaced = decl'.relabel .unplaced
  | ⟨name, params, body⟩, ⟨name', params', body'⟩, h, h', same => by
    simp only [FunctionDecl.form, headed, Form.list.injEq, List.cons.injEq, Form.word.injEq,
      true_and] at same
    have names : ∀ p ∈ params, ∀ p' ∈ params', Form.word p.lexeme = Form.word p'.lexeme →
        p.rename .unplaced = p'.rename .unplaced := fun p member p' member' same =>
      (h.2.1 p member).rename_eq (h'.2.1 p' member') (Form.word.inj same)
    rw [FunctionDecl.relabel, FunctionDecl.relabel, h.1.relabel_eq h'.1 same.1,
      map_eq_of_map_eq names same.2.1, Stmt.forms_inj body h.2.2 h'.2.2 same.2.2]

theorem FunctionDecl.forms_inj : (decls : List FunctionDecl) → {decls' : List FunctionDecl} →
    FunctionDecl.AllMadeOf (Token.Plays Token.Scanned) Constant.Plain decls →
    FunctionDecl.AllMadeOf (Token.Plays Token.Scanned) Constant.Plain decls' →
    FunctionDecl.forms decls = FunctionDecl.forms decls' →
    FunctionDecl.relabelAll .unplaced decls = FunctionDecl.relabelAll .unplaced decls'
  | [], [], _, _, _ => rfl
  | [], _ :: _, _, _, same => nomatch same
  | _ :: _, [], _, _, same => nomatch same
  | decl :: decls, decl' :: decls', h, h', same => by
    obtain ⟨first, rest⟩ := List.cons.inj same
    rw [FunctionDecl.relabelAll, FunctionDecl.relabelAll,
      FunctionDecl.form_inj decl h.1 h'.1 first, FunctionDecl.forms_inj decls h.2 h'.2 rest]

end

end Told

/-- The program has no texts, and no numbers that are not finite. -/
def PlainProgram (program : List Stmt) : Prop :=
  Stmt.AllMadeOf (fun _ _ => True) Constant.Plain program

theorem prefixTexts_eq (program : List Stmt) :
    program.map Stmt.prefixText = (Stmt.forms program).map Form.text := by
  induction program with
  | nil => rfl
  | cons s rest ih => rw [List.map_cons, ih, Stmt.forms, List.map_cons, Stmt.prefixText]

/-- The tokens of a program that was parsed are scanned, each in its place. -/
theorem proper_of_parseSource {source : List UInt8} {first next : NodeId} {program : List Stmt}
    (parsed : parseSource source first = (.ok program, next)) (plain : PlainProgram program) :
    Stmt.AllMadeOf (Token.Plays Token.Scanned) Constant.Plain program := by
  have derived := program_of_parse (parseSource_ok parsed).2
  exact derived.roles
    (fun t member => Source.bare_of_mem_scan (List.takeWhile_subset _ member)) plain

/-- A printed program is unambiguous. Two sources that are parsed without errors into programs
without texts and without numbers that are not finite are printed alike only if the programs are the
same but for the numbers of references and the lines of tokens. -/
theorem printed_unambiguous {source source' : List UInt8} {first first' next next' : NodeId}
    {program program' : List Stmt} (parsed : parseSource source first = (.ok program, next))
    (parsed' : parseSource source' first' = (.ok program', next')) (plain : PlainProgram program)
    (plain' : PlainProgram program')
    (same : program.map Stmt.prefixText = program'.map Stmt.prefixText) :
    Stmt.relabelAll .unplaced program = Stmt.relabelAll .unplaced program' := by
  have proper := proper_of_parseSource parsed plain
  have proper' := proper_of_parseSource parsed' plain'
  have worded := Stmt.forms_worded program proper
  have worded' := Stmt.forms_worded program' proper'
  rw [prefixTexts_eq, prefixTexts_eq] at same
  have forms := map_eq_of_map_eq (g := fun f => f)
    (fun f member f' member' => Form.text_inj (worded f member) (worded' f' member')) same
  rw [List.map_id', List.map_id'] at forms
  exact Stmt.forms_inj program proper proper' forms

/-- A call on one line, and on the second of three. -/
def tightCall : List UInt8 := ['a', '=', 'f', '(', '-', 'b', ')', ';'].map Source.byte

def looseCall : List UInt8 :=
  ['\n', 'a', '=', ' ', 'f', '(', '-', 'b', '\n', ')', ' ', ';'].map Source.byte

/-- What the two sources are parsed into. -/
def assignedCall (id : NodeId) (line closing : Nat) : List Stmt :=
  [.expression (.assign id ⟨.identifier, "a", none, line⟩
    (.call (.read ⟨id + 1, ⟨.identifier, "f", none, line⟩⟩) ⟨.rightParen, ")", none, closing⟩
      [.unary ⟨.minus, "-", none, line⟩ (.read ⟨id + 2, ⟨.identifier, "b", none, line⟩⟩)]))]

theorem printed_unambiguous_calls :
    parseSource tightCall 0 = (.ok (assignedCall 0 1 1), 3) ∧
      parseSource looseCall 7 = (.ok (assignedCall 7 2 3), 10) ∧
      PlainProgram (assignedCall 0 1 1) ∧ PlainProgram (assignedCall 7 2 3) ∧
      (assignedCall 0 1 1).map Stmt.prefixText = (assignedCall 7 2 3).map Stmt.prefixText ∧
      Stmt.relabelAll .unplaced (assignedCall 0 1 1) =
        Stmt.relabelAll .unplaced (assignedCall 7 2 3) := by
  have tight : parseSource tightCall 0 = (.ok (assignedCall 0 1 1), 3) := by cbv
  have loose : parseSource looseCall 7 = (.ok (assignedCall 7 2 3), 10) := by cbv
  have plain (id line closing : Nat) : PlainProgram (assignedCall id line closing) := by
    simp [PlainProgram, assignedCall, Stmt.AllMadeOf, Stmt.MadeOf, Expr.MadeOf, Expr.AllMadeOf]
  have same : (assignedCall 0 1 1).map Stmt.prefixText =
      (assignedCall 7 2 3).map Stmt.prefixText := by rfl
  exact ⟨tight, loose, plain 0 1 1, plain 7 2 3, same,
    printed_unambiguous tight loose (plain 0 1 1) (plain 7 2 3) same⟩

end Treewalk
