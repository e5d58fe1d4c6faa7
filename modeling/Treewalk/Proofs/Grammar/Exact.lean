import Treewalk.Proofs.Grammar.CompleteStmt

/-!
# The parser is exact

Every `else` can be given to the nearest `if`, so the grammar without that freedom derives the same
programs. On these the parser is exact: it accepts a list of tokens if and only if it is a program,
and the tree that it returns is that of the derivation.
-/

namespace Treewalk.Grammar

open Treewalk.Parser

mutual

theorem Declaration.anywhere {i j : NodeId} {ts : List Token} {s : Stmt} :
    Declaration .nearest i ts s j → Declaration .anywhere i ts s j
  | .classDecl kind identifier above isOpening hs isClosing =>
    .classDecl kind identifier above isOpening hs.anywhere isClosing
  | .function kind h => .function kind h.anywhere
  | .var h => .var h
  | .statement h => .statement h.anywhere

theorem Statement.anywhere {i j : NodeId} {ts : List Token} {s : Stmt} {isOpen : Bool} :
    Statement .nearest i ts s isOpen j → Statement .anywhere i ts s isOpen j
  | .expression h => .expression h
  | .forLoop kind isOpening hinitializer hcondition isSemicolon hincrement isClosing hbody =>
    .forLoop kind isOpening hinitializer hcondition isSemicolon hincrement isClosing
      hbody.anywhere
  | .branch kind isOpening hcondition isClosing hthen =>
    .branch kind isOpening hcondition isClosing hthen.anywhere
  | .branchElse kind isOpening hcondition isClosing hthen _ isElse helse =>
    .branchElse kind isOpening hcondition isClosing hthen.anywhere nofun isElse helse.anywhere
  | .print kind he isSemicolon => .print kind he isSemicolon
  | .ret kind hvalue isSemicolon => .ret kind hvalue isSemicolon
  | .loop kind isOpening hcondition isClosing hbody =>
    .loop kind isOpening hcondition isClosing hbody.anywhere
  | .block kind hbody => .block kind hbody.anywhere

theorem Block.anywhere {i j : NodeId} {ts : List Token} {body : List Stmt} :
    Block .nearest i ts body j → Block .anywhere i ts body j
  | .mk hs isClosing => .mk hs.anywhere isClosing

theorem Declarations.anywhere {i j : NodeId} {ts : List Token} {body : List Stmt} :
    Declarations .nearest i ts body j → Declarations .anywhere i ts body j
  | .nil => .nil
  | .cons h hs => .cons h.anywhere hs.anywhere

theorem Routine.anywhere {i j : NodeId} {ts : List Token} {decl : FunctionDecl} :
    Routine .nearest i ts decl j → Routine .anywhere i ts decl j
  | .mk identifier isOpening hparams isClosing isBrace hbody =>
    .mk identifier isOpening hparams isClosing isBrace hbody.anywhere

theorem Methods.anywhere {i j : NodeId} {ts : List Token} {decls : List FunctionDecl} :
    Methods .nearest i ts decls j → Methods .anywhere i ts decls j
  | .nil => .nil
  | .cons h hs => .cons h.anywhere hs.anywhere

end

/-- A statement that ends in an `if` without an `else` takes the `else` behind it: it belongs to the
last such `if`. -/
theorem Statement.takeElse {j k : NodeId} {vs : List Token} {keywordElse : Token}
    {elseBranch : Stmt} {elseOpen : Bool} (isElse : keywordElse.kind = .kwElse)
    (helse : Statement .nearest j vs elseBranch elseOpen k) {i : NodeId} {ts : List Token}
    {s : Stmt} {isOpen : Bool} :
    Statement .nearest i ts s isOpen j → isOpen = true →
      ∃ s' isOpen', Statement .nearest i (ts ++ keywordElse :: vs) s' isOpen' k
  | .forLoop kind isOpening hinitializer hcondition isSemicolon hincrement isClosing hbody =>
    fun bodyOpen => by
      obtain ⟨_, _, hbody⟩ := Statement.takeElse isElse helse hbody bodyOpen
      simp only [List.cons_append, List.append_assoc]
      exact ⟨_, _, .forLoop kind isOpening hinitializer hcondition isSemicolon hincrement isClosing
        hbody⟩
  | .branch kind isOpening hcondition isClosing hthen => fun ended => by
    rename_i thenOpen
    have inner := Statement.takeElse isElse helse hthen
    simp only [List.cons_append, List.append_assoc]
    cases thenOpen with
    | true =>
      obtain ⟨_, _, hthen⟩ := inner rfl
      exact ⟨_, _, .branch kind isOpening hcondition isClosing hthen⟩
    | false =>
      exact ⟨_, _, .branchElse kind isOpening hcondition isClosing hthen (fun _ => rfl) isElse
        helse⟩
  | .branchElse kind isOpening hcondition isClosing hthen closed isElse' helse' =>
    fun elseOpen => by
      obtain ⟨_, _, helse'⟩ := Statement.takeElse isElse helse helse' elseOpen
      simp only [List.cons_append, List.append_assoc]
      exact ⟨_, _, .branchElse kind isOpening hcondition isClosing hthen closed isElse' helse'⟩
  | .loop kind isOpening hcondition isClosing hbody => fun bodyOpen => by
    obtain ⟨_, _, hbody⟩ := Statement.takeElse isElse helse hbody bodyOpen
    simp only [List.cons_append, List.append_assoc]
    exact ⟨_, _, .loop kind isOpening hcondition isClosing hbody⟩
  | .expression _ | .print .. | .ret .. | .block .. => nofun

mutual

/-- What the grammar derives it also derives when each `else` belongs to the nearest `if`; the tree
may be another one. -/
theorem Declaration.nearest {i j : NodeId} {ts : List Token} {s : Stmt} :
    Declaration .anywhere i ts s j → ∃ s', Declaration .nearest i ts s' j
  | .classDecl kind identifier above isOpening hs isClosing => by
    obtain ⟨_, hs⟩ := hs.nearest
    exact ⟨_, .classDecl kind identifier above isOpening hs isClosing⟩
  | .function kind h => by
    obtain ⟨_, h⟩ := h.nearest
    exact ⟨_, .function kind h⟩
  | .var h => ⟨_, .var h⟩
  | .statement h => by
    obtain ⟨_, _, h⟩ := h.nearest
    exact ⟨_, .statement h⟩

theorem Statement.nearest {i j : NodeId} {ts : List Token} {s : Stmt} {isOpen : Bool} :
    Statement .anywhere i ts s isOpen j → ∃ s' isOpen', Statement .nearest i ts s' isOpen' j
  | .expression h => ⟨_, _, .expression h⟩
  | .forLoop kind isOpening hinitializer hcondition isSemicolon hincrement isClosing hbody => by
    obtain ⟨_, _, hbody⟩ := hbody.nearest
    exact ⟨_, _, .forLoop kind isOpening hinitializer hcondition isSemicolon hincrement isClosing
      hbody⟩
  | .branch kind isOpening hcondition isClosing hthen => by
    obtain ⟨_, _, hthen⟩ := hthen.nearest
    exact ⟨_, _, .branch kind isOpening hcondition isClosing hthen⟩
  | .branchElse kind isOpening hcondition isClosing hthen _ isElse helse => by
    obtain ⟨_, thenOpen, hthen⟩ := hthen.nearest
    obtain ⟨_, _, helse⟩ := helse.nearest
    cases thenOpen with
    | false =>
      exact ⟨_, _,
        .branchElse kind isOpening hcondition isClosing hthen (fun _ => rfl) isElse helse⟩
    | true =>
      obtain ⟨_, _, hthen⟩ := Statement.takeElse isElse helse hthen rfl
      exact ⟨_, _, .branch kind isOpening hcondition isClosing hthen⟩
  | .print kind he isSemicolon => ⟨_, _, .print kind he isSemicolon⟩
  | .ret kind hvalue isSemicolon => ⟨_, _, .ret kind hvalue isSemicolon⟩
  | .loop kind isOpening hcondition isClosing hbody => by
    obtain ⟨_, _, hbody⟩ := hbody.nearest
    exact ⟨_, _, .loop kind isOpening hcondition isClosing hbody⟩
  | .block kind hbody => by
    obtain ⟨_, hbody⟩ := hbody.nearest
    exact ⟨_, _, .block kind hbody⟩

theorem Block.nearest {i j : NodeId} {ts : List Token} {body : List Stmt} :
    Block .anywhere i ts body j → ∃ body', Block .nearest i ts body' j
  | .mk hs isClosing => by
    obtain ⟨_, hs⟩ := hs.nearest
    exact ⟨_, .mk hs isClosing⟩

theorem Declarations.nearest {i j : NodeId} {ts : List Token} {body : List Stmt} :
    Declarations .anywhere i ts body j → ∃ body', Declarations .nearest i ts body' j
  | .nil => ⟨_, .nil⟩
  | .cons h hs => by
    obtain ⟨_, h⟩ := h.nearest
    obtain ⟨_, hs⟩ := hs.nearest
    exact ⟨_, .cons h hs⟩

theorem Routine.nearest {i j : NodeId} {ts : List Token} {decl : FunctionDecl} :
    Routine .anywhere i ts decl j → ∃ decl', Routine .nearest i ts decl' j
  | .mk identifier isOpening hparams isClosing isBrace hbody => by
    obtain ⟨_, hbody⟩ := hbody.nearest
    exact ⟨_, .mk identifier isOpening hparams isClosing isBrace hbody⟩

theorem Methods.nearest {i j : NodeId} {ts : List Token} {decls : List FunctionDecl} :
    Methods .anywhere i ts decls j → ∃ decls', Methods .nearest i ts decls' j
  | .nil => ⟨_, .nil⟩
  | .cons h hs => by
    obtain ⟨_, h⟩ := h.nearest
    obtain ⟨_, hs⟩ := hs.nearest
    exact ⟨_, .cons h hs⟩

end

end Treewalk.Grammar

namespace Treewalk

open Treewalk.Parser Grammar

theorem Parser.start_final (tokens : List Token) (firstId : NodeId) :
    (Parser.start tokens firstId).final.kind = .eof := by
  show ((tokens.find? (·.kind == .eof)).getD _).kind = .eof
  cases found : tokens.find? (·.kind == .eof) with
  | none => rfl
  | some t => simpa using List.find?_some found

/-- What is a program is parsed, and its derivation's tree is returned. -/
theorem parse_of_program {tokens : List Token} {firstId next : NodeId} {stmts : List Stmt}
    (h : Program .nearest firstId (tokens.takeWhile (·.kind != .eof)) stmts next) :
    parse tokens firstId = ⟨.ok stmts, next⟩ := by
  have enough : 16 * (Parser.start tokens firstId).rest.length + 2 ≤
      stepsFor (Parser.start tokens firstId).rest.length := by
    simp only [stepsFor]
    omega
  have run := accepts_program h _ [] enough (Parser.start tokens firstId).final []
  rw [List.append_nil] at run
  have start : (⟨tokens.takeWhile (·.kind != .eof), (Parser.start tokens firstId).final, [],
    firstId⟩ : Cursor) = Parser.start tokens firstId := rfl
  rw [start] at run
  simp [parse, run]

/-- What is parsed is a program, and the tree that is returned is that of a derivation. -/
theorem program_of_parse {tokens : List Token} {firstId next : NodeId} {stmts : List Stmt}
    (h : parse tokens firstId = ⟨.ok stmts, next⟩) :
    Program .nearest firstId (tokens.takeWhile (·.kind != .eof)) stmts next := by
  have run := reads_program (stepsFor (Parser.start tokens firstId).rest.length) firstId []
    (Parser.start tokens firstId) (Parser.start_final tokens firstId) rfl
  simp only [parse] at h
  split at h
  · next stmts' c parsed =>
    rw [parsed] at run
    split at h
    · next clean =>
      cases h
      obtain ⟨-, ts, split, more, rfl, hs, ended⟩ := run.2 (by simpa using clean)
      rw [ended, List.append_nil] at split
      show Program .nearest firstId (Parser.start tokens firstId).rest stmts c.nextId
      rw [split]
      exact hs
    · cases h
  · cases h

/-- No number is given twice, also where parsing fails. -/
theorem parse_nextId (tokens : List Token) (firstId : NodeId) :
    firstId ≤ (parse tokens firstId).nextId := by
  have run := reads_program (stepsFor (Parser.start tokens firstId).rest.length) firstId []
    (Parser.start tokens firstId) (Parser.start_final tokens firstId) rfl
  simp only [parse]
  split
  · next stmts c parsed =>
    rw [parsed] at run
    split <;> exact run.1.nextId
  · next e c parsed =>
    rw [parsed] at run
    exact run.nextId

/-- Parsing succeeds on exactly the programs of the grammar, and what it returns, numbers included,
is the tree of the derivation in which each `else` belongs to the nearest `if`. -/
theorem parse_exact (tokens : List Token) (firstId : NodeId) :
    ((∃ stmts, (parse tokens firstId).result = .ok stmts) ↔
      ∃ stmts next,
        Program .anywhere firstId (tokens.takeWhile (·.kind != .eof)) stmts next) ∧
    ∀ stmts next, parse tokens firstId = ⟨.ok stmts, next⟩ ↔
      Program .nearest firstId (tokens.takeWhile (·.kind != .eof)) stmts next := by
  refine ⟨⟨?_, ?_⟩, fun stmts next => ⟨program_of_parse, parse_of_program⟩⟩
  · rintro ⟨stmts, parsed⟩
    have h : parse tokens firstId = ⟨.ok stmts, (parse tokens firstId).nextId⟩ := by rw [← parsed]
    exact ⟨stmts, _, (program_of_parse h).anywhere⟩
  · rintro ⟨stmts, next, h⟩
    obtain ⟨stmts', h'⟩ := h.nearest
    exact ⟨stmts', by rw [parse_of_program h']⟩

end Treewalk
