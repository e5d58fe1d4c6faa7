import Treewalk.Proofs.Scope.Accepted
import Treewalk.Proofs.Source.Written

/-!
# Sources of one statement

What a source compiles to whose pieces are known: one `print` of a string, or one expression behind
which a semicolon stands.
-/

namespace Treewalk

/-- An operand of the operators is an expression. -/
theorem Grammar.Derives.expression_of_unary {i j : NodeId} {ts : List Token} {e : Expr}
    (h : Derives .unary i ts e j) : Derives .expression i ts e j := by
  have factor : Derives .factor i ts e j := .operand rfl h
  have comparison : Derives .comparison i ts e j := .operand rfl (.operand rfl factor)
  have equality : Derives .equality i ts e j := .operand rfl comparison
  have logicOr : Derives .logicOr i ts e j := .operand rfl (.operand rfl equality)
  exact .single (.operation logicOr)

namespace Source

theorem AllMunched.scan_eq {ps : List Piece} (h : AllMunched ps) :
    scan (ps.flatMap Piece.slice) =
      itemsFrom 1 ps ++ [.ok (Token.eof (1 + linesIn (ps.flatMap Piece.slice)))] := by
  rw [Source.scan_eq, h.pieces_eq]

/-- A token that is longest before a break, with what stands behind it. -/
theorem AllMunched.token {slice : List UInt8} {kind : TokenKind} {ps : List Piece}
    (rule : Rule slice kind) (ends : ∀ c ∈ (ps.flatMap Piece.slice).head?, isBreak c = true)
    (rest : AllMunched ps) : AllMunched (⟨.token kind, slice⟩ :: ps) :=
  .cons (.token (rule.longest ends)) rest

theorem rule_semicolon : Rule [byte ';'] .semicolon := .operator (by decide)

/-- The pieces of a `print` of a string. -/
def printPieces (inside : String) : List Piece :=
  [⟨.token .kwPrint, Utf8.encode "print"⟩, ⟨.blank, [byte ' ']⟩,
    ⟨.token .string, byte '"' :: (Utf8.encode inside ++ [byte '"'])⟩,
    ⟨.token .semicolon, [byte ';']⟩]

theorem allMunched_print {inside : String} (noQuote : '"' ∉ inside.toList) :
    AllMunched (printPieces inside) := by
  have keyword : Rule (Utf8.encode "print") .kwPrint := .keyword (by decide +kernel)
  refine .token keyword ?_ (.cons (.blank rfl) (.token (.string (not_mem_encode noQuote)) ?_
    (.token rule_semicolon nofun .nil)))
  · rintro _ ⟨⟩
    rfl
  · rintro _ ⟨⟩
    rfl

theorem flatMap_printPieces (inside : String) :
    (printPieces inside).flatMap Piece.slice = Utf8.encode ("print \"" ++ inside ++ "\";") := by
  have before : Utf8.encode "print \"" = Utf8.encode "print" ++ [byte ' ', byte '"'] := by
    decide +kernel
  have after : Utf8.encode "\";" = [byte '"', byte ';'] := by decide +kernel
  rw [encode_append, encode_append, before, after]
  simp [printPieces]

/-- The items of a `print` of a string: no errors, and three tokens before the end. -/
theorem scan_print {inside : String} (noQuote : '"' ∉ inside.toList) :
    ∃ keyword text semicolon last,
      scan (Utf8.encode ("print \"" ++ inside ++ "\";")) =
        ([keyword, text, semicolon] ++ [Token.eof last]).map .ok ∧
      keyword.kind = .kwPrint ∧ text.kind = .string ∧ text.literal = some (.text inside) ∧
      semicolon.kind = .semicolon := by
  have scanned := (allMunched_print noQuote).scan_eq
  rw [flatMap_printPieces] at scanned
  refine ⟨_, _, _, _, scanned, rfl, rfl, ?_, rfl⟩
  show some (Token.Literal.text (Utf8.decode (Utf8.encode inside ++ [byte '"']).dropLast)) = _
  rw [List.dropLast_concat, Utf8.decode_encode]

end Source

open Grammar

/-- A source whose tokens are one statement compiles to it, if it resolves. -/
theorem compile_of_statement {source : List UInt8} {ts : List Token} {last : Nat} {s : Stmt}
    {isOpen : Bool} {first next : NodeId} {distances : List (NodeId × Nat)}
    (scanned : Source.scan source = (ts ++ [Token.eof last]).map .ok)
    (noEnd : ∀ t ∈ ts, (t.kind != .eof) = true)
    (derived : Statement .nearest first ts s isOpen next)
    (resolved : resolve [s] = .ok distances) :
    compile source first = (.ok ⟨[s], distances⟩, next) := by
  have tokens : Source.tokens (Source.scan source) = ts ++ [Token.eof last] := by
    rw [scanned, Source.tokens, List.filterMap_map]
    exact List.filterMap_some ..
  have errors : Source.errors (Source.scan source) = [] := by
    rw [scanned, Source.errors, List.filterMap_map]
    exact List.filterMap_eq_nil_iff.2 fun _ _ => rfl
  refine compile_of_program errors ?_ resolved
  rw [tokens, List.takeWhile_append_of_pos noEnd]
  exact .cons (.statement derived) .nil

/-- A `print` of a string compiles to itself. -/
theorem compile_print {inside : String} (noQuote : '"' ∉ inside.toList) (first : NodeId) :
    compile (Utf8.encode ("print \"" ++ inside ++ "\";")) first =
      (.ok ⟨[.print (.constant (.text inside))], []⟩, first) := by
  obtain ⟨keyword, text, semicolon, last, scanned, isPrint, isString, literal, isSemicolon⟩ :=
    Source.scan_print noQuote
  have constant : constant? text = some (.text inside) := by
    rw [constant?, isString, literal]
    rfl
  have value : Derives .expression first [text] (.constant (.text inside)) first :=
    (Derives.operatorless (.atom (.constant constant))).expression_of_unary
  have noEnd : ∀ t ∈ [keyword, text, semicolon], (t.kind != .eof) = true := by
    simp [isPrint, isString, isSemicolon]
  have derived : Statement .nearest first [keyword, text, semicolon]
      (.print (.constant (.text inside))) false first := .print isPrint value isSemicolon
  exact compile_of_statement scanned noEnd derived rfl

end Treewalk
