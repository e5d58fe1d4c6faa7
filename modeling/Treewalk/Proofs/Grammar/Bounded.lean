import Treewalk.Proofs.Grammar.Exact
import Treewalk.Proofs.Grammar.Settled

/-!
# Parsing is bounded

Any list of tokens is parsed in a bounded number of steps, whatever its tokens are. The parser looks
at the tokens up to the first end token, each look no earlier than the one before it, and each round
of a loop reads a token or is the last one. Nothing behind the first end token counts, and the
program is returned if and only if no error was recorded.
-/

namespace Treewalk

open Treewalk.Parser

/-- Tokens with an end token behind them, unless one stands there. -/
def closed (tokens : List Token) : List Token :=
  if tokens.getLast?.map (·.kind) = some .eof then tokens
  else tokens ++ [Token.eof ((tokens.getLast?.map (·.line)).getD 1)]

/-- Where the first end token stands. -/
def endIndex (tokens : List Token) : Nat := (closed tokens).findIdx (·.kind == .eof)

/-- The tokens up to the first end token, and that token. -/
def throughEnd (tokens : List Token) : List Token := (closed tokens).take (endIndex tokens + 1)

/-- How many tokens stand between two cursors. -/
def Cursor.position (start c : Cursor) : Nat := start.rest.length - c.rest.length

namespace Parser

variable {α β : Type}

/-- One round of a loop that reads items. It ends before an item, in a broken one or behind a whole
one, or it goes on behind a whole one, and then fewer tokens are left. -/
inductive Round (item : Parser β) (again : β → Parser α) (c : Cursor) :
    EStateM.Result SyntaxError Cursor α → Prop
  | ends (a : α) : Round item again c (.ok a c)
  | breaks {e : SyntaxError} {c' : Cursor} (broken : item c = .error e c') :
    Round item again c (.error e c')
  | last {b : β} {a : α} {c' : Cursor} (whole : item c = .ok b c')
    (fewer : c'.rest.length < c.rest.length) : Round item again c (.ok a c')
  | goesOn {b : β} {c' c'' : Cursor} (whole : item c = .ok b c')
    (fewer : c'.rest.length < c.rest.length) (onward : c''.rest.length ≤ c'.rest.length) :
    Round item again c (again b c'')

/-- A parameter behind those read so far. -/
def parameter (done : List Token) : Parser Token := do
  if maxArity ≤ done.length then report (← peek) .tooManyParameters
  expect .identifier .parameterName

/-- An argument behind those read so far. -/
def argument (n : Nat) (done : List Expr) : Parser Expr := do
  if maxArity ≤ done.length then report (← peek) .tooManyArguments
  assignment n

/-- Every round of every loop that reads declarations, methods, parameters or arguments reads a
token or is the last. -/
structure LoopsAdvance : Prop where
  program : ∀ n done c, c.final.kind = .eof →
    Round (declaration n) (fun o => program n (o.toList ++ done)) c (program (n + 1) done c)
  block : ∀ n done c, c.final.kind = .eof →
    Round (declaration n) (fun o => declarations n (o.toList ++ done)) c
      (declarations (n + 1) done c)
  classBody : ∀ n done c, c.final.kind = .eof →
    Round (routine n .method) (fun decl => methods n (decl :: done)) c (methods (n + 1) done c)
  parameters : ∀ n done c, c.final.kind = .eof →
    Round (parameter done) (fun name => parameters n (name :: done)) c (parameters (n + 1) done c)
  arguments : ∀ n done c, c.final.kind = .eof →
    Round (argument n done) (fun value => moreArguments n (value :: done)) c
      (moreArguments (n + 1) done c)

theorem declaration_ok (n : Nat) (c : Cursor) : ∃ o c', declaration n c = .ok o c' := by
  have recovers : ∀ p : Parser Stmt, ∃ o c', recover p c = .ok o c' := by
    intro p
    unfold recover
    cases p c with
    | ok a c' => exact ⟨_, _, rfl⟩
    | error e c' => exact ⟨_, _, rfl⟩
  cases n <;> rw [declaration] <;> exact recovers _

/-- A declaration, whole or broken, takes a token if there is one. -/
theorem declaration_past {n : Nat} {c c' : Cursor} {o : Option Stmt} (eof : c.final.kind = .eof)
    (h : declaration n c = .ok o c') : Past (min 1 c.rest.length) c c' := by
  have := ((settledStmt n n (Nat.le_refl n)).declaration c eof).shortens
  rw [h] at this
  exact this

theorem program_ended {c : Cursor} (ended : c.rest = []) (n : Nat) (done : List Stmt) :
    program (n + 1) done c = .ok done.reverse c := by
  rw [program, bind_of_ok (atEnd_eq c), ended]
  rfl

theorem program_goesOn {n : Nat} {c c' : Cursor} {o : Option Stmt} (goesOn : c.rest ≠ [])
    (read : declaration n c = .ok o c') (done : List Stmt) :
    program (n + 1) done c = program n (o.toList ++ done) c' := by
  rw [program, bind_of_ok (atEnd_eq c)]
  simp only [List.isEmpty_iff, goesOn, if_false]
  rw [bind_of_ok read]
  cases o <;> rfl

theorem round_program (n : Nat) (done : List Stmt) (c : Cursor) (eof : c.final.kind = .eof) :
    Round (declaration n) (fun o => program n (o.toList ++ done)) c (program (n + 1) done c) := by
  by_cases ended : c.rest = []
  · rw [program_ended ended]
    exact .ends _
  · obtain ⟨o, c', read⟩ := declaration_ok n c
    have past := (declaration_past eof read).length
    have some := List.length_pos_iff.2 ended
    have fewer : c'.rest.length < c.rest.length := by omega
    rw [program_goesOn ended read]
    exact .goesOn read fewer (Nat.le_refl _)

theorem round_block (n : Nat) (done : List Stmt) (c : Cursor) (eof : c.final.kind = .eof) :
    Round (declaration n) (fun o => declarations n (o.toList ++ done)) c
      (declarations (n + 1) done c) := by
  rw [declarations, bind_of_ok (atEnd_eq c),
    bind_of_ok (check_eq .rightBrace c)]
  split
  · exact .ends _
  · next goesOn =>
    obtain ⟨o, c', read⟩ := declaration_ok n c
    have past := (declaration_past eof read).length
    have some : 0 < c.rest.length := by
      rw [List.length_pos_iff]
      intro none
      simp [none] at goesOn
    have fewer : c'.rest.length < c.rest.length := by omega
    rw [bind_of_ok read]
    cases o with
    | none => exact .goesOn read fewer (Nat.le_refl _)
    | some s => exact .goesOn read fewer (Nat.le_refl _)

theorem round_classBody (n : Nat) (done : List FunctionDecl) (c : Cursor)
    (eof : c.final.kind = .eof) :
    Round (routine n .method) (fun decl => methods n (decl :: done)) c
      (methods (n + 1) done c) := by
  rw [methods, bind_of_ok (atEnd_eq c),
    bind_of_ok (check_eq .rightBrace c)]
  split
  · exact .ends _
  · have shortens := ((settledStmt n n (Nat.le_refl n)).routine c .method eof).shortens
    cases read : routine n .method c with
    | error e c' =>
      rw [bind_of_error read]
      exact .breaks read
    | ok decl c' =>
      rw [read] at shortens
      rw [bind_of_ok read]
      exact .goesOn read shortens.length (Nat.le_refl _)

/-- A comma behind an item that is read is read with it. -/
theorem round_comma {item : Parser β} {again : β → Parser α} {value : β → α} {c : Cursor}
    (reads : Shortens 1 c (item c)) :
    Round item again c ((item >>= fun b => accept .comma >>= fun o =>
      match o with
      | none => pure (value b)
      | some _ => again b) c) := by
  cases read : item c with
  | error e c' =>
    rw [bind_of_error read]
    exact .breaks read
  | ok b c' =>
    rw [read] at reads
    rw [bind_of_ok read]
    by_cases other : ∀ t ∈ c'.rest.head?, t.kind ≠ .comma
    · rw [bind_of_ok (accept_of_ne other)]
      exact .last read reads.length
    · obtain ⟨t, head, same⟩ : ∃ t ∈ c'.rest.head?, t.kind = .comma := by simpa using other
      obtain ⟨rest, next⟩ := List.head?_eq_some_iff.1 head
      rw [bind_of_ok (accept_of_kind next same)]
      refine .goesOn read reads.length ?_
      simp [next]

theorem round_parameters (n : Nat) (done : List Token) (c : Cursor) :
    Round (parameter done) (fun name => parameters n (name :: done)) c
      (parameters (n + 1) done c) := by
  have reads : Settles True 1 (parameter done) (parameter done) c := by
    unfold parameter
    split
    · exact .peek fun t _ => (Settles.report (by decide)).bindLast fun _ _ _ => .expect (by decide)
    · exact .expect (by decide)
  have same : parameters (n + 1) done = parameter done >>= fun name => accept .comma >>= fun o =>
      match o with
      | none => pure (name :: done).reverse
      | some _ => parameters n (name :: done) := by
    rw [parameters, parameter]
    split <;> rfl
  rw [same]
  exact round_comma reads.shortens

theorem round_arguments (n : Nat) (done : List Expr) (c : Cursor) (eof : c.final.kind = .eof) :
    Round (argument n done) (fun value => moreArguments n (value :: done)) c
      (moreArguments (n + 1) done c) := by
  have value := (settledExpr n n (Nat.le_refl n)).assignment
  have reads : Settles False 1 (argument n done) (argument n done) c := by
    unfold argument
    split
    · refine .peek fun t _ => (Settles.report (by decide)).bindLast fun _ c' past => ?_
      exact (value c' (past.eof eof)).of False.elim (Nat.le_refl 1)
    · exact (value c eof).of False.elim (Nat.le_refl 1)
  have same : moreArguments (n + 1) done = argument n done >>= fun value =>
      accept .comma >>= fun o =>
      match o with
      | none => pure (value :: done).reverse
      | some _ => moreArguments n (value :: done) := by
    rw [moreArguments, argument]
    split <;> rfl
  rw [same]
  exact round_comma reads.shortens

theorem loopsAdvance : LoopsAdvance :=
  ⟨round_program, round_block, round_classBody, fun n done c _ => round_parameters n done c,
    round_arguments⟩

end Parser

/-- A program stops for want of steps only: the declarations recover from all other errors. -/
theorem program_error {n : Nat} {done : List Stmt} {c c' : Cursor} {e : SyntaxError}
    (h : Parser.program n done c = .error e c') : e.cause = .unfinished := by
  induction n generalizing done c with
  | zero =>
    cases h
    rfl
  | succ n ih =>
    by_cases ended : c.rest = []
    · rw [program_ended ended] at h
      cases h
    · obtain ⟨o, d, read⟩ := declaration_ok n c
      rw [program_goesOn ended read] at h
      exact ih h

theorem take_findIdx_append (ts : List Token) (last : Token) :
    (ts ++ [last]).take ((ts ++ [last]).findIdx (·.kind == .eof) + 1) =
      ts.takeWhile (·.kind != .eof) ++ [(ts.find? (·.kind == .eof)).getD last] := by
  induction ts with
  | nil => simp
  | cons t ts ih =>
    by_cases first : t.kind = .eof
    · simp [first, List.findIdx_cons]
    · have other : (t.kind == .eof) = false := by simpa using first
      simp [first, other, List.findIdx_cons, ih]

/-- The parser starts on the tokens up to the first end token, and on that token. -/
theorem start_throughEnd (tokens : List Token) (firstId : NodeId) :
    (Parser.start tokens firstId).rest ++ [(Parser.start tokens firstId).final] =
      throughEnd tokens := by
  refine (take_findIdx_append tokens _).symm.trans ?_
  unfold throughEnd endIndex closed
  split
  · next last =>
    obtain ⟨t, isLast, isEof⟩ := Option.map_eq_some_iff.1 last
    have inside : tokens.findIdx (·.kind == .eof) < tokens.length :=
      List.findIdx_lt_length_of_exists ⟨t, List.mem_of_getLast? isLast, by simp [isEof]⟩
    rw [List.findIdx_append, if_pos inside, List.take_append_of_le_length inside]
  · rfl

theorem endIndex_lt (tokens : List Token) : endIndex tokens < (closed tokens).length := by
  refine List.findIdx_lt_length_of_exists ?_
  unfold closed
  split
  · next last =>
    obtain ⟨t, isLast, isEof⟩ := Option.map_eq_some_iff.1 last
    exact ⟨t, List.mem_of_getLast? isLast, by simp [isEof]⟩
  · exact ⟨_, List.mem_append_right _ (List.mem_singleton_self _), rfl⟩

theorem length_start (tokens : List Token) (firstId : NodeId) :
    (Parser.start tokens firstId).rest.length = endIndex tokens := by
  have whole := congrArg List.length (start_throughEnd tokens firstId)
  have inside := endIndex_lt tokens
  simp only [throughEnd, List.length_append, List.length_take, List.length_cons,
    List.length_nil] at whole
  omega

/-- The parser ends by itself: given enough steps it always returns, it never reports that the steps
ran out, and more of them change nothing. -/
theorem program_ends (tokens : List Token) (firstId : NodeId) :
    ∃ stmts c, (∀ n, 15 + 32 * endIndex tokens ≤ n →
        Parser.program n [] (Parser.start tokens firstId) = .ok stmts c) ∧
      Complete c.errors ∧
      parse tokens firstId =
        ⟨if c.errors.isEmpty then .ok stmts else .error c.errors.reverse, c.nextId⟩ := by
  have settles : ∀ n, 15 + 32 * endIndex tokens ≤ n → _ :=
    fun n enough => settles_program enough (Parser.start tokens firstId) []
      (Parser.start_final tokens firstId)
  rw [length_start] at settles
  have finished := (settles _ (Nat.le_refl _)).finished (Nat.le_refl _) complete_nil
  cases run : Parser.program (15 + 32 * endIndex tokens) []
      (Parser.start tokens firstId) with
  | error e c =>
    rw [run] at finished
    exact absurd (program_error run) finished.1
  | ok stmts c =>
    rw [run] at finished
    have same : ∀ n, 15 + 32 * endIndex tokens ≤ n →
        Parser.program n [] (Parser.start tokens firstId) = .ok stmts c := by
      intro n enough
      rw [← run]
      exact (settles n enough).same (Nat.le_refl _)
    refine ⟨stmts, c, same, finished, ?_⟩
    have steps : 15 + 32 * endIndex tokens ≤
        stepsFor (Parser.start tokens firstId).rest.length := by
      rw [length_start, stepsFor]
      omega
    simp only [parse, same _ steps]
    split <;> rfl

/-- A cursor on the tokens of `start` stands on the token at its position, which is the end token if
none is left. -/
theorem getElem?_position {tokens : List Token} {firstId : NodeId} {c : Cursor}
    (h : Forward (Parser.start tokens firstId) c) :
    (Parser.start tokens firstId).position c ≤ endIndex tokens ∧
      (closed tokens)[(Parser.start tokens firstId).position c]? = some (c.rest.headD c.final) := by
  have whole := start_throughEnd tokens firstId
  obtain ⟨read, split⟩ := h.rest
  have position : (Parser.start tokens firstId).position c = read.length := by
    unfold Cursor.position
    rw [← split, List.length_append]
    omega
  have length := length_start tokens firstId
  rw [← split, List.length_append] at length
  have bounded : read.length ≤ endIndex tokens := by omega
  rw [position]
  refine ⟨bounded, ?_⟩
  have there := congrArg (·[read.length]?) whole
  simp only [throughEnd, List.getElem?_take, Nat.lt_succ_of_le bounded, if_true] at there
  rw [← there, ← split, h.final]
  cases c.rest <;> simp

/-- The cursor at the start depends on the tokens up to the first end token only. -/
theorem start_eq_of_throughEnd {tokens tokens' : List Token} {firstId : NodeId}
    (same : throughEnd tokens' = throughEnd tokens) :
    Parser.start tokens' firstId = Parser.start tokens firstId := by
  rw [← start_throughEnd tokens firstId, ← start_throughEnd tokens' firstId] at same
  obtain ⟨rest, final⟩ := List.append_inj' same rfl
  have final := (List.cons.inj final).1
  calc
    Parser.start tokens' firstId
    _ = ⟨(Parser.start tokens' firstId).rest, (Parser.start tokens' firstId).final, [],
          firstId⟩ := rfl
    _ = ⟨(Parser.start tokens firstId).rest, (Parser.start tokens firstId).final, [],
          firstId⟩ := by rw [rest, final]
    _ = Parser.start tokens firstId := rfl

/-- Any list of tokens is parsed in a bounded number of steps: from as many steps on as the tokens
need, the result is the same, and it is a program if and only if no error was recorded. The parser
looks at one token after the other, never back, never behind the first end token, and the loops end
when they read no token. Nothing behind the first end token counts. -/
theorem parse_bounded (tokens : List Token) (firstId : NodeId) :
    (∃ stmts c,
      (∀ n, 15 + 32 * endIndex tokens ≤ n →
        program n [] (Parser.start tokens firstId) = .ok stmts c) ∧
      (∀ e ∈ c.errors, e.cause ≠ .unfinished) ∧
      parse tokens firstId =
        ⟨if c.errors.isEmpty then .ok stmts else .error c.errors.reverse, c.nextId⟩) ∧
    (∀ n,
      (∃ cs, Visits (program n []) (Parser.start tokens firstId) cs) ∧
      ∀ cs, Visits (program n []) (Parser.start tokens firstId) cs →
        (cs.map (Parser.start tokens firstId).position).Pairwise (· ≤ ·) ∧
        ∀ c ∈ cs, (Parser.start tokens firstId).position c ≤ endIndex tokens ∧
          (closed tokens)[(Parser.start tokens firstId).position c]? =
            some (c.rest.headD c.final)) ∧
    LoopsAdvance ∧
    ∀ tokens', throughEnd tokens' = throughEnd tokens →
      parse tokens' firstId = parse tokens firstId := by
  refine ⟨program_ends tokens firstId, fun n => ⟨traced_program n [] _, ?_⟩, loopsAdvance, ?_⟩
  · intro cs visits
    have onwards := visits.onwards
    refine ⟨?_, fun c member => getElem?_position (onwards.after c member)⟩
    rw [List.pairwise_map]
    refine onwards.ordered.imp fun later => ?_
    have := later.rest.length_le
    unfold Cursor.position
    omega
  · intro tokens' same
    unfold parse
    rw [start_eq_of_throughEnd same]

end Treewalk
