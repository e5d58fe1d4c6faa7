import Treewalk.Proofs.Grammar.CompleteExpr
import Treewalk.Proofs.Grammar.Positions

/-!
# Enough steps

How deep the recursion of a parser may go is bounded from outside. `Settles` compares a parser under
two bounds: if the lower one is enough for the tokens that are left, both runs are the same, and
neither stops for want of steps. For that a run has to use up tokens, and `Settles` says how many a
run that returns has read at least: thirty-two steps for each token are more than the rules that a
parser can pass before it reads one.
-/

namespace Treewalk.Parser

open Grammar

variable {α β : Type} {enough enough' : Prop} {k l j : Nat} {p q : Parser α} {f g : α → Parser β}
  {c c' c'' : Cursor}

/-- A cursor with at least `k` tokens fewer before the same end. -/
structure Past (k : Nat) (c c' : Cursor) : Prop where
  final : c'.final = c.final
  length : c'.rest.length + k ≤ c.rest.length

theorem Past.eof (h : Past k c c') (eof : c.final.kind = .eof) : c'.final.kind = .eof := by
  rw [h.final]
  exact eof

theorem Past.trans (h : Past k c c') (h' : Past l c' c'') : Past k c c'' := by
  refine ⟨h'.final.trans h.final, ?_⟩
  have := h.length
  have := h'.length
  omega

/-- A run that returns reads `k` tokens or more. -/
def Shortens (k : Nat) (c : Cursor) : EStateM.Result SyntaxError Cursor α → Prop
  | .ok _ c' => Past k c c'
  | .error _ c' => Past 0 c c'

/-- No error says that the steps ran out. -/
def Complete (errors : List SyntaxError) : Prop := ∀ e ∈ errors, e.cause ≠ .unfinished

theorem complete_nil : Complete [] := fun _ member => nomatch member

theorem Complete.cons {e : SyntaxError} {errors : List SyntaxError} (h : e.cause ≠ .unfinished)
    (h' : Complete errors) : Complete (e :: errors) :=
  List.forall_mem_cons.2 ⟨h, h'⟩

/-- A run whose errors do not say that the steps ran out. -/
def Finished : EStateM.Result SyntaxError Cursor α → Prop
  | .ok _ c => Complete c.errors
  | .error e c => e.cause ≠ .unfinished ∧ Complete c.errors

/-- The parser `p` with a bound that may be `enough` and `q` with one that is not lower. -/
structure Settles (enough : Prop) (k : Nat) (p q : Parser α) (c : Cursor) : Prop where
  shortens : Shortens k c (p c)
  same : enough → q c = p c
  finished : enough → Complete c.errors → Finished (p c)

namespace Settles

theorem of (h : Settles enough k p q c) (weaker : enough' → enough) (fewer : l ≤ k) :
    Settles enough' l p q c where
  shortens := by
    have := h.shortens
    cases run : p c with
    | error e c' =>
      rw [run] at this
      exact this
    | ok a c' =>
      rw [run] at this
      exact ⟨this.final, by have := this.length; omega⟩
  same e := h.same (weaker e)
  finished e := h.finished (weaker e)

theorem drop (h : Settles enough k p q c) : Settles enough 0 p q c := h.of id (Nat.zero_le k)

theorem bindAt (h : Settles enough k p q c)
    (next : ∀ a c', p c = .ok a c' → Past k c c' → Settles enough j (f a) (g a) c')
    (sum : l ≤ k + j) : Settles enough l (p >>= f) (q >>= g) c := by
  obtain ⟨shortens, same, finished⟩ := h
  cases run : p c with
  | error e c' =>
    rw [run] at shortens same finished
    have stops : (p >>= f) c = .error e c' := bind_of_error run
    constructor
    · rw [stops]
      exact shortens
    · intro e
      rw [stops, bind_of_error (same e)]
    · rw [stops]
      exact finished
  | ok a c' =>
    rw [run] at shortens same finished
    have goesOn : (p >>= f) c = f a c' := bind_of_ok run
    obtain ⟨shortens', same', finished'⟩ := next a c' run shortens
    have length := shortens.length
    constructor
    · rw [goesOn]
      cases run' : f a c' with
      | error e c'' =>
        rw [run'] at shortens'
        have := shortens'.length
        exact ⟨shortens'.final.trans shortens.final, by omega⟩
      | ok b c'' =>
        rw [run'] at shortens'
        have := shortens'.length
        exact ⟨shortens'.final.trans shortens.final, by omega⟩
    · intro e
      rw [goesOn, bind_of_ok (same e)]
      exact same' e
    · intro e clean
      rw [goesOn]
      exact finished' e (finished e clean)

theorem bind (h : Settles enough k p q c)
    (next : ∀ a c', Past k c c' → Settles enough 0 (f a) (g a) c') :
    Settles enough k (p >>= f) (q >>= g) c :=
  h.bindAt (fun a c' _ past => next a c' past) (Nat.le_refl k)

/-- `Settles.bind` where it is the second parser that reads as many tokens. -/
theorem bindLast (h : Settles enough k p q c)
    (next : ∀ a c', Past k c c' → Settles enough l (f a) (g a) c') :
    Settles enough l (p >>= f) (q >>= g) c :=
  h.bindAt (fun a c' _ past => next a c' past) (Nat.le_add_left l k)

/-- A first step that is known and reports nothing. -/
theorem after {a : α} (step : p c = .ok a c') (past : Past k c c') (quiet : c'.errors = c.errors)
    (next : Settles enough j (f a) (g a) c') (sum : l ≤ k + j) :
    Settles enough l (p >>= f) (p >>= g) c := by
  have first : Settles enough k p p c := by
    constructor
    · rw [step]
      exact past
    · exact fun _ => rfl
    · rw [step]
      intro _ clean
      rwa [← quiet] at clean
  refine first.bindAt (fun a' c'' same _ => ?_) sum
  rw [step] at same
  cases same
  exact next

/-- A first step that only looks. -/
theorem look {a : α} (step : p c = .ok a c) (next : Settles enough k (f a) (g a) c) :
    Settles enough k (p >>= f) (p >>= g) c :=
  after (k := 0) step ⟨rfl, Nat.le_refl c.rest.length⟩ rfl next (by omega)

theorem pure (a : α) : Settles enough 0 (pure a) (pure a) c :=
  ⟨⟨rfl, Nat.le_refl _⟩, fun _ => rfl, fun _ clean => clean⟩

theorem throw {e : SyntaxError} (h : e.cause ≠ .unfinished) :
    Settles enough k (throw e : Parser α) (throw e) c :=
  ⟨⟨rfl, Nat.le_refl _⟩, fun _ => rfl, fun _ clean => ⟨h, clean⟩⟩

theorem stop {cause : SyntaxError.Cause} (h : cause ≠ .unfinished) :
    Settles enough k (stop cause : Parser α) (stop cause) c :=
  ⟨⟨rfl, Nat.le_refl _⟩, fun _ => rfl, fun _ clean => ⟨h, clean⟩⟩

/-- With no step left nothing is enough. -/
theorem zero (never : ¬ enough) : Settles enough k (Parser.stop .unfinished : Parser α) q c :=
  ⟨⟨rfl, Nat.le_refl _⟩, fun e => absurd e never, fun e => absurd e never⟩

theorem map (h : Settles enough k p q c) (m : α → β) : Settles enough k (m <$> p) (m <$> q) c := by
  rw [map_eq_pure_bind, map_eq_pure_bind]
  exact h.bind fun _ _ _ => .pure _

theorem peek {f g : Token → Parser α}
    (next : ∀ t : Token, (t.kind ≠ .eof → c.final.kind = .eof → c.rest ≠ []) →
      Settles enough k (f t) (g t) c) :
    Settles enough k (Parser.peek >>= f) (Parser.peek >>= g) c := by
  refine look rfl (next (c.rest.headD c.final) ?_)
  intro other eof none
  rw [none] at other
  exact other eof

theorem atEnd {f g : Bool → Parser α}
    (next : ∀ b, (b = false → c.rest ≠ []) → Settles enough k (f b) (g b) c) :
    Settles enough k (Parser.atEnd >>= f) (Parser.atEnd >>= g) c :=
  look rfl (next c.rest.isEmpty (by simp))

theorem check {f g : Bool → Parser α} {kind : TokenKind}
    (next : ∀ b, Settles enough k (f b) (g b) c) :
    Settles enough k (Parser.check kind >>= f) (Parser.check kind >>= g) c :=
  look (check_eq kind c) (next _)

theorem report {t : Token} {cause : SyntaxError.Cause} (h : cause ≠ .unfinished) :
    Settles enough 0 (report t cause) (report t cause) c :=
  ⟨⟨rfl, Nat.le_refl _⟩, fun _ => rfl, fun _ clean => clean.cons h⟩

theorem fresh : Settles enough 0 fresh fresh c :=
  ⟨⟨rfl, Nat.le_refl _⟩, fun _ => rfl, fun _ clean => clean⟩

/-- Reading a token that is there. -/
theorem advance {f g : Unit → Parser α} (some : c.rest ≠ [])
    (next : ∀ c', Past 1 c c' → Settles enough 0 (f ()) (g ()) c') :
    Settles enough 1 (Parser.advance >>= f) (Parser.advance >>= g) c := by
  have past : Past 1 c { c with rest := c.rest.tail } := by
    refine ⟨rfl, ?_⟩
    have := List.length_pos_iff.2 some
    simp only [List.length_tail]
    omega
  exact after rfl past rfl (next _ past) (Nat.le_refl 1)

theorem acceptAny {kinds : List TokenKind} {f g : Option Token → Parser α}
    (none : Settles enough l (f none) (g none) c)
    (some : ∀ t c', Past 1 c c' → Settles enough 0 (f (some t)) (g (some t)) c')
    (few : l ≤ 1) :
    Settles enough l (Parser.acceptAny kinds >>= f) (Parser.acceptAny kinds >>= g) c := by
  by_cases other : ∀ t ∈ c.rest.head?, t.kind ∉ kinds
  · exact look (acceptAny_of_not_mem other) none
  · obtain ⟨t, head, member⟩ : ∃ t ∈ c.rest.head?, t.kind ∈ kinds := by simpa using other
    obtain ⟨rest, next⟩ := List.head?_eq_some_iff.1 head
    have past : Past 1 c { c with rest } := ⟨rfl, by simp [next]⟩
    exact after (acceptAny_of_mem next member) past rfl (some t _ past) few

theorem expect {kind : TokenKind} {cause : SyntaxError.Cause} (h : cause ≠ .unfinished) :
    Settles enough 1 (expect kind cause) (expect kind cause) c :=
  acceptAny (stop h) (fun t _ _ => pure t) (Nat.le_refl 1)

/-- A broken declaration is skipped; if there are tokens, one of them at least. -/
theorem recover (h : Settles enough (min 1 c.rest.length) p q c) :
    Settles enough (min 1 c.rest.length) (recover p) (recover q) c := by
  obtain ⟨shortens, same, finished⟩ := h
  constructor
  · unfold Parser.recover
    cases run : p c with
    | ok a c' =>
      rw [run] at shortens
      exact shortens
    | error e c' =>
      rw [run] at shortens
      refine ⟨shortens.final, ?_⟩
      have := shortens.length
      show (synchronize c'.rest).length + min 1 c.rest.length ≤ c.rest.length
      by_cases none : c'.rest = []
      · rw [none]
        show 0 + min 1 c.rest.length ≤ c.rest.length
        omega
      · have := length_synchronize_lt none
        omega
  · intro e
    simp only [Parser.recover, same e]
  · intro e clean
    have := finished e clean
    unfold Parser.recover
    cases run : p c with
    | ok a c' =>
      rw [run] at this
      exact this
    | error e c' =>
      rw [run] at this
      exact this.2.cons this.1

/-- What is read behind one thing of a list: a comma and the list again, or nothing. -/
theorem goesOn {a : α} (again : ∀ c', Past 1 c c' → Settles enough 0 p q c') :
    Settles enough 0
      (do
        match ← accept .comma with
        | none => Pure.pure a
        | some _ => p)
      (do
        match ← accept .comma with
        | none => Pure.pure a
        | some _ => q) c :=
  .acceptAny (.pure a) (fun _ c' past => again c' past) (Nat.zero_le 1)

end Settles

/-- The parsers of expressions, if the recursion of the first is at most `n` and that of the second
at most `m` deep. -/
structure SettledExpr (n m : Nat) : Prop where
  expression : ∀ c, c.final.kind = .eof →
    Settles (12 + 32 * c.rest.length ≤ n) 1 (expression n) (expression m) c
  items : ∀ c done, c.final.kind = .eof →
    Settles (1 + 32 * c.rest.length ≤ n) 0 (items n done) (items m done) c
  assignment : ∀ c, c.final.kind = .eof →
    Settles (11 + 32 * c.rest.length ≤ n) 1 (assignment n) (assignment m) c
  operation : ∀ c level, c.final.kind = .eof →
    Settles (operandDepth level + 32 * c.rest.length ≤ n) 1 (operation n level)
      (operation m level) c
  operations : ∀ c level left, c.final.kind = .eof →
    Settles (1 + 32 * c.rest.length ≤ n) 0 (operations n level left) (operations m level left) c
  unary : ∀ c, c.final.kind = .eof →
    Settles (3 + 32 * c.rest.length ≤ n) 1 (unary n) (unary m) c
  call : ∀ c, c.final.kind = .eof →
    Settles (2 + 32 * c.rest.length ≤ n) 1 (call n) (call m) c
  calls : ∀ c callee, c.final.kind = .eof →
    Settles (1 + 32 * c.rest.length ≤ n) 0 (calls n callee) (calls m callee) c
  arguments : ∀ c, c.final.kind = .eof →
    Settles (13 + 32 * c.rest.length ≤ n) 0 (arguments n) (arguments m) c
  moreArguments : ∀ c done, c.final.kind = .eof →
    Settles (12 + 32 * c.rest.length ≤ n) 1 (moreArguments n done) (moreArguments m done) c
  primary : ∀ c, c.final.kind = .eof →
    Settles (1 + 32 * c.rest.length ≤ n) 1 (primary n) (primary m) c

section Step

variable {n m : Nat} (ih : SettledExpr n m)
include ih

theorem settles_expression (c : Cursor) (eof : c.final.kind = .eof) :
    Settles (12 + 32 * c.rest.length ≤ n + 1) 1 (expression (n + 1)) (expression (m + 1)) c := by
  rw [expression, expression]
  refine ((ih.assignment c eof).of (by omega) (Nat.le_refl 1)).bind fun first c' past => ?_
  have length := past.length
  refine .check fun more => ?_
  split
  · exact (ih.items c' [first] (past.eof eof)).of (by omega) (Nat.le_refl 0)
  · exact .pure first

theorem settles_items (c : Cursor) (done : List Expr) (eof : c.final.kind = .eof) :
    Settles (1 + 32 * c.rest.length ≤ n + 1) 0 (items (n + 1) done) (items (m + 1) done) c := by
  rw [items, items]
  refine .acceptAny (.pure _) (fun comma c' past => ?_) (Nat.zero_le 1)
  have length := past.length
  refine ((ih.assignment c' (past.eof eof)).of (by omega) (Nat.zero_le 1)).bind
    fun item c'' past' => ?_
  have length' := past'.length
  exact (ih.items c'' _ (past'.eof (past.eof eof))).of (by omega) (Nat.le_refl 0)

theorem settles_assignment (c : Cursor) (eof : c.final.kind = .eof) :
    Settles (11 + 32 * c.rest.length ≤ n + 1) 1 (assignment (n + 1)) (assignment (m + 1)) c := by
  rw [assignment, assignment]
  refine ((ih.operation c (some .or) eof).of (fun enough => ?_) (Nat.le_refl 1)).bind
    fun target c' past => ?_
  · simp only [operandDepth, levelRule, Rule.depth]
    omega
  · have length := past.length
    refine .acceptAny (.pure target) (fun equals c'' past' => ?_) (Nat.zero_le 1)
    have length' := past'.length
    refine ((ih.assignment c'' (past'.eof (past.eof eof))).of (by omega) (Nat.zero_le 1)).bind
      fun value _ _ => ?_
    split
    · exact .pure _
    · exact (Settles.report (by decide)).bind fun _ _ _ => .pure target

omit ih in
theorem operandDepth_bounds (level : Option Level) :
    4 ≤ operandDepth level ∧ operandDepth level ≤ 10 := by
  rcases level with _ | level
  · decide
  · cases level <;> decide

theorem settles_operation (c : Cursor) (level : Option Level) (eof : c.final.kind = .eof) :
    Settles (operandDepth level + 32 * c.rest.length ≤ n + 1) 1 (operation (n + 1) level)
      (operation (m + 1) level) c := by
  cases level with
  | none =>
    refine (ih.unary c eof).of (fun enough => ?_) (Nat.le_refl 1)
    simp only [operandDepth, Rule.depth] at enough
    omega
  | some level =>
    have deeper := operandDepth_tighter level
    rw [operation, operation]
    refine ((ih.operation c level.tighter eof).of (fun enough => ?_) (Nat.le_refl 1)).bind
      fun left c' past => ?_
    · simp only [operandDepth] at enough
      omega
    · have length := past.length
      refine (ih.operations c' level left (past.eof eof)).of (fun enough => ?_) (Nat.le_refl 0)
      omega

theorem settles_operations (c : Cursor) (level : Level) (left : Expr) (eof : c.final.kind = .eof) :
    Settles (1 + 32 * c.rest.length ≤ n + 1) 0 (operations (n + 1) level left)
      (operations (m + 1) level left) c := by
  rw [operations, operations]
  refine .acceptAny (.pure left) (fun operator c' past => ?_) (Nat.zero_le 1)
  have length := past.length
  have bounds := operandDepth_bounds level.tighter
  refine ((ih.operation c' level.tighter (past.eof eof)).of (by omega) (Nat.zero_le 1)).bind
    fun right c'' past' => ?_
  have length' := past'.length
  exact (ih.operations c'' level _ (past'.eof (past.eof eof))).of (by omega) (Nat.le_refl 0)

theorem settles_unary (c : Cursor) (eof : c.final.kind = .eof) :
    Settles (3 + 32 * c.rest.length ≤ n + 1) 1 (unary (n + 1)) (unary (m + 1)) c := by
  rw [unary, unary]
  refine .acceptAny ((ih.call c eof).of (by omega) (Nat.le_refl 1)) (fun operator c' past => ?_)
    (Nat.le_refl 1)
  have length := past.length
  exact ((ih.unary c' (past.eof eof)).of (by omega) (Nat.zero_le 1)).bind fun _ _ _ => .pure _

theorem settles_call (c : Cursor) (eof : c.final.kind = .eof) :
    Settles (2 + 32 * c.rest.length ≤ n + 1) 1 (call (n + 1)) (call (m + 1)) c := by
  rw [call, call]
  refine ((ih.primary c eof).of (by omega) (Nat.le_refl 1)).bind fun callee c' past => ?_
  have length := past.length
  exact (ih.calls c' callee (past.eof eof)).of (by omega) (Nat.le_refl 0)

theorem settles_calls (c : Cursor) (callee : Expr) (eof : c.final.kind = .eof) :
    Settles (1 + 32 * c.rest.length ≤ n + 1) 0 (calls (n + 1) callee) (calls (m + 1) callee) c := by
  rw [calls, calls]
  refine .acceptAny (.pure callee) (fun mark c' past => ?_) (Nat.zero_le 1)
  have length := past.length
  have eof' := past.eof eof
  dsimp only
  split
  · refine ((Settles.expect (by decide)).drop).bind fun name c'' past' => ?_
    have length' := past'.length
    exact (ih.calls c'' _ (past'.eof eof')).of (by omega) (Nat.le_refl 0)
  · refine ((ih.arguments c' eof').of (by omega) (Nat.le_refl 0)).bind fun values c'' past' => ?_
    have length' := past'.length
    refine ((Settles.expect (by decide)).drop).bind fun paren d past'' => ?_
    have length'' := past''.length
    exact (ih.calls d _ (past''.eof (past'.eof eof'))).of (by omega) (Nat.le_refl 0)

theorem settles_arguments (c : Cursor) (eof : c.final.kind = .eof) :
    Settles (13 + 32 * c.rest.length ≤ n + 1) 0 (arguments (n + 1)) (arguments (m + 1)) c := by
  rw [arguments, arguments]
  refine .check fun closed => ?_
  split
  · exact .pure []
  · exact (ih.moreArguments c [] eof).of (by omega) (Nat.zero_le 1)

theorem settles_argumentAndMore (c : Cursor) (done : List Expr) (eof : c.final.kind = .eof) :
    Settles (12 + 32 * c.rest.length ≤ n + 1) 1
      (do
        let value ← assignment n
        match ← accept .comma with
        | none => pure (value :: done).reverse
        | some _ => moreArguments n (value :: done))
      (do
        let value ← assignment m
        match ← accept .comma with
        | none => pure (value :: done).reverse
        | some _ => moreArguments m (value :: done)) c := by
  refine ((ih.assignment c eof).of (by omega) (Nat.le_refl 1)).bind fun value c' past => ?_
  have length := past.length
  refine .goesOn fun c'' past' => ?_
  have length' := past'.length
  exact (ih.moreArguments c'' _ (past'.eof (past.eof eof))).of (by omega) (Nat.zero_le 1)

theorem settles_moreArguments (c : Cursor) (done : List Expr) (eof : c.final.kind = .eof) :
    Settles (12 + 32 * c.rest.length ≤ n + 1) 1 (moreArguments (n + 1) done)
      (moreArguments (m + 1) done) c := by
  rw [moreArguments, moreArguments]
  split
  · refine .peek fun t _ => (Settles.report (by decide)).bindLast fun _ c' past => ?_
    have length := past.length
    exact (settles_argumentAndMore ih c' done (past.eof eof)).of (by omega) (Nat.le_refl 1)
  · exact settles_argumentAndMore ih c done eof

theorem settles_primary (c : Cursor) (eof : c.final.kind = .eof) :
    Settles (1 + 32 * c.rest.length ≤ n + 1) 1 (primary (n + 1)) (primary (m + 1)) c := by
  rw [primary, primary]
  refine .peek fun t known => ?_
  split
  · next kind => exact .advance (known (by simp [kind]) eof) fun _ _ => .pure _
  · next kind => exact .advance (known (by simp [kind]) eof) fun _ _ => .pure _
  · next kind => exact .advance (known (by simp [kind]) eof) fun _ _ => .pure _
  · next kind =>
    refine .advance (known (by simp [kind]) eof) fun _ _ => ?_
    split
    · exact .pure _
    · exact .pure _
    · exact .throw (show SyntaxError.Cause.malformedLiteral ≠ .unfinished by decide)
  · next kind =>
    refine .advance (known (by simp [kind]) eof) fun _ _ => ?_
    split
    · exact .pure _
    · exact .pure _
    · exact .throw (show SyntaxError.Cause.malformedLiteral ≠ .unfinished by decide)
  · next kind =>
    refine .advance (known (by simp [kind]) eof) fun _ _ => ?_
    refine ((Settles.expect (by decide)).drop).bind fun dot _ _ => ?_
    refine ((Settles.expect (by decide)).drop).bind fun method _ _ => ?_
    exact Settles.fresh.bind fun _ _ _ => .pure _
  · next kind =>
    exact .advance (known (by simp [kind]) eof) fun _ _ => Settles.fresh.bind fun _ _ _ => .pure _
  · next kind =>
    exact .advance (known (by simp [kind]) eof) fun _ _ => Settles.fresh.bind fun _ _ _ => .pure _
  · next kind =>
    refine .advance (known (by simp [kind]) eof) fun c' past => ?_
    have length := past.length
    refine ((ih.expression c' (past.eof eof)).of (by omega) (Nat.zero_le 1)).bind fun inner _ _ => ?_
    exact ((Settles.expect (by decide)).drop).bind fun _ _ _ => .pure _
  · exact .stop (by decide)

end Step

theorem settledExpr (n m : Nat) (le : n ≤ m) : SettledExpr n m := by
  induction n generalizing m with
  | zero =>
    constructor
    case operation =>
      intro c level _
      have bounds := operandDepth_bounds level
      exact .zero (by omega)
    all_goals
      intros
      exact .zero (by omega)
  | succ n ih =>
    cases m with
    | zero => omega
    | succ m =>
      have ih := ih m (by omega)
      exact ⟨settles_expression ih, settles_items ih, settles_assignment ih, settles_operation ih,
        settles_operations ih, settles_unary ih, settles_call ih, settles_calls ih,
        settles_arguments ih, settles_moreArguments ih, settles_primary ih⟩

section Expressions

variable {n m : Nat}

theorem settles_varItems (le : n ≤ m) (c : Cursor) (done : List VarDecl)
    (eof : c.final.kind = .eof) :
    Settles (1 + 32 * c.rest.length ≤ n) 0 (varItems n done) (varItems m done) c := by
  induction n generalizing m c done with
  | zero => exact .zero (by omega)
  | succ n ih =>
    cases m with
    | zero => omega
    | succ m =>
      have again : ∀ (done : List VarDecl) (c' : Cursor), Past 1 c c' →
          Settles (1 + 32 * c.rest.length ≤ n + 1) 0 (varItems n done) (varItems m done) c' := by
        intro done c' past
        have length := past.length
        exact (ih (by omega) c' done (past.eof eof)).of (by omega) (Nat.le_refl 0)
      rw [varItems, varItems]
      refine (Settles.bind (.expect (by decide)) fun name c' past => ?_).drop
      have length := past.length
      refine .acceptAny ?_ (fun equals c'' past' => ?_) (Nat.zero_le 1)
      · refine (Settles.pure none).bind fun _ c'' past' => .goesOn fun d past'' => ?_
        exact again _ d (past.trans (past'.trans past''))
      · have length' := past'.length
        have value := (settledExpr n m (by omega)).assignment c'' (past'.eof (past.eof eof))
        refine ((value.of (by omega) (Nat.zero_le 1)).map some).bind fun _ c''' past'' => ?_
        refine .goesOn fun d past''' => ?_
        exact again _ d (past.trans (past'.trans (past''.trans past''')))

theorem settles_varDeclaration (le : n ≤ m) (c : Cursor) (eof : c.final.kind = .eof) :
    Settles (1 + 32 * c.rest.length ≤ n) 0 (varDeclaration n) (varDeclaration m) c := by
  refine (settles_varItems le c [] eof).bind fun decls _ _ => ?_
  refine (Settles.bind (.expect (by decide)) fun semicolon _ _ => ?_).drop
  split <;> exact .pure _

theorem settles_expressionStatement (le : n ≤ m) (c : Cursor) (eof : c.final.kind = .eof) :
    Settles (12 + 32 * c.rest.length ≤ n) 1 (expressionStatement n) (expressionStatement m) c :=
  ((settledExpr n m le).expression c eof).bind fun _ _ _ =>
    (Settles.bind (.expect (by decide)) fun _ _ _ => .pure _).drop

theorem settles_printStatement (le : n ≤ m) (c : Cursor) (eof : c.final.kind = .eof) :
    Settles (12 + 32 * c.rest.length ≤ n) 1 (printStatement n) (printStatement m) c :=
  ((settledExpr n m le).expression c eof).bind fun _ _ _ =>
    (Settles.bind (.expect (by decide)) fun _ _ _ => .pure _).drop

/-- An expression in parentheses, as it stands behind `if` and `while`. -/
theorem settles_condition (le : n ≤ m) {opening closing : SyntaxError.Cause}
    {f g : Expr → Parser α} (eof : c.final.kind = .eof)
    (plain : opening ≠ .unfinished ∧ closing ≠ .unfinished)
    (many : enough → 12 + 32 * c.rest.length ≤ n)
    (next : ∀ condition c', Past 2 c c' → Settles enough 0 (f condition) (g condition) c') :
    Settles enough 0
      (do
        let _ ← expect .leftParen opening
        let condition ← expression n
        let _ ← expect .rightParen closing
        f condition)
      (do
        let _ ← expect .leftParen opening
        let condition ← expression m
        let _ ← expect .rightParen closing
        g condition) c := by
  refine (Settles.bind (.expect plain.1) fun opening c₁ past₁ => ?_).drop
  have length₁ := past₁.length
  have value := (settledExpr n m le).expression c₁ (past₁.eof eof)
  refine (value.of (fun is => by have := many is; omega) (Nat.zero_le 1)).bind fun v c₂ past₂ => ?_
  have length₂ := past₂.length
  refine (Settles.bind (.expect plain.2) fun closing c₃ past₃ => ?_).drop
  have length₃ := past₃.length
  have final := past₁.trans (past₂.trans past₃)
  exact next v c₃ ⟨final.final, by omega⟩

/-- An expression that may be missing, where a token of this kind follows. -/
theorem settles_optional (le : n ≤ m) (kind : TokenKind) {f g : Option Expr → Parser α}
    (eof : c.final.kind = .eof) (many : enough → 12 + 32 * c.rest.length ≤ n)
    (next : ∀ value c', Past 0 c c' → Settles enough 0 (f value) (g value) c') :
    Settles enough 0
      (do
        let value ← if ← check kind then pure none else some <$> expression n
        f value)
      (do
        let value ← if ← check kind then pure none else some <$> expression m
        g value) c := by
  refine .check fun closed => ?_
  split
  · exact (Settles.pure none).bind next
  · have value := ((settledExpr n m le).expression c eof).map some
    exact (value.of many (Nat.zero_le 1)).bind next

theorem settles_returnStatement (le : n ≤ m) (keyword : Token) (c : Cursor)
    (eof : c.final.kind = .eof) :
    Settles (12 + 32 * c.rest.length ≤ n) 0 (returnStatement n keyword) (returnStatement m keyword)
      c :=
  settles_optional le _ eof id fun _ _ _ =>
    (Settles.bind (.expect (by decide)) fun _ _ _ => .pure _).drop

theorem settles_parameters (le : n ≤ m) (c : Cursor) (done : List Token)
    (eof : c.final.kind = .eof) :
    Settles (1 + 32 * c.rest.length ≤ n) 0 (parameters n done) (parameters m done) c := by
  induction n generalizing m c done with
  | zero => exact .zero (by omega)
  | succ n ih =>
    cases m with
    | zero => omega
    | succ m =>
      have more : ∀ c' : Cursor, Past 0 c c' →
          Settles (1 + 32 * c.rest.length ≤ n + 1) 0
            (do
              let name ← expect .identifier .parameterName
              match ← accept .comma with
              | none => pure (name :: done).reverse
              | some _ => parameters n (name :: done))
            (do
              let name ← expect .identifier .parameterName
              match ← accept .comma with
              | none => pure (name :: done).reverse
              | some _ => parameters m (name :: done)) c' := by
        intro c' past
        have length := past.length
        refine (Settles.bind (.expect (by decide)) fun name c'' past' => ?_).drop
        have length' := past'.length
        refine .goesOn fun d past'' => ?_
        have length'' := past''.length
        have eof' := past''.eof (past'.eof (past.eof eof))
        exact (ih (by omega) d _ eof').of (by omega) (Nat.le_refl 0)
      rw [parameters, parameters]
      split
      · exact .peek fun t _ => (Settles.report (by decide)).bind fun _ c' past => more c' past
      · exact more c ⟨rfl, Nat.le_refl _⟩

theorem settles_forInitializer (le : n ≤ m) (c : Cursor) (eof : c.final.kind = .eof) :
    Settles (12 + 32 * c.rest.length ≤ n) 0 (forInitializer n) (forInitializer m) c := by
  refine .acceptAny ?_ (fun mark c' past => ?_) (Nat.zero_le 1)
  · exact ((settles_expressionStatement le c eof).map some).drop
  · have length := past.length
    dsimp only
    split
    · have decl := (settles_varDeclaration le c' (past.eof eof)).map some
      exact decl.of (by omega) (Nat.le_refl 0)
    · exact .pure none

theorem settles_forClauses (le : n ≤ m) (c : Cursor) (eof : c.final.kind = .eof) :
    Settles (1 + 32 * c.rest.length ≤ n) 0 (forClauses n) (forClauses m) c := by
  refine (Settles.bind (.expect (by decide)) fun opening c₁ past₁ => ?_).drop
  have length₁ := past₁.length
  have eof₁ := past₁.eof eof
  refine ((settles_forInitializer le c₁ eof₁).of (by omega) (Nat.le_refl 0)).bind
    fun initializer c₂ past₂ => ?_
  have length₂ := past₂.length
  have eof₂ := past₂.eof eof₁
  refine settles_optional le _ eof₂ (by omega) fun condition c₃ past₃ => ?_
  have length₃ := past₃.length
  refine (Settles.bind (.expect (by decide)) fun semicolon c₄ past₄ => ?_).drop
  have length₄ := past₄.length
  refine settles_optional le _ (past₄.eof (past₃.eof eof₂)) (by omega) fun increment _ _ => ?_
  exact (Settles.bind (.expect (by decide)) fun _ _ _ => .pure _).drop

end Expressions

/-- The parsers of declarations and statements, if the recursion of the first is at most `n` and
that of the second at most `m` deep. -/
structure SettledStmt (n m : Nat) : Prop where
  declaration : ∀ c, c.final.kind = .eof →
    Settles (14 + 32 * c.rest.length ≤ n) (min 1 c.rest.length) (declaration n) (declaration m) c
  classDeclaration : ∀ c, c.final.kind = .eof →
    Settles (1 + 32 * c.rest.length ≤ n) 0 (classDeclaration n) (classDeclaration m) c
  methods : ∀ c done, c.final.kind = .eof →
    Settles (2 + 32 * c.rest.length ≤ n) 0 (methods n done) (methods m done) c
  routine : ∀ c kind, c.final.kind = .eof →
    Settles (1 + 32 * c.rest.length ≤ n) 1 (routine n kind) (routine m kind) c
  block : ∀ c, c.final.kind = .eof →
    Settles (16 + 32 * c.rest.length ≤ n) 0 (block n) (block m) c
  declarations : ∀ c done, c.final.kind = .eof →
    Settles (15 + 32 * c.rest.length ≤ n) 0 (declarations n done) (declarations m done) c
  statement : ∀ c, c.final.kind = .eof →
    Settles (13 + 32 * c.rest.length ≤ n) 1 (statement n) (statement m) c

section Step

variable {n m : Nat} (ih : SettledStmt n m)
include ih

theorem settles_declaration (le : n ≤ m) (c : Cursor) (eof : c.final.kind = .eof) :
    Settles (14 + 32 * c.rest.length ≤ n + 1) (min 1 c.rest.length) (declaration (n + 1))
      (declaration (m + 1)) c := by
  rw [declaration, declaration]
  refine Settles.recover (Settles.of (k := 1) (.peek fun t known => ?_) id (by omega))
  split
  · next kind =>
    refine .advance (known (by simp [kind]) eof) fun c' past => ?_
    have length := past.length
    exact (ih.classDeclaration c' (past.eof eof)).of (by omega) (Nat.le_refl 0)
  · next kind =>
    refine .advance (known (by simp [kind]) eof) fun c' past => ?_
    have length := past.length
    exact ((ih.routine c' _ (past.eof eof)).map _).of (by omega) (Nat.zero_le 1)
  · next kind =>
    refine .advance (known (by simp [kind]) eof) fun c' past => ?_
    have length := past.length
    exact (settles_varDeclaration le c' (past.eof eof)).of (by omega) (Nat.le_refl 0)
  · exact (ih.statement c eof).of (by omega) (Nat.le_refl 1)

theorem settles_classDeclaration (c : Cursor) (eof : c.final.kind = .eof) :
    Settles (1 + 32 * c.rest.length ≤ n + 1) 0 (classDeclaration (n + 1))
      (classDeclaration (m + 1)) c := by
  have body : ∀ name superclass c', Past 1 c c' →
      Settles (1 + 32 * c.rest.length ≤ n + 1) 0
        (do
          let _ ← expect .leftBrace .classBodyOpen
          let decls ← methods n []
          let _ ← expect .rightBrace .classBodyClose
          pure (Stmt.classDecl name superclass decls))
        (do
          let _ ← expect .leftBrace .classBodyOpen
          let decls ← methods m []
          let _ ← expect .rightBrace .classBodyClose
          pure (Stmt.classDecl name superclass decls)) c' := by
    intro name superclass c' past
    have length := past.length
    refine (Settles.bind (.expect (by decide)) fun opening c'' past' => ?_).drop
    have length' := past'.length
    have decls := ih.methods c'' [] (past'.eof (past.eof eof))
    refine (decls.of (by omega) (Nat.le_refl 0)).bind fun _ _ _ => ?_
    exact (Settles.bind (.expect (by decide)) fun _ _ _ => .pure _).drop
  rw [classDeclaration, classDeclaration]
  refine (Settles.bind (.expect (by decide)) fun name c' past => ?_).drop
  refine .acceptAny ?_ (fun less c'' past' => ?_) (Nat.zero_le 1)
  · exact (Settles.pure none).bind fun above c'' past' => body name above c'' (past.trans past')
  · refine (Settles.bind (.expect (by decide)) fun superName d past'' => ?_).drop
    refine Settles.fresh.bind fun id e past''' => (Settles.pure _).bind fun above e' past₄ => ?_
    have whole := (past.trans past').trans past''
    exact body name above e' ((whole.trans past''').trans past₄)

theorem settles_methods (c : Cursor) (done : List FunctionDecl) (eof : c.final.kind = .eof) :
    Settles (2 + 32 * c.rest.length ≤ n + 1) 0 (methods (n + 1) done) (methods (m + 1) done)
      c := by
  rw [methods, methods]
  refine .atEnd fun ended _ => .check fun closed => ?_
  split
  · exact .pure _
  · refine (Settles.bind ((ih.routine c _ eof).of (by omega) (Nat.le_refl 1))
      fun decl c' past => ?_).drop
    have length := past.length
    exact (ih.methods c' _ (past.eof eof)).of (by omega) (Nat.le_refl 0)

theorem settles_routine (le : n ≤ m) (c : Cursor) (kind : RoutineKind) (eof : c.final.kind = .eof) :
    Settles (1 + 32 * c.rest.length ≤ n + 1) 1 (routine (n + 1) kind) (routine (m + 1) kind)
      c := by
  have behind : ∀ name params c', Past 1 c c' →
      Settles (1 + 32 * c.rest.length ≤ n + 1) 0
        (do
          let _ ← expect .rightParen .parametersClose
          let _ ← expect .leftBrace (.routineBodyOpen kind)
          let body ← block n
          pure (⟨name, params, body⟩ : FunctionDecl))
        (do
          let _ ← expect .rightParen .parametersClose
          let _ ← expect .leftBrace (.routineBodyOpen kind)
          let body ← block m
          pure (⟨name, params, body⟩ : FunctionDecl)) c' := by
    intro name params c' past
    have length := past.length
    refine (Settles.bind (.expect (by decide)) fun closing c'' past' => ?_).drop
    have length' := past'.length
    refine (Settles.bind (.expect (by simp)) fun brace d past'' => ?_).drop
    have length'' := past''.length
    have body := ih.block d (past''.eof (past'.eof (past.eof eof)))
    exact (body.of (by omega) (Nat.le_refl 0)).bind fun _ _ _ => .pure _
  rw [routine, routine]
  refine Settles.bind (.expect (by simp)) fun name c' past => ?_
  refine (Settles.bind (.expect (by simp)) fun opening c'' past' => ?_).drop
  have length := (past.trans past').length
  have eof'' := past'.eof (past.eof eof)
  refine .check fun none => ?_
  split
  · refine (Settles.pure []).bind fun params d past'' => ?_
    exact behind name params d ((past.trans past').trans past'')
  · have params := settles_parameters le c'' [] eof''
    refine (params.of (by omega) (Nat.le_refl 0)).bind fun params d past'' => ?_
    exact behind name params d ((past.trans past').trans past'')

theorem settles_block (c : Cursor) (eof : c.final.kind = .eof) :
    Settles (16 + 32 * c.rest.length ≤ n + 1) 0 (block (n + 1)) (block (m + 1)) c := by
  rw [block, block]
  refine ((ih.declarations c [] eof).of (by omega) (Nat.le_refl 0)).bind fun body _ _ => ?_
  exact (Settles.bind (.expect (by decide)) fun _ _ _ => .pure body).drop

theorem settles_declarations (c : Cursor) (done : List Stmt) (eof : c.final.kind = .eof) :
    Settles (15 + 32 * c.rest.length ≤ n + 1) 0 (declarations (n + 1) done)
      (declarations (m + 1) done) c := by
  rw [declarations, declarations]
  refine .atEnd fun ended open_ => .check fun closed => ?_
  split
  · exact .pure _
  · next goesOn =>
    have some : 0 < c.rest.length := List.length_pos_iff.2 (open_ (by cases ended <;> simp_all))
    refine (Settles.bind ((ih.declaration c eof).of (by omega) (Nat.le_refl _))
      fun o c' past => ?_).drop
    have length := past.length
    cases o with
    | none => exact (ih.declarations c' done (past.eof eof)).of (by omega) (Nat.le_refl 0)
    | some s => exact (ih.declarations c' _ (past.eof eof)).of (by omega) (Nat.le_refl 0)

theorem settles_statement (le : n ≤ m) (c : Cursor) (eof : c.final.kind = .eof) :
    Settles (13 + 32 * c.rest.length ≤ n + 1) 1 (statement (n + 1)) (statement (m + 1)) c := by
  rw [statement, statement]
  refine .peek fun t known => ?_
  split
  · next kind =>
    refine .advance (known (by simp [kind]) eof) fun c₁ past₁ => ?_
    have length₁ := past₁.length
    have clauses := settles_forClauses le c₁ (past₁.eof eof)
    refine (clauses.of (by omega) (Nat.le_refl 0)).bind fun clauses c₂ past₂ => ?_
    have length₂ := past₂.length
    have body := ih.statement c₂ (past₂.eof (past₁.eof eof))
    exact (body.of (by omega) (Nat.zero_le 1)).bind fun _ _ _ => .pure _
  · next kind =>
    refine .advance (known (by simp [kind]) eof) fun c₁ past₁ => ?_
    have length₁ := past₁.length
    refine settles_condition le (past₁.eof eof) (by decide) (by omega) fun condition c₂ past₂ => ?_
    have length₂ := past₂.length
    have eof₂ := past₂.eof (past₁.eof eof)
    refine ((ih.statement c₂ eof₂).of (by omega) (Nat.zero_le 1)).bind
      fun thenBranch c₃ past₃ => ?_
    have length₃ := past₃.length
    refine .acceptAny (.pure _) (fun keywordElse c₄ past₄ => ?_) (Nat.zero_le 1)
    have length₄ := past₄.length
    exact ((ih.statement c₄ (past₄.eof (past₃.eof eof₂))).of (by omega) (Nat.zero_le 1)).bind
      fun elseBranch _ _ => .pure _
  · next kind =>
    refine .advance (known (by simp [kind]) eof) fun c' past => ?_
    have length := past.length
    exact (settles_printStatement le c' (past.eof eof)).of (by omega) (Nat.zero_le 1)
  · next kind =>
    refine .advance (known (by simp [kind]) eof) fun c' past => ?_
    have length := past.length
    exact (settles_returnStatement le t c' (past.eof eof)).of (by omega) (Nat.le_refl 0)
  · next kind =>
    refine .advance (known (by simp [kind]) eof) fun c₁ past₁ => ?_
    have length₁ := past₁.length
    refine settles_condition le (past₁.eof eof) (by decide) (by omega) fun condition c₂ past₂ => ?_
    have length₂ := past₂.length
    have body := ih.statement c₂ (past₂.eof (past₁.eof eof))
    exact (body.of (by omega) (Nat.zero_le 1)).bind fun _ _ _ => .pure _
  · next kind =>
    refine .advance (known (by simp [kind]) eof) fun c' past => ?_
    have length := past.length
    exact ((ih.block c' (past.eof eof)).map _).of (by omega) (Nat.le_refl 0)
  · exact (settles_expressionStatement le c eof).of (by omega) (Nat.le_refl 1)

end Step

theorem settledStmt (n m : Nat) (le : n ≤ m) : SettledStmt n m := by
  induction n generalizing m with
  | zero =>
    constructor
    case declaration =>
      intro c _
      have never : ¬ 14 + 32 * c.rest.length ≤ 0 := by omega
      have skips := Settles.recover (α := Stmt) (q := stop .unfinished) (c := c) (.zero never)
      exact ⟨skips.shortens, fun e => absurd e never, fun e => absurd e never⟩
    all_goals
      intros
      exact .zero (by omega)
  | succ n ih =>
    cases m with
    | zero => omega
    | succ m =>
      have below : n ≤ m := by omega
      have ih := ih m below
      exact ⟨settles_declaration ih below, settles_classDeclaration ih, settles_methods ih,
        settles_routine ih below, settles_block ih, settles_declarations ih,
        settles_statement ih below⟩

theorem settles_program {n m : Nat} (le : n ≤ m) (c : Cursor) (done : List Stmt)
    (eof : c.final.kind = .eof) :
    Settles (15 + 32 * c.rest.length ≤ n) 0 (program n done) (program m done) c := by
  induction n generalizing m c done with
  | zero => exact .zero (by omega)
  | succ n ih =>
    cases m with
    | zero => omega
    | succ m =>
      rw [program, program]
      refine .atEnd fun ended open_ => ?_
      split
      · exact .pure _
      · next goesOn =>
        have some : 0 < c.rest.length := List.length_pos_iff.2 (open_ (by simpa using goesOn))
        have decl := (settledStmt n m (by omega)).declaration c eof
        refine (Settles.bind (decl.of (by omega) (Nat.le_refl _)) fun o c' past => ?_).drop
        have length := past.length
        cases o with
        | none => exact (ih (by omega) c' done (past.eof eof)).of (by omega) (Nat.le_refl 0)
        | some s => exact (ih (by omega) c' _ (past.eof eof)).of (by omega) (Nat.le_refl 0)

end Treewalk.Parser
