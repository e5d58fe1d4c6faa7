import Treewalk.Proofs.Grammar.Positions

/-!
# Two runs side by side

The same parser runs twice: on some tokens, and on these with `more` tokens behind them and the errors
`earlier` recorded before. `Abreast` says how the runs compare. They stay side by side up to the
semicolon before the additional tokens; behind it the first run has come to its end. There it may
return as the second does, or it misses a token and stops, which is an error at the end.

With no additional tokens the two runs do the same to the end.
-/

namespace Treewalk.Parser

variable {α β : Type} {more : List Token} {earlier : List SyntaxError} {leaves leaves' : Prop}
  {same : α → α → Prop} {same' : β → β → Prop} {p q : Parser α} {f g : α → Parser β}
  {c c' d d' : Cursor}

/-- Cursors on the same tokens, behind which the second has `more`. The last of the same tokens is a
semicolon then. -/
structure Seam (more : List Token) (earlier : List SyntaxError) (c d : Cursor) : Prop where
  rest : d.rest = c.rest ++ more
  errors : d.errors = c.errors ++ earlier
  final : more = [] → d.final = c.final
  semicolon : more ≠ [] → ∃ t, c.rest.getLast? = some t ∧ t.kind = .semicolon
  eof : c.final.kind = .eof

/-- The first cursor has come to the end, the second to the additional tokens. -/
structure Behind (more : List Token) (earlier : List SyntaxError) (c d : Cursor) : Prop where
  some : more ≠ []
  ended : c.rest = []
  rest : d.rest = more
  errors : d.errors = c.errors ++ earlier
  eof : c.final.kind = .eof

/-- How the two runs end. If one that returns `leaves` the same tokens, it may stand behind them. -/
inductive Abreast (more : List Token) (earlier : List SyntaxError) (leaves : Prop)
    (same : α → α → Prop) :
    EStateM.Result SyntaxError Cursor α → EStateM.Result SyntaxError Cursor α → Prop
  | ok {a b : α} {c d : Cursor} (value : same a b) (seam : Seam more earlier c d) :
    Abreast more earlier leaves same (.ok a c) (.ok b d)
  | error {e : SyntaxError} {c d : Cursor} (seam : Seam more earlier c d) :
    Abreast more earlier leaves same (.error e c) (.error e d)
  | behind {a b : α} {c d : Cursor} (may : leaves) (value : same a b)
    (behind : Behind more earlier c d) :
    Abreast more earlier leaves same (.ok a c) (.ok b d)
  | lost {e : SyntaxError} {c : Cursor} {r : EStateM.Result SyntaxError Cursor α}
    (some : more ≠ []) (atEnd : e.token.kind = .eof) (ended : c.rest = [])
    (eof : c.final.kind = .eof) :
    Abreast more earlier leaves same (.error e c) r

/-- `Abreast` with both parsers in sight. -/
def SideBySide (more : List Token) (earlier : List SyntaxError) (leaves : Prop)
    (same : α → α → Prop) (p q : Parser α) (c d : Cursor) : Prop :=
  Abreast more earlier leaves same (p c) (q d)

/-- Any two values. -/
def Any (_ _ : α) : Prop := True

namespace Seam

variable (seam : Seam more earlier c d)
include seam

theorem ne_nil (some : more ≠ []) : c.rest ≠ [] := by
  obtain ⟨t, last, -⟩ := seam.semicolon some
  intro none
  simp [none] at last

theorem head? : d.rest.head? = c.rest.head? := by
  rw [seam.rest]
  by_cases none : more = []
  · rw [none, List.append_nil]
  · rw [List.head?_append_of_ne_nil _ (seam.ne_nil none)]

theorem headD : d.rest.headD d.final = c.rest.headD c.final := by
  rw [List.headD_eq_head?_getD, List.headD_eq_head?_getD, seam.head?]
  by_cases none : more = []
  · rw [seam.final none]
  · obtain ⟨t, rest, next⟩ := List.exists_cons_of_ne_nil (seam.ne_nil none)
    simp [next]

/-- Both read the next token, which is not the last semicolon. -/
theorem tail {t : Token} {rest : List Token} (next : c.rest = t :: rest)
    (other : t.kind ≠ .semicolon) :
    Seam more earlier { c with rest } { d with rest := rest ++ more } where
  rest := rfl
  errors := seam.errors
  final := seam.final
  semicolon some := by
    obtain ⟨u, last, isSemicolon⟩ := seam.semicolon some
    cases rest with
    | nil =>
      simp only [next, List.getLast?_singleton, Option.some.injEq] at last
      rw [last] at other
      exact absurd isSemicolon other
    | cons v rest => exact ⟨u, by rwa [next, List.getLast?_cons_cons] at last, isSemicolon⟩
  eof := seam.eof

/-- Both read the next token, and it may be the last semicolon. -/
theorem leave {t : Token} {rest : List Token} (next : c.rest = t :: rest) :
    Seam more earlier { c with rest } { d with rest := rest ++ more } ∨
      Behind more earlier { c with rest } { d with rest := rest ++ more } := by
  by_cases last : more ≠ [] ∧ rest = []
  · right
    obtain ⟨some, rfl⟩ := last
    exact ⟨some, rfl, rfl, seam.errors, seam.eof⟩
  · left
    refine ⟨rfl, seam.errors, seam.final, fun some => ?_, seam.eof⟩
    obtain ⟨u, isLast, isSemicolon⟩ := seam.semicolon some
    cases rest with
    | nil => exact absurd ⟨some, rfl⟩ last
    | cons v rest => exact ⟨u, by rwa [next, List.getLast?_cons_cons] at isLast, isSemicolon⟩

end Seam

namespace Abreast

theorem bindLeaving (h : Abreast more earlier leaves same (p c) (q d))
    (next : ∀ a b c' d', same a b → Seam more earlier c' d' →
      Abreast more earlier leaves' same' (f a c') (g b d'))
    (nextBehind : leaves → ∀ a b c' d', same a b → Behind more earlier c' d' →
      Abreast more earlier leaves' same' (f a c') (g b d')) :
    Abreast more earlier leaves' same' ((p >>= f) c) ((q >>= g) d) := by
  cases left : p c with
  | ok a c' =>
    rw [left] at h
    cases right : q d with
    | ok b d' =>
      rw [right] at h
      rw [bind_of_ok left, bind_of_ok right]
      cases h with
      | ok value seam => exact next a b c' d' value seam
      | behind may value behind => exact nextBehind may a b c' d' value behind
    | error e d' =>
      rw [right] at h
      cases h
  | error e c' =>
    rw [left] at h
    rw [bind_of_error left]
    cases right : q d with
    | ok b d' =>
      rw [right] at h
      cases h with
      | lost some atEnd ended eof => exact .lost some atEnd ended eof
    | error e' d' =>
      rw [right] at h
      rw [bind_of_error right]
      cases h with
      | error seam => exact .error seam
      | lost some atEnd ended eof => exact .lost some atEnd ended eof

theorem bind (h : Abreast more earlier False same (p c) (q d))
    (next : ∀ a b c' d', same a b → Seam more earlier c' d' →
      Abreast more earlier leaves same' (f a c') (g b d')) :
    Abreast more earlier leaves same' ((p >>= f) c) ((q >>= g) d) :=
  h.bindLeaving next False.elim

theorem of {same' : α → α → Prop} {l r : EStateM.Result SyntaxError Cursor α}
    (h : Abreast more earlier leaves same l r) (weaker : leaves → leaves')
    (weaker' : ∀ a b, same a b → same' a b) : Abreast more earlier leaves' same' l r := by
  cases h with
  | ok value seam => exact .ok (weaker' _ _ value) seam
  | error seam => exact .error seam
  | behind may value behind => exact .behind (weaker may) (weaker' _ _ value) behind
  | lost some atEnd ended eof => exact .lost some atEnd ended eof

/-- What the runs make of the values they return does not matter. -/
theorem returns (h : Abreast more earlier leaves same (p c) (q d)) (m m' : α → β) :
    Abreast more earlier leaves Any ((p >>= fun a => pure (m a)) c)
      ((q >>= fun b => pure (m' b)) d) := by
  refine h.bindLeaving (fun _ _ _ _ _ seam => ?_) (fun may _ _ _ _ _ behind => ?_)
  · exact .ok trivial seam
  · exact .behind may trivial behind

theorem map (h : Abreast more earlier leaves same (p c) (q d)) (m : α → β) :
    Abreast more earlier leaves Any ((m <$> p) c) ((m <$> q) d) := by
  rw [map_eq_pure_bind, map_eq_pure_bind]
  exact h.returns m m

end Abreast

namespace Seam

variable (seam : Seam more earlier c d)
include seam

theorem stop (cause : SyntaxError.Cause) :
    Abreast more earlier leaves same (stop cause c) (stop cause d) := by
  show Abreast _ _ _ _ (.error ⟨c.rest.headD c.final, cause⟩ c)
    (.error ⟨d.rest.headD d.final, cause⟩ d)
  rw [seam.headD]
  exact .error seam

theorem peek {f g : Token → Parser α}
    (next : ∀ t, (t.kind ≠ .eof → ∃ rest, c.rest = t :: rest) →
      SideBySide more earlier leaves same (f t) (g t) c d) :
    Abreast more earlier leaves same ((Parser.peek >>= f) c) ((Parser.peek >>= g) d) := by
  have left : Parser.peek c = .ok (c.rest.headD c.final) c := rfl
  have right : Parser.peek d = .ok (d.rest.headD d.final) d := rfl
  rw [bind_of_ok left, bind_of_ok right, seam.headD]
  apply next
  intro other
  cases here : c.rest with
  | nil =>
    rw [here] at other
    exact absurd seam.eof other
  | cons t rest => exact ⟨rest, rfl⟩

/-- The next token is read behind a look at it. -/
theorem advance {t : Token} {f g : Unit → Parser α} (known : ∃ rest, c.rest = t :: rest)
    (other : t.kind ≠ .semicolon)
    (next : ∀ c' d', Seam more earlier c' d' →
      SideBySide more earlier leaves same (f ()) (g ()) c' d') :
    Abreast more earlier leaves same ((Parser.advance >>= f) c) ((Parser.advance >>= g) d) := by
  obtain ⟨rest, here⟩ := known
  have left : Parser.advance c = .ok () { c with rest } := by simp [Parser.advance, here]
  have right : Parser.advance d = .ok () { d with rest := rest ++ more } := by
    simp [Parser.advance, seam.rest, here]
  rw [bind_of_ok left, bind_of_ok right]
  exact next _ _ (seam.tail here other)

theorem check (kind : TokenKind) {f g : Bool → Parser α}
    (next : ∀ b, Abreast more earlier leaves same (f b c) (g b d)) :
    Abreast more earlier leaves same ((Parser.check kind >>= f) c) ((Parser.check kind >>= g) d) := by
  rw [bind_of_ok (check_eq kind c), bind_of_ok (check_eq kind d), seam.head?]
  exact next _

theorem report (t : Token) (cause : SyntaxError.Cause) :
    Abreast more earlier leaves Any (report t cause c) (report t cause d) := by
  refine .ok trivial ⟨seam.rest, ?_, seam.final, seam.semicolon, seam.eof⟩
  show ⟨t, cause⟩ :: d.errors = _
  rw [seam.errors, List.cons_append]

theorem fresh : Abreast more earlier leaves Any (fresh c) (fresh d) :=
  .ok trivial ⟨seam.rest, seam.errors, seam.final, seam.semicolon, seam.eof⟩

theorem acceptAny (kinds : List TokenKind) :
    Abreast more earlier (.semicolon ∈ kinds) Eq (acceptAny kinds c) (acceptAny kinds d) := by
  by_cases fits : ∀ t ∈ c.rest.head?, t.kind ∉ kinds
  · have fits' := fits
    rw [← seam.head?] at fits'
    rw [acceptAny_of_not_mem fits, acceptAny_of_not_mem fits']
    exact .ok rfl seam
  · obtain ⟨t, head, member⟩ : ∃ t ∈ c.rest.head?, t.kind ∈ kinds := by simpa using fits
    obtain ⟨rest, here⟩ := List.head?_eq_some_iff.1 head
    have here' : d.rest = t :: (rest ++ more) := by rw [seam.rest, here, List.cons_append]
    rw [acceptAny_of_mem here member, acceptAny_of_mem here' member]
    by_cases isSemicolon : t.kind = .semicolon
    · rw [isSemicolon] at member
      rcases seam.leave here with seam' | behind
      · exact .ok rfl seam'
      · exact .behind member rfl behind
    · exact .ok rfl (seam.tail here isSemicolon)

theorem acceptOther (kinds : List TokenKind) (other : .semicolon ∉ kinds) :
    Abreast more earlier False Eq (Parser.acceptAny kinds c) (Parser.acceptAny kinds d) :=
  (seam.acceptAny kinds).of other fun _ _ value => value

theorem accept (kind : TokenKind) (other : kind ≠ .semicolon) :
    Abreast more earlier False Eq (accept kind c) (accept kind d) :=
  seam.acceptOther [kind] (by simpa using other.symm)

theorem expect (kind : TokenKind) (cause : SyntaxError.Cause) (other : kind ≠ .semicolon) :
    Abreast more earlier False Eq (expect kind cause c) (expect kind cause d) := by
  refine (seam.accept kind other).bind fun o o' _ _ value seam' => ?_
  subst value
  cases o with
  | none => exact seam'.stop cause
  | some t => exact .ok rfl seam'

/-- What is read behind one thing of a list: a comma and the list again, or nothing. -/
theorem goesOn {p q : Parser α} {a b : α}
    (again : ∀ {c d}, Seam more earlier c d → Abreast more earlier False Any (p c) (q d)) :
    Abreast more earlier False Any
      ((do
        match ← Parser.accept .comma with
        | none => pure a
        | some _ => p) c)
      ((do
        match ← Parser.accept .comma with
        | none => pure b
        | some _ => q) d) := by
  refine (seam.accept .comma (by decide)).bind fun o o' _ _ value seam' => ?_
  subst value
  cases o with
  | none => exact .ok trivial seam'
  | some comma => exact again seam'

end Seam

/-- What stops where the first cursor has come to the end is lost. -/
theorem Behind.stop (behind : Behind more earlier c d) (cause : SyntaxError.Cause)
    {r : EStateM.Result SyntaxError Cursor α} :
    Abreast more earlier leaves same (Parser.stop cause c) r := by
  have token : c.rest.headD c.final = c.final := by rw [behind.ended, List.headD_nil]
  refine .lost behind.some ?_ behind.ended behind.eof
  rw [token]
  exact behind.eof

theorem Seam.expectSemicolon (seam : Seam more earlier c d) (cause : SyntaxError.Cause) :
    Abreast more earlier True Any (Parser.expect .semicolon cause c)
      (Parser.expect .semicolon cause d) := by
  refine (seam.acceptAny [.semicolon]).bindLeaving (fun o o' _ _ value seam' => ?_)
    fun _ o o' _ _ value behind => ?_
  · subst value
    cases o with
    | none => exact seam'.stop cause
    | some t => exact .ok trivial seam'
  · subst value
    cases o with
    | none => exact behind.stop cause
    | some t => exact .behind trivial trivial behind

/-- What can be assigned to. -/
def isTarget : Expr → Bool
  | .read _ | .get .. => true
  | _ => false

theorem assigned?_isSome (target value : Expr) :
    (target.assigned? value).isSome = isTarget target := by
  cases target <;> rfl

/-- Two expressions of which both can be assigned to, or neither. -/
def AlikeTargets (e e' : Expr) : Prop := isTarget e = isTarget e'

theorem isTarget_combine (level : Level) (left : Expr) (operator : Token) (right : Expr) :
    isTarget (level.combine left operator right) = false := by
  cases level <;> rfl

variable (more earlier) in
/-- The parsers of expressions, if their recursion is at most `n` deep. They do not read the
semicolon. -/
structure ExprSideBySide (n : Nat) : Prop where
  expression : ∀ {c d}, Seam more earlier c d →
    Abreast more earlier False Any (expression n c) (expression n d)
  items : ∀ {c d} done done', Seam more earlier c d →
    Abreast more earlier False Any (items n done c) (items n done' d)
  assignment : ∀ {c d}, Seam more earlier c d →
    Abreast more earlier False Any (assignment n c) (assignment n d)
  operation : ∀ {c d} level, Seam more earlier c d →
    Abreast more earlier False AlikeTargets (operation n level c) (operation n level d)
  operations : ∀ {c d} level {left left'}, AlikeTargets left left' → Seam more earlier c d →
    Abreast more earlier False AlikeTargets (operations n level left c)
      (operations n level left' d)
  unary : ∀ {c d}, Seam more earlier c d →
    Abreast more earlier False AlikeTargets (unary n c) (unary n d)
  call : ∀ {c d}, Seam more earlier c d →
    Abreast more earlier False AlikeTargets (call n c) (call n d)
  calls : ∀ {c d} {callee callee'}, AlikeTargets callee callee' → Seam more earlier c d →
    Abreast more earlier False AlikeTargets (calls n callee c) (calls n callee' d)
  arguments : ∀ {c d}, Seam more earlier c d →
    Abreast more earlier False Any (arguments n c) (arguments n d)
  moreArguments : ∀ {c d} {done done' : List Expr}, done.length = done'.length →
    Seam more earlier c d →
    Abreast more earlier False Any (moreArguments n done c) (moreArguments n done' d)
  primary : ∀ {c d}, Seam more earlier c d →
    Abreast more earlier False AlikeTargets (primary n c) (primary n d)

section Step

variable {n : Nat} (ih : ExprSideBySide more earlier n) (seam : Seam more earlier c d)
include ih seam

theorem beside_expression :
    Abreast more earlier False Any (expression (n + 1) c) (expression (n + 1) d) := by
  rw [expression]
  refine (ih.assignment seam).bind fun first first' c' d' _ seam' => ?_
  refine seam'.check _ fun b => ?_
  cases b with
  | true => exact ih.items [first] [first'] seam'
  | false => exact .ok trivial seam'

theorem beside_items (done done' : List Expr) :
    Abreast more earlier False Any (items (n + 1) done c) (items (n + 1) done' d) := by
  rw [items, items]
  refine (seam.accept .comma (by decide)).bind fun o o' c' d' value seam' => ?_
  subst value
  cases o with
  | none => exact .ok trivial seam'
  | some comma =>
    exact (ih.assignment seam').bind fun _ _ _ _ _ seam'' => ih.items _ _ seam''

theorem beside_assignment :
    Abreast more earlier False Any (assignment (n + 1) c) (assignment (n + 1) d) := by
  rw [assignment]
  refine (ih.operation _ seam).bind fun target target' c₁ d₁ alike seam₁ => ?_
  refine (seam₁.accept .equal (by decide)).bind fun o o' c₂ d₂ value seam₂ => ?_
  subst value
  cases o with
  | none => exact .ok trivial seam₂
  | some equals =>
    refine (ih.assignment seam₂).bind fun assigned assigned' c₃ d₃ _ seam₃ => ?_
    have both : (target.assigned? assigned).isSome = (target'.assigned? assigned').isSome := by
      rw [assigned?_isSome, assigned?_isSome, alike]
    cases valid : target.assigned? assigned with
    | some e =>
      obtain ⟨e', valid'⟩ := Option.isSome_iff_exists.1 (both.symm.trans (by rw [valid]; rfl))
      simp only [valid']
      exact .ok trivial seam₃
    | none =>
      have valid' : target'.assigned? assigned' = none := by
        simpa [valid] using both
      simp only [valid']
      exact (seam₃.report equals _).bind fun _ _ _ _ _ seam₄ => .ok trivial seam₄

theorem beside_operation (level : Option Level) :
    Abreast more earlier False AlikeTargets (operation (n + 1) level c)
      (operation (n + 1) level d) := by
  cases level with
  | none => exact ih.unary seam
  | some level =>
    rw [operation]
    exact (ih.operation _ seam).bind fun _ _ _ _ alike seam' => ih.operations level alike seam'

theorem beside_operations (level : Level) {left left' : Expr} (alike : AlikeTargets left left') :
    Abreast more earlier False AlikeTargets (operations (n + 1) level left c)
      (operations (n + 1) level left' d) := by
  have other : .semicolon ∉ level.operators := by cases level <;> decide
  rw [operations, operations]
  refine (seam.acceptOther _ other).bind fun o o' c' d' value seam' => ?_
  subst value
  cases o with
  | none => exact .ok alike seam'
  | some operator =>
    refine (ih.operation _ seam').bind fun right right' _ _ _ seam'' => ?_
    refine ih.operations level ?_ seam''
    rw [AlikeTargets, isTarget_combine, isTarget_combine]

theorem beside_unary :
    Abreast more earlier False AlikeTargets (unary (n + 1) c) (unary (n + 1) d) := by
  rw [unary]
  refine (seam.acceptOther [.bang, .minus] (by decide)).bind fun o o' c' d' value seam' => ?_
  subst value
  cases o with
  | none => exact ih.call seam'
  | some operator => exact (ih.unary seam').bind fun _ _ _ _ _ seam'' => .ok rfl seam''

theorem beside_call :
    Abreast more earlier False AlikeTargets (call (n + 1) c) (call (n + 1) d) := by
  rw [call]
  exact (ih.primary seam).bind fun _ _ _ _ alike seam' => ih.calls alike seam'

theorem beside_calls {callee callee' : Expr} (alike : AlikeTargets callee callee') :
    Abreast more earlier False AlikeTargets (calls (n + 1) callee c)
      (calls (n + 1) callee' d) := by
  rw [calls, calls]
  refine (seam.acceptOther [.leftParen, .dot] (by decide)).bind fun o o' c' d' value seam' => ?_
  subst value
  cases o with
  | none => exact .ok alike seam'
  | some mark =>
    dsimp only
    split
    · exact (seam'.expect .identifier _ (by decide)).bind fun _ _ _ _ _ seam'' =>
        ih.calls rfl seam''
    · refine (ih.arguments seam').bind fun _ _ _ _ _ seam'' => ?_
      exact (seam''.expect .rightParen _ (by decide)).bind fun _ _ _ _ _ seam''' =>
        ih.calls rfl seam'''

theorem beside_arguments :
    Abreast more earlier False Any (arguments (n + 1) c) (arguments (n + 1) d) := by
  rw [arguments]
  refine seam.check _ fun b => ?_
  cases b with
  | true => exact .ok trivial seam
  | false => exact ih.moreArguments rfl seam

theorem beside_argumentAndMore {done done' : List Expr} (length : done.length = done'.length) :
    Abreast more earlier False Any
      ((do
        let value ← assignment n
        match ← Parser.accept .comma with
        | none => pure (value :: done).reverse
        | some _ => moreArguments n (value :: done)) c)
      ((do
        let value ← assignment n
        match ← Parser.accept .comma with
        | none => pure (value :: done').reverse
        | some _ => moreArguments n (value :: done')) d) := by
  refine (ih.assignment seam).bind fun _ _ _ _ _ seam' => ?_
  exact seam'.goesOn fun seam'' => ih.moreArguments (congrArg (· + 1) length) seam''

theorem beside_moreArguments {done done' : List Expr} (length : done.length = done'.length) :
    Abreast more earlier False Any (moreArguments (n + 1) done c)
      (moreArguments (n + 1) done' d) := by
  rw [moreArguments, moreArguments, ← length]
  split
  · refine seam.peek fun t _ => (seam.report t _).bind fun _ _ _ _ _ seam' => ?_
    exact beside_argumentAndMore ih seam' length
  · exact beside_argumentAndMore ih seam length

theorem beside_primary :
    Abreast more earlier False AlikeTargets (primary (n + 1) c) (primary (n + 1) d) := by
  rw [primary]
  refine seam.peek fun t known => ?_
  split
  · next kind =>
    exact seam.advance (known (by simp [kind])) (by simp [kind]) fun _ _ seam' => .ok rfl seam'
  · next kind =>
    exact seam.advance (known (by simp [kind])) (by simp [kind]) fun _ _ seam' => .ok rfl seam'
  · next kind =>
    exact seam.advance (known (by simp [kind])) (by simp [kind]) fun _ _ seam' => .ok rfl seam'
  · next kind =>
    refine seam.advance (known (by simp [kind])) (by simp [kind]) fun _ _ seam' => ?_
    split
    · exact .ok rfl seam'
    · exact .ok rfl seam'
    · exact .error seam'
  · next kind =>
    refine seam.advance (known (by simp [kind])) (by simp [kind]) fun _ _ seam' => ?_
    split
    · exact .ok rfl seam'
    · exact .ok rfl seam'
    · exact .error seam'
  · next kind =>
    refine seam.advance (known (by simp [kind])) (by simp [kind]) fun _ _ seam₁ => ?_
    refine (seam₁.expect .dot _ (by decide)).bind fun _ _ _ _ _ seam₂ => ?_
    refine (seam₂.expect .identifier _ (by decide)).bind fun _ _ _ _ _ seam₃ => ?_
    exact (seam₃.fresh).bind fun _ _ _ _ _ seam₄ => .ok rfl seam₄
  · next kind =>
    refine seam.advance (known (by simp [kind])) (by simp [kind]) fun _ _ seam₁ => ?_
    exact (seam₁.fresh).bind fun _ _ _ _ _ seam₂ => .ok rfl seam₂
  · next kind =>
    refine seam.advance (known (by simp [kind])) (by simp [kind]) fun _ _ seam₁ => ?_
    exact (seam₁.fresh).bind fun _ _ _ _ _ seam₂ => .ok rfl seam₂
  · next kind =>
    refine seam.advance (known (by simp [kind])) (by simp [kind]) fun _ _ seam₁ => ?_
    refine (ih.expression seam₁).bind fun _ _ _ _ _ seam₂ => ?_
    exact (seam₂.expect .rightParen _ (by decide)).bind fun _ _ _ _ _ seam₃ => .ok rfl seam₃
  · exact seam.stop _

end Step

theorem exprSideBySide (n : Nat) : ExprSideBySide more earlier n := by
  induction n with
  | zero => constructor <;> intros <;> exact Seam.stop ‹_› _
  | succ n ih =>
    constructor
    case expression => exact fun seam => beside_expression ih seam
    case items => exact fun done done' seam => beside_items ih seam done done'
    case assignment => exact fun seam => beside_assignment ih seam
    case operation => exact fun level seam => beside_operation ih seam level
    case operations => exact fun level _ _ alike seam => beside_operations ih seam level alike
    case unary => exact fun seam => beside_unary ih seam
    case call => exact fun seam => beside_call ih seam
    case calls => exact fun alike seam => beside_calls ih seam alike
    case arguments => exact fun seam => beside_arguments ih seam
    case moreArguments => exact fun length seam => beside_moreArguments ih seam length
    case primary => exact fun seam => beside_primary ih seam

end Treewalk.Parser
