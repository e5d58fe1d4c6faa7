import Treewalk.Proofs.Grammar.Heads
import Treewalk.Proofs.Grammar.Positions

/-!
# What the parser has read can be completed

`Leads X Y p c` is about a run of the parser `p` from the cursor `c`, where `X` is what may follow. If
the run returns, then `Y` is what may follow behind the tokens that it read; if an error comes first,
then what was read up to the error can be completed to a word of `X`, and no word goes on with the token
of the error. Errors that are no matter of the grammar are tolerated.

A parser of a rule leads from the words of the rule, with `K` behind them, to `K`, for any `K` that does
not begin with a token that could continue the rule. So the parsers compose, and all that has to be
known of the grammar is which tokens its phrases begin with.
-/

namespace Treewalk

/-- The errors that are no matter of the grammar. The parser goes on as if they were none. -/
def SyntaxError.Cause.tolerated : SyntaxError.Cause → Bool
  | .invalidTarget | .tooManyParameters | .tooManyArguments => true
  | _ => false

/-- The token that a parser looks at. -/
def Cursor.next (c : Cursor) : Token := c.rest.headD c.final

namespace Parser

open Grammar
open scoped Computability

variable {α β : Type} {p q : Parser α} {f : α → Parser β} {c c' c'' : Cursor}
  {X Y Z K : Language Token} {errors errors' : List SyntaxError}

def Tolerated (errors : List SyntaxError) : Prop := ∀ e ∈ errors, e.cause.tolerated = true

/-- The error stands at the first token that cannot follow, where `X` may follow the cursor. -/
def Misplaced (X : Language Token) (c : Cursor) (e : SyntaxError) : Prop :=
  ∃ read left, c.rest = read ++ left ∧ e.token = left.headD c.final ∧
    (∃ w, read ++ w ∈ X) ∧ ∀ w, read ++ e.token :: w ∉ X

/-- The first error that is not tolerated is misplaced, unless the steps ran out. The errors stand
newest first. -/
def FirstError (X : Language Token) (c : Cursor) (errors : List SyntaxError) : Prop :=
  ∃ later e before, errors = later ++ e :: before ∧ Tolerated before ∧
    e.cause.tolerated = false ∧ (e.cause = .unfinished ∨ Misplaced X c e)

/-- Where `X` may follow the first cursor, `Y` may follow the second, as far as the next token shows. -/
structure Consumes (X Y : Language Token) (c c' : Cursor) (read : List Token) : Prop where
  rest : c.rest = read ++ c'.rest
  final : c'.final = c.final
  complete : ∀ w ∈ Y, read ++ w ∈ X
  forced : ∀ w, read ++ c'.next :: w ∈ X → c'.next :: w ∈ Y

/-- How a run ends. -/
def Ends (X Y : Language Token) (c : Cursor) : EStateM.Result SyntaxError Cursor α → Prop
  | .ok _ c' => (Tolerated c'.errors ∧ ∃ read, Consumes X Y c c' read) ∨ FirstError X c c'.errors
  | .error e c' => FirstError X c (e :: c'.errors)

structure Goes (X Y : Language Token) (c : Cursor) (r : EStateM.Result SyntaxError Cursor α) :
    Prop where
  forward : Forward c (ending r)
  ends : Tolerated c.errors → Ends X Y c r

/-- Only the last token is an end token. -/
structure Proper (c : Cursor) : Prop where
  final : c.final.kind = .eof
  rest : ∀ t ∈ c.rest, t.kind ≠ .eof

theorem Proper.forward (h : Proper c) (forward : Forward c c') : Proper c' where
  final := forward.final ▸ h.final
  rest t member := h.rest t (forward.rest.mem member)

def Leads (X Y : Language Token) (p : Parser α) (c : Cursor) : Prop :=
  Proper c → Goes X Y c (p c)

theorem Tolerated.cons {e : SyntaxError} (h : e.cause.tolerated = true)
    (h' : Tolerated errors) : Tolerated (e :: errors) :=
  List.forall_mem_cons.2 ⟨h, h'⟩

/-- Later errors do not change which one is the first. -/
theorem FirstError.later (h : FirstError X c errors) (more : errors <:+ errors') :
    FirstError X c errors' := by
  obtain ⟨front, rfl⟩ := more
  obtain ⟨later, e, before, rfl, tolerated, counts, misplaced⟩ := h
  exact ⟨front ++ later, e, before, (List.append_assoc ..).symm, tolerated, counts, misplaced⟩

/-- Tokens up to the next one are tokens up to the one after them. -/
theorem exists_next {read left : List Token} (split : c.rest = read ++ left) (w : List Token) :
    ∃ w', read ++ left.headD c.final :: w = c.next :: w' := by
  unfold Cursor.next
  cases read with
  | nil =>
    rw [List.nil_append] at split
    exact ⟨w, by rw [split, List.nil_append]⟩
  | cons t read => exact ⟨_, by rw [split]; rfl⟩

namespace Consumes

variable {read read' : List Token}

theorem trans (h : Consumes X Y c c' read) (h' : Consumes Y Z c' c'' read') :
    Consumes X Z c c'' (read ++ read') where
  rest := by rw [h.rest, h'.rest, List.append_assoc]
  final := h'.final.trans h.final
  complete w member := by
    rw [List.append_assoc]
    exact h.complete _ (h'.complete w member)
  forced w member := by
    apply h'.forced
    obtain ⟨w', same⟩ := exists_next h'.rest w
    have next : c''.next = c''.rest.headD c'.final := by rw [Cursor.next, h'.final]
    rw [next] at member ⊢
    rw [List.append_assoc, same] at member
    rw [same]
    exact h.forced _ member

theorem misplaced (h : Consumes X Y c c' read) {e : SyntaxError} (h' : Misplaced Y c' e) :
    Misplaced X c e := by
  obtain ⟨read', left, split, token, ⟨w, viable⟩, impossible⟩ := h'
  refine ⟨read ++ read', left, ?_, ?_, ⟨w, ?_⟩, fun w member => ?_⟩
  · rw [h.rest, split, List.append_assoc]
  · rw [token, h.final]
  · rw [List.append_assoc]
    exact h.complete _ viable
  · apply impossible w
    obtain ⟨w', same⟩ := exists_next split w
    rw [token] at member ⊢
    rw [List.append_assoc, same] at member
    rw [same]
    exact h.forced _ member

theorem firstError (h : Consumes X Y c c' read) (h' : FirstError Y c' errors) :
    FirstError X c errors := by
  obtain ⟨later, e, before, rfl, tolerated, counts, misplaced⟩ := h'
  exact ⟨later, e, before, rfl, tolerated, counts, misplaced.imp id h.misplaced⟩

end Consumes

namespace Leads

theorem bind (h : Leads X Y p c) (next : ∀ a c', Leads Y Z (f a) c') :
    Leads X Z (p >>= f) c := by
  intro proper
  obtain ⟨forward, ends⟩ := h proper
  cases run : p c with
  | error e c' =>
    rw [run] at forward ends
    rw [bind_of_error run]
    exact ⟨forward, ends⟩
  | ok a c' =>
    rw [run] at forward ends
    rw [bind_of_ok run]
    obtain ⟨forward', ends'⟩ := next a c' (proper.forward forward)
    refine ⟨forward.trans forward', fun tolerated => ?_⟩
    rcases ends tolerated with ⟨tolerated', read, consumes⟩ | first
    · have second := ends' tolerated'
      cases run' : f a c' with
      | error e c'' =>
        rw [run'] at second
        exact consumes.firstError second
      | ok b c'' =>
        rw [run'] at second
        rcases second with ⟨tolerated'', read', consumes'⟩ | first
        · exact .inl ⟨tolerated'', _, consumes.trans consumes'⟩
        · exact .inr (consumes.firstError first)
    · have more := forward'.errors
      cases run' : f a c' with
      | error e c'' =>
        rw [run'] at more
        exact first.later (more.trans (List.suffix_cons e c''.errors))
      | ok b c'' =>
        rw [run'] at more
        exact .inr (first.later more)

/-- A run that reads nothing. -/
theorem stay {a : α} (run : p c = .ok a c') (rest : c'.rest = c.rest) (final : c'.final = c.final)
    (errors : c.errors <:+ c'.errors) (tolerated : Tolerated c.errors → Tolerated c'.errors) :
    Leads X X p c := by
  intro _
  rw [run]
  refine ⟨⟨final, rest ▸ List.suffix_refl _, errors⟩, fun clean => .inl ⟨tolerated clean, [], ?_⟩⟩
  exact ⟨rest.symm, final, fun _ member => member, fun _ member => member⟩

theorem pure (a : α) : Leads X X (pure a) c := stay rfl rfl rfl (List.suffix_refl _) id

theorem fresh : Leads X X fresh c := stay rfl rfl rfl (List.suffix_refl _) id

theorem report {t : Token} {cause : SyntaxError.Cause} (h : cause.tolerated = true) :
    Leads X X (report t cause) c :=
  stay rfl rfl rfl (List.suffix_cons _ _) (.cons h)

theorem map (h : Leads X Y p c) (m : α → β) : Leads X Y (m <$> p) c := by
  rw [map_eq_pure_bind]
  exact h.bind fun a _ => .pure (m a)

/-- What does not begin with the next token does not matter. -/
theorem widen (h : Leads X Z p c) (sub : ∀ w ∈ X, w ∈ Y)
    (same : ∀ w, c.next :: w ∈ Y → c.next :: w ∈ X) : Leads Y Z p c := by
  intro proper
  have consumes : ∀ {c' read}, Consumes X Z c c' read → Consumes Y Z c c' read := by
    intro c' read h
    refine ⟨h.rest, h.final, fun w member => sub _ (h.complete w member), fun w member => ?_⟩
    obtain ⟨w', next⟩ := exists_next h.rest w
    apply h.forced
    rw [Cursor.next, h.final, next] at member ⊢
    exact same _ member
  have first : ∀ {errors}, FirstError X c errors → FirstError Y c errors := by
    rintro errors ⟨later, e, before, rfl, tolerated, counts, misplaced⟩
    refine ⟨later, e, before, rfl, tolerated, counts, misplaced.imp id ?_⟩
    rintro ⟨read, left, split, token, ⟨w, viable⟩, impossible⟩
    refine ⟨read, left, split, token, ⟨w, sub _ viable⟩, fun w member => impossible w ?_⟩
    obtain ⟨w', next⟩ := exists_next split w
    rw [token, next] at member ⊢
    exact same _ member
  refine ⟨(h proper).forward, fun tolerated => ?_⟩
  have ends := (h proper).ends tolerated
  cases run : p c with
  | error e c' =>
    rw [run] at ends
    exact first ends
  | ok a c' =>
    rw [run] at ends
    exact ends.imp (fun ⟨tolerated', read, h⟩ => ⟨tolerated', read, consumes h⟩) first

theorem add (h : Leads X Z p c) (zero : after Y c.next = 0) : Leads (X + Y) Z p c := by
  refine h.widen (fun _ => .inl) fun w member => ?_
  rcases member with member | member
  · exact member
  · have behind : w ∈ after Y c.next := member
    rw [zero] at behind
    exact absurd behind (Language.notMem_zero w)

/-- Only one of these rules begins with the next token. -/
theorem alternative {names : List Nonterminal} (name : Nonterminal)
    (h : Leads (words name * K) Z p c) (among : name ∈ names)
    (only : ∀ other ∈ names, other ≠ name → c.next.kind ∉ other.first) :
    Leads ((names.map words).sum * K) Z p c := by
  refine h.widen ?_ fun w member => ?_
  · intro w member
    obtain ⟨u, first, v, second, rfl⟩ := Language.mem_mul.1 member
    exact Language.append_mem_mul (mem_sum_words.2 ⟨name, among, first⟩) second
  · obtain ⟨u, first, v, second, same⟩ := Language.mem_mul.1 member
    obtain ⟨other, listed, spelled⟩ := mem_sum_words.1 first
    by_cases isName : other = name
    · rw [isName] at spelled
      exact Language.mem_mul.2 ⟨u, spelled, v, second, same⟩
    · obtain ⟨t, head, kind⟩ := begins_words other u spelled
      obtain ⟨rest, rfl⟩ := List.head?_eq_some_iff.1 head
      cases same
      exact absurd kind (only other listed isName)

/-- A phrase is missing, since the next token does not begin it. -/
theorem skip {kinds : List TokenKind} (h : Leads K Z p c) (begins : Begins kinds X)
    (other : c.next.kind ∉ kinds) : Leads ((1 + X) * K) Z p c := by
  rw [optional_mul]
  exact h.add (begins.mul.after_eq_zero other)

/-- A phrase is not repeated any more, since the next token does not begin it. -/
theorem skipMany {kinds : List TokenKind} (h : Leads K Z p c) (begins : Begins kinds X)
    (other : c.next.kind ∉ kinds) : Leads (X∗ * K) Z p c := by
  rw [kstar_mul]
  exact h.add (begins.mul.after_eq_zero other)

/-- The first token is read. -/
theorem shift {t : Token} {rest : List Token} (here : c.rest = t :: rest)
    (step : p c = q { c with rest }) (h : Leads (after X t) Y q { c with rest }) :
    Leads X Y p c := by
  intro proper
  have suffix : rest <:+ c.rest := by
    rw [here]
    exact List.suffix_cons t rest
  obtain ⟨forward, ends⟩ := h (proper.forward ⟨rfl, suffix, List.suffix_refl _⟩)
  have first : ∀ {errors}, FirstError (after X t) { c with rest } errors →
      FirstError X c errors := by
    rintro errors ⟨later, e, before, rfl, tolerated, counts, misplaced⟩
    refine ⟨later, e, before, rfl, tolerated, counts, misplaced.imp id ?_⟩
    rintro ⟨read, left, split, token, ⟨w, viable⟩, impossible⟩
    exact ⟨t :: read, left, by rw [here, List.cons_append]; exact congrArg _ split, token,
      ⟨w, viable⟩, impossible⟩
  rw [step]
  refine ⟨⟨forward.final, forward.rest.trans suffix, forward.errors⟩, fun tolerated => ?_⟩
  have ends := ends tolerated
  cases run : q { c with rest } with
  | error e c' =>
    rw [run] at ends
    exact first ends
  | ok a c' =>
    rw [run] at ends
    refine ends.imp (fun ⟨tolerated', read, h⟩ => ⟨tolerated', t :: read, ?_⟩) first
    refine ⟨?_, h.final, h.complete, h.forced⟩
    rw [here, List.cons_append]
    exact congrArg _ h.rest

theorem peek {f : Token → Parser α}
    (next : ∀ t, c.next = t → (t.kind ≠ .eof → ∃ rest, c.rest = t :: rest) → Leads X Y (f t) c) :
    Leads X Y (Parser.peek >>= f) c := by
  intro proper
  have step : Parser.peek c = .ok c.next c := rfl
  rw [bind_of_ok step]
  refine next c.next rfl (fun other => ?_) proper
  unfold Cursor.next at other ⊢
  cases here : c.rest with
  | nil =>
    rw [here] at other
    exact absurd proper.final other
  | cons t rest => exact ⟨rest, rfl⟩

theorem advance {t : Token} {f : Unit → Parser α} (known : ∃ rest, c.rest = t :: rest)
    (next : ∀ c', Leads (after X t) Y (f ()) c') : Leads X Y (Parser.advance >>= f) c := by
  obtain ⟨rest, here⟩ := known
  have step : Parser.advance c = .ok () { c with rest } := by
    show EStateM.Result.ok () { c with rest := c.rest.tail } = _
    rw [here, List.tail_cons]
  exact shift here (bind_of_ok step) (next _)

/-- The keyword that the next token is known to be. -/
theorem keyword {t : Token} {kind : TokenKind} {f : Unit → Parser α} (same : t.kind = kind)
    (isToken : kind ∉ [.number, .string]) (known : ∃ rest, c.rest = t :: rest)
    (next : ∀ c', Leads X Y (f ()) c') : Leads (tokens [kind] * X) Y (Parser.advance >>= f) c := by
  have member : t.kind ∈ [kind] := by simp [same]
  have plain : .number ∉ [kind] ∧ .string ∉ [kind] := by
    simpa [eq_comm] using isToken
  refine advance known fun c' => ?_
  rw [after_tokens_mul member (valued_of_mem member plain)]
  exact next c'

theorem acceptAny {kinds : List TokenKind} {f : Option Token → Parser α}
    (isToken : .eof ∉ kinds)
    (none : c.next.kind ∉ kinds → Leads X Y (f none) c)
    (some : ∀ t c', t.kind ∈ kinds → Leads (after X t) Y (f (some t)) c') :
    Leads X Y (Parser.acceptAny kinds >>= f) c := by
  intro proper
  cases here : c.rest with
  | nil =>
    have step : Parser.acceptAny kinds c = .ok .none c := acceptAny_of_not_mem (by simp [here])
    have next : c.next = c.final := by rw [Cursor.next, here, List.headD_nil]
    rw [bind_of_ok step]
    refine none ?_ proper
    rw [next, proper.final]
    exact isToken
  | cons t rest =>
    by_cases member : t.kind ∈ kinds
    · exact shift here (bind_of_ok (acceptAny_of_mem here member)) (some t _ member) proper
    · have step : Parser.acceptAny kinds c = .ok .none c :=
        acceptAny_of_not_mem (by simpa [here] using member)
      have next : c.next = t := by rw [Cursor.next, here, List.headD_cons]
      rw [bind_of_ok step]
      refine none ?_ proper
      rwa [next]

theorem check {kind : TokenKind} {f : Bool → Parser α} (isToken : kind ≠ .eof)
    (yes : c.next.kind = kind → Leads X Y (f true) c)
    (no : c.next.kind ≠ kind → Leads X Y (f false) c) :
    Leads X Y (Parser.check kind >>= f) c := by
  intro proper
  rw [bind_of_ok (check_eq kind c)]
  cases here : c.rest with
  | nil =>
    have next : c.next = c.final := by rw [Cursor.next, here, List.headD_nil]
    refine no ?_ proper
    rw [next, proper.final]
    exact isToken.symm
  | cons t rest =>
    have next : c.next = t := by rw [Cursor.next, here, List.headD_cons]
    by_cases same : t.kind = kind
    · have found : (t :: rest).head?.any (·.kind == kind) = true := by simp [same]
      rw [found]
      exact yes (next ▸ same) proper
    · have missing : (t :: rest).head?.any (·.kind == kind) = false := by simp [same]
      rw [missing]
      exact no (next ▸ same) proper

theorem atEnd {f : Bool → Parser α} (yes : c.next.kind = .eof → Leads X Y (f true) c)
    (no : c.next.kind ≠ .eof → Leads X Y (f false) c) : Leads X Y (Parser.atEnd >>= f) c := by
  intro proper
  rw [bind_of_ok (atEnd_eq c)]
  cases here : c.rest with
  | nil =>
    refine yes ?_ proper
    rw [Cursor.next, here]
    exact proper.final
  | cons t rest =>
    refine no ?_ proper
    rw [Cursor.next, here]
    exact proper.rest t (by simp [here])

/-- The rounds of a loop that ends at a closing token. -/
theorem rounds {kind : TokenKind} {kinds : List TokenKind} {ended other : Parser α}
    (isToken : kind ≠ .eof) (begins : Begins kinds X) (notEnd : .eof ∉ kinds ∧ kind ∉ kinds)
    (begins' : Begins [kind] K) (ends : Leads K Y ended c)
    (goesOn : Leads (X * (X∗ * K)) Y other c) :
    Leads (X∗ * K) Y
      (do if (← Parser.atEnd) || (← Parser.check kind) then ended else other) c := by
  refine atEnd (fun isEnd => .check isToken (fun closed => ?_) fun _ => ?_)
    fun _ => .check isToken (fun closed => ?_) fun notClosed => ?_
  · exact ends.skipMany begins (by rw [closed]; exact notEnd.2)
  · exact ends.skipMany begins (by rw [isEnd]; exact notEnd.1)
  · exact ends.skipMany begins (by rw [closed]; exact notEnd.2)
  · rw [kstar_mul, add_comm]
    exact goesOn.add (begins'.after_eq_zero (by simpa using notClosed))

/-- No word goes on with the next token. -/
theorem stop {cause : SyntaxError.Cause} (counts : cause.tolerated = false) (possible : Possible X)
    (zero : after X c.next = 0) : Leads X Y (Parser.stop cause : Parser α) c := by
  intro _
  refine ⟨.refl c, fun tolerated => ?_⟩
  refine ⟨[], ⟨c.next, cause⟩, c.errors, rfl, tolerated, counts, .inr ?_⟩
  obtain ⟨w, member⟩ := possible
  refine ⟨[], c.rest, rfl, rfl, ⟨w, member⟩, fun w member => ?_⟩
  have behind : w ∈ after X c.next := member
  rw [zero] at behind
  exact Language.notMem_zero w behind

/-- The token that was read last is the one that no word goes on with. -/
theorem advanceThrow {t : Token} {cause : SyntaxError.Cause}
    (known : ∃ rest, c.rest = t :: rest) (counts : cause.tolerated = false)
    (possible : Possible X) (zero : after X t = 0) :
    Leads X Y (Parser.advance >>= fun _ => (throw ⟨t, cause⟩ : Parser α)) c := by
  intro _
  obtain ⟨rest, here⟩ := known
  have run : (Parser.advance >>= fun _ => (throw ⟨t, cause⟩ : Parser α)) c =
      .error ⟨t, cause⟩ { c with rest := c.rest.tail } := rfl
  rw [run]
  refine ⟨⟨rfl, List.tail_suffix c.rest, List.suffix_refl _⟩, fun tolerated => ?_⟩
  refine ⟨[], ⟨t, cause⟩, c.errors, rfl, tolerated, counts, .inr ?_⟩
  obtain ⟨w, member⟩ := possible
  refine ⟨[], c.rest, rfl, by rw [here, List.headD_cons], ⟨w, member⟩, fun w member => ?_⟩
  have behind : w ∈ after X t := member
  rw [zero] at behind
  exact Language.notMem_zero w behind

theorem unfinished : Leads X Y (Parser.stop .unfinished : Parser α) c :=
  fun _ => ⟨.refl c, fun tolerated =>
    ⟨[], _, c.errors, rfl, tolerated, rfl, .inl rfl⟩⟩

theorem expect {kind : TokenKind} {cause : SyntaxError.Cause}
    (isToken : kind ∉ [.eof, .number, .string]) (counts : cause.tolerated = false)
    (possible : Possible X) :
    Leads (tokens [kind] * X) X (Parser.expect kind cause) c := by
  have others : kind ≠ .eof ∧ kind ≠ .number ∧ kind ≠ .string := by simpa using isToken
  refine acceptAny (by simpa using others.1.symm) (fun other => ?_) fun t c' member => ?_
  · refine stop counts ((possible_tokens kind).mul possible) ?_
    exact after_tokens_mul_of_not_mem other
  · have valued : HasValue t := by
      apply valued_of_mem member
      simpa [eq_comm] using others.2
    rw [after_tokens_mul member valued]
    exact .pure t

/-- What stops is recorded, and the run goes on somewhere behind. -/
theorem recover (h : Leads X Y p c) : Leads X Y (Parser.recover p) c := by
  intro proper
  obtain ⟨forward, ends⟩ := h proper
  unfold Parser.recover
  cases run : p c with
  | ok a c' =>
    rw [run] at forward ends
    exact ⟨forward, ends⟩
  | error e c' =>
    rw [run] at forward ends
    refine ⟨⟨forward.final, (synchronize_suffix c'.rest).trans forward.rest,
      forward.errors.trans (List.suffix_cons e c'.errors)⟩, fun tolerated => .inr ?_⟩
    exact ends tolerated

end Leads

end Parser

end Treewalk
