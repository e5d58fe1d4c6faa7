import Treewalk.Syntax.Cursor

/-!
# What a parser accepts

`Accepts p i ts rest a j`: on the tokens `ts` with `rest` behind them, from number `i` on, the
parser reads exactly `ts`, returns `a`, records no error, and the next reference has number `j`.
Unlike `Reads` it promises that the parser returns.
-/

namespace Treewalk.Parser

variable {α β γ : Type} {i j k : NodeId} {ts u rest : List Token} {t : Token} {a : α} {b : β}

def Accepts (p : Parser α) (i : NodeId) (ts rest : List Token) (a : α) (j : NodeId) : Prop :=
  ∀ final errors, p ⟨ts ++ rest, final, errors, i⟩ = .ok a ⟨rest, final, errors, j⟩

/-- The next token, if there is one, has none of these kinds. -/
def NextNot (kinds : List TokenKind) (rest : List Token) : Prop :=
  ∀ t ∈ rest.head?, t.kind ∉ kinds

theorem Accepts.pure : Accepts (pure a) i [] rest a i := fun _ _ => rfl

theorem Accepts.bind {p : Parser α} {f : α → Parser β} (h : Accepts p i ts (u ++ rest) a j)
    (next : Accepts (f a) j u rest b k) : Accepts (p >>= f) i (ts ++ u) rest b k := by
  intro final errors
  show EStateM.bind p f _ = _
  rw [List.append_assoc, EStateM.bind, h final errors]
  exact next final errors

/-- `Accepts.bind` for a parser that reads nothing. -/
theorem Accepts.look {p : Parser α} {f : α → Parser β} (h : Accepts p i [] (u ++ rest) a j)
    (next : Accepts (f a) j u rest b k) : Accepts (p >>= f) i u rest b k :=
  h.bind next

/-- `Accepts.bind` for a parser whose value is only wrapped up. -/
theorem Accepts.last {p : Parser α} {f : α → β} (h : Accepts p i ts rest a j) :
    Accepts (p >>= fun a => Pure.pure (f a)) i ts rest (f a) j := by
  rw [← List.append_nil ts]
  exact h.bind (u := []) Accepts.pure

theorem Accepts.map {p : Parser α} {f : α → β} (h : Accepts p i ts rest a j) :
    Accepts (f <$> p) i ts rest (f a) j := by
  rw [map_eq_pure_bind]
  exact h.last

theorem Accepts.recover {p : Parser α} (h : Accepts p i ts rest a j) :
    Accepts (recover p) i ts rest (some a) j := by
  intro final errors
  rw [Parser.recover, h final errors]

theorem accepts_peek {f : Token → Parser α} (h : Accepts (f t) i (t :: ts) rest a j) :
    Accepts (peek >>= f) i (t :: ts) rest a j := h

theorem accepts_advance {f : Unit → Parser α} (h : Accepts (f ()) i ts rest a j) :
    Accepts (advance >>= f) i (t :: ts) rest a j := h

theorem accepts_fresh : Accepts fresh i [] rest i (i + 1) := fun _ _ => rfl

theorem accepts_atEnd : Accepts atEnd i [] rest rest.isEmpty i := fun _ _ => rfl

theorem accepts_acceptAny {kinds : List TokenKind} (member : t.kind ∈ kinds) :
    Accepts (acceptAny kinds) i [t] rest (some t) i := by
  intro final errors
  simp [acceptAny, member]

theorem accepts_acceptAny_none {kinds : List TokenKind} (other : NextNot kinds rest) :
    Accepts (acceptAny kinds) i [] rest none i := by
  intro final errors
  cases rest with
  | nil => rfl
  | cons t rest =>
    have : t.kind ∉ kinds := other t rfl
    simp [acceptAny, this]

theorem accepts_accept {kind : TokenKind} (same : t.kind = kind) :
    Accepts (accept kind) i [t] rest (some t) i :=
  accepts_acceptAny (by simp [same])

theorem accepts_accept_none {kind : TokenKind} (other : NextNot [kind] rest) :
    Accepts (accept kind) i [] rest none i :=
  accepts_acceptAny_none other

theorem accepts_expect {kind : TokenKind} {cause : SyntaxError.Cause} (same : t.kind = kind) :
    Accepts (expect kind cause) i [t] rest t i :=
  (accepts_accept same).bind (u := []) Accepts.pure

theorem accepts_check {kind : TokenKind} (same : t.kind = kind) :
    Accepts (check kind) i [] (t :: rest) true i := by
  intro final errors
  simp [check, same]

theorem accepts_check_false {kind : TokenKind} (other : NextNot [kind] rest) :
    Accepts (check kind) i [] rest false i := by
  intro final errors
  cases rest with
  | nil => rfl
  | cons t rest =>
    have : t.kind ≠ kind := by simpa using other t rfl
    simp [check, this]

end Treewalk.Parser
