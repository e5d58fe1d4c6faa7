import Treewalk.Syntax.Cursor

/-!
# What a parser reads

`Reads i p Q` relates the tokens that a parser reads, its value, the number of the next reference
and the tokens it leaves, for every run from number `i` on that records no error. A run that does
record one is not spoken of: errors are only ever added, so a clean run is clean at every step.
-/

namespace Treewalk.Parser

variable {α β γ : Type} {i : NodeId} {p : Parser α} {t : Token}

/-- A relation between the tokens read, a value, the next number and the tokens left. -/
abbrev ReadRelation (α : Type) := List Token → α → NodeId → List Token → Prop

/-- What every run does, one that records errors or stops included: no number is given twice. -/
structure Onward (c c' : Cursor) : Prop where
  final : c'.final = c.final
  nextId : c.nextId ≤ c'.nextId

theorem Onward.refl (c : Cursor) : Onward c c := ⟨rfl, Nat.le_refl _⟩

theorem Onward.trans {c c' c'' : Cursor} (h : Onward c c') (h' : Onward c' c'') : Onward c c'' :=
  ⟨h'.final.trans h.final, Nat.le_trans h.nextId h'.nextId⟩

/-- What the end of a run says about its beginning `c`. -/
def Outcome (c : Cursor) (Q : ReadRelation α) : EStateM.Result SyntaxError Cursor α → Prop
  | .ok a c' => Onward c c' ∧
      (c'.errors = [] → c.errors = [] ∧
        ∃ ts, c.rest = ts ++ c'.rest ∧ Q ts a c'.nextId c'.rest)
  | .error _ c' => Onward c c'

def Reads (i : NodeId) (p : Parser α) (Q : ReadRelation α) : Prop :=
  ∀ c : Cursor, c.final.kind = .eof → c.nextId = i → Outcome c Q (p c)

/-- `Reads` where the next token is known. -/
def ReadsAt (t : Token) (i : NodeId) (p : Parser α) (Q : ReadRelation α) : Prop :=
  ∀ c : Cursor, c.final.kind = .eof → c.nextId = i → c.rest.head? = some t → Outcome c Q (p c)

theorem Reads.at {Q : ReadRelation α} (h : Reads i p Q) : ReadsAt t i p Q :=
  fun c eof number _ => h c eof number

theorem Outcome.mono {c : Cursor} {P Q : ReadRelation α} {r : EStateM.Result SyntaxError Cursor α}
    (h : Outcome c P r) (weaker : ∀ ts a j rest, P ts a j rest → Q ts a j rest) :
    Outcome c Q r := by
  cases r with
  | error e c' => exact h
  | ok a c' =>
    refine ⟨h.1, fun clean => ?_⟩
    obtain ⟨before, ts, split, holds⟩ := h.2 clean
    exact ⟨before, ts, split, weaker _ _ _ _ holds⟩

theorem Reads.mono {P Q : ReadRelation α} (h : Reads i p P)
    (weaker : ∀ ts a j rest, P ts a j rest → Q ts a j rest) : Reads i p Q :=
  fun c eof number => (h c eof number).mono weaker

theorem Reads.pure {a : α} {Q : ReadRelation α} (h : ∀ rest, Q [] a i rest) :
    Reads i (pure a) Q := by
  rintro c - rfl
  exact ⟨.refl c, fun clean => ⟨clean, [], rfl, h c.rest⟩⟩

/-- What the first parser read stands as a premise in what the second one has to read: whether an
error is recorded in the second does not depend on it. -/
theorem Reads.bind {P : ReadRelation α} {Q : ReadRelation β} {f : α → Parser β} (h : Reads i p P)
    (next : ∀ us a j, Reads j (f a) fun ts b k rest =>
      P us a j (ts ++ rest) → Q (us ++ ts) b k rest) : Reads i (p >>= f) Q := by
  intro c eof number
  have first := h c eof number
  show Outcome c Q (EStateM.bind p f c)
  unfold EStateM.bind
  cases hp : p c with
  | error e c' =>
    rw [hp] at first
    exact first
  | ok a c' =>
    rw [hp] at first
    -- The tokens that the first parser read are known only if the run is clean.
    have second := fun us => next us a c'.nextId c' (first.1.final ▸ eof) rfl
    show Outcome c Q (f a c')
    cases hf : f a c' with
    | error e c'' =>
      simp only [hf] at second
      exact first.1.trans (second [])
    | ok b c'' =>
      simp only [hf] at second
      refine ⟨first.1.trans (second []).1, fun clean => ?_⟩
      obtain ⟨before, us, split, read⟩ := first.2 ((second []).2 clean).1
      obtain ⟨-, ts, split', holds⟩ := (second us).2 clean
      refine ⟨before, us ++ ts, by rw [split, split', List.append_assoc], holds ?_⟩
      rwa [← split']

theorem Reads.map {P : ReadRelation α} {Q : ReadRelation β} {f : α → β} (h : Reads i p P)
    (holds : ∀ ts a j rest, P ts a j rest → Q ts (f a) j rest) : Reads i (f <$> p) Q := by
  refine h.bind fun us a j => .pure fun rest read => ?_
  rw [List.append_nil]
  exact holds _ _ _ _ read

theorem Reads.mapBind {P : ReadRelation α} {Q : ReadRelation γ} {f : α → β} {g : β → Parser γ}
    (h : Reads i p P) (next : ∀ us a j, Reads j (g (f a)) fun ts c k rest =>
      P us a j (ts ++ rest) → Q (us ++ ts) c k rest) : Reads i (f <$> p >>= g) Q := by
  rw [map_eq_pure_bind, bind_assoc]
  refine h.bind fun us a j => ?_
  rw [pure_bind]
  exact next us a j

theorem Reads.throw {e : SyntaxError} {Q : ReadRelation α} : Reads i (throw e : Parser α) Q :=
  fun c _ _ => .refl c

theorem reads_stop {cause : SyntaxError.Cause} {Q : ReadRelation α} :
    Reads i (stop cause : Parser α) Q :=
  fun c _ _ => .refl c

/-- After an error nothing needs to be said. -/
theorem reads_report {cause : SyntaxError.Cause} {Q : ReadRelation Unit} :
    Reads i (report t cause) Q :=
  fun _ _ _ => ⟨⟨rfl, Nat.le_refl _⟩, fun clean => by cases clean⟩

theorem reads_peek : Reads i peek fun ts _ j _ => ts = [] ∧ j = i := by
  rintro c - rfl
  exact ⟨.refl c, fun clean => ⟨clean, [], rfl, rfl, rfl⟩⟩

theorem reads_atEnd :
    Reads i atEnd fun ts b j rest => ts = [] ∧ j = i ∧ (b = true → rest = []) := by
  rintro c - rfl
  exact ⟨.refl c, fun clean => ⟨clean, [], rfl, rfl, rfl, by simp⟩⟩

theorem reads_check {kind : TokenKind} :
    Reads i (check kind) fun ts b j rest =>
      ts = [] ∧ j = i ∧ (b = true → ∃ t ∈ rest.head?, t.kind = kind) := by
  rintro c - rfl
  unfold check
  split
  · next h => exact ⟨.refl c, fun clean => ⟨clean, [], rfl, rfl, rfl, by simp⟩⟩
  · next t rest h =>
    refine ⟨.refl c, fun clean => ⟨clean, [], rfl, rfl, rfl, fun same => ?_⟩⟩
    exact ⟨t, by simp [h], by simpa using same⟩

theorem reads_acceptAny {kinds : List TokenKind} :
    Reads i (acceptAny kinds) fun ts o j rest => j = i ∧
      match o with
      | none => ts = [] ∧ ∀ t ∈ rest.head?, t.kind ∉ kinds
      | some t => ts = [t] ∧ t.kind ∈ kinds := by
  rintro c - rfl
  unfold acceptAny
  split
  · next h => exact ⟨.refl c, fun clean => ⟨clean, [], rfl, rfl, rfl, by simp [h]⟩⟩
  · next t rest h =>
    by_cases member : kinds.contains t.kind
    · rw [if_pos member]
      exact ⟨⟨rfl, Nat.le_refl _⟩,
        fun clean => ⟨clean, [t], h, rfl, rfl, List.contains_iff_mem.1 member⟩⟩
    · rw [if_neg member]
      refine ⟨.refl c, fun clean => ⟨clean, [], rfl, rfl, rfl, ?_⟩⟩
      simpa [h] using member

theorem reads_accept {kind : TokenKind} :
    Reads i (accept kind) fun ts o j rest => j = i ∧
      match o with
      | none => ts = [] ∧ ∀ t ∈ rest.head?, t.kind ≠ kind
      | some t => ts = [t] ∧ t.kind = kind := by
  refine reads_acceptAny.mono fun ts o j rest h => ?_
  cases o <;> simpa using h

theorem reads_expect {kind : TokenKind} {cause : SyntaxError.Cause} :
    Reads i (expect kind cause) fun ts t j _ => ts = [t] ∧ t.kind = kind ∧ j = i := by
  refine reads_accept.bind fun us o j => ?_
  cases o with
  | none => exact reads_stop
  | some t =>
    refine .pure ?_
    rintro rest ⟨rfl, rfl, kind⟩
    exact ⟨rfl, kind, rfl⟩

theorem reads_fresh : Reads i fresh fun ts n j _ => ts = [] ∧ n = i ∧ j = i + 1 := by
  rintro c - rfl
  exact ⟨⟨rfl, Nat.le_succ _⟩, fun clean => ⟨clean, [], rfl, rfl, rfl, rfl⟩⟩

/-- A run that goes on behind an error is not clean. -/
theorem Reads.recover {Q : ReadRelation α} (h : Reads i p Q) :
    Reads i (recover p) fun ts o j rest => ∃ a, o = some a ∧ Q ts a j rest := by
  intro c eof number
  have inner := h c eof number
  unfold Parser.recover
  cases hp : p c with
  | error e c' =>
    rw [hp] at inner
    exact ⟨⟨inner.final, inner.nextId⟩, fun clean => by cases clean⟩
  | ok a c' =>
    rw [hp] at inner
    exact ⟨inner.1, fun clean => by
      obtain ⟨before, ts, split, holds⟩ := inner.2 clean
      exact ⟨before, ts, split, a, rfl, holds⟩⟩

/-- A parser that looks at the next token and then goes on; at the end it sees the end token. -/
theorem Reads.peeking {Q : ReadRelation α} {f : Token → Parser α}
    (known : ∀ t, ReadsAt t i (f t) Q) (ended : ∀ t, t.kind = .eof → Reads i (f t) Q) :
    Reads i (peek >>= f) Q := by
  intro c eof number
  show Outcome c Q (f (c.rest.headD c.final) c)
  cases h : c.rest with
  | nil => exact ended c.final eof c eof number
  | cons t rest => exact known t c eof number (by rw [h]; rfl)

theorem ReadsAt.advance {Q : ReadRelation α} {f : Unit → Parser α}
    (next : Reads i (f ()) fun ts a j rest => Q (t :: ts) a j rest) :
    ReadsAt t i (advance >>= f) Q := by
  intro c eof number known
  obtain ⟨rest, split⟩ := List.head?_eq_some_iff.1 known
  have inner := next { c with rest := c.rest.tail } eof number
  show Outcome c Q (f () { c with rest := c.rest.tail })
  cases hf : f () { c with rest := c.rest.tail } with
  | error e c' =>
    rw [hf] at inner
    exact ⟨inner.final, inner.nextId⟩
  | ok a c' =>
    rw [hf] at inner
    refine ⟨⟨inner.1.final, inner.1.nextId⟩, fun clean => ?_⟩
    obtain ⟨before, ts, split', holds⟩ := inner.2 clean
    refine ⟨before, t :: ts, ?_, holds⟩
    rw [split] at split' ⊢
    exact congrArg (t :: ·) split'

end Treewalk.Parser
