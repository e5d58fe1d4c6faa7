import Treewalk.Token.Scan

/-!
# Scanning byte by byte

A `Lexer` walks over a source and counts lines on its way, in three places: line feeds between
pieces, line feeds inside strings, which it reads one by one, and line feeds inside block comments,
where it jumps from one line feed or star to the next. A line comment leaves its line feed to be
read as a piece of its own. `Lexer.Cuts` compares this with `cut`, which looks at a piece as a
whole: the bytes that a lexer reads are the bytes that are cut, and it has counted their line feeds.
-/

namespace Treewalk

namespace Source

/-- A position in a source, and the line it is on. The bytes of the current piece and those before
it stand newest first. -/
structure Lexer where
  behind : List UInt8
  slice : List UInt8
  rest : List UInt8
  line : Nat
  /-- The end has been told. -/
  ended : Bool
deriving Repr, DecidableEq

namespace Lexer

/-- Before the first byte. -/
def start (source : List UInt8) : Lexer := ⟨[], [], source, 1, false⟩

/-- The bytes of the current piece. -/
def lexeme (l : Lexer) : List UInt8 := l.slice.reverse

/-- All bytes before the end of the current piece. -/
def passed (l : Lexer) : List UInt8 := l.behind.reverse ++ l.lexeme

/-- Begins a piece. -/
def begin (l : Lexer) : Lexer := { l with behind := l.slice ++ l.behind, slice := [] }

def newLine (l : Lexer) : Lexer := { l with line := l.line + 1 }

/-- Reads the byte `b`, which stands before `more`. -/
def read (b : UInt8) (more : List UInt8) (l : Lexer) : Lexer :=
  { l with slice := b :: l.slice, rest := more }

/-- Reads a byte if it is the next one. -/
def accept? (b : UInt8) (l : Lexer) : Option Lexer :=
  match l.rest with
  | [] => none
  | next :: more => if next = b then some (l.read next more) else none

/-- Reads bytes up to the first one that is not `p`. No line feed among them is counted, so `p` must
not hold of it. -/
def readWhile (p : UInt8 → Bool) (l : Lexer) : Lexer :=
  { l with slice := (l.rest.takeWhile p).reverse ++ l.slice, rest := l.rest.dropWhile p }

/-- What reading a piece comes to: an error, the kind of a token, or nothing for blanks and
comments. -/
abbrev Outcome := Except LexicalError (Option TokenKind) × Lexer

def emit (kind : TokenKind) (l : Lexer) : Outcome := (.ok (some kind), l)

def pass (l : Lexer) : Outcome := (.ok none, l)

def fail (cause : LexicalError.Cause) (l : Lexer) : Outcome := (.error ⟨cause, l.line⟩, l)

/-- The item of an outcome: its line is the one that the lexer has reached. -/
def Outcome.item (outcome : Outcome) : Option Item :=
  match outcome.1 with
  | .error e => some (.error e)
  | .ok none => none
  | .ok (some kind) =>
    let slice := outcome.2.lexeme
    some (.ok ⟨kind, Utf8.decode slice, literalOf kind slice, outcome.2.line⟩)

/-- A number behind its first digit. -/
def scanNumber (l : Lexer) : Outcome :=
  match (l.readWhile isDigit).rest with
  | point :: next :: more =>
    if point = byte '.' ∧ isDigit next then
      emit .number (((l.readWhile isDigit).read point (next :: more)).readWhile isDigit)
    else emit .number (l.readWhile isDigit)
  | _ => emit .number (l.readWhile isDigit)

/-- A word behind its first letter. -/
def scanWord (l : Lexer) : Outcome :=
  emit (wordKind (l.readWhile isWordByte).lexeme) (l.readWhile isWordByte)

/-- Reads up to the next quote, byte by byte. -/
def readText (l : Lexer) : Lexer :=
  match _h : l.rest with
  | [] => l
  | b :: more =>
    if b = byte '"' then l
    else if b = lineFeed then (l.read b more).newLine.readText
    else (l.read b more).readText
termination_by l.rest.length
decreasing_by all_goals simp [_h, read, newLine]

/-- A string behind its first quote. -/
def scanString (l : Lexer) : Outcome :=
  match l.readText.rest with
  | [] => fail .unterminatedString l.readText
  | quote :: more => emit .string (l.readText.read quote more)

/-- Reads up to the next line feed or star: the search of a block comment stops at these. -/
def readComment (l : Lexer) : Lexer := l.readWhile fun b => b != lineFeed && b != byte '*'

theorem length_rest_readWhile (p : UInt8 → Bool) (l : Lexer) :
    (l.readWhile p).rest.length ≤ l.rest.length :=
  (List.dropWhile_sublist p).length_le

theorem rest_of_accept? {b : UInt8} {l l' : Lexer} (h : l.accept? b = some l') :
    l.rest = b :: l'.rest := by
  unfold accept? at h
  split at h
  · cases h
  · next next more found =>
    obtain ⟨rfl, same⟩ := Option.ite_none_right_eq_some.1 h
    rw [← Option.some.inj same]
    exact found

/-- A block comment behind its first two bytes. A star that no slash follows is passed over. -/
def scanBlockComment (l : Lexer) : Outcome :=
  match _h : l.readComment.rest with
  | [] => fail .unterminatedComment l.readComment
  | mark :: more =>
    if mark = lineFeed then (l.readComment.read mark more).newLine.scanBlockComment
    else
      match (l.readComment.read mark more).accept? (byte '/') with
      | some closed => pass closed
      | none => (l.readComment.read mark more).scanBlockComment
termination_by l.rest.length
decreasing_by
  all_goals
    have shorter := length_rest_readWhile (fun b => b != lineFeed && b != byte '*') l
    rw [← readComment, _h] at shorter
    exact shorter

/-- What begins with a slash: a line comment leaves the line feed behind it. -/
def scanSlash (l : Lexer) : Outcome :=
  match l.accept? (byte '/') with
  | some comment => pass (comment.readWhile (· != lineFeed))
  | none =>
    match l.accept? (byte '*') with
    | some comment => comment.scanBlockComment
    | none => emit .slash l

/-- An operator that an equals sign may follow. -/
def scanOperator (alone withEqual : TokenKind) (l : Lexer) : Outcome :=
  match l.accept? (byte '=') with
  | some both => emit withEqual both
  | none => emit alone l

/-- The byte `b`, which begins no token, and the rest of its character. -/
def scanStray (b : UInt8) (l : Lexer) : Outcome :=
  let stray := if b < 0x80 then l else l.readWhile isContinuation
  fail (.unexpectedCharacter (Utf8.decode stray.lexeme)) stray

/-- A piece that begins with `b`, which has just been read. -/
def scanByte (b : UInt8) (l : Lexer) : Outcome :=
  if b = lineFeed then pass l.newLine
  else if isBlank b then pass l
  else if isDigit b then l.scanNumber
  else if isLetter b then l.scanWord
  else if b = byte '"' then l.scanString
  else if b = byte '/' then l.scanSlash
  else
    match single? b, beforeEqual? b with
    | some kind, _ => emit kind l
    | none, some (alone, withEqual) => l.scanOperator alone withEqual
    | none, none => l.scanStray b

/-! ### What is read is what is cut -/

/-- From the first lexer to the second exactly these bytes are read, and their line feeds are
counted. -/
structure Reads (l : Lexer) (bytes : List UInt8) (l' : Lexer) : Prop where
  behind : l'.behind = l.behind
  lexeme : l'.lexeme = l.lexeme ++ bytes
  rest : l.rest = bytes ++ l'.rest
  line : l'.line = l.line + linesIn bytes
  ended : l'.ended = l.ended

theorem linesIn_eq_zero {bytes : List UInt8} (h : lineFeed ∉ bytes) : linesIn bytes = 0 :=
  List.count_eq_zero.2 h

variable {l l' l'' : Lexer} {b : UInt8} {bytes more : List UInt8}

namespace Reads

theorem refl (l : Lexer) : Reads l [] l := ⟨rfl, by simp, rfl, rfl, rfl⟩

theorem trans {bytes' : List UInt8} (h : Reads l bytes l') (h' : Reads l' bytes' l'') :
    Reads l (bytes ++ bytes') l'' where
  behind := h'.behind.trans h.behind
  lexeme := by rw [h'.lexeme, h.lexeme, List.append_assoc]
  rest := by rw [h.rest, h'.rest, List.append_assoc]
  line := by rw [h'.line, h.line, linesIn, linesIn, linesIn, List.count_append, Nat.add_assoc]
  ended := h'.ended.trans h.ended

theorem read (h : l.rest = b :: more) (inLine : b ≠ lineFeed) : Reads l [b] (l.read b more) where
  behind := rfl
  lexeme := List.reverse_cons
  rest := h
  line := by
    rw [linesIn_eq_zero (by simpa using inLine.symm)]
    rfl
  ended := rfl

theorem newLine (h : l.rest = lineFeed :: more) :
    Reads l [lineFeed] (l.read lineFeed more).newLine where
  behind := rfl
  lexeme := List.reverse_cons
  rest := h
  line := rfl
  ended := rfl

theorem readWhile {p : UInt8 → Bool} (inLine : p lineFeed = false) (l : Lexer) :
    Reads l (l.rest.takeWhile p) (l.readWhile p) where
  behind := rfl
  lexeme := by simp [Lexer.lexeme, Lexer.readWhile]
  rest := List.takeWhile_append_dropWhile.symm
  line := by
    rw [linesIn_eq_zero]
    · rfl
    · intro member
      rw [List.all_eq_true.1 List.all_takeWhile _ member] at inLine
      cases inLine
  ended := rfl

theorem accept? (h : l.accept? b = some l') (inLine : b ≠ lineFeed) : Reads l [b] l' := by
  have found := rest_of_accept? h
  rw [Lexer.accept?, found] at h
  rw [← Option.some.inj ((if_pos rfl).symm.trans h)]
  exact read found inLine

end Reads

theorem accept?_none (h : l.accept? b = none) : ∀ more, l.rest ≠ b :: more := by
  intro more found
  rw [accept?, found] at h
  simp at h

/-- The outcome is that of the piece that is cut from what the lexer has left: its bytes are read,
and its item has the line on which they end. -/
structure Cuts (l : Lexer) (c : Cut) (outcome : Outcome) : Prop where
  reads : Reads l c.2.1 outcome.2
  item : outcome.item = itemOf ⟨c.1, outcome.2.lexeme⟩ outcome.2.line

namespace Cuts

theorem emit {kind : TokenKind} {after : List UInt8} (h : Reads l bytes l') :
    Cuts l (.token kind, bytes, after) (l'.emit kind) := ⟨h, rfl⟩

theorem pass {after : List UInt8} (h : Reads l bytes l') :
    Cuts l (.comment, bytes, after) l'.pass := ⟨h, rfl⟩

/-- What is read before a piece that is cut may belong to it. -/
theorem prepend {c : Cut} {outcome : Outcome} (h : Reads l bytes l') (cuts : Cuts l' c outcome) :
    Cuts l (c.1, bytes ++ c.2.1, c.2.2) outcome := ⟨h.trans cuts.reads, cuts.item⟩

end Cuts

theorem scanNumber_cuts (l : Lexer) : Cuts l (cutNumber l.rest) l.scanNumber := by
  have whole := Reads.readWhile (p := isDigit) (by decide) l
  unfold cutNumber scanNumber
  rw [show l.rest.dropWhile isDigit = (l.readWhile isDigit).rest from rfl]
  match found : (l.readWhile isDigit).rest with
  | [] => exact .emit whole
  | [_] => exact .emit whole
  | point :: next :: more =>
    by_cases fraction : point = byte '.' ∧ isDigit next = true
    · simp only [if_pos fraction]
      obtain ⟨rfl, -⟩ := fraction
      have digits := Reads.readWhile (p := isDigit) (by decide)
        ((l.readWhile isDigit).read (byte '.') (next :: more))
      exact .emit (whole.trans ((Reads.read found (by decide)).trans digits))
    · simp only [if_neg fraction]
      exact .emit whole

theorem scanWord_cuts (h : l.lexeme = [b]) : Cuts l (cutWord b l.rest) l.scanWord := by
  have word := Reads.readWhile (p := isWordByte) (by decide) l
  have whole : (l.readWhile isWordByte).lexeme = b :: l.rest.takeWhile isWordByte := by
    rw [word.lexeme, h]
    rfl
  unfold cutWord scanWord
  rw [whole]
  exact .emit word

/-- The line feeds of a string are counted one by one, up to the first quote. -/
theorem readText_reads (l : Lexer) : Reads l (l.rest.takeWhile (· != byte '"')) l.readText := by
  fun_induction readText l with
  | case1 l ended =>
    rw [ended]
    exact .refl l
  | case2 l more found =>
    rw [found, List.takeWhile_cons_of_neg (by simp)]
    exact .refl l
  | case3 l more found notQuote ih =>
    rw [found, List.takeWhile_cons_of_pos (by simpa using notQuote)]
    exact (Reads.newLine found).trans ih
  | case4 l b more found notQuote notFeed ih =>
    rw [found, List.takeWhile_cons_of_pos (by simpa using notQuote)]
    exact (Reads.read found notFeed).trans ih

theorem rest_readText (l : Lexer) : l.readText.rest = l.rest.dropWhile (· != byte '"') := by
  have whole := (readText_reads l).rest
  have same := List.takeWhile_append_dropWhile (p := (· != byte '"')) (l := l.rest)
  exact (List.append_cancel_left (same.trans whole)).symm

theorem scanString_cuts (l : Lexer) : Cuts l (cutString l.rest) l.scanString := by
  have text := readText_reads l
  have whole := text.rest
  unfold cutString scanString
  rw [← rest_readText]
  match found : l.readText.rest with
  | [] =>
    rw [found, List.append_nil] at whole
    rw [← whole] at text
    exact ⟨text, rfl⟩
  | quote :: after =>
    have closes : quote = byte '"' := by
      have last := List.head?_dropWhile_not (· != byte '"') l.rest
      rw [← rest_readText, found] at last
      simpa using last
    exact .emit (text.trans (.read found (by rw [closes]; decide)))

/-- A byte that is no star before a slash belongs to the comment. -/
theorem closeComment_cons {seen rest : List UInt8} {a : UInt8}
    (goesOn : a = byte '*' → ∀ more, rest ≠ byte '/' :: more) :
    closeComment seen (a :: rest) = closeComment (a :: seen) rest := by
  cases rest with
  | nil => rfl
  | cons b rest =>
    rw [closeComment, if_neg]
    rintro ⟨star, rfl⟩
    exact goesOn star rest rfl

theorem closeComment_seen (seen source : List UInt8) :
    closeComment seen source =
      (closeComment [] source).map fun found => (seen.reverse ++ found.1, found.2) := by
  induction source generalizing seen with
  | nil => rfl
  | cons a rest ih =>
    by_cases closes : a = byte '*' ∧ ∃ more, rest = byte '/' :: more
    · obtain ⟨rfl, more, rfl⟩ := closes
      simp [closeComment]
    · have goesOn : a = byte '*' → ∀ more, rest ≠ byte '/' :: more := fun star more slash =>
        closes ⟨star, more, slash⟩
      rw [closeComment_cons goesOn, closeComment_cons goesOn, ih, ih [a], Option.map_map]
      simp [Function.comp_def]

/-- A block comment behind its first two bytes. -/
def cutBlock (source : List UInt8) : Cut :=
  match closeComment [] source with
  | some (inside, after) => (.comment, inside, after)
  | none => (.openComment, source, [])

theorem cutBlock_cons {a : UInt8} {rest : List UInt8}
    (goesOn : a = byte '*' → ∀ more, rest ≠ byte '/' :: more) :
    cutBlock (a :: rest) = ((cutBlock rest).1, [a] ++ (cutBlock rest).2.1, (cutBlock rest).2.2) := by
  unfold cutBlock
  rw [closeComment_cons goesOn, closeComment_seen]
  cases closeComment [] rest <;> rfl

theorem cutBlock_append {before rest : List UInt8} (inside : byte '*' ∉ before) :
    cutBlock (before ++ rest) =
      ((cutBlock rest).1, before ++ (cutBlock rest).2.1, (cutBlock rest).2.2) := by
  induction before with
  | nil => rfl
  | cons a before ih =>
    rw [List.mem_cons, not_or] at inside
    rw [List.cons_append, cutBlock_cons fun same => absurd same.symm inside.1, ih inside.2]
    rfl

/-- The bytes up to the next line feed or star, and then that byte. -/
theorem readComment_reads (l : Lexer) :
    ∃ before, byte '*' ∉ before ∧ Reads l before l.readComment ∧
      ∀ mark more, l.readComment.rest = mark :: more → mark = lineFeed ∨ mark = byte '*' := by
  refine ⟨_, ?_, .readWhile (by decide) l, ?_⟩
  · intro member
    have := List.all_eq_true.1 List.all_takeWhile _ member
    simp at this
  · intro mark more found
    have last := List.head?_dropWhile_not (fun b => b != lineFeed && b != byte '*') l.rest
    rw [show l.rest.dropWhile _ = l.readComment.rest from rfl, found] at last
    simpa [Decidable.or_iff_not_imp_left] using last

/-- The search of a block comment passes over no line feed and over no star that closes it. -/
theorem scanBlockComment_cuts (l : Lexer) : Cuts l (cutBlock l.rest) l.scanBlockComment := by
  -- The induction goes from one stop of the search to the next; `before` lies between two of them.
  fun_induction scanBlockComment l with
  | case1 l ended =>
    obtain ⟨before, inside, reads, -⟩ := readComment_reads l
    rw [reads.rest, ended, cutBlock_append inside]
    exact .prepend reads ⟨.refl _, rfl⟩
  | case2 l more found ih =>
    obtain ⟨before, inside, reads, -⟩ := readComment_reads l
    rw [reads.rest, found, cutBlock_append inside, cutBlock_cons fun star => by cases star]
    exact .prepend reads (.prepend (.newLine found) ih)
  | case3 l mark more found notFeed closed accepted =>
    obtain ⟨before, inside, reads, marks⟩ := readComment_reads l
    obtain rfl := (marks mark more found).resolve_left notFeed
    obtain rfl : more = byte '/' :: closed.rest := rest_of_accept? accepted
    rw [reads.rest, found, cutBlock_append inside]
    have closing := (Reads.read found notFeed).trans (.accept? accepted (by decide))
    exact .prepend reads (.pass closing)
  | case4 l mark more found notFeed goesOn ih =>
    obtain ⟨before, inside, reads, marks⟩ := readComment_reads l
    have inBlock : mark = byte '*' → ∀ after, more ≠ byte '/' :: after :=
      fun _ after => accept?_none goesOn after
    rw [reads.rest, found, cutBlock_append inside, cutBlock_cons inBlock]
    exact .prepend reads (.prepend (.read found notFeed) ih)

theorem scanSlash_cuts (l : Lexer) : Cuts l (cutSlash l.rest) l.scanSlash := by
  unfold scanSlash
  cases line : l.accept? (byte '/') with
  | some comment =>
    rw [rest_of_accept? line, cutSlash, if_pos rfl]
    exact .pass ((Reads.accept? line (by decide)).trans (.readWhile (by decide) comment))
  | none =>
    cases block : l.accept? (byte '*') with
    | some comment =>
      have same : cutSlash (byte '*' :: comment.rest) =
          ((cutBlock comment.rest).1, [byte '*'] ++ (cutBlock comment.rest).2.1,
            (cutBlock comment.rest).2.2) := by
        rw [cutSlash, if_neg (by decide), if_pos rfl, cutBlock]
        cases closeComment [] comment.rest <;> rfl
      rw [rest_of_accept? block, same]
      exact .prepend (.accept? block (by decide)) (scanBlockComment_cuts comment)
    | none =>
      have alone : cutSlash l.rest = (.token .slash, [], l.rest) := by
        unfold cutSlash
        split
        · next ended => rw [ended]
        · next b more found =>
          rw [if_neg, if_neg, found]
          · rintro rfl
            exact accept?_none block more found
          · rintro rfl
            exact accept?_none line more found
      rw [alone]
      exact .emit (.refl l)

theorem scanOperator_cuts (alone withEqual : TokenKind) (l : Lexer) :
    Cuts l (cutOperator alone withEqual l.rest) (l.scanOperator alone withEqual) := by
  unfold scanOperator
  cases equal : l.accept? (byte '=') with
  | some both =>
    rw [rest_of_accept? equal, cutOperator, if_pos rfl]
    exact .emit (.accept? equal (by decide))
  | none =>
    have short : cutOperator alone withEqual l.rest = (.token alone, [], l.rest) := by
      unfold cutOperator
      split
      · next ended => rw [ended]
      · next b more found =>
        rw [if_neg, found]
        rintro rfl
        exact accept?_none equal more found
    rw [short]
    exact .emit (.refl l)

theorem scanStray_cuts (b : UInt8) (l : Lexer) : Cuts l (cutStray b l.rest) (l.scanStray b) := by
  unfold cutStray scanStray
  split
  · exact ⟨.refl l, rfl⟩
  · exact ⟨.readWhile (by decide) l, rfl⟩

/-- A piece that begins with any byte is the one that is cut. -/
theorem scanByte_cuts (h : l.rest = b :: more) (new : l.lexeme = []) :
    Cuts l ((cut b more).1, [b] ++ (cut b more).2.1, (cut b more).2.2)
      (scanByte b (l.read b more)) := by
  by_cases feed : b = lineFeed
  · subst feed
    exact ⟨.newLine h, rfl⟩
  have reads := Reads.read h feed
  apply Cuts.prepend reads
  unfold cut scanByte
  rw [if_neg feed]
  split
  · exact ⟨.refl _, rfl⟩
  split
  · exact scanNumber_cuts _
  split
  · exact scanWord_cuts (by rw [reads.lexeme, new]; rfl)
  split
  · exact scanString_cuts _
  split
  · exact scanSlash_cuts _
  cases single? b with
  | some kind => exact .emit (.refl _)
  | none =>
    cases beforeEqual? b with
    | some kinds => exact scanOperator_cuts _ _ _
    | none => exact scanStray_cuts b _

theorem length_scanByte_lt (h : l.rest = b :: more) (new : l.lexeme = []) :
    (scanByte b (l.read b more)).2.rest.length < l.rest.length := by
  have whole := congrArg List.length (scanByte_cuts h new).reads.rest
  simp only [List.cons_append, List.length_cons, List.length_append] at whole
  omega

/-! ### Items one by one -/

/-- The next item, if the end has not been told. -/
def next (l : Lexer) : Option Item × Lexer :=
  if l.ended then (none, l)
  else
    match _h : l.rest with
    | [] => (some (.ok (Token.eof l.line)), { l.begin with ended := true })
    | b :: more =>
      match (scanByte b (l.begin.read b more)).item with
      | some item => (some item, (scanByte b (l.begin.read b more)).2)
      | none => next (scanByte b (l.begin.read b more)).2
termination_by l.rest.length
decreasing_by
  exact length_scanByte_lt (l := l.begin) _h rfl

/-- What the call yields that follows `k` others, and the lexer behind it. -/
def call (l : Lexer) : Nat → Option Item × Lexer
  | 0 => l.next
  | k + 1 => l.next.2.call k

end Lexer

end Source

end Treewalk
