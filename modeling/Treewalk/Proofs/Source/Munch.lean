import Treewalk.Proofs.Source.Rules

/-!
# Maximal munch

`Munched` says of a piece, by its kind, what it is and why it ends where it ends, and of the bytes
behind it what they may begin with. Every piece that the scanner cuts is munched, and the first
munched piece of a source is the one that the scanner cuts: so a source has exactly one cutting
into munched pieces, which is `pieces`.
-/

namespace Treewalk

namespace Source

/-- The piece is one that the rules allow before these bytes. -/
inductive Munched : Piece → List UInt8 → Prop
  | blank {b : UInt8} {after : List UInt8} (blank : isBlank b = true) :
    Munched ⟨.blank, [b]⟩ after
  /-- A line comment ends before the next line feed or at the end of the source. -/
  | lineComment {body after : List UInt8} (inside : lineFeed ∉ body)
    (ends : after = [] ∨ ∃ more, after = lineFeed :: more) :
    Munched ⟨.comment, byte '/' :: byte '/' :: body⟩ after
  /-- A block comment ends with the first star and slash behind its first two bytes. -/
  | blockComment {body after : List UInt8}
    (inside : ¬ [byte '*', byte '/'] <:+: body ++ [byte '*']) :
    Munched ⟨.comment, byte '/' :: byte '*' :: (body ++ [byte '*', byte '/'])⟩ after
  | token {slice after : List UInt8} {kind : TokenKind}
    (longest : Longest (slice ++ after) slice kind) : Munched ⟨.token kind, slice⟩ after
  | openString {body : List UInt8} (inside : byte '"' ∉ body) :
    Munched ⟨.openString, byte '"' :: body⟩ []
  | openComment {body : List UInt8} (inside : ¬ [byte '*', byte '/'] <:+: body) :
    Munched ⟨.openComment, byte '/' :: byte '*' :: body⟩ []
  /-- A byte that begins nothing else, with all continuation bytes behind it if it is none of the
  first 128. -/
  | stray {b : UInt8} {more after : List UInt8} (notBlank : isBlank b = false)
    (notQuote : b ≠ byte '"') (notSlash : b ≠ byte '/')
    (notToken : ∀ text kind, ¬ Begins (b :: (more ++ after)) text kind)
    (short : b < 0x80 → more = []) (inside : ∀ c ∈ more, isContinuation c = true)
    (ends : 0x80 ≤ b → ∀ c ∈ after.head?, isContinuation c = false) :
    Munched ⟨.stray, b :: more⟩ after

/-- Every piece is one that the rules allow before the pieces behind it. -/
inductive AllMunched : List Piece → Prop
  | nil : AllMunched []
  | cons {piece : Piece} {pieces : List Piece}
    (first : Munched piece (pieces.flatMap Piece.slice)) (rest : AllMunched pieces) :
    AllMunched (piece :: pieces)

/-! ### What is cut is munched -/

theorem length_le_takeWhile {p : UInt8 → Bool} {text source : List UInt8}
    (start : text <+: source) (all : ∀ c ∈ text, p c = true) :
    text.length ≤ (source.takeWhile p).length := by
  obtain ⟨after, rfl⟩ := start
  rw [List.takeWhile_append_of_pos all, List.length_append]
  exact Nat.le_add_right _ _

theorem not_mem_takeWhile {c : UInt8} {source : List UInt8} :
    c ∉ source.takeWhile (· != c) := by
  intro member
  have differs := List.mem_takeWhile_imp member
  simp at differs

/-- A token that begins a source has its first byte. -/
theorem Begins.cons {b : UInt8} {rest text : List UInt8} {kind : TokenKind}
    (h : Begins (b :: rest) text kind) : ∃ more, text = b :: more ∧ more <+: rest := by
  cases text with
  | nil => exact absurd rfl h.rule.ne_nil
  | cons b' more =>
    obtain ⟨rfl, start⟩ := List.cons_prefix_cons.1 h.start
    exact ⟨more, rfl, start⟩

variable {b : UInt8} {rest more after : List UInt8} {kind : TokenKind}

/-- A token that is no slash is longest if none with its first byte is longer. -/
theorem longest_of_rule (notSlash : b ≠ byte '/') (start : more <+: rest)
    (rule : Rule (b :: more) kind)
    (longest : ∀ more' kind', Rule (b :: more') kind' → more' <+: rest →
      more'.length ≤ more.length) : Longest (b :: rest) (b :: more) kind where
  rule := rule
  start := List.cons_prefix_cons.2 ⟨rfl, start⟩
  slash same := absurd (List.cons.inj same).1 notSlash
  longest text' kind' h := by
    obtain ⟨more', rfl, start'⟩ := h.cons
    exact Nat.succ_le_succ (longest more' kind' h.rule start')

theorem munched_token {c : Cut} (kinds : c.1 = .token kind) (whole : c.2.1 ++ c.2.2 = rest)
    (longest : Longest (b :: rest) (b :: c.2.1) kind) :
    Munched ⟨c.1, b :: c.2.1⟩ c.2.2 := by
  rw [kinds]
  apply Munched.token
  rwa [List.cons_append, whole]

/-- A number has a fraction exactly if a digit stands behind the point. -/
theorem cutNumber_cases (source : List UInt8) :
    (∃ next more, source.dropWhile isDigit = byte '.' :: next :: more ∧ isDigit next = true ∧
      (cutNumber source).2.1 =
        source.takeWhile isDigit ++ byte '.' :: (next :: more).takeWhile isDigit) ∨
    (∀ next more, source.dropWhile isDigit = byte '.' :: next :: more → isDigit next = false) ∧
      (cutNumber source).2.1 = source.takeWhile isDigit := by
  unfold cutNumber
  split
  · next point next more found =>
    split
    · next h =>
      left
      obtain ⟨rfl, digit⟩ := h
      exact ⟨next, more, found, digit, rfl⟩
    · next h =>
      right
      refine ⟨?_, rfl⟩
      intro next' more' found'
      rw [found] at found'
      cases found'
      simpa using h
  · next none =>
    right
    exact ⟨fun next more found => absurd found (none _ next more), rfl⟩

theorem cutNumber_longest (digit : isDigit b = true) :
    Longest (b :: rest) (b :: (cutNumber rest).2.1) .number := by
  have digits : ∀ c ∈ b :: rest.takeWhile isDigit, isDigit c = true := by
    intro c member
    rcases List.mem_cons.1 member with rfl | member
    · exact digit
    · exact List.mem_takeWhile_imp member
  have start : (cutNumber rest).2.1 <+: rest := ⟨_, cutNumber_append rest⟩
  apply longest_of_rule (not_blank_of_isWordByte (isWordByte_of_isDigit digit)).2.2 start
  · rcases cutNumber_cases rest with ⟨next, more, -, digit', same⟩ | ⟨-, same⟩
    · rw [same, ← List.cons_append]
      apply Rule.fraction (List.cons_ne_nil _ _) digits
      · rw [List.takeWhile_cons_of_pos digit']
        exact List.cons_ne_nil _ _
      · exact fun c member => List.mem_takeWhile_imp member
    · rw [same]
      exact Rule.whole (List.cons_ne_nil _ _) digits
  · intro more' kind' rule start'
    obtain rfl := rule.of_digit digit
    have least : (rest.takeWhile isDigit).length ≤ (cutNumber rest).2.1.length := by
      rcases cutNumber_cases rest with ⟨next, more, -, -, same⟩ | ⟨-, same⟩ <;> simp [same]
    rcases rule.number_shape with all | ⟨digits', part, same, all, some, all'⟩
    · have := length_le_takeWhile start' fun c member => all c (.tail _ member)
      omega
    -- The longer number has a fraction: then so has the one that is cut, up to its last digit.
    cases digits' with
    | nil =>
      cases same
      cases digit
    | cons d ds =>
      rw [List.cons_append] at same
      obtain ⟨rfl, rfl⟩ := List.cons.inj same
      obtain ⟨after, rfl⟩ := start'
      have inside : ∀ c ∈ ds, isDigit c = true := fun c member => all c (.tail _ member)
      have taken : (ds ++ byte '.' :: part ++ after).takeWhile isDigit = ds := by
        rw [List.append_assoc, List.takeWhile_append_of_pos inside, List.cons_append,
          List.takeWhile_cons_of_neg (by decide), List.append_nil]
      have left : (ds ++ byte '.' :: part ++ after).dropWhile isDigit =
          byte '.' :: (part ++ after) := by
        rw [List.append_assoc, List.dropWhile_append_of_pos inside, List.cons_append,
          List.dropWhile_cons_of_neg (by decide)]
      rcases cutNumber_cases (ds ++ byte '.' :: part ++ after) with
        ⟨next, more, found, -, cut⟩ | ⟨none, -⟩
      · rw [left] at found
        have fraction := length_le_takeWhile (p := isDigit) ⟨after, rfl⟩ all'
        rw [(List.cons.inj found).2] at fraction
        rw [cut, taken, List.length_append, List.length_append, List.length_cons, List.length_cons]
        omega
      · cases part with
        | nil => exact absurd rfl some
        | cons d part =>
          have notDigit := none d (part ++ after) left
          rw [all' d (.head _)] at notDigit
          cases notDigit

theorem cutWord_longest (letter : isLetter b = true) :
    Longest (b :: rest) (b :: rest.takeWhile isWordByte)
      (wordKind (b :: rest.takeWhile isWordByte)) := by
  apply longest_of_rule (not_blank_of_isWordByte (isWordByte_of_isLetter letter)).2.2
    (List.takeWhile_prefix _)
  · exact rule_wordKind ⟨letter, fun c member => List.mem_takeWhile_imp member⟩
  · intro more' kind' rule start
    exact length_le_takeWhile start (rule.of_letter letter)

theorem cutString_munched (source : List UInt8) :
    Munched ⟨(cutString source).1, byte '"' :: (cutString source).2.1⟩ (cutString source).2.2 := by
  have whole := cutString_append source
  unfold cutString at whole ⊢
  split at whole
  · next none =>
    apply Munched.openString
    intro member
    have differs := List.dropWhile_eq_nil_iff.1 none _ member
    simp at differs
  · next quote after found =>
    have closes : quote = byte '"' := by
      have last := List.head?_dropWhile_not (· != byte '"') source
      rw [found] at last
      simpa using last
    subst closes
    apply munched_token rfl whole
    apply longest_of_rule (by decide) ⟨after, whole⟩
    · exact Rule.string not_mem_takeWhile
    · intro more' kind' rule start
      obtain ⟨-, inside, closed, rfl⟩ := rule.of_quote
      have start' : inside <+: source := (List.prefix_append inside [byte '"']).trans start
      have := length_le_takeWhile (p := (· != byte '"')) start' (by
        intro c member
        rw [bne_iff_ne]
        rintro rfl
        exact closed member)
      simp only [List.length_append, List.length_singleton]
      omega

/-- A block comment is closed by the first star and slash. -/
theorem closeComment_some {seen source inside after : List UInt8}
    (h : closeComment seen source = some (inside, after)) :
    ∃ body, inside = seen.reverse ++ (body ++ [byte '*', byte '/']) ∧
      ¬ [byte '*', byte '/'] <:+: body ++ [byte '*'] := by
  fun_induction closeComment seen source with
  | case1 | case2 => cases h
  | case3 seen a b rest closes =>
    obtain ⟨rfl, rfl⟩ := closes
    cases h
    exact ⟨[], by simp, by decide⟩
  | case4 seen a b rest goesOn ih =>
    obtain ⟨body, same, first⟩ := ih h
    refine ⟨a :: body, by rw [same]; simp, ?_⟩
    have whole := closeComment_append h
    rw [same, List.append_assoc, List.append_cancel_left_eq] at whole
    rw [List.cons_append, List.infix_cons_iff]
    rintro (start | within)
    · obtain ⟨star, start⟩ := List.cons_prefix_cons.1 start
      -- The byte behind `a` is `b`, the first one of the body or the star that ends it.
      apply goesOn
      refine ⟨star.symm, ?_⟩
      cases body with
      | nil => cases (List.cons_prefix_cons.1 start).1
      | cons c body =>
        rw [(List.cons.inj whole).1.symm]
        exact (List.cons_prefix_cons.1 start).1.symm
    · exact first within

theorem closeComment_none {seen source : List UInt8} (h : closeComment seen source = none) :
    ¬ [byte '*', byte '/'] <:+: source := by
  fun_induction closeComment seen source with
  | case1 => exact fun within => absurd within (by simp)
  | case2 => exact fun within => by simpa using within.length_le
  | case3 => cases h
  | case4 seen a b rest goesOn ih =>
    rw [List.infix_cons_iff]
    rintro (start | within)
    · obtain ⟨star, start⟩ := List.cons_prefix_cons.1 start
      exact goesOn ⟨star.symm, (List.cons_prefix_cons.1 start).1.symm⟩
    · exact ih h within

/-- An operator that is cut in no other way than this one byte is longest alone. -/
theorem operator_alone (entry : ([b], kind) ∈ operators) (slash : b = byte '/' →
      ¬ [byte '/', byte '/'] <+: b :: rest ∧ ¬ [byte '/', byte '*'] <+: b :: rest)
    (alone : ∀ kind', beforeEqual? b = some kind' → single? b = none →
      ¬ [byte '='] <+: rest) : Longest (b :: rest) [b] kind where
  rule := .operator entry
  start := List.cons_prefix_cons.2 ⟨rfl, List.nil_prefix⟩
  slash same := slash (List.cons.inj same).1
  longest text' kind' h := by
    obtain ⟨more', rfl, start⟩ := h.cons
    obtain ⟨-, digit, letter, quote⟩ := operator_begins entry
    have form := operators_cut _ (h.rule.of_other digit letter quote)
    cases more' with
    | nil => exact Nat.le_refl _
    | cons next more' =>
      cases more' with
      | nil =>
        obtain ⟨rfl, single, entry'⟩ := form
        obtain ⟨kinds, found, -⟩ := Option.map_eq_some_iff.1 entry'
        exact absurd start (alone kinds found single)
      | cons => exact absurd form not_false

theorem cutSlash_munched (source : List UInt8) :
    Munched ⟨(cutSlash source).1, byte '/' :: (cutSlash source).2.1⟩ (cutSlash source).2.2 := by
  have entry : ([byte '/'], TokenKind.slash) ∈ operators := by decide
  unfold cutSlash
  split
  · apply Munched.token
    apply operator_alone entry
    · intro _
      constructor <;> decide
    · intro kinds found
      cases found
  split
  · next next more same =>
    subst same
    apply Munched.lineComment not_mem_takeWhile
    have last := List.head?_dropWhile_not (· != lineFeed) more
    cases left : more.dropWhile (· != lineFeed) with
    | nil => exact .inl rfl
    | cons c after =>
      rw [left] at last
      have same : c = lineFeed := by simpa using last
      exact .inr ⟨after, by rw [same]⟩
  split
  · next next more _ same =>
    subst same
    split
    · next inside after found =>
      obtain ⟨body, same, first⟩ := closeComment_some found
      subst same
      exact Munched.blockComment first
    · next none => exact Munched.openComment (closeComment_none none)
  · next next more notSlash notStar =>
    apply Munched.token
    apply operator_alone entry
    · intro _
      constructor
      · intro start
        exact notSlash (List.cons_prefix_cons.1 (List.cons_prefix_cons.1 start).2).1.symm
      · intro start
        exact notStar (List.cons_prefix_cons.1 (List.cons_prefix_cons.1 start).2).1.symm
    · intro kinds found
      cases found

theorem cutOperator_munched {alone withEqual : TokenKind}
    (found : beforeEqual? b = some (alone, withEqual)) (notSlash : b ≠ byte '/') :
    Munched ⟨(cutOperator alone withEqual rest).1, b :: (cutOperator alone withEqual rest).2.1⟩
      (cutOperator alone withEqual rest).2.2 := by
  obtain ⟨entry, entry'⟩ := beforeEqual_entry found
  unfold cutOperator
  split
  · apply Munched.token
    exact operator_alone entry (absurd · notSlash) fun _ _ _ => by simp
  split
  · next next more same =>
    subst same
    apply Munched.token
    apply longest_of_rule notSlash ⟨more, rfl⟩ (.operator entry')
    intro more' kind' rule start
    obtain ⟨-, digit, letter, quote⟩ := operator_begins entry'
    have form := operators_cut _ (rule.of_other digit letter quote)
    cases more' with
    | nil => exact Nat.zero_le _
    | cons c more' =>
      cases more' with
      | nil => exact Nat.le_refl _
      | cons => cases form
  · next next more differs =>
    apply Munched.token
    apply operator_alone entry (absurd · notSlash)
    intro _ _ _ start
    exact differs (List.cons_prefix_cons.1 start).1.symm

theorem cutStray_munched (notBlank : isBlank b = false) (digit : isDigit b = false)
    (letter : isLetter b = false) (notQuote : b ≠ byte '"') (notSlash : b ≠ byte '/')
    (single : single? b = none) (operator : beforeEqual? b = none) :
    Munched ⟨(cutStray b rest).1, b :: (cutStray b rest).2.1⟩ (cutStray b rest).2.2 := by
  have notToken : ∀ text kind, ¬ Begins (b :: rest) text kind := by
    intro text kind h
    obtain ⟨more, rfl, -⟩ := h.cons
    have form := operators_cut _ (h.rule.of_other digit letter notQuote)
    match more, form with
    | [], .inl same => exact notSlash same.1
    | [], .inr (.inl found) =>
      rw [single] at found
      cases found
    | [], .inr (.inr found) =>
      rw [operator] at found
      cases found.2
    | [_], ⟨_, _, found⟩ =>
      rw [operator] at found
      cases found
  unfold cutStray
  split
  · next short =>
    exact .stray notBlank notQuote notSlash notToken (fun _ => rfl) (fun _ member => nomatch member)
      fun long => absurd short (UInt8.not_lt.2 long)
  · next long =>
    apply Munched.stray notBlank notQuote notSlash
    · rwa [List.takeWhile_append_dropWhile]
    · exact fun short => absurd short long
    · exact fun c member => List.mem_takeWhile_imp member
    · intro _ c first
      have last := List.head?_dropWhile_not isContinuation rest
      rw [first] at last
      exact last

/-- What the first byte of a source begins is munched. -/
theorem cut_munched (b : UInt8) (rest : List UInt8) :
    Munched ⟨(cut b rest).1, b :: (cut b rest).2.1⟩ (cut b rest).2.2 := by
  unfold cut
  split
  · next blank => exact .blank blank
  split
  · next digit =>
    exact munched_token (cutNumber_kind rest) (cutNumber_append rest) (cutNumber_longest digit)
  split
  · next letter =>
    exact munched_token rfl List.takeWhile_append_dropWhile (cutWord_longest letter)
  split
  · next quote =>
    subst quote
    exact cutString_munched rest
  split
  · next slash =>
    subst slash
    exact cutSlash_munched rest
  next notBlank notDigit notLetter notQuote notSlash =>
  split
  · next found =>
    apply Munched.token
    apply operator_alone (single_entry found) (absurd · notSlash)
    intro _ _ none
    rw [none] at found
    cases found
  · next found => exact cutOperator_munched found notSlash
  · next single operator =>
    rw [Bool.not_eq_true] at notBlank notDigit notLetter
    exact cutStray_munched notBlank notDigit notLetter notQuote notSlash single operator

/-! ### What is munched is cut -/

theorem closeComment_of_first {seen body after : List UInt8}
    (first : ¬ [byte '*', byte '/'] <:+: body ++ [byte '*']) :
    closeComment seen (body ++ [byte '*', byte '/'] ++ after) =
      some (seen.reverse ++ (body ++ [byte '*', byte '/']), after) := by
  induction body generalizing seen with
  | nil =>
    rw [List.nil_append, List.cons_append, List.cons_append, closeComment, if_pos ⟨rfl, rfl⟩]
    simp
  | cons a body ih =>
    rw [List.cons_append, List.infix_cons_iff, not_or] at first
    obtain ⟨b, more, behind⟩ : ∃ b more, body ++ [byte '*'] = b :: more := by
      cases body <;> exact ⟨_, _, rfl⟩
    have goesOn : ¬ (a = byte '*' ∧ b = byte '/') := by
      rintro ⟨rfl, rfl⟩
      rw [behind] at first
      exact first.1 ⟨more, rfl⟩
    have source : body ++ [byte '*', byte '/'] ++ after = b :: (more ++ byte '/' :: after) := by
      rw [← List.cons_append, ← behind]
      simp
    rw [List.cons_append, List.cons_append, source, closeComment, if_neg goesOn, ← source,
      ih first.2]
    simp

theorem closeComment_of_never {seen source : List UInt8}
    (never : ¬ [byte '*', byte '/'] <:+: source) : closeComment seen source = none := by
  cases found : closeComment seen source with
  | none => rfl
  | some pair =>
    obtain ⟨inside, after⟩ := pair
    obtain ⟨body, same, -⟩ := closeComment_some found
    have whole := closeComment_append found
    rw [same, List.append_assoc, List.append_cancel_left_eq] at whole
    rw [← whole] at never
    exact absurd ⟨body, after, rfl⟩ never

theorem takeWhile_dropWhile_of {p : UInt8 → Bool} {inside after : List UInt8}
    (all : ∀ c ∈ inside, p c = true) (ends : ∀ c ∈ after.head?, p c = false) :
    (inside ++ after).takeWhile p = inside ∧ (inside ++ after).dropWhile p = after := by
  rw [List.takeWhile_append_of_pos all, List.dropWhile_append_of_pos all]
  cases after with
  | nil => exact ⟨List.append_nil _, rfl⟩
  | cons c after =>
    have last : ¬ p c = true := by simp [ends c rfl]
    rw [List.takeWhile_cons_of_neg last, List.dropWhile_cons_of_neg last]
    exact ⟨List.append_nil _, rfl⟩

theorem cut_slash (source : List UInt8) : cut (byte '/') source = cutSlash source := rfl

theorem cut_quote (source : List UInt8) : cut (byte '"') source = cutString source := rfl

theorem cut_lineComment {body : List UInt8} (inside : lineFeed ∉ body)
    (ends : after = [] ∨ ∃ more, after = lineFeed :: more) :
    cutSlash (byte '/' :: (body ++ after)) = (.comment, byte '/' :: body, after) := by
  have split : (body ++ after).takeWhile (· != lineFeed) = body ∧ _ := takeWhile_dropWhile_of
    (fun c member => by
      rw [bne_iff_ne]
      rintro rfl
      exact inside member)
    (fun c first => by
      rcases ends with rfl | ⟨more, rfl⟩
      · cases first
      · cases first
        exact bne_self_eq_false _)
  rw [cutSlash, if_pos rfl, split.1, split.2]

theorem cut_openString {body : List UInt8} (inside : byte '"' ∉ body) :
    cutString body = (.openString, body, []) := by
  have none : body.dropWhile (· != byte '"') = [] := by
    rw [List.dropWhile_eq_nil_iff]
    intro c member
    rw [bne_iff_ne]
    rintro rfl
    exact inside member
  rw [cutString, none]

theorem cut_stray {more : List UInt8} (notBlank : isBlank b = false) (notQuote : b ≠ byte '"')
    (notSlash : b ≠ byte '/') (notToken : ∀ text kind, ¬ Begins (b :: (more ++ after)) text kind)
    (short : b < 0x80 → more = []) (inside : ∀ c ∈ more, isContinuation c = true)
    (ends : 0x80 ≤ b → ∀ c ∈ after.head?, isContinuation c = false) :
    cut b (more ++ after) = (.stray, more, after) := by
  have alone : ∀ kind, ¬ Rule [b] kind := by
    intro kind rule
    exact notToken [b] kind ⟨rule, ⟨_, rfl⟩, fun same => absurd (List.cons.inj same).1 notSlash⟩
  have digit : ¬ isDigit b = true := by
    intro digit
    exact alone _ (.whole (List.cons_ne_nil _ _) (List.forall_mem_singleton.2 digit))
  have letter : ¬ isLetter b = true := by
    intro letter
    exact alone _ (rule_wordKind ⟨letter, fun c member => nomatch member⟩)
  have single : single? b = none := by
    cases found : single? b with
    | none => rfl
    | some kind => exact absurd (.operator (single_entry found)) (alone kind)
  have operator : beforeEqual? b = none := by
    cases found : beforeEqual? b with
    | none => rfl
    | some kinds => exact absurd (.operator (beforeEqual_entry found).1) (alone kinds.1)
  rw [cut, notBlank, if_neg Bool.false_ne_true, if_neg digit, if_neg letter, if_neg notQuote,
    if_neg notSlash, single, operator]
  show cutStray b (more ++ after) = _
  rw [cutStray]
  by_cases ascii : b < 0x80
  · rw [if_pos ascii, short ascii]
    rfl
  · obtain ⟨taken, left⟩ := takeWhile_dropWhile_of inside (ends (UInt8.not_lt.1 ascii))
    rw [if_neg ascii, taken, left]

/-- Where a comment begins, no token does. -/
theorem Begins.no_comment {source text : List UInt8} {next : UInt8}
    (h : Begins (byte '/' :: next :: source) text kind) : next ≠ byte '/' ∧ next ≠ byte '*' := by
  obtain ⟨more, rfl, -⟩ := h.cons
  have form := operators_cut _ (h.rule.of_other (by decide) (by decide) (by decide))
  have one : more = [] := by
    match more, form with
    | [], _ => rfl
    | [_], ⟨_, _, found⟩ => cases found
  subst one
  obtain ⟨notLine, notBlock⟩ := h.slash rfl
  constructor
  · rintro rfl
    exact notLine ⟨source, rfl⟩
  · rintro rfl
    exact notBlock ⟨source, rfl⟩

/-- Where a token begins, the piece that is munched is a token. -/
theorem Munched.token_of_begins {piece : Piece} {text : List UInt8} (h : Munched piece after)
    (begins : Begins (piece.slice ++ after) text kind) : ∃ kind', piece.kind = .token kind' := by
  cases h with
  | blank blank =>
    obtain ⟨more, rfl, -⟩ := begins.cons
    rw [begins.rule.notBlank] at blank
    cases blank
  | lineComment => exact absurd rfl begins.no_comment.1
  | blockComment | openComment => exact absurd rfl begins.no_comment.2
  | token => exact ⟨_, rfl⟩
  | @openString body inside =>
    obtain ⟨more, rfl, start⟩ := begins.cons
    obtain ⟨-, inside', -, rfl⟩ := begins.rule.of_quote
    have closed : byte '"' ∈ body ++ [] := start.subset (List.mem_append_right _ (.head _))
    rw [List.append_nil] at closed
    exact absurd closed inside
  | stray _ _ _ notToken => exact absurd begins (notToken _ _)

theorem cut_token (longest : Longest (b :: (more ++ after)) (b :: more) kind) :
    cut b (more ++ after) = (.token kind, more, after) := by
  have munched := cut_munched b (more ++ after)
  have whole := cut_append b (more ++ after)
  generalize cut b (more ++ after) = c at munched whole
  obtain ⟨pieceKind, more', after'⟩ := c
  have begins := longest.toBegins
  rw [← whole] at begins
  obtain ⟨kind', isToken⟩ := munched.token_of_begins begins
  cases isToken
  cases munched with
  | token longest' =>
    rw [← whole] at longest
    obtain ⟨same, rfl⟩ := longest.unique longest'
    obtain rfl := (List.cons.inj same).2
    rw [List.append_cancel_left_eq] at whole
    exact congrArg (fun after => (PieceKind.token kind, more, after)) whole

/-- The first byte of a munched piece is cut off with it. -/
theorem cut_of_munched {pieceKind : PieceKind} (h : Munched ⟨pieceKind, b :: more⟩ after) :
    cut b (more ++ after) = (pieceKind, more, after) := by
  generalize same : (⟨pieceKind, b :: more⟩ : Piece) = piece at h
  cases h with
  | blank blank =>
    cases same
    rw [cut, if_pos blank]
    rfl
  | lineComment inside ends =>
    cases same
    rw [cut_slash]
    exact cut_lineComment inside ends
  | @blockComment body _ inside =>
    cases same
    rw [cut_slash]
    show cutSlash (byte '*' :: (body ++ [byte '*', byte '/'] ++ after)) = _
    rw [cutSlash, if_neg (by decide), if_pos rfl, closeComment_of_first inside]
    rfl
  | token longest =>
    cases same
    exact cut_token longest
  | openString inside =>
    cases same
    rw [cut_quote, List.append_nil]
    exact cut_openString inside
  | @openComment body inside =>
    cases same
    rw [cut_slash, List.append_nil, cutSlash, if_neg (by decide), if_pos rfl,
      closeComment_of_never inside]
  | stray notBlank notQuote notSlash notToken short inside ends =>
    cases same
    exact cut_stray notBlank notQuote notSlash notToken short inside ends

theorem Munched.ne_nil {piece : Piece} (h : Munched piece after) : piece.slice ≠ [] := by
  cases h with
  | token longest => exact longest.rule.ne_nil
  | _ => exact List.cons_ne_nil _ _

/-- The slices of the pieces of a source are the source. -/
theorem flatMap_pieces (source : List UInt8) : (pieces source).flatMap Piece.slice = source := by
  induction size : source.length using Nat.strongRecOn generalizing source with
  | ind n ih =>
    cases source with
    | nil => rw [pieces_nil, List.flatMap_nil]
    | cons b rest =>
      have shorter := length_cut_le b rest
      rw [List.length_cons] at size
      rw [pieces_cons, List.flatMap_cons, ih _ (by omega) _ rfl, List.cons_append, cut_append]

theorem AllMunched.munched_of_mem {ps : List Piece} (h : AllMunched ps) {p : Piece}
    (member : p ∈ ps) : ∃ after, Munched p after := by
  induction h with
  | nil => cases member
  | cons first _ ih =>
    rcases List.mem_cons.1 member with rfl | later
    · exact ⟨_, first⟩
    · exact ih later

theorem allMunched_pieces (source : List UInt8) : AllMunched (pieces source) := by
  induction size : source.length using Nat.strongRecOn generalizing source with
  | ind n ih =>
    cases source with
    | nil =>
      rw [pieces_nil]
      exact .nil
    | cons b rest =>
      have shorter := length_cut_le b rest
      rw [List.length_cons] at size
      rw [pieces_cons]
      apply AllMunched.cons
      · rw [flatMap_pieces]
        exact cut_munched b rest
      · exact ih _ (by omega) _ rfl

/-- Munched pieces are the pieces of the source that they make up. -/
theorem AllMunched.pieces_eq {ps : List Piece} (h : AllMunched ps) :
    pieces (ps.flatMap Piece.slice) = ps := by
  induction h with
  | nil => exact pieces_nil
  | @cons piece ps first _ ih =>
    obtain ⟨kind, slice⟩ := piece
    cases slice with
    | nil => exact absurd rfl first.ne_nil
    | cons b more =>
      rw [List.flatMap_cons, List.cons_append, pieces_cons, cut_of_munched first, ih]

end Source

end Treewalk
