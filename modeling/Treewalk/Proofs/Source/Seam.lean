import Treewalk.Proofs.Source.Written

/-!
# Two sources with a line feed between them

A source without lexical errors ends in none of its tokens and comments: with a line feed and
another source behind it, it is cut as it was, and so is the other source. The tokens of the second
source are on later lines.
-/

namespace Treewalk

/-- A piece that is no lexical error. -/
def PieceKind.Clean : PieceKind → Prop
  | .blank | .comment | .token _ => True
  | .stray | .openString | .openComment => False

namespace Source

variable {b : UInt8} {slice after more : List UInt8} {kind : TokenKind} {piece : Piece}

/-- The longest token at the beginning of a source is still the longest one with a blank and more
behind the source. -/
theorem Longest.extend (h : Longest (slice ++ after) slice kind) (blank : isBlank b = true) :
    Longest (slice ++ (after ++ b :: more)) slice kind where
  rule := h.rule
  start := List.prefix_append _ _
  slash same := by
    obtain ⟨line, block⟩ := h.slash same
    subst same
    have notNext : ∀ next, isBlank next = false → ¬ [byte '/', next] <+: [byte '/'] ++ after →
        ¬ [byte '/', next] <+: [byte '/'] ++ (after ++ b :: more) := by
      intro next notBlank before start
      obtain ⟨-, start⟩ := List.cons_prefix_cons.1 start
      cases after with
      | nil =>
        obtain ⟨same, -⟩ := List.cons_prefix_cons.1 start
        rw [same, blank] at notBlank
        cases notBlank
      | cons c after =>
        obtain ⟨same, -⟩ := List.cons_prefix_cons.1 start
        exact before ⟨after, by rw [same]; rfl⟩
    exact ⟨notNext _ rfl line, notNext _ rfl block⟩
  longest text' kind' h' := by
    have start := h'.start
    rw [← List.append_assoc] at start
    rcases Nat.lt_or_ge (slice ++ after).length text'.length with longer | shorter
    · -- A token that is longer than the source holds the blank behind it.
      obtain ⟨extra, same⟩ := List.prefix_of_prefix_length_le (List.prefix_append _ _) start
        (Nat.le_of_lt longer)
      obtain ⟨left, whole⟩ := start
      rw [← same, List.append_assoc, List.append_cancel_left_eq] at whole
      have rule' := h'.rule
      rw [← same, List.append_assoc] at rule'
      cases extra with
      | nil =>
        rw [List.append_nil] at same
        exact absurd longer (by rw [same]; exact Nat.lt_irrefl _)
      | cons c extra =>
        obtain ⟨rfl, -⟩ := List.cons.inj whole
        have other := h.rule.not_break_behind rule' c (List.mem_append_right _ (.head _))
        rw [isBreak_of_isBlank blank] at other
        cases other
    · have within : text' <+: slice ++ after :=
        List.prefix_of_prefix_length_le start (List.prefix_append _ _) shorter
      refine h.longest text' kind' ⟨h'.rule, within, fun slash => ?_⟩
      obtain ⟨line, block⟩ := h'.slash slash
      rw [← List.append_assoc] at line block
      exact ⟨fun before => line (before.trans (List.prefix_append _ _)),
        fun before => block (before.trans (List.prefix_append _ _))⟩

theorem Munched.extend (h : Munched piece after) (clean : piece.kind.Clean) :
    Munched piece (after ++ lineFeed :: more) := by
  cases h with
  | blank blank => exact .blank blank
  | lineComment inside ends =>
    refine .lineComment inside (.inr ?_)
    rcases ends with rfl | ⟨rest, rfl⟩
    · exact ⟨more, rfl⟩
    · exact ⟨rest ++ lineFeed :: more, rfl⟩
  | blockComment inside => exact .blockComment inside
  | token longest => exact .token (longest.extend rfl)
  | openString | openComment | stray => exact clean.elim

/-- The pieces of two sources with a line feed between them. -/
theorem AllMunched.seam {ps qs : List Piece} (h : AllMunched ps)
    (clean : ∀ piece ∈ ps, piece.kind.Clean) (h' : AllMunched qs) :
    AllMunched (ps ++ ⟨.blank, [lineFeed]⟩ :: qs) := by
  induction h with
  | nil => exact .cons (.blank rfl) h'
  | cons first rest ih =>
    obtain ⟨clean, others⟩ := List.forall_mem_cons.1 clean
    rw [List.cons_append]
    refine .cons ?_ (ih others)
    rw [List.flatMap_append, List.flatMap_cons]
    exact first.extend clean

theorem pieces_seam {a b : List UInt8} (clean : ∀ piece ∈ pieces a, piece.kind.Clean) :
    pieces (a ++ lineFeed :: b) = pieces a ++ ⟨.blank, [lineFeed]⟩ :: pieces b := by
  have munched := (allMunched_pieces a).seam clean (allMunched_pieces b)
  rw [← munched.pieces_eq, List.flatMap_append, List.flatMap_cons, flatMap_pieces, flatMap_pieces]
  rfl

/-- Only pieces that are errors have items that are errors. -/
theorem clean_of_errors {ps : List Piece} {line : Nat} (none : errors (itemsFrom line ps) = []) :
    ∀ piece ∈ ps, piece.kind.Clean := by
  induction ps generalizing line with
  | nil => exact fun _ member => nomatch member
  | cons piece ps ih =>
    rw [itemsFrom, errors, List.filterMap_append, List.append_eq_nil_iff] at none
    refine List.forall_mem_cons.2 ⟨?_, ih none.2⟩
    obtain ⟨kind, slice⟩ := piece
    cases kind with
    | blank | comment | token => trivial
    | stray | openString | openComment => exact absurd none.1 (List.cons_ne_nil _ _)

/-- The item on a later line. -/
def Item.later (lines : Nat) : Item → Item
  | .ok t => .ok { t with line := t.line + lines }
  | .error e => .error { e with line := e.line + lines }

theorem itemOf_later (piece : Piece) (line lines : Nat) :
    itemOf piece (line + lines) = (itemOf piece line).map (Item.later lines) := by
  obtain ⟨kind, slice⟩ := piece
  cases kind <;> rfl

theorem itemsFrom_later (line lines : Nat) (ps : List Piece) :
    itemsFrom (line + lines) ps = (itemsFrom line ps).map (Item.later lines) := by
  induction ps generalizing line with
  | nil => rfl
  | cons piece ps ih =>
    rw [itemsFrom, itemsFrom, List.map_append, Nat.add_right_comm, ih, itemOf_later]
    cases itemOf piece (line + linesIn piece.slice) <;> rfl

/-- The items of two sources with a line feed between them: those of the first one without its end,
and those of the second one on later lines. -/
theorem scan_seam {a b : List UInt8} (none : errors (scan a) = []) :
    scan (a ++ lineFeed :: b) =
      itemsFrom 1 (pieces a) ++ (scan b).map (Item.later (linesIn a + 1)) := by
  rw [scan_eq, errors, List.filterMap_append, List.append_eq_nil_iff] at none
  have clean : ∀ piece ∈ pieces a, piece.kind.Clean := clean_of_errors none.1
  have ends : linesIn (a ++ lineFeed :: b) = linesIn b + (linesIn a + 1) := by
    rw [← List.singleton_append, linesIn_append, linesIn_append]
    show linesIn a + (1 + linesIn b) = _
    omega
  have blank : ∀ line, itemsFrom line (⟨.blank, [lineFeed]⟩ :: pieces b) =
      itemsFrom (line + 1) (pieces b) := fun _ => rfl
  rw [scan_eq, scan_eq, pieces_seam clean, itemsFrom_append, flatMap_pieces, blank, ends,
    Nat.add_assoc 1, itemsFrom_later, List.append_assoc, List.map_append, ← Nat.add_assoc 1]
  rfl

end Source

end Treewalk
