import Treewalk.Proofs.Batches.Numbers
import Treewalk.Proofs.Decimal.Figured
import Treewalk.Proofs.Grammar.Lines
import Treewalk.Proofs.Source.Spellings
import Treewalk.Proofs.Tree.Roles
import Treewalk.Proofs.Tree.Worded

/-!
# The words of printed trees

The words of a printed tree are the texts of its tokens and constants, and each place has its own:
names are no keywords and begin with no figure, operators are spelled as the table says, and numbers
begin with a figure or a minus sign. A token is told by its text but for its line, and a constant by
its word.
-/

namespace Treewalk

/-- All numbers and all lines are zero. -/
def Relabel.unplaced : Relabel := .renumbered (fun _ => 0) fun _ => 0

/-- The constant is no text, and no number that is not finite. -/
def Constant.Plain : Constant → Prop
  | .number x => x.isFinite = Bool.true
  | .text _ => False
  | .true | .false | .nil => True

/-- A token that is no literal and no end has no value and is spelled by the rules. -/
def Token.Scanned (t : Token) : Prop := t.kind ∉ [.string, .number, .eof] → t.Bare

section Tokens

variable {role : TokenRole} {t u : Token}

/-- No literal and no end has a place of its own. -/
theorem TokenRole.not_literal {kind : TokenKind} (h : kind ∈ role.kinds) :
    kind ∉ [.string, .number, .eof] := by
  revert kind
  cases role <;> decide

/-- Where an identifier may stand, nothing else may. -/
theorem TokenRole.identifier_alone {kind : TokenKind} (h : .identifier ∈ role.kinds)
    (h' : kind ∈ role.kinds) : kind = .identifier := by
  cases role <;> simp_all [kinds]

namespace Token.Plays

theorem bare (h : t.Plays Scanned role) : t.Bare := h.holds (TokenRole.not_literal h.kind)

/-- In one place, tokens with one text differ at most in their lines. -/
theorem relabel_eq (h : t.Plays Scanned role) (h' : u.Plays Scanned role)
    (same : t.lexeme = u.lexeme) : t.relabel .unplaced = u.relabel .unplaced := by
  have kinds : t.kind = u.kind := by
    by_cases name : t.kind = .identifier
    · rw [name, TokenRole.identifier_alone (name ▸ h.kind) h'.kind]
    by_cases name' : u.kind = .identifier
    · rw [name', TokenRole.identifier_alone (name' ▸ h'.kind) h.kind]
    · exact TokenKind.spellings_text _ (h.bare.spelled name) _ (h'.bare.spelled name') same
  simp only [relabel, kinds, same, h.bare.literal, h'.bare.literal, Relabel.unplaced,
    Relabel.renumbered]

theorem rename_eq (h : t.Plays Scanned role) (h' : u.Plays Scanned role)
    (same : t.lexeme = u.lexeme) : t.rename .unplaced = u.rename .unplaced :=
  h.relabel_eq h' same

/-- Where only one keyword or mark may stand, it is the same but for its line. -/
theorem relabel_eq_of_one (h : t.Plays Scanned role) (h' : u.Plays Scanned role)
    (one : ∃ kind, role.kinds = [kind] ∧ kind ≠ .identifier) :
    t.relabel .unplaced = u.relabel .unplaced := by
  obtain ⟨kind, kinds, other⟩ := one
  have is : t.kind = kind := List.mem_singleton.1 (kinds ▸ h.kind)
  have is' : u.kind = kind := List.mem_singleton.1 (kinds ▸ h'.kind)
  apply h.relabel_eq h'
  exact TokenKind.spellings_kind _ (h.bare.spelled (is ▸ other)) _
    (h'.bare.spelled (is' ▸ other)) (is.trans is'.symm)

theorem isName (h : t.Plays Scanned .name) : IsName t.lexeme :=
  h.bare.name (List.mem_singleton.1 h.kind)

/-- An operator is spelled as the table says. -/
theorem lexeme_mem (h : t.Plays Scanned role) (other : .identifier ∉ role.kinds)
    {texts : List String} (table : ∀ p ∈ TokenKind.spellings, p.2 ∈ role.kinds → p.1 ∈ texts) :
    t.lexeme ∈ texts := by
  apply table _ (h.bare.spelled _) h.kind
  intro identifier
  exact other (identifier ▸ h.kind)

end Token.Plays

end Tokens

section Words

open Form

/-- The text begins as a number does. -/
def opensNumber (w : String) : Bool :=
  match w.toList with
  | [] => false
  | c :: _ => c.isDigit || c == '-'

theorem IsName.isWord {s : String} (h : IsName s) : IsWord s := by
  obtain ⟨c, cs, shape, letter, all⟩ := h.word
  have word {d : Char} (is : d.isAlphanum = true ∨ d = '_') : d ∉ [' ', '(', ')'] := by
    rintro member
    simp only [List.mem_cons, List.not_mem_nil, or_false] at member
    rcases member with rfl | rfl | rfl <;> revert is <;> decide
  refine ⟨by simp [shape], ?_⟩
  rw [shape, List.forall_mem_cons]
  refine ⟨word ?_, fun d member => word (all d member)⟩
  rcases letter with letter | rfl
  · simp [Char.isAlphanum, letter]
  · decide

theorem IsName.opensNumber {s : String} (h : IsName s) : opensNumber s = false := by
  obtain ⟨c, cs, shape, letter, -⟩ := h.word
  simp only [Treewalk.opensNumber, shape]
  rcases letter with letter | rfl
  · have digit : c.isDigit = false := by
      grind [Char.isAlpha, Char.isUpper, Char.isLower, Char.isDigit]
    have minus : c ≠ '-' := by
      rintro rfl
      exact absurd letter (by decide)
    simp [digit, minus]
  · decide

theorem Number.written_prefixForm {x : Float} (finite : x.isFinite = true) :
    Written x (prefixForm x) := by
  obtain ⟨digits, q, text, numeral, reads⟩ := spelled_prefixForm finite
  rw [text]
  exact ⟨_, q, String.toList_append, .of_numeral numeral, reads⟩

theorem Number.prefixForm_isWord {x : Float} (finite : x.isFinite = true) :
    IsWord (prefixForm x) ∧ opensNumber (prefixForm x) = true := by
  obtain ⟨c, cs, shape, opens, all⟩ := (written_prefixForm finite).all
  refine ⟨⟨by simp [shape], ?_⟩, by simpa [opensNumber, shape] using opens⟩
  rw [shape]
  exact fun d member => not_mem_of_isFigure (all d member) (by simp [isFigure])

/-- A constant is a word, and no name and no `this`. -/
theorem Constant.form_word {c : Constant} (plain : c.Plain) : ∃ w, c.form = .word w ∧ IsWord w ∧
    (opensNumber w = Bool.true ∨ w ∈ ["true", "false", "nil"]) := by
  cases c with
  | number x =>
    obtain ⟨word, opens⟩ := Number.prefixForm_isWord plain
    exact ⟨_, rfl, word, .inl opens⟩
  | text => exact plain.elim
  | true => exact ⟨_, rfl, by simp [IsWord], .inr (by decide)⟩
  | false => exact ⟨_, rfl, by simp [IsWord], .inr (by decide)⟩
  | nil => exact ⟨_, rfl, by simp [IsWord], .inr (by decide)⟩

theorem Number.prefixForm_ne {x : Float} (finite : x.isFinite = true) {w : String}
    (other : opensNumber w = false) : prefixForm x ≠ w := by
  rintro rfl
  rw [(prefixForm_isWord finite).2] at other
  cases other

theorem Constant.form_inj {c d : Constant} (plain : c.Plain) (plain' : d.Plain)
    (same : c.form = d.form) : c = d := by
  have word {w w' : String} (same : Form.word w = .word w') : w = w' := Form.word.inj same
  cases c with
  | number x =>
    cases d with
    | number y =>
      have written := Number.written_prefixForm plain
      rw [word same] at written
      rw [written.eq plain plain' (Number.written_prefixForm plain')]
    | text => exact plain'.elim
    | _ => exact absurd (word same) (Number.prefixForm_ne plain (by simp [opensNumber]))
  | text => exact plain.elim
  | _ =>
    cases d with
    | number y =>
      exact absurd (word same).symm (Number.prefixForm_ne plain' (by simp [opensNumber]))
    | text => exact plain'.elim
    | _ => first | rfl | exact absurd (word same) (by decide)

end Words

end Treewalk
