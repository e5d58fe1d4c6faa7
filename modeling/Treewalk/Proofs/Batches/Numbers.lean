import Treewalk.Proofs.Batches.Single
import Treewalk.Proofs.Decimal.Numeral
import Treewalk.Proofs.Decimal.ReadBack
import Treewalk.Proofs.Run.Carrier
import Treewalk.Syntax.Form

/-!
# Printed numbers read back

The texts of a finite double are a numeral behind the sign of the double, and the numeral is read as
its magnitude. So the expression that such a text is has the double as its value, bit for bit: a
minus sign is the operator, and it puts back the sign bit, also that of zero.
-/

namespace Treewalk

open Source

namespace Number

/-- The text is the sign of the double and a numeral that is read as its magnitude. -/
def Spelled (x : Float) (text : String) : Prop :=
  ∃ digits q, text = sign (negative x) ++ digits ∧ Numeral digits q ∧ (magnitude x).Reads q

section

variable {x : Float}

theorem spelled_shortest (x : Float) :
    Spelled x (sign (negative x) ++ shortestPositional (magnitude x)) :=
  ⟨_, _, rfl, numeral_positional _, Binary.reads_shortest _ _⟩

theorem spelled_whole {n : Nat} {digits : String} (is : (magnitude x).toNat? = some n)
    (numeral : Numeral digits n) : Spelled x (sign (negative x) ++ digits) :=
  ⟨digits, n, rfl, numeral, Binary.toNat?_value is ▸ Binary.reads_value _⟩

theorem spelled_display (finite : x.isFinite = true) : Spelled x (display x) := by
  rw [display, Reading.of_finite finite]
  dsimp only
  split
  · next is => exact spelled_whole is (numeral_repr _)
  · exact spelled_shortest x

theorem spelled_prefixForm (finite : x.isFinite = true) : Spelled x (prefixForm x) := by
  rw [prefixForm, Reading.of_finite finite]
  dsimp only
  split
  · next is => exact spelled_whole is (numeral_repr_point _)
  · exact spelled_shortest x

/-- Behind a token the sign of zero is missing, which says nothing where the sign bit is clear. -/
theorem spelled_tokenForm (finite : x.isFinite = true) (clear : x.toBits.toNat < 2 ^ 63) :
    Spelled x (tokenForm x) := by
  rw [tokenForm, Reading.of_finite finite]
  dsimp only
  split
  · next n is =>
    split
    · have spelled := spelled_whole is (numeral_repr_point n)
      rw [negative_eq_false clear] at spelled ⊢
      rwa [Bool.false_and, String.append_assoc]
    · exact spelled_shortest x
  · exact spelled_shortest x

end

end Number

namespace Source

/-- No line ends within a number. -/
theorem Rule.linesIn_number {text : List UInt8} (h : Rule text .number) : linesIn text = 0 := by
  have notDigit : ¬ isDigit lineFeed = true := by decide
  refine List.count_eq_zero.2 fun member => ?_
  rcases h.number_shape with all | ⟨digits, part, rfl, all, -, all'⟩
  · exact notDigit (all _ member)
  · rcases List.mem_append.1 member with before | behind
    · exact notDigit (all _ before)
    · rcases List.mem_cons.1 behind with point | behind
      · cases point
      · exact notDigit (all' _ behind)

/-- The token of a number. -/
def numeralToken (digits : String) : Token :=
  ⟨.number, digits, some (.number (decimalOf (Utf8.encode digits)).toFloat), 1⟩

/-- The piece of a minus sign. -/
def minusPiece : Piece := ⟨.token .minus, [byte '-']⟩

/-- A minus sign is a token whatever stands behind it. -/
theorem AllMunched.minus {ps : List Piece} (rest : AllMunched ps) :
    AllMunched (minusPiece :: ps) := by
  refine .cons (.token (operator_alone (by decide) ?_ ?_)) rest
  · exact fun slash => absurd slash (by decide)
  · exact fun kinds found => nomatch found


def minusToken : Token := ⟨.minus, "-", none, 1⟩

def semicolonToken : Token := ⟨.semicolon, ";", none, 1⟩

/-- The sign of a number as tokens. -/
def signTokens (negative : Bool) : List Token := if negative = true then [minusToken] else []

def signPieces (negative : Bool) : List Piece := if negative = true then [minusPiece] else []

variable {digits : String}

/-- A number is one item, and behind it the line is the same. -/
theorem itemsFrom_numeral (rule : Rule (Utf8.encode digits) .number) (ps : List Piece) :
    itemsFrom 1 (⟨.token .number, Utf8.encode digits⟩ :: ps) =
      .ok (numeralToken digits) :: itemsFrom 1 ps := by
  have item : itemOf ⟨.token .number, Utf8.encode digits⟩ 1 = some (.ok (numeralToken digits)) := by
    rw [itemOf, Utf8.decode_encode]
    rfl
  rw [itemsFrom, rule.linesIn_number, item]
  rfl

/-- A numeral alone is one token. -/
theorem scan_numeral (rule : Rule (Utf8.encode digits) .number) :
    scan (Utf8.encode digits) = [.ok (numeralToken digits), .ok (Token.eof 1)] := by
  have alone : AllMunched [⟨.token .number, Utf8.encode digits⟩] := .token rule nofun .nil
  have scanned := alone.scan_eq
  rw [itemsFrom_numeral rule] at scanned
  simp only [List.flatMap_cons, List.flatMap_nil, List.append_nil, rule.linesIn_number] at scanned
  exact scanned

/-- The pieces of a signed numeral before a semicolon. -/
def signedPieces (negative : Bool) (digits : String) : List Piece :=
  signPieces negative ++ [⟨.token .number, Utf8.encode digits⟩, ⟨.token .semicolon, [byte ';']⟩]

theorem allMunched_signed (rule : Rule (Utf8.encode digits) .number) (negative : Bool) :
    AllMunched (signedPieces negative digits) := by
  have behind : AllMunched
      [⟨.token .number, Utf8.encode digits⟩, ⟨.token .semicolon, [byte ';']⟩] := by
    refine .token rule ?_ (.token rule_semicolon nofun .nil)
    rintro _ ⟨⟩
    rfl
  cases negative with
  | false => exact behind
  | true => exact behind.minus

theorem flatMap_signedPieces (negative : Bool) (digits : String) :
    (signedPieces negative digits).flatMap Piece.slice =
      Utf8.encode (Number.sign negative ++ digits ++ ";") := by
  have sign : (signPieces negative).flatMap Piece.slice = Utf8.encode (Number.sign negative) := by
    revert negative
    decide +kernel
  have semicolon : Utf8.encode ";" = [byte ';'] := by decide +kernel
  rw [encode_append, encode_append, ← sign, semicolon, signedPieces, List.flatMap_append,
    List.append_assoc]
  rfl

theorem itemsFrom_sign (negative : Bool) (ps : List Piece) :
    itemsFrom 1 (signPieces negative ++ ps) =
      (signTokens negative).map .ok ++ itemsFrom 1 ps := by
  cases negative <;> rfl

/-- The tokens of a signed numeral before a semicolon. -/
theorem scan_signed (rule : Rule (Utf8.encode digits) .number) (negative : Bool) :
    scan (Utf8.encode (Number.sign negative ++ digits ++ ";")) =
      (signTokens negative ++ [numeralToken digits] ++ [semicolonToken] ++ [Token.eof 1]).map
        .ok := by
  have scanned := (allMunched_signed rule negative).scan_eq
  have sign : linesIn ((signPieces negative).flatMap Piece.slice) = 0 := by
    cases negative <;> rfl
  have lines : linesIn ((signedPieces negative digits).flatMap Piece.slice) = 0 := by
    rw [signedPieces, List.flatMap_append, linesIn_append, sign, List.flatMap_cons, linesIn_append,
      rule.linesIn_number]
    rfl
  rw [lines, signedPieces, itemsFrom_sign, itemsFrom_numeral rule, ← signedPieces,
    flatMap_signedPieces] at scanned
  rw [scanned, List.append_assoc, List.append_assoc, List.append_assoc, List.map_append]
  rfl

end Source

open Grammar

/-- The expression that a signed numeral is. -/
def numeralExpr (negative : Bool) (digits : String) : Expr :=
  let magnitude := Expr.constant (.number (decimalOf (Utf8.encode digits)).toFloat)
  if negative = true then .unary minusToken magnitude else magnitude

/-- A signed numeral before a semicolon compiles to one expression. -/
theorem compile_signed {digits : String} (rule : Rule (Utf8.encode digits) .number)
    (negative : Bool) (first : NodeId) :
    compile (Utf8.encode (Number.sign negative ++ digits ++ ";")) first =
      (.ok ⟨[.expression (numeralExpr negative digits)], []⟩, first) := by
  have magnitude : Derives .unary first [numeralToken digits]
      (.constant (.number (decimalOf (Utf8.encode digits)).toFloat)) first :=
    .operatorless (.atom (.constant rfl))
  have value : Derives .expression first (signTokens negative ++ [numeralToken digits])
      (numeralExpr negative digits) first := by
    cases negative with
    | false => exact magnitude.expression_of_unary
    | true => exact (Derives.unary (.inr rfl) magnitude).expression_of_unary
  have noEnd : ∀ t ∈ signTokens negative ++ [numeralToken digits] ++ [semicolonToken],
      (t.kind != .eof) = true := by
    cases negative <;> simp [signTokens, minusToken, numeralToken, semicolonToken]
  have resolved : resolve [.expression (numeralExpr negative digits)] = .ok [] := by
    cases negative <;> rfl
  exact compile_of_statement (scan_signed rule negative) noEnd (.expression (.mk value rfl))
    resolved

open Run

/-- A signed numeral is worth its number, and minus puts the sign in front of it. -/
theorem evaluate_signed (negative : Bool) (digits : String) (steps : Nat) (m : Machine) :
    evaluate (steps + 2) (numeralExpr negative digits) m =
      .ok (.number (if negative = true then -(decimalOf (Utf8.encode digits)).toFloat
        else (decimalOf (Utf8.encode digits)).toFloat)) m := by
  unfold numeralExpr
  generalize (decimalOf (Utf8.encode digits)).toFloat = y
  cases negative with
  | false =>
    dsimp only
    rw [if_neg Bool.false_ne_true, if_neg Bool.false_ne_true, evaluate]
    rfl
  | true =>
    dsimp only
    rw [if_pos rfl, if_pos rfl, evaluate, evaluate]
    rfl

/-- Before a semicolon the text is one expression: a constant, or the unary minus in front of one if
the sign bit of the double is set. Its value is the double on every machine. -/
structure Number.ReadBack (x : Float) (text : String) (e : Expr) : Prop where
  compiled (first : NodeId) :
    compile (Utf8.encode (text ++ ";")) first = (.ok ⟨[.expression e], []⟩, first)
  constant : Number.negative x = false → e = .constant (.number x)
  unary : Number.negative x = true → ∃ operator magnitude,
    operator.kind = .minus ∧ e = .unary operator (.constant (.number magnitude))
  value (steps : Nat) (m : Machine) : evaluate (steps + 2) e m = .ok (.number x) m

theorem Number.Spelled.readBack {x : Float} (finite : x.isFinite = true) {text : String}
    (h : Spelled x text) : ∃ e, ReadBack x text e := by
  obtain ⟨digits, q, rfl, numeral, reads⟩ := h
  -- What the digits are read as is the magnitude, so only the sign is left to be put back.
  have value := Decimal.toFloat_signed finite (numeral.worth.symm ▸ reads)
  refine ⟨numeralExpr (negative x) digits, compile_signed numeral.rule _, ?_, ?_, ?_⟩
  · intro positive
    rw [positive, if_neg Bool.false_ne_true] at value
    rw [positive, ← value]
    rfl
  · intro signed
    rw [signed]
    exact ⟨_, _, rfl, rfl⟩
  · intro steps m
    rw [evaluate_signed, value]

/-- Printed numbers read back. What `print` writes of a finite double, and the prefix form of the
double as a constant, are expressions whose value is the same double, bit for bit. Where the sign
bit is clear, what a token shows of its number is scanned as one token that has the same number. -/
theorem printed_numbers_read_back (x : Float) (finite : x.isFinite = true) :
    (∀ store : Store, ∃ e, Number.ReadBack x (store.text (.number x)) e) ∧
    (∃ e, Number.ReadBack x (Expr.constant (.number x)).prefixText e) ∧
    (x.toBits.toNat < 2 ^ 63 → scan (Utf8.encode (Token.Literal.number x).display) =
      [.ok ⟨.number, (Token.Literal.number x).display, some (.number x), 1⟩,
        .ok (Token.eof 1)]) := by
  refine ⟨fun _ => (Number.spelled_display finite).readBack finite,
    (Number.spelled_prefixForm finite).readBack finite, fun clear => ?_⟩
  obtain ⟨digits, q, text, numeral, reads⟩ := Number.spelled_tokenForm finite clear
  have value := Decimal.toFloat_signed finite (numeral.worth.symm ▸ reads)
  rw [Number.negative_eq_false clear] at text value
  rw [if_neg Bool.false_ne_true] at value
  have unsigned : Number.tokenForm x = digits := text.trans (String.empty_append ..)
  rw [Token.Literal.display, unsigned, scan_numeral numeral.rule, numeralToken, value]

/-- The zero whose sign bit is set, and the double nearest to a tenth. -/
theorem printed_numbers_read_back_zero_and_tenth :
    (∃ e, Number.ReadBack (Float.ofBits 0x8000000000000000) "-0" e) ∧
    (∃ e, Number.ReadBack (Float.ofBits 0x8000000000000000) "-0.0" e) ∧
    scan (Utf8.encode "0.1") =
      [.ok ⟨.number, "0.1", some (.number (Float.ofBits 0x3FB999999999999A)), 1⟩,
        .ok (Token.eof 1)] := by
  obtain ⟨printed, form, -⟩ :=
    printed_numbers_read_back (Float.ofBits 0x8000000000000000) (by decide +kernel)
  obtain ⟨-, -, scanned⟩ :=
    printed_numbers_read_back (Float.ofBits 0x3FB999999999999A) (by decide +kernel)
  have zero : Store.text .empty (.number (Float.ofBits 0x8000000000000000)) = "-0" := by
    decide +kernel
  have zero' : (Expr.constant (.number (Float.ofBits 0x8000000000000000))).prefixText = "-0.0" := by
    decide +kernel
  have tenth : (Token.Literal.number (Float.ofBits 0x3FB999999999999A)).display = "0.1" := by
    decide +kernel
  exact ⟨zero ▸ printed .empty, zero' ▸ form, tenth ▸ scanned (by decide +kernel)⟩

end Treewalk
