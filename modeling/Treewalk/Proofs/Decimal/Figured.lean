import Treewalk.Number
import Treewalk.Proofs.Decimal.Numeral
import Treewalk.Proofs.Decimal.ReadBack
import Treewalk.Proofs.Source.Characters
import Treewalk.Proofs.Text.Apart

/-!
# Texts that determine a double

A numeral with a power of ten behind it is worth one rational, whichever way it is written. Behind
the sign of a finite double stands such a text of a rational that is read as the magnitude of the
double; so two finite doubles with one text are the same double. In JSON all finite doubles are
written so, and a mark in the text tells it from the digits of a natural number.
-/

namespace Treewalk

namespace Source

theorem isDigit_asciiChar {b : UInt8} (digit : isDigit b = true) :
    (Utf8.asciiChar b).isDigit = true :=
  forall_byte (p := fun b => isDigit b = true → (Utf8.asciiChar b).isDigit = true)
    (by decide +kernel) b digit

/-- A number begins with a digit, and behind it stand digits and perhaps a point. -/
theorem Rule.number_opens {text : List UInt8} (h : Rule text .number) :
    ∃ b bytes, text = b :: bytes ∧ isDigit b = true ∧
      ∀ c ∈ bytes, isDigit c = true ∨ c = byte '.' := by
  cases text with
  | nil => exact absurd rfl h.ne_nil
  | cons b bytes =>
    rcases h.number_shape with all | ⟨digits, part, same, all, -, all'⟩
    · exact ⟨b, bytes, rfl, all b (.head _), fun c member => .inl (all c (.tail _ member))⟩
    · have every : ∀ c ∈ b :: bytes, isDigit c = true ∨ c = byte '.' := by
        rw [same]
        intro c member
        rcases List.mem_append.1 member with whole | part
        · exact .inl (all c whole)
        rcases List.mem_cons.1 part with point | part
        · exact .inr point
        · exact .inl (all' c part)
      refine ⟨b, bytes, rfl, ?_, fun c member => every c (.tail _ member)⟩
      rcases every b (.head _) with digit | rfl
      · exact digit
      · have operator := h.of_other (by decide) (by decide) (by decide)
        exact absurd rfl (operators_kind _ operator)

/-- The characters of a numeral. -/
theorem Numeral.figures {text : String} {q : ℚ} (h : Numeral text q) :
    ∃ c cs, text.toList = c :: cs ∧ c.isDigit = true ∧ ∀ d ∈ cs, d.isDigit = true ∨ d = '.' := by
  obtain ⟨b, bytes, same, digit, others⟩ := h.rule.number_opens
  have characters := congrArg String.toList (Utf8.decode_ascii (h.rule.ascii (by decide)))
  rw [Utf8.decode_encode, same, String.toList_ofList, List.map_cons] at characters
  refine ⟨_, _, characters, isDigit_asciiChar digit, List.forall_mem_map.2 fun c member => ?_⟩
  rcases others c member with digit | rfl
  · exact .inl (isDigit_asciiChar digit)
  · exact .inr (by decide)

end Source

namespace Number

/-- The text of a power of ten: none, or an exponent with its sign. -/
inductive Exponent : List Char → Int → Prop
  | none : Exponent [] 0
  | up (n : Nat) : Exponent ('e' :: '+' :: Nat.toDigits 10 n) n
  | down (n : Nat) : Exponent ('e' :: '-' :: Nat.toDigits 10 n) (-n)

theorem toDigits_inj {m n : Nat} (same : Nat.toDigits 10 m = Nat.toDigits 10 n) : m = n := by
  have read := congrArg (Nat.ofDigitChars 10 · 0) same
  simpa only [Nat.ofDigitChars_ten_toDigits] using read

theorem toList_repr (n : Nat) : (Nat.repr n).toList = Nat.toDigits 10 n := String.toList_ofList

theorem Exponent.unique {cs : List Char} {k l : Int} (h : Exponent cs k) (h' : Exponent cs l) :
    k = l := by
  generalize same : cs = cs' at h'
  cases h <;> cases h' <;> simp only [List.cons.injEq, reduceCtorEq, true_and] at same
  · rfl
  · rw [toDigits_inj same]
  · exact absurd same.1 (by decide)
  · exact absurd same.1 (by decide)
  · rw [toDigits_inj same]

theorem Exponent.ended {cs : List Char} {k : Int} (h : Exponent cs k) : Text.Ended ['e'] cs := by
  cases h with
  | none => exact .nil
  | up n => exact .cons (.head _) _
  | down n => exact .cons (.head _) _

/-- A numeral and a power of ten that together are worth `q`. -/
def Figured (cs : List Char) (q : ℚ) : Prop :=
  ∃ mantissa m power k, cs = mantissa.toList ++ power ∧ Source.Numeral mantissa m ∧
    Exponent power k ∧ q = m * 10 ^ k

/-- The characters that numbers are written with. -/
def isFigure (c : Char) : Bool := c.isDigit || ['.', 'e', '+', '-'].contains c

theorem isFigure_of_isDigit {c : Char} (digit : c.isDigit = true) : isFigure c = true := by
  rw [isFigure, digit, Bool.true_or]

theorem ne_of_isFigure {c d : Char} (figure : isFigure c = true) (other : isFigure d = false) :
    c ≠ d := by
  rintro rfl
  rw [figure] at other
  cases other

theorem not_mem_of_isFigure {c : Char} (figure : isFigure c = true) {marks : List Char}
    (others : ∀ d ∈ marks, isFigure d = false) : c ∉ marks :=
  fun member => ne_of_isFigure figure (others c member) rfl

namespace Figured

variable {cs : List Char} {q r : ℚ}

theorem of_numeral {text : String} (h : Source.Numeral text q) : Figured text.toList q := by
  refine ⟨text, q, [], 0, ?_, h, .none, ?_⟩
  · rw [List.append_nil]
  · rw [zpow_zero, mul_one]

theorem unique (h : Figured cs q) (h' : Figured cs r) : q = r := by
  obtain ⟨mantissa, m, power, k, rfl, numeral, exponent, rfl⟩ := h
  obtain ⟨mantissa', m', power', k', same, numeral', exponent', rfl⟩ := h'
  -- A numeral has no `e`, so the text splits into mantissa and power in one way.
  have plain {text : String} {q : ℚ} (h : Source.Numeral text q) :
      ∀ c ∈ text.toList, c ∉ ['e'] := by
    obtain ⟨d, ds, shape, digit, others⟩ := h.figures
    rw [shape]
    intro c member marked
    obtain rfl := List.mem_singleton.1 marked
    rcases List.mem_cons.1 member with rfl | member
    · cases digit
    · rcases others _ member with digit | point
      · cases digit
      · exact absurd point (by decide)
  obtain ⟨mantissas, rfl⟩ :=
    Text.run_append (plain numeral) (plain numeral') exponent.ended exponent'.ended same
  obtain rfl := String.toList_inj.1 mantissas
  rw [exponent.unique exponent', numeral.unique numeral']

theorem opens (h : Figured cs q) : ∃ c rest, cs = c :: rest ∧ c.isDigit = true := by
  obtain ⟨mantissa, m, power, k, rfl, numeral, -, -⟩ := h
  obtain ⟨c, others, shape, digit, -⟩ := numeral.figures
  rw [shape]
  exact ⟨c, _, rfl, digit⟩

theorem all (h : Figured cs q) : ∀ c ∈ cs, isFigure c = true := by
  obtain ⟨mantissa, m, power, k, rfl, numeral, exponent, -⟩ := h
  obtain ⟨d, ds, shape, digit, others⟩ := numeral.figures
  have digits (n : Nat) : ∀ c ∈ Nat.toDigits 10 n, isFigure c = true :=
    fun c member => isFigure_of_isDigit (Source.Figures.toDigits n c member)
  rw [shape, List.forall_mem_append, List.forall_mem_cons]
  refine ⟨⟨isFigure_of_isDigit digit, fun c member => ?_⟩, ?_⟩
  · rcases others c member with digit | rfl
    · exact isFigure_of_isDigit digit
    · rfl
  · cases exponent with
    | none => nofun
    | up n => exact List.forall_mem_cons.2 ⟨rfl, List.forall_mem_cons.2 ⟨rfl, digits n⟩⟩
    | down n => exact List.forall_mem_cons.2 ⟨rfl, List.forall_mem_cons.2 ⟨rfl, digits n⟩⟩

/-- What the text is worth is a decimal. -/
theorem decimal (h : Figured cs q) : ∃ d : Decimal, d.value = q := by
  obtain ⟨mantissa, m, power, k, -, numeral, -, rfl⟩ := h
  refine ⟨⟨(Source.decimalOf (Utf8.encode mantissa)).digits,
    (Source.decimalOf (Utf8.encode mantissa)).exponent + k⟩, ?_⟩
  rw [← numeral.worth, Decimal.value, Decimal.value, zpow_add₀ (by norm_num), mul_assoc]

end Figured

/-- The text is the sign of the double and figures that are read as its magnitude. -/
def Written (x : Float) (text : String) : Prop :=
  ∃ cs q, text.toList = (sign (negative x)).toList ++ cs ∧ Figured cs q ∧ (magnitude x).Reads q

/-- The text of a number is not empty, and all its characters are figures. -/
theorem Written.all {x : Float} {text : String} (h : Written x text) :
    ∃ c cs, text.toList = c :: cs ∧ (c.isDigit = true ∨ c = '-') ∧
      ∀ d ∈ c :: cs, isFigure d = true := by
  obtain ⟨figures, q, same, figured, -⟩ := h
  obtain ⟨c, cs, opening, digit⟩ := figured.opens
  have every := figured.all
  rw [opening] at same every
  rw [same]
  cases negative x with
  | false => exact ⟨c, cs, rfl, .inl digit, every⟩
  | true => exact ⟨'-', c :: cs, rfl, .inr rfl, List.forall_mem_cons.2 ⟨rfl, every⟩⟩

/-- A digit is no minus sign, so the sign of what begins with a digit is seen. -/
theorem sign_append {a b : Bool} {cs ds : List Char}
    (opens : ∃ c rest, cs = c :: rest ∧ c.isDigit = true)
    (opens' : ∃ d rest, ds = d :: rest ∧ d.isDigit = true)
    (same : (sign a).toList ++ cs = (sign b).toList ++ ds) : a = b ∧ cs = ds := by
  obtain ⟨c, rest, rfl, digit⟩ := opens
  obtain ⟨d, rest', rfl, digit'⟩ := opens'
  have minus : ¬ '-'.isDigit = true := by decide
  cases a <;> cases b
  · exact ⟨rfl, same⟩
  · have first : c = '-' := (List.cons.inj same).1
    rw [first] at digit
    exact absurd digit minus
  · have first : '-' = d := (List.cons.inj same).1
    rw [← first] at digit'
    exact absurd digit' minus
  · have behind : '-' :: c :: rest = '-' :: d :: rest' := same
    exact ⟨rfl, (List.cons.inj behind).2⟩

/-- Two finite doubles with one text are one. -/
theorem Written.eq {x y : Float} {text : String} (finite : x.isFinite = true)
    (finite' : y.isFinite = true) (h : Written x text) (h' : Written y text) : x = y := by
  obtain ⟨cs, q, same, figured, reads⟩ := h
  obtain ⟨ds, r, same', figured', reads'⟩ := h'
  obtain ⟨signs, rfl⟩ := sign_append figured.opens figured'.opens (same.symm.trans same')
  obtain rfl := figured.unique figured'
  obtain ⟨d, rfl⟩ := figured.decimal
  calc x = if negative x = true then -d.toFloat else d.toFloat :=
        (Decimal.toFloat_signed finite reads).symm
    _ = if negative y = true then -d.toFloat else d.toFloat := by rw [signs]
    _ = y := Decimal.toFloat_signed finite' reads'

/-- A decimal with an exponent: the point stands behind the first digit. -/
theorem figured_scientific (d : Decimal) : Figured d.scientific.toList d.value := by
  have figures : Source.Figures d.figures := .toDigits d.digits
  have worth : Nat.ofDigitChars 10 d.figures 0 = d.digits := Nat.ofDigitChars_ten_toDigits
  have power : Exponent (if 0 ≤ d.order then "e+" ++ Nat.repr d.order.toNat
      else "e-" ++ Nat.repr (-d.order).toNat).toList d.order := by
    split
    · next up =>
      have exponent := Exponent.up d.order.toNat
      rw [Int.toNat_of_nonneg up] at exponent
      rw [String.toList_append, toList_repr]
      exact exponent
    · next down =>
      have exponent := Exponent.down (-d.order).toNat
      rw [Int.toNat_of_nonneg (by omega), neg_neg] at exponent
      rw [String.toList_append, toList_repr]
      exact exponent
  unfold Decimal.scientific
  dsimp only
  split
  · next none => exact absurd none Nat.toDigits_ne_nil
  · next figure alone =>
    rw [alone] at figures worth
    refine ⟨_, _, _, d.order, String.toList_append,
      Source.numeral_whole (List.cons_ne_nil _ _) figures, power, ?_⟩
    · rw [worth, Decimal.value, Decimal.order, alone, List.length_singleton]
      congr 2
      omega
  · next figure rest some shape =>
    rw [shape] at figures worth
    have first : Source.Figures [figure] := List.forall_mem_singleton.2 (figures _ (.head _))
    have others : Source.Figures rest := fun c member => figures c (.tail _ member)
    refine ⟨_, _, _, d.order, String.toList_append,
      Source.numeral_fraction (List.cons_ne_nil _ _) first some others, power, ?_⟩
    · have length : d.exponent = -(rest.length : Int) + d.order := by
        rw [Decimal.order, shape, List.length_cons]
        omega
      rw [List.singleton_append, worth, Decimal.value, mul_assoc, ← zpow_add₀ (by norm_num), length]

theorem figured_jsonDecimal (d : Decimal) : Figured (jsonDecimal d).toList d.value := by
  unfold jsonDecimal
  split
  · split
    · next whole =>
      -- Zeros stand for the power, and one more of them behind the point.
      have digits : Source.Figures (d.figures ++ List.replicate d.exponent.toNat '0') :=
        .append (.toDigits d.digits) (.zeros _)
      have some : d.figures ++ List.replicate d.exponent.toNat '0' ≠ [] :=
        List.append_ne_nil_of_left_ne_nil Nat.toDigits_ne_nil _
      have text : d.positional =
          String.ofList (d.figures ++ List.replicate d.exponent.toNat '0') := by
        rw [Decimal.positional, if_pos whole]
      have worth := Source.numeral_positional d
      rw [text] at worth ⊢
      rw [worth.unique (Source.numeral_whole some digits)]
      exact .of_numeral (digits.numeral_point_zero some)
    · exact .of_numeral (Source.numeral_positional d)
  · exact figured_scientific d

/-- A double in JSON has a point or an exponent, which the digits of a natural number have not. -/
theorem marked_jsonDecimal (d : Decimal) : ∃ c ∈ (jsonDecimal d).toList, c.isDigit = false := by
  unfold jsonDecimal
  split
  · split
    · exact ⟨'.', by simp, rfl⟩
    · next part =>
      refine ⟨'.', ?_, rfl⟩
      unfold Decimal.positional
      dsimp only
      rw [if_neg part]
      split <;> simp
  · refine ⟨'e', ?_, rfl⟩
    unfold Decimal.scientific
    dsimp only
    split <;> split <;> simp

theorem json_of_finite {x : Float} (finite : x.isFinite = true) :
    json x = sign (negative x) ++ jsonDecimal ((magnitude x).shortest .toEven) := by
  rw [json, Reading.of_finite finite]

theorem written_json {x : Float} (finite : x.isFinite = true) : Written x (json x) := by
  rw [json_of_finite finite]
  exact ⟨_, _, String.toList_append, figured_jsonDecimal _, Binary.reads_shortest _ _⟩

end Number

end Treewalk
