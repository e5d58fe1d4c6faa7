import Treewalk.Decimal.Layout
import Treewalk.Proofs.Decimal.Value
import Treewalk.Proofs.Source.Munch

/-!
# Numerals

The texts of digits and of digits around a point are scanned as one number each. Their bytes stand
for the decimal that the digits make up, so a decimal written with all its places is read as what
it is worth.
-/

namespace Treewalk.Source

theorem toNat_byte {c : Char} (ascii : c.toNat < 128) : (byte c).toNat = c.toNat := by
  show (UInt8.ofNat c.toNat).toNat = c.toNat
  exact Utf8.toNat_ofNat_of_lt (by omega)

/-- A text of ASCII characters is one byte for each. -/
theorem encode_ascii {cs : List Char} (ascii : ∀ c ∈ cs, c.toNat < 128) :
    Utf8.encode (String.ofList cs) = cs.map byte := by
  rw [Utf8.encode, String.toList_ofList]
  induction cs with
  | nil => rfl
  | cons c cs ih =>
    have one := Utf8.utf8EncodeChar_ofNat c.toNat (ascii c (.head _))
    rw [Char.ofNat_toNat] at one
    rw [List.flatMap_cons, one, ih fun c' member => ascii c' (.tail _ member)]
    rfl

/-- The characters are digits. -/
def Figures (cs : List Char) : Prop := ∀ c ∈ cs, c.isDigit = true

theorem ascii_of_isDigit {c : Char} (digit : c.isDigit = true) : 48 ≤ c.toNat ∧ c.toNat ≤ 57 := by
  rw [Char.isDigit, Bool.and_eq_true, decide_eq_true_iff, decide_eq_true_iff] at digit
  exact ⟨digit.1, digit.2⟩

theorem isDigit_byte {c : Char} (digit : c.isDigit = true) : isDigit (byte c) = true := by
  obtain ⟨low, high⟩ := ascii_of_isDigit digit
  have value := toNat_byte (c := c) (by omega)
  rw [isDigit, Bool.and_eq_true, decide_eq_true_iff, decide_eq_true_iff, UInt8.le_iff_toNat_le,
    UInt8.le_iff_toNat_le, value]
  exact ⟨low, high⟩

namespace Figures

variable {cs ds : List Char}

theorem append (h : Figures cs) (h' : Figures ds) : Figures (cs ++ ds) := fun c member =>
  (List.mem_append.1 member).elim (h c) (h' c)

theorem toDigits (n : Nat) : Figures (Nat.toDigits 10 n) := fun _ member =>
  Nat.isDigit_of_mem_toDigits (by decide) (by decide) member

theorem zeros (n : Nat) : Figures (List.replicate n '0') := by
  intro c member
  rw [List.eq_of_mem_replicate member]
  rfl

theorem bytes (h : Figures cs) : ∀ b ∈ cs.map byte, isDigit b = true := by
  rw [List.forall_mem_map]
  exact fun c member => isDigit_byte (h c member)

theorem ascii (h : Figures cs) : ∀ c ∈ cs, c.toNat < 128 := fun c member => by
  have := ascii_of_isDigit (h c member)
  omega

/-- The bytes of digits stand for the number that the digits do. -/
theorem foldl_bytes (h : Figures cs) (before : Nat) :
    (cs.map byte).foldl (fun n b => 10 * n + (b.toNat - 48)) before =
      Nat.ofDigitChars 10 cs before := by
  induction cs generalizing before with
  | nil => rfl
  | cons c cs ih =>
    rw [List.map_cons, List.foldl_cons, ih fun c' member => h c' (.tail _ member),
      toNat_byte (h.ascii c (.head _)), Nat.ofDigitChars_cons]
    rfl

end Figures

/-- The text is a number to the scanner, and the number is worth `q`. -/
structure Numeral (text : String) (q : ℚ) : Prop where
  rule : Rule (Utf8.encode text) .number
  worth : (decimalOf (Utf8.encode text)).value = q

/-- A text is worth one rational. -/
theorem Numeral.unique {text : String} {q r : ℚ} (h : Numeral text q) (h' : Numeral text r) :
    q = r := by
  rw [← h.worth, ← h'.worth]

theorem numeral_whole {cs : List Char} (some : cs ≠ []) (h : Figures cs) :
    Numeral (String.ofList cs) (Nat.ofDigitChars 10 cs 0 : Nat) := by
  have text := encode_ascii h.ascii
  have nonempty : cs.map byte ≠ [] := mt List.map_eq_nil_iff.1 some
  obtain ⟨taken, left⟩ := @takeWhile_dropWhile_of isDigit _ [] h.bytes nofun
  rw [List.append_nil] at taken left
  constructor
  · rw [text]
    exact .whole nonempty h.bytes
  · rw [text, decimalOf, taken, left]
    simp only [List.drop_nil, List.append_nil, h.foldl_bytes, Decimal.value, List.length_nil,
      Nat.cast_zero, neg_zero, zpow_zero, mul_one]

theorem numeral_fraction {cs ds : List Char} (some : cs ≠ []) (h : Figures cs) (some' : ds ≠ [])
    (h' : Figures ds) : Numeral (String.ofList (cs ++ '.' :: ds))
      ((Nat.ofDigitChars 10 (cs ++ ds) 0 : Nat) * 10 ^ (-(ds.length : Int))) := by
  have text : Utf8.encode (String.ofList (cs ++ '.' :: ds)) =
      cs.map byte ++ byte '.' :: ds.map byte := by
    rw [encode_ascii, List.map_append, List.map_cons]
    exact List.forall_mem_append.2 ⟨h.ascii, List.forall_mem_cons.2 ⟨by decide, h'.ascii⟩⟩
  have point : ∀ b ∈ (byte '.' :: ds.map byte).head?, isDigit b = false := by
    rintro _ ⟨⟩
    rfl
  obtain ⟨taken, left⟩ := takeWhile_dropWhile_of h.bytes point
  constructor
  · rw [text]
    exact .fraction (mt List.map_eq_nil_iff.1 some) h.bytes (mt List.map_eq_nil_iff.1 some')
      h'.bytes
  · rw [text, decimalOf, taken, left]
    simp only [List.drop_one, List.tail_cons, ← List.map_append, (h.append h').foldl_bytes,
      Decimal.value, List.length_map]

/-- A natural number is written as its digits. -/
theorem numeral_repr (n : Nat) : Numeral (Nat.repr n) n := by
  have numeral := numeral_whole Nat.toDigits_ne_nil (.toDigits n)
  rwa [Nat.ofDigitChars_ten_toDigits] at numeral

/-- Digits with a point and a zero behind them are worth the same. -/
theorem Figures.numeral_point_zero {cs : List Char} (h : Figures cs) (some : cs ≠ []) :
    Numeral (String.ofList cs ++ ".0") (Nat.ofDigitChars 10 cs 0 : Nat) := by
  have zero : ['0'] ≠ [] := List.cons_ne_nil _ _
  have numeral := numeral_fraction some h zero (.zeros 1)
  have text : String.ofList cs ++ ".0" = String.ofList (cs ++ '.' :: ['0']) := by
    rw [String.ofList_append]
  have worth : Nat.ofDigitChars 10 (cs ++ ['0']) 0 = 10 * Nat.ofDigitChars 10 cs 0 := by
    rw [Nat.ofDigitChars_append]
    rfl
  rw [worth] at numeral
  rw [text]
  convert numeral using 1
  rw [List.length_singleton, Nat.cast_one, zpow_neg_one]
  push_cast
  rw [mul_comm, ← mul_assoc, inv_mul_cancel₀ (by norm_num : (10 : ℚ) ≠ 0), one_mul]

/-- A natural number with a point and a zero behind it is worth the same. -/
theorem numeral_repr_point (n : Nat) : Numeral (Nat.repr n ++ ".0") n := by
  have numeral := (Figures.toDigits n).numeral_point_zero Nat.toDigits_ne_nil
  rwa [Nat.ofDigitChars_ten_toDigits] at numeral

namespace Figures

variable {cs : List Char} (h : Figures cs) (some : cs ≠ []) (k : Nat)

include h some

/-- Digits with zeros behind them. -/
theorem numeral_zeros : Numeral (String.ofList (cs ++ List.replicate k '0'))
    ((Nat.ofDigitChars 10 cs 0 : Nat) * 10 ^ k) := by
  have numeral := numeral_whole (List.append_ne_nil_of_left_ne_nil some _) (h.append (.zeros k))
  rw [Nat.ofDigitChars_append, Nat.ofDigitChars_replicate_zero] at numeral
  convert numeral using 1
  rw [Nat.cast_mul, Nat.cast_pow, mul_comm]
  rfl

/-- Digits with a point among them: some are in front of it and some behind. -/
theorem numeral_point (positive : 0 < k) (inside : k < cs.length) :
    Numeral (String.ofList (cs.take (cs.length - k) ++ '.' :: cs.drop (cs.length - k)))
      ((Nat.ofDigitChars 10 cs 0 : Nat) * 10 ^ (-(k : Int))) := by
  generalize split : cs.length - k = whole
  have front : cs.take whole ≠ [] := by
    rw [ne_eq, List.take_eq_nil_iff]
    rintro (none | none)
    · omega
    · exact some none
  have behind : cs.drop whole ≠ [] := by
    rw [ne_eq, List.drop_eq_nil_iff]
    omega
  have numeral := numeral_fraction front (fun c member => h c (List.mem_of_mem_take member))
    behind (fun c member => h c (List.mem_of_mem_drop member))
  have length : (cs.drop whole).length = k := by
    rw [List.length_drop]
    omega
  rwa [List.take_append_drop, length] at numeral

/-- Digits behind a point and zeros. -/
theorem numeral_leading : Numeral (String.ofList ('0' :: '.' :: List.replicate k '0' ++ cs))
    ((Nat.ofDigitChars 10 cs 0 : Nat) * 10 ^ (-((k + cs.length : Nat) : Int))) := by
  have zero : ['0'] ≠ [] := List.cons_ne_nil _ _
  have numeral := numeral_fraction zero (.zeros 1) (List.append_ne_nil_of_right_ne_nil _ some)
    ((Figures.zeros k).append h)
  rwa [Nat.ofDigitChars_append, Nat.ofDigitChars_append, Nat.ofDigitChars_replicate_zero,
    List.length_append, List.length_replicate] at numeral

end Figures

/-- A decimal written with all its places. -/
theorem numeral_positional (d : Decimal) : Numeral d.positional d.value := by
  have figures : Figures d.figures := .toDigits d.digits
  have worth : Nat.ofDigitChars 10 d.figures 0 = d.digits := Nat.ofDigitChars_ten_toDigits
  have some : d.figures ≠ [] := Nat.toDigits_ne_nil
  rw [Decimal.value, ← worth]
  unfold Decimal.positional
  dsimp only
  split
  · next whole =>
    have numeral := figures.numeral_zeros some d.exponent.toNat
    rwa [← zpow_natCast, Int.toNat_of_nonneg whole] at numeral
  · next part =>
    have places : -((-d.exponent).toNat : Int) = d.exponent := by omega
    split
    · next inside =>
      have numeral := figures.numeral_point some _ (by omega) inside
      rwa [places] at numeral
    · next below =>
      have numeral := figures.numeral_leading some ((-d.exponent).toNat - d.figures.length)
      rwa [Nat.sub_add_cancel (Nat.le_of_not_lt below), places] at numeral

end Treewalk.Source
