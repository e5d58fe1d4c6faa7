import Treewalk.Text.Utf8

/-!
# Text as bytes and back

`Utf8.encode` writes text as bytes. The decoder reads every text back that was written so, one
character after the other, and from bytes below 0x80 it reads those characters.
-/

namespace Treewalk.Utf8

/-- The bytes of a text. -/
def encode (s : String) : List UInt8 := s.toList.flatMap String.utf8EncodeChar

/-- The character of a byte below 0x80. -/
def asciiChar (b : UInt8) : Char := Char.ofNat b.toNat

theorem toNat_lt_of_lt {b : UInt8} (h : b < 0x80) : b.toNat < 128 := UInt8.lt_iff_toNat_lt.1 h

/-- Between two characters a byte of at most 0x7F is a character. -/
theorem step_ascii (written : List Char) {b : UInt8} (h : b < 0x80) :
    Decoder.step ⟨written, none⟩ b = ⟨asciiChar b :: written, none⟩ := by
  show Decoder.first written b = _
  rw [Decoder.first, if_pos h]
  rfl

/-- A byte that the character begun asks for, and that does not complete it. -/
theorem step_inside (written : List Char) {p : Pending} {b : UInt8} (low : p.low ≤ b)
    (high : b ≤ p.high) (more : 1 < p.needed) :
    Decoder.step ⟨written, some p⟩ b =
      ⟨written, some ⟨p.needed - 1, 0x80, 0xBF, p.value * 64 + (b.toNat - 0x80)⟩⟩ := by
  simp only [Decoder.step, low, high, and_self, if_true, if_neg (Nat.not_le_of_lt more)]

/-- The last byte of a character. -/
theorem step_last (written : List Char) {p : Pending} {b : UInt8} (low : p.low ≤ b)
    (high : b ≤ p.high) (last : p.needed = 1) :
    Decoder.step ⟨written, some p⟩ b =
      ⟨Char.ofNat (p.value * 64 + (b.toNat - 0x80)) :: written, none⟩ := by
  simp only [Decoder.step, low, high, and_self, if_true, last, Nat.le_refl]

/-- The first byte of a character of several bytes. -/
theorem step_lead (written : List Char) {b : UInt8} {p : Pending} (h : lead b = some p)
    (long : 0x80 ≤ b) : Decoder.step ⟨written, none⟩ b = ⟨written, some p⟩ := by
  show Decoder.first written b = _
  rw [Decoder.first, if_neg (UInt8.not_lt.2 long), h]

theorem toNat_ofNat_of_lt {n : Nat} (h : n < 256) : (UInt8.ofNat n).toNat = n := by
  rw [UInt8.toNat_ofNat', Nat.mod_eq_of_lt h]

theorem le_ofNat {m n : Nat} (h : n < 256) (le : m ≤ n) : UInt8.ofNat m ≤ UInt8.ofNat n := by
  rw [UInt8.le_iff_toNat_le, toNat_ofNat_of_lt h, toNat_ofNat_of_lt (Nat.lt_of_le_of_lt le h)]
  exact le

theorem lt_ofNat {m n : Nat} (h : n < 256) (lt : m < n) : UInt8.ofNat m < UInt8.ofNat n := by
  rw [UInt8.lt_iff_toNat_lt, toNat_ofNat_of_lt h, toNat_ofNat_of_lt (Nat.lt_trans lt h)]
  exact lt

theorem ofNat_eq_iff {m n : Nat} (hm : m < 256) (hn : n < 256) :
    UInt8.ofNat n = UInt8.ofNat m ↔ n = m := by
  rw [← UInt8.toNat_inj, toNat_ofNat_of_lt hn, toNat_ofNat_of_lt hm]

/-- A continuation byte with these six bits. -/
theorem continuation {k : Nat} (h : k < 64) :
    0x80 ≤ UInt8.ofNat (k + 128) ∧ UInt8.ofNat (k + 128) ≤ 0xBF ∧
      (UInt8.ofNat (k + 128)).toNat - 0x80 = k := by
  have size : k + 128 < 256 := by omega
  refine ⟨le_ofNat (m := 0x80) size (by omega), le_ofNat (n := 0xBF) (by decide) (by omega), ?_⟩
  rw [toNat_ofNat_of_lt size]
  omega

theorem lead_two {k : Nat} (low : 2 ≤ k) (high : k < 32) :
    lead (UInt8.ofNat (k + 192)) = some ⟨1, 0x80, 0xBF, k⟩ := by
  have size : k + 192 < 256 := by omega
  have notLess : ¬ UInt8.ofNat (k + 192) < 0xC2 :=
    UInt8.not_lt.2 (le_ofNat (m := 0xC2) size (by omega))
  have less : UInt8.ofNat (k + 192) < 0xE0 := lt_ofNat (n := 0xE0) (by decide) (by omega)
  rw [lead, if_neg notLess, if_pos less, toNat_ofNat_of_lt size]
  rw [Nat.add_sub_cancel]

theorem lead_three {k : Nat} (high : k < 16) :
    lead (UInt8.ofNat (k + 224)) =
      some ⟨2, if k = 0 then 0xA0 else 0x80, if k = 13 then 0x9F else 0xBF, k⟩ := by
  have size : k + 224 < 256 := by omega
  have notLess : ¬ UInt8.ofNat (k + 224) < 0xC2 :=
    UInt8.not_lt.2 (le_ofNat (m := 0xC2) size (by omega))
  have notLess' : ¬ UInt8.ofNat (k + 224) < 0xE0 :=
    UInt8.not_lt.2 (le_ofNat (m := 0xE0) size (by omega))
  have less : UInt8.ofNat (k + 224) < 0xF0 := lt_ofNat (n := 0xF0) (by decide) (by omega)
  have first : UInt8.ofNat (k + 224) = 0xE0 ↔ k = 0 := by
    refine (ofNat_eq_iff (m := 0xE0) (by decide) size).trans ?_
    omega
  have surrogates : UInt8.ofNat (k + 224) = 0xED ↔ k = 13 := by
    refine (ofNat_eq_iff (m := 0xED) (by decide) size).trans ?_
    omega
  rw [lead, if_neg notLess, if_neg notLess', if_pos less, toNat_ofNat_of_lt size]
  simp only [first, surrogates]
  rw [Nat.add_sub_cancel]

theorem lead_four {k : Nat} (high : k < 5) :
    lead (UInt8.ofNat (k + 240)) =
      some ⟨3, if k = 0 then 0x90 else 0x80, if k = 4 then 0x8F else 0xBF, k⟩ := by
  have size : k + 240 < 256 := by omega
  have notLess : ¬ UInt8.ofNat (k + 240) < 0xC2 :=
    UInt8.not_lt.2 (le_ofNat (m := 0xC2) size (by omega))
  have notLess' : ¬ UInt8.ofNat (k + 240) < 0xE0 :=
    UInt8.not_lt.2 (le_ofNat (m := 0xE0) size (by omega))
  have notLess'' : ¬ UInt8.ofNat (k + 240) < 0xF0 :=
    UInt8.not_lt.2 (le_ofNat (m := 0xF0) size (by omega))
  have less : UInt8.ofNat (k + 240) < 0xF5 := lt_ofNat (n := 0xF5) (by decide) (by omega)
  have first : UInt8.ofNat (k + 240) = 0xF0 ↔ k = 0 := by
    refine (ofNat_eq_iff (m := 0xF0) (by decide) size).trans ?_
    omega
  have last : UInt8.ofNat (k + 240) = 0xF4 ↔ k = 4 := by
    refine (ofNat_eq_iff (m := 0xF4) (by decide) size).trans ?_
    omega
  rw [lead, if_neg notLess, if_neg notLess', if_neg notLess'', if_pos less,
    toNat_ofNat_of_lt size]
  simp only [first, last]
  rw [Nat.add_sub_cancel]

/-- A character of three bytes: its second byte is in the range that its first one asks for, as it
is no surrogate and needs no less than three. -/
theorem second_three {v : Nat} (low : 2047 < v) (high : v ≤ 65535)
    (scalar : v < 0xD800 ∨ 0xDFFF < v) :
    (if v / 4096 = 0 then (0xA0 : UInt8) else 0x80) ≤ UInt8.ofNat (v / 64 % 64 + 128) ∧
      UInt8.ofNat (v / 64 % 64 + 128) ≤ if v / 4096 = 13 then (0x9F : UInt8) else 0xBF := by
  have size : v / 64 % 64 + 128 < 256 := by omega
  constructor
  · split
    · exact le_ofNat (m := 0xA0) size (by omega)
    · exact le_ofNat (m := 0x80) size (by omega)
  · split
    · exact le_ofNat (n := 0x9F) (by decide) (by omega)
    · exact le_ofNat (n := 0xBF) (by decide) (by omega)

/-- The second byte of a character of four bytes, likewise. -/
theorem second_four {v : Nat} (low : 65535 < v) (high : v < 0x110000) :
    (if v / 262144 = 0 then (0x90 : UInt8) else 0x80) ≤ UInt8.ofNat (v / 4096 % 64 + 128) ∧
      UInt8.ofNat (v / 4096 % 64 + 128) ≤ if v / 262144 = 4 then (0x8F : UInt8) else 0xBF := by
  have size : v / 4096 % 64 + 128 < 256 := by omega
  constructor
  · split
    · exact le_ofNat (m := 0x90) size (by omega)
    · exact le_ofNat (m := 0x80) size (by omega)
  · split
    · exact le_ofNat (n := 0x8F) (by decide) (by omega)
    · exact le_ofNat (n := 0xBF) (by decide) (by omega)

theorem scalar_of_char (c : Char) :
    c.toNat < 0xD800 ∨ 0xDFFF < c.toNat ∧ c.toNat < 0x110000 := c.valid

/-- The bytes of a character are read as that character. -/
theorem foldl_step_encodeChar (written : List Char) (c : Char) :
    (String.utf8EncodeChar c).foldl Decoder.step ⟨written, none⟩ = ⟨c :: written, none⟩ := by
  have scalar := scalar_of_char c
  have value : Char.ofNat c.toNat = c := Char.ofNat_toNat c
  have same : c.val.toNat = c.toNat := rfl
  generalize c.toNat = v at scalar value same
  unfold String.utf8EncodeChar
  simp only [same]
  split
  · next one =>
    have size : v < 256 := by omega
    rw [List.foldl_cons, List.foldl_nil, step_ascii _ (lt_ofNat (n := 0x80) (by decide) (by omega)),
      asciiChar, toNat_ofNat_of_lt size, value]
  split
  · next more two =>
    obtain ⟨low, high, bits⟩ := continuation (Nat.mod_lt v (by decide : 64 > 0))
    have begun := lead_two (k := v / 64 % 32) (by omega) (by omega)
    have long : (0x80 : UInt8) ≤ UInt8.ofNat (v / 64 % 32 + 192) :=
      le_ofNat (m := 0x80) (by omega) (by omega)
    have sum : v / 64 % 32 * 64 + v % 64 = v := by omega
    rw [List.foldl_cons, step_lead _ begun long, List.foldl_cons, step_last _ low high rfl, bits,
      List.foldl_nil, sum, value]
  split
  · next more more' three =>
    obtain ⟨low, high, bits⟩ := continuation (Nat.mod_lt v (by decide : 64 > 0))
    obtain ⟨low', high'⟩ := second_three (v := v) (by omega) (by omega) (by omega)
    have bits' := (continuation (Nat.mod_lt (v / 64) (by decide : 64 > 0))).2.2
    have whole : v / 4096 % 16 = v / 4096 := by omega
    have begun := lead_three (k := v / 4096) (by omega)
    have long : (0x80 : UInt8) ≤ UInt8.ofNat (v / 4096 + 224) :=
      le_ofNat (m := 0x80) (by omega) (by omega)
    have sum : (v / 4096 * 64 + v / 64 % 64) * 64 + v % 64 = v := by omega
    rw [whole, List.foldl_cons, step_lead _ begun long, List.foldl_cons,
      step_inside _ low' high' (show 1 < 2 by decide), bits', List.foldl_cons,
      step_last _ low high rfl, bits, List.foldl_nil, sum, value]
  · next more more' more'' =>
    obtain ⟨low, high, bits⟩ := continuation (Nat.mod_lt v (by decide : 64 > 0))
    obtain ⟨low', high', bits'⟩ := continuation (Nat.mod_lt (v / 64) (by decide : 64 > 0))
    obtain ⟨low'', high''⟩ := second_four (v := v) (by omega) (by omega)
    have bits'' := (continuation (Nat.mod_lt (v / 4096) (by decide : 64 > 0))).2.2
    have whole : v / 262144 % 8 = v / 262144 := by omega
    have begun := lead_four (k := v / 262144) (by omega)
    have long : (0x80 : UInt8) ≤ UInt8.ofNat (v / 262144 + 240) :=
      le_ofNat (m := 0x80) (by omega) (by omega)
    have sum : ((v / 262144 * 64 + v / 4096 % 64) * 64 + v / 64 % 64) * 64 + v % 64 = v := by omega
    rw [whole, List.foldl_cons, step_lead _ begun long, List.foldl_cons,
      step_inside _ low'' high'' (show 1 < 3 by decide), bits'', List.foldl_cons,
      step_inside _ low' high' (show 1 < 2 by decide), bits', List.foldl_cons,
      step_last _ low high rfl, bits, List.foldl_nil, sum, value]

theorem foldl_step_encode (written cs : List Char) :
    (cs.flatMap String.utf8EncodeChar).foldl Decoder.step ⟨written, none⟩ =
      ⟨cs.reverse ++ written, none⟩ := by
  induction cs generalizing written with
  | nil => rfl
  | cons c cs ih =>
    rw [List.flatMap_cons, List.foldl_append, foldl_step_encodeChar, ih, List.reverse_cons,
      List.append_assoc]
    rfl

/-- What is written as bytes is read back. -/
theorem decode_encode (s : String) : decode (encode s) = s := by
  rw [decode, encode, foldl_step_encode, Decoder.finish, List.append_nil, List.reverse_reverse,
    String.ofList_toList]

theorem foldl_step_ascii (written : List Char) {bytes : List UInt8} (h : ∀ b ∈ bytes, b < 0x80) :
    bytes.foldl Decoder.step ⟨written, none⟩ =
      ⟨(bytes.map asciiChar).reverse ++ written, none⟩ := by
  induction bytes generalizing written with
  | nil => rfl
  | cons b bytes ih =>
    rw [List.foldl_cons, step_ascii written (h b (.head _)),
      ih _ fun b' member => h b' (.tail _ member), List.map_cons, List.reverse_cons,
      List.append_assoc]
    rfl

/-- Bytes below 0x80 are read as one character each. -/
theorem decode_ascii {bytes : List UInt8} (h : ∀ b ∈ bytes, b < 0x80) :
    decode bytes = String.ofList (bytes.map asciiChar) := by
  rw [decode, foldl_step_ascii [] h, Decoder.finish, List.append_nil, List.reverse_reverse]

theorem utf8EncodeChar_ofNat :
    ∀ n < 128, String.utf8EncodeChar (Char.ofNat n) = [UInt8.ofNat n] := by
  decide +kernel

/-- Bytes below 0x80 are written back from the text that they are read as. -/
theorem encode_decode {bytes : List UInt8} (h : ∀ b ∈ bytes, b < 0x80) :
    encode (decode bytes) = bytes := by
  rw [decode_ascii h, encode, String.toList_ofList]
  induction bytes with
  | nil => rfl
  | cons b bytes ih =>
    have one := utf8EncodeChar_ofNat b.toNat (toNat_lt_of_lt (h b (.head _)))
    rw [UInt8.ofNat_toNat] at one
    rw [List.map_cons, List.flatMap_cons, ih fun b' member => h b' (.tail _ member), asciiChar, one]
    rfl

/-- A byte below 0x80 stands only for its own character. -/
theorem asciiChar_of_mem {c : Char} {b : UInt8} (member : b ∈ String.utf8EncodeChar c)
    (ascii : b < 0x80) : asciiChar b = c := by
  have long : ∀ {n : Nat}, n < 256 → 128 ≤ n → b ≠ UInt8.ofNat n := by
    rintro n size high rfl
    exact UInt8.not_lt.2 (le_ofNat (m := 0x80) size high) ascii
  have value : Char.ofNat c.toNat = c := Char.ofNat_toNat c
  have same : c.val.toNat = c.toNat := rfl
  generalize c.toNat = v at value same
  unfold String.utf8EncodeChar at member
  simp only [same] at member
  split at member
  · have size : v < 256 := by omega
    rw [List.mem_singleton.1 member, asciiChar, toNat_ofNat_of_lt size, value]
  exfalso
  revert member
  split
  · simp only [List.mem_cons, List.not_mem_nil, or_false, imp_false, not_or]
    exact ⟨long (by omega) (by omega), long (by omega) (by omega)⟩
  split
  · simp only [List.mem_cons, List.not_mem_nil, or_false, imp_false, not_or]
    exact ⟨long (by omega) (by omega), long (by omega) (by omega), long (by omega) (by omega)⟩
  · simp only [List.mem_cons, List.not_mem_nil, or_false, imp_false, not_or]
    exact ⟨long (by omega) (by omega), long (by omega) (by omega), long (by omega) (by omega),
      long (by omega) (by omega)⟩

end Treewalk.Utf8
