/-!
# Bytes as text

`Utf8.decode` reads bytes as UTF-8 and never fails: the longest beginning of a character that the
next byte breaks off becomes one replacement character. The decoder takes one byte at a time and
remembers what the character it is in still needs.
-/

namespace Treewalk.Utf8

/-- The character that stands for bytes that are not text. -/
def replacement : Char := '\uFFFD'

/-- A character that has begun: how many bytes it still needs, the range of the next one, and the
bits read so far. -/
structure Pending where
  needed : Nat
  low : UInt8
  high : UInt8
  value : Nat
deriving Repr, DecidableEq

/-- The characters read so far, newest first, and the one that has begun. -/
structure Decoder where
  written : List Char
  pending : Option Pending
deriving Repr, DecidableEq

/-- What the first byte of a character of two to four bytes asks for. The ranges leave out the
spellings that are too long, the surrogates, and what lies beyond the last character. -/
def lead (b : UInt8) : Option Pending :=
  if b < 0xC2 then none
  else if b < 0xE0 then some ⟨1, 0x80, 0xBF, b.toNat - 0xC0⟩
  else if b < 0xF0 then
    some ⟨2, if b = 0xE0 then 0xA0 else 0x80, if b = 0xED then 0x9F else 0xBF, b.toNat - 0xE0⟩
  else if b < 0xF5 then
    some ⟨3, if b = 0xF0 then 0x90 else 0x80, if b = 0xF4 then 0x8F else 0xBF, b.toNat - 0xF0⟩
  else none

/-- A byte between two characters. -/
def Decoder.first (written : List Char) (b : UInt8) : Decoder :=
  if b < 0x80 then ⟨Char.ofNat b.toNat :: written, none⟩
  else
    match lead b with
    | some pending => ⟨written, some pending⟩
    | none => ⟨replacement :: written, none⟩

/-- The next byte. -/
def Decoder.step (d : Decoder) (b : UInt8) : Decoder :=
  match d.pending with
  | none => Decoder.first d.written b
  | some p =>
    if p.low ≤ b ∧ b ≤ p.high then
      let value := p.value * 64 + (b.toNat - 0x80)
      if p.needed ≤ 1 then ⟨Char.ofNat value :: d.written, none⟩
      else ⟨d.written, some ⟨p.needed - 1, 0x80, 0xBF, value⟩⟩
    else Decoder.first (replacement :: d.written) b

/-- The characters of a decoder whose input has ended. -/
def Decoder.finish (d : Decoder) : List Char :=
  match d.pending with
  | none => d.written.reverse
  | some _ => (replacement :: d.written).reverse

/-- The text of the bytes. -/
def decode (bytes : List UInt8) : String :=
  String.ofList (bytes.foldl Decoder.step ⟨[], none⟩).finish

/-- The bytes are the encoding of some text. -/
def valid (bytes : List UInt8) : Bool :=
  let d := bytes.foldl Decoder.step ⟨[], none⟩
  d.finish.flatMap String.utf8EncodeChar == bytes

end Treewalk.Utf8
