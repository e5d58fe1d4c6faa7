import Treewalk.Token.Scan

/-!
# Scanning one item at a time

A `Reader` yields the items of a source one by one: each call cuts pieces off until one of them has
an item. The call that finds nothing left yields the token of the end, and later ones nothing.
-/

namespace Treewalk

namespace Source

/-- The bytes that are left, or none if the end has been told, and the line on which they begin. -/
structure Reader where
  rest : Option (List UInt8)
  line : Nat
deriving Repr, DecidableEq

namespace Reader

/-- Before the first byte. -/
def start (source : List UInt8) : Reader := ⟨some source, 1⟩

/-- Cuts pieces off, the first on `line`, until one has an item. -/
def advance (line : Nat) : List UInt8 → Item × Reader
  | [] => (.ok (Token.eof line), ⟨none, line⟩)
  | b :: rest =>
    let piece : Piece := ⟨(cut b rest).1, b :: (cut b rest).2.1⟩
    let last := line + linesIn piece.slice
    match itemOf piece last with
    | some item => (item, ⟨some (cut b rest).2.2, last⟩)
    | none => advance last (cut b rest).2.2
termination_by source => source.length
decreasing_by exact Nat.lt_succ_of_le (length_cut_le b rest)

/-- The next item, if the end has not been told. -/
def next (r : Reader) : Option Item × Reader :=
  match r.rest with
  | none => (none, r)
  | some source => ((advance r.line source).1, (advance r.line source).2)

/-- What the call yields that follows `k` others. -/
def call (r : Reader) : Nat → Option Item
  | 0 => r.next.1
  | k + 1 => r.next.2.call k

end Reader

end Source

end Treewalk
