/-!
# Where a program prints

A `Sink` takes one written text after the other, and may refuse: a policy says why a text is refused
after what has been taken so far. A text comes in fragments, and each of them is taken whole or not
at all; so of a text that is refused the beginning may have been taken, up to the fragment that was
refused. A sink is a value, so that a run is a function of what its sink does.
-/

namespace Treewalk

/-- What a sink has taken: the text, and the lines that it ends. -/
structure Written where
  text : String
  lines : Nat
deriving Repr, DecidableEq

/-- Takes a piece of text. -/
def Written.add (w : Written) (piece : String) : Written :=
  ⟨w.text ++ piece, w.lines + piece.toList.count '\n'⟩

/-- How a sink refuses a text. -/
structure Sink.Refusal where
  message : String
  /-- The number of characters that were taken before it. -/
  taken : Nat
deriving Repr, DecidableEq

/-- The beginning of a refused text that was taken. -/
def Sink.Refusal.beginning (r : Sink.Refusal) (text : String) : String :=
  String.ofList (text.toList.take r.taken)

structure Sink where
  written : Written
  /-- Whether and how a text is refused, given what was taken before it. -/
  refusal : Written → String → Option Sink.Refusal
  /-- Why the sink cannot be flushed. -/
  flushRefusal : Option String

namespace Sink

/-- The sink with a text taken as well. -/
def take (s : Sink) (text : String) : Sink := { s with written := s.written.add text }

/-- A sink that takes everything. -/
def unlimited : Sink := ⟨⟨"", 0⟩, fun _ _ => none, none⟩

/-- A sink that refuses every text once it has taken so many lines. -/
def limited (lines : Nat) (message : String) : Sink :=
  { unlimited with refusal := fun w _ => if lines ≤ w.lines then some ⟨message, 0⟩ else none }

/-- A sink that cannot be flushed. -/
def withoutFlush (s : Sink) (message : String) : Sink := { s with flushRefusal := some message }

end Sink

end Treewalk
