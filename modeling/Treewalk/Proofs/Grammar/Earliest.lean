import Mathlib.Order.Bounds.Basic
import Treewalk.Proofs.Grammar.Recovery
import Treewalk.Proofs.Grammar.ViableStmt

/-!
# The first error is at the first impossible token

The parser does not read past a token that no program can go on with, and it does not complain before:
apart from the errors that it tolerates, the first error stands at the earliest token that is impossible
behind the tokens before it. For this a program is a word of the relaxed grammar.
-/

namespace Treewalk

open Grammar Treewalk.Parser

/-- A word begins with these tokens. -/
def Viable (L : Language Token) (ts : List Token) : Prop := ∃ us, ts ++ us ∈ L

/-- The tokens before this one can be completed, and no word goes on with it; if it is the last one,
the list is no word. -/
def ImpossibleAt (L : Language Token) (ts : List Token) (k : Nat) : Prop :=
  k < ts.length ∧ Viable L (ts.take k) ∧
    if k + 1 = ts.length then ts ∉ L else ¬ Viable L (ts.take (k + 1))

theorem Viable.take {L : Language Token} {ts : List Token} (h : Viable L ts) (k : Nat) :
    Viable L (ts.take k) := by
  obtain ⟨us, member⟩ := h
  refine ⟨ts.drop k ++ us, ?_⟩
  rwa [← List.append_assoc, List.take_append_drop]

/-- Before a token that no word goes on with there is no such token. -/
theorem isLeast_impossibleAt {L : Language Token} {ts read : List Token} {t : Token}
    {left : List Token} (split : ts = read ++ t :: left) (viable : Viable L read)
    (impossible : ∀ us, read ++ t :: us ∉ L) :
    IsLeast {k | ImpossibleAt L ts k} read.length := by
  have before : ts.take read.length = read := by simp [split]
  have through : ts.take (read.length + 1) = read ++ [t] := by
    rw [split, List.take_append]
    simp
  have length : read.length < ts.length := by simp [split]
  have stuck : ¬ Viable L (ts.take (read.length + 1)) := by
    rintro ⟨us, member⟩
    rw [through, List.append_assoc] at member
    exact impossible us member
  refine ⟨⟨length, by rwa [before], ?_⟩, ?_⟩
  · split
    · next last =>
      intro member
      rw [last, List.take_length] at stuck
      exact stuck ⟨[], by rwa [List.append_nil]⟩
    · exact stuck
  · rintro k ⟨_, _, ends⟩
    by_contra earlier
    have notLast : k + 1 ≠ ts.length := by omega
    rw [if_neg notLast] at ends
    have viable' := viable.take (k + 1)
    rw [← before, List.take_take, Nat.min_eq_left (by omega)] at viable'
    exact ends viable'

theorem program_ok {n : Nat} {done stmts : List Stmt} {c c' : Cursor}
    (run : Parser.program n done c = .ok stmts c') : c'.rest = [] := by
  induction n generalizing done c with
  | zero => cases run
  | succ n ih =>
    by_cases ended : c.rest = []
    · rw [program_ended ended] at run
      cases run
      exact ended
    · obtain ⟨o, d, read⟩ := declaration_ok n c
      rw [program_goesOn ended read] at run
      exact ih run

/-- If all errors are tolerated, the tokens are a program. Otherwise the first error that is not
stands at the earliest token that is impossible behind the tokens before it. -/
theorem parse_earliest (tokens : List Token) (firstId : NodeId) :
    match (parse tokens firstId).errors.find? (fun e => !e.cause.tolerated) with
    | none => throughEnd tokens ∈ language relaxed (Phrase.rule .program)
    | some e => ∃ k,
        IsLeast {k | ImpossibleAt (language relaxed (Phrase.rule .program)) (throughEnd tokens) k}
          k ∧ (throughEnd tokens)[k]? = some e.token := by
  obtain ⟨stmts, c, runs, complete, errors⟩ := errors_parse tokens firstId
  have run := runs _ (Nat.le_refl _)
  have proper : Parser.Proper (Parser.start tokens firstId) := by
    refine ⟨Parser.start_final tokens firstId, fun t member => ?_⟩
    simpa using List.mem_takeWhile_imp member
  have clean : Tolerated (Parser.start tokens firstId).errors := List.forall_mem_nil _
  have leads := (viable_program (15 + 32 * endIndex tokens) [] _ proper).ends clean
  rw [run] at leads
  rw [errors, ← start_throughEnd tokens firstId]
  rcases leads with ⟨tolerated, read, consumes⟩ |
    ⟨later, e, before, newest, tolerated, counts, misplaced⟩
  · have clean : c.errors.reverse.find? (fun e => !e.cause.tolerated) = none := by
      rw [List.find?_eq_none]
      intro e member
      simpa using tolerated e (List.mem_reverse.1 member)
    have whole : (Parser.start tokens firstId).rest = read := by
      rw [consumes.rest, program_ok run, List.append_nil]
    have last : [(Parser.start tokens firstId).final] ∈ Grammar.tokens [.eof] := by
      refine ⟨_, rfl, ?_, ?_⟩
      · simp [proper.final]
      · simp [HasValue, proper.final]
    rw [clean, whole]
    exact consumes.complete _ last
  · have first : c.errors.reverse.find? (fun e => !e.cause.tolerated) = some e := by
      have clean : before.reverse.find? (fun e => !e.cause.tolerated) = none := by
        rw [List.find?_eq_none]
        intro e member
        simpa using tolerated e (List.mem_reverse.1 member)
      rw [newest, List.reverse_append, List.reverse_cons, List.append_assoc, List.find?_append,
        clean]
      simp [counts]
    have finished : e.cause ≠ .unfinished := complete e (by simp [newest])
    obtain ⟨read, left, split, token, ⟨w, viable⟩, impossible⟩ :=
      misplaced.resolve_left finished
    have whole : (Parser.start tokens firstId).rest ++ [(Parser.start tokens firstId).final] =
        read ++ e.token :: (left ++ [(Parser.start tokens firstId).final]).tail := by
      rw [split, token, List.append_assoc]
      cases left <;> rfl
    rw [first]
    refine ⟨read.length, isLeast_impossibleAt whole ⟨w, viable⟩ impossible, ?_⟩
    rw [whole]
    simp

end Treewalk
