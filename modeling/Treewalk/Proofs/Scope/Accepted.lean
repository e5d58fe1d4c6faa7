import Treewalk.Proofs.Grammar.Exact
import Treewalk.Proofs.Grammar.Shape
import Treewalk.Proofs.Scope.Distances
import Treewalk.Proofs.Source.Words
import Treewalk.Session

/-!
# Accepted programs

What holds of every program that passes the scanner, the parser and the resolver.
-/

namespace Treewalk

open Resolution

/-- The mentions of a source are names as the scanner makes them. -/
theorem Mention.From.lexed {ts : List Token} (spelled : ∀ t ∈ ts, t.Spelled) {mention : Mention}
    (h : mention.From ts) : mention.Lexed := by
  have plain : ∀ t ∈ ts, t.kind = .identifier →
      t.lexeme ≠ thisName ∧ t.lexeme ≠ superName := by
    intro t member kind
    have none := (spelled t member).identifier kind
    refine ⟨?_, ?_⟩ <;> intro same <;> rw [same] at none <;> cases none
  have written : ∀ t ∈ ts, t.kind.isWord = true → t.kind ≠ .identifier →
      (t.lexeme, t.kind) ∈ TokenKind.keywords :=
    fun t member word other => (spelled t member).keyword word other
  cases mention with
  | declare name => exact plain name h.1 h.2
  | use role ref =>
    cases role with
    | read => exact plain ref.name h.1 h.2
    | write => exact plain ref.name h.1 h.2
    | this =>
      have entry := written ref.name h.1 (by rw [h.2]; rfl) (by rw [h.2]; decide)
      rw [h.2] at entry
      have lexeme : ref.name.lexeme = "this" := by simpa [TokenKind.keywords] using entry
      exact lexeme
    | super =>
      have entry := written ref.name h.1 (by rw [h.2]; rfl) (by rw [h.2]; decide)
      rw [h.2] at entry
      have lexeme : ref.name.lexeme = "super" := by simpa [TokenKind.keywords] using entry
      exact lexeme

/-- A program that was read from number `first` up to `next` and that resolved. -/
structure Accepted (first : NodeId) (c : Compiled) (next : NodeId) : Prop where
  le : first ≤ next
  regular : Stmt.AllRegular c.program
  numbers : ((occurrences c.program).filterMap Occurrence.id?).Perm
    (List.range' first (next - first))
  lexed : ∀ o ∈ occurrences c.program, o.mention.Lexed
  resolved : resolve c.program = .ok c.distances

theorem parseSource_ok {source : List UInt8} {first next : NodeId} {program : List Stmt}
    (h : parseSource source first = (.ok program, next)) :
    Source.errors (Source.scan source) = [] ∧
      parse (Source.tokens (Source.scan source)) first = ⟨.ok program, next⟩ := by
  simp only [parseSource] at h
  split at h
  · next program' parsed =>
    split at h
    · next none =>
      cases h
      refine ⟨by simpa using none, ?_⟩
      rw [← parsed]
    · cases h
  · cases h

theorem compile_ok {source : List UInt8} {first next : NodeId} {c : Compiled}
    (h : compile source first = (.ok c, next)) :
    parseSource source first = (.ok c.program, next) ∧ resolve c.program = .ok c.distances := by
  simp only [compile] at h
  split at h
  · cases h
  · next program parsed =>
    split at h
    · next distances resolved =>
      cases h
      exact ⟨parsed, resolved⟩
    · cases h

/-- A source without lexical errors compiles if its tokens are a program that resolves. -/
theorem compile_of_program {source : List UInt8} {first next : NodeId} {c : Compiled}
    (none : Source.errors (Source.scan source) = [])
    (derived : Grammar.Program .nearest first
      ((Source.tokens (Source.scan source)).takeWhile (·.kind != .eof)) c.program next)
    (resolved : resolve c.program = .ok c.distances) :
    compile source first = (.ok c, next) := by
  simp only [compile, parseSource, parse_of_program derived, none, List.map_nil, List.isEmpty_nil,
    if_true, resolved]

theorem accepted_of_compile {source : List UInt8} {first next : NodeId} {c : Compiled}
    (h : compile source first = (.ok c, next)) : Accepted first c next := by
  obtain ⟨parsed, resolved⟩ := compile_ok h
  have derived := program_of_parse (parseSource_ok parsed).2
  obtain ⟨shaped, regular⟩ := derived.shaped
  refine ⟨(shaped []).le, regular, (shaped []).numbers, fun o member => ?_, resolved⟩
  refine ((shaped []).mentions o member).lexed fun t ht => ?_
  exact Source.spelled_of_mem_scan (List.takeWhile_subset _ ht)

/-- No number is given twice, also where a source is rejected. -/
theorem compile_nextId (source : List UInt8) (first : NodeId) :
    first ≤ (compile source first).2 := by
  have parsed : first ≤ (parseSource source first).2 := by
    simp only [parseSource]
    split
    · split <;> exact parse_nextId _ _
    · exact parse_nextId _ _
  simp only [compile]
  split
  · next read =>
    rw [read] at parsed
    exact parsed
  · next read =>
    rw [read] at parsed
    split <;> exact parsed

namespace Accepted

variable {first next : NodeId} {c : Compiled} (h : Accepted first c next)
include h

theorem distances_eq :
    c.distances = (occurrences c.program).filterMap Occurrence.distance? :=
  (resolve_eq_ok h.resolved h.regular h.lexed).1

theorem admissible : ∀ o ∈ occurrences c.program, o.Admissible :=
  (resolve_eq_ok h.resolved h.regular h.lexed).2

theorem unique : ((occurrences c.program).filterMap Occurrence.id?).Nodup :=
  h.numbers.nodup_iff.2 List.nodup_range'

theorem mem_range {id : NodeId} (member : id ∈ (occurrences c.program).filterMap Occurrence.id?) :
    first ≤ id ∧ id < next := by
  have := h.numbers.mem_iff.1 member
  rw [List.mem_range'_1, Nat.add_sub_cancel' h.le] at this
  exact this

end Accepted

end Treewalk
