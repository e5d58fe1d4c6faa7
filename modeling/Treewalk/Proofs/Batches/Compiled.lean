import Treewalk.Proofs.Grammar.Lines
import Treewalk.Proofs.Scope.Renaming
import Treewalk.Proofs.Source.Seam

/-!
# Compiling two sources as one

Two sources that compile one after the other compile as one source with a line feed between them, to
the one program behind the other. Only the lines of the second program are later ones.
-/

namespace Treewalk

open Source Resolution

/-- As many lines further down. -/
def Relabel.later (lines : Nat) : Relabel := .lines (· + lines)

/-! ### Tokens -/

theorem Source.tokens_append (items more : List Item) :
    tokens (items ++ more) = tokens items ++ tokens more := List.filterMap_append

theorem Source.errors_append (items more : List Item) :
    errors (items ++ more) = errors items ++ errors more := List.filterMap_append

theorem Source.tokens_later (lines : Nat) (items : List Item) :
    tokens (items.map (Item.later lines)) = onLines (· + lines) (tokens items) := by
  rw [tokens, tokens, List.filterMap_map, onLines, List.map_filterMap]
  refine List.filterMap_congr fun item _ => ?_
  cases item <;> rfl

theorem Source.errors_later {lines : Nat} {items : List Item} (none : errors items = []) :
    errors (items.map (Item.later lines)) = [] := by
  rw [errors, List.filterMap_map, List.filterMap_eq_nil_iff]
  intro item member
  cases item with
  | ok t => rfl
  | error e => exact absurd (List.filterMap_eq_nil_iff.1 none _ member) (Option.some_ne_none e)

/-- The tokens before the end of two sources with a line feed between them. -/
theorem Source.tokens_seam {a b : List UInt8} (none : errors (scan a) = []) :
    (tokens (scan (a ++ lineFeed :: b))).takeWhile (·.kind != .eof) =
      (tokens (scan a)).takeWhile (·.kind != .eof) ++
        onLines (· + (linesIn a + 1)) ((tokens (scan b)).takeWhile (·.kind != .eof)) := by
  have inner : ∀ t ∈ tokens (itemsFrom 1 (pieces a)), (t.kind != .eof) = true := by
    intro t member
    exact bne_iff_ne.2 ((allMunched_pieces a).ne_eof (mem_tokens.1 member))
  have first : (tokens (scan a)).takeWhile (·.kind != .eof) = tokens (itemsFrom 1 (pieces a)) := by
    rw [scan_eq, tokens_append, List.takeWhile_append_of_pos inner]
    exact List.append_nil _
  rw [first, scan_seam none, tokens_append, tokens_later, List.takeWhile_append_of_pos inner,
    onLines, List.takeWhile_map]
  rfl

theorem Source.errors_seam {a b : List UInt8} (none : errors (scan a) = [])
    (none' : errors (scan b) = []) : errors (scan (a ++ lineFeed :: b)) = [] := by
  have first : errors (itemsFrom 1 (pieces a)) = [] := by
    rw [scan_eq, errors_append] at none
    exact (List.append_eq_nil_iff.1 none).1
  rw [scan_seam none, errors_append, first, errors_later none']
  rfl

/-! ### Scopes -/

theorem VarDecl.resolveAll_top (around : Surroundings) (decls : List VarDecl) :
    (VarDecl.resolveAll around [] decls).2 = [] := by
  induction decls with
  | nil => rfl
  | cons decl rest ih => exact ih

/-- No statement of a program leaves a scope open. -/
theorem Stmt.resolve_top (around : Surroundings) : (s : Stmt) → (s.resolve around []).2 = []
  | .block _ | .classDecl _ none _ | .classDecl _ (some _) _ | .expression _ | .print _ |
    .ret _ none | .ret _ (some _) | .function ⟨_, _, _⟩ | .var _ => rfl
  | .branch _ thenBranch none => Stmt.resolve_top around thenBranch
  | .branch _ thenBranch (some elseBranch) => by
    show (elseBranch.resolve around (thenBranch.resolve around []).2).2 = []
    rw [Stmt.resolve_top around thenBranch, Stmt.resolve_top around elseBranch]
  | .varList decls => VarDecl.resolveAll_top around decls
  | .loop _ body => Stmt.resolve_top around body

theorem findings_append (program more : List Stmt) :
    findings (program ++ more) = findings program ++ findings more := by
  unfold findings
  induction program with
  | nil => rfl
  | cons s rest ih =>
    have each : ∀ others, Stmt.resolveAll ⟨.none, .none⟩ [] (s :: others) =
        (s.resolve ⟨.none, .none⟩ []).1 ++ Stmt.resolveAll ⟨.none, .none⟩ [] others := by
      intro others
      show _ ++ Stmt.resolveAll _ (s.resolve ⟨.none, .none⟩ []).2 others = _
      rw [Stmt.resolve_top]
    rw [List.cons_append, each, each, ih, List.append_assoc]

theorem resolve_append {program more : List Stmt} {found found' : List (NodeId × Nat)}
    (h : resolve program = .ok found) (h' : resolve more = .ok found') :
    resolve (program ++ more) = .ok (found ++ found') := by
  have clean : Clean (findings (program ++ more)) := by
    rw [findings_append, clean_append]
    exact ⟨clean_of_resolve h, clean_of_resolve h'⟩
  rw [resolve_of_clean (clean_of_resolve h)] at h
  rw [resolve_of_clean (clean_of_resolve h')] at h'
  cases h
  cases h'
  rw [resolve_of_clean clean, findings_append, List.filterMap_append]

/-! ### Programs on other lines -/

variable {f : Nat → Nat} {first mid last : NodeId} {a b : Compiled} {program : List Stmt}

theorem Relabel.fixes_renumbered {number : NodeId → NodeId} :
    (Relabel.renumbered number f).Fixes := ⟨rfl, rfl⟩

theorem Stmt.allTidy_renumbered {number : NodeId → NodeId} (regular : Stmt.AllRegular program) :
    Stmt.AllTidy (Relabel.renumbered number f).Named program :=
  Stmt.allTidy_of_regular [] _ regular fun _ _ _ _ => rfl

theorem Context.distance?_lines (f : Nat → Nat) (name : String) (c : Context) :
    (c.relabel (.lines f)).distance? name = c.distance? name :=
  Context.distance?_relabel (r := .lines f) fun _ _ same => same

theorem Occurrence.distance?_lines (f : Nat → Nat) (o : Occurrence) :
    (o.relabel (.lines f)).distance? = o.distance? := by
  obtain ⟨mention, context⟩ := o
  cases mention with
  | declare name => rfl
  | use role ref =>
    cases role <;>
      exact congrArg (Option.map _) (Context.distance?_lines f ref.name.lexeme context)

theorem Mention.lexed_lines (f : Nat → Nat) (mention : Mention) :
    (mention.relabel (.lines f)).Lexed ↔ mention.Lexed := by
  cases mention with
  | declare name => exact Iff.rfl
  | use role ref => cases role <;> exact Iff.rfl

theorem relabelAll_lines_undo {f g : Nat → Nat} (undo : ∀ line, g (f line) = line)
    (program : List Stmt) :
    Stmt.relabelAll (.lines g) (Stmt.relabelAll (.lines f) program) = program := by
  rw [Stmt.relabelAll_relabelAll, Relabel.lines_andThen_undo undo, Stmt.relabelAll_identity]

/-- Lines play no part in resolution. -/
theorem resolve_lines {found : List (NodeId × Nat)} {f g : Nat → Nat}
    (undo : ∀ line, g (f line) = line) (regular : Stmt.AllRegular program)
    (lexed : ∀ o ∈ occurrences program, o.mention.Lexed) (h : resolve program = .ok found) :
    resolve (Stmt.relabelAll (.lines f) program) = .ok found := by
  have tidy : Stmt.AllTidy (fun _ => True) (Stmt.relabelAll (.lines f) program) := by
    rw [Stmt.allTidy_relabel]
    exact Stmt.allTidy_of_regular [] _ regular fun _ _ _ _ => trivial
  have regular' := Stmt.allRegular_of_tidy _ tidy
  have mentions : occurrences (Stmt.relabelAll (.lines f) program) =
      (occurrences program).map (Occurrence.relabel (.lines f)) :=
    Stmt.allOccurrences_relabel Relabel.fixes_renumbered [] program
      (Stmt.allTidy_renumbered regular)
  have lexed' : ∀ o ∈ occurrences (Stmt.relabelAll (.lines f) program), o.mention.Lexed := by
    rw [mentions]
    intro o member
    obtain ⟨o, occurs, rfl⟩ := List.mem_map.1 member
    exact (Mention.lexed_lines f o.mention).2 (lexed o occurs)
  have back := h
  rw [← relabelAll_lines_undo undo program] at back
  obtain ⟨found', resolved⟩ :=
    resolve_of_relabel Relabel.fixes_renumbered (Stmt.allTidy_renumbered regular') back
  have same : found' = found := by
    rw [(resolve_eq_ok resolved regular' lexed').1, (resolve_eq_ok h regular lexed).1, mentions,
      List.filterMap_map]
    exact List.filterMap_congr fun o _ => Occurrence.distance?_lines f o
  rw [resolved, same]

/-- Two sources that compile one after the other compile as one. -/
theorem compile_seam {source more : List UInt8} (compiled : compile source first = (.ok a, mid))
    (compiled' : compile more mid = (.ok b, last)) :
    compile (source ++ lineFeed :: more) first =
      (.ok ⟨a.program ++ Stmt.relabelAll (.later (linesIn source + 1)) b.program,
        a.distances ++ b.distances⟩, last) := by
  obtain ⟨parsed, resolved⟩ := compile_ok compiled
  obtain ⟨parsed', resolved'⟩ := compile_ok compiled'
  obtain ⟨none, read⟩ := parseSource_ok parsed
  obtain ⟨none', read'⟩ := parseSource_ok parsed'
  have accepted := accepted_of_compile compiled'
  have program : parse (tokens (scan (source ++ lineFeed :: more))) first =
      ⟨.ok (a.program ++ Stmt.relabelAll (.later (linesIn source + 1)) b.program), last⟩ := by
    apply parse_of_program
    rw [tokens_seam none]
    exact (program_of_parse read).append (program_of_parse read').lines
  have moved : resolve (Stmt.relabelAll (.later (linesIn source + 1)) b.program) =
      .ok b.distances :=
    resolve_lines (g := (· - (linesIn source + 1))) (fun line => Nat.add_sub_cancel ..)
      accepted.regular accepted.lexed resolved'
  simp only [compile, parseSource, program, errors_seam none none', List.map_nil,
    List.isEmpty_nil, if_true, resolve_append resolved moved]

end Treewalk
