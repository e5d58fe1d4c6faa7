import Treewalk.Proofs.Batches.Compiled

/-!
# Sources under other numbers

References are numbered from where a session has got to. A source that compiles there compiles
wherever it is numbered from, and the programs are the same one but for the numbers.
-/

namespace Treewalk

open Source

/-- The numbers from `first` on as the numbers from `first'` on. -/
def Relabel.countedFrom (first first' : NodeId) : Relabel :=
  .renumbered (fun i => i - first + first') fun line => line

/-- All numbers alike, and all else as it was. -/
def Relabel.unnumbered : Relabel := .renumbered (fun _ => 0) fun line => line

variable {first first' next : NodeId} {ts : List Token} {program : List Stmt} {c : Compiled}

theorem counts_countedFrom (first first' : NodeId) :
    Counts (Relabel.countedFrom first first').id first := by
  intro i above
  show i + 1 - first + first' = i - first + first' + 1
  rw [Nat.sub_add_comm above, Nat.add_right_comm]

theorem onLines_self (ts : List Token) : onLines (fun line => line) ts = ts := List.map_id' ts

/-- Tokens that are a program from one number on are one from any other. -/
theorem parse_countedFrom (parsed : parse ts first = ⟨.ok program, next⟩) (first' : NodeId) :
    ∃ next', parse ts first' =
      ⟨.ok (Stmt.relabelAll (.countedFrom first first') program), next'⟩ := by
  have derived := (program_of_parse parsed).renumbered (counts_countedFrom first first')
    (f := fun line => line)
  have start : (Relabel.countedFrom first first').id first = first' := by
    show first - first + first' = first'
    rw [Nat.sub_self, Nat.zero_add]
  rw [onLines_self, start] at derived
  exact ⟨_, parse_of_program derived⟩

/-- Counted from the old number again it is the program that it was: there is only one. -/
theorem countedFrom_back (parsed : parse ts first = ⟨.ok program, next⟩) (first' : NodeId) :
    Stmt.relabelAll (.countedFrom first' first)
      (Stmt.relabelAll (.countedFrom first first') program) = program := by
  obtain ⟨_, there⟩ := parse_countedFrom parsed first'
  obtain ⟨_, back⟩ := parse_countedFrom there first
  rw [parsed] at back
  injection back with same
  injection same with same
  exact same.symm

/-- A source that compiles does so whatever number its first reference has, to a program that is the
same but for the numbers. -/
theorem compile_renumbered {source : List UInt8} (compiled : compile source first = (.ok c, next))
    (first' : NodeId) : ∃ c' next', compile source first' = (.ok c', next') ∧
      Stmt.relabelAll .unnumbered c'.program = Stmt.relabelAll .unnumbered c.program := by
  obtain ⟨parsed, resolved⟩ := compile_ok compiled
  obtain ⟨none, read⟩ := parseSource_ok parsed
  obtain ⟨next', read'⟩ := parse_countedFrom read first'
  have regular := (program_of_parse read').shaped.2
  rw [← countedFrom_back read first'] at resolved
  obtain ⟨found, resolved'⟩ :=
    resolve_of_relabel Relabel.fixes_renumbered (Stmt.allTidy_renumbered regular) resolved
  refine ⟨⟨Stmt.relabelAll (.countedFrom first first') c.program, found⟩, next', ?_, ?_⟩
  · simp only [compile, parseSource, read', none, List.map_nil, List.isEmpty_nil, if_true,
      resolved']
  · exact Stmt.relabelAll_relabelAll _ _ c.program

end Treewalk
