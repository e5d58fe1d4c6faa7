import Treewalk.CommandLine
import Treewalk.Proofs.Batches.Rejected
import Treewalk.Proofs.Grammar.Recovery

/-!
# The stages of the command line

Each command goes through more stages than the one before: the first scans a file, the second parses
it as well, and the third also resolves and runs it. What one of them finds wrong with a file the
next ones report in the same words, and where a stage has found something none behind it begins.
-/

namespace Treewalk

/-- The file can be read, and these are its bytes. -/
structure Host.Holds (host : Host) (file : String) (source : List UInt8) : Prop where
  opens : host.openError file = none
  reads : host.read file = .ok source

/-! ### Errors -/

theorem Parsed.errors_of_ok {parsed : Parsed} {program : List Stmt}
    (read : parsed.result = .ok program) : parsed.errors = [] := by
  rw [Parsed.errors, read]

theorem Parsed.errors_of_error {parsed : Parsed} {errors : List SyntaxError}
    (failed : parsed.result = .error errors) : parsed.errors = errors := by
  rw [Parsed.errors, failed]

/-- Parsing does not fail without an error. -/
theorem parse_error_ne_nil {tokens : List Token} {first : NodeId} {errors : List SyntaxError}
    (failed : (parse tokens first).result = .error errors) : errors ≠ [] := by
  unfold parse at failed
  dsimp only at failed
  split at failed
  · split at failed
    · cases failed
    · next some =>
      cases failed
      simpa using some
  · cases failed
    simp

/-- Resolving does not fail without an error. -/
theorem resolve_error_ne_nil {program : List Stmt} {errors : List ScopeError}
    (failed : resolve program = .error errors) : errors ≠ [] := by
  unfold resolve at failed
  dsimp only at failed
  split at failed
  · cases failed
  · next some =>
    cases failed
    exact mt List.isEmpty_iff.2 some

namespace CommandLine

variable {source : List UInt8}

/-- What is found in a source before names and scopes are looked at: lexical errors come first. -/
def sourceDiagnostics (source : List UInt8) : List Diagnostic :=
  let items := Source.scan source
  (Source.errors items).map Diagnostic.lexical ++
    (Treewalk.parse (Source.tokens items) 0).errors.map Diagnostic.syntactic

/-! ### Reports -/

theorem lines_append (texts more : List String) :
    lines (texts ++ more) = lines texts ++ lines more := by
  simp only [lines, List.map_append, String.join_append]

/-- A line for each text is the texts with line feeds between them, and one more at the end. -/
theorem lines_eq_intercalate {texts : List String} (some : texts ≠ []) :
    lines texts = String.intercalate "\n" texts ++ "\n" := by
  induction texts with
  | nil => exact absurd rfl some
  | cons text rest ih =>
    have first : lines (text :: rest) = text ++ "\n" ++ lines rest := String.join_cons
    cases rest with
    | nil => rw [first, String.intercalate_singleton, lines, List.map_nil, String.join_nil,
        String.append_empty]
    | cons next rest =>
      rw [first, ih (List.cons_ne_nil _ _), String.intercalate_cons_cons, String.append_assoc,
        String.append_assoc, String.append_assoc]

theorem complaint_rejected {diagnostics : List Diagnostic} (some : diagnostics ≠ []) :
    complaint (.error (.rejected diagnostics)) = lines (diagnostics.map Diagnostic.text) := by
  rw [lines_eq_intercalate (mt List.map_eq_nil_iff.1 some)]
  rfl

/-! ### Scanning and parsing -/

theorem tokenize_exitCode : (tokenize source).exitCode = 0 ∨ (tokenize source).exitCode = 65 := by
  unfold tokenize
  dsimp only
  split
  · exact .inl rfl
  · exact .inr rfl

theorem tokenize_exitCode_eq :
    (tokenize source).exitCode = 65 ↔ Source.errors (Source.scan source) ≠ [] := by
  unfold tokenize
  dsimp only
  split <;> simp_all

theorem parse_stderr (json : Bool) :
    (parse json source).stderr = lines ((sourceDiagnostics source).map Diagnostic.text) := by
  unfold parse sourceDiagnostics
  dsimp only
  cases parsed : (Treewalk.parse (Source.tokens (Source.scan source)) 0).result with
  | ok program =>
    simp only [Parsed.errors_of_ok parsed, List.map_nil, List.append_nil, List.map_map]
    rfl
  | error errors =>
    simp only [Parsed.errors_of_error parsed, List.map_append, List.map_map]
    rfl

theorem parse_exitCode (json : Bool) :
    (parse json source).exitCode = if sourceDiagnostics source = [] then 0 else 65 := by
  unfold parse sourceDiagnostics
  dsimp only
  cases parsed : (Treewalk.parse (Source.tokens (Source.scan source)) 0).result with
  | ok program => simp [Parsed.errors_of_ok parsed]
  | error errors => simp [Parsed.errors_of_error parsed, parse_error_ne_nil parsed]

/-- What the scanner complains about is the first thing that parsing complains about. -/
theorem tokenize_stderr (json : Bool) :
    ∃ more, (parse json source).stderr = (tokenize source).stderr ++ more := by
  rw [parse_stderr, sourceDiagnostics, List.map_append, lines_append]
  refine ⟨_, congrArg (· ++ _) ?_⟩
  rw [List.map_map]
  rfl

/-! ### Running -/

/-- A session that begins reads a source as the command that shows its statements does. -/
theorem parseSource_eq (source : List UInt8) :
    (sourceDiagnostics source = [] ∧ ∃ program next,
      (Treewalk.parse (Source.tokens (Source.scan source)) 0).result = .ok program ∧
      parseSource source 0 = (.ok program, next)) ∨
    sourceDiagnostics source ≠ [] ∧ ∃ next,
      parseSource source 0 = (.error (sourceDiagnostics source), next) := by
  unfold parseSource sourceDiagnostics
  dsimp only
  cases parsed : (Treewalk.parse (Source.tokens (Source.scan source)) 0).result with
  | ok program =>
    rw [Parsed.errors_of_ok parsed, List.map_nil, List.append_nil]
    dsimp only
    split
    · next none => exact .inl ⟨List.isEmpty_iff.1 none, program, _, rfl, rfl⟩
    · next some => exact .inr ⟨mt List.isEmpty_iff.2 some, _, rfl⟩
  | error errors =>
    rw [Parsed.errors_of_error parsed]
    have some := parse_error_ne_nil parsed
    exact .inr ⟨by simp [some], _, rfl⟩

/-- A source that does not compile is reported, and nothing of it has run. -/
theorem runFile_rejected {diagnostics : List Diagnostic} {next : NodeId} (host : Host)
    (some : diagnostics ≠ []) (rejected : compile source 0 = (.error diagnostics, next)) :
    runFile host source = ⟨65, "", lines (diagnostics.map Diagnostic.text)⟩ := by
  have ran := Session.run_of_rejected (s := .start .unlimited host.clock) rejected host.steps
  simp only [runFile, ran]
  rw [← complaint_rejected some]
  rfl

/-- A source that compiles is run to its end or to its first error. -/
theorem runFile_exitCode {c : Compiled} {next : NodeId} (host : Host)
    (compiled : compile source 0 = (.ok c, next)) :
    (runFile host source).exitCode = 0 ∨ (runFile host source).exitCode = 70 := by
  unfold runFile Session.run
  have start : (Session.start .unlimited host.clock).nextId = 0 := rfl
  rw [start, compiled]
  dsimp only [Session.perform]
  split
  · exact .inl rfl
  · exact .inr rfl

/-- What the commands say of one file: whichever stage finds something wrong, all commands that
come to it exit alike and write the same. -/
structure StagesAgree (source : List UInt8) (tokenized parsed ran : Report) : Prop where
  scanned : tokenized.exitCode = 0 ∨ tokenized.exitCode = 65
  lexical : tokenized.exitCode = 65 ↔ Source.errors (Source.scan source) ≠ []
  /-- The lexical errors are reported before the others. -/
  reported : tokenized.exitCode = 65 → ∃ more, parsed.stderr = tokenized.stderr ++ more
  read : parsed.exitCode = 0 ∨ parsed.exitCode = 65
  syntactic : parsed.exitCode = 65 ↔ Source.errors (Source.scan source) ≠ [] ∨
    ∃ errors, (Treewalk.parse (Source.tokens (Source.scan source)) 0).result = .error errors
  /-- Nothing of a source that is not a program runs. -/
  rejected : parsed.exitCode = 65 →
    ran.exitCode = 65 ∧ ran.stdout = "" ∧ ran.stderr = parsed.stderr
  resolved : parsed.exitCode = 0 →
    ∃ program, (Treewalk.parse (Source.tokens (Source.scan source)) 0).result = .ok program ∧
      (ran.exitCode = 65 ↔ ∃ errors, resolve program = .error errors) ∧
      (ran.exitCode ≠ 65 → ran.exitCode = 0 ∨ ran.exitCode = 70)

theorem stages_of_source (host : Host) (json : Bool) (source : List UInt8) :
    StagesAgree source (tokenize source) (parse json source) (runFile host source) where
  scanned := tokenize_exitCode
  lexical := tokenize_exitCode_eq
  reported := fun _ => tokenize_stderr json
  read := by
    rw [parse_exitCode]
    split
    · exact .inl rfl
    · exact .inr rfl
  syntactic := by
    rw [parse_exitCode]
    cases parsed : (Treewalk.parse (Source.tokens (Source.scan source)) 0).result with
    | ok program => simp [sourceDiagnostics, Parsed.errors_of_ok parsed]
    | error errors =>
      simp [sourceDiagnostics, Parsed.errors_of_error parsed, parse_error_ne_nil parsed]
  rejected := by
    intro found
    rcases parseSource_eq source with ⟨none, -⟩ | ⟨some, next, parsed⟩
    · rw [parse_exitCode, if_pos none] at found
      cases found
    · have rejected : compile source 0 = (.error (sourceDiagnostics source), next) := by
        rw [compile, parsed]
      rw [runFile_rejected host some rejected, parse_stderr]
      exact ⟨rfl, rfl, rfl⟩
  resolved := by
    intro clean
    rcases parseSource_eq source with ⟨-, program, next, read, parsed⟩ | ⟨some, -⟩
    · refine ⟨program, read, ?_⟩
      cases resolved : resolve program with
      | ok distances =>
        have compiled : compile source 0 = (.ok ⟨program, distances⟩, next) := by
          rw [compile, parsed]
          simp only [resolved]
        have code := runFile_exitCode host compiled
        constructor
        · constructor
          · intro exit
            rw [exit] at code
            simp at code
          · rintro ⟨errors, failed⟩
            cases failed
        · exact fun _ => code
      | error errors =>
        have rejected : compile source 0 = (.error (errors.map Diagnostic.scope), next) := by
          rw [compile, parsed]
          simp only [resolved]
        have some : errors.map Diagnostic.scope ≠ [] :=
          mt List.map_eq_nil_iff.1 (resolve_error_ne_nil resolved)
        rw [runFile_rejected host some rejected]
        exact ⟨⟨fun _ => ⟨errors, rfl⟩, fun _ => rfl⟩, fun other => absurd rfl other⟩
    · rw [parse_exitCode, if_neg some] at clean
      cases clean

/-! ### Commands -/

theorem withFile_holds {host : Host} {file : String} (holds : host.Holds file source)
    (next : List UInt8 → Report) : withFile host file next = next source := by
  simp only [withFile, holds.opens, holds.reads]

/-- Where the log file can be created, an invocation does what its command does. -/
theorem perform_eq {host : Host} {log : Option String}
    (logs : ∀ path ∈ log, host.createError path = none) (command : Command) :
    perform host ⟨command, log⟩ = runCommand host command := by
  unfold perform logFailure?
  cases log with
  | none => rfl
  | some path =>
    have created := logs path rfl
    simp [created]

end CommandLine

open CommandLine Source

/-- The commands agree on every file, whatever its bytes are: on a lexical error, on a syntax error,
and on what the third one finds behind them. -/
theorem stages_agree (host : Host) (file : String) (log : Option String) (json : Bool)
    (source : List UInt8) (holds : host.Holds file source)
    (logs : ∀ path ∈ log, host.createError path = none) :
    StagesAgree source (perform host ⟨.tokenize file, log⟩) (perform host ⟨.parse json file, log⟩)
      (perform host ⟨.run (some file), log⟩) := by
  rw [perform_eq logs, perform_eq logs, perform_eq logs]
  have stages := stages_of_source host json source
  rw [← withFile_holds holds CommandLine.tokenize, ← withFile_holds holds (CommandLine.parse json),
    ← withFile_holds holds (runFile host)] at stages
  exact stages

/-- A string that is not closed is found by the first command, and none of the others gets past
it. -/
theorem stages_agree_unclosed :
    let host : Host := ⟨fun _ => none, fun _ => .ok [byte '"'], fun _ => none, [], fun _ => 0, 0⟩
    let log := some "app.log"
    host.Holds "a" [byte '"'] ∧ (∀ path ∈ log, host.createError path = none) ∧
      (perform host ⟨.tokenize "a", log⟩).exitCode = 65 ∧
      (perform host ⟨.parse true "a", log⟩).exitCode = 65 ∧
      perform host ⟨.run (some "a"), log⟩ =
        ⟨65, "", (perform host ⟨.parse true "a", log⟩).stderr⟩ := by
  intro host log
  have holds : host.Holds "a" [byte '"'] := ⟨rfl, rfl⟩
  have logs : ∀ path ∈ log, host.createError path = none := fun _ _ => rfl
  have stages := stages_agree host "a" log true [byte '"'] holds logs
  have found : Source.errors (Source.scan [byte '"']) ≠ [] := by decide +kernel
  have failed := stages.syntactic.2 (.inl found)
  obtain ⟨code, output, errors⟩ := stages.rejected failed
  refine ⟨holds, logs, stages.lexical.2 found, failed, ?_⟩
  rw [← code, ← output, ← errors]

end Treewalk
