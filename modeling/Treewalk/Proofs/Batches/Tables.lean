import Treewalk.Proofs.Batches.Rejected
import Treewalk.Proofs.Grammar.Placed
import Treewalk.Proofs.Grammar.Targets
import Treewalk.Proofs.Run.Restored
import Treewalk.Proofs.Scope.Referenced

/-!
# Numbers and tables

Numbers are given to references in the order of their tokens and never twice, whichever sources are
read and however many of them are rejected. So the distances of a batch go into the table of a
session beside those of the batches before it, and no function ever finds other distances than those
of its own batch.
-/

namespace Treewalk

/-! ### Trees -/

/-- Parses token lists one after the other. As the numbers are those of all parsers, `taken` says
how many are taken elsewhere before the first list, before the second one, and so on. -/
def parseAll (taken : Nat → Nat) (first : NodeId) : List (List Token) → List Parsed
  | [] => []
  | ts :: rest =>
    let parsed := parse ts (first + taken 0)
    parsed :: parseAll (fun k => taken (k + 1)) parsed.nextId rest

/-- The programs among these results. -/
def programsOf (results : List Parsed) : List (List Stmt) :=
  results.filterMap (·.result.toOption)

variable {taken : Nat → Nat} {first next : NodeId} {program : List Stmt}

/-- The references of a program have the numbers that were given while it was read. -/
theorem references_of_parse {ts : List Token} (parsed : parse ts first = ⟨.ok program, next⟩) :
    (references program).Pairwise (·.id < ·.id) ∧
      ∀ ref ∈ references program, first ≤ ref.id ∧ ref.id < next := by
  obtain ⟨names, -, -, rfl, counted⟩ := (program_of_parse parsed).ordered.references_eq
  rw [counted]
  refine ⟨pairwise_numberedFrom first names, fun ref member => ?_⟩
  have named := List.mem_map_of_mem (f := (·.id)) member
  rw [ids_numberedFrom] at named
  exact List.mem_range'_1.1 named

/-- Numbers grow from program to program. -/
theorem references_parseAll (taken : Nat → Nat) (first : NodeId) (runs : List (List Token)) :
    ((programsOf (parseAll taken first runs)).flatMap references).Pairwise (·.id < ·.id) ∧
      ∀ ref ∈ (programsOf (parseAll taken first runs)).flatMap references, first ≤ ref.id := by
  induction runs generalizing taken first with
  | nil => exact ⟨.nil, List.forall_mem_nil _⟩
  | cons ts rest ih =>
    have le := Nat.le_add_right first (taken 0)
    have start := Nat.le_trans le (parse_nextId ts (first + taken 0))
    obtain ⟨ordered, above⟩ := ih (fun k => taken (k + 1)) (parse ts (first + taken 0)).nextId
    rw [parseAll]
    rcases parsed : parse ts (first + taken 0) with ⟨errors | program, next⟩
    · rw [parsed] at start ordered above
      exact ⟨ordered, fun ref member => Nat.le_trans start (above ref member)⟩
    · rw [parsed] at start ordered above
      obtain ⟨inner, given⟩ := references_of_parse parsed
      show ((references program ++ _).Pairwise _) ∧ ∀ ref ∈ references program ++ _, _
      refine ⟨List.pairwise_append.2 ⟨inner, ordered, fun a isFirst b isLater => ?_⟩, ?_⟩
      · exact Nat.lt_of_lt_of_le (given a isFirst).2 (above b isLater)
      · refine List.forall_mem_append.2 ⟨fun ref member => ?_, fun ref member => ?_⟩
        · exact Nat.le_trans le (given ref member).1
        · exact Nat.le_trans start (above ref member)

/-- No number is twice in the programs. -/
theorem nodup_parseAll (taken : Nat → Nat) (first : NodeId) (runs : List (List Token)) :
    (((programsOf (parseAll taken first runs)).flatMap Stmt.allReferences).map (·.id)).Nodup := by
  have sorted : ((programsOf (parseAll taken first runs)).flatMap references).Perm
      ((programsOf (parseAll taken first runs)).flatMap Stmt.allReferences) :=
    List.Perm.flatMap_left _ fun program _ => references_perm program
  refine (sorted.map (·.id)).nodup_iff.1 (List.pairwise_map.2 ?_)
  exact (references_parseAll taken first runs).1.imp Nat.ne_of_lt

/-! ### Tables -/

/-- The distances of a batch go into the table beside those that are there: no two of them are for
one number, and none is for a number that has a distance. -/
structure Merged (table : Distances) (found : List (NodeId × Nat)) (table' : Distances) :
    Prop where
  unique : (found.map (·.1)).Nodup
  new : ∀ id ∈ found.map (·.1), table.get? id = none
  union : ∀ id d, table'.get? id = some d ↔ table.get? id = some d ∨ (id, d) ∈ found

namespace Session

/-- The session after batches in order, where so many numbers are taken elsewhere before the first
batch, before the second one, and so on. -/
def after (s : Session) (taken : Nat → Nat) : List (Nat × List UInt8) → Session
  | [] => s.skip (taken 0)
  | batch :: rest =>
    ((s.skip (taken 0)).run batch.1 batch.2).2.after (fun k => taken (k + 1)) rest

/-- When no numbers are taken elsewhere these are the batches of the session. -/
theorem after_zero (s : Session) (batches : List (Nat × List UInt8)) :
    s.after (fun _ => 0) batches = (s.runAll batches).2 := by
  induction batches generalizing s with
  | nil => rfl
  | cons batch rest ih => exact ih _

/-- What the next batch, whatever it is, does to the table of a session, and what all batches after
it leave there: the distances of its program, and those of the functions that there are now. -/
structure KeepsDistances (s : Session) : Prop where
  merges : ∀ steps source c next, compile source s.nextId = (.ok c, next) →
    Merged s.machine.distances c.distances (s.run steps source).2.machine.distances
  rejects : ∀ steps source diagnostics next,
    compile source s.nextId = (.error diagnostics, next) →
      (s.run steps source).2.machine.distances = s.machine.distances
  programs : ∀ steps source c next, compile source s.nextId = (.ok c, next) →
    ∀ ref ∈ Stmt.allReferences c.program, ∀ taken batches d,
      ((s.run steps source).2.after taken batches).machine.distances.get? ref.id = some d ↔
        (ref.id, d) ∈ c.distances
  closures : ∀ f, s.machine.store.Holds f → ∀ ref ∈ Stmt.allReferences f.decl.body,
    ∀ taken batches,
      (s.after taken batches).machine.distances.get? ref.id = s.machine.distances.get? ref.id

variable {s t u : Session} {p : Plain.State} {source : List UInt8} {c : Compiled}

/-- A later state of a session: of the numbers that were given none has another distance. -/
structure Later (s t : Session) : Prop where
  le : s.nextId ≤ t.nextId
  old : ∀ id < s.nextId, t.machine.distances.get? id = s.machine.distances.get? id

namespace Later

theorem trans (h : s.Later t) (h' : t.Later u) : s.Later u :=
  ⟨Nat.le_trans h.le h'.le,
    fun id given => (h'.old id (Nat.lt_of_lt_of_le given h.le)).trans (h.old id given)⟩

theorem skip (s : Session) (n : Nat) : s.Later (s.skip n) :=
  ⟨Nat.le_add_right _ _, fun _ _ => rfl⟩

end Later

/-- A batch that compiles adds its distances to the table, and its run adds no others. -/
theorem table_of_compiled (compiled : compile source s.nextId = (.ok c, next)) (steps : Nat) :
    (s.run steps source).2.nextId = next ∧
      (s.run steps source).2.machine.distances = s.machine.distances.addAll c.distances := by
  have kept := interpret_kept steps c.distances c.program s.machine
  rw [run_of_compiled compiled, Session.perform]
  cases ran : interpret steps c.distances c.program s.machine with
  | ok _ m | error _ m =>
    rw [ran] at kept
    exact ⟨rfl, kept.distances⟩

theorem later_run (s : Session) (steps : Nat) (source : List UInt8) :
    s.Later (s.run steps source).2 := by
  have le := compile_nextId source s.nextId
  rcases compiled : compile source s.nextId with ⟨diagnostics | c, next⟩
  · rw [compiled] at le
    rw [run_of_rejected compiled]
    exact ⟨le, fun _ _ => rfl⟩
  · rw [compiled] at le
    obtain ⟨counted, table⟩ := table_of_compiled compiled steps
    refine ⟨le.trans_eq counted.symm, fun id given => ?_⟩
    rw [table]
    refine Distances.get?_addAll_of_not_mem fun found => ?_
    exact Nat.not_lt_of_le ((accepted_of_compile compiled).mem_keys found).1 given

theorem later_after (s : Session) (taken : Nat → Nat) (batches : List (Nat × List UInt8)) :
    s.Later (s.after taken batches) := by
  induction batches generalizing s taken with
  | nil => exact .skip s _
  | cons batch rest ih => exact (Later.skip s _).trans ((later_run _ _ _).trans (ih _ _))

namespace Shows

theorem exists_run (h : s.Shows p) (steps : Nat) (source : List UInt8) :
    ∃ p', (s.run steps source).2.Shows p' := by
  have le := compile_nextId source s.nextId
  rcases compiled : compile source s.nextId with ⟨diagnostics | c, next⟩
  · rw [compiled] at le
    rw [run_of_rejected compiled]
    exact ⟨p, h.later le⟩
  · exact ⟨_, (h.run compiled steps).2⟩

theorem exists_after (h : s.Shows p) (taken : Nat → Nat) (batches : List (Nat × List UInt8)) :
    ∃ p', (s.after taken batches).Shows p' := by
  induction batches generalizing s p taken with
  | nil => exact ⟨p, h.skip _⟩
  | cons batch rest ih =>
    obtain ⟨_, ran⟩ := (h.skip (taken 0)).exists_run batch.1 batch.2
    exact ih ran _

/-- The next number has no distance yet, nor has any number after it. -/
theorem vacant (h : s.Shows p) {id : NodeId} (above : s.nextId ≤ id) :
    s.machine.distances.get? id = none := by
  obtain ⟨_, table, -, loaded, _, linked, -⟩ := h
  have same : s.machine.distances = table := linked.distances
  rw [same]
  exact loaded.new id above

/-- The functions of a session are those of programs that were given their numbers. -/
theorem given (h : s.Shows p) {f : Closure} (held : s.machine.store.Holds f) {ref : Variable}
    (member : ref ∈ Stmt.allReferences f.decl.body) : ref.id < s.nextId := by
  obtain ⟨programs, table, -, loaded, w, linked, -⟩ := h
  obtain ⟨c, -, known⟩ := linked.fits held
  obtain ⟨role, context, occurs⟩ := FunctionDecl.exists_use c member
  obtain ⟨program, loadedProgram, stands⟩ := (known _ occurs).member
  exact loaded.old program loadedProgram ref.id (List.mem_filterMap.2 ⟨_, stands, rfl⟩)

/-- An accepted batch brings distances for its own numbers, and these are new to the table. -/
theorem merged (h : s.Shows p) (compiled : compile source s.nextId = (.ok c, next)) (steps : Nat) :
    Merged s.machine.distances c.distances (s.run steps source).2.machine.distances := by
  have accepted := accepted_of_compile compiled
  have new : ∀ id ∈ c.distances.map (·.1), s.machine.distances.get? id = none :=
    fun id found => h.vacant (accepted.mem_keys found).1
  refine ⟨accepted.nodup_keys, new, fun id d => ?_⟩
  rw [(table_of_compiled compiled steps).2]
  exact Distances.get?_addAll accepted.nodup_keys new id d

theorem keepsDistances (h : s.Shows p) : s.KeepsDistances where
  merges steps source c next compiled := h.merged compiled steps
  rejects steps source diagnostics next rejected := by rw [run_of_rejected rejected]
  programs steps source c next compiled ref member taken batches d := by
    have parsed := (parseSource_ok (compile_ok compiled).1).2
    obtain ⟨above, below⟩ :=
      (references_of_parse parsed).2 ref ((references_perm c.program).mem_iff.2 member)
    have counted := (table_of_compiled compiled steps).1
    rw [(later_after _ taken batches).old ref.id (below.trans_eq counted.symm),
      (h.merged compiled steps).union, h.vacant above]
    exact or_iff_right nofun
  closures f held ref member taken batches :=
    (later_after s taken batches).old ref.id (h.given held member)

end Shows

end Session

/-- References are numbered in the order of their tokens, and no number is given twice. Whatever
token lists are parsed one after the other, with errors or without, no number is twice in their
programs, and numbers grow from one program to the next. In a program they follow on each other as
the tokens do in the source: this is said of the same tokens on lines of their own, which parse to
the same program. An assignment has the number of the variable that it was made from. So between any
two batches of any session, rejected or not, the next table goes into the table beside the entries
that are there, and no batch ever changes the distances of a program or a function before it. -/
theorem references_numbered :
    (∀ (taken : Nat → Nat) (first : NodeId) (runs : List (List Token)),
      (((programsOf (parseAll taken first runs)).flatMap Stmt.allReferences).map (·.id)).Nodup ∧
      ((programsOf (parseAll taken first runs)).flatMap references).Pairwise (·.id < ·.id)) ∧
    (∀ (ts : List Token) (first next : NodeId) (program : List Stmt),
      parse ts first = ⟨.ok program, next⟩ →
        ∃ program', parse (placed ts) first = ⟨.ok program', next⟩ ∧
          Stmt.relabelAll (.lines (lineAt ts)) program' = program ∧
          InSourceOrder (placed ts) first program' next) ∧
    (∀ (n : Nat) (c c' : Cursor) (id : NodeId) (name : Token) (value : Expr),
      Parser.assignment (n + 1) c = .ok (.assign id name value) c' ↔
        ∃ equals d d', Parser.operation n (some .or) c = .ok (.read ⟨id, name⟩) d ∧
          Parser.accept .equal d = .ok (some equals) d' ∧
          Parser.assignment n d' = .ok value c') ∧
    ∀ (sink : Sink) (clock : Nat → Float) (taken : Nat → Nat)
      (batches : List (Nat × List UInt8)),
        ((Session.start sink clock).after taken batches).KeepsDistances := by
  refine ⟨fun taken first runs => ?_, fun ts first next program parsed => ?_,
    fun n c c' id name value => ?_, fun sink clock taken batches => ?_⟩
  · exact ⟨nodup_parseAll taken first runs, (references_parseAll taken first runs).1⟩
  · obtain ⟨program', read, same⟩ := parse_placed parsed
    exact ⟨program', read, same, inSourceOrder_of_parse read⟩
  · exact Parser.assignment_eq_ok_iff
  · obtain ⟨_, shows⟩ := (Session.Shows.start sink clock).exists_after taken batches
    exact shows.keepsDistances

/-- A loop `for (;;a = b) c;`, in whose tree the body stands before the increment. -/
def incrementTokens : List Token :=
  [⟨.kwFor, "for", none, 1⟩, ⟨.leftParen, "(", none, 1⟩, ⟨.semicolon, ";", none, 1⟩,
    ⟨.semicolon, ";", none, 1⟩, ⟨.identifier, "a", none, 1⟩, ⟨.equal, "=", none, 1⟩,
    ⟨.identifier, "b", none, 1⟩, ⟨.rightParen, ")", none, 1⟩, ⟨.identifier, "c", none, 2⟩,
    ⟨.semicolon, ";", none, 2⟩]

def incrementProgram : List Stmt :=
  [.loop (.constant .true) (.block [.expression (.read ⟨2, ⟨.identifier, "c", none, 2⟩⟩),
    .expression (.assign 0 ⟨.identifier, "a", none, 1⟩ (.read ⟨1, ⟨.identifier, "b", none, 1⟩⟩))])]

/-- A function that looks at a variable of the block around it. -/
def enclosedSource : List UInt8 := "\x7bvar a;fun f()\x7ba;\x7d\x7d".toUTF8.data.toList

def enclosedFunction : FunctionDecl :=
  ⟨⟨.identifier, "f", none, 1⟩, [], [.expression (.read ⟨3, ⟨.identifier, "a", none, 1⟩⟩)]⟩

def enclosedProgram : List Stmt :=
  [.block [.var ⟨⟨.identifier, "a", none, 1⟩, none⟩, .function enclosedFunction]]

/-- The session after the block, which is the first batch when three numbers are taken. -/
def enclosedSession : Session :=
  (Session.start .unlimited fun _ => 0).after (fun k => if k = 0 then 3 else 0)
    [(9, enclosedSource)]

/-- The numbers of the loop in the order of its tokens and in the order of its tree, and the
function of the block, which sees its variable one scope further out whatever is run later. -/
theorem references_numbered_loop :
    parse incrementTokens 0 = ⟨.ok incrementProgram, 3⟩ ∧
      (Stmt.allReferences incrementProgram).map (·.id) = [2, 0, 1] ∧
      (∃ program', parse (placed incrementTokens) 0 = ⟨.ok program', 3⟩ ∧
        Stmt.relabelAll (.lines (lineAt incrementTokens)) program' = incrementProgram ∧
        InSourceOrder (placed incrementTokens) 0 program' 3) ∧
      enclosedSession.machine.store.Holds ⟨enclosedFunction, 1, false⟩ ∧
      enclosedSession.machine.distances.get? 3 = some 1 ∧
      ∀ taken batches, (enclosedSession.after taken batches).machine.distances.get? 3 = some 1 := by
  obtain ⟨-, ordered, -, kept⟩ := references_numbered
  have parsed : parse incrementTokens 0 = ⟨.ok incrementProgram, 3⟩ := by cbv
  have compiled : compile enclosedSource 3 = (.ok ⟨enclosedProgram, [(3, 1)]⟩, 4) := by cbv
  have ran : enclosedSession = (((Session.start .unlimited fun _ => 0).skip 4).perform
      (interpret 9 [(3, 1)] enclosedProgram)).2 := by
    have first := Session.run_of_compiled (s := (Session.start .unlimited fun _ => 0).skip 3)
      compiled 9
    exact congrArg (fun ended => ended.2) first
  have function :
      enclosedSession.machine.store.functions[0]? = some ⟨enclosedFunction, 1, false⟩ := by
    rw [ran]
    cbv
  have held : enclosedSession.machine.store.Holds ⟨enclosedFunction, 1, false⟩ :=
    .inl (Array.mem_of_getElem? function)
  have found : enclosedSession.machine.distances.get? 3 = some 1 := by
    rw [ran]
    cbv
  refine ⟨parsed, rfl, ordered _ _ _ _ parsed, held, found, fun taken batches => ?_⟩
  rw [← found]
  exact (kept _ _ _ _).closures _ held ⟨3, _⟩ (.head _) taken batches

end Treewalk
