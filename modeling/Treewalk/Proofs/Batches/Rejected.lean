import Treewalk.Proofs.Batches.Renumbered
import Treewalk.Proofs.Plain.Unseen

/-!
# Rejected batches

A batch that does not compile takes numbers and does nothing else. Numbers tell the references of
one program apart and nothing is read off them, so what is left of a session without its rejected
batches runs as it did. The two sessions are compared on the plain interpreter, which knows nothing
of distances: there they are in the same state, but for the numbers in the texts of functions.
-/

namespace Treewalk

/-- What is seen of a batch: how it ended, and what the session had printed before it and after. -/
structure BatchReport where
  batch : Nat × List UInt8
  result : Except Failure Unit
  before : Sink
  after : Sink

/-- The batch compiled, and so it was run. -/
def BatchReport.accepted (report : BatchReport) : Bool :=
  match report.result with
  | .error (.rejected _) => false
  | .ok _ | .error (.stopped _) => true

namespace Session

/-- The session when so many numbers were taken elsewhere. -/
def skip (n : Nat) (s : Session) : Session := { s with nextId := s.nextId + n }

/-- The session with another sink. -/
def withSink (sink : Sink) (s : Session) : Session :=
  { s with machine := { s.machine with sink } }

/-- Runs batches in order and reports on each of them. As the numbers are those of all sessions,
`taken` says how many are taken elsewhere before the first batch, before the second one, and so
on. -/
def reports (s : Session) (taken : Nat → Nat) : List (Nat × List UInt8) → List BatchReport
  | [] => []
  | batch :: rest =>
    let ran := (s.skip (taken 0)).run batch.1 batch.2
    ⟨batch, ran.1, s.machine.sink, ran.2.machine.sink⟩ ::
      ran.2.reports (fun k => taken (k + 1)) rest

/-- When no numbers are taken elsewhere the reports are those of the session. -/
theorem reports_result (s : Session) (batches : List (Nat × List UInt8)) :
    (s.reports (fun _ => 0) batches).map BatchReport.result = (s.runAll batches).1 := by
  induction batches generalizing s with
  | nil => rfl
  | cons batch rest ih => exact congrArg _ (ih _)

end Session

/-! ### One state under two numberings -/

theorem Engine.run_of_compiled {H : Engine} {s : H.Session} {source : List UInt8}
    {c : Compiled} {next : NodeId} (compiled : compile source s.nextId = (.ok c, next))
    (steps : Nat) :
    s.run steps source =
      (resultOf (H.interpret steps c.program (H.load c s.state)),
        ⟨endState (H.interpret steps c.program (H.load c s.state)), next⟩) := by
  rw [Engine.Session.run, compiled]
  dsimp only
  cases H.interpret steps c.program (H.load c s.state) <;> rfl

variable {s t : Session} {p q : Plain.State} {source : List UInt8} {first next : NodeId}
  {c : Compiled} {diagnostics : List Diagnostic}

theorem Session.run_of_compiled (compiled : compile source s.nextId = (.ok c, next)) (steps : Nat) :
    s.run steps source =
      { s with nextId := next }.perform (interpret steps c.distances c.program) := by
  rw [Session.run, compiled]

theorem Session.run_of_rejected (rejected : compile source s.nextId = (.error diagnostics, next))
    (steps : Nat) :
    s.run steps source = (.error (.rejected diagnostics), { s with nextId := next }) := by
  rw [Session.run, rejected]

/-- A state of the plain interpreter that a session is in, whatever it has counted to. -/
def Session.Shows (s : Session) (p : Plain.State) : Prop :=
  ∃ programs table, Plain.lockstep.Between s.onEngine ⟨p, s.nextId⟩ programs table

namespace Session.Shows

theorem start (sink : Sink) (clock : Nat → Float) :
    (Session.start sink clock).Shows (.initial sink clock) :=
  ⟨[], ∅, Plain.between_start sink clock⟩

theorem sink (h : s.Shows p) : s.machine.sink = p.sink := by
  obtain ⟨_, _, -, -, _, linked, -⟩ := h
  exact linked.rest.sink.symm

/-- Between batches the plain interpreter is in no scope. -/
theorem top (h : s.Shows p) : p.env = none := by
  obtain ⟨_, _, -, -, _, -, here⟩ := h
  exact here.top.2 rfl

theorem later (h : s.Shows p) (le : s.nextId ≤ next) : { s with nextId := next }.Shows p := by
  obtain ⟨programs, table, -, loaded, states⟩ := h
  exact ⟨programs, table, rfl, loaded.later le, states⟩

theorem skip (h : s.Shows p) (n : Nat) : (s.skip n).Shows p := h.later (Nat.le_add_right _ _)

theorem run (h : s.Shows p) (compiled : compile source s.nextId = (.ok c, next)) (steps : Nat) :
    (s.run steps source).1 = resultOf (Plain.platform.interpret steps c.program p) ∧
      (s.run steps source).2.Shows (endState (Plain.platform.interpret steps c.program p)) := by
  obtain ⟨programs, table, between⟩ := h
  obtain ⟨same, -, programs', table', after⟩ := between.run steps source
  rw [Session.run_onEngine] at same after
  rw [Engine.run_of_compiled compiled] at same after
  refine ⟨same, programs', table', ?_⟩
  have counted : (s.run steps source).2.nextId = next := after.nextId
  rw [counted]
  exact after

end Session.Shows

theorem Relabel.keeps_renumbered {number : NodeId → NodeId} {f : Nat → Nat} :
    (o : Occurrence) → (Relabel.renumbered number f).Keeps o
  | ⟨.use .read _, _⟩ | ⟨.use .write _, _⟩ =>
    ⟨congrArg (List.idxOf _) (List.map_id' _), fun _ => rfl⟩
  | ⟨.use .this _, _⟩ | ⟨.use .super _, _⟩ => trivial
  | ⟨.declare _, _⟩ => fun _ => rfl

namespace Plain

variable {number : NodeId → NodeId} {f : Nat → Nat}

theorem apart_renumbered : Apart (.renumbered number f) := ⟨fun _ => rfl, fun _ same => same⟩

/-- Where no name changes, every program that resolves fits. -/
theorem allFit_renumbered (accepted : Accepted first c next) :
    (image (.renumbered number f)).AllFit [] c.program :=
  ⟨Stmt.allTidy_renumbered accepted.regular, fun o member =>
    ⟨accepted.admissible o member, accepted.lexed o member, Relabel.keeps_renumbered o⟩⟩

theorem good_renumbered (h : s.Shows p) : Good (.renumbered number f) p := by
  obtain ⟨programs, table, -, -, w, linked, -⟩ := h
  refine .of_linked linked fun {c decl} fits => ?_
  obtain ⟨tidy, known⟩ := fits
  refine ⟨?_, fun o occurs => ?_⟩
  · exact FunctionDecl.tidy_of_regular c decl (FunctionDecl.regular_of_tidy decl tidy)
      fun _ _ _ _ => rfl
  · exact ⟨(known o occurs).admissible, (known o occurs).lexed, Relabel.keeps_renumbered o⟩

/-- A run under other numbers ends as the run does. -/
theorem interpret_unnumbered (h : s.Shows p) (accepted : Accepted first c next) (steps : Nat) :
    Plain.platform.interpret steps (Stmt.relabelAll .unnumbered c.program)
        (p.relabel .unnumbered) =
      endingWith (State.relabel .unnumbered) (Plain.platform.interpret steps c.program p) :=
  interpret_image apart_renumbered rfl (good_renumbered h) h.top (allFit_renumbered accepted) steps

end Plain

/-- Two sessions in the same state, which may have counted to different numbers. -/
def Session.Alike (s t : Session) : Prop :=
  ∃ p q, s.Shows p ∧ t.Shows q ∧ p.relabel .unnumbered = q.relabel .unnumbered

namespace Session.Alike

theorem sink (h : s.Alike t) : s.machine.sink = t.machine.sink := by
  obtain ⟨p, q, shows, shows', same⟩ := h
  rw [shows.sink, shows'.sink]
  show (p.relabel .unnumbered).sink = (q.relabel .unnumbered).sink
  rw [same]

theorem skip (h : s.Alike t) (n n' : Nat) : (s.skip n).Alike (t.skip n') := by
  obtain ⟨p, q, shows, shows', same⟩ := h
  exact ⟨p, q, shows.skip n, shows'.skip n', same⟩

/-- A batch that the one session rejects leaves it like the other one. -/
theorem rejected (h : s.Alike t) (rejected : compile source s.nextId = (.error diagnostics, next))
    (steps : Nat) : (s.run steps source).2.Alike t := by
  obtain ⟨p, q, shows, shows', same⟩ := h
  have le := compile_nextId source s.nextId
  rw [rejected] at le
  rw [run_of_rejected rejected]
  exact ⟨p, q, shows.later le, shows', same⟩

/-- A batch that the one session accepts does the same in the other one. -/
theorem run (h : s.Alike t) (compiled : compile source s.nextId = (.ok c, next)) (steps : Nat) :
    (t.run steps source).1 = (s.run steps source).1 ∧
      (s.run steps source).2.Alike (t.run steps source).2 := by
  obtain ⟨p, q, shows, shows', same⟩ := h
  obtain ⟨c', next', compiled', program⟩ := compile_renumbered compiled t.nextId
  obtain ⟨result, after⟩ := shows.run compiled steps
  obtain ⟨result', after'⟩ := shows'.run compiled' steps
  -- Without the numbers the two runs are the same run.
  have ends : endingWith (Plain.State.relabel .unnumbered)
        (Plain.platform.interpret steps c'.program q) =
      endingWith (Plain.State.relabel .unnumbered)
        (Plain.platform.interpret steps c.program p) := by
    rw [← Plain.interpret_unnumbered shows' (accepted_of_compile compiled'),
      ← Plain.interpret_unnumbered shows (accepted_of_compile compiled), program, same]
  have results := congrArg resultOf ends
  have states := congrArg endState ends
  rw [resultOf_endingWith, resultOf_endingWith] at results
  rw [endState_endingWith, endState_endingWith] at states
  exact ⟨by rw [result, result', results], _, _, after, after', states.symm⟩

/-- What the one session accepts the other one reports alike when it gets nothing else. -/
theorem reports (h : s.Alike t) (batches : List (Nat × List UInt8)) (taken taken' : Nat → Nat) :
    t.reports taken'
        (((s.reports taken batches).filter BatchReport.accepted).map BatchReport.batch) =
      (s.reports taken batches).filter BatchReport.accepted := by
  induction batches generalizing s t taken taken' with
  | nil => rfl
  | cons batch rest ih =>
    obtain ⟨steps, source⟩ := batch
    rw [Session.reports]
    dsimp only
    rcases compiled : compile source (s.skip (taken 0)).nextId with ⟨diagnostics | c, next⟩
    · have after := (h.skip (taken 0) 0).rejected compiled steps
      rw [List.filter_cons_of_neg (by rw [run_of_rejected compiled]; exact Bool.false_ne_true)]
      exact ih after _ _
    · obtain ⟨same, after⟩ := (h.skip (taken 0) (taken' 0)).run compiled steps
      have accepted : BatchReport.accepted ⟨(steps, source),
          ((s.skip (taken 0)).run steps source).1, s.machine.sink,
          ((s.skip (taken 0)).run steps source).2.machine.sink⟩ = true := by
        obtain ⟨p, q, shows, -, -⟩ := h.skip (taken 0) 0
        rw [BatchReport.accepted, (shows.run compiled steps).1]
        cases Plain.platform.interpret steps c.program p <;> rfl
      rw [List.filter_cons_of_pos accepted, List.map_cons, Session.reports]
      dsimp only
      rw [ih after _ _, same, h.sink, after.sink]

end Session.Alike

/-- A session without its rejected batches gives the results and prints the output that it gives
with them, whatever numbers are taken elsewhere in the one or in the other: no run depends on
numbers. A batch that is rejected leaves the machine as it is, and is rejected with the same errors
whatever its sink refuses, a flush included; so it neither prints nor flushes. -/
theorem rejected_unseen (sink : Sink) (clock : Nat → Float) (batches : List (Nat × List UInt8))
    (taken taken' : Nat → Nat) :
    let session := Session.start sink clock
    let kept := (session.reports taken batches).filter BatchReport.accepted
    session.reports taken' (kept.map BatchReport.batch) = kept ∧
      ∀ (s : Session) steps source diagnostics s',
        s.run steps source = (.error (.rejected diagnostics), s') →
          s'.machine = s.machine ∧ ∀ other,
            (s.withSink other).run steps source =
              (.error (.rejected diagnostics), s'.withSink other) := by
  refine ⟨?_, fun s steps source diagnostics s' ran => ?_⟩
  · have start := Session.Shows.start sink clock
    have alike : (Session.start sink clock).Alike (Session.start sink clock) :=
      ⟨_, _, start, start, rfl⟩
    exact alike.reports batches taken taken'
  · rcases compiled : compile source s.nextId with ⟨diagnostics' | c, next⟩
    · rw [Session.run_of_rejected compiled] at ran
      cases ran
      refine ⟨rfl, fun other => ?_⟩
      exact Session.run_of_rejected (s := s.withSink other) compiled steps
    · rw [Session.run, compiled] at ran
      dsimp only [Session.perform] at ran
      split at ran <;> cases ran

end Treewalk
