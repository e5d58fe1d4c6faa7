import Treewalk.Proofs.Run.Platform
import Treewalk.Session

/-!
# Sessions on a platform

An `Engine` is a platform that batches of source can be run on: it says what a batch that compiles
brings along before it is run. The sessions on the machine are those of programs.
-/

namespace Treewalk

structure Engine extends Platform where
  load : Compiled → State → State

/-- The state of an engine, and the number of the next reference. -/
structure Engine.Session (H : Engine) where
  state : H.State
  nextId : NodeId

namespace Engine.Session

variable {H : Engine}

/-- Runs one batch of source with so many steps for each of its statements. -/
def run (steps : Nat) (s : H.Session) (source : List UInt8) : Except Failure Unit × H.Session :=
  match compile source s.nextId with
  | (.error diagnostics, nextId) => (.error (.rejected diagnostics), { s with nextId })
  | (.ok c, nextId) =>
    match H.interpret steps c.program (H.load c s.state) with
    | .ok _ state => (.ok (), ⟨state, nextId⟩)
    | .error stop state => (.error (.stopped stop.diagnostic), ⟨state, nextId⟩)

/-- Runs batches in order, each with its number of steps. -/
def runAll (s : H.Session) : List (Nat × List UInt8) → List (Except Failure Unit) × H.Session
  | [] => ([], s)
  | batch :: rest =>
    let first := s.run batch.1 batch.2
    let others := first.2.runAll rest
    (first.1 :: others.1, others.2)

end Engine.Session

/-- Runs batches in order, each with its number of steps. -/
def Session.runAll (s : Session) : List (Nat × List UInt8) → List (Except Failure Unit) × Session
  | [] => ([], s)
  | batch :: rest =>
    let first := s.run batch.1 batch.2
    let others := first.2.runAll rest
    (first.1 :: others.1, others.2)

/-- The machine as an engine. -/
@[reducible]
def Engine.machine : Engine where
  toPlatform := .machine
  load c m := m.addDistances c.distances

def Session.onEngine (s : Session) : Engine.machine.Session := ⟨s.machine, s.nextId⟩

theorem Session.run_onEngine (steps : Nat) (s : Session) (source : List UInt8) :
    s.onEngine.run steps source = ((s.run steps source).1, (s.run steps source).2.onEngine) := by
  unfold Engine.Session.run Session.run
  show (match compile source s.nextId with | (.error _, _) => _ | (.ok _, _) => _) = _
  cases compile source s.nextId with
  | mk result nextId =>
    cases result with
    | error diagnostics => rfl
    | ok c =>
      simp only [Session.perform, Platform.interpret_machine, Session.onEngine]
      cases Platform.machine.interpret steps c.program (s.machine.addDistances c.distances) <;> rfl

theorem Session.runAll_onEngine (s : Session) (batches : List (Nat × List UInt8)) :
    s.onEngine.runAll batches = ((s.runAll batches).1, (s.runAll batches).2.onEngine) := by
  induction batches generalizing s with
  | nil => rfl
  | cons batch rest ih =>
    rw [Engine.Session.runAll, Session.runAll, Session.run_onEngine, ih]

end Treewalk
