import Mathlib
import Treewalk.Proofs.Batches.Compiled
import Treewalk.Proofs.Batches.Moved
import Treewalk.Proofs.Plain.Faithful
import Treewalk.Proofs.Run.Restored

/-!
# Two batches as one

A session that gets two sources as one batch, with a line feed between them, does what a session
does that gets them one after the other. The distances of the second program that are in the table
too early are not looked at by the first one. In what is said of lines the two sessions differ, and
only where the second source is meant.
-/

namespace Treewalk

open Correspondence

/-! ### Programs behind each other -/

namespace Platform

variable {P : Platform} {steps : Nat} {program more : List Stmt} {s s' : P.State}

theorem executeAll_append : P.executeAll steps (program ++ more) =
    (do P.executeAll steps program; P.executeAll steps more) := List.forM_append

theorem interpret_append_of_ok (ran : P.executeAll steps program s = .ok () s') :
    P.interpret steps (program ++ more) s = P.interpret steps more s' := by
  have both : P.executeAll steps (program ++ more) s = P.executeAll steps more s' := by
    rw [executeAll_append]
    show EStateM.bind _ _ s = _
    rw [EStateM.bind, ran]
  unfold interpret
  rw [both]

theorem interpret_append_of_error {e : Stop} (ran : P.executeAll steps program s = .error e s') :
    P.interpret steps (program ++ more) s = P.interpret steps program s := by
  have both : P.executeAll steps (program ++ more) s = .error e s' := by
    rw [executeAll_append]
    show EStateM.bind _ _ s = _
    rw [EStateM.bind, ran]
  unfold interpret
  rw [both, ran]

/-- A batch that succeeds ran to its end, and was flushed. -/
theorem executeAll_of_interpret_ok (ran : P.interpret steps program s = .ok () s') :
    ∃ t, P.executeAll steps program s = .ok () t ∧ P.flush t = .ok () s' := by
  unfold interpret at ran
  split at ran
  · next t executed => exact ⟨t, executed, ran⟩
  · cases ran
  · next stop t _ _ =>
    have ran : EStateM.bind P.flush (fun _ => EStateM.throw stop) t = .ok () s' := ran
    unfold EStateM.bind at ran
    split at ran <;> cases ran

end Platform

theorem Run.flush_of_none {m : Machine} (flushes : m.sink.flushRefusal = none) :
    Run.flush m = .ok () m := by
  unfold Run.flush
  rw [flushes]

theorem Run.eq_of_flush {m m' : Machine} (flushed : Run.flush m = .ok () m') : m' = m := by
  unfold Run.flush at flushed
  split at flushed <;> cases flushed
  rfl

theorem Keeps.executeAll (steps : Nat) (program : List Stmt) :
    Keeps (Platform.machine.executeAll steps program) := by
  unfold Platform.executeAll
  rw [(Platform.agrees steps).execute]
  exact .statements steps program

namespace Moved

variable {f : Nat → Nat} {extra : List (NodeId × Nat)} {m : Machine} {program : List Stmt}

/-- The end of a run, on other lines and with more distances. -/
def imageEnd (f : Nat → Nat) (extra : List (NodeId × Nat)) :
    EStateM.Result Stop Machine Unit → EStateM.Result Stop Machine Unit
  | .ok a m => .ok a (image f extra m)
  | .error e m => .error (e.relabel (.lines f)) (image f extra m)

theorem end_of_rel {p q : Run Unit}
    (h : (moved f extra).Rel () [] ((moved f extra).Gives []) p q) (good : Good extra m) :
    q (image f extra m) = imageEnd f extra (p m) ∧ ∀ m', p m = .ok () m' → Good extra m' := by
  have ends := h m (image f extra m) ⟨good, rfl⟩ rfl
  match p m, q (image f extra m), ends with
  | .ok _ m', .ok _ _, ⟨_, _, _, _, _, ⟨good', same⟩, _⟩ =>
    subst same
    refine ⟨rfl, fun m'' ran => ?_⟩
    cases ran
    exact good'
  | .error _ _, .error _ _, ⟨stops, _, _, _, _, ⟨_, same⟩, _⟩ =>
    obtain rfl : _ = _ := stops
    subst same
    exact ⟨rfl, nofun⟩

/-- Programs whose references have other numbers than the added distances. -/
theorem allowed_of_apart {o : Occurrence} {os : List Occurrence}
    (apart : ∀ id ∈ os.filterMap Occurrence.id?, id ∉ extra.map (·.1)) (member : o ∈ os) :
    Allowed extra o := by
  intro role ref same
  obtain ⟨mention, context⟩ := o
  obtain rfl : mention = .use role ref := same
  exact apart ref.id (List.mem_filterMap.2 ⟨_, member, rfl⟩)

/-- The functions of a session are placed, whatever distances are added for later programs. -/
theorem good_of_linked {programs : List (List Stmt)} {table : Distances} {w : Link}
    {s : Plain.State} (linked : Plain.Linked (.of programs table) w m s)
    (apart : ∀ program ∈ programs, ∀ id ∈ (occurrences program).filterMap Occurrence.id?,
      id ∉ extra.map (·.1)) : Good extra m := by
  have placed : ∀ {decl : FunctionDecl} {c : Context},
      decl.Fits (Texts.of programs table).named (Texts.of programs table).Knows c →
        decl.Fits (fun _ => True) (Allowed extra) c := by
    rintro decl c ⟨tidy, known⟩
    refine ⟨tidy, fun o occurs role ref same => ?_⟩
    obtain ⟨program, member, stands⟩ := (known o occurs).member
    exact allowed_of_apart (apart program member) stands role ref same
  constructor
  · intro g member
    obtain ⟨c, fits⟩ := linked.fits (.inl member)
    exact ⟨c, placed fits⟩
  · intro k member x g own
    obtain ⟨c, fits⟩ := linked.fits (.inr ⟨k, member, x, own⟩)
    exact ⟨c, placed fits⟩

theorem good_relabel (r : Relabel) (good : Good extra m) : Good [] (m.relabel r) := by
  have placed : ∀ {g : Closure}, Placed extra g → Placed [] (g.relabel r) := by
    rintro g ⟨c, tidy, -⟩
    refine ⟨c, (FunctionDecl.tidy_relabel g.decl).2 tidy, fun o _ role ref _ => ?_⟩
    exact List.not_mem_nil
  constructor
  · intro g member
    obtain ⟨g, old, rfl⟩ := Array.mem_map.1 member
    exact placed (good.functions g old)
  · intro k member x g own
    obtain ⟨k, old, rfl⟩ := Array.mem_map.1 member
    have own : (k.methods.map (Closure.relabel r)).get? x = some g := own
    rw [Bindings.get?_map] at own
    obtain ⟨h, first, rfl⟩ := Option.map_eq_some_iff.1 own
    exact placed (good.methods k old x h first)

theorem image_identity (m : Machine) (extra : List (NodeId × Nat)) :
    image (fun line => line) extra m = m.addDistances extra := by
  show (m.relabel .identity).addDistances extra = _
  rw [Machine.relabel_identity]

/-- A run with distances in the table that it does not look at. -/
theorem end_of_rel_early {run : List Stmt → Run Unit}
    (h : (moved (fun line => line) extra).Rel () [] ((moved (fun line => line) extra).Gives [])
      (run program) (run (program.map (Stmt.relabel .identity)))) (good : Good extra m) :
    run program (m.addDistances extra) = imageEnd (fun line => line) extra (run program m) ∧
      ∀ m', run program m = .ok () m' → Good extra m' := by
  have ends := end_of_rel h good
  rw [image_identity, ← Stmt.relabelAll_eq_map, Stmt.relabelAll_identity] at ends
  exact ends

theorem Good.addDistances (good : Good extra m) (found : List (NodeId × Nat)) :
    Good extra (m.addDistances found) := ⟨good.functions, good.methods⟩

end Moved

/-! ### Lines of two sources -/

/-- A run that ends on other lines. -/
def Run.endingOn (f : Nat → Nat) (run : Run Unit) : Run Unit := fun m => Moved.imageEnd f [] (run m)

/-- A line of what was there before, told apart from new ones. -/
def oldLine (line : Nat) : Nat := 2 * line

/-- A line of what is new. -/
def newLine (line : Nat) : Nat := 2 * line + 1

/-- Both in one text: old lines as they were, new ones so far below. -/
def below (offset line : Nat) : Nat := line / 2 + line % 2 * offset

theorem below_oldLine (offset line : Nat) : below offset (oldLine line) = line := by
  unfold below oldLine
  rw [Nat.mul_mod_right, Nat.mul_div_cancel_left line Nat.two_pos, Nat.zero_mul, Nat.add_zero]

theorem below_newLine (offset line : Nat) : below offset (newLine line) = line + offset := by
  unfold below newLine
  have half : (2 * line + 1) / 2 = line := by omega
  rw [half, Nat.mul_add_mod, Nat.one_mul]

/-! ### The two sessions -/

variable {first mid last : NodeId} {a b : Compiled} {m m' : Machine} {steps : Nat}

theorem Machine.addDistances_append (m : Machine) (found more : List (NodeId × Nat)) :
    m.addDistances (found ++ more) = (m.addDistances found).addDistances more := by
  unfold Machine.addDistances
  rw [List.foldl_append]

/-- A program that is run on lines of its own, before the lines are laid out. -/
theorem interpret_laid_out {extra : List (NodeId × Nat)} (good : Moved.Good extra m)
    (accepted : Accepted mid b last) (offset steps : Nat) :
    interpret steps b.distances (Stmt.relabelAll (.later offset) b.program) m =
      Run.endingOn (below offset)
        (interpret steps b.distances (Stmt.relabelAll (.lines newLine) b.program))
        (m.relabel (.lines oldLine)) := by
  have start : Moved.image (below offset) [] ((m.relabel (.lines oldLine)).addDistances b.distances)
      = m.addDistances b.distances := by
    show ((m.relabel (.lines oldLine)).relabel (.lines (below offset))).addDistances _ = _
    rw [Machine.relabel_relabel, Relabel.lines_andThen_undo (below_oldLine offset),
      Machine.relabel_identity]
  have program : Stmt.relabelAll (.lines (below offset))
      (Stmt.relabelAll (.lines newLine) b.program) = Stmt.relabelAll (.later offset) b.program := by
    have lines : (Relabel.lines newLine).andThen (.lines (below offset)) = .later offset :=
      congrArg Relabel.lines (funext (below_newLine offset))
    rw [Stmt.relabelAll_relabelAll, lines]
  have tidy : Stmt.AllTidy (fun _ => True) (Stmt.relabelAll (.lines newLine) b.program) :=
    (Stmt.allTidy_relabel b.program).2
      (Stmt.allTidy_of_regular [] _ accepted.regular fun _ _ _ _ => trivial)
  have old : Moved.Good [] ((m.relabel (.lines oldLine)).addDistances b.distances) :=
    (Moved.good_relabel (.lines oldLine) good).addDistances b.distances
  have ends := (Moved.end_of_rel ((Moved.simulation (below offset) []).rel_interpret steps
    (Stmt.relabelAll (.lines newLine) b.program)
    ⟨tidy, fun _ _ _ _ _ => List.not_mem_nil⟩) old).1
  rw [← Stmt.relabelAll_eq_map, program, start] at ends
  rw [Run.endingOn, Platform.interpret_machine, Platform.interpret_machine]
  exact ends

theorem Relabel.later_zero : Relabel.later 0 = .identity := rfl

theorem perform_laid_out {extra : List (NodeId × Nat)} (good : Moved.Good extra m)
    (accepted : Accepted mid b last) (offset steps : Nat) :
    (Session.mk m last).perform
        (interpret steps b.distances (Stmt.relabelAll (.later offset) b.program)) =
      (Session.mk (m.relabel (.lines oldLine)) last).perform (Run.endingOn (below offset)
        (interpret steps b.distances (Stmt.relabelAll (.lines newLine) b.program))) := by
  unfold Session.perform
  dsimp only
  rw [interpret_laid_out good accepted]

/-- Lines are not printed. -/
theorem output_endingOn (s : Session) (f : Nat → Nat) (run : Run Unit) :
    (s.perform (Run.endingOn f run)).2.output = (s.perform run).2.output := by
  unfold Session.perform Run.endingOn
  cases run s.machine <;> rfl

section

variable {extra : List (NodeId × Nat)} (accepted : Accepted first a mid)
  (apart : ∀ id ∈ (occurrences a.program).filterMap Occurrence.id?, id ∉ extra.map (·.1))
include accepted apart

theorem Accepted.fits_moved (f : Nat → Nat) : (Moved.moved f extra).AllFit [] a.program :=
  ⟨Stmt.allTidy_of_regular [] _ accepted.regular fun _ _ _ _ => trivial,
    fun _ member => Moved.allowed_of_apart apart member⟩

/-- Distances of later references may be in the table early: statements run as they would. -/
theorem executeAll_early (good : Moved.Good extra m) (steps : Nat) :
    Platform.machine.executeAll steps a.program (m.addDistances extra) =
        Moved.imageEnd (fun line => line) extra (Platform.machine.executeAll steps a.program m) ∧
      ∀ m', Platform.machine.executeAll steps a.program m = .ok () m' → Moved.Good extra m' :=
  Moved.end_of_rel_early
    ((Moved.simulation _ extra).rel_executeAll steps a.program (accepted.fits_moved apart _)) good

theorem interpret_early (good : Moved.Good extra m) (steps : Nat) :
    Platform.machine.interpret steps a.program (m.addDistances extra) =
      Moved.imageEnd (fun line => line) extra (Platform.machine.interpret steps a.program m) :=
  (Moved.end_of_rel_early
    ((Moved.simulation _ extra).rel_interpret steps a.program (accepted.fits_moved apart _)) good).1

end

section

variable (accepted : Accepted first a mid) (good : Moved.Good b.distances m)
  (apart : ∀ id ∈ (occurrences a.program).filterMap Occurrence.id?, id ∉ b.distances.map (·.1))
include accepted good apart

/-- If the first program succeeds, the second one goes on where it ended. -/
theorem interpret_seam_of_ok (ran : interpret steps a.distances a.program m = .ok () m')
    (more : List Stmt) :
    interpret steps (a.distances ++ b.distances) (a.program ++ more) m =
      interpret steps b.distances more m' ∧ Moved.Good b.distances m' := by
  rw [Platform.interpret_machine] at ran
  obtain ⟨t, executed, flushed⟩ := Platform.executeAll_of_interpret_ok ran
  obtain rfl := Run.eq_of_flush flushed
  obtain ⟨early, behind⟩ :=
    executeAll_early accepted apart (good.addDistances a.distances) steps
  rw [executed, Moved.imageEnd, Moved.image_identity] at early
  rw [Platform.interpret_machine, Platform.interpret_machine, Machine.addDistances_append,
    Platform.interpret_append_of_ok early]
  exact ⟨rfl, behind m' executed⟩

/-- If the first program fails, nothing of the second one is run. -/
theorem interpret_seam_of_error {e : Stop} (flushes : m.sink.flushRefusal = none)
    (ran : interpret steps a.distances a.program m = .error e m') (more : List Stmt) :
    interpret steps (a.distances ++ b.distances) (a.program ++ more) m =
      .error e (m'.addDistances b.distances) := by
  have early := executeAll_early accepted apart (good.addDistances a.distances) steps
  have whole := interpret_early accepted apart (good.addDistances a.distances) steps
  rw [Platform.interpret_machine] at ran
  rw [Platform.interpret_machine, Machine.addDistances_append]
  cases executed : Platform.machine.executeAll steps a.program (m.addDistances a.distances) with
  | ok _ t =>
    -- What runs to its end can be flushed, as it could be before.
    have kept := Keeps.executeAll steps a.program (m.addDistances a.distances)
    rw [executed] at kept
    have flushed := Run.flush_of_none (kept.flush.trans flushes)
    rw [Platform.interpret, executed] at ran
    cases flushed.symm.trans ran
  | error stop t =>
    rw [executed] at early
    rw [Platform.interpret_append_of_error early.1, whole, ran, Moved.imageEnd,
      Moved.image_identity]
    cases e <;> rfl

end

/-- In every session two sources that compile do together, with a line feed between them, what they
do one after the other. If the first one fails, it fails in the same way, and nothing of the second
one is run. If it succeeds, there is one run of the second one, with new lines where all that there
was has old ones, that both sessions end with: only where new lines stand is the one lower than the
other, by the line feeds of the first source and the one behind it. -/
theorem batches_compose (sink : Sink) (clock : Nat → Float) (batches : List (Nat × List UInt8))
    (source more : List UInt8) {a b : Compiled} {mid last : NodeId} (steps : Nat)
    (flushes : ((Session.start sink clock).runAll batches).2.machine.sink.flushRefusal = none)
    (compiled : compile source ((Session.start sink clock).runAll batches).2.nextId = (.ok a, mid))
    (compiled' : compile more mid = (.ok b, last)) :
    let session := ((Session.start sink clock).runAll batches).2
    let first := session.run steps source
    let second := first.2.run steps more
    let both := session.run steps (source ++ Source.lineFeed :: more)
    (∀ failure, first.1 = .error failure →
      both = (.error failure, ⟨first.2.machine.addDistances b.distances, last⟩)) ∧
    (first.1 = .ok () →
      let start : Session := ⟨first.2.machine.relabel (.lines oldLine), last⟩
      let run := interpret steps b.distances (Stmt.relabelAll (.lines newLine) b.program)
      second = start.perform (Run.endingOn (below 0) run) ∧
      both = start.perform (Run.endingOn (below (Source.linesIn source + 1)) run) ∧
      both.2.output = second.2.output) := by
  have accepted := accepted_of_compile compiled
  have accepted' := accepted_of_compile compiled'
  have joined := compile_seam compiled compiled'
  obtain ⟨programs, table, w, s, loaded, linked, -⟩ := Plain.linked_runAll sink clock batches
  generalize ((Session.start sink clock).runAll batches).2 = session
    at flushes compiled accepted joined loaded linked ⊢
  have apart : ∀ id ∈ (occurrences a.program).filterMap Occurrence.id?,
      id ∉ b.distances.map (·.1) := fun id own found =>
    absurd (accepted'.mem_keys found).1 (Nat.not_le_of_lt (accepted.mem_range own).2)
  have good : Moved.Good b.distances session.machine := by
    refine Moved.good_of_linked linked fun program member id own found => ?_
    have before := loaded.old program member id own
    have behind := Nat.le_trans accepted.le (accepted'.mem_keys found).1
    exact absurd before (Nat.not_lt_of_le behind)
  have ranFirst : session.run steps source = { session with nextId := mid }.perform
      (interpret steps a.distances a.program) := by
    rw [Session.run, compiled]
  have ranBoth : session.run steps (source ++ Source.lineFeed :: more) =
      { session with nextId := last }.perform (interpret steps (a.distances ++ b.distances)
        (a.program ++ Stmt.relabelAll (.later (Source.linesIn source + 1)) b.program)) := by
    rw [Session.run, joined]
  dsimp only
  rw [ranFirst, ranBoth]
  cases ran : interpret steps a.distances a.program session.machine with
  | error e m' =>
    have stopped := interpret_seam_of_error accepted good apart flushes ran
      (Stmt.relabelAll (.later (Source.linesIn source + 1)) b.program)
    simp only [Session.perform, ran, stopped]
    constructor
    · intro failure same
      cases same
      rfl
    · intro same
      cases same
  | ok _ m' =>
    obtain ⟨goesOn, good'⟩ := interpret_seam_of_ok accepted good apart ran
      (Stmt.relabelAll (.later (Source.linesIn source + 1)) b.program)
    have performed : { session with nextId := mid }.perform
        (interpret steps a.distances a.program) = (.ok (), ⟨m', mid⟩) := by
      simp only [Session.perform, ran]
    have second : Session.run steps ⟨m', mid⟩ more =
        (Session.mk m' last).perform (interpret steps b.distances b.program) := by
      rw [Session.run, compiled']
    have both : { session with nextId := last }.perform (interpret steps
          (a.distances ++ b.distances)
          (a.program ++ Stmt.relabelAll (.later (Source.linesIn source + 1)) b.program)) =
        (Session.mk m' last).perform (interpret steps b.distances
          (Stmt.relabelAll (.later (Source.linesIn source + 1)) b.program)) := by
      simp only [Session.perform, goesOn]
    have above := perform_laid_out good' accepted' 0 steps
    rw [Relabel.later_zero, Stmt.relabelAll_identity] at above
    rw [performed]
    dsimp only
    constructor
    · intro failure same
      cases same
    · intro _
      rw [second, both, above, perform_laid_out good' accepted']
      exact ⟨rfl, rfl, by rw [output_endingOn, output_endingOn]⟩

/-- A function that looks at a global that there is not. -/
def definingSource : List UInt8 := "fun f()\x7bg;\x7d".toUTF8.data.toList

/-- A call of the function, which stops on the line of the function. -/
def callingSource : List UInt8 := "f();".toUTF8.data.toList

def definingProgram : List Stmt :=
  [.function ⟨⟨.identifier, "f", none, 1⟩, [],
    [.expression (.read ⟨0, ⟨.identifier, "g", none, 1⟩⟩)]⟩]

def callingProgram : List Stmt :=
  [.expression (.call (.read ⟨1, ⟨.identifier, "f", none, 1⟩⟩) ⟨.rightParen, ")", none, 1⟩ [])]

/-- The call behind the function, in one batch and in two. -/
theorem batches_compose_calling :
    let session := ((Session.start .unlimited fun _ => 0).runAll []).2
    let first := session.run 9 definingSource
    let second := first.2.run 9 callingSource
    let both := session.run 9 (definingSource ++ Source.lineFeed :: callingSource)
    let start : Session := ⟨first.2.machine.relabel (.lines oldLine), 2⟩
    let run := interpret 9 [] (Stmt.relabelAll (.lines newLine) callingProgram)
    session.machine.sink.flushRefusal = none ∧
      compile definingSource session.nextId = (.ok ⟨definingProgram, []⟩, 1) ∧
      compile callingSource 1 = (.ok ⟨callingProgram, []⟩, 2) ∧ first.1 = .ok () ∧
      second = start.perform (Run.endingOn (below 0) run) ∧
      both = start.perform (Run.endingOn (below (Source.linesIn definingSource + 1)) run) ∧
      both.2.output = second.2.output := by
  have compiled :
      compile definingSource ((Session.start .unlimited fun _ => 0).runAll []).2.nextId =
        (.ok ⟨definingProgram, []⟩, 1) := by
    show compile definingSource 0 = _
    cbv
  have compiled' : compile callingSource 1 = (.ok ⟨callingProgram, []⟩, 2) := by cbv
  have succeeds : (((Session.start .unlimited fun _ => 0).runAll []).2.run 9 definingSource).1 =
      .ok () := by
    rw [Session.run, compiled]
    rfl
  have composed := batches_compose .unlimited (fun _ => 0) [] definingSource callingSource 9 rfl
    compiled compiled'
  exact ⟨rfl, compiled, compiled', succeeds, composed.2 succeeds⟩

end Treewalk
