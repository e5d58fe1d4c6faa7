import Treewalk.Proofs.Scope.Mirror
import Treewalk.Proofs.Scope.Returns

/-!
# What every use finds

For every session, and for every point of it at which a variable, `this` or `super` is used: the
distance in the table leads to the activation of the scope that declares the name.
-/

namespace Treewalk

open Run

namespace Point

/-- The frames from `f` outwards are the activations of these scopes, one for one, and then the
globals; each binds what is declared in its scope before the use. -/
def Mirrors (p : Point) : Context → FrameId → Prop
  | [], f => f = p.machine.globals
  | s :: outer, f => p.siteOf f = some s.site ∧
      (∀ x ∈ s.names, (p.machine.store.frames.lookup? f x).isSome) ∧
      ∃ g, p.machine.store.frames.parent? f = some g ∧ p.Mirrors outer g

/-- So many frames out the use finds the activation of the innermost scope that declares its name,
where the name is bound if it is read. -/
structure Finds (p : Point) (role : Role) (around : Context) (distance : Nat) : Prop where
  activation : ∃ scope frame, around[distance]? = some scope ∧ scope.Declares p.ref.name.lexeme ∧
    (∀ nearer ∈ around.take distance, ¬ nearer.Declares p.ref.name.lexeme) ∧
    p.machine.store.frames.ancestor? p.machine.env distance = some frame ∧
    p.siteOf frame = some scope.site ∧
    (role ≠ .write → ∃ value, p.machine.store.frames.lookup? frame p.ref.name.lexeme = some value)
  read : role ≠ .write → ∃ value, readVariable p.ref.id p.ref.name p.machine = .ok value p.machine
  write : ∀ value, ∃ m, assignVariable p.ref.id p.ref.name value p.machine = .ok () m

variable {p : Point} {c : Context} {f : FrameId}

theorem mirrors_of_chain (globals : p.machine.globals = 0) (h : p.layout.Chain c f) :
    p.Mirrors c f := by
  induction c generalizing f with
  | nil => exact h.trans globals.symm
  | cons s outer ih =>
    obtain ⟨active, g, parent, rest⟩ := h
    refine ⟨active.site, fun x member => ?_, g, parent, ih rest⟩
    obtain ⟨value, bound, -⟩ := active.names x member
    exact Option.isSome_iff_exists.2 ⟨value, bound⟩

/-- No use but an assignment stands where its name is only about to be declared. -/
theorem complete_of_admissible {role : Role} {ref : Variable} {l : Layout}
    (admissible : Occurrence.Admissible ⟨.use role ref, c⟩) (lexed : (Mention.use role ref).Lexed)
    (chain : l.Chain c f) (reads : role ≠ .write) :
    ∀ s ∈ c, s.pending ≠ some ref.name.lexeme := by
  cases role with
  | read => exact admissible
  | write => exact absurd rfl reads
  | this =>
    have lexeme : ref.name.lexeme = thisName := lexed
    exact chain.pending_ne fun ordinary => ordinary.1 lexeme
  | super =>
    have lexeme : ref.name.lexeme = superName := lexed
    exact chain.pending_ne fun ordinary => ordinary.2 lexeme

theorem finds_of_chain {role : Role} {distance : Nat}
    (admissible : Occurrence.Admissible ⟨.use role p.ref, c⟩)
    (lexed : (Mention.use role p.ref).Lexed) (chain : p.layout.Chain c p.machine.env)
    (found : p.machine.distances.get? p.ref.id = some distance)
    (place : c.distance? p.ref.name.lexeme = some distance) : p.Finds role c distance := by
  obtain ⟨scope, at_, declares, nearer⟩ := Context.distance?_eq_some place
  obtain ⟨frame, ancestor, active, -⟩ := chain.ancestor at_
  have ancestor : p.machine.store.frames.ancestor? p.machine.env distance = some frame := ancestor
  have bound : role ≠ .write →
      ∃ value, p.machine.store.frames.getAt? p.machine.env distance p.ref.name.lexeme =
        some value := fun reads => by
    obtain ⟨value, bound, -⟩ :=
      chain.getAt? place (complete_of_admissible admissible lexed chain reads)
    exact ⟨value, bound⟩
  refine ⟨⟨scope, frame, at_, declares, nearer, ancestor, active.site, fun reads => ?_⟩,
    fun reads => ?_, fun value => ?_⟩
  · obtain ⟨value, bound⟩ := bound reads
    rw [Frames.getAt?, ancestor, Option.bind_some] at bound
    exact ⟨value, bound⟩
  · obtain ⟨value, bound⟩ := bound reads
    exact ⟨value, by simp only [readVariable, found, bound]⟩
  · have assigned : assignedFrame? p.machine p.ref.id p.ref.name.lexeme = some frame := by
      simp only [assignedFrame?, found, ancestor]
    refine ⟨{ p.machine with store := p.machine.store.define frame p.ref.name.lexeme value }, ?_⟩
    simp only [assignVariable, bind, EStateM.bind, gets, assigned]
    rfl

end Point

namespace Recorder

/-- A record between batches stays right when a program is loaded. -/
theorem Inv.load {programs : List (List Stmt)} {table : Distances} {r : Recorder}
    {next next' : NodeId} {c : Compiled} (h : Inv (.of programs table) r)
    (loaded : Loaded next programs table) (accepted : Accepted next c next') :
    Inv (.of (c.program :: programs) (table.addAll c.distances)) (Engine.recorder.load c r) where
  listed := congrArg _ h.listed
  distances := congrArg (Distances.addAll · c.distances) h.distances
  globals := h.globals
  placed := h.placed
  heap := by
    refine ⟨fun f member => ?_, fun cls member name method found => ?_⟩
    · obtain ⟨c, chain, tidy, known⟩ := h.heap.functions f member
      exact ⟨c, chain, tidy, fun o occurs => loaded.knows accepted (known o occurs)⟩
    · obtain ⟨c, chain, tidy, known⟩ := h.heap.methods cls member name method found
      exact ⟨c, chain, tidy, fun o occurs => loaded.knows accepted (known o occurs)⟩
  points p member := by
    obtain ⟨globals, program, listed, rest⟩ := h.points p member
    exact ⟨globals, program, .tail _ listed, rest⟩

/-- Sessions on the machine and on the machine with a record, in step. -/
def lockstep : Lockstep Engine.machine Engine.recorder where
  between programs table := mirror (.of programs table)
  simulation _ _ := simulation _
  relabel _ _ := rfl
  allowed known := known
  named _ _ _ := trivial
  stop stops := stops
  load := by
    rintro next next' programs table c l m r loaded accepted ⟨rfl, same, inv⟩ scope
    refine ⟨r.layout, ⟨rfl, ?_, inv.load loaded accepted⟩, scope⟩
    show r.machine.addDistances c.distances = _
    rw [same]
    rfl

theorem inv_initial (sink : Sink) (clock : Nat → Float) : Inv (.of [] ∅) (initial sink clock) where
  listed := rfl
  distances := rfl
  globals := rfl
  placed _ _ known := by cases known
  heap := ⟨
    fun _ member => by simp [initial, Machine.initial, Store.pushFrame, Store.empty] at member,
    fun _ member => by simp [initial, Machine.initial, Store.pushFrame, Store.empty] at member⟩
  points := List.forall_mem_nil _

/-- A session and its record after any batches. -/
theorem runAll_between (sink : Sink) (clock : Nat → Float) (batches : List (Nat × List UInt8)) :
    ((Session.start sink clock).runAll batches).1 = (runAll sink clock batches).1 ∧
      (∀ r ∈ ((Session.start sink clock).runAll batches).1, Lockstep.Sound r) ∧
      ∃ programs table, lockstep.Between ((Session.start sink clock).runAll batches).2.onEngine
        (runAll sink clock batches).2 programs table := by
  have start : lockstep.Between (Session.start sink clock).onEngine ⟨initial sink clock, 0⟩ [] ∅ :=
    ⟨rfl, .start, _, ⟨rfl, rfl, inv_initial sink clock⟩, rfl, rfl⟩
  have after := start.runAll batches
  rw [Session.runAll_onEngine] at after
  exact after

end Recorder

/-- What stops a batch is never a missing scope. -/
theorem Lockstep.Sound.ne_unresolved {result : Except Failure Unit} (h : Lockstep.Sound result)
    {cause : RuntimeError.Cause} (unresolved : cause.Unresolved) (line : Nat) :
    result ≠ .error (.stopped (.runtime ⟨cause, line⟩)) := by
  intro same
  obtain ⟨e, resolved, diagnostic⟩ := h _ same
  cases e with
  | fault e =>
    obtain rfl : (⟨cause, line⟩ : RuntimeError) = e := by injection diagnostic
    exact resolved cause line rfl unresolved
  | output message => cases diagnostic
  | exhausted => cases diagnostic

/-- Along every session, with the record beside it: at each use that the table has a distance for,
the frame at that distance is the activation of the innermost scope of the text that declares the
name before the use, all frames on the way are those of the scopes in between, and what is read is
bound there. So no run stops for a missing scope, and no statement of a program returns. -/
theorem scopes_mirrored (sink : Sink) (clock : Nat → Float) (batches : List (Nat × List UInt8)) :
    let session := (Session.start sink clock).runAll batches
    let recorded := Recorder.runAll sink clock batches
    (recorded.1 = session.1 ∧ recorded.2.state.machine = session.2.machine) ∧
    (∀ p ∈ recorded.2.state.points, ∃ program ∈ recorded.2.state.programs, ∃ role c,
      ⟨.use role p.ref, c⟩ ∈ occurrences program ∧ p.Mirrors c p.machine.env ∧
      ∀ distance, p.machine.distances.get? p.ref.id = some distance → p.Finds role c distance) ∧
    (∀ result ∈ session.1, ∀ line,
      result ≠ .error (.stopped (.runtime ⟨.unresolvedSuper, line⟩)) ∧
      result ≠ .error (.stopped (.runtime ⟨.unresolvedThis, line⟩))) ∧
    ∀ program ∈ recorded.2.state.programs, ∀ s ∈ program, ∀ steps m m' value,
      execute steps s m ≠ .ok (.returned value) m' := by
  obtain ⟨same, sound, programs, table, -, loaded, l, ⟨-, machine, inv⟩, env, -⟩ :=
    Recorder.runAll_between sink clock batches
  refine ⟨⟨same.symm, Recorder.machine_eq machine env⟩, fun p member => ?_,
    fun result member line => ?_, fun program member s listed steps m m' value => ?_⟩
  · obtain ⟨globals, program, listed, role, c, occurs, admissible, lexed, place, chain⟩ :=
      inv.points p member
    refine ⟨program, by rw [inv.listed]; exact listed, role, c, occurs,
      Point.mirrors_of_chain globals chain, fun distance found => ?_⟩
    exact Point.finds_of_chain admissible lexed chain found (place ▸ found)
  · have h := sound result member
    have super : RuntimeError.Cause.unresolvedSuper.Unresolved := trivial
    have this : RuntimeError.Cause.unresolvedThis.Unresolved := trivial
    exact ⟨h.ne_unresolved super line, h.ne_unresolved this line⟩
  · rw [inv.listed] at member
    obtain ⟨distances, resolved⟩ := loaded.resolved program member
    exact execute_ne_returned resolved listed steps m m' value

end Treewalk
