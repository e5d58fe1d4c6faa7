import Treewalk.Proofs.Plain.Calls

/-!
# The machine is faithful to the plain interpreter

Frames that are shared and go on growing, addressed by distances, do what environments that never
change do: every session prints the same on both, and every batch ends in the same way.
-/

namespace Treewalk

namespace Plain

open Correspondence

/-- The machine and the plain interpreter stay in step. -/
theorem simulation (texts : Texts) : Simulation (linked texts) where
  exhausted := ⟨rfl, nofun⟩
  exhausted_iff h := by rw [h.1]
  fault line h := ⟨rfl, Recorder.resolved_fault h⟩
  read := rel_read
  readThis := rel_readThis
  assign := rel_assign
  readSuper := rel_readSuper
  readProperty := rel_readProperty
  setField := rel_setField
  callee? := rel_callee?
  oneDeeper := rel_oneDeeper
  readClock := rel_readClock
  newInstance := rel_newInstance
  bindMethod := rel_bindMethod
  code_decl callable := by
    rw [FunctionDecl.relabel_identity]
    exact ⟨callable.1.decl, callable.1.isInitializer⟩
  method_params unbound := congrArg (·.params.length) unbound.1.decl
  enterCall arguments callable size := by
    obtain ⟨text, outer, place, fits, -⟩ := callable
    exact ⟨outer, fits, fun c => rel_enterCall text place fits arguments size⟩
  receiver := rel_receiver
  enterBlock body := by
    rw [← Stmt.relabelAll_eq_map, Stmt.relabelAll_identity]
    exact rel_enterBlock body
  declareFunction fits := by
    rw [FunctionDecl.relabel_identity]
    exact rel_declareFunction fits
  declareClass fits := by
    rw [List.map_congr_left (fun decl _ => FunctionDecl.relabel_identity decl), List.map_id',
      Option.map_congr (fun ref _ => Variable.relabel_identity ref), Option.map_id']
    exact rel_declareClass fits
  announce := rel_announce
  define value known := (rel_define value known).weaken fun _ _ _ _ _ kept => ⟨kept.1, rfl⟩
  print := rel_print
  flush := rel_flush

variable {texts texts' : Texts} {w : Link}

/-- More texts are known. -/
structure Extends (texts texts' : Texts) : Prop where
  named : texts'.named = texts.named
  knows : ∀ o, texts.Knows o → texts'.Knows o

theorem Extends.fits (h : Extends texts texts') {c : Context} {decl : FunctionDecl}
    (fits : decl.Fits texts.named texts.Knows c) : decl.Fits texts'.named texts'.Knows c :=
  ⟨h.named ▸ fits.1, fun o occurs => h.knows o (fits.2 o occurs)⟩

theorem Linked.load {m : Machine} {s : State} (h : Linked texts w m s)
    (more : Extends texts texts') (distances : List (NodeId × Nat))
    (table : texts'.table = texts.table.addAll distances) :
    Linked texts' w (m.addDistances distances) s where
  frames := h.frames
  placed := h.placed
  entered := h.entered
  cells := h.cells
  global := h.global
  size := h.size
  root := h.root
  globals := h.globals
  distances := by
    rw [table, ← h.distances]
    rfl
  functions := h.functions.mono fun f g callable => by
    obtain ⟨text, c, place, fits, initializer⟩ := callable
    exact ⟨text, c, place, more.fits fits, initializer⟩
  classes := h.classes.mono fun k k' same => ⟨same.name, same.superclass, fun x => by
    have both := same.methods x
    generalize k.methods.get? x = method, k'.methods.get? x = method' at both ⊢
    cases both with
    | none => exact .none
    | some unbound =>
      obtain ⟨text, c, place, fits⟩ := unbound
      exact .some ⟨text, c, place, more.fits fits⟩⟩
  rest := ⟨h.rest.instances, h.rest.depth, h.rest.depthLimit, h.rest.sink, h.rest.clock,
    h.rest.ticks⟩

/-- Sessions on the machine and on the plain interpreter, in step. -/
def lockstep : Lockstep Engine.machine Engine.plain where
  between programs table := linked (.of programs table)
  simulation _ _ := simulation _
  relabel _ _ := rfl
  allowed known := known
  named _ _ _ := trivial
  stop stops := stops
  load := by
    intro next next' programs table c w m s loaded accepted heap scope
    have more : Extends (.of programs table)
        (.of (c.program :: programs) (table.addAll c.distances)) :=
      ⟨rfl, fun _ => loaded.knows accepted⟩
    exact ⟨w, heap.load more c.distances rfl, scope⟩

/-- Before the first batch there is only the frame of the globals. -/
def start (m : Machine) : Link where
  layout := ⟨fun _ => none, m.store.frames⟩
  cell _ _ _ := False
  here := 0
  entered f := f = 0

theorem linked_start (sink : Sink) (clock : Nat → Float) :
    Linked (.of [] ∅) (start (.initial sink clock)) (.initial sink clock)
      (.initial sink clock) where
  frames := rfl
  placed _ _ known := nomatch known
  entered f known := by
    obtain rfl : f = 0 := known
    exact Nat.zero_lt_one
  cells := by
    refine ⟨nofun, nofun, fun {f x v} inner found => ?_, nofun⟩
    have inside := Frames.lt_of_lookup? found
    exact absurd (Nat.lt_one_iff.1 inside) inner
  global := rfl
  size := Nat.zero_lt_one
  root := rfl
  globals _ := rfl
  distances := rfl
  functions := ⟨rfl, fun _ => .none⟩
  classes := ⟨rfl, fun _ => .none⟩
  rest := ⟨rfl, rfl, rfl, rfl, rfl, rfl⟩

theorem current_start (m : Machine) : (start m).Current [] 0 none where
  chain := rfl
  lists := rfl
  top := Iff.intro (fun _ => rfl) fun _ => rfl
  here := rfl
  entered := rfl
  exact _ _ known := known.elim

theorem between_start (sink : Sink) (clock : Nat → Float) :
    lockstep.Between (Session.start sink clock).onEngine ⟨.initial sink clock, 0⟩ [] ∅ :=
  ⟨rfl, .start, start (.initial sink clock), linked_start sink clock, current_start _⟩

/-- Between the batches of a session its machine is linked with a state of the plain interpreter. -/
theorem linked_runAll (sink : Sink) (clock : Nat → Float) (batches : List (Nat × List UInt8)) :
    let session := ((Session.start sink clock).runAll batches).2
    ∃ programs table w s, Loaded session.nextId programs table ∧
      Linked (.of programs table) w session.machine s ∧
      w.Current [] session.machine.env s.env := by
  obtain ⟨-, -, programs, table, -, loaded, w, linked, here⟩ :=
    (between_start sink clock).runAll batches
  rw [Session.runAll_onEngine] at loaded linked here
  exact ⟨programs, table, w, _, loaded, linked, here⟩

end Plain

/-- Every session gives the results and writes the output that it would with plain lexical scoping,
however many steps its batches are given: where a batch ends, it ends in the same way on both sides,
and where it never does, it never does on the other side. -/
theorem lexically_scoped (sink : Sink) (clock : Nat → Float) (batches : List (Nat × List UInt8)) :
    ((Session.start sink clock).runAll batches).1 = (Plain.runAll sink clock batches).1 ∧
      ((Session.start sink clock).runAll batches).2.machine.sink =
        (Plain.runAll sink clock batches).2.state.sink := by
  have after := (Plain.between_start sink clock).runAll batches
  rw [Session.runAll_onEngine] at after
  obtain ⟨same, -, programs, table, -, -, w, linked, -⟩ := after
  exact ⟨same, linked.rest.sink.symm⟩

end Treewalk
