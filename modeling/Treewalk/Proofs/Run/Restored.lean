import Treewalk.Proofs.Run.Engine
import Treewalk.Proofs.Store.Frames

/-!
# What every run restores

However a run ends, with a value, with a `return`, at an error or at a refused output, it leaves
the machine in the frame and at the depth in which it found it. In between the store and the output
only grow. This holds of every tree on every machine: nothing is asked of the distances in its
table, and no frame needs to be the right one.
-/

namespace Treewalk

open Run

/-- A machine as it is found again: in the same frame and at the same depth, with the same globals
and the same table. The frames that there were keep the frame around them and what they bind, what
was written stays written, and the output can be flushed if it could be before. -/
structure Machine.Kept (m m' : Machine) : Prop where
  env : m'.env = m.env
  depth : m'.depth = m.depth
  globals : m'.globals = m.globals
  distances : m'.distances = m.distances
  frames : m.store.frames.all.size ≤ m'.store.frames.all.size
  parents : ∀ f, f < m.store.frames.all.size →
    m'.store.frames.parent? f = m.store.frames.parent? f
  bound : ∀ f name, (m.store.frames.lookup? f name).isSome →
    (m'.store.frames.lookup? f name).isSome
  output : ∃ more, m'.sink.written.text = m.sink.written.text ++ more
  flush : m'.sink.flushRefusal = m.sink.flushRefusal

namespace Machine.Kept

variable {m m' m'' : Machine}

theorem refl (m : Machine) : m.Kept m where
  env := rfl
  depth := rfl
  globals := rfl
  distances := rfl
  frames := Nat.le_refl _
  parents _ _ := rfl
  bound _ _ h := h
  output := ⟨"", by simp⟩
  flush := rfl

theorem trans (h : m.Kept m') (h' : m'.Kept m'') : m.Kept m'' where
  env := h'.env.trans h.env
  depth := h'.depth.trans h.depth
  globals := h'.globals.trans h.globals
  distances := h'.distances.trans h.distances
  frames := Nat.le_trans h.frames h'.frames
  parents f old := by
    have between := Nat.lt_of_lt_of_le old h.frames
    rw [h'.parents f between, h.parents f old]
  bound f name h₀ := h'.bound f name (h.bound f name h₀)
  output := by
    obtain ⟨first, eq⟩ := h.output
    obtain ⟨second, eq'⟩ := h'.output
    exact ⟨first ++ second, by rw [eq', eq, String.append_assoc]⟩
  flush := h'.flush.trans h.flush

/-- A change of the store that touches no frame. -/
theorem of_frames {store : Store} (same : store.frames = m.store.frames) :
    m.Kept { m with store } where
  env := rfl
  depth := rfl
  globals := rfl
  distances := rfl
  frames := Nat.le_of_eq (by rw [same])
  parents f _ := by rw [same]
  bound f name h := by rwa [same]
  output := ⟨"", by simp⟩
  flush := rfl

theorem define (m : Machine) (f : FrameId) (name : String) (value : Value) :
    m.Kept { m with store := m.store.define f name value } where
  env := rfl
  depth := rfl
  globals := rfl
  distances := rfl
  frames := Nat.le_of_eq (Frames.size_define ..).symm
  parents g _ := Frames.parent?_define ..
  bound g other h := by
    show ((m.store.frames.define f name value).lookup? g other).isSome = true
    rw [Frames.lookup?_define]
    split
    · rfl
    · exact h
  output := ⟨"", by simp⟩
  flush := rfl

theorem pushFrame (m : Machine) (values : Bindings Value) (parent : Option FrameId) :
    m.Kept { m with store := m.store.pushFrame values parent } where
  env := rfl
  depth := rfl
  globals := rfl
  distances := rfl
  frames := by
    show _ ≤ (m.store.frames.push values parent).all.size
    rw [Frames.size_push]
    omega
  parents f old := by
    show (m.store.frames.push values parent).parent? f = _
    have other : f ≠ m.store.frames.next := Nat.ne_of_lt old
    rw [Frames.parent?_push, if_neg other]
  bound f name h := by
    obtain ⟨value, found⟩ := Option.isSome_iff_exists.1 h
    have other : f ≠ m.store.frames.next := Nat.ne_of_lt (Frames.lt_of_lookup? found)
    show ((m.store.frames.push values parent).lookup? f name).isSome = true
    rw [Frames.lookup?_push, if_neg other]
    exact h
  output := ⟨"", by simp⟩
  flush := rfl

theorem write (m : Machine) (piece : String) :
    m.Kept { m with sink := m.sink.take piece } where
  env := rfl
  depth := rfl
  globals := rfl
  distances := rfl
  frames := Nat.le_refl _
  parents _ _ := rfl
  bound _ _ h := h
  output := ⟨piece, rfl⟩
  flush := rfl

/-- What is changed while a run is elsewhere or deeper, and changed back behind it. -/
theorem restore {m₁ m₂ m₃ : Machine} (h : m₁.Kept m₂)
    (before : m₁.store = m.store ∧ m₁.sink = m.sink)
    (after : m₃.store = m₂.store ∧ m₃.sink = m₂.sink) (env : m₃.env = m.env)
    (depth : m₃.depth = m.depth) (globals : m₃.globals = m.globals)
    (distances : m₃.distances = m.distances) : m.Kept m₃ where
  env := env
  depth := depth
  globals := globals
  distances := distances
  frames := by rw [← before.1, after.1]; exact h.frames
  parents := by rw [← before.1, after.1]; exact h.parents
  bound := by rw [← before.1, after.1]; exact h.bound
  output := by rw [← before.2, after.2]; exact h.output
  flush := by rw [← before.2, after.2]; exact h.flush

end Machine.Kept

/-- The machine at the end of a run is the one at its beginning, as far as it is kept. -/
def Machine.KeptBy {α : Type} (m : Machine) : EStateM.Result Stop Machine α → Prop
  | .ok _ m' => m.Kept m'
  | .error _ m' => m.Kept m'

/-- Every machine is kept by this run. -/
def Keeps {α : Type} (p : Run α) : Prop := ∀ m : Machine, m.KeptBy (p m)

namespace Keeps

variable {α β : Type}

theorem pure (a : α) : Keeps (pure a : Run α) := Machine.Kept.refl

theorem throw (e : Stop) : Keeps (throw e : Run α) := Machine.Kept.refl

theorem gets (f : Machine → α) : Keeps (Run.gets f) := Machine.Kept.refl

theorem fault (place : Token) (cause : RuntimeError.Cause) : Keeps (fault place cause : Run α) :=
  throw _

theorem ofExcept (place : Token) (r : Except RuntimeError.Cause α) :
    Keeps (Run.ofExcept place r) := by
  cases r with
  | ok a => exact pure a
  | error cause => exact fault place cause

theorem bind {p : Run α} {f : α → Run β} (h : Keeps p) (next : ∀ a, Keeps (f a)) :
    Keeps (p >>= f) := by
  intro m
  have first := h m
  show m.KeptBy (EStateM.bind p f m)
  unfold EStateM.bind
  cases ran : p m with
  | ok a m' =>
    rw [ran] at first
    have second := next a m'
    dsimp only
    cases ran' : f a m' with
    | ok b m'' | error e m'' =>
      rw [ran'] at second
      exact Machine.Kept.trans first second
  | error e m' =>
    rw [ran] at first
    exact first

theorem map {p : Run α} {f : α → β} (h : Keeps p) : Keeps (f <$> p) := by
  rw [← bind_pure_comp]
  exact h.bind fun a => pure (f a)

theorem mapM {f : α → Run β} (h : ∀ a, Keeps (f a)) (xs : List α) : Keeps (xs.mapM f) := by
  induction xs with
  | nil => exact pure []
  | cons x xs ih =>
    rw [List.mapM_cons]
    exact (h x).bind fun b => ih.bind fun bs => pure _

theorem forM {f : α → Run PUnit} (h : ∀ a, Keeps (f a)) (xs : List α) : Keeps (xs.forM f) := by
  induction xs with
  | nil => exact pure _
  | cons x xs ih => exact (h x).bind fun _ => ih

theorem inOrder {step : α → Run Flow} (h : ∀ a, Keeps (step a)) (xs : List α) :
    Keeps (inOrder step xs) := by
  induction xs with
  | nil => exact pure _
  | cons x xs ih =>
    refine (h x).bind fun flow => ?_
    cases flow with
    | normal => exact ih
    | returned value => exact pure _

/-- The frame is the outer one again, although the run ends in its own. -/
theorem inFrame {p : Run α} (h : Keeps p) (f : FrameId) : Keeps (inFrame f p) := by
  intro m
  have inside := h { m with env := f }
  unfold Run.inFrame
  dsimp only
  cases ran : p { m with env := f } with
  | ok a m' | error e m' =>
    rw [ran] at inside
    have inside : Machine.Kept { m with env := f } m' := inside
    exact .restore inside ⟨rfl, rfl⟩ ⟨rfl, rfl⟩ rfl inside.depth inside.globals inside.distances

/-- The depth is the old one again: it was counted up once and is counted down once. -/
theorem oneDeeper {p : Run α} (h : Keeps p) (paren : Token) : Keeps (oneDeeper paren p) := by
  intro m
  have inside := h { m with depth := m.depth + 1 }
  unfold Run.oneDeeper
  split
  · exact Machine.Kept.refl m
  · cases ran : p { m with depth := m.depth + 1 } with
    | ok a m' | error e m' =>
      rw [ran] at inside
      have inside : Machine.Kept { m with depth := m.depth + 1 } m' := inside
      have depth : m'.depth - 1 = m.depth := by
        rw [inside.depth]
        exact Nat.add_sub_cancel ..
      exact .restore inside ⟨rfl, rfl⟩ ⟨rfl, rfl⟩ inside.env depth inside.globals inside.distances

theorem defineIn (f : FrameId) (name : String) (value : Value) : Keeps (defineIn f name value) :=
  fun m => Machine.Kept.define m f name value

theorem define (name : String) (value : Value) : Keeps (define name value) :=
  fun m => Machine.Kept.define m m.env name value

theorem newFrame (parent : FrameId) (values : Bindings Value) : Keeps (newFrame parent values) :=
  fun m => Machine.Kept.pushFrame m values (some parent)

theorem newFunction (c : Closure) : Keeps (newFunction c) := fun _ => Machine.Kept.of_frames rfl

theorem newClass (c : Class) : Keeps (newClass c) := fun _ => Machine.Kept.of_frames rfl

theorem newInstance (c : ClassId) : Keeps (newInstance c) := fun _ => Machine.Kept.of_frames rfl

theorem setField (i : InstanceId) (name : String) (value : Value) : Keeps (setField i name value) :=
  fun _ => Machine.Kept.of_frames rfl

theorem readClock : Keeps readClock := fun m =>
  .restore (.refl m) ⟨rfl, rfl⟩ ⟨rfl, rfl⟩ rfl rfl rfl rfl

theorem readVariable (id : NodeId) (name : Token) : Keeps (readVariable id name) := by
  intro m
  unfold Run.readVariable
  dsimp only
  split <;> exact Machine.Kept.refl m

theorem assignVariable (id : NodeId) (name : Token) (value : Value) :
    Keeps (assignVariable id name value) := by
  refine (gets _).bind fun found => ?_
  cases found with
  | some f => exact defineIn f _ value
  | none => exact fault name _

theorem assignName (name : Token) (value : Value) : Keeps (assignName name value) := by
  refine (gets _).bind fun found => ?_
  cases found with
  | some f => exact defineIn f _ value
  | none => exact fault name _

theorem write (piece : String) : Keeps (write piece) := by
  intro m
  unfold Run.write
  split <;> exact Machine.Kept.write m _

theorem print (value : Value) : Keeps (print value) :=
  (gets _).bind fun text => (write text).bind fun _ => write "\n"

theorem flush : Keeps flush := by
  intro m
  unfold Run.flush
  split <;> exact Machine.Kept.refl m

theorem bindMethod (method : Closure) (i : InstanceId) : Keeps (bindMethod method i) :=
  (newFrame _ _).bind fun _ => pure _

theorem readProperty (i : InstanceId) (name : Token) : Keeps (readProperty i name) := by
  refine (gets _).bind fun found => ?_
  match found with
  | some (some value, _) => exact pure value
  | some (none, c) =>
    refine (gets _).bind fun method => ?_
    cases method with
    | some method => exact (bindMethod method i).bind fun bound => newFunction bound
    | none => exact fault name _
  | none => exact fault name _

theorem readSuper (id : NodeId) (keyword method : Token) : Keeps (readSuper id keyword method) := by
  refine (gets _).bind fun distance => ?_
  cases distance with
  | none => exact fault keyword _
  | some distance =>
    refine (gets _).bind fun above => ?_
    match above with
    | some (.cls c) =>
      refine (gets _).bind fun this => ?_
      match this with
      | some (.object i) =>
        refine (gets _).bind fun found => ?_
        cases found with
        | some found => exact (bindMethod found i).bind fun bound => newFunction bound
        | none => exact fault method _
      | some .nil | some (.bool _) | some (.number _) | some (.text _) | some .clock
      | some (.function _) | some (.cls _) | none => exact fault keyword _
    | some .nil | some (.bool _) | some (.number _) | some (.text _) | some .clock
    | some (.function _) | some (.object _) | none => exact fault keyword _

theorem readSuperclass (superclass : Variable) : Keeps (readSuperclass superclass) := by
  refine (readVariable _ _).bind fun value => ?_
  cases value with
  | cls c => exact pure c
  | _ => exact fault _ _

/-- What is left of a class declaration when the superclass is known. -/
theorem makeClass (name : Token) (methods : List FunctionDecl) (above : Option ClassId) :
    Keeps (do
      let outer ← Run.gets (·.env)
      let frame ← match above with
        | none => Pure.pure outer
        | some c => Run.newFrame outer ((∅ : Bindings Value).put superName (.cls c))
      let closures := methods.map fun decl =>
        (decl.name.lexeme, Closure.mk decl frame decl.isInitializer)
      Run.assignName name (← Run.newClass ⟨name.lexeme, above, Bindings.ofList closures⟩)) := by
  refine (gets _).bind fun outer => ?_
  cases above with
  | none => exact (pure outer).bind fun frame => (newClass _).bind fun cls => assignName name cls
  | some c =>
    exact (newFrame _ _).bind fun frame => (newClass _).bind fun cls => assignName name cls

theorem declareClass (name : Token) (superclass : Option Variable) (methods : List FunctionDecl) :
    Keeps (declareClass name superclass methods) := by
  refine (define _ _).bind fun _ => ?_
  cases superclass with
  | none => exact (pure none).bind (makeClass name methods)
  | some ref => exact (readSuperclass ref).map.bind (makeClass name methods)

end Keeps

/-- The evaluator keeps every machine, at this number of steps. -/
structure KeptWithin (n : Nat) : Prop where
  evaluate : ∀ e, Keeps (evaluate n e)
  callValue : ∀ callee paren arguments, Keeps (callValue n callee paren arguments)
  invoke : ∀ f arguments, Keeps (invoke n f arguments)
  declareVariable : ∀ decl, Keeps (declareVariable n decl)
  execute : ∀ s, Keeps (execute n s)
  repeatWhile : ∀ condition body, Keeps (repeatWhile n condition body)

namespace KeptWithin

variable {n : Nat} (ih : KeptWithin n)
include ih

theorem evaluate_succ (e : Expr) : Keeps (Treewalk.evaluate (n + 1) e) := by
  cases e with
  | sequence items => exact (Keeps.mapM ih.evaluate items).bind fun values => .pure _
  | assign id name value =>
    exact (ih.evaluate value).bind fun v => (Keeps.assignVariable id name v).bind fun _ => .pure v
  | binary left operator right =>
    exact (ih.evaluate left).bind fun l => (ih.evaluate right).bind fun r => .ofExcept operator _
  | call callee paren arguments =>
    refine (ih.evaluate callee).bind fun f => ?_
    exact (Keeps.mapM ih.evaluate arguments).bind fun values => ih.callValue f paren values
  | get object name =>
    refine (ih.evaluate object).bind fun o => ?_
    cases o with
    | object i => exact .readProperty i name
    | _ => exact .fault name _
  | grouping inner => exact ih.evaluate inner
  | constant value => exact .pure _
  | logical left operator right =>
    refine (ih.evaluate left).bind fun l => ?_
    split
    · exact .pure l
    · exact ih.evaluate right
  | set object name value =>
    refine (ih.evaluate object).bind fun o => ?_
    cases o with
    | object i =>
      exact (ih.evaluate value).bind fun v => (Keeps.setField i _ v).bind fun _ => .pure v
    | _ => exact .fault name _
  | super id keyword method => exact .readSuper id keyword method
  | this id keyword => exact .readVariable id keyword
  | unary operator right => exact (ih.evaluate right).bind fun r => .ofExcept operator _
  | read ref => exact .readVariable ref.id ref.name

theorem callValue_succ (callee : Value) (paren : Token) (arguments : List Value) :
    Keeps (Treewalk.callValue (n + 1) callee paren arguments) := by
  refine (Keeps.gets _).bind fun found => ?_
  cases found with
  | none => exact .fault paren _
  | some callable =>
    dsimp only
    split
    · exact .fault paren _
    · refine .oneDeeper ?_ paren
      cases callable with
      | clock => exact .readClock
      | function f => exact ih.invoke f arguments
      | cls c initializer =>
        refine (Keeps.newInstance c).bind fun i => ?_
        cases initializer with
        | none => exact .pure _
        | some method =>
          refine (Keeps.bindMethod method i).bind fun bound => ?_
          exact (ih.invoke bound arguments).bind fun _ => .pure _

theorem invoke_succ (f : Closure) (arguments : List Value) :
    Keeps (Treewalk.invoke (n + 1) f arguments) := by
  refine (Keeps.newFrame _ _).bind fun frame => ?_
  refine ((Keeps.inOrder ih.execute _).inFrame frame).bind fun flow => ?_
  split
  · exact (Keeps.gets _).bind fun this => .pure _
  · cases flow with
    | normal => exact .pure _
    | returned value => exact .pure _

theorem declareVariable_succ (decl : VarDecl) :
    Keeps (Treewalk.declareVariable (n + 1) decl) := by
  obtain ⟨name, initializer⟩ := decl
  have behind : ∀ value, Keeps (do Run.define name.lexeme value; Pure.pure Flow.normal) :=
    fun value => (Keeps.define _ value).bind fun _ => .pure _
  cases initializer with
  | none => exact (Keeps.pure _).bind behind
  | some e => exact (ih.evaluate e).bind behind

theorem execute_succ (s : Stmt) : Keeps (Treewalk.execute (n + 1) s) := by
  cases s with
  | block body =>
    refine (Keeps.gets _).bind fun outer => (Keeps.newFrame _ _).bind fun frame => ?_
    exact (Keeps.inOrder ih.execute body).inFrame frame
  | classDecl name superclass methods =>
    exact (Keeps.declareClass name superclass methods).bind fun _ => .pure _
  | expression value => exact (ih.evaluate value).bind fun _ => .pure _
  | function decl =>
    refine (Keeps.gets _).bind fun outer => (Keeps.newFunction _).bind fun f => ?_
    exact (Keeps.define _ f).bind fun _ => .pure _
  | branch condition thenBranch elseBranch =>
    refine (ih.evaluate condition).bind fun value => ?_
    split
    · exact ih.execute thenBranch
    · cases elseBranch with
      | none => exact .pure _
      | some elseBranch => exact ih.execute elseBranch
  | print value =>
    exact (ih.evaluate value).bind fun v => (Keeps.print v).bind fun _ => .pure _
  | ret keyword value =>
    cases value with
    | none => exact .pure _
    | some e => exact (ih.evaluate e).map
  | var decl => exact ih.declareVariable decl
  | varList decls => exact .inOrder ih.declareVariable decls
  | loop condition body => exact ih.repeatWhile condition body

theorem repeatWhile_succ (condition : Expr) (body : Stmt) :
    Keeps (Treewalk.repeatWhile (n + 1) condition body) := by
  refine (ih.evaluate condition).bind fun value => ?_
  split
  · refine (ih.execute body).bind fun flow => ?_
    cases flow with
    | normal => exact ih.repeatWhile condition body
    | returned value => exact .pure _
  · exact .pure _

omit ih in
theorem all (n : Nat) : KeptWithin n := by
  induction n with
  | zero => constructor <;> intros <;> exact .throw _
  | succ n ih =>
    exact ⟨evaluate_succ ih, callValue_succ ih, invoke_succ ih, declareVariable_succ ih,
      execute_succ ih, repeatWhile_succ ih⟩

end KeptWithin

theorem Keeps.statements (steps : Nat) (program : List Stmt) :
    Keeps (program.forM fun s => discard (execute steps s)) :=
  .forM (fun s => ((KeptWithin.all steps).execute s).map) program

/-- A batch keeps the machine with the distances of the batch in its table. -/
theorem interpret_kept (steps : Nat) (found : List (NodeId × Nat)) (program : List Stmt)
    (m : Machine) : (m.addDistances found).KeptBy (interpret steps found program m) := by
  have ran := Keeps.statements steps program (m.addDistances found)
  unfold interpret
  cases result : program.forM (fun s => discard (execute steps s)) (m.addDistances found) with
  | ok _ m' =>
    rw [result] at ran
    have flushed := Keeps.flush m'
    dsimp only
    cases result' : flush m' with
    | ok _ m'' | error e m'' =>
      rw [result'] at flushed
      exact Machine.Kept.trans ran flushed
  | error e m' =>
    rw [result] at ran
    have flushed := Keeps.flush m'
    cases e with
    | exhausted => exact ran
    | fault _ | output _ =>
      dsimp only
      cases result' : flush m' with
      | ok _ m'' | error e m'' =>
        rw [result'] at flushed
        exact Machine.Kept.trans ran flushed

/-- The machine is where batches begin: in the frame of the globals, with no call in progress. -/
def Machine.AtTop (m : Machine) : Prop := m.env = m.globals ∧ m.depth = 0

theorem Machine.Kept.atTop {m m' : Machine} (h : m.Kept m') (top : m.AtTop) : m'.AtTop :=
  ⟨by rw [h.env, h.globals, top.1], by rw [h.depth, top.2]⟩

theorem Session.run_atTop (steps : Nat) (s : Session) (source : List UInt8)
    (top : s.machine.AtTop) : (s.run steps source).2.machine.AtTop := by
  unfold Session.run
  rcases compile source s.nextId with ⟨_ | c, next⟩
  · exact top
  · have kept := interpret_kept steps c.distances c.program s.machine
    dsimp only [Session.perform]
    cases ran : interpret steps c.distances c.program s.machine with
    | ok _ m' | error e m' =>
      rw [ran] at kept
      exact kept.atTop top

theorem Session.runAll_atTop (s : Session) (batches : List (Nat × List UInt8))
    (top : s.machine.AtTop) : (s.runAll batches).2.machine.AtTop := by
  induction batches generalizing s with
  | nil => exact top
  | cons batch rest ih => exact ih _ (s.run_atTop batch.1 batch.2 top)

/-- However a statement or an expression ends, on whatever machine and with whatever table, the
machine is kept: a run comes back to its frame and its depth on every path. So after any batches of
any session, failed or not, the machine is at the top again. -/
theorem run_restores :
    (∀ (m : Machine) (steps : Nat) (s : Stmt), m.KeptBy (execute steps s m)) ∧
    (∀ (m : Machine) (steps : Nat) (e : Expr), m.KeptBy (evaluate steps e m)) ∧
    ∀ (sink : Sink) (clock : Nat → Float) (batches : List (Nat × List UInt8)),
      ((Session.start sink clock).runAll batches).2.machine.AtTop := by
  refine ⟨fun m steps s => ?_, fun m steps e => ?_, fun sink clock batches => ?_⟩
  · exact (KeptWithin.all steps).execute s m
  · exact (KeptWithin.all steps).evaluate e m
  · have start : (Session.start sink clock).machine.AtTop := ⟨rfl, rfl⟩
    exact Session.runAll_atTop _ batches start

end Treewalk
