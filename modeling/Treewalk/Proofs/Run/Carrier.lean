import Treewalk.Proofs.Run.Restored

/-!
# Runs that carry something along

A `Carrier` is a platform with a machine inside its states. Every operation is that of the machine,
lifted; only a call and a write may do more. A `Congruence` is a relation between the runs on two
carriers that the operations respect, and so every evaluation does.

The depth of a machine and its limit are looked at by calls alone, and its sink by writes alone. Any
other operation is `Silent`: it does the same at every depth and for every sink.
-/

namespace Treewalk

open Run

/-- The end of a run, with something else in place of the state. -/
def endingWith {σ τ α : Type} (f : σ → τ) : EStateM.Result Stop σ α → EStateM.Result Stop τ α
  | .ok a s => .ok a (f s)
  | .error e s => .error e (f s)

/-- The state at the end of a run. -/
def endState {σ α : Type} : EStateM.Result Stop σ α → σ
  | .ok _ s | .error _ s => s

/-- How a batch ends that compiled. -/
def resultOf {σ : Type} : EStateM.Result Stop σ Unit → Except Failure Unit
  | .ok _ _ => .ok ()
  | .error stop _ => .error (.stopped stop.diagnostic)

section endings

variable {ρ σ τ α β : Type}

@[simp] theorem endingWith_endingWith (f : ρ → σ) (g : σ → τ) (r : EStateM.Result Stop ρ α) :
    endingWith g (endingWith f r) = endingWith (g ∘ f) r := by
  cases r <;> rfl

@[simp] theorem endState_endingWith (f : σ → τ) (r : EStateM.Result Stop σ α) :
    endState (endingWith f r) = f (endState r) := by
  cases r <;> rfl

@[simp] theorem resultOf_endingWith (f : σ → τ) (r : EStateM.Result Stop σ Unit) :
    resultOf (endingWith f r) = resultOf r := by
  cases r <;> rfl

/-- Only what becomes of the state at the end matters. -/
theorem endingWith_congr {f g : σ → τ} {r : EStateM.Result Stop σ α}
    (h : f (endState r) = g (endState r)) : endingWith f r = endingWith g r := by
  cases r <;> exact congrArg _ h

theorem bind_of_ok {p : EStateM Stop σ α} {f : α → EStateM Stop σ β} {s s' : σ} {a : α}
    (h : p s = .ok a s') : (p >>= f) s = f a s' := by
  show EStateM.bind p f s = _
  rw [EStateM.bind, h]

theorem bind_of_error {p : EStateM Stop σ α} {f : α → EStateM Stop σ β} {s s' : σ} {e : Stop}
    (h : p s = .error e s') : (p >>= f) s = .error e s' := by
  show EStateM.bind p f s = _
  rw [EStateM.bind, h]

theorem Platform.within_eq (P : Platform) (e : P.Env) (run : P.Action α) (s : P.State) :
    P.within e run s = endingWith (P.setEnv (P.env s)) (run (P.setEnv e s)) := by
  unfold Platform.within
  cases run (P.setEnv e s) <;> rfl

end endings

/-- A call that is not too deep. -/
theorem oneDeeper_eq {α : Type} {paren : Token} {run : Run α} {m : Machine}
    (below : m.atDepthLimit = false) : oneDeeper paren run m =
      endingWith (fun m' => { m' with depth := m'.depth - 1 })
        (run { m with depth := m.depth + 1 }) := by
  unfold Run.oneDeeper
  rw [if_neg (by simp [below])]
  cases run { m with depth := m.depth + 1 } <;> rfl

/-- The machine with this many calls in progress, and with this limit. -/
def Machine.atDepth (m : Machine) (depth : Nat) (limit : Option Nat) : Machine :=
  { m with depth, depthLimit := limit }

/-- The run does the same at every depth, whatever the limit is. -/
def DepthFree {α : Type} (p : Run α) : Prop :=
  ∀ (m : Machine) depth limit,
    p (m.atDepth depth limit) = endingWith (·.atDepth depth limit) (p m)

namespace DepthFree

variable {α β : Type}

theorem throw (e : Stop) : DepthFree (throw e : Run α) := fun _ _ _ => rfl

theorem bind {p : Run α} {f : α → Run β} (h : DepthFree p) (next : ∀ a, DepthFree (f a)) :
    DepthFree (p >>= f) := by
  intro m depth limit
  show EStateM.bind p f _ = endingWith _ (EStateM.bind p f m)
  unfold EStateM.bind
  rw [h m depth limit]
  cases p m with
  | ok a m' => exact next a m' depth limit
  | error e m' => rfl

theorem write (piece : String) : DepthFree (write piece) := by
  intro m depth limit
  unfold Run.write Machine.atDepth
  cases m.sink.refusal m.sink.written piece <;> rfl

theorem flush : DepthFree flush := by
  intro m depth limit
  unfold Run.flush Machine.atDepth
  cases m.sink.flushRefusal <;> rfl

end DepthFree

/-- The machine with this many calls in progress, with this limit, and printing to this sink. -/
def Machine.aside (m : Machine) (depth : Nat) (limit : Option Nat) (sink : Sink) : Machine :=
  { m with depth, depthLimit := limit, sink }

section aside

variable (m : Machine) (depth : Nat) (limit : Option Nat) (sink : Sink)

@[simp] theorem Machine.aside_store : (m.aside depth limit sink).store = m.store := rfl

@[simp] theorem Machine.aside_env : (m.aside depth limit sink).env = m.env := rfl

@[simp] theorem Machine.aside_globals : (m.aside depth limit sink).globals = m.globals := rfl

@[simp] theorem Machine.aside_distances : (m.aside depth limit sink).distances = m.distances := rfl

end aside

/-- The run does the same at every depth, whatever the limit is, and for every sink. -/
def Silent {α : Type} (p : Run α) : Prop :=
  ∀ (m : Machine) depth limit sink,
    p (m.aside depth limit sink) = endingWith (·.aside depth limit sink) (p m)

namespace Silent

variable {α β : Type}

/-- It leaves the depth, the limit and the sink as they are. -/
theorem aside {p : Run α} (h : Silent p) (m : Machine) :
    (endState (p m)).aside m.depth m.depthLimit m.sink = endState (p m) := by
  have same := congrArg endState (h m m.depth m.depthLimit m.sink)
  rw [endState_endingWith] at same
  exact same.symm

theorem sink {p : Run α} (h : Silent p) (m : Machine) : (endState (p m)).sink = m.sink :=
  (congrArg Machine.sink (h.aside m)).symm

theorem depthFree {p : Run α} (h : Silent p) : DepthFree p := by
  intro m depth limit
  refine (h m depth limit m.sink).trans (endingWith_congr ?_)
  show Machine.aside _ depth limit m.sink = Machine.aside _ depth limit _
  rw [h.sink m]

theorem pure (a : α) : Silent (pure a : Run α) := fun _ _ _ _ => rfl

theorem throw (e : Stop) : Silent (throw e : Run α) := fun _ _ _ _ => rfl

theorem fault (place : Token) (cause : RuntimeError.Cause) : Silent (fault place cause : Run α) :=
  throw _

theorem gets {f : Machine → α} (h : ∀ m depth limit sink, f (m.aside depth limit sink) = f m) :
    Silent (Run.gets f) := by
  intro m depth limit sink
  unfold Run.gets
  rw [h m depth limit sink]
  rfl

theorem bind {p : Run α} {f : α → Run β} (h : Silent p) (next : ∀ a, Silent (f a)) :
    Silent (p >>= f) := by
  intro m depth limit sink
  show EStateM.bind p f _ = endingWith _ (EStateM.bind p f m)
  unfold EStateM.bind
  rw [h m depth limit sink]
  cases p m with
  | ok a m' => exact next a m' depth limit sink
  | error e m' => rfl

theorem map {p : Run α} {f : α → β} (h : Silent p) : Silent (f <$> p) := by
  rw [← bind_pure_comp]
  exact h.bind fun a => pure (f a)

theorem defineIn (f : FrameId) (name : String) (value : Value) :
    Silent (defineIn f name value) :=
  fun _ _ _ _ => rfl

theorem define (name : String) (value : Value) : Silent (define name value) := fun _ _ _ _ => rfl

theorem newFrame (parent : FrameId) (values : Bindings Value) :
    Silent (newFrame parent values) :=
  fun _ _ _ _ => rfl

theorem newFunction (c : Closure) : Silent (newFunction c) := fun _ _ _ _ => rfl

theorem newClass (c : Class) : Silent (newClass c) := fun _ _ _ _ => rfl

theorem newInstance (c : ClassId) : Silent (newInstance c) := fun _ _ _ _ => rfl

theorem setField (i : InstanceId) (name : String) (value : Value) :
    Silent (setField i name value) :=
  fun _ _ _ _ => rfl

theorem readClock : Silent readClock := fun _ _ _ _ => rfl

theorem readVariable (id : NodeId) (name : Token) : Silent (readVariable id name) := by
  intro m depth limit sink
  simp only [Run.readVariable, Machine.aside_distances, Machine.aside_store, Machine.aside_env,
    Machine.aside_globals]
  split <;> rfl

theorem assignVariable (id : NodeId) (name : Token) (value : Value) :
    Silent (assignVariable id name value) := by
  refine (gets fun _ _ _ _ => rfl).bind fun found => ?_
  cases found with
  | some f => exact defineIn f _ value
  | none => exact fault name _

theorem assignName (name : Token) (value : Value) : Silent (assignName name value) := by
  refine (gets fun _ _ _ _ => rfl).bind fun found => ?_
  cases found with
  | some f => exact defineIn f _ value
  | none => exact fault name _

theorem bindMethod (method : Closure) (i : InstanceId) : Silent (bindMethod method i) :=
  (newFrame _ _).bind fun _ => pure _

theorem readProperty (i : InstanceId) (name : Token) : Silent (readProperty i name) := by
  refine (gets fun _ _ _ _ => rfl).bind fun found => ?_
  match found with
  | some (some value, _) => exact pure value
  | some (none, c) =>
    refine (gets fun _ _ _ _ => rfl).bind fun method => ?_
    cases method with
    | some method => exact (bindMethod method i).bind fun bound => newFunction bound
    | none => exact fault name _
  | none => exact fault name _

theorem readSuper (id : NodeId) (keyword method : Token) :
    Silent (readSuper id keyword method) := by
  refine (gets fun _ _ _ _ => rfl).bind fun distance => ?_
  cases distance with
  | none => exact fault keyword _
  | some distance =>
    refine (gets fun _ _ _ _ => rfl).bind fun above => ?_
    split
    · refine (gets fun _ _ _ _ => rfl).bind fun this => ?_
      split
      · refine (gets fun _ _ _ _ => rfl).bind fun found => ?_
        cases found with
        | some found => exact (bindMethod found _).bind fun bound => newFunction bound
        | none => exact fault method _
      · exact fault keyword _
    · exact fault keyword _

theorem readSuperclass (superclass : Variable) : Silent (readSuperclass superclass) := by
  refine (readVariable _ _).bind fun value => ?_
  cases value with
  | cls c => exact pure c
  | _ => exact fault _ _

/-- What is left of a class declaration when the superclass is known. -/
theorem makeClass (name : Token) (methods : List FunctionDecl) (above : Option ClassId) :
    Silent (do
      let outer ← Run.gets (·.env)
      let frame ← match above with
        | none => Pure.pure outer
        | some c => Run.newFrame outer ((∅ : Bindings Value).put superName (.cls c))
      let closures := methods.map fun decl =>
        (decl.name.lexeme, Closure.mk decl frame decl.isInitializer)
      Run.assignName name (← Run.newClass ⟨name.lexeme, above, Bindings.ofList closures⟩)) := by
  refine (gets fun _ _ _ _ => rfl).bind fun outer => ?_
  cases above with
  | none => exact (pure outer).bind fun frame => (newClass _).bind fun cls => assignName name cls
  | some c =>
    exact (newFrame _ _).bind fun frame => (newClass _).bind fun cls => assignName name cls

theorem declareClass (name : Token) (superclass : Option Variable) (methods : List FunctionDecl) :
    Silent (declareClass name superclass methods) := by
  refine (define _ _).bind fun _ => ?_
  cases superclass with
  | none => exact (pure none).bind (makeClass name methods)
  | some ref => exact (readSuperclass ref).map.bind (makeClass name methods)

end Silent

/-- A platform with a machine inside its states. Calls and writes may do more than those of the
machine. -/
structure Carrier where
  State : Type
  env : State → FrameId
  setEnv : FrameId → State → State
  /-- A run of the machine inside. -/
  lift : ∀ {α : Type}, Run α → EStateM Stop State α
  oneDeeper : Token → EStateM Stop State Value → EStateM Stop State Value
  write : String → EStateM Stop State Unit
  lift_pure : ∀ {α : Type} (a : α), lift (pure a) = pure a
  lift_throw : ∀ {α : Type} (e : Stop), lift (throw e : Run α) = throw e

namespace Carrier

/-- The machine, which carries nothing along. -/
@[reducible]
def machine : Carrier where
  State := Machine
  env := Machine.env
  setEnv f m := { m with env := f }
  lift p := p
  oneDeeper := Run.oneDeeper
  write := Run.write
  lift_pure _ := rfl
  lift_throw _ := rfl

variable (K : Carrier)

@[reducible]
def platform : Platform where
  State := K.State
  Env := FrameId
  Code := Closure
  env := K.env
  setEnv := K.setEnv
  decl := Closure.decl
  isInitializer := Closure.isInitializer
  read id name := K.lift (readVariable id name)
  assign id name value := K.lift (assignVariable id name value)
  readSuper id keyword method := K.lift (Run.readSuper id keyword method)
  readProperty i name := K.lift (Run.readProperty i name)
  setField i name value := K.lift (Run.setField i name value)
  callee? value := K.lift (Platform.machine.callee? value)
  oneDeeper := K.oneDeeper
  readClock := K.lift Run.readClock
  newInstance c := K.lift (Run.newInstance c)
  bindMethod method i := K.lift (Run.bindMethod method i)
  enterCall f arguments := K.lift (Platform.machine.enterCall f arguments)
  receiver f := K.lift (Platform.machine.receiver f)
  enterBlock body := K.lift (Platform.machine.enterBlock body)
  declareFunction decl := K.lift (Platform.machine.declareFunction decl)
  declareClass name superclass methods := K.lift (Run.declareClass name superclass methods)
  announce _ := pure ()
  define name value := K.lift (Run.define name value)
  print value := do
    K.write (← K.lift (gets (·.store.text value)))
    K.write "\n"
  flush := K.lift Run.flush

end Carrier

/-- A relation between the runs on two carriers that the operations respect. -/
structure Congruence (K L : Carrier) where
  /-- How many steps the second run is given more than the first one. -/
  more : Nat
  rel : ∀ {α : Type}, EStateM Stop K.State α → EStateM Stop L.State α → Prop
  exhausted : ∀ {α : Type} (q : EStateM Stop L.State α), (more = 0 → q = throw .exhausted) →
    rel (throw .exhausted) q
  lift : ∀ {α : Type} {p : Run α}, Silent p → Keeps p → rel (K.lift p) (L.lift p)
  write : ∀ piece, rel (K.write piece) (L.write piece)
  bind : ∀ {α β : Type} {p : EStateM Stop K.State α} {q : EStateM Stop L.State α}
    {f : α → EStateM Stop K.State β} {g : α → EStateM Stop L.State β}, rel p q →
    (∀ a, rel (f a) (g a)) → rel (p >>= f) (q >>= g)
  within : ∀ {α : Type} {p : EStateM Stop K.State α} {q : EStateM Stop L.State α}, rel p q →
    ∀ f, rel (K.platform.within f p) (L.platform.within f q)
  oneDeeper : ∀ {p : EStateM Stop K.State Value} {q : EStateM Stop L.State Value}, rel p q →
    ∀ paren, rel (K.oneDeeper paren p) (L.oneDeeper paren q)

namespace Congruence

variable {K L : Carrier} (C : Congruence K L)

/-- All evaluations of at most `n` steps are related. -/
structure Holds (n : Nat) : Prop where
  evaluate : ∀ e, C.rel (K.platform.evaluate n e) (L.platform.evaluate (n + C.more) e)
  callValue : ∀ callee paren arguments,
    C.rel (K.platform.callValue n callee paren arguments)
      (L.platform.callValue (n + C.more) callee paren arguments)
  invoke : ∀ f arguments,
    C.rel (K.platform.invoke n f arguments) (L.platform.invoke (n + C.more) f arguments)
  declareVariable : ∀ decl,
    C.rel (K.platform.declareVariable n decl) (L.platform.declareVariable (n + C.more) decl)
  execute : ∀ s, C.rel (K.platform.execute n s) (L.platform.execute (n + C.more) s)
  repeatWhile : ∀ condition body,
    C.rel (K.platform.repeatWhile n condition body)
      (L.platform.repeatWhile (n + C.more) condition body)

section combinators

variable {α β : Type}

theorem pure (a : α) : C.rel (pure a) (pure a) := by
  rw [← K.lift_pure a, ← L.lift_pure a]
  exact C.lift (.pure a) (.pure a)

theorem throw (e : Stop) : C.rel (throw e : EStateM Stop K.State α) (throw e) := by
  rw [← K.lift_throw e, ← L.lift_throw e]
  exact C.lift (.throw e) (.throw e)

theorem fault (place : Token) (cause : RuntimeError.Cause) :
    C.rel (K.platform.fault place cause : EStateM Stop K.State α) (L.platform.fault place cause) :=
  C.throw _

theorem ofExcept (place : Token) (r : Except RuntimeError.Cause α) :
    C.rel (K.platform.ofExcept place r) (L.platform.ofExcept place r) := by
  cases r with
  | ok a => exact C.pure a
  | error cause => exact C.fault place cause

theorem map {p : EStateM Stop K.State α} {q : EStateM Stop L.State α} (h : C.rel p q)
    (f : α → β) : C.rel (f <$> p) (f <$> q) := by
  rw [← bind_pure_comp, ← bind_pure_comp]
  exact C.bind h fun a => C.pure (f a)

theorem mapM {f : α → EStateM Stop K.State β} {g : α → EStateM Stop L.State β}
    (h : ∀ a, C.rel (f a) (g a)) (xs : List α) : C.rel (xs.mapM f) (xs.mapM g) := by
  induction xs with
  | nil => exact C.pure []
  | cons x xs ih =>
    rw [List.mapM_cons, List.mapM_cons]
    exact C.bind (h x) fun b => C.bind ih fun bs => C.pure _

theorem forM {f : α → EStateM Stop K.State PUnit} {g : α → EStateM Stop L.State PUnit}
    (h : ∀ a, C.rel (f a) (g a)) (xs : List α) : C.rel (xs.forM f) (xs.forM g) := by
  induction xs with
  | nil => exact C.pure _
  | cons x xs ih => exact C.bind (h x) fun _ => ih

theorem inOrder {f : α → EStateM Stop K.State Flow} {g : α → EStateM Stop L.State Flow}
    (h : ∀ a, C.rel (f a) (g a)) (xs : List α) :
    C.rel (K.platform.inOrder f xs) (L.platform.inOrder g xs) := by
  induction xs with
  | nil => exact C.pure _
  | cons x xs ih =>
    refine C.bind (h x) fun flow => ?_
    cases flow with
    | normal => exact ih
    | returned value => exact C.pure _

end combinators

variable {n : Nat}

section step

variable {C} (ih : C.Holds n)
include ih

theorem evaluate_succ (e : Expr) :
    C.rel (K.platform.evaluate (n + 1) e) (L.platform.evaluate (n + C.more + 1) e) := by
  cases e with
  | sequence items => exact C.bind (C.mapM ih.evaluate items) fun values => C.pure _
  | assign id name value =>
    refine C.bind (ih.evaluate value) fun v => ?_
    exact C.bind (C.lift (.assignVariable id name v) (.assignVariable id name v)) fun _ => C.pure v
  | binary left operator right =>
    refine C.bind (ih.evaluate left) fun l => ?_
    exact C.bind (ih.evaluate right) fun r => C.ofExcept operator _
  | call callee paren arguments =>
    refine C.bind (ih.evaluate callee) fun f => ?_
    exact C.bind (C.mapM ih.evaluate arguments) fun values => ih.callValue f paren values
  | get object name =>
    refine C.bind (ih.evaluate object) fun o => ?_
    cases o with
    | object i => exact C.lift (.readProperty i name) (.readProperty i name)
    | _ => exact C.fault name _
  | grouping inner => exact ih.evaluate inner
  | constant value => exact C.pure _
  | logical left operator right =>
    refine C.bind (ih.evaluate left) fun l => ?_
    split
    · exact C.pure l
    · exact ih.evaluate right
  | set object name value =>
    refine C.bind (ih.evaluate object) fun o => ?_
    cases o with
    | object i =>
      refine C.bind (ih.evaluate value) fun v => ?_
      exact C.bind (C.lift (.setField i _ v) (.setField i _ v)) fun _ => C.pure v
    | _ => exact C.fault name _
  | super id keyword method => exact C.lift (.readSuper id keyword method) (.readSuper _ _ _)
  | this id keyword => exact C.lift (.readVariable id keyword) (.readVariable id keyword)
  | unary operator right => exact C.bind (ih.evaluate right) fun r => C.ofExcept operator _
  | read ref => exact C.lift (.readVariable ref.id ref.name) (.readVariable ref.id ref.name)

theorem callValue_succ (callee : Value) (paren : Token) (arguments : List Value) :
    C.rel (K.platform.callValue (n + 1) callee paren arguments)
      (L.platform.callValue (n + C.more + 1) callee paren arguments) := by
  refine C.bind (C.lift (.gets fun _ _ _ _ => rfl) (.gets _)) fun found => ?_
  cases found with
  | none => exact C.fault paren _
  | some callee =>
    dsimp only
    have arity : L.platform.arity callee = K.platform.arity callee := by
      cases callee with
      | clock | function f => rfl
      | cls c initializer => cases initializer <;> rfl
    rw [arity]
    split
    · exact C.fault paren _
    · refine C.oneDeeper ?_ paren
      cases callee with
      | clock => exact C.lift .readClock .readClock
      | function f => exact ih.invoke f arguments
      | cls c initializer =>
        refine C.bind (C.lift (.newInstance c) (.newInstance c)) fun i => ?_
        cases initializer with
        | none => exact C.pure _
        | some method =>
          refine C.bind (C.lift (.bindMethod method i) (.bindMethod method i)) fun bound => ?_
          exact C.bind (ih.invoke bound arguments) fun _ => C.pure _

theorem invoke_succ (f : Closure) (arguments : List Value) :
    C.rel (K.platform.invoke (n + 1) f arguments)
      (L.platform.invoke (n + C.more + 1) f arguments) := by
  refine C.bind (C.lift (.newFrame _ _) (.newFrame _ _)) fun frame => ?_
  refine C.bind (C.within (C.inOrder ih.execute _) frame) fun flow => ?_
  split
  · refine C.lift (.bind (.gets fun _ _ _ _ => rfl) fun this => .pure _) ?_
    exact .bind (.gets _) fun this => .pure _
  · cases flow with
    | normal => exact C.pure _
    | returned value => exact C.pure _

theorem declareVariable_succ (decl : VarDecl) :
    C.rel (K.platform.declareVariable (n + 1) decl)
      (L.platform.declareVariable (n + C.more + 1) decl) := by
  obtain ⟨name, initializer⟩ := decl
  refine C.bind (C.pure ()) fun _ => ?_
  have behind : ∀ value, C.rel (do K.platform.define name.lexeme value; Pure.pure Flow.normal)
      (do L.platform.define name.lexeme value; Pure.pure Flow.normal) := fun value =>
    C.bind (C.lift (.define _ value) (.define _ value)) fun _ => C.pure _
  cases initializer with
  | none => exact C.bind (C.pure _) behind
  | some e => exact C.bind (ih.evaluate e) behind

theorem execute_succ (s : Stmt) :
    C.rel (K.platform.execute (n + 1) s) (L.platform.execute (n + C.more + 1) s) := by
  cases s with
  | block body =>
    have enter : C.rel (K.platform.enterBlock body) (L.platform.enterBlock body) :=
      C.lift (.bind (.gets fun _ _ _ _ => rfl) fun outer => .newFrame _ _)
        (.bind (.gets _) fun outer => .newFrame _ _)
    exact C.bind enter fun frame => C.within (C.inOrder ih.execute body) frame
  | classDecl name superclass methods =>
    exact C.bind (C.lift (.declareClass name superclass methods) (.declareClass _ _ _))
      fun _ => C.pure _
  | expression value => exact C.bind (ih.evaluate value) fun _ => C.pure _
  | function decl =>
    have declare : C.rel (K.platform.declareFunction decl) (L.platform.declareFunction decl) :=
      C.lift
        (.bind (.gets fun _ _ _ _ => rfl) fun outer => .bind (.newFunction _) fun f => .define _ f)
        (.bind (.gets _) fun outer => .bind (.newFunction _) fun f => .define _ f)
    exact C.bind declare fun _ => C.pure _
  | branch condition thenBranch elseBranch =>
    refine C.bind (ih.evaluate condition) fun value => ?_
    split
    · exact ih.execute thenBranch
    · cases elseBranch with
      | none => exact C.pure _
      | some elseBranch => exact ih.execute elseBranch
  | print value =>
    refine C.bind (ih.evaluate value) fun v => ?_
    have text : C.rel (K.lift (gets (·.store.text v))) (L.lift (gets (·.store.text v))) :=
      C.lift (.gets fun _ _ _ _ => rfl) (.gets _)
    exact C.bind (C.bind text fun text => C.bind (C.write text) fun _ => C.write "\n")
      fun _ => C.pure _
  | ret keyword value =>
    cases value with
    | none => exact C.pure _
    | some e => exact C.map (ih.evaluate e) _
  | var decl => exact ih.declareVariable decl
  | varList decls => exact C.inOrder ih.declareVariable decls
  | loop condition body => exact ih.repeatWhile condition body

theorem repeatWhile_succ (condition : Expr) (body : Stmt) :
    C.rel (K.platform.repeatWhile (n + 1) condition body)
      (L.platform.repeatWhile (n + C.more + 1) condition body) := by
  refine C.bind (ih.evaluate condition) fun value => ?_
  split
  · refine C.bind (ih.execute body) fun flow => ?_
    cases flow with
    | normal => exact ih.repeatWhile condition body
    | returned value => exact C.pure _
  · exact C.pure _

end step

/-- A relation that the operations respect holds between all evaluations. -/
theorem all (n : Nat) : C.Holds n := by
  induction n with
  | zero =>
    constructor
    all_goals
      intros
      refine C.exhausted _ fun none => ?_
      rw [none]
      rfl
  | succ n ih =>
    have later : n + 1 + C.more = n + C.more + 1 := by omega
    constructor
    · intro e
      rw [later]
      exact evaluate_succ ih e
    · intro callee paren arguments
      rw [later]
      exact callValue_succ ih callee paren arguments
    · intro f arguments
      rw [later]
      exact invoke_succ ih f arguments
    · intro decl
      rw [later]
      exact declareVariable_succ ih decl
    · intro s
      rw [later]
      exact execute_succ ih s
    · intro condition body
      rw [later]
      exact repeatWhile_succ ih condition body

theorem executeAll (steps : Nat) (program : List Stmt) :
    C.rel (K.platform.executeAll steps program) (L.platform.executeAll (steps + C.more) program) :=
  C.forM (fun s => C.map ((C.all steps).execute s) _) program

end Congruence

end Treewalk
