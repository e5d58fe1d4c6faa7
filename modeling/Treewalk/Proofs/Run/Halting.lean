import Mathlib
import Treewalk.Proofs.Run.Calls
import Treewalk.Proofs.Run.Steps
import Treewalk.Proofs.Store.Region

/-!
# Programs without loops halt

A batch without loops, run where no function with a loop can be reached, does not run forever,
whatever calls what. A call takes the run to a body that may be anywhere in the store, but no body
is larger than the largest one there is; and the limit leaves only so many calls in progress. So
what is still to come is bounded by the size of the expression or statement at hand, and by the
calls that may still be begun inside of it, each counted with the largest body.

The functions that are called are found in a region of the store that the run does not leave.
-/

namespace Treewalk

open Run

mutual

/-- The statement holds no loop, nor do the functions and methods in it. -/
def Stmt.LoopFree : Stmt → Prop
  | .block body => Stmt.AllLoopFree body
  | .classDecl _ _ methods => FunctionDecl.AllLoopFree methods
  | .function decl => decl.LoopFree
  | .branch _ thenBranch none => thenBranch.LoopFree
  | .branch _ thenBranch (some elseBranch) => thenBranch.LoopFree ∧ elseBranch.LoopFree
  | .loop _ _ => False
  | .expression _ | .print _ | .ret _ _ | .var _ | .varList _ => True

def Stmt.AllLoopFree : List Stmt → Prop
  | [] => True
  | s :: rest => s.LoopFree ∧ Stmt.AllLoopFree rest

def FunctionDecl.LoopFree : FunctionDecl → Prop
  | ⟨_, _, body⟩ => Stmt.AllLoopFree body

def FunctionDecl.AllLoopFree : List FunctionDecl → Prop
  | [] => True
  | decl :: rest => decl.LoopFree ∧ FunctionDecl.AllLoopFree rest

end

theorem Stmt.loopFree_of_mem {body : List Stmt} (h : Stmt.AllLoopFree body) {s : Stmt}
    (member : s ∈ body) : s.LoopFree := by
  induction body with
  | nil => cases member
  | cons first rest ih =>
    rw [Stmt.AllLoopFree] at h
    rcases List.mem_cons.1 member with rfl | member
    · exact h.1
    · exact ih h.2 member

theorem FunctionDecl.loopFree_of_mem {decls : List FunctionDecl}
    (h : FunctionDecl.AllLoopFree decls) {decl : FunctionDecl} (member : decl ∈ decls) :
    decl.LoopFree := by
  induction decls with
  | nil => cases member
  | cons first rest ih =>
    rw [FunctionDecl.AllLoopFree] at h
    rcases List.mem_cons.1 member with rfl | member
    · exact h.1
    · exact ih h.2 member

theorem FunctionDecl.loopFree_iff (decl : FunctionDecl) :
    decl.LoopFree ↔ Stmt.AllLoopFree decl.body := by
  cases decl
  rw [FunctionDecl.LoopFree]

theorem Expr.sizeOf_pos (e : Expr) : 0 < sizeOf e := by
  cases e <;> simp only [sequence.sizeOf_spec, assign.sizeOf_spec, binary.sizeOf_spec,
    call.sizeOf_spec, get.sizeOf_spec, grouping.sizeOf_spec, constant.sizeOf_spec,
    logical.sizeOf_spec, set.sizeOf_spec, super.sizeOf_spec, this.sizeOf_spec, unary.sizeOf_spec,
    read.sizeOf_spec] <;> omega

theorem VarDecl.sizeOf_pos (decl : VarDecl) : 0 < sizeOf decl := by
  cases decl
  rw [mk.sizeOf_spec]
  omega

theorem Stmt.sizeOf_pos (s : Stmt) : 0 < sizeOf s := by
  cases s <;> simp only [block.sizeOf_spec, classDecl.sizeOf_spec, expression.sizeOf_spec,
    function.sizeOf_spec, branch.sizeOf_spec, print.sizeOf_spec, ret.sizeOf_spec, var.sizeOf_spec,
    varList.sizeOf_spec, loop.sizeOf_spec] <;> omega

theorem FunctionDecl.sizeOf_body_le (decl : FunctionDecl) : sizeOf decl.body ≤ sizeOf decl := by
  cases decl
  rw [mk.sizeOf_spec]
  exact Nat.le_add_left _ _

/-- What bounds a run without loops: the region that it stays in, a size that no body of a function
there exceeds, and the limit of calls in progress. -/
structure Bounds where
  region : Region
  size : Nat
  limit : Nat

namespace Bounds

variable (B : Bounds)

/-- A function that may be called. -/
def Fit (decl : FunctionDecl) : Prop := decl.LoopFree ∧ sizeOf decl.body ≤ B.size

theorem fit_of_le {decl : FunctionDecl} (free : decl.LoopFree) (size : sizeOf decl ≤ B.size) :
    B.Fit decl :=
  ⟨free, Nat.le_trans decl.sizeOf_body_le size⟩

/-- The steps that the calls to come may take, with so many in progress. -/
def budget (depth : Nat) : Nat := (B.limit - depth) * (B.size + 1)

theorem budget_succ {depth : Nat} (below : depth < B.limit) :
    B.budget depth = B.budget (depth + 1) + (B.size + 1) := by
  have : B.limit - depth = (B.limit - (depth + 1)) + 1 := by omega
  rw [budget, budget, this, Nat.succ_mul]

/-- The machine is at this depth, and all that a program can reach on it is in the region. -/
structure Ready (depth : Nat) (m : Machine) : Prop where
  env : B.region (.frame m.env)
  globals : B.region (.frame m.globals)
  store : m.store.In B.region B.Fit
  depth : m.depth = depth
  limit : m.depthLimit = some B.limit

/-- Begun at this depth, the run does not use up its steps, and if it yields something this is
good. -/
def Halts {α : Type} (depth : Nat) (good : α → Prop) (p : Run α) : Prop :=
  ∀ m, B.Ready depth m → match p m with
    | .ok a m' => B.Ready depth m' ∧ good a
    | .error e _ => e ≠ .exhausted

end Bounds

namespace Bounds.Halts

variable {B : Bounds} {depth : Nat} {α β : Type} {good : α → Prop} {fine : β → Prop}

theorem pure {a : α} (h : good a) : B.Halts depth good (pure a) := fun _ ready => ⟨ready, h⟩

theorem throw {e : Stop} (h : e ≠ .exhausted) : B.Halts depth good (throw e) := fun _ _ => h

theorem fault (place : Token) (cause : RuntimeError.Cause) :
    B.Halts depth good (fault place cause) :=
  throw nofun

theorem gets {f : Machine → α} (h : ∀ m, B.Ready depth m → good (f m)) :
    B.Halts depth good (Run.gets f) := fun m ready => ⟨ready, h m ready⟩

theorem env : B.Halts depth (fun f => B.region (.frame f)) (Run.gets (·.env)) :=
  gets fun _ ready => ready.env

theorem look (f : Machine → α) : B.Halts depth (fun _ => True) (Run.gets f) :=
  gets fun _ _ => trivial

theorem bind {p : Run α} {f : α → Run β} (h : B.Halts depth good p)
    (next : ∀ a, good a → B.Halts depth fine (f a)) : B.Halts depth fine (p >>= f) := by
  intro m ready
  have first := h m ready
  show match EStateM.bind p f m with | .ok _ _ => _ | .error _ _ => _
  unfold EStateM.bind
  cases ran : p m with
  | ok a m' =>
    rw [ran] at first
    exact next a first.2 m' first.1
  | error e m' =>
    rw [ran] at first
    exact first

theorem map {p : Run α} {f : α → β} (h : B.Halts depth good p) (next : ∀ a, good a → fine (f a)) :
    B.Halts depth fine (f <$> p) := by
  rw [← bind_pure_comp]
  exact h.bind fun a this => pure (next a this)

theorem mapM {f : α → Run β} (xs : List α) (h : ∀ x ∈ xs, B.Halts depth fine (f x)) :
    B.Halts depth (fun ys => ∀ y ∈ ys, fine y) (xs.mapM f) := by
  induction xs with
  | nil => exact pure (List.forall_mem_nil _)
  | cons x xs ih =>
    rw [List.forall_mem_cons] at h
    rw [List.mapM_cons]
    refine h.1.bind fun y first => (ih h.2).bind fun ys others => pure ?_
    exact List.forall_mem_cons.2 ⟨first, others⟩

theorem forM {f : α → Run PUnit} (xs : List α)
    (h : ∀ x ∈ xs, B.Halts depth (fun _ => True) (f x)) :
    B.Halts depth (fun _ => True) (xs.forM f) := by
  induction xs with
  | nil => exact pure trivial
  | cons x xs ih =>
    rw [List.forall_mem_cons] at h
    exact h.1.bind fun _ _ => ih h.2

/-- A change of the store that keeps the region closed. -/
theorem change {store : Machine → Store} {yield : Machine → α}
    (h : ∀ m, B.Ready depth m → (store m).In B.region B.Fit ∧ good (yield m)) :
    B.Halts depth good (fun m => .ok (yield m) { m with store := store m }) := fun m ready =>
  ⟨⟨ready.env, ready.globals, (h m ready).1, ready.depth, ready.limit⟩, (h m ready).2⟩

end Bounds.Halts

/-- The value that a statement returns, if it does, is in the region. -/
def Flow.In (R : Region) : Flow → Prop
  | .normal => True
  | .returned value => value.In R

/-- What is called is in the region. -/
def Store.Callable.In (R : Region) (fit : FunctionDecl → Prop) : Store.Callable → Prop
  | .clock => True
  | .function f => f.In R fit
  | .cls id initializer => R (.cls id) ∧ ∀ f ∈ initializer, f.In R fit

namespace Bounds

variable {B : Bounds} {depth : Nat}

/-- A value in the region. -/
abbrev Yields (B : Bounds) (depth : Nat) (p : Run Value) : Prop :=
  B.Halts depth (Value.In B.region) p

/-- A statement, with what it returns in the region. -/
abbrev Flows (B : Bounds) (depth : Nat) (p : Run Flow) : Prop :=
  B.Halts depth (Flow.In B.region) p

namespace Halts

theorem ofExcept (place : Token) {r : Except RuntimeError.Cause Value}
    (h : ∀ value, r = .ok value → value.In B.region) :
    B.Yields depth (Run.ofExcept place r) := by
  cases r with
  | ok a => exact pure (h a rfl)
  | error cause => exact fault place cause

theorem defineIn (f : FrameId) (name : String) {value : Value} (this : value.In B.region) :
    B.Halts depth (fun _ => True) (defineIn f name value) :=
  change fun _ ready => ⟨ready.store.define f name this, trivial⟩

theorem define (name : String) {value : Value} (this : value.In B.region) :
    B.Halts depth (fun _ => True) (define name value) :=
  change fun m ready => ⟨ready.store.define m.env name this, trivial⟩

theorem newFrame {parent : FrameId} {values : Bindings Value}
    (this : Frame.In B.region ⟨values, some parent⟩) :
    B.Halts depth (fun f => B.region (.frame f)) (newFrame parent values) :=
  change fun _ ready => ⟨ready.store.pushFrame this, ready.store.frames.fresh _ (Nat.le_refl _)⟩

theorem newFunction {c : Closure} (this : c.In B.region B.Fit) :
    B.Yields depth (newFunction c) := by
  refine change fun m ready => ⟨ready.store.pushFunction this, ?_⟩
  rintro held ⟨⟩
  exact ready.store.functions.fresh _ (Nat.le_refl _)

theorem newClass {cls : Class} (this : cls.In B.region B.Fit) :
    B.Yields depth (newClass cls) := by
  refine change fun m ready => ⟨ready.store.pushClass this, ?_⟩
  rintro held ⟨⟩
  exact ready.store.classes.fresh _ (Nat.le_refl _)

theorem newInstance {k : ClassId} (this : B.region (.cls k)) :
    B.Halts depth (fun i => B.region (.object i)) (newInstance k) :=
  change fun _ ready => ⟨ready.store.pushInstance ⟨this, Bindings.empty_in⟩,
    ready.store.instances.fresh _ (Nat.le_refl _)⟩

theorem setField (i : InstanceId) (name : String) {value : Value} (this : value.In B.region) :
    B.Halts depth (fun _ => True) (setField i name value) :=
  change fun _ ready => ⟨ready.store.setField i name this, trivial⟩

theorem readClock : B.Yields depth readClock := fun _ ready =>
  ⟨⟨ready.env, ready.globals, ready.store, ready.depth, ready.limit⟩, nofun⟩

theorem readVariable (id : NodeId) (name : Token) : B.Yields depth (readVariable id name) := by
  intro m ready
  unfold Run.readVariable
  cases m.distances.get? id with
  | some distance =>
    dsimp only
    cases found : m.store.frames.getAt? m.env distance name.lexeme with
    | some value => exact ⟨ready, ready.store.getAt? ready.env found⟩
    | none => exact nofun
  | none =>
    dsimp only
    cases found : m.store.frames.get? m.globals name.lexeme with
    | some value => exact ⟨ready, ready.store.get? ready.globals found⟩
    | none => exact nofun

theorem assignVariable (id : NodeId) (name : Token) {value : Value} (this : value.In B.region) :
    B.Halts depth (fun _ => True) (assignVariable id name value) := by
  refine (look _).bind fun found _ => ?_
  cases found with
  | some f => exact defineIn f _ this
  | none => exact fault name _

theorem assignName (name : Token) {value : Value} (this : value.In B.region) :
    B.Halts depth (fun _ => True) (assignName name value) := by
  refine (look _).bind fun found _ => ?_
  cases found with
  | some f => exact defineIn f _ this
  | none => exact fault name _

theorem write (piece : String) : B.Halts depth (fun _ => True) (write piece) := by
  intro m ready
  unfold Run.write
  cases m.sink.refusal m.sink.written piece with
  | some r => exact nofun
  | none => exact ⟨⟨ready.env, ready.globals, ready.store, ready.depth, ready.limit⟩, trivial⟩

theorem print (value : Value) : B.Halts depth (fun _ => True) (print value) :=
  (look _).bind fun _ _ => (write _).bind fun _ _ => write "\n"

theorem inFrame {α : Type} {good : α → Prop} {p : Run α} (h : B.Halts depth good p) {f : FrameId}
    (member : B.region (.frame f)) : B.Halts depth good (inFrame f p) := by
  intro m ready
  have inside := h { m with env := f }
    ⟨member, ready.globals, ready.store, ready.depth, ready.limit⟩
  unfold Run.inFrame
  dsimp only
  cases ran : p { m with env := f } with
  | ok a m' =>
    rw [ran] at inside
    obtain ⟨ready', this⟩ := inside
    exact ⟨⟨ready.env, ready'.globals, ready'.store, ready'.depth, ready'.limit⟩, this⟩
  | error e m' =>
    rw [ran] at inside
    exact inside

/-- A call that is too deep is an error; any other one has one call less inside of it. -/
theorem oneDeeper {α : Type} {good : α → Prop} {p : Run α} (paren : Token)
    (h : depth < B.limit → B.Halts (depth + 1) good p) :
    B.Halts depth good (oneDeeper paren p) := by
  intro m ready
  cases full : m.atDepthLimit with
  | true =>
    unfold Run.oneDeeper
    rw [if_pos full]
    exact nofun
  | false =>
    have below : depth < B.limit := by
      rw [Machine.atDepthLimit, ready.limit, ready.depth] at full
      exact Nat.lt_of_not_le (of_decide_eq_false full)
    have inside := h below { m with depth := m.depth + 1 }
      ⟨ready.env, ready.globals, ready.store, congrArg (· + 1) ready.depth, ready.limit⟩
    rw [oneDeeper_eq full]
    cases ran : p { m with depth := m.depth + 1 } with
    | ok a m' =>
      rw [ran] at inside
      obtain ⟨ready', this⟩ := inside
      refine ⟨⟨ready'.env, ready'.globals, ready'.store, ?_, ready'.limit⟩, this⟩
      show m'.depth - 1 = depth
      rw [ready'.depth]
      rfl
    | error e m' =>
      rw [ran] at inside
      exact inside

theorem inOrder {α : Type} {step : α → Run Flow} (xs : List α)
    (h : ∀ x ∈ xs, B.Flows depth (step x)) : B.Flows depth (inOrder step xs) := by
  induction xs with
  | nil => exact pure trivial
  | cons x xs ih =>
    rw [List.forall_mem_cons] at h
    refine h.1.bind fun flow this => ?_
    cases flow with
    | normal => exact ih h.2
    | returned value => exact pure this

/-- A method that is bound stays in the region, with its new frame. -/
theorem bindMethod {method : Closure} (this : method.In B.region B.Fit) {i : InstanceId}
    (member : B.region (.object i)) :
    B.Halts depth (fun c => c.In B.region B.Fit) (bindMethod method i) := by
  refine (newFrame ⟨?_, ?_⟩).bind fun frame new => pure ⟨new, this.decl⟩
  · refine Bindings.put_in Bindings.empty_in ?_
    rintro held ⟨⟩
    exact member
  · rintro outer ⟨⟩
    exact this.frame

theorem readMethod {method : Closure} (this : method.In B.region B.Fit) {i : InstanceId}
    (member : B.region (.object i)) :
    B.Yields depth (do Run.newFunction (← Run.bindMethod method i)) :=
  (bindMethod this member).bind fun _ bound => newFunction bound

theorem method? {k : ClassId} (member : B.region (.cls k)) (name : String) :
    B.Halts depth (fun found => ∀ c ∈ found, c.In B.region B.Fit)
      (Run.gets (·.store.method? k name)) :=
  gets fun _ ready _ found => ready.store.method? member found

theorem readProperty {i : InstanceId} (member : B.region (.object i)) (name : Token) :
    B.Yields depth (readProperty i name) := by
  have found : B.Halts depth
      (fun found : Option (Option Value × ClassId) => ∀ x ∈ found,
        (∀ value ∈ x.1, value.In B.region) ∧ B.region (.cls x.2))
      (Run.gets fun m => m.store.instances[i]?.map fun x =>
        (x.fields.get? name.lexeme, x.ofClass)) := by
    refine gets fun m ready x found => ?_
    obtain ⟨x, there, rfl⟩ := Option.map_eq_some_iff.1 found
    have good := ready.store.instances.good i x member there
    exact ⟨fun value bound => good.fields _ value bound, good.ofClass⟩
  refine found.bind fun found known => ?_
  match found with
  | some (some value, _) => exact pure ((known _ rfl).1 value rfl)
  | some (none, k) =>
    refine (method? (known _ rfl).2 _).bind fun method known => ?_
    cases method with
    | some method => exact readMethod (known _ rfl) member
    | none => exact fault name _
  | none => exact fault name _

theorem readSuper (id : NodeId) (keyword method : Token) :
    B.Yields depth (readSuper id keyword method) := by
  refine (look _).bind fun distance _ => ?_
  cases distance with
  | none => exact fault keyword _
  | some distance =>
    have above : B.Halts depth (fun found : Option Value => ∀ v ∈ found, v.In B.region)
        (Run.gets fun m => m.store.frames.getAt? m.env distance superName) :=
      gets fun m ready value found => ready.store.getAt? ready.env found
    refine above.bind fun above known => ?_
    split
    · next k =>
      have this : B.Halts depth (fun found : Option Value => ∀ v ∈ found, v.In B.region)
          (Run.gets fun m => if distance = 0 then none
            else m.store.frames.getAt? m.env (distance - 1) thisName) := by
        refine gets fun m ready value found => ?_
        split at found
        · cases found
        · exact ready.store.getAt? ready.env found
      refine this.bind fun this member => ?_
      split
      · refine (method? (known _ rfl _ rfl) _).bind fun found good => ?_
        cases found with
        | some found => exact readMethod (good _ rfl) (member _ rfl _ rfl)
        | none => exact fault method _
      · exact fault keyword _
    · exact fault keyword _

theorem readSuperclass (superclass : Variable) :
    B.Halts depth (fun k => B.region (.cls k)) (readSuperclass superclass) := by
  refine (readVariable _ _).bind fun value known => ?_
  cases value with
  | cls k => exact pure (known _ rfl)
  | _ => exact fault _ _

/-- The methods of a class close over its frame, and are parts of the program. -/
theorem makeClass (name : Token) {methods : List FunctionDecl}
    (fit : ∀ decl ∈ methods, B.Fit decl) {above : Option ClassId}
    (known : ∀ k ∈ above, B.region (.cls k)) :
    B.Halts depth (fun _ => True) (do
      let outer ← Run.gets (·.env)
      let frame ← match above with
        | none => Pure.pure outer
        | some c => Run.newFrame outer ((∅ : Bindings Value).put superName (.cls c))
      let closures := methods.map fun decl =>
        (decl.name.lexeme, Closure.mk decl frame decl.isInitializer)
      Run.assignName name (← Run.newClass ⟨name.lexeme, above, Bindings.ofList closures⟩)) := by
  have behind : ∀ frame, B.region (.frame frame) → B.Halts depth (fun _ => True) (do
      let closures := methods.map fun decl =>
        (decl.name.lexeme, Closure.mk decl frame decl.isInitializer)
      Run.assignName name (← Run.newClass ⟨name.lexeme, above, Bindings.ofList closures⟩)) := by
    intro frame member
    refine (newClass ⟨known, fun name' c own => ?_⟩).bind fun cls this => assignName name this
    obtain ⟨decl, method, made⟩ := List.mem_map.1 (Bindings.mem_of_get?_ofList own)
    cases made
    exact ⟨member, fit decl method⟩
  refine env.bind fun outer member => ?_
  cases above with
  | none =>
    have same : B.Halts depth (fun f => B.region (.frame f)) (Pure.pure outer) := pure member
    exact same.bind behind
  | some k =>
    refine (newFrame ⟨Bindings.put_in Bindings.empty_in ?_, ?_⟩).bind behind
    · rintro held ⟨⟩
      exact known k rfl
    · rintro parent ⟨⟩
      exact member

theorem declareClass (name : Token) (superclass : Option Variable) {methods : List FunctionDecl}
    (fit : ∀ decl ∈ methods, B.Fit decl) :
    B.Halts depth (fun _ => True) (declareClass name superclass methods) := by
  refine (define _ (Value.in_nil _)).bind fun _ _ => ?_
  cases superclass with
  | none =>
    have above : B.Halts depth (fun above : Option ClassId => ∀ k ∈ above, B.region (.cls k))
        (Pure.pure none) := pure fun _ none => nomatch none
    exact above.bind fun _ => makeClass name fit
  | some ref =>
    have above : B.Halts depth (fun above : Option ClassId => ∀ k ∈ above, B.region (.cls k))
        (some <$> Run.readSuperclass ref) := by
      refine (readSuperclass ref).map fun k member => ?_
      rintro _ ⟨⟩
      exact member
    exact above.bind fun _ => makeClass name fit

end Halts

/-! ## Evaluation -/

/-- With this many steps, what is at hand ends, with all calls that may still be begun. -/
structure HaltsWithin (B : Bounds) (n : Nat) : Prop where
  evaluate : ∀ {depth} e, sizeOf e + B.budget depth ≤ n → B.Yields depth (evaluate n e)
  callValue : ∀ {depth} callee paren arguments, B.budget depth < n → callee.In B.region →
    (∀ value ∈ arguments, value.In B.region) →
    B.Yields depth (callValue n callee paren arguments)
  invoke : ∀ {depth} f arguments, B.size + B.budget depth < n → f.In B.region B.Fit →
    (∀ value ∈ arguments, value.In B.region) → B.Yields depth (invoke n f arguments)
  declareVariable : ∀ {depth} decl, sizeOf decl + B.budget depth ≤ n →
    B.Flows depth (declareVariable n decl)
  execute : ∀ {depth} s, s.LoopFree → sizeOf s ≤ B.size → sizeOf s + B.budget depth ≤ n →
    B.Flows depth (execute n s)

namespace HaltsWithin

variable {n : Nat} (ih : HaltsWithin B n)
include ih

theorem evaluateAll (es : List Expr) (enough : sizeOf es + B.budget depth ≤ n) :
    B.Halts depth (fun values => ∀ value ∈ values, value.In B.region)
      (es.mapM (Treewalk.evaluate n)) :=
  .mapM es fun e member => ih.evaluate e (by
    have := List.sizeOf_lt_of_mem member
    omega)

theorem evaluate_succ (e : Expr) (enough : sizeOf e + B.budget depth ≤ n + 1) :
    B.Yields depth (Treewalk.evaluate (n + 1) e) := by
  cases e with
  | sequence items =>
    simp only [Expr.sequence.sizeOf_spec] at enough
    refine (ih.evaluateAll items (by omega)).bind fun values known => .pure ?_
    cases last : values.getLast? with
    | none => exact Value.in_nil _
    | some value => exact known value (List.mem_of_getLast? last)
  | assign id name value =>
    simp only [Expr.assign.sizeOf_spec] at enough
    refine (ih.evaluate value (by omega)).bind fun v known => ?_
    exact (Halts.assignVariable id name known).bind fun _ _ => .pure known
  | binary left operator right =>
    simp only [Expr.binary.sizeOf_spec] at enough
    refine (ih.evaluate left (by omega)).bind fun l _ => ?_
    exact (ih.evaluate right (by omega)).bind fun r _ =>
      .ofExcept operator fun _ => binaryOperator_in
  | call callee paren arguments =>
    simp only [Expr.call.sizeOf_spec] at enough
    have := callee.sizeOf_pos
    refine (ih.evaluate callee (by omega)).bind fun f known => ?_
    refine (ih.evaluateAll arguments (by omega)).bind fun values all => ?_
    exact ih.callValue f paren values (by omega) known all
  | get object name =>
    simp only [Expr.get.sizeOf_spec] at enough
    refine (ih.evaluate object (by omega)).bind fun o known => ?_
    cases o with
    | object i => exact .readProperty (known _ rfl) name
    | _ => exact .fault name _
  | grouping inner =>
    simp only [Expr.grouping.sizeOf_spec] at enough
    exact ih.evaluate inner (by omega)
  | constant value =>
    refine .pure ?_
    cases value <;> exact nofun
  | logical left operator right =>
    simp only [Expr.logical.sizeOf_spec] at enough
    refine (ih.evaluate left (by omega)).bind fun l known => ?_
    split
    · exact .pure known
    · exact ih.evaluate right (by omega)
  | set object name value =>
    simp only [Expr.set.sizeOf_spec] at enough
    refine (ih.evaluate object (by omega)).bind fun o _ => ?_
    cases o with
    | object i =>
      refine (ih.evaluate value (by omega)).bind fun v known => ?_
      exact (Halts.setField i _ known).bind fun _ _ => .pure known
    | _ => exact .fault name _
  | super id keyword method => exact .readSuper id keyword method
  | this id keyword => exact .readVariable id keyword
  | unary operator right =>
    simp only [Expr.unary.sizeOf_spec] at enough
    exact (ih.evaluate right (by omega)).bind fun r _ =>
      .ofExcept operator fun _ => unaryOperator_in
  | read ref => exact .readVariable ref.id ref.name

omit ih in
/-- What is called is in the region, if the value is. -/
theorem callable_in {value : Value} (known : value.In B.region) :
    B.Halts depth (fun found : Option Store.Callable => ∀ c ∈ found, c.In B.region B.Fit)
      (gets (·.store.callable? value)) := by
  refine .gets fun m ready c found => ?_
  cases value with
  | clock =>
    cases found
    trivial
  | function f =>
    obtain ⟨closure, there, rfl⟩ := Option.map_eq_some_iff.1 found
    exact ready.store.functions.good f closure (known _ rfl) there
  | cls k =>
    have found : (if k < m.store.classes.size then
        some (.cls k (m.store.method? k initializerName)) else none) = some c := found
    split at found <;> cases found
    exact ⟨known _ rfl, fun f method => ready.store.method? (known _ rfl) method⟩
  | _ => cases found

theorem callValue_succ (callee : Value) (paren : Token) (arguments : List Value)
    (enough : B.budget depth < n + 1) (known : callee.In B.region)
    (all : ∀ value ∈ arguments, value.In B.region) :
    B.Yields depth (Treewalk.callValue (n + 1) callee paren arguments) := by
  refine (callable_in known).bind fun found good => ?_
  cases found with
  | none => exact .fault paren _
  | some callable =>
    have good := good _ rfl
    dsimp only
    split
    · exact .fault paren _
    · refine .oneDeeper paren fun below => ?_
      rw [B.budget_succ below] at enough
      cases callable with
      | clock => exact .readClock
      | function f => exact ih.invoke f arguments (by omega) good all
      | cls k initializer =>
        refine (Halts.newInstance good.1).bind fun i member => ?_
        have object : Value.In B.region (.object i) := by
          rintro held ⟨⟩
          exact member
        cases initializer with
        | none => exact .pure object
        | some method =>
          refine (Halts.bindMethod (good.2 _ rfl) member).bind fun bound this => ?_
          exact (ih.invoke bound arguments (by omega) this all).bind fun _ _ => .pure object

theorem invoke_succ (f : Closure) (arguments : List Value)
    (enough : B.size + B.budget depth < n + 1) (known : f.In B.region B.Fit)
    (all : ∀ value ∈ arguments, value.In B.region) :
    B.Yields depth (Treewalk.invoke (n + 1) f arguments) := by
  have frame : Frame.In B.region ⟨f.decl.bindArguments arguments, some f.frame⟩ := by
    refine ⟨fun name value bound => ?_, fun outer parent => ?_⟩
    · exact all value (List.of_mem_zip (Bindings.mem_of_get?_ofList bound)).2
    · cases parent
      exact known.frame
  refine (Halts.newFrame frame).bind fun frame member => ?_
  have body : B.Flows depth (inOrder (Treewalk.execute n) f.decl.body) := by
    refine .inOrder f.decl.body fun s inside => ?_
    have small := List.sizeOf_lt_of_mem inside
    have size := known.decl.2
    have free := (FunctionDecl.loopFree_iff f.decl).1 known.decl.1
    exact ih.execute s (Stmt.loopFree_of_mem free inside) (by omega) (by omega)
  refine (body.inFrame member).bind fun flow this => ?_
  split
  · have receiver : B.Halts depth (fun found : Option Value => ∀ v ∈ found, v.In B.region)
        (gets fun m => m.store.frames.getAt? f.frame 0 thisName) :=
      .gets fun m ready value found => ready.store.getAt? known.frame found
    refine receiver.bind fun found good => .pure ?_
    cases found with
    | none => exact Value.in_nil _
    | some value => exact good value rfl
  · cases flow with
    | normal => exact .pure (Value.in_nil _)
    | returned value => exact .pure this

theorem declareVariable_succ (decl : VarDecl) (enough : sizeOf decl + B.budget depth ≤ n + 1) :
    B.Flows depth (Treewalk.declareVariable (n + 1) decl) := by
  obtain ⟨name, initializer⟩ := decl
  have behind : ∀ value : Value, value.In B.region →
      B.Flows depth (do Run.define name.lexeme value; pure Flow.normal) := fun value known =>
    (Halts.define _ known).bind fun _ _ => .pure trivial
  cases initializer with
  | none => exact (Halts.pure (Value.in_nil _)).bind behind
  | some e =>
    simp only [VarDecl.mk.sizeOf_spec, Option.some.sizeOf_spec] at enough
    exact (ih.evaluate e (by omega)).bind behind

theorem execute_succ (s : Stmt) (free : s.LoopFree) (size : sizeOf s ≤ B.size)
    (enough : sizeOf s + B.budget depth ≤ n + 1) : B.Flows depth (Treewalk.execute (n + 1) s) := by
  cases s with
  | block body =>
    rw [Stmt.LoopFree] at free
    simp only [Stmt.block.sizeOf_spec] at size enough
    refine Halts.env.bind fun outer member => ?_
    have frame : Frame.In B.region ⟨∅, some outer⟩ := by
      refine ⟨Bindings.empty_in, ?_⟩
      rintro parent ⟨⟩
      exact member
    refine (Halts.newFrame frame).bind fun frame member => ?_
    refine Halts.inFrame (.inOrder body fun s inside => ?_) member
    have small := List.sizeOf_lt_of_mem inside
    exact ih.execute s (Stmt.loopFree_of_mem free inside) (by omega) (by omega)
  | classDecl name superclass methods =>
    rw [Stmt.LoopFree] at free
    simp only [Stmt.classDecl.sizeOf_spec] at size
    have fit : ∀ decl ∈ methods, B.Fit decl := by
      intro decl member
      have small := List.sizeOf_lt_of_mem member
      exact B.fit_of_le (FunctionDecl.loopFree_of_mem free member) (by omega)
    exact (Halts.declareClass name superclass fit).bind fun _ _ => .pure trivial
  | expression value =>
    simp only [Stmt.expression.sizeOf_spec] at enough
    exact (ih.evaluate value (by omega)).bind fun _ _ => .pure trivial
  | function decl =>
    rw [Stmt.LoopFree] at free
    simp only [Stmt.function.sizeOf_spec] at size
    have fit : B.Fit decl := B.fit_of_le free (by omega)
    refine Halts.env.bind fun outer member => ?_
    refine (Halts.newFunction ⟨member, fit⟩).bind fun f known => ?_
    exact (Halts.define _ known).bind fun _ _ => .pure trivial
  | branch condition thenBranch elseBranch =>
    simp only [Stmt.branch.sizeOf_spec] at size enough
    refine (ih.evaluate condition (by omega)).bind fun value _ => ?_
    cases elseBranch with
    | none =>
      rw [Stmt.LoopFree] at free
      split
      · exact ih.execute thenBranch free (by omega) (by omega)
      · exact .pure trivial
    | some elseBranch =>
      rw [Stmt.LoopFree] at free
      simp only [Option.some.sizeOf_spec] at size enough
      split
      · exact ih.execute thenBranch free.1 (by omega) (by omega)
      · exact ih.execute elseBranch free.2 (by omega) (by omega)
  | print value =>
    simp only [Stmt.print.sizeOf_spec] at enough
    exact (ih.evaluate value (by omega)).bind fun v _ => (Halts.print v).bind fun _ _ =>
      .pure trivial
  | ret keyword value =>
    cases value with
    | none => exact .pure (Value.in_nil _)
    | some e =>
      simp only [Stmt.ret.sizeOf_spec, Option.some.sizeOf_spec] at enough
      exact (ih.evaluate e (by omega)).map fun _ known => known
  | var decl =>
    simp only [Stmt.var.sizeOf_spec] at enough
    exact ih.declareVariable decl (by omega)
  | varList decls =>
    simp only [Stmt.varList.sizeOf_spec] at enough
    refine .inOrder decls fun decl member => ih.declareVariable decl ?_
    have := List.sizeOf_lt_of_mem member
    omega
  | loop condition body =>
    rw [Stmt.LoopFree] at free
    exact free.elim

omit ih in
/-- Whatever is given the steps for its size and for its calls halts. -/
theorem all (B : Bounds) (n : Nat) : HaltsWithin B n := by
  induction n with
  | zero =>
    refine ⟨fun e enough => ?_, fun callee paren arguments enough => ?_,
      fun f arguments enough => ?_, fun decl enough => ?_, fun s free size enough => ?_⟩
    · have := e.sizeOf_pos
      omega
    · omega
    · omega
    · have := decl.sizeOf_pos
      omega
    · have := s.sizeOf_pos
      omega
  | succ n ih =>
    exact ⟨evaluate_succ ih, callValue_succ ih, invoke_succ ih, declareVariable_succ ih,
      execute_succ ih⟩

end HaltsWithin

end Bounds

/-- No function or method that a store holds is larger than the store. -/
theorem Store.ReachesCode.sizeOf_body {s : Store} {root : FrameId} {c : Closure}
    (h : s.ReachesCode root c) : sizeOf c.decl.body ≤ sizeOf s := by
  obtain ⟨frames, functions, classes, instances⟩ := s
  obtain ⟨decl, frame, isInitializer⟩ := c
  have body := decl.sizeOf_body_le
  simp only [Store.mk.sizeOf_spec]
  cases h with
  | function _ there =>
    have small := Array.sizeOf_lt_of_mem (Array.mem_of_getElem? there)
    simp only [Closure.mk.sizeOf_spec] at small
    omega
  | @method _ cls _ _ _ there own =>
    have small := Array.sizeOf_lt_of_mem (Array.mem_of_getElem? there)
    obtain ⟨_, above, ⟨entries⟩⟩ := cls
    obtain ⟨before, after, split, -⟩ := List.lookup_eq_some_iff.1 own
    have smaller := List.sizeOf_lt_of_mem (split ▸ List.mem_append_right before (.head after))
    simp only [Class.mk.sizeOf_spec, Bindings.mk.sizeOf_spec, Prod.mk.sizeOf_spec,
      Closure.mk.sizeOf_spec] at small smaller
    omega

theorem flush_halts (m m' : Machine) : flush m ≠ .error .exhausted m' := by
  unfold Run.flush
  split <;> exact nofun

/-- A batch without loops does not use up its steps, if there are enough of them for its size and
for the calls that the limit leaves, each as large as the store and the batch together. -/
theorem interpret_halts {m : Machine} {limit : Nat} (top : m.AtTop)
    (limited : m.depthLimit = some limit)
    (bodies : ∀ c, m.store.ReachesCode m.globals c → c.decl.LoopFree)
    (found : List (NodeId × Nat)) {program : List Stmt} (free : Stmt.AllLoopFree program)
    {steps : Nat}
    (enough : (sizeOf m.store + sizeOf program + 1) * (limit + 1) ≤ steps) (m' : Machine) :
    interpret steps found program m ≠ .error .exhausted m' := by
  let B : Bounds := ⟨m.store.region m.globals, sizeOf m.store + sizeOf program, limit⟩
  have store : m.store.In B.region B.Fit := Store.region_closed fun c reached =>
    ⟨bodies c reached, Nat.le_trans reached.sizeOf_body (Nat.le_add_right _ _)⟩
  have globals : B.region (.frame m.globals) := m.store.region_root m.globals
  have ready : B.Ready 0 (m.addDistances found) :=
    ⟨top.1 ▸ globals, globals, store, top.2, limited⟩
  have statements : B.Halts 0 (fun _ => True)
      (program.forM fun s => discard (execute steps s)) := by
    refine .forM program fun s member => ?_
    have small := List.sizeOf_lt_of_mem member
    refine ((Bounds.HaltsWithin.all B steps).execute s (Stmt.loopFree_of_mem free member) ?_
      ?_).map fun _ _ => trivial
    · show sizeOf s ≤ sizeOf m.store + sizeOf program
      omega
    · show sizeOf s + limit * (sizeOf m.store + sizeOf program + 1) ≤ steps
      rw [Nat.mul_succ, Nat.mul_comm _ limit] at enough
      omega
  have ran := statements _ ready
  unfold interpret
  cases result : program.forM (fun s => discard (execute steps s)) (m.addDistances found) with
  | ok _ m'' => exact flush_halts m'' m'
  | error e m'' =>
    rw [result] at ran
    cases e with
    | exhausted => exact absurd rfl ran
    | fault _ | output _ =>
      dsimp only
      cases flushed : flush m'' with
      | ok _ _ => exact nofun
      | error e' m₁ =>
        intro same
        cases same
        exact flush_halts _ _ flushed

/-- Programs without loops halt. Whatever batches a session has run, if no function and no method
that is reached from its globals holds a loop, then an accepted batch without loops ends, with one
and the same outcome from some number of steps on. -/
theorem loopFree_halts (sink : Sink) (clock : Nat → Float) (batches : List (Nat × List UInt8))
    (source : List UInt8) (c : Compiled) (next : NodeId) :
    let session := ((Session.start sink clock).runAll batches).2
    compile source session.nextId = (.ok c, next) →
    Stmt.AllLoopFree c.program →
    (∀ f, session.machine.store.ReachesCode session.machine.globals f → f.decl.LoopFree) →
    ∃ enough outcome, outcome.1 ≠ .error (.stopped .exhausted) ∧
      ∀ steps, enough ≤ steps → session.run steps source = outcome := by
  intro session compiled free bodies
  have top : session.machine.AtTop := Session.runAll_atTop _ batches ⟨rfl, rfl⟩
  have limited : session.machine.Limited := Session.runAll_limited _ batches rfl
  have limit : session.machine.depthLimit = some maxDepth := by rw [← limited]; rfl
  let enough := (sizeOf session.machine.store + sizeOf c.program + 1) * (maxDepth + 1)
  have halts : (session.run enough source).1 ≠ .error (.stopped .exhausted) := by
    have ends := interpret_halts top limit bodies c.distances free (Nat.le_refl enough)
    unfold Session.run
    rw [compiled]
    dsimp only [Session.perform]
    cases ran : interpret enough c.distances c.program session.machine with
    | ok _ m' => exact nofun
    | error e m' =>
      cases e with
      | exhausted => exact absurd ran (ends m')
      | fault _ | output _ => exact nofun
  refine ⟨enough, session.run enough source, halts, fun steps more => ?_⟩
  obtain ⟨extra, rfl⟩ := Nat.exists_eq_add_of_le more
  exact (session.run_add enough extra source).resolve_left halts

/-- A function that only calls itself. -/
def recursiveSource : List UInt8 := "fun f()\x7bf();\x7d".toUTF8.data.toList

/-- The call of the function, which no `return` ends. -/
def descentSource : List UInt8 := "f();".toUTF8.data.toList

def callOf (id : NodeId) : Stmt :=
  .expression (.call (.read ⟨id, ⟨.identifier, "f", none, 1⟩⟩) ⟨.rightParen, ")", none, 1⟩ [])

def recursiveDecl : FunctionDecl := ⟨⟨.identifier, "f", none, 1⟩, [], [callOf 0]⟩

/-- A recursion without an end halts. -/
theorem loopFree_halts_recursive :
    let session := ((Session.start .unlimited fun _ => 0).runAll [(9, recursiveSource)]).2
    compile descentSource session.nextId = (.ok ⟨[callOf 1], []⟩, 2) ∧
      Stmt.AllLoopFree [callOf 1] ∧
      (∀ f, session.machine.store.ReachesCode session.machine.globals f → f.decl.LoopFree) ∧
      ∃ enough outcome, outcome.1 ≠ .error (.stopped .exhausted) ∧
        ∀ steps, enough ≤ steps → session.run steps descentSource = outcome := by
  intro session
  have defined : compile recursiveSource 0 = (.ok ⟨[.function recursiveDecl], []⟩, 1) := by cbv
  have start : session =
      (((Session.start .unlimited fun _ => 0).run 9 recursiveSource).2.runAll []).2 := rfl
  have store : session.machine.store.functions = #[⟨recursiveDecl, 0, false⟩] ∧
      session.machine.store.classes = #[] ∧ session.nextId = 1 := by
    rw [start, Session.run, show (Session.start .unlimited fun _ => 0).nextId = 0 from rfl, defined]
    exact ⟨rfl, rfl, rfl⟩
  have compiled : compile descentSource session.nextId = (.ok ⟨[callOf 1], []⟩, 2) := by
    rw [store.2.2]
    cbv
  have free : Stmt.AllLoopFree [callOf 1] := by
    simp [Stmt.AllLoopFree, Stmt.LoopFree, callOf]
  have bodies : ∀ f, session.machine.store.ReachesCode session.machine.globals f →
      f.decl.LoopFree := by
    intro f reached
    cases reached with
    | function _ there =>
      have member := Array.mem_of_getElem? there
      rw [store.1, Array.mem_singleton] at member
      rw [member]
      simp [recursiveDecl, FunctionDecl.LoopFree, Stmt.AllLoopFree, Stmt.LoopFree, callOf]
    | method _ there _ =>
      rw [store.2.1] at there
      cases there
  exact ⟨compiled, free, bodies, loopFree_halts .unlimited (fun _ => 0) [(9, recursiveSource)]
    descentSource ⟨[callOf 1], []⟩ 2 compiled free bodies⟩

end Treewalk
