import Treewalk.Proofs.Run.Platform
import Treewalk.Proofs.Scope.Context
import Treewalk.Proofs.Scope.Relabel
import Treewalk.Proofs.Scope.Tidy

/-!
# Simulations

Two platforms that run the same program, up to numbers, lines and names, stay in step if their
operations do. A `Correspondence` says what it means to be in step: how the heaps and the
environments at a place correspond in a world, and that a world may only grow. A `Simulation` adds
one law for each operation; `Simulation.follows` lifts the laws to whole runs, at every number of
steps.
-/

namespace Treewalk

/-- A function that may be called when these scopes are around it. -/
def FunctionDecl.Fits (named : String → Prop) (allowed : Occurrence → Prop) (c : Context)
    (decl : FunctionDecl) : Prop :=
  decl.Tidy named ∧ ∀ o ∈ decl.occurrences c, allowed o

structure Correspondence (P Q : Platform) where
  World : Type
  le : World → World → Prop
  le_refl : ∀ w, le w w
  le_trans : ∀ {u v w}, le u v → le v w → le u w
  /-- What the second platform runs in place of the program of the first one. -/
  relabel : Relabel
  heap : World → P.State → Q.State → Prop
  /-- The environments at a place with these scopes around it. -/
  scope : World → Context → P.Env → Q.Env → Prop
  /-- Environments that can be entered, with these scopes around the places in them. -/
  inside : World → Context → P.Env → Q.Env → Prop
  /-- The world as a run in this environment finds it. -/
  focus : World → P.Env → World
  heap_focus : ∀ {w c s t e e'}, heap w s t → inside w c e e' →
    heap (focus w e) (P.setEnv e s) (Q.setEnv e' t)
  enter : ∀ {w c e e'}, inside w c e e' → scope (focus w e) c e e'
  leave : ∀ {v w c d e e' o o' s t}, inside v c e e' → scope v d o o' → le (focus v e) w →
    heap w s t → le v (focus w o) ∧ scope (focus w o) d o o' ∧
      heap (focus w o) (P.setEnv o s) (Q.setEnv o' t)
  /-- Functions that can be called. -/
  code : World → P.Code → Q.Code → Prop
  code_mono : ∀ {v w f g}, le v w → code v f g → code w f g
  /-- Methods that are not bound yet. -/
  method : World → P.Code → Q.Code → Prop
  method_mono : ∀ {v w f g}, le v w → method v f g → method w f g
  /-- What is known of the mentions of a program that is run. -/
  allowed : Occurrence → Prop
  /-- What is known of the names of its functions and classes. -/
  named : String → Prop
  stop : Stop → Stop → Prop
  env_setEnv : ∀ e s, P.env (P.setEnv e s) = e
  env_setEnv' : ∀ e t, Q.env (Q.setEnv e t) = e

namespace Correspondence

variable {P Q : Platform} (C : Correspondence P Q)

/-- What is shown of values: a relation in the world and with the scopes at the end of a run. -/
abbrev Post (α β : Type) := C.World → Context → α → β → Prop

/-- Two runs that began in a world with the scopes `c` around them end in step. -/
def Ends {α β : Type} (w : C.World) (c : Context) (A : C.Post α β) :
    EStateM.Result Stop P.State α → EStateM.Result Stop Q.State β → Prop
  | .ok a s, .ok b t => ∃ w' c', C.le w w' ∧ c'.length = c.length ∧ A w' c' a b ∧
      C.heap w' s t ∧ C.scope w' c' (P.env s) (Q.env t)
  | .error e s, .error e' t => C.stop e e' ∧ ∃ w' c', C.le w w' ∧ c'.length = c.length ∧
      C.heap w' s t ∧ C.scope w' c' (P.env s) (Q.env t)
  | _, _ => False

/-- Two runs that begin in step in this world end in step. -/
def Rel {α β : Type} (w : C.World) (c : Context) (A : C.Post α β) (p : P.Action α)
    (q : Q.Action β) : Prop :=
  ∀ s t, C.heap w s t → C.scope w c (P.env s) (Q.env t) → C.Ends w c A (p s) (q t)

/-- The same value, with these scopes around. -/
def Gives {α : Type} (c : Context) : C.Post α α := fun _ c' a b => c' = c ∧ a = b

/-- The same flow; a normal one leads to these scopes. -/
def Flows (c : Context) : C.Post Flow Flow := fun _ c' a b => a = b ∧ (a = .normal → c' = c)

/-- Something in step with the same scopes around. -/
def Keeps {α β : Type} (c : Context) (A : C.World → α → β → Prop) : C.Post α β :=
  fun w c' a b => c' = c ∧ A w a b

variable {C}
variable {α β γ δ : Type} {w : C.World} {c : Context}

theorem Ends.weaken {v : C.World} {c' : Context} {A : C.Post α β}
    {p : EStateM.Result Stop P.State α} {q : EStateM.Result Stop Q.State β}
    (h : C.Ends v c' A p q) (later : C.le w v) (size : c'.length = c.length) :
    C.Ends w c A p q := by
  match p, q, h with
  | .ok _ _, .ok _ _, ⟨w', c'', grown, same, rest⟩ =>
    exact ⟨w', c'', C.le_trans later grown, same.trans size, rest⟩
  | .error _ _, .error _ _, ⟨stops, w', c'', grown, same, rest⟩ =>
    exact ⟨stops, w', c'', C.le_trans later grown, same.trans size, rest⟩

theorem Rel.weaken {A B : C.Post α β} {p : P.Action α} {q : Q.Action β} (h : C.Rel w c A p q)
    (weaker : ∀ v c' a b, C.le w v → A v c' a b → B v c' a b) : C.Rel w c B p q := by
  intro s t hheap hscope
  have ends := h s t hheap hscope
  match p s, q t, ends with
  | .ok _ _, .ok _ _, ⟨w', c', grown, size, ha, rest⟩ =>
    exact ⟨w', c', grown, size, weaker _ _ _ _ grown ha, rest⟩
  | .error _ _, .error _ _, ends => exact ends

/-- As many scopes are around the end of a run as around its beginning. -/
theorem Rel.sized {A : C.Post α β} {p : P.Action α} {q : Q.Action β} (h : C.Rel w c A p q) :
    C.Rel w c (fun v c' a b => c'.length = c.length ∧ A v c' a b) p q := by
  intro s t hheap hscope
  have ends := h s t hheap hscope
  match p s, q t, ends with
  | .ok _ _, .ok _ _, ⟨w', c', grown, size, ha, rest⟩ =>
    exact ⟨w', c', grown, size, ⟨size, ha⟩, rest⟩
  | .error _ _, .error _ _, ends => exact ends

theorem Rel.pure {A : C.Post α β} {a : α} {b : β} (h : A w c a b) :
    C.Rel w c A (pure a) (pure b) :=
  fun _ _ hheap hscope => ⟨w, c, C.le_refl w, rfl, h, hheap, hscope⟩

theorem Rel.throw {A : C.Post α β} {e e' : Stop} (h : C.stop e e') :
    C.Rel w c A (throw e) (throw e') :=
  fun _ _ hheap hscope => ⟨h, w, c, C.le_refl w, rfl, hheap, hscope⟩

theorem Rel.bind {A : C.Post α β} {B : C.Post γ δ} {p : P.Action α} {q : Q.Action β}
    {f : α → P.Action γ} {g : β → Q.Action δ} (h : C.Rel w c A p q)
    (next : ∀ v c' a b, C.le w v → A v c' a b → C.Rel v c' B (f a) (g b)) :
    C.Rel w c B (p >>= f) (q >>= g) := by
  intro s t hheap hscope
  have ends := h s t hheap hscope
  show C.Ends w c B (EStateM.bind p f s) (EStateM.bind q g t)
  unfold EStateM.bind
  match p s, q t, ends with
  | .ok a s', .ok b t', ⟨w', c', grown, size, ha, hheap', hscope'⟩ =>
    exact (next w' c' a b grown ha s' t' hheap' hscope').weaken grown size
  | .error _ _, .error _ _, ends => exact ends

theorem Rel.map {A : C.Post α β} {B : C.Post γ δ} {p : P.Action α} {q : Q.Action β} {f : α → γ}
    {g : β → δ} (h : C.Rel w c A p q)
    (next : ∀ v c' a b, C.le w v → A v c' a b → B v c' (f a) (g b)) :
    C.Rel w c B (f <$> p) (g <$> q) := by
  intro s t hheap hscope
  have ends := h s t hheap hscope
  show C.Ends w c B (EStateM.map f p s) (EStateM.map g q t)
  unfold EStateM.map
  match p s, q t, ends with
  | .ok _ _, .ok _ _, ⟨w', c', grown, size, ha, rest⟩ =>
    exact ⟨w', c', grown, size, next _ _ _ _ grown ha, rest⟩
  | .error _ _, .error _ _, ends => exact ends

/-- `Rel.bind` behind a run that yields the same value on both platforms. -/
theorem Rel.andThen {B : C.Post γ δ} {c' : Context} {p : P.Action α} {q : Q.Action α}
    {f : α → P.Action γ} {g : α → Q.Action δ} (h : C.Rel w c (C.Gives c') p q)
    (next : ∀ v a, C.le w v → C.Rel v c' B (f a) (g a)) : C.Rel w c B (p >>= f) (q >>= g) := by
  refine h.bind ?_
  rintro v _ a _ later ⟨rfl, rfl⟩
  exact next v a later

/-- What runs in another environment leaves the scopes around it as they were. -/
theorem Rel.within {A : α → β → Prop} {inner : Context} {e : P.Env} {e' : Q.Env}
    {p : P.Action α} {q : Q.Action β} (env : C.inside w inner e e')
    (h : C.Rel (C.focus w e) inner (fun _ _ => A) p q) :
    C.Rel w c (C.Keeps c fun _ => A) (P.within e p) (Q.within e' q) := by
  intro s t hheap hscope
  have inside : C.scope (C.focus w e) inner (P.env (P.setEnv e s)) (Q.env (Q.setEnv e' t)) := by
    rw [C.env_setEnv, C.env_setEnv']
    exact C.enter env
  have ends := h _ _ (C.heap_focus hheap env) inside
  unfold Platform.within
  match p (P.setEnv e s), q (Q.setEnv e' t), ends with
  | .ok _ _, .ok _ _, ⟨w', _, grown, _, ha, hheap', _⟩ =>
    obtain ⟨grown', back, hheap''⟩ := C.leave env hscope grown hheap'
    refine ⟨C.focus w' (P.env s), c, grown', rfl, ⟨rfl, ha⟩, hheap'', ?_⟩
    rw [C.env_setEnv, C.env_setEnv']
    exact back
  | .error _ _, .error _ _, ⟨stops, w', _, grown, _, hheap', _⟩ =>
    obtain ⟨grown', back, hheap''⟩ := C.leave env hscope grown hheap'
    refine ⟨stops, C.focus w' (P.env s), c, grown', rfl, hheap'', ?_⟩
    rw [C.env_setEnv, C.env_setEnv']
    exact back

theorem Rel.mapM {f : α → P.Action γ} {g : β → Q.Action γ} {h : α → β} (xs : List α)
    (each : ∀ x ∈ xs, ∀ v, C.le w v → C.Rel v c (C.Gives c) (f x) (g (h x))) :
    C.Rel w c (C.Gives c) (xs.mapM f) ((xs.map h).mapM g) := by
  induction xs generalizing w with
  | nil => exact .pure ⟨rfl, rfl⟩
  | cons x xs ih =>
    rw [List.map_cons, List.mapM_cons, List.mapM_cons]
    refine (each x (.head _) w (C.le_refl w)).andThen fun v a later => ?_
    have others : ∀ y ∈ xs, ∀ u, C.le v u → C.Rel u c (C.Gives c) (f y) (g (h y)) :=
      fun y member u grown => each y (.tail _ member) u (C.le_trans later grown)
    exact (ih others).andThen fun u b grown => .pure ⟨rfl, rfl⟩

theorem Rel.inOrder_nil {f : α → P.Action Flow} {g : β → Q.Action Flow} :
    C.Rel w c (C.Flows c) (P.inOrder f []) (Q.inOrder g []) :=
  .pure ⟨rfl, fun _ => rfl⟩

/-- Of statements in order the later ones run with the scopes that the first one leads to. -/
theorem Rel.inOrder_cons {f : α → P.Action Flow} {g : β → Q.Action Flow} {x : α} {y : β}
    {xs : List α} {ys : List β} {c' c'' : Context} (first : C.Rel w c (C.Flows c') (f x) (g y))
    (rest : ∀ v, C.le w v → C.Rel v c' (C.Flows c'') (P.inOrder f xs) (Q.inOrder g ys)) :
    C.Rel w c (C.Flows c'') (P.inOrder f (x :: xs)) (Q.inOrder g (y :: ys)) := by
  rw [Platform.inOrder, Platform.inOrder]
  refine first.bind ?_
  rintro v d flow _ later ⟨rfl, normal⟩
  cases flow with
  | normal =>
    obtain rfl := normal rfl
    exact rest v later
  | returned value => exact .pure ⟨rfl, Flow.noConfusion⟩

/-- What is found on both platforms for a value that is called. -/
inductive Callees (w : C.World) : Option (Callee P.Code) → Option (Callee Q.Code) → Prop where
  | none : Callees w none none
  | clock : Callees w (some .clock) (some .clock)
  | function {f : P.Code} {g : Q.Code} :
      C.code w f g → Callees w (some (.function f)) (some (.function g))
  | cls {id : ClassId} : Callees w (some (.cls id none)) (some (.cls id none))
  | initialized {id : ClassId} {f : P.Code} {g : Q.Code} :
      C.method w f g → Callees w (some (.cls id (some f))) (some (.cls id (some g)))

variable (C)

/-- A statement that may be run with these scopes around it. -/
def Fits (c : Context) (s : Stmt) : Prop := s.Tidy C.named ∧ ∀ o ∈ s.occurrences c, C.allowed o

def AllFit (c : Context) (body : List Stmt) : Prop :=
  Stmt.AllTidy C.named body ∧ ∀ o ∈ Stmt.allOccurrences c body, C.allowed o

end Correspondence

/-- What a run stops with only where a scope is missing. -/
def RuntimeError.Cause.Unresolved : RuntimeError.Cause → Prop
  | .unresolvedSuper | .unresolvedThis => True
  | _ => False

/-- What a run stops with when the lines are other ones. -/
def Stop.relabel (r : Relabel) : Stop → Stop
  | .fault e => .fault ⟨e.cause, r.line e.line⟩
  | .output message => .output message
  | .exhausted => .exhausted

theorem unaryOperator_error {operator : TokenKind} {right : Value} {cause : RuntimeError.Cause}
    (h : unaryOperator operator right = .error cause) : ¬ cause.Unresolved := by
  unfold unaryOperator at h
  repeat' split at h
  all_goals first
    | cases h; exact id
    | cases h

theorem onNumbers_error {f : Float → Float → Value} {left right : Value}
    {cause : RuntimeError.Cause} (h : onNumbers f left right = .error cause) :
    ¬ cause.Unresolved := by
  unfold onNumbers at h
  split at h <;> cases h
  exact id

theorem binaryOperator_error {operator : TokenKind} {left right : Value}
    {cause : RuntimeError.Cause} (h : binaryOperator operator left right = .error cause) :
    ¬ cause.Unresolved := by
  unfold binaryOperator at h
  split at h
  · split at h <;> cases h
    exact id
  all_goals first
    | exact onNumbers_error h
    | cases h; exact id
    | cases h

/-- The operations of two platforms are in step. -/
structure Simulation {P Q : Platform} (C : Correspondence P Q) : Prop where
  exhausted : C.stop .exhausted .exhausted
  exhausted_iff : ∀ {e e'}, C.stop e e' → (e = .exhausted ↔ e' = .exhausted)
  fault : ∀ {cause} line, ¬ cause.Unresolved →
    C.stop (.fault ⟨cause, line⟩) (.fault ⟨cause, C.relabel.line line⟩)
  read : ∀ {w c id name}, C.allowed ⟨.use .read ⟨id, name⟩, c⟩ →
    C.Rel w c (C.Gives c) (P.read id name) (Q.read (C.relabel.id id) (name.rename C.relabel))
  readThis : ∀ {w c id keyword}, C.allowed ⟨.use .this ⟨id, keyword⟩, c⟩ →
    C.Rel w c (C.Gives c) (P.read id keyword)
      (Q.read (C.relabel.id id) (keyword.relabel C.relabel))
  assign : ∀ {w c id name} value, C.allowed ⟨.use .write ⟨id, name⟩, c⟩ →
    C.Rel w c (C.Gives c) (P.assign id name value)
      (Q.assign (C.relabel.id id) (name.rename C.relabel) value)
  readSuper : ∀ {w c id keyword} method, C.allowed ⟨.use .super ⟨id, keyword⟩, c⟩ →
    C.Rel w c (C.Gives c) (P.readSuper id keyword method)
      (Q.readSuper (C.relabel.id id) (keyword.relabel C.relabel) (method.relabel C.relabel))
  readProperty : ∀ {w c} i name, C.Rel w c (C.Gives c) (P.readProperty i name)
    (Q.readProperty i (name.relabel C.relabel))
  setField : ∀ {w c} i name value,
    C.Rel w c (C.Gives c) (P.setField i name value) (Q.setField i name value)
  callee? : ∀ {w c} value, C.Rel w c (C.Keeps c fun v => Correspondence.Callees v)
    (P.callee? value) (Q.callee? value)
  oneDeeper : ∀ {w c p q} paren, C.Rel w c (C.Gives c) p q →
    C.Rel w c (C.Gives c) (P.oneDeeper paren p) (Q.oneDeeper (paren.relabel C.relabel) q)
  readClock : ∀ {w c}, C.Rel w c (C.Gives c) P.readClock Q.readClock
  newInstance : ∀ {w c} id, C.Rel w c (C.Gives c) (P.newInstance id) (Q.newInstance id)
  bindMethod : ∀ {w c f g} i, C.method w f g →
    C.Rel w c (C.Keeps c fun v a b => C.code v a b ∧ P.decl a = P.decl f) (P.bindMethod f i)
      (Q.bindMethod g i)
  code_decl : ∀ {w f g}, C.code w f g → Q.decl g = (P.decl f).relabel C.relabel ∧
    Q.isInitializer g = P.isInitializer f
  method_params : ∀ {w f g}, C.method w f g →
    (Q.decl g).params.length = (P.decl f).params.length
  /-- The scopes around a function are those of the place where it was made. -/
  enterCall : ∀ {w f g} arguments, C.code w f g →
    arguments.length = (P.decl f).params.length →
    ∃ outer, (P.decl f).Fits C.named C.allowed outer ∧ ∀ c,
      C.Rel w c
        (C.Keeps c fun v =>
          C.inside v ((outer.enter (.function (P.decl f))).declareAll (P.decl f).params))
        (P.enterCall f arguments) (Q.enterCall g arguments)
  receiver : ∀ {w c f g}, C.code w f g → P.isInitializer f = true →
    C.Rel w c (C.Gives c) (P.receiver f) (Q.receiver g)
  enterBlock : ∀ {w c} body,
    C.Rel w c (C.Keeps c fun v => C.inside v (c.enter (.block body))) (P.enterBlock body)
      (Q.enterBlock (body.map (Stmt.relabel C.relabel)))
  declareFunction : ∀ {w c decl}, C.Fits c (.function decl) →
    C.Rel w c (C.Gives (c.declare decl.name.lexeme)) (P.declareFunction decl)
      (Q.declareFunction (decl.relabel C.relabel))
  declareClass : ∀ {w c name superclass methods}, C.Fits c (.classDecl name superclass methods) →
    C.Rel w c (C.Gives (c.declare name.lexeme)) (P.declareClass name superclass methods)
      (Q.declareClass (name.relabel C.relabel) (superclass.map (Variable.relabel C.relabel))
        (methods.map (FunctionDecl.relabel C.relabel)))
  announce : ∀ {w c name}, C.allowed ⟨.declare name, c⟩ →
    C.Rel w c (C.Gives (c.announce name.lexeme)) (P.announce name.lexeme)
      (Q.announce (C.relabel.name name.lexeme))
  define : ∀ {w c name} value, C.allowed ⟨.declare name, c⟩ →
    C.Rel w (c.announce name.lexeme) (C.Gives (c.declare name.lexeme))
      (P.define name.lexeme value) (Q.define (C.relabel.name name.lexeme) value)
  print : ∀ {w c} value, C.Rel w c (C.Gives c) (P.print value) (Q.print value)
  flush : ∀ {w c}, C.Rel w c (C.Gives c) P.flush Q.flush

/-- Runs of at most `n` steps are in step. -/
structure Follows {P Q : Platform} (C : Correspondence P Q) (n : Nat) : Prop where
  evaluate : ∀ {w c} e, (∀ o ∈ e.occurrences c, C.allowed o) →
    C.Rel w c (C.Gives c) (P.evaluate n e) (Q.evaluate n (e.relabel C.relabel))
  callValue : ∀ {w c} callee paren arguments,
    C.Rel w c (C.Gives c) (P.callValue n callee paren arguments)
      (Q.callValue n callee (paren.relabel C.relabel) arguments)
  invoke : ∀ {w c f g} arguments, C.code w f g → arguments.length = (P.decl f).params.length →
    C.Rel w c (C.Gives c) (P.invoke n f arguments) (Q.invoke n g arguments)
  declareVariable : ∀ {w c} decl, (∀ o ∈ decl.occurrences c, C.allowed o) →
    C.Rel w c (C.Flows (c.declare decl.name.lexeme)) (P.declareVariable n decl)
      (Q.declareVariable n (decl.relabel C.relabel))
  execute : ∀ {w c} s, C.Fits c s →
    C.Rel w c (C.Flows (c.declareAll s.declared)) (P.execute n s)
      (Q.execute n (s.relabel C.relabel))
  repeatWhile : ∀ {w c} condition body, (∀ o ∈ condition.occurrences c, C.allowed o) →
    body.declared = [] → C.Fits c body →
    C.Rel w c (C.Flows c) (P.repeatWhile n condition body)
      (Q.repeatWhile n (condition.relabel C.relabel) (body.relabel C.relabel))

/-- The scopes behind the statements of one scope. -/
def Context.after (c : Context) (body : List Stmt) : Context :=
  body.foldl (fun c s => c.declareAll s.declared) c

namespace Simulation

open Correspondence

variable {P Q : Platform} {C : Correspondence P Q} {w : C.World} {c : Context} {n : Nat}

theorem rel_exhausted {α β : Type} {A : C.Post α β} (S : Simulation C) :
    C.Rel w c A (throw .exhausted) (throw .exhausted) :=
  .throw S.exhausted

theorem rel_fault {α β : Type} {A : C.Post α β} (S : Simulation C) (place : Token)
    {cause : RuntimeError.Cause} (resolved : ¬ cause.Unresolved) :
    C.Rel w c A (P.fault place cause) (Q.fault (place.relabel C.relabel) cause) :=
  .throw (S.fault place.line resolved)

theorem rel_ofExcept {α : Type} (S : Simulation C) (place : Token)
    (result : Except RuntimeError.Cause α)
    (resolved : ∀ cause, result = .error cause → ¬ cause.Unresolved) :
    C.Rel w c (C.Gives c) (P.ofExcept place result)
      (Q.ofExcept (place.relabel C.relabel) result) := by
  cases result with
  | ok a => exact .pure ⟨rfl, rfl⟩
  | error cause => exact S.rel_fault place (resolved cause rfl)

theorem rel_evaluateAll (ih : Follows C n) (es : List Expr)
    (h : ∀ o ∈ (Expr.allUses es).map fun u => (⟨.use u.1 u.2, c⟩ : Occurrence), C.allowed o) :
    C.Rel w c (C.Gives c) (es.mapM (P.evaluate n))
      ((es.map (Expr.relabel C.relabel)).mapM (Q.evaluate n)) := by
  refine Rel.mapM es fun e member v _ => ih.evaluate e fun o ho => h o ?_
  clear h
  induction es with
  | nil => cases member
  | cons first rest ih =>
    rw [Expr.allUses, List.map_append, List.mem_append]
    rcases List.mem_cons.1 member with rfl | member
    · exact .inl ho
    · exact .inr (ih member)

variable (S : Simulation C) (ih : Follows C n)
include S ih

theorem evaluate_succ (e : Expr) (h : ∀ o ∈ e.occurrences c, C.allowed o) :
    C.Rel w c (C.Gives c) (P.evaluate (n + 1) e) (Q.evaluate (n + 1) (e.relabel C.relabel)) := by
  cases e with
  | sequence items =>
    rw [Expr.relabel, Expr.relabelAll_eq_map, Platform.evaluate, Platform.evaluate]
    refine (rel_evaluateAll ih items h).andThen fun v values later => ?_
    exact .pure ⟨rfl, rfl⟩
  | assign id name value =>
    simp only [Expr.occurrences, Expr.uses, List.map_append, List.forall_mem_append] at h
    rw [Expr.relabel, Platform.evaluate, Platform.evaluate]
    refine (ih.evaluate value h.1).andThen fun v a later => ?_
    refine (S.assign a (h.2 _ (.head _))).andThen fun v' _ later' => ?_
    exact .pure ⟨rfl, rfl⟩
  | binary left operator right =>
    simp only [Expr.occurrences, Expr.uses, List.map_append, List.forall_mem_append] at h
    rw [Expr.relabel, Platform.evaluate, Platform.evaluate]
    refine (ih.evaluate left h.1).andThen fun v a later => ?_
    refine (ih.evaluate right h.2).andThen fun v' b later' => ?_
    exact S.rel_ofExcept operator _ fun _ => binaryOperator_error
  | call callee paren arguments =>
    simp only [Expr.occurrences, Expr.uses, List.map_append, List.forall_mem_append] at h
    rw [Expr.relabel, Expr.relabelAll_eq_map, Platform.evaluate, Platform.evaluate]
    refine (ih.evaluate callee h.1).andThen fun v f later => ?_
    refine (rel_evaluateAll ih arguments h.2).andThen fun v' values later' => ?_
    exact ih.callValue f paren values
  | get object name =>
    rw [Expr.relabel, Platform.evaluate, Platform.evaluate]
    refine (ih.evaluate object h).andThen fun v a later => ?_
    cases a with
    | object i => exact S.readProperty i name
    | _ => exact S.rel_fault name id
  | grouping inner =>
    rw [Expr.relabel, Platform.evaluate, Platform.evaluate]
    exact ih.evaluate inner h
  | constant value => exact .pure ⟨rfl, rfl⟩
  | logical left operator right =>
    simp only [Expr.occurrences, Expr.uses, List.map_append, List.forall_mem_append] at h
    rw [Expr.relabel, Platform.evaluate, Platform.evaluate]
    refine (ih.evaluate left h.1).andThen fun v a later => ?_
    rw [Token.relabel_kind]
    split
    · exact .pure ⟨rfl, rfl⟩
    · exact ih.evaluate right h.2
  | set object name value =>
    simp only [Expr.occurrences, Expr.uses, List.map_append, List.forall_mem_append] at h
    rw [Expr.relabel, Platform.evaluate, Platform.evaluate]
    refine (ih.evaluate object h.2).andThen fun v a later => ?_
    cases a with
    | object i =>
      refine (ih.evaluate value h.1).andThen fun v' b later' => ?_
      refine (S.setField i name.lexeme b).andThen fun v'' _ later'' => ?_
      exact .pure ⟨rfl, rfl⟩
    | _ => exact S.rel_fault name id
  | super id keyword method => exact S.readSuper method (h _ (.head _))
  | this id keyword => exact S.readThis (h _ (.head _))
  | unary operator right =>
    rw [Expr.relabel, Platform.evaluate, Platform.evaluate]
    refine (ih.evaluate right h).andThen fun v a later => ?_
    exact S.rel_ofExcept operator _ fun _ => unaryOperator_error
  | read ref => exact S.read (h _ (.head _))

omit ih in
theorem rel_arity {α : Type} {A : C.Post α α} {p : P.Action α} {q : Q.Action α} (paren : Token)
    (given demanded : Nat) (h : given = demanded → C.Rel w c A p q) :
    C.Rel w c A (if given ≠ demanded then P.fault paren (.wrongArity demanded given) else p)
      (if given ≠ demanded then Q.fault (paren.relabel C.relabel) (.wrongArity demanded given)
        else q) := by
  by_cases size : given = demanded
  · rw [if_neg (not_not_intro size), if_neg (not_not_intro size)]
    exact h size
  · rw [if_pos size, if_pos size]
    exact S.rel_fault paren id

theorem callValue_succ (callee : Value) (paren : Token) (arguments : List Value) :
    C.Rel w c (C.Gives c) (P.callValue (n + 1) callee paren arguments)
      (Q.callValue (n + 1) callee (paren.relabel C.relabel) arguments) := by
  rw [Platform.callValue, Platform.callValue]
  refine (S.callee? callee).bind ?_
  rintro v _ a b later ⟨rfl, found⟩
  cases found with
  | none => exact S.rel_fault paren id
  | clock => exact S.rel_arity paren _ _ fun _ => S.oneDeeper paren S.readClock
  | @function f g known =>
    have arity : Q.arity (.function g) = P.arity (.function f) := by
      simp only [Platform.arity, (S.code_decl known).1, FunctionDecl.relabel_params,
        List.length_map]
    dsimp only
    rw [arity]
    exact S.rel_arity paren _ _ fun size => S.oneDeeper paren (ih.invoke arguments known size)
  | @cls id =>
    refine S.rel_arity paren _ _ fun _ => S.oneDeeper paren ?_
    refine (S.newInstance id).andThen fun v' i later' => ?_
    exact .pure ⟨rfl, rfl⟩
  | @initialized id f g known =>
    have arity : Q.arity (.cls id (some g)) = P.arity (.cls id (some f)) := S.method_params known
    dsimp only
    rw [arity]
    refine S.rel_arity paren _ _ fun size => S.oneDeeper paren ?_
    refine (S.newInstance id).andThen fun v' i later' => ?_
    refine (S.bindMethod i (C.method_mono later' known)).bind ?_
    rintro u _ a b grown ⟨rfl, bound, same⟩
    have size : arguments.length = (P.decl a).params.length := size.trans (by rw [same]; rfl)
    refine (ih.invoke arguments bound size).andThen fun u' _ grown' => ?_
    exact .pure ⟨rfl, rfl⟩

omit S in
theorem rel_body (body : List Stmt) (h : C.AllFit c body) :
    C.Rel w c (C.Flows (c.after body)) (P.inOrder (P.execute n) body)
      (Q.inOrder (Q.execute n) (body.map (Stmt.relabel C.relabel))) := by
  induction body generalizing w c with
  | nil => exact .inOrder_nil
  | cons s rest ihRest =>
    simp only [AllFit, Stmt.AllTidy, Stmt.allOccurrences, List.forall_mem_append] at h
    obtain ⟨⟨tidy, tidyRest⟩, allowed, allowedRest⟩ := h
    refine .inOrder_cons (ih.execute s ⟨tidy, allowed⟩) fun v later => ?_
    exact ihRest ⟨tidyRest, allowedRest⟩

omit S in
theorem rel_variables (decls : List VarDecl)
    (h : ∀ o ∈ VarDecl.allOccurrences c decls, C.allowed o) :
    C.Rel w c (C.Flows (c.declareAll (decls.map (·.name)))) (P.inOrder (P.declareVariable n) decls)
      (Q.inOrder (Q.declareVariable n) (decls.map (VarDecl.relabel C.relabel))) := by
  induction decls generalizing w c with
  | nil => exact .inOrder_nil
  | cons decl rest ihRest =>
    simp only [VarDecl.allOccurrences, List.forall_mem_append] at h
    refine .inOrder_cons (ih.declareVariable decl h.1) fun v later => ?_
    exact ihRest h.2

theorem invoke_succ {f : P.Code} {g : Q.Code} (arguments : List Value) (known : C.code w f g)
    (size : arguments.length = (P.decl f).params.length) :
    C.Rel w c (C.Gives c) (P.invoke (n + 1) f arguments) (Q.invoke (n + 1) g arguments) := by
  obtain ⟨outer, ⟨tidy, allowed⟩, enter⟩ := S.enterCall arguments known size
  obtain ⟨sameDecl, sameKind⟩ := S.code_decl known
  have fits : C.AllFit ((outer.enter (.function (P.decl f))).declareAll (P.decl f).params)
      (P.decl f).body := by
    rw [FunctionDecl.occurrences_eq, List.forall_mem_append] at allowed
    exact ⟨(FunctionDecl.tidy_iff _).1 tidy, allowed.2⟩
  rw [Platform.invoke, Platform.invoke, sameDecl, FunctionDecl.relabel_body, sameKind]
  refine (enter c).bind ?_
  rintro v _ e e' later ⟨rfl, env⟩
  have body := (rel_body (w := C.focus v e) ih (P.decl f).body fits).weaken
    (B := fun _ _ a b => a = b) fun _ _ _ _ _ ha => ha.1
  refine (Rel.within env body).bind ?_
  rintro v' _ flow _ later' ⟨rfl, rfl⟩
  split
  · next kind => exact S.receiver (C.code_mono (C.le_trans later later') known) kind
  · cases flow with
    | normal => exact .pure ⟨rfl, rfl⟩
    | returned value => exact .pure ⟨rfl, rfl⟩

theorem declareVariable_succ (decl : VarDecl) (h : ∀ o ∈ decl.occurrences c, C.allowed o) :
    C.Rel w c (C.Flows (c.declare decl.name.lexeme)) (P.declareVariable (n + 1) decl)
      (Q.declareVariable (n + 1) (decl.relabel C.relabel)) := by
  obtain ⟨name, initializer⟩ := decl
  simp only [VarDecl.occurrences, List.forall_mem_cons] at h
  rw [Platform.declareVariable, Platform.declareVariable]
  refine (S.announce h.1).andThen fun v _ later => ?_
  have behind : ∀ v value, C.Rel v (c.announce name.lexeme) (C.Flows (c.declare name.lexeme))
      (do P.define name.lexeme value; pure Flow.normal)
      (do Q.define (C.relabel.name name.lexeme) value; pure Flow.normal) := fun v value =>
    (S.define value h.1).andThen fun v' _ later' => .pure ⟨rfl, fun _ => rfl⟩
  cases initializer with
  | none => exact (Rel.pure ⟨rfl, rfl⟩).andThen fun v' value _ => behind v' value
  | some e => exact (ih.evaluate e h.2).andThen fun v' value _ => behind v' value

omit S in
theorem repeatWhile_succ (condition : Expr) (body : Stmt)
    (h : ∀ o ∈ condition.occurrences c, C.allowed o) (plain : body.declared = [])
    (fits : C.Fits c body) :
    C.Rel w c (C.Flows c) (P.repeatWhile (n + 1) condition body)
      (Q.repeatWhile (n + 1) (condition.relabel C.relabel) (body.relabel C.relabel)) := by
  rw [Platform.repeatWhile, Platform.repeatWhile]
  refine (ih.evaluate condition h).andThen fun v value later => ?_
  split
  · have first := ih.execute (w := v) body fits
    rw [plain] at first
    refine first.bind ?_
    rintro v' c' flow _ later' ⟨rfl, normal⟩
    cases flow with
    | normal =>
      obtain rfl := normal rfl
      exact ih.repeatWhile condition body h plain fits
    | returned value => exact .pure ⟨rfl, Flow.noConfusion⟩
  · exact .pure ⟨rfl, fun _ => rfl⟩

omit S in
/-- A branch or the body of a loop leaves the scopes around it as they were. -/
theorem rel_plain {s : Stmt} (plain : s.declared = []) (fits : C.Fits c s) :
    C.Rel w c (C.Flows c) (P.execute n s) (Q.execute n (s.relabel C.relabel)) := by
  have h := ih.execute (w := w) s fits
  rw [plain] at h
  exact h

theorem execute_succ (s : Stmt) (fits : C.Fits c s) :
    C.Rel w c (C.Flows (c.declareAll s.declared)) (P.execute (n + 1) s)
      (Q.execute (n + 1) (s.relabel C.relabel)) := by
  obtain ⟨tidy, h⟩ := fits
  cases s with
  | block body =>
    rw [Stmt.relabel, Stmt.relabelAll_eq_map, Platform.execute, Platform.execute]
    refine (S.enterBlock body).bind ?_
    rintro v _ e e' later ⟨rfl, env⟩
    rw [Stmt.Tidy] at tidy
    have body := (rel_body (w := C.focus v e) ih body ⟨tidy, h⟩).weaken
      (B := fun _ _ a b => a = b) fun _ _ _ _ _ ha => ha.1
    refine (Rel.within env body).weaken ?_
    rintro v' c' a b _ ⟨same, rfl⟩
    exact ⟨rfl, fun _ => same⟩
  | classDecl name superclass methods =>
    rw [Stmt.relabel, FunctionDecl.relabelAll_eq_map, Platform.execute, Platform.execute]
    refine (S.declareClass ⟨tidy, h⟩).andThen fun v _ later => ?_
    exact .pure ⟨rfl, fun _ => rfl⟩
  | expression value =>
    rw [Stmt.relabel, Platform.execute, Platform.execute]
    refine (ih.evaluate value h).andThen fun v _ later => ?_
    exact .pure ⟨rfl, fun _ => rfl⟩
  | function decl =>
    rw [Stmt.relabel, Platform.execute, Platform.execute]
    refine (S.declareFunction ⟨tidy, h⟩).andThen fun v _ later => ?_
    exact .pure ⟨rfl, fun _ => rfl⟩
  | branch condition thenBranch elseBranch =>
    cases elseBranch with
    | none =>
      rw [Stmt.Tidy] at tidy
      simp only [Stmt.occurrences, List.forall_mem_append] at h
      rw [Stmt.relabel, Platform.execute, Platform.execute]
      refine (ih.evaluate condition h.1).andThen fun v value later => ?_
      split
      · exact rel_plain ih tidy.1 ⟨tidy.2, h.2⟩
      · exact .pure ⟨rfl, fun _ => rfl⟩
    | some elseBranch =>
      rw [Stmt.Tidy] at tidy
      simp only [Stmt.occurrences, List.forall_mem_append] at h
      rw [Stmt.relabel, Platform.execute, Platform.execute]
      refine (ih.evaluate condition h.1).andThen fun v value later => ?_
      split
      · exact rel_plain ih tidy.1.1 ⟨tidy.1.2, h.2.1⟩
      · exact rel_plain ih tidy.2.1 ⟨tidy.2.2, h.2.2⟩
  | print value =>
    rw [Stmt.relabel, Platform.execute, Platform.execute]
    refine (ih.evaluate value h).andThen fun v a later => ?_
    refine (S.print a).andThen fun v' _ later' => ?_
    exact .pure ⟨rfl, fun _ => rfl⟩
  | ret keyword value =>
    cases value with
    | none => exact .pure ⟨rfl, Flow.noConfusion⟩
    | some e =>
      refine (ih.evaluate e h).map ?_
      rintro v _ a _ later ⟨-, rfl⟩
      exact ⟨rfl, Flow.noConfusion⟩
  | var decl => exact ih.declareVariable decl h
  | varList decls => exact rel_variables ih decls h
  | loop condition body =>
    rw [Stmt.Tidy] at tidy
    simp only [Stmt.occurrences, List.forall_mem_append] at h
    rw [Stmt.relabel, Platform.execute, Platform.execute]
    exact ih.repeatWhile condition body h.1 tidy.1 ⟨tidy.2, h.2⟩

omit ih in
/-- If the operations of two platforms are in step, so are all runs. -/
theorem follows (n : Nat) : Follows C n := by
  induction n with
  | zero =>
    refine ⟨?_, ?_, ?_, ?_, ?_, ?_⟩ <;> intros <;> exact S.rel_exhausted
  | succ n ih =>
    exact ⟨evaluate_succ S ih, callValue_succ S ih, invoke_succ S ih, declareVariable_succ S ih,
      execute_succ S ih, repeatWhile_succ ih⟩

omit ih in
/-- A whole batch is in step; nothing is declared in a scope. -/
theorem rel_executeAll (steps : Nat) (program : List Stmt) (fits : C.AllFit [] program) :
    C.Rel w [] (C.Gives []) (P.executeAll steps program)
      (Q.executeAll steps (program.map (Stmt.relabel C.relabel))) := by
  unfold Platform.executeAll
  induction program generalizing w with
  | nil => exact .pure ⟨rfl, rfl⟩
  | cons s rest ihRest =>
    simp only [AllFit, Stmt.AllTidy, Stmt.allOccurrences, List.forall_mem_append,
      Context.declareAll_nil] at fits
    obtain ⟨⟨tidy, tidyRest⟩, allowed, allowedRest⟩ := fits
    have first : C.Rel w [] (C.Gives []) (discard (P.execute steps s))
        (discard (Q.execute steps (s.relabel C.relabel))) := by
      refine Rel.map ((S.follows steps).execute s ⟨tidy, allowed⟩).sized ?_
      rintro v c' flow _ later ⟨size, -⟩
      exact ⟨List.length_eq_zero_iff.1 size, rfl⟩
    exact first.andThen fun v _ later => ihRest ⟨tidyRest, allowedRest⟩

omit ih in
/-- A whole batch is in step, with its flush at the end. -/
theorem rel_interpret (steps : Nat) (program : List Stmt) (fits : C.AllFit [] program) :
    C.Rel w [] (C.Gives []) (P.interpret steps program)
      (Q.interpret steps (program.map (Stmt.relabel C.relabel))) := by
  intro s t hheap hscope
  have ends := S.rel_executeAll steps program fits s t hheap hscope
  unfold Platform.interpret
  match P.executeAll steps program s,
    Q.executeAll steps (program.map (Stmt.relabel C.relabel)) t, ends with
  | .ok _ s', .ok _ t', ⟨w', c', grown, size, _, hheap', hscope'⟩ =>
    obtain rfl := List.length_eq_zero_iff.1 size
    exact (S.flush s' t' hheap' hscope').weaken grown size
  | .error e s', .error e' t', ⟨stops, w', c', grown, size, hheap', hscope'⟩ =>
    obtain rfl := List.length_eq_zero_iff.1 size
    have behind : C.Rel w' [] (C.Gives []) (do P.flush; throw e : P.Action Unit)
        (do Q.flush; throw e') := S.flush.andThen fun _ _ _ => .throw stops
    have flushed := (behind s' t' hheap' hscope').weaken grown rfl
    cases e with
    | exhausted =>
      obtain rfl := (S.exhausted_iff stops).1 rfl
      exact ⟨stops, w', [], grown, rfl, hheap', hscope'⟩
    | fault _ | output _ =>
      cases e' with
      | exhausted => cases (S.exhausted_iff stops).2 rfl
      | fault _ | output _ => exact flushed

end Simulation

end Treewalk
