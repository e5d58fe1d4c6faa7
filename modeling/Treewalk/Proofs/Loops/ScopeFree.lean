import Treewalk.Proofs.Plain.Interpreter
import Treewalk.Proofs.Run.Carrier
import Treewalk.Proofs.Scope.Context

/-!
# What a scope without variables does not change

An expression, and a statement that declares nothing, uses its environment to look names up and for
nothing else. On the plain interpreter it does the same at the top level as in a block in which
nothing is declared, and leaves the environment that it was run in.
-/

namespace Treewalk

namespace Plain

/-- The state in another environment. -/
def State.inEnv (s : State) (env : Env) : State := { s with env }

/-- The same names are in scope. -/
def State.Sees (s : State) (env : Env) : Prop := env.getD [] = s.env.getD []

section inEnv

variable (s : State) (env : Env)

@[simp] theorem State.inEnv_sink : (s.inEnv env).sink = s.sink := rfl

@[simp] theorem State.inEnv_atDepthLimit : (s.inEnv env).atDepthLimit = s.atDepthLimit := rfl

theorem State.sees_self : s.Sees s.env := rfl

variable {s env}

theorem State.Sees.cell? (sees : s.Sees env) (name : String) :
    (s.inEnv env).cell? name = s.cell? name :=
  congrArg (List.lookup name) sees

theorem State.Sees.lookup? (sees : s.Sees env) (name : String) :
    (s.inEnv env).lookup? name = s.lookup? name := by
  unfold State.lookup?
  rw [sees.cell? name]
  rfl

theorem State.inEnv_searchMethod (s : State) (env : Env) (name : String) (steps : Nat)
    (c : ClassId) : (s.inEnv env).searchMethod name steps c = s.searchMethod name steps c := by
  induction steps generalizing c with
  | zero => rfl
  | succ steps ih =>
    simp only [State.searchMethod, ih]
    rfl

theorem State.inEnv_method? (s : State) (env : Env) (c : ClassId) (name : String) :
    (s.inEnv env).method? c name = s.method? c name :=
  s.inEnv_searchMethod env name _ c

theorem State.inEnv_callee? (s : State) (env : Env) (value : Value) :
    (s.inEnv env).callee? value = s.callee? value := by
  unfold State.callee?
  simp only [State.inEnv_method?]
  rfl

end inEnv

theorem platform_within (env : Env) {α : Type} (run : Action α) (s : State) :
    platform.within env run s = endingWith (·.inEnv s.env) (run (s.inEnv env)) :=
  platform.within_eq env run s

/-- The run does the same wherever the same names are in scope, and stays where it is. -/
def ScopeFree {α : Type} (p : Action α) : Prop :=
  ∀ (s : State) env, s.Sees env → p (s.inEnv env) = endingWith (·.inEnv env) (p s)

namespace ScopeFree

variable {α β : Type} {p : Action α}

/-- The run ends in the environment in which it began. -/
theorem env_eq (h : ScopeFree p) (s : State) : (endState (p s)).env = s.env := by
  have same : p s = endingWith (·.inEnv s.env) (p s) := h s s.env s.sees_self
  rw [same, endState_endingWith]
  rfl

/-- Nothing changes in a block of its own. -/
theorem within_sees (h : ScopeFree p) {s : State} {env : Env} (sees : s.Sees env) :
    platform.within env p s = p s := by
  rw [platform_within, h s env sees, endingWith_endingWith]
  exact (h s s.env s.sees_self).symm

theorem pure (a : α) : ScopeFree (pure a : Action α) := fun _ _ _ => rfl

theorem throw (e : Stop) : ScopeFree (throw e : Action α) := fun _ _ _ => rfl

theorem fault (place : Token) (cause : RuntimeError.Cause) :
    ScopeFree (fault place cause : Action α) :=
  throw _

theorem ofExcept (place : Token) (result : Except RuntimeError.Cause α) :
    ScopeFree (platform.ofExcept place result) := by
  cases result with
  | ok a => exact pure a
  | error cause => exact throw _

theorem gets {f : State → α} (h : ∀ (s : State) env, s.Sees env → f (s.inEnv env) = f s) :
    ScopeFree (gets f) := by
  intro s env sees
  unfold Plain.gets
  rw [h s env sees]
  rfl

/-- What does not depend on the names in scope. -/
theorem look {f : State → α} (h : ∀ (s : State) env, f (s.inEnv env) = f s) :
    ScopeFree (Plain.gets f) :=
  gets fun s env _ => h s env

theorem bind {f : α → Action β} (h : ScopeFree p) (next : ∀ a, ScopeFree (f a)) :
    ScopeFree (p >>= f) := by
  intro s env sees
  have stays := h.env_eq s
  show EStateM.bind p f _ = endingWith _ (EStateM.bind p f s)
  unfold EStateM.bind
  rw [h s env sees]
  cases ends : p s with
  | ok a t =>
    rw [ends] at stays
    have sees' : t.Sees env := by
      rw [State.Sees, show t.env = s.env from stays]
      exact sees
    exact next a t env sees'
  | error e t => rfl

theorem map {f : α → β} (h : ScopeFree p) : ScopeFree (f <$> p) := by
  rw [← bind_pure_comp]
  exact h.bind fun a => pure (f a)

theorem mapM {f : α → Action β} (h : ∀ a, ScopeFree (f a)) (xs : List α) :
    ScopeFree (xs.mapM f) := by
  induction xs with
  | nil => exact pure []
  | cons x xs ih =>
    rw [List.mapM_cons]
    exact (h x).bind fun b => ih.bind fun bs => pure (b :: bs)

theorem inOrder {step : α → Action Flow} {xs : List α} (h : ∀ x ∈ xs, ScopeFree (step x)) :
    ScopeFree (platform.inOrder step xs) := by
  induction xs with
  | nil => exact pure Flow.normal
  | cons x xs ih =>
    refine (h x (.head _)).bind fun flow => ?_
    cases flow with
    | normal => exact ih fun y member => h y (.tail _ member)
    | returned value => exact pure _

/-- A run in an environment of its own is free of the one around it, whatever it does. -/
theorem within (env : Env) (run : Action α) : ScopeFree (platform.within env run) := by
  intro s outer _
  rw [platform_within, platform_within, endingWith_endingWith]
  rfl

theorem oneDeeper {run : Action Value} (h : ScopeFree run) (paren : Token) :
    ScopeFree (oneDeeper paren run) := by
  intro s env sees
  unfold Plain.oneDeeper
  rw [State.inEnv_atDepthLimit]
  split
  · rfl
  · have inside := h { s with depth := s.depth + 1 } env sees
    rw [show ({ s.inEnv env with depth := (s.inEnv env).depth + 1 } : State) =
      ({ s with depth := s.depth + 1 } : State).inEnv env from rfl, inside]
    cases run { s with depth := s.depth + 1 } <;> rfl

/-! ### Operations -/

theorem newCell (value : Value) : ScopeFree (newCell value) := fun _ _ _ => rfl

theorem extend (names : Names) (values : List (String × Value)) :
    ScopeFree (extend names values) := by
  induction values generalizing names with
  | nil => exact pure names
  | cons first rest ih => exact (newCell first.2).bind fun cell => ih _

theorem read (name : Token) : ScopeFree (read name) := by
  refine (gets fun s env sees => sees.lookup? _).bind fun value => ?_
  cases value with
  | some value => exact pure value
  | none => exact fault name _

theorem assign (name : Token) (value : Value) : ScopeFree (assign name value) := by
  refine (gets fun s env sees => sees.cell? _).bind fun cell => ?_
  cases cell with
  | some cell => exact fun _ _ _ => rfl
  | none =>
    refine (look fun _ _ => rfl).bind fun known => ?_
    cases known with
    | true => exact fun _ _ _ => rfl
    | false => exact fault name _

theorem bindMethod (method : Closure) (i : InstanceId) : ScopeFree (bindMethod method i) :=
  (extend _ _).bind fun _ => pure _

/-- The method as a value, bound to an instance. -/
theorem readMethod (method : Closure) (i : InstanceId) :
    ScopeFree (do newFunction (← Plain.bindMethod method i)) :=
  (bindMethod method i).bind fun _ _ _ _ => rfl

theorem readProperty (i : InstanceId) (name : Token) : ScopeFree (readProperty i name) := by
  refine (look fun _ _ => rfl).bind fun found => ?_
  match found with
  | some (some value, _) => exact pure value
  | some (none, c) =>
    refine (look fun s env => s.inEnv_method? env c _).bind fun method => ?_
    cases method with
    | some method => exact readMethod method i
    | none => exact fault name _
  | none => exact fault name _

theorem readSuper (keyword method : Token) : ScopeFree (readSuper keyword method) := by
  refine (gets fun s env sees => sees.lookup? _).bind fun above => ?_
  split
  · refine (gets fun s env sees => sees.lookup? _).bind fun this => ?_
    split
    · refine (look fun s env => s.inEnv_method? env _ _).bind fun found => ?_
      cases found with
      | some found => exact readMethod found _
      | none => exact fault method _
    · exact fault keyword _
  · exact fault keyword _

theorem enterCall (f : Closure) (arguments : List Value) :
    ScopeFree (platform.enterCall f arguments) :=
  (extend _ _).map

theorem receiver (f : Closure) : ScopeFree (platform.receiver f) := look fun _ _ => rfl

theorem enterBlock (body : List Stmt) : ScopeFree (platform.enterBlock body) :=
  gets fun _ _ sees => congrArg some sees

theorem write (piece : String) : ScopeFree (write piece) := by
  intro s env _
  simp only [Plain.write, State.inEnv_sink]
  cases s.sink.refusal s.sink.written piece <;> rfl

theorem print (value : Value) : ScopeFree (print value) :=
  (look fun _ _ => rfl).bind fun text => (write text).bind fun _ => write "\n"

end ScopeFree

/-! ### Runs -/

/-- Runs of at most `n` steps are free of the scope around them if they declare nothing in it. -/
structure ScopeFreeWithin (n : Nat) : Prop where
  evaluate : ∀ e, ScopeFree (platform.evaluate n e)
  callValue : ∀ callee paren arguments, ScopeFree (platform.callValue n callee paren arguments)
  invoke : ∀ f arguments, ScopeFree (platform.invoke n f arguments)
  execute : ∀ s : Stmt, s.declared = [] → s.Regular → ScopeFree (platform.execute n s)
  repeatWhile : ∀ condition (body : Stmt), body.declared = [] → body.Regular →
    ScopeFree (platform.repeatWhile n condition body)

namespace ScopeFreeWithin

variable {n : Nat} (ih : ScopeFreeWithin n)
include ih

theorem evaluate_succ (e : Expr) : ScopeFree (platform.evaluate (n + 1) e) := by
  cases e with
  | sequence items => exact (ScopeFree.mapM ih.evaluate items).bind fun _ => .pure _
  | assign id name value =>
    exact (ih.evaluate value).bind fun v => (ScopeFree.assign name v).bind fun _ => .pure v
  | binary left operator right =>
    exact (ih.evaluate left).bind fun _ => (ih.evaluate right).bind fun _ => .ofExcept operator _
  | call callee paren arguments =>
    refine (ih.evaluate callee).bind fun f => ?_
    exact (ScopeFree.mapM ih.evaluate arguments).bind fun values => ih.callValue f paren values
  | get object name =>
    refine (ih.evaluate object).bind fun value => ?_
    cases value with
    | object i => exact .readProperty i name
    | _ => exact .fault name _
  | grouping inner => exact ih.evaluate inner
  | constant value => exact .pure _
  | logical left operator right =>
    refine (ih.evaluate left).bind fun value => ?_
    split
    · exact .pure value
    · exact ih.evaluate right
  | set object name value =>
    refine (ih.evaluate object).bind fun target => ?_
    cases target with
    | object i =>
      refine (ih.evaluate value).bind fun v => ?_
      exact ScopeFree.bind (fun _ _ _ => rfl) fun _ => .pure v
    | _ => exact .fault name _
  | super id keyword method => exact .readSuper keyword method
  | this id keyword => exact .read keyword
  | unary operator right => exact (ih.evaluate right).bind fun _ => .ofExcept operator _
  | read ref => exact .read ref.name

theorem callValue_succ (callee : Value) (paren : Token) (arguments : List Value) :
    ScopeFree (platform.callValue (n + 1) callee paren arguments) := by
  refine (ScopeFree.look fun s env => s.inEnv_callee? env callee).bind fun found => ?_
  cases found with
  | none => exact .fault paren _
  | some callee =>
    dsimp only
    split
    · exact .fault paren _
    · refine ScopeFree.oneDeeper ?_ paren
      cases callee with
      | clock => exact fun _ _ _ => rfl
      | function f => exact ih.invoke f arguments
      | cls c initializer =>
        refine ScopeFree.bind (fun _ _ _ => rfl) fun i => ?_
        cases initializer with
        | none => exact .pure _
        | some method =>
          exact (ScopeFree.bindMethod method i).bind fun bound =>
            (ih.invoke bound arguments).bind fun _ => .pure _

omit ih in
/-- The body of a function is run in the environment of the function. -/
theorem invoke_succ (f : Closure) (arguments : List Value) :
    ScopeFree (platform.invoke (n + 1) f arguments) := by
  refine (ScopeFree.enterCall f arguments).bind fun env => ?_
  refine (ScopeFree.within env _).bind fun flow => ?_
  split
  · exact .receiver f
  · cases flow <;> exact .pure _

theorem execute_succ (s : Stmt) (undeclared : s.declared = []) (regular : s.Regular) :
    ScopeFree (platform.execute (n + 1) s) := by
  cases s with
  | block body => exact (ScopeFree.enterBlock body).bind fun env => .within env _
  | expression value => exact (ih.evaluate value).bind fun _ => .pure _
  | branch condition thenBranch elseBranch =>
    refine (ih.evaluate condition).bind fun value => ?_
    cases elseBranch with
    | none =>
      rw [Stmt.Regular] at regular
      split
      · exact ih.execute thenBranch regular.1 regular.2
      · exact .pure _
    | some elseBranch =>
      rw [Stmt.Regular] at regular
      split
      · exact ih.execute thenBranch regular.1.1 regular.1.2
      · exact ih.execute elseBranch regular.2.1 regular.2.2
  | print value =>
    exact (ih.evaluate value).bind fun v => (ScopeFree.print v).bind fun _ => .pure _
  | ret keyword value =>
    cases value with
    | none => exact .pure _
    | some e => exact (ih.evaluate e).map
  | varList decls =>
    obtain rfl : decls = [] := List.map_eq_nil_iff.1 undeclared
    exact .pure _
  | loop condition body =>
    rw [Stmt.Regular] at regular
    exact ih.repeatWhile condition body regular.1 regular.2
  | classDecl | function | var => exact absurd undeclared (List.cons_ne_nil _ _)

theorem repeatWhile_succ (condition : Expr) (body : Stmt) (undeclared : body.declared = [])
    (regular : body.Regular) : ScopeFree (platform.repeatWhile (n + 1) condition body) := by
  refine (ih.evaluate condition).bind fun value => ?_
  split
  · refine (ih.execute body undeclared regular).bind fun flow => ?_
    cases flow with
    | normal => exact ih.repeatWhile condition body undeclared regular
    | returned value => exact .pure _
  · exact .pure _

omit ih in
theorem all (n : Nat) : ScopeFreeWithin n := by
  induction n with
  | zero =>
    exact ⟨fun _ => .throw _, fun _ _ _ => .throw _, fun _ _ => .throw _, fun _ _ _ => .throw _,
      fun _ _ _ _ => .throw _⟩
  | succ n ih =>
    exact ⟨ih.evaluate_succ, ih.callValue_succ, invoke_succ, ih.execute_succ, ih.repeatWhile_succ⟩

end ScopeFreeWithin

end Plain

end Treewalk
