import Treewalk.Proofs.Plain.Interpreter
import Treewalk.Proofs.Run.Carrier
import Treewalk.Proofs.Store.Frames

/-!
# Statements behind a `return`

`Stmt.live` leaves out of a statement, and of the functions in it, what stands behind a `return` in
the same list of statements. On the plain interpreter, where the text of a program matters only
where it is run, what is left does step by step what the whole does, in a state whose functions are
cut down in the same way.
-/

namespace Treewalk

/-- The statement is a `return`. -/
def Stmt.isReturn : Stmt → Bool
  | .ret .. => true
  | _ => false

mutual

/-- The statement without what stands behind a `return` in it. -/
def Stmt.live : Stmt → Stmt
  | .block body => .block (Stmt.liveAll body)
  | .classDecl name superclass methods =>
    .classDecl name superclass (FunctionDecl.liveAll methods)
  | .expression value => .expression value
  | .function decl => .function decl.live
  | .branch condition thenBranch none => .branch condition thenBranch.live none
  | .branch condition thenBranch (some elseBranch) =>
    .branch condition thenBranch.live (some elseBranch.live)
  | .print value => .print value
  | .ret keyword value => .ret keyword value
  | .var decl => .var decl
  | .varList decls => .varList decls
  | .loop condition body => .loop condition body.live

/-- The statements up to the first `return`. -/
def Stmt.liveAll : List Stmt → List Stmt
  | [] => []
  | s :: rest => s.live :: if s.isReturn then [] else Stmt.liveAll rest

def FunctionDecl.live : FunctionDecl → FunctionDecl
  | ⟨name, params, body⟩ => ⟨name, params, Stmt.liveAll body⟩

def FunctionDecl.liveAll : List FunctionDecl → List FunctionDecl
  | [] => []
  | decl :: rest => decl.live :: FunctionDecl.liveAll rest

end

@[simp] theorem FunctionDecl.live_name (decl : FunctionDecl) : decl.live.name = decl.name := by
  cases decl
  rw [FunctionDecl.live]

@[simp] theorem FunctionDecl.live_params (decl : FunctionDecl) :
    decl.live.params = decl.params := by
  cases decl
  rw [FunctionDecl.live]

@[simp] theorem FunctionDecl.live_body (decl : FunctionDecl) :
    decl.live.body = Stmt.liveAll decl.body := by
  cases decl
  rw [FunctionDecl.live]

@[simp] theorem FunctionDecl.live_isInitializer (decl : FunctionDecl) :
    decl.live.isInitializer = decl.isInitializer := by
  rw [FunctionDecl.isInitializer, FunctionDecl.live_name]
  rfl

theorem FunctionDecl.liveAll_eq_map (decls : List FunctionDecl) :
    FunctionDecl.liveAll decls = decls.map FunctionDecl.live := by
  induction decls with
  | nil => rfl
  | cons decl rest ih => rw [FunctionDecl.liveAll, ih, List.map_cons]

/-- What a call finds, with other code. -/
def Callee.map {Code Code' : Type} (f : Code → Code') : Callee Code → Callee Code'
  | .clock => .clock
  | .function code => .function (f code)
  | .cls id initializer => .cls id (initializer.map f)

/-- A `return` never ends normally, so what stands behind it is not run. -/
theorem Platform.inOrder_return {P : Platform} {s : Stmt} (isReturn : s.isReturn = true) (n : Nat)
    (rest : List Stmt) : P.inOrder (P.execute n) (s :: rest) = P.inOrder (P.execute n) [s] := by
  obtain ⟨keyword, value, rfl⟩ : ∃ keyword value, s = .ret keyword value := by
    cases s <;> first | exact ⟨_, _, rfl⟩ | cases isReturn
  funext state
  rw [inOrder, inOrder]
  cases n with
  | zero => rfl
  | succ n =>
    cases value with
    | none => rfl
    | some e =>
      rw [execute]
      show EStateM.bind (EStateM.map Flow.returned (P.evaluate n e)) _ state =
        EStateM.bind (EStateM.map Flow.returned (P.evaluate n e)) _ state
      unfold EStateM.bind EStateM.map
      cases P.evaluate n e state <;> rfl

namespace Plain

def Closure.live (f : Closure) : Closure := { f with decl := f.decl.live }

def Class.live (c : Class) : Class := { c with methods := c.methods.map Closure.live }

/-- The state without what stands behind a `return` in its functions and methods. -/
def State.live (s : State) : State :=
  { s with functions := s.functions.map Closure.live, classes := s.classes.map Class.live }

/-- The second run does without the dead statements what the first one does with them, and yields
the image of what the first one yields. -/
def Follows {α β : Type} (image : α → β) (p : Action α) (q : Action β) : Prop :=
  ∀ s, q s.live = match p s with
    | .ok a s' => .ok (image a) s'.live
    | .error e s' => .error e s'.live

namespace Follows

variable {α α' β β' γ : Type} {h : α → α'} {k : β → β'} {p : Action α} {q : Action α'}

theorem pure (a : α) : Follows h (pure a) (pure (h a)) := fun _ => rfl

theorem throw (e : Stop) : Follows h (throw e : Action α) (throw e : Action α') := fun _ => rfl

theorem fault (place : Token) (cause : RuntimeError.Cause) :
    Follows h (fault place cause : Action α) (fault place cause : Action α') := throw _

theorem bind {f : α → Action β} {g : α' → Action β'} (first : Follows h p q)
    (next : ∀ a, Follows k (f a) (g (h a))) : Follows k (p >>= f) (q >>= g) := by
  intro s
  have here := first s
  show EStateM.bind q g s.live = match EStateM.bind p f s with
    | .ok b s' => .ok (k b) s'.live
    | .error e s' => .error e s'.live
  unfold EStateM.bind
  rw [here]
  cases p s with
  | ok a s' => exact next a s'
  | error e s' => rfl

/-- What both yield alike. -/
theorem andThen {p q : Action α} {f : α → Action β} {g : α → Action β'} (first : Follows id p q)
    (next : ∀ a, Follows k (f a) (g a)) : Follows k (p >>= f) (q >>= g) := first.bind next

theorem map {f : α → β} {g : α' → β'} (first : Follows h p q) (same : ∀ a, g (h a) = k (f a)) :
    Follows k (f <$> p) (g <$> q) := by
  rw [map_eq_pure_bind, map_eq_pure_bind]
  exact first.bind fun a => by
    rw [same]
    exact pure (f a)

theorem mapM {f : α → Action β} (each : ∀ a, Follows id (f a) (f a)) (xs : List α) :
    Follows id (xs.mapM f) (xs.mapM f) := by
  induction xs with
  | nil => exact pure []
  | cons x xs ih =>
    rw [List.mapM_cons]
    exact (each x).andThen fun b => ih.andThen fun bs => pure (b :: bs)

theorem ofExcept (place : Token) (r : Except RuntimeError.Cause Value) :
    Follows id (platform.ofExcept place r) (platform.ofExcept place r) := by
  cases r with
  | ok value => exact pure value
  | error cause => exact throw _

theorem gets {f : State → α} {g : State → α'} (same : ∀ s, g s.live = h (f s)) :
    Follows h (gets f) (gets g) := fun s => congrArg (EStateM.Result.ok · s.live) (same s)

/-- What is read off the state is the same. -/
theorem same {f g : State → α} (same : ∀ s, g s.live = f s) :
    Follows id (Plain.gets f) (Plain.gets g) := gets same

theorem within {p q : Action α} (inside : Follows id p q) (env : Env) :
    Follows id (platform.within env p) (platform.within env q) := by
  intro s
  have here : q (platform.setEnv env s.live) = _ := inside (platform.setEnv env s)
  unfold Platform.within
  rw [here]
  cases p (platform.setEnv env s) <;> rfl

theorem oneDeeper {p q : Action α} (inside : Follows id p q) (paren : Token) :
    Follows id (oneDeeper paren p) (oneDeeper paren q) := by
  intro s
  have here := inside { s with depth := s.depth + 1 }
  have limit : s.live.atDepthLimit = s.atDepthLimit := rfl
  unfold Plain.oneDeeper
  rw [limit]
  cases s.atDepthLimit with
  | true => rfl
  | false =>
    have deeper : { s.live with depth := s.live.depth + 1 } =
      State.live { s with depth := s.depth + 1 } := rfl
    rw [if_neg Bool.false_ne_true, if_neg Bool.false_ne_true, deeper, here]
    cases p { s with depth := s.depth + 1 } <;> rfl

end Follows

open Plain.Follows

/-! ### The operations -/

theorem searchMethod_live (s : State) (name : String) (steps : Nat) (c : ClassId) :
    s.live.searchMethod name steps c = (s.searchMethod name steps c).map Closure.live := by
  induction steps generalizing c with
  | zero => rfl
  | succ steps ih =>
    rw [State.searchMethod, State.searchMethod]
    have entry : s.live.classes[c]? = s.classes[c]?.map Class.live := Array.getElem?_map
    rw [entry]
    cases s.classes[c]? with
    | none => rfl
    | some cls =>
      have own : cls.live.methods.get? name = (cls.methods.get? name).map Closure.live :=
        Bindings.get?_map ..
      have sameAbove : cls.live.superclass = cls.superclass := rfl
      simp only [Option.map_some, own, sameAbove]
      cases cls.methods.get? name with
      | some method => rfl
      | none =>
        cases cls.superclass with
        | some above => exact ih above
        | none => rfl

theorem method?_live (s : State) (c : ClassId) (name : String) :
    s.live.method? c name = (s.method? c name).map Closure.live := by
  have size : s.live.classes.size = s.classes.size := Array.size_map
  rw [State.method?, State.method?, size]
  exact searchMethod_live ..

theorem callee?_live (s : State) (value : Value) :
    s.live.callee? value = (s.callee? value).map (Callee.map Closure.live) := by
  cases value with
  | function id =>
    have entry : s.live.functions[id]? = s.functions[id]?.map Closure.live := Array.getElem?_map
    rw [State.callee?, State.callee?, entry, Option.map_map, Option.map_map]
    rfl
  | cls id =>
    have size : s.live.classes.size = s.classes.size := Array.size_map
    rw [State.callee?, State.callee?, size, method?_live]
    split <;> rfl
  | _ => rfl

theorem text_live (s : State) (value : Value) : s.live.text value = s.text value := by
  have className : ∀ c, s.live.className c = s.className c := by
    intro c
    have entry : s.live.classes[c]? = s.classes[c]?.map Class.live := Array.getElem?_map
    rw [State.className, State.className, entry, Option.map_map]
    rfl
  cases value with
  | bool value => cases value <;> rfl
  | function id =>
    have entry : s.live.functions[id]? = s.functions[id]?.map Closure.live := Array.getElem?_map
    have name : ∀ f : Closure, f.live.decl.name.lexeme = f.decl.name.lexeme :=
      fun f => congrArg Token.lexeme f.decl.live_name
    rw [State.text, State.text, entry, Option.map_map]
    simp only [Function.comp_def, name]
  | cls id => exact className id
  | object id =>
    rw [State.text, State.text]
    simp only [className]
    rfl
  | _ => rfl

theorem follows_extend (names : Names) (pairs : List (String × Value)) :
    Follows id (extend names pairs) (extend names pairs) := by
  induction pairs generalizing names with
  | nil => exact pure names
  | cons pair rest ih =>
    have cell : Follows id (newCell pair.2) (newCell pair.2) := fun _ => rfl
    exact cell.andThen fun cell => ih _

theorem follows_announce (name : String) : Follows id (announce name) (announce name) := by
  refine (Follows.same fun _ => rfl).andThen fun env => ?_
  cases env with
  | none => exact pure ()
  | some names => exact (follows_extend names _).andThen fun names _ => rfl

theorem follows_define (name : String) (value : Value) :
    Follows id (define name value) (define name value) := by
  refine (Follows.same fun _ => rfl).andThen fun env => ?_
  cases env with
  | none => exact fun _ => rfl
  | some names =>
    dsimp only
    cases names.lookup name with
    | some cell => exact fun _ => rfl
    | none => exact pure ()

theorem follows_read (name : Token) : Follows id (read name) (read name) := by
  refine (Follows.same fun _ => rfl).andThen fun found => ?_
  cases found with
  | some value => exact pure value
  | none => exact .fault name _

theorem follows_assign (name : Token) (value : Value) :
    Follows id (assign name value) (assign name value) := by
  refine (Follows.same fun _ => rfl).andThen fun cell => ?_
  cases cell with
  | some cell => exact fun _ => rfl
  | none =>
    refine (Follows.same fun _ => rfl).andThen fun bound => ?_
    cases bound with
    | true => exact fun _ => rfl
    | false => exact .fault name _

theorem follows_newFunction (f : Closure) : Follows id (newFunction f) (newFunction f.live) := by
  intro s
  have made : s.live.functions.push f.live = (s.functions.push f).map Closure.live :=
    Array.map_push.symm
  have size : s.live.functions.size = s.functions.size := Array.size_map
  show EStateM.Result.ok (Value.function s.live.functions.size)
    { s.live with functions := s.live.functions.push f.live } = _
  rw [made, size]
  rfl

theorem follows_newClass (c : Class) : Follows id (newClass c) (newClass c.live) := by
  intro s
  have made : s.live.classes.push c.live = (s.classes.push c).map Class.live :=
    Array.map_push.symm
  have size : s.live.classes.size = s.classes.size := Array.size_map
  show EStateM.Result.ok (Value.cls s.live.classes.size)
    { s.live with classes := s.live.classes.push c.live } = _
  rw [made, size]
  rfl

theorem follows_bindMethod (method : Closure) (i : InstanceId) :
    Follows Closure.live (bindMethod method i) (bindMethod method.live i) :=
  (follows_extend (method.env.getD []) _).andThen fun _ _ => rfl

theorem follows_readMethod (method : Closure) (i : InstanceId) :
    Follows id (do newFunction (← bindMethod method i))
      (do newFunction (← bindMethod method.live i)) :=
  (follows_bindMethod method i).bind follows_newFunction

/-- A method is looked for, and what is found goes on alike. -/
theorem follows_method? (c : ClassId) (name : String) :
    Follows (Option.map Closure.live) (gets (·.method? c name)) (gets (·.method? c name)) :=
  Follows.gets fun s => method?_live s c name

theorem follows_readProperty (i : InstanceId) (name : Token) :
    Follows id (readProperty i name) (readProperty i name) := by
  refine (Follows.same fun _ => rfl).andThen fun found => ?_
  split
  · exact pure _
  · refine (follows_method? _ _).bind fun method => ?_
    cases method with
    | some method => exact follows_readMethod method i
    | none => exact .fault name _
  · exact .fault name _

theorem follows_readSuper (keyword method : Token) :
    Follows id (readSuper keyword method) (readSuper keyword method) := by
  refine (Follows.same fun _ => rfl).andThen fun above => ?_
  split
  · refine (Follows.same fun _ => rfl).andThen fun this => ?_
    split
    · refine (follows_method? _ _).bind fun found => ?_
      cases found with
      | some found => exact follows_readMethod found _
      | none => exact .fault method _
    · exact .fault keyword _
  · exact .fault keyword _

theorem follows_declareFunction (decl : FunctionDecl) :
    Follows id (declareFunction decl) (declareFunction decl.live) := by
  unfold declareFunction
  rw [FunctionDecl.live_name]
  refine (follows_announce _).andThen fun _ => (Follows.same fun _ => rfl).andThen fun env => ?_
  exact (follows_newFunction ⟨decl, env, false⟩).andThen fun f => follows_define _ f

/-- The class is made, and its name is bound to it. -/
theorem follows_makeClass (name : Token) (above : Option ClassId) (env : Env)
    (methods : List FunctionDecl) :
    Follows id
      (do define name.lexeme (← newClass ⟨name.lexeme, above, Bindings.ofList (methods.map
        fun decl => (decl.name.lexeme, Closure.mk decl env decl.isInitializer))⟩))
      (do define name.lexeme (← newClass ⟨name.lexeme, above, Bindings.ofList
        ((methods.map FunctionDecl.live).map
          fun decl => (decl.name.lexeme, Closure.mk decl env decl.isInitializer))⟩)) := by
  have closures : (methods.map FunctionDecl.live).map
      (fun decl => (decl.name.lexeme, Closure.mk decl env decl.isInitializer)) =
      (methods.map fun decl => (decl.name.lexeme, Closure.mk decl env decl.isInitializer)).map
        fun p => (p.1, p.2.live) := by
    rw [List.map_map, List.map_map]
    refine List.map_congr_left fun decl _ => ?_
    show (decl.live.name.lexeme, Closure.mk decl.live env decl.live.isInitializer) = _
    rw [FunctionDecl.live_name, FunctionDecl.live_isInitializer]
    rfl
  rw [closures, ← Bindings.map_ofList]
  exact (follows_newClass _).andThen fun made => follows_define _ made

theorem follows_declareClass (name : Token) (superclass : Option Variable)
    (methods : List FunctionDecl) :
    Follows id (declareClass name superclass methods)
      (declareClass name superclass (methods.map FunctionDecl.live)) := by
  refine (follows_announce _).andThen fun _ => (follows_define _ _).andThen fun _ => ?_
  cases superclass with
  | none =>
    simp only [pure_bind]
    exact (Follows.same fun _ => rfl).andThen fun env => follows_makeClass name none env methods
  | some ref =>
    simp only [pure_bind, bind_map_left]
    have above : Follows id (readSuperclass ref) (readSuperclass ref) := by
      refine (follows_read ref.name).andThen fun value => ?_
      cases value with
      | cls c => exact pure c
      | _ => exact .fault ref.name _
    refine above.andThen fun c => (Follows.same fun _ => rfl).andThen fun outer => ?_
    exact (follows_extend (outer.getD []) _).andThen fun env =>
      follows_makeClass name (some c) (some env) methods

theorem follows_write (piece : String) : Follows id (write piece) (write piece) := by
  intro s
  have sink : s.live.sink = s.sink := rfl
  unfold write
  rw [sink]
  cases s.sink.refusal s.sink.written piece <;> rfl

theorem follows_print (value : Value) : Follows id (print value) (print value) :=
  (Follows.same fun s => text_live s value).andThen fun text =>
    (follows_write text).andThen fun _ => follows_write "\n"

theorem follows_flush : Follows id flush flush := by
  intro s
  have sink : s.live.sink = s.sink := rfl
  unfold flush
  rw [sink]
  cases s.sink.flushRefusal <;> rfl

/-! ### Runs -/

/-- Runs of at most `n` steps do without the dead statements what they do with them. -/
structure LiveWithin (n : Nat) : Prop where
  evaluate : ∀ e, Follows id (platform.evaluate n e) (platform.evaluate n e)
  callValue : ∀ callee paren arguments, Follows id (platform.callValue n callee paren arguments)
    (platform.callValue n callee paren arguments)
  invoke : ∀ f arguments,
    Follows id (platform.invoke n f arguments) (platform.invoke n f.live arguments)
  declareVariable : ∀ decl,
    Follows id (platform.declareVariable n decl) (platform.declareVariable n decl)
  execute : ∀ s, Follows id (platform.execute n s) (platform.execute n s.live)
  repeatWhile : ∀ condition body, Follows id (platform.repeatWhile n condition body)
    (platform.repeatWhile n condition body.live)

namespace LiveWithin

variable {n : Nat} (ih : LiveWithin n)
include ih

theorem inOrder (body : List Stmt) :
    Follows id (platform.inOrder (platform.execute n) body)
      (platform.inOrder (platform.execute n) (Stmt.liveAll body)) := by
  induction body with
  | nil => exact pure _
  | cons s rest others =>
    rw [Stmt.liveAll]
    by_cases isReturn : s.isReturn = true
    · rw [if_pos isReturn, Platform.inOrder_return isReturn, Platform.inOrder, Platform.inOrder]
      refine (ih.execute s).andThen fun flow => ?_
      cases flow <;> exact pure _
    · rw [if_neg isReturn, Platform.inOrder, Platform.inOrder]
      refine (ih.execute s).andThen fun flow => ?_
      cases flow with
      | normal => exact others
      | returned value => exact pure _

theorem evaluate_succ (e : Expr) :
    Follows id (platform.evaluate (n + 1) e) (platform.evaluate (n + 1) e) := by
  cases e with
  | sequence items =>
    rw [Platform.evaluate]
    exact (Follows.mapM ih.evaluate items).andThen fun values => pure _
  | assign id name value =>
    rw [Platform.evaluate]
    refine (ih.evaluate value).andThen fun a => ?_
    exact (follows_assign name a).andThen fun _ => pure a
  | binary left operator right =>
    rw [Platform.evaluate]
    refine (ih.evaluate left).andThen fun a => (ih.evaluate right).andThen fun b => ?_
    exact ofExcept operator _
  | call callee paren arguments =>
    rw [Platform.evaluate]
    refine (ih.evaluate callee).andThen fun f => ?_
    exact (Follows.mapM ih.evaluate arguments).andThen fun values => ih.callValue f paren values
  | get object name =>
    rw [Platform.evaluate]
    refine (ih.evaluate object).andThen fun a => ?_
    cases a with
    | object i => exact follows_readProperty i name
    | _ => exact throw _
  | grouping inner =>
    rw [Platform.evaluate]
    exact ih.evaluate inner
  | constant value =>
    rw [Platform.evaluate]
    exact pure _
  | logical left operator right =>
    rw [Platform.evaluate]
    refine (ih.evaluate left).andThen fun a => ?_
    split
    · exact pure a
    · exact ih.evaluate right
  | set object name value =>
    rw [Platform.evaluate]
    refine (ih.evaluate object).andThen fun a => ?_
    cases a with
    | object i =>
      refine (ih.evaluate value).andThen fun b => ?_
      have stored : Follows id (setField i name.lexeme b) (setField i name.lexeme b) :=
        fun _ => rfl
      exact stored.andThen fun _ => pure b
    | _ => exact throw _
  | super id keyword method =>
    rw [Platform.evaluate]
    exact follows_readSuper keyword method
  | this id keyword =>
    rw [Platform.evaluate]
    exact follows_read keyword
  | unary operator right =>
    rw [Platform.evaluate]
    exact (ih.evaluate right).andThen fun a => ofExcept operator _
  | read ref =>
    rw [Platform.evaluate]
    exact follows_read ref.name

theorem callValue_succ (callee : Value) (paren : Token) (arguments : List Value) :
    Follows id (platform.callValue (n + 1) callee paren arguments)
      (platform.callValue (n + 1) callee paren arguments) := by
  have found : Follows (Option.map (Callee.map Closure.live)) (platform.callee? callee)
      (platform.callee? callee) := Follows.gets fun s => callee?_live s callee
  rw [Platform.callValue]
  refine found.bind fun callee => ?_
  cases callee with
  | none => exact throw _
  | some callee =>
    have arity : platform.arity (callee.map Closure.live) = platform.arity callee := by
      have params : ∀ f : Closure, (platform.decl f.live).params.length =
          (platform.decl f).params.length := fun f => congrArg List.length f.decl.live_params
      cases callee with
      | clock => rfl
      | function f => exact params f
      | cls id initializer =>
        cases initializer with
        | none => rfl
        | some f => exact params f
    rw [Option.map_some]
    dsimp only
    rw [arity]
    split
    · exact throw _
    · refine Follows.oneDeeper ?_ paren
      cases callee with
      | clock => exact fun _ => rfl
      | function f => exact ih.invoke f arguments
      | cls id initializer =>
        have made : Follows (fun i => i) (newInstance id) (newInstance id) := fun _ => rfl
        refine made.andThen fun i => ?_
        cases initializer with
        | none => exact pure _
        | some method =>
          refine (follows_bindMethod method i).bind fun bound => ?_
          exact (ih.invoke bound arguments).andThen fun _ => pure _

theorem invoke_succ (f : Closure) (arguments : List Value) :
    Follows id (platform.invoke (n + 1) f arguments)
      (platform.invoke (n + 1) f.live arguments) := by
  have entered : Follows id (platform.enterCall f arguments)
      (platform.enterCall f.live arguments) := by
    show Follows id (some <$> extend _ _) (some <$> extend _ ((f.decl.live.params.map _).zip _))
    rw [FunctionDecl.live_params]
    exact (follows_extend _ _).map fun _ => rfl
  rw [Platform.invoke, Platform.invoke]
  refine entered.andThen fun env => ?_
  have body := ih.inOrder f.decl.body
  rw [← FunctionDecl.live_body] at body
  refine (body.within env).andThen fun flow => ?_
  have kind : platform.isInitializer f.live = platform.isInitializer f := rfl
  rw [kind]
  split
  · exact fun _ => rfl
  · cases flow <;> exact pure _

theorem declareVariable_succ (decl : VarDecl) :
    Follows id (platform.declareVariable (n + 1) decl)
      (platform.declareVariable (n + 1) decl) := by
  rw [Platform.declareVariable]
  refine (follows_announce _).andThen fun _ => ?_
  have behind : ∀ value, Follows id
      (do platform.define decl.name.lexeme value; Pure.pure Flow.normal)
      (do platform.define decl.name.lexeme value; Pure.pure Flow.normal) :=
    fun value => (follows_define _ value).andThen fun _ => pure _
  cases decl.initializer with
  | none => exact (pure (h := id) Value.nil).andThen behind
  | some e => exact (ih.evaluate e).andThen behind

theorem execute_succ (s : Stmt) :
    Follows id (platform.execute (n + 1) s) (platform.execute (n + 1) s.live) := by
  cases s with
  | block body =>
    rw [Stmt.live, Platform.execute, Platform.execute]
    refine (Follows.same fun _ => rfl).andThen fun env => ?_
    exact (ih.inOrder body).within env
  | classDecl name superclass methods =>
    rw [Stmt.live, Platform.execute, Platform.execute, FunctionDecl.liveAll_eq_map]
    exact (follows_declareClass name superclass methods).andThen fun _ => pure _
  | expression value =>
    rw [Stmt.live, Platform.execute]
    exact (ih.evaluate value).andThen fun _ => pure _
  | function decl =>
    rw [Stmt.live, Platform.execute, Platform.execute]
    exact (follows_declareFunction decl).andThen fun _ => pure _
  | branch condition thenBranch elseBranch =>
    cases elseBranch with
    | none =>
      rw [Stmt.live, Platform.execute, Platform.execute]
      refine (ih.evaluate condition).andThen fun value => ?_
      split
      · exact ih.execute thenBranch
      · exact pure _
    | some elseBranch =>
      rw [Stmt.live, Platform.execute, Platform.execute]
      refine (ih.evaluate condition).andThen fun value => ?_
      split
      · exact ih.execute thenBranch
      · exact ih.execute elseBranch
  | print value =>
    rw [Stmt.live, Platform.execute]
    exact (ih.evaluate value).andThen fun a => (follows_print a).andThen fun _ => pure _
  | ret keyword value =>
    rw [Stmt.live]
    cases value with
    | none => exact pure _
    | some e =>
      rw [Platform.execute]
      exact (ih.evaluate e).map fun _ => rfl
  | var decl =>
    rw [Stmt.live, Platform.execute]
    exact ih.declareVariable decl
  | varList decls =>
    rw [Stmt.live, Platform.execute]
    induction decls with
    | nil => exact pure _
    | cons decl rest others =>
      rw [Platform.inOrder]
      refine (ih.declareVariable decl).andThen fun flow => ?_
      cases flow with
      | normal => exact others
      | returned value => exact pure _
  | loop condition body =>
    rw [Stmt.live, Platform.execute, Platform.execute]
    exact ih.repeatWhile condition body

theorem repeatWhile_succ (condition : Expr) (body : Stmt) :
    Follows id (platform.repeatWhile (n + 1) condition body)
      (platform.repeatWhile (n + 1) condition body.live) := by
  rw [Platform.repeatWhile, Platform.repeatWhile]
  refine (ih.evaluate condition).andThen fun value => ?_
  split
  · refine (ih.execute body).andThen fun flow => ?_
    cases flow with
    | normal => exact ih.repeatWhile condition body
    | returned value => exact pure _
  · exact pure _

omit ih in
theorem all (n : Nat) : LiveWithin n := by
  induction n with
  | zero => constructor <;> intros <;> exact throw _
  | succ n ih =>
    exact ⟨evaluate_succ ih, callValue_succ ih, invoke_succ ih, declareVariable_succ ih,
      execute_succ ih, repeatWhile_succ ih⟩

end LiveWithin

theorem follows_executeAll (steps : Nat) (program : List Stmt) :
    Follows id (platform.executeAll steps program)
      (platform.executeAll steps (program.map Stmt.live)) := by
  induction program with
  | nil => exact pure _
  | cons first rest ih =>
    have discarded : Follows id (discard (platform.execute steps first) : Action PUnit)
        (discard (platform.execute steps first.live) : Action PUnit) :=
      ((LiveWithin.all steps).execute first).map fun _ => rfl
    exact discarded.andThen fun _ => ih

/-- A batch does without the dead statements what it does with them. -/
theorem interpret_live (steps : Nat) (program : List Stmt) (s : State) :
    platform.interpret steps (program.map Stmt.live) s.live =
      endingWith State.live (platform.interpret steps program s) := by
  have flushed (e : Stop) : Follows id (do platform.flush; throw e : Action Unit)
      (do platform.flush; throw e : Action Unit) := follows_flush.andThen fun _ => throw e
  unfold Platform.interpret
  rw [follows_executeAll steps program s]
  cases platform.executeAll steps program s with
  | ok _ s' => 
    refine (follows_flush s').trans ?_
    show _ = endingWith State.live (flush s')
    cases flush s' <;> rfl
  | error e s' =>
    cases e with
    | exhausted => rfl
    | fault _ | output _ =>
      refine (flushed _ s').trans ?_
      dsimp only
      generalize (do platform.flush; throw _ : Action Unit) s' = r
      cases r <;> rfl

end Plain

end Treewalk
