import Treewalk.Proofs.Run.Simulation
import Treewalk.Proofs.Scope.Distances
import Treewalk.Proofs.Grammar.Lines
import Treewalk.Proofs.Store.Frames

/-!
# The machine on other lines

A machine whose functions stand on other lines, and that has more distances in its table, goes on as
the machine does, on the other lines, as long as no distance is added for a reference that is used.
-/

namespace Treewalk

variable (r : Relabel)

def Closure.relabel (g : Closure) : Closure := { g with decl := g.decl.relabel r }

def Class.relabel (k : Class) : Class := { k with methods := k.methods.map (Closure.relabel r) }

def Store.relabel (s : Store) : Store :=
  { s with
    functions := s.functions.map (Closure.relabel r)
    classes := s.classes.map (Class.relabel r) }

def Machine.relabel (m : Machine) : Machine := { m with store := m.store.relabel r }

/-! ### The store -/

variable (r' : Relabel)

theorem Closure.relabel_identity : Closure.relabel .identity = id := by
  funext g
  rw [Closure.relabel, FunctionDecl.relabel_identity, id]

theorem Closure.relabel_relabel :
    Closure.relabel r' ∘ Closure.relabel r = Closure.relabel (r.andThen r') := by
  funext g
  simp only [Function.comp_apply, Closure.relabel, FunctionDecl.relabel_relabel]

theorem Class.relabel_identity : Class.relabel .identity = id := by
  funext k
  rw [Class.relabel, Closure.relabel_identity, Bindings.map_id, id]

theorem Class.relabel_relabel :
    Class.relabel r' ∘ Class.relabel r = Class.relabel (r.andThen r') := by
  funext k
  simp only [Function.comp_apply, Class.relabel, Bindings.map_map, Closure.relabel_relabel]

theorem Machine.relabel_identity (m : Machine) : m.relabel .identity = m := by
  rw [Machine.relabel, Store.relabel, Closure.relabel_identity, Class.relabel_identity,
    Array.map_id, Array.map_id]

theorem Machine.relabel_relabel (m : Machine) :
    (m.relabel r).relabel r' = m.relabel (r.andThen r') := by
  simp only [Machine.relabel, Store.relabel, Array.map_map, Closure.relabel_relabel,
    Class.relabel_relabel]

theorem Store.searchMethod_relabel (s : Store) (x : String) (steps : Nat) (k : ClassId) :
    (s.relabel r).searchMethod x steps k = (s.searchMethod x steps k).map (Closure.relabel r) := by
  induction steps generalizing k with
  | zero => rfl
  | succ steps ih =>
    rw [Store.searchMethod, Store.searchMethod]
    have entry : (s.relabel r).classes[k]? = s.classes[k]?.map (Class.relabel r) :=
      Array.getElem?_map
    rw [entry]
    cases s.classes[k]? with
    | none => rfl
    | some cls =>
      have own : (cls.relabel r).methods.get? x = (cls.methods.get? x).map (Closure.relabel r) :=
        Bindings.get?_map ..
      simp only [Option.map_some, own]
      have sameAbove : (cls.relabel r).superclass = cls.superclass := rfl
      rw [sameAbove]
      cases cls.methods.get? x with
      | some method => rfl
      | none =>
        cases cls.superclass with
        | some above => exact ih above
        | none => rfl

theorem Store.method?_relabel (s : Store) (k : ClassId) (x : String) :
    (s.relabel r).method? k x = (s.method? k x).map (Closure.relabel r) := by
  have size : (s.relabel r).classes.size = s.classes.size := Array.size_map
  rw [Store.method?, Store.method?, size]
  exact s.searchMethod_relabel r ..

/-- Functions and classes keep their names, so a value has the text that it had. -/
theorem Store.text_relabel (s : Store) (value : Value) :
    (s.relabel r).text value = s.text value := by
  have className : ∀ k, (s.relabel r).className k = s.className k := by
    intro k
    have entry : (s.relabel r).classes[k]? = s.classes[k]?.map (Class.relabel r) :=
      Array.getElem?_map
    rw [Store.className, Store.className, entry, Option.map_map]
    rfl
  cases value with
  | bool value => cases value <;> rfl
  | function id =>
    have entry : (s.relabel r).functions[id]? = s.functions[id]?.map (Closure.relabel r) :=
      Array.getElem?_map
    have name : ∀ g : Closure, (g.relabel r).decl.name.lexeme = g.decl.name.lexeme := by
      intro g
      show (g.decl.relabel r).name.lexeme = _
      rw [FunctionDecl.relabel_name, Token.relabel_lexeme]
    rw [Store.text, Store.text, Store.functionName, Store.functionName, entry, Option.map_map]
    simp only [Function.comp_def, name]
  | cls id => exact className id
  | object id =>
    rw [Store.text, Store.text, Store.instanceClassName, Store.instanceClassName]
    simp only [className]
    rfl
  | _ => rfl

/-! ### Both machines -/

namespace Moved

variable (f : Nat → Nat) (extra : List (NodeId × Nat))

/-- The machine on other lines, with more distances. -/
def image (m : Machine) : Machine := (m.relabel (.lines f)).addDistances extra

/-- No distance is added for the reference. -/
def Allowed (o : Occurrence) : Prop :=
  ∀ role ref, o.mention = .use role ref → ref.id ∉ extra.map (·.1)

/-- A function whose references no distance is added for. -/
def Placed (g : Closure) : Prop := ∃ c, g.decl.Fits (fun _ => True) (Allowed extra) c

structure Good (m : Machine) : Prop where
  functions : ∀ g ∈ m.store.functions, Placed extra g
  methods : ∀ k ∈ m.store.classes, ∀ x g, k.methods.get? x = some g → Placed extra g

/-- A machine and its image. -/
@[reducible]
def moved : Correspondence Platform.machine Platform.machine where
  World := Unit
  le _ _ := True
  le_refl _ := trivial
  le_trans _ _ := trivial
  relabel := .lines f
  heap _ m n := Good extra m ∧ n = image f extra m
  scope _ _ e e' := e' = e
  inside _ _ e e' := e' = e
  focus _ _ := ()
  heap_focus := by
    rintro _ _ m _ e _ ⟨good, rfl⟩ rfl
    exact ⟨⟨good.functions, good.methods⟩, rfl⟩
  enter inside := inside
  leave := by
    rintro _ _ _ _ e _ o _ m _ _ rfl _ ⟨good, rfl⟩
    exact ⟨trivial, rfl, ⟨good.functions, good.methods⟩, rfl⟩
  code _ g h := h = g.relabel (.lines f) ∧ Placed extra g
  code_mono _ h := h
  method _ g h := h = g.relabel (.lines f) ∧ Placed extra g
  method_mono _ h := h
  allowed := Allowed extra
  named _ := True
  stop e e' := e' = e.relabel (.lines f)
  env_setEnv := Platform.machine_env_setEnv
  env_setEnv' := Platform.machine_env_setEnv

open Correspondence

variable {f extra} {w : Unit} {c : Context} {α β : Type} {m m' : Machine}

theorem rel_of {A : (moved f extra).Post α β} {p : Run α} {q : Run β}
    (h : ∀ m, Good extra m → (moved f extra).Ends w c A (p m) (q (image f extra m))) :
    (moved f extra).Rel w c A p q := by
  rintro m _ ⟨good, rfl⟩ _
  exact h m good

theorem ends_ok {A : (moved f extra).Post α β} {c' : Context} {a : α} {b : β}
    (size : c'.length = c.length) (good : Good extra m') (post : A w c' a b) :
    (moved f extra).Ends w c A (.ok a m') (.ok b (image f extra m')) :=
  ⟨w, c', trivial, size, post, ⟨good, rfl⟩, rfl⟩

theorem ends_error {A : (moved f extra).Post α β} {e : Stop} (good : Good extra m') :
    (moved f extra).Ends w c A (.error e m')
      (.error (e.relabel (.lines f)) (image f extra m')) :=
  ⟨rfl, w, c, trivial, rfl, ⟨good, rfl⟩, rfl⟩

theorem rel_gets {g : Machine → α} {h : Machine → β} {A : Unit → α → β → Prop}
    (same : ∀ m, Good extra m → A w (g m) (h (image f extra m))) :
    (moved f extra).Rel w c ((moved f extra).Keeps c A) (Run.gets g) (Run.gets h) :=
  rel_of fun m good => ends_ok rfl good ⟨rfl, same m good⟩

/-- What is read off the machine is the same on other lines. -/
theorem rel_same {g : Machine → α} (same : ∀ m, Good extra m → g (image f extra m) = g m) :
    (moved f extra).Rel w c ((moved f extra).Gives c) (Run.gets g) (Run.gets g) :=
  rel_gets (A := fun _ a b => a = b) fun m good => (same m good).symm

theorem rel_fault {A : (moved f extra).Post α β} (place : Token) {cause : RuntimeError.Cause} :
    (moved f extra).Rel w c A (Run.fault place cause)
      (Run.fault (place.relabel (.lines f)) cause) :=
  .throw rfl

/-! ### Variables -/

@[simp] theorem image_frames (m : Machine) : (image f extra m).store.frames = m.store.frames := rfl

@[simp] theorem image_env (m : Machine) : (image f extra m).env = m.env := rfl

@[simp] theorem image_globals (m : Machine) : (image f extra m).globals = m.globals := rfl

theorem distance_image {id : NodeId} (new : id ∉ extra.map (·.1)) (m : Machine) :
    (image f extra m).distances.get? id = m.distances.get? id :=
  Distances.get?_addAll_of_not_mem new

/-- A variable that is found or not, wherever it is looked for. -/
theorem ends_found (good : Good extra m) (name : Token) (found : Option Value) :
    (moved f extra).Ends w c ((moved f extra).Gives c)
      (match found with
        | some value => .ok value m
        | none => .error (.fault ⟨.undefinedVariable name.lexeme, name.line⟩) m)
      (match found with
        | some value => .ok value (image f extra m)
        | none => .error (.fault ⟨.undefinedVariable name.lexeme, f name.line⟩)
            (image f extra m)) := by
  cases found with
  | some value => exact ends_ok rfl good ⟨rfl, rfl⟩
  | none => exact ends_error good

theorem rel_readVariable {id : NodeId} (new : id ∉ extra.map (·.1)) (name : Token) :
    (moved f extra).Rel w c ((moved f extra).Gives c) (Run.readVariable id name)
      (Run.readVariable id (name.relabel (.lines f))) := by
  refine rel_of fun m good => ?_
  unfold Run.readVariable
  simp only [distance_image new, image_frames, image_env, image_globals, Token.relabel_lexeme]
  cases m.distances.get? id with
  | some distance => exact ends_found good name _
  | none => exact ends_found good name _

theorem Good.frames (good : Good extra m) (frames : Frames) :
    Good extra { m with store := { m.store with frames } } := ⟨good.functions, good.methods⟩

theorem rel_defineIn (frame : FrameId) (x : String) (value : Value) :
    (moved f extra).Rel w c ((moved f extra).Gives c) (Run.defineIn frame x value)
      (Run.defineIn frame x value) :=
  rel_of fun _ good => ends_ok rfl (good.frames _) ⟨rfl, rfl⟩

theorem rel_assignVariable {id : NodeId} (new : id ∉ extra.map (·.1)) (name : Token)
    (value : Value) :
    (moved f extra).Rel w c ((moved f extra).Gives c) (Run.assignVariable id name value)
      (Run.assignVariable id (name.relabel (.lines f)) value) := by
  unfold Run.assignVariable
  refine (rel_same fun m good => ?_).andThen fun _ frame _ => ?_
  · simp only [Run.assignedFrame?, distance_image new, image_frames, image_env, image_globals]
  · cases frame with
    | some frame => exact rel_defineIn frame _ value
    | none => exact rel_fault name

/-! ### Functions and methods -/

theorem rel_newFunction {g : Closure} (placed : Placed extra g) :
    (moved f extra).Rel w c ((moved f extra).Gives c) (Run.newFunction g)
      (Run.newFunction (g.relabel (.lines f))) := by
  refine rel_of fun m good => ?_
  have made : (image f extra m).store.pushFunction (g.relabel (.lines f)) =
      (m.store.pushFunction g).relabel (.lines f) :=
    congrArg (fun functions => { m.store.relabel (.lines f) with functions }) Array.map_push.symm
  have size : (image f extra m).store.functions.size = m.store.functions.size := Array.size_map
  unfold Run.newFunction
  rw [made, size]
  have good' : Good extra { m with store := m.store.pushFunction g } := by
    refine ⟨fun h member => ?_, good.methods⟩
    rcases Array.mem_push.1 member with old | rfl
    · exact good.functions h old
    · exact placed
  exact ends_ok rfl good' ⟨rfl, rfl⟩

theorem rel_newFrame (parent : FrameId) (values : Bindings Value) :
    (moved f extra).Rel w c ((moved f extra).Gives c) (Run.newFrame parent values)
      (Run.newFrame parent values) :=
  rel_of fun _ good => ends_ok rfl (good.frames _) ⟨rfl, rfl⟩

theorem rel_bindMethod {g : Closure} (placed : Placed extra g) (i : InstanceId) :
    (moved f extra).Rel w c
      ((moved f extra).Keeps c fun _ a b =>
        (b = a.relabel (.lines f) ∧ Placed extra a) ∧ a.decl = g.decl)
      (Run.bindMethod g i) (Run.bindMethod (g.relabel (.lines f)) i) :=
  (rel_newFrame g.frame _).andThen fun _ _ _ => .pure ⟨rfl, ⟨rfl, placed⟩, rfl⟩

theorem Good.searchMethod (good : Good extra m) {x : String} {steps : Nat} {k : ClassId}
    {g : Closure} (found : m.store.searchMethod x steps k = some g) : Placed extra g := by
  induction steps generalizing k with
  | zero => cases found
  | succ steps ih =>
    rw [Store.searchMethod] at found
    split at found
    · cases found
    · next cls entry =>
      have listed : cls ∈ m.store.classes := Array.mem_of_getElem? entry
      split at found
      · next method own =>
        cases found
        exact good.methods cls listed x _ own
      · split at found
        · exact ih found
        · cases found

/-- A method is found where it was, or none is. -/
theorem Good.method? (good : Good extra m) (k : ClassId) (x : String) :
    Option.Rel (fun a b => b = a.relabel (.lines f) ∧ Placed extra a) (m.store.method? k x)
      ((image f extra m).store.method? k x) := by
  show Option.Rel _ _ ((m.store.relabel (.lines f)).method? k x)
  rw [Store.method?_relabel]
  cases found : m.store.method? k x with
  | none => exact .none
  | some g => exact .some ⟨rfl, good.searchMethod found⟩

/-- A method that is asked for by name, bound to an instance. -/
theorem rel_askMethod (k : ClassId) (i : InstanceId) (name : Token) :
    (moved f extra).Rel w c ((moved f extra).Gives c)
      (do
        match ← Run.gets (·.store.method? k name.lexeme) with
        | some found => Run.newFunction (← Run.bindMethod found i)
        | none => Run.fault name (.undefinedProperty name.lexeme))
      (do
        match ← Run.gets (·.store.method? k name.lexeme) with
        | some found => Run.newFunction (← Run.bindMethod found i)
        | none => Run.fault (name.relabel (.lines f)) (.undefinedProperty name.lexeme)) := by
  refine (rel_gets (A := fun _ => Option.Rel fun a b => b = a.relabel (.lines f) ∧ Placed extra a)
    fun m good => good.method? k name.lexeme).bind ?_
  rintro _ _ found found' _ ⟨rfl, both⟩
  cases both with
  | none => exact rel_fault name
  | some related =>
    obtain ⟨rfl, placed⟩ := related
    refine (rel_bindMethod placed i).bind ?_
    rintro _ _ a _ _ ⟨rfl, ⟨rfl, bound⟩, -⟩
    exact rel_newFunction bound

theorem rel_readProperty (i : InstanceId) (name : Token) :
    (moved f extra).Rel w c ((moved f extra).Gives c) (Run.readProperty i name)
      (Run.readProperty i (name.relabel (.lines f))) := by
  unfold Run.readProperty
  refine (rel_same fun _ _ => rfl).andThen fun _ found _ => ?_
  split
  · exact .pure ⟨rfl, rfl⟩
  · exact rel_askMethod _ i name
  · exact rel_fault name

theorem rel_readSuper {id : NodeId} (new : id ∉ extra.map (·.1)) (keyword method : Token) :
    (moved f extra).Rel w c ((moved f extra).Gives c) (Run.readSuper id keyword method)
      (Run.readSuper id (keyword.relabel (.lines f)) (method.relabel (.lines f))) := by
  unfold Run.readSuper
  refine (rel_same fun m _ => distance_image new m).andThen fun _ distance _ => ?_
  cases distance with
  | none => exact rel_fault keyword
  | some distance =>
    refine (rel_same fun _ _ => rfl).andThen fun _ above _ => ?_
    split
    · refine (rel_same fun _ _ => rfl).andThen fun _ this _ => ?_
      split
      · exact rel_askMethod _ _ method
      · exact rel_fault keyword
    · exact rel_fault keyword

/-! ### Calls -/

theorem rel_callee? (value : Value) :
    (moved f extra).Rel w c ((moved f extra).Keeps c fun v => Correspondence.Callees v)
      (Platform.machine.callee? value) (Platform.machine.callee? value) := by
  refine rel_gets fun m good => ?_
  cases value with
  | clock => exact .clock
  | function id =>
    have entry : (image f extra m).store.functions[id]? =
        m.store.functions[id]?.map (Closure.relabel (.lines f)) := Array.getElem?_map
    simp only [Store.callable?, entry]
    cases found : m.store.functions[id]? with
    | none => exact .none
    | some g => exact .function ⟨rfl, good.functions g (Array.mem_of_getElem? found)⟩
  | cls id =>
    have size : (image f extra m).store.classes.size = m.store.classes.size := Array.size_map
    simp only [Store.callable?, size]
    split
    · have both := good.method? (f := f) id initializerName
      generalize m.store.method? id initializerName = a,
        (image f extra m).store.method? id initializerName = b at both ⊢
      cases both with
      | none => exact .cls
      | some related => exact .initialized related
    · exact .none
  | _ => exact .none

/-- Parameters are bound by their names, on whatever line they stand. -/
theorem rel_enterCall (g : Closure) (arguments : List Value) :
    (moved f extra).Rel w c ((moved f extra).Keeps c fun _ frame frame' => frame' = frame)
      (Platform.machine.enterCall g arguments)
      (Platform.machine.enterCall (g.relabel (.lines f)) arguments) := by
  have bound : (g.relabel (.lines f)).decl.bindArguments arguments =
      g.decl.bindArguments arguments := by
    show (g.decl.relabel (.lines f)).bindArguments arguments = _
    rw [FunctionDecl.bindArguments, FunctionDecl.relabel_params, List.map_map]
    rfl
  show (moved f extra).Rel w c _ (Run.newFrame g.frame _) (Run.newFrame g.frame _)
  rw [bound]
  exact (rel_newFrame g.frame _).weaken fun _ _ _ _ _ same => ⟨same.1, same.2.symm⟩

theorem rel_oneDeeper {p q : Run Value} (paren : Token)
    (h : (moved f extra).Rel w c ((moved f extra).Gives c) p q) :
    (moved f extra).Rel w c ((moved f extra).Gives c) (Run.oneDeeper paren p)
      (Run.oneDeeper (paren.relabel (.lines f)) q) := by
  refine rel_of fun m good => ?_
  have limit : (image f extra m).atDepthLimit = m.atDepthLimit := rfl
  unfold Run.oneDeeper
  rw [limit]
  split
  · exact ends_error good
  · have ends := h { m with depth := m.depth + 1 }
      { image f extra m with depth := (image f extra m).depth + 1 }
      ⟨⟨good.functions, good.methods⟩, rfl⟩ rfl
    have back : ∀ {m' n' : Machine}, (moved f extra).heap w m' n' →
        (moved f extra).heap w { m' with depth := m'.depth - 1 }
          { n' with depth := n'.depth - 1 } := by
      rintro m' n' ⟨good', rfl⟩
      exact ⟨⟨good'.functions, good'.methods⟩, rfl⟩
    match p { m with depth := m.depth + 1 },
      q { image f extra m with depth := (image f extra m).depth + 1 }, ends with
    | .ok _ _, .ok _ _, ⟨v, c', later, size, post, heap', scope'⟩ =>
      exact ⟨v, c', later, size, post, back heap', scope'⟩
    | .error _ _, .error _ _, ⟨stops, v, c', later, size, heap', scope'⟩ =>
      exact ⟨stops, v, c', later, size, back heap', scope'⟩

/-! ### Declarations -/

theorem rel_define {c' : Context} (size : c'.length = c.length) (x : String) (value : Value) :
    (moved f extra).Rel w c ((moved f extra).Gives c') (Run.define x value)
      (Run.define x value) :=
  rel_of fun _ good => ends_ok size (good.frames _) ⟨rfl, rfl⟩

theorem rel_declareFunction {decl : FunctionDecl}
    (fits : (moved f extra).Fits c (.function decl)) :
    (moved f extra).Rel w c ((moved f extra).Gives (c.declare decl.name.lexeme))
      (Platform.machine.declareFunction decl)
      (Platform.machine.declareFunction (decl.relabel (.lines f))) := by
  obtain ⟨tidy, allowed⟩ := fits
  rw [Stmt.occurrences, List.forall_mem_cons] at allowed
  rw [Stmt.Tidy] at tidy
  refine (rel_same fun _ _ => rfl).andThen fun _ frame _ => ?_
  have placed : Placed extra ⟨decl, frame, false⟩ := ⟨_, tidy.2, allowed.2⟩
  refine (rel_newFunction placed).andThen fun _ g _ => ?_
  rw [FunctionDecl.relabel_name]
  exact rel_define (Context.length_declare ..) decl.name.lexeme g

theorem rel_assignName (name : Token) (value : Value) :
    (moved f extra).Rel w c ((moved f extra).Gives c) (Run.assignName name value)
      (Run.assignName (name.relabel (.lines f)) value) := by
  unfold Run.assignName
  refine (rel_same fun _ _ => rfl).andThen fun _ frame _ => ?_
  cases frame with
  | some frame => exact rel_defineIn frame _ value
  | none => exact rel_fault name

theorem rel_readSuperclass {ref : Variable} (new : ref.id ∉ extra.map (·.1)) :
    (moved f extra).Rel w c ((moved f extra).Gives c) (Run.readSuperclass ref)
      (Run.readSuperclass (ref.relabel (.lines f))) := by
  unfold Run.readSuperclass
  refine (rel_readVariable new ref.name).andThen fun _ value _ => ?_
  cases value with
  | cls id => exact .pure ⟨rfl, rfl⟩
  | _ => exact rel_fault ref.name

theorem rel_newClass {k : Class} (placed : ∀ x g, k.methods.get? x = some g → Placed extra g) :
    (moved f extra).Rel w c ((moved f extra).Gives c) (Run.newClass k)
      (Run.newClass (k.relabel (.lines f))) := by
  refine rel_of fun m good => ?_
  have made : (image f extra m).store.pushClass (k.relabel (.lines f)) =
      (m.store.pushClass k).relabel (.lines f) :=
    congrArg (fun classes => { m.store.relabel (.lines f) with classes }) Array.map_push.symm
  have size : (image f extra m).store.classes.size = m.store.classes.size := Array.size_map
  unfold Run.newClass
  rw [made, size]
  have good' : Good extra { m with store := m.store.pushClass k } := by
    refine ⟨good.functions, fun other member => ?_⟩
    rcases Array.mem_push.1 member with old | rfl
    · exact good.methods other old
    · exact placed
  exact ends_ok rfl good' ⟨rfl, rfl⟩

/-- The methods of a class, as pairs with their names. -/
theorem closures_relabel (ρ : Relabel) (methods : List FunctionDecl) (frame : FrameId) :
    (methods.map (FunctionDecl.relabel ρ)).map (fun decl =>
        (decl.name.lexeme, Closure.mk decl frame decl.isInitializer)) =
      (methods.map fun decl => (decl.name.lexeme, Closure.mk decl frame decl.isInitializer)).map
        fun p => (p.1, p.2.relabel ρ) := by
  rw [List.map_map, List.map_map]
  refine List.map_congr_left fun decl _ => ?_
  show ((decl.relabel ρ).name.lexeme,
    Closure.mk (decl.relabel ρ) frame (decl.relabel ρ).isInitializer) = _
  rw [FunctionDecl.relabel_name, FunctionDecl.relabel_isInitializer]
  rfl

variable {name : Token} {superclass : Option Variable} {methods : List FunctionDecl}

theorem rel_makeClass {above : Option ClassId} {frame : FrameId} {d : Context}
    (tidy : FunctionDecl.AllTidy (fun _ => True) methods)
    (allowed : ∀ o ∈ FunctionDecl.allOccurrences d methods, Allowed extra o) :
    (moved f extra).Rel w c ((moved f extra).Gives c)
      (do Run.assignName name (← Run.newClass ⟨name.lexeme, above, Bindings.ofList (methods.map
        fun decl => (decl.name.lexeme, Closure.mk decl frame decl.isInitializer))⟩))
      (do Run.assignName (name.relabel (.lines f)) (← Run.newClass ⟨name.lexeme, above,
        Bindings.ofList ((methods.map (FunctionDecl.relabel (.lines f))).map fun decl =>
          (decl.name.lexeme, Closure.mk decl frame decl.isInitializer))⟩)) := by
  rw [closures_relabel, ← Bindings.map_ofList]
  refine (rel_newClass fun x g found => ?_).andThen fun _ cls _ => rel_assignName name cls
  obtain ⟨decl, member, same⟩ := List.mem_map.1 (Bindings.mem_of_get?_ofList found)
  cases same
  exact ⟨d.enterThis decl, FunctionDecl.tidy_of_mem member tidy,
    fun o occurs => allowed o (FunctionDecl.mem_allOccurrences member occurs)⟩

theorem rel_declareClass (fits : (moved f extra).Fits c (.classDecl name superclass methods)) :
    (moved f extra).Rel w c ((moved f extra).Gives (c.declare name.lexeme))
      (Run.declareClass name superclass methods)
      (Run.declareClass (name.relabel (.lines f)) (superclass.map (Variable.relabel (.lines f)))
        (methods.map (FunctionDecl.relabel (.lines f)))) := by
  obtain ⟨tidy, allowed⟩ := fits
  rw [Stmt.Tidy] at tidy
  simp only [Stmt.occurrences, List.forall_mem_cons, List.forall_mem_append] at allowed
  unfold Run.declareClass
  have declared := Context.length_declare c name.lexeme
  refine (rel_define declared name.lexeme .nil).andThen fun _ _ _ => ?_
  cases superclass with
  | none =>
    simp only [Option.map_none, pure_bind]
    refine (rel_same fun _ _ => rfl).andThen fun _ frame _ => ?_
    exact rel_makeClass tidy.2 allowed.2.2
  | some ref =>
    simp only [Option.map_some, pure_bind, bind_map_left]
    have use := allowed.2.1 ⟨.use .read ref, c.declare name.lexeme⟩ (.head _) .read ref rfl
    refine (rel_readSuperclass use).andThen fun _ cls _ => ?_
    refine (rel_same fun _ _ => rfl).andThen fun _ outer _ => ?_
    refine (rel_newFrame outer _).andThen fun _ frame _ => ?_
    exact rel_makeClass tidy.2 allowed.2.2

/-! ### Output -/

theorem rel_write (piece : String) :
    (moved f extra).Rel w c ((moved f extra).Gives c) (Run.write piece) (Run.write piece) := by
  refine rel_of fun m good => ?_
  have same : (image f extra m).sink = m.sink := rfl
  unfold Run.write
  rw [same]
  cases m.sink.refusal m.sink.written piece with
  | none => exact ends_ok rfl ⟨good.functions, good.methods⟩ ⟨rfl, rfl⟩
  | some r => exact ends_error ⟨good.functions, good.methods⟩

theorem rel_print (value : Value) :
    (moved f extra).Rel w c ((moved f extra).Gives c) (Run.print value) (Run.print value) := by
  refine (rel_same fun m _ => m.store.text_relabel _ value).andThen fun _ text _ => ?_
  exact (rel_write text).andThen fun _ _ _ => rel_write "\n"

theorem rel_flush :
    (moved f extra).Rel w c ((moved f extra).Gives c) Run.flush Run.flush := by
  refine rel_of fun m good => ?_
  have same : (image f extra m).sink = m.sink := rfl
  unfold Run.flush
  rw [same]
  cases m.sink.flushRefusal with
  | none => exact ends_ok rfl good ⟨rfl, rfl⟩
  | some message => exact ends_error good

/-- A machine and its image stay in step. -/
theorem simulation (f : Nat → Nat) (extra : List (NodeId × Nat)) : Simulation (moved f extra) where
  exhausted := rfl
  exhausted_iff := by
    rintro e _ rfl
    cases e <;> simp [Stop.relabel]
  fault _ _ := rfl
  read allowed := rel_readVariable (allowed _ _ rfl) _
  readThis allowed := rel_readVariable (allowed _ _ rfl) _
  assign value allowed := rel_assignVariable (allowed _ _ rfl) _ value
  readSuper method allowed := rel_readSuper (allowed _ _ rfl) _ method
  readProperty := rel_readProperty
  setField i x value := rel_of fun _ good => ends_ok rfl ⟨good.functions, good.methods⟩ ⟨rfl, rfl⟩
  callee? := rel_callee?
  oneDeeper := rel_oneDeeper
  readClock := rel_of fun _ good => ends_ok rfl ⟨good.functions, good.methods⟩ ⟨rfl, rfl⟩
  newInstance _ := rel_of fun _ good => ends_ok rfl ⟨good.functions, good.methods⟩ ⟨rfl, rfl⟩
  bindMethod i known := by
    obtain ⟨rfl, placed⟩ := known
    exact rel_bindMethod placed i
  code_decl known := by
    obtain ⟨rfl, -⟩ := known
    exact ⟨rfl, rfl⟩
  method_params known := by
    obtain ⟨rfl, -⟩ := known
    show (FunctionDecl.relabel _ _).params.length = _
    rw [FunctionDecl.relabel_params, List.length_map]
  enterCall arguments known _ := by
    obtain ⟨rfl, outer, fits⟩ := known
    refine ⟨outer, fits, fun c => ?_⟩
    exact rel_enterCall _ arguments
  receiver known _ := by
    obtain ⟨rfl, -⟩ := known
    exact (rel_same fun _ _ => rfl).andThen fun _ _ _ => .pure ⟨rfl, rfl⟩
  enterBlock _ := (rel_same fun _ _ => rfl).andThen fun _ outer _ =>
    (rel_newFrame outer ∅).weaken fun _ _ _ _ _ same => ⟨same.1, same.2.symm⟩
  declareFunction := rel_declareFunction
  declareClass := rel_declareClass
  announce _ := rel_of fun _ good => ends_ok (Context.length_announce ..) good ⟨rfl, rfl⟩
  define value _ := rel_define (by simp) _ value
  print := rel_print
  flush := rel_flush

end Moved

end Treewalk
