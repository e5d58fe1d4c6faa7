import Treewalk.Proofs.Run.Lockstep
import Treewalk.Proofs.Scope.Layout
import Treewalk.Proofs.Scope.Trace

/-!
# The frames of a run mirror the scopes of the text

The machine and the machine with a record run in step, and at every use on record the frames around
it are the activations of the scopes around the use in the text.
-/

namespace Treewalk

open Run

/-- The frames when a run came to a use. -/
def Point.layout (p : Point) : Layout := ⟨p.siteOf, p.machine.store.frames⟩

/-- The use stands in one of the programs, its distance is that of its place there, and the frames
around it are the activations of the scopes around the place. -/
def Point.Placed (p : Point) (programs : List (List Stmt)) : Prop :=
  p.machine.globals = 0 ∧ ∃ program ∈ programs, ∃ role c,
    ⟨.use role p.ref, c⟩ ∈ occurrences program ∧
    Occurrence.Admissible ⟨.use role p.ref, c⟩ ∧ (Mention.use role p.ref).Lexed ∧
    p.machine.distances.get? p.ref.id = c.distance? p.ref.name.lexeme ∧
    p.layout.Chain c p.machine.env

/-- The programs that a session ran, their distances, and what is known of the names of their
functions and classes. -/
structure Texts where
  programs : List (List Stmt)
  table : Distances
  named : String → Prop

/-- The texts of a session of which nothing is asked. -/
def Texts.of (programs : List (List Stmt)) (table : Distances) : Texts :=
  ⟨programs, table, fun _ => True⟩

/-- The occurrence stands in one of the programs. -/
def Texts.Knows (texts : Texts) (o : Occurrence) : Prop := o.Known texts.programs texts.table

namespace Recorder

def layout (r : Recorder) : Layout := ⟨r.siteOf, r.machine.store.frames⟩

variable (texts : Texts)

/-- A function whose frame is the activation of the innermost scope around it. -/
def Callable (l : Layout) (f : Closure) : Prop :=
  ∃ c, l.Chain c f.frame ∧ f.decl.Fits texts.named texts.Knows c

/-- A method, around which a frame for `this` is still to come. -/
def Unbound (l : Layout) (f : Closure) : Prop :=
  ∃ c, l.Chain c f.frame ∧ f.decl.Fits texts.named texts.Knows (c.enterThis f.decl)

/-- Whatever can be called from a store was made where its text stands. -/
structure Heap (l : Layout) (store : Store) : Prop where
  functions : ∀ f ∈ store.functions, Callable texts l f
  methods : ∀ cls ∈ store.classes, ∀ name method, cls.methods.get? name = some method →
    Unbound texts l method

/-- What every run keeps. -/
structure Inv (r : Recorder) : Prop where
  listed : r.programs = texts.programs
  distances : r.machine.distances = texts.table
  globals : r.machine.globals = 0
  placed : r.layout.Placed
  heap : Heap texts r.layout r.machine.store
  points : ∀ p ∈ r.points, p.Placed texts.programs

variable {texts} {l m : Layout} {r : Recorder} {f : Closure} {c : Context}

theorem Callable.mono (h : Callable texts l f) (grown : l.Le m) :
    Callable texts m f := by
  obtain ⟨c, chain, fits⟩ := h
  exact ⟨c, chain.mono grown, fits⟩

theorem Unbound.mono (h : Unbound texts l f) (grown : l.Le m) :
    Unbound texts m f := by
  obtain ⟨c, chain, fits⟩ := h
  exact ⟨c, chain.mono grown, fits⟩

theorem Heap.mono {store : Store} (h : Heap texts l store) (grown : l.Le m) :
    Heap texts m store where
  functions f member := (h.functions f member).mono grown
  methods cls member name method found := (h.methods cls member name method found).mono grown

theorem Heap.method? {store : Store} (h : Heap texts l store) {id : ClassId}
    {name : String} (found : store.method? id name = some f) : Unbound texts l f := by
  unfold Store.method? at found
  generalize store.classes.size = steps at found
  induction steps generalizing id with
  | zero => cases found
  | succ steps ih =>
    rw [Store.searchMethod] at found
    split at found
    · cases found
    · next cls known =>
      have member : cls ∈ store.classes := Array.mem_of_getElem? known
      split at found
      · next method own =>
        cases found
        exact h.methods cls member name f own
      · split at found
        · exact ih found
        · cases found

/-- What is found for a value that is called. -/
theorem Heap.callee? {store : Store} (h : Heap texts l store) {value : Value}
    {found : Store.Callable} (called : store.callable? value = some found) :
    (∀ f, found.callee = .function f → Callable texts l f) ∧
      ∀ id f, found.callee = .cls id (some f) → Unbound texts l f := by
  cases value with
  | clock =>
    obtain rfl : Store.Callable.clock = found := Option.some.inj called
    exact ⟨fun _ same => (by cases same), fun _ _ same => by cases same⟩
  | function id =>
    obtain ⟨f, known, rfl⟩ := Option.map_eq_some_iff.1 called
    refine ⟨fun _ same => ?_, fun _ _ same => by cases same⟩
    cases same
    exact h.functions f (Array.mem_of_getElem? known)
  | cls id =>
    rw [Store.callable?] at called
    split at called
    · obtain rfl := Option.some.inj called
      refine ⟨fun _ same => (by cases same), fun _ f same => ?_⟩
      have initializer : store.method? id initializerName = some f := by injection same
      exact h.method? initializer
    · cases called
  | _ => cases called

/-- The machine goes on in the same frames, with the same things that can be called. -/
structure Calm (m m' : Machine) : Prop where
  frames : m'.store.frames = m.store.frames
  functions : m'.store.functions = m.store.functions
  classes : m'.store.classes = m.store.classes
  env : m'.env = m.env
  distances : m'.distances = m.distances
  globals : m'.globals = m.globals

theorem Calm.refl (m : Machine) : Calm m m := ⟨rfl, rfl, rfl, rfl, rfl, rfl⟩

theorem Calm.layout {m : Machine} (h : Calm r.machine m) :
    ({ r with machine := m } : Recorder).layout = r.layout := by
  unfold Recorder.layout
  rw [h.frames]

theorem Inv.calm {m : Machine} (h : Inv texts r) (calm : Calm r.machine m) :
    Inv texts { r with machine := m } where
  listed := h.listed
  distances := calm.distances.trans h.distances
  globals := calm.globals.trans h.globals
  placed := calm.layout ▸ h.placed
  heap := by
    rw [calm.layout]
    refine ⟨?_, ?_⟩
    · show ∀ f ∈ m.store.functions, _
      rw [calm.functions]
      exact h.heap.functions
    · show ∀ cls ∈ m.store.classes, _
      rw [calm.classes]
      exact h.heap.methods
  points := h.points

theorem Inv.define {f : FrameId} {name : String} (h : Inv texts r) (value : Value)
    (ordinary : Ordinary name) :
    Inv texts
      { r with machine := { r.machine with store := r.machine.store.define f name value } } where
  listed := h.listed
  distances := h.distances
  globals := h.globals
  placed := h.placed.define value
  heap :=
    have later := h.heap.mono (Layout.le_define r.layout f value ordinary)
    ⟨later.functions, later.methods⟩
  points := h.points

/-- The record is right, and its machine is the other one. -/
def InStep (texts : Texts) (l : Layout) (m : Machine)
    (r : Recorder) : Prop :=
  l = r.layout ∧ r.machine = { m with env := r.machine.env } ∧ Inv texts r

theorem setEnv_heap {m : Machine} (e e' : FrameId) (h : InStep texts l m r) :
    InStep texts l { m with env := e }
      { r with machine := { r.machine with env := e' } } := by
  obtain ⟨rfl, same, inv⟩ := h
  refine ⟨rfl, ?_, inv.listed, inv.distances, inv.globals, inv.placed, inv.heap, inv.points⟩
  show { r.machine with env := e' } = { m with env := e' }
  rw [same]

/-- The machine and the machine with a record, in step. -/
@[reducible]
def mirror (texts : Texts) :
    Correspondence Platform.machine Recorder.platform where
  World := Layout
  le := Layout.Le
  le_refl := Layout.Le.refl
  le_trans := Layout.Le.trans
  relabel := .identity
  heap := InStep texts
  scope l c f g := f = g ∧ l.Chain c f
  inside l c f g := f = g ∧ l.Chain c f
  focus l _ := l
  heap_focus h _ := setEnv_heap _ _ h
  enter h := h
  leave _ scope grown h := ⟨grown, ⟨scope.1, scope.2.mono grown⟩, setEnv_heap _ _ h⟩
  code l f g := f = g ∧ Callable texts l f
  code_mono := fun grown h => ⟨h.1, h.2.mono grown⟩
  method l f g := f = g ∧ Unbound texts l f
  method_mono := fun grown h => ⟨h.1, h.2.mono grown⟩
  allowed := texts.Knows
  named := texts.named
  stop e e' := e = e' ∧ e.Resolved
  env_setEnv := Platform.machine_env_setEnv
  env_setEnv' _ _ := rfl

open Correspondence

variable {α β : Type}

theorem machine_eq {m m' : Machine} (same : m' = { m with env := m'.env }) (env : m.env = m'.env) :
    m' = m := by
  rw [same, ← env]

/-- It is enough to look at runs from the same machine. -/
theorem rel_of {A : (mirror texts).Post α β} {p : Run α} {q : Recording β}
    (h : ∀ r, l = r.layout → Inv texts r → l.Chain c r.machine.env →
      (mirror texts).Ends l c A (p r.machine) (q r)) :
    (mirror texts).Rel l c A p q := by
  rintro m r ⟨layout, same, inv⟩ ⟨env, chain⟩
  obtain rfl := machine_eq same env
  exact h r layout inv chain

/-- What ends in the machine of a record ends in step if the record is still right. -/
theorem ends_ok {A : (mirror texts).Post α α} {c' : Context} {a : α} {r' : Recorder}
    (grown : l.Le r'.layout) (size : c'.length = c.length) (inv : Inv texts r')
    (chain : r'.layout.Chain c' r'.machine.env) (post : A r'.layout c' a a) :
    (mirror texts).Ends l c A (.ok a r'.machine) (.ok a r') :=
  ⟨r'.layout, c', grown, size, post, ⟨rfl, rfl, inv⟩, rfl, chain⟩

theorem rel_visit {A : (mirror texts).Post α β} {p : Run α} {q : Recording β}
    {role : Role} {ref : Variable} (known : texts.Knows ⟨.use role ref, c⟩)
    (h : (mirror texts).Rel l c A p q) :
    (mirror texts).Rel l c A p (visit ref >>= fun _ => q) := by
  refine rel_of ?_
  rintro r rfl inv chain
  obtain ⟨program, member, occurs⟩ := known.member
  have placed : Point.Placed ⟨ref, r.machine, r.siteOf⟩ texts.programs :=
    ⟨inv.globals, program, member, role, c, occurs, known.admissible, known.lexed,
      inv.distances ▸ known.distance role ref rfl, chain⟩
  exact h r.machine _ ⟨rfl, rfl, inv.listed, inv.distances, inv.globals,
    inv.placed, inv.heap, List.forall_mem_cons.2 ⟨placed, inv.points⟩⟩ ⟨rfl, chain⟩

/-- A run that leaves the frames alone, with what it yields. -/
theorem rel_calm {A : Layout → α → Prop} {p : Run α}
    (h : ∀ r, Inv texts r → r.layout.Chain c r.machine.env →
      match p r.machine with
      | .ok a m => Calm r.machine m ∧ A r.layout a
      | .error e m => Calm r.machine m ∧ e.Resolved) :
    (mirror texts).Rel l c (fun v c' a b => c' = c ∧ a = b ∧ A v a) p (lift p) := by
  refine rel_of ?_
  rintro r rfl inv chain
  have run := h r inv chain
  unfold lift
  match p r.machine, run with
  | .ok a m, ⟨calm, ha⟩ =>
    refine ⟨r.layout, c, Layout.Le.refl _, rfl, ⟨rfl, rfl, ha⟩,
      ⟨calm.layout.symm, rfl, inv.calm calm⟩, rfl, ?_⟩
    show r.layout.Chain c m.env
    rw [calm.env]
    exact chain
  | .error e m, ⟨calm, resolved⟩ =>
    refine ⟨⟨rfl, resolved⟩, r.layout, c, Layout.Le.refl _, rfl,
      ⟨calm.layout.symm, rfl, inv.calm calm⟩, rfl, ?_⟩
    show r.layout.Chain c m.env
    rw [calm.env]
    exact chain

/-- `rel_calm` where nothing needs to be known of the value. -/
theorem rel_calm' {p : Run α}
    (h : ∀ m, match p m with
      | .ok _ m' => Calm m m'
      | .error e m' => Calm m m' ∧ e.Resolved) :
    (mirror texts).Rel l c ((mirror texts).Gives c) p (lift p) := by
  refine (rel_calm (A := fun _ _ => True) fun r _ _ => ?_).weaken fun _ _ _ _ _ ha => ⟨ha.1, ha.2.1⟩
  have run := h r.machine
  match p r.machine, run with
  | .ok a m, calm => exact ⟨calm, trivial⟩
  | .error e m, both => exact both

theorem rel_gets {f : Machine → α} {A : Layout → α → Prop}
    (h : ∀ r, Inv texts r → r.layout.Chain c r.machine.env → A r.layout (f r.machine)) :
    (mirror texts).Rel l c (fun v c' a b => c' = c ∧ a = b ∧ A v a) (gets f)
      (lift (gets f)) :=
  rel_calm fun r inv chain => ⟨.refl _, h r inv chain⟩

theorem resolved_fault {cause : RuntimeError.Cause} {line : Nat} (h : ¬ cause.Unresolved) :
    (Stop.fault ⟨cause, line⟩).Resolved := by
  intro cause' line' same
  cases same
  exact h

theorem rel_fault {A : (mirror texts).Post α α} {place : Token}
    {cause : RuntimeError.Cause} (h : ¬ cause.Unresolved) :
    (mirror texts).Rel l c A (fault place cause) (lift (fault place cause)) :=
  rel_of fun _ layout inv chain =>
    ⟨⟨rfl, resolved_fault h⟩, l, c, Layout.Le.refl _, rfl, ⟨layout, rfl, inv⟩, rfl, chain⟩

/-- The name of a mention that declares is an ordinary one. -/
theorem ordinary_of_known {name : Token}
    (known : texts.Knows ⟨.declare name, c⟩) : Ordinary name.lexeme :=
  known.lexed

theorem rel_defineIn {f : FrameId} {name : String} (value : Value) (ordinary : Ordinary name) :
    (mirror texts).Rel l c ((mirror texts).Gives c) (defineIn f name value)
      (lift (defineIn f name value)) := by
  refine rel_of ?_
  rintro r rfl inv chain
  have grown := Layout.le_define r.layout f value ordinary
  exact ends_ok grown rfl (inv.define value ordinary) (chain.mono grown) ⟨rfl, rfl⟩

/-- A name is declared in the current frame. -/
theorem rel_define {name : String} (value : Value) (ordinary : Ordinary name) :
    (mirror texts).Rel l c ((mirror texts).Gives (c.declare name))
      (define name value) (lift (define name value)) := by
  refine rel_of ?_
  rintro r rfl inv chain
  exact ends_ok (Layout.le_define r.layout _ value ordinary) (Context.length_declare c name)
    (inv.define value ordinary) (chain.define value ordinary) ⟨rfl, rfl⟩

/-- A frame is made for a scope inside those that its parent is in. -/
theorem rel_openFrame {outer : Context} {parent : FrameId} {values : Bindings Value}
    (s : LexicalScope) (chain : l.Chain outer parent) (settled : s.pending = none)
    (names : ∀ x ∈ s.names, ∃ value, values.get? x = some value ∧ Proper x value) :
    (mirror texts).Rel l c
      ((mirror texts).Keeps c fun v f g => f = g ∧ v.Chain (s :: outer) f)
      (newFrame parent values) (openFrame s.site parent values) := by
  refine rel_of ?_
  rintro r rfl inv here
  have later := Layout.le_push inv.placed s.site values parent
  have heap := inv.heap.mono later
  have inv' : Inv texts
      { r with
        machine := { r.machine with store := r.machine.store.pushFrame values (some parent) }
        siteOf := (r.layout.push s.site values parent).siteOf } :=
    ⟨inv.listed, inv.distances, inv.globals, inv.placed.push s.site values parent,
      ⟨heap.functions, heap.methods⟩, inv.points⟩
  exact ends_ok later rfl inv' (here.mono later)
    ⟨rfl, rfl, Layout.Chain.push inv.placed chain values names settled⟩

theorem rel_newFunction (h : Callable texts l f) :
    (mirror texts).Rel l c ((mirror texts).Gives c) (newFunction f)
      (lift (newFunction f)) := by
  refine rel_of ?_
  rintro r rfl inv chain
  have inv' : Inv texts
      { r with machine := { r.machine with store := r.machine.store.pushFunction f } } := by
    refine ⟨inv.listed, inv.distances, inv.globals, inv.placed, ⟨fun g member => ?_,
      inv.heap.methods⟩, inv.points⟩
    rcases Array.mem_push.1 member with member | rfl
    · exact inv.heap.functions g member
    · exact h
  exact ends_ok (Layout.Le.refl _) rfl inv' chain ⟨rfl, rfl⟩

theorem rel_newClass {cls : Class}
    (h : ∀ name method, cls.methods.get? name = some method → Unbound texts l method) :
    (mirror texts).Rel l c ((mirror texts).Gives c) (newClass cls)
      (lift (newClass cls)) := by
  refine rel_of ?_
  rintro r rfl inv chain
  have inv' : Inv texts
      { r with machine := { r.machine with store := r.machine.store.pushClass cls } } := by
    refine ⟨inv.listed, inv.distances, inv.globals, inv.placed, ⟨inv.heap.functions,
      fun cls' member name method found => ?_⟩, inv.points⟩
    rcases Array.mem_push.1 member with member | rfl
    · exact inv.heap.methods cls' member name method found
    · exact h name method found
  exact ends_ok (Layout.Le.refl _) rfl inv' chain ⟨rfl, rfl⟩

/-- A bound method is called inside a frame for its `this`. -/
theorem rel_bindMethod (i : InstanceId) (h : Unbound texts l f) :
    (mirror texts).Rel l c
      ((mirror texts).Keeps c fun v a b =>
        (a = b ∧ Callable texts v a) ∧ a.decl = f.decl)
      (Run.bindMethod f i) (bindMethod f i) := by
  obtain ⟨outer, chain, fits⟩ := h
  have names : ∀ x ∈ [thisName],
      ∃ value, ((∅ : Bindings Value).put thisName (.object i)).get? x = some value ∧
        Proper x value := by
    intro x member
    rw [List.mem_singleton.1 member]
    exact ⟨.object i, by simp [Bindings.get?_put], fun _ => ⟨i, rfl⟩,
      fun same => by simp [thisName, superName] at same⟩
  refine (rel_openFrame ⟨.this f.decl, [thisName], none⟩ chain rfl names).bind ?_
  rintro v _ frame _ later ⟨rfl, rfl, opened⟩
  exact .pure ⟨rfl, ⟨rfl, _, opened, fits⟩, rfl⟩

/-- A method that is read off an instance is a new function. -/
theorem rel_boundMethod (i : InstanceId) (h : Unbound texts l f) :
    (mirror texts).Rel l c ((mirror texts).Gives c)
      (do newFunction (← Run.bindMethod f i))
      (do
        let bound ← bindMethod f i
        lift (newFunction bound)) := by
  refine (rel_bindMethod i h).bind ?_
  rintro v _ bound _ later ⟨rfl, ⟨rfl, callable⟩, -⟩
  exact rel_newFunction callable

theorem rel_method? (id : ClassId) (name : String) :
    (mirror texts).Rel l c
      (fun v c' a b => c' = c ∧ a = b ∧ ∀ method, a = some method →
        Unbound texts v method)
      (gets (·.store.method? id name)) (lift (gets (·.store.method? id name))) :=
  rel_gets (A := fun v a => ∀ method, a = some method → Unbound texts v method)
    fun _ inv _ _ found => inv.heap.method? found

theorem rel_readProperty (i : InstanceId) (name : Token) :
    (mirror texts).Rel l c ((mirror texts).Gives c) (Run.readProperty i name)
      (readProperty i name) := by
  refine (rel_gets (A := fun _ _ => True) fun _ _ _ => trivial).bind ?_
  rintro v _ found _ later ⟨rfl, rfl, -⟩
  split
  · exact .pure ⟨rfl, rfl⟩
  · refine (rel_method? _ _).bind ?_
    rintro v' _ method _ later' ⟨rfl, rfl, unbound⟩
    cases method with
    | some method => exact rel_boundMethod i (unbound method rfl)
    | none => exact rel_fault id
  · exact rel_fault id

theorem lift_bind (p : Run α) (next : α → Run β) :
    lift (p >>= next) = lift p >>= fun a => lift (next a) := by
  funext r
  show (match EStateM.bind p next r.machine with | .ok _ _ => _ | .error _ _ => _) =
    EStateM.bind (lift p) _ r
  unfold EStateM.bind lift
  cases p r.machine <;> rfl

theorem readVariable_cases (id : NodeId) (name : Token) (m : Machine) :
    (∃ value, readVariable id name m = .ok value m) ∨
      readVariable id name m = .error (.fault ⟨.undefinedVariable name.lexeme, name.line⟩) m := by
  unfold readVariable
  dsimp only
  split
  · exact .inl ⟨_, rfl⟩
  · exact .inr rfl

theorem rel_readVariable (id : NodeId) (name : Token) :
    (mirror texts).Rel l c ((mirror texts).Gives c) (readVariable id name)
      (lift (readVariable id name)) := by
  refine rel_calm' fun m => ?_
  rcases readVariable_cases id name m with ⟨value, read⟩ | read <;> rw [read]
  · exact .refl m
  · exact ⟨.refl m, resolved_fault not_false⟩

theorem rel_assignVariable (id : NodeId) (name : Token) (value : Value)
    (ordinary : Ordinary name.lexeme) :
    (mirror texts).Rel l c ((mirror texts).Gives c)
      (assignVariable id name value) (lift (assignVariable id name value)) := by
  unfold assignVariable
  rw [lift_bind]
  refine (rel_gets (A := fun _ _ => True) fun _ _ _ => trivial).bind ?_
  rintro v _ found _ later ⟨rfl, rfl, -⟩
  cases found with
  | some f => exact rel_defineIn value ordinary
  | none => exact rel_fault not_false

theorem rel_assignName (name : Token) (value : Value) (ordinary : Ordinary name.lexeme) :
    (mirror texts).Rel l c ((mirror texts).Gives c) (assignName name value)
      (lift (assignName name value)) := by
  unfold assignName
  rw [lift_bind]
  refine (rel_gets (A := fun _ _ => True) fun _ _ _ => trivial).bind ?_
  rintro v _ found _ later ⟨rfl, rfl, -⟩
  cases found with
  | some f => exact rel_defineIn value ordinary
  | none => exact rel_fault id

/-- Where a program names `super`, the frame for `super` binds a class and the one inside it binds
`this` to an instance. -/
theorem rel_readSuper {id : NodeId} {keyword : Token} (method : Token)
    (known : texts.Knows ⟨.use .super ⟨id, keyword⟩, c⟩) :
    (mirror texts).Rel l c ((mirror texts).Gives c)
      (Run.readSuper id keyword method) (readSuper id keyword method) := by
  obtain ⟨d, this, super⟩ := known.admissible
  have lexeme : keyword.lexeme = superName := known.lexed
  have distance : texts.table.get? id = some (d + 1) := by
    rw [known.distance .super ⟨id, keyword⟩ rfl, lexeme, super]
  refine rel_visit known ?_
  refine (rel_gets (A := fun _ found => found = some (d + 1)) fun r inv _ => ?_).bind ?_
  · show r.machine.distances.get? id = _
    rw [inv.distances, distance]
  rintro v _ _ _ later ⟨rfl, rfl, rfl⟩
  refine (rel_gets (A := fun _ found => ∃ cls, found = some (.cls cls)) fun r inv chain => ?_).bind
    ?_
  · obtain ⟨value, bound, proper⟩ :=
      chain.getAt? super (chain.pending_ne fun ordinary => ordinary.2 rfl)
    obtain ⟨cls, rfl⟩ := proper.2 rfl
    exact ⟨cls, bound⟩
  rintro v' _ _ _ later' ⟨rfl, rfl, cls, rfl⟩
  refine (rel_gets (A := fun _ found => ∃ i, found = some (.object i)) fun r inv chain => ?_).bind
    ?_
  · obtain ⟨value, bound, proper⟩ :=
      chain.getAt? this (chain.pending_ne fun ordinary => ordinary.1 rfl)
    obtain ⟨i, rfl⟩ := proper.1 rfl
    exact ⟨i, (if_neg (Nat.succ_ne_zero d)).trans bound⟩
  rintro v'' _ _ _ later'' ⟨rfl, rfl, i, rfl⟩
  refine (rel_method? _ _).bind ?_
  rintro u _ found _ grown ⟨rfl, rfl, unbound⟩
  cases found with
  | some found => exact rel_boundMethod i (unbound found rfl)
  | none => exact rel_fault not_false

/-- A function is made where it is declared, and may be called from then on. -/
theorem rel_declareFunction {decl : FunctionDecl}
    (fits : (mirror texts).Fits c (.function decl)) :
    (mirror texts).Rel l c ((mirror texts).Gives (c.declare decl.name.lexeme))
      (Platform.machine.declareFunction decl) (Recorder.platform.declareFunction decl) := by
  refine rel_of ?_
  rintro r rfl inv chain
  obtain ⟨tidy, known⟩ := fits
  rw [Stmt.occurrences, List.forall_mem_cons] at known
  have ordinary := ordinary_of_known known.1
  have later := Layout.le_define r.layout r.machine.env (.function r.machine.store.functions.size)
    ordinary
  have inside := chain.define (.function r.machine.store.functions.size) ordinary
  have heap := inv.heap.mono later
  have inv' : Inv texts
      { r with machine := { r.machine with
          store := (r.machine.store.pushFunction ⟨decl, r.machine.env, false⟩).define r.machine.env
            decl.name.lexeme (.function r.machine.store.functions.size) } } := by
    refine ⟨inv.listed, inv.distances, inv.globals, inv.placed.define _, ⟨fun g member => ?_,
      heap.methods⟩, inv.points⟩
    rcases Array.mem_push.1 member with member | rfl
    · exact heap.functions g member
    · exact ⟨_, inside, tidy.2, known.2⟩
  exact ends_ok later (Context.length_declare c _) inv' inside ⟨rfl, rfl⟩

/-- The methods of a class, which close over the frame that was made for them. -/
theorem unbound_methods {name : Token} {superclass : Option Variable} {methods : List FunctionDecl}
    {frame : FrameId} {decl : FunctionDecl}
    (fits : (mirror texts).Fits c (.classDecl name superclass methods))
    (chain : l.Chain ((c.declare name.lexeme).enterClass name superclass methods) frame)
    (member : decl ∈ methods) :
    Unbound texts l ⟨decl, frame, decl.isInitializer⟩ := by
  obtain ⟨tidy, known⟩ := fits
  rw [Stmt.Tidy] at tidy
  simp only [Stmt.occurrences, List.forall_mem_cons, List.forall_mem_append] at known
  exact ⟨_, chain, FunctionDecl.tidy_of_mem member tidy.2,
    fun o occurs => known.2.2 o (FunctionDecl.mem_allOccurrences member occurs)⟩

theorem rel_readSuperclass (ref : Variable) :
    (mirror texts).Rel l c ((mirror texts).Gives c) (readSuperclass ref)
      (lift (readSuperclass ref)) := by
  unfold readSuperclass
  rw [lift_bind]
  refine (rel_readVariable ref.id ref.name).andThen fun v value _ => ?_
  cases value with
  | cls id => exact .pure ⟨rfl, rfl⟩
  | _ => exact rel_fault not_false

/-- The frame that a run is in. -/
theorem rel_env :
    (mirror texts).Rel l c (fun v c' a b => c' = c ∧ a = b ∧ v.Chain c a) (gets (·.env))
      (lift (gets (·.env))) :=
  rel_gets (A := fun v a => v.Chain c a) fun _ _ chain => chain

/-- A class is made once the frame for its methods is there. -/
theorem rel_makeClass {name : Token} {superclass : Option Variable} {methods : List FunctionDecl}
    {above : Option ClassId} {frame : FrameId} {here : Context}
    (fits : (mirror texts).Fits c (.classDecl name superclass methods))
    (chain : l.Chain ((c.declare name.lexeme).enterClass name superclass methods) frame)
    (closures : List (String × Closure))
    (made : closures = methods.map fun decl =>
      (decl.name.lexeme, Closure.mk decl frame decl.isInitializer)) :
    (mirror texts).Rel l here ((mirror texts).Gives here)
      (do assignName name (← newClass ⟨name.lexeme, above, Bindings.ofList closures⟩))
      (do
        let cls ← lift (newClass ⟨name.lexeme, above, Bindings.ofList closures⟩)
        lift (assignName name cls)) := by
  have ordinary : Ordinary name.lexeme :=
    ordinary_of_known (fits.2 ⟨.declare name, c⟩ (by rw [Stmt.occurrences]; exact .head _))
  have unbound : ∀ x method, (Bindings.ofList closures).get? x = some method →
      Unbound texts l method := fun x method found => by
    have member := Bindings.mem_of_get?_ofList found
    rw [made] at member
    obtain ⟨decl, listed, same⟩ := List.mem_map.1 member
    cases same
    exact unbound_methods fits chain listed
  exact (rel_newClass unbound).andThen fun v cls _ => rel_assignName name cls ordinary

theorem rel_declareClass {name : Token} {superclass : Option Variable}
    {methods : List FunctionDecl}
    (fits : (mirror texts).Fits c (.classDecl name superclass methods)) :
    (mirror texts).Rel l c ((mirror texts).Gives (c.declare name.lexeme))
      (Run.declareClass name superclass methods) (declareClass name superclass methods) := by
  have known := fits.2
  simp only [Stmt.occurrences, List.forall_mem_cons, List.forall_mem_append] at known
  unfold Run.declareClass declareClass
  refine (rel_define .nil (ordinary_of_known known.1)).andThen fun v _ later => ?_
  cases superclass with
  | none =>
    simp only [pure_bind]
    refine rel_env.bind ?_
    rintro v' _ outer _ later' ⟨rfl, rfl, chain⟩
    exact rel_makeClass fits chain _ rfl
  | some ref =>
    simp only [pure_bind, bind_map_left]
    have use := known.2.1 ⟨.use .read ref, c.declare name.lexeme⟩ (.head _)
    refine rel_visit use ?_
    refine (rel_readSuperclass ref).andThen fun v' cls later' => ?_
    refine rel_env.bind ?_
    rintro u _ outer _ grown ⟨rfl, rfl, chain⟩
    have names : ∀ x ∈ [superName],
        ∃ value, ((∅ : Bindings Value).put superName (.cls cls)).get? x = some value ∧
          Proper x value := by
      intro x member
      rw [List.mem_singleton.1 member]
      exact ⟨.cls cls, by simp [Bindings.get?_put],
        fun same => by simp [thisName, superName] at same, fun _ => ⟨cls, rfl⟩⟩
    refine (rel_openFrame ⟨.super name ref methods, [superName], none⟩ chain rfl names).bind ?_
    rintro u' _ frame _ grown' ⟨rfl, rfl, inside⟩
    exact rel_makeClass fits inside _ rfl

/-- Every parameter is declared once a call begins. -/
theorem mem_parameterOccurrences {c : Context} {params : List Token} {param : Token}
    (member : param ∈ params) : ∃ c', ⟨.declare param, c'⟩ ∈ parameterOccurrences c params := by
  induction params generalizing c with
  | nil => cases member
  | cons first rest ih =>
    rcases List.mem_cons.1 member with rfl | member
    · exact ⟨c, .head _⟩
    · obtain ⟨c', occurs⟩ := ih (c := c.declare first.lexeme) member
      exact ⟨c', .tail _ occurs⟩

theorem declareAll_cons (site : Site) (names : List String) (outer : Context)
    (params : List Token) :
    Context.declareAll (⟨site, names, none⟩ :: outer) params =
      ⟨site, (params.map (·.lexeme)).reverse ++ names, none⟩ :: outer := by
  induction params generalizing names with
  | nil => rfl
  | cons param rest ih =>
    rw [List.map_cons, List.reverse_cons, List.append_assoc]
    exact ih (param.lexeme :: names)

/-- No parameter comes twice, or is declared before. -/
theorem parameters_distinct {site : Site} {names : List String} {outer : Context}
    {params : List Token}
    (h : ∀ o ∈ parameterOccurrences (⟨site, names, none⟩ :: outer) params, o.Admissible) :
    (params.map (·.lexeme)).Nodup ∧ ∀ param ∈ params, param.lexeme ∉ names := by
  induction params generalizing names with
  | nil => exact ⟨.nil, List.forall_mem_nil _⟩
  | cons param rest ih =>
    rw [parameterOccurrences, List.forall_mem_cons] at h
    obtain ⟨distinct, apart⟩ := ih h.2
    have new : param.lexeme ∉ names := fun old => (h.1 _ rfl).2 (.inl old)
    refine ⟨List.nodup_cons.2 ⟨fun again => ?_, distinct⟩, List.forall_mem_cons.2 ⟨new, ?_⟩⟩
    · obtain ⟨other, member, same⟩ := List.mem_map.1 again
      exact apart other member (same ▸ .head _)
    · exact fun other member old => apart other member (.tail _ old)

/-- A call binds every parameter in its frame. -/
theorem rel_enterCall {f : Closure} {outer : Context} (chain : l.Chain outer f.frame)
    (fits : f.decl.Fits texts.named texts.Knows outer) (arguments : List Value)
    (size : arguments.length = f.decl.params.length) :
    (mirror texts).Rel l c
      ((mirror texts).Keeps c fun v f' g => f' = g ∧
        v.Chain ((outer.enter (.function f.decl)).declareAll f.decl.params) f')
      (newFrame f.frame (f.decl.bindArguments arguments))
      (openFrame (.function f.decl) f.frame (f.decl.bindArguments arguments)) := by
  have scopes : (outer.enter (.function f.decl)).declareAll f.decl.params =
      ⟨.function f.decl, (f.decl.params.map (·.lexeme)).reverse ++ [], none⟩ :: outer :=
    declareAll_cons ..
  rw [scopes]
  refine rel_openFrame ⟨.function f.decl, _, none⟩ chain rfl fun x member => ?_
  rw [List.append_nil, List.mem_reverse] at member
  have bound : ((f.decl.bindArguments arguments).get? x).isSome = true := by
    rw [FunctionDecl.bindArguments, Bindings.get?_ofList_isSome, List.map_fst_zip]
    · exact member
    · exact Nat.le_of_eq (by rw [List.length_map, size])
  obtain ⟨param, listed, rfl⟩ := List.mem_map.1 member
  obtain ⟨value, found⟩ := Option.isSome_iff_exists.1 bound
  obtain ⟨c', occurs⟩ := mem_parameterOccurrences (c := outer.enter (.function f.decl)) listed
  have known := fits.2 _ (by
    rw [FunctionDecl.occurrences_eq]
    exact List.mem_append_left _ occurs)
  exact ⟨value, found, (ordinary_of_known known).proper value⟩

theorem rel_callee? (value : Value) :
    (mirror texts).Rel l c
      ((mirror texts).Keeps c fun v => Correspondence.Callees v)
      (Platform.machine.callee? value) (Recorder.platform.callee? value) := by
  refine (rel_gets (A := fun v found =>
    (∀ f, found = some (.function f) → Callable texts v f) ∧
      ∀ id f, found = some (.cls id (some f)) → Unbound texts v f)
    fun r inv _ => ?_).weaken ?_
  · refine ⟨fun f same => ?_, fun id f same => ?_⟩
    · obtain ⟨found, called, kind⟩ := Option.map_eq_some_iff.1 same
      exact (inv.heap.callee? called).1 f kind
    · obtain ⟨found, called, kind⟩ := Option.map_eq_some_iff.1 same
      exact (inv.heap.callee? called).2 id f kind
  · rintro v _ found _ _ ⟨rfl, rfl, functions, methods⟩
    refine ⟨rfl, ?_⟩
    match found with
    | none => exact .none
    | some .clock => exact .clock
    | some (.function f) => exact .function ⟨rfl, functions f rfl⟩
    | some (.cls id none) => exact .cls
    | some (.cls id (some f)) => exact .initialized ⟨rfl, methods id f rfl⟩

theorem rel_oneDeeper {p : Run α} {q : Recording α} (paren : Token)
    (h : (mirror texts).Rel l c ((mirror texts).Gives c) p q) :
    (mirror texts).Rel l c ((mirror texts).Gives c) (Run.oneDeeper paren p)
      (oneDeeper paren q) := by
  refine rel_of ?_
  rintro r rfl inv chain
  unfold Run.oneDeeper oneDeeper
  split
  · exact ⟨⟨rfl, resolved_fault not_false⟩, r.layout, c, Layout.Le.refl _, rfl,
      ⟨rfl, rfl, inv⟩, rfl, chain⟩
  · have deeper := inv.calm (m := { r.machine with depth := r.machine.depth + 1 })
      ⟨rfl, rfl, rfl, rfl, rfl, rfl⟩
    have ends := h { r.machine with depth := r.machine.depth + 1 }
      { r with machine := { r.machine with depth := r.machine.depth + 1 } }
      ⟨rfl, rfl, deeper⟩ ⟨rfl, chain⟩
    match p { r.machine with depth := r.machine.depth + 1 },
      q { r with machine := { r.machine with depth := r.machine.depth + 1 } }, ends with
    | .ok _ m, .ok _ r', ⟨_, c', later, size, post, ⟨rfl, same, inv'⟩, env, chain'⟩ =>
      obtain rfl := machine_eq same env
      exact ⟨r'.layout, c', later, size, post,
        ⟨rfl, rfl, inv'.calm ⟨rfl, rfl, rfl, rfl, rfl, rfl⟩⟩, rfl, chain'⟩
    | .error _ m, .error _ r', ⟨stops, _, c', later, size, ⟨rfl, same, inv'⟩, env, chain'⟩ =>
      obtain rfl := machine_eq same env
      exact ⟨stops, r'.layout, c', later, size,
        ⟨rfl, rfl, inv'.calm ⟨rfl, rfl, rfl, rfl, rfl, rfl⟩⟩, rfl, chain'⟩

theorem rel_print (value : Value) :
    (mirror texts).Rel l c ((mirror texts).Gives c) (Run.print value)
      (lift (Run.print value)) := by
  have write : ∀ {l c} piece, (mirror texts).Rel l c ((mirror texts).Gives c)
      (Run.write piece) (lift (Run.write piece)) := fun piece => rel_calm' fun m => by
    unfold Run.write
    cases m.sink.refusal m.sink.written piece with
    | none => exact ⟨rfl, rfl, rfl, rfl, rfl, rfl⟩
    | some r => exact ⟨⟨rfl, rfl, rfl, rfl, rfl, rfl⟩, nofun⟩
  unfold Run.print
  rw [lift_bind]
  refine (rel_gets (A := fun _ _ => True) fun _ _ _ => trivial).bind ?_
  rintro v _ text _ _ ⟨rfl, rfl, -⟩
  rw [lift_bind]
  exact (write text).andThen fun _ _ _ => write "\n"

theorem rel_flush :
    (mirror texts).Rel l c ((mirror texts).Gives c) Run.flush
      (lift Run.flush) := by
  refine rel_calm' fun m => ?_
  unfold Run.flush
  cases m.sink.flushRefusal with
  | none => exact .refl m
  | some message => exact ⟨.refl m, nofun⟩

/-- The machine and its record stay in step. -/
theorem simulation (texts : Texts) :
    Simulation (mirror texts) where
  exhausted := ⟨rfl, nofun⟩
  exhausted_iff h := by rw [h.1]
  fault line h := ⟨rfl, resolved_fault h⟩
  read known := rel_visit known (rel_readVariable _ _)
  readThis known := rel_visit known (rel_readVariable _ _)
  assign value known := rel_visit known (rel_assignVariable _ _ value known.lexed)
  readSuper method known := rel_readSuper method known
  readProperty i name := rel_readProperty i name
  setField i name value := rel_calm' fun m => ⟨rfl, rfl, rfl, rfl, rfl, rfl⟩
  callee? := rel_callee?
  oneDeeper := rel_oneDeeper
  readClock := rel_calm' fun m => ⟨rfl, rfl, rfl, rfl, rfl, rfl⟩
  newInstance _ := rel_calm' fun m => ⟨rfl, rfl, rfl, rfl, rfl, rfl⟩
  bindMethod i h := by
    obtain ⟨rfl, unbound⟩ := h
    exact rel_bindMethod i unbound
  code_decl h := by
    obtain ⟨rfl, -⟩ := h
    exact ⟨(FunctionDecl.relabel_identity _).symm, rfl⟩
  method_params h := by
    obtain ⟨rfl, -⟩ := h
    rfl
  enterCall arguments h size := by
    obtain ⟨rfl, outer, chain, fits⟩ := h
    exact ⟨outer, fits, fun c => rel_enterCall chain fits arguments size⟩
  receiver h _ := by
    obtain ⟨rfl, -⟩ := h
    exact rel_calm' fun m => .refl m
  enterBlock body := by
    rw [← Stmt.relabelAll_eq_map, Stmt.relabelAll_identity]
    refine rel_env.bind ?_
    rintro v _ outer _ later ⟨rfl, rfl, chain⟩
    exact rel_openFrame ⟨.block body, [], none⟩ chain rfl (List.forall_mem_nil _)
  declareFunction fits := by
    rw [FunctionDecl.relabel_identity]
    exact rel_declareFunction fits
  declareClass fits := by
    rw [List.map_congr_left (fun decl _ => FunctionDecl.relabel_identity decl), List.map_id',
      Option.map_congr (fun ref _ => Variable.relabel_identity ref), Option.map_id']
    exact rel_declareClass fits
  announce known := by
    refine rel_of ?_
    rintro r rfl inv chain
    exact ends_ok (Layout.Le.refl _) (Context.length_announce _ _) inv
      (chain.announce (ordinary_of_known known)) ⟨rfl, rfl⟩
  define value known := by
    rw [← Context.declare_announce _ _ _]
    exact rel_define value (ordinary_of_known known)
  print := rel_print
  flush := rel_flush

end Recorder

end Treewalk
