import Treewalk.Proofs.Objects.Attended
import Treewalk.Proofs.Run.Carrier

/-!
# The machine and its chronicle in step

The machine and the machine with a chronicle run in step, and at every moment on record the frames
around the place attend the receiver that is fixed there.
-/

namespace Treewalk

open Run

variable {texts : Texts} {w : Frames} {c : Context}

namespace Chronicle

/-- The chronicle is right, and its machine is the other one. -/
structure InStep (texts : Texts) (w : Frames) (m : Machine) (k : Chronicle) : Prop where
  world : w = k.now.machine.store.frames
  same : k.now.machine = { m with env := k.now.machine.env }
  now : k.now.Attended texts
  moments : ∀ p ∈ k.moments, p.Placed

theorem InStep.setEnv {m : Machine} {k : Chronicle} (h : InStep texts w m k) (f : FrameId)
    (e : FrameId × Option Receiver) :
    InStep texts w { m with env := f } (Chronicle.platform.setEnv e k) where
  world := h.world
  same := by
    show { k.now.machine with env := e.1 } = { m with env := e.1 }
    rw [h.same]
  now := h.now.goes ⟨.refl _, rfl, rfl, rfl, rfl, rfl⟩
  moments := h.moments

/-- The machine and the machine with a chronicle, in step. -/
@[reducible]
def chronicled (texts : Texts) : Correspondence Platform.machine Chronicle.platform where
  World := Frames
  le := Frames.Steady
  le_refl := .refl
  le_trans := .trans
  relabel := .identity
  heap := InStep texts
  scope w c f e := f = e.1 ∧ w.Attends c e.1 e.2
  inside w c f e := f = e.1 ∧ w.Attends c e.1 e.2
  focus w _ := w
  heap_focus h _ := h.setEnv _ _
  enter h := h
  leave _ scope grown h := ⟨grown, ⟨scope.1, scope.2.mono grown⟩, h.setEnv _ _⟩
  code w f g := f = g.closure ∧ g.closure.Attended texts w g.receiver
  code_mono := fun grown h => ⟨h.1, h.2.mono grown⟩
  method w f g := f = g.closure ∧ g.Unbound texts w
  method_mono := fun grown h => ⟨h.1, h.2.mono grown⟩
  allowed := texts.Knows
  named := texts.named
  stop e e' := e = e' ∧ e.Resolved
  env_setEnv := Platform.machine_env_setEnv
  env_setEnv' _ _ := rfl

open Correspondence

variable {α β : Type}

/-- It is enough to look at runs from the same machine. -/
theorem rel_of {A : (chronicled texts).Post α β} {p : Run α} {q : Chronicling β}
    (h : ∀ k, w = k.now.machine.store.frames → k.now.Attended texts →
      (∀ p ∈ k.moments, p.Placed) → w.Attends c k.now.machine.env k.now.receiver →
      (chronicled texts).Ends w c A (p k.now.machine) (q k)) :
    (chronicled texts).Rel w c A p q := by
  rintro m k ⟨world, same, now, moments⟩ ⟨env, attends⟩
  obtain rfl := Recorder.machine_eq same env
  exact h k world now moments attends

/-- What ends in the machine of a chronicle ends in step if the chronicle is still right. -/
theorem ends_ok {A : (chronicled texts).Post α β} {c' : Context} {a : α} {b : β} {m : Machine}
    {k : Chronicle} (same : m = k.now.machine)
    (grown : w.Steady k.now.machine.store.frames) (size : c'.length = c.length)
    (now : k.now.Attended texts) (moments : ∀ p ∈ k.moments, p.Placed)
    (attends : k.now.machine.store.frames.Attends c' k.now.machine.env k.now.receiver)
    (post : A k.now.machine.store.frames c' a b) :
    (chronicled texts).Ends w c A (.ok a m) (.ok b k) := by
  subst same
  exact ⟨k.now.machine.store.frames, c', grown, size, post, ⟨rfl, rfl, now, moments⟩, rfl, attends⟩

theorem ends_error {A : (chronicled texts).Post α β} {e : Stop} {m : Machine} {k : Chronicle}
    (same : m = k.now.machine) (grown : w.Steady k.now.machine.store.frames) (resolved : e.Resolved)
    (now : k.now.Attended texts) (moments : ∀ p ∈ k.moments, p.Placed)
    (attends : k.now.machine.store.frames.Attends c k.now.machine.env k.now.receiver) :
    (chronicled texts).Ends w c A (.error e m) (.error e k) := by
  subst same
  exact ⟨⟨rfl, resolved⟩, k.now.machine.store.frames, c, grown, rfl, ⟨rfl, rfl, now, moments⟩, rfl,
    attends⟩

theorem rel_moment {A : (chronicled texts).Post α β} {p : Run α} {q : Chronicling β}
    (doing : Doing) (known : doing.Known texts c) (h : (chronicled texts).Rel w c A p q) :
    (chronicled texts).Rel w c A p (moment doing q) := by
  refine rel_of ?_
  rintro k rfl now moments attends
  have placed : Moment.Placed ⟨doing, k.now⟩ := ⟨texts, c, now, known, attends⟩
  exact h k.now.machine _ ⟨rfl, rfl, now, List.forall_mem_cons.2 ⟨placed, moments⟩⟩ ⟨rfl, attends⟩

/-- A run that makes no function and no class and stays in its frame, with what it yields. -/
theorem rel_lift {A : Frames → α → Prop} {p : Run α}
    (h : ∀ a : Account, a.Attended texts →
      a.machine.store.frames.Attends c a.machine.env a.receiver →
      match p a.machine with
      | .ok value machine => a.Goes { a with machine } ∧ machine.env = a.machine.env ∧
        A machine.store.frames value
      | .error e machine => a.Goes { a with machine } ∧ machine.env = a.machine.env ∧
        e.Resolved) :
    (chronicled texts).Rel w c (fun v c' a b => c' = c ∧ a = b ∧ A v a) p (lift p) := by
  refine rel_of ?_
  rintro k rfl now moments attends
  have run := h k.now now attends
  unfold lift
  match p k.now.machine, run with
  | .ok value machine, ⟨goes, env, this⟩ =>
    have inside := attends.mono goes.frames
    rw [← env] at inside
    exact ends_ok rfl goes.frames rfl
      (now.goes goes) moments inside ⟨rfl, rfl, this⟩
  | .error e machine, ⟨goes, env, resolved⟩ =>
    have inside := attends.mono goes.frames
    rw [← env] at inside
    exact ends_error rfl goes.frames resolved
      (now.goes goes) moments inside

/-- `rel_lift` where nothing needs to be known of the value. -/
theorem rel_lift' {p : Run α}
    (h : ∀ a : Account, match p a.machine with
      | .ok _ machine => a.Goes { a with machine } ∧ machine.env = a.machine.env
      | .error e machine => a.Goes { a with machine } ∧ machine.env = a.machine.env ∧
        e.Resolved) :
    (chronicled texts).Rel w c ((chronicled texts).Gives c) p (lift p) := by
  have lifted : (chronicled texts).Rel w c (fun v c' a b => c' = c ∧ a = b ∧ True) p (lift p) := by
    refine rel_lift (A := fun _ _ => True) fun a _ _ => ?_
    have run := h a
    match p a.machine, run with
    | .ok _ _, ⟨goes, env⟩ => exact ⟨goes, env, trivial⟩
    | .error _ _, all => exact all
  exact lifted.weaken fun _ _ _ _ _ post => ⟨post.1, post.2.1⟩

theorem rel_gets {f : Machine → α} {A : Frames → α → Prop}
    (h : ∀ a : Account, a.Attended texts →
      a.machine.store.frames.Attends c a.machine.env a.receiver →
      A a.machine.store.frames (f a.machine)) :
    (chronicled texts).Rel w c (fun v c' a b => c' = c ∧ a = b ∧ A v a) (gets f)
      (lift (gets f)) :=
  rel_lift fun a now attends => ⟨.refl a, rfl, h a now attends⟩

/-- What is read off the machine and what is read off the account. -/
theorem rel_consult {f : Machine → α} {g : Account → β} {A : Frames → α → β → Prop}
    (h : ∀ a : Account, a.Attended texts →
      a.machine.store.frames.Attends c a.machine.env a.receiver →
      A a.machine.store.frames (f a.machine) (g a)) :
    (chronicled texts).Rel w c ((chronicled texts).Keeps c A) (gets f) (consult g) := by
  refine rel_of ?_
  rintro k rfl now moments attends
  exact ends_ok rfl (.refl _) rfl now moments attends ⟨rfl, h k.now now attends⟩

theorem rel_fault {A : (chronicled texts).Post α α} {place : Token}
    {cause : RuntimeError.Cause} (h : ¬ cause.Unresolved) :
    (chronicled texts).Rel w c A (fault place cause) (lift (fault place cause)) := by
  refine rel_of ?_
  rintro k rfl now moments attends
  exact ends_error rfl (.refl _) (Recorder.resolved_fault h) now moments attends

theorem lift_bind (p : Run α) (next : α → Run β) :
    lift (p >>= next) = lift p >>= fun a => lift (next a) := by
  funext k
  show (match EStateM.bind p next k.now.machine with | .ok _ _ => _ | .error _ _ => _) =
    EStateM.bind (lift p) _ k
  unfold EStateM.bind lift
  cases p k.now.machine <;> rfl

/-! ## Variables -/

theorem rel_readVariable (id : NodeId) (name : Token) :
    (chronicled texts).Rel w c ((chronicled texts).Gives c) (readVariable id name)
      (lift (readVariable id name)) := by
  refine rel_lift' fun a => ?_
  rcases Recorder.readVariable_cases id name a.machine with ⟨value, read⟩ | read <;> rw [read]
  · exact ⟨.refl a, rfl⟩
  · exact ⟨.refl a, rfl, Recorder.resolved_fault not_false⟩

theorem rel_defineIn {f : FrameId} {name : String} (value : Value) (ordinary : Ordinary name) :
    (chronicled texts).Rel w c ((chronicled texts).Gives c) (defineIn f name value)
      (lift (defineIn f name value)) :=
  rel_lift' fun _ => ⟨⟨.define _ f value ordinary, rfl, rfl, rfl, rfl, rfl⟩, rfl⟩

/-- A name is declared in the current frame. -/
theorem rel_define {name : String} (value : Value) (ordinary : Ordinary name) :
    (chronicled texts).Rel w c ((chronicled texts).Gives (c.declare name)) (define name value)
      (lift (define name value)) := by
  refine rel_of ?_
  rintro k rfl now moments attends
  have steady := Frames.Steady.define k.now.machine.store.frames k.now.machine.env value ordinary
  exact ends_ok rfl steady (Context.length_declare c name)
    (now.goes ⟨steady, rfl, rfl, rfl, rfl, rfl⟩) moments ((attends.mono steady).declare ordinary)
    ⟨rfl, rfl⟩

theorem rel_assignVariable (id : NodeId) (name : Token) (value : Value)
    (ordinary : Ordinary name.lexeme) :
    (chronicled texts).Rel w c ((chronicled texts).Gives c) (assignVariable id name value)
      (lift (assignVariable id name value)) := by
  unfold assignVariable
  rw [lift_bind]
  refine (rel_gets (A := fun _ _ => True) fun _ _ _ => trivial).bind ?_
  rintro v _ found _ later ⟨rfl, rfl, -⟩
  cases found with
  | some f => exact rel_defineIn value ordinary
  | none => exact rel_fault not_false

theorem rel_assignName (name : Token) (value : Value) (ordinary : Ordinary name.lexeme) :
    (chronicled texts).Rel w c ((chronicled texts).Gives c) (assignName name value)
      (lift (assignName name value)) := by
  unfold assignName
  rw [lift_bind]
  refine (rel_gets (A := fun _ _ => True) fun _ _ _ => trivial).bind ?_
  rintro v _ found _ later ⟨rfl, rfl, -⟩
  cases found with
  | some f => exact rel_defineIn value ordinary
  | none => exact rel_fault id

/-! ## Frames and methods -/

/-- A new frame, with what it binds and the frame around it. -/
theorem rel_newFrame (parent : FrameId) (values : Bindings Value) :
    (chronicled texts).Rel w c
      (fun v c' f g => c' = c ∧ f = g ∧
        (v.parent? f = some parent ∧ ∀ x, v.lookup? f x = values.get? x))
      (newFrame parent values) (lift (newFrame parent values)) := by
  refine rel_lift fun a _ _ => ?_
  have steady := Frames.Steady.push a.machine.store.frames values (some parent)
  refine ⟨⟨steady, rfl, rfl, rfl, rfl, rfl⟩, rfl, ?_, fun x => ?_⟩
  · simp only [Store.pushFrame, Frames.parent?_push, if_true]
  · simp only [Store.pushFrame, Frames.lookup?_push, if_true]

/-- A bound method is called inside a frame for its `this`. -/
theorem rel_bindMethod {f : Method} (i : InstanceId) (h : f.Unbound texts w) :
    (chronicled texts).Rel w c
      ((chronicled texts).Keeps c fun v a b => a = b.closure ∧ a.decl = f.closure.decl ∧
        b.receiver = some ⟨i, f.above⟩ ∧ b.closure.Attended texts v b.receiver ∧
        b.closure.Binds v ⟨i, f.above⟩)
      (Run.bindMethod f.closure i) (bindMethod f i) := by
  obtain ⟨kind, outer, offers, fits⟩ := h
  unfold Run.bindMethod bindMethod Run.bindMethod
  rw [lift_bind, bind_assoc]
  refine (rel_newFrame f.closure.frame _).bind ?_
  rintro v _ frame _ later ⟨rfl, rfl, parent, bound⟩
  have this : v.lookup? frame thisName = some (.object i) := by
    rw [bound, Bindings.get?_put, if_pos rfl]
  have attends := Frames.Attends.enterThis ⟨i, f.above⟩ (offers.mono later) parent this
    f.closure.decl
  exact .pure ⟨rfl, rfl, rfl, rfl, ⟨_, attends, fits⟩, this, kind⟩

/-- A method that is read off an instance is a new function. -/
theorem rel_newMethod {f : Method} (i : InstanceId) (h : f.Unbound texts w) :
    (chronicled texts).Rel w c ((chronicled texts).Gives c)
      (do newFunction (← Run.bindMethod f.closure i)) (newMethod f i) := by
  refine (rel_bindMethod i h).bind ?_
  rintro v _ _ bound later ⟨rfl, rfl, -, receiver, attended, binds⟩
  refine rel_of ?_
  rintro k rfl now moments attends
  have pushed := now.pushFunction bound.closure (.bound ⟨i, f.above⟩)
    (by rw [receiver] at attended; exact attended) (fun self same => by cases same; exact binds)
  exact ends_ok rfl (.refl _) rfl pushed moments attends ⟨rfl, rfl⟩

theorem rel_method? (id : ClassId) (name : String) :
    (chronicled texts).Rel w c
      ((chronicled texts).Keeps c fun v a b => a = b.map (·.closure) ∧
        ∀ method, b = some method → method.Unbound texts v)
      (gets (·.store.method? id name)) (consult (·.history.method? id name)) :=
  rel_consult (A := fun v a b => a = b.map (·.closure) ∧
      ∀ method, b = some method → Method.Unbound texts v method)
    fun _ now _ => ⟨now.tells.method? id name, fun _ found => now.search found⟩

theorem rel_readProperty (i : InstanceId) (name : Token) :
    (chronicled texts).Rel w c ((chronicled texts).Gives c) (Run.readProperty i name)
      (readProperty i name) := by
  refine (rel_gets (A := fun _ _ => True) fun _ _ _ => trivial).bind ?_
  rintro v _ found _ later ⟨rfl, rfl, -⟩
  split
  · exact .pure ⟨rfl, rfl⟩
  · refine (rel_method? _ _).bind ?_
    rintro v' _ _ method later' ⟨rfl, rfl, unbound⟩
    cases method with
    | some method => exact rel_newMethod i (unbound method rfl)
    | none => exact rel_fault id
  · exact rel_fault id

/-- Where a program names `super`, the frame for `super` binds a class and the one inside it binds
`this` to an instance. -/
theorem rel_readSuper {id : NodeId} {keyword : Token} (method : Token)
    (known : texts.Knows ⟨.use .super ⟨id, keyword⟩, c⟩) :
    (chronicled texts).Rel w c ((chronicled texts).Gives c) (Run.readSuper id keyword method)
      (readSuper id keyword method) := by
  obtain ⟨d, this, super⟩ := known.admissible
  have lexeme : keyword.lexeme = superName := known.lexed
  have distance : texts.table.get? id = some (d + 1) := by
    rw [known.distance .super ⟨id, keyword⟩ rfl, lexeme, super]
  refine (rel_gets (A := fun _ found => found = some (d + 1)) fun a now _ => ?_).bind ?_
  · show a.machine.distances.get? id = _
    rw [now.distances, distance]
  rintro v _ _ _ later ⟨rfl, rfl, rfl⟩
  refine (rel_gets (A := fun _ found => ∃ k, found = some (.cls k)) fun a _ attends => ?_).bind ?_
  · obtain ⟨self, -, -, above⟩ := attends.this this
    obtain ⟨k, -, bound⟩ := above super
    exact ⟨k, bound⟩
  rintro v' _ _ _ later' ⟨rfl, rfl, k, rfl⟩
  refine (rel_gets (A := fun _ found => ∃ i, found = some (.object i)) fun a _ attends => ?_).bind
    ?_
  · obtain ⟨self, -, bound, -⟩ := attends.this this
    exact ⟨self.object, (if_neg (Nat.succ_ne_zero d)).trans bound⟩
  rintro v'' _ _ _ later'' ⟨rfl, rfl, i, rfl⟩
  refine (rel_method? _ _).bind ?_
  rintro u _ _ found grown ⟨rfl, rfl, unbound⟩
  cases found with
  | some found => exact rel_newMethod i (unbound found rfl)
  | none => exact rel_fault not_false

/-! ## Functions, classes and calls -/

/-- A function is made where it is declared, with the receiver that is fixed there. -/
theorem rel_declareFunction {decl : FunctionDecl}
    (fits : (chronicled texts).Fits c (.function decl)) :
    (chronicled texts).Rel w c ((chronicled texts).Gives (c.declare decl.name.lexeme))
      (Platform.machine.declareFunction decl) (declareFunction decl) := by
  refine rel_of ?_
  rintro k rfl now moments attends
  obtain ⟨tidy, known⟩ := fits
  rw [Stmt.occurrences, List.forall_mem_cons] at known
  have ordinary := Recorder.ordinary_of_known known.1
  have made : Closure.Attended texts k.now.machine.store.frames
      ⟨decl, k.now.machine.env, false⟩ k.now.receiver :=
    ⟨_, attends.declare ordinary, tidy.2, known.2⟩
  have pushed := now.pushFunction _ (.declared k.now.receiver) made nofun
  have steady := Frames.Steady.define k.now.machine.store.frames k.now.machine.env
    (.function k.now.machine.store.functions.size) ordinary
  exact ends_ok rfl steady (Context.length_declare c _)
    (pushed.goes ⟨steady, rfl, rfl, rfl, rfl, rfl⟩) moments
    ((attends.mono steady).declare ordinary) ⟨rfl, rfl⟩

/-- The methods of a class, which close over the frame that was made for them. -/
theorem unbound_methods {name : Token} {superclass : Option Variable} {methods : List FunctionDecl}
    {d : Declaration} (listed : d.methods = methods)
    (fits : (chronicled texts).Fits c (.classDecl name superclass methods))
    (offers : w.Offers ((c.declare name.lexeme).enterClass name superclass methods) d.frame
      d.superclass) (x : String) (method : Method) (found : d.method? x = some method) :
    method.Unbound texts w := by
  obtain ⟨tidy, known⟩ := fits
  rw [Stmt.Tidy] at tidy
  simp only [Stmt.occurrences, List.forall_mem_cons, List.forall_mem_append] at known
  obtain ⟨decl, member, -, rfl⟩ := Declaration.mem_of_method? found
  rw [listed] at member
  exact ⟨rfl, _, offers, FunctionDecl.tidy_of_mem member tidy.2,
    fun o occurs => known.2.2 o (FunctionDecl.mem_allOccurrences member occurs)⟩

theorem rel_readSuperclass (ref : Variable) :
    (chronicled texts).Rel w c ((chronicled texts).Gives c) (readSuperclass ref)
      (lift (readSuperclass ref)) := by
  unfold readSuperclass
  rw [lift_bind]
  refine (rel_readVariable ref.id ref.name).andThen fun v value _ => ?_
  cases value with
  | cls id => exact .pure ⟨rfl, rfl⟩
  | _ => exact rel_fault not_false

theorem rel_env :
    (chronicled texts).Rel w c (fun v c' a b => c' = c ∧ a = b ∧ ∃ r, v.Attends c a r)
      (gets (·.env)) (lift (gets (·.env))) :=
  rel_gets (A := fun v a => ∃ r, v.Attends c a r) fun a _ attends => ⟨a.receiver, attends⟩

/-- A class is made once the frame for its methods is there. -/
theorem rel_makeClass {name : Token} {superclass : Option Variable} {methods : List FunctionDecl}
    {above : Option ClassId} {frame : FrameId} {here : Context}
    (fits : (chronicled texts).Fits c (.classDecl name superclass methods))
    (offers : w.Offers ((c.declare name.lexeme).enterClass name superclass methods) frame above)
    (closures : List (String × Closure))
    (made : closures = methods.map fun decl =>
      (decl.name.lexeme, Closure.mk decl frame decl.isInitializer)) :
    (chronicled texts).Rel w here ((chronicled texts).Gives here)
      (do assignName name (← newClass ⟨name.lexeme, above, Bindings.ofList closures⟩))
      (do
        record fun h => h.addDeclaration ⟨above, methods, frame⟩
        let cls ← lift (newClass ⟨name.lexeme, above, Bindings.ofList closures⟩)
        lift (assignName name cls)) := by
  have ordinary : Ordinary name.lexeme :=
    Recorder.ordinary_of_known (fits.2 ⟨.declare name, c⟩ (by rw [Stmt.occurrences]; exact .head _))
  have declared : (Class.mk name.lexeme above (Bindings.ofList closures)).DeclaredBy
      ⟨above, methods, frame⟩ :=
    ⟨rfl, fun x => by rw [made]; exact Declaration.methods_get? ⟨above, methods, frame⟩ x⟩
  have pushed : (chronicled texts).Rel w here ((chronicled texts).Gives here)
      (newClass ⟨name.lexeme, above, Bindings.ofList closures⟩)
      (do
        record fun h => h.addDeclaration ⟨above, methods, frame⟩
        lift (newClass ⟨name.lexeme, above, Bindings.ofList closures⟩)) := by
    refine rel_of ?_
    rintro k rfl now moments attends
    exact ends_ok rfl (.refl _) rfl
      (now.pushClass declared (unbound_methods rfl fits offers)) moments attends ⟨rfl, rfl⟩
  rw [← bind_assoc]
  exact pushed.andThen fun v cls _ => rel_assignName name cls ordinary

theorem rel_declareClass {name : Token} {superclass : Option Variable}
    {methods : List FunctionDecl}
    (fits : (chronicled texts).Fits c (.classDecl name superclass methods)) :
    (chronicled texts).Rel w c ((chronicled texts).Gives (c.declare name.lexeme))
      (Run.declareClass name superclass methods) (declareClass name superclass methods) := by
  have known := fits.2
  simp only [Stmt.occurrences, List.forall_mem_cons, List.forall_mem_append] at known
  unfold Run.declareClass declareClass
  refine (rel_define .nil (Recorder.ordinary_of_known known.1)).andThen fun v _ later => ?_
  cases superclass with
  | none =>
    simp only [pure_bind]
    refine rel_env.bind ?_
    rintro v' _ outer _ later' ⟨rfl, rfl, r, attends⟩
    exact rel_makeClass fits (fun super => absurd super attends.not_atSuper) _ rfl
  | some ref =>
    simp only [pure_bind, bind_map_left]
    refine (rel_readSuperclass ref).andThen fun v' cls later' => ?_
    refine rel_env.bind ?_
    rintro u _ outer _ grown ⟨rfl, rfl, -⟩
    refine (rel_newFrame outer _).bind ?_
    rintro u' _ frame _ grown' ⟨rfl, rfl, parent, bound⟩
    have super : u'.lookup? frame superName = some (.cls cls) := by
      rw [bound, Bindings.get?_put, if_pos rfl]
    exact rel_makeClass fits (fun _ => ⟨cls, rfl, super⟩) _ rfl

/-- The parameters of a function are ordinary names. -/
theorem ordinary_parameters {decl : FunctionDecl}
    (fits : decl.Fits texts.named texts.Knows c) : ∀ param ∈ decl.params, Ordinary param.lexeme := by
  intro param member
  obtain ⟨c', occurs⟩ :=
    Recorder.mem_parameterOccurrences (c := c.enter (.function decl)) member
  have known := fits.2 _ (by
    rw [FunctionDecl.occurrences_eq]
    exact List.mem_append_left _ occurs)
  exact Recorder.ordinary_of_known known

/-- A call goes on with the receiver of the function. -/
theorem rel_enterCall {f : Method} {outer : Context}
    (attends : w.Attends outer f.closure.frame f.receiver)
    (fits : f.closure.decl.Fits texts.named texts.Knows outer) (arguments : List Value) :
    (chronicled texts).Rel w c
      ((chronicled texts).Keeps c fun v e e' => e = e'.1 ∧ v.Attends
        ((outer.enter (.function f.closure.decl)).declareAll f.closure.decl.params) e'.1 e'.2)
      (Platform.machine.enterCall f.closure arguments) (platform.enterCall f arguments) := by
  rw [← bind_pure (Platform.machine.enterCall f.closure arguments)]
  refine (rel_moment .other trivial (rel_newFrame f.closure.frame _)).bind ?_
  rintro v _ frame _ later ⟨rfl, rfl, parent, -⟩
  exact .pure ⟨rfl, rfl, ((attends.mono later).enter parent _).declareAll _ (ordinary_parameters fits)⟩

/-- A block goes on with the receiver that is fixed around it. -/
theorem rel_enterBlock (body : List Stmt) :
    (chronicled texts).Rel w c
      ((chronicled texts).Keeps c fun v e e' => e = e'.1 ∧
        v.Attends (c.enter (.block body)) e'.1 e'.2)
      (Platform.machine.enterBlock body) (platform.enterBlock body) := by
  refine rel_of ?_
  rintro k rfl now moments attends
  have placed : Moment.Placed ⟨.other, k.now⟩ := ⟨texts, c, now, trivial, attends⟩
  have steady := Frames.Steady.push k.now.machine.store.frames ∅ (some k.now.machine.env)
  have parent : (k.now.machine.store.frames.push ∅ (some k.now.machine.env)).parent?
      k.now.machine.store.frames.next = some k.now.machine.env := by
    rw [Frames.parent?_push, if_pos rfl]
  have attends := attends.mono steady
  exact ends_ok rfl steady rfl (now.goes ⟨steady, rfl, rfl, rfl, rfl, rfl⟩)
    (List.forall_mem_cons.2 ⟨placed, moments⟩) attends ⟨rfl, rfl, attends.enter parent _⟩

theorem rel_callee? (value : Value) :
    (chronicled texts).Rel w c
      ((chronicled texts).Keeps c fun v => Correspondence.Callees v)
      (Platform.machine.callee? value) (callee? value) := by
  refine rel_of ?_
  rintro k rfl now moments attends
  refine ends_ok rfl (.refl _) rfl now moments attends ⟨rfl, ?_⟩
  cases value with
  | clock => exact .clock
  | function f =>
    simp only [Store.callable?]
    cases found : k.now.machine.store.functions[f]? with
    | none => exact .none
    | some closure =>
      obtain ⟨origin, told⟩ := now.tells.originOf found
      have attended := (now.functions f closure origin found told).1
      refine .function ⟨rfl, ?_⟩
      simp only [History.receiver?, told, Option.bind_some]
      exact attended
  | cls id =>
    simp only [Store.callable?]
    split
    · rw [now.tells.method? id initializerName]
      simp only [Option.map_some, Store.Callable.callee, History.describe]
      cases found : k.now.history.method? id initializerName with
      | none => exact .cls
      | some method => exact .initialized ⟨rfl, now.search found⟩
    · exact .none
  | _ => exact .none

/-- A call that is not too deep. -/
theorem oneDeeper_eq {paren : Token} {run : Chronicling α} {k : Chronicle}
    (below : k.now.machine.atDepthLimit = false) : oneDeeper paren run k =
      endingWith (fun k' => k'.atDepth (k'.now.machine.depth - 1))
        (run (k.atDepth (k.now.machine.depth + 1))) := by
  unfold oneDeeper
  rw [if_neg (by simp [below])]
  cases run (k.atDepth (k.now.machine.depth + 1)) <;> rfl

theorem rel_oneDeeper {p : Run α} {q : Chronicling α} (paren : Token)
    (h : (chronicled texts).Rel w c ((chronicled texts).Gives c) p q) :
    (chronicled texts).Rel w c ((chronicled texts).Gives c) (Run.oneDeeper paren p)
      (oneDeeper paren q) := by
  refine rel_of ?_
  rintro k rfl now moments attends
  cases limit : k.now.machine.atDepthLimit with
  | true =>
    unfold Run.oneDeeper oneDeeper
    rw [if_pos limit, if_pos limit]
    exact ends_error rfl (.refl _) (Recorder.resolved_fault not_false) now moments attends
  | false =>
    have deeper := now.goes (b := (k.atDepth (k.now.machine.depth + 1)).now)
      ⟨.refl _, rfl, rfl, rfl, rfl, rfl⟩
    have ends := h _ (k.atDepth (k.now.machine.depth + 1)) ⟨rfl, rfl, deeper, moments⟩
      ⟨rfl, attends⟩
    rw [Treewalk.oneDeeper_eq limit, oneDeeper_eq limit]
    show (chronicled texts).Ends _ c _
      (endingWith _ (p (k.atDepth (k.now.machine.depth + 1)).now.machine)) _
    match p (k.atDepth (k.now.machine.depth + 1)).now.machine,
      q (k.atDepth (k.now.machine.depth + 1)), ends with
    | .ok _ m, .ok _ k', ⟨_, c', later, size, post, ⟨rfl, same, now', moments'⟩, env, attends'⟩ =>
      obtain rfl := Recorder.machine_eq same env
      exact ends_ok rfl later size (now'.goes ⟨.refl _, rfl, rfl, rfl, rfl, rfl⟩)
        moments' attends' post
    | .error _ m, .error _ k', ⟨stops, _, c', later, size, ⟨rfl, same, now', moments'⟩, env,
        attends'⟩ =>
      obtain rfl := Recorder.machine_eq same env
      exact ⟨stops, _, c', later, size, ⟨rfl, rfl, now'.goes ⟨.refl _, rfl, rfl, rfl, rfl, rfl⟩,
        moments'⟩, rfl, attends'⟩

/-- An operation that touches neither frames nor functions nor classes. -/
theorem rel_plain {p : Run α}
    (h : ∀ a : Account, match p a.machine with
      | .ok _ machine => a.Goes { a with machine } ∧ machine.env = a.machine.env
      | .error e machine => a.Goes { a with machine } ∧ machine.env = a.machine.env ∧
        e.Resolved) :
    (chronicled texts).Rel w c ((chronicled texts).Gives c) p (plain p) :=
  rel_moment .other trivial (rel_lift' h)

theorem rel_print (value : Value) :
    (chronicled texts).Rel w c ((chronicled texts).Gives c) (Run.print value)
      (plain (Run.print value)) := by
  have write : ∀ {w c} piece, (chronicled texts).Rel w c ((chronicled texts).Gives c)
      (Run.write piece) (lift (Run.write piece)) := fun piece => rel_lift' fun a => by
    unfold Run.write
    cases a.machine.sink.refusal a.machine.sink.written piece with
    | none => exact ⟨⟨.refl _, rfl, rfl, rfl, rfl, rfl⟩, rfl⟩
    | some r => exact ⟨⟨.refl _, rfl, rfl, rfl, rfl, rfl⟩, rfl, nofun⟩
  refine rel_moment .other trivial ?_
  unfold Run.print
  rw [lift_bind]
  refine (rel_gets (A := fun _ _ => True) fun _ _ _ => trivial).bind ?_
  rintro v _ text _ _ ⟨rfl, rfl, -⟩
  rw [lift_bind]
  exact (write text).andThen fun _ _ _ => write "\n"

theorem rel_flush :
    (chronicled texts).Rel w c ((chronicled texts).Gives c) Run.flush (plain Run.flush) := by
  refine rel_plain fun a => ?_
  unfold Run.flush
  cases a.machine.sink.flushRefusal with
  | none => exact ⟨.refl a, rfl⟩
  | some message => exact ⟨.refl a, rfl, nofun⟩

/-- The machine and its chronicle stay in step. -/
theorem simulation (texts : Texts) : Simulation (chronicled texts) where
  exhausted := ⟨rfl, nofun⟩
  exhausted_iff h := by rw [h.1]
  fault line h := ⟨rfl, Recorder.resolved_fault h⟩
  read known := rel_moment _ (.inl known) (rel_readVariable _ _)
  readThis known := rel_moment _ (.inr known) (rel_readVariable _ _)
  assign value known :=
    rel_moment .other trivial (rel_assignVariable _ _ value known.lexed)
  readSuper method known := rel_moment _ known (rel_readSuper method known)
  readProperty i name := rel_moment .other trivial (rel_readProperty i name)
  setField i name value := by
    refine rel_moment .other trivial (rel_of ?_)
    rintro k rfl now moments attends
    exact ends_ok rfl (.refl _) rfl
      (now.goes ⟨.refl _, rfl, rfl, rfl, rfl, rfl⟩) moments attends ⟨rfl, rfl⟩
  callee? value := rel_moment .other trivial (rel_callee? value)
  oneDeeper := rel_oneDeeper
  readClock := rel_plain fun _ => ⟨⟨.refl _, rfl, rfl, rfl, rfl, rfl⟩, rfl⟩
  newInstance _ := rel_plain fun _ => ⟨⟨.refl _, rfl, rfl, rfl, rfl, rfl⟩, rfl⟩
  bindMethod i h := by
    obtain ⟨rfl, unbound⟩ := h
    refine rel_moment .other trivial ((rel_bindMethod i unbound).weaken ?_)
    rintro v _ _ b _ ⟨rfl, rfl, decl, -, attended, -⟩
    exact ⟨rfl, ⟨rfl, attended⟩, decl⟩
  code_decl h := by
    obtain ⟨rfl, -⟩ := h
    exact ⟨(FunctionDecl.relabel_identity _).symm, rfl⟩
  method_params h := by
    obtain ⟨rfl, -⟩ := h
    rfl
  enterCall arguments h _ := by
    obtain ⟨rfl, outer, attends, fits⟩ := h
    exact ⟨outer, fits, fun c => rel_enterCall attends fits arguments⟩
  receiver h _ := by
    obtain ⟨rfl, -⟩ := h
    exact rel_plain fun a => ⟨.refl a, rfl⟩
  enterBlock body := by
    rw [← Stmt.relabelAll_eq_map, Stmt.relabelAll_identity]
    exact rel_enterBlock body
  declareFunction fits := by
    rw [FunctionDecl.relabel_identity]
    exact rel_moment .other trivial (rel_declareFunction fits)
  declareClass fits := by
    rw [List.map_congr_left (fun decl _ => FunctionDecl.relabel_identity decl), List.map_id',
      Option.map_congr (fun ref _ => Variable.relabel_identity ref), Option.map_id']
    exact rel_moment .other trivial (rel_declareClass fits)
  announce known := by
    refine rel_of ?_
    rintro k rfl now moments attends
    exact ends_ok rfl (.refl _) (Context.length_announce _ _) now moments
      (attends.announce (Recorder.ordinary_of_known known)) ⟨rfl, rfl⟩
  define value known := by
    rw [← Context.declare_announce _ _ _]
    have ordinary := Recorder.ordinary_of_known known
    exact rel_moment .other trivial (rel_define value ordinary)
  print := rel_print
  flush := rel_flush

/-! ## Sessions -/

/-- A chronicle between batches stays right when a program is loaded. -/
theorem attended_load {programs : List (List Stmt)} {table : Distances} {k : Chronicle}
    {next next' : NodeId} {c : Compiled} (h : k.now.Attended (.of programs table))
    (loaded : Loaded next programs table) (accepted : Accepted next c next') :
    (Engine.chronicle.load c k).now.Attended
      (.of (c.program :: programs) (table.addAll c.distances)) where
  distances := congrArg (Distances.addAll · c.distances) h.distances
  tells := h.tells
  functions f closure origin found told := by
    obtain ⟨⟨c, attends, tidy, known⟩, binds⟩ := h.functions f closure origin found told
    exact ⟨⟨c, attends, tidy, fun o occurs => loaded.knows accepted (known o occurs)⟩, binds⟩
  methods k d name method declared found := by
    obtain ⟨kind, c, offers, tidy, known⟩ := h.methods k d name method declared found
    exact ⟨kind, c, offers, tidy, fun o occurs => loaded.knows accepted (known o occurs)⟩

/-- Sessions on the machine and on the machine with a chronicle, in step. -/
def lockstep : Lockstep Engine.machine Engine.chronicle where
  between programs table := chronicled (.of programs table)
  simulation _ _ := simulation _
  relabel _ _ := rfl
  allowed known := known
  named _ _ _ := trivial
  stop stops := stops
  load := by
    rintro next next' programs table c w m k loaded accepted ⟨world, same, now, moments⟩ scope
    refine ⟨w, ⟨world, ?_, attended_load now loaded accepted, moments⟩, scope⟩
    show k.now.machine.addDistances c.distances = _
    rw [same]
    rfl

theorem attended_initial (sink : Sink) (clock : Nat → Float) :
    (initial sink clock).now.Attended (.of [] ∅) where
  distances := rfl
  tells := ⟨rfl, rfl, fun _ _ _ found => by
    simp [initial, Machine.initial, Store.pushFrame, Store.empty] at found⟩
  functions _ _ _ found := by
    simp [initial, Machine.initial, Store.pushFrame, Store.empty] at found
  methods _ _ _ _ declared := by simp [initial] at declared

/-- A session and its chronicle after any batches. -/
theorem runAll_between (sink : Sink) (clock : Nat → Float) (batches : List (Nat × List UInt8)) :
    ((Session.start sink clock).runAll batches).1 = (runAll sink clock batches).1 ∧
      ∃ programs table, lockstep.Between ((Session.start sink clock).runAll batches).2.onEngine
        (runAll sink clock batches).2 programs table := by
  have start : lockstep.Between (Session.start sink clock).onEngine ⟨initial sink clock, 0⟩ [] ∅ :=
    ⟨rfl, .start, _, ⟨rfl, rfl, attended_initial sink clock, List.forall_mem_nil _⟩, rfl, trivial⟩
  obtain ⟨same, -, after⟩ := start.runAll batches
  rw [Session.runAll_onEngine] at same after
  exact ⟨same, after⟩

end Chronicle

end Treewalk
