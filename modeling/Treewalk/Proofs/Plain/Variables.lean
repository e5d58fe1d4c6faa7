import Treewalk.Proofs.Plain.Linked

/-!
# Variables on both sides

From linked states an operation of the machine and that of the plain interpreter end in linked
states, with the same value or stopped for the same reason: reading, assigning and declaring, and
what binds `this` or looks for `super`.
-/

namespace Treewalk

namespace Plain

open Correspondence Recorder

variable {texts : Texts} {w : Link} {c : Context} {m : Machine} {s : State}
  {α β γ : Type}

/-- The plain interpreter goes on with the same variables and the same things to call. -/
structure Still (s s' : State) : Prop where
  cells : s'.cells = s.cells
  globals : s'.globals = s.globals
  functions : s'.functions = s.functions
  classes : s'.classes = s.classes
  env : s'.env = s.env

theorem Still.refl (s : State) : Still s s := ⟨rfl, rfl, rfl, rfl, rfl⟩

theorem Linked.calm {m' : Machine} {s' : State} (h : Linked texts w m s) (calm : Calm m m')
    (still : Still s s') (rest : SameRest m' s') : Linked texts w m' s' where
  frames := h.frames.trans calm.frames.symm
  placed := h.placed
  entered := h.entered
  cells := still.cells ▸ h.cells
  global := calm.globals.trans h.global
  size := h.size
  root := h.root
  globals x := still.globals ▸ h.globals x
  distances := calm.distances.trans h.distances
  functions := by
    rw [calm.functions, still.functions]
    exact h.functions
  classes := by
    rw [calm.classes, still.classes]
    exact h.classes
  rest := rest

theorem rel_of {A : (linked texts).Post α β} {p : Run α} {q : Action β}
    (h : ∀ m s, Linked texts w m s → w.Current c m.env s.env →
      (linked texts).Ends w c A (p m) (q s)) : (linked texts).Rel w c A p q := h

/-- Two results that leave variables and functions alone. -/
def CalmEnd (A : α → β → Prop) (m : Machine) (s : State) :
    EStateM.Result Stop Machine α → EStateM.Result Stop State β → Prop
  | .ok a m', .ok b s' => A a b ∧ Calm m m' ∧ Still s s' ∧ SameRest m' s'
  | .error e m', .error e' s' => (e = e' ∧ e.Resolved) ∧ Calm m m' ∧ Still s s' ∧ SameRest m' s'
  | _, _ => False

theorem rel_calm {A : α → β → Prop} {p : Run α} {q : Action β}
    (h : ∀ m s, Linked texts w m s → w.Current c m.env s.env → CalmEnd A m s (p m) (q s)) :
    (linked texts).Rel w c ((linked texts).Keeps c fun _ => A) p q := by
  intro m s heap scope
  have ends := h m s heap scope
  match p m, q s, ends with
  | .ok a m', .ok b s', ⟨post, calm, still, rest⟩ =>
    refine ⟨w, c, Link.Le.refl w, rfl, ⟨rfl, post⟩, heap.calm calm still rest, ?_⟩
    show w.Current c m'.env s'.env
    rw [calm.env, still.env]
    exact scope
  | .error e m', .error e' s', ⟨stops, calm, still, rest⟩ =>
    refine ⟨stops, w, c, Link.Le.refl w, rfl, heap.calm calm still rest, ?_⟩
    show w.Current c m'.env s'.env
    rw [calm.env, still.env]
    exact scope

/-- Both sides read something off their states. -/
theorem rel_gets {f : Machine → α} {g : State → β} {A : Link → α → β → Prop}
    (h : ∀ m s, Linked texts w m s → w.Current c m.env s.env → A w (f m) (g s)) :
    (linked texts).Rel w c ((linked texts).Keeps c A) (Run.gets f) (gets g) :=
  fun m s heap scope => ⟨w, c, Link.Le.refl w, rfl, ⟨rfl, h m s heap scope⟩, heap, scope⟩

/-- The machine reads what is known already. -/
theorem rel_known {f : Machine → α} {a : α} {A : (linked texts).Post β γ} {p : α → Run β}
    {q : Action γ} (h : ∀ m s, Linked texts w m s → w.Current c m.env s.env → f m = a)
    (next : (linked texts).Rel w c A (p a) q) :
    (linked texts).Rel w c A (Run.gets f >>= p) q := by
  intro m s heap scope
  have same : (Run.gets f >>= p) m = p (f m) m := rfl
  rw [same, h m s heap scope]
  exact next m s heap scope

/-- The plain interpreter reads what is known already. -/
theorem rel_known' {g : State → β} {b : β} {A : (linked texts).Post α γ} {p : Run α}
    {q : β → Action γ} (h : ∀ m s, Linked texts w m s → w.Current c m.env s.env → g s = b)
    (next : (linked texts).Rel w c A p (q b)) :
    (linked texts).Rel w c A p (gets g >>= q) := by
  intro m s heap scope
  have same : (gets g >>= q) s = q (g s) s := rfl
  rw [same, h m s heap scope]
  exact next m s heap scope

theorem rel_fault {A : (linked texts).Post α β} (place : Token) {cause : RuntimeError.Cause}
    (h : ¬ cause.Unresolved) :
    (linked texts).Rel w c A (Run.fault place cause) (fault place cause) :=
  .throw ⟨rfl, Recorder.resolved_fault h⟩

/-! ### Variables -/

theorem read_eq (name : Token) (s : State) : read name s =
    match s.lookup? name.lexeme with
    | some value => .ok value s
    | none => .error (.fault ⟨.undefinedVariable name.lexeme, name.line⟩) s := by
  unfold read
  show EStateM.bind (gets _) _ s = _
  simp only [EStateM.bind, gets]
  cases s.lookup? name.lexeme <;> rfl

/-- What the machine finds at the distance of a variable, or among the globals, is what the plain
interpreter finds by name. -/
theorem Linked.readVariable_eq (h : Linked texts w m s) (here : w.Current c m.env s.env)
    {role : Role} {id : NodeId} {name : Token} (known : texts.Knows ⟨.use role ⟨id, name⟩, c⟩)
    (complete : ∀ s ∈ c, s.pending ≠ some name.lexeme) :
    Run.readVariable id name m =
      match s.lookup? name.lexeme with
      | some value => .ok value m
      | none => .error (.fault ⟨.undefinedVariable name.lexeme, name.line⟩) m := by
  have distance : m.distances.get? id = c.distance? name.lexeme := by
    rw [h.distances]
    exact known.distance role ⟨id, name⟩ rfl
  unfold Run.readVariable
  rw [distance]
  cases found : c.distance? name.lexeme with
  | some d =>
    obtain ⟨value, bound, -, same⟩ := h.declared here.toPlace found complete
    change s.lookup? name.lexeme = _ at same
    simp only [bound, same]
  | none =>
    have global : s.cell? name.lexeme = none := here.lists.lookup_eq_none found
    have same : s.lookup? name.lexeme = m.store.frames.get? m.globals name.lexeme := by
      simp only [State.lookup?, global, h.global, h.get?_global]
    cases value : m.store.frames.get? m.globals name.lexeme with
    | some _ | none =>
      rw [value] at same
      simp only [same]

theorem rel_readVariable {role : Role} {id : NodeId} {name : Token}
    (known : texts.Knows ⟨.use role ⟨id, name⟩, c⟩)
    (complete : ∀ m s, Linked texts w m s → w.Current c m.env s.env →
      ∀ s ∈ c, s.pending ≠ some name.lexeme) :
    (linked texts).Rel w c ((linked texts).Gives c) (Run.readVariable id name) (read name) := by
  refine rel_calm fun m s heap scope => ?_
  rw [read_eq, heap.readVariable_eq scope known (complete m s heap scope)]
  cases s.lookup? name.lexeme with
  | some value => exact ⟨rfl, .refl m, .refl s, heap.rest⟩
  | none => exact ⟨⟨rfl, Recorder.resolved_fault not_false⟩, .refl m, .refl s, heap.rest⟩

theorem rel_read {id : NodeId} {name : Token} (known : texts.Knows ⟨.use .read ⟨id, name⟩, c⟩) :
    (linked texts).Rel w c ((linked texts).Gives c) (Run.readVariable id name) (read name) :=
  rel_readVariable known fun _ _ _ _ => known.admissible

theorem rel_readThis {id : NodeId} {keyword : Token}
    (known : texts.Knows ⟨.use .this ⟨id, keyword⟩, c⟩) :
    (linked texts).Rel w c ((linked texts).Gives c) (Run.readVariable id keyword)
      (read keyword) := by
  have lexeme : keyword.lexeme = thisName := known.lexed
  refine rel_readVariable known fun _ _ _ scope => ?_
  rw [lexeme]
  exact scope.chain.pending_ne fun ordinary => ordinary.1 rfl

/-- A variable that is in the frame of the machine gets a value. -/
theorem rel_setCell {f : FrameId} {x : String} {cell : CellId} (value : Value)
    (ordinary : Ordinary x) (known : w.cell f x cell) :
    (linked texts).Rel w c ((linked texts).Gives c) (Run.defineIn f x value)
      (setCell cell value) := by
  intro m s heap scope
  have later := w.le_define f value ordinary
  exact ⟨_, c, later, rfl, ⟨rfl, rfl⟩, heap.set known value ordinary,
    scope.toPlace.mono later.toGrows, scope.here, scope.entered, scope.exact⟩

theorem rel_setGlobal {x : String} (value : Value) (ordinary : Ordinary x) :
    (linked texts).Rel w c ((linked texts).Gives c) (Run.defineIn 0 x value)
      (setGlobal x value) := by
  intro m s heap scope
  have later := w.le_define 0 value ordinary
  exact ⟨_, c, later, rfl, ⟨rfl, rfl⟩, heap.setGlobal x value ordinary,
    scope.toPlace.mono later.toGrows, scope.here, scope.entered, scope.exact⟩

theorem rel_assign {id : NodeId} {name : Token} (value : Value)
    (known : texts.Knows ⟨.use .write ⟨id, name⟩, c⟩) :
    (linked texts).Rel w c ((linked texts).Gives c) (Run.assignVariable id name value)
      (assign name value) := by
  have ordinary : Ordinary name.lexeme := known.lexed
  have distance : texts.table.get? id = c.distance? name.lexeme :=
    known.distance .write ⟨id, name⟩ rfl
  unfold Run.assignVariable assign
  cases found : c.distance? name.lexeme with
  | some d =>
    refine (rel_gets (A := fun v f cell => ∃ g cell', f = some g ∧ cell = some cell' ∧
      v.cell g name.lexeme cell') fun m s heap scope => ?_).bind ?_
    · obtain ⟨g, cell, ancestor, known, first⟩ := scope.lists.lookup_eq_some found
      refine ⟨g, cell, ?_, first, known⟩
      simp only [Run.assignedFrame?, heap.distances, distance, found]
      rw [← heap.frames]
      exact ancestor
    · rintro v _ _ _ _ ⟨rfl, g, cell, rfl, rfl, known⟩
      exact rel_setCell value ordinary known
  | none =>
    refine rel_known' (b := none) (fun m s heap scope => scope.lists.lookup_eq_none found) ?_
    refine (rel_gets (A := fun _ f bound => f = if bound = true then some 0 else none)
      fun m s heap scope => ?_).bind ?_
    · simp only [Run.assignedFrame?, heap.distances, distance, found, heap.global]
      rw [heap.find?_global, Bindings.binds, heap.globals, heap.frames]
      cases m.store.frames.lookup? 0 name.lexeme <;> rfl
    · rintro v _ _ bound _ ⟨rfl, rfl⟩
      cases bound with
      | true => exact rel_setGlobal value ordinary
      | false => exact rel_fault name not_false

/-! ### Declarations -/

theorem announce_eq (x : String) (s : State) : announce x s =
    match s.env with
    | none => .ok () s
    | some names => .ok () { s with
        cells := s.cells ++ [Value.nil].toArray
        env := some (allot s.cells.size [x] ++ names) } := by
  unfold announce
  show EStateM.bind (gets _) _ s = _
  simp only [EStateM.bind, gets]
  cases s.env with
  | none => rfl
  | some names =>
    show EStateM.bind (extend names [(x, .nil)]) _ s = _
    simp only [EStateM.bind, extend_eq]
    rfl

/-- A name may be declared at a place. -/
theorem fresh_of_known {name : Token} (known : texts.Knows ⟨.declare name, c⟩) :
    Ordinary name.lexeme ∧ ∀ s ∈ c.head?, s.pending = none ∧ ¬ s.Declares name.lexeme :=
  ⟨known.lexed, known.admissible⟩

theorem rel_announce {name : Token} (known : texts.Knows ⟨.declare name, c⟩) :
    (linked texts).Rel w c ((linked texts).Gives (c.announce name.lexeme)) (pure ())
      (announce name.lexeme) := by
  refine rel_of fun m s heap scope => ?_
  obtain ⟨ordinary, fresh⟩ := fresh_of_known known
  rw [announce_eq]
  cases c with
  | nil =>
    rw [scope.top.2 rfl]
    exact ⟨w, [], Link.Le.refl w, rfl, ⟨rfl, rfl⟩, heap, scope⟩
  | cons inner outer =>
    obtain ⟨settled, new⟩ := fresh inner rfl
    obtain ⟨own, rest, g, names, declared, cells, parent, others⟩ := scope.lists
    cases env : s.env with
    | none => cases scope.top.1 env
    | some names' =>
      rw [env] at names
      obtain rfl : names' = own ++ rest := names
      have here := scope.here
      have later := w.le_extend (allot s.cells.size [name.lexeme])
      have inner' : w.here ≠ 0 := by
        rw [here]
        exact heap.not_global scope.toPlace (List.cons_ne_nil _ _)
      have unused : ∀ cell, ¬ w.cell w.here name.lexeme cell := by
        intro cell used
        rw [here] at used
        obtain ⟨_, same, declares⟩ := scope.exact _ _ used
        cases same
        exact new declares
      obtain ⟨cell, named⟩ : ∃ cell, allot s.cells.size [name.lexeme] = [(name.lexeme, cell)] :=
        ⟨_, rfl⟩
      rw [named] at later
      have linked := heap.announce name.lexeme inner' (here ▸ scope.entered) unused
      rw [named] at linked ⊢
      refine ⟨_, Context.announce (inner :: outer) name.lexeme, later, rfl, ⟨rfl, rfl⟩,
        linked.setEnv _ _, ⟨scope.chain.announce ordinary, ?_, ?_⟩, here, scope.entered, ?_⟩
      · refine ⟨(name.lexeme, cell) :: own, rest, g, rfl, ?_, ?_, parent, others.mono later.toGrows⟩
        · rw [List.map_cons, declared, LexicalScope.own_settled settled]
          rfl
        · rw [List.forall_mem_cons]
          exact ⟨.inr ⟨here.symm, .head _⟩, fun p member => .inl (cells p member)⟩
      · constructor <;> intro none <;> cases none
      · intro x cell' known
        refine ⟨_, rfl, ?_⟩
        rcases known with known | ⟨-, member⟩
        · obtain ⟨_, same, declares⟩ := scope.exact _ _ known
          cases same
          refine .inl (declares.resolve_right fun pending => ?_)
          rw [settled] at pending
          cases pending
        · cases List.mem_singleton.1 member
          exact .inr rfl

/-- The state in which a variable that was announced has its value. -/
def State.define (s : State) (x : String) (value : Value) : State :=
  match s.env with
  | none => { s with globals := s.globals.put x value }
  | some names =>
    match names.lookup x with
    | some cell => { s with cells := s.cells.setIfInBounds cell value }
    | none => s

theorem define_eq (x : String) (value : Value) (s : State) :
    define x value s = .ok () (s.define x value) := by
  obtain ⟨_, _, _, _, _, env, _, _, _, _, _⟩ := s
  unfold define State.define
  show EStateM.bind (gets _) _ _ = _
  simp only [EStateM.bind, gets]
  cases env with
  | none => rfl
  | some names =>
    dsimp only
    cases names.lookup x <;> rfl

theorem State.define_pushFunction (s : State) (x : String) (value : Value) (g : Closure) :
    ({ s with functions := s.functions.push g } : State).define x value =
      { s.define x value with functions := (s.define x value).functions.push g } := by
  obtain ⟨_, _, _, _, _, env, _, _, _, _, _⟩ := s
  unfold State.define
  cases env with
  | none => rfl
  | some names =>
    dsimp only
    cases names.lookup x <;> rfl

theorem State.define_env (s : State) (x : String) (value : Value) :
    (s.define x value).env = s.env := by
  unfold State.define
  split
  · rfl
  split <;> rfl

theorem State.define_top {s : State} (top : s.env = none) (x : String) (value : Value) :
    s.define x value = { s with globals := s.globals.put x value } := by
  unfold State.define
  split
  · rfl
  · next env =>
    rw [top] at env
    cases env

theorem State.define_cell {s : State} {x : String} {cell : CellId}
    (found : s.cell? x = some cell) (value : Value) :
    s.define x value = { s with cells := s.cells.setIfInBounds cell value } := by
  unfold State.cell? at found
  unfold State.define
  split
  · next env =>
    rw [env] at found
    cases found
  · next names env =>
    rw [env] at found
    change names.lookup x = some cell at found
    simp only [found]

/-- A name of the innermost scope, or a global, gets a value. -/
theorem Linked.define (h : Linked texts w m s) (here : w.Current c m.env s.env) {x : String}
    (declared : ∀ s ∈ c.head?, s.Declares x) (value : Value) (ordinary : Ordinary x) :
    Linked texts (w.define m.env x value)
      { m with store := m.store.define m.env x value } (s.define x value) := by
  cases c with
  | nil =>
    have top : m.env = 0 := here.chain
    rw [State.define_top (here.top.2 rfl), top]
    exact (h.setGlobal x value ordinary).setEnv 0 s.env
  | cons inner outer =>
    have near : Context.distance? x (inner :: outer) = some 0 := by
      rw [Context.distance?, if_pos (declared inner rfl)]
    obtain ⟨g, cell, ancestor, known, first⟩ := here.lists.lookup_eq_some near
    obtain rfl : m.env = g := Option.some.inj ancestor
    rw [State.define_cell first]
    exact h.set known value ordinary

/-- A name that is being declared. -/
theorem declares_announce (c : Context) (x : String) :
    ∀ s ∈ (c.announce x).head?, s.Declares x := by
  cases c with
  | nil => exact fun s first => nomatch first
  | cons inner outer =>
    intro s first
    cases first
    exact .inr rfl

theorem declares_declare (c : Context) (x : String) : ∀ s ∈ (c.declare x).head?, s.Declares x := by
  cases c with
  | nil => exact fun s first => nomatch first
  | cons inner outer =>
    intro s first
    cases first
    exact .inl (.head _)

theorem rel_define {name : Token} (value : Value) (known : texts.Knows ⟨.declare name, c⟩) :
    (linked texts).Rel w (c.announce name.lexeme)
      ((linked texts).Keeps (c.declare name.lexeme) fun v _ _ => v.Binds name.lexeme)
      (Run.define name.lexeme value) (define name.lexeme value) := by
  refine rel_of fun m s heap scope => ?_
  have ordinary := (fresh_of_known known).1
  rw [define_eq]
  refine ⟨_, c.declare name.lexeme, w.le_define m.env value ordinary, ?_, ⟨rfl, value, ?_⟩,
    heap.define scope (declares_announce c _) value ordinary, ?_⟩
  · rw [Context.length_declare, Context.length_announce]
  · show (w.layout.frames.define m.env _ _).lookup? w.here _ = _
    rw [Frames.lookup?_define, scope.here, if_pos ⟨rfl, rfl, heap.entered _ scope.entered⟩]
  · show Link.Current _ _ m.env (s.define name.lexeme value).env
    rw [State.define_env]
    exact scope.declare value ordinary

/-- A name that the current frame binds is bound anew there. -/
theorem rel_assignName {name : Token} (value : Value) (ordinary : Ordinary name.lexeme)
    (bound : w.Binds name.lexeme) (declared : ∀ s ∈ c.head?, s.Declares name.lexeme) :
    (linked texts).Rel w c ((linked texts).Gives c) (Run.assignName name value)
      (define name.lexeme value) := by
  refine rel_of fun m s heap scope => ?_
  obtain ⟨old, found⟩ := bound
  rw [heap.frames, scope.here] at found
  have run : Run.assignName name value m = Run.defineIn m.env name.lexeme value m := by
    unfold Run.assignName
    simp only [bind, EStateM.bind, Run.gets, Frames.find?_of_lookup? found, Option.map_some]
  have later := w.le_define m.env value ordinary
  rw [run, define_eq]
  refine ⟨_, c, later, rfl, ⟨rfl, rfl⟩, heap.define scope declared value ordinary, ?_⟩
  show Link.Current _ _ m.env (s.define name.lexeme value).env
  rw [State.define_env]
  exact ⟨scope.toPlace.mono later.toGrows, scope.here, scope.entered, scope.exact⟩

/-- A function sees itself. -/
theorem rel_declareFunction {decl : FunctionDecl}
    (fits : (linked texts).Fits c (.function decl)) :
    (linked texts).Rel w c ((linked texts).Gives (c.declare decl.name.lexeme))
      (Platform.machine.declareFunction decl) (declareFunction decl) := by
  obtain ⟨tidy, known⟩ := fits
  rw [Stmt.occurrences, List.forall_mem_cons] at known
  rw [Stmt.Tidy] at tidy
  have ordinary := (fresh_of_known known.1).1
  show (linked texts).Rel w c _ (pure () >>= fun _ => Platform.machine.declareFunction decl) _
  refine (rel_announce known.1).bind ?_
  rintro v _ _ _ later ⟨rfl, -⟩
  refine rel_of fun m s heap scope => ?_
  have linked := heap.define scope (declares_announce c _) (.function m.store.functions.size)
    ordinary
  have here := scope.declare (.function m.store.functions.size) ordinary
  have callable : Callable texts _ ⟨decl, m.env, false⟩ ⟨decl, s.env, false⟩ :=
    ⟨⟨rfl, rfl⟩, _, here.toPlace, ⟨tidy.2, known.2⟩, fun h => nomatch h⟩
  have made := linked.pushFunction callable
  rw [← State.define_pushFunction] at made
  have plain : (do
      let f ← newFunction ⟨decl, ← gets (·.env), false⟩
      define decl.name.lexeme f : Action Unit) s = .ok () _ :=
    define_eq decl.name.lexeme (.function s.functions.size)
      { s with functions := s.functions.push ⟨decl, s.env, false⟩ }
  rw [heap.functions.size] at plain
  rw [plain]
  refine ⟨_, c.declare decl.name.lexeme, v.le_define m.env _ ordinary, ?_, ⟨rfl, rfl⟩, made, ?_⟩
  · rw [Context.length_declare, Context.length_announce]
  · show Link.Current _ _ m.env (State.define _ _ _).env
    rw [State.define_env]
    exact here

/-! ### Scopes -/

/-- The machine makes a frame for a scope where the plain interpreter extends an environment. -/
theorem rel_openScope {outer : Context} {parent : FrameId} {env : Env} (scope : LexicalScope)
    (place : w.Place outer parent env) (settled : scope.pending = none)
    (pairs : List (String × Value)) (names : scope.names = (pairs.map (·.1)).reverse)
    (distinct : (pairs.map (·.1)).Nodup) (proper : ∀ p ∈ pairs, Proper p.1 p.2) :
    (linked texts).Rel w c
      ((linked texts).Keeps c fun v f own => v.Enterable (scope :: outer) f (some own))
      (Run.newFrame parent (Bindings.ofList pairs)) (extend (env.getD []) pairs) := by
  refine rel_of fun m s heap here => ?_
  rw [extend_eq]
  have later := Link.le_push heap.placed heap.entered scope.site (Bindings.ofList pairs) parent
    (allot s.cells.size (pairs.map (·.1)))
  have linked := heap.push scope.site pairs parent distinct
  have same : m.store.frames.next = w.layout.frames.next := congrArg Frames.next heap.frames.symm
  refine ⟨_, c, later, rfl, ⟨rfl, ⟨?_, ?_, ?_⟩, ?_, ?_, ?_⟩, linked,
    here.toPlace.mono later.toGrows, here.here, here.entered, ?_⟩
  · rw [same]
    refine Layout.Chain.push heap.placed place.chain _ (fun x member => ?_) settled
    rw [names, List.mem_reverse] at member
    obtain ⟨value, found⟩ := Option.isSome_iff_exists.1 ((Bindings.get?_ofList_isSome _ x).2 member)
    exact ⟨value, found, proper _ (Bindings.mem_of_get?_ofList found)⟩
  · refine ⟨allot s.cells.size (pairs.map (·.1)), env.getD [], parent, rfl, ?_, ?_, ?_,
      place.lists.mono later.toGrows⟩
    · rw [map_allot, LexicalScope.own_settled settled, names]
    · exact fun p member => .inr ⟨same, member⟩
    · show (w.layout.frames.push _ _).parent? _ = _
      rw [same, Frames.parent?_push, if_pos rfl]
  · constructor <;> intro none <;> cases none
  · show m.store.frames.next < (w.layout.frames.push _ _).all.size
    rw [same, Frames.size_push]
    exact Nat.lt_succ_self _
  · rw [same]
    exact fun old => Nat.lt_irrefl _ (heap.entered _ old)
  · intro x cell known
    refine ⟨scope, rfl, .inl ?_⟩
    rcases known with known | ⟨-, member⟩
    · rw [same] at known
      exact absurd (heap.cells.inside known).2.1 (Nat.lt_irrefl _)
    · obtain ⟨i, -, name⟩ := mem_allot.1 member
      rw [names, List.mem_reverse]
      exact List.mem_of_getElem? name
  · intro x cell known
    refine here.exact x cell (known.resolve_right fun new => ?_)
    have inside := heap.entered _ here.entered
    have last : m.env = w.layout.frames.next := new.1
    rw [last] at inside
    exact Nat.lt_irrefl _ inside

theorem proper_this (i : InstanceId) : Proper thisName (.object i) :=
  ⟨fun _ => ⟨i, rfl⟩, fun same => by simp [thisName, superName] at same⟩

theorem proper_super (id : ClassId) : Proper superName (.cls id) :=
  ⟨fun same => by simp [thisName, superName] at same, fun _ => ⟨id, rfl⟩⟩

theorem rel_bindMethod {f : Treewalk.Closure} {g : Closure} (i : InstanceId)
    (unbound : Unbound texts w f g) :
    (linked texts).Rel w c
      ((linked texts).Keeps c fun v a b => Callable texts v a b ∧ a.decl = f.decl)
      (Run.bindMethod f i) (bindMethod g i) := by
  obtain ⟨text, outer, place, fits⟩ := unbound
  unfold Run.bindMethod bindMethod
  refine (rel_openScope ⟨.this f.decl, [thisName], none⟩ place rfl [(thisName, .object i)] rfl
    (List.pairwise_singleton _ _) ?_).bind ?_
  · rw [List.forall_mem_singleton]
    exact proper_this i
  · rintro v _ frame names later ⟨rfl, opened⟩
    refine .pure ⟨rfl, ⟨⟨text.decl, text.isInitializer⟩, _, opened.toPlace, fits, fun _ => ?_⟩, rfl⟩
    rw [Context.distance?, if_pos (.inl (.head _))]

theorem rel_newFunction {f : Treewalk.Closure} {g : Closure} (callable : Callable texts w f g) :
    (linked texts).Rel w c ((linked texts).Gives c) (Run.newFunction f) (newFunction g) := by
  refine rel_of fun m s heap here => ?_
  refine ⟨w, c, Link.Le.refl w, rfl, ⟨rfl, ?_⟩, heap.pushFunction callable, here⟩
  rw [heap.functions.size]

theorem rel_boundMethod {f : Treewalk.Closure} {g : Closure} (i : InstanceId)
    (unbound : Unbound texts w f g) :
    (linked texts).Rel w c ((linked texts).Gives c)
      (do Run.newFunction (← Run.bindMethod f i)) (do newFunction (← bindMethod g i)) := by
  refine (rel_bindMethod i unbound).bind ?_
  rintro v _ a b later ⟨rfl, callable, -⟩
  exact rel_newFunction callable

theorem rel_method? (id : ClassId) (name : String) :
    (linked texts).Rel w c ((linked texts).Keeps c fun v => Option.Rel (Unbound texts v))
      (Run.gets (·.store.method? id name)) (gets (·.method? id name)) :=
  rel_gets fun _ _ heap _ => heap.method? id name

/-- A method that is asked for by name, bound to an instance. -/
theorem rel_askMethod (id : ClassId) (i : InstanceId) (name : Token) :
    (linked texts).Rel w c ((linked texts).Gives c)
      (do
        match ← Run.gets (·.store.method? id name.lexeme) with
        | some found => Run.newFunction (← Run.bindMethod found i)
        | none => Run.fault name (.undefinedProperty name.lexeme))
      (do
        match ← gets (·.method? id name.lexeme) with
        | some found => newFunction (← bindMethod found i)
        | none => fault name (.undefinedProperty name.lexeme)) := by
  refine (rel_method? id name.lexeme).bind ?_
  rintro v _ found found' later ⟨rfl, both⟩
  cases both with
  | none => exact rel_fault name not_false
  | some unbound => exact rel_boundMethod i unbound

theorem rel_readProperty (i : InstanceId) (name : Token) :
    (linked texts).Rel w c ((linked texts).Gives c) (Run.readProperty i name)
      (readProperty i name) := by
  unfold Run.readProperty readProperty
  refine (rel_gets (A := fun _ a b => a = b) fun m s heap _ => ?_).bind ?_
  · rw [heap.rest.instances]
  · rintro v _ found _ later ⟨rfl, rfl⟩
    split
    · exact .pure ⟨rfl, rfl⟩
    · exact rel_askMethod _ i name
    · exact rel_fault name not_false

theorem rel_readSuper {id : NodeId} {keyword : Token} (method : Token)
    (known : texts.Knows ⟨.use .super ⟨id, keyword⟩, c⟩) :
    (linked texts).Rel w c ((linked texts).Gives c) (Run.readSuper id keyword method)
      (readSuper keyword method) := by
  obtain ⟨d, this, super⟩ := known.admissible
  have lexeme : keyword.lexeme = superName := known.lexed
  have distance : texts.table.get? id = some (d + 1) := by
    rw [known.distance .super ⟨id, keyword⟩ rfl, lexeme, super]
  unfold Run.readSuper readSuper
  refine rel_known (a := some (d + 1)) (fun m s heap _ => ?_) ?_
  · rw [heap.distances, distance]
  dsimp only
  refine (rel_gets (A := fun _ a b => ∃ k, a = some (.cls k) ∧ b = some (.cls k))
    fun m s heap here => ?_).bind ?_
  · obtain ⟨value, bound, proper, same⟩ := heap.declared here.toPlace super
      (here.chain.pending_ne fun ordinary => ordinary.2 rfl)
    obtain ⟨k, rfl⟩ := proper.2 rfl
    exact ⟨k, bound, same⟩
  rintro v _ _ _ later ⟨rfl, k, rfl, rfl⟩
  refine (rel_gets (A := fun _ a b => ∃ i, a = some (.object i) ∧ b = some (.object i))
    fun m s heap here => ?_).bind ?_
  · obtain ⟨value, bound, proper, same⟩ := heap.declared here.toPlace this
      (here.chain.pending_ne fun ordinary => ordinary.1 rfl)
    obtain ⟨i, rfl⟩ := proper.1 rfl
    exact ⟨i, (if_neg (Nat.succ_ne_zero d)).trans bound, same⟩
  rintro v' _ _ _ later' ⟨rfl, i, rfl, rfl⟩
  exact rel_askMethod k i method

end Plain

end Treewalk
