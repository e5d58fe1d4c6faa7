import Treewalk.Proofs.Plain.Cells
import Treewalk.Proofs.Scope.Mirror

/-!
# The plain interpreter beside the machine

`Linked` says that the machine and the plain interpreter are in the same state: what a frame binds
is in a cell, or among the globals, and whatever can be called sees the same names on both sides.
`Plain.linked` is the correspondence between the two platforms.
-/

namespace Treewalk

open Plain

theorem of_rel_left {α β : Type} {R : α → β → Prop} {o : Option α} {o' : Option β}
    (h : Option.Rel R o o') {a : α} (found : o = some a) : ∃ b, o' = some b ∧ R a b := by
  subst found
  cases h with
  | some related => exact ⟨_, rfl, related⟩

theorem of_rel_right {α β : Type} {R : α → β → Prop} {o : Option α} {o' : Option β}
    (h : Option.Rel R o o') {b : β} (found : o' = some b) : ∃ a, o = some a ∧ R a b := by
  subst found
  cases h with
  | some related => exact ⟨_, rfl, related⟩

/-- A function value, or a method of a class. -/
def Store.Holds (s : Store) (f : Closure) : Prop :=
  f ∈ s.functions ∨ ∃ k ∈ s.classes, ∃ name, k.methods.get? name = some f

/-- Two arrays with entries that belong together. -/
structure Paired {α β : Type} (R : α → β → Prop) (xs : Array α) (ys : Array β) : Prop where
  size : ys.size = xs.size
  each : ∀ i : Nat, Option.Rel R xs[i]? ys[i]?

namespace Paired

variable {α β : Type} {R R' : α → β → Prop} {xs : Array α} {ys : Array β}

theorem mono (h : Paired R xs ys) (weaker : ∀ a b, R a b → R' a b) : Paired R' xs ys where
  size := h.size
  each i := by
    have both := h.each i
    generalize xs[i]? = x, ys[i]? = y at both ⊢
    cases both with
    | none => exact .none
    | some related => exact .some (weaker _ _ related)

theorem push (h : Paired R xs ys) {a : α} {b : β} (related : R a b) :
    Paired R (xs.push a) (ys.push b) where
  size := by rw [Array.size_push, Array.size_push, h.size]
  each i := by
    rw [Array.getElem?_push, Array.getElem?_push, h.size]
    split
    · exact .some related
    · exact h.each i

theorem left (h : Paired R xs ys) {a : α} (member : a ∈ xs) : ∃ b, R a b := by
  obtain ⟨i, found⟩ := Array.mem_iff_getElem?.1 member
  obtain ⟨b, -, related⟩ := of_rel_left (h.each i) found
  exact ⟨b, related⟩

theorem right (h : Paired R xs ys) {b : β} (member : b ∈ ys) : ∃ a, R a b := by
  obtain ⟨i, found⟩ := Array.mem_iff_getElem?.1 member
  obtain ⟨a, -, related⟩ := of_rel_right (h.each i) found
  exact ⟨a, related⟩

end Paired

namespace Link

/-- The link with a name bound anew in a frame. -/
def define (w : Link) (f : FrameId) (name : String) (value : Value) : Link :=
  { w with layout := w.layout.define f name value }

/-- The link with a new frame for a scope, in which these names have cells. -/
def push (w : Link) (site : Site) (values : Bindings Value) (parent : FrameId) (own : Names) :
    Link :=
  { w.extend w.layout.frames.next own with layout := w.layout.push site values parent }

variable {w : Link} {c : Context} {f : FrameId} {name : String}

theorem le_define (f : FrameId) (value : Value) (ordinary : Ordinary name) :
    w.Le (w.define f name value) :=
  ⟨⟨Layout.le_define w.layout f value ordinary, fun _ _ _ h => h⟩, rfl, fun _ h => h,
    fun _ _ _ _ _ h => h⟩

/-- The current frame binds the name. -/
def Binds (w : Link) (name : String) : Prop :=
  ∃ value, w.layout.frames.lookup? w.here name = some value

theorem Binds.mono {v : Link} (h : w.Binds name) (ordinary : Ordinary name) (grown : w.Le v) :
    v.Binds name := by
  obtain ⟨value, found⟩ := h
  obtain ⟨value', found', -⟩ := grown.layout.bound _ _ value found (ordinary.proper value)
  exact ⟨value', grown.here ▸ found'⟩

/-- The current frame may get names. -/
theorem le_extend (own : Names) : w.Le (w.extend w.here own) where
  layout := .refl _
  cell _ _ _ h := .inl h
  here := rfl
  entered _ h := h
  closed _ _ _ _ other h := h.resolve_right fun new => other new.1

theorem le_push (placed : w.layout.Placed)
    (entered : ∀ f, w.entered f → f < w.layout.frames.all.size) (site : Site)
    (values : Bindings Value) (parent : FrameId) (own : Names) :
    w.Le (w.push site values parent own) where
  layout := Layout.le_push placed site values parent
  cell _ _ _ h := .inl h
  here := rfl
  entered _ h := h
  closed _ _ _ known _ h := by
    refine h.resolve_right fun new => ?_
    exact absurd (entered _ known) (Nat.not_lt_of_le (Nat.le_of_eq new.1.symm))

theorem grows_enter (w : Link) (f : FrameId) : w.Grows (w.enter f) :=
  ⟨.refl _, fun _ _ _ h => h⟩

/-- The run is in this frame, and this is what the place means on both sides. -/
structure Current (w : Link) (c : Context) (f : FrameId) (env : Env) : Prop extends
    Place w c f env where
  here : w.here = f
  entered : w.entered f
  exact : w.Exact c f

/-- The frame was made to be entered, and this is what the place means on both sides. -/
structure Enterable (w : Link) (c : Context) (f : FrameId) (env : Env) : Prop extends
    Place w c f env where
  size : f < w.layout.frames.all.size
  new : ¬ w.entered f
  exact : w.Exact c f

theorem Enterable.enter {env : Env} (h : w.Enterable c f env) : (w.enter f).Current c f env where
  toPlace := h.toPlace.mono (w.grows_enter f)
  here := rfl
  entered := .inl rfl
  exact := h.exact

/-- A run in another frame adds no names to the frame that it comes back to. -/
theorem Current.back {v : Link} {inner : Context} {g : FrameId} {env env' : Env}
    (inside : v.Enterable inner g env') (h : v.Current c f env) (grown : (v.enter g).Le w) :
    v.Le (w.enter f) ∧ (w.enter f).Current c f env := by
  have le : v.Le (w.enter f) := by
    refine ⟨⟨grown.layout, grown.cell⟩, h.here.symm,
      fun e known => .inr (grown.entered e (.inr known)), fun e x cell known _ new => ?_⟩
    have other : e ≠ g := fun same => inside.new (same ▸ known)
    exact grown.closed e x cell (.inr known) other new
  refine ⟨le, h.toPlace.mono le.toGrows, rfl, .inl rfl, fun x cell known => ?_⟩
  have other : f ≠ g := fun same => inside.new (same ▸ h.entered)
  exact h.exact x cell (grown.closed f x cell (.inr h.entered) other known)

/-- Behind its initializer a variable is declared. -/
theorem Current.declare {env : Env} (h : w.Current (c.announce name) f env) (value : Value)
    (ordinary : Ordinary name) : (w.define f name value).Current (c.declare name) f env := by
  have later := w.le_define f value ordinary
  refine ⟨⟨h.chain.define_announced value ordinary, ?_, ?_⟩, h.here, h.entered, ?_⟩
  · cases c with
    | nil => exact h.lists
    | cons inner outer =>
      obtain ⟨own, rest, g, names, declared, cells, parent, others⟩ := h.lists
      exact ⟨own, rest, g, names, declared, cells, (Frames.parent?_define ..).trans parent,
        others.mono later.toGrows⟩
  · rw [h.top]
    cases c with
    | nil => exact Iff.rfl
    | cons => constructor <;> intro none <;> cases none
  · intro y cell known
    obtain ⟨inner, first, declares⟩ := h.exact y cell known
    cases c with
    | nil => cases first
    | cons s outer =>
      cases first
      refine ⟨_, rfl, .inl ?_⟩
      rcases declares with member | pending
      · exact .tail _ member
      · obtain rfl : name = y := Option.some.inj pending
        exact .head _

end Link

namespace Plain

/-- A function of the machine and one of the plain interpreter with the same text. -/
structure SameText (f : Treewalk.Closure) (g : Closure) : Prop where
  decl : g.decl = f.decl
  isInitializer : g.isInitializer = f.isInitializer

variable (texts : Texts)

/-- A function that may be called, with the names that it sees. -/
def Callable (w : Link) (f : Treewalk.Closure) (g : Closure) : Prop :=
  SameText f g ∧ ∃ c, w.Place c f.frame g.env ∧ f.decl.Fits texts.named texts.Knows c ∧
    (f.isInitializer = true → c.distance? thisName = some 0)

/-- A method, around which the scope of `this` is still to come. -/
def Unbound (w : Link) (f : Treewalk.Closure) (g : Closure) : Prop :=
  SameText f g ∧ ∃ c, w.Place c f.frame g.env ∧
    f.decl.Fits texts.named texts.Knows (c.enterThis f.decl)

structure SameClass (w : Link) (c : Treewalk.Class) (d : Class) : Prop where
  name : d.name = c.name
  superclass : d.superclass = c.superclass
  methods : ∀ x, Option.Rel (Unbound texts w) (c.methods.get? x) (d.methods.get? x)

/-- What does not depend on how variables are kept is the same. -/
structure SameRest (m : Machine) (s : State) : Prop where
  instances : s.instances = m.store.instances
  depth : s.depth = m.depth
  depthLimit : s.depthLimit = m.depthLimit
  sink : s.sink = m.sink
  clock : s.clock = m.clock
  ticks : s.ticks = m.ticks

structure Linked (w : Link) (m : Machine) (s : State) : Prop where
  frames : w.layout.frames = m.store.frames
  placed : w.layout.Placed
  entered : ∀ f, w.entered f → f < w.layout.frames.all.size
  cells : Cells w.layout.frames w.cell s.cells
  global : m.globals = 0
  size : 0 < w.layout.frames.all.size
  root : w.layout.frames.parent? 0 = none
  globals : ∀ x, s.globals.get? x = w.layout.frames.lookup? 0 x
  distances : m.distances = texts.table
  functions : Paired (Callable texts w) m.store.functions s.functions
  classes : Paired (SameClass texts w) m.store.classes s.classes
  rest : SameRest m s

variable {texts} {v w : Link} {c : Context} {f : Treewalk.Closure} {g : Closure} {m : Machine}
  {s : State}

theorem Callable.mono (h : Callable texts v f g) (grown : v.Grows w) : Callable texts w f g := by
  obtain ⟨text, c, place, rest⟩ := h
  exact ⟨text, c, place.mono grown, rest⟩

theorem Unbound.mono (h : Unbound texts v f g) (grown : v.Grows w) : Unbound texts w f g := by
  obtain ⟨text, c, place, rest⟩ := h
  exact ⟨text, c, place.mono grown, rest⟩

theorem SameClass.mono {c : Treewalk.Class} {d : Class} (h : SameClass texts v c d)
    (grown : v.Grows w) : SameClass texts w c d where
  name := h.name
  superclass := h.superclass
  methods x := by
    have both := h.methods x
    generalize c.methods.get? x = method, d.methods.get? x = method' at both ⊢
    cases both with
    | none => exact .none
    | some related => exact .some (related.mono grown)

namespace Linked

variable (h : Linked texts w m s)
include h

/-- What can be called is of a text that is known. -/
theorem fits (held : m.store.Holds f) : ∃ c, f.decl.Fits texts.named texts.Knows c := by
  rcases held with isFunction | ⟨k, isClass, x, own⟩
  · obtain ⟨-, -, c, -, fits, -⟩ := h.functions.left isFunction
    exact ⟨c, fits⟩
  · obtain ⟨k', same⟩ := h.classes.left isClass
    obtain ⟨-, -, -, c, -, fits⟩ := of_rel_left (same.methods x) own
    exact ⟨_, fits⟩

/-- Another frame is the current one. -/
theorem setEnv (f : FrameId) (env : Env) :
    Linked texts w { m with env := f } { s with env := env } :=
  ⟨h.frames, h.placed, h.entered, h.cells, h.global, h.size, h.root, h.globals, h.distances,
    h.functions, h.classes, ⟨h.rest.instances, h.rest.depth, h.rest.depthLimit, h.rest.sink,
      h.rest.clock, h.rest.ticks⟩⟩

theorem enter {f : FrameId} (size : f < w.layout.frames.all.size) :
    Linked texts (w.enter f) m s where
  frames := h.frames
  placed := h.placed
  entered g known := by
    rcases known with rfl | known
    · exact size
    · exact h.entered g known
  cells := h.cells
  global := h.global
  size := h.size
  root := h.root
  globals := h.globals
  distances := h.distances
  functions := h.functions.mono fun _ _ known => known.mono (w.grows_enter f)
  classes := h.classes.mono fun _ _ known => known.mono (w.grows_enter f)
  rest := h.rest

/-! ### What both sides find -/

/-- A variable that is declared at a place, and not only about to be, has the value that the machine
finds at its distance. -/
theorem declared {f : FrameId} {env : Env} (place : w.Place c f env) {x : String} {d : Nat}
    (found : c.distance? x = some d) (complete : ∀ s ∈ c, s.pending ≠ some x) :
    ∃ value, m.store.frames.getAt? f d x = some value ∧ Proper x value ∧
      ({ s with env } : State).lookup? x = some value := by
  obtain ⟨value, bound, proper⟩ := place.chain.getAt? found complete
  obtain ⟨g, cell, ancestor, known, first⟩ := place.lists.lookup_eq_some found
  rw [Frames.getAt?, ancestor, Option.bind_some] at bound
  refine ⟨value, ?_, proper, ?_⟩
  · rw [← h.frames, Frames.getAt?, ancestor, Option.bind_some, bound]
  · have same : ({ s with env } : State).cell? x = some cell := first
    rw [State.lookup?, same]
    exact congrArg (fun held => some (held.getD .nil)) (h.cells.holds known bound)

/-- The global frame is the outermost one. -/
theorem find?_global (x : String) :
    m.store.frames.find? 0 x = (m.store.frames.lookup? 0 x).map (0, ·) := by
  have size := h.size
  have root := h.root
  rw [h.frames] at size root
  rw [Frames.find?]
  obtain ⟨n, size⟩ := Nat.exists_eq_succ_of_ne_zero (Nat.pos_iff_ne_zero.1 size)
  rw [size, Frames.search, root]
  cases m.store.frames.lookup? 0 x <;> rfl

theorem get?_global (x : String) : m.store.frames.get? 0 x = s.globals.get? x := by
  rw [Frames.get?, h.find?_global, h.globals, h.frames]
  cases m.store.frames.lookup? 0 x <;> rfl

theorem not_global {f : FrameId} {env : Env} (place : w.Place c f env) (inner : c ≠ []) :
    f ≠ 0 := by
  cases c with
  | nil => exact absurd rfl inner
  | cons s outer =>
    obtain ⟨-, g, parent, -⟩ := place.chain
    rintro rfl
    rw [h.root] at parent
    cases parent

/-! ### What both sides change -/

/-- A variable gets the same value on both sides. -/
theorem set {f : FrameId} {x : String} {cell : CellId} (known : w.cell f x cell) (value : Value)
    (ordinary : Ordinary x) :
    Linked texts (w.define f x value) { m with store := m.store.define f x value }
      { s with cells := s.cells.setIfInBounds cell value } where
  frames := congrArg (Frames.define · f x value) h.frames
  placed := h.placed.define value
  entered g inside := by
    show g < (w.layout.frames.define f x value).all.size
    rw [Frames.size_define]
    exact h.entered g inside
  cells := h.cells.set known value
  global := h.global
  size := by
    show 0 < (w.layout.frames.define f x value).all.size
    rw [Frames.size_define]
    exact h.size
  root := (Frames.parent?_define ..).trans h.root
  globals y := by
    show _ = (w.layout.frames.define f x value).lookup? 0 y
    rw [Frames.lookup?_define, if_neg fun same => (h.cells.inside known).1 same.1.symm]
    exact h.globals y
  distances := h.distances
  functions := h.functions.mono fun _ _ known =>
    known.mono (Link.le_define f value ordinary).toGrows
  classes := h.classes.mono fun _ _ known => known.mono (Link.le_define f value ordinary).toGrows
  rest := ⟨h.rest.instances, h.rest.depth, h.rest.depthLimit, h.rest.sink, h.rest.clock,
    h.rest.ticks⟩

theorem setGlobal (x : String) (value : Value) (ordinary : Ordinary x) :
    Linked texts (w.define 0 x value) { m with store := m.store.define 0 x value }
      { s with globals := s.globals.put x value } where
  frames := congrArg (Frames.define · 0 x value) h.frames
  placed := h.placed.define value
  entered g inside := by
    show g < (w.layout.frames.define 0 x value).all.size
    rw [Frames.size_define]
    exact h.entered g inside
  cells := h.cells.setGlobal x value
  global := h.global
  size := by
    show 0 < (w.layout.frames.define 0 x value).all.size
    rw [Frames.size_define]
    exact h.size
  root := (Frames.parent?_define ..).trans h.root
  globals y := by
    show _ = (w.layout.frames.define 0 x value).lookup? 0 y
    rw [Frames.lookup?_define, Bindings.get?_put, h.globals]
    simp only [true_and, h.size, and_true]
  distances := h.distances
  functions := h.functions.mono fun _ _ known =>
    known.mono (Link.le_define 0 value ordinary).toGrows
  classes := h.classes.mono fun _ _ known => known.mono (Link.le_define 0 value ordinary).toGrows
  rest := ⟨h.rest.instances, h.rest.depth, h.rest.depthLimit, h.rest.sink, h.rest.clock,
    h.rest.ticks⟩

/-- The machine makes a frame for a scope, the plain interpreter cells for its names. -/
theorem push (site : Site) (pairs : List (String × Value)) (parent : FrameId)
    (distinct : (pairs.map (·.1)).Nodup) :
    Linked texts
      (w.push site (Bindings.ofList pairs) parent (allot s.cells.size (pairs.map (·.1))))
      { m with store := m.store.pushFrame (Bindings.ofList pairs) (some parent) }
      { s with cells := s.cells ++ (pairs.map (·.2)).toArray } := by
  have later := Link.le_push h.placed h.entered site (Bindings.ofList pairs) parent
    (allot s.cells.size (pairs.map (·.1)))
  have inner : w.layout.frames.next ≠ 0 := Nat.pos_iff_ne_zero.1 h.size
  refine ⟨congrArg (Frames.push · _ _) h.frames, h.placed.push _ _ _, fun g inside => ?_,
    ?_, h.global, ?_, ?_, fun y => ?_, h.distances,
    h.functions.mono fun _ _ known => known.mono later.toGrows,
    h.classes.mono fun _ _ known => known.mono later.toGrows,
    ⟨h.rest.instances, h.rest.depth, h.rest.depthLimit, h.rest.sink, h.rest.clock,
      h.rest.ticks⟩⟩
  · show g < (w.layout.frames.push _ _).all.size
    rw [Frames.size_push]
    exact Nat.lt_succ_of_lt (h.entered g inside)
  · apply h.cells.allot pairs
    · show w.layout.frames.all.size ≤ (w.layout.frames.push _ _).all.size
      rw [Frames.size_push]
      exact Nat.le_succ _
    · show w.layout.frames.next < (w.layout.frames.push _ _).all.size
      rw [Frames.size_push]
      exact Nat.lt_succ_self _
    · exact inner
    · exact distinct
    · intro p _ cell known
      exact absurd (h.cells.inside known).2.1 (Nat.lt_irrefl _)
    · intro g x value found
      change (w.layout.frames.push _ _).lookup? g x = _ at found
      rw [Frames.lookup?_push] at found
      split at found
      · next new => exact .inr ⟨new, Bindings.mem_of_get?_ofList found⟩
      · exact .inl found
  · show 0 < (w.layout.frames.push _ _).all.size
    rw [Frames.size_push]
    exact Nat.succ_pos _
  · show (w.layout.frames.push _ _).parent? 0 = none
    rw [Frames.parent?_push, if_neg inner.symm]
    exact h.root
  · show _ = (w.layout.frames.push _ _).lookup? 0 y
    rw [Frames.lookup?_push, if_neg inner.symm]
    exact h.globals y

/-- The plain interpreter makes a cell for a name that the current frame does not bind yet. -/
theorem announce (x : String) (inner : w.here ≠ 0) (entered : w.entered w.here)
    (fresh : ∀ cell, ¬ w.cell w.here x cell) :
    Linked texts (w.extend w.here (allot s.cells.size [x])) m
      { s with cells := s.cells ++ [Value.nil].toArray } := by
  have later := w.le_extend (allot s.cells.size [x])
  refine ⟨h.frames, h.placed, h.entered, ?_, h.global, h.size, h.root, h.globals, h.distances,
    h.functions.mono fun _ _ known => known.mono later.toGrows,
    h.classes.mono fun _ _ known => known.mono later.toGrows,
    ⟨h.rest.instances, h.rest.depth, h.rest.depthLimit, h.rest.sink, h.rest.clock,
      h.rest.ticks⟩⟩
  apply h.cells.allot [(x, Value.nil)] (Nat.le_refl _) (h.entered _ entered) inner
  · exact List.pairwise_singleton _ x
  · intro p member cell
    rw [List.mem_singleton.1 member]
    exact fresh cell
  · exact fun found => .inl found

theorem pushFunction {f : Treewalk.Closure} {g : Closure} (callable : Callable texts w f g) :
    Linked texts w { m with store := m.store.pushFunction f }
      { s with functions := s.functions.push g } :=
  ⟨h.frames, h.placed, h.entered, h.cells, h.global, h.size, h.root, h.globals, h.distances,
    h.functions.push callable, h.classes, ⟨h.rest.instances, h.rest.depth, h.rest.depthLimit,
      h.rest.sink, h.rest.clock, h.rest.ticks⟩⟩

theorem pushClass {k : Treewalk.Class} {k' : Class} (same : SameClass texts w k k') :
    Linked texts w { m with store := m.store.pushClass k }
      { s with classes := s.classes.push k' } :=
  ⟨h.frames, h.placed, h.entered, h.cells, h.global, h.size, h.root, h.globals, h.distances,
    h.functions, h.classes.push same, ⟨h.rest.instances, h.rest.depth, h.rest.depthLimit,
      h.rest.sink, h.rest.clock, h.rest.ticks⟩⟩

end Linked

/-- The machine and the plain interpreter. -/
@[reducible]
def linked (texts : Texts) : Correspondence Platform.machine Plain.platform where
  World := Link
  le := Link.Le
  le_refl := Link.Le.refl
  le_trans := Link.Le.trans
  relabel := .identity
  heap := Linked texts
  scope := Link.Current
  inside := Link.Enterable
  focus := Link.enter
  heap_focus h inside := (h.setEnv _ _).enter inside.size
  enter h := h.enter
  leave inside scope grown h := by
    obtain ⟨le, current⟩ := scope.back inside grown
    exact ⟨le, current, (h.setEnv _ _).enter (h.entered _ (grown.entered _ (.inr scope.entered)))⟩
  code w f g := Callable texts w f g
  code_mono grown h := h.mono grown.toGrows
  method w f g := Unbound texts w f g
  method_mono grown h := h.mono grown.toGrows
  allowed := texts.Knows
  named := texts.named
  stop e e' := e = e' ∧ e.Resolved
  env_setEnv := Platform.machine_env_setEnv
  env_setEnv' := platform_env_setEnv

namespace Linked

variable (h : Linked texts w m s)
include h

/-! ### What both sides can call -/

theorem searchMethod (x : String) (steps : Nat) (id : ClassId) :
    Option.Rel (Unbound texts w) (m.store.searchMethod x steps id) (s.searchMethod x steps id) := by
  induction steps generalizing id with
  | zero => exact .none
  | succ steps ih =>
    rw [Store.searchMethod, State.searchMethod]
    have both := h.classes.each id
    generalize m.store.classes[id]? = k, s.classes[id]? = k' at both ⊢
    cases both with
    | none => exact .none
    | @some k k' same =>
      have own := same.methods x
      dsimp only
      generalize k.methods.get? x = method, k'.methods.get? x = method' at own ⊢
      cases own with
      | some unbound => exact .some unbound
      | none =>
        dsimp only
        rw [same.superclass]
        cases k.superclass with
        | none => exact .none
        | some above => exact ih above

theorem method? (id : ClassId) (x : String) :
    Option.Rel (Unbound texts w) (m.store.method? id x) (s.method? id x) := by
  rw [Store.method?, State.method?, h.classes.size]
  exact h.searchMethod x _ id

theorem callee? (value : Value) :
    Correspondence.Callees (C := linked texts) w
      ((m.store.callable? value).map Store.Callable.callee) (s.callee? value) := by
  cases value with
  | clock => exact .clock
  | function id =>
    have both := h.functions.each id
    show Correspondence.Callees (C := linked texts) w ((m.store.functions[id]?.map _).map _)
      (s.functions[id]?.map _)
    generalize m.store.functions[id]? = f, s.functions[id]? = g at both ⊢
    cases both with
    | none => exact .none
    | some callable => exact .function callable
  | cls id =>
    rw [Store.callable?, State.callee?, h.classes.size]
    split
    · have both := h.method? id initializerName
      generalize m.store.method? id initializerName = f, s.method? id initializerName = g at both ⊢
      cases both with
      | none => exact .cls
      | some unbound => exact .initialized unbound
    · exact .none
  | _ => exact .none

theorem functionName (id : FunctionId) :
    (s.functions[id]?.map (·.decl.name.lexeme)).getD "" = m.store.functionName id := by
  have both := h.functions.each id
  rw [Store.functionName]
  generalize m.store.functions[id]? = f, s.functions[id]? = g at both ⊢
  cases both with
  | none => rfl
  | some callable => exact congrArg (·.name.lexeme) callable.1.decl

theorem className (id : ClassId) : s.className id = m.store.className id := by
  have both := h.classes.each id
  rw [State.className, Store.className]
  generalize m.store.classes[id]? = k, s.classes[id]? = k' at both ⊢
  cases both with
  | none => rfl
  | some same => exact same.name

theorem text (value : Value) : s.text value = m.store.text value := by
  cases value with
  | function id => rw [State.text, Store.text, h.functionName]
  | cls id => exact h.className id
  | object id =>
    rw [State.text, Store.text, Store.instanceClassName, h.rest.instances]
    simp only [h.className]
  | bool b => cases b <;> rfl
  | _ => rfl

end Linked

end Plain

end Treewalk
