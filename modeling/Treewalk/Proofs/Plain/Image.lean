import Treewalk.Proofs.Plain.Variables
import Treewalk.Proofs.Scope.Renaming

/-!
# The plain interpreter under other names

A state in which the variables have other names, in the texts and in the environments, goes on as
the state does, as long as every name that the texts mention is found where it was.
-/

namespace Treewalk

namespace Plain

/-! ### Environments -/

/-- The same cells under other names. -/
def renameNames (f : String → String) (names : Names) : Names := names.map fun p => (f p.1, p.2)

def renameEnv (f : String → String) (env : Env) : Env := env.map (renameNames f)

variable {f : String → String} {names : Names} {env : Env} {c : Context}

theorem keys_renameNames (f : String → String) (names : Names) :
    (renameNames f names).map (·.1) = (names.map (·.1)).map f := by
  rw [renameNames, List.map_map, List.map_map]
  rfl

theorem getD_renameEnv (f : String → String) (env : Env) :
    (renameEnv f env).getD [] = renameNames f (env.getD []) := by
  cases env <;> rfl

theorem renameNames_append (f : String → String) (names more : Names) :
    renameNames f (names ++ more) = renameNames f names ++ renameNames f more :=
  List.map_append

theorem renameNames_allot (f : String → String) (first : CellId) (keys : List String) :
    renameNames f (allot first keys) = allot first (keys.map f) := by
  rw [renameNames, allot, allot, List.map_reverse, List.zipIdx_map]
  rfl

/-- Names with cells are found by their place among the names. -/
theorem lookup_eq (names : Names) (x : String) :
    names.lookup x = names[(names.map (·.1)).idxOf x]?.map (·.2) := by
  induction names with
  | nil => rfl
  | cons p rest ih =>
    rw [List.lookup_cons, List.map_cons]
    by_cases same : p.1 = x
    · rw [List.idxOf_cons_eq _ same, same, beq_self_eq_true]
      rfl
    · rw [List.idxOf_cons_ne _ same, beq_false_of_ne (Ne.symm same)]
      exact ih

theorem lookup_renameNames {x : String}
    (place : ((names.map (·.1)).map f).idxOf (f x) = (names.map (·.1)).idxOf x) :
    (renameNames f names).lookup (f x) = names.lookup x := by
  rw [lookup_eq, lookup_eq, keys_renameNames, place, renameNames, List.getElem?_map,
    Option.map_map]
  rfl

/-- The names of an environment are those declared around a place. -/
structure Sees (c : Context) (env : Env) : Prop where
  keys : (env.getD []).map (·.1) = c.names
  top : env = none ↔ c = []

/-! ### States -/

variable (r : Relabel)

def Closure.relabel (g : Closure) : Closure :=
  ⟨g.decl.relabel r, renameEnv r.name g.env, g.isInitializer⟩

def Class.relabel (k : Class) : Class := { k with methods := k.methods.map (Closure.relabel r) }

def State.relabel (s : State) : State :=
  { s with
    functions := s.functions.map (Closure.relabel r)
    classes := s.classes.map (Class.relabel r)
    env := renameEnv r.name s.env }

/-- What `this` and `super` are called nothing else is, before and after. -/
structure Apart : Prop where
  fixed : ∀ {name}, ¬ Ordinary name → r.name name = name
  only : ∀ {name other}, ¬ Ordinary name → r.name other = name → other = name

/-- What is known of the mentions of a text that is run under other names. -/
structure Allowed (o : Occurrence) : Prop where
  admissible : o.Admissible
  lexed : o.mention.Lexed
  keeps : r.Keeps o

/-- A function that may be called. -/
def Placed (g : Closure) : Prop := ∃ c, Sees c g.env ∧ g.decl.Fits r.Named (Allowed r) c

/-- A method that is not bound yet. -/
def Loose (g : Closure) : Prop :=
  ∃ c, Sees c g.env ∧ g.decl.Fits r.Named (Allowed r) (c.enterThis g.decl)

structure Good (s : State) : Prop where
  functions : ∀ g ∈ s.functions, Placed r g
  methods : ∀ k ∈ s.classes, ∀ x g, k.methods.get? x = some g → Loose r g

/-- The plain interpreter and the plain interpreter under other names. -/
@[reducible]
def image : Correspondence Plain.platform Plain.platform where
  World := Unit
  le _ _ := True
  le_refl _ := trivial
  le_trans _ _ := trivial
  relabel := r
  heap _ s t := Good r s ∧ t = { s.relabel r with env := t.env }
  scope _ c env env' := Sees c env ∧ env' = renameEnv r.name env
  inside _ c env env' := Sees c env ∧ env' = renameEnv r.name env
  focus _ _ := ()
  heap_focus := by
    rintro _ _ s t e e' ⟨good, same⟩ _
    refine ⟨⟨good.functions, good.methods⟩, ?_⟩
    show { t with env := e' } = _
    rw [same]
    rfl
  enter inside := inside
  leave := by
    rintro _ _ _ _ e e' o o' s t _ scope _ ⟨good, same⟩
    refine ⟨trivial, scope, ⟨good.functions, good.methods⟩, ?_⟩
    show { t with env := o' } = _
    rw [same]
    rfl
  code _ f g := g = f.relabel r ∧ Placed r f
  code_mono _ h := h
  method _ f g := g = f.relabel r ∧ Loose r f
  method_mono _ h := h
  allowed := Allowed r
  named := r.Named
  stop e e' := e' = e.relabel r
  env_setEnv := platform_env_setEnv
  env_setEnv' := platform_env_setEnv

open Correspondence Recorder

variable {r} {w : Unit} {α β : Type} {s s' : State}

theorem rel_of_image {A : (image r).Post α β} {p : Action α} {q : Action β}
    (h : ∀ s, Good r s → Sees c s.env → (image r).Ends w c A (p s) (q (s.relabel r))) :
    (image r).Rel w c A p q := by
  rintro s t ⟨good, same⟩ ⟨sees, env⟩
  have state : t = s.relabel r := by
    rw [same]
    show { s.relabel r with env := t.env } = _
    rw [show t.env = (s.relabel r).env from env]
  rw [state]
  exact h s good sees

theorem ends_ok {A : (image r).Post α β} {c' : Context} {a : α} {b : β}
    (size : c'.length = c.length) (good : Good r s') (sees : Sees c' s'.env) (post : A w c' a b) :
    (image r).Ends w c A (.ok a s') (.ok b (s'.relabel r)) :=
  ⟨w, c', trivial, size, post, ⟨good, rfl⟩, sees, rfl⟩

theorem rel_gets_image {f : State → α} {g : State → β} {A : Unit → α → β → Prop}
    (h : ∀ s, Good r s → Sees c s.env → A w (f s) (g (s.relabel r))) :
    (image r).Rel w c ((image r).Keeps c A) (gets f) (gets g) :=
  rel_of_image fun s good sees => ends_ok rfl good sees ⟨rfl, h s good sees⟩

/-- What is read off the state is the same under other names. -/
theorem rel_same_image {f : State → α}
    (h : ∀ s, Good r s → Sees c s.env → f (s.relabel r) = f s) :
    (image r).Rel w c ((image r).Gives c) (gets f) (gets f) :=
  rel_gets_image (A := fun _ a b => a = b) fun s good sees => (h s good sees).symm

theorem rel_fault_image {A : (image r).Post α β} (place : Token) {cause : RuntimeError.Cause} :
    (image r).Rel w c A (fault place cause) (fault (place.relabel r) cause) :=
  .throw rfl

/-! ### Variables -/

/-- A name that is kept is found in the same cell, or is the same global. -/
theorem cell?_relabel {x : String} (finds : r.Finds c.names x) (sees : Sees c s.env) :
    (s.relabel r).cell? (r.name x) = s.cell? x := by
  show ((renameEnv r.name s.env).getD []).lookup (r.name x) = (s.env.getD []).lookup x
  rw [getD_renameEnv]
  refine lookup_renameNames ?_
  rw [sees.keys]
  exact finds.place

theorem global_of_cell? {x : String} (finds : r.Finds c.names x) (sees : Sees c s.env)
    (none : s.cell? x = none) : r.name x = x := by
  refine finds.global fun member => ?_
  rw [← sees.keys] at member
  obtain ⟨p, listed, rfl⟩ := List.mem_map.1 member
  exact absurd (List.lookup_eq_none_iff.1 none p listed) (by simp)

theorem lookup?_relabel {x : String} (finds : r.Finds c.names x) (sees : Sees c s.env) :
    (s.relabel r).lookup? (r.name x) = s.lookup? x := by
  rw [State.lookup?, State.lookup?, cell?_relabel finds sees]
  cases found : s.cell? x with
  | some cell => rfl
  | none => exact congrArg s.globals.get? (global_of_cell? finds sees found)

/-- A keyword is found where it was. -/
theorem Apart.finds (apart : Apart r) {x : String} (special : ¬ Ordinary x)
    (names : List String) : r.Finds names x where
  place := Relabel.idxOf_map fun _ _ same =>
    apart.only special (same.trans (apart.fixed special))
  global _ := apart.fixed special

theorem Apart.lookup? (apart : Apart r) {x : String} (special : ¬ Ordinary x) (s : State) :
    (s.relabel r).lookup? x = s.lookup? x := by
  have cell : (s.relabel r).cell? x = s.cell? x := by
    show ((renameEnv r.name s.env).getD []).lookup x = (s.env.getD []).lookup x
    rw [getD_renameEnv]
    have found := lookup_renameNames (apart.finds special ((s.env.getD []).map (·.1))).place
    rw [apart.fixed special] at found
    exact found
  rw [State.lookup?, State.lookup?, cell]
  rfl

theorem not_ordinary_this : ¬ Ordinary thisName := fun ordinary => ordinary.1 rfl

theorem not_ordinary_super : ¬ Ordinary superName := fun ordinary => ordinary.2 rfl

theorem rel_read_image {name : Token} (finds : r.Finds c.names name.lexeme) :
    (image r).Rel w c ((image r).Gives c) (read name) (read (name.rename r)) := by
  refine rel_of_image fun s good sees => ?_
  rw [read_eq, read_eq, Token.rename_lexeme, lookup?_relabel finds sees]
  cases found : s.lookup? name.lexeme with
  | some value => exact ends_ok rfl good sees ⟨rfl, rfl⟩
  | none =>
    have none : s.cell? name.lexeme = none := by
      rw [State.lookup?] at found
      split at found
      · cases found
      · next none => exact none
    rw [global_of_cell? finds sees none]
    exact ⟨rfl, w, c, trivial, rfl, ⟨good, rfl⟩, sees, rfl⟩

theorem rel_readThis_image (apart : Apart r) {keyword : Token} (this : keyword.lexeme = thisName) :
    (image r).Rel w c ((image r).Gives c) (read keyword) (read (keyword.relabel r)) := by
  refine rel_of_image fun s good sees => ?_
  rw [read_eq, read_eq, Token.relabel_lexeme, this, apart.lookup? not_ordinary_this]
  cases s.lookup? thisName with
  | some value => exact ends_ok rfl good sees ⟨rfl, rfl⟩
  | none => exact ⟨rfl, w, c, trivial, rfl, ⟨good, rfl⟩, sees, rfl⟩

theorem rel_assign_image {name : Token} (value : Value) (finds : r.Finds c.names name.lexeme) :
    (image r).Rel w c ((image r).Gives c) (assign name value) (assign (name.rename r) value) := by
  unfold assign
  refine (rel_gets_image (A := fun _ cell cell' => cell' = cell ∧
    (cell = none → r.name name.lexeme = name.lexeme)) fun s good sees => ?_).bind ?_
  · exact ⟨cell?_relabel finds sees, global_of_cell? finds sees⟩
  rintro _ _ _ cell _ ⟨rfl, rfl, global⟩
  cases cell with
  | some cell =>
    refine rel_of_image fun s good sees => ?_
    exact ends_ok rfl ⟨good.functions, good.methods⟩ sees ⟨rfl, rfl⟩
  | none =>
    have same := global rfl
    dsimp only
    rw [Token.rename_lexeme, same]
    refine (rel_same_image fun _ _ _ => rfl).andThen fun _ bound _ => ?_
    cases bound with
    | true =>
      refine rel_of_image fun s good sees => ?_
      exact ends_ok rfl ⟨good.functions, good.methods⟩ sees ⟨rfl, rfl⟩
    | false => exact .throw rfl

/-! ### Methods and properties -/

theorem searchMethod_relabel (s : State) (x : String) (steps : Nat) (k : ClassId) :
    (s.relabel r).searchMethod x steps k = (s.searchMethod x steps k).map (Closure.relabel r) := by
  induction steps generalizing k with
  | zero => rfl
  | succ steps ih =>
    rw [State.searchMethod, State.searchMethod]
    have entry : (s.relabel r).classes[k]? = s.classes[k]?.map (Class.relabel r) :=
      Array.getElem?_map
    rw [entry]
    cases s.classes[k]? with
    | none => rfl
    | some cls =>
      have own : (cls.relabel r).methods.get? x = (cls.methods.get? x).map (Closure.relabel r) :=
        Bindings.get?_map ..
      simp only [Option.map_some, own]
      have sameAbove : (cls.relabel r).superclass = cls.superclass := rfl
      rw [sameAbove]
      cases cls.methods.get? x with
      | some method => rfl
      | none =>
        cases cls.superclass with
        | some above => exact ih above
        | none => rfl

theorem method?_relabel (s : State) (k : ClassId) (x : String) :
    (s.relabel r).method? k x = (s.method? k x).map (Closure.relabel r) := by
  have size : (s.relabel r).classes.size = s.classes.size := Array.size_map
  rw [State.method?, State.method?, size]
  exact searchMethod_relabel ..

theorem Good.searchMethod (good : Good r s) {x : String} {steps : Nat} {k : ClassId} {g : Closure}
    (found : s.searchMethod x steps k = some g) : Loose r g := by
  induction steps generalizing k with
  | zero => cases found
  | succ steps ih =>
    rw [State.searchMethod] at found
    split at found
    · cases found
    · next cls entry =>
      have listed : cls ∈ s.classes := Array.mem_of_getElem? entry
      split at found
      · next method own =>
        cases found
        exact good.methods cls listed x _ own
      · split at found
        · exact ih found
        · cases found

/-- A method is found where it was, or none is. -/
theorem Good.method? (good : Good r s) (k : ClassId) (x : String) :
    Option.Rel (fun f g => g = f.relabel r ∧ Loose r f) (s.method? k x)
      ((s.relabel r).method? k x) := by
  rw [method?_relabel]
  cases found : s.method? k x with
  | none => exact .none
  | some g => exact .some ⟨rfl, good.searchMethod found⟩

/-! ### Environments grow -/

/-- More names on both sides. -/
theorem rel_extend_image (names : Names) (pairs : List (String × Value)) :
    (image r).Rel w c
      ((image r).Keeps c fun _ own own' => own' = renameNames r.name own ∧
        own.map (·.1) = (pairs.map (·.1)).reverse ++ names.map (·.1))
      (extend names pairs)
      (extend (renameNames r.name names) (pairs.map fun p => (r.name p.1, p.2))) := by
  refine rel_of_image fun s good sees => ?_
  have keys : (pairs.map fun p => (r.name p.1, p.2)).map (·.1) =
      (pairs.map (·.1)).map r.name := by
    rw [List.map_map, List.map_map]
    rfl
  have values : (pairs.map fun p => (r.name p.1, p.2)).map (·.2) = pairs.map (·.2) := by
    rw [List.map_map]
    rfl
  rw [extend_eq, extend_eq, keys, values]
  refine ends_ok rfl ⟨good.functions, good.methods⟩ sees ⟨rfl, ?_, ?_⟩
  · rw [renameNames_append, renameNames_allot]
    rfl
  · rw [List.map_append, map_allot]

/-- The names of a new scope stand before those around it. -/
theorem Sees.enter {env : Env} {own : Names} (sees : Sees c env) (site : Site) {keys : List String}
    (named : own.map (·.1) = keys ++ (env.getD []).map (·.1)) :
    Sees (⟨site, keys, none⟩ :: c) (some own) where
  keys := by
    rw [sees.keys] at named
    exact named
  top := by
    constructor
    · exact nofun
    · exact nofun

theorem newFunction_image {g : Closure} (placed : Placed r g) :
    (image r).Rel w c ((image r).Gives c) (newFunction g) (newFunction (g.relabel r)) := by
  refine rel_of_image fun s good sees => ?_
  have made : (s.relabel r).functions.push (g.relabel r) =
      (s.functions.push g).map (Closure.relabel r) := Array.map_push.symm
  have size : (s.relabel r).functions.size = s.functions.size := Array.size_map
  show (image r).Ends w c _ (.ok _ _) (.ok (Value.function (s.relabel r).functions.size)
    { s.relabel r with functions := (s.relabel r).functions.push (g.relabel r) })
  rw [made, size]
  have good' : Good r { s with functions := s.functions.push g } := by
    refine ⟨fun f member => ?_, good.methods⟩
    rcases Array.mem_push.1 member with old | rfl
    · exact good.functions f old
    · exact placed
  exact ends_ok rfl good' sees ⟨rfl, rfl⟩

/-- A method is bound to an instance. -/
theorem rel_bindMethod_image (apart : Apart r) {g : Closure} (i : InstanceId) (loose : Loose r g) :
    (image r).Rel w c
      ((image r).Keeps c fun _ a b => (b = a.relabel r ∧ Placed r a) ∧ a.decl = g.decl)
      (bindMethod g i) (bindMethod (g.relabel r) i) := by
  obtain ⟨outer, sees, fits⟩ := loose
  unfold bindMethod
  have grown := rel_extend_image (r := r) (w := w) (c := c) (g.env.getD []) [(thisName, .object i)]
  have pairs : [(thisName, Value.object i)].map (fun p => (r.name p.1, p.2)) =
      [(thisName, .object i)] := by
    rw [List.map_singleton, apart.fixed not_ordinary_this]
  rw [pairs, ← getD_renameEnv] at grown
  refine grown.bind ?_
  rintro _ _ own _ _ ⟨rfl, rfl, named⟩
  have inside : Sees (outer.enterThis g.decl) (some own) := sees.enter _ named
  exact .pure ⟨rfl, ⟨rfl, outer.enterThis g.decl, inside, fits⟩, rfl⟩

/-- A method that is asked for by name, bound to an instance. -/
theorem rel_askMethod_image (apart : Apart r) (k : ClassId) (i : InstanceId) (name : Token) :
    (image r).Rel w c ((image r).Gives c)
      (do
        match ← gets (·.method? k name.lexeme) with
        | some found => newFunction (← bindMethod found i)
        | none => fault name (.undefinedProperty name.lexeme))
      (do
        match ← gets (·.method? k name.lexeme) with
        | some found => newFunction (← bindMethod found i)
        | none => fault (name.relabel r) (.undefinedProperty name.lexeme)) := by
  refine (rel_gets_image (A := fun _ => Option.Rel fun f g => g = f.relabel r ∧ Loose r f)
    fun s good _ => good.method? k name.lexeme).bind ?_
  rintro _ _ found found' _ ⟨rfl, both⟩
  cases both with
  | none => exact rel_fault_image name
  | some related =>
    obtain ⟨rfl, loose⟩ := related
    refine (rel_bindMethod_image apart i loose).bind ?_
    rintro _ _ a _ _ ⟨rfl, ⟨rfl, placed⟩, -⟩
    exact newFunction_image placed

theorem rel_readProperty_image (apart : Apart r) (i : InstanceId) (name : Token) :
    (image r).Rel w c ((image r).Gives c) (readProperty i name)
      (readProperty i (name.relabel r)) := by
  unfold readProperty
  refine (rel_same_image fun _ _ _ => rfl).andThen fun _ found _ => ?_
  split
  · exact .pure ⟨rfl, rfl⟩
  · exact rel_askMethod_image apart _ i name
  · exact rel_fault_image name

theorem rel_readSuper_image (apart : Apart r) (keyword method : Token) :
    (image r).Rel w c ((image r).Gives c) (readSuper keyword method)
      (readSuper (keyword.relabel r) (method.relabel r)) := by
  unfold readSuper
  refine (rel_same_image fun s _ _ => apart.lookup? not_ordinary_super s).andThen
    fun _ above _ => ?_
  split
  · refine (rel_same_image fun s _ _ => apart.lookup? not_ordinary_this s).andThen
      fun _ this _ => ?_
    split
    · exact rel_askMethod_image apart _ _ method
    · exact rel_fault_image keyword
  · exact rel_fault_image keyword

/-! ### Calls and blocks -/

theorem rel_callee?_image (value : Value) :
    (image r).Rel w c ((image r).Keeps c fun v => Correspondence.Callees v)
      (gets (·.callee? value)) (gets (·.callee? value)) := by
  refine rel_gets_image fun s good _ => ?_
  cases value with
  | clock => exact .clock
  | function id =>
    have entry : (s.relabel r).functions[id]? = s.functions[id]?.map (Closure.relabel r) :=
      Array.getElem?_map
    simp only [State.callee?, entry]
    cases found : s.functions[id]? with
    | none => exact .none
    | some f => exact .function ⟨rfl, good.functions f (Array.mem_of_getElem? found)⟩
  | cls id =>
    have size : (s.relabel r).classes.size = s.classes.size := Array.size_map
    simp only [State.callee?, size]
    split
    · have both := good.method? id initializerName
      generalize s.method? id initializerName = f, (s.relabel r).method? id initializerName = g
        at both ⊢
      cases both with
      | none => exact .cls
      | some related => exact .initialized related
    · exact .none
  | _ => exact .none

theorem rel_enterCall_image {f : Closure} {outer : Context} (sees : Sees outer f.env)
    (arguments : List Value) (size : arguments.length = f.decl.params.length) :
    (image r).Rel w c
      ((image r).Keeps c fun v => (image r).inside v
        ((outer.enter (.function f.decl)).declareAll f.decl.params))
      (Plain.platform.enterCall f arguments)
      (Plain.platform.enterCall (f.relabel r) arguments) := by
  have keys : ((f.decl.params.map (·.lexeme)).zip arguments).map (·.1) =
      f.decl.params.map (·.lexeme) :=
    List.map_fst_zip (Nat.le_of_eq (by rw [List.length_map, size]))
  have params : ((f.relabel r).decl.params.map (·.lexeme)).zip arguments =
      ((f.decl.params.map (·.lexeme)).zip arguments).map fun p => (r.name p.1, p.2) := by
    show ((f.decl.relabel r).params.map (·.lexeme)).zip arguments = _
    rw [FunctionDecl.relabel_params, List.map_map, List.zip_map_left, List.zip_map_left,
      List.map_map]
    rfl
  show (image r).Rel w c _ (some <$> extend (f.env.getD []) _)
    (some <$> extend ((renameEnv r.name f.env).getD []) _)
  rw [params, getD_renameEnv]
  refine (rel_extend_image (f.env.getD []) _).map ?_
  rintro _ _ own _ _ ⟨rfl, rfl, named⟩
  rw [keys] at named
  have scopes : (outer.enter (.function f.decl)).declareAll f.decl.params =
      ⟨.function f.decl, (f.decl.params.map (·.lexeme)).reverse ++ [], none⟩ :: outer :=
    declareAll_cons ..
  rw [scopes, List.append_nil]
  exact ⟨rfl, sees.enter _ named, rfl⟩

theorem rel_receiver_image (apart : Apart r) (f : Closure) :
    (image r).Rel w c ((image r).Gives c) (Plain.platform.receiver f)
      (Plain.platform.receiver (f.relabel r)) := by
  refine rel_gets_image fun s _ _ => ?_
  exact congrArg (·.getD .nil) (apart.lookup? not_ordinary_this { s with env := f.env }).symm

theorem rel_enterBlock_image (body : List Stmt) :
    (image r).Rel w c
      ((image r).Keeps c fun v => (image r).inside v (c.enter (.block body)))
      (gets fun s => some (s.env.getD [])) (gets fun s => some (s.env.getD [])) := by
  refine rel_gets_image fun s _ sees => ⟨sees.enter (.block body) rfl, ?_⟩
  show some ((renameEnv r.name s.env).getD []) = _
  rw [getD_renameEnv]
  rfl

theorem rel_oneDeeper_image {p q : Action Value} (paren : Token)
    (h : (image r).Rel w c ((image r).Gives c) p q) :
    (image r).Rel w c ((image r).Gives c) (oneDeeper paren p)
      (oneDeeper (paren.relabel r) q) := by
  refine rel_of_image fun s good sees => ?_
  have limit : (s.relabel r).atDepthLimit = s.atDepthLimit := rfl
  unfold oneDeeper
  rw [limit]
  split
  · exact ⟨rfl, w, c, trivial, rfl, ⟨good, rfl⟩, sees, rfl⟩
  · have ends := h { s with depth := s.depth + 1 }
      { s.relabel r with depth := (s.relabel r).depth + 1 }
      ⟨⟨good.functions, good.methods⟩, rfl⟩ ⟨sees, rfl⟩
    have back : ∀ {s' t' : State}, (image r).heap w s' t' →
        (image r).heap w { s' with depth := s'.depth - 1 } { t' with depth := t'.depth - 1 } := by
      rintro s' t' ⟨good', same⟩
      refine ⟨⟨good'.functions, good'.methods⟩, ?_⟩
      rw [same]
      rfl
    match p { s with depth := s.depth + 1 },
      q { s.relabel r with depth := (s.relabel r).depth + 1 }, ends with
    | .ok _ s', .ok _ t', ⟨v, c', later, size, post, heap', scope'⟩ =>
      exact ⟨v, c', later, size, post, back heap', scope'⟩
    | .error _ s', .error _ t', ⟨stops, v, c', later, size, heap', scope'⟩ =>
      exact ⟨stops, v, c', later, size, back heap', scope'⟩

/-! ### Declarations -/

theorem names_announce (c : Context) (x : String) : (c.announce x).names = (c.declare x).names := by
  cases c <;> rfl

theorem names_declare {s : LexicalScope} {outer : Context} (settled : s.pending = none)
    (x : String) : (Context.declare (s :: outer) x).names = x :: Context.names (s :: outer) := by
  rw [Context.names, Context.names, Context.declare, List.flatMap_cons, List.flatMap_cons,
    LexicalScope.own_settled settled]
  rfl

/-- A variable is in scope in its own initializer already. -/
theorem Sees.declare {env : Env} {x : String} (sees : Sees (c.announce x) env) :
    Sees (c.declare x) env where
  keys := by rw [sees.keys, names_announce]
  top := by
    rw [sees.top]
    cases c with
    | nil => exact Iff.rfl
    | cons => exact ⟨nofun, nofun⟩

/-- The name declared last is found, or is a global. -/
theorem finds_declared {x : String} (top : c = [] → r.name x = x) :
    r.Finds (c.declare x).names x := by
  cases c with
  | nil => exact ⟨rfl, fun _ => top rfl⟩
  | cons s outer =>
    refine ⟨?_, fun missing => absurd (List.mem_cons_self ..) missing⟩
    show (List.map r.name (x :: _)).idxOf (r.name x) = List.idxOf x (x :: _)
    rw [List.map_cons, List.idxOf_cons_self, List.idxOf_cons_self]

theorem rel_announce_image {x : String} (settled : ∀ s ∈ c.head?, s.pending = none) :
    (image r).Rel w c ((image r).Gives (c.announce x)) (announce x) (announce (r.name x)) := by
  refine rel_of_image fun s good sees => ?_
  rw [announce_eq, announce_eq]
  have renamed : (s.relabel r).env = renameEnv r.name s.env := rfl
  rw [renamed]
  cases c with
  | nil =>
    rw [sees.top.2 rfl]
    exact ends_ok rfl good sees ⟨rfl, rfl⟩
  | cons inner outer =>
    cases env : s.env with
    | none => cases sees.top.1 env
    | some names =>
      have keys := sees.keys
      rw [env] at keys
      have grown : Sees (Context.announce (inner :: outer) x)
          (some (allot s.cells.size [x] ++ names)) := by
        refine ⟨?_, nofun, nofun⟩
        rw [names_announce, names_declare (settled inner rfl), ← keys]
        rfl
      have good' : Good r { s with
          cells := s.cells ++ [Value.nil].toArray
          env := some (allot s.cells.size [x] ++ names) } := ⟨good.functions, good.methods⟩
      exact ends_ok (Context.length_announce ..) good' grown ⟨rfl, rfl⟩

theorem define_relabel {x : String} (finds : r.Finds c.names x) (sees : Sees c s.env)
    (value : Value) : (s.relabel r).define (r.name x) value = (s.define x value).relabel r := by
  cases env : s.env with
  | none =>
    have top : (s.relabel r).env = none := congrArg (renameEnv r.name) env
    have missing : x ∉ c.names := sees.top.1 env ▸ List.not_mem_nil
    rw [State.define_top env, State.define_top top, finds.global missing]
    rfl
  | some names =>
    have place := finds.place
    rw [← sees.keys, env, Option.getD_some] at place
    have renamed : (s.relabel r).env = some (renameNames r.name names) :=
      congrArg (renameEnv r.name) env
    rw [State.define, State.define, env, renamed]
    dsimp only
    rw [lookup_renameNames place]
    cases names.lookup x <;> rfl

theorem Good.define (good : Good r s) (x : String) (value : Value) :
    Good r (s.define x value) := by
  have functions : (s.define x value).functions = s.functions := by
    unfold State.define
    split
    · rfl
    split <;> rfl
  have classes : (s.define x value).classes = s.classes := by
    unfold State.define
    split
    · rfl
    split <;> rfl
  exact ⟨functions ▸ good.functions, classes ▸ good.methods⟩

theorem rel_define_image {x : String} (value : Value) (finds : r.Finds c.names x) :
    (image r).Rel w c ((image r).Gives c) (define x value) (define (r.name x) value) := by
  refine rel_of_image fun s good sees => ?_
  rw [define_eq, define_eq, define_relabel finds sees]
  refine ends_ok rfl (good.define x value) ?_ ⟨rfl, rfl⟩
  rw [State.define_env]
  exact sees

/-- Behind its initializer a variable is declared. -/
theorem rel_declared_image {α β : Type} {x : String} {A : (image r).Post α β} {p : Action α}
    {q : Action β} (h : (image r).Rel w (c.declare x) A p q) :
    (image r).Rel w (c.announce x) A p q := by
  intro s t heap scope
  refine (h s t heap ⟨scope.1.declare, scope.2⟩).weaken trivial ?_
  rw [Context.length_declare, Context.length_announce]

/-! Functions and classes keep their names. -/

theorem rel_announce_named {x : String} (named : r.name x = x)
    (settled : ∀ s ∈ c.head?, s.pending = none) :
    (image r).Rel w c ((image r).Gives (c.announce x)) (announce x) (announce x) := by
  have announced := rel_announce_image (r := r) (w := w) (x := x) settled
  rw [named] at announced
  exact announced

theorem rel_define_named {x : String} (named : r.name x = x) (value : Value) :
    (image r).Rel w (c.declare x) ((image r).Gives (c.declare x)) (define x value)
      (define x value) := by
  have defined := rel_define_image (r := r) (w := w) value
    (finds_declared (c := c) fun _ => named)
  rw [named] at defined
  exact defined

/-- What is known of a name that is declared. -/
theorem settled_of_allowed {name : Token} (allowed : Allowed r ⟨.declare name, c⟩) :
    ∀ s ∈ c.head?, s.pending = none :=
  fun s first => (allowed.admissible s first).1

theorem rel_declareFunction_image {decl : FunctionDecl}
    (fits : (image r).Fits c (.function decl)) :
    (image r).Rel w c ((image r).Gives (c.declare decl.name.lexeme)) (declareFunction decl)
      (declareFunction (decl.relabel r)) := by
  obtain ⟨tidy, allowed⟩ := fits
  rw [Stmt.occurrences, List.forall_mem_cons] at allowed
  rw [Stmt.Tidy] at tidy
  have named : r.name decl.name.lexeme = decl.name.lexeme := tidy.1
  unfold declareFunction
  rw [FunctionDecl.relabel_name, Token.relabel_lexeme]
  refine (rel_announce_named named (settled_of_allowed allowed.1)).andThen
    fun v _ _ => rel_declared_image ?_
  refine (rel_gets_image (A := fun _ env env' => Sees (c.declare decl.name.lexeme) env ∧
    env' = renameEnv r.name env) fun s _ sees => ⟨sees, rfl⟩).bind ?_
  rintro _ _ env _ _ ⟨rfl, sees, rfl⟩
  exact (newFunction_image ⟨c.declare decl.name.lexeme, sees, tidy.2, allowed.2⟩).andThen
    fun _ f _ => rel_define_named named f

theorem rel_readSuperclass_image {ref : Variable} (finds : r.Finds c.names ref.name.lexeme) :
    (image r).Rel w c ((image r).Gives c) (readSuperclass ref)
      (readSuperclass (ref.relabel r)) := by
  unfold readSuperclass
  refine (rel_read_image finds).andThen fun v value _ => ?_
  cases value with
  | cls id => exact .pure ⟨rfl, rfl⟩
  | _ => exact rel_fault_image ref.name

/-- The methods of a class, as pairs with their names. -/
theorem closures_relabel (methods : List FunctionDecl) (env : Env) :
    (methods.map (FunctionDecl.relabel r)).map (fun decl =>
        (decl.name.lexeme, Closure.mk decl (renameEnv r.name env) decl.isInitializer)) =
      (methods.map fun decl => (decl.name.lexeme, Closure.mk decl env decl.isInitializer)).map
        fun p => (p.1, p.2.relabel r) := by
  rw [List.map_map, List.map_map]
  refine List.map_congr_left fun decl _ => ?_
  show ((decl.relabel r).name.lexeme,
    Closure.mk (decl.relabel r) _ (decl.relabel r).isInitializer) = _
  rw [FunctionDecl.relabel_name, FunctionDecl.relabel_isInitializer]
  rfl

theorem newClass_image {k : Class} (loose : ∀ x g, k.methods.get? x = some g → Loose r g) :
    (image r).Rel w c ((image r).Gives c) (newClass k) (newClass (k.relabel r)) := by
  refine rel_of_image fun s good sees => ?_
  have made : (s.relabel r).classes.push (k.relabel r) =
      (s.classes.push k).map (Class.relabel r) := Array.map_push.symm
  have size : (s.relabel r).classes.size = s.classes.size := Array.size_map
  show (image r).Ends w c _ (.ok _ _) (.ok (Value.cls (s.relabel r).classes.size)
    { s.relabel r with classes := (s.relabel r).classes.push (k.relabel r) })
  rw [made, size]
  have good' : Good r { s with classes := s.classes.push k } := by
    refine ⟨good.functions, fun other member => ?_⟩
    rcases Array.mem_push.1 member with old | rfl
    · exact good.methods other old
    · exact loose
  exact ends_ok rfl good' sees ⟨rfl, rfl⟩

variable {name : Token} {superclass : Option Variable} {methods : List FunctionDecl}

/-- The class is made, and its name is bound to it. -/
theorem rel_makeClass_image {above : Option ClassId} {env : Env} {d : Context}
    (named : r.name name.lexeme = name.lexeme) (sees : Sees d env)
    (tidy : FunctionDecl.AllTidy r.Named methods)
    (allowed : ∀ o ∈ FunctionDecl.allOccurrences d methods, Allowed r o) :
    (image r).Rel w (c.declare name.lexeme) ((image r).Gives (c.declare name.lexeme))
      (do define name.lexeme (← newClass ⟨name.lexeme, above, Bindings.ofList (methods.map
        fun decl => (decl.name.lexeme, Closure.mk decl env decl.isInitializer))⟩))
      (do define name.lexeme (← newClass ⟨name.lexeme, above, Bindings.ofList
        ((methods.map (FunctionDecl.relabel r)).map fun decl => (decl.name.lexeme,
          Closure.mk decl (renameEnv r.name env) decl.isInitializer))⟩)) := by
  rw [closures_relabel, ← Bindings.map_ofList]
  refine (newClass_image fun x g found => ?_).andThen fun v cls _ => ?_
  · obtain ⟨decl, member, same⟩ := List.mem_map.1 (Bindings.mem_of_get?_ofList found)
    cases same
    exact ⟨d, sees, FunctionDecl.tidy_of_mem member tidy,
      fun o occurs => allowed o (FunctionDecl.mem_allOccurrences member occurs)⟩
  · exact rel_define_named named cls

theorem rel_declareClass_image (apart : Apart r)
    (fits : (image r).Fits c (.classDecl name superclass methods)) :
    (image r).Rel w c ((image r).Gives (c.declare name.lexeme))
      (declareClass name superclass methods)
      (declareClass (name.relabel r) (superclass.map (Variable.relabel r))
        (methods.map (FunctionDecl.relabel r))) := by
  obtain ⟨tidy, allowed⟩ := fits
  rw [Stmt.Tidy] at tidy
  simp only [Stmt.occurrences, List.forall_mem_cons, List.forall_mem_append] at allowed
  have named : r.name name.lexeme = name.lexeme := tidy.1
  unfold declareClass
  rw [Token.relabel_lexeme]
  refine (rel_announce_named named (settled_of_allowed allowed.1)).andThen
    fun v _ _ => rel_declared_image ?_
  refine (rel_define_named named .nil).andThen fun v' _ _ => ?_
  have environment : ∀ u, (image r).Rel u (c.declare name.lexeme)
      ((image r).Keeps (c.declare name.lexeme) fun _ env env' =>
        Sees (c.declare name.lexeme) env ∧ env' = renameEnv r.name env)
      (gets (·.env)) (gets (·.env)) :=
    fun u => rel_gets_image fun s _ sees => ⟨sees, rfl⟩
  cases superclass with
  | none =>
    simp only [Option.map_none, pure_bind]
    refine (environment v').bind ?_
    rintro _ _ env _ _ ⟨rfl, sees, rfl⟩
    exact rel_makeClass_image named sees tidy.2 allowed.2.2
  | some ref =>
    simp only [Option.map_some, pure_bind, bind_map_left]
    have use := allowed.2.1 ⟨.use .read ref, c.declare name.lexeme⟩ (.head _)
    refine (rel_readSuperclass_image use.keeps).andThen fun u cls _ => ?_
    refine (environment u).bind ?_
    rintro _ _ env _ _ ⟨rfl, sees, rfl⟩
    have pairs : [(superName, Value.cls cls)].map (fun p => (r.name p.1, p.2)) =
        [(superName, .cls cls)] := by
      rw [List.map_singleton, apart.fixed not_ordinary_super]
    have grown := rel_extend_image (r := r) (w := w) (c := c.declare name.lexeme) (env.getD [])
      [(superName, .cls cls)]
    rw [pairs, ← getD_renameEnv] at grown
    refine grown.bind ?_
    rintro _ _ own _ _ ⟨rfl, rfl, keys⟩
    have inside : Sees ((c.declare name.lexeme).enterClass name (some ref) methods) (some own) :=
      sees.enter _ keys
    exact rel_makeClass_image named inside tidy.2 allowed.2.2

/-! ### Instances, clock and output -/

theorem rel_write_image (piece : String) :
    (image r).Rel w c ((image r).Gives c) (write piece) (write piece) := by
  refine rel_of_image fun s good sees => ?_
  unfold write
  have same : (s.relabel r).sink = s.sink := rfl
  rw [same]
  cases s.sink.refusal s.sink.written piece with
  | none => exact ends_ok rfl ⟨good.functions, good.methods⟩ sees ⟨rfl, rfl⟩
  | some r =>
    exact ⟨rfl, w, c, trivial, rfl, ⟨⟨good.functions, good.methods⟩, rfl⟩, sees, rfl⟩

theorem rel_flush_image : (image r).Rel w c ((image r).Gives c) flush flush := by
  refine rel_of_image fun s good sees => ?_
  unfold flush
  have same : (s.relabel r).sink = s.sink := rfl
  rw [same]
  cases s.sink.flushRefusal with
  | none => exact ends_ok rfl good sees ⟨rfl, rfl⟩
  | some message => exact ⟨rfl, w, c, trivial, rfl, ⟨good, rfl⟩, sees, rfl⟩

/-- Functions and classes keep their names, so a value has the text that it had. -/
theorem text_relabel (s : State) (value : Value) : (s.relabel r).text value = s.text value := by
  have className : ∀ k, (s.relabel r).className k = s.className k := by
    intro k
    have entry : (s.relabel r).classes[k]? = s.classes[k]?.map (Class.relabel r) :=
      Array.getElem?_map
    rw [State.className, State.className, entry, Option.map_map]
    rfl
  cases value with
  | bool value => cases value <;> rfl
  | function id =>
    have entry : (s.relabel r).functions[id]? = s.functions[id]?.map (Closure.relabel r) :=
      Array.getElem?_map
    have name : ∀ g : Closure, (g.relabel r).decl.name.lexeme = g.decl.name.lexeme := by
      intro g
      show (g.decl.relabel r).name.lexeme = _
      rw [FunctionDecl.relabel_name, Token.relabel_lexeme]
    rw [State.text, State.text, entry, Option.map_map]
    simp only [Function.comp_def, name]
  | cls id => exact className id
  | object id =>
    rw [State.text, State.text]
    simp only [className]
    rfl
  | _ => rfl

theorem rel_print_image (value : Value) :
    (image r).Rel w c ((image r).Gives c) (print value) (print value) := by
  refine (rel_same_image fun s _ _ => text_relabel s value).andThen fun _ text _ => ?_
  exact (rel_write_image text).andThen fun _ _ _ => rel_write_image "\n"

/-- The plain interpreter under other names stays in step. -/
theorem simulation_image (apart : Apart r) : Simulation (image r) where
  exhausted := rfl
  exhausted_iff := by
    rintro e _ rfl
    cases e <;> simp [Stop.relabel]
  fault _ _ := rfl
  read allowed := rel_read_image allowed.keeps
  readThis allowed := rel_readThis_image apart allowed.lexed
  assign value allowed := rel_assign_image value allowed.keeps
  readSuper method _ := rel_readSuper_image apart _ method
  readProperty := rel_readProperty_image apart
  setField i name value :=
    rel_of_image fun s good sees => ends_ok rfl ⟨good.functions, good.methods⟩ sees ⟨rfl, rfl⟩
  callee? := rel_callee?_image
  oneDeeper := rel_oneDeeper_image
  readClock :=
    rel_of_image fun s good sees => ends_ok rfl ⟨good.functions, good.methods⟩ sees ⟨rfl, rfl⟩
  newInstance _ :=
    rel_of_image fun s good sees => ends_ok rfl ⟨good.functions, good.methods⟩ sees ⟨rfl, rfl⟩
  bindMethod i known := by
    obtain ⟨rfl, loose⟩ := known
    exact rel_bindMethod_image apart i loose
  code_decl known := by
    obtain ⟨rfl, -⟩ := known
    exact ⟨rfl, rfl⟩
  method_params known := by
    obtain ⟨rfl, -⟩ := known
    show (FunctionDecl.relabel r _).params.length = _
    rw [FunctionDecl.relabel_params, List.length_map]
  enterCall arguments known size := by
    obtain ⟨rfl, outer, sees, fits⟩ := known
    exact ⟨outer, fits, fun c => rel_enterCall_image sees arguments size⟩
  receiver known _ := by
    obtain ⟨rfl, -⟩ := known
    exact rel_receiver_image apart _
  enterBlock := rel_enterBlock_image
  declareFunction := rel_declareFunction_image
  declareClass := rel_declareClass_image apart
  announce allowed := rel_announce_image (settled_of_allowed allowed)
  define value allowed :=
    rel_declared_image (rel_define_image value (finds_declared allowed.keeps))
  print := rel_print_image
  flush := rel_flush_image

end Plain

end Treewalk
