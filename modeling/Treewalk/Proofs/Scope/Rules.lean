import Treewalk.Proofs.Scope.Context
import Treewalk.Syntax.Resolution

/-!
# The rules of scopes

What a program has to keep to so that resolution accepts it, said of its text: `Within` lists the
functions, methods and classes around a statement, `Scoped` the names that a scope declares.
`Valid` has the rules, `Violates` the ways to break one, each with the token to blame. There are no
scopes of a walk in any of them, and no order in which a program is looked at.
-/

namespace Treewalk

/-- A function, a method or a class around a place. -/
inductive Enclosure where
  | function (decl : FunctionDecl)
  | method (decl : FunctionDecl)
  | cls (name : Token) (superclass : Option Variable)

namespace Enclosure

def isFunction : Enclosure → Bool
  | .function _ | .method _ => true
  | .cls _ _ => false

def isClass : Enclosure → Bool
  | .cls _ _ => true
  | .function _ | .method _ => false

end Enclosure

/-- The statement stands in the program, with the enclosures around it, innermost first. -/
inductive Within (program : List Stmt) : List Enclosure → Stmt → Prop where
  | top {s} : s ∈ program → Within program [] s
  | block {around body s} : Within program around (.block body) → s ∈ body →
      Within program around s
  | function {around decl s} : Within program around (.function decl) → s ∈ decl.body →
      Within program (.function decl :: around) s
  | method {around name superclass methods decl s} :
      Within program around (.classDecl name superclass methods) → decl ∈ methods →
      s ∈ decl.body → Within program (.method decl :: .cls name superclass :: around) s
  | thenBranch {around condition s elseBranch} :
      Within program around (.branch condition s elseBranch) → Within program around s
  | elseBranch {around condition thenBranch s} :
      Within program around (.branch condition thenBranch (some s)) → Within program around s
  | loop {around condition s} : Within program around (.loop condition s) →
      Within program around s

/-- The expressions that stand in a statement itself. -/
def Stmt.expressions : Stmt → List Expr
  | .expression value | .print value => [value]
  | .branch condition _ _ | .loop condition _ => [condition]
  | .ret _ value => value.toList
  | .var decl => decl.initializer.toList
  | .varList decls => decls.flatMap fun decl => decl.initializer.toList
  | .block _ | .classDecl _ _ _ | .function _ => []

/-- The variables that a statement declares with `var`. -/
def Stmt.items : Stmt → List VarDecl
  | .var decl => [decl]
  | .varList decls => decls
  | _ => []

/-- The names that the statements of a scope declare in it. -/
def Stmt.allDeclared (body : List Stmt) : List Token := body.flatMap Stmt.declared

/-- The names that a function declares in its scope: parameters and body share one. -/
def FunctionDecl.locals (decl : FunctionDecl) : List Token :=
  decl.params ++ Stmt.allDeclared decl.body

/-- A scope of the program declares these names, one after the other. Globals are in none. -/
inductive Scoped (program : List Stmt) : List Token → Prop where
  | block {around body} : Within program around (.block body) →
      Scoped program (Stmt.allDeclared body)
  | function {around decl} : Within program around (.function decl) → Scoped program decl.locals
  | method {around name superclass methods decl} :
      Within program around (.classDecl name superclass methods) → decl ∈ methods →
      Scoped program decl.locals

/-- A variable is used in an expression that stands within the enclosures. -/
def Uses (program : List Stmt) (around : List Enclosure) (role : Role) (ref : Variable) : Prop :=
  ∃ s, Within program around s ∧ ∃ e ∈ s.expressions, (role, ref) ∈ e.uses

/-- A variable is read in the initializer of an item of a `var` declaration. -/
def ReadsIn (program : List Stmt) (decl : VarDecl) (ref : Variable) : Prop :=
  ∃ around s, Within program around s ∧ decl ∈ s.items ∧
    ∃ e ∈ decl.initializer, (.read, ref) ∈ e.uses

/-- The rules. -/
structure Valid (program : List Stmt) : Prop where
  /-- No scope declares a name twice. -/
  distinct : ∀ {names}, Scoped program names → (names.map (·.lexeme)).Nodup
  /-- No variable is read in its own initializer, be it a global or not. -/
  initializers : ∀ {decl ref}, ReadsIn program decl ref → ref.name.lexeme ≠ decl.name.lexeme
  /-- Every `return` is in a function or method. -/
  returns : ∀ {around keyword value}, Within program around (.ret keyword value) →
    ∃ e ∈ around, e.isFunction
  /-- No `return` of an `init` method has a value. -/
  values : ∀ {around keyword value decl}, Within program around (.ret keyword (some value)) →
    around.find? Enclosure.isFunction = some (.method decl) → decl.name.lexeme ≠ initializerName
  /-- Every `this` is in a class. -/
  this : ∀ {around ref}, Uses program around .this ref → ∃ e ∈ around, e.isClass
  /-- Every `super` is in a class, and the innermost one has a superclass. -/
  super : ∀ {around ref}, Uses program around .super ref →
    ∃ name superclass, around.find? Enclosure.isClass = some (.cls name (some superclass))
  /-- No class names itself as its superclass. -/
  inherits : ∀ {around name superclass methods},
    Within program around (.classDecl name (some superclass) methods) →
    superclass.name.lexeme ≠ name.lexeme

/-- The token breaks the rule that the cause of the error speaks of. -/
inductive Violates (program : List Stmt) : ScopeError → Prop where
  | declaredTwice {before after name earlier} : Scoped program (before ++ name :: after) →
      earlier ∈ before → earlier.lexeme = name.lexeme → Violates program ⟨name, .declaredTwice⟩
  | ownInitializer {decl ref} : ReadsIn program decl ref →
      ref.name.lexeme = decl.name.lexeme → Violates program ⟨ref.name, .ownInitializer⟩
  | returnOutside {around keyword value} : Within program around (.ret keyword value) →
      (∀ e ∈ around, ¬ e.isFunction) → Violates program ⟨keyword, .returnOutside⟩
  | returnValue {around keyword value decl} :
      Within program around (.ret keyword (some value)) →
      around.find? Enclosure.isFunction = some (.method decl) →
      decl.name.lexeme = initializerName → Violates program ⟨keyword, .returnValueFromInitializer⟩
  | thisOutside {around ref} : Uses program around .this ref → (∀ e ∈ around, ¬ e.isClass) →
      Violates program ⟨ref.name, .thisOutside⟩
  | superOutside {around ref} : Uses program around .super ref → (∀ e ∈ around, ¬ e.isClass) →
      Violates program ⟨ref.name, .superOutside⟩
  | superWithoutSuperclass {around ref name} : Uses program around .super ref →
      around.find? Enclosure.isClass = some (.cls name none) →
      Violates program ⟨ref.name, .superWithoutSuperclass⟩
  | inheritsFromItself {around name superclass methods} :
      Within program around (.classDecl name (some superclass) methods) →
      superclass.name.lexeme = name.lexeme →
      Violates program ⟨superclass.name, .inheritsFromItself⟩

/-- A valid program breaks no rule anywhere. -/
theorem Valid.not_violates {program : List Stmt} (valid : Valid program) (e : ScopeError) :
    ¬ Violates program e := by
  intro violates
  cases violates with
  | declaredTwice scope member same =>
    have distinct := valid.distinct scope
    rw [List.map_append, List.map_cons] at distinct
    exact (List.nodup_append.1 distinct).2.2 _ (List.mem_map_of_mem member) _ (.head _) same
  | ownInitializer reads same => exact valid.initializers reads same
  | returnOutside place outside =>
    obtain ⟨e, member, function⟩ := valid.returns place
    exact outside e member function
  | returnValue place inner named => exact valid.values place inner named
  | thisOutside uses outside =>
    obtain ⟨e, member, cls⟩ := valid.this uses
    exact outside e member cls
  | superOutside uses outside =>
    obtain ⟨name, superclass, inner⟩ := valid.super uses
    exact outside _ (List.mem_of_find?_eq_some inner) rfl
  | superWithoutSuperclass uses inner =>
    obtain ⟨name, superclass, inner'⟩ := valid.super uses
    rw [inner] at inner'
    cases inner'
  | inheritsFromItself place same => exact valid.inherits place same

/-! ## What the walk keeps of the enclosures -/

/-- The kind of function that an enclosure makes of its body. -/
def Enclosure.functionKind : Enclosure → FunctionKind
  | .function _ => .function
  | .method decl => if decl.name.lexeme = initializerName then .initializer else .method
  | .cls _ _ => .none

def Enclosure.classKind : Enclosure → ClassKind
  | .cls _ (some _) => .subclass
  | .cls _ none => .base
  | .function _ | .method _ => .none

/-- The surroundings of a place, from the enclosures around it. -/
def surroundings (around : List Enclosure) : Surroundings where
  inFunction := ((around.find? Enclosure.isFunction).map Enclosure.functionKind).getD .none
  inClass := ((around.find? Enclosure.isClass).map Enclosure.classKind).getD .none

section surroundings

variable {around : List Enclosure}

theorem inFunction_eq_none : (surroundings around).inFunction = .none ↔
    ∀ e ∈ around, ¬ e.isFunction := by
  rw [surroundings]
  cases found : around.find? Enclosure.isFunction with
  | none => simpa using found
  | some e =>
    have function := List.find?_some found
    refine iff_of_false ?_ fun outside =>
      outside e (List.mem_of_find?_eq_some found) function
    cases e with
    | function decl => simp [Enclosure.functionKind]
    | method decl =>
      simp only [Option.map_some, Option.getD_some, Enclosure.functionKind]
      split <;> simp
    | cls name superclass => cases function

theorem inFunction_eq_initializer : (surroundings around).inFunction = .initializer ↔
    ∃ decl, around.find? Enclosure.isFunction = some (.method decl) ∧
      decl.name.lexeme = initializerName := by
  rw [surroundings]
  cases around.find? Enclosure.isFunction with
  | none => simp
  | some e => cases e <;> simp [Enclosure.functionKind]

theorem inClass_eq_none : (surroundings around).inClass = .none ↔
    ∀ e ∈ around, ¬ e.isClass := by
  rw [surroundings]
  cases found : around.find? Enclosure.isClass with
  | none => simpa using found
  | some e =>
    have cls := List.find?_some found
    refine iff_of_false ?_ fun outside => outside e (List.mem_of_find?_eq_some found) cls
    cases e with
    | function decl | method decl => cases cls
    | cls name superclass => cases superclass <;> simp [Enclosure.classKind]

theorem inClass_eq_base : (surroundings around).inClass = .base ↔
    ∃ name, around.find? Enclosure.isClass = some (.cls name none) := by
  rw [surroundings]
  cases around.find? Enclosure.isClass with
  | none => simp
  | some e =>
    cases e with
    | function decl | method decl => simp [Enclosure.classKind]
    | cls name superclass => cases superclass <;> simp [Enclosure.classKind]

theorem inClass_eq_subclass : (surroundings around).inClass = .subclass ↔
    ∃ name superclass, around.find? Enclosure.isClass = some (.cls name (some superclass)) := by
  rw [surroundings]
  cases around.find? Enclosure.isClass with
  | none => simp
  | some e =>
    cases e with
    | function decl | method decl => simp [Enclosure.classKind]
    | cls name superclass => cases superclass <;> simp [Enclosure.classKind]

end surroundings

end Treewalk
