import Mathlib.Data.List.Forall2
import Treewalk.Proofs.Scope.Renamed
import Treewalk.Proofs.Scope.Resolved

/-!
# Errors under other names

Giving variables other names can make two of them one, but never one of them two: where a program
breaks a rule of scopes, it still does when it is relabelled. So a program resolves if one that it
is relabelled to does.
-/

namespace Treewalk

open Resolution

namespace Resolution

/-- Whatever the first scope declares the second declares under its other name. -/
def Covers (f : String → String) (scope scope' : Scope) : Prop :=
  ∀ x, (scope.lookup x).isSome = true → (scope'.lookup (f x)).isSome = true

/-- The walks over a program and over the program with other names, between two statements. -/
structure Alongside (f : String → String) (scopes scopes' : List Scope) : Prop where
  covers : List.Forall₂ (Covers f) scopes scopes'
  complete : ∀ scope ∈ scopes, ∀ x, scope.lookup x ≠ some false

/-- What stands in its own initializer in the one walk does in the other one. -/
def Own (f : String → String) (scopes scopes' : List Scope)
    (initializing initializing' : Option String) : Prop :=
  ∀ x, inOwnInitializer scopes initializing x = true →
    inOwnInitializer scopes' initializing' (f x) = true

variable {f : String → String} {scopes scopes' : List Scope}

theorem clean_nil : Clean [] := fun _ member => nomatch member

theorem clean_locate (scopes : List Scope) (id : NodeId) (name : Token) :
    Clean (locate scopes id name) := by
  unfold locate
  split
  · intro e member
    cases List.mem_singleton.1 member
  · exact clean_nil

theorem Alongside.own (h : Alongside f scopes scopes') : Own f scopes scopes' none none := by
  intro x own
  cases scopes with
  | nil => cases own
  | cons scope outer =>
    have incomplete : scope.lookup x = some false := eq_of_beq own
    exact absurd incomplete (h.complete scope (.head _) x)

theorem Alongside.enter (h : Alongside f scopes scopes') :
    Alongside f ([] :: scopes) ([] :: scopes') where
  covers := .cons (fun _ known => nomatch known) h.covers
  complete := List.forall_mem_cons.2 ⟨fun _ => nofun, h.complete⟩

/-- A scope in which one name is declared that stays the same. -/
theorem Alongside.enterOne (h : Alongside f scopes scopes') {name : String}
    (fixed : f name = name) :
    Alongside f ([(name, true)] :: scopes) ([(name, true)] :: scopes') where
  covers := by
    refine .cons (fun x known => ?_) h.covers
    by_cases same : x = name
    · rw [same, fixed]
      simp
    · simp [List.lookup_cons, beq_false_of_ne same] at known
  complete := by
    refine List.forall_mem_cons.2 ⟨fun x => ?_, h.complete⟩
    by_cases same : x = name
    · simp [same]
    · simp [List.lookup_cons, beq_false_of_ne same]

/-- The walks at a declaration, and behind it. -/
structure Declared (f : String → String) (scopes scopes' : List Scope) (name name' : Token) :
    Prop where
  clean : Clean (declare scopes name).1
  own : scopes ≠ [] → Own f (declare scopes name).2 (declare scopes' name').2 none none
  top : scopes = [] ↔ scopes' = []
  behind : Alongside f (define (declare scopes name).2 name)
    (define (declare scopes' name').2 name')

theorem Alongside.declare (h : Alongside f scopes scopes') (name name' : Token)
    (same : name'.lexeme = f name.lexeme) (clean : Clean (declare scopes' name').1) :
    Declared f scopes scopes' name name' := by
  obtain ⟨covers, complete⟩ := h
  cases covers with
  | nil => exact ⟨clean_nil, fun inner => absurd rfl inner, Iff.rfl, .nil, List.forall_mem_nil _⟩
  | @cons scope scope' outer outer' inner others =>
    rw [List.forall_mem_cons] at complete
    rw [Resolution.declare] at clean
    have new' : ¬ (scope'.lookup name'.lexeme).isSome = true := by
      intro known
      rw [if_pos known] at clean
      exact not_clean_fault _ _ clean
    have new : ¬ (scope.lookup name.lexeme).isSome = true := by
      intro known
      apply new'
      rw [same]
      exact inner _ known
    refine ⟨?_, fun _ x own => ?_, ?_, ?_⟩
    · rw [Resolution.declare, if_neg new]
      exact clean_nil
    · simp only [Resolution.declare, if_neg new, if_neg new', inOwnInitializer] at own ⊢
      by_cases this : x = name.lexeme
      · rw [this, same]
        simp
      · simp only [List.lookup_cons, beq_false_of_ne this] at own
        exact absurd (eq_of_beq own) (complete.1 x)
    · constructor <;> intro none <;> cases none
    · simp only [Resolution.declare, if_neg new, if_neg new', define]
      refine ⟨.cons (fun x known => ?_) others, List.forall_mem_cons.2 ⟨fun x => ?_, complete.2⟩⟩
      · by_cases this : x = name.lexeme
        · rw [this, same]
          simp
        · simp only [List.lookup_cons, beq_false_of_ne this] at known
          simp only [List.lookup_cons, same]
          split
          · rfl
          · exact inner x known
      · by_cases this : x = name.lexeme
        · simp [this]
        · simp only [List.lookup_cons, beq_false_of_ne this]
          exact complete.1 x

theorem Alongside.introduceAll {r : Relabel} (h : Alongside r.name scopes scopes')
    (params : List Token)
    (clean : Clean (introduceAll scopes' (params.map (Token.rename r))).1) :
    Clean (Resolution.introduceAll scopes params).1 ∧
      Alongside r.name (Resolution.introduceAll scopes params).2
        (Resolution.introduceAll scopes' (params.map (Token.rename r))).2 := by
  induction params generalizing scopes scopes' with
  | nil => exact ⟨clean_nil, h⟩
  | cons param rest ih =>
    obtain ⟨cleanFirst, cleanRest⟩ := clean_append.1 clean
    have first := h.declare param (param.rename r) rfl cleanFirst
    obtain ⟨others, after⟩ := ih first.behind cleanRest
    exact ⟨clean_append.2 ⟨first.clean, others⟩, after⟩

end Resolution

variable {r : Relabel} {k : ClassKind} {a : Surroundings}

mutual

theorem Expr.clean_of_relabel {scopes scopes' : List Scope} {i i' : Option String}
    (own : Own r.name scopes scopes' i i') :
    (e : Expr) → Clean ((e.relabel r).resolve scopes' k i') → Clean (e.resolve scopes k i)
  | .sequence items, clean => Expr.clean_of_relabelAll own items clean
  | .assign id name value, clean => by
    rw [Expr.relabel, Expr.resolve, clean_append] at clean
    rw [Expr.resolve, clean_append]
    exact ⟨Expr.clean_of_relabel own value clean.1, clean_locate _ _ _⟩
  | .binary left _ right, clean => by
    rw [Expr.relabel, Expr.resolve, clean_append] at clean
    rw [Expr.resolve, clean_append]
    exact ⟨Expr.clean_of_relabel own left clean.1, Expr.clean_of_relabel own right clean.2⟩
  | .call callee _ arguments, clean => by
    rw [Expr.relabel, Expr.resolve, clean_append] at clean
    rw [Expr.resolve, clean_append]
    exact ⟨Expr.clean_of_relabel own callee clean.1,
      Expr.clean_of_relabelAll own arguments clean.2⟩
  | .get object _, clean => Expr.clean_of_relabel own object clean
  | .grouping inner, clean => Expr.clean_of_relabel own inner clean
  | .constant _, _ => clean_nil
  | .logical left _ right, clean => by
    rw [Expr.relabel, Expr.resolve, clean_append] at clean
    rw [Expr.resolve, clean_append]
    exact ⟨Expr.clean_of_relabel own left clean.1, Expr.clean_of_relabel own right clean.2⟩
  | .set object _ value, clean => by
    rw [Expr.relabel, Expr.resolve, clean_append] at clean
    rw [Expr.resolve, clean_append]
    exact ⟨Expr.clean_of_relabel own value clean.1, Expr.clean_of_relabel own object clean.2⟩
  | .super id keyword _, clean => by
    cases k with
    | none | base => exact absurd (clean_append.1 clean).1 (not_clean_fault _ _)
    | subclass => exact clean_locate _ _ _
  | .this id keyword, clean => by
    cases k with
    | none => exact absurd clean (not_clean_fault _ _)
    | base | subclass => exact clean_locate _ _ _
  | .unary _ right, clean => Expr.clean_of_relabel own right clean
  | .read ref, clean => by
    rw [Expr.relabel, Expr.resolve, clean_append] at clean
    rw [Expr.resolve, clean_append]
    refine ⟨?_, clean_locate _ _ _⟩
    split
    · next inside =>
      have inside' := own _ inside
      rw [Variable.relabel_name, Token.rename_lexeme, if_pos inside'] at clean
      exact absurd clean.1 (not_clean_fault _ _)
    · exact clean_nil

theorem Expr.clean_of_relabelAll {scopes scopes' : List Scope} {i i' : Option String}
    (own : Own r.name scopes scopes' i i') :
    (es : List Expr) → Clean (Expr.resolveAll scopes' k i' (Expr.relabelAll r es)) →
      Clean (Expr.resolveAll scopes k i es)
  | [], _ => clean_nil
  | e :: rest, clean => by
    rw [Expr.relabelAll, Expr.resolveAll, clean_append] at clean
    rw [Expr.resolveAll, clean_append]
    exact ⟨Expr.clean_of_relabel own e clean.1, Expr.clean_of_relabelAll own rest clean.2⟩

end

theorem VarDecl.clean_of_relabel {scopes scopes' : List Scope}
    (h : Alongside r.name scopes scopes') (decl : VarDecl)
    (clean : Clean ((decl.relabel r).resolve a scopes').1) :
    Clean (decl.resolve a scopes).1 ∧
      Alongside r.name (decl.resolve a scopes).2 ((decl.relabel r).resolve a scopes').2 := by
  obtain ⟨name, initializer⟩ := decl
  obtain ⟨cleanName, cleanInside⟩ := clean_append.1 clean
  have declared := h.declare name (name.rename r) rfl cleanName
  refine ⟨clean_append.2 ⟨declared.clean, ?_⟩, declared.behind⟩
  cases initializer with
  | none => exact clean_nil
  | some value =>
    refine Expr.clean_of_relabel ?_ value cleanInside
    by_cases top : scopes = []
    · obtain rfl := declared.top.1 top
      subst top
      intro x own
      obtain rfl : name.lexeme = x := Option.some.inj (eq_of_beq own)
      exact beq_self_eq_true _
    · have top' : scopes' ≠ [] := fun none => top (declared.top.2 none)
      have empty : ∀ {l : List Scope}, l ≠ [] → ¬ l.isEmpty = true :=
        fun inner none => inner (List.isEmpty_iff.1 none)
      rw [if_neg (empty top), if_neg (empty top')]
      exact declared.own top

theorem VarDecl.clean_of_relabelAll {scopes scopes' : List Scope}
    (h : Alongside r.name scopes scopes') (decls : List VarDecl)
    (clean : Clean (VarDecl.resolveAll a scopes' (decls.map (VarDecl.relabel r))).1) :
    Clean (VarDecl.resolveAll a scopes decls).1 ∧
      Alongside r.name (VarDecl.resolveAll a scopes decls).2
        (VarDecl.resolveAll a scopes' (decls.map (VarDecl.relabel r))).2 := by
  induction decls generalizing scopes scopes' with
  | nil => exact ⟨clean_nil, h⟩
  | cons decl rest ih =>
    obtain ⟨cleanFirst, cleanRest⟩ := clean_append.1 clean
    obtain ⟨first, after⟩ := VarDecl.clean_of_relabel h decl cleanFirst
    obtain ⟨others, after⟩ := ih after cleanRest
    exact ⟨clean_append.2 ⟨first, others⟩, after⟩

mutual

theorem Stmt.clean_of_relabel (fixes : r.Fixes) : (s : Stmt) → ∀ {a scopes scopes'},
    Alongside r.name scopes scopes' → s.Tidy r.Named →
    Clean ((s.relabel r).resolve a scopes').1 →
    Clean (s.resolve a scopes).1 ∧
      Alongside r.name (s.resolve a scopes).2 ((s.relabel r).resolve a scopes').2
  | .block body, _, _, _, h, tidy, clean => by
    rw [Stmt.Tidy] at tidy
    exact ⟨Stmt.clean_of_relabelAll fixes body h.enter tidy clean, h⟩
  | .classDecl name none methods, _, _, _, h, tidy, clean => by
    rw [Stmt.Tidy] at tidy
    rw [Stmt.relabel, Option.map_none, Stmt.resolve, clean_append] at clean
    rw [Stmt.relabel, Option.map_none, Stmt.resolve, Stmt.resolve]
    have declared := h.declare name (name.relabel r) tidy.1.symm clean.1
    have inside := FunctionDecl.clean_of_relabelAll fixes methods
      (declared.behind.enterOne fixes.this) tidy.2 clean.2
    exact ⟨clean_append.2 ⟨declared.clean, inside⟩, declared.behind⟩
  | .classDecl name (some superclass) methods, _, scopes, _, h, tidy, clean => by
    rw [Stmt.Tidy] at tidy
    rw [Stmt.relabel, Option.map_some, Stmt.resolve, clean_append, clean_append] at clean
    rw [Stmt.relabel, Option.map_some, Stmt.resolve, Stmt.resolve, clean_append, clean_append]
    obtain ⟨⟨cleanName, cleanSuper⟩, cleanMethods⟩ := clean
    have declared := h.declare name (name.relabel r) tidy.1.symm cleanName
    have used : Clean (resolveSuperclass (introduce scopes name).2 name superclass) := by
      rw [resolveSuperclass, clean_append] at cleanSuper ⊢
      refine ⟨?_, clean_locate _ _ _⟩
      split
      · next same =>
        have same' : (superclass.relabel r).name.lexeme = (name.relabel r).lexeme :=
          (congrArg r.name same).trans tidy.1
        rw [if_pos same'] at cleanSuper
        exact absurd cleanSuper.1 (not_clean_fault _ _)
      · exact clean_nil
    have inside := FunctionDecl.clean_of_relabelAll fixes methods
      ((declared.behind.enterOne fixes.super).enterOne fixes.this) tidy.2 cleanMethods
    exact ⟨⟨⟨declared.clean, used⟩, inside⟩, declared.behind⟩
  | .expression value, _, _, _, h, _, clean => ⟨Expr.clean_of_relabel h.own value clean, h⟩
  | .function ⟨name, params, body⟩, _, _, _, h, tidy, clean => by
    rw [Stmt.Tidy, FunctionDecl.Tidy] at tidy
    rw [Stmt.relabel, FunctionDecl.relabel, Stmt.resolve, clean_append, clean_append] at clean
    rw [Stmt.relabel, FunctionDecl.relabel, Stmt.resolve, Stmt.resolve, clean_append, clean_append]
    obtain ⟨⟨cleanName, cleanParams⟩, cleanBody⟩ := clean
    have declared := h.declare name (name.relabel r) tidy.1.symm cleanName
    obtain ⟨parameters, within⟩ := declared.behind.enter.introduceAll params cleanParams
    have inside := Stmt.clean_of_relabelAll fixes body within tidy.2 cleanBody
    exact ⟨⟨⟨declared.clean, parameters⟩, inside⟩, declared.behind⟩
  | .branch condition thenBranch none, _, _, _, h, tidy, clean => by
    rw [Stmt.Tidy] at tidy
    rw [Stmt.relabel, Stmt.resolve, clean_append] at clean
    rw [Stmt.relabel, Stmt.resolve, Stmt.resolve, clean_append]
    obtain ⟨inside, after⟩ := Stmt.clean_of_relabel fixes thenBranch h tidy.2 clean.2
    exact ⟨⟨Expr.clean_of_relabel h.own condition clean.1, inside⟩, after⟩
  | .branch condition thenBranch (some elseBranch), _, _, _, h, tidy, clean => by
    rw [Stmt.Tidy] at tidy
    rw [Stmt.relabel, Stmt.resolve, clean_append, clean_append] at clean
    rw [Stmt.relabel, Stmt.resolve, Stmt.resolve, clean_append, clean_append]
    obtain ⟨⟨cleanCondition, cleanThen⟩, cleanElse⟩ := clean
    obtain ⟨inside, after⟩ := Stmt.clean_of_relabel fixes thenBranch h tidy.1.2 cleanThen
    obtain ⟨inside', after'⟩ := Stmt.clean_of_relabel fixes elseBranch after tidy.2.2 cleanElse
    exact ⟨⟨⟨Expr.clean_of_relabel h.own condition cleanCondition, inside⟩, inside'⟩, after'⟩
  | .print value, _, _, _, h, _, clean => ⟨Expr.clean_of_relabel h.own value clean, h⟩
  | .ret keyword none, _, _, _, h, _, clean => by
    refine ⟨?_, h⟩
    rw [Stmt.relabel, Option.map_none, Stmt.resolve] at clean
    rw [Stmt.resolve]
    split
    · next outside =>
      rw [if_pos outside] at clean
      exact absurd clean (not_clean_fault _ _)
    · exact clean_nil
  | .ret keyword (some value), _, _, _, h, _, clean => by
    refine ⟨?_, h⟩
    rw [Stmt.relabel, Option.map_some, Stmt.resolve, clean_append, clean_append] at clean
    rw [Stmt.resolve, clean_append, clean_append]
    refine ⟨⟨?_, ?_⟩, Expr.clean_of_relabel h.own value clean.2⟩
    · split
      · next outside =>
        rw [if_pos outside] at clean
        exact absurd clean.1.1 (not_clean_fault _ _)
      · exact clean_nil
    · split
      · next given =>
        rw [if_pos given] at clean
        exact absurd clean.1.2 (not_clean_fault _ _)
      · exact clean_nil
  | .var decl, _, _, _, h, _, clean => VarDecl.clean_of_relabel h decl clean
  | .varList decls, _, _, _, h, _, clean => VarDecl.clean_of_relabelAll h decls clean
  | .loop condition body, _, _, _, h, tidy, clean => by
    rw [Stmt.Tidy] at tidy
    rw [Stmt.relabel, Stmt.resolve, clean_append] at clean
    rw [Stmt.relabel, Stmt.resolve, Stmt.resolve, clean_append]
    obtain ⟨inside, after⟩ := Stmt.clean_of_relabel fixes body h tidy.2 clean.2
    exact ⟨⟨Expr.clean_of_relabel h.own condition clean.1, inside⟩, after⟩

theorem Stmt.clean_of_relabelAll (fixes : r.Fixes) : (body : List Stmt) →
    ∀ {a scopes scopes'}, Alongside r.name scopes scopes' → Stmt.AllTidy r.Named body →
    Clean (Stmt.resolveAll a scopes' (Stmt.relabelAll r body)) →
    Clean (Stmt.resolveAll a scopes body)
  | [], _, _, _, _, _, _ => clean_nil
  | s :: rest, _, _, _, h, tidy, clean => by
    rw [Stmt.AllTidy] at tidy
    rw [Stmt.relabelAll, Stmt.resolveAll, clean_append] at clean
    rw [Stmt.resolveAll, clean_append]
    obtain ⟨first, after⟩ := Stmt.clean_of_relabel fixes s h tidy.1 clean.1
    exact ⟨first, Stmt.clean_of_relabelAll fixes rest after tidy.2 clean.2⟩

theorem FunctionDecl.clean_of_relabelAll (fixes : r.Fixes) : (decls : List FunctionDecl) →
    ∀ {a scopes scopes'}, Alongside r.name scopes scopes' → FunctionDecl.AllTidy r.Named decls →
    Clean (FunctionDecl.resolveAll a scopes' (FunctionDecl.relabelAll r decls)) →
    Clean (FunctionDecl.resolveAll a scopes decls)
  | [], _, _, _, _, _, _ => clean_nil
  | ⟨name, params, body⟩ :: rest, _, _, _, h, tidy, clean => by
    rw [FunctionDecl.AllTidy, FunctionDecl.Tidy] at tidy
    rw [FunctionDecl.relabelAll, FunctionDecl.relabel, FunctionDecl.resolveAll, clean_append,
      clean_append] at clean
    rw [FunctionDecl.resolveAll, clean_append, clean_append]
    obtain ⟨⟨cleanParams, cleanBody⟩, cleanRest⟩ := clean
    obtain ⟨parameters, within⟩ := h.enter.introduceAll params cleanParams
    exact ⟨⟨parameters, Stmt.clean_of_relabelAll fixes body within tidy.1 cleanBody⟩,
      FunctionDecl.clean_of_relabelAll fixes rest h tidy.2 cleanRest⟩

end

/-- A program without errors resolves. -/
theorem Resolution.resolve_of_clean {program : List Stmt} (clean : Clean (findings program)) :
    resolve program = .ok ((findings program).filterMap Finding.distance?) := by
  have none : (findings program).filterMap Finding.error? = [] := by
    rw [List.filterMap_eq_nil_iff]
    intro found member
    cases found with
    | error e => exact absurd member (clean e)
    | distance id n => rfl
  rw [resolve, none]
  rfl

/-- A program resolves if it does with other names. -/
theorem resolve_of_relabel (fixes : r.Fixes) {program : List Stmt}
    {distances : List (NodeId × Nat)} (tidy : Stmt.AllTidy r.Named program)
    (h : resolve (Stmt.relabelAll r program) = .ok distances) :
    ∃ distances, resolve program = .ok distances := by
  have start : Alongside r.name [] [] := ⟨.nil, List.forall_mem_nil _⟩
  have clean := Stmt.clean_of_relabelAll fixes program start tidy (clean_of_resolve h)
  exact ⟨_, resolve_of_clean clean⟩

end Treewalk
