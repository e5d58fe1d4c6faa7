import Mathlib.Data.List.Induction
import Treewalk.Proofs.Scope.Covered

/-!
# The errors of the walk

What the walk over a program has against each use of a variable in an expression, and against each
name that is declared. The scopes matter only as far as the innermost one: whether a name is
declared in it already, and whether its declaration is incomplete. What a statement declares is
split off from the rest of its findings, so that the names of one scope can be looked at together.
-/

namespace Treewalk

open Resolution

/-! ## Expressions -/

/-- What the walk has against a use of a variable. -/
def Resolution.useError (scopes : List Scope) (inClass : ClassKind)
    (initializing : Option String) : Role × Variable → Option ScopeError
  | (.read, ref) =>
    if inOwnInitializer scopes initializing ref.name.lexeme then
      some ⟨ref.name, .ownInitializer⟩
    else none
  | (.write, _) => none
  | (.this, ref) => if inClass = .none then some ⟨ref.name, .thisOutside⟩ else none
  | (.super, ref) =>
    match inClass with
    | .none => some ⟨ref.name, .superOutside⟩
    | .base => some ⟨ref.name, .superWithoutSuperclass⟩
    | .subclass => none

/-- The errors among findings. -/
def Resolution.errors (found : List Finding) : List ScopeError := found.filterMap Finding.error?

namespace Resolution

@[simp] theorem errors_nil : errors [] = [] := rfl

@[simp] theorem errors_append (found more : List Finding) :
    errors (found ++ more) = errors found ++ errors more := List.filterMap_append

@[simp] theorem errors_locate (scopes : List Scope) (id : NodeId) (name : Token) :
    errors (locate scopes id name) = [] := by
  rw [locate]
  split <;> rfl

@[simp] theorem errors_fault (token : Token) (cause : ScopeError.Cause) :
    errors (fault token cause) = [⟨token, cause⟩] := rfl

theorem mem_errors {found : List Finding} {e : ScopeError} :
    e ∈ errors found ↔ .error e ∈ found := by
  rw [errors, List.mem_filterMap]
  constructor
  · rintro ⟨finding, member, this⟩
    cases finding with
    | error e' =>
      cases this
      exact member
    | distance id n => cases this
  · exact fun member => ⟨_, member, rfl⟩

theorem clean_iff {found : List Finding} : Clean found ↔ errors found = [] := by
  simp only [Clean, ← mem_errors, List.eq_nil_iff_forall_not_mem]

end Resolution

section expressions

variable (scopes : List Scope) (k : ClassKind) (initializing : Option String)

mutual

/-- The errors in an expression are those of its uses, in order. -/
theorem Expr.errors_resolve : (e : Expr) → errors (e.resolve scopes k initializing) =
    e.uses.filterMap (useError scopes k initializing)
  | .sequence items => by
    rw [Expr.resolve, Expr.uses]
    exact Expr.errors_resolveAll items
  | .assign id name value => by
    simp [Expr.resolve, Expr.uses, Expr.errors_resolve value, useError]
  | .binary left _ right | .logical left _ right => by
    simp [Expr.resolve, Expr.uses, Expr.errors_resolve left, Expr.errors_resolve right]
  | .call callee _ arguments => by
    simp [Expr.resolve, Expr.uses, Expr.errors_resolve callee, Expr.errors_resolveAll arguments]
  | .get object _ => by
    rw [Expr.resolve, Expr.uses]
    exact Expr.errors_resolve object
  | .grouping inner => by
    rw [Expr.resolve, Expr.uses]
    exact Expr.errors_resolve inner
  | .constant _ => rfl
  | .set object _ value => by
    simp [Expr.resolve, Expr.uses, Expr.errors_resolve object, Expr.errors_resolve value]
  | .super id keyword _ => by
    cases k <;> simp [Expr.resolve, Expr.uses, useError]
  | .this id keyword => by
    cases k <;> simp [Expr.resolve, Expr.uses, useError]
  | .unary _ right => by
    rw [Expr.resolve, Expr.uses]
    exact Expr.errors_resolve right
  | .read ref => by
    rw [Expr.resolve, Expr.uses, errors_append, errors_locate, List.append_nil,
      List.filterMap_cons, useError]
    split <;> rfl

theorem Expr.errors_resolveAll : (es : List Expr) →
    errors (Expr.resolveAll scopes k initializing es) =
      (Expr.allUses es).filterMap (useError scopes k initializing)
  | [] => rfl
  | e :: rest => by
    simp [Expr.resolveAll, Expr.allUses, Expr.errors_resolve e, Expr.errors_resolveAll rest]

end

end expressions

/-! ## Declarations -/

namespace Resolution

/-- No declaration in the innermost scope is incomplete. -/
def Complete (scopes : List Scope) : Prop :=
  ∀ scope ∈ scopes.head?, ∀ x, scope.lookup x ≠ some false

theorem Complete.top : Complete [] := by
  intro scope member
  cases member

theorem Complete.enter (scopes : List Scope) : Complete ([] :: scopes) := by
  intro scope member x
  cases member
  nofun

theorem Complete.introduce {scopes : List Scope} (complete : Complete scopes) (name : Token) :
    Complete (introduce scopes name).2 := by
  cases scopes with
  | nil => exact complete
  | cons scope outer =>
    have before := complete scope rfl
    intro scope' member x
    simp only [Resolution.introduce, declare] at member
    by_cases same : x = name.lexeme
    · split at member <;> cases member <;> simp [same]
    · split at member <;> cases member <;>
        simpa [List.lookup_cons, beq_false_of_ne same] using before x

theorem Complete.introduceAll {scopes : List Scope} (complete : Complete scopes)
    (names : List Token) : Complete (introduceAll scopes names).2 := by
  induction names generalizing scopes with
  | nil => exact complete
  | cons name rest ih => exact ih (complete.introduce name)

theorem Complete.not_own {scopes : List Scope} (complete : Complete scopes) (x : String) :
    ¬ inOwnInitializer scopes none x = true := by
  cases scopes with
  | nil => nofun
  | cons scope outer =>
    intro own
    exact complete scope rfl x (eq_of_beq own)

/-- Only the name that is being declared is in its own initializer. -/
theorem Complete.own {scopes : List Scope} (complete : Complete scopes) {name : Token} {x : String}
    (own : inOwnInitializer (declare scopes name).2
      (if scopes.isEmpty then some name.lexeme else none) x = true) : x = name.lexeme := by
  cases scopes with
  | nil => exact (Option.some.inj (eq_of_beq own)).symm
  | cons scope outer =>
    rw [declare] at own
    split at own
    · exact absurd own (complete.not_own x)
    · by_contra other
      simp only [inOwnInitializer, List.lookup_cons, beq_false_of_ne other] at own
      exact complete scope rfl x (eq_of_beq own)

/-- The name that is being declared is in its own initializer, if it is not declared already. -/
theorem own_of_clean {scopes : List Scope} {name : Token} (clean : Clean (declare scopes name).1) :
    inOwnInitializer (declare scopes name).2 (if scopes.isEmpty then some name.lexeme else none)
      name.lexeme = true := by
  cases scopes with
  | nil => simp [declare, inOwnInitializer]
  | cons scope outer =>
    rw [declare] at clean ⊢
    split at clean
    · exact absurd clean (not_clean_fault _ _)
    · next new =>
      rw [if_neg new]
      simp [inOwnInitializer]

theorem introduceAll_nil (names : List Token) : introduceAll [] names = ([], []) := by
  induction names with
  | nil => rfl
  | cons name rest ih => simp [introduceAll, introduce, declare, define, ih]

theorem introduceAll_singleton (scopes : List Scope) (name : Token) :
    introduceAll scopes [name] = introduce scopes name := by
  simp [introduceAll]

theorem introduceAll_append (scopes : List Scope) (names more : List Token) :
    introduceAll scopes (names ++ more) =
      ((introduceAll scopes names).1 ++ (introduceAll (introduceAll scopes names).2 more).1,
        (introduceAll (introduceAll scopes names).2 more).2) := by
  induction names generalizing scopes with
  | nil => rfl
  | cons name rest ih => simp [introduceAll, ih]

/-- The names that a scope knows, and those alone. -/
def Knows (scope : Scope) (names : List Token) : Prop :=
  ∀ x, (scope.lookup x).isSome = true ↔ x ∈ names.map (·.lexeme)

theorem Knows.nil : Knows [] [] := fun x => by simp

/-- Declaring a name makes it known, and is an error if it is known already. -/
theorem introduce_cons {scope : Scope} {names : List Token} (knows : Knows scope names)
    (outer : List Scope) (name : Token) :
    ∃ scope', (introduce (scope :: outer) name).2 = scope' :: outer ∧
      Knows scope' (names ++ [name]) ∧
      errors (introduce (scope :: outer) name).1 =
        if name.lexeme ∈ names.map (·.lexeme) then [⟨name, .declaredTwice⟩] else [] := by
  rw [introduce, declare]
  by_cases known : name.lexeme ∈ names.map (·.lexeme)
  · rw [if_pos known, if_pos ((knows name.lexeme).2 known)]
    refine ⟨_, rfl, fun x => ?_, rfl⟩
    by_cases same : x = name.lexeme
    · simp [same]
    · simp [List.lookup_cons, beq_false_of_ne same, knows x, same]
  · rw [if_neg known, if_neg fun found => known ((knows name.lexeme).1 found)]
    refine ⟨_, rfl, fun x => ?_, rfl⟩
    by_cases same : x = name.lexeme
    · simp [same]
    · simp [List.lookup_cons, beq_false_of_ne same, knows x, same]

/-- The names that are declared in a scope for a second time. -/
theorem mem_errors_introduceAll {scope : Scope} {known : List Token} (knows : Knows scope known)
    (outer : List Scope) (names : List Token) (e : ScopeError) :
    e ∈ errors (introduceAll (scope :: outer) names).1 ↔
      ∃ before after, names = before ++ e.token :: after ∧ e.cause = .declaredTwice ∧
        e.token.lexeme ∈ (known ++ before).map (·.lexeme) := by
  induction names generalizing scope known with
  | nil => simp [introduceAll]
  | cons name rest ih =>
    obtain ⟨scope', after, knows', first⟩ := introduce_cons knows outer name
    rw [introduceAll]
    simp only [after, errors_append, List.mem_append, first, ih knows']
    constructor
    · rintro (twice | ⟨before, after, rfl, cause, twice⟩)
      · split at twice
        · next known =>
          cases List.mem_singleton.1 twice
          exact ⟨[], rest, rfl, rfl, by simpa using known⟩
        · cases twice
      · exact ⟨name :: before, after, rfl, cause, by simpa using twice⟩
    · rintro ⟨before, after, split, cause, twice⟩
      cases before with
      | nil =>
        left
        cases split
        rw [List.append_nil] at twice
        rw [if_pos twice, List.mem_singleton]
        cases e
        cases cause
        rfl
      | cons first before =>
        cases split
        exact .inr ⟨before, after, rfl, cause, by simpa using twice⟩

/-- In a new scope, names that can be declared one after the other are distinct. -/
theorem nodup_of_clean {outer : List Scope} {names : List Token}
    (clean : Clean (introduceAll ([] :: outer) names).1) : (names.map (·.lexeme)).Nodup := by
  have first : ∀ before name after, names = before ++ name :: after →
      name.lexeme ∉ before.map (·.lexeme) := fun before name after split twice =>
    clean ⟨name, .declaredTwice⟩ (mem_errors.1
      ((mem_errors_introduceAll .nil outer names _).2 ⟨before, after, split, rfl, twice⟩))
  clear clean
  induction names using List.reverseRecOn with
  | nil => exact List.nodup_nil
  | append_singleton rest name ih =>
    rw [List.map_append, List.map_singleton, List.nodup_append]
    refine ⟨ih fun before name' after split => ?_, by simp, ?_⟩
    · exact first before name' (after ++ [name]) (by simp [split])
    · rintro x member y last rfl
      rw [List.mem_singleton.1 last] at member
      exact first rest name [] rfl member

end Resolution

theorem VarDecl.resolveAll_scopes (a : Surroundings) (scopes : List Scope)
    (decls : List VarDecl) :
    (VarDecl.resolveAll a scopes decls).2 = (introduceAll scopes (decls.map (·.name))).2 := by
  induction decls generalizing scopes with
  | nil => rfl
  | cons decl rest ih => exact ih _

/-- A regular statement leaves behind the scopes with the names that it declares. -/
theorem Stmt.resolve_scopes (a : Surroundings) : (s : Stmt) → s.Regular → (scopes : List Scope) →
    (s.resolve a scopes).2 = (introduceAll scopes s.declared).2
  | .block _, _, _ | .expression _, _, _ | .print _, _, _ | .ret _ none, _, _
  | .ret _ (some _), _, _ | .var _, _, _ | .function ⟨_, _, _⟩, _, _ | .classDecl _ none _, _, _
  | .classDecl _ (some _) _, _, _ => rfl
  | .varList decls, _, scopes => VarDecl.resolveAll_scopes a scopes decls
  | .branch _ thenBranch none, regular, scopes => by
    rw [Stmt.Regular] at regular
    rw [Stmt.resolve]
    refine (thenBranch.resolve_scopes a regular.2 scopes).trans ?_
    rw [regular.1]
    rfl
  | .branch _ thenBranch (some elseBranch), regular, scopes => by
    rw [Stmt.Regular] at regular
    obtain ⟨⟨thenNone, thenRegular⟩, elseNone, elseRegular⟩ := regular
    rw [Stmt.resolve]
    refine (elseBranch.resolve_scopes a elseRegular _).trans ?_
    rw [elseNone]
    refine (thenBranch.resolve_scopes a thenRegular scopes).trans ?_
    rw [thenNone]
    rfl
  | .loop _ body, regular, scopes => by
    rw [Stmt.Regular] at regular
    rw [Stmt.resolve]
    refine (body.resolve_scopes a regular.2 scopes).trans ?_
    rw [regular.1]
    rfl

end Treewalk
