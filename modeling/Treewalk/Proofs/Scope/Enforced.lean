import Mathlib
import Treewalk.Proofs.Grammar.Exact
import Treewalk.Proofs.Grammar.Shape
import Treewalk.Proofs.Scope.Errors
import Treewalk.Proofs.Scope.Rules

/-!
# Resolution enforces the rules of scopes

Resolution accepts exactly the valid programs, and what it reports of the others is true: at every
token that it names the rule of the message is broken. The one half follows the walk through the
program, the other one finds for each place in the program the step of the walk that comes to it.
-/

namespace Treewalk

open Resolution

/-! ## Every error is a violation -/

section sound

variable {program : List Stmt} {around : List Enclosure} {e : ScopeError}

/-- What the walk has against a use is a violation, also where a name is in its own initializer. -/
theorem violates_of_useError {scopes : List Scope} {initializing : Option String} {role : Role}
    {ref : Variable} (uses : Uses program around role ref)
    (own : role = .read → inOwnInitializer scopes initializing ref.name.lexeme = true →
      Violates program ⟨ref.name, .ownInitializer⟩)
    (h : useError scopes (surroundings around).inClass initializing (role, ref) = some e) :
    Violates program e := by
  cases role with
  | read =>
    rw [useError] at h
    split at h
    · next inside =>
      cases h
      exact own rfl inside
    · cases h
  | write => cases h
  | this =>
    rw [useError] at h
    split at h
    · next outside =>
      cases h
      exact .thisOutside uses (inClass_eq_none.1 outside)
    · cases h
  | super =>
    cases kind : (surroundings around).inClass with
    | none =>
      rw [kind] at h
      cases h
      exact .superOutside uses (inClass_eq_none.1 kind)
    | base =>
      rw [kind] at h
      cases h
      obtain ⟨name, inner⟩ := inClass_eq_base.1 kind
      exact .superWithoutSuperclass uses inner
    | subclass =>
      rw [kind] at h
      cases h

theorem Expr.violates {s : Stmt} (place : Within program around s) {value : Expr}
    (member : value ∈ s.expressions) {scopes : List Scope} {initializing : Option String}
    (own : ∀ ref, (.read, ref) ∈ value.uses →
      inOwnInitializer scopes initializing ref.name.lexeme = true →
      Violates program ⟨ref.name, .ownInitializer⟩)
    (h : e ∈ errors (value.resolve scopes (surroundings around).inClass initializing)) :
    Violates program e := by
  rw [Expr.errors_resolve, List.mem_filterMap] at h
  obtain ⟨⟨role, ref⟩, used, against⟩ := h
  refine violates_of_useError ⟨s, place, value, member, used⟩ (fun read => ?_) against
  subst read
  exact own ref used

/-- An expression that is no initializer. -/
theorem Expr.violates_settled {s : Stmt} (place : Within program around s) {value : Expr}
    (member : value ∈ s.expressions) {scopes : List Scope} (complete : Complete scopes)
    (h : e ∈ errors (value.resolve scopes (surroundings around).inClass none)) :
    Violates program e :=
  value.violates place member (fun _ _ own => absurd own (complete.not_own _)) h

/-- An item of a `var` declaration: its name is declared, and the rest is its initializer. -/
theorem VarDecl.violates {s : Stmt} (place : Within program around s) {decl : VarDecl}
    (item : decl ∈ s.items) (inside : ∀ value ∈ decl.initializer, value ∈ s.expressions)
    {scopes : List Scope} (complete : Complete scopes)
    (h : e ∈ errors (decl.resolve (surroundings around) scopes).1) :
    e ∈ errors (introduce scopes decl.name).1 ∨ Violates program e := by
  obtain ⟨name, initializer⟩ := decl
  cases initializer with
  | none =>
    have h : e ∈ errors ((declare scopes name).1 ++ []) := h
    rw [List.append_nil] at h
    exact .inl h
  | some value =>
    rw [VarDecl.resolve, errors_append, List.mem_append] at h
    refine h.imp id fun h => value.violates place (inside value rfl) (fun ref used own => ?_) h
    exact .ownInitializer ⟨around, s, place, item, value, rfl, used⟩ (complete.own own)

theorem VarDecl.allViolates {s : Stmt} (place : Within program around s) {decls : List VarDecl}
    (items : ∀ decl ∈ decls,
      decl ∈ s.items ∧ ∀ value ∈ decl.initializer, value ∈ s.expressions)
    {scopes : List Scope} (complete : Complete scopes)
    (h : e ∈ errors (VarDecl.resolveAll (surroundings around) scopes decls).1) :
    e ∈ errors (introduceAll scopes (decls.map (·.name))).1 ∨ Violates program e := by
  induction decls generalizing scopes with
  | nil => cases h
  | cons decl rest ih =>
    rw [List.forall_mem_cons] at items
    rw [VarDecl.resolveAll, errors_append, List.mem_append] at h
    rw [List.map_cons, introduceAll, errors_append, List.mem_append, or_assoc]
    rcases h with h | h
    · exact (VarDecl.violates place items.1.1 items.1.2 complete h).imp id .inr
    · exact .inr (ih items.2 (complete.introduce decl.name) h)

/-- A name that a scope declares twice is a violation. -/
theorem violates_of_introduceAll {names : List Token} (scope : Scoped program names)
    {outer : List Scope} (h : e ∈ errors (introduceAll ([] :: outer) names).1) :
    Violates program e := by
  obtain ⟨before, after, rfl, cause, twice⟩ := (mem_errors_introduceAll .nil outer names e).1 h
  obtain ⟨earlier, member, same⟩ := List.mem_map.1 twice
  obtain ⟨token, _⟩ := e
  cases cause
  exact .declaredTwice scope member same

/-- A function or a method, if what is found in its body apart from declarations is a violation. -/
theorem violates_of_routine {params : List Token} {body : List Stmt} {a : Surroundings}
    {outer : List Scope} (scope : Scoped program (params ++ Stmt.allDeclared body))
    (inside : ∀ {scopes}, Complete scopes → e ∈ errors (Stmt.resolveAll a scopes body) →
      e ∈ errors (introduceAll scopes (Stmt.allDeclared body)).1 ∨ Violates program e)
    (h : e ∈ errors (introduceAll ([] :: outer) params).1 ∨
      e ∈ errors (Stmt.resolveAll a (introduceAll ([] :: outer) params).2 body)) :
    Violates program e := by
  have twice : e ∈ errors (introduceAll ([] :: outer) (params ++ Stmt.allDeclared body)).1 →
      Violates program e := violates_of_introduceAll scope
  rw [introduceAll_append, errors_append, List.mem_append] at twice
  rcases h with h | h
  · exact twice (.inl h)
  · exact (inside ((Complete.enter outer).introduceAll params) h).elim (fun h => twice (.inr h)) id

theorem violates_of_return {keyword : Token} {value : Option Expr}
    (place : Within program around (.ret keyword value))
    (h : e ∈ errors (if (surroundings around).inFunction = .none then
      fault keyword .returnOutside else [])) : Violates program e := by
  split at h
  · next outside =>
    cases List.mem_singleton.1 h
    exact .returnOutside place (inFunction_eq_none.1 outside)
  · cases h

theorem violates_of_value {keyword : Token} {value : Expr}
    (place : Within program around (.ret keyword (some value)))
    (h : e ∈ errors (if (surroundings around).inFunction = .initializer then
      fault keyword .returnValueFromInitializer else [])) : Violates program e := by
  split at h
  · next inside =>
    cases List.mem_singleton.1 h
    obtain ⟨decl, inner, named⟩ := inFunction_eq_initializer.1 inside
    exact .returnValue place inner named
  · cases h

theorem violates_of_superclass {name : Token} {superclass : Variable}
    {methods : List FunctionDecl}
    (place : Within program around (.classDecl name (some superclass) methods))
    {scopes : List Scope} (h : e ∈ errors (resolveSuperclass scopes name superclass)) :
    Violates program e := by
  rw [resolveSuperclass, errors_append, errors_locate, List.append_nil] at h
  split at h
  · next same =>
    cases List.mem_singleton.1 h
    exact .inheritsFromItself place same
  · cases h

/-- A branch or the body of a loop declares nothing, so what is found there is a violation. -/
theorem violates_of_branch {s : Stmt} {scopes : List Scope} (none : s.declared = [])
    (h : e ∈ errors (introduceAll scopes s.declared).1 ∨ Violates program e) :
    Violates program e := by
  refine h.resolve_left fun found => ?_
  rw [none] at found
  cases found

mutual

/-- The errors of a statement are those of what it declares, and violations. -/
theorem Stmt.violates : (s : Stmt) → ∀ {around scopes}, Within program around s → s.Regular →
    Complete scopes → e ∈ errors (s.resolve (surroundings around) scopes).1 →
    e ∈ errors (introduceAll scopes s.declared).1 ∨ Violates program e
  | .block body, _, scopes, place, regular, _, h => by
    rw [Stmt.Regular] at regular
    rw [Stmt.resolve] at h
    refine .inr ((Stmt.allViolates body (fun _ => place.block) regular (.enter scopes) h).elim
      ?_ id)
    exact violates_of_introduceAll (.block place)
  | .classDecl name none methods, _, scopes, place, regular, _, h => by
    rw [Stmt.Regular] at regular
    rw [Stmt.resolve, errors_append, List.mem_append] at h
    rw [Stmt.declared, introduceAll_singleton]
    exact h.imp id (FunctionDecl.allViolates methods place (fun _ => id) regular)
  | .classDecl name (some superclass) methods, _, scopes, place, regular, _, h => by
    rw [Stmt.Regular] at regular
    rw [Stmt.resolve, errors_append, errors_append, List.mem_append, List.mem_append, or_assoc] at h
    rw [Stmt.declared, introduceAll_singleton]
    refine h.imp id fun h => h.elim (violates_of_superclass place) ?_
    exact FunctionDecl.allViolates methods place (fun _ => id) regular
  | .function ⟨name, params, body⟩, _, scopes, place, regular, _, h => by
    rw [Stmt.Regular, FunctionDecl.Regular] at regular
    rw [Stmt.resolve, errors_append, errors_append, List.mem_append, List.mem_append, or_assoc] at h
    rw [Stmt.declared, introduceAll_singleton]
    exact h.imp id (violates_of_routine (.function place)
      (Stmt.allViolates body (fun _ => place.function) regular))
  | .branch condition thenBranch none, _, _, place, regular, complete, h => by
    rw [Stmt.Regular] at regular
    rw [Stmt.resolve, errors_append, List.mem_append] at h
    refine .inr (h.elim (condition.violates_settled place (.head _) complete) fun h => ?_)
    exact violates_of_branch regular.1
      (thenBranch.violates place.thenBranch regular.2 complete h)
  | .branch condition thenBranch (some elseBranch), _, _, place, regular, complete, h => by
    rw [Stmt.Regular] at regular
    obtain ⟨⟨thenNone, thenRegular⟩, elseNone, elseRegular⟩ := regular
    rw [Stmt.resolve, errors_append, errors_append, List.mem_append, List.mem_append,
      Stmt.resolve_scopes _ thenBranch thenRegular, thenNone, or_assoc] at h
    refine .inr (h.elim (condition.violates_settled place (.head _) complete) ?_)
    rintro (h | h)
    · exact violates_of_branch thenNone
        (thenBranch.violates place.thenBranch thenRegular complete h)
    · exact violates_of_branch elseNone
        (elseBranch.violates place.elseBranch elseRegular complete h)
  | .loop condition body, _, _, place, regular, complete, h => by
    rw [Stmt.Regular] at regular
    rw [Stmt.resolve, errors_append, List.mem_append] at h
    refine .inr (h.elim (condition.violates_settled place (.head _) complete) fun h => ?_)
    exact violates_of_branch regular.1 (body.violates place.loop regular.2 complete h)
  | .expression value, _, _, place, _, complete, h =>
    .inr (value.violates_settled place (.head _) complete h)
  | .print value, _, _, place, _, complete, h =>
    .inr (value.violates_settled place (.head _) complete h)
  | .ret keyword none, _, _, place, _, _, h => .inr (violates_of_return place h)
  | .ret keyword (some value), _, _, place, _, complete, h => by
    rw [Stmt.resolve, errors_append, errors_append, List.mem_append, List.mem_append, or_assoc] at h
    refine .inr (h.elim (violates_of_return place) fun h => h.elim (violates_of_value place) ?_)
    exact value.violates_settled place (.head _) complete
  | .var decl, _, _, place, _, complete, h => by
    rw [Stmt.declared, introduceAll_singleton]
    refine VarDecl.violates place (.head _) (fun value given => ?_) complete h
    simpa [Stmt.expressions] using given
  | .varList decls, _, _, place, _, complete, h =>
    VarDecl.allViolates place (fun decl member => ⟨member, fun value given =>
      List.mem_flatMap.2 ⟨decl, member, by simpa using given⟩⟩) complete h

theorem Stmt.allViolates : (body : List Stmt) → ∀ {around scopes},
    (∀ s ∈ body, Within program around s) → Stmt.AllRegular body → Complete scopes →
    e ∈ errors (Stmt.resolveAll (surroundings around) scopes body) →
    e ∈ errors (introduceAll scopes (Stmt.allDeclared body)).1 ∨ Violates program e
  | [], _, _, _, _, _, h => by cases h
  | s :: rest, around, scopes, places, regular, complete, h => by
    rw [List.forall_mem_cons] at places
    rw [Stmt.AllRegular] at regular
    rw [Stmt.resolveAll, errors_append, List.mem_append,
      Stmt.resolve_scopes _ s regular.1] at h
    rw [Stmt.allDeclared, List.flatMap_cons, introduceAll_append, errors_append, List.mem_append,
      or_assoc]
    rcases h with h | h
    · exact (Stmt.violates s places.1 regular.1 complete h).imp id .inr
    · exact .inr (Stmt.allViolates rest places.2 regular.2 (complete.introduceAll _) h)

theorem FunctionDecl.allViolates : (decls : List FunctionDecl) →
    ∀ {around name superclass methods scopes},
    Within program around (.classDecl name superclass methods) → (∀ decl ∈ decls, decl ∈ methods) →
    FunctionDecl.AllRegular decls →
    e ∈ errors (FunctionDecl.resolveAll
      { surroundings around with inClass := (Enclosure.cls name superclass).classKind } scopes
      decls) → Violates program e
  | [], _, _, _, _, _, _, _, _, h => by cases h
  | ⟨name, params, body⟩ :: rest, _, _, _, _, _, place, members, regular, h => by
    rw [List.forall_mem_cons] at members
    rw [FunctionDecl.AllRegular, FunctionDecl.Regular] at regular
    rw [FunctionDecl.resolveAll, errors_append, errors_append, List.mem_append,
      List.mem_append] at h
    refine h.elim ?_ (FunctionDecl.allViolates rest place members.2 regular.2)
    exact violates_of_routine (.method place members.1)
      (Stmt.allViolates body (fun _ => place.method members.1) regular.1)

end

end sound

/-! ## Every violation is an error -/

section complete

variable {a : Surroundings} {scopes : List Scope}

/-- What is clean holds no use that the walk has something against. -/
theorem Expr.useError_eq_none {k : ClassKind} {initializing : Option String} {value : Expr}
    (clean : Clean (value.resolve scopes k initializing)) {use : Role × Variable}
    (used : use ∈ value.uses) : useError scopes k initializing use = none := by
  rw [clean_iff, Expr.errors_resolve, List.filterMap_eq_nil_iff] at clean
  exact clean use used

theorem VarDecl.clean_of_mem {decls : List VarDecl} {decl : VarDecl} (member : decl ∈ decls)
    (clean : Clean (VarDecl.resolveAll a scopes decls).1) :
    ∃ scopes, Clean (decl.resolve a scopes).1 := by
  induction decls generalizing scopes with
  | nil => cases member
  | cons first rest ih =>
    rw [VarDecl.resolveAll, clean_append] at clean
    rcases List.mem_cons.1 member with rfl | member
    · exact ⟨scopes, clean.1⟩
    · exact ih member clean.2

theorem Stmt.clean_item {s : Stmt} (clean : Clean (s.resolve a scopes).1) {decl : VarDecl}
    (item : decl ∈ s.items) : ∃ scopes, Clean (decl.resolve a scopes).1 := by
  cases s with
  | var decl' =>
    cases List.mem_singleton.1 item
    exact ⟨scopes, clean⟩
  | varList decls => exact VarDecl.clean_of_mem item clean
  | _ => cases item

/-- Each expression of a statement is looked at, in some scopes. -/
theorem Stmt.clean_expression {s : Stmt} (clean : Clean (s.resolve a scopes).1) {value : Expr}
    (member : value ∈ s.expressions) :
    ∃ scopes initializing, Clean (value.resolve scopes a.inClass initializing) := by
  have initializer : ∀ decl ∈ s.items, value ∈ decl.initializer →
      ∃ scopes initializing, Clean (value.resolve scopes a.inClass initializing) := by
    rintro ⟨name, _⟩ item ⟨⟩
    obtain ⟨scopes, clean⟩ := s.clean_item clean item
    rw [VarDecl.resolve, clean_append] at clean
    exact ⟨_, _, clean.2⟩
  cases s with
  | block _ | classDecl _ _ _ | function _ => cases member
  | expression _ | print _ =>
    cases List.mem_singleton.1 member
    exact ⟨_, _, clean⟩
  | branch condition thenBranch elseBranch =>
    cases List.mem_singleton.1 member
    cases elseBranch with
    | none =>
      rw [Stmt.resolve, clean_append] at clean
      exact ⟨_, _, clean.1⟩
    | some elseBranch =>
      rw [Stmt.resolve, clean_append, clean_append] at clean
      exact ⟨_, _, clean.1.1⟩
  | ret keyword returned =>
    cases returned with
    | none => cases member
    | some returned =>
      cases List.mem_singleton.1 member
      rw [Stmt.resolve, clean_append] at clean
      exact ⟨_, _, clean.2⟩
  | var decl => exact initializer decl (.head _) (by simpa [Stmt.expressions] using member)
  | varList decls =>
    obtain ⟨decl, item, given⟩ := List.mem_flatMap.1 member
    exact initializer decl item (by simpa using given)
  | loop condition body =>
    cases List.mem_singleton.1 member
    rw [Stmt.resolve, clean_append] at clean
    exact ⟨_, _, clean.1⟩

theorem VarDecl.clean_declared {decls : List VarDecl}
    (clean : Clean (VarDecl.resolveAll a scopes decls).1) :
    Clean (introduceAll scopes (decls.map (·.name))).1 := by
  induction decls generalizing scopes with
  | nil => exact clean_nil
  | cons decl rest ih =>
    rw [VarDecl.resolveAll, clean_append] at clean
    rw [List.map_cons, introduceAll, clean_append]
    refine ⟨?_, ih clean.2⟩
    have first : Clean ((introduce scopes decl.name).1 ++ _) := clean.1
    exact (clean_append.1 first).1

/-- A statement without errors declares its names without errors. -/
theorem Stmt.clean_declared {s : Stmt} (clean : Clean (s.resolve a scopes).1) :
    Clean (introduceAll scopes s.declared).1 := by
  cases s with
  | block _ | expression _ | branch _ _ _ | print _ | ret _ _ | loop _ _ => exact clean_nil
  | classDecl name superclass methods =>
    rw [Stmt.declared, introduceAll_singleton]
    cases superclass with
    | none =>
      rw [Stmt.resolve, clean_append] at clean
      exact clean.1
    | some superclass =>
      rw [Stmt.resolve, clean_append, clean_append] at clean
      exact clean.1.1
  | function decl =>
    obtain ⟨name, params, body⟩ := decl
    rw [Stmt.resolve, clean_append, clean_append] at clean
    rw [Stmt.declared, introduceAll_singleton]
    exact clean.1.1
  | var decl =>
    rw [Stmt.declared, introduceAll_singleton]
    have clean : Clean ((introduce scopes decl.name).1 ++ _) := clean
    exact (clean_append.1 clean).1
  | varList decls => exact VarDecl.clean_declared clean

theorem Stmt.clean_allDeclared {body : List Stmt} (regular : Stmt.AllRegular body)
    (clean : Clean (Stmt.resolveAll a scopes body)) :
    Clean (introduceAll scopes (Stmt.allDeclared body)).1 := by
  induction body generalizing scopes with
  | nil => exact clean_nil
  | cons s rest ih =>
    rw [Stmt.AllRegular] at regular
    rw [Stmt.resolveAll, clean_append, Stmt.resolve_scopes a s regular.1] at clean
    rw [Stmt.allDeclared, List.flatMap_cons, introduceAll_append, clean_append]
    exact ⟨Stmt.clean_declared clean.1, ih regular.2 clean.2⟩

/-- The walk comes to a statement with these enclosures, and finds no error there. -/
structure Passed (around : List Enclosure) (s : Stmt) : Prop where
  regular : s.Regular
  clean : ∃ scopes, Clean (s.resolve (surroundings around) scopes).1

/-- The same of a function or a method, which makes an enclosure of itself. -/
structure PassedRoutine (around : List Enclosure) (decl : FunctionDecl) : Prop where
  regular : Stmt.AllRegular decl.body
  clean : ∃ outer, Clean (introduceAll ([] :: outer) decl.params).1 ∧
    Clean (Stmt.resolveAll (surroundings around) (introduceAll ([] :: outer) decl.params).2
      decl.body)

variable {around : List Enclosure}

theorem passed_of_mem {body : List Stmt} (regular : Stmt.AllRegular body)
    (clean : Clean (Stmt.resolveAll (surroundings around) scopes body)) {s : Stmt}
    (member : s ∈ body) : Passed around s := by
  induction body generalizing scopes with
  | nil => cases member
  | cons first rest ih =>
    rw [Stmt.AllRegular] at regular
    rw [Stmt.resolveAll, clean_append] at clean
    rcases List.mem_cons.1 member with rfl | member
    · exact ⟨regular.1, scopes, clean.1⟩
    · exact ih regular.2 clean.2 member

theorem Passed.function {decl : FunctionDecl} (passed : Passed around (.function decl)) :
    PassedRoutine (.function decl :: around) decl := by
  obtain ⟨regular, scopes, clean⟩ := passed
  obtain ⟨name, params, body⟩ := decl
  rw [Stmt.Regular, FunctionDecl.Regular] at regular
  rw [Stmt.resolve, clean_append, clean_append] at clean
  exact ⟨regular, _, clean.1.2, clean.2⟩

theorem passedRoutine_of_mem {name : Token} {superclass : Option Variable}
    {decls : List FunctionDecl} (regular : FunctionDecl.AllRegular decls)
    (clean : Clean (FunctionDecl.resolveAll
      { surroundings around with inClass := (Enclosure.cls name superclass).classKind } scopes
      decls)) {decl : FunctionDecl} (member : decl ∈ decls) :
    PassedRoutine (.method decl :: .cls name superclass :: around) decl := by
  induction decls with
  | nil => cases member
  | cons first rest ih =>
    obtain ⟨name', params, body⟩ := first
    rw [FunctionDecl.AllRegular, FunctionDecl.Regular] at regular
    rw [FunctionDecl.resolveAll, clean_append, clean_append] at clean
    rcases List.mem_cons.1 member with rfl | member
    · exact ⟨regular.1, scopes, clean.1.1, clean.1.2⟩
    · exact ih regular.2 clean.2 member

theorem Passed.method {name : Token} {superclass : Option Variable} {methods : List FunctionDecl}
    (passed : Passed around (.classDecl name superclass methods)) {decl : FunctionDecl}
    (member : decl ∈ methods) :
    PassedRoutine (.method decl :: .cls name superclass :: around) decl := by
  obtain ⟨regular, scopes, clean⟩ := passed
  rw [Stmt.Regular] at regular
  cases superclass with
  | none =>
    rw [Stmt.resolve, clean_append] at clean
    exact passedRoutine_of_mem regular clean.2 member
  | some superclass =>
    rw [Stmt.resolve, clean_append] at clean
    exact passedRoutine_of_mem regular clean.2 member

theorem PassedRoutine.passed {decl : FunctionDecl} (routine : PassedRoutine around decl)
    {s : Stmt} (member : s ∈ decl.body) : Passed around s := by
  obtain ⟨regular, outer, -, clean⟩ := routine
  exact passed_of_mem regular clean member

theorem PassedRoutine.distinct {decl : FunctionDecl} (routine : PassedRoutine around decl) :
    (decl.locals.map (·.lexeme)).Nodup := by
  obtain ⟨regular, outer, params, body⟩ := routine
  have clean : Clean (introduceAll ([] :: outer) decl.locals).1 := by
    rw [FunctionDecl.locals, introduceAll_append, clean_append]
    exact ⟨params, Stmt.clean_allDeclared regular body⟩
  exact nodup_of_clean clean

variable {program : List Stmt}

/-- A walk that finds no error has come to every statement of the program. -/
theorem Within.passed (regular : Stmt.AllRegular program) (clean : Clean (findings program))
    {s : Stmt} (place : Within program around s) : Passed around s := by
  induction place with
  | top member =>
    have walked : Clean (Stmt.resolveAll (surroundings []) [] program) := clean
    exact passed_of_mem regular walked member
  | block _ member ih =>
    obtain ⟨regular, scopes, clean⟩ := ih
    rw [Stmt.Regular] at regular
    rw [Stmt.resolve] at clean
    exact passed_of_mem regular clean member
  | function _ member ih => exact ih.function.passed member
  | method _ method member ih => exact (ih.method method).passed member
  | @thenBranch _ _ _ elseBranch _ ih =>
    obtain ⟨regular, scopes, clean⟩ := ih
    cases elseBranch with
    | none =>
      rw [Stmt.Regular] at regular
      rw [Stmt.resolve, clean_append] at clean
      exact ⟨regular.2, _, clean.2⟩
    | some elseBranch =>
      rw [Stmt.Regular] at regular
      rw [Stmt.resolve, clean_append, clean_append] at clean
      exact ⟨regular.1.2, _, clean.1.2⟩
  | elseBranch _ ih =>
    obtain ⟨regular, scopes, clean⟩ := ih
    rw [Stmt.Regular] at regular
    rw [Stmt.resolve, clean_append] at clean
    exact ⟨regular.2.2, _, clean.2⟩
  | loop _ ih =>
    obtain ⟨regular, scopes, clean⟩ := ih
    rw [Stmt.Regular] at regular
    rw [Stmt.resolve, clean_append] at clean
    exact ⟨regular.2, _, clean.2⟩

/-- The walk has nothing against any use. -/
theorem Uses.useError_eq_none (regular : Stmt.AllRegular program)
    (clean : Clean (findings program)) {role : Role} {ref : Variable}
    (uses : Uses program around role ref) :
    ∃ scopes initializing,
      useError scopes (surroundings around).inClass initializing (role, ref) = none := by
  obtain ⟨s, place, value, member, used⟩ := uses
  obtain ⟨-, scopes, clean⟩ := place.passed regular clean
  obtain ⟨scopes, initializing, clean⟩ := s.clean_expression clean member
  exact ⟨scopes, initializing, Expr.useError_eq_none clean used⟩

/-- A program in which the walk finds no error keeps the rules. -/
theorem valid_of_clean (regular : Stmt.AllRegular program) (clean : Clean (findings program)) :
    Valid program where
  distinct := by
    intro names scope
    cases scope with
    | block place =>
      obtain ⟨regular, scopes, clean⟩ := place.passed regular clean
      rw [Stmt.Regular] at regular
      rw [Stmt.resolve] at clean
      exact nodup_of_clean (Stmt.clean_allDeclared regular clean)
    | function place => exact (place.passed regular clean).function.distinct
    | method place member => exact ((place.passed regular clean).method member).distinct
  initializers := by
    rintro ⟨name, _⟩ ref ⟨around, s, place, item, value, ⟨⟩, used⟩ same
    obtain ⟨-, scopes, clean⟩ := place.passed regular clean
    obtain ⟨scopes, clean⟩ := s.clean_item clean item
    rw [VarDecl.resolve, clean_append] at clean
    have against := Expr.useError_eq_none clean.2 used
    rw [useError, same, if_pos (own_of_clean clean.1)] at against
    cases against
  returns := by
    intro around keyword value place
    obtain ⟨-, scopes, clean⟩ := place.passed regular clean
    by_contra outside
    have top : (surroundings around).inFunction = .none :=
      inFunction_eq_none.2 fun e member function => outside ⟨e, member, function⟩
    cases value with
    | none =>
      rw [Stmt.resolve, if_pos top] at clean
      exact not_clean_fault _ _ clean
    | some value =>
      rw [Stmt.resolve, clean_append, clean_append, if_pos top] at clean
      exact not_clean_fault _ _ clean.1.1
  values := by
    intro around keyword value decl place inner named
    obtain ⟨-, scopes, clean⟩ := place.passed regular clean
    have inside := inFunction_eq_initializer.2 ⟨decl, inner, named⟩
    rw [Stmt.resolve, clean_append, clean_append, if_pos inside] at clean
    exact not_clean_fault _ _ clean.1.2
  this := by
    intro around ref uses
    obtain ⟨scopes, initializing, against⟩ := uses.useError_eq_none regular clean
    by_contra outside
    have none : (surroundings around).inClass = .none :=
      inClass_eq_none.2 fun e member cls => outside ⟨e, member, cls⟩
    rw [useError, if_pos none] at against
    cases against
  super := by
    intro around ref uses
    obtain ⟨scopes, initializing, against⟩ := uses.useError_eq_none regular clean
    apply inClass_eq_subclass.1
    cases kind : (surroundings around).inClass with
    | none | base =>
      rw [kind] at against
      cases against
    | subclass => rfl
  inherits := by
    intro around name superclass methods place same
    obtain ⟨-, scopes, clean⟩ := place.passed regular clean
    rw [Stmt.resolve, clean_append, clean_append, resolveSuperclass, clean_append,
      if_pos same] at clean
    exact not_clean_fault _ _ clean.1.2.1

end complete

/-- Resolution accepts a program that has been parsed just if it keeps the rules of scopes. If it
does not, each of the errors is at a token that breaks the rule of its message. -/
theorem resolve_exact {tokens : List Token} {firstId next : NodeId} {program : List Stmt}
    (parsed : parse tokens firstId = ⟨.ok program, next⟩) :
    ((∃ distances, resolve program = .ok distances) ↔ Valid program) ∧
      ∀ found, resolve program = .error found → found ≠ [] ∧ ∀ e ∈ found, Violates program e := by
  have regular : Stmt.AllRegular program := (program_of_parse parsed).shaped.2
  have sound : ∀ e ∈ errors (findings program), Violates program e := by
    intro e h
    have found : e ∈ errors (Stmt.resolveAll (surroundings []) [] program) := h
    refine (Stmt.allViolates program (fun _ => .top) regular .top found).elim ?_ id
    rw [introduceAll_nil]
    intro none
    cases none
  refine ⟨⟨?_, fun valid => ?_⟩, fun found rejected => ?_⟩
  · rintro ⟨distances, resolved⟩
    exact valid_of_clean regular (clean_of_resolve resolved)
  · refine ⟨_, resolve_of_clean fun e member => ?_⟩
    exact valid.not_violates e (sound e (mem_errors.2 member))
  · rw [resolve] at rejected
    split at rejected
    · cases rejected
    · next some =>
      cases rejected
      exact ⟨fun none => some (List.isEmpty_iff.2 none), sound⟩

/-- The tokens of `{ var a = a; return this; }`. -/
def strayTokens : List Token :=
  [⟨.leftBrace, "\x7b", none, 1⟩, ⟨.kwVar, "var", none, 1⟩, ⟨.identifier, "a", none, 1⟩,
    ⟨.equal, "=", none, 1⟩, ⟨.identifier, "a", none, 1⟩, ⟨.semicolon, ";", none, 1⟩,
    ⟨.kwReturn, "return", none, 1⟩, ⟨.kwThis, "this", none, 1⟩, ⟨.semicolon, ";", none, 1⟩,
    ⟨.rightBrace, "\x7d", none, 1⟩, .eof 1]

def strayProgram : List Stmt :=
  [.block
    [.var ⟨⟨.identifier, "a", none, 1⟩, some (.read ⟨0, ⟨.identifier, "a", none, 1⟩⟩)⟩,
      .ret ⟨.kwReturn, "return", none, 1⟩ (some (.this 1 ⟨.kwThis, "this", none, 1⟩))]]

def strayErrors : List ScopeError :=
  [⟨⟨.identifier, "a", none, 1⟩, .ownInitializer⟩, ⟨⟨.kwReturn, "return", none, 1⟩, .returnOutside⟩,
    ⟨⟨.kwThis, "this", none, 1⟩, .thisOutside⟩]

/-- Three rules broken in one block. -/
theorem resolve_exact_stray : parse strayTokens 0 = ⟨.ok strayProgram, 2⟩ ∧
    resolve strayProgram = .error strayErrors ∧ ¬ Valid strayProgram ∧
    ∀ e ∈ strayErrors, Violates strayProgram e := by
  have parsed : parse strayTokens 0 = ⟨.ok strayProgram, 2⟩ := by cbv
  have rejected : resolve strayProgram = .error strayErrors := by cbv
  obtain ⟨accepts, reports⟩ := resolve_exact parsed
  refine ⟨parsed, rejected, fun valid => ?_, (reports strayErrors rejected).2⟩
  obtain ⟨distances, resolved⟩ := accepts.2 valid
  rw [rejected] at resolved
  cases resolved

end Treewalk
