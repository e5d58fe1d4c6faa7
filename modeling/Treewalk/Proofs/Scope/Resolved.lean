import Treewalk.Proofs.Scope.Context
import Treewalk.Syntax.Resolution

/-!
# What resolution finds

If the walk over a program finds no error, its findings are the distances of the occurrences in the
program, in order, and every occurrence is one that a run can make sense of: no variable is read in
its own initializer, no name is declared twice in a scope, `this` has its scope around it, and
`super` has one right outside of that of `this`.
-/

namespace Treewalk

open Resolution

/-- What the scanner promises of a name: `this` and `super` are neither variables nor declared. -/
def Mention.Lexed : Mention → Prop
  | .use .this ref => ref.name.lexeme = thisName
  | .use .super ref => ref.name.lexeme = superName
  | .use _ ref => ref.name.lexeme ≠ thisName ∧ ref.name.lexeme ≠ superName
  | .declare name => name.lexeme ≠ thisName ∧ name.lexeme ≠ superName

/-- The distance of a use, if it is not a global. -/
def Occurrence.findings : Occurrence → List Finding
  | ⟨.use _ ref, c⟩ =>
    match c.distance? ref.name.lexeme with
    | some n => [.distance ref.id n]
    | none => []
  | ⟨.declare _, _⟩ => []

/-- A run can make sense of the occurrence. -/
def Occurrence.Admissible : Occurrence → Prop
  | ⟨.use .read ref, c⟩ => ∀ s ∈ c, s.pending ≠ some ref.name.lexeme
  | ⟨.use .write _, _⟩ => True
  | ⟨.use .this _, c⟩ => ∃ d, c.distance? thisName = some d
  | ⟨.use .super _, c⟩ => ∃ d, c.distance? thisName = some d ∧ c.distance? superName = some (d + 1)
  | ⟨.declare name, c⟩ => ∀ s ∈ c.head?, s.pending = none ∧ ¬ s.Declares name.lexeme

/-- The innermost class around a place is seen in the scopes around it. -/
def ClassKind.Around (c : Context) : ClassKind → Prop
  | .none => True
  | .base => ∃ d, c.distance? thisName = some d
  | .subclass => ∃ d, c.distance? thisName = some d ∧ c.distance? superName = some (d + 1)

/-- No initializer is begun. -/
def Context.Settled (c : Context) : Prop := ∀ s ∈ c, s.pending = none

/-- At most in the innermost scope an initializer is begun, and of a variable that is not declared
there already. -/
def Context.Fresh : Context → Prop
  | [] => True
  | s :: outer => (∀ x, s.pending = some x → x ∉ s.names) ∧ Settled outer

namespace Resolution

/-- The scope that the walk keeps for a scope of the text. -/
def Mirror (scope : Scope) (s : LexicalScope) : Prop :=
  ∀ x, scope.lookup x =
    if x ∈ s.names then some true else if s.pending = some x then some false else none

/-- The scopes that the walk keeps at a place. -/
def Mirrors : List Scope → Context → Prop
  | [], [] => True
  | scope :: outer, s :: c => Mirror scope s ∧ Mirrors outer c
  | _, _ => False

def Clean (found : List Finding) : Prop := ∀ e, .error e ∉ found

theorem clean_append {found more : List Finding} :
    Clean (found ++ more) ↔ Clean found ∧ Clean more := by
  simp only [Clean, List.mem_append, not_or]
  exact ⟨fun h => ⟨fun e => (h e).1, fun e => (h e).2⟩, fun h e => ⟨h.1 e, h.2 e⟩⟩

theorem not_clean_fault (token : Token) (cause : ScopeError.Cause) :
    ¬ Clean (fault token cause) := fun h => h _ (.head _)

/-- The findings are those of the occurrences, and these make sense. -/
def Matches (found : List Finding) (os : List Occurrence) : Prop :=
  found = os.flatMap Occurrence.findings ∧ ∀ o ∈ os, o.Admissible

theorem Matches.nil : Matches [] [] := ⟨rfl, List.forall_mem_nil _⟩

theorem Matches.append {found more : List Finding} {os os' : List Occurrence}
    (h : Matches found os) (h' : Matches more os') : Matches (found ++ more) (os ++ os') := by
  refine ⟨by rw [h.1, h'.1, List.flatMap_append], fun o member => ?_⟩
  rcases List.mem_append.1 member with member | member
  · exact h.2 o member
  · exact h'.2 o member

theorem Mirror.isSome {scope : Scope} {s : LexicalScope} (h : Mirror scope s) (x : String) :
    (scope.lookup x).isSome = true ↔ s.Declares x := by
  rw [h x, LexicalScope.Declares]
  split
  · next member => simp [member]
  · next member =>
    split
    · next pending => simp [pending]
    · next pending => simp [member, pending]

theorem Mirrors.distance? {scopes : List Scope} {c : Context} (h : Mirrors scopes c)
    (x : String) : Resolution.distance? x scopes = c.distance? x := by
  induction scopes generalizing c with
  | nil =>
    cases c with
    | nil => rfl
    | cons s c => exact h.elim
  | cons scope outer ih =>
    cases c with
    | nil => exact h.elim
    | cons s c =>
      obtain ⟨mirror, rest⟩ := h
      rw [Resolution.distance?, Context.distance?, ih rest]
      simp only [mirror.isSome x]

theorem locate_matches {scopes : List Scope} {c : Context} (h : Mirrors scopes c) (role : Role)
    (ref : Variable) : locate scopes ref.id ref.name = Occurrence.findings ⟨.use role ref, c⟩ := by
  cases found : c.distance? ref.name.lexeme <;>
    simp only [locate, Occurrence.findings, h.distance?, found]

/-- One use that makes sense. -/
theorem Matches.use {scopes : List Scope} {c : Context} (role : Role) (ref : Variable)
    (h : Mirrors scopes c) (admissible : Occurrence.Admissible ⟨.use role ref, c⟩) :
    Matches (locate scopes ref.id ref.name) [⟨.use role ref, c⟩] := by
  refine ⟨?_, fun o member => ?_⟩
  · rw [locate_matches h role, List.flatMap_cons, List.flatMap_nil, List.append_nil]
  · rw [List.mem_singleton.1 member]
    exact admissible

/-- A name that is read is not in its own initializer. -/
theorem not_inOwnInitializer {scopes : List Scope} {c : Context} {name : String}
    {initializing : Option String} (h : Mirrors scopes c) (fresh : c.Fresh)
    (other : ¬ inOwnInitializer scopes initializing name = true) :
    ∀ s ∈ c, s.pending ≠ some name := by
  intro s member pending
  cases c with
  | nil => cases member
  | cons inner outer =>
    rcases List.mem_cons.1 member with rfl | member
    · cases scopes with
      | nil => exact h
      | cons scope _ =>
        have lookup := h.1 name
        rw [if_neg (fresh.1 name pending), if_pos pending] at lookup
        exact other (by simp [inOwnInitializer, lookup])
    · rw [fresh.2 s member] at pending
      cases pending

end Resolution

mutual

theorem Expr.resolve_matches {scopes : List Scope} {c : Context} {inClass : ClassKind}
    {initializing : Option String} (mirrors : Mirrors scopes c) (around : inClass.Around c)
    (fresh : c.Fresh) :
    (e : Expr) → Clean (e.resolve scopes inClass initializing) →
    (∀ o ∈ e.occurrences c, o.mention.Lexed) →
    Matches (e.resolve scopes inClass initializing) (e.occurrences c)
  | .sequence items, clean, lexed => Expr.resolveAll_matches mirrors around fresh items clean lexed
  | .assign id name value, clean, lexed => by
    rw [Expr.resolve] at clean ⊢
    simp only [Expr.occurrences, Expr.uses, List.map_append, List.forall_mem_append] at lexed ⊢
    have before := Expr.resolve_matches mirrors around fresh value (clean_append.1 clean).1 lexed.1
    exact before.append (.use .write ⟨id, name⟩ mirrors trivial)
  | .binary left _ right, clean, lexed => by
    rw [Expr.resolve] at clean ⊢
    simp only [Expr.occurrences, Expr.uses, List.map_append, List.forall_mem_append] at lexed ⊢
    obtain ⟨cleanLeft, cleanRight⟩ := clean_append.1 clean
    exact (Expr.resolve_matches mirrors around fresh left cleanLeft lexed.1).append
      (Expr.resolve_matches mirrors around fresh right cleanRight lexed.2)
  | .call callee _ arguments, clean, lexed => by
    rw [Expr.resolve] at clean ⊢
    simp only [Expr.occurrences, Expr.uses, List.map_append, List.forall_mem_append] at lexed ⊢
    obtain ⟨cleanCallee, cleanArguments⟩ := clean_append.1 clean
    exact (Expr.resolve_matches mirrors around fresh callee cleanCallee lexed.1).append
      (Expr.resolveAll_matches mirrors around fresh arguments cleanArguments lexed.2)
  | .get object _, clean, lexed => Expr.resolve_matches mirrors around fresh object clean lexed
  | .grouping inner, clean, lexed => Expr.resolve_matches mirrors around fresh inner clean lexed
  | .constant _, _, _ => .nil
  | .logical left _ right, clean, lexed => by
    rw [Expr.resolve] at clean ⊢
    simp only [Expr.occurrences, Expr.uses, List.map_append, List.forall_mem_append] at lexed ⊢
    obtain ⟨cleanLeft, cleanRight⟩ := clean_append.1 clean
    exact (Expr.resolve_matches mirrors around fresh left cleanLeft lexed.1).append
      (Expr.resolve_matches mirrors around fresh right cleanRight lexed.2)
  | .set object _ value, clean, lexed => by
    rw [Expr.resolve] at clean ⊢
    simp only [Expr.occurrences, Expr.uses, List.map_append, List.forall_mem_append] at lexed ⊢
    obtain ⟨cleanValue, cleanObject⟩ := clean_append.1 clean
    exact (Expr.resolve_matches mirrors around fresh value cleanValue lexed.1).append
      (Expr.resolve_matches mirrors around fresh object cleanObject lexed.2)
  | .super id keyword _, clean, _ => by
    cases inClass with
    | none | base => exact absurd (clean_append.1 clean).1 (not_clean_fault _ _)
    | subclass => exact .use .super ⟨id, keyword⟩ mirrors around
  | .this id keyword, clean, _ => by
    cases inClass with
    | none => exact absurd clean (not_clean_fault _ _)
    | base => exact .use .this ⟨id, keyword⟩ mirrors around
    | subclass =>
      obtain ⟨d, this, -⟩ := around
      exact .use .this ⟨id, keyword⟩ mirrors ⟨d, this⟩
  | .unary _ right, clean, lexed => Expr.resolve_matches mirrors around fresh right clean lexed
  | .read ref, clean, _ => by
    rw [Expr.resolve] at clean ⊢
    split at clean
    · exact absurd (clean_append.1 clean).1 (not_clean_fault _ _)
    · next other =>
      rw [if_neg other]
      refine .use .read ref mirrors ?_
      exact not_inOwnInitializer mirrors fresh other

theorem Expr.resolveAll_matches {scopes : List Scope} {c : Context} {inClass : ClassKind}
    {initializing : Option String} (mirrors : Mirrors scopes c) (around : inClass.Around c)
    (fresh : c.Fresh) :
    (es : List Expr) →
    Clean (Expr.resolveAll scopes inClass initializing es) →
    (∀ o ∈ (Expr.allUses es).map fun u => (⟨.use u.1 u.2, c⟩ : Occurrence), o.mention.Lexed) →
    Matches (Expr.resolveAll scopes inClass initializing es)
      ((Expr.allUses es).map fun u => ⟨.use u.1 u.2, c⟩)
  | [], _, _ => .nil
  | e :: rest, clean, lexed => by
    rw [Expr.resolveAll] at clean ⊢
    simp only [Expr.allUses, List.map_append, List.forall_mem_append] at lexed ⊢
    obtain ⟨cleanFirst, cleanRest⟩ := clean_append.1 clean
    exact (Expr.resolve_matches mirrors around fresh e cleanFirst lexed.1).append
      (Expr.resolveAll_matches mirrors around fresh rest cleanRest lexed.2)

end

theorem Context.distance?_declare {c : Context} (settled : c.Settled) {name other : String}
    (ne : other ≠ name) : (c.declare name).distance? other = c.distance? other := by
  cases c with
  | nil => rfl
  | cons s c =>
    have pending : s.pending = none := settled s (.head _)
    simp only [Context.declare, Context.distance?, LexicalScope.Declares, List.mem_cons, ne,
      pending, false_or]

theorem Context.distance?_announce {c : Context} (settled : c.Settled) {name other : String}
    (ne : other ≠ name) : (c.announce name).distance? other = c.distance? other := by
  cases c with
  | nil => rfl
  | cons s c =>
    have pending : s.pending = none := settled s (.head _)
    simp only [Context.announce, Context.distance?, LexicalScope.Declares, Option.some.injEq,
      ne.symm, pending, reduceCtorEq]

theorem Context.distance?_enter (c : Context) (site : Site) (name : String) :
    (c.enter site).distance? name = (c.distance? name).map (· + 1) := by
  simp [Context.enter, Context.distance?, LexicalScope.Declares]

theorem Context.Settled.declare {c : Context} (h : c.Settled) (name : String) :
    (c.declare name).Settled := by
  cases c with
  | nil => exact h
  | cons s c =>
    intro s' member
    rcases List.mem_cons.1 member with rfl | member
    · rfl
    · exact h s' (.tail _ member)

theorem Context.Settled.fresh {c : Context} (h : c.Settled) : c.Fresh := by
  cases c with
  | nil => trivial
  | cons s c =>
    refine ⟨fun x pending => ?_, fun s' member => h s' (.tail _ member)⟩
    rw [h s (.head _)] at pending
    cases pending

namespace ClassKind

variable {c : Context} {k : ClassKind}

/-- Only the distances of `this` and `super` matter. -/
theorem Around.congr {d : Context} (h : k.Around c)
    (this : d.distance? thisName = c.distance? thisName)
    (super : d.distance? superName = c.distance? superName) : k.Around d := by
  cases k with
  | none => trivial
  | base =>
    obtain ⟨n, hthis⟩ := h
    exact ⟨n, this.trans hthis⟩
  | subclass =>
    obtain ⟨n, hthis, hsuper⟩ := h
    exact ⟨n, this.trans hthis, super.trans hsuper⟩

theorem Around.enter (h : k.Around c) (site : Site) : k.Around (c.enter site) := by
  cases k with
  | none => trivial
  | base =>
    obtain ⟨d, hthis⟩ := h
    exact ⟨d + 1, by rw [Context.distance?_enter, hthis, Option.map_some]⟩
  | subclass =>
    obtain ⟨d, hthis, hsuper⟩ := h
    refine ⟨d + 1, ?_, ?_⟩
    · rw [Context.distance?_enter, hthis, Option.map_some]
    · rw [Context.distance?_enter, hsuper, Option.map_some]

end ClassKind

namespace Resolution

/-- The walk stands at a place with these scopes around it. -/
structure Stands (scopes : List Scope) (c : Context) (k : ClassKind) : Prop where
  mirrors : Mirrors scopes c
  settled : c.Settled
  around : k.Around c

variable {scopes : List Scope} {c : Context} {k : ClassKind}

theorem declare_matches (h : Stands scopes c k) {name : Token}
    (clean : Clean (declare scopes name).1) :
    Matches (declare scopes name).1 [⟨.declare name, c⟩] ∧
      Mirrors (declare scopes name).2 (c.announce name.lexeme) ∧
      (c.announce name.lexeme).Fresh := by
  cases scopes with
  | nil =>
    cases c with
    | nil =>
      refine ⟨⟨rfl, fun o member => ?_⟩, trivial, trivial⟩
      rw [List.mem_singleton.1 member]
      intro s member
      cases member
    | cons s c => exact h.mirrors.elim
  | cons scope outer =>
    cases c with
    | nil => exact h.mirrors.elim
    | cons s c =>
      obtain ⟨mirror, rest⟩ := h.mirrors
      have pending : s.pending = none := h.settled s (.head _)
      rw [declare] at clean ⊢
      by_cases known : (scope.lookup name.lexeme).isSome = true
      · rw [if_pos known] at clean
        exact absurd clean (not_clean_fault _ _)
      · rw [if_neg known]
        have new : ¬ s.Declares name.lexeme := fun declares => known ((mirror.isSome _).2 declares)
        refine ⟨⟨rfl, fun o member => ?_⟩, ⟨fun x => ?_, rest⟩, ?_⟩
        · rw [List.mem_singleton.1 member]
          intro s' same
          obtain rfl : s = s' := Option.some.inj same
          exact ⟨pending, new⟩
        · have old := mirror x
          rw [pending] at old
          by_cases same : x = name.lexeme
          · subst same
            rw [if_neg fun member => new (.inl member)]
            simp
          · simp [List.lookup_cons, beq_false_of_ne same, old, Ne.symm same]
        · refine ⟨fun x announced member => ?_, fun s' member => h.settled s' (.tail _ member)⟩
          obtain rfl : name.lexeme = x := Option.some.inj announced
          exact new (.inl member)

theorem define_mirrors {name : Token} (h : Mirrors scopes (c.announce name.lexeme)) :
    Mirrors (define scopes name) (c.declare name.lexeme) := by
  cases scopes with
  | nil =>
    cases c with
    | nil => trivial
    | cons s c => exact h.elim
  | cons scope outer =>
    cases c with
    | nil => exact h.elim
    | cons s c =>
      refine ⟨fun x => ?_, h.2⟩
      have old := h.1 x
      by_cases same : x = name.lexeme
      · simp [same]
      · simp only [List.lookup_cons, beq_false_of_ne same, old, List.mem_cons, same, false_or,
          Option.some.injEq, Ne.symm same, if_false, reduceCtorEq]

theorem Stands.declare (h : Stands scopes c k) {name : Token}
    (lexed : (Mention.declare name).Lexed) {scopes' : List Scope}
    (mirrors : Mirrors scopes' (c.announce name.lexeme)) :
    Stands (define scopes' name) (c.declare name.lexeme) k where
  mirrors := define_mirrors mirrors
  settled := h.settled.declare _
  around := h.around.congr (Context.distance?_declare h.settled lexed.1.symm)
    (Context.distance?_declare h.settled lexed.2.symm)

theorem introduce_matches (h : Stands scopes c k) {name : Token}
    (clean : Clean (introduce scopes name).1) (lexed : (Mention.declare name).Lexed) :
    Matches (introduce scopes name).1 [⟨.declare name, c⟩] ∧
      Stands (introduce scopes name).2 (c.declare name.lexeme) k := by
  obtain ⟨declared, mirrors, -⟩ := declare_matches h clean
  exact ⟨declared, h.declare lexed mirrors⟩

theorem introduceAll_matches (h : Stands scopes c k) (names : List Token)
    (clean : Clean (introduceAll scopes names).1)
    (lexed : ∀ o ∈ parameterOccurrences c names, o.mention.Lexed) :
    Matches (introduceAll scopes names).1 (parameterOccurrences c names) ∧
      Stands (introduceAll scopes names).2 (c.declareAll names) k := by
  induction names generalizing scopes c with
  | nil => exact ⟨.nil, h⟩
  | cons name rest ih =>
    simp only [parameterOccurrences, List.forall_mem_cons] at lexed
    obtain ⟨cleanFirst, cleanRest⟩ := clean_append.1 clean
    obtain ⟨declared, stands⟩ := introduce_matches h cleanFirst lexed.1
    obtain ⟨others, after⟩ := ih stands cleanRest lexed.2
    exact ⟨declared.append others, after⟩

theorem variable_matches (surroundings : Surroundings) (h : Stands scopes c surroundings.inClass)
    (decl : VarDecl) (clean : Clean (decl.resolve surroundings scopes).1)
    (lexed : ∀ o ∈ decl.occurrences c, o.mention.Lexed) :
    Matches (decl.resolve surroundings scopes).1 (decl.occurrences c) ∧
      Stands (decl.resolve surroundings scopes).2 (c.declare decl.name.lexeme)
        surroundings.inClass := by
  obtain ⟨name, initializer⟩ := decl
  simp only [VarDecl.occurrences, List.forall_mem_cons] at lexed
  obtain ⟨cleanName, cleanInside⟩ := clean_append.1 clean
  obtain ⟨declared, mirrors, fresh⟩ := declare_matches h cleanName
  refine ⟨declared.append ?_, h.declare lexed.1 mirrors⟩
  cases initializer with
  | none => exact .nil
  | some e =>
    have around := h.around.congr (d := c.announce name.lexeme)
      (Context.distance?_announce h.settled lexed.1.1.symm)
      (Context.distance?_announce h.settled lexed.1.2.symm)
    exact Expr.resolve_matches mirrors around fresh e cleanInside lexed.2

theorem variables_matches (surroundings : Surroundings)
    (h : Stands scopes c surroundings.inClass) (decls : List VarDecl)
    (clean : Clean (VarDecl.resolveAll surroundings scopes decls).1)
    (lexed : ∀ o ∈ VarDecl.allOccurrences c decls, o.mention.Lexed) :
    Matches (VarDecl.resolveAll surroundings scopes decls).1 (VarDecl.allOccurrences c decls) ∧
      Stands (VarDecl.resolveAll surroundings scopes decls).2
        (c.declareAll (decls.map (·.name))) surroundings.inClass := by
  induction decls generalizing scopes c with
  | nil => exact ⟨.nil, h⟩
  | cons decl rest ih =>
    simp only [VarDecl.allOccurrences, List.forall_mem_append] at lexed
    obtain ⟨cleanFirst, cleanRest⟩ := clean_append.1 clean
    obtain ⟨declared, stands⟩ := variable_matches surroundings h decl cleanFirst lexed.1
    obtain ⟨others, after⟩ := ih stands cleanRest lexed.2
    exact ⟨declared.append others, after⟩

end Resolution

namespace Resolution

variable {scopes : List Scope} {c : Context} {k : ClassKind}

theorem Stands.enter (h : Stands scopes c k) (site : Site) :
    Stands ([] :: scopes) (c.enter site) k where
  mirrors := ⟨fun _ => by simp, h.mirrors⟩
  settled := List.forall_mem_cons.2 ⟨rfl, h.settled⟩
  around := h.around.enter site

theorem Stands.enterThis (h : Mirrors scopes c) (settled : c.Settled) (method : FunctionDecl) :
    Stands ([(thisName, true)] :: scopes) (c.enterThis method) .base where
  mirrors := by
    refine ⟨fun x => ?_, h⟩
    by_cases same : x = thisName
    · simp [same]
    · simp [List.lookup_cons, beq_false_of_ne same, same]
  settled := List.forall_mem_cons.2 ⟨rfl, settled⟩
  around := ⟨0, rfl⟩

/-- The scopes around the methods of a class that has a superclass. -/
theorem Stands.enterSubclass (h : Mirrors scopes c) (settled : c.Settled) (name : Token)
    (superclass : Variable) (methods : List FunctionDecl) (method : FunctionDecl) :
    Stands ([(thisName, true)] :: [(superName, true)] :: scopes)
      ((c.enterClass name (some superclass) methods).enterThis method) .subclass := by
  have outer : Mirrors ([(superName, true)] :: scopes)
      (c.enterClass name (some superclass) methods) := by
    refine ⟨fun x => ?_, h⟩
    by_cases same : x = superName
    · simp [same]
    · simp [List.lookup_cons, beq_false_of_ne same, same]
  obtain ⟨mirrors, settled, -⟩ :=
    Stands.enterThis outer (List.forall_mem_cons.2 ⟨rfl, settled⟩) method
  exact ⟨mirrors, settled, 0, rfl, rfl⟩

end Resolution

mutual

theorem Stmt.resolve_matches : (s : Stmt) → ∀ {a scopes c},
    Stands scopes c a.inClass → s.Regular →
    Clean (s.resolve a scopes).1 → (∀ o ∈ s.occurrences c, o.mention.Lexed) →
    Matches (s.resolve a scopes).1 (s.occurrences c) ∧
      Stands (s.resolve a scopes).2 (c.declareAll s.declared) a.inClass
  | .block body, _, _, _, h, regular, clean, lexed => by
    rw [Stmt.Regular] at regular
    exact ⟨Stmt.resolveAll_matches body (h.enter _) regular clean lexed, h⟩
  | .classDecl name none methods, a, scopes, c, h, regular, clean, lexed => by
    rw [Stmt.Regular] at regular
    rw [Stmt.resolve] at clean ⊢
    rw [Stmt.occurrences] at lexed ⊢
    simp only [List.forall_mem_cons, Option.toList_none, List.map_nil, List.nil_append] at lexed ⊢
    obtain ⟨cleanName, cleanMethods⟩ := clean_append.1 clean
    obtain ⟨declared, after⟩ := introduce_matches h cleanName lexed.1
    have inside := FunctionDecl.resolveAll_matches methods
      (a := { a with inClass := .base })
      (fun method => Stands.enterThis after.mirrors after.settled method) regular cleanMethods
      lexed.2
    exact ⟨declared.append inside, after⟩
  | .classDecl name (some superclass) methods, a, scopes, c, h, regular, clean,
      lexed => by
    rw [Stmt.Regular] at regular
    rw [Stmt.resolve] at clean ⊢
    rw [Stmt.occurrences] at lexed ⊢
    simp only [List.forall_mem_cons, Option.toList_some, List.map_cons, List.map_nil,
      List.cons_append, List.nil_append] at lexed ⊢
    obtain ⟨cleanBefore, cleanMethods⟩ := clean_append.1 clean
    obtain ⟨cleanName, cleanSuper⟩ := clean_append.1 cleanBefore
    obtain ⟨declared, after⟩ := introduce_matches h cleanName lexed.1
    have used : Matches (resolveSuperclass (introduce scopes name).2 name superclass)
        [⟨.use .read superclass, c.declare name.lexeme⟩] := by
      rw [resolveSuperclass] at cleanSuper ⊢
      split at cleanSuper
      · exact absurd (clean_append.1 cleanSuper).1 (not_clean_fault _ _)
      · next other =>
        rw [if_neg other]
        refine .use .read superclass after.mirrors fun s member pending => ?_
        rw [after.settled s member] at pending
        cases pending
    have inside := FunctionDecl.resolveAll_matches methods
      (a := { a with inClass := .subclass })
      (fun method =>
        Stands.enterSubclass after.mirrors after.settled name superclass methods method)
      regular cleanMethods lexed.2.2
    exact ⟨(declared.append used).append inside, after⟩
  | .expression value, _, _, _, h, _, clean, lexed =>
    ⟨Expr.resolve_matches h.mirrors h.around h.settled.fresh value clean lexed, h⟩
  | .function ⟨name, params, body⟩, a, _, _, h, regular, clean, lexed => by
    rw [Stmt.Regular, FunctionDecl.Regular] at regular
    rw [Stmt.resolve] at clean ⊢
    rw [Stmt.occurrences, FunctionDecl.occurrences] at lexed ⊢
    simp only [List.forall_mem_cons, List.forall_mem_append] at lexed ⊢
    obtain ⟨cleanBefore, cleanBody⟩ := clean_append.1 clean
    obtain ⟨cleanName, cleanParams⟩ := clean_append.1 cleanBefore
    obtain ⟨declared, after⟩ := introduce_matches h cleanName lexed.1
    obtain ⟨parameters, within⟩ := introduceAll_matches (after.enter _) params cleanParams lexed.2.1
    have inside := Stmt.resolveAll_matches body
      (a := { a with inFunction := .function }) within regular cleanBody
      lexed.2.2
    rw [List.append_assoc]
    exact ⟨declared.append (parameters.append inside), after⟩
  | .branch condition thenBranch none, _, _, _, h, regular, clean, lexed => by
    rw [Stmt.Regular] at regular
    rw [Stmt.resolve] at clean ⊢
    rw [Stmt.occurrences] at lexed ⊢
    simp only [List.forall_mem_append] at lexed
    obtain ⟨cleanCondition, cleanThen⟩ := clean_append.1 clean
    have before := Expr.resolve_matches h.mirrors h.around h.settled.fresh condition cleanCondition
      lexed.1
    obtain ⟨inside, after⟩ := thenBranch.resolve_matches h regular.2 cleanThen lexed.2
    rw [regular.1] at after
    exact ⟨before.append inside, after⟩
  | .branch condition thenBranch (some elseBranch), _, _, _, h, regular, clean, lexed => by
    rw [Stmt.Regular] at regular
    rw [Stmt.resolve] at clean ⊢
    rw [Stmt.occurrences] at lexed ⊢
    simp only [List.forall_mem_append] at lexed
    obtain ⟨cleanBefore, cleanElse⟩ := clean_append.1 clean
    obtain ⟨cleanCondition, cleanThen⟩ := clean_append.1 cleanBefore
    have before := Expr.resolve_matches h.mirrors h.around h.settled.fresh condition cleanCondition
      lexed.1
    obtain ⟨inside, after⟩ := thenBranch.resolve_matches h regular.1.2 cleanThen lexed.2.1
    rw [regular.1.1] at after
    obtain ⟨inside', after'⟩ := elseBranch.resolve_matches after regular.2.2 cleanElse lexed.2.2
    rw [regular.2.1] at after'
    rw [← List.append_assoc]
    exact ⟨(before.append inside).append inside', after'⟩
  | .print value, _, _, _, h, _, clean, lexed =>
    ⟨Expr.resolve_matches h.mirrors h.around h.settled.fresh value clean lexed, h⟩
  | .ret keyword none, a, _, _, h, _, clean, _ => by
    rw [Stmt.resolve] at clean ⊢
    split at clean
    · exact absurd clean (not_clean_fault _ _)
    · next other =>
      rw [if_neg other]
      exact ⟨.nil, h⟩
  | .ret keyword (some value), a, _, _, h, _, clean, lexed => by
    rw [Stmt.resolve] at clean ⊢
    obtain ⟨cleanBefore, cleanValue⟩ := clean_append.1 clean
    obtain ⟨cleanOutside, cleanGiven⟩ := clean_append.1 cleanBefore
    have outside : a.inFunction ≠ .none := fun kind => by
      rw [if_pos kind] at cleanOutside
      exact not_clean_fault _ _ cleanOutside
    have given : a.inFunction ≠ .initializer := fun kind => by
      rw [if_pos kind] at cleanGiven
      exact not_clean_fault _ _ cleanGiven
    rw [if_neg outside, if_neg given]
    exact ⟨Expr.resolve_matches h.mirrors h.around h.settled.fresh value cleanValue lexed, h⟩
  | .var decl, a, _, _, h, _, clean, lexed =>
    variable_matches a h decl clean lexed
  | .varList decls, a, _, _, h, _, clean, lexed =>
    variables_matches a h decls clean lexed
  | .loop condition body, _, _, _, h, regular, clean, lexed => by
    rw [Stmt.Regular] at regular
    rw [Stmt.resolve] at clean ⊢
    rw [Stmt.occurrences] at lexed ⊢
    simp only [List.forall_mem_append] at lexed
    obtain ⟨cleanCondition, cleanBody⟩ := clean_append.1 clean
    have before := Expr.resolve_matches h.mirrors h.around h.settled.fresh condition cleanCondition
      lexed.1
    obtain ⟨inside, after⟩ := body.resolve_matches h regular.2 cleanBody lexed.2
    rw [regular.1] at after
    exact ⟨before.append inside, after⟩

theorem Stmt.resolveAll_matches : (body : List Stmt) → ∀ {a scopes c},
    Stands scopes c a.inClass → Stmt.AllRegular body →
    Clean (Stmt.resolveAll a scopes body) →
    (∀ o ∈ Stmt.allOccurrences c body, o.mention.Lexed) →
    Matches (Stmt.resolveAll a scopes body) (Stmt.allOccurrences c body)
  | [], _, _, _, _, _, _, _ => .nil
  | s :: rest, _, _, _, h, regular, clean, lexed => by
    rw [Stmt.AllRegular] at regular
    rw [Stmt.resolveAll] at clean ⊢
    rw [Stmt.allOccurrences] at lexed ⊢
    simp only [List.forall_mem_append] at lexed
    obtain ⟨cleanFirst, cleanRest⟩ := clean_append.1 clean
    obtain ⟨first, after⟩ := s.resolve_matches h regular.1 cleanFirst lexed.1
    exact first.append (Stmt.resolveAll_matches rest after regular.2 cleanRest lexed.2)

theorem FunctionDecl.resolveAll_matches : (decls : List FunctionDecl) →
    ∀ {a scopes c},
    (∀ method, Stands scopes (c.enterThis method) a.inClass) →
    FunctionDecl.AllRegular decls → Clean (FunctionDecl.resolveAll a scopes decls) →
    (∀ o ∈ FunctionDecl.allOccurrences c decls, o.mention.Lexed) →
    Matches (FunctionDecl.resolveAll a scopes decls)
      (FunctionDecl.allOccurrences c decls)
  | [], _, _, _, _, _, _, _ => .nil
  | ⟨name, params, body⟩ :: rest, a, _, _, h, regular, clean, lexed => by
    rw [FunctionDecl.AllRegular, FunctionDecl.Regular] at regular
    rw [FunctionDecl.resolveAll] at clean ⊢
    rw [FunctionDecl.allOccurrences, FunctionDecl.occurrences] at lexed ⊢
    simp only [List.forall_mem_append] at lexed
    obtain ⟨cleanFirst, cleanRest⟩ := clean_append.1 clean
    obtain ⟨cleanParams, cleanBody⟩ := clean_append.1 cleanFirst
    obtain ⟨parameters, within⟩ :=
      introduceAll_matches ((h _).enter _) params cleanParams lexed.1.1
    have inside := Stmt.resolveAll_matches body
      (a := { a with
        inFunction := if name.lexeme = initializerName then .initializer else .method })
      within regular.1 cleanBody lexed.1.2
    exact (parameters.append inside).append
      (FunctionDecl.resolveAll_matches rest h regular.2 cleanRest lexed.2)

end

/-- The number of a use. -/
def Occurrence.id? : Occurrence → Option NodeId
  | ⟨.use _ ref, _⟩ => some ref.id
  | ⟨.declare _, _⟩ => none

/-- The number of a use and its distance, if it is not a global. -/
def Occurrence.distance? : Occurrence → Option (NodeId × Nat)
  | ⟨.use _ ref, c⟩ => (c.distance? ref.name.lexeme).map (ref.id, ·)
  | ⟨.declare _, _⟩ => none

theorem Occurrence.filterMap_findings (os : List Occurrence) :
    (os.flatMap Occurrence.findings).filterMap Finding.distance? =
      os.filterMap Occurrence.distance? := by
  induction os with
  | nil => rfl
  | cons o os ih =>
    rw [List.flatMap_cons, List.filterMap_append, ih]
    obtain ⟨mention, c⟩ := o
    cases mention with
    | declare name => rfl
    | use role ref =>
      rw [List.filterMap_cons, Occurrence.findings, Occurrence.distance?]
      cases c.distance? ref.name.lexeme <;> rfl

theorem Resolution.clean_of_resolve {program : List Stmt} {distances : List (NodeId × Nat)}
    (h : resolve program = .ok distances) : Clean (findings program) := by
  simp only [resolve] at h
  split at h
  · next none =>
    intro e member
    have listed : e ∈ (findings program).filterMap Finding.error? :=
      List.mem_filterMap.2 ⟨_, member, rfl⟩
    rw [List.isEmpty_iff.1 none] at listed
    cases listed
  · cases h

/-- A program that resolves consists of occurrences that make sense, and its distances are
theirs. -/
theorem resolve_eq_ok {program : List Stmt} {distances : List (NodeId × Nat)}
    (h : resolve program = .ok distances) (regular : Stmt.AllRegular program)
    (lexed : ∀ o ∈ occurrences program, o.mention.Lexed) :
    distances = (occurrences program).filterMap Occurrence.distance? ∧
      ∀ o ∈ occurrences program, o.Admissible := by
  have clean := clean_of_resolve h
  simp only [resolve] at h
  split at h
  · cases h
    have stands : Stands [] [] (Surroundings.mk .none .none).inClass :=
      ⟨trivial, List.forall_mem_nil _, trivial⟩
    obtain ⟨found, admissible⟩ := Stmt.resolveAll_matches program stands regular clean lexed
    refine ⟨?_, admissible⟩
    rw [findings, found, Occurrence.filterMap_findings]
    rfl
  · cases h

end Treewalk
