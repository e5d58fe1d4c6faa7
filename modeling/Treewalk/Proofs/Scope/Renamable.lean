import Treewalk.Proofs.Scope.NewName

/-!
# Every variable of a scope can be renamed

The walk that gives one variable of a program another name leaves a program as `Renames` describes
it: it changes one declaration and just those uses whose distance leads to the scope of that
declaration.
-/

namespace Treewalk

/-! ### What the walk knows -/

/-- The scope that declares the name is so many scopes out. -/
def Context.Sees (around : Context) (name : String) (level : Option Nat) : Prop :=
  ∀ d, level = some d ↔ ∃ s, around[d]? = some s ∧ s.Declares name

theorem Context.sees_cons {s : LexicalScope} {outer : Context} {name : String}
    {level : Option Nat} :
    Context.Sees (s :: outer) name level ↔ (level = some 0 ↔ s.Declares name) ∧
      ∀ d, level = some (d + 1) ↔ ∃ s', outer[d]? = some s' ∧ s'.Declares name := by
  constructor
  · intro sees
    exact ⟨by simpa using sees 0, fun d => sees (d + 1)⟩
  · rintro ⟨first, others⟩ d
    cases d with
    | zero => simpa using first
    | succ d => exact others d

/-- Behind declarations of a scope there is still the scope. -/
theorem Context.declareAll_ne_nil {c : Context} {ts : List Token} :
    c.declareAll ts ≠ [] ↔ c ≠ [] := by
  rw [← List.length_pos_iff, ← List.length_pos_iff, Context.length_declareAll]

namespace NewName

variable (n : NewName)

/-- The walk is at a place with `i` variables before it. -/
structure At (i : Nat) (level : Option Nat) (c : Context) : Prop where
  settled : ∀ s ∈ c, s.pending = none
  sees : c.Sees n.new level
  /-- The renamed variable is one of those before the place. -/
  passed : level ≠ none → n.index < i

variable {n} {i j : Nat} {level : Option Nat} {c : Context} {s : LexicalScope} {t : Token}

theorem at_nil : n.At 0 none [] := ⟨List.forall_mem_nil _, by simp [Context.Sees], nofun⟩

namespace At

theorem mono (h : n.At i level c) (le : i ≤ j) : n.At j level c :=
  ⟨h.settled, h.sees, fun some => Nat.lt_of_lt_of_le (h.passed some) le⟩

/-- In a scope of its own the place is one scope further inside. -/
theorem push (h : n.At i level c) (settled : s.pending = none) (other : n.new ∉ s.names) :
    n.At i (level.map (· + 1)) (s :: c) where
  settled := List.forall_mem_cons.2 ⟨settled, h.settled⟩
  sees := by
    rw [Context.sees_cons]
    constructor
    · simp [LexicalScope.Declares, settled, other]
    · intro d
      rw [← h.sees d]
      simp
  passed some := h.passed fun none => some (by rw [none, Option.map_none])

theorem enter (h : n.At i level c) (site : Site) :
    n.At i (level.map (· + 1)) (c.enter site) := h.push rfl List.not_mem_nil

theorem enterThis (h : n.At i level c) (ordinary : Ordinary n.new) (method : FunctionDecl) :
    n.At i (level.map (· + 1)) (c.enterThis method) :=
  h.push rfl fun listed => ordinary.1 (List.mem_singleton.1 listed)

theorem enterClass (h : n.At i level c) (ordinary : Ordinary n.new) (name : Token)
    (superclass : Option Variable) (methods : List FunctionDecl) :
    n.At i (superclass.elim level fun _ => level.map (· + 1))
      (c.enterClass name superclass methods) := by
  cases superclass with
  | none => exact h
  | some ref => exact h.push rfl fun listed => ordinary.2 (List.mem_singleton.1 listed)

/-- A declaration of another name changes nothing. -/
theorem declare_other {name : String} (h : n.At i level c) (other : name ≠ n.new) :
    n.At i level (c.declare name) := by
  cases c with
  | nil => exact h
  | cons s outer =>
    obtain ⟨here, others⟩ := List.forall_mem_cons.1 h.settled
    obtain ⟨first, further⟩ := Context.sees_cons.1 h.sees
    refine ⟨List.forall_mem_cons.2 ⟨rfl, others⟩, Context.sees_cons.2 ⟨?_, further⟩, h.passed⟩
    rw [first, LexicalScope.Declares, LexicalScope.Declares, here, List.mem_cons,
      or_iff_right other.symm]

/-- At the declaration that is renamed the new name is declared nowhere yet. -/
theorem level_eq_none (h : n.At i level c) (this : i = n.index) : level = none := by
  by_contra some
  exact Nat.lt_irrefl i (this ▸ h.passed some)

/-- There only the scope at hand comes to declare it. -/
theorem only_here {outer : Context} (h : n.At i none (s :: outer)) (d : Nat) :
    some 0 = some (d + 1) ↔ ∃ s', outer[d]? = some s' ∧ s'.Declares n.new := by
  obtain ⟨-, further⟩ := Context.sees_cons.1 h.sees
  rw [← further d]
  simp

/-- Inside of the initializer of a variable. -/
theorem announce (h : n.At i level c) (nested : c ≠ []) (unused : t.lexeme ≠ n.new) :
    (c.announce (n.declare i t).lexeme).Sees n.new (n.levelBehind i level) := by
  obtain ⟨s, outer, rfl⟩ := List.exists_cons_of_ne_nil nested
  obtain ⟨here, -⟩ := List.forall_mem_cons.1 h.settled
  refine Context.sees_cons.2 ?_
  by_cases this : i = n.index
  · obtain rfl := h.level_eq_none this
    rw [levelBehind, NewName.declare, if_pos this, if_pos this]
    exact ⟨iff_of_true rfl (.inr rfl), h.only_here⟩
  · obtain ⟨first, further⟩ := Context.sees_cons.1 h.sees
    rw [levelBehind, NewName.declare, if_neg this, if_neg this]
    refine ⟨?_, further⟩
    rw [first, LexicalScope.Declares, LexicalScope.Declares, here]
    simp [unused]

/-- Behind the declaration of a variable. -/
theorem declare (h : n.At i level c) (nested : c ≠ []) (unused : t.lexeme ≠ n.new) :
    n.At (i + 1) (n.levelBehind i level) (c.declare (n.declare i t).lexeme) := by
  by_cases this : i = n.index
  · obtain ⟨s, outer, rfl⟩ := List.exists_cons_of_ne_nil nested
    obtain rfl := h.level_eq_none this
    rw [levelBehind, NewName.declare, if_pos this, if_pos this]
    refine ⟨List.forall_mem_cons.2 ⟨rfl, fun s member => h.settled s (.tail _ member)⟩, ?_,
      fun _ => this ▸ Nat.lt_succ_self i⟩
    exact Context.sees_cons.2 ⟨iff_of_true rfl (.inl (.head _)), h.only_here⟩
  · rw [levelBehind, NewName.declare, if_neg this, if_neg this]
    exact (h.declare_other unused).mono (Nat.le_succ i)

theorem declareAll {ts : List Token} (h : n.At i level c) (nested : c ≠ [])
    (unused : ∀ t ∈ ts, t.lexeme ≠ n.new) :
    n.At (i + ts.length) (n.levelBehindAll i level ts) (c.declareAll (n.declareAll i ts)) := by
  induction ts generalizing i level c with
  | nil => exact h
  | cons t rest ih =>
    obtain ⟨first, others⟩ := List.forall_mem_cons.1 unused
    have still : c.declareAll [n.declare i t] ≠ [] := Context.declareAll_ne_nil.2 nested
    have behind := ih (h.declare nested first) still others
    rw [Nat.add_right_comm] at behind
    exact behind

end At

end NewName

/-! ### What the walk leaves -/

/-- `this` and `super` are no names of variables. -/
def Role.mapVariable (f : Variable → Variable) : Role → Variable → Variable
  | .read, ref | .write, ref => f ref
  | .this, ref | .super, ref => ref

instance (name : String) : (o : Occurrence) → Decidable (o.Declares name)
  | ⟨.declare token, _⟩ =>
    decidable_of_iff (token.lexeme = name) ⟨fun same => ⟨token, rfl, same⟩, fun
      | ⟨_, rfl, same⟩ => same⟩
  | ⟨.use _ _, _⟩ => isFalse fun
      | ⟨_, used, _⟩ => nomatch used

namespace NewName

variable (n : NewName)

/-- How many of `m` variables from number `i` on are renamed. -/
def hits (i m : Nat) : Nat := if i ≤ n.index ∧ n.index < i + m then 1 else 0

/-- The mentions that are left of a part of a program with `m` variables, from number `i` on. -/
structure Renamed (i m : Nat) (os : List Occurrence) : Prop where
  uses : ∀ o ∈ os, ∀ role ref, o.mention = .use role ref → (role = .read ∨ role = .write) →
    (ref.name.lexeme = n.new ↔ n.undo.name ref.name.lexeme = n.old ∧ ∃ d scope,
      n.distance? ref.id = some d ∧ o.context[d]? = some scope ∧ scope.Declares n.new)
  inside : ∀ o ∈ os, o.Declares n.new → o.context ≠ []
  once : os.countP (·.Declares n.new) = n.hits i m

variable {n} {i m : Nat} {level : Option Nat} {c c₀ : Context} {t : Token} {ref : Variable}
  {o : Occurrence} {os os' : List Occurrence}

theorem hits_zero : n.hits i 0 = 0 := if_neg (by omega)

theorem hits_add (m' : Nat) : n.hits i (m + m') = n.hits i m + n.hits (i + m) m' := by
  unfold hits
  split_ifs <;> omega

/-- A variable has the new name where its distance leads to the renamed declaration. -/
theorem use_iff {around : Context} (sees : around.Sees n.new level)
    (unused : ref.name.lexeme ≠ n.new) :
    (n.use level ref).name.lexeme = n.new ↔
      n.undo.name (n.use level ref).name.lexeme = n.old ∧ ∃ d scope,
        n.distance? (n.use level ref).id = some d ∧ around[d]? = some scope ∧
          scope.Declares n.new := by
  unfold use
  split
  · next this =>
    obtain ⟨-, some, found⟩ := this
    obtain ⟨d, rfl⟩ := Option.ne_none_iff_exists'.1 some
    obtain ⟨scope, at_, declares⟩ := (sees d).1 rfl
    exact iff_of_true rfl ⟨undo_new, d, scope, found, at_, declares⟩
  · next other =>
    refine iff_of_false unused ?_
    rintro ⟨old, d, scope, found, at_, declares⟩
    rw [undo_other unused] at old
    have here : level = some d := (sees d).2 ⟨scope, at_, declares⟩
    exact other ⟨old, here ▸ Option.some_ne_none d, found.trans here.symm⟩

namespace Renamed

theorem nil : n.Renamed i 0 [] :=
  ⟨List.forall_mem_nil _, List.forall_mem_nil _, hits_zero.symm⟩

theorem append {m' : Nat} (h : n.Renamed i m os) (h' : n.Renamed (i + m) m' os') :
    n.Renamed i (m + m') (os ++ os') where
  uses := List.forall_mem_append.2 ⟨h.uses, h'.uses⟩
  inside := List.forall_mem_append.2 ⟨h.inside, h'.inside⟩
  once := by rw [List.countP_append, h.once, h'.once, hits_add]

/-- Before a part of a program comes one that declares no variable. -/
theorem behind (h : n.Renamed i 0 os) (h' : n.Renamed i m os') : n.Renamed i m (os ++ os') :=
  Nat.zero_add m ▸ h.append h'

theorem cons (h : n.Renamed i 0 [o]) (h' : n.Renamed i m os) : n.Renamed i m (o :: os) :=
  h.behind h'

theorem use {role : Role} (sees : c.Sees n.new level) (unused : ref.name.lexeme ≠ n.new) :
    n.Renamed i 0 [⟨.use role (role.mapVariable (n.use level) ref), c⟩] where
  uses := by
    rw [List.forall_mem_singleton]
    rintro _ _ ⟨⟩ (rfl | rfl) <;> exact use_iff sees unused
  inside := by
    rw [List.forall_mem_singleton]
    rintro ⟨_, used, _⟩
    cases used
  once := hits_zero.symm

theorem of_declare {token : Token} (nested : token.lexeme = n.new → c ≠ [])
    (once : (if token.lexeme = n.new then 1 else 0) = n.hits i m) :
    n.Renamed i m [⟨.declare token, c⟩] where
  uses := by
    rw [List.forall_mem_singleton]
    intro role ref used
    cases used
  inside := by
    rw [List.forall_mem_singleton]
    rintro ⟨_, ⟨⟩, same⟩
    exact nested same
  once := by
    have declares : Occurrence.Declares ⟨.declare token, c⟩ n.new ↔ token.lexeme = n.new :=
      ⟨fun ⟨_, declared, same⟩ => by cases declared; exact same, fun same => ⟨token, rfl, same⟩⟩
    rw [List.countP_singleton, ← once]
    simp only [declares, decide_eq_true_eq]

/-- The name of a function or a class. -/
theorem other (unused : t.lexeme ≠ n.new) : n.Renamed i 0 [⟨.declare t, c⟩] :=
  of_declare (fun same => absurd same unused) (by rw [if_neg unused, hits_zero])

theorem declare (nested : c ≠ []) (unused : t.lexeme ≠ n.new) :
    n.Renamed i 1 [⟨.declare (n.declare i t), c⟩] := by
  refine of_declare (fun _ => nested) ?_
  by_cases this : i = n.index
  · rw [NewName.declare, if_pos this, if_pos rfl, hits, if_pos (by omega)]
  · rw [NewName.declare, if_neg this, if_neg unused, hits, if_neg (by omega)]

end Renamed

end NewName

/-! ### Expressions and variables -/

mutual

theorem Expr.uses_mapVariables (f : Variable → Variable) : (e : Expr) →
    (e.mapVariables f).uses = e.uses.map fun u => (u.1, u.1.mapVariable f u.2)
  | .sequence items => Expr.allUses_mapVariables f items
  | .assign _ _ value => by
    simp only [Expr.mapVariables, Expr.uses, Expr.uses_mapVariables f value, List.map_append]
    rfl
  | .binary left _ right => by
    simp only [Expr.mapVariables, Expr.uses, Expr.uses_mapVariables f left,
      Expr.uses_mapVariables f right, List.map_append]
  | .call callee _ arguments => by
    simp only [Expr.mapVariables, Expr.uses, Expr.uses_mapVariables f callee,
      Expr.allUses_mapVariables f arguments, List.map_append]
  | .get object _ => Expr.uses_mapVariables f object
  | .grouping inner => Expr.uses_mapVariables f inner
  | .constant _ => rfl
  | .logical left _ right => by
    simp only [Expr.mapVariables, Expr.uses, Expr.uses_mapVariables f left,
      Expr.uses_mapVariables f right, List.map_append]
  | .set object _ value => by
    simp only [Expr.mapVariables, Expr.uses, Expr.uses_mapVariables f value,
      Expr.uses_mapVariables f object, List.map_append]
  | .super .. => rfl
  | .this .. => rfl
  | .unary _ right => Expr.uses_mapVariables f right
  | .read _ => rfl

theorem Expr.allUses_mapVariables (f : Variable → Variable) : (es : List Expr) →
    Expr.allUses (Expr.mapAllVariables f es) =
      (Expr.allUses es).map fun u => (u.1, u.1.mapVariable f u.2)
  | [] => rfl
  | e :: rest => by
    simp only [Expr.mapAllVariables, Expr.allUses, Expr.uses_mapVariables f e,
      Expr.allUses_mapVariables f rest, List.map_append]

end

variable {n : NewName} {i : Nat} {level : Option Nat} {c c₀ : Context}

theorem Expr.renamed (sees : c.Sees n.new level) {e : Expr}
    (unused : n.Unused (e.occurrences c₀)) :
    n.Renamed i 0 ((e.mapVariables (n.use level)).occurrences c) := by
  rw [Expr.occurrences] at unused
  rw [Expr.occurrences, Expr.uses_mapVariables]
  generalize e.uses = uses at unused ⊢
  induction uses with
  | nil => exact .nil
  | cons u rest ih => exact .cons (.use sees unused.cons.1) (ih unused.cons.2)

theorem Expr.optional_renamed (sees : c.Sees n.new level) {e : Option Expr}
    (unused : n.Unused (Expr.optionalOccurrences c₀ e)) :
    n.Renamed i 0 (Expr.optionalOccurrences c (e.map (Expr.mapVariables (n.use level)))) := by
  cases e with
  | none => exact .nil
  | some e => exact Expr.renamed sees unused

theorem VarDecl.renamed (h : n.At i level c) (nested : c ≠ []) {decl : VarDecl}
    (unused : n.Unused (decl.occurrences c₀)) :
    n.Renamed i 1 ((decl.withName n i level).occurrences c) := by
  have name : decl.name.lexeme ≠ n.new := unused.cons.1
  exact (NewName.Renamed.declare nested name).append
    (Expr.optional_renamed (h.announce nested name) unused.cons.2)

theorem VarDecl.allRenamed (h : n.At i level c) (nested : c ≠ []) {decls : List VarDecl}
    (unused : n.Unused (VarDecl.allOccurrences c₀ decls)) :
    n.Renamed i decls.length (VarDecl.allOccurrences c (VarDecl.allWithName n i level decls)) := by
  induction decls generalizing c c₀ i level with
  | nil => exact .nil
  | cons decl rest ih =>
    rw [VarDecl.allOccurrences] at unused
    rw [VarDecl.allWithName, VarDecl.allOccurrences, List.length_cons, Nat.add_comm]
    have name : decl.name.lexeme ≠ n.new := unused.append.1.cons.1
    have still : c.declareAll [n.declare i decl.name] ≠ [] := Context.declareAll_ne_nil.2 nested
    exact (VarDecl.renamed h nested unused.append.1).append
      (ih (h.declare nested name) still unused.append.2)

theorem parameters_renamed (h : n.At i level c) (nested : c ≠ []) {ts : List Token}
    (unused : n.Unused (parameterOccurrences c₀ ts)) :
    n.Renamed i ts.length (parameterOccurrences c (n.declareAll i ts)) := by
  induction ts generalizing c c₀ i level with
  | nil => exact .nil
  | cons t rest ih =>
    rw [parameterOccurrences] at unused
    rw [NewName.declareAll, parameterOccurrences, List.length_cons, Nat.add_comm]
    have name : t.lexeme ≠ n.new := unused.cons.1
    have still : c.declareAll [n.declare i t] ≠ [] := Context.declareAll_ne_nil.2 nested
    exact (NewName.Renamed.declare nested name).append
      (ih (h.declare nested name) still unused.cons.2)

theorem lexeme_ne_of_unused {ts : List Token} (unused : n.Unused (parameterOccurrences c ts)) :
    ∀ t ∈ ts, t.lexeme ≠ n.new := by
  induction ts generalizing c with
  | nil => exact List.forall_mem_nil _
  | cons t rest ih =>
    rw [parameterOccurrences] at unused
    exact List.forall_mem_cons.2 ⟨unused.cons.1, ih unused.cons.2⟩

theorem VarDecl.lexeme_ne_of_unused {decls : List VarDecl}
    (unused : n.Unused (VarDecl.allOccurrences c decls)) :
    ∀ t ∈ decls.map (·.name), t.lexeme ≠ n.new := by
  induction decls generalizing c with
  | nil => exact List.forall_mem_nil _
  | cons decl rest ih =>
    rw [VarDecl.allOccurrences] at unused
    exact List.forall_mem_cons.2 ⟨unused.append.1.cons.1, ih unused.append.2⟩

/-! ### Global variables -/

/-- Outside of all scopes nothing is renamed. -/
theorem NewName.Renamed.top {os : List Occurrence} (unused : n.Unused os)
    (outside : ∀ o ∈ os, o.context = []) : n.Renamed i 0 os where
  uses o member role ref used _ := by
    have other : ref.name.lexeme ≠ n.new := fun same => unused o member (by rw [used]; exact same)
    refine iff_of_false other ?_
    rintro ⟨-, d, scope, -, at_, -⟩
    rw [outside o member] at at_
    cases at_
  inside o member declares := by
    obtain ⟨token, declared, same⟩ := declares
    exact absurd (by rw [declared]; exact same) (unused o member)
  once := by
    rw [NewName.hits_zero, List.countP_eq_zero]
    intro o member declares
    obtain ⟨token, declared, same⟩ := of_decide_eq_true declares
    exact unused o member (by rw [declared]; exact same)

theorem VarDecl.context_top {decl : VarDecl} : ∀ o ∈ decl.occurrences [], o.context = [] := by
  rw [VarDecl.occurrences, List.forall_mem_cons]
  refine ⟨rfl, ?_⟩
  cases decl.initializer with
  | none => exact List.forall_mem_nil _
  | some e => exact List.forall_mem_map.2 fun _ _ => rfl

theorem VarDecl.all_context_top {decls : List VarDecl} :
    ∀ o ∈ VarDecl.allOccurrences [] decls, o.context = [] := by
  induction decls with
  | nil => exact List.forall_mem_nil _
  | cons decl rest ih =>
    rw [VarDecl.allOccurrences, List.forall_mem_append]
    exact ⟨VarDecl.context_top, ih⟩

/-! ### Statements -/

/-- A walk knows whether it is in a scope. -/
structure Inside (nested : Bool) (c c₀ : Context) : Prop where
  here : nested = true ↔ c ≠ []
  there : nested = true ↔ c₀ ≠ []

namespace Inside

variable {nested : Bool}

theorem declareAll (h : Inside nested c c₀) (ts ts' : List Token) :
    Inside nested (c.declareAll ts) (c₀.declareAll ts') :=
  ⟨h.here.trans Context.declareAll_ne_nil.symm, h.there.trans Context.declareAll_ne_nil.symm⟩

theorem enter (site site' : Site) : Inside true (c.enter site) (c₀.enter site') :=
  ⟨iff_of_true rfl nofun, iff_of_true rfl nofun⟩

theorem top (h : Inside false c c₀) : c = [] ∧ c₀ = [] := by
  have here := h.here
  have there := h.there
  simpa using And.intro here there

end Inside

theorem FunctionDecl.withName_name (decl : FunctionDecl) :
    (decl.withName n i level).name = decl.name := by
  cases decl
  rw [FunctionDecl.withName]

/-- Behind a statement the walk knows where it is. -/
theorem Stmt.at_behind {nested : Bool} (h : n.At i level c) (inside : Inside nested c c₀)
    (s : Stmt) (unused : n.Unused (s.occurrences c₀)) :
    n.At (i + (s.localNames nested).length) (n.levelBehindAll i level (s.variables nested))
      (c.declareAll (s.withName n nested i level).declared) := by
  have further : n.At (i + (s.localNames nested).length) level c := h.mono (Nat.le_add_right ..)
  cases s with
  | classDecl name superclass methods =>
    rw [Stmt.occurrences] at unused
    exact further.declare_other unused.cons.1
  | function decl =>
    rw [Stmt.occurrences] at unused
    rw [Stmt.withName, Stmt.declared, FunctionDecl.withName_name]
    exact further.declare_other unused.cons.1
  | var decl =>
    cases nested with
    | false =>
      obtain ⟨rfl, rfl⟩ := inside.top
      exact further
    | true => exact h.declare (inside.here.1 rfl) unused.cons.1
  | varList decls =>
    cases nested with
    | false =>
      obtain ⟨rfl, rfl⟩ := inside.top
      rw [Context.declareAll_nil]
      exact further
    | true =>
      have declared : (Stmt.withName n true i level (.varList decls)).declared =
          n.declareAll i (decls.map (·.name)) := VarDecl.names_withName n i level decls
      rw [declared]
      exact h.declareAll (inside.here.1 rfl) (VarDecl.lexeme_ne_of_unused unused)
  | branch condition thenBranch elseBranch => cases elseBranch <;> exact further
  | block | expression | print | ret | loop => exact further

mutual

theorem Stmt.renamed (ordinary : Ordinary n.new) {nested : Bool} {i : Nat} {level : Option Nat}
    {c c₀ : Context} (h : n.At i level c) (inside : Inside nested c c₀) :
    (s : Stmt) → n.Unused (s.occurrences c₀) →
      n.Renamed i (s.localNames nested).length ((s.withName n nested i level).occurrences c)
  | .block body, unused => by
    rw [Stmt.withName, Stmt.occurrences]
    exact Stmt.allRenamed ordinary (h.enter _) (.enter _ _) body unused
  | .classDecl name superclass methods, unused => by
    rw [Stmt.occurrences] at unused
    rw [Stmt.withName, Stmt.occurrences]
    have name' : name.lexeme ≠ n.new := unused.cons.1
    have declared := h.declare_other name'
    refine .cons (.other name') ?_
    cases superclass with
    | none => exact FunctionDecl.allRenamed ordinary declared methods unused.cons.2
    | some ref =>
      have around := declared.enterClass ordinary name (some (n.use level ref))
        (FunctionDecl.allWithName n i (level.map (· + 1)) methods)
      exact .cons (.use declared.sees unused.cons.2.cons.1)
        (FunctionDecl.allRenamed ordinary around methods unused.cons.2.cons.2)
  | .expression value, unused => Expr.renamed h.sees unused
  | .function decl, unused => by
    rw [Stmt.occurrences] at unused
    rw [Stmt.withName, Stmt.occurrences, FunctionDecl.withName_name]
    exact .cons (.other unused.cons.1)
      (FunctionDecl.renamed ordinary (h.declare_other unused.cons.1) decl unused.cons.2)
  | .branch condition thenBranch none, unused => by
    rw [Stmt.occurrences] at unused
    rw [Stmt.withName, Stmt.occurrences]
    exact .behind (Expr.renamed h.sees unused.append.1)
      (Stmt.renamed ordinary h inside thenBranch unused.append.2)
  | .branch condition thenBranch (some elseBranch), unused => by
    rw [Stmt.occurrences] at unused
    rw [Stmt.withName, Stmt.occurrences, Stmt.localNames, List.length_append]
    exact .behind (Expr.renamed h.sees unused.append.1)
      (.append (Stmt.renamed ordinary h inside thenBranch unused.append.2.append.1)
        (Stmt.renamed ordinary (h.mono (Nat.le_add_right ..)) inside elseBranch
          unused.append.2.append.2))
  | .print value, unused => Expr.renamed h.sees unused
  | .ret _ value, unused => Expr.optional_renamed h.sees unused
  | .var decl, unused => by
    cases nested with
    | false =>
      obtain ⟨rfl, rfl⟩ := inside.top
      exact .top unused VarDecl.context_top
    | true => exact VarDecl.renamed h (inside.here.1 rfl) unused
  | .varList decls, unused => by
    cases nested with
    | false =>
      obtain ⟨rfl, rfl⟩ := inside.top
      exact .top unused VarDecl.all_context_top
    | true =>
      rw [Stmt.localNames, if_pos rfl, List.length_map]
      exact VarDecl.allRenamed h (inside.here.1 rfl) unused
  | .loop condition body, unused => by
    rw [Stmt.occurrences] at unused
    rw [Stmt.withName, Stmt.occurrences]
    exact .behind (Expr.renamed h.sees unused.append.1)
      (Stmt.renamed ordinary h inside body unused.append.2)

theorem Stmt.allRenamed (ordinary : Ordinary n.new) {nested : Bool} {i : Nat} {level : Option Nat}
    {c c₀ : Context} (h : n.At i level c) (inside : Inside nested c c₀) :
    (body : List Stmt) → n.Unused (Stmt.allOccurrences c₀ body) →
      n.Renamed i (Stmt.allLocalNames nested body).length
        (Stmt.allOccurrences c (Stmt.allWithName n nested i level body))
  | [], _ => .nil
  | s :: rest, unused => by
    rw [Stmt.allOccurrences] at unused
    rw [Stmt.allWithName, Stmt.allOccurrences, Stmt.allLocalNames, List.length_append]
    exact .append (Stmt.renamed ordinary h inside s unused.append.1)
      (Stmt.allRenamed ordinary (Stmt.at_behind h inside s unused.append.1)
        (inside.declareAll _ _) rest unused.append.2)

theorem FunctionDecl.renamed (ordinary : Ordinary n.new) {i : Nat} {level : Option Nat}
    {c c₀ : Context} (h : n.At i level c) :
    (decl : FunctionDecl) → n.Unused (decl.occurrences c₀) →
      n.Renamed i decl.localNames.length ((decl.withName n i level).occurrences c)
  | ⟨name, params, body⟩, unused => by
    rw [FunctionDecl.occurrences] at unused
    rw [FunctionDecl.withName, FunctionDecl.occurrences, FunctionDecl.localNames,
      List.length_append]
    exact .append (parameters_renamed (h.enter _) (List.cons_ne_nil _ _) unused.append.1)
      (Stmt.allRenamed ordinary
        ((h.enter _).declareAll (List.cons_ne_nil _ _) (lexeme_ne_of_unused unused.append.1))
        ((Inside.enter _ _).declareAll _ _) body unused.append.2)

theorem FunctionDecl.allRenamed (ordinary : Ordinary n.new) {i : Nat} {level : Option Nat}
    {c c₀ : Context} (h : n.At i level c) :
    (decls : List FunctionDecl) → n.Unused (FunctionDecl.allOccurrences c₀ decls) →
      n.Renamed i (FunctionDecl.allLocalNames decls).length
        (FunctionDecl.allOccurrences c (FunctionDecl.allWithName n i level decls))
  | [], _ => .nil
  | decl :: rest, unused => by
    rw [FunctionDecl.allOccurrences] at unused
    rw [FunctionDecl.allWithName, FunctionDecl.allOccurrences, FunctionDecl.allLocalNames,
      List.length_append]
    exact .append (FunctionDecl.renamed ordinary (h.enterThis ordinary _) decl unused.append.1)
      (FunctionDecl.allRenamed ordinary (h.mono (Nat.le_add_right ..)) rest unused.append.2)

end

/-! ### Programs -/

namespace NewName

theorem renamed_apply (ordinary : Ordinary n.new) {program : List Stmt}
    (unused : n.Unused (occurrences program)) :
    n.Renamed 0 (localNames program).length (occurrences (n.apply program)) :=
  Stmt.allRenamed ordinary at_nil ⟨by simp, by simp⟩ program unused

end NewName

/-- One mention among these is the declaration that is renamed, and it stands in a scope. -/
theorem NewName.Renamed.declaration {m : Nat} {os : List Occurrence} (h : n.Renamed i m os)
    (this : i ≤ n.index ∧ n.index < i + m) : ∃ before name scope outer after,
      os = before ++ ⟨.declare name, scope :: outer⟩ :: after ∧ name.lexeme = n.new ∧
        ∀ o ∈ before ++ after, ¬ o.Declares n.new := by
  have once := h.once
  rw [NewName.hits, if_pos this, List.countP_eq_length_filter, List.length_eq_one_iff] at once
  obtain ⟨o, once⟩ := once
  obtain ⟨before, after, split, none, here, others⟩ := List.filter_eq_cons_iff.1 once
  have behind : ∀ o ∈ after, ¬ o.Declares n.new := by
    simpa using List.filter_eq_nil_iff.1 others
  have inside := h.inside o (split ▸ List.mem_append_right _ (.head _)) (of_decide_eq_true here)
  obtain ⟨name, declared, same⟩ := of_decide_eq_true here
  obtain ⟨scope, outer, around⟩ := List.exists_cons_of_ne_nil inside
  obtain ⟨mention, context⟩ := o
  subst declared around
  refine ⟨before, name, scope, outer, after, split, same, List.forall_mem_append.2 ⟨?_, behind⟩⟩
  simpa using none

/-- In an accepted program each variable of a scope can get any name that is no keyword and that
the program does not mention; the program stays accepted, with the same distances. -/
theorem Accepted.exists_renames {first next : NodeId} {c : Compiled}
    (accepted : Accepted first c next) {k : Nat} {name : Token}
    (here : (localNames c.program)[k]? = some name) {y : String}
    (identifier : ∀ kind, (y, kind) ∉ TokenKind.keywords)
    (unused : ∀ o ∈ occurrences c.program, o.mention.token.lexeme ≠ y) :
    ∃ program', Renames name.lexeme y c program' ∧
      (localNames program').map (·.lexeme) = ((localNames c.program).map (·.lexeme)).set k y ∧
      Accepted first ⟨program', c.distances⟩ next := by
  let n : NewName := ⟨k, name.lexeme, y, (Distances.addAll ∅ c.distances).get?⟩
  have ordinary : Ordinary y := .of_identifier identifier
  have unmentioned : n.Unused (occurrences c.program) := unused
  have fits : n.Fits 0 (localNames c.program) := by
    intro d t same found
    have equal : k = d := same.trans (Nat.zero_add d)
    rw [← equal, here] at found
    exact congrArg Token.lexeme (Option.some.inj found).symm
  have back : Stmt.relabelAll (.renaming y name.lexeme) (n.apply c.program) = c.program :=
    NewName.apply_undo unmentioned fits
  have renamed : n.Renamed 0 (localNames c.program).length (occurrences (n.apply c.program)) :=
    NewName.renamed_apply ordinary unmentioned
  have range : k < (localNames c.program).length := (List.getElem?_eq_some_iff.1 here).1
  have renames : Renames name.lexeme y c (n.apply c.program) := by
    refine ⟨back, identifier, unused,
      renamed.declaration ⟨Nat.zero_le k, Nat.zero_add _ ▸ range⟩, ?_⟩
    intro p member role ref used named
    rw [accepted.occurrences_of_back back ordinary unused] at member
    obtain ⟨o, listed, rfl⟩ := Occurrence.mem_zip_relabel.1 member
    have token : (o.relabel n.undo).mention.token.lexeme = n.undo.name ref.name.lexeme := by
      rw [Occurrence.relabel, used]
      rcases named with rfl | rfl <;> rfl
    rw [token]
    exact renamed.uses o listed role ref used named
  refine ⟨n.apply c.program, renames, ?_, renames.accepted_renamed accepted⟩
  rw [NewName.localNames_apply]
  exact NewName.lexeme_declareAll (Nat.zero_add k).symm _

end Treewalk
