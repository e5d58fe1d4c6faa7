import Treewalk.Proofs.Scope.Renaming

/-!
# A new name for one variable

The variables of scopes are the items of `var` declarations that are not global, and the parameters
of functions. A walk through a program gives one of them another name. It knows how many scopes it
is inside of that of the variable, and it changes just those uses whose distance is that number.
-/

namespace Treewalk

/-! ### The variables of scopes -/

/-- The variables that a statement declares in the scope around it, if there is one. -/
def Stmt.variables (nested : Bool) : Stmt → List Token
  | .var decl => if nested then [decl.name] else []
  | .varList decls => if nested then decls.map (·.name) else []
  | _ => []

mutual

/-- The variables of scopes that are declared in a statement, in the order of the tree. -/
def Stmt.localNames (nested : Bool) : Stmt → List Token
  | .block body => Stmt.allLocalNames true body
  | .classDecl _ _ methods => FunctionDecl.allLocalNames methods
  | .function decl => decl.localNames
  | .branch _ thenBranch none => thenBranch.localNames nested
  | .branch _ thenBranch (some elseBranch) =>
    thenBranch.localNames nested ++ elseBranch.localNames nested
  | .var decl => if nested then [decl.name] else []
  | .varList decls => if nested then decls.map (·.name) else []
  | .loop _ body => body.localNames nested
  | .expression _ | .print _ | .ret _ _ => []

def Stmt.allLocalNames (nested : Bool) : List Stmt → List Token
  | [] => []
  | s :: rest => s.localNames nested ++ Stmt.allLocalNames nested rest

def FunctionDecl.localNames : FunctionDecl → List Token
  | ⟨_, params, body⟩ => params ++ Stmt.allLocalNames true body

def FunctionDecl.allLocalNames : List FunctionDecl → List Token
  | [] => []
  | decl :: rest => decl.localNames ++ FunctionDecl.allLocalNames rest

end

/-- The variables of the scopes of a program. -/
def localNames (program : List Stmt) : List Token := Stmt.allLocalNames false program

/-! ### A walk that renames one of them -/

/-- One of the variables of scopes, and the name that it gets. -/
structure NewName where
  /-- The number of variables before it. -/
  index : Nat
  old : String
  new : String
  /-- The distances of uses. -/
  distance? : NodeId → Option Nat

namespace NewName

variable (n : NewName)

/-- The declaration of variable number `i`. -/
def declare (i : Nat) (t : Token) : Token := if i = n.index then { t with lexeme := n.new } else t

/-- How many scopes inside of that of the renamed variable a place is, behind the declaration of
variable number `i` in the scope around the place. -/
def levelBehind (i : Nat) (level : Option Nat) : Option Nat :=
  if i = n.index then some 0 else level

/-- A use at a place that is so many scopes inside of that of the renamed variable. -/
def use (level : Option Nat) (ref : Variable) : Variable :=
  if ref.name.lexeme = n.old ∧ level ≠ none ∧ n.distance? ref.id = level then
    { ref with name := { ref.name with lexeme := n.new } }
  else ref

/-- Declarations of the variables from number `i` on. -/
def declareAll (i : Nat) : List Token → List Token
  | [] => []
  | t :: rest => n.declare i t :: declareAll (i + 1) rest

def levelBehindAll (i : Nat) (level : Option Nat) : List Token → Option Nat
  | [] => level
  | _ :: rest => levelBehindAll (i + 1) (n.levelBehind i level) rest

end NewName

mutual

/-- The expression with other variables in place of those that it reads and assigns. -/
def Expr.mapVariables (f : Variable → Variable) : Expr → Expr
  | .sequence items => .sequence (Expr.mapAllVariables f items)
  | .assign id name value =>
    .assign (f ⟨id, name⟩).id (f ⟨id, name⟩).name (value.mapVariables f)
  | .binary left operator right =>
    .binary (left.mapVariables f) operator (right.mapVariables f)
  | .call callee paren arguments =>
    .call (callee.mapVariables f) paren (Expr.mapAllVariables f arguments)
  | .get object name => .get (object.mapVariables f) name
  | .grouping inner => .grouping (inner.mapVariables f)
  | .constant value => .constant value
  | .logical left operator right =>
    .logical (left.mapVariables f) operator (right.mapVariables f)
  | .set object name value => .set (object.mapVariables f) name (value.mapVariables f)
  | .super id keyword method => .super id keyword method
  | .this id keyword => .this id keyword
  | .unary operator right => .unary operator (right.mapVariables f)
  | .read ref => .read (f ref)

def Expr.mapAllVariables (f : Variable → Variable) : List Expr → List Expr
  | [] => []
  | e :: rest => e.mapVariables f :: Expr.mapAllVariables f rest

end

section walk

variable (n : NewName)

def VarDecl.withName (i : Nat) (level : Option Nat) (decl : VarDecl) : VarDecl :=
  ⟨n.declare i decl.name,
    decl.initializer.map (Expr.mapVariables (n.use (n.levelBehind i level)))⟩

def VarDecl.allWithName (i : Nat) (level : Option Nat) : List VarDecl → List VarDecl
  | [] => []
  | decl :: rest =>
    decl.withName n i level :: VarDecl.allWithName (i + 1) (n.levelBehind i level) rest

mutual

/-- The statement with the new name, where `i` variables come before it. -/
def Stmt.withName (nested : Bool) (i : Nat) (level : Option Nat) : Stmt → Stmt
  | .block body => .block (Stmt.allWithName true i (level.map (· + 1)) body)
  | .classDecl name superclass methods =>
    .classDecl name (superclass.map (n.use level))
      (FunctionDecl.allWithName i (superclass.elim level fun _ => level.map (· + 1)) methods)
  | .expression value => .expression (value.mapVariables (n.use level))
  | .function decl => .function (decl.withName i level)
  | .branch condition thenBranch none =>
    .branch (condition.mapVariables (n.use level)) (thenBranch.withName nested i level) none
  | .branch condition thenBranch (some elseBranch) =>
    .branch (condition.mapVariables (n.use level)) (thenBranch.withName nested i level)
      (some (elseBranch.withName nested (i + (thenBranch.localNames nested).length) level))
  | .print value => .print (value.mapVariables (n.use level))
  | .ret keyword value => .ret keyword (value.map (Expr.mapVariables (n.use level)))
  | .var decl => .var (if nested then decl.withName n i level else decl)
  | .varList decls => .varList (if nested then VarDecl.allWithName n i level decls else decls)
  | .loop condition body =>
    .loop (condition.mapVariables (n.use level)) (body.withName nested i level)

def Stmt.allWithName (nested : Bool) (i : Nat) (level : Option Nat) : List Stmt → List Stmt
  | [] => []
  | s :: rest =>
    s.withName nested i level :: Stmt.allWithName nested (i + (s.localNames nested).length)
      (n.levelBehindAll i level (s.variables nested)) rest

/-- The function with the new name; its parameters are declared inside of it. -/
def FunctionDecl.withName (i : Nat) (level : Option Nat) : FunctionDecl → FunctionDecl
  | ⟨name, params, body⟩ =>
    ⟨name, n.declareAll i params, Stmt.allWithName true (i + params.length)
      (n.levelBehindAll i (level.map (· + 1)) params) body⟩

/-- The methods of a class with the new name; around each of them stands the scope of `this`. -/
def FunctionDecl.allWithName (i : Nat) (level : Option Nat) :
    List FunctionDecl → List FunctionDecl
  | [] => []
  | decl :: rest =>
    decl.withName i (level.map (· + 1)) ::
      FunctionDecl.allWithName (i + decl.localNames.length) level rest

end

end walk

/-! ### The variables that the walk leaves -/

namespace NewName

variable {n : NewName}

theorem declareAll_append (i : Nat) (ts ts' : List Token) :
    n.declareAll i (ts ++ ts') = n.declareAll i ts ++ n.declareAll (i + ts.length) ts' := by
  induction ts generalizing i with
  | nil => rfl
  | cons t rest ih =>
    rw [List.cons_append, declareAll, declareAll, ih, List.cons_append, List.length_cons,
      Nat.add_right_comm, Nat.add_assoc]

/-- Behind the renamed variable the declarations are as they were. -/
theorem declareAll_behind {i : Nat} (behind : n.index < i) (ts : List Token) :
    n.declareAll i ts = ts := by
  induction ts generalizing i with
  | nil => rfl
  | cons t rest ih =>
    rw [declareAll, declare, if_neg (Nat.ne_of_gt behind), ih (Nat.lt_succ_of_lt behind)]

/-- The declarations, with one new name among them. -/
theorem lexeme_declareAll {i k : Nat} (this : n.index = i + k) (ts : List Token) :
    (n.declareAll i ts).map (·.lexeme) = (ts.map (·.lexeme)).set k n.new := by
  induction ts generalizing i k with
  | nil => rfl
  | cons t rest ih =>
    rw [declareAll, List.map_cons, List.map_cons]
    cases k with
    | zero =>
      have here : i = n.index := this.symm
      rw [declareAll_behind (here ▸ Nat.lt_succ_self i), declare, if_pos here, List.set_cons_zero]
    | succ k =>
      have other : i ≠ n.index := by omega
      have further : n.index = i + 1 + k := by omega
      rw [declare, if_neg other, ih further, List.set_cons_succ]

end NewName

variable (n : NewName)

theorem VarDecl.names_withName (i : Nat) (level : Option Nat) (decls : List VarDecl) :
    (VarDecl.allWithName n i level decls).map (·.name) = n.declareAll i (decls.map (·.name)) := by
  induction decls generalizing i level with
  | nil => rfl
  | cons decl rest ih =>
    rw [VarDecl.allWithName, List.map_cons, List.map_cons, ih]
    rfl

mutual

theorem Stmt.localNames_withName (nested : Bool) (i : Nat) (level : Option Nat) :
    (s : Stmt) →
      (s.withName n nested i level).localNames nested = n.declareAll i (s.localNames nested)
  | .block body => Stmt.allLocalNames_withName true i _ body
  | .classDecl _ _ methods => FunctionDecl.allLocalNames_withName i _ methods
  | .function decl => FunctionDecl.localNames_withName i level decl
  | .branch _ thenBranch none => Stmt.localNames_withName nested i level thenBranch
  | .branch _ thenBranch (some elseBranch) => by
    rw [Stmt.withName, Stmt.localNames, Stmt.localNames, NewName.declareAll_append,
      Stmt.localNames_withName nested i level thenBranch,
      Stmt.localNames_withName nested _ level elseBranch]
  | .var decl => by cases nested <;> rfl
  | .varList decls => by
    cases nested with
    | false => rfl
    | true => exact VarDecl.names_withName n i level decls
  | .loop _ body => Stmt.localNames_withName nested i level body
  | .expression _ | .print _ | .ret _ _ => rfl

theorem Stmt.allLocalNames_withName (nested : Bool) (i : Nat) (level : Option Nat) :
    (body : List Stmt) → Stmt.allLocalNames nested (Stmt.allWithName n nested i level body) =
      n.declareAll i (Stmt.allLocalNames nested body)
  | [] => rfl
  | s :: rest => by
    rw [Stmt.allWithName, Stmt.allLocalNames, Stmt.allLocalNames, NewName.declareAll_append,
      Stmt.localNames_withName nested i level s, Stmt.allLocalNames_withName nested _ _ rest]

theorem FunctionDecl.localNames_withName (i : Nat) (level : Option Nat) :
    (decl : FunctionDecl) → (decl.withName n i level).localNames = n.declareAll i decl.localNames
  | ⟨name, params, body⟩ => by
    rw [FunctionDecl.withName, FunctionDecl.localNames, FunctionDecl.localNames,
      NewName.declareAll_append, Stmt.allLocalNames_withName true _ _ body]

theorem FunctionDecl.allLocalNames_withName (i : Nat) (level : Option Nat) :
    (decls : List FunctionDecl) →
      FunctionDecl.allLocalNames (FunctionDecl.allWithName n i level decls) =
        n.declareAll i (FunctionDecl.allLocalNames decls)
  | [] => rfl
  | decl :: rest => by
    rw [FunctionDecl.allWithName, FunctionDecl.allLocalNames, FunctionDecl.allLocalNames,
      NewName.declareAll_append, FunctionDecl.localNames_withName i _ decl,
      FunctionDecl.allLocalNames_withName _ level rest]

end

/-! ### With the old name back in place of the new one -/

/-- None of these mentions is one of the new name. -/
def NewName.Unused (n : NewName) (os : List Occurrence) : Prop :=
  ∀ o ∈ os, o.mention.token.lexeme ≠ n.new

/-- If the renamed variable is one of these, from number `i` on, it has the old name. -/
def NewName.Fits (n : NewName) (i : Nat) (ts : List Token) : Prop :=
  ∀ k t, n.index = i + k → ts[k]? = some t → t.lexeme = n.old

/-- The new name is exchanged for the old one. -/
abbrev NewName.undo (n : NewName) : Relabel := .renaming n.new n.old

namespace NewName

variable {n} {i : Nat} {level : Option Nat} {os os' : List Occurrence} {o : Occurrence}
  {t : Token} {ts ts' : List Token}

theorem Unused.append (h : n.Unused (os ++ os')) : n.Unused os ∧ n.Unused os' :=
  List.forall_mem_append.1 h

theorem Unused.cons (h : n.Unused (o :: os)) :
    o.mention.token.lexeme ≠ n.new ∧ n.Unused os :=
  List.forall_mem_cons.1 h

theorem Fits.append (h : n.Fits i (ts ++ ts')) : n.Fits i ts ∧ n.Fits (i + ts.length) ts' := by
  constructor
  · intro k t this found
    exact h k t this (List.getElem?_append_left (List.getElem?_eq_some_iff.1 found).1 ▸ found)
  · intro k t this found
    refine h (ts.length + k) t (this.trans (Nat.add_assoc ..)) ?_
    rw [List.getElem?_append_right (Nat.le_add_right ..), Nat.add_sub_cancel_left]
    exact found

theorem Fits.cons (h : n.Fits i (t :: ts)) : n.Fits i [t] ∧ n.Fits (i + 1) ts :=
  have joined : n.Fits i ([t] ++ ts) := h
  joined.append

theorem Fits.old (h : n.Fits i [t]) (this : i = n.index) : t.lexeme = n.old :=
  h 0 t this.symm rfl

theorem undo_new : n.undo.name n.new = n.old := if_pos rfl

theorem undo_other {name : String} (other : name ≠ n.new) : n.undo.name name = name := if_neg other

theorem rename_undo (unused : t.lexeme ≠ n.new) : t.rename n.undo = t := by
  rw [Token.rename, undo_other unused]
  rfl

theorem declare_undo (unused : t.lexeme ≠ n.new) (fits : n.Fits i [t]) :
    (n.declare i t).rename n.undo = t := by
  by_cases this : i = n.index
  · rw [declare, if_pos this, Token.rename, undo_new, ← fits.old this]
    rfl
  · rw [declare, if_neg this, rename_undo unused]

theorem declareAll_undo {c : Context} (unused : n.Unused (parameterOccurrences c ts))
    (fits : n.Fits i ts) : (n.declareAll i ts).map (Token.rename n.undo) = ts := by
  induction ts generalizing i c with
  | nil => rfl
  | cons t rest ih =>
    rw [parameterOccurrences] at unused
    have first : t.lexeme ≠ n.new := unused.cons.1
    rw [declareAll, List.map_cons, declare_undo first fits.cons.1, ih unused.cons.2 fits.cons.2]

theorem use_undo {ref : Variable} (unused : ref.name.lexeme ≠ n.new) :
    (n.use level ref).relabel n.undo = ref := by
  unfold use
  split
  · next this =>
    rw [Variable.relabel, Token.rename, undo_new, ← this.1]
    rfl
  · rw [Variable.relabel, rename_undo unused]
    rfl

end NewName

variable {n}

mutual

theorem Expr.withName_undo (c : Context) (level : Option Nat) :
    (e : Expr) → n.Unused (e.occurrences c) →
      (e.mapVariables (n.use level)).relabel n.undo = e
  | .sequence items, unused => congrArg Expr.sequence (Expr.allWithName_undo c level items unused)
  | .assign id name value, unused => by
    rw [Expr.occurrences, Expr.uses, List.map_append] at unused
    have ref : (n.use level ⟨id, name⟩).relabel n.undo = ⟨id, name⟩ :=
      NewName.use_undo unused.append.2.cons.1
    rw [Variable.relabel, Variable.mk.injEq] at ref
    rw [Expr.mapVariables, Expr.relabel, Expr.withName_undo c level value unused.append.1, ref.1,
      ref.2]
  | .binary left _ right, unused => by
    rw [Expr.occurrences, Expr.uses, List.map_append] at unused
    rw [Expr.mapVariables, Expr.relabel, Expr.withName_undo c level left unused.append.1,
      Expr.withName_undo c level right unused.append.2]
    rfl
  | .call callee _ arguments, unused => by
    rw [Expr.occurrences, Expr.uses, List.map_append] at unused
    rw [Expr.mapVariables, Expr.relabel, Expr.withName_undo c level callee unused.append.1,
      Expr.allWithName_undo c level arguments unused.append.2]
    rfl
  | .get object _, unused => by
    rw [Expr.mapVariables, Expr.relabel, Expr.withName_undo c level object unused]
    rfl
  | .grouping inner, unused => congrArg Expr.grouping (Expr.withName_undo c level inner unused)
  | .constant _, _ => rfl
  | .logical left _ right, unused => by
    rw [Expr.occurrences, Expr.uses, List.map_append] at unused
    rw [Expr.mapVariables, Expr.relabel, Expr.withName_undo c level left unused.append.1,
      Expr.withName_undo c level right unused.append.2]
    rfl
  | .set object _ value, unused => by
    rw [Expr.occurrences, Expr.uses, List.map_append] at unused
    rw [Expr.mapVariables, Expr.relabel, Expr.withName_undo c level value unused.append.1,
      Expr.withName_undo c level object unused.append.2]
    rfl
  | .super .., _ => rfl
  | .this .., _ => rfl
  | .unary _ right, unused => by
    rw [Expr.mapVariables, Expr.relabel, Expr.withName_undo c level right unused]
    rfl
  | .read _, unused => congrArg Expr.read (NewName.use_undo unused.cons.1)

theorem Expr.allWithName_undo (c : Context) (level : Option Nat) :
    (es : List Expr) → n.Unused ((Expr.allUses es).map fun u => ⟨.use u.1 u.2, c⟩) →
      Expr.relabelAll n.undo (Expr.mapAllVariables (n.use level) es) = es
  | [], _ => rfl
  | e :: rest, unused => by
    rw [Expr.allUses, List.map_append] at unused
    rw [Expr.mapAllVariables, Expr.relabelAll, Expr.withName_undo c level e unused.append.1,
      Expr.allWithName_undo c level rest unused.append.2]

end

theorem Expr.map_withName_undo (c : Context) (level : Option Nat) (e : Option Expr)
    (unused : n.Unused (Expr.optionalOccurrences c e)) :
    (e.map (Expr.mapVariables (n.use level))).map (Expr.relabel n.undo) = e := by
  cases e with
  | none => rfl
  | some e => exact congrArg some (Expr.withName_undo c level e unused)

theorem VarDecl.withName_undo (c : Context) (i : Nat) (level : Option Nat) (decl : VarDecl)
    (unused : n.Unused (decl.occurrences c)) (fits : n.Fits i [decl.name]) :
    (decl.withName n i level).relabel n.undo = decl := by
  have name : decl.name.lexeme ≠ n.new := unused.cons.1
  rw [VarDecl.withName, VarDecl.relabel, NewName.declare_undo name fits,
    Expr.map_withName_undo _ _ _ unused.cons.2]

theorem VarDecl.allWithName_undo (c : Context) (i : Nat) (level : Option Nat)
    (decls : List VarDecl) (unused : n.Unused (VarDecl.allOccurrences c decls))
    (fits : n.Fits i (decls.map (·.name))) :
    (VarDecl.allWithName n i level decls).map (VarDecl.relabel n.undo) = decls := by
  induction decls generalizing c i level with
  | nil => rfl
  | cons decl rest ih =>
    rw [VarDecl.allOccurrences] at unused
    rw [List.map_cons] at fits
    rw [VarDecl.allWithName, List.map_cons,
      VarDecl.withName_undo c i level decl unused.append.1 fits.cons.1,
      ih _ _ _ unused.append.2 fits.cons.2]

/-- Where the new name is not mentioned, nothing changes. -/
theorem Stmt.relabel_undo (c : Context) (s : Stmt) (unused : n.Unused (s.occurrences c)) :
    s.relabel n.undo = s := by
  have same : n.undo.Same .identity (s.occurrences c) :=
    ⟨rfl, rfl, fun o member => NewName.undo_other (unused o member)⟩
  rw [Stmt.relabel_congr c s same, Stmt.relabel_identity]

mutual

theorem Stmt.withName_undo (c : Context) (nested : Bool) (i : Nat) (level : Option Nat) :
    (s : Stmt) → n.Unused (s.occurrences c) → n.Fits i (s.localNames nested) →
      (s.withName n nested i level).relabel n.undo = s
  | .block body, unused, fits =>
    congrArg Stmt.block (Stmt.allWithName_undo _ true i _ body unused fits)
  | .classDecl name superclass methods, unused, fits => by
    rw [Stmt.occurrences] at unused
    have ref : (superclass.map (n.use level)).map (Variable.relabel n.undo) = superclass := by
      cases superclass with
      | none => rfl
      | some ref => exact congrArg some (NewName.use_undo unused.cons.2.append.1.cons.1)
    rw [Stmt.withName, Stmt.relabel, ref,
      FunctionDecl.allWithName_undo _ i _ methods unused.cons.2.append.2 fits]
    rfl
  | .expression value, unused, _ =>
    congrArg Stmt.expression (Expr.withName_undo c level value unused)
  | .function decl, unused, fits => by
    rw [Stmt.occurrences] at unused
    rw [Stmt.withName, Stmt.relabel, FunctionDecl.withName_undo _ i level decl unused.cons.2 fits]
  | .branch condition thenBranch none, unused, fits => by
    rw [Stmt.occurrences] at unused
    rw [Stmt.withName, Stmt.relabel, Expr.withName_undo c level condition unused.append.1,
      Stmt.withName_undo c nested i level thenBranch unused.append.2 fits]
  | .branch condition thenBranch (some elseBranch), unused, fits => by
    rw [Stmt.occurrences] at unused
    rw [Stmt.localNames] at fits
    rw [Stmt.withName, Stmt.relabel, Expr.withName_undo c level condition unused.append.1,
      Stmt.withName_undo c nested i level thenBranch unused.append.2.append.1 fits.append.1,
      Stmt.withName_undo c nested _ level elseBranch unused.append.2.append.2 fits.append.2]
  | .print value, unused, _ => congrArg Stmt.print (Expr.withName_undo c level value unused)
  | .ret _ value, unused, _ => by
    rw [Stmt.withName, Stmt.relabel, Expr.map_withName_undo c level value unused]
    rfl
  | .var decl, unused, fits => by
    cases nested with
    | false => exact Stmt.relabel_undo c _ unused
    | true => exact congrArg Stmt.var (VarDecl.withName_undo c i level decl unused fits)
  | .varList decls, unused, fits => by
    cases nested with
    | false => exact Stmt.relabel_undo c _ unused
    | true => exact congrArg Stmt.varList (VarDecl.allWithName_undo c i level decls unused fits)
  | .loop condition body, unused, fits => by
    rw [Stmt.occurrences] at unused
    rw [Stmt.withName, Stmt.relabel, Expr.withName_undo c level condition unused.append.1,
      Stmt.withName_undo c nested i level body unused.append.2 fits]

theorem Stmt.allWithName_undo (c : Context) (nested : Bool) (i : Nat) (level : Option Nat) :
    (body : List Stmt) → n.Unused (Stmt.allOccurrences c body) →
      n.Fits i (Stmt.allLocalNames nested body) →
      Stmt.relabelAll n.undo (Stmt.allWithName n nested i level body) = body
  | [], _, _ => rfl
  | s :: rest, unused, fits => by
    rw [Stmt.allOccurrences] at unused
    rw [Stmt.allLocalNames] at fits
    rw [Stmt.allWithName, Stmt.relabelAll,
      Stmt.withName_undo c nested i level s unused.append.1 fits.append.1,
      Stmt.allWithName_undo _ nested _ _ rest unused.append.2 fits.append.2]

theorem FunctionDecl.withName_undo (c : Context) (i : Nat) (level : Option Nat) :
    (decl : FunctionDecl) → n.Unused (decl.occurrences c) → n.Fits i decl.localNames →
      (decl.withName n i level).relabel n.undo = decl
  | ⟨name, params, body⟩, unused, fits => by
    rw [FunctionDecl.occurrences] at unused
    rw [FunctionDecl.localNames] at fits
    rw [FunctionDecl.withName, FunctionDecl.relabel,
      NewName.declareAll_undo unused.append.1 fits.append.1,
      Stmt.allWithName_undo _ true _ _ body unused.append.2 fits.append.2]
    rfl

theorem FunctionDecl.allWithName_undo (c : Context) (i : Nat) (level : Option Nat) :
    (decls : List FunctionDecl) → n.Unused (FunctionDecl.allOccurrences c decls) →
      n.Fits i (FunctionDecl.allLocalNames decls) →
      FunctionDecl.relabelAll n.undo (FunctionDecl.allWithName n i level decls) = decls
  | [], _, _ => rfl
  | decl :: rest, unused, fits => by
    rw [FunctionDecl.allOccurrences] at unused
    rw [FunctionDecl.allLocalNames] at fits
    rw [FunctionDecl.allWithName, FunctionDecl.relabelAll,
      FunctionDecl.withName_undo _ i _ decl unused.append.1 fits.append.1,
      FunctionDecl.allWithName_undo c _ level rest unused.append.2 fits.append.2]

end

namespace NewName

variable {program : List Stmt}

/-- The program with the new name; the walk starts outside of all scopes. -/
def apply (n : NewName) (program : List Stmt) : List Stmt :=
  Stmt.allWithName n false 0 none program

theorem localNames_apply : localNames (n.apply program) = n.declareAll 0 (localNames program) :=
  Stmt.allLocalNames_withName n false 0 none program

theorem apply_undo (unused : n.Unused (occurrences program))
    (fits : n.Fits 0 (localNames program)) :
    Stmt.relabelAll n.undo (n.apply program) = program :=
  Stmt.allWithName_undo [] false 0 none program unused fits

end NewName

end Treewalk
