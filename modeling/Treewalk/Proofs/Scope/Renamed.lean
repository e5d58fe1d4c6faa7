import Treewalk.Proofs.Scope.Relabel
import Treewalk.Proofs.Scope.Tidy

/-!
# Mentions under other numbers, lines and names

A program that is relabelled mentions the same things at the same places: its occurrences are those
of the program, relabelled. And how a program is relabelled depends on the names in it alone.
-/

namespace Treewalk

variable (r : Relabel)

/-- `this` and `super` stay what they are. -/
structure Relabel.Fixes : Prop where
  this : r.name thisName = thisName
  super : r.name superName = superName

/-- The name that is mentioned. -/
def Mention.token : Mention → Token
  | .use _ ref => ref.name
  | .declare name => name

/-- The token of a use; `this` and `super` are no names of variables. -/
def Role.relabel : Role → Token → Token
  | .read, t | .write, t => t.rename r
  | .this, t | .super, t => t.relabel r

def Mention.relabel : Mention → Mention
  | .use role ref => .use role ⟨r.id ref.id, role.relabel r ref.name⟩
  | .declare name => .declare (name.rename r)

def Site.relabel : Site → Site
  | .block body => .block (Stmt.relabelAll r body)
  | .function decl => .function (decl.relabel r)
  | .this method => .this (method.relabel r)
  | .super name superclass methods =>
    .super (name.relabel r) (superclass.relabel r) (FunctionDecl.relabelAll r methods)

def LexicalScope.relabel (s : LexicalScope) : LexicalScope :=
  ⟨s.site.relabel r, s.names.map r.name, s.pending.map r.name⟩

def Context.relabel (c : Context) : Context := c.map (LexicalScope.relabel r)

def Occurrence.relabel (o : Occurrence) : Occurrence := ⟨o.mention.relabel r, o.context.relabel r⟩

namespace Context

variable (c : Context)

theorem relabel_declare (name : String) :
    (c.declare name).relabel r = (c.relabel r).declare (r.name name) := by
  cases c <;> rfl

theorem relabel_announce (name : String) :
    (c.announce name).relabel r = (c.relabel r).announce (r.name name) := by
  cases c <;> rfl

theorem relabel_declareAll (names : List Token) :
    (c.declareAll names).relabel r = (c.relabel r).declareAll (names.map (Token.rename r)) := by
  induction names generalizing c with
  | nil => rfl
  | cons name rest ih =>
    refine (ih (c.declare name.lexeme)).trans ?_
    rw [relabel_declare]
    rfl

theorem relabel_enter (site : Site) :
    (c.enter site).relabel r = (c.relabel r).enter (site.relabel r) := rfl

variable {r}

theorem relabel_enterThis (fixes : r.Fixes) (method : FunctionDecl) :
    (c.enterThis method).relabel r = (c.relabel r).enterThis (method.relabel r) := by
  simp only [enterThis, relabel, List.map_cons, LexicalScope.relabel, List.map_nil, fixes.this,
    Option.map_none]
  rfl

theorem relabel_enterClass (fixes : r.Fixes) (name : Token) (superclass : Option Variable)
    (methods : List FunctionDecl) :
    (c.enterClass name superclass methods).relabel r =
      (c.relabel r).enterClass (name.relabel r) (superclass.map (Variable.relabel r))
        (FunctionDecl.relabelAll r methods) := by
  cases superclass with
  | none => rfl
  | some ref =>
    simp only [enterClass, relabel, List.map_cons, LexicalScope.relabel, List.map_nil, fixes.super,
      Option.map_none, Option.map_some]
    rfl

end Context

/-! ### What is mentioned -/

mutual

theorem Expr.uses_relabel : (e : Expr) → (e.relabel r).uses =
    e.uses.map fun u => (u.1, ⟨r.id u.2.id, u.1.relabel r u.2.name⟩)
  | .sequence items => Expr.allUses_relabel items
  | .assign _ _ value => by
    simp only [Expr.relabel, Expr.uses, Expr.uses_relabel value, List.map_append]
    rfl
  | .binary left _ right => by
    simp only [Expr.relabel, Expr.uses, Expr.uses_relabel left, Expr.uses_relabel right,
      List.map_append]
  | .call callee _ arguments => by
    simp only [Expr.relabel, Expr.uses, Expr.uses_relabel callee, Expr.allUses_relabel arguments,
      List.map_append]
  | .get object _ => Expr.uses_relabel object
  | .grouping inner => Expr.uses_relabel inner
  | .constant _ => rfl
  | .logical left _ right => by
    simp only [Expr.relabel, Expr.uses, Expr.uses_relabel left, Expr.uses_relabel right,
      List.map_append]
  | .set object _ value => by
    simp only [Expr.relabel, Expr.uses, Expr.uses_relabel value, Expr.uses_relabel object,
      List.map_append]
  | .super .. => rfl
  | .this .. => rfl
  | .unary _ right => Expr.uses_relabel right
  | .read _ => rfl

theorem Expr.allUses_relabel : (es : List Expr) → Expr.allUses (Expr.relabelAll r es) =
    (Expr.allUses es).map fun u => (u.1, ⟨r.id u.2.id, u.1.relabel r u.2.name⟩)
  | [] => rfl
  | e :: rest => by
    simp only [Expr.relabelAll, Expr.allUses, Expr.uses_relabel e, Expr.allUses_relabel rest,
      List.map_append]

end

variable {r}

theorem Expr.occurrences_relabel (c : Context) (e : Expr) :
    (e.relabel r).occurrences (c.relabel r) = (e.occurrences c).map (Occurrence.relabel r) := by
  rw [Expr.occurrences, Expr.occurrences, Expr.uses_relabel, List.map_map, List.map_map]
  rfl

theorem Expr.optionalOccurrences_relabel (c : Context) (e : Option Expr) :
    Expr.optionalOccurrences (c.relabel r) (e.map (Expr.relabel r)) =
      (Expr.optionalOccurrences c e).map (Occurrence.relabel r) := by
  cases e with
  | none => rfl
  | some e => exact Expr.occurrences_relabel c e

theorem VarDecl.occurrences_relabel (c : Context) (decl : VarDecl) :
    (decl.relabel r).occurrences (c.relabel r) =
      (decl.occurrences c).map (Occurrence.relabel r) := by
  rw [VarDecl.occurrences, VarDecl.occurrences, List.map_cons, ← Expr.optionalOccurrences_relabel,
    Context.relabel_announce]
  rfl

theorem VarDecl.allOccurrences_relabel (c : Context) (decls : List VarDecl) :
    VarDecl.allOccurrences (c.relabel r) (decls.map (VarDecl.relabel r)) =
      (VarDecl.allOccurrences c decls).map (Occurrence.relabel r) := by
  induction decls generalizing c with
  | nil => rfl
  | cons decl rest ih =>
    rw [List.map_cons, VarDecl.allOccurrences, VarDecl.allOccurrences, List.map_append, ← ih,
      VarDecl.occurrences_relabel, Context.relabel_declare]
    rfl

theorem parameterOccurrences_relabel (c : Context) (params : List Token) :
    parameterOccurrences (c.relabel r) (params.map (Token.rename r)) =
      (parameterOccurrences c params).map (Occurrence.relabel r) := by
  induction params generalizing c with
  | nil => rfl
  | cons param rest ih =>
    rw [List.map_cons, parameterOccurrences, parameterOccurrences, List.map_cons, ← ih,
      Context.relabel_declare]
    rfl

/-- The names of functions and classes stay. -/
abbrev Relabel.Named (r : Relabel) (name : String) : Prop := r.name name = name

theorem Token.rename_eq_relabel {t : Token} (h : r.Named t.lexeme) : t.rename r = t.relabel r := by
  rw [Token.rename, h]
  rfl

@[simp] theorem Stmt.declared_relabel_eq_nil (s : Stmt) :
    (s.relabel r).declared = [] ↔ s.declared = [] := by
  cases s with
  | varList decls =>
    rw [Stmt.relabel, Stmt.declared, Stmt.declared, List.map_eq_nil_iff, List.map_eq_nil_iff,
      List.map_eq_nil_iff]
  | branch condition thenBranch elseBranch => cases elseBranch <;> exact Iff.rfl
  | classDecl | function | var =>
    constructor <;> intro none <;> cases none
  | _ => exact Iff.rfl

theorem Stmt.declared_relabel {s : Stmt} (tidy : s.Tidy r.Named) :
    (s.relabel r).declared = s.declared.map (Token.rename r) := by
  cases s with
  | classDecl name superclass methods =>
    rw [Stmt.Tidy] at tidy
    exact congrArg ([·]) (Token.rename_eq_relabel tidy.1).symm
  | function decl =>
    rw [Stmt.Tidy] at tidy
    rw [Stmt.relabel, Stmt.declared, FunctionDecl.relabel_name]
    exact congrArg ([·]) (Token.rename_eq_relabel tidy.1).symm
  | varList decls =>
    rw [Stmt.relabel, Stmt.declared, Stmt.declared, List.map_map, List.map_map]
    rfl
  | branch condition thenBranch elseBranch => cases elseBranch <;> rfl
  | _ => rfl

mutual

theorem Stmt.occurrences_relabel (fixes : r.Fixes) (c : Context) : (s : Stmt) → s.Tidy r.Named →
    (s.relabel r).occurrences (c.relabel r) = (s.occurrences c).map (Occurrence.relabel r)
  | .block body, tidy => by
    rw [Stmt.Tidy] at tidy
    rw [Stmt.relabel, Stmt.occurrences, Stmt.occurrences,
      ← Stmt.allOccurrences_relabel fixes _ body tidy, Context.relabel_enter]
    rfl
  | .classDecl name superclass methods, tidy => by
    rw [Stmt.Tidy] at tidy
    rw [Stmt.relabel, Stmt.occurrences, Stmt.occurrences, List.map_cons, List.map_append,
      ← FunctionDecl.allOccurrences_relabel fixes _ methods tidy.2,
      Context.relabel_enterClass _ fixes, Context.relabel_declare, tidy.1, Occurrence.relabel,
      Mention.relabel, Token.rename_eq_relabel tidy.1, Token.relabel_lexeme]
    cases superclass with
    | none => rfl
    | some ref =>
      simp only [Option.map_some, Option.toList_some, List.map_cons, List.map_nil,
        Occurrence.relabel, Context.relabel_declare, tidy.1]
      rfl
  | .expression value, _ => Expr.occurrences_relabel c value
  | .function decl, tidy => by
    rw [Stmt.Tidy] at tidy
    rw [Stmt.relabel, Stmt.occurrences, Stmt.occurrences, List.map_cons,
      ← FunctionDecl.occurrences_relabel fixes _ decl tidy.2, Context.relabel_declare, tidy.1,
      Occurrence.relabel, Mention.relabel, Token.rename_eq_relabel tidy.1,
      FunctionDecl.relabel_name, Token.relabel_lexeme]
  | .branch condition thenBranch none, tidy => by
    rw [Stmt.Tidy] at tidy
    rw [Stmt.relabel, Stmt.occurrences, Stmt.occurrences, List.map_append,
      Expr.occurrences_relabel, Stmt.occurrences_relabel fixes c thenBranch tidy.2]
  | .branch condition thenBranch (some elseBranch), tidy => by
    rw [Stmt.Tidy] at tidy
    rw [Stmt.relabel, Stmt.occurrences, Stmt.occurrences, List.map_append, List.map_append,
      Expr.occurrences_relabel, Stmt.occurrences_relabel fixes c thenBranch tidy.1.2,
      Stmt.occurrences_relabel fixes c elseBranch tidy.2.2]
  | .print value, _ => Expr.occurrences_relabel c value
  | .ret _ value, _ => Expr.optionalOccurrences_relabel c value
  | .var decl, _ => VarDecl.occurrences_relabel c decl
  | .varList decls, _ => VarDecl.allOccurrences_relabel c decls
  | .loop condition body, tidy => by
    rw [Stmt.Tidy] at tidy
    rw [Stmt.relabel, Stmt.occurrences, Stmt.occurrences, List.map_append,
      Expr.occurrences_relabel, Stmt.occurrences_relabel fixes c body tidy.2]

theorem Stmt.allOccurrences_relabel (fixes : r.Fixes) (c : Context) : (body : List Stmt) →
    Stmt.AllTidy r.Named body →
    Stmt.allOccurrences (c.relabel r) (Stmt.relabelAll r body) =
      (Stmt.allOccurrences c body).map (Occurrence.relabel r)
  | [], _ => rfl
  | s :: rest, tidy => by
    rw [Stmt.AllTidy] at tidy
    rw [Stmt.relabelAll, Stmt.allOccurrences, Stmt.allOccurrences, List.map_append,
      Stmt.occurrences_relabel fixes c s tidy.1, ← Stmt.allOccurrences_relabel fixes _ rest tidy.2,
      Stmt.declared_relabel tidy.1, Context.relabel_declareAll]

theorem FunctionDecl.occurrences_relabel (fixes : r.Fixes) (c : Context) : (decl : FunctionDecl) →
    decl.Tidy r.Named →
    (decl.relabel r).occurrences (c.relabel r) = (decl.occurrences c).map (Occurrence.relabel r)
  | ⟨name, params, body⟩, tidy => by
    rw [FunctionDecl.Tidy] at tidy
    rw [FunctionDecl.relabel, FunctionDecl.occurrences, FunctionDecl.occurrences, List.map_append,
      ← Stmt.allOccurrences_relabel fixes _ body tidy, ← parameterOccurrences_relabel,
      Context.relabel_declareAll, Context.relabel_enter, Site.relabel, FunctionDecl.relabel]

theorem FunctionDecl.allOccurrences_relabel (fixes : r.Fixes) (c : Context) :
    (decls : List FunctionDecl) → FunctionDecl.AllTidy r.Named decls →
    FunctionDecl.allOccurrences (c.relabel r) (FunctionDecl.relabelAll r decls) =
      (FunctionDecl.allOccurrences c decls).map (Occurrence.relabel r)
  | [], _ => rfl
  | decl :: rest, tidy => by
    rw [FunctionDecl.AllTidy] at tidy
    rw [FunctionDecl.relabelAll, FunctionDecl.allOccurrences, FunctionDecl.allOccurrences,
      List.map_append, ← FunctionDecl.occurrences_relabel fixes _ decl tidy.1,
      ← FunctionDecl.allOccurrences_relabel fixes c rest tidy.2, Context.relabel_enterThis _ fixes]

end

/-! ### What a program looks like -/

mutual

theorem Stmt.tidy_relabel {named : String → Prop} :
    (s : Stmt) → ((s.relabel r).Tidy named ↔ s.Tidy named)
  | .block body => by
    rw [Stmt.relabel, Stmt.Tidy, Stmt.Tidy, Stmt.allTidy_relabel body]
  | .classDecl name superclass methods => by
    rw [Stmt.relabel, Stmt.Tidy, Stmt.Tidy, FunctionDecl.allTidy_relabel methods]
    rfl
  | .function decl => by
    rw [Stmt.relabel, Stmt.Tidy, Stmt.Tidy, FunctionDecl.tidy_relabel decl,
      FunctionDecl.relabel_name]
    rfl
  | .branch condition thenBranch none => by
    rw [Stmt.relabel, Stmt.Tidy, Stmt.Tidy, Stmt.declared_relabel_eq_nil,
      Stmt.tidy_relabel thenBranch]
  | .branch condition thenBranch (some elseBranch) => by
    rw [Stmt.relabel, Stmt.Tidy, Stmt.Tidy, Stmt.declared_relabel_eq_nil,
      Stmt.declared_relabel_eq_nil, Stmt.tidy_relabel thenBranch, Stmt.tidy_relabel elseBranch]
  | .loop condition body => by
    rw [Stmt.relabel, Stmt.Tidy, Stmt.Tidy, Stmt.declared_relabel_eq_nil, Stmt.tidy_relabel body]
  | .expression _ | .print _ | .ret _ _ | .var _ | .varList _ => by
    simp only [Stmt.relabel, Stmt.Tidy]

theorem Stmt.allTidy_relabel {named : String → Prop} :
    (body : List Stmt) → (Stmt.AllTidy named (Stmt.relabelAll r body) ↔ Stmt.AllTidy named body)
  | [] => Iff.rfl
  | s :: rest => by
    rw [Stmt.relabelAll, Stmt.AllTidy, Stmt.AllTidy, Stmt.tidy_relabel s,
      Stmt.allTidy_relabel rest]

theorem FunctionDecl.tidy_relabel {named : String → Prop} :
    (decl : FunctionDecl) → ((decl.relabel r).Tidy named ↔ decl.Tidy named)
  | ⟨name, params, body⟩ => by
    rw [FunctionDecl.relabel, FunctionDecl.Tidy, FunctionDecl.Tidy, Stmt.allTidy_relabel body]

theorem FunctionDecl.allTidy_relabel {named : String → Prop} :
    (decls : List FunctionDecl) →
      (FunctionDecl.AllTidy named (FunctionDecl.relabelAll r decls) ↔
        FunctionDecl.AllTidy named decls)
  | [] => Iff.rfl
  | decl :: rest => by
    rw [FunctionDecl.relabelAll, FunctionDecl.AllTidy, FunctionDecl.AllTidy,
      FunctionDecl.tidy_relabel decl, FunctionDecl.allTidy_relabel rest]

end

/-! ### Changes that do the same to a program -/

/-- Two changes that differ in the names of variables only, and in none of those mentioned. -/
structure Relabel.Same (r r' : Relabel) (os : List Occurrence) : Prop where
  id : r.id = r'.id
  line : r.line = r'.line
  name : ∀ o ∈ os, r.name o.mention.token.lexeme = r'.name o.mention.token.lexeme

namespace Relabel.Same

variable {r' : Relabel} {o : Occurrence} {os os' : List Occurrence}

theorem append (h : r.Same r' (os ++ os')) : r.Same r' os ∧ r.Same r' os' := by
  obtain ⟨id, line, name⟩ := h
  rw [List.forall_mem_append] at name
  exact ⟨⟨id, line, name.1⟩, id, line, name.2⟩

theorem cons (h : r.Same r' (o :: os)) :
    r.name o.mention.token.lexeme = r'.name o.mention.token.lexeme ∧ r.Same r' os := by
  obtain ⟨id, line, name⟩ := h
  rw [List.forall_mem_cons] at name
  exact ⟨name.1, id, line, name.2⟩

theorem relabel (h : r.Same r' os) (t : Token) : t.relabel r = t.relabel r' := by
  rw [Token.relabel, Token.relabel, h.line]

theorem rename (h : r.Same r' os) {t : Token} (name : r.name t.lexeme = r'.name t.lexeme) :
    t.rename r = t.rename r' := by
  rw [Token.rename, Token.rename, h.line, name]

theorem reference (h : r.Same r' os) {ref : Variable}
    (name : r.name ref.name.lexeme = r'.name ref.name.lexeme) : ref.relabel r = ref.relabel r' := by
  rw [Variable.relabel, Variable.relabel, h.id, h.rename name]

end Relabel.Same

variable {r' : Relabel}

mutual

theorem Expr.relabel_congr (c : Context) :
    (e : Expr) → r.Same r' (e.occurrences c) → e.relabel r = e.relabel r'
  | .sequence items, h => congrArg Expr.sequence (Expr.relabelAll_congr c items h)
  | .assign id name value, h => by
    rw [Expr.occurrences, Expr.uses, List.map_append] at h
    have same : name.rename r = name.rename r' := h.rename h.append.2.cons.1
    rw [Expr.relabel, Expr.relabel, Expr.relabel_congr c value h.append.1, h.id, same]
  | .binary left operator right, h => by
    rw [Expr.occurrences, Expr.uses, List.map_append] at h
    rw [Expr.relabel, Expr.relabel, Expr.relabel_congr c left h.append.1,
      Expr.relabel_congr c right h.append.2, h.relabel]
  | .call callee paren arguments, h => by
    rw [Expr.occurrences, Expr.uses, List.map_append] at h
    rw [Expr.relabel, Expr.relabel, Expr.relabel_congr c callee h.append.1,
      Expr.relabelAll_congr c arguments h.append.2, h.relabel]
  | .get object name, h => by
    rw [Expr.relabel, Expr.relabel, Expr.relabel_congr c object h, h.relabel]
  | .grouping inner, h => congrArg Expr.grouping (Expr.relabel_congr c inner h)
  | .constant _, _ => rfl
  | .logical left operator right, h => by
    rw [Expr.occurrences, Expr.uses, List.map_append] at h
    rw [Expr.relabel, Expr.relabel, Expr.relabel_congr c left h.append.1,
      Expr.relabel_congr c right h.append.2, h.relabel]
  | .set object name value, h => by
    rw [Expr.occurrences, Expr.uses, List.map_append] at h
    rw [Expr.relabel, Expr.relabel, Expr.relabel_congr c value h.append.1,
      Expr.relabel_congr c object h.append.2, h.relabel]
  | .super id keyword method, h => by
    rw [Expr.relabel, Expr.relabel, h.id, h.relabel, h.relabel]
  | .this id keyword, h => by
    rw [Expr.relabel, Expr.relabel, h.id, h.relabel]
  | .unary operator right, h => by
    rw [Expr.relabel, Expr.relabel, Expr.relabel_congr c right h, h.relabel]
  | .read ref, h => congrArg Expr.read (h.reference h.cons.1)

theorem Expr.relabelAll_congr (c : Context) : (es : List Expr) →
    r.Same r' ((Expr.allUses es).map fun u => ⟨.use u.1 u.2, c⟩) →
    Expr.relabelAll r es = Expr.relabelAll r' es
  | [], _ => rfl
  | e :: rest, h => by
    rw [Expr.allUses, List.map_append] at h
    rw [Expr.relabelAll, Expr.relabelAll, Expr.relabel_congr c e h.append.1,
      Expr.relabelAll_congr c rest h.append.2]

end

theorem Expr.map_relabel_congr (c : Context) (e : Option Expr)
    (h : r.Same r' (Expr.optionalOccurrences c e)) :
    e.map (Expr.relabel r) = e.map (Expr.relabel r') := by
  cases e with
  | none => rfl
  | some e => exact congrArg some (Expr.relabel_congr c e h)

theorem VarDecl.relabel_congr (c : Context) (decl : VarDecl)
    (h : r.Same r' (decl.occurrences c)) : decl.relabel r = decl.relabel r' := by
  have same : decl.name.rename r = decl.name.rename r' := h.rename h.cons.1
  rw [VarDecl.relabel, VarDecl.relabel, same, Expr.map_relabel_congr _ _ h.cons.2]

theorem VarDecl.map_relabel_congr (c : Context) (decls : List VarDecl)
    (h : r.Same r' (VarDecl.allOccurrences c decls)) :
    decls.map (VarDecl.relabel r) = decls.map (VarDecl.relabel r') := by
  induction decls generalizing c with
  | nil => rfl
  | cons decl rest ih =>
    rw [VarDecl.allOccurrences] at h
    rw [List.map_cons, List.map_cons, VarDecl.relabel_congr c decl h.append.1, ih _ h.append.2]

theorem Token.map_rename_congr (c : Context) (params : List Token)
    (h : r.Same r' (parameterOccurrences c params)) :
    params.map (Token.rename r) = params.map (Token.rename r') := by
  induction params generalizing c with
  | nil => rfl
  | cons param rest ih =>
    rw [parameterOccurrences] at h
    have same : param.rename r = param.rename r' := h.rename h.cons.1
    rw [List.map_cons, List.map_cons, same, ih _ h.cons.2]

mutual

theorem Stmt.relabel_congr (c : Context) :
    (s : Stmt) → r.Same r' (s.occurrences c) → s.relabel r = s.relabel r'
  | .block body, h => congrArg Stmt.block (Stmt.relabelAll_congr _ body h)
  | .classDecl name superclass methods, h => by
    rw [Stmt.occurrences] at h
    have ref : superclass.map (Variable.relabel r) = superclass.map (Variable.relabel r') := by
      cases superclass with
      | none => rfl
      | some ref => exact congrArg some (h.reference h.cons.2.append.1.cons.1)
    rw [Stmt.relabel, Stmt.relabel, h.relabel, ref,
      FunctionDecl.relabelAll_congr _ methods h.cons.2.append.2]
  | .expression value, h => congrArg Stmt.expression (Expr.relabel_congr c value h)
  | .function decl, h => by
    rw [Stmt.occurrences] at h
    rw [Stmt.relabel, Stmt.relabel, FunctionDecl.relabel_congr _ decl h.cons.2]
  | .branch condition thenBranch none, h => by
    rw [Stmt.occurrences] at h
    rw [Stmt.relabel, Stmt.relabel, Expr.relabel_congr c condition h.append.1,
      Stmt.relabel_congr c thenBranch h.append.2]
  | .branch condition thenBranch (some elseBranch), h => by
    rw [Stmt.occurrences] at h
    rw [Stmt.relabel, Stmt.relabel, Expr.relabel_congr c condition h.append.1,
      Stmt.relabel_congr c thenBranch h.append.2.append.1,
      Stmt.relabel_congr c elseBranch h.append.2.append.2]
  | .print value, h => congrArg Stmt.print (Expr.relabel_congr c value h)
  | .ret keyword value, h => by
    rw [Stmt.relabel, Stmt.relabel, h.relabel, Expr.map_relabel_congr c value h]
  | .var decl, h => congrArg Stmt.var (VarDecl.relabel_congr c decl h)
  | .varList decls, h => congrArg Stmt.varList (VarDecl.map_relabel_congr c decls h)
  | .loop condition body, h => by
    rw [Stmt.occurrences] at h
    rw [Stmt.relabel, Stmt.relabel, Expr.relabel_congr c condition h.append.1,
      Stmt.relabel_congr c body h.append.2]

theorem Stmt.relabelAll_congr (c : Context) : (body : List Stmt) →
    r.Same r' (Stmt.allOccurrences c body) → Stmt.relabelAll r body = Stmt.relabelAll r' body
  | [], _ => rfl
  | s :: rest, h => by
    rw [Stmt.allOccurrences] at h
    rw [Stmt.relabelAll, Stmt.relabelAll, Stmt.relabel_congr c s h.append.1,
      Stmt.relabelAll_congr _ rest h.append.2]

theorem FunctionDecl.relabel_congr (c : Context) : (decl : FunctionDecl) →
    r.Same r' (decl.occurrences c) → decl.relabel r = decl.relabel r'
  | ⟨name, params, body⟩, h => by
    rw [FunctionDecl.occurrences] at h
    rw [FunctionDecl.relabel, FunctionDecl.relabel, h.relabel,
      Token.map_rename_congr _ params h.append.1, Stmt.relabelAll_congr _ body h.append.2]

theorem FunctionDecl.relabelAll_congr (c : Context) : (decls : List FunctionDecl) →
    r.Same r' (FunctionDecl.allOccurrences c decls) →
    FunctionDecl.relabelAll r decls = FunctionDecl.relabelAll r' decls
  | [], _ => rfl
  | decl :: rest, h => by
    rw [FunctionDecl.allOccurrences] at h
    rw [FunctionDecl.relabelAll, FunctionDecl.relabelAll,
      FunctionDecl.relabel_congr _ decl h.append.1,
      FunctionDecl.relabelAll_congr c rest h.append.2]

end

end Treewalk
