import Mathlib.Data.List.Nodup
import Treewalk.Proofs.Grammar.Exact
import Treewalk.Syntax.Reference

/-!
# The order of references

References are numbered in the order of their tokens. In the tree they stand in another order: the
increment of a `for` loop is kept behind its body. So `Ordered` says of a derivation that its
references are, in whatever order, some of its tokens from left to right, under numbers that follow
on each other. Sorted by number they stand in the order of the tokens again.
-/

namespace Treewalk

/-- The tokens that name what a reference refers to. -/
def Token.Refers (t : Token) : Prop :=
  t.kind = .identifier ∨ t.kind = .kwThis ∨ t.kind = .kwSuper

/-- References by these names, with the numbers from `i` on. -/
def numberedFrom (i : NodeId) : List Token → List Variable
  | [] => []
  | name :: rest => ⟨i, name⟩ :: numberedFrom (i + 1) rest

theorem numberedFrom_append (i : NodeId) (names more : List Token) :
    numberedFrom i (names ++ more) =
      numberedFrom i names ++ numberedFrom (i + names.length) more := by
  induction names generalizing i with
  | nil => rfl
  | cons name rest ih =>
    rw [List.cons_append, numberedFrom, ih, numberedFrom, List.length_cons, Nat.add_right_comm,
      Nat.add_assoc, List.cons_append]

theorem ids_numberedFrom (i : NodeId) (names : List Token) :
    (numberedFrom i names).map (·.id) = List.range' i names.length := by
  induction names generalizing i with
  | nil => rfl
  | cons name rest ih => rw [numberedFrom, List.map_cons, ih, List.length_cons, List.range'_succ]

theorem names_numberedFrom (i : NodeId) (names : List Token) :
    (numberedFrom i names).map (·.name) = names := by
  induction names generalizing i with
  | nil => rfl
  | cons name rest ih => rw [numberedFrom, List.map_cons, ih]

theorem pairwise_numberedFrom (i : NodeId) (names : List Token) :
    (numberedFrom i names).Pairwise (·.id < ·.id) := by
  have ids : ((numberedFrom i names).map (·.id)).Pairwise (· < ·) := by
    rw [ids_numberedFrom]
    exact List.pairwise_lt_range'
  exact List.pairwise_map.1 ids

/-- The references of an expression that may be left out. -/
def Expr.optionalReferences : Option Expr → List Variable
  | some e => e.references
  | none => []

/-- The references of a statement that may be left out. -/
def Stmt.optionalReferences : Option Stmt → List Variable
  | some s => s.references
  | none => []

theorem references_perm (program : List Stmt) :
    (references program).Perm (Stmt.allReferences program) := List.mergeSort_perm _ _

namespace Grammar

variable {i j k : NodeId} {ts us : List Token} {refs refs' : List Variable}

/-- The references have the numbers from `i` up to `j`, and by these they stand in the order of
their tokens in `ts`. -/
def Ordered (i : NodeId) (ts : List Token) (refs : List Variable) (j : NodeId) : Prop :=
  ∃ names : List Token, names.Sublist ts ∧ (∀ name ∈ names, name.Refers) ∧
    j = i + names.length ∧ refs.Perm (numberedFrom i names)

namespace Ordered

theorem nil : Ordered i ts [] i :=
  ⟨[], List.nil_sublist ts, List.forall_mem_nil _, rfl, .refl _⟩

theorem use {name : Token} (refers : name.Refers) (stands : [name].Sublist ts) :
    Ordered i ts [⟨i, name⟩] (i + 1) :=
  ⟨[name], stands, List.forall_mem_singleton.2 refers, rfl, .refl _⟩

theorem mono (h : Ordered i ts refs j) (sub : ts.Sublist us) : Ordered i us refs j := by
  obtain ⟨names, stand, rest⟩ := h
  exact ⟨names, stand.trans sub, rest⟩

theorem perm (h : Ordered i ts refs j) (same : refs'.Perm refs) : Ordered i ts refs' j := by
  obtain ⟨names, stand, refer, size, numbered⟩ := h
  exact ⟨names, stand, refer, size, same.trans numbered⟩

theorem append (h : Ordered i ts refs j) (h' : Ordered j us refs' k) :
    Ordered i (ts ++ us) (refs ++ refs') k := by
  obtain ⟨names, stand, refer, rfl, numbered⟩ := h
  obtain ⟨more, stand', refer', rfl, numbered'⟩ := h'
  refine ⟨names ++ more, stand.append stand', ?_, ?_, ?_⟩
  · exact List.forall_mem_append.2 ⟨refer, refer'⟩
  · rw [List.length_append, Nat.add_assoc]
  · rw [numberedFrom_append]
    exact numbered.append numbered'

/-- References that stand in the tree in the other order than in the source. -/
theorem swap (h : Ordered i ts refs j) (h' : Ordered j us refs' k) :
    Ordered i (ts ++ us) (refs' ++ refs) k :=
  (h.append h').perm List.perm_append_comm

theorem after (t : Token) (h : Ordered i ts refs j) : Ordered i (t :: ts) refs j :=
  h.mono (List.sublist_cons_self t ts)

theorem before (h : Ordered i ts refs j) (us : List Token) : Ordered i (ts ++ us) refs j :=
  h.mono (List.sublist_append_left ts us)

theorem behind (h : Ordered i us refs j) (ts : List Token) : Ordered i (ts ++ us) refs j :=
  h.mono (List.sublist_append_right ts us)

/-- Sorted by their numbers the references stand in the order of their tokens. -/
theorem references_eq {program : List Stmt} (h : Ordered i ts (Stmt.allReferences program) j) :
    ∃ names : List Token, names.Sublist ts ∧ (∀ name ∈ names, name.Refers) ∧
      j = i + names.length ∧ references program = numberedFrom i names := by
  obtain ⟨names, stand, refer, size, numbered⟩ := h
  refine ⟨names, stand, refer, size, ?_⟩
  have same : (references program).Perm (numberedFrom i names) :=
    (references_perm program).trans numbered
  have sorted : (references program).Pairwise fun a b => decide (a.id ≤ b.id) = true := by
    apply List.pairwise_mergeSort
    · simpa using fun a b c : Variable => Nat.le_trans
    · simpa using fun a b : Variable => Nat.le_total a.id b.id
  have counted : (numberedFrom i names).Pairwise fun a b => decide (a.id ≤ b.id) = true :=
    (pairwise_numberedFrom i names).imp fun less => decide_eq_true (Nat.le_of_lt less)
  refine same.eq_of_pairwise (fun a b isRef isNumbered le ge => ?_) sorted counted
  have unique : ((numberedFrom i names).map (·.id)).Nodup := by
    rw [ids_numberedFrom]
    exact List.nodup_range'
  exact List.inj_on_of_nodup_map unique (same.mem_iff.1 isRef) isNumbered
    (Nat.le_antisymm (of_decide_eq_true le) (of_decide_eq_true ge))

end Ordered

theorem references_node {r : Rule} {b : BinaryRule} (rule : r.binary? = some b) (left : Expr)
    (operator : Token) (right : Expr) :
    (b.node left operator right).references = left.references ++ right.references := by
  cases r <;> cases rule <;> rw [Expr.references]

mutual

theorem Derives.ordered {r : Rule} {i j : NodeId} {ts : List Token} {e : Expr} :
    Derives r i ts e j → Ordered i ts e.references j
  | .single h => h.ordered
  | .sequence h _ hs => by
    rw [Expr.references, Expr.allReferences]
    exact h.ordered.append (hs.ordered.after _)
  | .operation h => h.ordered
  | .assign identifier _ h => by
    have target : Ordered i [_] [⟨i, _⟩] (i + 1) := .use (.inl identifier) (.refl _)
    rw [Expr.references]
    exact target.append (h.ordered.after _)
  | .set ho _ _ _ hv => by
    rw [Expr.references]
    exact ho.ordered.append (((hv.ordered.after _).after _).after _)
  | .operand _ h => h.ordered
  | .binary rule hl _ hr => by
    rw [references_node rule]
    exact hl.ordered.append (hr.ordered.after _)
  | .unary _ h => h.ordered.after _
  | .operatorless h => h.ordered
  | .atom h => h.ordered
  | .call h _ hs _ => by
    rw [Expr.references]
    exact h.ordered.append ((hs.ordered.before _).after _)
  | .get h _ _ => h.ordered.before _
  | .constant _ => .nil
  | .super kind _ _ => .use (.inr (.inr kind)) (by simp)
  | .this kind => .use (.inr (.inl kind)) (.refl _)
  | .name kind => .use (.inl kind) (.refl _)
  | .grouping _ h _ => (h.ordered.before _).after _

theorem Assignments.ordered {i j : NodeId} {ts : List Token} {es : List Expr} :
    Assignments i ts es j → Ordered i ts (Expr.allReferences es) j
  | .one h => by
    rw [Expr.allReferences, Expr.allReferences, List.append_nil]
    exact h.ordered
  | .more h _ hs => by
    rw [Expr.allReferences]
    exact h.ordered.append (hs.ordered.after _)

theorem Arguments.ordered {i j : NodeId} {ts : List Token} {es : List Expr} :
    Arguments i ts es j → Ordered i ts (Expr.allReferences es) j
  | .none => .nil
  | .some hs _ => hs.ordered

end

theorem OptionalExpr.ordered {o : Option Expr} (h : OptionalExpr i ts o j) :
    Ordered i ts (Expr.optionalReferences o) j := by
  cases h with
  | none => exact .nil
  | some h => exact h.ordered

theorem VarItem.ordered {decl : VarDecl} (h : VarItem i ts decl j) :
    Ordered i ts decl.references j := by
  cases h with
  | bare _ => exact .nil
  | initialized _ _ h => exact (h.ordered.after _).after _

theorem VarItems.ordered {decls : List VarDecl} (h : VarItems i ts decls j) :
    Ordered i ts (decls.flatMap VarDecl.references) j := by
  induction h with
  | one item =>
    rw [List.flatMap_singleton]
    exact item.ordered
  | more item _ _ ih =>
    rw [List.flatMap_cons]
    exact item.ordered.append (ih.after _)

theorem references_varStatement (decls : List VarDecl) :
    (varStatement decls).references = decls.flatMap VarDecl.references := by
  match decls with
  | [] => rfl
  | [decl] => exact (List.flatMap_singleton ..).symm
  | _ :: _ :: _ => rfl

theorem VarDeclaration.ordered {s : Stmt} (h : VarDeclaration i ts s j) :
    Ordered i ts s.references j := by
  cases h with
  | mk _ items _ =>
    rw [references_varStatement]
    exact (items.ordered.before _).after _

theorem ExpressionStatement.ordered {s : Stmt} (h : ExpressionStatement i ts s j) :
    Ordered i ts s.references j := by
  cases h with
  | mk h _ => exact h.ordered.before _

theorem ForInitializer.ordered {o : Option Stmt} (h : ForInitializer i ts o j) :
    Ordered i ts (Stmt.optionalReferences o) j := by
  cases h with
  | none _ => exact .nil
  | var h => exact h.ordered
  | expression h => exact h.ordered

theorem references_ret (keyword : Token) (value : Option Expr) :
    (Stmt.ret keyword value).references = Expr.optionalReferences value := by
  cases value <;> rfl

theorem references_function (decl : FunctionDecl) :
    (Stmt.function decl).references = Stmt.allReferences decl.body := by
  cases decl
  rw [Stmt.references]

theorem allReferences_cons (decl : FunctionDecl) (decls : List FunctionDecl) :
    FunctionDecl.allReferences (decl :: decls) =
      Stmt.allReferences decl.body ++ FunctionDecl.allReferences decls := by
  cases decl
  rw [FunctionDecl.allReferences]

theorem Superclass.ordered {o : Option Variable} (h : Superclass i ts o j) :
    Ordered i ts o.toList j := by
  cases h with
  | none => exact .nil
  | some _ isName => exact .use (.inl isName) (by simp)

/-- In the tree of a `for` loop the increment stands behind the body. -/
theorem references_forLoop (initializer : Option Stmt) (condition increment : Option Expr)
    (body : Stmt) :
    (withInitializer initializer
        (.loop (condition.getD (.constant .true)) (withIncrement increment body))).references =
      Stmt.optionalReferences initializer ++ (Expr.optionalReferences condition ++
        (body.references ++ Expr.optionalReferences increment)) := by
  have inside : (withIncrement increment body).references =
      body.references ++ Expr.optionalReferences increment := by
    cases increment with
    | none => exact (List.append_nil _).symm
    | some e =>
      simp only [withIncrement, Stmt.references, Stmt.allReferences, List.append_nil,
        Expr.optionalReferences]
  have loop : (Stmt.loop (condition.getD (.constant .true))
        (withIncrement increment body)).references =
      Expr.optionalReferences condition ++
        (body.references ++ Expr.optionalReferences increment) := by
    rw [Stmt.references, inside]
    cases condition <;> rfl
  cases initializer with
  | none => exact loop
  | some first =>
    rw [withInitializer, Stmt.references, Stmt.allReferences, Stmt.allReferences,
      Stmt.allReferences, List.append_nil, loop]
    rfl

variable {choice : ElseRule}

mutual

theorem Declaration.ordered {i j : NodeId} {ts : List Token} {s : Stmt} :
    Declaration choice i ts s j → Ordered i ts s.references j
  | .classDecl _ _ above _ hs _ => by
    rw [Stmt.references]
    exact ((above.ordered.append ((hs.ordered.before _).after _)).after _).after _
  | .function _ h => by
    rw [references_function]
    exact h.ordered.after _
  | .var h => h.ordered
  | .statement h => h.ordered

theorem Statement.ordered {i j : NodeId} {ts : List Token} {s : Stmt} {isOpen : Bool} :
    Statement choice i ts s isOpen j → Ordered i ts s.references j
  | .expression h => h.ordered
  | .forLoop _ _ hinitializer hcondition _ hincrement _ hbody => by
    rw [references_forLoop]
    refine ((hinitializer.ordered.append (hcondition.ordered.append (.after _ ?_))).after _).after _
    exact hincrement.ordered.swap (hbody.ordered.after _)
  | .branch _ _ hcondition _ hthen => by
    rw [Stmt.references]
    exact ((hcondition.ordered.append (hthen.ordered.after _)).after _).after _
  | .branchElse _ _ hcondition _ hthen _ _ helse => by
    rw [Stmt.references, List.append_assoc]
    refine ((hcondition.ordered.append (.after _ ?_)).after _).after _
    exact hthen.ordered.append (helse.ordered.after _)
  | .print _ h _ => (h.ordered.before _).after _
  | .ret _ h _ => by
    rw [references_ret]
    exact (h.ordered.before _).after _
  | .loop _ _ hcondition _ hbody => by
    rw [Stmt.references]
    exact ((hcondition.ordered.append (hbody.ordered.after _)).after _).after _
  | .block _ h => h.ordered.after _

theorem Block.ordered {i j : NodeId} {ts : List Token} {body : List Stmt} :
    Block choice i ts body j → Ordered i ts (Stmt.allReferences body) j
  | .mk hs _ => hs.ordered.before _

theorem Declarations.ordered {i j : NodeId} {ts : List Token} {body : List Stmt} :
    Declarations choice i ts body j → Ordered i ts (Stmt.allReferences body) j
  | .nil => .nil
  | .cons h hs => by
    rw [Stmt.allReferences]
    exact h.ordered.append hs.ordered

theorem Routine.ordered {i j : NodeId} {ts : List Token} {decl : FunctionDecl} :
    Routine choice i ts decl j → Ordered i ts (Stmt.allReferences decl.body) j
  | .mk _ _ _ _ _ h => ((((h.ordered.after _).after _).behind _).after _).after _

theorem Methods.ordered {i j : NodeId} {ts : List Token} {decls : List FunctionDecl} :
    Methods choice i ts decls j → Ordered i ts (FunctionDecl.allReferences decls) j
  | .nil => .nil
  | .cons h hs => by
    rw [allReferences_cons]
    exact h.ordered.append hs.ordered

end

end Grammar

end Treewalk
