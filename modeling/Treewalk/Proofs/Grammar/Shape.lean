import Treewalk.Proofs.Grammar.Derivation
import Treewalk.Proofs.Scope.Resolved

/-!
# The shape of derived programs

What every tree that the grammar derives is like: its uses have the numbers from the first to the
last, each once; the names that it mentions are tokens of the right kinds; and no branch and no body
of a loop is a declaration.
-/

namespace Treewalk

/-- The name is a token of a source, of the kind that such a mention has. -/
def Mention.From (ts : List Token) : Mention → Prop
  | .use .this ref => ref.name ∈ ts ∧ ref.name.kind = .kwThis
  | .use .super ref => ref.name ∈ ts ∧ ref.name.kind = .kwSuper
  | .use .read ref | .use .write ref => ref.name ∈ ts ∧ ref.name.kind = .identifier
  | .declare name => name ∈ ts ∧ name.kind = .identifier

theorem Mention.From.mono {ts us : List Token} {mention : Mention} (h : mention.From ts)
    (sub : ts ⊆ us) : mention.From us := by
  cases mention with
  | declare name => exact ⟨sub h.1, h.2⟩
  | use role ref => cases role <;> exact ⟨sub h.1, h.2⟩

namespace Grammar

variable {i j k : NodeId} {ts us : List Token} {os os' : List Occurrence}

/-- The occurrences have the numbers from `i` up to `j`, each once, and are mentions of tokens of
`ts`. -/
structure Shaped (i : NodeId) (ts : List Token) (os : List Occurrence) (j : NodeId) : Prop where
  le : i ≤ j
  numbers : (os.filterMap Occurrence.id?).Perm (List.range' i (j - i))
  mentions : ∀ o ∈ os, o.mention.From ts

theorem Shaped.nil : Shaped i ts [] i :=
  ⟨Nat.le_refl i, by simp, List.forall_mem_nil _⟩

theorem Shaped.mono (h : Shaped i ts os j) (sub : ts ⊆ us) : Shaped i us os j :=
  ⟨h.le, h.numbers, fun o member => (h.mentions o member).mono sub⟩

theorem Shaped.append (h : Shaped i ts os j) (h' : Shaped j us os' k) :
    Shaped i (ts ++ us) (os ++ os') k := by
  refine ⟨Nat.le_trans h.le h'.le, ?_, fun o member => ?_⟩
  · have range : List.range' i (j - i) ++ List.range' j (k - j) = List.range' i (k - i) := by
      obtain ⟨m, rfl⟩ := Nat.exists_eq_add_of_le h.le
      obtain ⟨n, rfl⟩ := Nat.exists_eq_add_of_le h'.le
      rw [Nat.add_sub_cancel_left, Nat.add_sub_cancel_left, List.range'_append_1, Nat.add_assoc,
        Nat.add_sub_cancel_left]
    rw [List.filterMap_append, ← range]
    exact h.numbers.append h'.numbers
  · rcases List.mem_append.1 member with member | member
    · exact (h.mentions o member).mono (List.subset_append_left _ _)
    · exact (h'.mentions o member).mono (List.subset_append_right _ _)

/-- `Shaped.append` for mentions of the tokens of one source. -/
theorem Shaped.join (h : Shaped i ts os j) (h' : Shaped j ts os' k) :
    Shaped i ts (os ++ os') k :=
  (h.append h').mono fun t member => by simpa using member

theorem Shaped.perm (h : Shaped i ts os j) (same : os'.Perm os) : Shaped i ts os' j :=
  ⟨h.le, (same.filterMap _).trans h.numbers, fun o member => h.mentions o (same.mem_iff.1 member)⟩

/-- Occurrences that stand in the tree in the other order than in the source. -/
theorem Shaped.swap (h : Shaped i ts os j) (h' : Shaped j us os' k) :
    Shaped i (ts ++ us) (os' ++ os) k :=
  (h.append h').perm List.perm_append_comm

theorem Shaped.use {role : Role} {name : Token} {c : Context}
    (source : (Mention.use role ⟨i, name⟩).From ts) :
    Shaped i ts [⟨.use role ⟨i, name⟩, c⟩] (i + 1) := by
  refine ⟨Nat.le_succ i, ?_, fun o member => ?_⟩
  · rw [Nat.add_sub_cancel_left]
    exact List.Perm.refl _
  · rw [List.mem_singleton.1 member]
    exact source

theorem Shaped.declare {name : Token} {c : Context} (source : name ∈ ts)
    (identifier : name.kind = .identifier) : Shaped i ts [⟨.declare name, c⟩] i := by
  refine ⟨Nat.le_refl i, ?_, fun o member => ?_⟩
  · rw [Nat.sub_self]
    exact List.Perm.refl _
  · rw [List.mem_singleton.1 member]
    exact ⟨source, identifier⟩

/-- The operands of an operator stand in the order of the source. -/
theorem uses_node {r : Rule} {b : BinaryRule} (rule : r.binary? = some b) (left : Expr)
    (operator : Token) (right : Expr) :
    (b.node left operator right).uses = left.uses ++ right.uses := by
  cases r <;> cases rule <;> rw [Expr.uses]

mutual

theorem Derives.shaped {r : Rule} {i j : NodeId} {ts : List Token} {e : Expr} :
    Derives r i ts e j → ∀ c, Shaped i ts (e.occurrences c) j
  | .single h, c => h.shaped c
  | .sequence h _ hs, c => by
    simp only [Expr.occurrences, Expr.uses, Expr.allUses, List.map_append]
    exact (h.shaped c).append ((hs.shaped c).mono (List.subset_cons_self _ _))
  | .operation h, c => h.shaped c
  | .assign identifier _ hv, c => by
    simp only [Expr.occurrences, Expr.uses, List.map_append]
    have target : Shaped i [_] [⟨.use .write ⟨i, _⟩, c⟩] (i + 1) :=
      .use ⟨.head _, identifier⟩
    exact target.swap ((hv.shaped c).mono (List.subset_cons_self _ _))
  | .set ho _ _ _ hv, c => by
    simp only [Expr.occurrences, Expr.uses, List.map_append]
    refine (ho.shaped c).swap ((hv.shaped c).mono ?_)
    exact fun t member => .tail _ (.tail _ (.tail _ member))
  | .operand _ h, c => h.shaped c
  | .binary rule hl _ hr, c => by
    simp only [Expr.occurrences, uses_node rule, List.map_append]
    exact (hl.shaped c).append ((hr.shaped c).mono (List.subset_cons_self _ _))
  | .unary _ h, c => (h.shaped c).mono (List.subset_cons_self _ _)
  | .operatorless h, c => h.shaped c
  | .atom h, c => h.shaped c
  | .call h _ hs _, c => by
    simp only [Expr.occurrences, Expr.uses, List.map_append]
    refine (h.shaped c).append ((hs.shaped c).mono ?_)
    exact fun t member => .tail _ (List.mem_append_left _ member)
  | .get h _ _, c => (h.shaped c).mono (List.subset_append_left _ _)
  | .constant _, _ => .nil
  | .super kind _ _, _ => .use ⟨.head _, kind⟩
  | .this kind, _ => .use ⟨.head _, kind⟩
  | .name kind, _ => .use ⟨.head _, kind⟩
  | .grouping _ h _, c =>
    (h.shaped c).mono fun t member => .tail _ (List.mem_append_left _ member)

theorem Assignments.shaped {i j : NodeId} {ts : List Token} {es : List Expr} :
    Assignments i ts es j →
      ∀ c, Shaped i ts ((Expr.allUses es).map fun u => ⟨.use u.1 u.2, c⟩) j
  | .one h, c => by
    simp only [Expr.allUses, List.append_nil]
    exact h.shaped c
  | .more h _ hs, c => by
    simp only [Expr.allUses, List.map_append]
    exact (h.shaped c).append ((hs.shaped c).mono (List.subset_cons_self _ _))

theorem Arguments.shaped {i j : NodeId} {ts : List Token} {es : List Expr} :
    Arguments i ts es j →
      ∀ c, Shaped i ts ((Expr.allUses es).map fun u => ⟨.use u.1 u.2, c⟩) j
  | .none, _ => .nil
  | .some hs _, c => hs.shaped c

end

theorem OptionalExpr.shaped {o : Option Expr} (h : OptionalExpr i ts o j) (c : Context) :
    Shaped i ts (Expr.optionalOccurrences c o) j := by
  cases h with
  | none => exact .nil
  | some h => exact h.shaped c

theorem VarItem.shaped {decl : VarDecl} (h : VarItem i ts decl j) (c : Context) :
    Shaped i ts (decl.occurrences c) j := by
  cases h with
  | bare identifier => exact .declare (.head _) identifier
  | initialized identifier _ hv =>
    have name : Shaped i [_] [⟨.declare _, c⟩] i := .declare (.head _) identifier
    exact name.append ((hv.shaped _).mono (List.subset_cons_self _ _))

theorem VarItems.shaped {decls : List VarDecl} (h : VarItems i ts decls j) (c : Context) :
    Shaped i ts (VarDecl.allOccurrences c decls) j := by
  induction h generalizing c with
  | one item =>
    rw [VarDecl.allOccurrences, VarDecl.allOccurrences, List.append_nil]
    exact item.shaped c
  | more item _ _ ih =>
    exact (item.shaped c).append ((ih _).mono (List.subset_cons_self _ _))

theorem varStatement_shaped {decls : List VarDecl} {c : Context}
    (h : Shaped i ts (VarDecl.allOccurrences c decls) j) :
    Shaped i ts ((varStatement decls).occurrences c) j := by
  rcases decls with _ | ⟨decl, _ | ⟨decl', decls⟩⟩
  · exact h
  · rw [VarDecl.allOccurrences, VarDecl.allOccurrences, List.append_nil] at h
    exact h
  · exact h

theorem varStatement_regular (decls : List VarDecl) : (varStatement decls).Regular := by
  unfold varStatement
  split <;> rw [Stmt.Regular] <;> trivial

theorem VarDeclaration.shaped {s : Stmt} (h : VarDeclaration i ts s j) (c : Context) :
    Shaped i ts (s.occurrences c) j := by
  cases h with
  | mk _ items _ =>
    exact varStatement_shaped ((items.shaped c).mono fun t member => by simp [member])

theorem VarDeclaration.regular {s : Stmt} (h : VarDeclaration i ts s j) : s.Regular := by
  cases h with
  | mk => exact varStatement_regular _

theorem ExpressionStatement.shaped {s : Stmt} (h : ExpressionStatement i ts s j) (c : Context) :
    Shaped i ts (s.occurrences c) j := by
  cases h with
  | mk he _ => exact (he.shaped c).mono (List.subset_append_left _ _)

/-- The occurrences in what runs once before a loop. -/
def initializerOccurrences (c : Context) : Option Stmt → List Occurrence
  | some s => s.occurrences c
  | none => []

theorem ForInitializer.shaped {o : Option Stmt} (h : ForInitializer i ts o j) (c : Context) :
    Shaped i ts (initializerOccurrences c o) j := by
  cases h with
  | none _ => exact Shaped.nil.mono (List.nil_subset _)
  | var h => exact h.shaped c
  | expression h => exact h.shaped c

theorem names_shaped {names : List Token} (h : Names ts names) (c : Context) :
    Shaped i ts (parameterOccurrences c names) i := by
  induction h generalizing c with
  | one identifier => exact .declare (.head _) identifier
  | @more ts name comma names identifier _ _ ih =>
    have first : Shaped i [name] [⟨.declare name, c⟩] i := .declare (.head _) identifier
    exact first.append ((ih _).mono (List.subset_cons_self _ _))

theorem parameters_shaped {names : List Token} (h : Parameters ts names) (c : Context) :
    Shaped i ts (parameterOccurrences c names) i := by
  cases h with
  | none => exact .nil
  | some hs _ => exact names_shaped hs c

theorem Superclass.shaped {o : Option Variable} (h : Superclass i ts o j) (c : Context) :
    Shaped i ts (o.toList.map (⟨.use .read ·, c⟩)) j := by
  cases h with
  | none => exact .nil
  | some _ isName => exact .use ⟨.tail _ (.head _), isName⟩

/-- The three clauses of a `for` loop and its body, as they stand in the source and as they stand in
the tree. -/
theorem forLoop_shaped {us vs ws : List Token} {k l m : NodeId} {initializer : Option Stmt}
    {condition increment : Option Expr} {body : Stmt}
    (hinitializer : ∀ c, Shaped i ts (initializerOccurrences c initializer) j)
    (hcondition : ∀ c, Shaped j us (Expr.optionalOccurrences c condition) k)
    (hincrement : ∀ c, Shaped k vs (Expr.optionalOccurrences c increment) l)
    (hbody : ∀ c, Shaped l ws (body.occurrences c) m) (plain : body.declared = []) (c : Context) :
    Shaped i (ts ++ (us ++ (vs ++ ws)))
      ((withInitializer initializer
        (.loop (condition.getD (.constant .true)) (withIncrement increment body))).occurrences c)
      m := by
  have inside : ∀ c, Shaped k (vs ++ ws) ((withIncrement increment body).occurrences c) m := by
    intro c
    cases increment with
    | none => exact (hincrement c).append (hbody c)
    | some e =>
      rw [withIncrement, Stmt.occurrences, Stmt.allOccurrences, Stmt.allOccurrences,
        Stmt.allOccurrences, List.append_nil, plain]
      exact (hincrement _).swap (hbody _)
  have loop : ∀ c, Shaped j (us ++ (vs ++ ws))
      ((Stmt.loop (condition.getD (.constant .true)) (withIncrement increment body)).occurrences c)
      m := by
    intro c
    rw [Stmt.occurrences]
    cases condition with
    | none => exact (hcondition c).append (inside c)
    | some e => exact (hcondition c).append (inside c)
  cases initializer with
  | none => exact (hinitializer c).append (loop c)
  | some first =>
    rw [withInitializer, Stmt.occurrences, Stmt.allOccurrences, Stmt.allOccurrences,
      Stmt.allOccurrences, List.append_nil]
    exact (hinitializer _).append (loop _)

theorem ForInitializer.regular {s : Stmt} (h : ForInitializer i ts (some s) j) : s.Regular := by
  cases h with
  | var h => exact h.regular
  | expression h =>
    cases h with
    | mk => rw [Stmt.Regular]; trivial

theorem forLoop_regular {initializer : Option Stmt} {condition increment : Option Expr}
    {body : Stmt} (h : ForInitializer i ts initializer j) (regular : body.Regular)
    (plain : body.declared = []) :
    (withInitializer initializer
        (.loop (condition.getD (.constant .true)) (withIncrement increment body))).Regular ∧
      (withInitializer initializer
        (.loop (condition.getD (.constant .true)) (withIncrement increment body))).declared =
          [] := by
  have inside : (withIncrement increment body).declared = [] ∧
      (withIncrement increment body).Regular := by
    cases increment with
    | none => exact ⟨plain, regular⟩
    | some e =>
      rw [withIncrement]
      simp only [Stmt.Regular, Stmt.AllRegular, Stmt.declared, regular, and_self]
  cases initializer with
  | none => exact ⟨by rw [withInitializer, Stmt.Regular]; exact inside, rfl⟩
  | some first =>
    rw [withInitializer]
    refine ⟨?_, rfl⟩
    rw [Stmt.Regular, Stmt.AllRegular, Stmt.AllRegular, Stmt.AllRegular, Stmt.Regular]
    exact ⟨h.regular, inside, trivial⟩

mutual

theorem Declaration.shaped {choice : ElseRule} {i j : NodeId} {ts : List Token} {s : Stmt} :
    Declaration choice i ts s j → (∀ c, Shaped i ts (s.occurrences c) j) ∧ s.Regular
  | .classDecl _ identifier above _ hs _ => by
    refine ⟨fun c => ?_, by rw [Stmt.Regular]; exact hs.shaped.2⟩
    rw [Stmt.occurrences]
    refine (Shaped.declare (.tail _ (.head _)) identifier).join
      (((above.shaped _).mono ?_).join ((hs.shaped.1 _).mono ?_)) <;>
      exact fun t member => by simp [member]
  | .function _ h => by
    obtain ⟨⟨member, identifier⟩, inside, regular⟩ := h.shaped
    refine ⟨fun c => ?_, by rw [Stmt.Regular]; exact regular⟩
    rw [Stmt.occurrences]
    refine (Shaped.declare (.tail _ member) identifier).join ?_
    exact (inside _).mono (List.subset_cons_self _ _)
  | .var h => ⟨h.shaped, h.regular⟩
  | .statement h => ⟨h.shaped.1, h.shaped.2.1⟩

theorem Statement.shaped {choice : ElseRule} {i j : NodeId} {ts : List Token} {s : Stmt}
    {isOpen : Bool} : Statement choice i ts s isOpen j →
      (∀ c, Shaped i ts (s.occurrences c) j) ∧ s.Regular ∧ s.declared = []
  | .expression h => by
    refine ⟨h.shaped, ?_⟩
    cases h with
    | mk => exact ⟨by rw [Stmt.Regular]; trivial, rfl⟩
  | .forLoop _ _ hinitializer hcondition _ hincrement _ hbody => by
    obtain ⟨inside, regular, plain⟩ := hbody.shaped
    refine ⟨fun c => ?_, ?_⟩
    · refine (forLoop_shaped hinitializer.shaped hcondition.shaped hincrement.shaped inside plain
        c).mono fun t member => ?_
      simp only [List.mem_append] at member
      simp only [List.mem_cons, List.mem_append]
      rcases member with member | member | member | member <;> simp [member]
    · exact forLoop_regular hinitializer regular plain
  | .branch _ _ hcondition _ hthen => by
    obtain ⟨inside, regular, plain⟩ := hthen.shaped
    refine ⟨fun c => ?_, by rw [Stmt.Regular]; exact ⟨plain, regular⟩, rfl⟩
    rw [Stmt.occurrences]
    refine ((hcondition.shaped c).mono ?_).join ((inside c).mono ?_) <;>
      exact fun t member => by simp [member]
  | .branchElse _ _ hcondition _ hthen _ _ helse => by
    obtain ⟨inside, regular, plain⟩ := hthen.shaped
    obtain ⟨inside', regular', plain'⟩ := helse.shaped
    refine ⟨fun c => ?_, by rw [Stmt.Regular]; exact ⟨⟨plain, regular⟩, plain', regular'⟩, rfl⟩
    rw [Stmt.occurrences]
    refine ((hcondition.shaped c).mono ?_).join
        (((inside c).mono ?_).join ((inside' c).mono ?_)) <;>
      exact fun t member => by simp [member]
  | .print _ he _ => by
    refine ⟨fun c => ?_, by rw [Stmt.Regular]; trivial, rfl⟩
    exact (he.shaped c).mono fun t member => by simp [member]
  | .ret _ hvalue _ => by
    refine ⟨fun c => ?_, by rw [Stmt.Regular]; trivial, rfl⟩
    exact (hvalue.shaped c).mono fun t member => by simp [member]
  | .loop _ _ hcondition _ hbody => by
    obtain ⟨inside, regular, plain⟩ := hbody.shaped
    refine ⟨fun c => ?_, by rw [Stmt.Regular]; exact ⟨plain, regular⟩, rfl⟩
    rw [Stmt.occurrences]
    refine ((hcondition.shaped c).mono ?_).join ((inside c).mono ?_) <;>
      exact fun t member => by simp [member]
  | .block _ hbody => by
    refine ⟨fun c => ?_, by rw [Stmt.Regular]; exact hbody.shaped.2, rfl⟩
    rw [Stmt.occurrences]
    exact (hbody.shaped.1 _).mono (List.subset_cons_self _ _)

theorem Block.shaped {choice : ElseRule} {i j : NodeId} {ts : List Token} {body : List Stmt} :
    Block choice i ts body j →
      (∀ c, Shaped i ts (Stmt.allOccurrences c body) j) ∧ Stmt.AllRegular body
  | .mk hs _ => ⟨fun c => (hs.shaped.1 c).mono (List.subset_append_left _ _), hs.shaped.2⟩

theorem Declarations.shaped {choice : ElseRule} {i j : NodeId} {ts : List Token}
    {body : List Stmt} : Declarations choice i ts body j →
      (∀ c, Shaped i ts (Stmt.allOccurrences c body) j) ∧ Stmt.AllRegular body
  | .nil => ⟨fun _ => .nil, trivial⟩
  | .cons h hs => by
    rw [Stmt.AllRegular]
    refine ⟨fun c => ?_, h.shaped.2, hs.shaped.2⟩
    rw [Stmt.allOccurrences]
    exact (h.shaped.1 c).append (hs.shaped.1 _)

theorem Routine.shaped {choice : ElseRule} {i j : NodeId} {ts : List Token}
    {decl : FunctionDecl} : Routine choice i ts decl j →
      (decl.name ∈ ts ∧ decl.name.kind = .identifier) ∧
        (∀ c, Shaped i ts (decl.occurrences c) j) ∧ decl.Regular
  | .mk identifier _ hparams _ _ hbody => by
    refine ⟨⟨.head _, identifier⟩, fun c => ?_, by rw [FunctionDecl.Regular]; exact hbody.shaped.2⟩
    rw [FunctionDecl.occurrences]
    refine ((parameters_shaped hparams _).mono ?_).join ((hbody.shaped.1 _).mono ?_) <;>
      exact fun t member => by simp [member]

theorem Methods.shaped {choice : ElseRule} {i j : NodeId} {ts : List Token}
    {decls : List FunctionDecl} : Methods choice i ts decls j →
      (∀ c, Shaped i ts (FunctionDecl.allOccurrences c decls) j) ∧ FunctionDecl.AllRegular decls
  | .nil => ⟨fun _ => .nil, trivial⟩
  | .cons h hs => by
    rw [FunctionDecl.AllRegular]
    refine ⟨fun c => ?_, h.shaped.2.2, hs.shaped.2⟩
    rw [FunctionDecl.allOccurrences]
    exact (h.shaped.2.1 _).append (hs.shaped.1 c)

end

end Grammar

end Treewalk
