import Treewalk.Proofs.Grammar.Derivation
import Treewalk.Proofs.Grammar.Reads
import Treewalk.Syntax.Parser

/-!
# Parsing expressions is sound

What the parsers of expressions read without an error is derived by the rule of their name, and
what they return is the tree of that derivation. The induction is on the bound of the recursion.
-/

namespace Treewalk.Grammar

open Treewalk.Parser

variable {i j : NodeId} {ts : List Token} {r : Rule}

/-- The rule of a level of operators. -/
def levelRule : Level → Rule
  | .or => .logicOr
  | .and => .logicAnd
  | .equality => .equality
  | .comparison => .comparison
  | .term => .term
  | .factor => .factor

/-- The rule of the operands of a level, `none` standing for what is tighter than all levels. -/
def operandRule : Option Level → Rule
  | some level => levelRule level
  | none => .unary

theorem binary?_levelRule (level : Level) :
    (levelRule level).binary? =
      some ⟨operandRule level.tighter, level.operators, level.combine⟩ := by
  cases level <;> rfl

theorem binary?_node {b : BinaryRule} (h : r.binary? = some b) :
    b.node = .logical ∨ b.node = .binary := by
  cases r <;> cases h <;> simp

/-- The tokens behind a tree that can be assigned to. -/
def TargetTokens (i : NodeId) (ts : List Token) (e : Expr) (j : NodeId) : Prop :=
  match e with
  | .read ref => ts = [ref.name] ∧ ref.id = i ∧ j = i + 1 ∧ ref.name.kind = .identifier
  | .get object name =>
    ∃ us dot, ts = us ++ [dot, name] ∧ Derives .call i us object j ∧ dot.kind = .dot ∧
      name.kind = .identifier
  | _ => True

theorem Derives.targetTokens {r : Rule} {i j : NodeId} {ts : List Token} {e : Expr} :
    Derives r i ts e j → TargetTokens i ts e j
  | .single h => h.targetTokens
  | .sequence _ _ _ => trivial
  | .operation h => h.targetTokens
  | .assign _ _ _ => trivial
  | .set _ _ _ _ _ => trivial
  | .operand _ h => h.targetTokens
  | .binary rule _ _ _ => by
    rcases binary?_node rule with node | node <;> rw [node] <;> trivial
  | .unary _ _ => trivial
  | .operatorless h => h.targetTokens
  | .atom h => h.targetTokens
  | .call _ _ _ _ => trivial
  | .get h isDot identifier => ⟨_, _, rfl, h, isDot, identifier⟩
  | .constant _ => trivial
  | .super _ _ _ => trivial
  | .this _ => trivial
  | .name identifier => ⟨rfl, rfl, rfl, identifier⟩
  | .grouping _ _ _ => trivial

/-- An expression that can be assigned to, with an equals sign and a value behind it. -/
theorem Derives.assigned {k : NodeId} {us : List Token} {target value result : Expr}
    {equals : Token} (h : Derives .logicOr i ts target j) (kind : equals.kind = .equal)
    (hv : Derives .assignment j us value k) (hr : target.assigned? value = some result) :
    Derives .assignment i (ts ++ equals :: us) result k := by
  have tokens := h.targetTokens
  cases target with
  | read ref =>
    obtain ⟨id, name⟩ := ref
    obtain ⟨rfl, rfl, rfl, identifier⟩ := tokens
    cases hr
    exact .assign identifier kind hv
  | get object name =>
    obtain ⟨vs, dot, rfl, ho, isDot, identifier⟩ := tokens
    cases hr
    rw [List.append_assoc]
    exact .set ho isDot identifier kind hv
  | _ => cases hr

/-- More assignments behind a first one, each with a comma before it. -/
def MoreAssignments (i : NodeId) (ts : List Token) (es : List Expr) (j : NodeId)
    (rest : List Token) : Prop :=
  (es = [] ∧ ts = [] ∧ j = i ∧ ∀ t ∈ rest.head?, t.kind ≠ .comma) ∨
    ∃ comma us, ts = comma :: us ∧ comma.kind = .comma ∧ Assignments i us es j

/-- The parsers of expressions read what their rules derive, if their recursion is at most `n`
deep. -/
structure ReadsExpr (n : Nat) : Prop where
  expression : ∀ i, Reads i (expression n) fun ts e j _ => Derives .expression i ts e j
  items : ∀ i done, Reads i (items n done) fun ts e j rest =>
    ∃ es, e = .sequence (done.reverse ++ es) ∧ MoreAssignments i ts es j rest
  assignment : ∀ i, Reads i (assignment n) fun ts e j _ => Derives .assignment i ts e j
  operation : ∀ i level, Reads i (operation n level) fun ts e j _ =>
    Derives (operandRule level) i ts e j
  operations : ∀ i level left, Reads i (operations n level left) fun ts e j _ =>
    ∀ h us, Derives (levelRule level) h us left i → Derives (levelRule level) h (us ++ ts) e j
  unary : ∀ i, Reads i (unary n) fun ts e j _ => Derives .unary i ts e j
  call : ∀ i, Reads i (call n) fun ts e j _ => Derives .call i ts e j
  calls : ∀ i callee, Reads i (calls n callee) fun ts e j _ =>
    ∀ h us, Derives .call h us callee i → Derives .call h (us ++ ts) e j
  arguments : ∀ i, Reads i (arguments n) fun ts es j _ => Arguments i ts es j
  moreArguments : ∀ i done, Reads i (moreArguments n done) fun ts es j _ =>
    ∃ more, es = done.reverse ++ more ∧ Assignments i ts more j ∧
      done.length + more.length ≤ listLimit
  primary : ∀ i, Reads i (primary n) fun ts e j _ => Derives .primary i ts e j

section Step

variable {n : Nat} (ih : ReadsExpr n)
include ih

theorem reads_expression (i : NodeId) :
    Reads i (expression (n + 1)) fun ts e j _ => Derives .expression i ts e j := by
  rw [Parser.expression]
  refine (ih.assignment i).bind fun us first k => ?_
  refine reads_check.bind fun vs more k' => ?_
  split
  · refine (ih.items k' [first]).mono ?_
    rintro ts e j rest ⟨es, rfl, behind⟩ ⟨rfl, rfl, isComma⟩ hfirst
    obtain ⟨t, head, kind⟩ := isComma ‹_›
    rcases behind with ⟨rfl, rfl, rfl, noComma⟩ | ⟨comma, ws, rfl, kind, hs⟩
    · exact absurd kind (noComma t head)
    · exact .sequence hfirst kind hs
  · refine .pure ?_
    rintro rest ⟨rfl, rfl, -⟩ hfirst
    simpa using Derives.single hfirst

theorem reads_items (i : NodeId) (done : List Expr) :
    Reads i (items (n + 1) done) fun ts e j rest =>
      ∃ es, e = .sequence (done.reverse ++ es) ∧ MoreAssignments i ts es j rest := by
  rw [Parser.items]
  refine reads_accept.bind fun us o k => ?_
  cases o with
  | none =>
    refine .pure ?_
    rintro rest ⟨rfl, rfl, noComma⟩
    exact ⟨[], by simp, .inl ⟨rfl, rfl, rfl, noComma⟩⟩
  | some comma =>
    refine (ih.assignment k).bind fun vs item k' => ?_
    refine (ih.items k' (item :: done)).mono ?_
    rintro ts e j rest ⟨es, rfl, behind⟩ hitem ⟨rfl, rfl, kind⟩
    refine ⟨item :: es, by simp, .inr ⟨comma, vs ++ ts, by simp, kind, ?_⟩⟩
    rcases behind with ⟨rfl, rfl, rfl, -⟩ | ⟨comma', ws, rfl, kind', hs⟩
    · simpa using Assignments.one hitem
    · exact .more hitem kind' hs

theorem reads_assignment (i : NodeId) :
    Reads i (assignment (n + 1)) fun ts e j _ => Derives .assignment i ts e j := by
  rw [Parser.assignment]
  refine (ih.operation i (some .or)).bind fun us target k => ?_
  refine reads_accept.bind fun vs o k' => ?_
  cases o with
  | none =>
    refine .pure ?_
    rintro rest ⟨rfl, rfl, -⟩ htarget
    simpa using Derives.operation htarget
  | some equals =>
    refine (ih.assignment k').bind fun ws value k'' => ?_
    split
    · next e he =>
      refine .pure ?_
      rintro rest hvalue ⟨rfl, rfl, kind⟩ htarget
      simpa using Derives.assigned htarget kind hvalue he
    · refine (reads_report (Q := fun _ _ _ _ => False)).bind fun xs _ m => .pure ?_
      exact fun rest impossible => impossible.elim

theorem reads_operation (i : NodeId) (level : Option Level) :
    Reads i (operation (n + 1) level) fun ts e j _ => Derives (operandRule level) i ts e j := by
  cases level with
  | none => exact ih.unary i
  | some level =>
    rw [Parser.operation]
    refine (ih.operation i level.tighter).bind fun us left k => ?_
    refine (ih.operations k level left).mono fun ts e j rest loop hleft => ?_
    exact loop i us (.operand (binary?_levelRule level) hleft)

theorem reads_operations (i : NodeId) (level : Level) (left : Expr) :
    Reads i (operations (n + 1) level left) fun ts e j _ =>
      ∀ h us, Derives (levelRule level) h us left i →
        Derives (levelRule level) h (us ++ ts) e j := by
  rw [Parser.operations]
  refine reads_acceptAny.bind fun us o k => ?_
  cases o with
  | none =>
    refine .pure ?_
    rintro rest ⟨rfl, rfl, -⟩ h us hleft
    simpa using hleft
  | some operator =>
    refine (ih.operation k level.tighter).bind fun vs right k' => ?_
    refine (ih.operations k' level _).mono ?_
    rintro ts e j rest loop hright ⟨rfl, rfl, kind⟩ h us hleft
    have := loop h (us ++ operator :: vs)
      (.binary (binary?_levelRule level) hleft kind hright)
    simpa using this

theorem reads_unary (i : NodeId) :
    Reads i (unary (n + 1)) fun ts e j _ => Derives .unary i ts e j := by
  rw [Parser.unary]
  refine reads_acceptAny.bind fun us o k => ?_
  cases o with
  | none =>
    refine (ih.call k).mono ?_
    rintro ts e j rest hcall ⟨rfl, rfl, -⟩
    exact .operatorless hcall
  | some operator =>
    refine (ih.unary k).bind fun vs right k' => .pure ?_
    rintro rest hright ⟨rfl, rfl, kind⟩
    simpa using Derives.unary (by simpa using kind) hright

theorem reads_call (i : NodeId) :
    Reads i (call (n + 1)) fun ts e j _ => Derives .call i ts e j := by
  rw [Parser.call]
  refine (ih.primary i).bind fun us callee k => ?_
  exact (ih.calls k callee).mono fun ts e j rest loop hcallee => loop i us (.atom hcallee)

theorem reads_calls (i : NodeId) (callee : Expr) :
    Reads i (calls (n + 1) callee) fun ts e j _ =>
      ∀ h us, Derives .call h us callee i → Derives .call h (us ++ ts) e j := by
  rw [Parser.calls]
  refine reads_acceptAny.bind fun us o k => ?_
  cases o with
  | none =>
    refine .pure ?_
    rintro rest ⟨rfl, rfl, -⟩ h us hcallee
    simpa using hcallee
  | some mark =>
    dsimp only
    split
    · next isDot =>
      refine reads_expect.bind fun vs name k' => ?_
      refine (ih.calls k' (.get callee name)).mono ?_
      rintro ts e j rest loop ⟨rfl, identifier, rfl⟩ ⟨rfl, rfl, -⟩ h us hcallee
      simpa using loop h (us ++ [mark, name]) (.get hcallee isDot identifier)
    · next notDot =>
      refine (ih.arguments k).bind fun vs values k' => ?_
      refine reads_expect.bind fun ws paren k'' => ?_
      refine (ih.calls k'' (.call callee paren values)).mono ?_
      rintro ts e j rest loop ⟨rfl, closing, rfl⟩ hvalues ⟨rfl, rfl, kinds⟩ h us hcallee
      have opening : mark.kind = .leftParen := by simpa [notDot] using kinds
      simpa using loop h (us ++ mark :: (vs ++ [paren])) (.call hcallee opening hvalues closing)

theorem reads_arguments (i : NodeId) :
    Reads i (arguments (n + 1)) fun ts es j _ => Arguments i ts es j := by
  rw [Parser.arguments]
  refine reads_check.bind fun us closed k => ?_
  split
  · refine .pure ?_
    rintro rest ⟨rfl, rfl, -⟩
    exact .none
  · refine (ih.moreArguments k []).mono ?_
    rintro ts es j rest ⟨more, rfl, hs, short⟩ ⟨rfl, rfl, -⟩
    simpa using Arguments.some hs (by simpa using short)

theorem reads_argumentAndMore (i : NodeId) (done : List Expr) :
    Reads i
      (do
        let value ← assignment n
        match ← accept .comma with
        | none => pure (value :: done).reverse
        | some _ => moreArguments n (value :: done))
      fun ts es j _ => done.length < listLimit →
        ∃ more, es = done.reverse ++ more ∧ Assignments i ts more j ∧
          done.length + more.length ≤ listLimit := by
  refine (ih.assignment i).bind fun us value k => ?_
  refine reads_accept.bind fun vs o k' => ?_
  cases o with
  | none =>
    refine .pure ?_
    rintro rest ⟨rfl, rfl, -⟩ hvalue short
    exact ⟨[value], by simp, by simpa using Assignments.one hvalue, short⟩
  | some comma =>
    refine (ih.moreArguments k' (value :: done)).mono ?_
    rintro ts es j rest ⟨more, rfl, hs, short⟩ ⟨rfl, rfl, kind⟩ hvalue -
    refine ⟨value :: more, by simp, .more hvalue kind hs, ?_⟩
    simp only [List.length_cons] at short ⊢
    omega

theorem reads_moreArguments (i : NodeId) (done : List Expr) :
    Reads i (moreArguments (n + 1) done) fun ts es j _ =>
      ∃ more, es = done.reverse ++ more ∧ Assignments i ts more j ∧
        done.length + more.length ≤ listLimit := by
  rw [Parser.moreArguments]
  split
  · refine reads_peek.bind fun _ t k => ?_
    refine (reads_report (Q := fun _ _ _ _ => False)).bind fun _ _ k => ?_
    refine (reads_argumentAndMore ih k done).mono ?_
    exact fun _ _ _ _ _ impossible => impossible.elim
  · next room =>
    refine (reads_argumentAndMore ih i done).mono fun ts es j rest more => more ?_
    simpa [maxArity, listLimit] using room

theorem reads_primary (i : NodeId) :
    Reads i (primary (n + 1)) fun ts e j _ => Derives .primary i ts e j := by
  rw [Parser.primary]
  refine .peeking (fun t => ?_) fun t eof => ?_
  · split
    · next kind => exact .advance (.pure fun rest => .constant (by simp [constant?, kind]))
    · next kind => exact .advance (.pure fun rest => .constant (by simp [constant?, kind]))
    · next kind => exact .advance (.pure fun rest => .constant (by simp [constant?, kind]))
    · next kind =>
      refine .advance ?_
      split
      · next lit => exact .pure fun rest => .constant (by simp [constant?, kind, lit])
      · next lit => exact .pure fun rest => .constant (by simp [constant?, kind, lit])
      · exact .throw
    · next kind =>
      refine .advance ?_
      split
      · next lit => exact .pure fun rest => .constant (by simp [constant?, kind, lit])
      · next lit => exact .pure fun rest => .constant (by simp [constant?, kind, lit])
      · exact .throw
    · next kind =>
      refine .advance (reads_expect.bind fun us dot k => ?_)
      refine reads_expect.bind fun vs method k' => reads_fresh.bind fun ws id k'' => .pure ?_
      rintro rest ⟨rfl, rfl, rfl⟩ ⟨rfl, identifier, rfl⟩ ⟨rfl, isDot, rfl⟩
      exact .super kind isDot identifier
    · next kind =>
      refine .advance (reads_fresh.bind fun us id k => .pure ?_)
      rintro rest ⟨rfl, rfl, rfl⟩
      exact .this kind
    · next kind =>
      refine .advance (reads_fresh.bind fun us id k => .pure ?_)
      rintro rest ⟨rfl, rfl, rfl⟩
      exact .name kind
    · next kind =>
      refine .advance ((ih.expression i).bind fun us inner k => ?_)
      refine reads_expect.bind fun vs closing k' => .pure ?_
      rintro rest ⟨rfl, isClosing, rfl⟩ hinner
      simpa using Derives.grouping kind hinner isClosing
    · exact reads_stop.at
  · rw [eof]
    exact reads_stop

end Step

theorem readsExpr (n : Nat) : ReadsExpr n := by
  induction n with
  | zero => constructor <;> intros <;> exact reads_stop
  | succ n ih =>
    exact ⟨reads_expression ih, reads_items ih, reads_assignment ih, reads_operation ih,
      reads_operations ih, reads_unary ih, reads_call ih, reads_calls ih, reads_arguments ih,
      reads_moreArguments ih, reads_primary ih⟩

end Treewalk.Grammar
