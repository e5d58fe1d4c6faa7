import Treewalk.Proofs.Scope.Resolved
import Treewalk.Run.Evaluate

/-!
# No `return` outside of a function

Resolution leaves no `return` at the top level, and a statement without one ends normally or not at
all.
-/

namespace Treewalk

open Resolution Run

mutual

/-- The statement holds no `return` but those inside of functions. -/
def Stmt.Stays : Stmt → Prop
  | .block body => Stmt.AllStay body
  | .branch _ thenBranch none => thenBranch.Stays
  | .branch _ thenBranch (some elseBranch) => thenBranch.Stays ∧ elseBranch.Stays
  | .ret _ _ => False
  | .loop _ body => body.Stays
  | .classDecl _ _ _ | .expression _ | .function _ | .print _ | .var _ | .varList _ => True

def Stmt.AllStay : List Stmt → Prop
  | [] => True
  | s :: rest => s.Stays ∧ Stmt.AllStay rest

end

mutual

theorem Stmt.stays_of_resolve : (s : Stmt) → ∀ {surroundings scopes},
    surroundings.inFunction = .none → Clean (s.resolve surroundings scopes).1 → s.Stays
  | .block body, _, _, top, clean => by
    rw [Stmt.Stays]
    exact Stmt.allStay_of_resolveAll body top clean
  | .branch condition thenBranch none, _, _, top, clean => by
    rw [Stmt.resolve] at clean
    rw [Stmt.Stays]
    exact thenBranch.stays_of_resolve top (clean_append.1 clean).2
  | .branch condition thenBranch (some elseBranch), _, _, top, clean => by
    rw [Stmt.resolve] at clean
    rw [Stmt.Stays]
    obtain ⟨before, cleanElse⟩ := clean_append.1 clean
    exact ⟨thenBranch.stays_of_resolve top (clean_append.1 before).2,
      elseBranch.stays_of_resolve top cleanElse⟩
  | .ret keyword none, _, _, top, clean => by
    rw [Stmt.resolve, if_pos top] at clean
    exact (not_clean_fault _ _ clean).elim
  | .ret keyword (some value), _, _, top, clean => by
    rw [Stmt.resolve, if_pos top] at clean
    exact (not_clean_fault _ _ (clean_append.1 (clean_append.1 clean).1).1).elim
  | .loop condition body, _, _, top, clean => by
    rw [Stmt.resolve] at clean
    rw [Stmt.Stays]
    exact body.stays_of_resolve top (clean_append.1 clean).2
  | .classDecl _ _ _, _, _, _, _ | .expression _, _, _, _, _ | .function _, _, _, _, _
  | .print _, _, _, _, _ | .var _, _, _, _, _ | .varList _, _, _, _, _ => by
    rw [Stmt.Stays]
    trivial

theorem Stmt.allStay_of_resolveAll : (body : List Stmt) → ∀ {surroundings scopes},
    surroundings.inFunction = .none → Clean (Stmt.resolveAll surroundings scopes body) →
    Stmt.AllStay body
  | [], _, _, _, _ => by
    rw [Stmt.AllStay]
    trivial
  | s :: rest, _, _, top, clean => by
    rw [Stmt.resolveAll] at clean
    rw [Stmt.AllStay]
    obtain ⟨cleanFirst, cleanRest⟩ := clean_append.1 clean
    exact ⟨s.stays_of_resolve top cleanFirst, Stmt.allStay_of_resolveAll rest top cleanRest⟩

end

theorem Stmt.stays_of_mem {body : List Stmt} {s : Stmt} (h : Stmt.AllStay body)
    (member : s ∈ body) : s.Stays := by
  induction body with
  | nil => cases member
  | cons first rest ih =>
    rw [Stmt.AllStay] at h
    rcases List.mem_cons.1 member with rfl | member
    · exact h.1
    · exact ih h.2 member

/-- A program that resolves returns from nowhere but its functions. -/
theorem stays_of_resolve {program : List Stmt} {distances : List (NodeId × Nat)} {s : Stmt}
    (h : resolve program = .ok distances) (member : s ∈ program) : s.Stays :=
  Stmt.stays_of_mem (Stmt.allStay_of_resolveAll program rfl (clean_of_resolve h)) member

/-- A run that ends normally if it ends at all. -/
def Normal (p : Run Flow) : Prop := ∀ m flow m', p m = .ok flow m' → flow = .normal

theorem Normal.bind {α : Type} {p : Run α} {f : α → Run Flow} (h : ∀ a, Normal (f a)) :
    Normal (p >>= f) := by
  intro m flow m' ran
  have ran : EStateM.bind p f m = .ok flow m' := ran
  unfold EStateM.bind at ran
  split at ran
  · next a s first => exact h a s flow m' ran
  · cases ran

theorem Normal.pure : Normal (pure .normal) := by
  intro m flow m' ran
  cases ran
  rfl

theorem Normal.throw (e : Stop) : Normal (throw e) := fun _ _ _ ran => by cases ran

theorem Normal.inFrame {p : Run Flow} (h : Normal p) (f : FrameId) : Normal (inFrame f p) := by
  intro m flow m' ran
  unfold Run.inFrame at ran
  dsimp only at ran
  split at ran
  · next a s first =>
    cases ran
    exact h _ _ _ first
  · cases ran

theorem Normal.inOrder {α : Type} {step : α → Run Flow} {xs : List α}
    (h : ∀ x ∈ xs, Normal (step x)) : Normal (inOrder step xs) := by
  induction xs with
  | nil => exact .pure
  | cons x xs ih =>
    intro m flow m' ran
    have ran : EStateM.bind (step x) _ m = .ok flow m' := ran
    unfold EStateM.bind at ran
    split at ran
    · next a s first =>
      obtain rfl := h x (.head _) m a s first
      exact ih (fun y member => h y (.tail _ member)) s flow m' ran
    · cases ran

theorem declareVariable_normal (n : Nat) (decl : VarDecl) : Normal (declareVariable n decl) := by
  cases n with
  | zero => exact .throw _
  | succ n =>
    rw [declareVariable]
    split <;> exact .bind fun value => .bind fun _ => .pure

theorem runs_normal (n : Nat) : (∀ s : Stmt, s.Stays → Normal (execute n s)) ∧
    ∀ condition body, body.Stays → Normal (repeatWhile n condition body) := by
  induction n with
  | zero => exact ⟨fun _ _ => .throw _, fun _ _ _ => .throw _⟩
  | succ n ih =>
    refine ⟨fun s stays => ?_, fun condition body stays => ?_⟩
    · cases s with
      | block body =>
        rw [Stmt.Stays] at stays
        rw [execute]
        exact .bind fun _ => .bind fun f =>
          .inFrame (.inOrder fun s member => ih.1 s (Stmt.stays_of_mem stays member)) f
      | branch condition thenBranch elseBranch =>
        cases elseBranch with
        | none =>
          rw [Stmt.Stays] at stays
          rw [execute]
          refine .bind fun value => ?_
          split
          · exact ih.1 _ stays
          · exact .pure
        | some elseBranch =>
          rw [Stmt.Stays] at stays
          rw [execute]
          refine .bind fun value => ?_
          split
          · exact ih.1 _ stays.1
          · exact ih.1 _ stays.2
      | ret keyword value =>
        rw [Stmt.Stays] at stays
        exact stays.elim
      | loop condition body =>
        rw [Stmt.Stays] at stays
        rw [execute]
        exact ih.2 condition body stays
      | var decl => exact declareVariable_normal n decl
      | varList decls => exact .inOrder fun decl _ => declareVariable_normal n decl
      | classDecl _ _ _ | expression _ =>
        rw [execute]
        exact .bind fun _ => .pure
      | print value =>
        rw [execute]
        exact .bind fun _ => .bind fun _ => .pure
      | function decl =>
        rw [execute]
        exact .bind fun _ => .bind fun _ => .bind fun _ => .pure
    · rw [repeatWhile]
      refine .bind fun value => ?_
      split
      · intro m flow m' ran
        have ran : EStateM.bind (execute n body) _ m = .ok flow m' := ran
        unfold EStateM.bind at ran
        split at ran
        · next a s first =>
          obtain rfl := ih.1 body stays m a s first
          exact ih.2 condition body stays s flow m' ran
        · cases ran
      · exact .pure

/-- A statement of a program that resolves does not return. -/
theorem execute_ne_returned {program : List Stmt} {distances : List (NodeId × Nat)} {s : Stmt}
    (h : resolve program = .ok distances) (member : s ∈ program) (steps : Nat) (m m' : Machine)
    (value : Value) : execute steps s m ≠ .ok (.returned value) m' := by
  intro ran
  cases (runs_normal steps).1 s (stays_of_resolve h member) m _ m' ran

end Treewalk
