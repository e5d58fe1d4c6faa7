import Treewalk.Proofs.Run.Carrier

/-!
# More steps

A run that does not use up its steps ends in the same way, on the same machine, if it is given more
of them.
-/

namespace Treewalk

open Run

/-- The run has used up its steps, or its end is that of the other one. -/
def EndsAs {α : Type} (p q : Run α) : Prop :=
  ∀ m, (∃ m', p m = .error .exhausted m') ∨ q m = p m

namespace EndsAs

variable {α β : Type} {p q : Run α}

theorem refl (p : Run α) : EndsAs p p := fun _ => .inr rfl

theorem exhausted (q : Run α) : EndsAs (throw .exhausted) q := fun m => .inl ⟨m, rfl⟩

theorem bind {f g : α → Run β} (h : EndsAs p q) (next : ∀ a, EndsAs (f a) (g a)) :
    EndsAs (p >>= f) (q >>= g) := by
  intro m
  show (∃ m', EStateM.bind p f m = _) ∨ EStateM.bind q g m = EStateM.bind p f m
  unfold EStateM.bind
  rcases h m with ⟨m', stopped⟩ | same
  · rw [stopped]
    exact .inl ⟨m', rfl⟩
  · rw [same]
    cases p m with
    | ok a m' => exact next a m'
    | error e m' => exact .inr rfl

theorem inFrame (h : EndsAs p q) (f : FrameId) :
    EndsAs (Platform.machine.within f p) (Platform.machine.within f q) := by
  intro m
  rw [Platform.within_eq, Platform.within_eq]
  rcases h { m with env := f } with ⟨m', stopped⟩ | same
  · exact .inl ⟨_, congrArg _ stopped⟩
  · exact .inr (congrArg _ same)

theorem oneDeeper (h : EndsAs p q) (paren : Token) :
    EndsAs (oneDeeper paren p) (oneDeeper paren q) := by
  intro m
  cases limit : m.atDepthLimit with
  | true =>
    right
    rw [Run.oneDeeper, Run.oneDeeper, if_pos limit, if_pos limit]
  | false =>
    rw [oneDeeper_eq limit, oneDeeper_eq limit]
    rcases h { m with depth := m.depth + 1 } with ⟨m', stopped⟩ | same
    · exact .inl ⟨_, congrArg _ stopped⟩
    · exact .inr (congrArg _ same)

end EndsAs

def Congruence.moreSteps (more : Nat) : Congruence .machine .machine where
  more := more
  rel := EndsAs
  exhausted q _ := .exhausted q
  lift _ _ := .refl _
  write _ := .refl _
  bind := .bind
  within := .inFrame
  oneDeeper := .oneDeeper

/-- A batch that does not use up its steps ends in the same way with more of them. -/
theorem interpret_add (steps more : Nat) (found : List (NodeId × Nat)) (program : List Stmt)
    (m : Machine) : (∃ m', interpret steps found program m = .error .exhausted m') ∨
      interpret (steps + more) found program m = interpret steps found program m := by
  rw [Platform.interpret_machine, Platform.interpret_machine]
  unfold Platform.interpret
  have ran : EndsAs (Platform.machine.executeAll steps program)
      (Platform.machine.executeAll (steps + more) program) :=
    (Congruence.moreSteps more).executeAll steps program
  rcases ran (m.addDistances found) with ⟨m', stopped⟩ | same
  · left
    rw [stopped]
    exact ⟨m', rfl⟩
  · right
    rw [same]

/-- The same of a batch of source in a session. -/
theorem Session.run_add (steps more : Nat) (s : Session) (source : List UInt8) :
    (s.run steps source).1 = .error (.stopped .exhausted) ∨
      s.run (steps + more) source = s.run steps source := by
  unfold Session.run
  rcases compile source s.nextId with ⟨_ | c, next⟩
  · exact .inr rfl
  · dsimp only [Session.perform]
    rcases interpret_add steps more c.distances c.program s.machine with ⟨m', stopped⟩ | same
    · rw [stopped]
      exact .inl rfl
    · rw [same]
      exact .inr rfl

end Treewalk
