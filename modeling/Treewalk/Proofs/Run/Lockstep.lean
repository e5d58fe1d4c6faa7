import Treewalk.Proofs.Run.Engine
import Treewalk.Proofs.Run.Simulation
import Treewalk.Proofs.Scope.Known

/-!
# Sessions in step

If two platforms stay in step with whatever programs are loaded, and loading one more keeps them in
step, then whole sessions on them are in step: the same results, batch by batch.
-/

namespace Treewalk

/-- A run that stops in this way stops for another reason than a missing scope. -/
def Stop.Resolved (e : Stop) : Prop := ∀ cause line, e = .fault ⟨cause, line⟩ → ¬ cause.Unresolved

/-- Two engines that stay in step, batch by batch. -/
structure Lockstep (H K : Engine) where
  between : List (List Stmt) → Distances → Correspondence H.toPlatform K.toPlatform
  simulation : ∀ programs table, Simulation (between programs table)
  relabel : ∀ programs table, (between programs table).relabel = .identity
  allowed : ∀ {programs table o}, o.Known programs table → (between programs table).allowed o
  named : ∀ programs table name, (between programs table).named name
  stop : ∀ {programs table e e'}, (between programs table).stop e e' → e = e' ∧ e.Resolved
  load : ∀ {next next' programs table c w s t}, Loaded next programs table →
    Accepted next c next' → (between programs table).heap w s t →
    (between programs table).scope w [] (H.env s) (K.env t) →
    ∃ w', (between (c.program :: programs) (table.addAll c.distances)).heap w' (H.load c s)
        (K.load c t) ∧
      (between (c.program :: programs) (table.addAll c.distances)).scope w' []
        (H.env (H.load c s)) (K.env (K.load c t))

namespace Lockstep

variable {H K : Engine} (L : Lockstep H K)

/-- Two sessions between batches. -/
structure Between (s : H.Session) (t : K.Session) (programs : List (List Stmt))
    (table : Distances) : Prop where
  nextId : s.nextId = t.nextId
  loaded : Loaded s.nextId programs table
  states : ∃ w, (L.between programs table).heap w s.state t.state ∧
    (L.between programs table).scope w [] (H.env s.state) (K.env t.state)

/-- The result of a batch that was not stopped by a missing scope. -/
def Sound (result : Except Failure Unit) : Prop :=
  ∀ d, result = .error (.stopped d) → ∃ e : Stop, e.Resolved ∧ d = e.diagnostic

theorem sound_ok : Sound (.ok ()) := fun _ same => by cases same

theorem sound_rejected (diagnostics : List Diagnostic) : Sound (.error (.rejected diagnostics)) :=
  fun _ same => by cases same

variable {L} {s : H.Session} {t : K.Session} {programs : List (List Stmt)} {table : Distances}

theorem Between.run (h : L.Between s t programs table) (steps : Nat) (source : List UInt8) :
    (s.run steps source).1 = (t.run steps source).1 ∧ Sound (s.run steps source).1 ∧
      ∃ programs table, L.Between (s.run steps source).2 (t.run steps source).2 programs table := by
  obtain ⟨state, nextId⟩ := s
  obtain ⟨state', _⟩ := t
  obtain ⟨rfl, loaded, w, heap, scope⟩ := h
  have le := compile_nextId source nextId
  simp only [Engine.Session.run]
  rcases compiled : compile source nextId with ⟨_ | c, next⟩
  · rw [compiled] at le
    exact ⟨rfl, sound_rejected _, programs, table, rfl, loaded.later le, w, heap, scope⟩
  · have accepted := accepted_of_compile compiled
    obtain ⟨w', heap, scope⟩ := L.load loaded accepted heap scope
    have loaded := loaded.load accepted
    have fits : (L.between (c.program :: programs) (table.addAll c.distances)).AllFit []
        c.program :=
      ⟨Stmt.allTidy_of_regular [] _ accepted.regular fun _ _ name _ => L.named _ _ name,
        fun o member => L.allowed (loaded.known _ (.head _) o member)⟩
    have ends := (L.simulation _ _).rel_interpret steps c.program fits _ _ heap scope
    rw [L.relabel, ← Stmt.relabelAll_eq_map, Stmt.relabelAll_identity] at ends
    dsimp only
    match H.interpret steps c.program (H.load c state),
      K.interpret steps c.program (K.load c state'), ends with
    | .ok _ _, .ok _ _, ⟨w'', _, _, _, ⟨rfl, _⟩, heap', scope'⟩ =>
      exact ⟨rfl, sound_ok, _, _, rfl, loaded, w'', heap', scope'⟩
    | .error e _, .error e' _, ⟨stops, w'', c'', _, size, heap', scope'⟩ =>
      obtain rfl := List.length_eq_zero_iff.1 size
      obtain ⟨rfl, resolved⟩ := L.stop stops
      refine ⟨rfl, fun d same => ⟨e, resolved, ?_⟩, _, _, rfl, loaded, w'', heap', scope'⟩
      cases same
      rfl

theorem Between.runAll (h : L.Between s t programs table) (batches : List (Nat × List UInt8)) :
    (s.runAll batches).1 = (t.runAll batches).1 ∧ (∀ r ∈ (s.runAll batches).1, Sound r) ∧
      ∃ programs table, L.Between (s.runAll batches).2 (t.runAll batches).2 programs table := by
  induction batches generalizing s t programs table with
  | nil => exact ⟨rfl, List.forall_mem_nil _, programs, table, h⟩
  | cons batch rest ih =>
    obtain ⟨same, sound, programs', table', h'⟩ := h.run batch.1 batch.2
    obtain ⟨others, soundRest, after⟩ := ih h'
    exact ⟨by rw [Engine.Session.runAll, Engine.Session.runAll, same, others],
      List.forall_mem_cons.2 ⟨sound, soundRest⟩, after⟩

end Lockstep

end Treewalk
