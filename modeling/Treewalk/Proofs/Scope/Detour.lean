import Treewalk.Proofs.Scope.Renaming

/-!
# Renaming by way of a name that is used nowhere

The name of a variable is changed in two steps: to a name that nothing is called, and from there to
the wanted one. The second step finds every name where it was, and as nothing else has the name
between, it changes nothing but this program.
-/

namespace Treewalk

/-- Nothing that is mentioned, and nothing declared around a mention, has this name. -/
def Unused (z : String) (os : List Occurrence) : Prop :=
  ∀ o ∈ os, ∀ name ∈ o.mention.token.lexeme :: o.context.names, name ≠ z

variable {x y z v : String} {r : Relabel}

namespace Relabel

/-- The two steps together do what one step does. -/
theorem renaming_through {name : String} (other : name ≠ z) :
    (Relabel.renaming z v).name ((Relabel.renaming y z).name name) =
      (Relabel.renaming y v).name name := by
  by_cases new : name = y
  · simp only [Relabel.renaming, if_pos new, if_pos trivial]
  · simp only [Relabel.renaming, if_neg new, if_neg other]

/-- No two names that are not `z` become one name. -/
theorem renaming_injective {name other : String} (apart : name ≠ z) (apart' : other ≠ z)
    (same : (Relabel.renaming y z).name other = (Relabel.renaming y z).name name) :
    other = name := by
  simp only [Relabel.renaming] at same
  split at same
  · next first =>
    split at same
    · next second => rw [first, second]
    · exact absurd same.symm apart
  · split at same
    · exact absurd same apart'
    · exact same

/-- What the one step finds the second of the two steps finds. -/
theorem Keeps.through {o : Occurrence} (keeps : (Relabel.renaming y v).Keeps o)
    (bound : (Relabel.renaming y x).Keeps o) (other : x ≠ y)
    (unused : ∀ name ∈ o.mention.token.lexeme :: o.context.names, name ≠ z) :
    (Relabel.renaming z v).Keeps (o.relabel (.renaming y z)) := by
  obtain ⟨mention, c⟩ := o
  have kept : ∀ {name : String}, (Relabel.renaming y x).name name = name →
      (Relabel.renaming y z).name name = name := by
    intro name same
    refine if_neg fun new => ?_
    rw [new] at same
    exact other ((if_pos rfl).symm.trans same)
  obtain ⟨named, around⟩ := List.forall_mem_cons.1 unused
  have finds : ∀ {name : String}, name ≠ z → (Relabel.renaming y v).Finds c.names name →
      (Relabel.renaming y x).Finds c.names name →
      (Relabel.renaming z v).Finds (c.relabel (.renaming y z)).names
        ((Relabel.renaming y z).name name) := by
    intro name apart found found'
    rw [Context.names_relabel]
    refine found.second (fun other listed => renaming_through ?_)
      (fun other listed => renaming_injective apart (around other listed))
      (fun missing => kept (found'.global missing))
    rcases List.mem_cons.1 listed with rfl | listed
    · exact apart
    · exact around other listed
  cases mention with
  | use role ref =>
    cases role with
    | read | write => exact finds named keeps bound
    | this | super => trivial
  | declare name =>
    intro top
    have outermost : c = [] := List.map_eq_nil_iff.1 top
    have same : (Relabel.renaming y z).name name.lexeme = name.lexeme := kept (bound outermost)
    show (Relabel.renaming z v).name ((Relabel.renaming y z).name name.lexeme) = _
    rw [same]
    exact (if_neg named).trans same.symm

/-- A change of a name to itself changes nothing. -/
theorem keeps_same (o : Occurrence) : (Relabel.renaming y y).Keeps o := by
  have same : ∀ name, (Relabel.renaming y y).name name = name := by
    intro name
    simp only [Relabel.renaming]
    split
    · next same => exact same.symm
    · rfl
  have finds : ∀ names name, (Relabel.renaming y y).Finds names name := fun names name =>
    ⟨idxOf_map fun other _ equal => by rwa [same, same] at equal, fun _ => same name⟩
  obtain ⟨mention, c⟩ := o
  cases mention with
  | use role ref =>
    cases role with
    | read | write => exact finds _ _
    | this | super => trivial
  | declare name => exact fun _ => same _

/-- A name that is not mentioned is not changed. -/
theorem Keeps.of_unused {o : Occurrence}
    (unused : ∀ name ∈ o.mention.token.lexeme :: o.context.names, name ≠ z) :
    (Relabel.renaming z v).Keeps o := by
  obtain ⟨mention, c⟩ := o
  obtain ⟨named, around⟩ := List.forall_mem_cons.1 unused
  have finds : ∀ {name : String}, name ≠ z → (Relabel.renaming z v).Finds c.names name := by
    intro name apart
    have same : (Relabel.renaming z v).name name = name := if_neg apart
    refine ⟨idxOf_map fun other listed equal => ?_, fun _ => same⟩
    rw [same] at equal
    exact (if_neg (around other listed)).symm.trans equal
  cases mention with
  | use role ref =>
    cases role with
    | read | write => exact finds named
    | this | super => trivial
  | declare name => exact fun _ => if_neg named

end Relabel

namespace Renames

variable {c : Compiled} {program' : List Stmt} {first next : NodeId}

/-- The program with a name in place of `y` that is used nowhere. -/
def through (y z : String) (program' : List Stmt) : List Stmt :=
  Stmt.relabelAll (.renaming y z) program'

/-- From there one step leads to the program with any name in place of `y`. -/
theorem relabelAll_through (unused : Unused z (occurrences program')) (v : String) :
    Stmt.relabelAll (.renaming z v) (through y z program') =
      Stmt.relabelAll (.renaming y v) program' := by
  rw [through, Stmt.relabelAll_relabelAll]
  refine Stmt.relabelAll_congr [] program' ⟨rfl, rfl, fun o member => ?_⟩
  exact Relabel.renaming_through (unused o member _ (.head _))

theorem relabelAll_same (y : String) (program' : List Stmt) :
    Stmt.relabelAll (.renaming y y) program' = program' := by
  have same : (Relabel.renaming y y).Same .identity (occurrences program') := by
    refine ⟨rfl, rfl, fun o _ => ?_⟩
    simp only [Relabel.renaming, Relabel.identity]
    split
    · next same => exact same.symm
    · rfl
  rw [Stmt.relabelAll_congr [] program' same, Stmt.relabelAll_identity]

variable (h : Renames x y c program') (accepted : Accepted first c next)
  (unused : Unused z (occurrences program')) (ordinary : Ordinary z)
  (old : Unused z (occurrences c.program))
include h accepted

theorem ne : x ≠ y := by
  obtain ⟨before, name, scope, outer, after, split, same, -⟩ := h.declaration
  have member : ⟨.declare name, scope :: outer⟩ ∈ occurrences program' := by
    rw [split]
    exact List.mem_append_right _ (.head _)
  have other := h.unused _ (h.occurs accepted member)
  have lexeme : (Relabel.renaming y x).name name.lexeme = x := by rw [same, renaming_self]
  exact fun equal => other (lexeme.trans equal)

include old in
/-- Functions and classes are not called `z`, if nothing in the old program is. -/
theorem tidy_through :
    Stmt.AllTidy (Relabel.renaming z v).Named (through y z program') := by
  rw [through, Stmt.allTidy_relabel]
  exact accepted.tidy_of_back h.back fun o occurs => if_neg (old o occurs _ (.head _))

theorem occurrences_through : occurrences (through y z program') =
    (occurrences program').map (Occurrence.relabel (.renaming y z)) := by
  refine Stmt.allOccurrences_relabel (Relabel.fixes_renaming h.ordinary z) [] program' ?_
  exact accepted.tidy_of_back h.back fun o occurs => if_neg (h.unused o occurs)

include unused in
/-- The names between are found where they were, also if the new name comes back. -/
theorem keeps_through {o : Occurrence} (member : o ∈ occurrences (through y z program'))
    (back : v = x ∨ v = y) : (Relabel.renaming z v).Keeps o := by
  rw [h.occurrences_through accepted] at member
  obtain ⟨o, occurs, rfl⟩ := List.mem_map.1 member
  have bound := h.keeps accepted occurs
  refine Relabel.Keeps.through ?_ bound (h.ne accepted) (unused o occurs)
  rcases back with rfl | rfl
  · exact bound
  · exact Relabel.keeps_same o

include ordinary in
theorem lexed_through {o : Occurrence} (member : o ∈ occurrences (through y z program')) :
    o.mention.Lexed := by
  rw [h.occurrences_through accepted] at member
  obtain ⟨⟨mention, context⟩, occurs, rfl⟩ := List.mem_map.1 member
  have lexed := h.lexed accepted occurs
  have named : ∀ {name : String}, Ordinary name → Ordinary ((Relabel.renaming y z).name name) := by
    intro name was
    simp only [Relabel.renaming]
    split
    · exact ordinary
    · exact was
  cases mention with
  | declare name => exact named lexed
  | use role ref =>
    cases role with
    | read | write => exact named lexed
    | this | super => exact lexed

include unused ordinary old in
/-- The program between resolves, too. -/
theorem admissible_through {o : Occurrence} (member : o ∈ occurrences (through y z program')) :
    o.Admissible := by
  have tidy := h.tidy_through accepted (v := x) old
  have resolved := accepted.resolved
  rw [← h.back, ← relabelAll_through unused x] at resolved
  obtain ⟨distances, resolved⟩ :=
    resolve_of_relabel (Relabel.fixes_renaming ordinary x) tidy resolved
  exact (resolve_eq_ok resolved (Stmt.allRegular_of_tidy _ tidy)
    fun o => h.lexed_through accepted ordinary).2 o member

end Renames

end Treewalk
