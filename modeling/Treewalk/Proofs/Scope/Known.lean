import Treewalk.Proofs.Scope.Accepted

/-!
# The programs of a session

A session runs one accepted program after the other, and adds the distances of each to one table.
The numbers of the programs do not meet, so the table stays right about all of them.
-/

namespace Treewalk

/-- What holds of an occurrence in one of these programs, whose distances are in the table. -/
structure Occurrence.Known (programs : List (List Stmt)) (table : Distances) (o : Occurrence) :
    Prop where
  member : ∃ program ∈ programs, o ∈ occurrences program
  admissible : o.Admissible
  lexed : o.mention.Lexed
  distance : ∀ role ref, o.mention = .use role ref →
    table.get? ref.id = o.context.distance? ref.name.lexeme

/-- These programs were accepted one after the other, with all numbers below `next`. -/
structure Loaded (next : NodeId) (programs : List (List Stmt)) (table : Distances) : Prop where
  known : ∀ program ∈ programs, ∀ o ∈ occurrences program, o.Known programs table
  resolved : ∀ program ∈ programs, ∃ distances, resolve program = .ok distances
  old : ∀ program ∈ programs, ∀ id ∈ (occurrences program).filterMap Occurrence.id?, id < next
  new : ∀ id, next ≤ id → table.get? id = none

theorem Loaded.start : Loaded 0 [] ∅ where
  known := List.forall_mem_nil _
  resolved := List.forall_mem_nil _
  old := List.forall_mem_nil _
  new _ _ := rfl

/-- A use that has a distance has it for its number. -/
theorem Occurrence.keys_sublist (os : List Occurrence) :
    ((os.filterMap Occurrence.distance?).map (·.1)).Sublist (os.filterMap Occurrence.id?) := by
  induction os with
  | nil => exact .slnil
  | cons o rest ih =>
    obtain ⟨mention, c⟩ := o
    cases mention with
    | declare name => exact ih
    | use role ref =>
      rw [List.filterMap_cons, List.filterMap_cons, Occurrence.distance?, Occurrence.id?]
      cases c.distance? ref.name.lexeme with
      | none => exact ih.cons _
      | some n => exact ih.cons_cons _

namespace Accepted

variable {first next : NodeId} {c : Compiled} (h : Accepted first c next)
include h

/-- The distances that a program brings along are those of its own numbers. -/
theorem mem_keys {id : NodeId} (found : id ∈ c.distances.map (·.1)) : first ≤ id ∧ id < next := by
  rw [h.distances_eq] at found
  exact h.mem_range ((Occurrence.keys_sublist _).subset found)

/-- No two of them are for one number. -/
theorem nodup_keys : (c.distances.map (·.1)).Nodup := by
  rw [h.distances_eq]
  exact h.unique.sublist (Occurrence.keys_sublist _)

end Accepted

namespace Loaded

variable {next next' : NodeId} {programs : List (List Stmt)} {table : Distances} {c : Compiled}

theorem later (h : Loaded next programs table) (le : next ≤ next') :
    Loaded next' programs table where
  known := h.known
  resolved := h.resolved
  old program member id named := Nat.lt_of_lt_of_le (h.old program member id named) le
  new id above := h.new id (Nat.le_trans le above)

/-- What is known of an occurrence stays true when another program is loaded. -/
theorem knows (h : Loaded next programs table) (accepted : Accepted next c next')
    {o : Occurrence} (known : o.Known programs table) :
    o.Known (c.program :: programs) (table.addAll c.distances) where
  member := by
    obtain ⟨program, member, occurs⟩ := known.member
    exact ⟨program, .tail _ member, occurs⟩
  admissible := known.admissible
  lexed := known.lexed
  distance role ref same := by
    obtain ⟨program, member, occurs⟩ := known.member
    obtain ⟨mention, context⟩ := o
    obtain rfl : mention = .use role ref := same
    rw [← known.distance role ref rfl]
    refine Distances.get?_addAll_of_not_mem fun found => ?_
    have below := h.old program member ref.id (List.mem_filterMap.2 ⟨_, occurs, rfl⟩)
    exact Nat.lt_irrefl _ (Nat.lt_of_lt_of_le below (accepted.mem_keys found).1)

/-- The occurrences of the program that is loaded are known. -/
theorem knows_new (h : Loaded next programs table) (accepted : Accepted next c next')
    {o : Occurrence} (occurs : o ∈ occurrences c.program) :
    o.Known (c.program :: programs) (table.addAll c.distances) where
  member := ⟨c.program, .head _, occurs⟩
  admissible := accepted.admissible o occurs
  lexed := accepted.lexed o occurs
  distance role ref same := by
    obtain ⟨mention, context⟩ := o
    obtain rfl : mention = .use role ref := same
    rw [accepted.distances_eq]
    exact Distances.get?_addAll_use accepted.unique
      (fun id member => h.new id (accepted.mem_range member).1) occurs

theorem load (h : Loaded next programs table) (accepted : Accepted next c next') :
    Loaded next' (c.program :: programs) (table.addAll c.distances) where
  known program member o occurs := by
    rcases List.mem_cons.1 member with rfl | member
    · exact h.knows_new accepted occurs
    · exact h.knows accepted (h.known program member o occurs)
  resolved := List.forall_mem_cons.2 ⟨⟨c.distances, accepted.resolved⟩, h.resolved⟩
  old program member id named := by
    rcases List.mem_cons.1 member with rfl | member
    · exact (accepted.mem_range named).2
    · exact Nat.lt_of_lt_of_le (h.old program member id named) accepted.le
  new id above := by
    refine (Distances.get?_addAll_of_not_mem fun found => ?_).trans
      (h.new id (Nat.le_trans accepted.le above))
    exact Nat.lt_irrefl _ (Nat.lt_of_lt_of_le (accepted.mem_keys found).2 above)

end Loaded

end Treewalk
