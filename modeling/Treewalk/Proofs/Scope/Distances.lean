import Treewalk.Proofs.Scope.Resolved
import Treewalk.Run.Machine

/-!
# The distances of a program that resolved

Where every use has a number of its own, the table holds the distance of each use of the program,
and it holds none for a use of a global.
-/

namespace Treewalk

namespace Distances

/-- The table with more distances in it; of two for one number the later one counts. -/
def addAll (table : Distances) (found : List (NodeId × Nat)) : Distances :=
  found.foldl (fun t p => t.insert p.1 p.2) table

theorem get?_insert (table : Distances) (id other : NodeId) (d : Nat) :
    (table.insert id d).get? other = if other = id then some d else table.get? other := by
  show (table.insert id d)[other]? = _
  rw [Std.TreeMap.getElem?_insert]
  by_cases same : other = id
  · rw [if_pos same, if_pos (Nat.compare_eq_eq.2 same.symm)]
  · rw [if_neg same, if_neg fun h => same (Nat.compare_eq_eq.1 h).symm]
    rfl

theorem get?_addAll_of_not_mem {table : Distances} {found : List (NodeId × Nat)} {id : NodeId}
    (new : id ∉ found.map (·.1)) : (table.addAll found).get? id = table.get? id := by
  induction found generalizing table with
  | nil => rfl
  | cons p rest ih =>
    simp only [List.map_cons, List.mem_cons, not_or] at new
    rw [addAll, List.foldl_cons]
    exact (ih new.2).trans (by rw [get?_insert, if_neg new.1])

/-- Distances for numbers that have none, and each for another number, stand beside those that are
there. -/
theorem get?_addAll {table : Distances} {found : List (NodeId × Nat)}
    (unique : (found.map (·.1)).Nodup) (new : ∀ id ∈ found.map (·.1), table.get? id = none)
    (id : NodeId) (d : Nat) :
    (table.addAll found).get? id = some d ↔ table.get? id = some d ∨ (id, d) ∈ found := by
  induction found generalizing table with
  | nil => exact (or_iff_left List.not_mem_nil).symm
  | cons p rest ih =>
    obtain ⟨key, n⟩ := p
    obtain ⟨other, unique⟩ := List.nodup_cons.1 unique
    have vacant : table.get? key = none := new key (.head _)
    have new' : ∀ id ∈ rest.map (·.1), (table.insert key n).get? id = none := by
      intro id member
      rw [get?_insert, if_neg fun same : id = key => other (same ▸ member)]
      exact new id (.tail _ member)
    refine (ih unique new').trans ?_
    rw [get?_insert, List.mem_cons, Prod.mk.injEq]
    by_cases same : id = key
    · rw [if_pos same, same, vacant, Option.some.injEq, eq_comm, eq_self, true_and,
        or_iff_right (a := none = some d) nofun]
    · rw [if_neg same, eq_false same, false_and, false_or]

/-- The distance of a use, if no other use has its number. -/
theorem get?_addAll_use {table : Distances} {os : List Occurrence}
    (unique : (os.filterMap Occurrence.id?).Nodup)
    (new : ∀ id ∈ os.filterMap Occurrence.id?, table.get? id = none) {role : Role}
    {ref : Variable} {c : Context} (member : ⟨.use role ref, c⟩ ∈ os) :
    (table.addAll (os.filterMap Occurrence.distance?)).get? ref.id =
      c.distance? ref.name.lexeme := by
  induction os generalizing table with
  | nil => cases member
  | cons o os ih =>
    obtain ⟨mention, c'⟩ := o
    cases mention with
    | declare name =>
      rcases List.mem_cons.1 member with same | member
      · cases same
      · exact ih unique new member
    | use role' ref' =>
      have unique' : ref'.id ∉ os.filterMap Occurrence.id? ∧ (os.filterMap Occurrence.id?).Nodup :=
        List.nodup_cons.1 unique
      have keys : ref'.id ∉ (os.filterMap Occurrence.distance?).map (·.1) := fun h => by
        obtain ⟨p, hp, same⟩ := List.mem_map.1 h
        obtain ⟨⟨mention, d⟩, ho, hd⟩ := List.mem_filterMap.1 hp
        cases mention with
        | declare name => cases hd
        | use role'' ref'' =>
          obtain ⟨n, -, rfl⟩ := Option.map_eq_some_iff.1 hd
          exact unique'.1 (List.mem_filterMap.2 ⟨_, ho, congrArg some same⟩)
      rw [List.filterMap_cons, Occurrence.distance?]
      rcases List.mem_cons.1 member with same | member
      · cases same
        cases found : c.distance? ref.name.lexeme with
        | none => exact (get?_addAll_of_not_mem keys).trans (new _ (.head _))
        | some n =>
          refine (get?_addAll_of_not_mem keys).trans ?_
          rw [get?_insert, if_pos rfl]
      · cases c'.distance? ref'.name.lexeme with
        | none => exact ih unique'.2 (fun id h => new id (.tail _ h)) member
        | some n =>
          refine ih unique'.2 (fun id h => ?_) member
          rw [get?_insert, if_neg fun same : id = ref'.id => unique'.1 (same ▸ h)]
          exact new id (.tail _ h)

end Distances

end Treewalk
