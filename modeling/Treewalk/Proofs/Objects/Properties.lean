import Treewalk.Proofs.Objects.Receivers

/-!
# What a property is

A property of an instance is what was stored there last, or else the method that the nearest class
declares under the name. Classes never change once they are made, and each was made later than its
superclass; so the search for a method ends, and it ends in the same way for the rest of a session.
-/

namespace Treewalk

open Run

/-- The class inherits from the other one. -/
def Store.Inherits (s : Store) (c above : ClassId) : Prop :=
  ∃ cls, s.classes[c]? = some cls ∧ cls.superclass = some above

/-- The two instances differ in what this name is bound to, if they differ at all. -/
structure Instance.StoresAs (x y : Instance) (name : String) (value : Value) : Prop where
  ofClass : y.ofClass = x.ofClass
  fields : ∀ other, y.fields.get? other = if other = name then some value else x.fields.get? other

/-- The machine changed in one field of one instance only. -/
structure Machine.StoresIn (i : InstanceId) (name : String) (value : Value) (m m' : Machine) :
    Prop where
  rest : m' = { m with store := { m.store with instances := m'.store.instances } }
  stored : ∀ x, m.store.instances[i]? = some x →
    ∃ y, m'.store.instances[i]? = some y ∧ x.StoresAs y name value
  others : ∀ j, j ≠ i → m'.store.instances[j]? = m.store.instances[j]?

theorem Run.setField_storesIn (i : InstanceId) (name : String) (value : Value) (m : Machine) :
    ∃ m', setField i name value m = .ok () m' ∧ m.StoresIn i name value m' := by
  refine ⟨_, rfl, rfl, fun x there => ?_, fun j other => ?_⟩
  · simp only [Store.setField, Array.getElem?_modify, if_true, there, Option.map_some]
    exact ⟨_, rfl, rfl, fun other => Bindings.get?_put ..⟩
  · simp only [Store.setField, Array.getElem?_modify, if_neg (Ne.symm other)]

namespace Ledger.Sound

variable {l : Ledger} (h : l.Sound)
include h

/-- A class only inherits from one that was made before. -/
theorem inherits_lt {c above : ClassId} (inherits : l.store.Inherits c above) : above < c := by
  obtain ⟨cls, found, superclass⟩ := inherits
  obtain ⟨d, declared, made⟩ := h.tells.declared found
  exact h.descends c d above declared (made.superclass.symm.trans superclass)

theorem wellFounded_inherits : WellFounded fun above c => l.store.Inherits c above :=
  Subrelation.wf h.inherits_lt Nat.lt_wfRel.wf

/-- However far a search may go beyond all older classes, it comes to the method of the nearest
ancestor. -/
theorem search_ends {c : ClassId} (known : c < l.store.classes.size) (name : String) :
    ∃ found, l.history.Nearest name c found ∧
      ∀ steps, c < steps → l.store.searchMethod name steps c = found.map (·.closure) := by
  rw [← h.tells.declarations] at known
  obtain ⟨found, nearest, ends⟩ := h.descends.search_ends name known
  refine ⟨found, nearest, fun steps more => ?_⟩
  rw [h.tells.searchMethod, ends steps more]

/-- What reading a property comes to. -/
theorem readProperty {a : Account} (of : a.ledger = l) {i : InstanceId} {x : Instance}
    (there : a.machine.store.instances[i]? = some x) (name : Token) :
    ∃ found, a.history.Nearest name.lexeme x.ofClass found ∧
      Run.readProperty i name a.machine =
        match a.history.lastStored? i name.lexeme with
        | some value => .ok value a.machine
        | none => readMethod (found.map (·.closure)) i name a.machine := by
  subst of
  obtain ⟨found, nearest, search⟩ := h.nearest (h.ofClass i x there) name.lexeme
  have search : a.machine.store.method? x.ofClass name.lexeme = found.map (·.closure) := search
  have field : x.fields.get? name.lexeme = a.history.lastStored? i name.lexeme :=
    h.fields i x name.lexeme there
  refine ⟨found, nearest, ?_⟩
  simp only [Run.readProperty, bind, EStateM.bind, gets, there, Option.map_some, field]
  cases a.history.lastStored? i name.lexeme with
  | some value => rfl
  | none =>
    simp only [EStateM.bind, gets, search]
    cases found <;> rfl

end Ledger.Sound

end Treewalk
