import Treewalk.Proofs.Objects.Chronicle
import Treewalk.Proofs.Store.Frames

/-!
# Classes and their ancestors

The classes of the store are those of the class statements on record, one for one, so a search for
a method can be read off either. A class statement can only name a class that is there already; so
no chain of superclasses runs in a circle, and every search ends.
-/

namespace Treewalk

/-- What it comes to when a search has come to this method, or to none: the method as a new function
that is bound to the instance, or the error of a property that is not there. -/
def Run.readMethod (found : Option Closure) (i : InstanceId) (name : Token) : Run Value :=
  match found with
  | some method => do newFunction (← bindMethod method i)
  | none => fault name (.undefinedProperty name.lexeme)

theorem Declaration.methods_get? (d : Declaration) (name : String) :
    (Bindings.ofList (d.methods.map fun decl =>
      (decl.name.lexeme, Closure.mk decl d.frame decl.isInitializer))).get? name =
      (d.method? name).map (·.closure) := by
  rw [Bindings.get?_ofList, ← List.map_reverse, List.find?_map, Declaration.method?,
    Option.map_map, Option.map_map]
  rfl

/-- What a class statement declares under a name is one of its methods. -/
theorem Declaration.mem_of_method? {d : Declaration} {name : String} {method : Method}
    (h : d.method? name = some method) : ∃ decl ∈ d.methods, decl.name.lexeme = name ∧
      method = ⟨⟨decl, d.frame, decl.isInitializer⟩, none, d.superclass⟩ := by
  obtain ⟨decl, found, rfl⟩ := Option.map_eq_some_iff.1 h
  have named := List.find?_some found
  have member := List.mem_reverse.1 (List.mem_of_find?_eq_some found)
  exact ⟨decl, member, by simpa using named, rfl⟩

/-- The class was made by this class statement. -/
structure Class.DeclaredBy (cls : Class) (d : Declaration) : Prop where
  superclass : cls.superclass = d.superclass
  methods : ∀ name, cls.methods.get? name = (d.method? name).map (·.closure)

/-- The history tells of every function and every class in the store. -/
structure History.Tells (h : History) (s : Store) : Prop where
  origins : h.origins.size = s.functions.size
  declarations : h.declarations.size = s.classes.size
  classes : ∀ (c : ClassId) cls d, s.classes[c]? = some cls → h.declarations[c]? = some d →
    cls.DeclaredBy d

namespace History

variable {h h' : History} {s : Store} {name : String} {c : ClassId}

namespace Tells

theorem declared (tells : h.Tells s) {cls : Class} (found : s.classes[c]? = some cls) :
    ∃ d, h.declarations[c]? = some d ∧ cls.DeclaredBy d := by
  have known : c < h.declarations.size := by
    rw [tells.declarations]
    exact (Array.getElem?_eq_some_iff.1 found).1
  have same := Array.getElem?_eq_getElem known
  exact ⟨_, same, tells.classes c cls _ found same⟩

theorem originOf (tells : h.Tells s) {f : FunctionId} {closure : Closure}
    (found : s.functions[f]? = some closure) : ∃ origin, h.origins[f]? = some origin := by
  have known : f < h.origins.size := by
    rw [tells.origins]
    exact (Array.getElem?_eq_some_iff.1 found).1
  exact ⟨_, Array.getElem?_eq_getElem known⟩

/-- A search in the store goes through the class statements on record. -/
theorem searchMethod (tells : h.Tells s) (name : String) (steps : Nat) (c : ClassId) :
    s.searchMethod name steps c = (h.search name steps c).map (·.closure) := by
  induction steps generalizing c with
  | zero => rfl
  | succ steps ih =>
    rw [Store.searchMethod, History.search]
    cases found : s.classes[c]? with
    | none =>
      have absent : h.declarations[c]? = none := by
        rw [Array.getElem?_eq_none_iff, tells.declarations]
        exact Array.getElem?_eq_none_iff.1 found
      rw [absent]
      rfl
    | some cls =>
      obtain ⟨d, declared, made⟩ := tells.declared found
      rw [declared]
      dsimp only
      rw [made.methods, made.superclass]
      cases d.method? name with
      | some method => rfl
      | none =>
        cases d.superclass with
        | some above => exact ih above
        | none => rfl

theorem method? (tells : h.Tells s) (c : ClassId) (name : String) :
    s.method? c name = (h.method? c name).map (·.closure) := by
  rw [Store.method?, History.method?, tells.searchMethod, tells.declarations]

/-- The history tells of a class that is made by the class statement written down with it. -/
theorem pushClass (tells : h.Tells s) {cls : Class} {d : Declaration} (made : cls.DeclaredBy d) :
    (h.addDeclaration d).Tells (s.pushClass cls) where
  origins := tells.origins
  declarations := by simp [addDeclaration, Store.pushClass, tells.declarations]
  classes c cls' d' found declared := by
    simp only [addDeclaration, Store.pushClass, Array.getElem?_push, tells.declarations] at *
    split at found
    · cases found
      rw [if_pos (by assumption)] at declared
      cases declared
      exact made
    · rw [if_neg (by assumption)] at declared
      exact tells.classes c cls' d' found declared

theorem pushFunction (tells : h.Tells s) (closure : Closure) (origin : Origin) :
    (h.addOrigin origin).Tells (s.pushFunction closure) where
  origins := by simp [addOrigin, Store.pushFunction, tells.origins]
  declarations := tells.declarations
  classes := tells.classes

/-- Frames and instances are no part of the classes and functions. -/
theorem of_same {t : Store} (tells : h.Tells s) (functions : t.functions = s.functions)
    (classes : t.classes = s.classes) : h.Tells t where
  origins := by rw [functions, tells.origins]
  declarations := by rw [classes, tells.declarations]
  classes := by
    rw [classes]
    exact tells.classes

/-- What is stored in fields is no part of the classes and functions. -/
theorem addStored (tells : h.Tells s) (stored : Stored) : (h.addStored stored).Tells s :=
  ⟨tells.origins, tells.declarations, tells.classes⟩

end Tells

/-- Storing in a field changes what was stored last there, and nowhere else. -/
theorem lastStored?_addStored (h : History) (stored : Stored) (i : InstanceId) (name : String) :
    (h.addStored stored).lastStored? i name =
      if stored.object = i ∧ stored.name = name then some stored.value
      else h.lastStored? i name := by
  simp only [lastStored?, addStored, List.find?_cons]
  split
  · next here =>
    rw [Bool.and_eq_true, beq_iff_eq, beq_iff_eq] at here
    rw [if_pos here, Option.map_some]
  · next elsewhere =>
    rw [if_neg]
    rintro ⟨rfl, rfl⟩
    simp at elsewhere

theorem lastStored?_eq_none {i : InstanceId}
    (never : ∀ stored ∈ h.stores, stored.object ≠ i) (name : String) :
    h.lastStored? i name = none := by
  rw [lastStored?, Option.map_eq_none_iff, List.find?_eq_none]
  intro stored member same
  rw [Bool.and_eq_true, beq_iff_eq] at same
  exact never stored member same.1

/-- Every superclass was there before the class. -/
def Descends (h : History) : Prop :=
  ∀ (c : ClassId) d above, h.declarations[c]? = some d → d.superclass = some above → above < c

theorem Descends.addDeclaration (descends : h.Descends) {d : Declaration}
    (older : ∀ above, d.superclass = some above → above < h.declarations.size) :
    (h.addDeclaration d).Descends := by
  intro c d' above declared superclass
  simp only [History.addDeclaration, Array.getElem?_push] at declared
  split at declared
  · next new =>
    cases declared
    rw [new]
    exact older above superclass
  · exact descends c d' above declared superclass

/-- A search that has more steps than there are older classes comes to its end. -/
theorem Descends.search_ends (descends : h.Descends) (name : String) {c : ClassId}
    (known : c < h.declarations.size) :
    ∃ found, h.Nearest name c found ∧ ∀ steps, c < steps → h.search name steps c = found := by
  induction c using Nat.strongRecOn with
  | _ c ih =>
    have declared := Array.getElem?_eq_getElem known
    generalize h.declarations[c] = d at declared
    have step : ∀ steps, c < steps → ∃ fewer, steps = fewer + 1 ∧ c ≤ fewer := fun steps more =>
      ⟨steps - 1, by omega, by omega⟩
    cases own : d.method? name with
    | some method =>
      refine ⟨some method, .own declared own, fun steps more => ?_⟩
      obtain ⟨fewer, rfl, -⟩ := step steps more
      simp only [search, declared, own]
    | none =>
      cases superclass : d.superclass with
      | none =>
        refine ⟨none, .missing declared own superclass, fun steps more => ?_⟩
        obtain ⟨fewer, rfl, -⟩ := step steps more
        simp only [search, declared, own, superclass]
      | some above =>
        have older := descends c d above declared superclass
        obtain ⟨found, nearest, ends⟩ := ih above older (Nat.lt_trans older known)
        refine ⟨found, .inherited declared own superclass nearest, fun steps more => ?_⟩
        obtain ⟨fewer, rfl, enough⟩ := step steps more
        simp only [search, declared, own, superclass]
        exact ends fewer (Nat.lt_of_lt_of_le older enough)

/-- The method of a class is the one that its nearest ancestor declares. -/
theorem Descends.nearest_method? (descends : h.Descends) (name : String) {c : ClassId}
    (known : c < h.declarations.size) : h.Nearest name c (h.method? c name) := by
  obtain ⟨found, nearest, ends⟩ := descends.search_ends name known
  rw [History.method?, ends _ known]
  exact nearest

/-- A search comes to one end only. -/
theorem Nearest.unique {found found' : Option Method} (nearest : h.Nearest name c found)
    (nearest' : h.Nearest name c found') : found = found' := by
  induction nearest with
  | own declared own => cases nearest' <;> simp_all
  | inherited declared own superclass _ ih => cases nearest' <;> simp_all
  | missing declared own superclass => cases nearest' <;> simp_all

/-- Class statements that are executed later change nothing about older classes. -/
theorem Nearest.later {found : Option Method} (nearest : h.Nearest name c found)
    (kept : ∀ (c : ClassId) d, h.declarations[c]? = some d → h'.declarations[c]? = some d) :
    h'.Nearest name c found := by
  induction nearest with
  | own declared own => exact .own (kept _ _ declared) own
  | inherited declared own superclass _ ih => exact .inherited (kept _ _ declared) own superclass ih
  | missing declared own superclass => exact .missing (kept _ _ declared) own superclass

end History

end Treewalk
