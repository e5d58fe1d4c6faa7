import Treewalk.Proofs.Objects.Ancestry
import Treewalk.Proofs.Run.Upkeep

/-!
# How the store grows

Whatever programs are run, resolved or not: functions and classes stay as they were made, an
instance stays one of its class, its fields hold what the history says was stored last, and every
value refers to something that is there. In particular a class statement finds its superclass among
the classes that are there already.
-/

namespace Treewalk

open Run

/-- The store with what the history tells of it. -/
structure Ledger where
  store : Store
  history : History

def Account.ledger (a : Account) : Ledger := ⟨a.machine.store, a.history⟩

namespace Ledger

structure Sound (l : Ledger) : Prop where
  bindings : ∀ f name value, l.store.frames.lookup? f name = some value → value.In l.store.Gives
  stores : ∀ stored ∈ l.history.stores,
    stored.object < l.store.instances.size ∧ stored.value.In l.store.Gives
  fields : ∀ (i : InstanceId) x name, l.store.instances[i]? = some x →
    x.fields.get? name = l.history.lastStored? i name
  ofClass : ∀ (i : InstanceId) x, l.store.instances[i]? = some x →
    x.ofClass < l.store.classes.size
  tells : l.history.Tells l.store
  descends : l.history.Descends

/-- What is made stays: functions and classes as they are, instances with their class. -/
structure Grows (l m : Ledger) : Prop where
  frames : l.store.frames.all.size ≤ m.store.frames.all.size
  functions : ∀ (f : FunctionId) closure, l.store.functions[f]? = some closure →
    m.store.functions[f]? = some closure
  classes : ∀ (c : ClassId) cls, l.store.classes[c]? = some cls → m.store.classes[c]? = some cls
  instances : ∀ (i : InstanceId) x, l.store.instances[i]? = some x →
    ∃ y, m.store.instances[i]? = some y ∧ y.ofClass = x.ofClass
  declarations : ∀ (c : ClassId) d, l.history.declarations[c]? = some d →
    m.history.declarations[c]? = some d

variable {l m n : Ledger}

theorem Grows.refl (l : Ledger) : l.Grows l :=
  ⟨Nat.le_refl _, fun _ _ h => h, fun _ _ h => h, fun _ x h => ⟨x, h, rfl⟩, fun _ _ h => h⟩

theorem Grows.trans (h : l.Grows m) (h' : m.Grows n) : l.Grows n where
  frames := Nat.le_trans h.frames h'.frames
  functions f closure found := h'.functions f closure (h.functions f closure found)
  classes c cls found := h'.classes c cls (h.classes c cls found)
  instances i x found := by
    obtain ⟨y, found', same⟩ := h.instances i x found
    obtain ⟨z, found'', same'⟩ := h'.instances i y found'
    exact ⟨z, found'', same'.trans same⟩
  declarations c d found := h'.declarations c d (h.declarations c d found)

theorem Grows.gives (h : l.Grows m) {held : Held} (given : l.store.Gives held) :
    m.store.Gives held := by
  cases held with
  | frame f => exact Nat.lt_of_lt_of_le given h.frames
  | function f =>
    have kept := h.functions f _ (Array.getElem?_eq_getElem given)
    exact (Array.getElem?_eq_some_iff.1 kept).1
  | cls c =>
    have kept := h.classes c _ (Array.getElem?_eq_getElem given)
    exact (Array.getElem?_eq_some_iff.1 kept).1
  | object i =>
    obtain ⟨y, kept, -⟩ := h.instances i _ (Array.getElem?_eq_getElem given)
    exact (Array.getElem?_eq_some_iff.1 kept).1

theorem Grows.value (h : l.Grows m) {value : Value} (given : value.In l.store.Gives) :
    value.In m.store.Gives :=
  fun held refers => h.gives (given held refers)

/-- A change of frames alone. -/
theorem Grows.of_frames {frames : Frames} (more : l.store.frames.all.size ≤ frames.all.size) :
    l.Grows { l with store := { l.store with frames } } :=
  ⟨more, fun _ _ h => h, fun _ _ h => h, fun _ x h => ⟨x, h, rfl⟩, fun _ _ h => h⟩

namespace Sound

variable (h : l.Sound)
include h

theorem define (f : FrameId) (name : String) {value : Value} (given : value.In l.store.Gives) :
    l.Grows { l with store := l.store.define f name value } ∧
      Sound { l with store := l.store.define f name value } := by
  have grows := Grows.of_frames (l := l) (Nat.le_of_eq
    (Frames.size_define l.store.frames f name value).symm)
  refine ⟨grows, ⟨fun g other value' found => ?_, fun stored member => ?_, h.fields, h.ofClass,
    h.tells.of_same rfl rfl, h.descends⟩⟩
  · refine grows.value ?_
    simp only [Store.define, Frames.lookup?_define] at found
    split at found
    · cases found
      exact given
    · exact h.bindings g other value' found
  · exact ⟨(h.stores stored member).1, grows.value (h.stores stored member).2⟩

theorem pushFrame {values : Bindings Value} (parent : Option FrameId)
    (given : ∀ name value, values.get? name = some value → value.In l.store.Gives) :
    l.Grows { l with store := l.store.pushFrame values parent } ∧
      Sound { l with store := l.store.pushFrame values parent } := by
  have more : l.store.frames.all.size ≤ (l.store.frames.push values parent).all.size := by
    rw [Frames.size_push]
    exact Nat.le_succ _
  have grows := Grows.of_frames (l := l) more
  refine ⟨grows, ⟨fun g other value' found => ?_, fun stored member => ?_, h.fields, h.ofClass,
    h.tells.of_same rfl rfl, h.descends⟩⟩
  · refine grows.value ?_
    simp only [Store.pushFrame, Frames.lookup?_push] at found
    split at found
    · exact given other value' found
    · exact h.bindings g other value' found
  · exact ⟨(h.stores stored member).1, grows.value (h.stores stored member).2⟩

theorem pushFunction (closure : Closure) (origin : Origin) :
    l.Grows ⟨l.store.pushFunction closure, l.history.addOrigin origin⟩ ∧
      Sound ⟨l.store.pushFunction closure, l.history.addOrigin origin⟩ := by
  have grows : l.Grows ⟨l.store.pushFunction closure, l.history.addOrigin origin⟩ := by
    refine ⟨Nat.le_refl _, fun f c found => ?_, fun _ _ h => h, fun _ x h => ⟨x, h, rfl⟩,
      fun _ _ h => h⟩
    have old := (Array.getElem?_eq_some_iff.1 found).1
    simp only [Store.pushFunction, Array.getElem?_push, if_neg (Nat.ne_of_lt old), found]
  exact ⟨grows, fun g other value found => grows.value (h.bindings g other value found),
    fun stored member => ⟨(h.stores stored member).1, grows.value (h.stores stored member).2⟩,
    h.fields, h.ofClass, h.tells.pushFunction closure origin, h.descends⟩

theorem pushClass {cls : Class} {d : Declaration} (made : cls.DeclaredBy d)
    (older : ∀ above, d.superclass = some above → above < l.store.classes.size) :
    l.Grows ⟨l.store.pushClass cls, l.history.addDeclaration d⟩ ∧
      Sound ⟨l.store.pushClass cls, l.history.addDeclaration d⟩ := by
  have grows : l.Grows ⟨l.store.pushClass cls, l.history.addDeclaration d⟩ := by
    refine ⟨Nat.le_refl _, fun _ _ h => h, fun c cls' found => ?_, fun _ x h => ⟨x, h, rfl⟩,
      fun c d' found => ?_⟩
    · have old := (Array.getElem?_eq_some_iff.1 found).1
      simp only [Store.pushClass, Array.getElem?_push, if_neg (Nat.ne_of_lt old), found]
    · have old := (Array.getElem?_eq_some_iff.1 found).1
      simp only [History.addDeclaration, Array.getElem?_push, if_neg (Nat.ne_of_lt old), found]
  refine ⟨grows, fun g other value found => grows.value (h.bindings g other value found),
    fun stored member => ⟨(h.stores stored member).1, grows.value (h.stores stored member).2⟩,
    h.fields, fun i x found => ?_, h.tells.pushClass made, h.descends.addDeclaration ?_⟩
  · have known := h.ofClass i x found
    simp only [Store.pushClass, Array.size_push]
    exact Nat.lt_succ_of_lt known
  · rw [h.tells.declarations]
    exact older

theorem pushInstance {c : ClassId} (known : c < l.store.classes.size) :
    l.Grows { l with store := l.store.pushInstance ⟨c, ∅⟩ } ∧
      Sound { l with store := l.store.pushInstance ⟨c, ∅⟩ } := by
  have grows : l.Grows { l with store := l.store.pushInstance ⟨c, ∅⟩ } := by
    refine ⟨Nat.le_refl _, fun _ _ h => h, fun _ _ h => h, fun i x found => ⟨x, ?_, rfl⟩,
      fun _ _ h => h⟩
    have old := (Array.getElem?_eq_some_iff.1 found).1
    simp only [Store.pushInstance, Array.getElem?_push, if_neg (Nat.ne_of_lt old), found]
  refine ⟨grows, fun g other value found => grows.value (h.bindings g other value found),
    fun stored member => ?_, fun i x name found => ?_, fun i x found => ?_,
    h.tells.of_same rfl rfl, h.descends⟩
  · obtain ⟨old, given⟩ := h.stores stored member
    simp only [Store.pushInstance, Array.size_push]
    exact ⟨Nat.lt_succ_of_lt old, grows.value given⟩
  · simp only [Store.pushInstance, Array.getElem?_push] at found
    split at found
    · next new =>
      -- Nothing was stored in an instance that was not there.
      cases found
      have never : ∀ stored ∈ l.history.stores, stored.object ≠ i := fun stored member same => by
        have old := (h.stores stored member).1
        rw [same, new] at old
        exact Nat.lt_irrefl _ old
      exact (History.lastStored?_eq_none never name).symm
    · exact h.fields i x name found
  · simp only [Store.pushInstance, Array.getElem?_push] at found
    split at found
    · cases found
      exact known
    · exact h.ofClass i x found

theorem setField {i : InstanceId} (known : i < l.store.instances.size) (name : String)
    {value : Value} (given : value.In l.store.Gives) :
    l.Grows ⟨l.store.setField i name value, l.history.addStored ⟨i, name, value⟩⟩ ∧
      Sound ⟨l.store.setField i name value, l.history.addStored ⟨i, name, value⟩⟩ := by
  have same : (l.store.setField i name value).instances.size = l.store.instances.size := by
    simp only [Store.setField, Array.size_modify]
  have grows : l.Grows ⟨l.store.setField i name value, l.history.addStored ⟨i, name, value⟩⟩ := by
    refine ⟨Nat.le_refl _, fun _ _ h => h, fun _ _ h => h, fun j x found => ?_, fun _ _ h => h⟩
    simp only [Store.setField, Array.getElem?_modify, found]
    split
    · exact ⟨_, rfl, rfl⟩
    · exact ⟨x, rfl, rfl⟩
  refine ⟨grows, fun g other value found => grows.value (h.bindings g other value found),
    fun stored member => ?_, fun j x other found => ?_, fun j x found => ?_,
    (h.tells.addStored _).of_same rfl rfl, h.descends⟩
  · rcases List.mem_cons.1 member with rfl | member
    · exact ⟨by rw [same]; exact known, grows.value given⟩
    · obtain ⟨old, given'⟩ := h.stores stored member
      exact ⟨by rw [same]; exact old, grows.value given'⟩
  · simp only [Store.setField, Array.getElem?_modify] at found
    show _ = (l.history.addStored ⟨i, name, value⟩).lastStored? j other
    rw [History.lastStored?_addStored]
    split at found
    · next here =>
      subst here
      obtain ⟨y, there, rfl⟩ := Option.map_eq_some_iff.1 found
      rw [Bindings.get?_put, h.fields i y other there]
      simp only [true_and, eq_comm]
    · next apart =>
      rw [if_neg fun same => apart same.1]
      exact h.fields j x other found
  · simp only [Store.setField, Array.getElem?_modify] at found
    split at found
    · obtain ⟨y, there, rfl⟩ := Option.map_eq_some_iff.1 found
      exact h.ofClass j y there
    · exact h.ofClass j x found

/-! ## What is read off the store -/

theorem getAt? {f : FrameId} {distance : Nat} {name : String} {value : Value}
    (found : l.store.frames.getAt? f distance name = some value) : value.In l.store.Gives := by
  obtain ⟨g, -, bound⟩ := Option.bind_eq_some_iff.1 found
  exact h.bindings g name value bound

theorem search {f : FrameId} {name : String} {steps : Nat} {found : FrameId × Value}
    (ended : l.store.frames.search name steps f = some found) : found.2.In l.store.Gives := by
  induction steps generalizing f with
  | zero => cases ended
  | succ steps ih =>
    rw [Frames.search] at ended
    split at ended
    · next value bound =>
      cases ended
      exact h.bindings f name value bound
    · split at ended
      · exact ih ended
      · cases ended

theorem get? {f : FrameId} {name : String} {value : Value}
    (found : l.store.frames.get? f name = some value) : value.In l.store.Gives := by
  obtain ⟨pair, ended, rfl⟩ := Option.map_eq_some_iff.1 found
  exact h.search ended

theorem field {i : InstanceId} {x : Instance} {name : String} {value : Value}
    (there : l.store.instances[i]? = some x) (found : x.fields.get? name = some value) :
    value.In l.store.Gives := by
  rw [h.fields i x name there] at found
  obtain ⟨stored, last, rfl⟩ := Option.map_eq_some_iff.1 found
  exact (h.stores stored (List.mem_of_find?_eq_some last)).2

/-- What a variable is read as refers to something that is there. -/
theorem readVariable {a : Account} {m : Machine} {id : NodeId} {name : Token} {value : Value}
    (of : a.ledger = l) (read : Run.readVariable id name a.machine = .ok value m) :
    value.In l.store.Gives := by
  subst of
  unfold Run.readVariable at read
  cases at_ : a.machine.distances.get? id with
  | some distance =>
    simp only [at_] at read
    split at read
    · next found =>
      cases read
      exact h.getAt? found
    · cases read
  | none =>
    simp only [at_] at read
    split at read
    · next found =>
      cases read
      exact h.get? found
    · cases read

end Sound

end Ledger

end Treewalk
