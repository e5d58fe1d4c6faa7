import Treewalk.Proofs.Objects.Ancestry
import Treewalk.Proofs.Objects.Attends
import Treewalk.Proofs.Scope.Mirror

/-!
# Attended accounts

What holds of every account of a run of accepted programs: around every function the frames attend
its receiver, around the methods of a class they offer its superclass, and the history tells of all
functions and classes that there are. `Attended.goes` and its siblings say that each change that a
run can make keeps this.
-/

namespace Treewalk

open Run

variable (texts : Texts)

/-- A function around which the frames attend its receiver. -/
def Closure.Attended (frames : Frames) (f : Closure) (receiver : Option Receiver) : Prop :=
  ∃ c, frames.Attends c f.frame receiver ∧ f.decl.Fits texts.named texts.Knows c

/-- A method, around which a frame for `this` is still to come. It is an initializer if it is named
like one. -/
structure Method.Unbound (frames : Frames) (f : Method) : Prop where
  kind : f.closure.isInitializer = f.closure.decl.isInitializer
  placed : ∃ c, frames.Offers c f.closure.frame f.above ∧
    f.closure.decl.Fits texts.named texts.Knows (c.enterThis f.closure.decl)

/-- The frame of a bound method binds `this`. -/
structure Closure.Binds (frames : Frames) (f : Closure) (receiver : Receiver) : Prop where
  this : frames.lookup? f.frame thisName = some (.object receiver.object)
  kind : f.isInitializer = f.decl.isInitializer

namespace Account

/-- What holds of every account of a run. -/
structure Attended (a : Account) : Prop where
  distances : a.machine.distances = texts.table
  tells : a.history.Tells a.machine.store
  functions : ∀ (f : FunctionId) closure origin, a.machine.store.functions[f]? = some closure →
    a.history.origins[f]? = some origin →
    closure.Attended texts a.machine.store.frames origin.receiver? ∧
      ∀ self, origin = .bound self → closure.Binds a.machine.store.frames self
  methods : ∀ (c : ClassId) d name method, a.history.declarations[c]? = some d →
    d.method? name = some method → method.Unbound texts a.machine.store.frames

/-- One account becomes the other by a change that makes no function and no class. -/
structure Goes (a b : Account) : Prop where
  frames : a.machine.store.frames.Steady b.machine.store.frames
  functions : b.machine.store.functions = a.machine.store.functions
  classes : b.machine.store.classes = a.machine.store.classes
  distances : b.machine.distances = a.machine.distances
  origins : b.history.origins = a.history.origins
  declarations : b.history.declarations = a.history.declarations

end Account

/-- What a run is about to do stands in one of the programs. -/
def Doing.Known (c : Context) : Doing → Prop
  | .read ref => texts.Knows ⟨.use .read ref, c⟩ ∨ texts.Knows ⟨.use .this ref, c⟩
  | .super ref _ => texts.Knows ⟨.use .super ref, c⟩
  | .other => True

/-- The moment is one of a run of some programs, at a place where the frames attend the
receiver. -/
def Moment.Placed (p : Moment) : Prop :=
  ∃ texts c, p.account.Attended texts ∧ p.doing.Known texts c ∧
    p.account.machine.store.frames.Attends c p.account.machine.env p.account.receiver

variable {texts} {v w frames : Frames} {c : Context}

theorem Closure.Attended.mono {f : Closure} {receiver : Option Receiver}
    (h : f.Attended texts v receiver) (grown : v.Steady w) : f.Attended texts w receiver := by
  obtain ⟨c, attends, fits⟩ := h
  exact ⟨c, attends.mono grown, fits⟩

theorem Method.Unbound.mono {f : Method} (h : f.Unbound texts v) (grown : v.Steady w) :
    f.Unbound texts w := by
  obtain ⟨kind, c, offers, fits⟩ := h
  exact ⟨kind, c, offers.mono grown, fits⟩

theorem Closure.Binds.mono {f : Closure} {receiver : Receiver} (h : f.Binds v receiver)
    (grown : v.Steady w) : f.Binds w receiver :=
  ⟨grown.special _ _ _ not_ordinary_this h.this, h.kind⟩

namespace Account

variable {a b : Account}

theorem Goes.refl (a : Account) : a.Goes a := ⟨.refl _, rfl, rfl, rfl, rfl, rfl⟩

theorem Attended.goes (h : a.Attended texts) (goes : a.Goes b) : b.Attended texts where
  distances := goes.distances.trans h.distances
  tells := by
    obtain ⟨origins, declarations, classes⟩ := h.tells
    rw [← goes.functions, ← goes.origins] at origins
    rw [← goes.classes, ← goes.declarations] at declarations classes
    exact ⟨origins, declarations, classes⟩
  functions f closure origin found told := by
    rw [goes.functions] at found
    rw [goes.origins] at told
    obtain ⟨attended, binds⟩ := h.functions f closure origin found told
    exact ⟨attended.mono goes.frames, fun self same => (binds self same).mono goes.frames⟩
  methods c d name method declared found := by
    rw [goes.declarations] at declared
    exact (h.methods c d name method declared found).mono goes.frames

/-- A new function, made where its origin says. -/
theorem Attended.pushFunction (h : a.Attended texts) (closure : Closure) (origin : Origin)
    (attended : closure.Attended texts a.machine.store.frames origin.receiver?)
    (binds : ∀ self, origin = .bound self → closure.Binds a.machine.store.frames self) :
    Attended texts { a with
      machine := { a.machine with store := a.machine.store.pushFunction closure }
      history := a.history.addOrigin origin } where
  distances := h.distances
  tells := h.tells.pushFunction closure origin
  functions f closure' origin' found told := by
    simp only [Store.pushFunction, Array.getElem?_push] at found
    simp only [History.addOrigin, Array.getElem?_push, h.tells.origins] at told
    split at found
    · next new =>
      rw [if_pos new] at told
      cases found
      cases told
      exact ⟨attended, binds⟩
    · next old =>
      rw [if_neg old] at told
      exact h.functions f closure' origin' found told
  methods := h.methods

/-- A new class, made by a class statement whose methods are in place. -/
theorem Attended.pushClass (h : a.Attended texts) {cls : Class} {d : Declaration}
    (made : cls.DeclaredBy d)
    (methods : ∀ name method, d.method? name = some method →
      method.Unbound texts a.machine.store.frames) :
    Attended texts { a with
      machine := { a.machine with store := a.machine.store.pushClass cls }
      history := a.history.addDeclaration d } where
  distances := h.distances
  tells := h.tells.pushClass made
  functions := h.functions
  methods c d' name method declared found := by
    simp only [History.addDeclaration, Array.getElem?_push] at declared
    split at declared
    · cases declared
      exact methods name method found
    · exact h.methods c d' name method declared found

theorem Attended.search (h : a.Attended texts) {name : String} {steps : Nat} {k : ClassId}
    {method : Method} (found : a.history.search name steps k = some method) :
    method.Unbound texts a.machine.store.frames := by
  induction steps generalizing k with
  | zero => cases found
  | succ steps ih =>
    rw [History.search] at found
    split at found
    · cases found
    · next d declared =>
      split at found
      · next own =>
        cases found
        exact h.methods k d name method declared own
      · split at found
        · exact ih found
        · cases found

end Account

end Treewalk
