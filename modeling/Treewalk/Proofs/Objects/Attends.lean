import Treewalk.Proofs.Objects.Chronicle
import Treewalk.Proofs.Scope.Layout

/-!
# Frames that attend a receiver

Inside the text of a method the frames outwards come to one that binds `this` to the instance the
method is bound to; if the class has a superclass, the frame around that one binds `super` to it.
No name that a program declares is either of the two, so once these frames are made nothing writes
to what they bind.
-/

namespace Treewalk

namespace Frames

variable {u v w frames : Frames} {f g : FrameId} {d : Nat} {name : String}

/-- Frames stay where they are, and what they bind `this` and `super` to stays. -/
structure Steady (v w : Frames) : Prop where
  parent : ∀ f g, v.parent? f = some g → w.parent? f = some g
  special : ∀ f x value, ¬ Ordinary x → v.lookup? f x = some value → w.lookup? f x = some value

namespace Steady

theorem refl (v : Frames) : v.Steady v := ⟨fun _ _ h => h, fun _ _ _ _ h => h⟩

theorem trans (h : u.Steady v) (h' : v.Steady w) : u.Steady w where
  parent f g known := h'.parent f g (h.parent f g known)
  special f x value special known := h'.special f x value special (h.special f x value special known)

theorem define (v : Frames) (f : FrameId) (value : Value) (ordinary : Ordinary name) :
    v.Steady (v.define f name value) where
  parent g o known := (parent?_define ..).trans known
  special g x old special known := by
    rw [lookup?_define, if_neg]
    · exact known
    · rintro ⟨-, rfl, -⟩
      exact special ordinary

theorem push (v : Frames) (values : Bindings Value) (parent : Option FrameId) :
    v.Steady (v.push values parent) where
  parent f g known := by
    have old : f ≠ v.next := Nat.ne_of_lt (lt_of_parent? known)
    rw [parent?_push, if_neg old, known]
  special f x value _ known := by
    have old : f ≠ v.next := Nat.ne_of_lt (lt_of_lookup? known)
    rw [lookup?_push, if_neg old, known]

end Steady

end Frames

theorem not_ordinary_this : ¬ Ordinary thisName := fun h => h.1 rfl

theorem not_ordinary_super : ¬ Ordinary superName := fun h => h.2 rfl

/-- The scope is not the one of a `super`, nor will it be. -/
structure LexicalScope.Inner (s : LexicalScope) : Prop where
  names : superName ∉ s.names
  pending : ∀ x, s.pending = some x → Ordinary x

namespace LexicalScope.Inner

variable {s : LexicalScope} {name : String}

theorem not_declares_super (h : s.Inner) : ¬ s.Declares superName := by
  rintro (member | pending)
  · exact h.names member
  · exact not_ordinary_super (h.pending _ pending)

theorem declares_this (h : s.Inner) : s.Declares thisName ↔ thisName ∈ s.names := by
  constructor
  · rintro (member | pending)
    · exact member
    · exact absurd (h.pending _ pending) not_ordinary_this
  · exact .inl

end LexicalScope.Inner

/-- The innermost scope is that of a `super`. -/
def Context.AtSuper (c : Context) : Prop := ∃ s ∈ c.head?, s.Declares superName

namespace Frames

variable {v w frames : Frames} {c : Context} {f g : FrameId} {receiver : Option Receiver}
  {above : Option ClassId} {name : String}

/-- If these are the scopes around the methods of a class with a superclass, the frame that they
close over binds `super` to it. -/
def Offers (frames : Frames) (c : Context) (f : FrameId) (above : Option ClassId) : Prop :=
  c.AtSuper → ∃ k, above = some k ∧ frames.lookup? f superName = some (.cls k)

/-- From `f` outwards the frames are as the scopes around a place ask: up to the innermost `this`,
which is bound to the receiver. -/
def Attends (frames : Frames) : Context → FrameId → Option Receiver → Prop
  | [], _, _ => True
  | s :: outer, f, receiver => s.Inner ∧ ∃ g, frames.parent? f = some g ∧
      if thisName ∈ s.names then
        ∃ self, receiver = some self ∧
          frames.lookup? f thisName = some (.object self.object) ∧
          frames.Offers outer g self.above
      else frames.Attends outer g receiver

theorem Offers.mono (h : v.Offers c f above) (grown : v.Steady w) : w.Offers c f above := by
  intro super
  obtain ⟨k, known, bound⟩ := h super
  exact ⟨k, known, grown.special f _ _ not_ordinary_super bound⟩

namespace Attends

theorem mono (h : v.Attends c f receiver) (grown : v.Steady w) : w.Attends c f receiver := by
  induction c generalizing f with
  | nil => trivial
  | cons s outer ih =>
    obtain ⟨inner, g, parent, rest⟩ := h
    refine ⟨inner, g, grown.parent f g parent, ?_⟩
    split at rest
    · next own =>
      obtain ⟨self, known, bound, offers⟩ := rest
      rw [if_pos own]
      exact ⟨self, known, grown.special f _ _ not_ordinary_this bound, offers.mono grown⟩
    · next other =>
      rw [if_neg other]
      exact ih rest

/-- Where `this` is in scope the frame at its distance binds the receiver, and where `super` is the
next one binds the superclass. -/
theorem this {d : Nat} (h : frames.Attends c f receiver)
    (found : c.distance? thisName = some d) :
    ∃ self, receiver = some self ∧
      frames.getAt? f d thisName = some (.object self.object) ∧
      (c.distance? superName = some (d + 1) → ∃ k, self.above = some k ∧
        frames.getAt? f (d + 1) superName = some (.cls k)) := by
  induction c generalizing f d with
  | nil => cases found
  | cons s outer ih =>
    obtain ⟨inner, g, parent, rest⟩ := h
    rw [Context.distance?] at found
    rw [Context.distance?, if_neg inner.not_declares_super]
    split at rest
    · next own =>
      obtain ⟨self, known, bound, offers⟩ := rest
      rw [if_pos (inner.declares_this.2 own)] at found
      obtain rfl : 0 = d := Option.some.inj found
      refine ⟨self, known, bound, fun super => ?_⟩
      rw [getAt?_succ parent, getAt?_zero]
      refine offers ?_
      obtain ⟨n, further, same⟩ := Option.map_eq_some_iff.1 super
      obtain rfl : n = 0 := by omega
      obtain ⟨s', place, declares, -⟩ := Context.distance?_eq_some further
      exact ⟨s', by rw [List.head?_eq_getElem?]; exact place, declares⟩
    · next other =>
      rw [if_neg (mt inner.declares_this.1 other)] at found
      obtain ⟨n, further, rfl⟩ := Option.map_eq_some_iff.1 found
      obtain ⟨self, known, bound, super⟩ := ih rest further
      refine ⟨self, known, (getAt?_succ parent n _).trans bound, fun outside => ?_⟩
      rw [getAt?_succ parent]
      refine super ?_
      obtain ⟨n', further', same⟩ := Option.map_eq_some_iff.1 outside
      obtain rfl : n' = n + 1 := by omega
      exact further'

/-- A declaration changes nothing about what is attended. -/
theorem declare (h : frames.Attends c f receiver) (ordinary : Ordinary name) :
    frames.Attends (c.declare name) f receiver := by
  cases c with
  | nil => trivial
  | cons s outer =>
    obtain ⟨inner, g, parent, rest⟩ := h
    have names : superName ∉ name :: s.names := by
      rw [List.mem_cons, not_or]
      exact ⟨Ne.symm ordinary.2, inner.names⟩
    have same : thisName ∈ name :: s.names ↔ thisName ∈ s.names := by
      rw [List.mem_cons, or_iff_right (Ne.symm ordinary.1)]
    refine ⟨⟨names, nofun⟩, g, parent, ?_⟩
    simp only [same]
    exact rest

theorem announce (h : frames.Attends c f receiver) (ordinary : Ordinary name) :
    frames.Attends (c.announce name) f receiver := by
  cases c with
  | nil => trivial
  | cons s outer =>
    obtain ⟨inner, rest⟩ := h
    refine ⟨⟨inner.names, fun x pending => ?_⟩, rest⟩
    obtain rfl : name = x := Option.some.inj pending
    exact ordinary

theorem declareAll (h : frames.Attends c f receiver) (names : List Token)
    (ordinary : ∀ name ∈ names, Ordinary name.lexeme) :
    frames.Attends (c.declareAll names) f receiver := by
  induction names generalizing c with
  | nil => exact h
  | cons name rest ih =>
    rw [List.forall_mem_cons] at ordinary
    exact ih (h.declare ordinary.1) ordinary.2

/-- A scope of its own, with the same receiver. -/
theorem enter (h : frames.Attends c f receiver) (parent : frames.parent? g = some f)
    (site : Site) : frames.Attends (c.enter site) g receiver :=
  ⟨⟨List.not_mem_nil, nofun⟩, f, parent, h⟩

/-- The frame around a bound method. -/
theorem enterThis (self : Receiver) (offers : frames.Offers c f self.above)
    (parent : frames.parent? g = some f)
    (bound : frames.lookup? g thisName = some (.object self.object)) (method : FunctionDecl) :
    frames.Attends (c.enterThis method) g (some self) := by
  refine ⟨⟨by simp [superName, thisName], nofun⟩, f, parent, ?_⟩
  rw [if_pos (List.mem_singleton_self _)]
  exact ⟨self, rfl, bound, offers⟩

/-- Around a class without a superclass there is no scope of a `super`. -/
theorem not_atSuper (h : frames.Attends c f receiver) : ¬ c.AtSuper := by
  rintro ⟨s, first, declares⟩
  cases c with
  | nil => cases first
  | cons s' outer =>
    obtain rfl : s' = s := Option.some.inj first
    exact h.1.not_declares_super declares

end Attends

end Frames

end Treewalk
