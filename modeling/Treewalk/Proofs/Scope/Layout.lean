import Treewalk.Proofs.Scope.Resolved
import Treewalk.Proofs.Store.Frames

/-!
# Frames as activations of scopes

A `Layout` is the frames of a run with the scopes that they were made for. Along a chain of frames
stand the activations of the scopes around a place, one for one. A layout only grows: what a chain
says stays true, whatever is bound or made later.
-/

namespace Treewalk

structure Layout where
  /-- The scope that a frame was made for, if it was made for one. -/
  siteOf : FrameId → Option Site
  frames : Frames

/-- What `this` and `super` may be bound to. -/
def Proper (name : String) (value : Value) : Prop :=
  (name = thisName → ∃ i, value = .object i) ∧ (name = superName → ∃ c, value = .cls c)

/-- A name that a program may declare. -/
def Ordinary (name : String) : Prop := name ≠ thisName ∧ name ≠ superName

theorem Ordinary.proper {name : String} (h : Ordinary name) (value : Value) : Proper name value :=
  ⟨fun same => absurd same h.1, fun same => absurd same h.2⟩

/-- The distance of a name leads to the innermost scope that declares it. -/
theorem Context.distance?_eq_some {around : Context} {name : String} {d : Nat}
    (h : around.distance? name = some d) : ∃ s, around[d]? = some s ∧ s.Declares name ∧
      ∀ nearer ∈ around.take d, ¬ nearer.Declares name := by
  induction around generalizing d with
  | nil => cases h
  | cons s outer ih =>
    rw [Context.distance?] at h
    split at h
    · next declares =>
      obtain rfl : 0 = d := Option.some.inj h
      exact ⟨s, rfl, declares, List.forall_mem_nil _⟩
    · next other =>
      obtain ⟨n, found, rfl⟩ := Option.map_eq_some_iff.1 h
      obtain ⟨s', at_, declares, nearer⟩ := ih found
      exact ⟨s', at_, declares, List.forall_mem_cons.2 ⟨other, nearer⟩⟩

namespace Layout

/-- The frame is an activation of the scope, and binds what is declared in it. -/
structure Activates (l : Layout) (f : FrameId) (s : LexicalScope) : Prop where
  site : l.siteOf f = some s.site
  names : ∀ x ∈ s.names, ∃ value, l.frames.lookup? f x = some value ∧ Proper x value
  pending : ∀ x, s.pending = some x → Ordinary x

/-- The frames from `f` outwards are the activations of these scopes and then the globals. -/
def Chain (l : Layout) : Context → FrameId → Prop
  | [], f => f = 0
  | s :: outer, f => l.Activates f s ∧ ∃ g, l.frames.parent? f = some g ∧ l.Chain outer g

structure Le (l m : Layout) : Prop where
  site : ∀ f s, l.siteOf f = some s → m.siteOf f = some s
  parent : ∀ f g, l.frames.parent? f = some g → m.frames.parent? f = some g
  bound : ∀ f x value, l.frames.lookup? f x = some value → Proper x value →
    ∃ value', m.frames.lookup? f x = some value' ∧ Proper x value'

theorem Le.refl (l : Layout) : l.Le l :=
  ⟨fun _ _ h => h, fun _ _ h => h, fun _ _ value h proper => ⟨value, h, proper⟩⟩

theorem Le.trans {l m n : Layout} (h : l.Le m) (h' : m.Le n) : l.Le n where
  site f s known := h'.site f s (h.site f s known)
  parent f g known := h'.parent f g (h.parent f g known)
  bound f x value known proper := by
    obtain ⟨value', known', proper'⟩ := h.bound f x value known proper
    exact h'.bound f x value' known' proper'

variable {l m : Layout} {c : Context} {f g : FrameId} {s : LexicalScope} {name : String}

theorem Activates.mono (h : l.Activates f s) (grown : l.Le m) : m.Activates f s where
  site := grown.site f _ h.site
  names x member := by
    obtain ⟨value, bound, proper⟩ := h.names x member
    exact grown.bound f x value bound proper
  pending := h.pending

theorem Chain.mono (h : l.Chain c f) (grown : l.Le m) : m.Chain c f := by
  induction c generalizing f with
  | nil => exact h
  | cons s outer ih =>
    obtain ⟨active, g, parent, rest⟩ := h
    exact ⟨active.mono grown, g, grown.parent f g parent, ih rest⟩

/-- The layout with a name bound anew in a frame. -/
def define (l : Layout) (f : FrameId) (name : String) (value : Value) : Layout :=
  { l with frames := l.frames.define f name value }

/-- The layout with a new frame for a scope. -/
def push (l : Layout) (site : Site) (values : Bindings Value) (parent : FrameId) : Layout where
  siteOf g := if g = l.frames.next then some site else l.siteOf g
  frames := l.frames.push values (some parent)

/-- Only frames that exist were made for a scope. -/
def Placed (l : Layout) : Prop := ∀ f s, l.siteOf f = some s → f < l.frames.all.size

theorem le_define (l : Layout) (f : FrameId) (value : Value) (ordinary : Ordinary name) :
    l.Le (l.define f name value) where
  site _ _ h := h
  parent g h known := (Frames.parent?_define ..).trans known
  bound g x old known proper := by
    simp only [define, Frames.lookup?_define]
    split
    · next same => exact ⟨value, rfl, same.2.1 ▸ ordinary.proper value⟩
    · exact ⟨old, known, proper⟩

theorem Placed.define (h : l.Placed) (value : Value) : (l.define f name value).Placed :=
  fun g s known => by
    rw [Layout.define, Frames.size_define]
    exact h g s known

theorem le_push (placed : l.Placed) (site : Site) (values : Bindings Value) (parent : FrameId) :
    l.Le (l.push site values parent) where
  site f s known := by
    have old : f ≠ l.frames.next := Nat.ne_of_lt (placed f s known)
    simp only [push, if_neg old, known]
  parent f g known := by
    have old : f ≠ l.frames.next := Nat.ne_of_lt (Frames.lt_of_parent? known)
    simp only [push, Frames.parent?_push, if_neg old, known]
  bound f x value known proper := by
    have old : f ≠ l.frames.next := Nat.ne_of_lt (Frames.lt_of_lookup? known)
    simp only [push, Frames.lookup?_push, if_neg old]
    exact ⟨value, known, proper⟩

theorem Placed.push (h : l.Placed) (site : Site) (values : Bindings Value) (parent : FrameId) :
    (l.push site values parent).Placed := by
  intro f s known
  simp only [Layout.push, Frames.size_push] at known ⊢
  split at known
  · next same =>
    subst same
    exact Nat.lt_succ_self _
  · exact Nat.lt_succ_of_lt (h f s known)

/-- A new frame is an activation of its scope, inside those that its parent is in. -/
theorem Chain.push (placed : l.Placed) (h : l.Chain c f) (values : Bindings Value)
    (names : ∀ x ∈ s.names, ∃ value, values.get? x = some value ∧ Proper x value)
    (settled : s.pending = none) :
    (l.push s.site values f).Chain (s :: c) l.frames.next := by
  refine ⟨⟨?_, fun x member => ?_, fun x pending => ?_⟩, f, ?_, h.mono (le_push placed ..)⟩
  · simp only [Layout.push, if_true]
  · simp only [Layout.push, Frames.lookup?_push, if_true]
    exact names x member
  · rw [settled] at pending
    cases pending
  · simp only [Layout.push, Frames.parent?_push, if_true]

/-- A declared name is bound in the innermost frame. -/
theorem Chain.define (h : l.Chain c f) (value : Value) (ordinary : Ordinary name) :
    (l.define f name value).Chain (c.declare name) f := by
  have later := h.mono (le_define l f value ordinary)
  cases c with
  | nil => exact later
  | cons s outer =>
    obtain ⟨active, g, parent, rest⟩ := later
    have inside : f < l.frames.all.size := by
      rw [← Frames.size_define l.frames f name value]
      exact Frames.lt_of_parent? parent
    refine ⟨⟨active.site, fun x member => ?_, nofun⟩, g, parent, rest⟩
    rcases List.mem_cons.1 member with rfl | member
    · refine ⟨value, ?_, ordinary.proper value⟩
      simp only [Layout.define, Frames.lookup?_define, inside, and_self, if_true]
    · exact active.names x member

theorem Chain.announce (h : l.Chain c f) (ordinary : Ordinary name) :
    l.Chain (c.announce name) f := by
  cases c with
  | nil => exact h
  | cons s outer =>
    obtain ⟨active, rest⟩ := h
    refine ⟨⟨active.site, active.names, fun x pending => ?_⟩, rest⟩
    obtain rfl : name = x := Option.some.inj pending
    exact ordinary

/-- Behind a declaration the variable that was being initialized is like any other. -/
theorem Chain.define_announced (h : l.Chain (c.announce name) f) (value : Value)
    (ordinary : Ordinary name) : (l.define f name value).Chain (c.declare name) f := by
  rw [← Context.declare_announce c name name]
  exact h.define value ordinary

/-- As many frames out as there are scopes in between stands the activation of a scope. -/
theorem Chain.ancestor {around : Context} (h : l.Chain around f) {d : Nat}
    (found : around[d]? = some s) :
    ∃ g, l.frames.ancestor? f d = some g ∧ l.Activates g s ∧ l.Chain (around.drop d) g := by
  induction d generalizing around f with
  | zero =>
    cases around with
    | nil => cases found
    | cons s' outer =>
      obtain rfl : s' = s := Option.some.inj found
      exact ⟨f, rfl, h.1, h⟩
  | succ d ih =>
    cases around with
    | nil => cases found
    | cons s' outer =>
      obtain ⟨-, g, parent, rest⟩ := h
      obtain ⟨g', ancestor, active⟩ := ih rest found
      exact ⟨g', by simp only [Frames.ancestor?, parent, ancestor], active⟩

/-- No initializer of `this` or `super` is ever begun. -/
theorem Chain.pending_ne (h : l.Chain c f) (special : ¬ Ordinary name) :
    ∀ s ∈ c, s.pending ≠ some name := by
  induction c generalizing f with
  | nil => exact List.forall_mem_nil _
  | cons s outer ih =>
    obtain ⟨active, g, -, rest⟩ := h
    exact List.forall_mem_cons.2 ⟨fun pending => special (active.pending name pending), ih rest⟩

/-- A name that is declared, and not only about to be, is bound at its distance. -/
theorem Chain.getAt? (h : l.Chain c f) {d : Nat} (found : c.distance? name = some d)
    (complete : ∀ s ∈ c, s.pending ≠ some name) :
    ∃ value, l.frames.getAt? f d name = some value ∧ Proper name value := by
  obtain ⟨s, place, declares, -⟩ := Context.distance?_eq_some found
  obtain ⟨g, ancestor, active, -⟩ := h.ancestor place
  have member : name ∈ s.names :=
    declares.resolve_right (complete s (List.mem_of_getElem? place))
  obtain ⟨value, bound, proper⟩ := active.names name member
  exact ⟨value, by rw [Frames.getAt?, ancestor, Option.bind_some, bound], proper⟩

end Layout

end Treewalk
