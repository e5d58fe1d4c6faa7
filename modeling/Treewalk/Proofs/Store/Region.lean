import Treewalk.Operator
import Treewalk.Proofs.Store.Frames
import Treewalk.Store

/-!
# Regions of a store

What is reached from a frame, by way of variables, frames, functions, classes and instances, is a
region that no step out of it leads. A `Region` may also hold numbers that are not given yet. Then
whatever is made of things in the region is in it, and it stays closed as the store grows.
-/

namespace Treewalk

/-- Something that a store holds under a number. -/
inductive Held where
  | frame (id : FrameId)
  | function (id : FunctionId)
  | cls (id : ClassId)
  | object (id : InstanceId)

/-- What a value refers to. -/
def Value.held? : Value → Option Held
  | .function id => some (.function id)
  | .cls id => some (.cls id)
  | .object id => some (.object id)
  | .nil | .bool _ | .number _ | .text _ | .clock => none

namespace Store

/-- What is reached from a frame. -/
inductive Reaches (s : Store) (root : FrameId) : Held → Prop where
  | root : s.Reaches root (.frame root)
  | variable {f frame name value held} : s.Reaches root (.frame f) →
      s.frames.all[f]? = some frame → frame.values.get? name = some value →
      value.held? = some held → s.Reaches root held
  | parent {f frame outer} : s.Reaches root (.frame f) → s.frames.all[f]? = some frame →
      frame.parent = some outer → s.Reaches root (.frame outer)
  | closure {f c} : s.Reaches root (.function f) → s.functions[f]? = some c →
      s.Reaches root (.frame c.frame)
  | method {k cls name c} : s.Reaches root (.cls k) → s.classes[k]? = some cls →
      cls.methods.get? name = some c → s.Reaches root (.frame c.frame)
  | superclass {k cls above} : s.Reaches root (.cls k) → s.classes[k]? = some cls →
      cls.superclass = some above → s.Reaches root (.cls above)
  | ofClass {i x} : s.Reaches root (.object i) → s.instances[i]? = some x →
      s.Reaches root (.cls x.ofClass)
  | field {i x name value held} : s.Reaches root (.object i) → s.instances[i]? = some x →
      x.fields.get? name = some value → value.held? = some held → s.Reaches root held

/-- A function or a method that is reached from a frame. -/
inductive ReachesCode (s : Store) (root : FrameId) : Closure → Prop where
  | function {f c} : s.Reaches root (.function f) → s.functions[f]? = some c →
      s.ReachesCode root c
  | method {k cls name c} : s.Reaches root (.cls k) → s.classes[k]? = some cls →
      cls.methods.get? name = some c → s.ReachesCode root c

end Store

/-- A part of a store, by numbers. -/
abbrev Region := Held → Prop

/-- The value refers to nothing outside of the region. -/
def Value.In (R : Region) (value : Value) : Prop := ∀ held ∈ value.held?, R held

structure Frame.In (R : Region) (frame : Frame) : Prop where
  values : ∀ name value, frame.values.get? name = some value → value.In R
  parent : ∀ outer ∈ frame.parent, R (.frame outer)

structure Closure.In (R : Region) (fit : FunctionDecl → Prop) (c : Closure) : Prop where
  frame : R (.frame c.frame)
  decl : fit c.decl

structure Class.In (R : Region) (fit : FunctionDecl → Prop) (cls : Class) : Prop where
  superclass : ∀ above ∈ cls.superclass, R (.cls above)
  methods : ∀ name c, cls.methods.get? name = some c → c.In R fit

structure Instance.In (R : Region) (x : Instance) : Prop where
  ofClass : R (.cls x.ofClass)
  fields : ∀ name value, x.fields.get? name = some value → value.In R

/-- What stands under these numbers is good; they include all numbers that are not given yet. -/
structure Guarded {α : Type} (ids : Nat → Prop) (good : α → Prop) (xs : Array α) : Prop where
  good : ∀ i x, ids i → xs[i]? = some x → good x
  fresh : ∀ i, xs.size ≤ i → ids i

namespace Guarded

variable {α : Type} {ids : Nat → Prop} {good : α → Prop} {xs : Array α}

theorem push (h : Guarded ids good xs) {x : α} (this : good x) : Guarded ids good (xs.push x) where
  good i y member found := by
    rw [Array.getElem?_push] at found
    split at found
    · cases found
      exact this
    · exact h.good i y member found
  fresh i old := by
    rw [Array.size_push] at old
    exact h.fresh i (Nat.le_of_succ_le old)

theorem modify (h : Guarded ids good xs) (j : Nat) {f : α → α} (keeps : ∀ x, good x → good (f x)) :
    Guarded ids good (xs.modify j f) where
  good i y member found := by
    rw [Array.getElem?_modify] at found
    split at found
    · obtain ⟨x, there, rfl⟩ := Option.map_eq_some_iff.1 found
      exact keeps x (h.good i x member there)
    · exact h.good i y member found
  fresh i old := h.fresh i (by simpa using old)

end Guarded

/-- The region is closed in the store, and the functions in it are fit. -/
structure Store.In (R : Region) (fit : FunctionDecl → Prop) (s : Store) : Prop where
  frames : Guarded (fun f => R (.frame f)) (Frame.In R) s.frames.all
  functions : Guarded (fun f => R (.function f)) (Closure.In R fit) s.functions
  classes : Guarded (fun k => R (.cls k)) (Class.In R fit) s.classes
  instances : Guarded (fun i => R (.object i)) (Instance.In R) s.instances

theorem Bindings.empty_in {R : Region} (name : String) (value : Value)
    (found : (∅ : Bindings Value).get? name = some value) : value.In R := nomatch found

theorem Bindings.put_in {R : Region} {b : Bindings Value}
    (h : ∀ name value, b.get? name = some value → value.In R) {name : String} {value : Value}
    (this : value.In R) (other : String) (value' : Value)
    (found : (b.put name value).get? other = some value') : value'.In R := by
  rw [Bindings.get?_put] at found
  split at found
  · cases found
    exact this
  · exact h other value' found

theorem Value.in_nil (R : Region) : Value.nil.In R := fun _ none => nomatch none

/-! ## What an operator yields -/

theorem unaryOperator_in {R : Region} {operator : TokenKind} {right value : Value}
    (h : unaryOperator operator right = .ok value) : value.In R := by
  unfold unaryOperator at h
  repeat' split at h
  all_goals cases h
  all_goals exact nofun

theorem onNumbers_in {R : Region} {f : Float → Float → Value} (plain : ∀ x y, (f x y).In R)
    {left right value : Value} (h : onNumbers f left right = .ok value) : value.In R := by
  unfold onNumbers at h
  split at h <;> cases h
  exact plain _ _

theorem binaryOperator_in {R : Region} {operator : TokenKind} {left right value : Value}
    (h : binaryOperator operator left right = .ok value) : value.In R := by
  unfold binaryOperator at h
  split at h
  · split at h <;> cases h <;> exact nofun
  all_goals first
    | exact onNumbers_in (fun _ _ => nofun) h
    | cases h
  all_goals exact nofun

namespace Store.In

variable {R : Region} {fit : FunctionDecl → Prop} {s : Store} (h : s.In R fit)
include h

/-! ## Changes of the store -/

theorem define (f : FrameId) (name : String) {value : Value} (this : value.In R) :
    (s.define f name value).In R fit := by
  have defined : Guarded (fun f => R (.frame f)) (Frame.In R)
      (s.frames.all.modify f fun frame => { frame with values := frame.values.put name value }) :=
    h.frames.modify f fun frame good => ⟨Bindings.put_in good.values this, good.parent⟩
  exact { h with frames := defined }

theorem pushFrame {values : Bindings Value} {parent : Option FrameId}
    (this : Frame.In R ⟨values, parent⟩) : (s.pushFrame values parent).In R fit :=
  { h with frames := h.frames.push this }

theorem pushFunction {c : Closure} (this : c.In R fit) : (s.pushFunction c).In R fit :=
  { h with functions := h.functions.push this }

theorem pushClass {cls : Class} (this : cls.In R fit) : (s.pushClass cls).In R fit :=
  { h with classes := h.classes.push this }

theorem pushInstance {x : Instance} (this : x.In R) : (s.pushInstance x).In R fit :=
  { h with instances := h.instances.push this }

theorem setField (i : InstanceId) (name : String) {value : Value} (this : value.In R) :
    (s.setField i name value).In R fit := by
  have stored : Guarded (fun i => R (.object i)) (Instance.In R)
      (s.instances.modify i fun x => { x with fields := x.fields.put name value }) :=
    h.instances.modify i fun x good => ⟨good.ofClass, Bindings.put_in good.fields this⟩
  exact { h with instances := stored }

/-! ## What is read off the store -/

theorem lookup? {f : FrameId} (member : R (.frame f)) {name : String} {value : Value}
    (found : s.frames.lookup? f name = some value) : value.In R := by
  obtain ⟨frame, there, bound⟩ := Option.bind_eq_some_iff.1 found
  exact (h.frames.good f frame member there).values name value bound

theorem parent? {f outer : FrameId} (member : R (.frame f))
    (found : s.frames.parent? f = some outer) : R (.frame outer) := by
  obtain ⟨frame, there, parent⟩ := Option.bind_eq_some_iff.1 found
  exact (h.frames.good f frame member there).parent outer parent

theorem ancestor? {f g : FrameId} (member : R (.frame f)) {distance : Nat}
    (found : s.frames.ancestor? f distance = some g) : R (.frame g) := by
  induction distance generalizing f with
  | zero =>
    cases found
    exact member
  | succ distance ih =>
    rw [Frames.ancestor?] at found
    split at found
    · next outer parent => exact ih (h.parent? member parent) found
    · cases found

theorem getAt? {f : FrameId} (member : R (.frame f)) {distance : Nat} {name : String}
    {value : Value} (found : s.frames.getAt? f distance name = some value) : value.In R := by
  obtain ⟨g, outer, bound⟩ := Option.bind_eq_some_iff.1 found
  exact h.lookup? (h.ancestor? member outer) bound

theorem search {f : FrameId} (member : R (.frame f)) {name : String} {steps : Nat}
    {found : FrameId × Value} (ended : s.frames.search name steps f = some found) :
    found.2.In R := by
  induction steps generalizing f with
  | zero => cases ended
  | succ steps ih =>
    rw [Frames.search] at ended
    split at ended
    · next value bound =>
      cases ended
      exact h.lookup? member bound
    · split at ended
      · next outer parent => exact ih (h.parent? member parent) ended
      · cases ended

theorem get? {f : FrameId} (member : R (.frame f)) {name : String} {value : Value}
    (found : s.frames.get? f name = some value) : value.In R := by
  obtain ⟨pair, ended, rfl⟩ := Option.map_eq_some_iff.1 found
  exact h.search member ended

theorem searchMethod {k : ClassId} (member : R (.cls k)) {name : String} {steps : Nat}
    {c : Closure} (found : s.searchMethod name steps k = some c) : c.In R fit := by
  induction steps generalizing k with
  | zero => cases found
  | succ steps ih =>
    rw [Store.searchMethod] at found
    split at found
    · cases found
    · next cls there =>
      have good := h.classes.good k cls member there
      split at found
      · next method own =>
        cases found
        exact good.methods name c own
      · split at found
        · next above inherited => exact ih (good.superclass above inherited) found
        · cases found

theorem method? {k : ClassId} (member : R (.cls k)) {name : String} {c : Closure}
    (found : s.method? k name = some c) : c.In R fit :=
  h.searchMethod member found

end Store.In

namespace Store

/-- The number is given already. -/
def Gives (s : Store) : Held → Prop
  | .frame f => f < s.frames.all.size
  | .function f => f < s.functions.size
  | .cls k => k < s.classes.size
  | .object i => i < s.instances.size

/-- What is reached from a frame, and all that is still to come. -/
def region (s : Store) (root : FrameId) : Region := fun held => s.Reaches root held ∨ ¬ s.Gives held

theorem region_root (s : Store) (root : FrameId) : s.region root (.frame root) := .inl .root

/-- What is given already and in the region is reached. -/
theorem reaches_of_region {s : Store} {root : FrameId} {held : Held} (h : s.region root held)
    (given : s.Gives held) : s.Reaches root held :=
  h.resolve_right (not_not_intro given)

/-- The region of a frame is closed. -/
theorem region_closed {s : Store} {root : FrameId} {fit : FunctionDecl → Prop}
    (codes : ∀ c, s.ReachesCode root c → fit c.decl) : s.In (s.region root) fit where
  frames := by
    refine ⟨fun f frame member there => ?_, fun f new => .inr (Nat.not_lt.2 new)⟩
    have reached := reaches_of_region member (Array.getElem?_eq_some_iff.1 there).1
    refine ⟨fun name value bound held refers => ?_, fun outer parent => ?_⟩
    · exact .inl (reached.variable there bound refers)
    · exact .inl (reached.parent there parent)
  functions := by
    refine ⟨fun f c member there => ?_, fun f new => .inr (Nat.not_lt.2 new)⟩
    have reached := reaches_of_region member (Array.getElem?_eq_some_iff.1 there).1
    exact ⟨.inl (reached.closure there), codes c (.function reached there)⟩
  classes := by
    refine ⟨fun k cls member there => ?_, fun k new => .inr (Nat.not_lt.2 new)⟩
    have reached := reaches_of_region member (Array.getElem?_eq_some_iff.1 there).1
    refine ⟨fun above inherited => .inl (reached.superclass there inherited), fun name c own => ?_⟩
    exact ⟨.inl (reached.method there own), codes c (.method reached there own)⟩
  instances := by
    refine ⟨fun i x member there => ?_, fun i new => .inr (Nat.not_lt.2 new)⟩
    have reached := reaches_of_region member (Array.getElem?_eq_some_iff.1 there).1
    refine ⟨.inl (reached.ofClass there), fun name value bound held refers => ?_⟩
    exact .inl (reached.field there bound refers)

end Store

end Treewalk
