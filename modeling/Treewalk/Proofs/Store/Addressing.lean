import Mathlib.Data.Fintype.EquivFin
import Mathlib.Data.List.Nodup
import Mathlib.Order.Bounds.Basic
import Mathlib.Order.WellFounded
import Mathlib.Tactic.IntervalCases
import Treewalk.Proofs.Store.Frames
import Treewalk.Run.Machine

/-!
# The two ways to address a variable

Frames are shared by many chains, so one variable has many addresses: a frame and a distance. A
write through one of them is seen through exactly those that lead to the same frame with the same
name. A search by name comes to the least distance at which the name is bound, and is that address
from there on.
-/

namespace Treewalk

namespace Frames

variable {frames frames' : Frames} {f g : FrameId} {chain : List FrameId} {name : String}

/-- The frames from `f` outwards: `f` is the first one, and around the last one there is none. -/
inductive Chain (frames : Frames) : FrameId → List FrameId → Prop
  | outermost {f : FrameId} (isFrame : f < frames.all.size) (alone : frames.parent? f = none) :
    frames.Chain f [f]
  | within {f outer : FrameId} {chain : List FrameId} (parent : frames.parent? f = some outer)
    (around : frames.Chain outer chain) : frames.Chain f (f :: chain)

/-- What stands around a frame is a frame, and no frame stands around itself, at whatever
distance. -/
structure Acyclic (frames : Frames) : Prop where
  closed : ∀ f outer, frames.parent? f = some outer → outer < frames.all.size
  noCircle : ∀ f distance, frames.ancestor? f (distance + 1) ≠ some f

/-- The frame at a distance binds a name. -/
def BindsAt (frames : Frames) (f : FrameId) (name : String) (distance : Nat) : Prop :=
  ∃ g, frames.ancestor? f distance = some g ∧ (frames.lookup? g name).isSome = true

/-- The frames were changed as by an assignment through one address: it is seen through all
addresses of the same variable, and through no others. -/
def AssignedAt (frames : Frames) (f : FrameId) (distance : Nat) (name : String) (value : Value)
    (frames' : Frames) : Prop :=
  ∀ g other name', frames'.getAt? g other name' =
    if name' = name ∧ frames.ancestor? g other = frames.ancestor? f distance then some value
    else frames.getAt? g other name'

/-! ### Distances -/

theorem ancestor?_succ (distance : Nat) :
    frames.ancestor? f (distance + 1) =
      (frames.parent? f).bind fun outer => frames.ancestor? outer distance := by
  rw [ancestor?]
  cases frames.parent? f <;> rfl

theorem ancestor?_add (distance more : Nat) :
    frames.ancestor? f (distance + more) =
      (frames.ancestor? f distance).bind fun g => frames.ancestor? g more := by
  induction distance generalizing f with
  | zero =>
    rw [Nat.zero_add]
    rfl
  | succ distance ih =>
    rw [Nat.succ_add, ancestor?_succ, ancestor?_succ]
    cases frames.parent? f with
    | none => rfl
    | some outer => exact ih

theorem ancestor?_define (value : Value) (distance : Nat) :
    (frames.define f name value).ancestor? g distance = frames.ancestor? g distance := by
  induction distance generalizing g with
  | zero => rfl
  | succ distance ih => simp only [ancestor?_succ, parent?_define, ih]

theorem bindsAt_iff {distance : Nat} :
    frames.BindsAt f name distance ↔ (frames.getAt? f distance name).isSome = true := by
  unfold BindsAt getAt?
  cases frames.ancestor? f distance <;> simp

/-! ### Chains -/

namespace Chain

variable (h : frames.Chain f chain)
include h

/-- The frame at a distance is the one at that place of the chain. -/
theorem getElem?_eq (distance : Nat) : chain[distance]? = frames.ancestor? f distance := by
  induction h generalizing distance with
  | outermost isFrame alone =>
    cases distance with
    | zero => rfl
    | succ distance => simp [ancestor?_succ, alone]
  | within parent around ih =>
    cases distance with
    | zero => rfl
    | succ distance => simp [ancestor?_succ, parent, ih]

theorem ancestor?_eq_none {distance : Nat} :
    frames.ancestor? f distance = none ↔ chain.length ≤ distance := by
  rw [← h.getElem?_eq, List.getElem?_eq_none_iff]

theorem isFrame : ∀ g ∈ chain, g < frames.all.size := by
  induction h with
  | outermost isFrame alone => simpa using isFrame
  | within parent around ih => simpa using ⟨lt_of_parent? parent, ih⟩

theorem nodup (acyclic : frames.Acyclic) : chain.Nodup := by
  rw [List.nodup_iff_getElem?_ne_getElem?]
  intro i j before inside same
  obtain ⟨more, rfl⟩ := Nat.exists_eq_add_of_lt before
  have known : chain[i]? = some chain[i] := List.getElem?_eq_getElem _
  rw [known, h.getElem?_eq, Nat.add_assoc, ancestor?_add, ← h.getElem?_eq, known] at same
  exact acyclic.noCircle _ _ same.symm

/-- A chain is no longer than there are frames. -/
theorem length_le (acyclic : frames.Acyclic) : chain.length ≤ frames.all.size := by
  have inside : chain ⊆ List.range frames.all.size := by
    intro g member
    exact List.mem_range.2 (h.isFrame g member)
  simpa using ((h.nodup acyclic).subperm inside).length_le

end Chain

/-- One frame stands outside of another one. -/
def Outside (frames : Frames) (a b : Fin frames.all.size) : Prop :=
  ∃ distance, frames.ancestor? b (distance + 1) = some a.val

/-- There are finitely many frames, so going outwards comes to an end. -/
theorem Acyclic.wellFounded_outside (acyclic : frames.Acyclic) : WellFounded frames.Outside := by
  have trans : IsTrans _ frames.Outside := by
    constructor
    rintro a b c ⟨d, outside⟩ ⟨e, outside'⟩
    refine ⟨e + 1 + d, ?_⟩
    rw [Nat.add_assoc, ancestor?_add, outside', Option.bind_some, outside]
  have irrefl : Std.Irrefl frames.Outside := ⟨fun a ⟨d, circle⟩ => acyclic.noCircle a d circle⟩
  exact Finite.wellFounded_of_trans_of_irrefl _

theorem Acyclic.exists_chain (acyclic : frames.Acyclic) (isFrame : f < frames.all.size) :
    ∃ chain, frames.Chain f chain := by
  obtain ⟨f, rfl⟩ : ∃ i : Fin frames.all.size, i.val = f := ⟨⟨f, isFrame⟩, rfl⟩
  induction f using acyclic.wellFounded_outside.induction with
  | _ f ih =>
    cases parent : frames.parent? f with
    | none => exact ⟨_, .outermost f.isLt parent⟩
    | some outer =>
      have outerFrame := acyclic.closed f outer parent
      have outside : frames.ancestor? f 1 = some outer := by rw [ancestor?_succ, parent]; rfl
      obtain ⟨chain, around⟩ := ih ⟨outer, outerFrame⟩ ⟨0, outside⟩ outerFrame
      exact ⟨_, .within parent around⟩

/-- Frames that each stand inside of an older one are in no circle. -/
theorem acyclic_of_older (older : ∀ f outer, frames.parent? f = some outer → outer < f) :
    frames.Acyclic := by
  have outwards : ∀ distance f g, frames.ancestor? f (distance + 1) = some g → g < f := by
    intro distance
    induction distance with
    | zero =>
      intro f g there
      rw [ancestor?_succ] at there
      obtain ⟨outer, parent, there⟩ := Option.bind_eq_some_iff.1 there
      obtain rfl : outer = g := Option.some.inj there
      exact older f outer parent
    | succ distance ih =>
      intro f g there
      rw [ancestor?_succ] at there
      obtain ⟨outer, parent, there⟩ := Option.bind_eq_some_iff.1 there
      exact (ih outer g there).trans (older f outer parent)
  constructor
  · intro f outer parent
    exact (older f outer parent).trans (lt_of_parent? parent)
  · intro f distance circle
    exact Nat.lt_irrefl f (outwards distance f f circle)

/-! ### Assignments at a distance -/

theorem assignAt?_eq_none {distance : Nat} {value : Value} :
    frames.assignAt? f distance name value = none ↔ frames.ancestor? f distance = none :=
  Option.map_eq_none_iff

theorem assignedAt_define {distance : Nat} (value : Value) (isFrame : g < frames.all.size)
    (there : frames.ancestor? f distance = some g) :
    frames.AssignedAt f distance name value (frames.define g name value) := by
  intro from' other name'
  rw [getAt?, getAt?, ancestor?_define, there]
  cases frames.ancestor? from' other with
  | none => simp
  | some target =>
    simp only [Option.bind_some, lookup?_define, Option.some.injEq, isFrame, and_true]
    simp only [and_comm]

/-! ### Searches by name -/

/-- A search comes to the nearest frame that binds the name, if it is given the steps. -/
theorem search_of_least {distance steps : Nat} {value : Value}
    (there : frames.ancestor? f distance = some g) (bound : frames.lookup? g name = some value)
    (least : ∀ nearer < distance, frames.getAt? f nearer name = none) (enough : distance < steps) :
    frames.search name steps f = some (g, value) := by
  induction distance generalizing f steps with
  | zero =>
    obtain ⟨steps, rfl⟩ := Nat.exists_eq_succ_of_ne_zero (Nat.ne_zero_of_lt enough)
    cases there
    rw [search, bound]
  | succ distance ih =>
    obtain ⟨steps, rfl⟩ := Nat.exists_eq_succ_of_ne_zero (Nat.ne_zero_of_lt enough)
    have here := least 0 (Nat.succ_pos distance)
    rw [getAt?_zero] at here
    rw [ancestor?_succ] at there
    obtain ⟨outer, parent, there⟩ := Option.bind_eq_some_iff.1 there
    rw [search, here, parent]
    apply ih there _ (Nat.lt_of_succ_lt_succ enough)
    intro nearer closer
    have none := least (nearer + 1) (Nat.succ_lt_succ closer)
    rwa [getAt?_succ parent] at none

theorem search_eq_none {steps : Nat} (unbound : ∀ distance, frames.getAt? f distance name = none) :
    frames.search name steps f = none := by
  induction steps generalizing f with
  | zero => rfl
  | succ steps ih =>
    have here := unbound 0
    rw [getAt?_zero] at here
    rw [search, here]
    cases parent : frames.parent? f with
    | none => rfl
    | some outer =>
      apply ih
      intro distance
      have none := unbound (distance + 1)
      rwa [getAt?_succ parent] at none

theorem find?_eq_none (unbound : ∀ distance, ¬ frames.BindsAt f name distance) :
    frames.find? f name = none := by
  apply search_eq_none
  intro distance
  have none := unbound distance
  rwa [bindsAt_iff, Bool.not_eq_true, Option.isSome_eq_false_iff, Option.isNone_iff_eq_none]
    at none

/-- The frame that a search finds is the nearest one that binds the name. -/
theorem Acyclic.find?_eq (acyclic : frames.Acyclic) {distance : Nat}
    (least : IsLeast {d | frames.BindsAt f name d} distance) :
    ∃ value, frames.getAt? f distance name = some value ∧
      frames.find? f name = (frames.ancestor? f distance).map fun g => (g, value) := by
  obtain ⟨g, there, bound⟩ := least.1
  obtain ⟨value, bound⟩ := Option.isSome_iff_exists.1 bound
  have nearer : ∀ nearer < distance, frames.getAt? f nearer name = none := by
    intro nearer closer
    have unbound : ¬ frames.BindsAt f name nearer := fun binds =>
      Nat.not_lt.2 (least.2 binds) closer
    rwa [bindsAt_iff, Bool.not_eq_true, Option.isSome_eq_false_iff, Option.isNone_iff_eq_none]
      at unbound
  refine ⟨value, ?_, ?_⟩
  · rw [getAt?, there, Option.bind_some, bound]
  · have isFrame : f < frames.all.size := by
      cases distance with
      | zero =>
        cases there
        exact lt_of_lookup? bound
      | succ distance =>
        rw [ancestor?_succ] at there
        obtain ⟨outer, parent, -⟩ := Option.bind_eq_some_iff.1 there
        exact lt_of_parent? parent
    obtain ⟨chain, h⟩ := acyclic.exists_chain isFrame
    have inside : distance < chain.length := by
      rw [← Nat.not_le, ← h.ancestor?_eq_none, there]
      exact Option.some_ne_none g
    have enough := h.length_le acyclic
    rw [there, Option.map_some]
    exact search_of_least there bound nearer (by omega)

/-- An assignment by name succeeds exactly if the name is bound. -/
theorem assign?_eq_none {value : Value} :
    frames.assign? f name value = none ↔ frames.get? f name = none := by
  rw [assign?, get?, Option.map_eq_none_iff, Option.map_eq_none_iff]

/-- What a search finds is bound. -/
theorem lookup?_of_search {steps : Nat} {found : FrameId × Value}
    (ended : frames.search name steps f = some found) :
    frames.lookup? found.1 name = some found.2 := by
  induction steps generalizing f with
  | zero => cases ended
  | succ steps ih =>
    rw [search] at ended
    split at ended
    · next value bound =>
      cases ended
      exact bound
    · split at ended
      · exact ih ended
      · cases ended

/-- An assignment by name writes where the name is bound already. -/
theorem lookup?_assign?_isSome {value : Value}
    (assigned : frames.assign? f name value = some frames') (g : FrameId) (other : String) :
    (frames'.lookup? g other).isSome = (frames.lookup? g other).isSome := by
  obtain ⟨found, ended, rfl⟩ := Option.map_eq_some_iff.1 assigned
  rw [lookup?_define]
  split
  · next same =>
    obtain ⟨rfl, rfl, -⟩ := same
    rw [lookup?_of_search ended]
    rfl
  · rfl

/-- What is said of the frames around `f`, which are `chain`, by the two ways to address them. -/
structure Addressing (frames : Frames) (f : FrameId) (chain : List FrameId) : Prop where
  isChain : frames.Chain f chain
  hops (distance : Nat) : frames.ancestor? f distance = chain[distance]?
  /-- An assignment at a distance fails only where the chain is too short. -/
  tooFar (distance : Nat) (name : String) (value : Value) :
    frames.assignAt? f distance name value = none ↔ chain.length ≤ distance
  assignedAt (distance : Nat) (name : String) (value : Value) (frames' : Frames) :
    frames.assignAt? f distance name value = some frames' →
      frames.AssignedAt f distance name value frames'
  /-- A name that is bound nowhere is not found. -/
  unbound (name : String) :
    (∀ distance, ¬ frames.BindsAt f name distance) → frames.get? f name = none
  /-- By its name a variable is read and assigned in the nearest frame that binds it. -/
  nearest (name : String) (distance : Nat) :
    IsLeast {d | frames.BindsAt f name d} distance →
      (∃ value, frames.get? f name = some value) ∧
      frames.get? f name = frames.getAt? f distance name ∧
      ∀ value, frames.assign? f name value = frames.assignAt? f distance name value
  assignable (name : String) (value : Value) :
    frames.assign? f name value = none ↔ frames.get? f name = none
  creates (name : String) (value : Value) (frames' : Frames) :
    frames.assign? f name value = some frames' →
      ∀ g other, (frames'.lookup? g other).isSome = (frames.lookup? g other).isSome

theorem Chain.addressing (acyclic : frames.Acyclic) (h : frames.Chain f chain) :
    frames.Addressing f chain where
  isChain := h
  hops distance := (h.getElem?_eq distance).symm
  tooFar distance name value := by rw [assignAt?_eq_none, h.ancestor?_eq_none]
  assignedAt distance name value frames' assigned := by
    obtain ⟨g, there, rfl⟩ := Option.map_eq_some_iff.1 assigned
    apply assignedAt_define value _ there
    rw [← h.getElem?_eq] at there
    exact h.isFrame g (List.mem_of_getElem? there)
  unbound name unbound := by rw [get?, find?_eq_none unbound, Option.map_none]
  nearest name distance least := by
    obtain ⟨value, bound, found⟩ := acyclic.find?_eq least
    obtain ⟨g, there, -⟩ := least.1
    rw [there, Option.map_some] at found
    have read : frames.get? f name = some value := by rw [get?, found, Option.map_some]
    refine ⟨⟨value, read⟩, read.trans bound.symm, fun value' => ?_⟩
    rw [assign?, found, assignAt?, there, Option.map_some, Option.map_some]
  assignable name value := assign?_eq_none
  creates name value frames' assigned := lookup?_assign?_isSome assigned

end Frames

/-- How an assignment on a machine ends: with the frames that it leaves, or else with an error that
names the variable, and the machine as it was. -/
def Machine.assigned (m : Machine) (name : Token) : Option Frames → EStateM.Result Stop Machine Unit
  | some frames => .ok () { m with store := { m.store with frames } }
  | none => .error (.fault ⟨.undefinedVariable name.lexeme, name.line⟩) m

theorem Run.assignVariable_eq (id : NodeId) (name : Token) (value : Value) (m : Machine) :
    assignVariable id name value m = m.assigned name
      (match m.distances.get? id with
        | some distance => m.store.frames.assignAt? m.env distance name.lexeme value
        | none => m.store.frames.assign? m.globals name.lexeme value) := by
  simp only [assignVariable, bind, EStateM.bind, gets, assignedFrame?]
  cases m.distances.get? id with
  | some distance =>
    dsimp only [Frames.assignAt?]
    cases m.store.frames.ancestor? m.env distance <;> rfl
  | none =>
    dsimp only [Frames.assign?]
    cases m.store.frames.find? m.globals name.lexeme <;> rfl

/-- In frames without circles each frame stands at the beginning of one finite chain, and distances
and names address it by the same laws. An assignment on a machine is one of these, and where it
fails the machine is as it was. -/
theorem frames_addressed (frames : Frames) (acyclic : frames.Acyclic) :
    (∀ f, f < frames.all.size → ∃ chain, frames.Addressing f chain) ∧
    ∀ (m : Machine) (id : NodeId) (name : Token) (value : Value), m.store.frames = frames →
      Run.assignVariable id name value m = m.assigned name
        (match m.distances.get? id with
          | some distance => frames.assignAt? m.env distance name.lexeme value
          | none => frames.assign? m.globals name.lexeme value) := by
  constructor
  · intro f isFrame
    obtain ⟨chain, h⟩ := acyclic.exists_chain isFrame
    exact ⟨chain, h.addressing acyclic⟩
  · rintro m id name value rfl
    exact Run.assignVariable_eq id name value m

/-- A global frame, a frame in it that hides the global variable, and two frames in that one. -/
def hidingFrames : Frames :=
  (((Frames.empty.push ((∅ : Bindings Value).put "a" (.bool true)) none).push
    ((∅ : Bindings Value).put "a" .nil) (some 0)).push ∅ (some 1)).push ∅ (some 1)

theorem hidingFrames_acyclic : hidingFrames.Acyclic := by
  apply Frames.acyclic_of_older
  intro f outer parent
  have isFrame : f < 4 := Frames.lt_of_parent? parent
  interval_cases f <;> cases parent <;> decide

/-- What is assigned from one of the two inner frames is read from the other one, and the global
variable stays. -/
theorem frames_addressed_hiding :
    ∃ frames', hidingFrames.assignAt? 2 1 "a" (.bool false) = some frames' ∧
      frames'.getAt? 3 1 "a" = some (.bool false) ∧ frames'.getAt? 3 2 "a" = some (.bool true) ∧
      hidingFrames.assignAt? 2 3 "a" .nil = none := by
  obtain ⟨addressed, -⟩ := frames_addressed hidingFrames hidingFrames_acyclic
  obtain ⟨chain, laws⟩ := addressed 2 (by decide)
  have written := laws.assignedAt 1 "a" (.bool false) _ rfl
  refine ⟨_, rfl, ?_, ?_, ?_⟩
  · rw [written, if_pos ⟨rfl, rfl⟩]
  · rw [written, if_neg (by decide)]
    rfl
  · rw [laws.tooFar, ← List.getElem?_eq_none_iff, ← laws.hops]
    rfl

end Treewalk
