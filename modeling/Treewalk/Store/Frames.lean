import Treewalk.Store.Bindings
import Treewalk.Value

/-!
# Frames

A frame holds the variables of one activation of a scope and knows the frame around it. A variable
is addressed in two ways: by a distance, so many frames out and there by its name (`getAt?`,
`assignAt?`), or by its name alone, in the first frame that binds it (`get?`, `assign?`).
-/

namespace Treewalk

/-- The number of a frame. -/
abbrev FrameId := Nat

/-- The variables of a scope, and the frame around it. -/
structure Frame where
  values : Bindings Value
  parent : Option FrameId

/-- All frames that were ever created, by number. -/
structure Frames where
  all : Array Frame

namespace Frames

/-- No frames. -/
def empty : Frames := ⟨#[]⟩

/-- The number that the next frame gets. -/
def next (frames : Frames) : FrameId := frames.all.size

/-- A new frame. -/
def push (frames : Frames) (values : Bindings Value) (parent : Option FrameId) : Frames :=
  ⟨frames.all.push ⟨values, parent⟩⟩

/-- The frame around a frame. -/
def parent? (frames : Frames) (f : FrameId) : Option FrameId := frames.all[f]?.bind (·.parent)

/-- The value of a name in one frame. -/
def lookup? (frames : Frames) (f : FrameId) (name : String) : Option Value :=
  frames.all[f]?.bind (·.values.get? name)

/-- Binds a name in one frame. -/
def define (frames : Frames) (f : FrameId) (name : String) (value : Value) : Frames :=
  ⟨frames.all.modify f fun frame => { frame with values := frame.values.put name value }⟩

/-- The frame so many frames out from `f`. -/
def ancestor? (frames : Frames) (f : FrameId) : Nat → Option FrameId
  | 0 => some f
  | distance + 1 =>
    match frames.parent? f with
    | some outer => frames.ancestor? outer distance
    | none => none

/-- The value of a name in the frame at a distance. -/
def getAt? (frames : Frames) (f : FrameId) (distance : Nat) (name : String) : Option Value :=
  (frames.ancestor? f distance).bind fun g => frames.lookup? g name

/-- Binds a name in the frame at a distance, whether it is bound there or not; fails if the chain
of frames is too short. -/
def assignAt? (frames : Frames) (f : FrameId) (distance : Nat) (name : String) (value : Value) :
    Option Frames :=
  (frames.ancestor? f distance).map fun g => frames.define g name value

/-- The first frame that binds a name, of the next `steps` frames from `f` outwards, and the value
there. -/
def search (frames : Frames) (name : String) : Nat → FrameId → Option (FrameId × Value)
  | 0, _ => none
  | steps + 1, f =>
    match frames.lookup? f name with
    | some value => some (f, value)
    | none =>
      match frames.parent? f with
      | some outer => frames.search name steps outer
      | none => none

/-- The first frame from `f` outwards that binds a name, and the value there. A chain that does not
run in a circle is no longer than there are frames. -/
def find? (frames : Frames) (f : FrameId) (name : String) : Option (FrameId × Value) :=
  frames.search name frames.all.size f

/-- The value of a name in the first frame that binds it. -/
def get? (frames : Frames) (f : FrameId) (name : String) : Option Value :=
  (frames.find? f name).map (·.2)

/-- Binds a name in the first frame that binds it already; fails if none does. -/
def assign? (frames : Frames) (f : FrameId) (name : String) (value : Value) : Option Frames :=
  (frames.find? f name).map fun found => frames.define found.1 name value

end Frames

end Treewalk
