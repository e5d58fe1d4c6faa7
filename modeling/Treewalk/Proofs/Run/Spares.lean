import Treewalk.Proofs.Run.Carrier

/-!
# Operations on variables and output

What reads and writes variables, opens frames or writes output makes no function, class or instance
and stores in no field: it spares the heap.
-/

namespace Treewalk

/-- The functions, classes and instances are the same. -/
structure Machine.SameHeap (m m' : Machine) : Prop where
  functions : m'.store.functions = m.store.functions
  classes : m'.store.classes = m.store.classes
  instances : m'.store.instances = m.store.instances

namespace Machine.SameHeap

variable {m m' m'' : Machine}

theorem refl (m : Machine) : m.SameHeap m := ⟨rfl, rfl, rfl⟩

theorem trans (h : m.SameHeap m') (h' : m'.SameHeap m'') : m.SameHeap m'' :=
  ⟨h'.functions.trans h.functions, h'.classes.trans h.classes, h'.instances.trans h.instances⟩

end Machine.SameHeap

namespace Run

variable {α β : Type}

/-- From any machine the run ends with the same heap. -/
def Spares (p : Run α) : Prop := ∀ m : Machine, m.SameHeap (endState (p m))

namespace Spares

theorem pure (a : α) : Spares (pure a : Run α) := .refl

theorem gets (f : Machine → α) : Spares (gets f) := .refl

theorem fault (place : Token) (cause : RuntimeError.Cause) : Spares (fault place cause : Run α) :=
  .refl

theorem bind {p : Run α} {f : α → Run β} (first : Spares p) (next : ∀ a, Spares (f a)) :
    Spares (p >>= f) := by
  intro m
  have here := first m
  cases ran : p m with
  | ok a m' =>
    rw [ran] at here
    rw [bind_of_ok ran]
    exact here.trans (next a m')
  | error e m' =>
    rw [ran] at here
    rw [bind_of_error ran]
    exact here

theorem readVariable (id : NodeId) (name : Token) : Spares (readVariable id name) := by
  intro m
  unfold Run.readVariable
  dsimp only
  split <;> exact .refl m

theorem defineIn (f : FrameId) (name : String) (value : Value) : Spares (defineIn f name value) :=
  fun _ => ⟨rfl, rfl, rfl⟩

theorem define (name : String) (value : Value) : Spares (define name value) :=
  fun _ => ⟨rfl, rfl, rfl⟩

theorem newFrame (parent : FrameId) (values : Bindings Value) : Spares (newFrame parent values) :=
  fun _ => ⟨rfl, rfl, rfl⟩

theorem assignVariable (id : NodeId) (name : Token) (value : Value) :
    Spares (assignVariable id name value) := by
  refine (gets _).bind fun found => ?_
  cases found with
  | some f => exact defineIn f _ value
  | none => exact fault name _

theorem assignName (name : Token) (value : Value) : Spares (assignName name value) := by
  refine (gets _).bind fun found => ?_
  cases found with
  | some f => exact defineIn f _ value
  | none => exact fault name _

theorem readSuperclass (ref : Variable) : Spares (readSuperclass ref) := by
  refine (readVariable ref.id ref.name).bind fun value => ?_
  cases value with
  | cls c => exact pure c
  | _ => exact fault ref.name _

theorem readClock : Spares readClock := fun _ => ⟨rfl, rfl, rfl⟩

theorem write (piece : String) : Spares (write piece) := by
  intro m
  unfold Run.write
  cases m.sink.refusal m.sink.written piece <;> exact ⟨rfl, rfl, rfl⟩

theorem print (value : Value) : Spares (print value) :=
  (gets _).bind fun _ => (write _).bind fun _ => write "\n"

theorem flush : Spares flush := by
  intro m
  unfold Run.flush
  cases m.sink.flushRefusal <;> exact .refl m

end Spares

end Run

end Treewalk
