import Mathlib.Data.List.Nodup
import Treewalk.Proofs.Objects.Instances
import Treewalk.Proofs.Objects.Receivers
import Treewalk.Proofs.Run.Restored
import Treewalk.Proofs.Run.Returned

/-!
# Calls of classes and of initializers

What a call that completes has done, read off the evaluator one construct at a time: a call of a
class made one new instance and ran the nearest initializer on it once; and a call of a bound
initializer, however it was come by, yields the instance that it is bound to.
-/

namespace Treewalk

open Run

/-- The machine when the body of an initializer begins: the new instance is there, a frame that
binds `this` to it stands around one that binds the parameters, and one more call is in progress. -/
def Machine.constructing (m : Machine) (c : ClassId) (initializer : Closure)
    (arguments : List Value) : Machine :=
  let made := m.store.pushInstance ⟨c, ∅⟩
  let this := (∅ : Bindings Value).put thisName (.object m.store.instances.size)
  let bound := made.pushFrame this (some initializer.frame)
  let parameters := initializer.decl.bindArguments arguments
  { m with
    store := bound.pushFrame parameters (some made.frames.next)
    env := bound.frames.next
    depth := m.depth + 1 }

/-- The new instance is `this`, and each parameter is bound to its argument. -/
structure Machine.Begins (m : Machine) (c : ClassId) (initializer : Closure)
    (arguments : List Value) : Prop where
  size : arguments.length = initializer.decl.params.length
  this : let begun := m.constructing c initializer arguments
    begun.store.frames.getAt? begun.env 1 thisName = some (.object m.store.instances.size)
  parameters : ∀ (k : Nat) param value, initializer.decl.params[k]? = some param →
    arguments[k]? = some value →
    let begun := m.constructing c initializer arguments
    begun.store.frames.getAt? begun.env 0 param.lexeme = some value

/-- The machine behind a call of a class that completes: a new instance is there, and if the class
finds an initializer then its body has run, once. -/
inductive Machine.Constructed (m : Machine) (c : ClassId) (arguments : List Value) :
    Option Closure → Machine → Prop where
  | plain : arguments = [] →
      Constructed m c arguments none { m with store := m.store.pushInstance ⟨c, ∅⟩ }
  | initialized {initializer steps flow m'} : m.Begins c initializer arguments →
      inOrder (execute steps) initializer.decl.body (m.constructing c initializer arguments) =
        .ok flow m' →
      Constructed m c arguments (some initializer) { m' with env := m.env, depth := m.depth }

/-! ## What a call that completes has done -/

/-- The body of a function ran in its frame; an initializer yields what its own frame binds, and any
other function what its body came to. -/
theorem invoke_ok {n : Nat} {f : Closure} {arguments : List Value} {m m' : Machine} {value : Value}
    (ran : invoke n f arguments m = .ok value m') :
    ∃ steps flow m₁, inOrder (execute steps) f.decl.body
        { m with
          store := m.store.pushFrame (f.decl.bindArguments arguments) (some f.frame)
          env := m.store.frames.next } = .ok flow m₁ ∧
      m' = { m₁ with env := m.env } ∧
      (f.isInitializer = true →
        value = (m'.store.frames.lookup? f.frame thisName).getD .nil) ∧
      (f.isInitializer = false → value = flow.yielded) := by
  cases n with
  | zero => cases ran
  | succ n =>
    simp only [invoke, bind, EStateM.bind, newFrame, inFrame] at ran
    generalize body : inOrder (execute n) f.decl.body _ = result at ran
    cases result with
    | error e m₁ => cases ran
    | ok flow m₁ =>
      refine ⟨n, flow, m₁, body, ?_⟩
      dsimp only at ran
      by_cases kind : f.isInitializer = true
      · rw [if_pos kind] at ran
        cases ran
        exact ⟨rfl, fun _ => rfl, fun other => Bool.noConfusion (kind.symm.trans other)⟩
      · rw [if_neg kind] at ran
        cases flow <;> cases ran <;>
          exact ⟨rfl, fun initializes => absurd initializes kind, fun _ => rfl⟩

/-- One more call was in progress meanwhile. -/
theorem oneDeeper_ok {paren : Token} {run : Run Value} {m m' : Machine} {value : Value}
    (ran : oneDeeper paren run m = .ok value m') :
    ∃ m₁, run { m with depth := m.depth + 1 } = .ok value m₁ ∧
      m' = { m₁ with depth := m₁.depth - 1 } := by
  unfold Run.oneDeeper at ran
  split at ran
  · cases ran
  · split at ran
    · next value₁ m₁ inside =>
      cases ran
      exact ⟨m₁, inside, rfl⟩
    · cases ran

/-- What a call of a class does once its arguments are counted. -/
def Run.construct (n : Nat) (c : ClassId) (initializer : Option Closure)
    (arguments : List Value) : Run Value := do
  let i ← newInstance c
  match initializer with
  | none => pure (.object i)
  | some method =>
    let bound ← bindMethod method i
    let _ ← invoke n bound arguments
    pure (.object i)

theorem callValue_cls {m : Machine} {c : ClassId} (known : c < m.store.classes.size) (n : Nat)
    (paren : Token) (arguments : List Value) :
    callValue (n + 1) (.cls c) paren arguments m =
      (let callable := Store.Callable.cls c (m.store.method? c initializerName)
      if arguments.length ≠ callable.arity then
        fault paren (.wrongArity callable.arity arguments.length) m
      else oneDeeper paren (construct n c (m.store.method? c initializerName) arguments) m) := by
  simp only [callValue, bind, EStateM.bind, gets, Store.callable?, if_pos known]
  split <;> rfl

theorem callValue_function {m : Machine} {f : FunctionId} {closure : Closure}
    (known : m.store.functions[f]? = some closure) (n : Nat) (paren : Token)
    (arguments : List Value) :
    callValue (n + 1) (.function f) paren arguments m =
      if arguments.length ≠ closure.decl.params.length then
        fault paren (.wrongArity closure.decl.params.length arguments.length) m
      else oneDeeper paren (invoke n closure arguments) m := by
  simp only [callValue, bind, EStateM.bind, gets, Store.callable?, known, Option.map_some,
    Store.Callable.arity]
  exact apply_ite (fun run : Run Value => run m) _ _ _

/-- A bound function that is an initializer yields what its own frame binds `this` to. -/
theorem callValue_initializer_ok {n : Nat} {paren : Token} {arguments : List Value}
    {m m' : Machine} {f : FunctionId} {closure : Closure} {value : Value}
    (known : m.store.functions[f]? = some closure) (kind : closure.isInitializer = true)
    (ran : callValue n (.function f) paren arguments m = .ok value m') :
    value = (m'.store.frames.lookup? closure.frame thisName).getD .nil := by
  cases n with
  | zero => cases ran
  | succ n =>
    rw [callValue_function known] at ran
    split at ran
    · cases ran
    · obtain ⟨m₁, inside, rfl⟩ := oneDeeper_ok ran
      obtain ⟨-, -, -, -, -, yields, -⟩ := invoke_ok inside
      exact yields kind

/-- A class whose initializer has other parameters does not even begin to make an instance. -/
theorem callValue_cls_wrongArity {m : Machine} {c : ClassId} (known : c < m.store.classes.size)
    (n : Nat) (paren : Token) {arguments : List Value} {demanded : Nat}
    (demands : demanded = (Store.Callable.cls c (m.store.method? c initializerName)).arity)
    (other : arguments.length ≠ demanded) :
    callValue (n + 1) (.cls c) paren arguments m =
      .error (.fault ⟨.wrongArity demanded arguments.length, paren.line⟩) m := by
  subst demands
  rw [callValue_cls known]
  dsimp only
  rw [if_pos other]
  rfl

/-- No parameter of an initializer comes twice. -/
def Closure.Distinct (f : Closure) : Prop := (f.decl.params.map (·.lexeme)).Nodup

theorem Bindings.get?_ofList_of_mem {α : Type} {pairs : List (String × α)} {name : String}
    {value : α} (distinct : (pairs.map (·.1)).Nodup) (member : (name, value) ∈ pairs) :
    (ofList pairs).get? name = some value := by
  have bound : ((ofList pairs).get? name).isSome = true :=
    (get?_ofList_isSome pairs name).2 (List.mem_map_of_mem member)
  obtain ⟨other, found⟩ := Option.isSome_iff_exists.1 bound
  have same := List.inj_on_of_nodup_map distinct (mem_of_get?_ofList found) member rfl
  rw [found, (Prod.mk.inj same).2]

/-- Each parameter is bound to the argument in its place. -/
theorem FunctionDecl.get?_bindArguments {decl : FunctionDecl} {arguments : List Value}
    (distinct : (decl.params.map (·.lexeme)).Nodup)
    (size : arguments.length = decl.params.length) {k : Nat} {param : Token} {value : Value}
    (listed : decl.params[k]? = some param) (given : arguments[k]? = some value) :
    (decl.bindArguments arguments).get? param.lexeme = some value := by
  have names : ((decl.params.map (·.lexeme)).zip arguments).map (·.1) =
      decl.params.map (·.lexeme) :=
    List.map_fst_zip (Nat.le_of_eq (by rw [List.length_map, size]))
  refine Bindings.get?_ofList_of_mem (by rw [names]; exact distinct)
    (List.mem_of_getElem? (i := k) ?_)
  rw [List.getElem?_zip_eq_some, List.getElem?_map, listed]
  exact ⟨rfl, given⟩

theorem Machine.begins {m : Machine} {c : ClassId} {initializer : Closure}
    {arguments : List Value} (distinct : initializer.Distinct)
    (size : arguments.length = initializer.decl.params.length) :
    m.Begins c initializer arguments where
  size := size
  this := by
    have parent : (m.constructing c initializer arguments).store.frames.parent?
        (m.constructing c initializer arguments).env = some m.store.frames.next := by
      simp only [Machine.constructing, Store.pushFrame, Store.pushInstance, Frames.parent?_push,
        if_true]
    show Frames.getAt? _ _ 1 _ = _
    rw [Frames.getAt?_succ parent, Frames.getAt?_zero]
    have before : m.store.frames.next ≠ m.store.frames.next + 1 := Nat.ne_of_lt (Nat.lt_succ_self _)
    simp [Machine.constructing, Store.pushFrame, Store.pushInstance, Frames.lookup?_push,
      Frames.next, Frames.size_push, Bindings.get?_put]
  parameters k param value listed given := by
    show Frames.getAt? _ _ 0 _ = _
    rw [Frames.getAt?_zero]
    simp only [Machine.constructing, Store.pushFrame, Frames.lookup?_push, if_true]
    exact FunctionDecl.get?_bindArguments distinct size listed given

/-- A call of a class that completes yields the instance that it made, and has run the initializer
that the class finds. -/
theorem callValue_cls_ok {n : Nat} {paren : Token} {arguments : List Value} {m m' : Machine}
    {c : ClassId} {value : Value} (known : c < m.store.classes.size)
    (distinct : ∀ f, m.store.method? c initializerName = some f → f.Distinct)
    (ran : callValue n (.cls c) paren arguments m = .ok value m') :
    value = .object m.store.instances.size ∧
      m.Constructed c arguments (m.store.method? c initializerName) m' := by
  cases n with
  | zero => cases ran
  | succ n =>
    rw [callValue_cls known] at ran
    dsimp only at ran
    split at ran
    · cases ran
    · next size =>
      have size := Decidable.not_not.1 size
      obtain ⟨m₁, inside, rfl⟩ := oneDeeper_ok ran
      cases found : m.store.method? c initializerName with
      | none =>
        rw [found] at inside size
        cases inside
        exact ⟨rfl, .plain (List.length_eq_zero_iff.1 size)⟩
      | some f =>
        rw [found] at inside size
        simp only [construct, bind, EStateM.bind, newInstance, bindMethod, newFrame, pure,
          EStateM.pure] at inside
        generalize invoked : invoke n _ arguments _ = result at inside
        cases result with
        | error e m₂ => cases inside
        | ok yielded m₂ =>
          cases inside
          obtain ⟨steps, flow, m₃, body, rfl, -⟩ := invoke_ok invoked
          have begins := Machine.begins (c := c) (m := m) (distinct f found) size
          have kept := (Keeps.inOrder (fun s => (KeptWithin.all steps).execute s) f.decl.body)
            (m.constructing c f arguments)
          have body : inOrder (execute steps) f.decl.body (m.constructing c f arguments) =
            .ok flow m₃ := body
          rw [body] at kept
          have depth : m₃.depth - 1 = m.depth := by rw [kept.depth]; rfl
          refine ⟨rfl, ?_⟩
          dsimp only
          rw [depth]
          exact .initialized begins body

/-- The new instance is one of the class when the call is over. -/
theorem Machine.Constructed.ofClass {m m' : Machine} {c : ClassId} {arguments : List Value}
    {initializer : Option Closure} (h : m.Constructed c arguments initializer m') :
    ∃ y, m'.store.instances[m.store.instances.size]? = some y ∧ y.ofClass = c := by
  have made : (m.store.instances.push ⟨c, ∅⟩)[m.store.instances.size]? = some ⟨c, ∅⟩ :=
    Array.getElem?_push_size
  cases h with
  | plain _ => exact ⟨⟨c, ∅⟩, made, rfl⟩
  | initialized _ ran => exact Instances.kept_body _ _ ran _ ⟨c, ∅⟩ made

/-! ## Along a session -/

/-- The account is one of a run of some programs, at a place where the frames attend the
receiver. -/
def Account.Situated (a : Account) : Prop :=
  ∃ texts c, a.Attended texts ∧
    a.machine.store.frames.Attends c a.machine.env a.receiver

/-- Every account of a session is situated. -/
theorem Chronicle.situated {k : Chronicle} (moments : ∀ p ∈ k.moments, p.Placed)
    (now : ∃ texts, k.now.Attended texts) : ∀ a ∈ k.accounts, a.Situated := by
  intro a member
  rcases List.mem_cons.1 member with rfl | older
  · obtain ⟨texts, attended⟩ := now
    exact ⟨texts, [], attended, trivial⟩
  · obtain ⟨p, listed, rfl⟩ := List.mem_map.1 older
    obtain ⟨texts, c, attended, -, attends⟩ := moments p listed
    exact ⟨texts, c, attended, attends⟩

namespace Account.Situated

variable {a : Account} (h : a.Situated)
include h

/-- The parameters of a method that a class finds are distinct. -/
theorem distinct {c : ClassId} {name : String} {f : Closure}
    (found : a.machine.store.method? c name = some f) : f.Distinct := by
  obtain ⟨texts, -, attended, -⟩ := h
  rw [attended.tells.method?] at found
  obtain ⟨method, search, rfl⟩ := Option.map_eq_some_iff.1 found
  obtain ⟨-, c, -, -, known⟩ := attended.search search
  rw [FunctionDecl.occurrences_eq, List.forall_mem_append] at known
  exact (Recorder.parameters_distinct fun o occurs => (known.1 o occurs).admissible).1

/-- A call leaves what `this` is bound to as it was, in every frame that there is. -/
theorem call_steady {n : Nat} {callee value : Value} {paren : Token} {arguments : List Value}
    {m' : Machine} (ran : callValue n callee paren arguments a.machine = .ok value m') :
    a.machine.store.frames.Steady m'.store.frames := by
  obtain ⟨texts, c, attended, attends⟩ := h
  have call := ((Chronicle.simulation texts).follows n).callValue callee paren arguments (c := c)
    a.machine ⟨a, []⟩ ⟨rfl, rfl, attended, List.forall_mem_nil _⟩ ⟨rfl, attends⟩
  rw [(Platform.agrees n).callValue, ran] at call
  revert call
  cases Chronicle.platform.callValue n callee (paren.relabel _) arguments ⟨a, []⟩ with
  | ok _ k =>
    rintro ⟨w, c', grown, -, -, ⟨rfl, same, -, -⟩, -⟩
    rw [same] at grown
    exact grown
  | error _ _ => exact False.elim

/-- A bound initializer that is called, and completes, yields the instance that it is bound to. -/
theorem initializer_yields {f : FunctionId} {closure : Closure} {self : Receiver}
    (known : a.machine.store.functions[f]? = some closure)
    (bound : a.history.origins[f]? = some (.bound self))
    (kind : closure.isInitializer = true) {n : Nat} {paren : Token}
    {arguments : List Value} {value : Value} {m' : Machine}
    (ran : callValue n (.function f) paren arguments a.machine = .ok value m') :
    value = .object self.object := by
  have steady := h.call_steady ran
  obtain ⟨texts, c, attended, -⟩ := h
  have binds := (attended.functions f closure _ known bound).2 self rfl
  rw [callValue_initializer_ok known kind ran, (binds.mono steady).this]
  rfl

/-- A bound function that is named as initializers are is one. -/
theorem isInitializer {f : FunctionId} {closure : Closure} {self : Receiver}
    (known : a.machine.store.functions[f]? = some closure)
    (bound : a.history.origins[f]? = some (.bound self))
    (named : closure.decl.name.lexeme = initializerName) : closure.isInitializer = true := by
  obtain ⟨texts, c, attended, -⟩ := h
  rw [((attended.functions f closure _ known bound).2 self rfl).kind, FunctionDecl.isInitializer,
    named]
  exact beq_self_eq_true _

end Account.Situated

/-- Along every session, with its chronicle beside it, and at each of its accounts: a class demands
as many arguments as the nearest initializer has parameters, and none if there is none; a call of it
that completes yields an instance that was not there before, one of that very class, on which that
initializer has run once, with its parameters bound to the arguments in order; and a call of an
initializer that is bound, whether it was read off an instance or by way of `super`, yields the
instance that it is bound to whenever it completes. -/
theorem constructors_exact (sink : Sink) (clock : Nat → Float)
    (batches : List (Nat × List UInt8)) :
    let session := (Session.start sink clock).runAll batches
    let told := Chronicle.runAll sink clock batches
    (told.1 = session.1 ∧ told.2.state.now.machine = session.2.machine) ∧
    ∀ a ∈ told.2.state.accounts,
      (∀ c, c < a.machine.store.classes.size → ∃ initializer,
        a.history.Nearest initializerName c initializer ∧
        ∀ paren arguments,
          (∀ demanded,
            demanded = (initializer.map fun f => f.closure.decl.params.length).getD 0 →
            arguments.length ≠ demanded → ∀ steps,
            callValue (steps + 1) (.cls c) paren arguments a.machine =
              .error (.fault ⟨.wrongArity demanded arguments.length, paren.line⟩) a.machine) ∧
          ∀ steps value m', callValue steps (.cls c) paren arguments a.machine = .ok value m' →
            ∃ i, value = .object i ∧ a.machine.store.instances[i]? = none ∧
              (∃ x, m'.store.instances[i]? = some x ∧ x.ofClass = c) ∧
              a.machine.Constructed c arguments (initializer.map (·.closure)) m') ∧
      ∀ (f : FunctionId) closure self, a.machine.store.functions[f]? = some closure →
        a.history.origins[f]? = some (.bound self) →
        closure.decl.name.lexeme = initializerName → ∀ steps paren arguments value m',
        callValue steps (.function f) paren arguments a.machine = .ok value m' →
        value = .object self.object := by
  obtain ⟨same, moments, lasting, now⟩ := Chronicle.runAll_told sink clock batches
  refine ⟨same, fun a member => ⟨fun c known => ?_, fun f closure self known bound named => ?_⟩⟩
  · have situated := Chronicle.situated moments now a member
    obtain ⟨initializer, nearest, search⟩ := (lasting.sound a member).nearest known initializerName
    have search : a.machine.store.method? c initializerName = initializer.map (·.closure) := search
    refine ⟨initializer, nearest, fun paren arguments => ⟨?_, fun steps value m' ran => ?_⟩⟩
    · intro demanded demands other steps
      refine callValue_cls_wrongArity known steps paren ?_ other
      rw [demands, search]
      cases initializer <;> rfl
    · obtain ⟨yields, constructed⟩ :=
        callValue_cls_ok known (fun f found => situated.distinct found) ran
      have constructed' := constructed
      rw [search] at constructed'
      exact ⟨_, yields, Array.getElem?_eq_none (Nat.le_refl _), constructed.ofClass, constructed'⟩
  · intro steps paren arguments value m' ran
    have situated := Chronicle.situated moments now a member
    exact situated.initializer_yields known bound (situated.isInitializer known bound named) ran

end Treewalk
